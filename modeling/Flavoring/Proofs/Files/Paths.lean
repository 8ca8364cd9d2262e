import Flavoring.Files.Path
import Mathlib.Data.List.Basic
import Mathlib.Data.List.Induction
import Mathlib.Data.List.TakeWhile

/-!
Paths and the pieces between their slashes. A path that goes on from another one by names has the
pieces of that one, less an empty piece at its end, and then the names.
-/

namespace Flavoring.Files

/-- What a file or folder can be called. -/
structure IsName (name : String) : Prop where
  ne_empty : name ≠ ""
  ne_current : name ≠ "."
  ne_parent : name ≠ ".."
  no_slash : '/' ∉ name.toList

instance (name : String) : Decidable (IsName name) :=
  decidable_of_iff (name ≠ "" ∧ name ≠ "." ∧ name ≠ ".." ∧ '/' ∉ name.toList)
    ⟨fun ⟨h, h', h'', h'''⟩ => ⟨h, h', h'', h'''⟩,
      fun h => ⟨h.ne_empty, h.ne_current, h.ne_parent, h.no_slash⟩⟩

theorem forall_isName_concat {names : List String} {name : String} :
    (∀ x ∈ names ++ [name], IsName x) ↔ (∀ x ∈ names, IsName x) ∧ IsName name := by
  rw [List.forall_mem_append, List.forall_mem_singleton]

namespace Path

variable {p q : Path} {name : String} {names : List String}

/-! Pieces -/

theorem split_eq_splitOn (cs : List Char) : split cs = cs.splitOn '/' := by
  induction cs with
  | nil => rfl
  | cons c cs ih =>
    rw [split, List.splitOn_cons_eq_if_modifyHead, ih]
    by_cases h : c = '/'
    · simp [h]
    · rw [if_neg h, if_neg (by simpa using h)]
      cases hsplit : cs.splitOn '/' with
      | nil => exact absurd hsplit (List.splitOn_ne_nil _ _)
      | cons piece pieces => rfl

theorem pieces_eq (p : Path) : p.pieces = (p.text.toList.splitOn '/').map String.ofList := by
  rw [pieces, split_eq_splitOn]

theorem toList_joinPieces (ps : List String) :
    (joinPieces ps).toList = ['/'].intercalate (ps.map String.toList) := by
  induction ps with
  | nil => rfl
  | cons piece ps ih =>
    cases ps with
    | nil => simp [joinPieces]
    | cons next more =>
      rw [joinPieces, String.toList_append, String.toList_append, ih]
      simp only [List.map_cons, List.intercalate_cons_cons]
      rfl
      exact nofun

theorem joinPieces_pieces (p : Path) : joinPieces p.pieces = p.text := by
  rw [← String.toList_inj, toList_joinPieces, pieces_eq, List.map_map]
  have hround : String.toList ∘ String.ofList = id := funext fun cs => String.toList_ofList
  rw [hround, List.map_id, List.intercalate_splitOn]

theorem pieces_joinPieces {ps : List String} (h : ∀ x ∈ ps, '/' ∉ x.toList) (hne : ps ≠ []) :
    (⟨joinPieces ps⟩ : Path).pieces = ps := by
  rw [pieces_eq, toList_joinPieces, List.splitOn_intercalate, List.map_map]
  · have hround : String.ofList ∘ String.toList = id := funext fun _ => String.ofList_toList
    rw [hround, List.map_id]
  · intro cs hcs
    obtain ⟨x, hx, rfl⟩ := List.mem_map.mp hcs
    exact h x hx
  · simpa using hne

theorem eq_of_pieces_eq (h : p.pieces = q.pieces) : p = q := by
  have htext : p.text = q.text := by rw [← joinPieces_pieces, h, joinPieces_pieces]
  cases p
  cases q
  exact congrArg mk htext

theorem pieces_ne_nil (p : Path) : p.pieces ≠ [] := by
  simp [pieces_eq]

theorem pieces_slash (a b : String) :
    (⟨a ++ "/" ++ b⟩ : Path).pieces = (⟨a⟩ : Path).pieces ++ (⟨b⟩ : Path).pieces := by
  simp only [pieces_eq, String.toList_append, ← List.map_append]
  congr 1
  simp only [List.splitOn]
  have hslash : (· == '/') '/' = true := rfl
  have hsplit := List.splitOnP_append_cons (p := (· == '/')) a.toList b.toList hslash
  simpa using hsplit

theorem pieces_of_no_slash {x : String} (h : '/' ∉ x.toList) : (⟨x⟩ : Path).pieces = [x] := by
  have hall : ∀ y ∈ [x], '/' ∉ y.toList := List.forall_mem_singleton.mpr h
  exact pieces_joinPieces hall (List.cons_ne_nil _ _)

theorem no_slash_of_mem_split {piece : List Char} (cs : List Char) (h : piece ∈ split cs) :
    '/' ∉ piece := by
  fun_induction split cs generalizing piece with
  | case1 => simp_all
  | case2 cs ih =>
    obtain rfl | h := List.mem_cons.mp h
    · exact List.not_mem_nil
    · exact ih h
  | case3 c cs hc first more hsplit ih =>
    rw [hsplit] at ih
    obtain rfl | h := List.mem_cons.mp h
    · rw [List.mem_cons, not_or]
      exact ⟨Ne.symm hc, ih List.mem_cons_self⟩
    · exact ih (List.mem_cons_of_mem first h)
  | case4 c cs hc hsplit =>
    rw [split_eq_splitOn] at hsplit
    exact absurd hsplit (List.splitOn_ne_nil _ _)

theorem no_slash_of_mem_pieces {x : String} (h : x ∈ p.pieces) : '/' ∉ x.toList := by
  obtain ⟨piece, hpiece, rfl⟩ := List.mem_map.mp h
  rw [String.toList_ofList]
  exact no_slash_of_mem_split _ hpiece

/-! Going on from a path -/

/-- The pieces of a path that stand before those of a path from here on. -/
def front (p : Path) : List String :=
  if p.pieces.getLast? = some "" then p.pieces.dropLast else p.pieces

theorem pieces_eq_front (p : Path) : p.pieces = p.front ∨ p.pieces = p.front ++ [""] := by
  rw [front]
  split
  next h => exact .inr (List.dropLast_append_getLast? "" h).symm
  next => exact .inl rfl

theorem isAbsolute_iff : p.isAbsolute = true ↔ ∃ rest, rest ≠ [] ∧ p.pieces = "" :: rest := by
  constructor
  · intro h
    obtain ⟨text⟩ := p
    obtain ⟨cs, hcs⟩ : ∃ cs, text.toList = '/' :: cs := by
      simp only [isAbsolute, beq_iff_eq] at h
      exact ⟨text.toList.tail, (List.cons_head?_tail h).symm⟩
    have htext : text = "" ++ "/" ++ String.ofList cs := by
      rw [← String.toList_inj, hcs]
      simp
    rw [htext, pieces_slash]
    exact ⟨_, pieces_ne_nil _, rfl⟩
  · rintro ⟨rest, hne, hpieces⟩
    obtain ⟨next, more, rfl⟩ := List.exists_cons_of_ne_nil hne
    rw [isAbsolute, ← joinPieces_pieces, hpieces, joinPieces]
    · simp
    · exact nofun

theorem joinPieces_cons_cons (x y : String) (ps : List String) :
    joinPieces (x :: y :: ps) = x ++ "/" ++ joinPieces (y :: ps) := rfl

theorem joinPieces_concat {ps : List String} (h : ps ≠ []) (x : String) :
    joinPieces (ps ++ [x]) = joinPieces ps ++ "/" ++ x := by
  induction ps with
  | nil => exact absurd rfl h
  | cons piece ps ih =>
    cases ps with
    | nil => rfl
    | cons next more =>
      rw [List.cons_append, List.cons_append, joinPieces_cons_cons, joinPieces_cons_cons,
        ← List.cons_append, ih (List.cons_ne_nil _ _)]
      simp only [String.append_assoc]

-- A text that ends in a slash has an empty piece at its end.
theorem getLast?_pieces (h : p.text.toList.getLast? = some '/') :
    p.pieces.getLast? = some "" := by
  obtain ⟨text⟩ := p
  have htext : text = String.ofList text.toList.dropLast ++ "/" ++ "" := by
    rw [← String.toList_inj]
    simpa using (List.dropLast_append_getLast? '/' h).symm
  rw [htext, pieces_slash, pieces_of_no_slash (x := "") (by simp), List.getLast?_concat]

theorem pieces_join (h : q.isAbsolute = false) : (p.join q).pieces = p.front ++ q.pieces := by
  by_cases hlast : p.pieces.getLast? = some ""
  · have hfront : p.front = p.pieces.dropLast := if_pos hlast
    have hsplit := List.dropLast_append_getLast? "" hlast
    rw [← hfront] at hsplit
    by_cases hnil : p.front = []
    · have htext : p.text = "" := by rw [← joinPieces_pieces, ← hsplit, hnil]; rfl
      simp [join, htext, hnil]
    · have htext : p.text = joinPieces p.front ++ "/" := by
        rw [← joinPieces_pieces, ← hsplit, joinPieces_concat hnil, String.append_empty]
      have hjoin : p.join q = ⟨joinPieces p.front ++ "/" ++ q.text⟩ := by
        simp [join, htext, h]
      rw [hjoin, pieces_slash, pieces_joinPieces _ hnil]
      intro x hx
      exact no_slash_of_mem_pieces (hsplit ▸ List.mem_append_left _ hx)
  · have hfront : p.front = p.pieces := if_neg hlast
    have hempty : p.text.isEmpty = false := by
      rw [Bool.eq_false_iff]
      intro hempty
      rw [String.isEmpty_iff] at hempty
      obtain ⟨text⟩ := p
      subst hempty
      exact hlast rfl
    have hslash : (p.text.toList.getLast? == some '/') = false := by
      rw [beq_eq_false_iff_ne]
      exact fun hslash => hlast (getLast?_pieces hslash)
    have hjoin : p.join q = ⟨p.text ++ "/" ++ q.text⟩ := by
      rw [join, h, hempty, Bool.or_false, if_neg Bool.false_ne_true, hslash,
        if_neg Bool.false_ne_true]
    rw [hjoin, pieces_slash, hfront]

theorem isAbsolute_of_name (h : IsName name) : (⟨name⟩ : Path).isAbsolute = false := by
  rw [isAbsolute, beq_eq_false_iff_ne]
  intro hhead
  obtain ⟨cs, hcs⟩ := List.head?_eq_some_iff.mp hhead
  exact h.no_slash (hcs ▸ List.mem_cons_self)

theorem pieces_join_name (h : IsName name) : (p.join ⟨name⟩).pieces = p.front ++ [name] := by
  rw [pieces_join (isAbsolute_of_name h), pieces_of_no_slash h.no_slash]

theorem front_of_pieces {ps : List String} (h : p.pieces = ps ++ [name]) (hname : name ≠ "") :
    p.front = p.pieces := by
  rw [front, if_neg]
  simpa [h] using hname

theorem isAbsolute_join (h : q.isAbsolute = false) : (p.join q).isAbsolute = p.isAbsolute := by
  rw [join, h, Bool.false_or]
  by_cases hempty : p.text = ""
  · rw [if_pos (by simp [hempty]), h, isAbsolute, hempty]
    rfl
  · obtain ⟨c, cs, hcs⟩ := List.exists_cons_of_ne_nil (mt String.toList_eq_nil_iff.mp hempty)
    rw [if_neg (by simpa using hempty)]
    split <;> simp [isAbsolute, hcs]

/-- The path that goes on by names. -/
def descend (p : Path) (names : List String) : Path :=
  names.foldl (fun q name => q.join ⟨name⟩) p

theorem descend_append (p : Path) (names more : List String) :
    p.descend (names ++ more) = (p.descend names).descend more := List.foldl_append

theorem descend_concat (p : Path) (names : List String) (name : String) :
    p.descend (names ++ [name]) = (p.descend names).join ⟨name⟩ := descend_append p names [name]

theorem pieces_descend (h : ∀ name ∈ names, IsName name) (hne : names ≠ []) :
    (p.descend names).pieces = p.front ++ names := by
  induction names using List.reverseRecOn with
  | nil => exact absurd rfl hne
  | append_singleton names name ih =>
    rw [forall_isName_concat] at h
    rw [descend_concat, pieces_join_name h.2]
    obtain rfl | ⟨init, last, rfl⟩ := names.eq_nil_or_concat'
    · rfl
    · have hpieces := ih h.1 (by simp)
      have hlast := h.1 last (List.mem_append_right _ List.mem_cons_self)
      rw [← List.append_assoc] at hpieces
      rw [front_of_pieces hpieces hlast.ne_empty, hpieces]
      simp only [List.append_assoc]

theorem text_descend_ne_empty (h : ∀ name ∈ names, IsName name) (hne : names ≠ []) :
    (p.descend names).text ≠ "" := by
  intro htext
  have hpieces := pieces_descend (p := p) h hne
  have hempty : (p.descend names).pieces = [""] := by
    rw [pieces, htext]
    rfl
  obtain ⟨name, hname⟩ := List.exists_mem_of_ne_nil names hne
  have hmem : name ∈ (p.descend names).pieces := hpieces ▸ List.mem_append_right _ hname
  rw [hempty, List.mem_singleton] at hmem
  exact (h name hname).ne_empty hmem

theorem text_join_ne_empty (h : IsName name) : (p.join ⟨name⟩).text ≠ "" :=
  text_descend_ne_empty (List.forall_mem_singleton.mpr h) (List.cons_ne_nil _ _)

theorem isAbsolute_descend (h : ∀ name ∈ names, IsName name) :
    (p.descend names).isAbsolute = p.isAbsolute := by
  induction names using List.reverseRecOn with
  | nil => rfl
  | append_singleton names name ih =>
    rw [forall_isName_concat] at h
    rw [descend_concat, isAbsolute_join (isAbsolute_of_name h.2), ih h.1]

theorem joinPieces_of_pieces {ps : List String} (h : p.pieces = ps) : p = ⟨joinPieces ps⟩ := by
  obtain ⟨text⟩ := p
  rw [← h, joinPieces_pieces]

theorem trim_concat (ps : List String) (h : IsName name) : trim (ps ++ [name]) = ps ++ [name] := by
  simp [trim, h.ne_empty, h.ne_current]

theorem exists_trim (ps : List String) :
    ∃ junk, ps = trim ps ++ junk ∧ ∀ x ∈ junk, x = "" ∨ x = "." := by
  refine ⟨(ps.reverse.takeWhile fun x => x = "" ∨ x = ".").reverse, ?_, fun x hx => ?_⟩
  · rw [trim, ← List.reverse_append, List.takeWhile_append_dropWhile, List.reverse_reverse]
  · simpa using List.mem_takeWhile_imp (List.mem_reverse.mp hx)

/-! The path above -/

theorem parent?_of_pieces {first : String} {rest : List String}
    (h : p.pieces = first :: (rest ++ [name])) (hname : IsName name) :
    p.parent? =
      if p.isAbsolute then
        match trim rest with
        | [] => some ⟨"/"⟩
        | ps => some ⟨"/" ++ joinPieces ps⟩
      else some ⟨joinPieces (first :: trim rest)⟩ := by
  obtain ⟨x, xs, hx⟩ := List.exists_cons_of_ne_nil (l := rest ++ [name]) (by simp)
  have hwhole : trim (x :: xs) = x :: xs := hx ▸ trim_concat rest hname
  have hfront : (x :: xs).dropLast = rest := by rw [← hx, List.dropLast_concat]
  rw [parent?, h]
  cases htrim : trim rest <;> simp only [hx, hwhole, hfront, htrim]

theorem parent?_descend_concat (hnames : ∀ name ∈ names, IsName name) (hne : names ≠ [])
    (hname : IsName name) :
    (p.descend (names ++ [name])).parent? = some (p.descend names) := by
  obtain ⟨init, last, rfl⟩ := names.eq_nil_or_concat'.resolve_left hne
  have hlast := hnames last (List.mem_append_right _ List.mem_cons_self)
  have habove := pieces_descend (p := p) hnames hne
  have hall : ∀ x ∈ init ++ [last] ++ [name], IsName x := forall_isName_concat.mpr ⟨hnames, hname⟩
  have hbelow := pieces_descend (p := p) hall (by simp)
  have habsolute := (isAbsolute_descend (p := p) hall).trans (isAbsolute_descend hnames).symm
  rw [← List.append_assoc, ← habove] at hbelow
  obtain ⟨first, rest, hpieces⟩ := List.exists_cons_of_ne_nil (pieces_ne_nil
    (p.descend (init ++ [last])))
  -- What is above ends in a name, so that nothing is trimmed off.
  have htrim : trim rest = rest := by
    obtain rfl | ⟨before, x, rfl⟩ := rest.eq_nil_or_concat'
    · rfl
    · rw [habove, ← List.append_assoc, ← List.cons_append] at hpieces
      obtain rfl : last = x := List.singleton_inj.mp (List.append_inj' hpieces rfl).2
      exact trim_concat before hlast
  rw [parent?_of_pieces (by rw [hbelow, hpieces]; rfl) hname, htrim, habsolute]
  split
  next h =>
    obtain ⟨more, hmore, hroot⟩ := isAbsolute_iff.mp h
    rw [hpieces] at hroot
    obtain ⟨rfl, rfl⟩ := List.cons_eq_cons.mp hroot
    obtain ⟨next, more, rfl⟩ := List.exists_cons_of_ne_nil hmore
    rw [joinPieces_of_pieces hpieces, joinPieces_cons_cons, String.empty_append]
  next => rw [← joinPieces_of_pieces hpieces]

/-! Steps -/

/-- The pieces that lead somewhere. -/
def steps (p : Path) : List String := p.pieces.filter fun piece => piece ≠ "" ∧ piece ≠ "."

theorem filter_junk {junk : List String} (h : ∀ x ∈ junk, x = "" ∨ x = ".") :
    (junk.filter fun piece => piece ≠ "" ∧ piece ≠ ".") = [] := by
  rw [List.filter_eq_nil_iff]
  intro x hx
  obtain rfl | rfl := h x hx <;> decide

theorem filter_trim (ps : List String) :
    ((trim ps).filter fun piece => piece ≠ "" ∧ piece ≠ ".") =
      ps.filter fun piece => piece ≠ "" ∧ piece ≠ "." := by
  obtain ⟨junk, hsplit, hjunk⟩ := exists_trim ps
  conv_rhs => rw [hsplit, List.filter_append, filter_junk hjunk, List.append_nil]

theorem steps_eq_front (p : Path) :
    p.steps = p.front.filter fun piece => piece ≠ "" ∧ piece ≠ "." := by
  rw [steps]
  obtain h | h := p.pieces_eq_front
  · rw [h]
  · have hjunk : ([""].filter fun piece => piece ≠ "" ∧ piece ≠ ".") = [] := by decide
    rw [h, List.filter_append, hjunk, List.append_nil]

theorem no_slash_of_mem_front {x : String} (h : x ∈ p.front) : '/' ∉ x.toList := by
  obtain hpieces | hpieces := p.pieces_eq_front
  · exact no_slash_of_mem_pieces (hpieces ▸ h)
  · exact no_slash_of_mem_pieces (hpieces ▸ List.mem_append_left _ h)

theorem front_eq_nil (h : p.front = []) : p = ⟨""⟩ := by
  obtain hpieces | hpieces := p.pieces_eq_front
  · exact absurd (hpieces.trans h) p.pieces_ne_nil
  · rw [joinPieces_of_pieces hpieces, h]
    rfl

theorem mem_trim {x : String} {ps : List String} (h : x ∈ trim ps) : x ∈ ps := by
  obtain ⟨junk, hsplit, -⟩ := exists_trim ps
  rw [hsplit]
  exact List.mem_append_left _ h

theorem isAbsolute_of_cons {first : String} {rest : List String} (h : p.pieces = first :: rest) :
    p.isAbsolute = decide (first = "" ∧ rest ≠ []) := by
  rw [Bool.eq_iff_iff, isAbsolute_iff, h, decide_eq_true_eq]
  constructor
  · rintro ⟨more, hmore, heq⟩
    obtain ⟨rfl, rfl⟩ := List.cons_eq_cons.mp heq
    exact ⟨rfl, hmore⟩
  · rintro ⟨rfl, hrest⟩
    exact ⟨rest, hrest, rfl⟩

/-- What is above a name below a path leads through the same as that path. -/
theorem exists_parent?_join (h : IsName name) :
    ∃ up, (p.join ⟨name⟩).parent? = some up ∧ up.steps = p.steps ∧
      up.isAbsolute = p.isAbsolute := by
  have hpieces := pieces_join_name (p := p) h
  have habsolute := isAbsolute_join (p := p) (isAbsolute_of_name h)
  cases hfront : p.front with
  | nil =>
    obtain rfl := front_eq_nil hfront
    rw [hfront, List.nil_append] at hpieces
    rw [parent?, hpieces, habsolute]
    refine ⟨⟨""⟩, ?_, rfl, rfl⟩
    simp [isAbsolute, trim, h.ne_empty]
  | cons first rest =>
    rw [hfront, List.cons_append] at hpieces
    have hslash : ∀ x ∈ first :: trim rest, '/' ∉ x.toList := by
      intro x hx
      apply no_slash_of_mem_front (p := p)
      rw [hfront]
      obtain rfl | hx := List.mem_cons.mp hx
      · exact List.mem_cons_self
      · exact List.mem_cons_of_mem _ (mem_trim hx)
    have hup := pieces_joinPieces hslash (List.cons_ne_nil _ _)
    have hsteps : Path.steps ⟨joinPieces (first :: trim rest)⟩ = p.steps := by
      rw [steps, hup, steps_eq_front, hfront, List.filter_cons, List.filter_cons, filter_trim]
    have hfirst : p.isAbsolute = decide (first = "") := by
      rw [← habsolute, isAbsolute_of_cons hpieces]
      simp
    rw [parent?_of_pieces hpieces h, habsolute]
    by_cases hroot : first = ""
    · subst hroot
      rw [hfirst, decide_eq_true rfl, if_pos rfl]
      cases htrim : trim rest with
      | nil => exact ⟨⟨"/"⟩, rfl, by rw [← hsteps, htrim]; rfl, rfl⟩
      | cons next more =>
        refine ⟨_, rfl, ?_, ?_⟩
        · rw [← hsteps, htrim, joinPieces_cons_cons, String.empty_append]
        · rw [htrim, joinPieces_cons_cons, String.empty_append] at hup
          rw [isAbsolute_of_cons hup]
          simp
    · refine ⟨_, by rw [hfirst, decide_eq_false hroot]; rfl, hsteps, ?_⟩
      rw [isAbsolute_of_cons hup, hfirst]
      simp [hroot]

/-! Components -/

theorem component?_of_name (h : IsName name) : component? name = some (.name name) := by
  rw [component?, if_neg (by simp [h.ne_empty, h.ne_current]), if_neg h.ne_parent]

theorem filterMap_component?_names (h : ∀ name ∈ names, IsName name) :
    names.filterMap component? = names.map .name := by
  rw [List.filterMap_congr fun name hname => component?_of_name (h name hname),
    ← List.filterMap_eq_map]
  rfl

theorem components_of_cons {first : String} {rest : List String} (h : p.pieces = first :: rest) :
    p.components =
      (if p.isAbsolute then [.root] else if first = "." then [.current]
        else (component? first).toList) ++ rest.filterMap component? := by
  rw [components, h]

theorem components_join (h : IsName name) :
    (p.join ⟨name⟩).components = p.components ++ [.name name] := by
  have hpieces := pieces_join_name (p := p) h
  cases hfront : p.front with
  | nil =>
    obtain rfl := front_eq_nil hfront
    rw [hfront, List.nil_append] at hpieces
    rw [components_of_cons hpieces, isAbsolute_join (isAbsolute_of_name h), component?_of_name h,
      if_neg h.ne_current]
    rfl
  | cons first rest =>
    rw [hfront, List.cons_append] at hpieces
    rw [components_of_cons hpieces, isAbsolute_join (isAbsolute_of_name h), List.filterMap_append,
      ← List.append_assoc]
    congr 1
    · obtain hp | hp := p.pieces_eq_front
      · rw [components_of_cons (hp.trans hfront)]
      · rw [hfront, List.cons_append] at hp
        rw [components_of_cons hp, List.filterMap_append]
        simp [component?]
    · exact filterMap_component?_names (List.forall_mem_singleton.mpr h)

theorem components_descend (h : ∀ name ∈ names, IsName name) :
    (p.descend names).components = p.components ++ names.map .name := by
  induction names using List.reverseRecOn with
  | nil => simp [descend]
  | append_singleton names name ih =>
    rw [forall_isName_concat] at h
    rw [descend_concat, components_join h.2, ih h.1, List.map_append, List.append_assoc]
    rfl

theorem fileName?_join (h : IsName name) : (p.join ⟨name⟩).fileName? = some name := by
  rw [fileName?, components_join h, List.getLast?_concat]

/-! Names cut at their last dot -/

theorem cutName_of_extension {stem extension : String} (hstem : stem ≠ "")
    (hdot : '.' ∉ extension.toList) :
    cutName (stem ++ "." ++ extension) = (stem, some extension) := by
  have hback : (stem ++ "." ++ extension).toList.reverse =
      extension.toList.reverse ++ '.' :: stem.toList.reverse := by
    simp
  have hextension : ∀ c ∈ extension.toList.reverse, (c != '.') = true := by
    intro c hc
    rw [bne_iff_ne]
    rintro rfl
    exact hdot (List.mem_reverse.mp hc)
  rw [cutName]
  simp only [hback]
  rw [List.dropWhile_append_of_pos hextension, List.takeWhile_append_of_pos hextension]
  simp [hstem]

/-- A name is cut at its last dot, unless nothing comes before it. -/
theorem cutName_cases (name : String) :
    (∃ stem extension, name = stem ++ "." ++ extension ∧ stem ≠ "" ∧ '.' ∉ extension.toList) ∨
      cutName name = (name, none) := by
  -- from its end the name is an extension, a dot and the stem backwards
  have hback := List.takeWhile_append_dropWhile (p := (· != '.')) (l := name.toList.reverse)
  rw [cutName]
  cases hdrop : name.toList.reverse.dropWhile (· != '.') with
  | nil => exact .inr rfl
  | cons dot stem =>
    by_cases hstem : stem = []
    · exact .inr (by simp [hstem])
    · obtain rfl : dot = '.' := by
        have hdot := List.head_dropWhile_not (· != '.') (l := name.toList.reverse) (by simp [hdrop])
        simpa [hdrop] using hdot
      left
      refine ⟨String.ofList stem.reverse,
        String.ofList (name.toList.reverse.takeWhile (· != '.')).reverse, ?_, ?_, ?_⟩
      · rw [hdrop] at hback
        have hname := congrArg List.reverse hback
        rw [List.reverse_reverse] at hname
        rw [← String.toList_inj]
        simpa using hname.symm
      · rw [← String.toList_inj.ne]
        simpa using hstem
      · intro hmem
        rw [String.toList_ofList, List.mem_reverse] at hmem
        simpa using List.mem_takeWhile_imp hmem

theorem empty_join (q : Path) : (⟨""⟩ : Path).join q = q := by
  simp [join]

theorem fileName?_name (h : IsName name) : (⟨name⟩ : Path).fileName? = some name := by
  rw [← empty_join ⟨name⟩, fileName?_join h]

theorem isAbsolute_joinPieces (h : ∀ name ∈ names, IsName name) :
    (⟨joinPieces names⟩ : Path).isAbsolute = false := by
  by_cases hne : names = []
  · subst hne
    rfl
  · have hpieces := pieces_joinPieces (fun x hx => (h x hx).no_slash) hne
    obtain ⟨first, rest, rfl⟩ := List.exists_cons_of_ne_nil hne
    rw [isAbsolute_of_cons hpieces]
    simp [(h first List.mem_cons_self).ne_empty]

theorem descend_eq_join (h : ∀ name ∈ names, IsName name) (hne : names ≠ []) :
    p.join ⟨joinPieces names⟩ = p.descend names := by
  have hpieces := pieces_joinPieces (fun x hx => (h x hx).no_slash) hne
  apply eq_of_pieces_eq
  rw [pieces_join (isAbsolute_joinPieces h), hpieces, pieces_descend h hne]

theorem relativeTo?_descend (h : ∀ name ∈ names, IsName name) :
    (p.descend names).relativeTo? p = some ⟨joinPieces names⟩ := by
  have hnames (f : Component → Option String) (hf : ∀ name, f (.name name) = some name) :
      (names.map .name).filterMap f = names := by
    rw [List.filterMap_map, funext (f := f ∘ .name) hf]
    exact List.filterMap_some
  have hfront : p.components.isPrefixOf (p.components ++ names.map .name) = true :=
    List.isPrefixOf_iff_prefix.mpr (List.prefix_append _ _)
  rw [relativeTo?, components_descend h]
  simp only [hfront, if_true, List.drop_left]
  rw [hnames]
  exact fun _ => rfl

/-- The piece that a component is spelled as, unless it leads nowhere. -/
def stepOf? : Component → Option String
  | .name text => some text
  | .parent => some ".."
  | .current | .root => none

theorem component?_bind_stepOf? (piece : String) :
    (component? piece).bind stepOf? = if piece ≠ "" ∧ piece ≠ "." then some piece else none := by
  rw [component?]
  by_cases hjunk : piece = "" ∨ piece = "."
  · rw [if_pos hjunk, if_neg (by rwa [← not_or, not_not])]
    rfl
  · rw [if_neg hjunk, if_pos (not_or.mp hjunk)]
    split
    next hparent => exact congrArg some hparent.symm
    next => rfl

theorem filterMap_stepOf? (ps : List String) :
    (ps.filterMap component?).filterMap stepOf? =
      ps.filter fun piece => piece ≠ "" ∧ piece ≠ "." := by
  rw [List.filterMap_filterMap, ← List.filterMap_eq_filter]
  apply List.filterMap_congr
  intro piece _
  rw [component?_bind_stepOf?, Option.guard]
  simp

theorem steps_eq_components (p : Path) : p.steps = p.components.filterMap stepOf? := by
  obtain ⟨first, rest, hpieces⟩ := List.exists_cons_of_ne_nil p.pieces_ne_nil
  rw [steps, hpieces, components_of_cons hpieces, List.filterMap_append, filterMap_stepOf?,
    ← List.singleton_append, List.filter_append, List.append_left_inj]
  split
  next habsolute =>
    obtain ⟨rfl, -⟩ : first = "" ∧ rest ≠ [] := by
      rwa [isAbsolute_of_cons hpieces, decide_eq_true_eq] at habsolute
    rfl
  next =>
    split
    next hcurrent => rw [hcurrent]; rfl
    next =>
      rw [← filterMap_stepOf? [first]]
      cases hfirst : component? first <;> simp [hfirst]

theorem component?_ne_root (piece : String) : component? piece ≠ some .root := by
  rw [component?]
  split
  · exact nofun
  · split <;> exact nofun

theorem isAbsolute_eq_components (p : Path) :
    p.isAbsolute = (p.components.head? == some .root) := by
  obtain ⟨first, rest, hpieces⟩ := List.exists_cons_of_ne_nil p.pieces_ne_nil
  rw [components_of_cons hpieces]
  by_cases habsolute : p.isAbsolute = true
  · simp [habsolute]
  · have hrest : Component.root ∉ rest.filterMap component? := by
      rw [List.mem_filterMap]
      rintro ⟨piece, -, hpiece⟩
      exact component?_ne_root piece hpiece
    have hfirst : Component.root ∉ (component? first).toList := by
      rw [Option.mem_toList]
      exact component?_ne_root first
    rw [Bool.not_eq_true] at habsolute
    rw [habsolute, eq_comm, beq_eq_false_iff_ne]
    intro hhead
    have hroot := List.mem_of_mem_head? hhead
    rw [if_neg Bool.false_ne_true, List.mem_append] at hroot
    split at hroot
    · simp [hrest] at hroot
    · exact hroot.elim hfirst hrest

theorem sameAs_iff : p.sameAs q = true ↔ p.components = q.components := beq_iff_eq

/-- Paths that have the same components lead through the same, from the same place. -/
theorem steps_of_sameAs (h : p.sameAs q = true) :
    p.steps = q.steps ∧ p.isAbsolute = q.isAbsolute := by
  rw [sameAs_iff] at h
  rw [steps_eq_components, steps_eq_components, isAbsolute_eq_components, isAbsolute_eq_components,
    h]
  exact ⟨rfl, rfl⟩

end Path

end Flavoring.Files
