import Flavoring.Files.Store
import Flavoring.Proofs.Files.Paths
import Flavoring.Proofs.Files.Views
import Mathlib.Data.List.Infix
import Mathlib.Data.List.Nodup

/-!
Places in a store: what names lead to from its root folder, and where paths lead.
-/

namespace Flavoring.Files

/-- What is at a place. -/
inductive Spot where
  | file (content : ByteArray)
  | folder

instance : DecidableEq Spot
  | .file content, .file content' =>
    decidable_of_iff (content.data = content'.data)
      ⟨fun h => congrArg Spot.file (ByteArray.ext h), fun h => congrArg ByteArray.data (Spot.file.inj h)⟩
  | .file _, .folder => .isFalse nofun
  | .folder, .file _ => .isFalse nofun
  | .folder, .folder => .isTrue rfl

def Spot.kind : Spot → Kind
  | file _ => .file
  | folder => .folder

namespace Entry

variable {e tree : Entry} {name key : String} {place steps more : List String}
  {entries : List (String × Entry)}

def spot : Entry → Spot
  | file content => .file content
  | folder _ => .folder

mutual

/-- Names are names, and no two in a folder are the same. -/
def isTidy : Entry → Bool
  | file _ => true
  | folder entries => decide (entries.map Prod.fst).Nodup && areTidy entries

def areTidy : List (String × Entry) → Bool
  | [] => true
  | (name, e) :: more => decide (IsName name) && isTidy e && areTidy more

end

theorem find?_append (e : Entry) (place more : List String) :
    e.find? (place ++ more) = (e.find? place).bind (·.find? more) := by
  induction place generalizing e with
  | nil => simp [find?]
  | cons name place ih =>
    cases e with
    | file content => rfl
    | folder entries =>
      rw [List.cons_append, find?, find?]
      cases entries.lookup name with
      | none => rfl
      | some inner => exact ih inner

theorem lookup_isSome_iff : (entries.lookup key).isSome = true ↔ key ∈ entries.map Prod.fst := by
  rw [Option.isSome_iff_ne_none, ne_eq, List.lookup_eq_none_iff]
  simp

theorem areTidy_iff :
    areTidy entries = true ↔ ∀ entry ∈ entries, IsName entry.1 ∧ entry.2.isTidy = true := by
  induction entries with
  | nil => simp [areTidy]
  | cons entry entries ih =>
    obtain ⟨name, e⟩ := entry
    rw [areTidy, Bool.and_eq_true, Bool.and_eq_true, decide_eq_true_eq, ih, List.forall_mem_cons]

theorem isTidy_folder_iff :
    (folder entries).isTidy = true ↔
      (entries.map Prod.fst).Nodup ∧ ∀ entry ∈ entries, IsName entry.1 ∧ entry.2.isTidy = true := by
  rw [isTidy, Bool.and_eq_true, decide_eq_true_eq, areTidy_iff]

theorem mem_of_lookup (h : entries.lookup key = some e) : (key, e) ∈ entries := by
  obtain ⟨before, after, rfl, -⟩ := List.lookup_eq_some_iff.mp h
  simp

theorem isTidy_of_find? (htidy : tree.isTidy = true) (h : tree.find? place = some e) :
    e.isTidy = true := by
  induction place generalizing tree with
  | nil =>
    obtain rfl := Option.some.inj h
    exact htidy
  | cons name place ih =>
    cases tree with
    | file content => cases h
    | folder entries =>
      obtain ⟨inner, hlookup, hfind⟩ := Option.bind_eq_some_iff.mp h
      exact ih ((isTidy_folder_iff.mp htidy).2 _ (mem_of_lookup hlookup)).2 hfind

/-! Putting an entry -/

theorem lookup_putIn (name : String) (e : Entry) (entries : List (String × Entry)) (key : String) :
    (putIn name e entries).lookup key = if key = name then some e else entries.lookup key := by
  induction entries with
  | nil =>
    by_cases h : key = name
    · simp [putIn, h]
    · simp [putIn, List.lookup_cons, beq_eq_false_iff_ne.mpr h, h]
  | cons entry entries ih =>
    obtain ⟨first, old⟩ := entry
    rw [putIn]
    by_cases hname : first = name
    · subst hname
      rw [if_pos rfl]
      by_cases h : key = first
      · simp [h]
      · simp [List.lookup_cons, beq_eq_false_iff_ne.mpr h, h]
    · rw [if_neg hname]
      by_cases h : key = first
      · subst h
        simp [hname]
      · simp only [List.lookup_cons, beq_eq_false_iff_ne.mpr h]
        exact ih

theorem map_fst_putIn (name : String) (e : Entry) (entries : List (String × Entry)) :
    (putIn name e entries).map Prod.fst =
      if name ∈ entries.map Prod.fst then entries.map Prod.fst
      else entries.map Prod.fst ++ [name] := by
  induction entries with
  | nil => rfl
  | cons entry entries ih =>
    obtain ⟨first, old⟩ := entry
    rw [putIn]
    by_cases hname : first = name
    · simp [hname]
    · rw [if_neg hname, List.map_cons, ih]
      simp only [List.map_cons, List.mem_cons, Ne.symm hname, false_or]
      split <;> rfl

theorem mem_putIn {entry : String × Entry} (h : entry ∈ putIn name e entries) :
    entry = (name, e) ∨ entry ∈ entries := by
  induction entries with
  | nil => exact .inl (List.mem_singleton.mp h)
  | cons first entries ih =>
    rw [putIn] at h
    split at h
    next hname =>
      obtain rfl | h := List.mem_cons.mp h
      · exact .inl (by rw [hname])
      · exact .inr (List.mem_cons_of_mem _ h)
    next =>
      obtain rfl | h := List.mem_cons.mp h
      · exact .inr List.mem_cons_self
      · exact (ih h).imp_right (List.mem_cons_of_mem _)

theorem isTidy_put (hname : IsName name) (he : e.isTidy = true) (htidy : tree.isTidy = true)
    (steps : List String) : (put name e steps tree).isTidy = true := by
  induction steps generalizing tree with
  | nil =>
    cases tree with
    | file content => rfl
    | folder entries =>
      obtain ⟨hnodup, hentries⟩ := isTidy_folder_iff.mp htidy
      rw [put, isTidy_folder_iff, map_fst_putIn]
      refine ⟨?_, fun entry hentry => ?_⟩
      · split
        · exact hnodup
        next hfree => simpa using hnodup.concat hfree
      · obtain rfl | hentry := mem_putIn hentry
        · exact ⟨hname, he⟩
        · exact hentries entry hentry
  | cons step steps ih =>
    cases tree with
    | file content => rfl
    | folder entries =>
      obtain ⟨hnodup, hentries⟩ := isTidy_folder_iff.mp htidy
      rw [put, isTidy_folder_iff, List.map_map]
      refine ⟨hnodup, fun entry hentry => ?_⟩
      obtain ⟨⟨key, inner⟩, hmem, rfl⟩ := List.mem_map.mp hentry
      obtain ⟨hkey, hinner⟩ := hentries _ hmem
      refine ⟨hkey, ?_⟩
      change (if key = step then put name e steps inner else inner).isTidy = true
      split
      · exact ih hinner
      · exact hinner

theorem lookup_map (f : String → Entry → Entry) (entries : List (String × Entry)) (key : String) :
    (entries.map fun (k, inner) => (k, f k inner)).lookup key = (entries.lookup key).map (f key) := by
  induction entries with
  | nil => rfl
  | cons entry entries ih =>
    obtain ⟨k, inner⟩ := entry
    by_cases h : key = k
    · subst h
      simp
    · simp only [List.map_cons, List.lookup_cons, beq_eq_false_iff_ne.mpr h]
      exact ih

theorem exists_of_spot_folder (h : (tree.find? place).map spot = some .folder) :
    ∃ entries, tree.find? place = some (folder entries) := by
  obtain ⟨e, hfind, hspot⟩ := Option.map_eq_some_iff.mp h
  cases e with
  | file content => cases hspot
  | folder entries => exact ⟨entries, hfind⟩

theorem spot_find?_put_nil (hfree : ((folder entries).find? [name]).map spot ≠ some .folder)
    (he : ∀ key more, e.find? (key :: more) = none) (place : List String) :
    ((put name e [] (folder entries)).find? place).map spot =
      if place = [name] then some e.spot else ((folder entries).find? place).map spot := by
  rw [put]
  cases place with
  | nil => rfl
  | cons key more =>
    rw [find?, find?, lookup_putIn]
    by_cases hkey : key = name
    · subst hkey
      cases more with
      | nil => simp [find?]
      | cons next more =>
        -- Nothing is below a file, nor where nothing is.
        have hbelow : (entries.lookup key).bind (·.find? (next :: more)) = none := by
          cases hlookup : entries.lookup key with
          | none => rfl
          | some inner =>
            cases inner with
            | file content => rfl
            | folder inner => simp [find?, hlookup, spot] at hfree
        simp [he, hbelow]
    · rw [if_neg hkey, if_neg (by simp [hkey])]

/-- Where a file or an empty folder is put, that is what is found, and all else is as before. -/
theorem spot_find?_put (hfolder : (tree.find? steps).map spot = some .folder)
    (hfree : (tree.find? (steps ++ [name])).map spot ≠ some .folder)
    (he : ∀ key more, e.find? (key :: more) = none) (place : List String) :
    ((put name e steps tree).find? place).map spot =
      if place = steps ++ [name] then some e.spot else (tree.find? place).map spot := by
  induction steps generalizing tree place with
  | nil =>
    obtain ⟨entries, hentries⟩ := exists_of_spot_folder hfolder
    obtain rfl := Option.some.inj hentries
    exact spot_find?_put_nil hfree he place
  | cons step steps ih =>
    cases tree with
    | file content => cases hfolder
    | folder entries =>
      rw [put]
      cases place with
      | nil => rfl
      | cons key more =>
        rw [find?, find?, lookup_map fun k inner => if k = step then put name e steps inner else inner]
        by_cases hkey : key = step
        · subst hkey
          cases hlookup : entries.lookup key with
          | none => simp [find?, hlookup] at hfolder
          | some inner =>
            simp only [List.cons_append, find?, hlookup, Option.bind_some] at hfolder hfree
            simpa using ih hfolder hfree more
        · simp [hkey]

end Entry

namespace Store

variable {s s' : Store} {p p' : Path} {place q more names : List String} {name : String}

/-- What names lead to from the root. -/
def spot? (s : Store) (place : List String) : Option Spot := (s.top.find? place).map Entry.spot

/-- The names in the folder at a place. -/
def namesAt (s : Store) (place : List String) : List String :=
  match s.top.find? place with
  | some (.folder entries) => entries.map Prod.fst
  | _ => []

/-- A store in which names are names, each once in its folder, and the working folder is there. -/
structure IsSound (s : Store) : Prop where
  tidy : s.top.isTidy = true
  here : s.spot? s.here = some .folder

instance (s : Store) : Decidable s.IsSound :=
  decidable_of_iff (s.top.isTidy = true ∧ s.spot? s.here = some .folder)
    ⟨fun ⟨h, h'⟩ => ⟨h, h'⟩, fun h => ⟨h.tidy, h.here⟩⟩

theorem exists_entries (h : s.spot? place = some .folder) :
    ∃ entries, s.top.find? place = some (.folder entries) :=
  Entry.exists_of_spot_folder h

theorem spot?_append (h : s.spot? (place ++ more) ≠ none) (hmore : more ≠ []) :
    s.spot? place = some .folder := by
  obtain ⟨name, more, rfl⟩ := List.exists_cons_of_ne_nil hmore
  rw [spot?, Entry.find?_append] at h
  rw [spot?]
  cases hfind : s.top.find? place with
  | none => simp [hfind] at h
  | some e =>
    cases e with
    | file content => simp [hfind, Entry.find?] at h
    | folder entries => rfl

theorem folder_of_append {spot : Spot} (h : s.spot? (place ++ more) = some spot) (hmore : more ≠ []) :
    s.spot? place = some .folder :=
  spot?_append (h ▸ Option.some_ne_none spot) hmore

theorem there_of_prefix {before : List String} (h : s.spot? (place ++ names) ≠ none)
    (hbefore : before <+: names) : s.spot? (place ++ before) ≠ none := by
  obtain ⟨more, rfl⟩ := hbefore
  rw [← List.append_assoc] at h
  by_cases hmore : more = []
  · rwa [hmore, List.append_nil] at h
  · simp [spot?_append h hmore]

theorem spot?_concat {entries : List (String × Entry)}
    (h : s.top.find? place = some (.folder entries)) (name : String) :
    s.spot? (place ++ [name]) = (entries.lookup name).map Entry.spot := by
  rw [spot?, Entry.find?_append, h, Option.bind_some, Entry.find?]
  cases entries.lookup name <;> rfl

theorem mem_namesAt_iff (h : s.spot? place = some .folder) :
    name ∈ s.namesAt place ↔ s.spot? (place ++ [name]) ≠ none := by
  obtain ⟨entries, hentries⟩ := exists_entries h
  rw [namesAt, spot?_concat hentries, hentries]
  simp only
  rw [← Entry.lookup_isSome_iff]
  cases entries.lookup name <;> simp

/-- Below a folder that holds nothing but files there are these files. -/
theorem file_iff_of_files {entries : List (String × Entry)}
    (hplace : s.top.find? place = some (.folder entries))
    (hfiles : ∀ entry ∈ entries, ∃ content, entry.2 = .file content) :
    (∃ content, s.spot? (place ++ names) = some (.file content)) ↔
      ∃ name ∈ entries.map Prod.fst, names = [name] := by
  constructor
  · rintro ⟨content, hfile⟩
    cases names with
    | nil =>
      rw [List.append_nil, spot?, hplace] at hfile
      cases hfile
    | cons name more =>
      rw [spot?, Entry.find?_append, hplace, Option.bind_some, Entry.find?] at hfile
      cases hlookup : entries.lookup name with
      | none => simp [hlookup] at hfile
      | some e =>
        obtain ⟨content', rfl⟩ := hfiles _ (Entry.mem_of_lookup hlookup)
        have hname := Entry.lookup_isSome_iff.mp (Option.isSome_of_eq_some hlookup)
        cases more with
        | nil => exact ⟨name, hname, rfl⟩
        | cons next more => simp [hlookup, Entry.find?] at hfile
  · rintro ⟨name, hname, rfl⟩
    obtain ⟨e, he⟩ := Option.isSome_iff_exists.mp (Entry.lookup_isSome_iff.mpr hname)
    obtain ⟨content, rfl⟩ := hfiles _ (Entry.mem_of_lookup he)
    exact ⟨content, by rw [spot?_concat hplace, he]; rfl⟩

theorem IsSound.nodup_namesAt (h : s.IsSound) (place : List String) :
    (s.namesAt place).Nodup := by
  rw [namesAt]
  split
  next entries hentries =>
    exact (Entry.isTidy_folder_iff.mp (Entry.isTidy_of_find? h.tidy hentries)).1
  next => exact List.nodup_nil

theorem IsSound.isName (h : s.IsSound) (hplace : s.spot? place ≠ none) :
    ∀ name ∈ place, IsName name := by
  induction place using List.reverseRecOn with
  | nil => simp
  | append_singleton place name ih =>
    have hfolder := spot?_append hplace (List.cons_ne_nil _ _)
    rw [forall_isName_concat]
    refine ⟨ih (by simp [hfolder]), ?_⟩
    obtain ⟨entries, hentries⟩ := exists_entries hfolder
    have hmem := (mem_namesAt_iff hfolder).mpr hplace
    rw [namesAt, hentries] at hmem
    obtain ⟨entry, hentry, rfl⟩ := List.mem_map.mp hmem
    exact ((Entry.isTidy_folder_iff.mp (Entry.isTidy_of_find? h.tidy hentries)).2 _ hentry).1

/-! Following paths -/

theorem follow_cons (s : Store) (place : List String) (piece : String) (pieces : List String) :
    s.follow place (piece :: pieces) =
      match s.spot? place with
      | none => .error .notFound
      | some (.file _) => .error .notAFolder
      | some .folder =>
        if piece = "" ∨ piece = "." then s.follow place pieces
        else if piece = ".." then s.follow place.dropLast pieces
        else if s.spot? (place ++ [piece]) ≠ none then s.follow (place ++ [piece]) pieces
        else .error .notFound := by
  rw [follow, spot?]
  cases hfind : s.top.find? place with
  | none => rfl
  | some e =>
    cases e with
    | file content => rfl
    | folder entries =>
      have hthere : s.spot? (place ++ [piece]) ≠ none ↔ (entries.lookup piece).isSome = true := by
        rw [spot?_concat hfind]
        cases entries.lookup piece <;> simp
      simp only [Option.map_some, Entry.spot, hthere]

theorem follow_append (s : Store) (place ps qs : List String) :
    s.follow place (ps ++ qs) = (s.follow place ps).bind fun place => s.follow place qs := by
  induction ps generalizing place with
  | nil => rfl
  | cons piece ps ih =>
    rw [List.cons_append, follow_cons, follow_cons]
    split
    · rfl
    · rfl
    · split
      · exact ih place
      · split
        · exact ih _
        · split
          · exact ih _
          · rfl

theorem follow_junk {junk : List String} (h : ∀ x ∈ junk, x = "" ∨ x = ".")
    (hfollow : s.follow place junk = .ok q) : q = place := by
  induction junk with
  | nil => exact (Except.ok.inj hfollow).symm
  | cons x junk ih =>
    rw [List.forall_mem_cons] at h
    rw [follow_cons] at hfollow
    split at hfollow
    · cases hfollow
    · cases hfollow
    · rw [if_pos h.1] at hfollow
      exact ih h.2 hfollow

theorem folder_of_follow_cons {piece : String} {ps : List String}
    (h : s.follow place (piece :: ps) = .ok q) : s.spot? place = some .folder := by
  rw [follow_cons] at h
  split at h
  · cases h
  · cases h
  next hfolder => exact hfolder

theorem folder_of_follow (hq : s.spot? q = some .folder) {ps : List String}
    (h : s.follow place ps = .ok q) : s.spot? place = some .folder := by
  cases ps with
  | nil =>
    obtain rfl := Except.ok.inj h
    exact hq
  | cons piece ps => exact folder_of_follow_cons h

/-- To a folder, pieces that lead nowhere make no difference. -/
theorem follow_filter_iff (hq : s.spot? q = some .folder) (place ps : List String) :
    s.follow place (ps.filter fun piece => piece ≠ "" ∧ piece ≠ ".") = .ok q ↔
      s.follow place ps = .ok q := by
  induction ps generalizing place with
  | nil => rfl
  | cons piece ps ih =>
    by_cases hjunk : piece = "" ∨ piece = "."
    · have hskip : ¬ (piece ≠ "" ∧ piece ≠ ".") := by
        rw [← not_or, not_not]
        exact hjunk
      rw [List.filter_cons, if_neg (by rw [decide_eq_true_eq]; exact hskip), ih, follow_cons,
        if_pos hjunk]
      constructor
      · intro h
        rw [folder_of_follow hq h]
        exact h
      · intro h
        split at h
        · cases h
        · cases h
        · exact h
    · have hkeep := not_or.mp hjunk
      rw [List.filter_cons, if_pos (by rw [decide_eq_true_eq]; exact hkeep), follow_cons,
        follow_cons, if_neg hjunk, if_neg hjunk]
      split
      · rfl
      · rfl
      · split
        · exact ih _
        · split
          · exact ih _
          · rfl

/-- A path leads to a place. -/
def LeadsTo (s : Store) (p : Path) (place : List String) : Prop :=
  s.follow (s.start p) p.pieces = .ok place

instance (s : Store) (p : Path) (place : List String) : Decidable (s.LeadsTo p place) :=
  inferInstanceAs (Decidable (_ = _))

theorem leadsTo_iff_steps (hq : s.spot? q = some .folder) :
    s.LeadsTo p q ↔ s.follow (s.start p) p.steps = .ok q :=
  (follow_filter_iff hq _ _).symm

theorem LeadsTo.of_steps (h : s.LeadsTo p q) (hq : s.spot? q = some .folder)
    (hsteps : p'.steps = p.steps) (habsolute : p'.isAbsolute = p.isAbsolute) : s.LeadsTo p' q := by
  rw [leadsTo_iff_steps hq] at h ⊢
  rw [hsteps, start, habsolute]
  exact h

theorem LeadsTo.of_sameAs (h : s.LeadsTo p q) (hq : s.spot? q = some .folder)
    (hsame : p'.sameAs p = true) : s.LeadsTo p' q :=
  h.of_steps hq (Path.steps_of_sameAs hsame).1 (Path.steps_of_sameAs hsame).2

theorem LeadsTo.unique (h : s.LeadsTo p place) (h' : s.LeadsTo p q) : place = q :=
  Except.ok.inj (h.symm.trans h')

theorem LeadsTo.follow_front (h : s.LeadsTo p q) : s.follow (s.start p) p.front = .ok q := by
  obtain hpieces | hpieces := p.pieces_eq_front
  · rw [← hpieces]
    exact h
  · rw [LeadsTo, hpieces, follow_append] at h
    cases hfront : s.follow (s.start p) p.front with
    | error e =>
      rw [hfront] at h
      cases h
    | ok place =>
      rw [hfront] at h
      rw [follow_junk (by simp) h]

theorem follow_name (hname : IsName name) (hq : s.spot? q = some .folder) :
    s.follow q [name] =
      if s.spot? (q ++ [name]) ≠ none then .ok (q ++ [name]) else .error .notFound := by
  rw [follow_cons, hq]
  simp only
  rw [if_neg (by simp [hname.ne_empty, hname.ne_current]), if_neg hname.ne_parent]
  rfl

theorem start_join (hname : IsName name) : s.start (p.join ⟨name⟩) = s.start p := by
  rw [start, start, Path.isAbsolute_join (Path.isAbsolute_of_name hname)]

theorem LeadsTo.join (h : s.LeadsTo p q) (hname : IsName name)
    (hthere : s.spot? (q ++ [name]) ≠ none) : s.LeadsTo (p.join ⟨name⟩) (q ++ [name]) := by
  rw [LeadsTo, start_join hname, Path.pieces_join_name hname, follow_append, h.follow_front]
  change s.follow q [name] = _
  rw [follow_name hname (spot?_append hthere (List.cons_ne_nil _ _)), if_pos hthere]

theorem LeadsTo.descend (h : s.LeadsTo p q) (hnames : ∀ name ∈ names, IsName name)
    (hthere : s.spot? (q ++ names) ≠ none) : s.LeadsTo (p.descend names) (q ++ names) := by
  induction names using List.reverseRecOn with
  | nil =>
    rw [List.append_nil]
    exact h
  | append_singleton names name ih =>
    rw [forall_isName_concat] at hnames
    rw [← List.append_assoc] at hthere ⊢
    rw [Path.descend_concat]
    have hfolder := spot?_append hthere (List.cons_ne_nil _ _)
    exact (ih hnames.1 (by simp [hfolder])).join hnames.2 hthere

theorem follow_names (hnames : ∀ name ∈ names, IsName name) (hq : s.spot? q = some .folder)
    (h : s.follow q names = .ok place) : place = q ++ names ∧ s.spot? place ≠ none := by
  induction names generalizing q with
  | nil =>
    obtain rfl := Except.ok.inj h
    simp [hq]
  | cons name names ih =>
    rw [List.forall_mem_cons] at hnames
    rw [← List.singleton_append, follow_append, follow_name hnames.1 hq] at h
    split at h
    next hthere =>
      by_cases hmore : names = []
      · subst hmore
        obtain rfl := Except.ok.inj h
        exact ⟨rfl, hthere⟩
      · have hfolder : s.spot? (q ++ [name]) = some .folder := by
          obtain ⟨next, more, rfl⟩ := List.exists_cons_of_ne_nil hmore
          exact folder_of_follow_cons (show s.follow (q ++ [name]) (next :: more) = .ok place from h)
        obtain ⟨rfl, hplace⟩ := ih hnames.2 hfolder h
        exact ⟨(List.append_cons q name names).symm, hplace⟩
    next => cases h

theorem follow_names_of_there (hnames : ∀ name ∈ names, IsName name)
    (hthere : s.spot? (q ++ names) ≠ none) : s.follow q names = .ok (q ++ names) := by
  induction names using List.reverseRecOn with
  | nil => rw [List.append_nil]; rfl
  | append_singleton names name ih =>
    rw [forall_isName_concat] at hnames
    rw [← List.append_assoc] at hthere ⊢
    have hfolder := spot?_append hthere (List.cons_ne_nil _ _)
    rw [follow_append, ih hnames.1 (by simp [hfolder])]
    exact (follow_name hnames.2 hfolder).trans (if_pos hthere)

/-- Names lead on while no file is in their way. -/
theorem follow_names_eq (hnames : ∀ name ∈ names, IsName name) (hq : s.spot? q = some .folder)
    (hfile : ∀ before, before <+: names → ∀ content, s.spot? (q ++ before) ≠ some (.file content)) :
    s.follow q names =
      if s.spot? (q ++ names) ≠ none then .ok (q ++ names) else .error .notFound := by
  induction names generalizing q with
  | nil => simp [hq, follow]
  | cons name names ih =>
    rw [List.forall_mem_cons] at hnames
    rw [← List.singleton_append, follow_append, follow_name hnames.1 hq]
    split
    next hthere =>
      have hfolder : s.spot? (q ++ [name]) = some .folder := by
        cases hspot : s.spot? (q ++ [name]) with
        | none => exact absurd hspot hthere
        | some spot =>
          cases spot with
          | file content =>
            exact absurd hspot (hfile [name] ⟨names, rfl⟩ content)
          | folder => rfl
      rw [← List.append_assoc]
      refine ih hnames.2 hfolder fun before hbefore content => ?_
      rw [List.append_assoc]
      exact hfile (name :: before) (List.cons_prefix_cons.mpr ⟨rfl, hbefore⟩) content
    next hnone =>
      have hbelow : s.spot? (q ++ ([name] ++ names)) = none := by
        by_contra hthere
        rw [← List.append_assoc] at hthere
        by_cases hmore : names = []
        · exact hnone (by simpa [hmore] using hthere)
        · exact hnone (by simp [spot?_append hthere hmore])
      rw [if_neg (not_not.mpr hbelow)]
      rfl

/-! What a store answers about the place that a path leads to -/

theorem leadsTo_of_locate (h : s.locate p = .ok q) : p.text ≠ "" ∧ s.LeadsTo p q := by
  rw [locate] at h
  split at h
  · cases h
  next hempty => exact ⟨by simpa using hempty, h⟩

theorem LeadsTo.locate (h : s.LeadsTo p q) (hp : p.text ≠ "") : s.locate p = .ok q := by
  rw [Store.locate, if_neg (by simpa using hp)]
  exact h

theorem LeadsTo.kind? (h : s.LeadsTo p q) (hp : p.text ≠ "") :
    s.view.kind? p = (s.spot? q).map Spot.kind := by
  simp only [view, find?, h.locate hp, spot?]
  cases s.top.find? q with
  | none => rfl
  | some e => cases e <;> rfl

theorem exists_leadsTo_of_kind? {kind : Kind} (h : s.view.kind? p = some kind) :
    p.text ≠ "" ∧ ∃ q spot, s.LeadsTo p q ∧ s.spot? q = some spot ∧ spot.kind = kind := by
  cases hlocate : s.locate p with
  | error e => simp [view, find?, hlocate] at h
  | ok q =>
    obtain ⟨hp, hleads⟩ := leadsTo_of_locate hlocate
    rw [hleads.kind? hp] at h
    obtain ⟨spot, hspot, hkind⟩ := Option.map_eq_some_iff.mp h
    exact ⟨hp, q, spot, hleads, hspot, hkind⟩

theorem exists_leadsTo_of_folder (h : s.view.kind? p = some .folder) :
    p.text ≠ "" ∧ ∃ q, s.LeadsTo p q ∧ s.spot? q = some .folder := by
  obtain ⟨hp, q, spot, hleads, hspot, hkind⟩ := exists_leadsTo_of_kind? h
  cases spot with
  | file content => cases hkind
  | folder => exact ⟨hp, q, hleads, hspot⟩

/-- What is read in a file. -/
def textOf (content : ByteArray) : Except FileError String :=
  match String.fromUTF8? content with
  | some text => .ok text
  | none => .error .notText

theorem LeadsTo.read {content : ByteArray} (h : s.LeadsTo p q) (hp : p.text ≠ "")
    (hfile : s.spot? q = some (.file content)) : s.view.read p = textOf content := by
  have hfind : s.top.find? q = some (.file content) := by
    obtain ⟨e, he, hspot⟩ := Option.map_eq_some_iff.mp hfile
    cases e with
    | file content' =>
      cases hspot
      exact he
    | folder entries => cases hspot
  simp only [view, Store.read, readBytes, h.locate hp, hfind]
  rfl

theorem LeadsTo.canonical? (h : s.LeadsTo p q) (hp : p.text ≠ "") :
    s.view.canonical? p = some (pathOf q) := by
  simp only [view, h.locate hp]
  rfl

theorem LeadsTo.names_eq (h : s.LeadsTo p q) (hp : p.text ≠ "") (hq : s.spot? q = some .folder) :
    s.names p = .ok (s.namesAt q) := by
  obtain ⟨entries, hentries⟩ := exists_entries hq
  simp only [Store.names, h.locate hp, hentries, namesAt]

/-! Paths from the root -/

/-- What a store holds stays where it is, save for what files contain. -/
structure Grows (s s' : Store) : Prop where
  here : s'.here = s.here
  folder {place : List String} : s.spot? place = some .folder → s'.spot? place = some .folder
  file {place : List String} {content : ByteArray} :
    s.spot? place = some (.file content) → ∃ content', s'.spot? place = some (.file content')

namespace Grows

theorem refl (s : Store) : s.Grows s := ⟨rfl, id, fun h => ⟨_, h⟩⟩

theorem trans {s'' : Store} (h : s.Grows s') (h' : s'.Grows s'') : s.Grows s'' where
  here := h'.here.trans h.here
  folder hplace := h'.folder (h.folder hplace)
  file hplace := by
    obtain ⟨content, hcontent⟩ := h.file hplace
    exact h'.file hcontent

theorem there (h : s.Grows s') (hplace : s.spot? place ≠ none) : s'.spot? place ≠ none := by
  cases hspot : s.spot? place with
  | none => exact absurd hspot hplace
  | some spot =>
    cases spot with
    | file content =>
      obtain ⟨content', hcontent⟩ := h.file hspot
      simp [hcontent]
    | folder => simp [h.folder hspot]

theorem follow (h : s.Grows s') {ps : List String} (hfollow : s.follow place ps = .ok q) :
    s'.follow place ps = .ok q := by
  induction ps generalizing place with
  | nil => exact hfollow
  | cons piece ps ih =>
    rw [follow_cons] at hfollow ⊢
    split at hfollow
    · cases hfollow
    · cases hfollow
    next hfolder =>
      rw [h.folder hfolder]
      simp only
      split at hfollow
      next hjunk =>
        rw [if_pos hjunk]
        exact ih hfollow
      next hjunk =>
        rw [if_neg hjunk]
        split at hfollow
        next hparent =>
          rw [if_pos hparent]
          exact ih hfollow
        next hparent =>
          rw [if_neg hparent]
          split at hfollow
          next hthere =>
            rw [if_pos (h.there hthere)]
            exact ih hfollow
          next => cases hfollow

theorem leadsTo (h : s.Grows s') (hp : s.LeadsTo p q) : s'.LeadsTo p q := by
  rw [LeadsTo, start, h.here]
  exact h.follow hp

end Grows

end Store

end Flavoring.Files
