import Flavoring.Proofs.Files.Places
import Flavoring.Proofs.Files.Views

/-!
Writing: what making a folder and writing a file do to a store. Both put one new thing at one place,
which the path then leads to.
-/

namespace Flavoring.Files.Store

variable {s s' : Store} {p : Path} {place q init junk names : List String} {name last : String}
  {e : Entry} {content : ByteArray}

/-- The store with an entry under a name in the folder at a place. -/
def putAt (s : Store) (place : List String) (name : String) (e : Entry) : Store :=
  { s with top := Entry.put name e place s.top }

/-- Nothing is below an entry that is a file or an empty folder. -/
def IsLeaf (e : Entry) : Prop := ∀ key more, e.find? (key :: more) = none

theorem isLeaf_file (content : ByteArray) : IsLeaf (.file content) := fun _ _ => rfl

theorem isLeaf_folder : IsLeaf (.folder []) := fun _ _ => rfl

theorem spot?_putAt (hfolder : s.spot? place = some .folder)
    (hfree : s.spot? (place ++ [name]) ≠ some .folder) (he : IsLeaf e) (q : List String) :
    (s.putAt place name e).spot? q = if q = place ++ [name] then some e.spot else s.spot? q :=
  Entry.spot_find?_put hfolder hfree he q

theorem IsSound.putAt (h : s.IsSound) (hfolder : s.spot? place = some .folder)
    (hfree : s.spot? (place ++ [name]) ≠ some .folder) (he : IsLeaf e) (htidy : e.isTidy = true)
    (hname : IsName name) : (s.putAt place name e).IsSound where
  tidy := Entry.isTidy_put hname htidy h.tidy place
  here := by
    rw [spot?_putAt hfolder hfree he, if_neg]
    · exact h.here
    · intro hhere
      have hthere := h.here
      rw [show s.here = place ++ [name] from hhere] at hthere
      exact hfree hthere

/-! Where a path's name stands -/

theorem exists_namedPieces (p : Path) :
    ∃ init last junk, namedPieces p = init ++ [last] ∧ p.pieces = init ++ last :: junk ∧
      ∀ x ∈ junk, x = "" := by
  have hsplit : p.pieces = (p.pieces.reverse.dropWhile (· = "")).reverse ++
      (p.pieces.reverse.takeWhile (· = "")).reverse := by
    rw [← List.reverse_append, List.takeWhile_append_dropWhile, List.reverse_reverse]
  rw [namedPieces]
  obtain hnone | ⟨init, last, hnamed⟩ :=
    (p.pieces.reverse.dropWhile (· = "")).reverse.eq_nil_or_concat'
  · obtain ⟨init, last, hpieces⟩ := p.pieces.eq_nil_or_concat'.resolve_left p.pieces_ne_nil
    refine ⟨init, last, [], ?_, hpieces, nofun⟩
    simp only [hnone, List.isEmpty_nil, if_true]
    exact hpieces
  · refine ⟨init, last, (p.pieces.reverse.takeWhile (· = "")).reverse, ?_, ?_, fun x hx => ?_⟩
    · simp [hnamed]
    · rw [hnamed] at hsplit
      simpa using hsplit
    · simpa using List.mem_takeWhile_imp (List.mem_reverse.mp hx)

theorem locateParent_eq (hnamed : namedPieces p = init ++ [last]) :
    s.locateParent p =
      if p.text.isEmpty then .error .notFound
      else if last = "" ∨ last = "." ∨ last = ".." then
        (s.follow (s.start p) (init ++ [last])).map (·, none)
      else (s.follow (s.start p) init).bind fun place =>
        match s.spot? place with
        | some .folder => .ok (place, some last)
        | some (.file _) => .error .notAFolder
        | none => .error .notFound := by
  rw [locateParent]
  simp only [hnamed, List.getLast?_concat, List.dropLast_concat]
  split
  · rfl
  · split
    · cases s.follow (s.start p) (init ++ [last]) <;> rfl
    · cases s.follow (s.start p) init with
      | error e => rfl
      | ok place =>
        simp only [bind, Except.bind, spot?]
        cases s.top.find? place with
        | none => rfl
        | some e => cases e <;> rfl

/-- A path whose last piece is a name, and where the pieces before it lead. -/
structure Names (s : Store) (p : Path) (place : List String) (name : String) : Prop where
  isName : IsName name
  follow : ∃ init junk, p.pieces = init ++ name :: junk ∧ (∀ x ∈ junk, x = "") ∧
    s.follow (s.start p) init = .ok place
  folder : s.spot? place = some .folder

theorem names_of_locateParent (h : s.locateParent p = .ok (place, some name)) :
    s.Names p place name := by
  obtain ⟨init, last, junk, hnamed, hpieces, hjunk⟩ := exists_namedPieces p
  rw [locateParent_eq hnamed] at h
  split at h
  · cases h
  · split at h
    · cases hfollow : s.follow (s.start p) (init ++ [last]) <;> simp [hfollow, Except.map] at h
    next hname =>
      rw [not_or, not_or] at hname
      cases hfollow : s.follow (s.start p) init with
      | error e => simp [hfollow, Except.bind] at h
      | ok place' =>
        rw [hfollow] at h
        simp only [Except.bind] at h
        split at h
        next hfolder =>
          cases h
          refine ⟨⟨hname.1, hname.2.1, hname.2.2, ?_⟩, ⟨init, junk, hpieces, hjunk, hfollow⟩, hfolder⟩
          exact Path.no_slash_of_mem_pieces (hpieces ▸ List.mem_append_right _ List.mem_cons_self)
        · cases h
        · cases h

theorem follow_junk_of_folder (hplace : s.spot? place = some .folder)
    (hjunk : ∀ x ∈ junk, x = "" ∨ x = ".") : s.follow place junk = .ok place := by
  induction junk with
  | nil => rfl
  | cons x junk ih =>
    rw [List.forall_mem_cons] at hjunk
    rw [follow_cons, hplace]
    simp only
    rw [if_pos hjunk.1]
    exact ih hjunk.2

/-- A path leads to what stands under its name, a folder if slashes follow. -/
theorem Names.leadsTo (h : s.Names p place name) (hfolder : s.spot? (place ++ [name]) = some .folder) :
    s.LeadsTo p (place ++ [name]) := by
  obtain ⟨init, junk, hpieces, hjunk, hfollow⟩ := h.follow
  rw [LeadsTo, hpieces, follow_append, hfollow]
  change s.follow place ([name] ++ junk) = _
  rw [follow_append, follow_name h.isName h.folder, if_pos (by simp [hfolder])]
  exact follow_junk_of_folder hfolder fun x hx => .inl (hjunk x hx)

theorem Names.of_grows (h : s.Names p place name) (hgrows : s.Grows s') :
    s'.Names p place name where
  isName := h.isName
  follow := by
    obtain ⟨init, junk, hpieces, hjunk, hfollow⟩ := h.follow
    refine ⟨init, junk, hpieces, hjunk, ?_⟩
    rw [start, hgrows.here]
    exact hgrows.follow hfollow
  folder := hgrows.folder h.folder

theorem Names.there (h : s.Names p place name) (hleads : s.LeadsTo p q) :
    s.spot? (place ++ [name]) ≠ none := by
  obtain ⟨init, junk, hpieces, -, hfollow⟩ := h.follow
  rw [LeadsTo, hpieces, follow_append, hfollow] at hleads
  change s.follow place ([name] ++ junk) = _ at hleads
  rw [follow_append, follow_name h.isName h.folder] at hleads
  split at hleads
  next hthere => exact hthere
  next => cases hleads

/-! Where a name stands that a path goes on to -/

theorem namedPieces_of_pieces (hpieces : p.pieces = init ++ [last]) (hlast : last ≠ "") :
    namedPieces p = init ++ [last] := by
  obtain ⟨init', last', junk, hnamed, hsplit, hjunk⟩ := exists_namedPieces p
  rw [hnamed]
  rw [hpieces] at hsplit
  obtain rfl | ⟨junk, x, rfl⟩ := junk.eq_nil_or_concat'
  · exact hsplit.symm
  · -- The piece at the end is not empty.
    rw [← List.cons_append, ← List.append_assoc] at hsplit
    obtain rfl : last = x := List.singleton_inj.mp (List.append_inj' hsplit rfl).2
    exact absurd (hjunk last (by simp)) hlast

theorem start_descend (hnames : ∀ name ∈ names, IsName name) :
    s.start (p.descend names) = s.start p := by
  rw [start, start, Path.isAbsolute_descend hnames]

theorem locateParent_descend (h : s.LeadsTo p q) (hnames : ∀ name ∈ names, IsName name)
    (hname : IsName name) :
    s.locateParent (p.descend (names ++ [name])) =
      (s.follow q names).bind fun place =>
        match s.spot? place with
        | some .folder => .ok (place, some name)
        | some (.file _) => .error .notAFolder
        | none => .error .notFound := by
  have hall : ∀ x ∈ names ++ [name], IsName x := forall_isName_concat.mpr ⟨hnames, hname⟩
  have hpieces := Path.pieces_descend (p := p) hall (by simp)
  rw [← List.append_assoc] at hpieces
  rw [locateParent_eq (namedPieces_of_pieces hpieces hname.ne_empty), start_descend hall,
    follow_append s _ p.front, h.follow_front, if_neg, if_neg]
  · rfl
  · simp [hname.ne_empty, hname.ne_current, hname.ne_parent]
  · simpa using Path.text_descend_ne_empty hall (by simp)

theorem locateParent_descend_of_folder (h : s.LeadsTo p q) (hnames : ∀ name ∈ names, IsName name)
    (hname : IsName name) (hfolder : s.spot? (q ++ names) = some .folder) :
    s.locateParent (p.descend (names ++ [name])) = .ok (q ++ names, some name) := by
  rw [locateParent_descend h hnames hname, follow_names_of_there hnames (by simp [hfolder])]
  simp only [Except.bind, hfolder]

theorem spot?_of_locateParent_descend {name? : Option String} (h : s.LeadsTo p q)
    (hq : s.spot? q = some .folder) (hnames : ∀ name ∈ names, IsName name) (hname : IsName name)
    (hlocate : s.locateParent (p.descend (names ++ [name])) = .ok (place, name?)) :
    place = q ++ names ∧ name? = some name ∧ s.spot? (q ++ names) = some .folder := by
  rw [locateParent_descend h hnames hname] at hlocate
  cases hfollow : s.follow q names with
  | error e =>
    rw [hfollow] at hlocate
    cases hlocate
  | ok place' =>
    obtain ⟨rfl, -⟩ := follow_names hnames hq hfollow
    rw [hfollow] at hlocate
    simp only [Except.bind] at hlocate
    split at hlocate
    next hfolder =>
      cases hlocate
      exact ⟨rfl, rfl, hfolder⟩
    · cases hlocate
    · cases hlocate

/-! What the operations do there -/

theorem makeFolder_error {error : FileError} (h : s.locateParent p = .error error) :
    s.makeFolder p = .error error := by
  rw [makeFolder, h]
  rfl

theorem makeFolder_no_name (h : s.locateParent p = .ok (place, none)) :
    s.makeFolder p = .error .alreadyExists := by
  rw [makeFolder, h]
  rfl

theorem makeFolder_name (h : s.locateParent p = .ok (place, some name)) :
    s.makeFolder p =
      if s.spot? (place ++ [name]) = none then .ok (s.putAt place name (.folder []))
      else .error .alreadyExists := by
  rw [makeFolder, h, spot?]
  simp only [bind, Except.bind]
  cases s.top.find? (place ++ [name]) with
  | none => rfl
  | some e => rfl

theorem writeBytes_name (h : s.locateParent p = .ok (place, some name)) :
    s.writeBytes p content =
      if p.pieces.getLast? = some "" ∨ s.spot? (place ++ [name]) = some .folder then
        .error .isAFolder
      else .ok (s.putAt place name (.file content)) := by
  rw [writeBytes, h]
  by_cases hslash : p.pieces.getLast? = some ""
  · rw [if_pos (.inl hslash)]
    simp only [bind, Except.bind, if_pos hslash]
    rfl
  · simp only [bind, Except.bind, hslash, if_false, false_or, spot?]
    cases s.top.find? (place ++ [name]) with
    | none => rfl
    | some e => cases e <;> rfl

theorem makeFolder_eq_ok (h : s.makeFolder p = .ok s') :
    ∃ place name, s.Names p place name ∧ s.spot? (place ++ [name]) = none ∧
      s' = s.putAt place name (.folder []) := by
  cases hlocate : s.locateParent p with
  | error e =>
    rw [makeFolder_error hlocate] at h
    cases h
  | ok found =>
    obtain ⟨place, name?⟩ := found
    cases name? with
    | none =>
      rw [makeFolder_no_name hlocate] at h
      cases h
    | some name =>
      rw [makeFolder_name hlocate] at h
      split at h
      next hfree => exact ⟨place, name, names_of_locateParent hlocate, hfree, (Except.ok.inj h).symm⟩
      next => cases h

/-! Adding folders -/

/-- The second store has more folders than the first, at places of one kind, and is the same
otherwise. -/
structure Adds (P : List String → Prop) (s s' : Store) : Prop where
  here : s'.here = s.here
  spot? (q : List String) :
    s'.spot? q = s.spot? q ∨ s.spot? q = none ∧ s'.spot? q = some .folder ∧ P q
  sound : s.IsSound → s'.IsSound

namespace Adds

variable {P Q : List String → Prop} {s'' : Store}

theorem refl (P : List String → Prop) (s : Store) : Adds P s s := ⟨rfl, fun _ => .inl rfl, id⟩

theorem trans (h : Adds P s s') (h' : Adds P s' s'') : Adds P s s'' where
  here := h'.here.trans h.here
  spot? q := by
    obtain hsame | ⟨hnone, hfolder, hP⟩ := h.spot? q
    · rw [← hsame]
      exact h'.spot? q
    · obtain hsame | ⟨hnone', -, -⟩ := h'.spot? q
      · exact .inr ⟨hnone, hsame.trans hfolder, hP⟩
      · rw [hfolder] at hnone'
        cases hnone'
  sound hs := h'.sound (h.sound hs)

theorem mono (h : Adds P s s') (hPQ : ∀ q, P q → Q q) : Adds Q s s' where
  here := h.here
  spot? q := (h.spot? q).imp_right fun ⟨hnone, hfolder, hP⟩ => ⟨hnone, hfolder, hPQ q hP⟩
  sound := h.sound

theorem file_iff (h : Adds P s s') :
    s'.spot? q = some (.file content) ↔ s.spot? q = some (.file content) := by
  obtain hsame | ⟨hnone, hfolder, -⟩ := h.spot? q
  · rw [hsame]
  · simp [hnone, hfolder]

theorem grows (h : Adds P s s') : s.Grows s' where
  here := h.here
  folder {q} hq := by
    obtain hsame | ⟨hnone, hfolder, -⟩ := h.spot? q
    · rw [hsame, hq]
    · exact hfolder
  file {q content} hq := ⟨content, h.file_iff.mpr hq⟩

theorem putAt (hfolder : s.spot? place = some .folder) (hfree : s.spot? (place ++ [name]) = none)
    (hname : IsName name) (hP : P (place ++ [name])) :
    Adds P s (s.putAt place name (.folder [])) where
  here := rfl
  spot? q := by
    rw [spot?_putAt hfolder (by simp [hfree]) isLeaf_folder]
    split
    next hq =>
      subst hq
      exact .inr ⟨hfree, rfl, hP⟩
    next => exact .inl rfl
  sound hs := hs.putAt hfolder (by simp [hfree]) isLeaf_folder rfl hname

end Adds

end Flavoring.Files.Store
