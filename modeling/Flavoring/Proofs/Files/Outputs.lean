import Flavoring.Proofs.Files.Transforming

/-!
Outputs: what transforming files leaves in a store. Folders are added on the way to an output, and
one file is written if nothing stands in its place or in its way.
-/

namespace Flavoring.Files

open Store

variable {t : Transformer} {path output : Path} {stats : Expansion.Statistics} {s s' s'' : Store}
  {names place out q : List String} {name : String} {content : ByteArray}
  {files files' : List (List String)} {content? : List String → Option ByteArray}

/-- Below a folder, files are put where names lead that have a content, and folders where one is
missing on the way. -/
structure Produces (out : List String) (files : List (List String))
    (content? : List String → Option ByteArray) (s s' : Store) : Prop where
  here : s'.here = s.here
  sound : s.IsSound → s'.IsSound
  free (names : List String) :
    names ∈ files → content? names ≠ none → s.spot? (out ++ names) ≠ some .folder
  written (names : List String) (content : ByteArray) :
    names ∈ files → content? names = some content → s'.spot? (out ++ names) = some (.file content)
  others (q : List String) : (∀ names ∈ files, content? names ≠ none → q ≠ out ++ names) →
    s'.spot? q = s.spot? q ∨
      s.spot? q = none ∧ s'.spot? q = some .folder ∧ ∃ names ∈ files, OnWay out names.dropLast q

/-- The store grows, and only below a folder. -/
structure GrowsBelow (out : List String) (s s' : Store) : Prop where
  grows : s.Grows s'
  sound : s.IsSound → s'.IsSound
  spot? (q : List String) : ¬ (out <+: q ∧ q ≠ out) → s'.spot? q = s.spot? q

namespace GrowsBelow

theorem refl (out : List String) (s : Store) : GrowsBelow out s s := ⟨.refl s, id, fun _ _ => rfl⟩

theorem trans (h : GrowsBelow out s s') (h' : GrowsBelow out s' s'') : GrowsBelow out s s'' where
  grows := h.grows.trans h'.grows
  sound hs := h'.sound (h.sound hs)
  spot? q hq := (h'.spot? q hq).trans (h.spot? q hq)

end GrowsBelow

namespace Produces

theorem refl (out : List String) (content? : List String → Option ByteArray) (s : Store) :
    Produces out [] content? s s where
  here := rfl
  sound := id
  free := nofun
  written := nofun
  others _ _ := .inl rfl

theorem congr {content?' : List String → Option ByteArray}
    (h : Produces out files content? s s')
    (hsame : ∀ names ∈ files, content?' names = content? names) :
    Produces out files content?' s s' where
  here := h.here
  sound := h.sound
  free names hnames hsome := h.free names hnames (hsame names hnames ▸ hsome)
  written names content hnames hcontent :=
    h.written names content hnames (hsame names hnames ▸ hcontent)
  others q hq := h.others q fun names hnames hsome => hq names hnames (hsame names hnames ▸ hsome)

theorem of_adds {P : List String → Prop} (h : Adds P s s')
    (hP : ∀ q, P q → OnWay out names.dropLast q) : Produces out [names] (fun _ => none) s s' where
  here := h.here
  sound := h.sound
  free _ _ hsome := absurd rfl hsome
  written _ _ _ hsome := by cases hsome
  others q _ := (h.spot? q).imp_right fun ⟨hnone, hfolder, hq⟩ =>
    ⟨hnone, hfolder, names, List.mem_singleton_self names, hP q hq⟩

theorem folder_of_folder (h : Produces out files content? s s') (hq : s.spot? q = some .folder) :
    s'.spot? q = some .folder := by
  obtain hsame | ⟨-, hfolder, -⟩ := h.others q fun names hnames hsome hplace => by
    subst hplace
    exact h.free names hnames hsome hq
  · rw [hsame, hq]
  · exact hfolder

theorem file_of_file (h : Produces out files content? s s')
    (hq : s.spot? q = some (.file content)) : ∃ content', s'.spot? q = some (.file content') := by
  by_cases hwritten : ∃ names ∈ files, content? names ≠ none ∧ q = out ++ names
  · obtain ⟨names, hnames, hsome, rfl⟩ := hwritten
    obtain ⟨content', hcontent'⟩ := Option.ne_none_iff_exists'.mp hsome
    exact ⟨content', h.written names content' hnames hcontent'⟩
  · obtain hsame | ⟨hnone, -, -⟩ := h.others q fun names hnames hsome hplace =>
      hwritten ⟨names, hnames, hsome, hplace⟩
    · exact ⟨content, by rw [hsame, hq]⟩
    · rw [hq] at hnone
      cases hnone

theorem grows (h : Produces out files content? s s') : s.Grows s' :=
  ⟨h.here, h.folder_of_folder, h.file_of_file⟩

theorem growsBelow (h : Produces out files content? s s') (hfiles : ∀ names ∈ files, names ≠ []) :
    GrowsBelow out s s' where
  grows := h.grows
  sound := h.sound
  spot? q hq := by
    obtain hsame | ⟨-, -, names, hnames, before, hne, -, rfl⟩ :=
      h.others q fun names hnames _ hplace => by
        subst hplace
        exact hq ⟨List.prefix_append _ _, by simpa using hfiles names hnames⟩
    · exact hsame
    · exact absurd ⟨List.prefix_append _ _, by simpa using hne⟩ hq

theorem append (h : Produces out files content? s s') (h' : Produces out files' content? s' s'') :
    Produces out (files ++ files') content? s s'' where
  here := h'.here.trans h.here
  sound hs := h'.sound (h.sound hs)
  free names hnames hsome := by
    obtain hnames | hnames := List.mem_append.mp hnames
    · exact h.free names hnames hsome
    · exact fun hfolder => h'.free names hnames hsome (h.folder_of_folder hfolder)
  written names content hnames hcontent := by
    by_cases hlater : names ∈ files'
    · exact h'.written names content hlater hcontent
    · have hfile := h.written names content ((List.mem_append.mp hnames).resolve_right hlater) hcontent
      obtain hsame | ⟨hnone, -, -⟩ := h'.others (out ++ names) fun names' hnames' _ hplace => by
        obtain rfl := List.append_cancel_left hplace
        exact hlater hnames'
      · rw [hsame, hfile]
      · rw [hfile] at hnone
        cases hnone
  others q hq := by
    have hfirst := h.others q fun names hnames => hq names (List.mem_append_left _ hnames)
    have hsecond := h'.others q fun names hnames => hq names (List.mem_append_right _ hnames)
    obtain hsame' | ⟨hnone', hfolder', names', hnames', hway'⟩ := hsecond
    · rw [hsame']
      exact hfirst.imp_right fun ⟨hnone, hfolder, names, hnames, hway⟩ =>
        ⟨hnone, hfolder, names, List.mem_append_left _ hnames, hway⟩
    · obtain hsame | ⟨-, hfolder, -⟩ := hfirst
      · exact .inr ⟨hsame ▸ hnone', hfolder', names', List.mem_append_right _ hnames', hway'⟩
      · rw [hfolder] at hnone'
        cases hnone'

end Produces

/-- Nothing stands in the place of an output but a file, and nothing on the way but folders. -/
structure IsFree (s : Store) (out names : List String) : Prop where
  way : s.IsWayFree out names.dropLast
  place : s.spot? (out ++ names) ≠ some .folder

/-- What becomes of a file, by the text that is made of it, and what is written. -/
inductive FileOutcome (made : Except Failure (String × Expansion.Summary)) (isFree : Prop) :
    Except Failure Report → Option ByteArray → Prop where
  | failed {failure : Failure} (hmade : made = .error failure) :
    FileOutcome made isFree (.error failure) none
  | blocked {text : String} {expansion : Expansion.Summary} {failure : Failure}
    (hmade : made = .ok (text, expansion)) (hfree : ¬ isFree) :
    FileOutcome made isFree (.error failure) none
  | written {text : String} {expansion : Expansion.Summary} (hmade : made = .ok (text, expansion))
    (hfree : isFree) :
    FileOutcome made isFree
      (.ok { processed := 1, transformed := if expansion.isNoop then 0 else 1, expansion })
      (some text.toUTF8)

theorem run_write_descend (h : s.LeadsTo output out) (hnames : ∀ x ∈ names, IsName x)
    (hname : IsName name) (hfolder : s.spot? (out ++ names) = some .folder) (text : String) :
    (FileSystem.write (output.descend (names ++ [name])) text : StateM Store _).run s =
      if s.spot? (out ++ names ++ [name]) = some .folder then (.error .isAFolder, s)
      else (.ok (), s.putAt (out ++ names) name (.file text.toUTF8)) := by
  have hall : ∀ x ∈ names ++ [name], IsName x := forall_isName_concat.mpr ⟨hnames, hname⟩
  have hlast : (output.descend (names ++ [name])).pieces.getLast? ≠ some "" := by
    rw [Path.pieces_descend hall (by simp), ← List.append_assoc, List.getLast?_concat]
    simpa using hname.ne_empty
  have hrun : (FileSystem.write (output.descend (names ++ [name])) text : StateM Store _).run s = _ :=
    run_change (·.writeBytes (output.descend (names ++ [name])) text.toUTF8) s
  rw [hrun]
  simp only [writeBytes_name (locateParent_descend_of_folder h hnames hname hfolder), hlast,
    false_or]
  by_cases hplace : s.spot? (out ++ names ++ [name]) = some .folder
  · simp only [hplace, if_true]
  · simp only [hplace, if_false]

theorem not_onWay (names : List String) (name : String) :
    ¬ OnWay out names (out ++ names ++ [name]) := by
  rintro ⟨before, -, hbefore, hplace⟩
  rw [List.append_assoc] at hplace
  have hlength := hbefore.length_le
  rw [← List.append_cancel_left hplace, List.length_append, List.length_singleton] at hlength
  omega

theorem isFree_of_adds (h : Adds (OnWay out names) s s')
    (hfolder : s'.spot? (out ++ names) = some .folder) :
    IsFree s out (names ++ [name]) ↔ s'.spot? (out ++ names ++ [name]) ≠ some .folder := by
  constructor
  · intro hfree hplace
    obtain hsame | ⟨-, -, hway⟩ := h.spot? (out ++ names ++ [name])
    · rw [hsame, List.append_assoc] at hplace
      exact hfree.place hplace
    · exact not_onWay names name hway
  · intro hplace
    refine ⟨fun before hbefore content hfile => ?_, fun hplace' => hplace ?_⟩
    · rw [List.dropLast_concat] at hbefore
      -- A file in the way would still be there, but folders are.
      rw [← h.file_iff] at hfile
      obtain ⟨more, rfl⟩ := hbefore
      rw [← List.append_assoc] at hfolder
      by_cases hmore : more = []
      · rw [hmore, List.append_nil, hfile] at hfolder
        cases hfolder
      · have hthere : s'.spot? (out ++ before ++ more) ≠ none := by simp only [hfolder]; exact nofun
        rw [spot?_append hthere hmore] at hfile
        cases hfile
    · rw [List.append_assoc]
      exact h.grows.folder hplace'

theorem Produces.of_putAt (h : Adds (OnWay out names) s s')
    (hfolder : s'.spot? (out ++ names) = some .folder)
    (hplace : s'.spot? (out ++ names ++ [name]) ≠ some .folder) (hname : IsName name)
    (content : ByteArray) :
    Produces out [names ++ [name]] (fun _ => some content) s
      (s'.putAt (out ++ names) name (.file content)) where
  here := h.here
  sound hs := (h.sound hs).putAt hfolder hplace (isLeaf_file content) rfl hname
  free x hx _ := by
    obtain rfl := List.mem_singleton.mp hx
    exact ((isFree_of_adds h hfolder).mpr hplace).place
  written x content' hx hcontent := by
    obtain rfl := List.mem_singleton.mp hx
    cases hcontent
    rw [spot?_putAt hfolder hplace (isLeaf_file content), if_pos (List.append_assoc _ _ _).symm]
    rfl
  others q hq := by
    have hne : q ≠ out ++ names ++ [name] := by
      rw [List.append_assoc]
      exact hq _ (List.mem_singleton_self _) (by simp)
    rw [spot?_putAt hfolder hplace (isLeaf_file content), if_neg hne]
    refine (h.spot? q).imp_right fun ⟨hnone, hq', hway⟩ =>
      ⟨hnone, hq', _, List.mem_singleton_self _, ?_⟩
    rwa [List.dropLast_concat]

/-- A file's text is put into the output, unless there is none or the output is not free. -/
theorem exec_transformFile (t : Transformer) (path : Path) (h : s.LeadsTo output out)
    (hout : s.spot? out = some .folder) (hnames : ∀ x ∈ names, IsName x) (hname : IsName name)
    (stats : Expansion.Statistics) :
    ∃ result stats' s' written,
      Work.exec (t.transformFile path (output.descend (names ++ [name]))) stats s =
        ⟨result, stats', s'⟩ ∧
      FileOutcome (t.textAt s.view path) (IsFree s out (names ++ [name])) result written ∧
      Produces out [names ++ [name]] (fun _ => written) s s' := by
  obtain ⟨stats', htext⟩ := t.exec_transformToText path stats s
  rw [Transformer.transformFile, Work.exec_bind, htext]
  cases hmade : t.textAt s.view path with
  | error failure =>
    exact ⟨_, stats', s, none, rfl, .failed rfl, .of_adds (Adds.refl (fun _ => False) s) nofun⟩
  | ok made =>
    obtain ⟨text, expansion⟩ := made
    obtain ⟨up, hup, hupnil, hupne⟩ := h.exists_parent? hout hnames hname
    obtain ⟨hmakes, hok⟩ := makes_makeFolders h hout hnames hupnil hupne
    simp only [hup]
    rw [Work.exec_bind, Work.exec_attempt]
    generalize (FileSystem.makeFolders up : StateM Store _).run s = done at hmakes hok
    obtain ⟨result, s₂⟩ := done
    have hway (q : List String) (hq : OnWay out names q) :
        OnWay out (names ++ [name]).dropLast q := by rwa [List.dropLast_concat]
    cases result with
    | error e =>
      refine ⟨_, stats', s₂, none, rfl, .blocked rfl fun hfree => ?_, .of_adds hmakes.adds hway⟩
      have hmade := hok (by simpa using hfree.way)
      cases hmade
    | ok u =>
      have hfolder := hmakes.folder rfl
      simp only [Except.mapError]
      rw [Work.exec_bind, Work.exec_attempt,
        run_write_descend (hmakes.adds.grows.leadsTo h) hnames hname hfolder]
      by_cases hplace : s₂.spot? (out ++ names ++ [name]) = some .folder
      · rw [if_pos hplace]
        refine ⟨_, stats', s₂, none, rfl, .blocked rfl fun hfree => ?_, .of_adds hmakes.adds hway⟩
        exact (isFree_of_adds hmakes.adds hfolder).mp hfree hplace
      · rw [if_neg hplace]
        exact ⟨_, stats', _, some text.toUTF8, rfl,
          .written rfl ((isFree_of_adds hmakes.adds hfolder).mpr hplace),
          .of_putAt hmakes.adds hfolder hplace hname _⟩

end Flavoring.Files
