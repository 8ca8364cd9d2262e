import Flavoring.Proofs.Files.Writing

/-!
Making folders above folders: what is made when all folders of a path are to be there, and when that
fails.
-/

namespace Flavoring.Files.Store

variable {s s' : Store} {p : Path} {q names place : List String} {name : String}

/-- What making a folder has come to: the folder is there, unless it failed. -/
structure Makes (P : List String → Prop) (s : Store) (place : List String)
    (done : Except FileError Unit × Store) : Prop where
  adds : Adds P s done.2
  folder : done.1 = .ok () → done.2.spot? place = some .folder

theorem run_bind {α β : Type} (x : StateM Store α) (f : α → StateM Store β) (s : Store) :
    (x >>= f).run s = (f (x.run s).1).run (x.run s).2 := rfl

theorem run_change (f : Store → Except FileError Store) (s : Store) :
    (change f).run s = match f s with
      | .ok s' => (.ok (), s')
      | .error e => (.error e, s) := by
  rw [change, run_bind]
  simp only [StateT.run_get, pure]
  cases f s with
  | ok s' => rfl
  | error e => rfl

theorem run_ensureFolder (s : Store) (p : Path) :
    (FileSystem.ensureFolder p : StateM Store _).run s =
      match s.makeFolder p with
      | .ok s' => (.ok (), s')
      | .error e => (if s.view.kind? p = some .folder then .ok () else .error e, s) := by
  have hmake : (FileSystem.makeFolder p : StateM Store _).run s = _ := run_change (·.makeFolder p) s
  rw [FileSystem.ensureFolder, run_bind, hmake]
  cases s.makeFolder p with
  | ok s' => rfl
  | error e =>
    simp only
    rw [run_bind, s.shows_view.isFolder p]
    by_cases hfolder : s.view.kind? p = some .folder
    · simp only [hfolder, beq_self_eq_true, if_true]
      rfl
    · simp only [beq_eq_false_iff_ne.mpr hfolder, Bool.false_eq_true, if_false, hfolder]
      rfl

theorem eq_of_ensureFolder_error {e : FileError}
    (h : (FileSystem.ensureFolder p : StateM Store _).run s = (.error e, s')) : s' = s := by
  rw [run_ensureFolder] at h
  cases hmake : s.makeFolder p with
  | ok s₁ =>
    rw [hmake] at h
    cases h
  | error e' =>
    rw [hmake] at h
    exact (Prod.mk.inj h).2.symm

/-- Where a path already leads to a folder, nothing is made. -/
theorem ensureFolder_of_leadsTo (h : s.LeadsTo p q) (hq : s.spot? q = some .folder)
    (htext : p.text ≠ "") :
    (FileSystem.ensureFolder p : StateM Store _).run s = (.ok (), s) := by
  rw [run_ensureFolder]
  cases hmake : s.makeFolder p with
  | ok s' =>
    obtain ⟨place, name, hnames, hfree, -⟩ := makeFolder_eq_ok hmake
    exact absurd hfree (hnames.there h)
  | error e =>
    have hkind : s.view.kind? p = some .folder := by
      rw [h.kind? htext, hq]
      rfl
    simp only [hkind, if_true]

/-- How making folders goes, nearest first: the nearest one settles it, unless what is above it is
missing; then those above are made, and the nearest one again. -/
inductive Making (p : Path) (above : List Path) (s : Store) :
    Except FileError Unit × Store → Prop where
  | first {done : Except FileError Unit × Store}
    (hfirst : (FileSystem.ensureFolder p : StateM Store _).run s = done)
    (hfound : done.1 ≠ .error .notFound) : Making p above s done
  | stuck {s₁ s₂ : Store} {e : FileError}
    (hfirst : (FileSystem.ensureFolder p : StateM Store _).run s = (.error .notFound, s₁))
    (habove : (FileSystem.makeFoldersWithin above : StateM Store _).run s₁ = (.error e, s₂)) :
    Making p above s (.error e, s₂)
  | again {s₁ s₂ : Store} {done : Except FileError Unit × Store}
    (hfirst : (FileSystem.ensureFolder p : StateM Store _).run s = (.error .notFound, s₁))
    (habove : (FileSystem.makeFoldersWithin above : StateM Store _).run s₁ = (.ok (), s₂))
    (hlast : (FileSystem.ensureFolder p : StateM Store _).run s₂ = done) : Making p above s done

theorem making (htext : p.text ≠ "") (above : List Path) (s : Store) :
    Making p above s ((FileSystem.makeFoldersWithin (p :: above) : StateM Store _).run s) := by
  rw [FileSystem.makeFoldersWithin, if_neg (by simpa using htext), run_bind]
  cases hfirst : (FileSystem.ensureFolder p : StateM Store _).run s with
  | mk result s₁ =>
    cases result with
    | ok u => exact .first hfirst nofun
    | error e =>
      by_cases he : e = .notFound
      · subst he
        simp only
        rw [run_bind]
        cases habove : (FileSystem.makeFoldersWithin above : StateM Store _).run s₁ with
        | mk result s₂ =>
          cases result with
          | ok u => exact .again hfirst habove rfl
          | error e => exact .stuck hfirst habove
      · have hfound : (Except.error e : Except FileError Unit) ≠ .error .notFound :=
          fun h => he (Except.error.inj h)
        cases e <;> first | exact absurd rfl he | exact .first hfirst hfound

theorem run_makeFoldersWithin_of_empty (htext : p.text = "") (above : List Path) (s : Store) :
    (FileSystem.makeFoldersWithin (p :: above) : StateM Store _).run s = (.ok (), s) := by
  rw [FileSystem.makeFoldersWithin, if_pos (by simpa using htext)]
  rfl

theorem run_makeFoldersWithin_of_leadsTo (h : s.LeadsTo p q) (hq : s.spot? q = some .folder)
    (above : List Path) :
    (FileSystem.makeFoldersWithin (p :: above) : StateM Store _).run s = (.ok (), s) := by
  by_cases htext : p.text = ""
  · exact run_makeFoldersWithin_of_empty htext above s
  · rw [FileSystem.makeFoldersWithin, if_neg (by simpa using htext), run_bind,
      ensureFolder_of_leadsTo h hq htext]
    rfl

/-- The folders on the way that names lead on from a place. -/
def OnWay (q names place : List String) : Prop :=
  ∃ before, before ≠ [] ∧ before <+: names ∧ place = q ++ before

theorem OnWay.mono {names' : List String} (h : OnWay q names place) (hfront : names <+: names') :
    OnWay q names' place := by
  obtain ⟨before, hne, hbefore, rfl⟩ := h
  exact ⟨before, hne, hbefore.trans hfront, rfl⟩

/-- Nothing but folders is in the way that names lead on from a place. -/
def IsWayFree (s : Store) (q names : List String) : Prop :=
  ∀ before, before <+: names → ∀ content, s.spot? (q ++ before) ≠ some (.file content)

theorem IsWayFree.shorten {names' : List String} (h : s.IsWayFree q names')
    (hfront : names <+: names') : s.IsWayFree q names :=
  fun before hbefore => h before (hbefore.trans hfront)

theorem exists_ancestors (n : Nat) (p : Path) :
    ∃ above, p.ancestorsWithin (n + 1) = p :: above := by
  rw [Path.ancestorsWithin]
  split <;> exact ⟨_, rfl⟩

theorem run_makeFolders_of_leadsTo (h : s.LeadsTo p q) (hq : s.spot? q = some .folder) :
    (FileSystem.makeFolders p : StateM Store _).run s = (.ok (), s) := by
  obtain ⟨above, habove⟩ := exists_ancestors p.pieces.length p
  rw [FileSystem.makeFolders, Path.ancestors, habove, run_makeFoldersWithin_of_leadsTo h hq]

/-! The folder of one name -/

section Named

variable (h : s.LeadsTo p q) (hnames : ∀ name ∈ names, IsName name) (hname : IsName name)
include h hnames hname

/-- Where the folder above is there, only a file can stand in the way. -/
theorem ensureFolder_of_folder (hfolder : s.spot? (q ++ names) = some .folder) :
    let place := q ++ names ++ [name]
    let run := (FileSystem.ensureFolder (p.descend (names ++ [name])) : StateM Store _).run s
    (∃ s', run = (.ok (), s') ∧ Adds (· = place) s s' ∧ s'.spot? place = some .folder) ∨
    ∃ e content, run = (.error e, s) ∧ s.spot? place = some (.file content) := by
  have hall : ∀ x ∈ names ++ [name], IsName x := forall_isName_concat.mpr ⟨hnames, hname⟩
  intro place run
  have hrun : run = _ := run_ensureFolder s (p.descend (names ++ [name]))
  rw [makeFolder_name (locateParent_descend_of_folder h hnames hname hfolder)] at hrun
  cases hspot : s.spot? place with
  | none =>
    rw [if_pos hspot] at hrun
    refine .inl ⟨_, hrun, Adds.putAt hfolder hspot hname rfl, ?_⟩
    rw [spot?_putAt hfolder (by rw [hspot]; exact nofun) isLeaf_folder, if_pos rfl]
    rfl
  | some spot =>
    rw [if_neg (by rw [hspot]; exact nofun)] at hrun
    have hleads : s.LeadsTo (p.descend (names ++ [name])) place := by
      have hplace : place = q ++ (names ++ [name]) := List.append_assoc _ _ _
      rw [hplace] at hspot ⊢
      exact h.descend hall (by simp [hspot])
    simp only [hleads.kind? (Path.text_descend_ne_empty hall (by simp)), hspot, Option.map_some]
      at hrun
    cases spot with
    | file content =>
      rw [if_neg (by exact nofun)] at hrun
      exact .inr ⟨_, content, hrun, rfl⟩
    | folder => exact .inl ⟨s, hrun, Adds.refl _ s, hspot⟩

/-- Where the folder above is missing, nothing is made, and that is what the error says unless a file
is on the way. -/
theorem ensureFolder_of_no_folder (hq : s.spot? q = some .folder)
    (hfolder : s.spot? (q ++ names) ≠ some .folder) :
    ∃ e, (FileSystem.ensureFolder (p.descend (names ++ [name])) : StateM Store _).run s =
        (.error e, s) ∧ (s.IsWayFree q names → e = .notFound) := by
  have hall : ∀ x ∈ names ++ [name], IsName x := forall_isName_concat.mpr ⟨hnames, hname⟩
  have hrun := run_ensureFolder s (p.descend (names ++ [name]))
  cases hlocate : s.locateParent (p.descend (names ++ [name])) with
  | ok found =>
    exact absurd (spot?_of_locateParent_descend h hq hnames hname hlocate).2.2 hfolder
  | error e =>
    have hkind : s.view.kind? (p.descend (names ++ [name])) ≠ some .folder := by
      intro hkind
      obtain ⟨-, q', hleads, hq'⟩ := exists_leadsTo_of_folder hkind
      rw [LeadsTo, start_descend hall, Path.pieces_descend hall (by simp), follow_append,
        h.follow_front] at hleads
      obtain ⟨rfl, hthere⟩ := follow_names hall hq hleads
      rw [← List.append_assoc] at hthere
      exact hfolder (spot?_append hthere (List.cons_ne_nil _ _))
    rw [makeFolder_error hlocate] at hrun
    simp only [hkind, if_false] at hrun
    refine ⟨e, hrun, fun hfile => ?_⟩
    rw [locateParent_descend h hnames hname, follow_names_eq hnames hq hfile] at hlocate
    cases hspot : s.spot? (q ++ names) with
    | none =>
      rw [if_neg (by simp [hspot])] at hlocate
      exact (Except.error.inj hlocate).symm
    | some spot =>
      cases spot with
      | file content => exact absurd hspot (hfile names List.prefix_rfl content)
      | folder => exact absurd hspot hfolder

end Named

/-! All folders of a path -/

/-- What is above a path that names lead on to is the path of the other names, or leads to where they
start. -/
theorem LeadsTo.exists_parent? {base : Path} (h : s.LeadsTo base q) (hq : s.spot? q = some .folder)
    (hnames : ∀ name ∈ names, IsName name) (hname : IsName name) :
    ∃ up, (base.descend (names ++ [name])).parent? = some up ∧ (names = [] → s.LeadsTo up q) ∧
      (names ≠ [] → up = base.descend names) := by
  by_cases hempty : names = []
  · subst hempty
    obtain ⟨up, hup, hsteps, habsolute⟩ := Path.exists_parent?_join (p := base) hname
    exact ⟨up, hup, fun _ => h.of_steps hq hsteps habsolute, fun hne => absurd rfl hne⟩
  · exact ⟨_, Path.parent?_descend_concat hnames hempty hname, fun hnil => absurd hnil hempty,
      fun _ => rfl⟩

/-- A path is made that names lead on to, from a path that leads to a folder. -/
theorem makes_makeFoldersWithin {base : Path} (h : s.LeadsTo base q) (hq : s.spot? q = some .folder)
    (hnames : ∀ name ∈ names, IsName name) (hnil : names = [] → s.LeadsTo p q)
    (hp : names ≠ [] → p = base.descend names) (n : Nat) (hn : names.length < n) :
    let run := (FileSystem.makeFoldersWithin (p.ancestorsWithin n) : StateM Store _).run s
    Makes (OnWay q names) s (q ++ names) run ∧ (s.IsWayFree q names → run.1 = .ok ()) := by
  induction names using List.reverseRecOn generalizing p n with
  | nil =>
    obtain ⟨n, rfl⟩ := Nat.exists_eq_add_one_of_ne_zero (Nat.ne_of_gt hn)
    obtain ⟨above, habove⟩ := exists_ancestors n p
    intro run
    have hrun : run = (.ok (), s) := by
      rw [← run_makeFoldersWithin_of_leadsTo (hnil rfl) hq above, ← habove]
    rw [hrun, List.append_nil]
    exact ⟨⟨Adds.refl _ s, fun _ => hq⟩, fun _ => rfl⟩
  | append_singleton names name ih =>
    obtain ⟨n, rfl⟩ := Nat.exists_eq_add_one_of_ne_zero (Nat.ne_of_gt (Nat.zero_lt_of_lt hn))
    obtain rfl := hp (by simp)
    obtain ⟨hinit, hname⟩ := forall_isName_concat.mp hnames
    obtain ⟨up, hup, hupnil, hupne⟩ := h.exists_parent? hq hinit hname
    have habove := ih hinit hupnil hupne n (by simpa using hn)
    have hmono : ∀ x, OnWay q names x → OnWay q (names ++ [name]) x :=
      fun x hx => hx.mono (List.prefix_append _ _)
    have hlast : ∀ x, x = q ++ names ++ [name] → OnWay q (names ++ [name]) x := fun x hx =>
      ⟨names ++ [name], by simp, List.prefix_rfl, by rw [hx, List.append_assoc]⟩
    rw [← List.append_assoc, Path.ancestorsWithin, hup]
    intro run
    have hmaking : Making _ (up.ancestorsWithin n) s run :=
      making (Path.text_descend_ne_empty hnames (by simp)) _ s
    clear_value run
    cases hmaking with
    | first hfirst hfound =>
      by_cases hfolder : s.spot? (q ++ names) = some .folder
      · obtain ⟨s', hensure, hadds, hmade⟩ | ⟨e, content, hensure, hfile⟩ :=
          ensureFolder_of_folder h hinit hname hfolder
        · obtain rfl := hensure.symm.trans hfirst
          exact ⟨⟨hadds.mono hlast, fun _ => hmade⟩, fun _ => rfl⟩
        · obtain rfl := hensure.symm.trans hfirst
          rw [List.append_assoc] at hfile
          exact ⟨⟨Adds.refl _ s, fun hok => by cases hok⟩, fun hway =>
            absurd hfile (hway _ List.prefix_rfl content)⟩
      · obtain ⟨e, hensure, hfree⟩ := ensureFolder_of_no_folder h hinit hname hq hfolder
        obtain rfl := hensure.symm.trans hfirst
        refine ⟨⟨Adds.refl _ s, fun hok => by cases hok⟩, fun hway => absurd ?_ hfound⟩
        exact congrArg Except.error (hfree (hway.shorten (List.prefix_append _ _)))
    | stuck hfirst hstuck =>
      obtain rfl := eq_of_ensureFolder_error hfirst
      obtain ⟨hmakes, hok⟩ := habove
      rw [hstuck] at hmakes hok
      exact ⟨⟨hmakes.adds.mono hmono, fun hok => by cases hok⟩, fun hway =>
        hok (hway.shorten (List.prefix_append _ _))⟩
    | again hfirst hmade hagain =>
      obtain rfl := eq_of_ensureFolder_error hfirst
      obtain ⟨hmakes, -⟩ := habove
      rw [hmade] at hmakes
      obtain ⟨s', hensure, hadds, hmade'⟩ | ⟨e, content, hensure, hfile⟩ :=
        ensureFolder_of_folder (hmakes.adds.grows.leadsTo h) hinit hname (hmakes.folder rfl)
      · obtain rfl := hensure.symm.trans hagain
        exact ⟨⟨(hmakes.adds.mono hmono).trans (hadds.mono hlast), fun _ => hmade'⟩, fun _ => rfl⟩
      · obtain rfl := hensure.symm.trans hagain
        rw [List.append_assoc, hmakes.adds.file_iff] at hfile
        exact ⟨⟨hmakes.adds.mono hmono, fun hok => by cases hok⟩, fun hway =>
          absurd hfile (hway _ List.prefix_rfl content)⟩

/-- Making folders for a path that names lead on to, from a path that leads to a folder. -/
theorem makes_makeFolders {base : Path} (h : s.LeadsTo base q) (hq : s.spot? q = some .folder)
    (hnames : ∀ name ∈ names, IsName name) (hnil : names = [] → s.LeadsTo p q)
    (hp : names ≠ [] → p = base.descend names) :
    let run := (FileSystem.makeFolders p : StateM Store _).run s
    Makes (OnWay q names) s (q ++ names) run ∧ (s.IsWayFree q names → run.1 = .ok ()) := by
  refine makes_makeFoldersWithin h hq hnames hnil hp _ (Nat.lt_succ_of_le ?_)
  by_cases hempty : names = []
  · simp [hempty]
  · rw [hp hempty, Path.pieces_descend hnames hempty, List.length_append]
    exact Nat.le_add_left _ _

theorem adds_ensureFolder (s : Store) (p : Path) :
    let run := (FileSystem.ensureFolder p : StateM Store _).run s
    Adds (fun _ => True) s run.2 ∧
      (run.1 = .ok () → ∃ q, run.2.LeadsTo p q ∧ run.2.spot? q = some .folder) := by
  intro run
  have hrun : run = _ := run_ensureFolder s p
  cases hmake : s.makeFolder p with
  | ok s' =>
    rw [hmake] at hrun
    rw [hrun]
    obtain ⟨place, name, hnames, hfree, rfl⟩ := makeFolder_eq_ok hmake
    have hadds : Adds (fun _ => True) s (s.putAt place name (.folder [])) :=
      Adds.putAt hnames.folder hfree hnames.isName trivial
    have hspot : (s.putAt place name (.folder [])).spot? (place ++ [name]) = some .folder := by
      rw [spot?_putAt hnames.folder (by simp [hfree]) isLeaf_folder, if_pos rfl]
      rfl
    exact ⟨hadds, fun _ => ⟨_, (hnames.of_grows hadds.grows).leadsTo hspot, hspot⟩⟩
  | error e =>
    rw [hmake] at hrun
    rw [hrun]
    refine ⟨Adds.refl _ s, fun hok => ?_⟩
    by_cases hkind : s.view.kind? p = some .folder
    · exact (exists_leadsTo_of_folder hkind).2
    · simp [hkind] at hok

theorem adds_makeFoldersWithin (s : Store) (ps : List Path) :
    let run := (FileSystem.makeFoldersWithin ps : StateM Store _).run s
    Adds (fun _ => True) s run.2 ∧
      (run.1 = .ok () → ∀ p ∈ ps.head?, p.text ≠ "" →
        ∃ q, run.2.LeadsTo p q ∧ run.2.spot? q = some .folder) := by
  induction ps generalizing s with
  | nil => exact ⟨Adds.refl _ s, fun _ _ h => by cases h⟩
  | cons p above ih =>
    intro run
    by_cases htext : p.text = ""
    · have hrun : run = (.ok (), s) := run_makeFoldersWithin_of_empty htext above s
      rw [hrun]
      refine ⟨Adds.refl _ s, fun _ p' hp' hne => ?_⟩
      obtain rfl := Option.some.inj hp'
      exact absurd htext hne
    · have hmaking : Making p above s run := making htext above s
      have hhead {s' : Store} (h : ∃ q, s'.LeadsTo p q ∧ s'.spot? q = some .folder) :
          ∀ p' ∈ (p :: above).head?, p'.text ≠ "" →
            ∃ q, s'.LeadsTo p' q ∧ s'.spot? q = some .folder := by
        intro p' hp' _
        obtain rfl := Option.some.inj hp'
        exact h
      clear_value run
      cases hmaking with
      | first hfirst hfound =>
        obtain ⟨hadds, hfolder⟩ := adds_ensureFolder s p
        rw [hfirst] at hadds hfolder
        exact ⟨hadds, fun hok => hhead (hfolder hok)⟩
      | stuck hfirst hstuck =>
        obtain rfl := eq_of_ensureFolder_error hfirst
        obtain ⟨hadds, -⟩ := ih _
        rw [hstuck] at hadds
        exact ⟨hadds, fun hok => by cases hok⟩
      | again hfirst hmade hagain =>
        obtain rfl := eq_of_ensureFolder_error hfirst
        obtain ⟨hadds, -⟩ := ih _
        rw [hmade] at hadds
        obtain ⟨hadds', hfolder⟩ := adds_ensureFolder _ p
        rw [hagain] at hadds' hfolder
        exact ⟨hadds.trans hadds', fun hok => hhead (hfolder hok)⟩

/-- Making folders for any path adds nothing else, and then the path leads to one. -/
theorem adds_makeFolders (s : Store) (p : Path) :
    let run := (FileSystem.makeFolders p : StateM Store _).run s
    Adds (fun _ => True) s run.2 ∧
      (run.1 = .ok () → p.text ≠ "" → ∃ q, run.2.LeadsTo p q ∧ run.2.spot? q = some .folder) := by
  obtain ⟨hadds, hfolder⟩ := adds_makeFoldersWithin s p.ancestors
  refine ⟨hadds, fun hok hne => hfolder hok p ?_ hne⟩
  obtain ⟨above, habove⟩ := exists_ancestors p.pieces.length p
  rw [Path.ancestors, habove]
  rfl

end Flavoring.Files.Store
