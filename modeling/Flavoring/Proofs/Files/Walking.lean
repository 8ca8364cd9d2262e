import Flavoring.Proofs.Files.Entries
import Mathlib.Data.String.Basic

/-!
Walking through a folder. Whatever is written on the way, the walk transforms some files of the folder
one after another, in the order of their names: those that are there from the start and that nothing
excludes, and no others but files that have come to be there.
-/

namespace Flavoring.Files

open Store

/-- A file is a module if its name has one of the extensions, after something else and in capital or
small letters. -/
theorem Transformer.isModule_join_iff {t : Transformer} {folder : Path} {name : String}
    (hname : IsName name) :
    t.isModule (folder.join ⟨name⟩) = true ↔
      ∃ stem extension, name = stem ++ "." ++ extension ∧ stem ≠ "" ∧ '.' ∉ extension.toList ∧
        ∃ e ∈ t.extensions, Text.Lowercase.ofString e = Text.Lowercase.ofString extension := by
  rw [isModule, Path.extension?, Path.fileName?_join hname, Option.bind_some]
  constructor
  · intro hmodule
    obtain ⟨stem, extension, rfl, hstem, hdot⟩ | hwhole := Path.cutName_cases name
    · rw [Path.cutName_of_extension hstem hdot] at hmodule
      exact ⟨stem, extension, rfl, hstem, hdot, by simpa using hmodule⟩
    · simp [hwhole] at hmodule
  · rintro ⟨stem, extension, rfl, hstem, hdot, hextension⟩
    rw [Path.cutName_of_extension hstem hdot]
    simpa using hextension

-- The sigma that ends a word has a small letter of its own.
example : ({ extensions := ["ας"] } : Transformer).isModule ((⟨"in"⟩ : Path).join ⟨"a.ΑΣ"⟩) = true := by
  decide +kernel

/-- The folders that are skipped are those of packages and those whose name starts with a dot. -/
theorem Transformer.isSkipped_iff {name : String} (hname : IsName name) :
    isSkipped ⟨name⟩ = true ↔ name = "node_modules" ∨ ∃ rest, name = "." ++ rest := by
  rw [isSkipped, Path.fileName?_name hname]
  simp only [Bool.or_eq_true, beq_iff_eq]
  refine or_congr_right ⟨fun hhead => ?_, ?_⟩
  · obtain ⟨rest, hrest⟩ := List.head?_eq_some_iff.mp hhead
    refine ⟨String.ofList rest, ?_⟩
    rw [← String.toList_inj]
    simpa using hrest
  · rintro ⟨rest, rfl⟩
    simp

/-- Nothing excludes a file, by the names that lead to it from a folder: it is a module, in no folder
that is skipped, and neither it nor a folder above it has the path of the output. -/
structure Transformer.Takes (t : Transformer) (folder output : Path) (names : List String) :
    Prop where
  ne_nil : names ≠ []
  isModule : t.isModule (folder.descend names) = true
  kept (name : String) : name ∈ names.dropLast → Transformer.isSkipped ⟨name⟩ = false
  apart (before : List String) :
    before ≠ [] → before <+: names → (folder.descend before).sameAs output = false

/-- A folder can be walked through and its outputs written: both paths lead to folders. -/
structure Ready (s : Store) (root folder output : Path) (place out : List String) : Prop where
  isSound : s.IsSound
  leadsTo : s.LeadsTo folder place
  text_ne_empty : folder.text ≠ ""
  isFolder : s.spot? place = some .folder
  output_leadsTo : s.LeadsTo output out
  output_isFolder : s.spot? out = some .folder
  isBelow : ∃ names, (∀ x ∈ names, IsName x) ∧ folder = root.descend names

/-- What a walk through a folder comes to, as far as some files are concerned. -/
structure Visits (t : Transformer) (root folder output : Path) (place out : List String)
    (P : List String → Prop) (stats : Expansion.Statistics) (s : Store)
    (files : List (List String)) (report : Report) (stats' : Expansion.Statistics) (s' : Store) :
    Prop where
  each : Work.exec (t.transformEach output root (files.map folder.descend)) stats s =
    ⟨.ok report, stats', s'⟩
  sorted : files.Pairwise (· < ·)
  grows : GrowsBelow out s s'
  sound (names : List String) : names ∈ files → P names ∧ t.Takes folder output names ∧
    ∃ s'' content, GrowsBelow out s s'' ∧ s''.spot? (place ++ names) = some (.file content)
  complete (names : List String) (content : ByteArray) : P names → t.Takes folder output names →
    s.spot? (place ++ names) = some (.file content) → names ∈ files

variable {t : Transformer} {root folder output : Path} {place out names rest : List String}
  {P Q : List String → Prop} {stats stats' stats'' : Expansion.Statistics} {s s' s'' : Store}
  {files files' : List (List String)} {report report' : Report} {name : String}

namespace Transformer.Takes

theorem single (hmodule : t.isModule (folder.join ⟨name⟩) = true)
    (hapart : (folder.join ⟨name⟩).sameAs output = false) : t.Takes folder output [name] where
  ne_nil := List.cons_ne_nil _ _
  isModule := hmodule
  kept := nofun
  apart before hne hbefore := by
    obtain ⟨key, more, rfl⟩ := List.exists_cons_of_ne_nil hne
    obtain ⟨rfl, hmore⟩ := List.cons_prefix_cons.mp hbefore
    rw [List.prefix_nil.mp hmore]
    exact hapart

theorem cons (h : t.Takes (folder.join ⟨name⟩) output rest) (hskip : isSkipped ⟨name⟩ = false)
    (hapart : (folder.join ⟨name⟩).sameAs output = false) : t.Takes folder output (name :: rest) where
  ne_nil := List.cons_ne_nil _ _
  isModule := h.isModule
  kept key hkey := by
    rw [List.dropLast_cons_of_ne_nil h.ne_nil, List.mem_cons] at hkey
    obtain rfl | hkey := hkey
    · exact hskip
    · exact h.kept key hkey
  apart before hne hbefore := by
    obtain ⟨key, before, rfl⟩ := List.exists_cons_of_ne_nil hne
    obtain ⟨rfl, hmore⟩ := List.cons_prefix_cons.mp hbefore
    by_cases hnil : before = []
    · rw [hnil]
      exact hapart
    · exact h.apart before hnil hmore

theorem head_apart (h : t.Takes folder output (name :: rest)) :
    (folder.join ⟨name⟩).sameAs output = false :=
  h.apart [name] (List.cons_ne_nil _ _) ⟨rest, rfl⟩

theorem tail (h : t.Takes folder output (name :: rest)) (hrest : rest ≠ []) :
    isSkipped ⟨name⟩ = false ∧ t.Takes (folder.join ⟨name⟩) output rest := by
  have hlast := List.dropLast_cons_of_ne_nil (x := name) hrest
  refine ⟨h.kept name (hlast ▸ List.mem_cons_self), hrest, h.isModule, fun key hkey => ?_,
    fun before hne hbefore => ?_⟩
  · exact h.kept key (hlast ▸ List.mem_cons_of_mem _ hkey)
  · exact h.apart (name :: before) (List.cons_ne_nil _ _) (List.cons_prefix_cons.mpr ⟨rfl, hbefore⟩)

end Transformer.Takes

namespace Ready

theorem grows (h : Ready s root folder output place out) (hgrows : GrowsBelow out s s') :
    Ready s' root folder output place out where
  isSound := hgrows.sound h.isSound
  leadsTo := hgrows.grows.leadsTo h.leadsTo
  text_ne_empty := h.text_ne_empty
  isFolder := hgrows.grows.folder h.isFolder
  output_leadsTo := hgrows.grows.leadsTo h.output_leadsTo
  output_isFolder := hgrows.grows.folder h.output_isFolder
  isBelow := h.isBelow

theorem join (h : Ready s root folder output place out) (hname : IsName name)
    (hfolder : s.spot? (place ++ [name]) = some .folder) :
    Ready s root (folder.join ⟨name⟩) output (place ++ [name]) out where
  isSound := h.isSound
  leadsTo := h.leadsTo.join hname (by simp [hfolder])
  text_ne_empty := Path.text_join_ne_empty hname
  isFolder := hfolder
  output_leadsTo := h.output_leadsTo
  output_isFolder := h.output_isFolder
  isBelow := by
    obtain ⟨names, hnames, rfl⟩ := h.isBelow
    exact ⟨names ++ [name], forall_isName_concat.mpr ⟨hnames, hname⟩,
      (Path.descend_concat root names name).symm⟩

/-- Only what leads to the output's folder has the path of the output. -/
theorem eq_of_sameAs (h : Ready s root folder output place out)
    (hthere : s.spot? (place ++ names) ≠ none) (hsame : (folder.descend names).sameAs output = true) :
    place ++ names = out := by
  have hnames : ∀ name ∈ names, IsName name := fun name hname =>
    h.isSound.isName hthere name (List.mem_append_right _ hname)
  exact (h.leadsTo.descend hnames hthere).unique
    (h.output_leadsTo.of_sameAs h.output_isFolder hsame)

end Ready

namespace Visits

theorem nil (h : ∀ names content, P names → t.Takes folder output names →
      s.spot? (place ++ names) ≠ some (.file content)) :
    Visits t root folder output place out P stats s [] {} stats s where
  each := rfl
  sorted := .nil
  grows := .refl out s
  sound := nofun
  complete names content hP htakes hfile := absurd hfile (h names content hP htakes)

theorem append (h : Visits t root folder output place out P stats s files report stats' s')
    (h' : Visits t root folder output place out Q stats' s' files' report' stats'' s'')
    (hlt : ∀ names names', P names → Q names' → names < names') :
    Visits t root folder output place out (fun names => P names ∨ Q names) stats s (files ++ files')
      (report.merge report') stats'' s'' where
  each := by
    rw [List.map_append]
    exact Transformer.exec_transformEach_append h.each h'.each
  sorted := List.pairwise_append.mpr ⟨h.sorted, h'.sorted, fun names hnames names' hnames' =>
    hlt names names' (h.sound names hnames).1 (h'.sound names' hnames').1⟩
  grows := h.grows.trans h'.grows
  sound names hnames := by
    obtain hnames | hnames := List.mem_append.mp hnames
    · obtain ⟨hP, hrest⟩ := h.sound names hnames
      exact ⟨.inl hP, hrest⟩
    · obtain ⟨hQ, htakes, s₁, content, hgrows, hfile⟩ := h'.sound names hnames
      exact ⟨.inr hQ, htakes, s₁, content, h.grows.trans hgrows, hfile⟩
  complete names content hPQ htakes hfile := by
    obtain hP | hQ := hPQ
    · exact List.mem_append_left _ (h.complete names content hP htakes hfile)
    · -- What is there from the start is there when it is looked at.
      obtain ⟨content', hfile'⟩ := h.grows.grows.file hfile
      exact List.mem_append_right _ (h'.complete names content' hQ htakes hfile')

theorem mono (h : Visits t root folder output place out P stats s files report stats' s')
    (hPQ : ∀ names, P names → Q names)
    (hQP : ∀ names content, Q names → t.Takes folder output names →
      s.spot? (place ++ names) = some (.file content) → P names) :
    Visits t root folder output place out Q stats s files report stats' s' where
  each := h.each
  sorted := h.sorted
  grows := h.grows
  sound names hnames := (h.sound names hnames).imp_left (hPQ names)
  complete names content hQ htakes hfile :=
    h.complete names content (hQP names content hQ htakes hfile) htakes hfile

/-- What is found in a folder is found below it. -/
theorem below (h : Visits t root (folder.join ⟨name⟩) output (place ++ [name]) out P stats s files
      report stats' s')
    (hskip : Transformer.isSkipped ⟨name⟩ = false)
    (hapart : (folder.join ⟨name⟩).sameAs output = false)
    (hfolder : s.spot? (place ++ [name]) = some .folder) :
    Visits t root folder output place out (fun names => ∃ rest, names = name :: rest ∧ P rest) stats s
      (files.map (name :: ·)) report stats' s' where
  each := by
    rw [List.map_map]
    exact h.each
  sorted := List.pairwise_map.mpr (h.sorted.imp fun hlt => List.cons_lt_cons_iff.mpr (.inr ⟨rfl, hlt⟩))
  grows := h.grows
  sound names hnames := by
    obtain ⟨rest, hrest, rfl⟩ := List.mem_map.mp hnames
    obtain ⟨hP, htakes, s₁, content, hgrows, hfile⟩ := h.sound rest hrest
    refine ⟨⟨rest, rfl, hP⟩, htakes.cons hskip hapart, s₁, content, hgrows, ?_⟩
    rw [List.append_cons]
    exact hfile
  complete names content hP htakes hfile := by
    obtain ⟨rest, rfl, hP⟩ := hP
    rw [List.append_cons] at hfile
    by_cases hrest : rest = []
    · rw [hrest, List.append_nil, hfolder] at hfile
      cases hfile
    · exact List.mem_map_of_mem (h.complete rest content hP (htakes.tail hrest).2 hfile)

/-- The files that a walk has come to are called by names. -/
theorem isName (h : Visits t root folder output place out P stats s files report stats' s')
    (hs : s.IsSound) : ∀ names ∈ files, names ≠ [] ∧ ∀ x ∈ names, IsName x := by
  intro names hnames
  obtain ⟨-, htakes, s₁, content, hgrows, hfile⟩ := h.sound names hnames
  have hthere : s₁.spot? (place ++ names) ≠ none := by simp [hfile]
  exact ⟨htakes.ne_nil, fun x hx =>
    (hgrows.sound hs).isName hthere x (List.mem_append_right _ hx)⟩

/-- A module is transformed. -/
theorem exists_single (h : Ready s root folder output place out) (hname : IsName name)
    {content : ByteArray} (hfile : s.spot? (place ++ [name]) = some (.file content))
    (hmodule : t.isModule (folder.join ⟨name⟩) = true)
    (hapart : (folder.join ⟨name⟩).sameAs output = false) (stats : Expansion.Statistics) :
    ∃ report stats' s',
      Work.exec (t.transformEntry (folder.join ⟨name⟩) output root) stats s =
        ⟨.ok report, stats', s'⟩ ∧
      Visits t root folder output place out (· = [name]) stats s [[name]] report stats' s' := by
  obtain ⟨above, habove, hfolder⟩ := h.isBelow
  have hall : ∀ x ∈ above ++ [name], IsName x := forall_isName_concat.mpr ⟨habove, hname⟩
  obtain ⟨result, stats', s', written, hexec, -, hproduces⟩ :=
    t.exec_transformFile_descend root h.output_leadsTo h.output_isFolder hall (by simp) stats
  replace hexec := Transformer.exec_transformEntry_of hexec
  rw [Path.descend_concat, ← hfolder] at hexec
  refine ⟨_, stats', s', hexec, ?_, List.pairwise_singleton _ _, ?_, ?_, ?_⟩
  · rw [List.map_singleton]
    refine (Transformer.exec_transformEach_cons hexec).trans ?_
    change (⟨.ok (Report.merge _ {}), stats', s'⟩ : Ran Report) = _
    rw [Report.merge_empty]
  · refine hproduces.growsBelow fun names hnames => ?_
    rw [List.mem_singleton.mp hnames, Transformer.outputNames_concat]
    simp
  · intro names hnames
    obtain rfl := List.mem_singleton.mp hnames
    exact ⟨rfl, .single hmodule hapart, s, content, .refl out s, hfile⟩
  · rintro names - rfl - -
    exact List.mem_singleton_self _

theorem processed (h : Visits t root root output place out P stats s files report stats' s')
    (hready : Ready s root root output place out) : report.processed = files.length := by
  obtain ⟨report', stats₁, s₁, hexec, -, hprocessed, -⟩ :=
    t.exec_transformEach root hready.output_leadsTo hready.output_isFolder files
      (h.isName hready.isSound) stats
  rw [h.each] at hexec
  cases hexec
  exact hprocessed

end Visits

namespace Transformer

/-- What a walk does at one path in a folder. -/
def visit (t : Transformer) (output root : Path) (depth : Nat) (report : Report) (path : Path) :
    Work (StateM Store) Report := do
  if path.sameAs output then return report
  else if ← Work.step (FileSystem.isFolder path) then
    if isSkipped path then return report
    else return report.merge (← t.transformWithin output root depth path)
  else if t.isModule path then return report.merge (← t.transformEntry path output root)
  else return report

theorem transformWithin_succ (t : Transformer) (output root : Path) (depth : Nat) (folder : Path) :
    (t.transformWithin output root (depth + 1) folder : Work (StateM Store) Report) =
      entries folder >>= fun paths => paths.foldlM (t.visit output root depth) {} := rfl

/-- What `exec_transformWithin` says of one depth. -/
def WalksWithin (t : Transformer) (root output : Path) (out : List String) (depth : Nat) : Prop :=
  ∀ {folder place s}, Ready s root folder output place out → ∀ stats, ∃ files report stats' s',
    Work.exec (t.transformWithin output root depth folder) stats s = ⟨.ok report, stats', s'⟩ ∧
    Visits t root folder output place out (·.length ≤ depth) stats s files report stats' s'

/-- Names that begin with one and are not too many for a walk of some depth. -/
def StartWith (name : String) (depth : Nat) (names : List String) : Prop :=
  names.head? = some name ∧ names.length ≤ depth + 1

/-- What `exec_visit` says of the path that a name leads to in a folder. -/
def VisitsPath (t : Transformer) (root folder output : Path) (place out : List String)
    (name : String) (depth : Nat) (before : Report) (stats : Expansion.Statistics) (s : Store) :
    Prop :=
  ∃ files report stats' s',
    Work.exec (t.visit output root depth before (folder.join ⟨name⟩)) stats s =
      ⟨.ok (before.merge report), stats', s'⟩ ∧
    Visits t root folder output place out (StartWith name depth) stats s files report stats' s'

variable {depth : Nat} {before : Report}

theorem VisitsPath.nothing
    (hexec : Work.exec (t.visit output root depth before (folder.join ⟨name⟩)) stats s =
      ⟨.ok before, stats, s⟩)
    (hnone : ∀ rest content, t.Takes folder output (name :: rest) →
      s.spot? (place ++ name :: rest) ≠ some (.file content)) :
    VisitsPath t root folder output place out name depth before stats s := by
  refine ⟨[], {}, stats, s, by rw [Report.merge_empty, hexec], .nil ?_⟩
  rintro names content ⟨hhead, -⟩ htakes
  obtain ⟨rest, rfl⟩ := List.head?_eq_some_iff.mp hhead
  exact hnone rest content htakes

theorem exec_visit_of_apart (t : Transformer) (root : Path) (depth : Nat) (before : Report)
    (stats : Expansion.Statistics) (s : Store)
    (hapart : (folder.join ⟨name⟩).sameAs output = false) :
    Work.exec (t.visit output root depth before (folder.join ⟨name⟩)) stats s =
      Work.exec (do
        if (s.view.kind? (folder.join ⟨name⟩) == some .folder) = true then
          if isSkipped (folder.join ⟨name⟩) then return before
          else return before.merge (← t.transformWithin output root depth (folder.join ⟨name⟩))
        else if t.isModule (folder.join ⟨name⟩) then
          return before.merge (← t.transformEntry (folder.join ⟨name⟩) output root)
        else return before) stats s := by
  rw [visit, if_neg (by simp [hapart]), Work.exec_bind, Work.exec_step, s.shows_view.isFolder]

theorem isSkipped_join (hname : IsName name) :
    isSkipped (folder.join ⟨name⟩) = isSkipped ⟨name⟩ := by
  rw [isSkipped, isSkipped, Path.fileName?_join hname, Path.fileName?_name hname]

/-- A folder is skipped or walked through. -/
theorem exec_visit_folder (ih : t.WalksWithin root output out depth)
    (h : Ready s root folder output place out) (hname : IsName name)
    (hapart : (folder.join ⟨name⟩).sameAs output = false)
    (hspot : s.spot? (place ++ [name]) = some .folder) (stats : Expansion.Statistics)
    (before : Report) : VisitsPath t root folder output place out name depth before stats s := by
  have hkind : s.view.kind? (folder.join ⟨name⟩) = some .folder := by
    rw [(h.leadsTo.join hname (by simp [hspot])).kind? (Path.text_join_ne_empty hname), hspot]
    rfl
  have hstep := exec_visit_of_apart t root depth before stats s hapart
  rw [hkind, if_pos (by rfl), isSkipped_join hname] at hstep
  by_cases hskip : isSkipped ⟨name⟩ = true
  · rw [if_pos hskip] at hstep
    refine .nothing hstep fun rest content htakes hfile => ?_
    by_cases hrest : rest = []
    · rw [hrest, hspot] at hfile
      cases hfile
    · rw [(htakes.tail hrest).1] at hskip
      cases hskip
  · rw [if_neg hskip, Work.exec_bind] at hstep
    obtain ⟨files, report, stats', s', hexec, hvisits⟩ := ih (h.join hname hspot) stats
    rw [hexec] at hstep
    refine ⟨_, report, stats', s', hstep,
      (hvisits.below (by simpa using hskip) hapart hspot).mono ?_ ?_⟩
    · rintro names ⟨rest, rfl, hrest⟩
      exact ⟨rfl, Nat.succ_le_succ hrest⟩
    · rintro names content ⟨hhead, hlength⟩ - -
      obtain ⟨rest, rfl⟩ := List.head?_eq_some_iff.mp hhead
      exact ⟨rest, rfl, Nat.le_of_succ_le_succ hlength⟩

/-- A file is transformed if it is a module. -/
theorem exec_visit_file (h : Ready s root folder output place out) (hname : IsName name)
    (hapart : (folder.join ⟨name⟩).sameAs output = false) {content : ByteArray}
    (hspot : s.spot? (place ++ [name]) = some (.file content)) (stats : Expansion.Statistics)
    (before : Report) : VisitsPath t root folder output place out name depth before stats s := by
  have hkind : s.view.kind? (folder.join ⟨name⟩) = some .file := by
    rw [(h.leadsTo.join hname (by simp [hspot])).kind? (Path.text_join_ne_empty hname), hspot]
    rfl
  have hstep := exec_visit_of_apart t root depth before stats s hapart
  rw [hkind, if_neg (by exact nofun)] at hstep
  -- Nothing is below a file.
  have hrest {rest : List String} {content' : ByteArray}
      (hfile : s.spot? (place ++ name :: rest) = some (.file content')) : rest = [] := by
    by_contra hne
    rw [List.append_cons] at hfile
    rw [folder_of_append hfile hne] at hspot
    cases hspot
  by_cases hmodule : t.isModule (folder.join ⟨name⟩) = true
  · rw [if_pos hmodule, Work.exec_bind] at hstep
    obtain ⟨report, stats', s', hexec, hvisits⟩ :=
      Visits.exists_single h hname hspot hmodule hapart stats
    rw [hexec] at hstep
    refine ⟨_, report, stats', s', hstep, hvisits.mono ?_ ?_⟩
    · rintro names rfl
      exact ⟨rfl, Nat.succ_le_succ (Nat.zero_le _)⟩
    · rintro names content' ⟨hhead, -⟩ - hfile
      obtain ⟨rest, rfl⟩ := List.head?_eq_some_iff.mp hhead
      rw [hrest hfile]
  · rw [if_neg hmodule] at hstep
    refine .nothing hstep fun rest content' htakes hfile => hmodule ?_
    have hmod := htakes.isModule
    rw [hrest hfile] at hmod
    exact hmod

theorem exec_visit (ih : t.WalksWithin root output out depth)
    (h : Ready s root folder output place out) (hname : IsName name)
    (hthere : s.spot? (place ++ [name]) ≠ none) (stats : Expansion.Statistics) (before : Report) :
    VisitsPath t root folder output place out name depth before stats s := by
  by_cases hsame : (folder.join ⟨name⟩).sameAs output = true
  · refine .nothing (by rw [visit, if_pos hsame]; rfl) fun rest content htakes => ?_
    rw [htakes.head_apart] at hsame
    cases hsame
  · have hapart : (folder.join ⟨name⟩).sameAs output = false := by simpa using hsame
    cases hspot : s.spot? (place ++ [name]) with
    | none => exact absurd hspot hthere
    | some spot =>
      cases spot with
      | folder => exact exec_visit_folder ih h hname hapart hspot stats before
      | file content => exact exec_visit_file h hname hapart hspot stats before

theorem exec_foldlM_visit (ih : t.WalksWithin root output out depth)
    (h : Ready s root folder output place out) {keys : List String} (hsorted : keys.Pairwise (· < ·))
    (hkeys : ∀ key ∈ keys, IsName key ∧ s.spot? (place ++ [key]) ≠ none)
    (stats : Expansion.Statistics) (before : Report) :
    ∃ files report stats' s',
      Work.exec ((keys.map fun key => folder.join ⟨key⟩).foldlM (t.visit output root depth) before)
        stats s = ⟨.ok (before.merge report), stats', s'⟩ ∧
      Visits t root folder output place out
        (fun names => ∃ key ∈ keys, StartWith key depth names) stats s files report stats' s' := by
  induction keys generalizing before stats s with
  | nil =>
    refine ⟨[], {}, stats, s, by rw [Report.merge_empty]; rfl, .nil ?_⟩
    rintro names content ⟨key, hkey, -⟩
    cases hkey
  | cons key keys ihkeys =>
    rw [List.pairwise_cons] at hsorted
    rw [List.forall_mem_cons] at hkeys
    obtain ⟨files, report, stats₁, s₁, hexec, hvisits⟩ :=
      exec_visit ih h hkeys.1.1 hkeys.1.2 stats before
    have hkeys' : ∀ key ∈ keys, IsName key ∧ s₁.spot? (place ++ [key]) ≠ none := fun key hkey =>
      ⟨(hkeys.2 key hkey).1, hvisits.grows.grows.there (hkeys.2 key hkey).2⟩
    obtain ⟨files', report', stats', s', hexec', hvisits'⟩ :=
      ihkeys (h.grows hvisits.grows) hsorted.2 hkeys' stats₁ (before.merge report)
    refine ⟨files ++ files', report.merge report', stats', s', ?_,
      (hvisits.append hvisits' ?_).mono ?_ ?_⟩
    · rw [List.map_cons, List.foldlM_cons, Work.exec_bind, hexec, ← Report.merge_assoc]
      exact hexec'
    · rintro names names' ⟨hhead, -⟩ ⟨key', hkey', hhead', -⟩
      obtain ⟨rest, rfl⟩ := List.head?_eq_some_iff.mp hhead
      obtain ⟨rest', rfl⟩ := List.head?_eq_some_iff.mp hhead'
      exact List.cons_lt_cons_iff.mpr (.inl (hsorted.1 key' hkey'))
    · rintro names (hfirst | ⟨key', hkey', hrest⟩)
      · exact ⟨key, List.mem_cons_self, hfirst⟩
      · exact ⟨key', List.mem_cons_of_mem _ hkey', hrest⟩
    · rintro names content ⟨key', hkey', hrest⟩ - -
      obtain rfl | hkey' := List.mem_cons.mp hkey'
      · exact .inl hrest
      · exact .inr ⟨key', hkey', hrest⟩

theorem exec_entries (h : Ready s root folder output place out) (stats : Expansion.Statistics) :
    Work.exec (entries folder) stats s =
      ⟨.ok (((s.namesAt place).mergeSort fun a b => decide (a ≤ b)).map fun key => folder.join ⟨key⟩),
        stats, s⟩ := by
  have hnames : (FileSystem.names folder : StateM Store _).run s = (.ok (s.namesAt place), s) :=
    congrArg (·, s) (h.leadsTo.names_eq h.text_ne_empty h.isFolder)
  rw [entries, Work.exec_bind, Work.exec_attempt, hnames]
  rfl

theorem pairwise_mergeSort {keys : List String} (h : keys.Nodup) :
    (keys.mergeSort fun a b => decide (a ≤ b)).Pairwise (· < ·) := by
  have hsorted : (keys.mergeSort fun a b => decide (a ≤ b)).Pairwise fun a b =>
      decide (a ≤ b) = true := by
    refine List.pairwise_mergeSort (fun a b c => ?_) (fun a b => ?_) keys
    · simpa using le_trans
    · simpa using le_total a b
  have hnodup := (List.mergeSort_perm keys fun a b => decide (a ≤ b)).nodup_iff.mpr h
  exact (hsorted.and hnodup).imp fun ⟨hle, hne⟩ => lt_of_le_of_ne (by simpa using hle) hne

/-- A walk of some depth goes on from any folder, in any state that it finds. -/
theorem exec_transformWithin (t : Transformer) (root output : Path) (out : List String)
    (depth : Nat) : t.WalksWithin root output out depth := by
  induction depth with
  | zero =>
    intro folder place s h stats
    refine ⟨[], {}, stats, s, rfl, .nil ?_⟩
    intro names content hlength htakes
    exact absurd (List.length_eq_zero_iff.mp (Nat.le_zero.mp hlength)) htakes.ne_nil
  | succ depth ih =>
    intro folder place s h stats
    have hkeys : ∀ key ∈ (s.namesAt place).mergeSort (fun a b => decide (a ≤ b)),
        IsName key ∧ s.spot? (place ++ [key]) ≠ none := by
      intro key hkey
      rw [List.mem_mergeSort, mem_namesAt_iff h.isFolder] at hkey
      exact ⟨h.isSound.isName hkey key (by simp), hkey⟩
    obtain ⟨files, report, stats', s', hexec, hvisits⟩ := exec_foldlM_visit ih h
      (pairwise_mergeSort (h.isSound.nodup_namesAt place)) hkeys stats {}
    refine ⟨files, report, stats', s', ?_, hvisits.mono ?_ ?_⟩
    · rw [transformWithin_succ, Work.exec_bind, exec_entries h, ← Report.empty_merge report]
      exact hexec
    · rintro names ⟨key, -, -, hlength⟩
      exact hlength
    · intro names content hlength htakes hfile
      obtain ⟨key, rest, rfl⟩ := List.exists_cons_of_ne_nil htakes.ne_nil
      refine ⟨key, ?_, rfl, hlength⟩
      rw [List.mem_mergeSort, mem_namesAt_iff h.isFolder]
      rw [List.append_cons] at hfile
      by_cases hrest : rest = []
      · rw [hrest, List.append_nil] at hfile
        simp [hfile]
      · simp [folder_of_append hfile hrest]

end Transformer

/-! The whole walk -/

theorem Store.depthOf_le_depthOfAll {entries : List (String × Entry)} {key : String} {e : Entry}
    (h : entries.lookup key = some e) : depthOf e ≤ depthOfAll entries := by
  induction entries with
  | nil => cases h
  | cons entry entries ih =>
    obtain ⟨first, inner⟩ := entry
    rw [List.lookup_cons] at h
    rw [depthOfAll]
    split at h
    · cases h
      exact Nat.le_max_left _ _
    · exact (ih h).trans (Nat.le_max_right _ _)

theorem Store.length_le_depthOf {tree e : Entry} (h : tree.find? names = some e) :
    names.length + depthOf e ≤ depthOf tree := by
  induction names generalizing tree with
  | nil =>
    obtain rfl := Option.some.inj h
    simp
  | cons name names ih =>
    cases tree with
    | file content => cases h
    | folder entries =>
      obtain ⟨inner, hlookup, hfind⟩ := Option.bind_eq_some_iff.mp h
      have hinner := ih hfind
      have hentries := depthOf_le_depthOfAll hlookup
      rw [depthOf, List.length_cons]
      omega

theorem Store.leadsTo_empty (h : s.spot? s.here = some .folder) : s.LeadsTo ⟨""⟩ s.here := by
  have hpieces : (⟨""⟩ : Path).pieces = [""] := by decide
  have hstart : s.start ⟨""⟩ = s.here := if_neg (by decide)
  rw [LeadsTo, hpieces, hstart, follow_cons, h]
  rfl

/-- Once its output is made, a folder is walked through to the end. -/
theorem exec_transformFolder (t : Transformer) {input : Path} {src : List String} {s₁ : Store}
    (hs : s.IsSound) (hinput : s.locate input = .ok src) (hsrc : s.spot? src = some .folder)
    (hmake : (FileSystem.makeFolders output : StateM Store _).run s = (.ok (), s₁))
    (hout : s₁.LeadsTo output out) (stats : Expansion.Statistics) :
    Adds (fun _ => True) s s₁ ∧ Ready s₁ input input output src out ∧
    ∃ files report stats' s',
      Work.exec (t.transformFolder input output) stats s = ⟨.ok report, stats', s'⟩ ∧
      Visits t input input output src out (fun _ => True) stats s₁ files report stats' s' := by
  obtain ⟨htext, hleads⟩ := leadsTo_of_locate hinput
  obtain ⟨hadds, hmade⟩ := adds_makeFolders s output
  rw [hmake] at hadds hmade
  have hs₁ := hadds.sound hs
  have hfolder : s₁.spot? out = some .folder := by
    by_cases hempty : output.text = ""
    · obtain rfl : output = ⟨""⟩ := by
        cases output
        exact congrArg Path.mk hempty
      rw [hout.unique (leadsTo_empty hs₁.here), hs₁.here]
    · obtain ⟨q, hq, hqfolder⟩ := hmade rfl hempty
      rw [hout.unique hq, hqfolder]
  have hready : Ready s₁ input input output src out :=
    ⟨hs₁, hadds.grows.leadsTo hleads, htext, hadds.grows.folder hsrc, hout, hfolder, [], nofun, rfl⟩
  obtain ⟨files, report, stats', s', hexec, hvisits⟩ :=
    t.exec_transformWithin input output out (2 * depthOf s₁.top + 2) hready stats
  refine ⟨hadds, hready, files, report, stats', s', ?_, hvisits.mono (fun _ _ => trivial) ?_⟩
  · have hkind : s.view.kind? input = some .folder := by
      rw [hleads.kind? htext, hsrc]
      rfl
    rw [Transformer.transformFolder, Work.exec_bind, Work.exec_step, s.shows_view.isFolder, hkind]
    simp only [beq_self_eq_true, if_true]
    rw [Work.exec_bind, Work.exec_attempt, hmake]
    have hbound : (FileSystem.depthBound : StateM Store Nat).run s₁ =
        (2 * depthOf s₁.top + 2, s₁) := rfl
    simp only [Except.mapError]
    rw [Work.exec_bind, Work.exec_step, hbound]
    simp only [hexec]
  · intro names content _ _ hfile
    obtain ⟨e, hfind, -⟩ := Option.map_eq_some_iff.mp hfile
    have hlength := length_le_depthOf hfind
    rw [List.length_append] at hlength
    omega

end Flavoring.Files
