import Flavoring.Config.Discovery
import Flavoring.Proofs.Config.Written
import Flavoring.Proofs.Files.Views
import Mathlib

/-!
The nearest configuration: a search upward ends at the first file that decides it, and what the file
system holds beyond that file does not matter.
-/

namespace Flavoring.Config

open Files

/-! Files that may decide a search -/

/-- A place where a search looks for a configuration. -/
inductive Candidate where
  /-- a file that holds macro configurations only -/
  | macros (path : Path)
  | package (path : Path)
deriving DecidableEq

/-- The JSON value of a file's content. -/
def documentOf (path : Path) : Except FileError String → Except Fault Json
  | .error e => .error (.unreadable path e)
  | .ok text =>
    match Json.parse? text with
    | some document => .ok document
    | none => .error (.badFile path .malformed)

/-- The answer of a value that holds configurations under keys. A key that is missing or null stands
for an empty configuration. -/
def answer (key : String) (path : Path) : Json → Except Fault (Option Discovered)
  | .object fields =>
    match Json.field? key fields with
    | none | some .null => .ok (some ⟨{}, path⟩)
    | some value =>
      match ofJson value with
      | .ok config => .ok (some ⟨config, path⟩)
      | .error problem => .error (.badSection path key problem)
  | _ => .error (.notAnObject path)

namespace Candidate

def path : Candidate → Path
  | macros path | package path => path

/-- The value in a file's document that holds configurations under keys. A package file has it under
an entry of its own, or has none. -/
def holder? : Candidate → Json → Option Json
  | macros _, document => some document
  | package _, .object fields => Json.field? "babelMacros" fields
  | package _, _ => none

/-- Whether a search ends at a candidate, by its content if it is there. A file for macro
configurations ends it whatever it holds, a package file if it cannot be read, is no JSON or has an
entry for macros. -/
def decides : Option (Except FileError String) → Candidate → Bool
  | none, _ => false
  | some _, macros _ => true
  | some (.error _), package _ => true
  | some (.ok text), package path =>
    match Json.parse? text with
    | none => true
    | some document => ((package path).holder? document).isSome

/-- The answer of a file with this content, if it has any. -/
def verdict (key : String) (content : Except FileError String) (c : Candidate) :
    Except Fault (Option Discovered) :=
  match documentOf c.path content with
  | .error fault => .error fault
  | .ok document =>
    match c.holder? document with
    | some holder => answer key c.path holder
    | none => .ok none

/-- A file with this content has a value under a key. -/
def Has (c : Candidate) (key : String) (content : Except FileError String) (value : Json) : Prop :=
  ∃ text document fields, content = .ok text ∧ Json.parse? text = some document ∧
    c.holder? document = some (.object fields) ∧ Json.field? key fields = some value

/-- The answer of a file that need not be there. -/
def outcome (v : View) (key : String) (c : Candidate) : Except Fault (Option Discovered) :=
  match v.text? c.path with
  | some content => c.verdict key content
  | none => .ok none

end Candidate

/-- The candidates in a folder, in the order in which a search looks at them. -/
def candidatesIn (folder : Path) : List Candidate :=
  [.macros (folder.join ⟨".babel-plugin-macrosrc"⟩),
    .macros (folder.join ⟨".babel-plugin-macrosrc.json"⟩),
    .macros (folder.join ⟨"babel-plugin-macros.config.json"⟩),
    .package (folder.join ⟨"package.json"⟩)]

/-- The candidates in a folder and in all above it, nearest first. -/
def candidates (start : Path) : List Candidate := start.ancestors.flatMap candidatesIn

/-- The first outcome that is a configuration or a fault. -/
def search (v : View) (key : String) : List Candidate → Except Fault (Option Discovered)
  | [] => .ok none
  | c :: cs =>
    match c.outcome v key with
    | .ok none => search v key cs
    | outcome => outcome

variable {v w : View} {key : String} {path : Path} {c : Candidate}
  {content : Except FileError String}

theorem answer_ne_none (key : String) (path : Path) (document : Json) :
    answer key path document ≠ .ok none := by
  cases document with
  | object fields =>
    rw [answer]
    split
    · exact nofun
    · exact nofun
    · split <;> exact nofun
  | _ => exact nofun

/-- What is discovered in a value is its answer. -/
theorem map_some_discovered (document : Json) (key : String) (path : Path) :
    (discovered document key path).map some = answer key path document := by
  cases document with
  | object fields =>
    simp only [discovered, sectionOf, answer]
    cases Json.field? key fields with
    | none => rfl
    | some value =>
      cases value with
      | null => rfl
      | _ =>
        simp only
        generalize ofJson _ = decoded
        cases decoded with
        | ok config => rfl
        | error problem => rfl
  | _ => rfl

theorem answer_of_field? {fields : List (String × Json)} {value : Json}
    (hfield : Json.field? key fields = some value) (hnull : value ≠ .null) (path : Path) :
    answer key path (.object fields) =
      match ofJson value with
      | .ok config => .ok (some ⟨config, path⟩)
      | .error problem => .error (.badSection path key problem) := by
  rw [answer, hfield]
  cases value with
  | null => exact absurd rfl hnull
  | _ => rfl

namespace Candidate

theorem outcome_congr (h : v.text? c.path = w.text? c.path) : c.outcome v key = c.outcome w key := by
  rw [outcome, outcome, h]

theorem verdict_of_has {value : Json} (h : c.Has key content value) (hnull : value ≠ .null) :
    c.verdict key content =
      match ofJson value with
      | .ok config => .ok (some ⟨config, c.path⟩)
      | .error problem => .error (.badSection c.path key problem) := by
  obtain ⟨text, document, fields, rfl, hparse, hholder, hfield⟩ := h
  simp only [verdict, documentOf, hparse, hholder]
  exact answer_of_field? hfield hnull c.path

theorem verdict_of_heldIn {value : Json} {config : Config} (h : c.Has key content value)
    (hheld : config.HeldIn value) :
    ∃ config', config'.Agrees config ∧ c.verdict key content = .ok (some ⟨config', c.path⟩) := by
  obtain ⟨config', hread, hagrees⟩ := hheld.ofJson
  have hnull : value ≠ .null := by cases hheld; exact nofun
  refine ⟨config', hagrees, ?_⟩
  rw [verdict_of_has h hnull, hread]

theorem verdict_of_not_readable {value : Json} (h : c.Has key content value) (hnull : value ≠ .null)
    (hread : ¬ Readable value) :
    ∃ problem, c.verdict key content = .error (.badSection c.path key problem) := by
  rw [verdict_of_has h hnull]
  cases hvalue : ofJson value with
  | ok config => exact absurd (ofJson_isOk_iff.mp ⟨config, hvalue⟩) hread
  | error problem => exact ⟨problem, rfl⟩

theorem verdict_ne_none (h : c.decides (some content) = true) : c.verdict key content ≠ .ok none := by
  cases content with
  | error e => exact nofun
  | ok text =>
    simp only [verdict, documentOf]
    cases hparse : Json.parse? text with
    | none => exact nofun
    | some document =>
      have hholder : (c.holder? document).isSome = true := by
        cases c with
        | macros path => rfl
        | package path => simpa only [decides, hparse] using h
      obtain ⟨holder, hholder⟩ := Option.isSome_iff_exists.mp hholder
      simp only [hholder]
      exact answer_ne_none key c.path holder

theorem verdict_of_not_decides (h : c.decides (some content) = false) :
    c.verdict key content = .ok none := by
  cases c with
  | macros path => cases h
  | package path =>
    cases content with
    | error e => cases h
    | ok text =>
      simp only [verdict, documentOf]
      simp only [decides] at h
      cases hparse : Json.parse? text with
      | none => simp [hparse] at h
      | some document =>
        have hnone : (package path).holder? document = none := by simpa [hparse] using h
        simp only [hnone]

theorem outcome_of_decides (h : c.decides (v.text? c.path) = true) :
    c.outcome v key ≠ .ok none := by
  rw [outcome]
  cases hcontent : v.text? c.path with
  | none => simp [hcontent, decides] at h
  | some content => exact verdict_ne_none (hcontent ▸ h)

theorem outcome_of_not_decides (h : c.decides (v.text? c.path) = false) :
    c.outcome v key = .ok none := by
  rw [outcome]
  cases hcontent : v.text? c.path with
  | none => rfl
  | some content => exact verdict_of_not_decides (hcontent ▸ h)

end Candidate

/-! The search finds the first of them -/

theorem search_append (v : View) (key : String) (cs cs' : List Candidate) :
    search v key (cs ++ cs') =
      match search v key cs with
      | .ok none => search v key cs'
      | outcome => outcome := by
  induction cs with
  | nil => rfl
  | cons c cs ih =>
    rw [List.cons_append, search, search, ih]
    cases c.outcome v key with
    | error fault => rfl
    | ok found? =>
      cases found? with
      | none => rfl
      | some found => rfl

theorem search_congr {cs : List Candidate} (h : ∀ c ∈ cs, v.text? c.path = w.text? c.path) :
    search v key cs = search w key cs := by
  induction cs with
  | nil => rfl
  | cons c cs ih =>
    rw [List.forall_mem_cons] at h
    rw [search, search, Candidate.outcome_congr h.1, ih h.2]

theorem search_of_none_decides {cs : List Candidate}
    (h : ∀ c ∈ cs, c.decides (v.text? c.path) = false) : search v key cs = .ok none := by
  induction cs with
  | nil => rfl
  | cons c cs ih =>
    rw [List.forall_mem_cons] at h
    rw [search, Candidate.outcome_of_not_decides h.1]
    exact ih h.2

theorem search_of_decides {before after : List Candidate}
    (hbefore : ∀ b ∈ before, b.decides (v.text? b.path) = false)
    (h : c.decides (v.text? c.path) = true) :
    search v key (before ++ c :: after) = c.outcome v key := by
  rw [search_append, search_of_none_decides hbefore]
  simp only [search]
  split
  next hnone => exact absurd hnone (Candidate.outcome_of_decides h)
  next => rfl

/-! What the search does on a file system -/

section Runs

variable {σ : Type} {s : σ}

theorem run_bind {α β : Type} (x : ExceptT Fault (StateM σ) α) (f : α → ExceptT Fault (StateM σ) β)
    (s : σ) :
    (x >>= f).run.run s =
      match x.run.run s with
      | (.ok a, s') => (f a).run.run s'
      | (.error fault, s') => (.error fault, s') := by
  rw [ExceptT.run_bind, StateT.run_bind]
  change (match x.run.run s with | (r, s') => _) = _
  cases x.run.run s with
  | mk r s' =>
    cases r with
    | error fault => rfl
    | ok a => rfl

theorem run_lift {α : Type} (action : StateM σ α) (s : σ) :
    (liftM action : ExceptT Fault (StateM σ) α).run.run s =
      (.ok (action.run s).1, (action.run s).2) := rfl

theorem run_ofExcept {α : Type} (x : Except Fault α) (s : σ) :
    (MonadExcept.ofExcept x : ExceptT Fault (StateM σ) α).run.run s = (x, s) := by
  cases x with
  | error fault => rfl
  | ok a => rfl

theorem run_discovered (document : Json) (key : String) (path : Path) :
    ((do return some (← MonadExcept.ofExcept (discovered document key path))) :
      ExceptT Fault (StateM σ) (Option Discovered)).run.run s = (answer key path document, s) := by
  rw [run_bind, run_ofExcept, ← map_some_discovered]
  cases discovered document key path with
  | error fault => rfl
  | ok d => rfl

variable [FileSystem (StateM σ)]

theorem run_isFile (h : Shows s v) (path : Path) :
    (liftM (FileSystem.isFile path : StateM σ Bool) : ExceptT Fault (StateM σ) Bool).run.run s =
      (.ok (v.kind? path == some .file), s) := by
  rw [run_lift, h.isFile path]

theorem run_readDocument (h : Shows s v) (path : Path) :
    (readDocument path : ExceptT Fault (StateM σ) Json).run.run s =
      (documentOf path (v.read path), s) := by
  rw [readDocument, run_bind, run_lift, h.read path]
  cases v.read path with
  | error e => rfl
  | ok text =>
    simp only [documentOf]
    cases Json.parse? text with
    | some document => rfl
    | none => rfl

theorem run_discoverFiles (h : Shows s v) (key : String) (paths : List Path) :
    (discoverFiles key paths : ExceptT Fault (StateM σ) (Option Discovered)).run.run s =
      (search v key (paths.map .macros), s) := by
  induction paths with
  | nil => rfl
  | cons path paths ih =>
    rw [discoverFiles, run_bind, run_isFile h, List.map_cons, search, Candidate.outcome, View.text?]
    by_cases hfile : v.kind? path = some .file
    · simp only [hfile, beq_self_eq_true, if_true, Candidate.path, Candidate.verdict]
      rw [run_bind, run_readDocument h]
      cases documentOf path (v.read path) with
      | error fault => rfl
      | ok document =>
        simp only [run_discovered, Candidate.holder?]
        split
        next hnone => exact absurd hnone (answer_ne_none key path document)
        next => rfl
    · simp only [beq_eq_false_iff_ne.mpr hfile, Bool.false_eq_true, if_false, Candidate.path, hfile]
      exact ih

theorem run_discoverPackage (h : Shows s v) (key : String) (path : Path) :
    (discoverPackage key path : ExceptT Fault (StateM σ) (Option Discovered)).run.run s =
      ((Candidate.package path).outcome v key, s) := by
  rw [discoverPackage, run_bind, run_isFile h, Candidate.outcome, View.text?]
  by_cases hfile : v.kind? path = some .file
  · simp only [hfile, beq_self_eq_true, if_true, Candidate.path, Candidate.verdict]
    rw [run_bind, run_readDocument h]
    cases documentOf path (v.read path) with
    | error fault => rfl
    | ok document =>
      cases document with
      | object fields =>
        simp only [Candidate.holder?, packageKey]
        cases Json.field? "babelMacros" fields with
        | none => rfl
        | some entry => exact run_discovered entry key path
      | _ => rfl
  · simp only [beq_eq_false_iff_ne.mpr hfile, Bool.false_eq_true, if_false, Candidate.path, hfile]
    rfl

/-- The files that the program names. -/
theorem candidatesIn_eq (folder : Path) :
    candidatesIn folder = (macroFiles.map fun name => folder.join ⟨name⟩).map .macros ++
      [.package (folder.join ⟨packageFile⟩)] := rfl

theorem run_discoverIn (h : Shows s v) (key : String) (folders : List Path) :
    (discoverIn key folders : ExceptT Fault (StateM σ) (Option Discovered)).run.run s =
      (search v key (folders.flatMap candidatesIn), s) := by
  induction folders with
  | nil => rfl
  | cons folder folders ih =>
    rw [discoverIn, run_bind, run_discoverFiles h, List.flatMap_cons, candidatesIn_eq,
      List.append_assoc, search_append]
    cases search v key ((macroFiles.map fun name => folder.join ⟨name⟩).map .macros) with
    | error fault => rfl
    | ok found? =>
      cases found? with
      | some d => rfl
      | none =>
        simp only [List.singleton_append, search]
        rw [run_bind, run_discoverPackage h]
        cases (Candidate.package (folder.join ⟨packageFile⟩)).outcome v key with
        | error fault => rfl
        | ok found? =>
          cases found? with
          | some d => rfl
          | none => exact ih

theorem run_discover (h : Shows s v) (hkey : Text.isBlank key = false) {folder start : Path}
    (hstart : v.start? folder = some start) :
    (discover folder key : ExceptT Fault (StateM σ) (Option Discovered)).run.run s =
      (search v key (candidates start), s) := by
  simp only [discover, hkey, Bool.false_eq_true, if_false]
  rw [run_bind, run_lift, h.canonical?]
  rw [View.start?] at hstart
  cases hcanonical : v.canonical? folder with
  | some place =>
    rw [hcanonical] at hstart
    obtain rfl := Option.some.inj hstart
    exact run_discoverIn h key place.ancestors
  | none =>
    rw [hcanonical, Option.none_or] at hstart
    simp only
    rw [run_bind, run_lift, h.workingFolder]
    simp only [hstart]
    exact run_discoverIn h key start.ancestors

end Runs

/-- The nearest file that decides gives the answer of a search, and there is none without such a file.
A configuration that this file holds under the key is found, and what is none there is a fault. Whatever
another file system holds, the answer is the same there if it starts in the same place and reads the same
at every candidate up to that file. -/
theorem nearest_file_decides {σ τ : Type} [FileSystem (StateM σ)] [FileSystem (StateM τ)] {s : σ}
    {s' : τ} {folder folder' start : Path} (hs : Shows s v) (hs' : Shows s' w)
    (hkey : Text.isBlank key = false) (hstart : v.start? folder = some start)
    (hstart' : w.start? folder' = some start) :
    (∀ before c after content, candidates start = before ++ c :: after →
      (∀ b ∈ before, b.decides (v.text? b.path) = false) → v.text? c.path = some content →
      c.decides (some content) = true →
        (discover folder key : ExceptT Fault (StateM σ) _).run.run s = (c.verdict key content, s) ∧
        (∀ value, c.Has key content value →
          (∀ config, config.HeldIn value → ∃ config', config'.Agrees config ∧
            (discover folder key : ExceptT Fault (StateM σ) _).run.run s =
              (.ok (some ⟨config', c.path⟩), s)) ∧
          (value ≠ .null → ¬ Readable value → ∃ problem,
            (discover folder key : ExceptT Fault (StateM σ) _).run.run s =
              (.error (.badSection c.path key problem), s))) ∧
        ((∀ b ∈ before ++ [c], v.text? b.path = w.text? b.path) →
          (discover folder' key : ExceptT Fault (StateM τ) _).run.run s' =
            (c.verdict key content, s'))) ∧
    ((∀ c ∈ candidates start, c.decides (v.text? c.path) = false) →
        (discover folder key : ExceptT Fault (StateM σ) _).run.run s = (.ok none, s) ∧
        ((∀ c ∈ candidates start, v.text? c.path = w.text? c.path) →
          (discover folder' key : ExceptT Fault (StateM τ) _).run.run s' = (.ok none, s'))) := by
  rw [run_discover hs hkey hstart, run_discover hs' hkey hstart']
  constructor
  · intro before c after content hsplit hbefore hcontent hdecides
    rw [hsplit]
    have hresult : ∀ u : View, (∀ b ∈ before ++ [c], v.text? b.path = u.text? b.path) →
        search u key (before ++ c :: after) = c.verdict key content := by
      intro u hagree
      rw [List.forall_mem_append, List.forall_mem_singleton, hcontent] at hagree
      have hnone : ∀ b ∈ before, b.decides (u.text? b.path) = false :=
        fun b hb => hagree.1 b hb ▸ hbefore b hb
      rw [search_of_decides hnone (hagree.2 ▸ hdecides), Candidate.outcome, ← hagree.2]
    rw [hresult v fun _ _ => rfl]
    refine ⟨rfl, fun value hhas => ⟨fun config hheld => ?_, fun hnull hread => ?_⟩,
      fun hagree => by rw [hresult w hagree]⟩
    · obtain ⟨config', hagrees, hverdict⟩ := Candidate.verdict_of_heldIn hhas hheld
      exact ⟨config', hagrees, by rw [hverdict]⟩
    · obtain ⟨problem, hverdict⟩ := Candidate.verdict_of_not_readable hhas hnull hread
      exact ⟨problem, by rw [hverdict]⟩
  · intro hnone
    rw [search_of_none_decides hnone]
    refine ⟨rfl, fun hagree => ?_⟩
    rw [← search_congr hagree, search_of_none_decides hnone]

/-- A package file without an entry for macros is passed over, and the values of the file above it are
found. What the folder above that one holds does not matter. -/
theorem nearest_file_decides_above_package :
    let text := "\x7b\"flavors\": \x7b\"values\": \x7b\"tier\": \"pro\"\x7d\x7d\x7d"
    let inner : String × Entry := ("app", .folder [
      ("src", .folder [("package.json", .file "\x7b\x7d".toUTF8)]),
      (".babel-plugin-macrosrc.json", .file text.toUTF8)])
    let s : Store := { top := .folder [inner], here := ["app"] }
    let s' : Store := { top := .folder [inner, ("package.json", .file "\x7b".toUTF8)], here := ["app"] }
    let file : Path := ⟨"/app/.babel-plugin-macrosrc.json"⟩
    let held : Config := { values := ⟨[("tier", "pro")]⟩ }
    (discover ⟨"src"⟩ "flavors" : ExceptT Fault (StateM Store) _).run.run s =
        (.ok (some ⟨held, file⟩), s) ∧
      (∃ config, config.Agrees held ∧
        (discover ⟨"src"⟩ "flavors" : ExceptT Fault (StateM Store) _).run.run s =
          (.ok (some ⟨config, file⟩), s)) ∧
      (discover ⟨"src"⟩ "flavors" : ExceptT Fault (StateM Store) _).run.run s' =
        (.ok (some ⟨held, file⟩), s') := by
  intro text inner s s' file held
  let passed := (candidates ⟨"/app/src"⟩).take 5
  let deciding := Candidate.macros file
  let content : Except FileError String := .ok text
  obtain ⟨hkey, hstart, hstart', hsplit, hpassed, hcontent, hagree, hverdict⟩ :
      Text.isBlank "flavors" = false ∧
      s.view.start? ⟨"src"⟩ = some ⟨"/app/src"⟩ ∧ s'.view.start? ⟨"src"⟩ = some ⟨"/app/src"⟩ ∧
      candidates ⟨"/app/src"⟩ = passed ++ deciding :: (candidates ⟨"/app/src"⟩).drop 6 ∧
      (∀ c ∈ passed, c.decides (s.view.text? c.path) = false) ∧
      s.view.text? deciding.path = some content ∧
      (∀ c ∈ passed ++ [deciding], s.view.text? c.path = s'.view.text? c.path) ∧
      deciding.verdict "flavors" content = .ok (some ⟨held, file⟩) := by
    decide +kernel
  let value : Json := .object [("values", held.values.toJson)]
  have hparse : Json.parse? text = some (.object [("flavors", value)]) := by
    simp only [text, value, held]
    cbv
  have hhas : deciding.Has "flavors" content value := ⟨text, _, _, rfl, hparse, rfl, rfl⟩
  have hheld : held.HeldIn value := by
    refine .object (by decide) ?_ ?_
    · intro name part hmem
      cases List.mem_singleton.mp hmem
      exact ⟨held.values, rfl, Mapping.writtenAs_toJson (by decide)⟩
    · intro name m hm hmem key
      rcases Config.section?_eq_some_iff.mp hm with ⟨rfl, rfl⟩ | ⟨rfl, rfl⟩
      · rfl
      · exact absurd List.mem_cons_self hmem
  obtain ⟨hdecides, -⟩ := nearest_file_decides s.shows_view s'.shows_view hkey hstart hstart'
  obtain ⟨hrun, hfound, hrun'⟩ := hdecides passed deciding _ content hsplit hpassed hcontent rfl
  rw [hverdict] at hrun hrun'
  exact ⟨hrun, (hfound value hhas).1 held hheld, hrun' hagree⟩

end Flavoring.Config
