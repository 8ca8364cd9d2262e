import Flavoring.Proofs.Config.Nearest
import Mathlib

/-!
Configurations in named files: what is loaded from the JSON object of a configuration, under a key or
by itself, in whatever order its members come.
-/

namespace Flavoring.Config

open Files

variable {fields : List (String × Json)} {value : Json} {key text name : String} {c : Config}
  {m : Mapping} {path : Path}

/-- What is wrong with a configuration that has a text under a key. -/
def misplaced (key text : String) : Problem :=
  if key = "imports" ∨ key = "values" then .invalidType (.string text) .mapping
  else .unknownField key

theorem ofFields_text (c : Config) (key text : String) (fields : List (String × Json)) :
    ofFields c ((key, .string text) :: fields) = .error (misplaced key text) := by
  rw [ofFields]
  by_cases himports : key = "imports"
  · rw [if_pos himports, misplaced, if_pos (.inl himports)]
    rfl
  · rw [if_neg himports]
    by_cases hvalues : key = "values"
    · rw [if_pos hvalues, misplaced, if_pos (.inr hvalues)]
      rfl
    · rw [if_neg hvalues, misplaced, if_neg (not_or.mpr ⟨himports, hvalues⟩)]
      rfl

/-- A mapping without texts is a configuration without sections. -/
theorem ofJson_of_no_text (h : m.WrittenAs value) (hnone : ∀ key, m.find? key = none) :
    Config.ofJson value = .ok {} := by
  obtain ⟨⟨entries⟩, rfl, -, hfind⟩ := h.exists_toJson
  cases entries with
  | nil => rfl
  | cons entry entries =>
    have hentry := (hfind entry.1).trans (hnone entry.1)
    simp [Mapping.find?] at hentry

/-- A mapping with texts is no configuration, because of the first of them. -/
theorem ofJson_of_text (h : m.WrittenAs value) (htext : m.find? key = some text) :
    ∃ key text, m.find? key = some text ∧ Config.ofJson value = .error (misplaced key text) := by
  obtain ⟨⟨entries⟩, rfl, -, hfind⟩ := h.exists_toJson
  cases entries with
  | nil => cases (hfind key).trans htext
  | cons entry entries =>
    obtain ⟨k, v⟩ := entry
    refine ⟨k, v, ?_, ofFields_text {} k v _⟩
    rw [← hfind, Mapping.find?, List.lookup_cons_self]

theorem ofDocument_of_field? (hfield : Json.field? name fields = some value)
    (hnull : value ≠ .null) (path : Path) :
    ofDocument (.object fields) name path = (ofJson value).mapError (.badSection path name) := by
  have hsection : sectionOf (.object fields) name path =
      ((ofJson value).mapError (.badSection path name)).map some := by
    rw [sectionOf, hfield]
    split
    next heq => cases heq
    next heq => exact absurd (Option.some.inj heq) hnull
    next found _ heq =>
      rw [Option.some.inj heq]
      cases ofJson found with
      | ok c => rfl
      | error problem => rfl
  rw [ofDocument, hfield, Option.isSome_some, if_pos rfl, hsection]
  cases ofJson value with
  | ok c => rfl
  | error problem => rfl

theorem ofDocument_of_field?_eq_none (hfield : Json.field? name fields = none) (path : Path) :
    ofDocument (.object fields) name path =
      (ofJson (.object fields)).mapError (.badFile path) := by
  rw [ofDocument, hfield, Option.isSome_none, if_neg Bool.false_ne_true]
  cases ofJson (.object fields) with
  | ok c => rfl
  | error problem => rfl

theorem run_load {σ : Type} [FileSystem (StateM σ)] {s : σ} {v : View} {document : Json}
    (hs : Shows s v) (hread : v.read path = .ok text) (hparse : Json.parse? text = some document)
    (name : String) :
    (load path name : ExceptT Fault (StateM σ) Config).run.run s =
      (ofDocument document name path, s) := by
  rw [load, run_bind, run_readDocument hs, hread, documentOf, hparse]
  exact run_ofExcept _ s

/-- A configuration is loaded from a file that holds its JSON object under the name, whatever else
the file holds, and from one that is its JSON object, unless the name is that of a section. Such a
section is taken for the configuration under the name: it is an empty one if the section is empty,
and a fault otherwise. -/
theorem load_in_either_shape {σ : Type} [FileSystem (StateM σ)] {s : σ} {v : View} {document : Json}
    (hs : Shows s v) (hread : v.read path = .ok text) (hparse : Json.parse? text = some document)
    (c : Config) (name : String) :
    (∀ fields value, document = .object fields → Json.field? name fields = some value →
      c.WrittenAs value →
        ∃ c', (load path name : ExceptT Fault (StateM σ) _).run.run s = (.ok c', s) ∧ c'.Agrees c) ∧
    (c.WrittenAs document →
      (c.section? name = none →
        ∃ c', (load path name : ExceptT Fault (StateM σ) _).run.run s = (.ok c', s) ∧
          c'.Agrees c) ∧
      ∀ m, c.section? name = some m →
        ((∀ key, m.find? key = none) →
          (load path name : ExceptT Fault (StateM σ) _).run.run s = (.ok {}, s)) ∧
        ((∃ key, (m.find? key).isSome) → ∃ key text, m.find? key = some text ∧
          (load path name : ExceptT Fault (StateM σ) _).run.run s =
            (.error (.badSection path name (misplaced key text)), s))) := by
  rw [run_load hs hread hparse]
  constructor
  · rintro fields value rfl hfield hwritten
    obtain ⟨c', hc', hagrees⟩ := hwritten.ofJson
    have hnull : value ≠ .null := by cases hwritten; exact nofun
    rw [ofDocument_of_field? hfield hnull, hc']
    exact ⟨c', rfl, hagrees⟩
  · intro hwritten
    obtain ⟨fields, rfl⟩ : ∃ fields, document = .object fields := by cases hwritten; exact ⟨_, rfl⟩
    refine ⟨fun hsection => ?_, fun m hsection => ?_⟩
    · obtain ⟨c', hc', hagrees⟩ := hwritten.ofJson
      rw [ofDocument_of_field?_eq_none (hwritten.field?_eq_none hsection), hc']
      exact ⟨c', rfl, hagrees⟩
    · -- the section stands where a configuration is expected
      obtain ⟨value, hfield, hvalue⟩ := hwritten.field?_of_section? hsection
      have hnull : value ≠ .null := by cases hvalue; exact nofun
      rw [ofDocument_of_field? hfield hnull]
      refine ⟨fun hnone => ?_, fun ⟨key, htext⟩ => ?_⟩
      · rw [ofJson_of_no_text hvalue hnone]
        rfl
      · obtain ⟨text, htext⟩ := Option.isSome_iff_exists.mp htext
        obtain ⟨key, text, hfirst, hproblem⟩ := ofJson_of_text hvalue htext
        rw [hproblem]
        exact ⟨key, text, hfirst, rfl⟩

/-- One configuration in both shapes, and the fault if its section of values is asked for. -/
theorem load_in_either_shape_of_values :
    let c : Config := { values := ⟨[("tier", "pro")]⟩ }
    let bare := "\x7b\"values\": \x7b\"tier\": \"pro\"\x7d, \"imports\": \x7b\x7d\x7d"
    let keyed := "\x7b\"other\": 1, \"flavors\": " ++ bare ++ "\x7d"
    let s : Store := { top := .folder [("bare.json", .file bare.toUTF8),
      ("keyed.json", .file keyed.toUTF8)], here := [] }
    (∃ c', (load ⟨"keyed.json"⟩ "flavors" : ExceptT Fault (StateM Store) _).run.run s = (.ok c', s) ∧
      c'.Agrees c) ∧
    (∃ c', (load ⟨"bare.json"⟩ "flavors" : ExceptT Fault (StateM Store) _).run.run s = (.ok c', s) ∧
      c'.Agrees c) ∧
    ∃ key text, c.values.find? key = some text ∧
      (load ⟨"bare.json"⟩ "values" : ExceptT Fault (StateM Store) _).run.run s =
        (.error (.badSection ⟨"bare.json"⟩ "values" (misplaced key text)), s) := by
  intro c bare keyed s
  have hc : c.WrittenAs c.toJson := writtenAs_toJson (by decide) (by decide)
  have hkeyed : s.view.read ⟨"keyed.json"⟩ = .ok keyed := by decide +kernel
  have hbare : s.view.read ⟨"bare.json"⟩ = .ok bare := by decide +kernel
  have hparse : Json.parse? bare = some c.toJson := by
    simp only [bare, c]
    cbv
  have hparse' : Json.parse? keyed = some (.object [("flavors", c.toJson), ("other", .integer 1)]) := by
    simp only [keyed, bare, c]
    cbv
  obtain ⟨hmember, -⟩ := load_in_either_shape s.shows_view hkeyed hparse' c "flavors"
  obtain ⟨-, hwhole⟩ := load_in_either_shape s.shows_view hbare hparse c "flavors"
  obtain ⟨-, hsection⟩ := load_in_either_shape s.shows_view hbare hparse c "values"
  exact ⟨hmember _ _ rfl rfl hc, (hwhole hc).1 rfl, ((hsection hc).2 c.values rfl).2 ⟨"tier", rfl⟩⟩

/-- The file of a configuration with values is loaded as an empty one if its section of imports is
asked for. -/
theorem values_lost_under_section_name :
    let c : Config := { values := ⟨[("tier", "pro")]⟩ }
    let text := "\x7b\"imports\": \x7b\x7d, \"values\": \x7b\"tier\": \"pro\"\x7d\x7d"
    let s : Store := { top := .folder [("bare.json", .file text.toUTF8)], here := [] }
    s.view.read ⟨"bare.json"⟩ = .ok text ∧
      (∃ document, Json.parse? text = some document ∧ c.WrittenAs document) ∧
      (load ⟨"bare.json"⟩ "imports" : ExceptT Fault (StateM Store) _).run.run s = (.ok {}, s) ∧
      ¬ ({} : Config).Agrees c := by
  intro c text s
  have hread : s.view.read ⟨"bare.json"⟩ = .ok text := by decide +kernel
  have hparse : Json.parse? text = some c.toJson := by
    simp only [text, c]
    cbv
  refine ⟨hread, ⟨_, hparse, writtenAs_toJson (by decide) (by decide)⟩, ?_, fun h => ?_⟩
  · rw [run_load s.shows_view hread hparse]
    rfl
  · exact absurd (h.2 "tier") (by decide)

end Flavoring.Config
