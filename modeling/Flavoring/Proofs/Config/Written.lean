import Flavoring.Config.Decode
import Flavoring.Proofs.Config.Mapping
import Mathlib.Data.List.Induction

/-!
Configurations as they are written: the JSON objects that hold a configuration, and that its texts are
read from each of them.
-/

namespace Flavoring

variable {fields : List (String × Json)} {value : Json} {key text : String}

namespace Json

theorem field?_of_mem (hdistinct : (fields.map Prod.fst).Nodup) (h : (key, value) ∈ fields) :
    field? key fields = some value := by
  induction fields with
  | nil => cases h
  | cons field fields ih =>
    obtain ⟨name, first⟩ := field
    rw [List.map_cons, List.nodup_cons] at hdistinct
    rw [field?]
    rcases List.mem_cons.mp h with heq | hmem
    · rw [Prod.mk.injEq] at heq
      rw [if_pos heq.1.symm, heq.2]
    · have hkey : key ∈ fields.map Prod.fst := List.mem_map.mpr ⟨(key, value), hmem, rfl⟩
      have hne : name ≠ key := fun hname => hdistinct.1 (hname ▸ hkey)
      rw [if_neg hne]
      exact ih hdistinct.2 hmem

theorem field?_eq_none (h : key ∉ fields.map Prod.fst) : field? key fields = none := by
  induction fields with
  | nil => rfl
  | cons field fields ih =>
    rw [List.map_cons, List.mem_cons, not_or] at h
    rw [field?, if_neg (Ne.symm h.1)]
    exact ih h.2

/-- The fields of an object with a text under each key. -/
def textFields (entries : List (String × String)) : List (String × Json) :=
  entries.map fun (k, v) => (k, .string v)

theorem keys_textFields (entries : List (String × String)) :
    (textFields entries).map Prod.fst = entries.map Prod.fst := by
  rw [textFields, List.map_map]
  rfl

theorem field?_textFields (entries : List (String × String)) (key : String) :
    field? key (textFields entries) = (entries.lookup key).map .string := by
  induction entries with
  | nil => rfl
  | cons entry entries ih =>
    obtain ⟨k, v⟩ := entry
    rw [textFields, List.map_cons, field?, List.lookup_cons]
    by_cases h : k = key
    · simp [h]
    · rw [if_neg h, beq_eq_false_iff_ne.mpr (Ne.symm h)]
      exact ih

theorem exists_textFields (h : ∀ field ∈ fields, ∃ text, field.2 = .string text) :
    ∃ entries, fields = textFields entries := by
  induction fields with
  | nil => exact ⟨[], rfl⟩
  | cons field fields ih =>
    rw [List.forall_mem_cons] at h
    obtain ⟨⟨text, htext⟩, hrest⟩ := h
    obtain ⟨entries, rfl⟩ := ih hrest
    have hfield : field = (field.1, .string text) := Prod.ext rfl htext
    exact ⟨(field.1, text) :: entries, by rw [hfield]; rfl⟩

end Json

/-! Mappings -/

namespace Mapping

/-- The JSON objects of a mapping: its texts under its keys and nothing else, in any order. -/
inductive WrittenAs (m : Mapping) : Json → Prop
  | object {fields : List (String × Json)} (distinct : (fields.map Prod.fst).Nodup)
      (texts : ∀ key, Json.field? key fields = (m.find? key).map .string) :
      WrittenAs m (.object fields)

theorem put_of_not_mem {entries : List (String × String)} (h : key ∉ entries.map Prod.fst) :
    put key text entries = entries ++ [(key, text)] := by
  induction entries with
  | nil => rfl
  | cons entry entries ih =>
    rw [List.map_cons, List.mem_cons, not_or] at h
    rw [put, if_neg (Ne.symm h.1), ih h.2, List.cons_append]

/-- Entries with distinct keys stay as they are. -/
theorem ofList_of_nodup {entries : List (String × String)} (h : (entries.map Prod.fst).Nodup) :
    ofList entries = ⟨entries⟩ := by
  induction entries using List.reverseRecOn with
  | nil => rfl
  | append_singleton entries entry ih =>
    obtain ⟨k, v⟩ := entry
    rw [List.map_append, List.nodup_append] at h
    have hnew : k ∉ entries.map Prod.fst := fun hmem => h.2.2 k hmem k List.mem_cons_self rfl
    calc ofList (entries ++ [(k, v)])
      _ = (ofList entries).insert k v := by rw [ofList, List.foldl_append]; rfl
      _ = ⟨put k v entries⟩ := by rw [ih h.1, insert]
      _ = ⟨entries ++ [(k, v)]⟩ := by rw [put_of_not_mem hnew]

theorem ofFields_textFields (entries : List (String × String)) :
    ofFields (Json.textFields entries) = .ok entries := by
  induction entries with
  | nil => rfl
  | cons entry entries ih =>
    rw [Json.textFields, List.map_cons, ofFields, ← Json.textFields, ih]
    rfl

/-- The JSON values from which some mapping is read: objects of texts. -/
def Readable (value : Json) : Prop := ∃ entries, value = .object (Json.textFields entries)

theorem ofFields_isOk_iff :
    (∃ entries, ofFields fields = .ok entries) ↔ Readable (.object fields) := by
  constructor
  · rintro ⟨entries, h⟩
    have htexts : ∀ field ∈ fields, ∃ text, field.2 = .string text := by
      induction fields generalizing entries with
      | nil => exact fun _ hmem => absurd hmem List.not_mem_nil
      | cons field fields ih =>
        obtain ⟨k, v⟩ := field
        cases v with
        | string text =>
          cases hmore : ofFields fields with
          | error problem =>
            rw [ofFields, hmore] at h
            cases h
          | ok more => exact List.forall_mem_cons.mpr ⟨⟨text, rfl⟩, ih more hmore⟩
        | _ => cases h
    obtain ⟨entries, rfl⟩ := Json.exists_textFields htexts
    exact ⟨entries, rfl⟩
  · rintro ⟨entries, h⟩
    obtain rfl := Json.object.inj h
    exact ⟨entries, ofFields_textFields entries⟩

theorem ofJson_isOk_iff : (∃ m, ofJson value = .ok m) ↔ Readable value := by
  cases value with
  | object fields =>
    rw [← ofFields_isOk_iff, ofJson]
    cases ofFields fields with
    | ok entries => exact ⟨fun _ => ⟨entries, rfl⟩, fun _ => ⟨_, rfl⟩⟩
    | error problem => exact iff_of_false (fun ⟨_, h⟩ => nomatch h) fun ⟨_, h⟩ => nomatch h
  | _ => exact iff_of_false (fun ⟨_, h⟩ => nomatch h) fun ⟨_, h⟩ => nomatch h

theorem ofJson_toJson {m : Mapping} (h : (m.entries.map Prod.fst).Nodup) :
    ofJson m.toJson = .ok m := by
  have hfields : m.toJson = .object (Json.textFields m.entries) := rfl
  rw [hfields, ofJson, ofFields_textFields]
  exact congrArg Except.ok (ofList_of_nodup h)

variable {m : Mapping}

theorem writtenAs_toJson (h : (m.entries.map Prod.fst).Nodup) : m.WrittenAs m.toJson :=
  .object ((Json.keys_textFields m.entries).symm ▸ h) (Json.field?_textFields m.entries)

/-- A JSON object of a mapping is that of one with the same texts, in the object's order. -/
theorem WrittenAs.exists_toJson (h : m.WrittenAs value) :
    ∃ m' : Mapping, value = m'.toJson ∧ (m'.entries.map Prod.fst).Nodup ∧
      ∀ key, m'.find? key = m.find? key := by
  cases h with
  | @object fields distinct texts =>
    have hstrings : ∀ field ∈ fields, ∃ text, field.2 = .string text := by
      intro field hmem
      have hfield := texts field.1
      rw [Json.field?_of_mem distinct hmem] at hfield
      obtain ⟨text, -, htext⟩ := Option.map_eq_some_iff.mp hfield.symm
      exact ⟨text, htext.symm⟩
    obtain ⟨entries, rfl⟩ := Json.exists_textFields hstrings
    refine ⟨⟨entries⟩, rfl, Json.keys_textFields entries ▸ distinct, fun key => ?_⟩
    have hkey := texts key
    rw [Json.field?_textFields] at hkey
    exact Option.map_injective (fun _ _ => Json.string.inj) hkey

/-- What is read from a JSON object of a mapping has the texts of the mapping. -/
theorem WrittenAs.ofJson (h : m.WrittenAs value) :
    ∃ m', Mapping.ofJson value = .ok m' ∧ ∀ key, m'.find? key = m.find? key := by
  obtain ⟨m', rfl, hdistinct, hfind⟩ := h.exists_toJson
  exact ⟨m', ofJson_toJson hdistinct, hfind⟩

end Mapping

/-! Configurations -/

namespace Config

/-- The section of a name. -/
def section? (c : Config) (name : String) : Option Mapping :=
  if name = "imports" then some c.imports else if name = "values" then some c.values else none

/-- The JSON objects of a configuration: its sections under their names, in either order. -/
inductive WrittenAs (c : Config) : Json → Prop
  | object {fields : List (String × Json)} {imports values : Json}
      (imports_written : c.imports.WrittenAs imports) (values_written : c.values.WrittenAs values)
      (members : fields.Perm [("imports", imports), ("values", values)]) :
      WrittenAs c (.object fields)

/-- Two configurations give the same answers. -/
def Agrees (c c' : Config) : Prop :=
  (∀ path, c.importPath? path = c'.importPath? path) ∧
    ∀ key, c.values.find? key = c'.values.find? key

variable {c : Config} {m : Mapping} {name : String}

theorem writtenAs_toJson (himports : (c.imports.entries.map Prod.fst).Nodup)
    (hvalues : (c.values.entries.map Prod.fst).Nodup) : c.WrittenAs c.toJson :=
  .object (Mapping.writtenAs_toJson himports) (Mapping.writtenAs_toJson hvalues) (.refl _)

/-- The JSON objects from which a configuration is read: its sections under their names, in any order,
where an empty section may be missing. -/
inductive HeldIn (c : Config) : Json → Prop
  | object {fields : List (String × Json)} (distinct : (fields.map Prod.fst).Nodup)
      (written : ∀ name value, (name, value) ∈ fields →
        ∃ m, c.section? name = some m ∧ m.WrittenAs value)
      (missing : ∀ name m, c.section? name = some m → name ∉ fields.map Prod.fst →
        ∀ key, m.find? key = none) :
      HeldIn c (.object fields)

theorem agrees_of_sections {c' : Config} (h : ∀ name m, c.section? name = some m →
    ∃ m', c'.section? name = some m' ∧ ∀ key, m'.find? key = m.find? key) : c'.Agrees c := by
  obtain ⟨imports, himports, hpaths⟩ := h "imports" _ rfl
  obtain ⟨values, hvalues, htexts⟩ := h "values" _ rfl
  obtain rfl : c'.imports = imports := Option.some.inj himports
  obtain rfl : c'.values = values := Option.some.inj hvalues
  exact ⟨hpaths, htexts⟩

theorem section?_eq_some_iff : c.section? name = some m ↔
    (name = "imports" ∧ c.imports = m) ∨ (name = "values" ∧ c.values = m) := by
  rw [section?]
  by_cases himports : name = "imports"
  · simp [himports]
  · simp [himports]

theorem ofFields_cons (acc : Config) (hsection : (c.section? name).isSome)
    (hm : Mapping.ofJson value = .ok m) (fields : List (String × Json)) :
    ∃ acc', ofFields acc ((name, value) :: fields) = ofFields acc' fields ∧
      acc'.section? name = some m ∧ ∀ other ≠ name, acc'.section? other = acc.section? other := by
  by_cases himports : name = "imports"
  · subst himports
    refine ⟨{ acc with imports := m }, ?_, rfl, fun other hother => ?_⟩
    · rw [ofFields, if_pos rfl, hm]
      rfl
    · simp only [section?, if_neg hother]
  · by_cases hvalues : name = "values"
    · subst hvalues
      refine ⟨{ acc with values := m }, ?_, rfl, fun other hother => ?_⟩
      · rw [ofFields, if_neg himports, if_pos rfl, hm]
        rfl
      · simp only [section?, if_neg hother]
    · simp [section?, himports, hvalues] at hsection

/-- All sections that the members hold are read, on top of those read before. -/
theorem ofFields_of_written (acc : Config) (hdistinct : (fields.map Prod.fst).Nodup)
    (hwritten : ∀ name value, (name, value) ∈ fields →
      ∃ m, c.section? name = some m ∧ m.WrittenAs value) :
    ∃ c', ofFields acc fields = .ok c' ∧
      (∀ name, name ∉ fields.map Prod.fst → c'.section? name = acc.section? name) ∧
      ∀ name m, c.section? name = some m → name ∈ fields.map Prod.fst →
        ∃ m', c'.section? name = some m' ∧ ∀ key, m'.find? key = m.find? key := by
  induction fields generalizing acc with
  | nil => exact ⟨acc, rfl, fun _ _ => rfl, fun _ _ _ hmem => absurd hmem (List.not_mem_nil)⟩
  | cons field fields ih =>
    obtain ⟨name, value⟩ := field
    rw [List.map_cons, List.nodup_cons] at hdistinct
    obtain ⟨m, hsection, hvalue⟩ := hwritten name value List.mem_cons_self
    obtain ⟨m', hm', hfind⟩ := hvalue.ofJson
    obtain ⟨acc', hcons, hname, hother⟩ :=
      ofFields_cons acc (Option.isSome_of_eq_some hsection) hm' fields
    obtain ⟨c', hc', hkept, hread⟩ :=
      ih acc' hdistinct.2 fun _ _ hmem => hwritten _ _ (List.mem_cons_of_mem _ hmem)
    -- the rest holds no section of this name, so the one read here stays
    refine ⟨c', hcons.trans hc', fun other hmem => ?_, fun other m₁ hm₁ hmem => ?_⟩
    · rw [List.map_cons, List.mem_cons, not_or] at hmem
      rw [hkept other hmem.2, hother other hmem.1]
    · rw [List.map_cons, List.mem_cons] at hmem
      rcases hmem with rfl | hmem
      · obtain rfl := Option.some.inj (hsection.symm.trans hm₁)
        exact ⟨m', (hkept _ hdistinct.1).trans hname, hfind⟩
      · exact hread other m₁ hm₁ hmem

/-- What is read from a JSON object of a configuration gives the answers of the configuration. -/
theorem HeldIn.ofJson (h : c.HeldIn value) : ∃ c', Config.ofJson value = .ok c' ∧ c'.Agrees c := by
  cases h with
  | @object fields distinct written missing =>
    obtain ⟨c', hc', hkept, hread⟩ := ofFields_of_written {} distinct written
    refine ⟨c', hc', agrees_of_sections fun name m hm => ?_⟩
    by_cases hmem : name ∈ fields.map Prod.fst
    · exact hread name m hm hmem
    · have hempty : ({} : Config).section? name = some {} := by
        rcases section?_eq_some_iff.mp hm with ⟨rfl, -⟩ | ⟨rfl, -⟩ <;> rfl
      exact ⟨{}, (hkept name hmem).trans hempty, fun key => (missing name m hm hmem key).symm⟩

/-- The JSON values from which some configuration is read: objects that have nothing but sections, and
arrays of two sections at most. -/
def Readable : Json → Prop
  | .object members => ∀ member ∈ members,
      (member.1 = "imports" ∨ member.1 = "values") ∧ Mapping.Readable member.2
  | .array sections => sections.length ≤ 2 ∧ ∀ value ∈ sections, Mapping.Readable value
  | _ => False

theorem ofFields_isOk_iff (acc : Config) (members : List (String × Json)) :
    (∃ c, ofFields acc members = .ok c) ↔ Readable (.object members) := by
  induction members generalizing acc with
  | nil => exact ⟨fun _ _ hmem => absurd hmem List.not_mem_nil, fun _ => ⟨acc, rfl⟩⟩
  | cons member members ih =>
    obtain ⟨name, value⟩ := member
    rw [Readable, List.forall_mem_cons, ← Mapping.ofJson_isOk_iff]
    by_cases hname : name = "imports" ∨ name = "values"
    · cases hvalue : Mapping.ofJson value with
      | ok m =>
        have hsection : (acc.section? name).isSome = true := by
          rcases hname with rfl | rfl <;> rfl
        obtain ⟨acc', hcons, -⟩ := ofFields_cons acc hsection hvalue members
        rw [hcons, ih acc']
        exact ⟨fun h => ⟨⟨hname, m, rfl⟩, h⟩, fun h => h.2⟩
      | error problem =>
        have herror : ofFields acc ((name, value) :: members) = .error problem := by
          rcases hname with rfl | rfl
          · rw [ofFields, if_pos rfl, hvalue]
            rfl
          · rw [ofFields, if_neg (by decide), if_pos rfl, hvalue]
            rfl
        rw [herror]
        exact iff_of_false (fun ⟨_, h⟩ => nomatch h) fun ⟨⟨_, _, h⟩, _⟩ => nomatch h
    · have herror : ofFields acc ((name, value) :: members) = .error (.unknownField name) := by
        rw [not_or] at hname
        rw [ofFields, if_neg hname.1, if_neg hname.2]
        rfl
      rw [herror]
      exact iff_of_false (fun ⟨_, h⟩ => nomatch h) fun h => hname h.1.1

theorem ofJson_array_isOk_iff (sections : List Json) :
    (∃ c, ofJson (.array sections) = .ok c) ↔ Readable (.array sections) := by
  simp only [Readable, ← Mapping.ofJson_isOk_iff]
  match sections with
  | [] => exact iff_of_true ⟨{}, rfl⟩ ⟨Nat.zero_le 2, fun _ hmem => absurd hmem List.not_mem_nil⟩
  | [imports] =>
    rw [List.forall_mem_singleton, ofJson]
    cases Mapping.ofJson imports with
    | ok m => exact iff_of_true ⟨_, rfl⟩ ⟨Nat.le_succ 1, m, rfl⟩
    | error problem => exact iff_of_false (fun ⟨_, h⟩ => nomatch h) fun ⟨_, _, h⟩ => nomatch h
  | imports :: values :: more =>
    rw [List.forall_mem_cons, List.forall_mem_cons, ofJson]
    cases Mapping.ofJson imports with
    | error problem => exact iff_of_false (fun ⟨_, h⟩ => nomatch h) fun ⟨_, ⟨_, h⟩, _⟩ => nomatch h
    | ok m =>
      cases Mapping.ofJson values with
      | error problem =>
        exact iff_of_false (fun ⟨_, h⟩ => nomatch h) fun ⟨_, _, ⟨_, h⟩, _⟩ => nomatch h
      | ok m' =>
        cases more with
        | nil =>
          exact iff_of_true ⟨_, rfl⟩
            ⟨Nat.le_refl 2, ⟨m, rfl⟩, ⟨m', rfl⟩, fun _ hmem => absurd hmem List.not_mem_nil⟩
        | cons extra more =>
          refine iff_of_false (fun ⟨_, h⟩ => nomatch h) fun ⟨hlength, _⟩ => ?_
          simp only [List.length_cons] at hlength
          omega

/-- A configuration is read from every value that is readable, and from no other. -/
theorem ofJson_isOk_iff : (∃ c, ofJson value = .ok c) ↔ Readable value := by
  cases value with
  | object members => exact ofFields_isOk_iff {} members
  | array sections => exact ofJson_array_isOk_iff sections
  | _ => exact iff_of_false (fun ⟨_, h⟩ => nomatch h) id

theorem WrittenAs.distinct (h : c.WrittenAs (.object fields)) : (fields.map Prod.fst).Nodup := by
  obtain ⟨-, -, hmembers⟩ := h
  have hnames : ["imports", "values"].Nodup := by decide
  exact (hmembers.map Prod.fst).nodup_iff.mpr hnames

theorem WrittenAs.heldIn (h : c.WrittenAs value) : c.HeldIn value := by
  cases h with
  | @object fields imports values imports_written values_written members =>
    have hkeys : (fields.map Prod.fst).Perm ["imports", "values"] := members.map Prod.fst
    refine .object (hkeys.nodup_iff.mpr (by decide)) (fun name value hmem => ?_)
      fun name m hm hmem => absurd (hkeys.mem_iff.mpr ?_) hmem
    · rw [members.mem_iff, List.mem_cons, List.mem_singleton] at hmem
      rcases hmem with heq | heq
      · cases heq
        exact ⟨c.imports, rfl, imports_written⟩
      · cases heq
        exact ⟨c.values, rfl, values_written⟩
    · rcases section?_eq_some_iff.mp hm with ⟨rfl, -⟩ | ⟨rfl, -⟩ <;> simp

theorem WrittenAs.ofJson (h : c.WrittenAs value) :
    ∃ c', Config.ofJson value = .ok c' ∧ c'.Agrees c := h.heldIn.ofJson

theorem WrittenAs.field?_of_section? (h : c.WrittenAs (.object fields))
    (hsection : c.section? name = some m) :
    ∃ value, Json.field? name fields = some value ∧ m.WrittenAs value := by
  have hdistinct := h.distinct
  obtain ⟨himports, hvalues, hmembers⟩ := h
  rcases section?_eq_some_iff.mp hsection with ⟨rfl, rfl⟩ | ⟨rfl, rfl⟩
  · exact ⟨_, Json.field?_of_mem hdistinct (hmembers.mem_iff.mpr (by simp)), himports⟩
  · exact ⟨_, Json.field?_of_mem hdistinct (hmembers.mem_iff.mpr (by simp)), hvalues⟩

theorem WrittenAs.field?_eq_none (h : c.WrittenAs (.object fields))
    (hsection : c.section? name = none) : Json.field? name fields = none := by
  obtain ⟨-, -, hmembers⟩ := h
  apply Json.field?_eq_none
  have hkeys := hmembers.map Prod.fst
  rw [hkeys.mem_iff]
  simp only [section?] at hsection
  grind

end Config

end Flavoring
