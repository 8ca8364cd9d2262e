import Flavoring.Proofs.Config.Mapping
import Flavoring.Proofs.Expansion.Substitution
import Flavoring.Proofs.Tree.Outlines

/-!
Collection: which statements are the imports of a marker module, and which nodes refer to what they
bind.

A name may be bound by several of these imports. The last of the specifiers that bind it says what it
refers to everywhere in the module.
-/

namespace Flavoring.Expansion

open Flavoring.Tree

/-- The path of a module: its name, or a longer path that ends in it. -/
def Denotes (path markerModule : String) : Prop :=
  path = markerModule ∨ ∃ folder, path = folder ++ "/" ++ markerModule

/-- A statement imports what the specifiers say from the marker module. -/
def ImportsFrom (T : Tree) (markerModule : String) (s : NodeId) (specifiers : List Specifier) :
    Prop :=
  ∃ node l, T.content? s = some (.importDeclaration specifiers node) ∧
    T.content? node = some (.literal l) ∧ Denotes l.value markerModule

/-- The specifiers of imports, as they are written. -/
def specifiersOf (T : Tree) (imports : List NodeId) : List Specifier :=
  imports.flatMap fun s =>
    match T.content? s with
    | some (.importDeclaration specifiers _) => specifiers
    | _ => []

/-- The last specifier that binds a local name imports `imported`. -/
def LastBinds (specifiers : List Specifier) (localName imported : String) : Prop :=
  ∃ before s after, specifiers = before ++ s :: after ∧ s.localName = localName ∧
    s.imported = imported ∧ ∀ later ∈ after, later.localName ≠ localName

/-- The references of a module: the imports of the marker module, and by what is imported the nodes
that read a name for it, both in the order of the text. -/
structure Collects (T : Tree) (markerModule : String) (refs : References) : Prop where
  imports_sublist : refs.imports.Sublist T.statements
  imports_nodup : refs.imports.Nodup
  mem_imports_iff {s : NodeId} : s ∈ refs.imports ↔
    s ∈ T.statements ∧ ∃ specifiers, ImportsFrom T markerModule s specifiers
  mem_get_iff {name : String} {x : NodeId} : x ∈ refs.get name ↔ T.isLive x = true ∧
    ∃ localName, T.content? x = some (.identifier localName) ∧
      LastBinds (specifiersOf T refs.imports) localName name
  get_nodup (name : String) : (refs.get name).Nodup
  get_rises (name : String) :
    (refs.get name).Pairwise fun x y => (T.extent x).start < (T.extent y).start
  get_disjoint {name other : String} : name ≠ other → (refs.get name).Disjoint (refs.get other)

variable {T : Tree} {source path markerModule localName imported name : String}
  {specifiers : List Specifier} {s x y : NodeId}

/-! Imports -/

theorem isMarkerModule_iff : isMarkerModule path markerModule = true ↔ Denotes path markerModule := by
  have hsuffix : ('/' :: markerModule.toList).isSuffixOf path.toList = true ↔
      ∃ folder, path = folder ++ "/" ++ markerModule := by
    rw [List.isSuffixOf_iff_suffix]
    constructor
    · rintro ⟨folder, hfolder⟩
      refine ⟨String.ofList folder, String.toList_inj.mp ?_⟩
      rw [← hfolder, String.toList_append, String.toList_append, String.toList_ofList,
        List.append_assoc]
      rfl
    · rintro ⟨folder, rfl⟩
      refine ⟨folder.toList, ?_⟩
      rw [String.toList_append, String.toList_append, List.append_assoc]
      rfl
  rw [isMarkerModule, Bool.or_eq_true, beq_iff_eq, hsuffix, Denotes]

namespace References

theorem markers?_eq_some_iff (hs : T.isLive s = true) :
    markers? T markerModule s = some specifiers ↔ ImportsFrom T markerModule s specifiers := by
  unfold markers?
  constructor
  · intro h
    split at h
    · next specifiers' node' hcontent =>
      split at h
      · next node l hsource =>
        split at h
        · next hmarker =>
          cases h
          obtain ⟨-, ⟨specifiers'', hcontent'⟩, hnode⟩ := importSource?_eq_some.mp hsource
          rw [hcontent, Option.some.injEq, Content.importDeclaration.injEq] at hcontent'
          obtain ⟨rfl, rfl⟩ := hcontent'
          exact ⟨_, l, hcontent, hnode, isMarkerModule_iff.mp hmarker⟩
        · cases h
      · cases h
    · cases h
  · rintro ⟨node, l, hcontent, hnode, hdenotes⟩
    have hsource := importSource?_eq_some.mpr ⟨hs, ⟨specifiers, hcontent⟩, hnode⟩
    simp [hcontent, hsource, isMarkerModule_iff.mpr hdenotes]

theorem mem_markerImports_iff (hT : T.Built source []) : s ∈ markerImports T markerModule ↔
    s ∈ T.statements ∧ ∃ specifiers, ImportsFrom T markerModule s specifiers := by
  rw [markerImports, List.mem_filter, Option.isSome_iff_exists]
  refine and_congr_right fun hs => exists_congr fun specifiers => ?_
  exact markers?_eq_some_iff (hT.isLive_of_mem_statements hs)

/-! Bindings -/

theorem flatten_filterMap_markers? (T : Tree) (markerModule : String) (list : List NodeId) :
    (list.filterMap (markers? T markerModule)).flatten =
      specifiersOf T (list.filter fun s => (markers? T markerModule s).isSome) := by
  induction list with
  | nil => rfl
  | cons s list ih =>
    cases hs : markers? T markerModule s with
    | none => rw [List.filterMap_cons_none hs, List.filter_cons_of_neg (by simp [hs]), ih]
    | some specifiers =>
      have hcontent : ∃ node, T.content? s = some (.importDeclaration specifiers node) := by
        unfold markers? at hs
        split at hs
        · split at hs
          · split at hs
            · cases hs
              exact ⟨_, ‹_›⟩
            · cases hs
          · cases hs
        · cases hs
      obtain ⟨node, hcontent⟩ := hcontent
      rw [List.filterMap_cons_some hs, List.filter_cons_of_pos (by simp [hs]), List.flatten_cons, ih,
        specifiersOf, specifiersOf, List.flatMap_cons, hcontent]

theorem lastBinds_iff (specifiers : List Specifier) :
    (Mapping.ofList (specifiers.map fun s => (s.localName, s.imported))).find? localName =
      some imported ↔ LastBinds specifiers localName imported := by
  rw [Mapping.find?_ofList_eq_some_iff]
  constructor
  · rintro ⟨before, after, hsplit, hafter⟩
    obtain ⟨front, back, rfl, -, hback⟩ := List.map_eq_append_iff.mp hsplit
    obtain ⟨s, rest, rfl, hs, rfl⟩ := List.map_eq_cons_iff.mp hback
    rw [Prod.mk.injEq] at hs
    exact ⟨front, s, rest, rfl, hs.1, hs.2, fun later hlater =>
      hafter _ (List.mem_map_of_mem hlater)⟩
  · rintro ⟨before, s, after, rfl, rfl, rfl, hafter⟩
    refine ⟨before.map _, after.map _, by rw [List.map_append, List.map_cons], fun entry hentry => ?_⟩
    obtain ⟨later, hlater, rfl⟩ := List.mem_map.mp hentry
    exact hafter later hlater

theorem isSite_iff : isSite T (bindings T markerModule) name x = true ↔
    ∃ localName, T.content? x = some (.identifier localName) ∧
      LastBinds (specifiersOf T (markerImports T markerModule)) localName name := by
  unfold isSite
  cases hcontent : T.content? x with
  | none => simp
  | some content =>
    cases content with
    | identifier localName =>
      rw [beq_iff_eq, bindings, flatten_filterMap_markers?, lastBinds_iff, ← markerImports]
      simp
    | _ => simp

/-! Sites -/

-- Of two names that are read, the one that a walk comes to later stands behind the other.
theorem rising_get_collect (h : parse source = .ok T) (markerModule name : String) :
    ((collect T markerModule).get name).Pairwise fun x y =>
      (T.extent x).start < (T.extent y).start := by
  have hT := built_of_parse h
  have hL := laid_of_parse h
  have hwalk := (hL.pairwise_walk hT (fun node => !node.removed) T.nodes.size hT.root_isLive).filter
    (isSite T (bindings T markerModule) name)
  have hnodup : ((collect T markerModule).get name).Nodup := nodup_get hT.toLinked
  rw [← descendants, ← get_collect] at hwalk
  refine (hwalk.and hnodup).imp_of_mem ?_
  rintro x y hx - ⟨hforward, hne⟩
  obtain ⟨localName, hcontent⟩ := content?_of_mem_get hx
  rcases hforward with hbelow | hbehind
  · -- a name has no parts
    exact absurd (eq_of_below_leaf (parts_of_content? hcontent) hbelow).symm hne
  · have hroot := Revision.ne_root_of_content? hT hcontent (by simp)
    exact Nat.lt_of_lt_of_le (hL.nonempty (isLive_of_mem_get hT.toLinked hx) hroot) hbehind

theorem mem_get_collect_iff (hT : T.Built source []) : x ∈ (collect T markerModule).get name ↔
    T.isLive x = true ∧ ∃ localName, T.content? x = some (.identifier localName) ∧
      LastBinds (specifiersOf T (collect T markerModule).imports) localName name := by
  rw [get_collect, List.mem_filter, hT.toLinked.mem_descendants_iff, isSite_iff, imports_collect]

-- A node reads one name, and one specifier decides what that is.
theorem eq_of_mem_get_collect {other : String} (hx : x ∈ (collect T markerModule).get name)
    (hother : x ∈ (collect T markerModule).get other) : name = other := by
  obtain ⟨localName, hcontent⟩ := content?_of_mem_get hx
  rw [get_collect, List.mem_filter] at hx hother
  obtain ⟨-, hname⟩ := hx
  obtain ⟨-, hname'⟩ := hother
  simp only [isSite, hcontent, beq_iff_eq] at hname hname'
  exact Option.some.inj (hname.symm.trans hname')

end References

/-- The references of a module are its imports of the marker module and the names that these bind, all
in the order of the text and each once. Every import of the program has a source. -/
theorem collect_finds_references (h : parse source = .ok T) (markerModule : String) :
    Collects T markerModule (References.collect T markerModule) ∧
    ∀ s ∈ T.statements, ∀ specifiers node,
      T.content? s = some (.importDeclaration specifiers node) →
        ∃ l, T.content? node = some (.literal l) := by
  have hT := built_of_parse h
  constructor
  · constructor
    case imports_sublist =>
      rw [References.imports_collect]
      exact List.filter_sublist
    case imports_nodup => exact References.nodup_imports hT.nodup_statements
    case mem_imports_iff =>
      intro s
      rw [References.imports_collect]
      exact References.mem_markerImports_iff hT
    case mem_get_iff => exact References.mem_get_collect_iff hT
    case get_nodup => exact fun name => References.nodup_get hT.toLinked
    case get_rises => exact References.rising_get_collect h markerModule
    case get_disjoint =>
      intro name other hne x hx hother
      exact hne (References.eq_of_mem_get_collect hx hother)
  · exact fun s hs specifiers node hcontent => exists_literal_of_importDeclaration h hs hcontent

/-- Two imports bind the same name. The later one decides, also for a use between the two. -/
theorem collect_finds_references_of_rebound_name :
    ∃ T, parse ("import fl, \x7b getFlavor as g \x7d from 'flavors.macro';\ng(fl);\n" ++
        "import \x7b default as g \x7d from '../flavors.macro';\n") = .ok T ∧
      Collects T "flavors.macro" (References.collect T "flavors.macro") ∧
      (References.collect T "flavors.macro").imports.length = 2 ∧
      ((References.collect T "flavors.macro").get "default").length = 2 ∧
      (References.collect T "flavors.macro").get "getFlavor" = [] := by
  obtain ⟨T, hT, hcheck⟩ := exists_parse
    (fun T => decide ((References.collect T "flavors.macro").imports.length = 2 ∧
      ((References.collect T "flavors.macro").get "default").length = 2 ∧
      (References.collect T "flavors.macro").get "getFlavor" = []))
    (by decide +kernel : (parse
      ("import fl, \x7b getFlavor as g \x7d from 'flavors.macro';\ng(fl);\n" ++
        "import \x7b default as g \x7d from '../flavors.macro';\n")).toOption.any _ = true)
  exact ⟨T, hT, (collect_finds_references hT "flavors.macro").1, of_decide_eq_true hcheck⟩

end Flavoring.Expansion
