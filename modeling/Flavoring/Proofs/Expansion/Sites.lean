import Flavoring.Expansion.References
import Flavoring.Proofs.Tree.Building
import Flavoring.Proofs.Tree.Preorder

/-!
Sites: the nodes that read a marker, in the order of the text, and the imports of the marker module.
-/

namespace Flavoring.Expansion

namespace References

theorem lookup_put (name : String) (site : NodeId) (sites : List (String × List NodeId))
    (other : String) :
    ((put name site sites).lookup other).getD [] =
      (sites.lookup other).getD [] ++ if other = name then [site] else [] := by
  induction sites with
  | nil =>
    by_cases h : other = name
    · simp [put, h]
    · simp [put, h, List.lookup_cons, beq_eq_false_iff_ne.mpr h]
  | cons entry sites ih =>
    obtain ⟨key, ids⟩ := entry
    rw [put]
    by_cases hkey : key = name
    · subst hkey
      rw [if_pos rfl]
      by_cases h : other = key
      · simp [h]
      · simp [List.lookup_cons, beq_eq_false_iff_ne.mpr h, h]
    · rw [if_neg hkey]
      by_cases h : other = key
      · subst h
        simp [hkey]
      · simp only [List.lookup_cons, beq_eq_false_iff_ne.mpr h]
        exact ih

theorem get_insert (r : References) (name : String) (site : NodeId) (other : String) :
    (r.insert name site).get other = r.get other ++ if other = name then [site] else [] :=
  lookup_put name site r.sites other

/-- A node reads what the marker module exports under `name`. -/
def isSite (t : Tree) (bound : Mapping) (name : String) (id : NodeId) : Bool :=
  match t.content? id with
  | some (.identifier localName) => bound.find? localName == some name
  | _ => false

theorem get_addSite (t : Tree) (bound : Mapping) (r : References) (id : NodeId) (name : String) :
    (addSite t bound r id).get name = r.get name ++ if isSite t bound name id then [id] else [] := by
  cases hcontent : t.content? id with
  | none => simp [addSite, isSite, hcontent]
  | some content =>
    cases content with
    | identifier localName =>
      cases hfind : bound.find? localName with
      | none => simp [addSite, isSite, hcontent, hfind]
      | some imported =>
        have hadd : addSite t bound r id = r.insert imported id := by
          simp [addSite, hcontent, hfind]
        rw [hadd, get_insert]
        by_cases h : name = imported
        · simp [isSite, hcontent, hfind, h]
        · simp [isSite, hcontent, hfind, h, Ne.symm h]
    | _ => simp [addSite, isSite, hcontent]

theorem get_foldl_addSite (t : Tree) (bound : Mapping) (ids : List NodeId) (r : References)
    (name : String) :
    (ids.foldl (addSite t bound) r).get name = r.get name ++ ids.filter (isSite t bound name) := by
  induction ids generalizing r with
  | nil => simp
  | cons id ids ih =>
    rw [List.foldl_cons, ih, get_addSite, List.append_assoc, List.filter_cons]
    split <;> simp_all

theorem imports_foldl_addSite (t : Tree) (bound : Mapping) (ids : List NodeId) (r : References) :
    (ids.foldl (addSite t bound) r).imports = r.imports := by
  induction ids generalizing r with
  | nil => rfl
  | cons id ids ih =>
    rw [List.foldl_cons, ih, addSite]
    split
    · split <;> rfl
    · rfl

/-- The references to a name are the nodes that read it, in the order of the text. -/
theorem get_collect (t : Tree) (markerModule name : String) :
    (collect t markerModule).get name =
      (t.descendants t.root).filter (isSite t (bindings t markerModule) name) := by
  unfold collect
  simp only
  split
  · rename_i hempty
    have hnone (id : NodeId) : isSite t (bindings t markerModule) name id = false := by
      unfold isSite
      split
      · simp [Mapping.find?, List.isEmpty_iff.mp hempty]
      · rfl
    simp [hnone, get]
  · rw [get_foldl_addSite]
    rfl

theorem imports_collect (t : Tree) (markerModule : String) :
    (collect t markerModule).imports = markerImports t markerModule := by
  unfold collect
  simp only
  split
  · rfl
  · rw [imports_foldl_addSite]

variable {t : Tree} {markerModule name : String} {x y : NodeId}

theorem isLive_of_mem_get (ht : t.Linked []) (h : x ∈ (collect t markerModule).get name) :
    t.isLive x = true := by
  rw [get_collect] at h
  exact ht.isLive_of_mem_descendants (List.mem_filter.mp h).1

/-- A site is a name that is read. -/
theorem content?_of_mem_get (h : x ∈ (collect t markerModule).get name) :
    ∃ localName, t.content? x = some (.identifier localName) := by
  rw [get_collect] at h
  have hsite := (List.mem_filter.mp h).2
  unfold isSite at hsite
  split at hsite
  · exact ⟨_, ‹_›⟩
  · cases hsite

theorem nodup_get (ht : t.Linked []) : ((collect t markerModule).get name).Nodup := by
  rw [get_collect]
  exact ht.nodup_descendants.filter _

/-- Sites below one part of a node come before those below a later part. -/
theorem sublist_get (ht : t.Linked []) {owner p q : NodeId} (ho : t.isLive owner = true)
    (hparts : [p, q].Sublist (t.parts owner)) (hpx : t.Below p x) (hqy : t.Below q y)
    (hx : x ∈ (collect t markerModule).get name) (hy : y ∈ (collect t markerModule).get name) :
    [x, y].Sublist ((collect t markerModule).get name) := by
  rw [get_collect] at hx hy ⊢
  have hsub := (ht.sublist_descendants ho hparts hpx hqy).filter
    (isSite t (bindings t markerModule) name)
  rw [List.filter_eq_self.mpr (by simp [(List.mem_filter.mp hx).2, (List.mem_filter.mp hy).2])]
    at hsub
  exact hsub

/-- The nodes that read one name, in the order of the text. -/
structure SitesOf (t : Tree) (sites : List NodeId) : Prop where
  isLive {x : NodeId} : x ∈ sites → t.isLive x = true
  name {x : NodeId} : x ∈ sites → ∃ name, t.content? x = some (.identifier name)
  nodup : sites.Nodup
  order {owner p q x y : NodeId} : t.isLive owner = true → [p, q].Sublist (t.parts owner) →
    t.Below p x → t.Below q y → x ∈ sites → y ∈ sites → [x, y].Sublist sites

theorem sitesOf_get (ht : t.Linked []) (markerModule name : String) :
    SitesOf t ((collect t markerModule).get name) where
  isLive := isLive_of_mem_get ht
  name := content?_of_mem_get
  nodup := nodup_get ht
  order := sublist_get ht

/-! Imports of the marker module -/

theorem mem_statements_of_mem_imports (h : x ∈ (collect t markerModule).imports) :
    x ∈ t.statements := by
  rw [imports_collect] at h
  exact (List.mem_filter.mp h).1

theorem content?_of_mem_imports (h : x ∈ (collect t markerModule).imports) :
    ∃ specifiers source, t.content? x = some (.importDeclaration specifiers source) := by
  rw [imports_collect] at h
  have hsome := (List.mem_filter.mp h).2
  unfold markers? at hsome
  split at hsome
  · exact ⟨_, _, ‹_›⟩
  · cases hsome

theorem nodup_imports (h : t.statements.Nodup) : (collect t markerModule).imports.Nodup := by
  rw [imports_collect]
  exact h.filter _

end References

end Flavoring.Expansion
