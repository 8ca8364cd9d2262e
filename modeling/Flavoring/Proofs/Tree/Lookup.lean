import Flavoring.Tree.Edit

/-!
What a change of a tree leaves of each node.

Every change is described node by node, through `node?`; the other lookups follow from it.
-/

namespace Flavoring.Tree

/-- The parts of a node, none if there is no such node. -/
def parts (t : Tree) (id : NodeId) : List NodeId := ((t.content? id).map (·.children)).getD []

/-! Lookups through `node?` -/

theorem content?_eq_some {t : Tree} {id : NodeId} {content : Content}
    (h : t.content? id = some content) : ∃ node, t.node? id = some node ∧ node.content = content :=
  Option.map_eq_some_iff.mp h

theorem parts_of_content? {t : Tree} {id : NodeId} {content : Content}
    (h : t.content? id = some content) : t.parts id = content.children := by
  rw [parts, h]
  rfl

theorem isLive_iff {t : Tree} {id : NodeId} :
    t.isLive id = true ↔ ∃ node, t.node? id = some node ∧ node.removed = false := by
  unfold isLive
  cases t.node? id <;> simp

theorem exists_content?_of_isLive {t : Tree} {id : NodeId} (h : t.isLive id = true) :
    ∃ content, t.content? id = some content := by
  obtain ⟨node, hnode, -⟩ := isLive_iff.mp h
  exact ⟨node.content, by rw [content?, hnode]; rfl⟩

theorem node?_isSome_iff {t : Tree} {id : NodeId} :
    (t.node? id).isSome = true ↔ id < t.nodes.size := by
  simp [node?]

theorem lt_size_of_isLive {t : Tree} {id : NodeId} (h : t.isLive id = true) :
    id < t.nodes.size := by
  obtain ⟨node, hnode, -⟩ := isLive_iff.mp h
  exact node?_isSome_iff.mp (by rw [hnode]; rfl)

theorem lt_size_of_mem_parts {t : Tree} {id part : NodeId} (h : part ∈ t.parts id) :
    id < t.nodes.size := by
  rw [← node?_isSome_iff]
  unfold parts content? at h
  cases hnode : t.node? id with
  | none => simp [hnode] at h
  | some node => rfl

/-! Updates -/

theorem node?_update (t : Tree) (id : NodeId) (f : Node → Node) (x : NodeId) :
    (t.update id f).node? x = if id = x then (t.node? x).map f else t.node? x :=
  Array.getElem?_modify

@[simp] theorem size_update (t : Tree) (id : NodeId) (f : Node → Node) :
    (t.update id f).nodes.size = t.nodes.size := Array.size_modify

@[simp] theorem root_update (t : Tree) (id : NodeId) (f : Node → Node) :
    (t.update id f).root = t.root := rfl

@[simp] theorem source_update (t : Tree) (id : NodeId) (f : Node → Node) :
    (t.update id f).source = t.source := rfl

@[simp] theorem edits_update (t : Tree) (id : NodeId) (f : Node → Node) :
    (t.update id f).edits = t.edits := rfl

@[simp] theorem node?_record (t : Tree) (edit : Text.Edit) (x : NodeId) :
    (t.record edit).node? x = t.node? x := rfl

/-! Several nodes changed in one way -/

/-- The tree with each listed node changed. -/
def updateAll (t : Tree) (ids : List NodeId) (f : Node → Node) : Tree :=
  ids.foldl (fun t id => t.update id f) t

section updateAll

variable (t : Tree) (ids : List NodeId) (f : Node → Node)

theorem updateAll_frame :
    (t.updateAll ids f).root = t.root ∧ (t.updateAll ids f).source = t.source ∧
      (t.updateAll ids f).edits = t.edits ∧ (t.updateAll ids f).nodes.size = t.nodes.size := by
  induction ids generalizing t with
  | nil => exact ⟨rfl, rfl, rfl, rfl⟩
  | cons id ids ih =>
    obtain ⟨hroot, hsource, hedits, hsize⟩ := ih (t.update id f)
    exact ⟨hroot, hsource, hedits, hsize.trans (size_update t id f)⟩

@[simp] theorem root_updateAll : (t.updateAll ids f).root = t.root := (updateAll_frame t ids f).1

@[simp] theorem source_updateAll : (t.updateAll ids f).source = t.source :=
  (updateAll_frame t ids f).2.1

@[simp] theorem edits_updateAll : (t.updateAll ids f).edits = t.edits :=
  (updateAll_frame t ids f).2.2.1

@[simp] theorem size_updateAll : (t.updateAll ids f).nodes.size = t.nodes.size :=
  (updateAll_frame t ids f).2.2.2

/-- A node that is listed more than once is changed as if it were listed once. -/
theorem node?_updateAll (hf : ∀ node, f (f node) = f node) (x : NodeId) :
    (t.updateAll ids f).node? x =
      (t.node? x).map fun node => if x ∈ ids then f node else node := by
  induction ids generalizing t with
  | nil => simp [updateAll]
  | cons id ids ih =>
    rw [updateAll, List.foldl_cons, ← updateAll, ih, node?_update]
    by_cases hx : id = x
    · subst hx
      cases t.node? id <;> simp [hf]
    · rw [if_neg hx]
      simp [Ne.symm hx]

end updateAll

/-- What a removal mark does to a node. -/
def mark (node : Node) : Node := { node with removed := true }

theorem markRemoved_eq (t : Tree) (id : NodeId) :
    t.markRemoved id = t.updateAll (t.walk (fun _ => true) t.nodes.size id) mark := rfl

/-! Walks -/

end Flavoring.Tree
