import Flavoring.Proofs.Tree.Lookup

/-!
Descent: which nodes stand below a node.

Parts have smaller numbers than what they are part of, the program apart. A walk of as many steps
as a tree has nodes therefore reaches everything below its start.
-/

namespace Flavoring.Tree

/-- `x` is `top` or one of its parts, or a part of such a part, and so on. -/
inductive Below (t : Tree) (top : NodeId) : NodeId → Prop
  | refl : Below t top top
  | part {owner x : NodeId} : Below t top owner → x ∈ t.parts owner → Below t top x

/-- Reached from the program through parts. -/
def Reachable (t : Tree) (id : NodeId) : Prop := t.Below t.root id

namespace Below

variable {t u : Tree} {a b c : NodeId}

theorem trans (hab : t.Below a b) (hbc : t.Below b c) : t.Below a c := by
  induction hbc with
  | refl => exact hab
  | part _ hx ih => exact ih.part hx

/-- The first step of a descent instead of its last. -/
theorem cases_first (h : t.Below a c) : c = a ∨ ∃ b ∈ t.parts a, t.Below b c := by
  induction h with
  | refl => exact Or.inl rfl
  | part hb hx ih =>
    rcases ih with rfl | ⟨b, hba, hbo⟩
    · exact Or.inr ⟨_, hx, .refl⟩
    · exact Or.inr ⟨b, hba, hbo.part hx⟩

theorem of_mem_parts (h : b ∈ t.parts a) : t.Below a b := refl.part h

/-- A descent needs only the parts of the nodes it passes. -/
theorem congr (h : ∀ x, t.Below a x → u.parts x = t.parts x) : u.Below a b ↔ t.Below a b := by
  constructor
  · intro hb
    induction hb with
    | refl => exact .refl
    | part hx hmem ih => exact ih.part (h _ ih ▸ hmem)
  · intro hb
    induction hb with
    | refl => exact .refl
    | part hx hmem ih => exact ih.part (h _ hx ▸ hmem)

end Below

/-- Parts are smaller than their owner, unless it is the program, which is a part of nothing. -/
structure Descending (t : Tree) : Prop where
  root_eq : t.root = 0
  part_pos {owner part : NodeId} : part ∈ t.parts owner → 0 < part
  part_lt_size {owner part : NodeId} : part ∈ t.parts owner → part < t.nodes.size
  part_lt {owner part : NodeId} : part ∈ t.parts owner → 0 < owner → part < owner

namespace Descending

variable {t : Tree} {a b : NodeId}

theorem pos_of_below (ht : t.Descending) (ha : 0 < a) (h : t.Below a b) : 0 < b := by
  cases h with
  | refl => exact ha
  | part _ hmem => exact ht.part_pos hmem

theorem le_of_below (ht : t.Descending) (ha : 0 < a) (h : t.Below a b) : b ≤ a := by
  induction h with
  | refl => exact Nat.le_refl a
  | part ho hmem ih =>
    exact Nat.le_trans (Nat.le_of_lt (ht.part_lt hmem (ht.pos_of_below ha ho))) ih

theorem lt_size_of_below (ht : t.Descending) (ha : a < t.nodes.size) (h : t.Below a b) :
    b < t.nodes.size := by
  cases h with
  | refl => exact ha
  | part _ hmem => exact ht.part_lt_size hmem

theorem not_below_root (ht : t.Descending) (ha : 0 < a) : ¬ t.Below a t.root := by
  intro h
  have hpos := ht.pos_of_below ha h
  rw [ht.root_eq] at hpos
  exact Nat.lt_irrefl 0 hpos

/-- An owner is not below its part. -/
theorem not_below_owner (ht : t.Descending) (hmem : b ∈ t.parts a) : ¬ t.Below b a := by
  intro h
  have hb := ht.part_pos hmem
  have hlt := ht.part_lt hmem (ht.pos_of_below hb h)
  exact Nat.not_le.mpr hlt (ht.le_of_below hb h)

end Descending

/-! Walks -/

theorem mem_walk_succ {t : Tree} {follow : Node → Bool} {depth : Nat} {id x : NodeId} :
    x ∈ t.walk follow (depth + 1) id ↔
      ∃ node, t.node? id = some node ∧ follow node = true ∧
        (x = id ∨ ∃ part ∈ t.parts id, x ∈ t.walk follow depth part) := by
  unfold parts content?
  rw [walk]
  cases hnode : t.node? id with
  | none => simp
  | some node => by_cases hf : follow node = true <;> simp [hf]

theorem below_of_mem_walk {t : Tree} {follow : Node → Bool} {depth : Nat} {id x : NodeId}
    (h : x ∈ t.walk follow depth id) : t.Below id x := by
  induction depth generalizing id with
  | zero => exact absurd h List.not_mem_nil
  | succ depth ih =>
    obtain ⟨node, -, -, rfl | ⟨part, hpart, hx⟩⟩ := mem_walk_succ.mp h
    · exact .refl
    · exact (Below.of_mem_parts hpart).trans (ih hx)

/-- A walk finds all below its start that it follows, if all on the way there are followed too. -/
theorem mem_walk_of_below {t : Tree} (ht : t.Descending) {follow : Node → Bool} {depth : Nat}
    {id x : NodeId} (hpos : 0 < id) (hdepth : id ≤ depth)
    (hfollow : ∀ y, t.Below id y → ∃ node, t.node? y = some node ∧ follow node = true)
    (h : t.Below id x) : x ∈ t.walk follow depth id := by
  induction depth generalizing id with
  | zero => exact absurd hpos (Nat.not_lt.mpr hdepth)
  | succ depth ih =>
    obtain ⟨node, hnode, hf⟩ := hfollow id .refl
    refine mem_walk_succ.mpr ⟨node, hnode, hf, ?_⟩
    rcases h.cases_first with rfl | ⟨part, hpart, hx⟩
    · exact Or.inl rfl
    · refine Or.inr ⟨part, hpart, ih (ht.part_pos hpart) ?_ ?_ hx⟩
      · exact Nat.le_of_lt_succ (Nat.lt_of_lt_of_le (ht.part_lt hpart hpos) hdepth)
      · exact fun y hy => hfollow y ((Below.of_mem_parts hpart).trans hy)

/-- Everything below a node other than the program is marked with it. -/
theorem mem_walk_all_iff {t : Tree} (ht : t.Descending) {id x : NodeId} (hpos : 0 < id)
    (hid : id < t.nodes.size) :
    x ∈ t.walk (fun _ => true) t.nodes.size id ↔ t.Below id x := by
  refine ⟨below_of_mem_walk, mem_walk_of_below ht hpos (Nat.le_of_lt hid) fun y hy => ?_⟩
  obtain ⟨node, hnode⟩ := Option.isSome_iff_exists.mp
    (node?_isSome_iff.mpr (ht.lt_size_of_below hid hy))
  exact ⟨node, hnode, rfl⟩

end Flavoring.Tree
