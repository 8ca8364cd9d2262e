import Flavoring.Proofs.Tree.Descent

/-!
The arena invariant: parent links, lists of parts and removal marks describe one tree.

Loose nodes are those that wait for a parent while a tree is built. A finished tree has none, and
taking out statements or replacing nodes by leaves makes none.
-/

namespace Flavoring

namespace Content

theorem children_of_statementList? {content : Content} {list : List NodeId}
    (h : content.statementList? = some list) : content.children = list := by
  cases content <;> simp_all [statementList?, children]

theorem children_withStatements {content : Content} {list body : List NodeId}
    (h : content.statementList? = some list) : (content.withStatements body).children = body := by
  cases content <;> simp_all [statementList?, withStatements, children]

theorem children_of_leafText? {content : Content} {text : String}
    (h : content.leafText? = some text) : content.children = [] := by
  cases content <;> simp_all [leafText?, children]

end Content

namespace Tree

/-- Links, lists and marks agree, except that the `loose` nodes have no parent yet. -/
structure Linked (t : Tree) (loose : List NodeId) : Prop extends Descending t where
  root_isLive : t.isLive t.root = true
  root_parent : t.parent? t.root = none
  part_isLive {owner part : NodeId} :
    t.isLive owner = true → part ∈ t.parts owner → t.isLive part = true
  part_parent {owner part : NodeId} :
    t.isLive owner = true → part ∈ t.parts owner → t.parent? part = some owner
  parts_nodup {owner : NodeId} : t.isLive owner = true → (t.parts owner).Nodup
  attached {id : NodeId} : t.isLive id = true → id ≠ t.root → id ∉ loose →
    ∃ owner, t.parent? id = some owner ∧ t.isLive owner = true ∧ id ∈ t.parts owner
  loose_isLive {id : NodeId} : id ∈ loose → t.isLive id = true
  loose_parent {id : NodeId} : id ∈ loose → t.parent? id = none
  loose_pos {id : NodeId} : id ∈ loose → 0 < id
  loose_nodup : loose.Nodup

namespace Linked

variable {t t' : Tree} {id owner x y : NodeId}

/-- Below a live node all is live. -/
theorem isLive_of_below {loose : List NodeId} (ht : t.Linked loose) (hx : t.isLive x = true)
    (h : t.Below x y) : t.isLive y = true := by
  induction h with
  | refl => exact hx
  | part _ hmem ih => exact ht.part_isLive ih hmem

/-- The owner of a node is its only owner among the live nodes. -/
theorem owner_unique {loose : List NodeId} (ht : t.Linked loose) {p q : NodeId}
    (hp : t.isLive p = true) (hq : t.isLive q = true) (hxp : x ∈ t.parts p)
    (hxq : x ∈ t.parts q) : p = q := by
  have h := ht.part_parent hp hxp
  rw [ht.part_parent hq hxq] at h
  exact (Option.some.inj h).symm

/-- The parent of a live node is live and lists it. -/
theorem owner_of_parent? (ht : t.Linked []) (hx : t.isLive x = true) (hp : t.parent? x = some owner) :
    t.isLive owner = true ∧ x ∈ t.parts owner := by
  have hne : x ≠ t.root := by
    rintro rfl
    exact Option.some_ne_none owner (hp.symm.trans ht.root_parent)
  obtain ⟨owner', howner', hlive, hmem⟩ := ht.attached hx hne List.not_mem_nil
  rw [hp, Option.some.injEq] at howner'
  exact howner' ▸ ⟨hlive, hmem⟩

/-- A loose node is on no list. -/
theorem not_mem_parts_of_loose {loose : List NodeId} (ht : t.Linked loose) (hx : x ∈ loose)
    (ho : t.isLive owner = true) : x ∉ t.parts owner := by
  intro hmem
  have hnone := ht.loose_parent hx
  rw [ht.part_parent ho hmem] at hnone
  exact Option.some_ne_none owner hnone

theorem root_not_mem_loose {loose : List NodeId} (ht : t.Linked loose) : t.root ∉ loose := by
  intro hmem
  have hpos := ht.loose_pos hmem
  rw [ht.root_eq] at hpos
  exact Nat.lt_irrefl 0 hpos

/-- What stands below a live node and is a part of a live node stands there with its owner, unless
it is the upper node itself. -/
theorem below_owner {loose : List NodeId} (ht : t.Linked loose) (hx : t.isLive x = true)
    (ho : t.isLive owner = true) (hy : y ∈ t.parts owner) (h : t.Below x y) :
    y = x ∨ t.Below x owner := by
  cases h with
  | refl => exact Or.inl rfl
  | part hq hmem =>
    have heq := ht.owner_unique (ht.isLive_of_below hx hq) ho hmem hy
    exact Or.inr (heq ▸ hq)

/-- A live node is reached from the program. The way up leads to larger and larger numbers. -/
theorem reachable_of_isLive (ht : t.Linked []) (hx : t.isLive x = true) : t.Reachable x := by
  generalize hrank : t.nodes.size - x = rank
  induction rank using Nat.strongRecOn generalizing x with
  | ind rank ih =>
    by_cases hroot : x = t.root
    · exact hroot ▸ .refl
    · obtain ⟨owner, -, howner, hmem⟩ := ht.attached hx hroot List.not_mem_nil
      by_cases hpos : 0 < owner
      · have hlt := Nat.sub_lt_sub_left (lt_size_of_isLive hx) (ht.part_lt hmem hpos)
        exact (ih _ (hrank ▸ hlt) howner rfl).part hmem
      · have hzero : owner = t.root := by
          rw [ht.root_eq]
          exact Nat.eq_zero_of_not_pos hpos
        exact (hzero ▸ .refl : t.Below t.root owner).part hmem

theorem isLive_iff_reachable (ht : t.Linked []) : t.isLive x = true ↔ t.Reachable x :=
  ⟨ht.reachable_of_isLive, ht.isLive_of_below ht.root_isLive⟩

end Linked

end Tree

end Flavoring
