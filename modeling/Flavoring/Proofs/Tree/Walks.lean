import Mathlib.Data.List.Flatten
import Mathlib.Data.List.Nodup
import Mathlib.Data.List.Perm.Subperm
import Flavoring.Proofs.Tree.Preorder
import Flavoring.Proofs.Tree.Runs

/-!
Walks: which nodes they list, and in which order.

A part has a smaller number than its owner unless this is the program, so what holds of a node if it
holds of its parts holds of all nodes. Changes only take parts away, so no node becomes a part twice.
-/

namespace Flavoring.Tree

variable {t t' u : Tree} {source : String} {follow : Node → Bool} {id owner part p q x y : NodeId}

/-! Walks without a bound -/

/-- What holds of a node as soon as it holds of its parts holds of every node. -/
theorem Descending.induct (ht : t.Descending) {motive : NodeId → Prop}
    (step : ∀ id, (∀ part ∈ t.parts id, motive part) → motive id) (id : NodeId) : motive id := by
  have hpos (id : NodeId) : 0 < id → motive id := by
    induction id using Nat.strongRecOn with
    | ind id ih =>
      intro hid
      exact step id fun part hpart => ih part (ht.part_lt hpart hid) (ht.part_pos hpart)
  exact step id fun part hpart => hpos part (ht.part_pos hpart)

theorem Descending.walk_eq_walk (ht : t.Descending) {d e : Nat} (hpos : 0 < id) (hd : id ≤ d)
    (he : id ≤ e) : t.walk follow d id = t.walk follow e id := by
  induction d generalizing e id with
  | zero => exact absurd hpos (Nat.not_lt.mpr hd)
  | succ d ih =>
    obtain ⟨e, rfl⟩ := Nat.exists_eq_succ_of_ne_zero (Nat.ne_zero_of_lt (Nat.lt_of_lt_of_le hpos he))
    cases hnode : t.node? id with
    | none => rw [walk, walk, hnode]
    | some node =>
      by_cases hfollow : follow node = true
      · rw [walk_succ_of_node? hnode hfollow, walk_succ_of_node? hnode hfollow]
        refine congrArg _ (List.flatMap_congr fun part hpart => ?_)
        have hlt := ht.part_lt hpart hpos
        exact ih (ht.part_pos hpart) (Nat.le_of_lt_succ (Nat.lt_of_lt_of_le hlt hd))
          (Nat.le_of_lt_succ (Nat.lt_of_lt_of_le hlt he))
      · rw [walk, walk, hnode]
        simp only [if_neg hfollow]

/-- A walk of as many steps as the tree has nodes goes on as such walks from the parts. -/
theorem Descending.walk_size (ht : t.Descending) {node : Node} (hnode : t.node? id = some node)
    (hfollow : follow node = true) :
    t.walk follow t.nodes.size id = id :: (t.parts id).flatMap (t.walk follow t.nodes.size) := by
  have hid : id < t.nodes.size := node?_isSome_iff.mp (by rw [hnode]; rfl)
  obtain ⟨size, hsize⟩ := Nat.exists_eq_succ_of_ne_zero (Nat.ne_zero_of_lt hid)
  rw [hsize, walk_succ_of_node? hnode hfollow]
  refine congrArg _ (List.flatMap_congr fun part hpart => ?_)
  have hlt := Nat.lt_of_lt_of_eq (ht.part_lt_size hpart) hsize
  exact ht.walk_eq_walk (ht.part_pos hpart) (Nat.le_of_lt_succ hlt) (Nat.le_of_lt hlt)

theorem walk_of_not_follow {depth : Nat} (h : ∀ node, t.node? id = some node → follow node = false) :
    t.walk follow depth id = [] := by
  cases depth with
  | zero => rfl
  | succ depth =>
    rw [walk]
    cases hnode : t.node? id with
    | none => rfl
    | some node => simp [h node hnode]

theorem Descending.descendants_eq (ht : t.Descending) (hid : t.isLive id = true) :
    t.descendants id = id :: (t.parts id).flatMap t.descendants := by
  obtain ⟨node, hnode, hlive⟩ := isLive_iff.mp hid
  exact ht.walk_size hnode (by rw [hlive]; rfl)

theorem descendants_of_not_isLive (hid : t.isLive id = false) : t.descendants id = [] := by
  refine walk_of_not_follow fun node hnode => ?_
  rw [isLive, hnode] at hid
  exact hid

/-! What is listed -/

/-- `x` is reached from `top` through live nodes and is live itself. -/
inductive LiveBelow (t : Tree) : NodeId → NodeId → Prop
  | refl {top : NodeId} : t.isLive top = true → LiveBelow t top top
  | part {top part x : NodeId} :
    t.isLive top = true → part ∈ t.parts top → LiveBelow t part x → LiveBelow t top x

/-- A list of the live nodes from `top` down in the order of the text: each of them once, a node
before its parts, and all below a part before all below a later part. -/
structure ListsBelow (t : Tree) (top : NodeId) (order : List NodeId) : Prop where
  mem_iff {x : NodeId} : x ∈ order ↔ t.LiveBelow top x
  nodup : order.Nodup
  owner_first {owner part : NodeId} :
    owner ∈ order → part ∈ t.parts owner → t.isLive part = true → [owner, part].Sublist order
  parts_ordered {owner p q x y : NodeId} : owner ∈ order → [p, q].Sublist (t.parts owner) →
    t.LiveBelow p x → t.LiveBelow q y → [x, y].Sublist order

theorem LiveBelow.isLive (h : t.LiveBelow id x) : t.isLive x = true := by
  induction h with
  | refl hlive => exact hlive
  | part _ _ _ ih => exact ih

namespace Descending

theorem mem_descendants (ht : t.Descending) : x ∈ t.descendants id ↔ t.LiveBelow id x := by
  constructor
  · induction id using ht.induct with
    | step id ih =>
      intro hx
      by_cases hid : t.isLive id = true
      · rw [ht.descendants_eq hid, List.mem_cons, List.mem_flatMap] at hx
        obtain rfl | ⟨part, hpart, hx⟩ := hx
        · exact .refl hid
        · exact .part hid hpart (ih part hpart hx)
      · rw [descendants_of_not_isLive (Bool.eq_false_iff.mpr hid)] at hx
        exact absurd hx List.not_mem_nil
  · intro hx
    induction hx with
    | refl hid =>
      rw [ht.descendants_eq hid]
      exact List.mem_cons_self
    | part hid hpart _ ih =>
      rw [ht.descendants_eq hid]
      exact List.mem_cons_of_mem _ (List.mem_flatMap.mpr ⟨_, hpart, ih⟩)

/-- The walk from a node that a walk comes to is a stretch of it. -/
theorem descendants_sublist (ht : t.Descending) (hx : t.LiveBelow id x) :
    (t.descendants x).Sublist (t.descendants id) := by
  induction hx with
  | refl _ => exact List.Sublist.refl _
  | part hid hpart _ ih =>
    rw [ht.descendants_eq hid]
    exact (ih.trans (List.sublist_flatten_of_mem (List.mem_map_of_mem hpart))).cons _

theorem owner_first (ht : t.Descending) (ho : owner ∈ t.descendants id) (hpart : part ∈ t.parts owner)
    (hlive : t.isLive part = true) : [owner, part].Sublist (t.descendants id) := by
  have hbelow := ht.mem_descendants.mp ho
  refine List.Sublist.trans ?_ (ht.descendants_sublist hbelow)
  rw [ht.descendants_eq hbelow.isLive]
  refine List.Sublist.cons_cons owner (List.singleton_sublist.mpr ?_)
  exact List.mem_flatMap.mpr ⟨part, hpart, ht.mem_descendants.mpr (.refl hlive)⟩

theorem parts_ordered (ht : t.Descending) (ho : owner ∈ t.descendants id)
    (hparts : [p, q].Sublist (t.parts owner)) (hx : t.LiveBelow p x) (hy : t.LiveBelow q y) :
    [x, y].Sublist (t.descendants id) := by
  have hbelow := ht.mem_descendants.mp ho
  have hboth : [x, y].Sublist ([p, q].flatMap t.descendants) := by
    simp only [List.flatMap_cons, List.flatMap_nil, List.append_nil]
    exact (List.singleton_sublist.mpr (ht.mem_descendants.mpr hx)).append
      (List.singleton_sublist.mpr (ht.mem_descendants.mpr hy))
  refine List.Sublist.trans ?_ (ht.descendants_sublist hbelow)
  rw [ht.descendants_eq hbelow.isLive]
  exact (hboth.trans (hparts.flatMap _)).cons owner

end Descending

/-! What changes leave of a tree -/

/-- A change takes parts away and adds none. -/
theorem Linked.parts_sublist_of_change {c : Change} (ht : t.Linked []) (h : t.change c = .ok t')
    (x : NodeId) : (t'.parts x).Sublist (t.parts x) := by
  cases c with
  | remove id =>
    obtain ⟨owner, hr⟩ := ht.removal h
    rw [hr.parts x]
    split
    · exact List.erase_sublist
    · exact List.Sublist.refl _
  | replace id content =>
    rw [(ht.replacement h).parts x]
    split
    · exact List.nil_sublist _
    · exact List.Sublist.refl _

theorem Linked.size_of_change {c : Change} (ht : t.Linked []) (h : t.change c = .ok t') :
    t'.nodes.size = t.nodes.size := by
  cases c with
  | remove id =>
    obtain ⟨owner, hr⟩ := ht.removal h
    exact hr.size
  | replace id content => exact (ht.replacement h).size

/-- `u` is `T` with parts taken away. -/
structure Pruned (T u : Tree) : Prop extends Linked u [] where
  size_eq : u.nodes.size = T.nodes.size
  parts_sublist (x : NodeId) : (u.parts x).Sublist (T.parts x)

theorem Pruned.attempt {T : Tree} (h : Pruned T t) (c : Change) : Pruned T (t.attempt c) := by
  rw [Tree.attempt]
  cases hc : t.change c with
  | ok t' =>
    exact ⟨(h.toLinked.change hc).1, (h.toLinked.size_of_change hc).trans h.size_eq, fun x =>
      (h.toLinked.parts_sublist_of_change hc x).trans (h.parts_sublist x)⟩
  | error fault => exact h

theorem Pruned.attemptAll {T : Tree} (h : Pruned T t) (changes : List Change) :
    Pruned T (t.attemptAll changes) := by
  induction changes generalizing t with
  | nil => exact h
  | cons c changes ih => exact ih (h.attempt c)

namespace Pruned

variable {T : Tree}

theorem of_built (hT : T.Built source []) : Pruned T T := ⟨hT.toLinked, rfl, fun _ => .refl _⟩

theorem walk_sublist (h : Pruned T u) (depth : Nat) (id : NodeId) :
    (u.walk follow depth id).Sublist (T.walk (fun _ => true) depth id) := by
  induction depth generalizing id with
  | zero => exact List.Sublist.refl _
  | succ depth ih =>
    cases hnode : u.node? id with
    | none =>
      rw [walk_of_not_follow (by simp [hnode])]
      exact List.nil_sublist _
    | some node =>
      by_cases hfollow : follow node = true
      · have hid : id < T.nodes.size := h.size_eq ▸ node?_isSome_iff.mp (by rw [hnode]; rfl)
        obtain ⟨old, hold⟩ := Option.isSome_iff_exists.mp (node?_isSome_iff.mpr hid)
        rw [walk_succ_of_node? hnode hfollow, walk_succ_of_node? hold rfl]
        refine List.Sublist.cons_cons id (((h.parts_sublist id).flatMap _).trans ?_)
        exact List.Sublist.flatMap_right _ fun part _ => ih part
      · rw [walk_of_not_follow (by simp [hnode, hfollow])]
        exact List.nil_sublist _

theorem nodup_walk (hT : T.Built source []) (h : Pruned T u) (depth : Nat) (id : NodeId) :
    (u.walk follow depth id).Nodup := by
  by_cases hid : id < u.nodes.size
  · exact (h.walk_sublist depth id).nodup
      (hT.toLinked.nodup_walk depth (hT.isLive_of_lt (h.size_eq ▸ hid)))
  · rw [walk_of_not_follow fun node hnode => absurd (node?_isSome_iff.mp (by rw [hnode]; rfl)) hid]
    exact List.nodup_nil

/-- No node is a part in two places. -/
theorem position_unique (hT : T.Built source []) (h : Pruned T u) {i j : Nat}
    (hp : (u.parts p)[i]? = some x) (hq : (u.parts q)[j]? = some x) : p = q ∧ i = j := by
  have hpT := (h.parts_sublist p).subset (List.mem_of_getElem? hp)
  have hqT := (h.parts_sublist q).subset (List.mem_of_getElem? hq)
  obtain rfl := hT.owner_unique (hT.isLive_of_mem_parts hpT) (hT.isLive_of_mem_parts hqT) hpT hqT
  have hnodup := (h.parts_sublist p).nodup (hT.parts_nodup (hT.isLive_of_mem_parts hpT))
  obtain ⟨hi, -⟩ := List.getElem?_eq_some_iff.mp hp
  exact ⟨rfl, (List.getElem?_inj hi hnodup).mp (hp.trans hq.symm)⟩

theorem listsBelow_descendants (hT : T.Built source []) (h : Pruned T u) (id : NodeId) :
    u.ListsBelow id (u.descendants id) where
  mem_iff := h.mem_descendants
  nodup := h.nodup_walk hT _ id
  owner_first := h.owner_first
  parts_ordered := h.parts_ordered

/-- A walk comes to no more nodes than there are. -/
theorem length_walk_le (hT : T.Built source []) (h : Pruned T u) (hid : id < u.nodes.size) :
    (u.walk follow u.nodes.size id).length ≤ u.nodes.size := by
  have hsub : u.walk follow u.nodes.size id ⊆ List.range u.nodes.size := fun x hx =>
    List.mem_range.mpr (h.lt_size_of_below hid (below_of_mem_walk hx))
  have hle := ((h.nodup_walk hT u.nodes.size id).subperm hsub).length_le
  rwa [List.length_range] at hle

end Pruned

end Flavoring.Tree
