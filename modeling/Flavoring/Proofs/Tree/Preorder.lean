import Mathlib.Data.List.Flatten
import Mathlib.Data.List.Nodup
import Flavoring.Proofs.Tree.Arena

/-!
Preorder: a walk names each node once, and what stands below a part after what stands below an
earlier part.
-/

namespace Flavoring.Tree

variable {t : Tree} {loose : List NodeId} {follow : Node → Bool}

/-- Nothing stands below two parts of one node. -/
theorem Linked.eq_of_below_parts (ht : t.Linked loose) {owner p q x : NodeId}
    (ho : t.isLive owner = true) (hp : p ∈ t.parts owner) (hq : q ∈ t.parts owner)
    (hpx : t.Below p x) (hqx : t.Below q x) : p = q := by
  have hpLive := ht.part_isLive ho hp
  have hqLive := ht.part_isLive ho hq
  induction hpx with
  | refl =>
    rcases ht.below_owner hqLive ho hp hqx with h | h
    · exact h
    · exact absurd h (ht.not_below_owner hq)
  | part hb hmem ih =>
    have hownLive := ht.isLive_of_below hpLive hb
    rcases ht.below_owner hqLive hownLive hmem hqx with rfl | h
    · rw [ht.owner_unique hownLive ho hmem hq] at hb
      exact absurd hb (ht.not_below_owner hp)
    · exact ih h

theorem walk_succ_of_node? {depth : Nat} {id : NodeId} {node : Node} (hnode : t.node? id = some node)
    (hfollow : follow node = true) :
    t.walk follow (depth + 1) id = id :: (t.parts id).flatMap (t.walk follow depth) := by
  simp [walk, parts, content?, hnode, hfollow]

theorem Linked.nodup_walk (ht : t.Linked loose) (depth : Nat) {id : NodeId}
    (hid : t.isLive id = true) : (t.walk follow depth id).Nodup := by
  induction depth generalizing id with
  | zero => exact List.nodup_nil
  | succ depth ih =>
    obtain ⟨node, hnode, -⟩ := isLive_iff.mp hid
    by_cases hfollow : follow node = true
    · rw [walk_succ_of_node? hnode hfollow, List.nodup_cons]
      constructor
      · intro hmem
        obtain ⟨part, hpart, hx⟩ := List.mem_flatMap.mp hmem
        exact ht.not_below_owner hpart (below_of_mem_walk hx)
      · refine List.nodup_flatMap.mpr ⟨fun part hpart => ih (ht.part_isLive hid hpart), ?_⟩
        refine (ht.parts_nodup hid).imp_of_mem fun hp hq hne x hxp hxq => hne ?_
        exact ht.eq_of_below_parts hid hp hq (below_of_mem_walk hxp) (below_of_mem_walk hxq)
    · simp [walk, hnode, hfollow]

theorem Linked.nodup_descendants (ht : t.Linked loose) : (t.descendants t.root).Nodup :=
  ht.nodup_walk _ ht.root_isLive

theorem Linked.isLive_of_mem_descendants (ht : t.Linked loose) {x : NodeId}
    (h : x ∈ t.descendants t.root) : t.isLive x = true :=
  ht.isLive_of_below ht.root_isLive (below_of_mem_walk h)

/-- A walk goes through each node it comes to as a walk from there would, with steps enough to reach
all below. -/
theorem exists_walk_sublist (ht : t.Descending) {depth : Nat} {id x : NodeId} (hpos : 0 < id)
    (hdepth : id ≤ depth) (hx : x ∈ t.walk follow depth id) :
    ∃ d, x ≤ d + 1 ∧ (t.walk follow (d + 1) x).Sublist (t.walk follow depth id) := by
  induction depth generalizing id with
  | zero => exact absurd hx List.not_mem_nil
  | succ depth ih =>
    obtain ⟨node, hnode, hfollow, rfl | ⟨part, hpart, hx⟩⟩ := mem_walk_succ.mp hx
    · exact ⟨depth, hdepth, List.Sublist.refl _⟩
    · have hpartDepth : part ≤ depth :=
        Nat.le_of_lt_succ (Nat.lt_of_lt_of_le (ht.part_lt hpart hpos) hdepth)
      obtain ⟨d, hd, hsub⟩ := ih (ht.part_pos hpart) hpartDepth hx
      refine ⟨d, hd, ?_⟩
      rw [walk_succ_of_node? hnode hfollow]
      exact (hsub.trans (List.sublist_flatten_of_mem (List.mem_map_of_mem hpart))).cons id

/-- In a tree without loose nodes the program's walk comes to a node as a walk with steps enough
from there does. -/
theorem Linked.exists_walk_sublist_descendants (ht : t.Linked []) {x : NodeId}
    (hx : t.isLive x = true) :
    ∃ d, (∀ part ∈ t.parts x, part ≤ d) ∧
      (t.walk (fun node => !node.removed) (d + 1) x).Sublist (t.descendants t.root) := by
  obtain ⟨size, hsize⟩ : ∃ size, t.nodes.size = size + 1 :=
    Nat.exists_eq_succ_of_ne_zero (Nat.ne_zero_of_lt (lt_size_of_isLive hx))
  have hpartSize {owner part : NodeId} (h : part ∈ t.parts owner) : part ≤ size :=
    Nat.le_of_lt_succ (Nat.lt_of_lt_of_eq (ht.part_lt_size h) hsize)
  obtain ⟨node, hnode, hlive⟩ := isLive_iff.mp ht.root_isLive
  have hroot : t.descendants t.root =
      t.root :: (t.parts t.root).flatMap (t.walk (fun node => !node.removed) size) := by
    rw [descendants, hsize, walk_succ_of_node? hnode (by simp [hlive])]
  rcases (ht.reachable_of_isLive hx).cases_first with rfl | ⟨s, hs, hbelow⟩
  · refine ⟨size, fun part h => hpartSize h, ?_⟩
    rw [descendants, hsize]
  · have hsLive := ht.part_isLive ht.root_isLive hs
    have hmem : x ∈ t.walk (fun node => !node.removed) size s := by
      refine mem_walk_of_below ht.toDescending (ht.part_pos hs) (hpartSize hs) (fun y hy => ?_) hbelow
      obtain ⟨n, hn, hnLive⟩ := isLive_iff.mp (ht.isLive_of_below hsLive hy)
      exact ⟨n, hn, by simp [hnLive]⟩
    obtain ⟨d, hd, hsub⟩ := exists_walk_sublist ht.toDescending (ht.part_pos hs) (hpartSize hs) hmem
    refine ⟨d, fun part h => ?_, ?_⟩
    · have hpos := ht.pos_of_below (ht.part_pos hs) hbelow
      exact Nat.le_of_lt_succ (Nat.lt_of_lt_of_le (ht.part_lt h hpos) hd)
    · rw [hroot]
      exact (hsub.trans (List.sublist_flatten_of_mem (List.mem_map_of_mem hs))).cons _

/-- The program's walk comes to all live nodes and to no others. -/
theorem Linked.mem_descendants_iff (ht : t.Linked []) {x : NodeId} :
    x ∈ t.descendants t.root ↔ t.isLive x = true := by
  refine ⟨ht.isLive_of_mem_descendants, fun hx => ?_⟩
  obtain ⟨d, -, hsub⟩ := ht.exists_walk_sublist_descendants hx
  obtain ⟨node, hnode, hlive⟩ := isLive_iff.mp hx
  rw [walk_succ_of_node? hnode (by simp [hlive])] at hsub
  exact hsub.subset List.mem_cons_self

/-- What stands below a part comes before what stands below a later part. -/
theorem Linked.sublist_descendants (ht : t.Linked []) {owner p q x y : NodeId}
    (ho : t.isLive owner = true) (hparts : [p, q].Sublist (t.parts owner)) (hpx : t.Below p x)
    (hqy : t.Below q y) : [x, y].Sublist (t.descendants t.root) := by
  obtain ⟨d, hd, hsub⟩ := ht.exists_walk_sublist_descendants ho
  obtain ⟨node, hnode, hlive⟩ := isLive_iff.mp ho
  have hmem {part z : NodeId} (hpart : part ∈ t.parts owner) (hz : t.Below part z) :
      z ∈ t.walk (fun node => !node.removed) d part := by
    refine mem_walk_of_below ht.toDescending (ht.part_pos hpart) (hd part hpart) (fun u hu => ?_) hz
    obtain ⟨n, hn, hnLive⟩ := isLive_iff.mp (ht.isLive_of_below (ht.part_isLive ho hpart) hu)
    exact ⟨n, hn, by simp [hnLive]⟩
  have hx := hmem (hparts.subset List.mem_cons_self) hpx
  have hy := hmem (hparts.subset (List.mem_cons_of_mem p List.mem_cons_self)) hqy
  have hboth : [x, y].Sublist
      ([p, q].flatMap (t.walk (fun node => !node.removed) d)) := by
    simp only [List.flatMap_cons, List.flatMap_nil, List.append_nil]
    exact (List.singleton_sublist.mpr hx).append (List.singleton_sublist.mpr hy)
  rw [walk_succ_of_node? hnode (by simp [hlive])] at hsub
  exact ((hboth.trans (hparts.flatMap _)).cons owner).trans hsub

end Flavoring.Tree
