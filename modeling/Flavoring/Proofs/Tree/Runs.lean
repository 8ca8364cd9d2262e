import Mathlib.Data.List.Nodup
import Flavoring.Proofs.Tree.Building
import Flavoring.Proofs.Tree.Edits

/-!
Runs of changes: what holds of a module's tree after any of them, refused ones included.
-/

namespace Flavoring.Tree

/-- A change that may be asked of a tree. -/
inductive Change where
  | remove (id : NodeId)
  | replace (id : NodeId) (content : Content)

def change (t : Tree) : Change → Except Fault Tree
  | .remove id => t.remove id
  | .replace id content => t.replace id content

/-- The tree after a change was asked for. A change that is refused is not made. -/
def attempt (t : Tree) (c : Change) : Tree :=
  match t.change c with
  | .ok t' => t'
  | .error _ => t

def attemptAll (t : Tree) (changes : List Change) : Tree := changes.foldl attempt t

/-- All that the live nodes list, in the order of the nodes. -/
def listedParts (t : Tree) : List NodeId :=
  ((List.range t.nodes.size).filter t.isLive).flatMap t.parts

variable {t t' : Tree}

/-! One change -/

/-- What a change that is made leaves: a linked tree with no node live that was not. -/
theorem Linked.change {c : Change} (ht : t.Linked []) (h : t.change c = .ok t') :
    t'.Linked [] ∧ ∀ id, t'.isLive id = true → t.isLive id = true := by
  cases c with
  | remove id =>
    obtain ⟨owner, hr⟩ := ht.removal h
    exact ⟨hr.linked ht, fun x hx => ((hr.isLive_iff x).mp hx).1⟩
  | replace id content =>
    have hr := ht.replacement h
    exact ⟨hr.linked ht, fun x hx => ((hr.isLive_iff x).mp hx).1⟩

theorem attempt_of_error {c : Change} {fault : Fault} (h : t.change c = .error fault) :
    t.attempt c = t := by
  rw [attempt, h]

theorem Linked.attempt (ht : t.Linked []) (c : Change) :
    (t.attempt c).Linked [] ∧ ∀ id, (t.attempt c).isLive id = true → t.isLive id = true := by
  rw [Tree.attempt]
  cases h : t.change c with
  | ok t' => exact ht.change h
  | error fault => exact ⟨ht, fun _ hx => hx⟩

/-! Runs of changes -/

theorem Linked.attemptAll (ht : t.Linked []) (changes : List Change) :
    (t.attemptAll changes).Linked [] ∧
      ∀ id, (t.attemptAll changes).isLive id = true → t.isLive id = true := by
  induction changes generalizing t with
  | nil => exact ⟨ht, fun _ hx => hx⟩
  | cons c changes ih =>
    obtain ⟨hlinked, hlive⟩ := ht.attempt c
    obtain ⟨hlinked', hlive'⟩ := ih hlinked
    exact ⟨hlinked', fun id hx => hlive id (hlive' id hx)⟩

theorem attemptAll_append (t : Tree) (changes more : List Change) :
    t.attemptAll (changes ++ more) = (t.attemptAll changes).attemptAll more :=
  List.foldl_append

theorem Linked.nodup_listedParts (ht : t.Linked []) : t.listedParts.Nodup := by
  refine List.nodup_flatMap.mpr ⟨fun owner ho => ht.parts_nodup (List.mem_filter.mp ho).2, ?_⟩
  refine ((List.nodup_range.filter _).imp_of_mem ?_)
  intro p q hp hq hne x hxp hxq
  exact hne (ht.owner_unique (List.mem_filter.mp hp).2 (List.mem_filter.mp hq).2 hxp hxq)

/-- What lists a live node's parts lists each of them once, over all live nodes. -/
theorem Linked.count_listedParts (ht : t.Linked []) {owner part : NodeId}
    (ho : t.isLive owner = true) (hmem : part ∈ t.parts owner) : t.listedParts.count part = 1 := by
  refine List.count_eq_one_of_mem ht.nodup_listedParts (List.mem_flatMap.mpr ⟨owner, ?_, hmem⟩)
  exact List.mem_filter.mpr ⟨List.mem_range.mpr (lt_size_of_isLive ho), ho⟩

/-- Parent links, lists of parts and removal marks describe one tree. -/
structure Consistent (t : Tree) : Prop where
  root_isLive : t.isLive t.root = true
  isLive_iff_reachable (id : NodeId) : t.isLive id = true ↔ t.Reachable id
  part_isLive {owner part : NodeId} :
    t.isLive owner = true → part ∈ t.parts owner → t.isLive part = true
  part_listed_once {owner part : NodeId} :
    t.isLive owner = true → part ∈ t.parts owner → t.listedParts.count part = 1
  part_parent {owner part : NodeId} :
    t.isLive owner = true → part ∈ t.parts owner → t.parent? part = some owner
  parent_lists {id : NodeId} : t.isLive id = true → id ≠ t.root →
    ∃ owner, t.parent? id = some owner ∧ t.isLive owner = true ∧ id ∈ t.parts owner

theorem Linked.consistent (ht : t.Linked []) : t.Consistent where
  root_isLive := ht.root_isLive
  isLive_iff_reachable _ := ht.isLive_iff_reachable
  part_isLive := ht.part_isLive
  part_listed_once := ht.count_listedParts
  part_parent := ht.part_parent
  parent_lists hid hne := ht.attached hid hne List.not_mem_nil

/-- After any run of changes a module's tree is consistent, what was removed stays removed, and a
change that is refused leaves nodes and edits as they are. -/
theorem consistent_after_changes {source : String} (h : parse source = .ok t)
    (changes : List Change) :
    (t.attemptAll changes).Consistent ∧
      (∀ more id, (t.attemptAll changes).isLive id = false →
        (t.attemptAll (changes ++ more)).isLive id = false) ∧
      (∀ c fault, (t.attemptAll changes).change c = .error fault →
        (t.attemptAll (changes ++ [c])).nodes = (t.attemptAll changes).nodes ∧
          (t.attemptAll (changes ++ [c])).edits = (t.attemptAll changes).edits) := by
  obtain ⟨hlinked, -⟩ := (built_of_parse h).toLinked.attemptAll changes
  refine ⟨hlinked.consistent, ?_, ?_⟩
  · intro more id hid
    rw [attemptAll_append]
    refine Bool.eq_false_iff.mpr fun hlive => ?_
    rw [(hlinked.attemptAll more).2 id hlive] at hid
    exact Bool.noConfusion hid
  · intro c fault hfault
    have hsame : t.attemptAll (changes ++ [c]) = t.attemptAll changes := by
      rw [attemptAll_append]
      exact attempt_of_error hfault
    rw [hsame]
    exact ⟨rfl, rfl⟩

/-- The first and the third of these changes are refused: a call is on no list of statements, and
what stood below it went with it. -/
theorem consistent_after_two_refusals :
    ∃ t, parse "import fl from \"m\";\nfl(f(1));\n" = .ok t ∧
      (t.attemptAll [.remove 7, .replace 6 (.identifier "x"), .remove 5, .remove 8]).Consistent := by
  obtain ⟨t, ht, -⟩ := exists_parse (fun _ => true)
    (by decide +kernel : (parse "import fl from \"m\";\nfl(f(1));\n").toOption.any _ = true)
  exact ⟨t, ht, (consistent_after_changes ht _).1⟩

end Flavoring.Tree
