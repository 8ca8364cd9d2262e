import Flavoring.Proofs.Tree.Arena

/-!
What taking out a statement and replacing a node do to a linked tree.

Each of the two has one description, by lookups. That links, lists and marks still agree follows
from it: both cut off everything below some nodes and unlist just those nodes.
-/

namespace Flavoring.Tree

variable {t t' : Tree} {id owner x : NodeId} {content : Content}

/-- `x` stands below `top` and is not `top`. -/
def StrictlyBelow (t : Tree) (top x : NodeId) : Prop := ∃ part ∈ t.parts top, t.Below part x

/-- `t'` is `t` without its statement `id`, which `owner` lists. -/
structure Removal (t : Tree) (id owner : NodeId) (t' : Tree) : Prop where
  id_isLive : t.isLive id = true
  id_parent : t.parent? id = some owner
  listed : ∃ content list, t.content? owner = some content ∧ content.statementList? = some list ∧
    id ∈ list
  root : t'.root = t.root
  source : t'.source = t.source
  size : t'.nodes.size = t.nodes.size
  edits : t'.edits =
    (t.record ⟨Text.deletion t.source (t.extent id), ""⟩).edits
  content? (x : NodeId) : t'.content? x =
    if x = owner then
      (t.content? x).map fun c => c.withStatements ((c.statementList?.getD []).erase id)
    else t.content? x
  parent? (x : NodeId) : t'.parent? x = if x = id then none else t.parent? x
  place (x : NodeId) : t'.place x = t.place x
  extent (x : NodeId) : t'.extent x = t.extent x
  isLive_iff (x : NodeId) : t'.isLive x = true ↔ t.isLive x = true ∧ ¬ t.Below id x

/-- `t'` is `t` with a leaf in the place of `id`. -/
structure Replacement (t : Tree) (id : NodeId) (content : Content) (t' : Tree) : Prop where
  id_isLive : t.isLive id = true
  leaf : ∃ text, content.leafText? = some text ∧
    t'.edits = (t.record ⟨t.extent id, text⟩).edits
  root : t'.root = t.root
  source : t'.source = t.source
  size : t'.nodes.size = t.nodes.size
  content? (x : NodeId) : t'.content? x = if x = id then some content else t.content? x
  parent? (x : NodeId) : t'.parent? x = t.parent? x
  place (x : NodeId) : t'.place x = t.place x
  extent (x : NodeId) : t'.extent x = t.extent x
  isLive_iff (x : NodeId) : t'.isLive x = true ↔ t.isLive x = true ∧ ¬ t.StrictlyBelow id x

/-! Lookups from a description of all nodes -/

section lookups

variable {f : NodeId → Node → Node}

theorem content?_of_node? (h : ∀ x, t'.node? x = (t.node? x).map (f x)) (x : NodeId) :
    t'.content? x = (t.node? x).map fun node => (f x node).content := by
  rw [Tree.content?, h x]
  cases t.node? x <;> rfl

theorem isLive_of_node? (h : ∀ x, t'.node? x = (t.node? x).map (f x)) (x : NodeId) :
    t'.isLive x = true ↔ ∃ node, t.node? x = some node ∧ (f x node).removed = false := by
  rw [Tree.isLive_iff, h x]
  cases t.node? x <;> simp

theorem size_eq_of_node? (h : ∀ x, t'.node? x = (t.node? x).map (f x)) :
    t'.nodes.size = t.nodes.size := by
  have hiff (x : NodeId) : x < t'.nodes.size ↔ x < t.nodes.size := by
    rw [← node?_isSome_iff, ← node?_isSome_iff, h x]
    cases t.node? x <;> rfl
  have h1 := hiff t.nodes.size
  have h2 := hiff t'.nodes.size
  exact Nat.le_antisymm (Nat.not_lt.mp fun hlt => Nat.lt_irrefl _ (h1.mp hlt))
    (Nat.not_lt.mp fun hlt => Nat.lt_irrefl _ (h2.mpr hlt))

end lookups

/-- The marks of a node and all below it. -/
theorem node?_markRemoved (ht : t.Descending) (hpos : 0 < id) (hid : id < t.nodes.size)
    (x : NodeId) [Decidable (t.Below id x)] :
    (t.markRemoved id).node? x =
      (t.node? x).map fun node => if t.Below id x then mark node else node := by
  rw [markRemoved_eq, node?_updateAll t _ mark (fun _ => rfl) x]
  simp only [mem_walk_all_iff ht hpos hid]

/-! Taking out a statement -/

/-- The tree with a statement taken off its owner's list and its parent link cut. -/
def unlisted (t : Tree) (owner id : NodeId) (index : Nat) : Tree :=
  (t.update owner fun node =>
    { node with content :=
        node.content.withStatements ((node.content.statementList?.getD []).eraseIdx index) }).setParent
    none id

theorem node?_unlisted (t : Tree) (owner id : NodeId) (index : Nat) (x : NodeId) :
    (t.unlisted owner id index).node? x =
      (t.node? x).map fun node =>
        { node with
          content :=
            if x = owner then
              node.content.withStatements ((node.content.statementList?.getD []).eraseIdx index)
            else node.content
          parent := if x = id then none else node.parent } := by
  rw [unlisted, setParent, node?_update, node?_update]
  by_cases hid : id = x <;> by_cases howner : owner = x <;>
    cases t.node? x <;> simp [hid, howner, eq_comm (a := x)]

theorem position?_eq_some {index : Nat} (h : t.position? id = some (owner, index)) :
    ∃ content list, t.parent? id = some owner ∧ t.content? owner = some content ∧
      content.statementList? = some list ∧ list.idxOf? id = some index := by
  unfold position? at h
  simp only [bind, Option.bind_eq_some_iff, pure, Option.some.injEq, Prod.mk.injEq] at h
  obtain ⟨parent, hparent, content, hcontent, list, hlist, i, hi, rfl, rfl⟩ := h
  exact ⟨content, list, hparent, hcontent, hlist, hi⟩

theorem remove_eq_ok (h : t.remove id = .ok t') :
    ∃ owner index, t.isLive id = true ∧ t.position? id = some (owner, index) ∧
      t' = ((t.unlisted owner id index).markRemoved id).record
        ⟨Text.deletion t.source (t.extent id), ""⟩ := by
  unfold remove at h
  cases hlive : t.isLive id with
  | false => simp [hlive] at h
  | true =>
    cases hpos : t.position? id with
    | none => simp [hlive, hpos] at h
    | some place =>
      simp only [hlive, hpos, Bool.not_true, Bool.false_eq_true, if_false, Except.ok.injEq] at h
      exact ⟨place.1, place.2, rfl, rfl, h.symm⟩

theorem eraseIdx_eq_erase {list : List NodeId} {index : Nat} (h : list.idxOf? id = some index) :
    list.eraseIdx index = list.erase id := by
  rw [List.erase_eq_eraseIdx, h]

/-- Lists only get shorter, so numbers still go down. -/
theorem Descending.of_parts (ht : t.Descending) (hroot : t'.root = t.root)
    (hsize : t'.nodes.size = t.nodes.size) (hparts : ∀ x, t'.parts x ⊆ t.parts x) :
    t'.Descending where
  root_eq := hroot.trans ht.root_eq
  part_pos h := ht.part_pos (hparts _ h)
  part_lt_size h := hsize ▸ ht.part_lt_size (hparts _ h)
  part_lt h := ht.part_lt (hparts _ h)

theorem parts_unlisted {list : List NodeId} {index : Nat} (hcontent : t.content? owner = some content)
    (hlist : content.statementList? = some list) (hindex : list.idxOf? id = some index)
    (x : NodeId) :
    (t.unlisted owner id index).parts x =
      if x = owner then (t.parts x).erase id else t.parts x := by
  rw [parts, content?_of_node? (node?_unlisted t owner id index) x]
  by_cases hx : x = owner
  · subst hx
    obtain ⟨node, hnode, rfl⟩ := content?_eq_some hcontent
    rw [if_pos rfl, parts_of_content? hcontent, Content.children_of_statementList? hlist, hnode,
      ← eraseIdx_eq_erase hindex]
    simp [hlist, Content.children_withStatements hlist]
  · rw [if_neg hx, parts, Tree.content?]
    cases t.node? x <;> simp [hx]

open Classical in
/-- The whole effect of taking out a statement, node by node. -/
theorem node?_of_remove (ht : t.Linked []) (hid : t.isLive id = true)
    {index : Nat} {list : List NodeId} (hcontent : t.content? owner = some content)
    (hlist : content.statementList? = some list) (hindex : list.idxOf? id = some index) (edit : Text.Edit) (x : NodeId) :
    (((t.unlisted owner id index).markRemoved id).record edit).node? x =
      (t.node? x).map fun node =>
        { node with
          content :=
            if x = owner then
              node.content.withStatements ((node.content.statementList?.getD []).eraseIdx index)
            else node.content
          parent := if x = id then none else node.parent
          removed := node.removed || decide (t.Below id x) } := by
  have hparts := parts_unlisted hcontent hlist hindex
  have hmem : id ∈ t.parts owner := by
    rw [parts_of_content? hcontent, Content.children_of_statementList? hlist]
    exact List.isSome_idxOf?.mp (by rw [hindex]; rfl)
  have hdesc : (t.unlisted owner id index).Descending := by
    refine ht.toDescending.of_parts rfl (size_eq_of_node? (node?_unlisted t owner id index)) ?_
    intro y
    rw [hparts y]
    split
    · exact List.erase_subset
    · exact fun _ h => h
  have hbelow (y : NodeId) : (t.unlisted owner id index).Below id y ↔ t.Below id y := by
    refine Below.congr fun z hz => ?_
    rw [hparts z, if_neg]
    rintro rfl
    exact ht.not_below_owner hmem hz
  have hsize : id < (t.unlisted owner id index).nodes.size := by
    rw [size_eq_of_node? (node?_unlisted t owner id index)]
    exact lt_size_of_isLive hid
  rw [node?_record, node?_markRemoved hdesc (ht.part_pos hmem) hsize, node?_unlisted, hbelow x]
  by_cases hx : t.Below id x <;> cases t.node? x <;> simp [hx, mark]

theorem Linked.removal (ht : t.Linked []) (h : t.remove id = .ok t') :
    ∃ owner, Removal t id owner t' := by
  classical
  obtain ⟨owner, index, hlive, hpos, rfl⟩ := remove_eq_ok h
  obtain ⟨content, list, hparent, hcontent, hlist, hindex⟩ := position?_eq_some hpos
  have hnode := node?_of_remove ht hlive hcontent hlist hindex
    ⟨Text.deletion t.source (t.extent id), ""⟩
  have hmem : id ∈ list := List.isSome_idxOf?.mp (by rw [hindex]; rfl)
  refine ⟨owner, ?_⟩
  constructor
  case id_isLive => exact hlive
  case id_parent => exact hparent
  case listed => exact ⟨content, list, hcontent, hlist, hmem⟩
  case root => simp [record, markRemoved_eq, unlisted, setParent]
  case source => simp [record, markRemoved_eq, unlisted, setParent]
  case size => exact size_eq_of_node? hnode
  case edits => simp [record, markRemoved_eq, unlisted, setParent]
  case content? =>
    intro x
    rw [content?_of_node? hnode x]
    by_cases hx : x = owner
    · subst hx
      obtain ⟨node, hn, rfl⟩ := content?_eq_some hcontent
      simp [Tree.content?, hn, hlist, eraseIdx_eq_erase hindex]
    · rw [Tree.content?]
      cases t.node? x <;> simp [hx]
  case parent? =>
    intro x
    rw [Tree.parent?, hnode x, Tree.parent?]
    cases t.node? x <;> simp
  case place =>
    intro x
    rw [Tree.place, hnode x, Tree.place]
    cases t.node? x <;> rfl
  case extent =>
    intro x
    rw [Tree.extent, hnode x, Tree.extent]
    cases t.node? x <;> rfl
  case isLive_iff =>
    intro x
    rw [isLive_of_node? hnode x, Tree.isLive_iff]
    cases t.node? x <;> simp

section program

variable {u : Tree} {s : NodeId}

/-- A program that has statements lists them as its parts. -/
theorem program_of_mem_statements (hs : s ∈ t.statements) :
    ∃ content, t.content? t.root = some content ∧ content.statementList? = some t.statements ∧
      t.parts t.root = t.statements := by
  cases hlist : (t.content? t.root).bind (·.statementList?) with
  | none =>
    rw [statements, hlist] at hs
    exact absurd hs List.not_mem_nil
  | some list =>
    obtain ⟨content, hcontent, hlist'⟩ := Option.bind_eq_some_iff.mp hlist
    rw [statements, hlist, parts_of_content? hcontent, Content.children_of_statementList? hlist']
    exact ⟨content, hcontent, hlist', rfl⟩

theorem Linked.nodup_statements (ht : t.Linked []) : t.statements.Nodup := by
  cases hlist : t.statements with
  | nil => exact List.nodup_nil
  | cons s rest =>
    obtain ⟨-, -, -, hparts⟩ := program_of_mem_statements (hlist ▸ List.mem_cons_self : s ∈ _)
    rw [← hlist, ← hparts]
    exact ht.parts_nodup ht.root_isLive

/-- A live node that is found on a list of statements can be taken out. -/
theorem exists_remove_of_position? {index : Nat} (hs : t.isLive s = true)
    (hposition : t.position? s = some (owner, index)) : ∃ u, t.remove s = .ok u :=
  ⟨_, by simp only [remove, hs, hposition]; rfl⟩

theorem Linked.exists_remove (ht : t.Linked []) (hs : s ∈ t.statements) :
    ∃ u, t.remove s = .ok u := by
  obtain ⟨content, hcontent, hlist, hparts⟩ := program_of_mem_statements hs
  have hmem : s ∈ t.parts t.root := hparts ▸ hs
  have hlive := ht.part_isLive ht.root_isLive hmem
  have hparent := ht.part_parent ht.root_isLive hmem
  obtain ⟨index, hindex⟩ := Option.isSome_iff_exists.mp (List.isSome_idxOf?.mpr hs)
  have hposition : t.position? s = some (t.root, index) := by
    simp [position?, hparent, hcontent, hlist, hindex]
  exact exists_remove_of_position? hlive hposition

end program

/-! Replacing a node -/

theorem parts_updateAll_mark (t : Tree) (ids : List NodeId) (x : NodeId) :
    (t.updateAll ids mark).parts x = t.parts x := by
  rw [parts, Tree.content?, node?_updateAll t ids mark (fun _ => rfl) x, parts, Tree.content?]
  cases t.node? x with
  | none => rfl
  | some node =>
    simp only [Option.map_some]
    split <;> rfl

theorem parts_markRemoved (t : Tree) (id x : NodeId) : (t.markRemoved id).parts x = t.parts x := by
  rw [markRemoved_eq, parts_updateAll_mark]

/-- The marks of several nodes and all below them. -/
theorem node?_foldl_markRemoved (ht : t.Descending) {ids : List NodeId}
    (hids : ∀ i ∈ ids, 0 < i ∧ i < t.nodes.size) (x : NodeId) :
    ((∃ i ∈ ids, t.Below i x) → (ids.foldl markRemoved t).node? x = (t.node? x).map mark) ∧
      ((¬ ∃ i ∈ ids, t.Below i x) → (ids.foldl markRemoved t).node? x = t.node? x) := by
  classical
  induction ids generalizing t with
  | nil => simp
  | cons i ids ih =>
    obtain ⟨hpos, hsize⟩ := hids i List.mem_cons_self
    have hnode := node?_markRemoved ht hpos hsize x
    have hparts := parts_markRemoved t i
    have hsame : (t.markRemoved i).nodes.size = t.nodes.size := by simp [markRemoved_eq]
    have hdesc : (t.markRemoved i).Descending :=
      ht.of_parts (by simp [markRemoved_eq]) hsame fun y => by rw [hparts y]; exact fun _ h => h
    have hbelow (j : NodeId) : (t.markRemoved i).Below j x ↔ t.Below j x :=
      Below.congr fun y _ => hparts y
    have hrest := ih hdesc fun j hj => hsame ▸ hids j (List.mem_cons_of_mem i hj)
    simp only [hbelow, hnode] at hrest
    simp only [List.foldl_cons, List.mem_cons, exists_eq_or_imp]
    by_cases hi : t.Below i x
    · simp only [hi, if_true] at hrest
      refine ⟨fun _ => ?_, fun h => absurd (Or.inl hi) h⟩
      by_cases hj : ∃ j ∈ ids, t.Below j x
      · rw [hrest.1 hj, Option.map_map]
        rfl
      · exact hrest.2 hj
    · simp only [hi, if_false, Option.map_id'] at hrest
      exact ⟨fun h => hrest.1 (h.resolve_left hi), fun h => hrest.2 fun hj => h (Or.inr hj)⟩

theorem foldl_markRemoved_frame (t : Tree) (ids : List NodeId) :
    (ids.foldl markRemoved t).root = t.root ∧ (ids.foldl markRemoved t).source = t.source ∧
      (ids.foldl markRemoved t).edits = t.edits := by
  induction ids generalizing t with
  | nil => exact ⟨rfl, rfl, rfl⟩
  | cons i ids ih => simpa [markRemoved_eq] using ih (t.markRemoved i)

theorem replace_eq_ok (h : t.replace id content = .ok t') :
    ∃ text, t.isLive id = true ∧ content.leafText? = some text ∧
      t' = (((t.parts id).foldl markRemoved t).setContent id content).record ⟨t.extent id, text⟩ := by
  unfold replace at h
  cases hlive : t.isLive id with
  | false => simp [hlive] at h
  | true =>
    cases htext : content.leafText? with
    | none => simp [hlive, htext] at h
    | some text =>
      simp only [hlive, htext, Bool.not_true, Bool.false_eq_true, if_false, Except.ok.injEq] at h
      exact ⟨text, rfl, rfl, h.symm⟩

open Classical in
/-- The whole effect of replacing a node, node by node. -/
theorem node?_of_replace (ht : t.Descending) (id : NodeId) (content : Content) (edit : Text.Edit)
    (x : NodeId) :
    ((((t.parts id).foldl markRemoved t).setContent id content).record edit).node? x =
      (t.node? x).map fun node =>
        { node with
          content := if x = id then content else node.content
          removed := node.removed || decide (t.StrictlyBelow id x) } := by
  have hids : ∀ i ∈ t.parts id, 0 < i ∧ i < t.nodes.size := fun i hi =>
    ⟨ht.part_pos hi, ht.part_lt_size hi⟩
  rw [node?_record, setContent, node?_update]
  by_cases hb : t.StrictlyBelow id x
  · rw [(node?_foldl_markRemoved ht hids x).1 hb]
    by_cases hx : x = id
    · rw [if_pos hx.symm]
      cases t.node? x <;> simp [hx, hx ▸ hb, mark]
    · rw [if_neg (Ne.symm hx)]
      cases t.node? x <;> simp [hx, hb, mark]
  · rw [(node?_foldl_markRemoved ht hids x).2 hb]
    by_cases hx : x = id
    · rw [if_pos hx.symm]
      cases t.node? x <;> simp [hx, hx ▸ hb]
    · rw [if_neg (Ne.symm hx)]
      cases t.node? x <;> simp [hx, hb]

theorem Linked.replacement {loose : List NodeId} (ht : t.Linked loose)
    (h : t.replace id content = .ok t') : Replacement t id content t' := by
  classical
  obtain ⟨text, hlive, htext, rfl⟩ := replace_eq_ok h
  have hnode := node?_of_replace ht.toDescending id content ⟨t.extent id, text⟩
  have hframe := foldl_markRemoved_frame t (t.parts id)
  constructor
  case id_isLive => exact hlive
  case leaf => exact ⟨text, htext, by simp [record, setContent, hframe]⟩
  case root => exact hframe.1
  case source => exact hframe.2.1
  case size => exact size_eq_of_node? hnode
  case content? =>
    intro x
    rw [content?_of_node? hnode x]
    by_cases hx : x = id
    · subst hx
      obtain ⟨node, hn, -⟩ := Tree.isLive_iff.mp hlive
      simp [hn]
    · rw [Tree.content?]
      cases t.node? x <;> simp [hx]
  case parent? =>
    intro x
    rw [Tree.parent?, hnode x, Tree.parent?]
    cases t.node? x <;> rfl
  case place =>
    intro x
    rw [Tree.place, hnode x, Tree.place]
    cases t.node? x <;> rfl
  case extent =>
    intro x
    rw [Tree.extent, hnode x, Tree.extent]
    cases t.node? x <;> rfl
  case isLive_iff =>
    intro x
    rw [isLive_of_node? hnode x, Tree.isLive_iff]
    cases t.node? x <;> simp

/-! Links, lists and marks after a change -/

/-- Cutting off whole subtrees keeps a tree linked, if the lists of what stays lose just those
nodes. -/
theorem Linked.cut (ht : t.Linked []) (Gone : NodeId → Prop) (hroot : t'.root = t.root)
    (hsize : t'.nodes.size = t.nodes.size) (hsub : ∀ x, (t'.parts x).Sublist (t.parts x))
    (hlive : ∀ x, t'.isLive x = true ↔ t.isLive x = true ∧ ¬ Gone x)
    (hparent : ∀ x, t'.isLive x = true → t'.parent? x = t.parent? x)
    (hgoneRoot : ¬ Gone t.root)
    (hgone : ∀ owner part, Gone owner → part ∈ t.parts owner → Gone part)
    (hlist : ∀ owner part, t'.isLive owner = true → part ∈ t.parts owner →
      (part ∈ t'.parts owner ↔ ¬ Gone part)) : t'.Linked [] := by
  have hrootLive : t'.isLive t'.root = true := by
    rw [hroot]
    exact (hlive _).mpr ⟨ht.root_isLive, hgoneRoot⟩
  have hpart {owner part : NodeId} (ho : t'.isLive owner = true) (hmem : part ∈ t'.parts owner) :
      t'.isLive part = true := by
    have hmem' := (hsub owner).subset hmem
    exact (hlive part).mpr
      ⟨ht.part_isLive ((hlive owner).mp ho).1 hmem', (hlist owner part ho hmem').mp hmem⟩
  constructor
  case toDescending => exact ht.toDescending.of_parts hroot hsize fun x => (hsub x).subset
  case root_isLive => exact hrootLive
  case root_parent => rw [hparent _ hrootLive, hroot]; exact ht.root_parent
  case part_isLive => exact hpart
  case part_parent =>
    intro owner part ho hmem
    rw [hparent part (hpart ho hmem)]
    exact ht.part_parent ((hlive owner).mp ho).1 ((hsub owner).subset hmem)
  case parts_nodup =>
    intro owner ho
    exact (hsub owner).nodup (ht.parts_nodup ((hlive owner).mp ho).1)
  case attached =>
    intro id hid hne _
    obtain ⟨hidLive, hidGone⟩ := (hlive id).mp hid
    obtain ⟨owner, howner, hownerLive, hmem⟩ :=
      ht.attached hidLive (hroot ▸ hne) List.not_mem_nil
    have hstays : t'.isLive owner = true :=
      (hlive owner).mpr ⟨hownerLive, fun h => hidGone (hgone owner id h hmem)⟩
    exact ⟨owner, (hparent id hid).trans howner, hstays, (hlist owner id hstays hmem).mpr hidGone⟩
  case loose_isLive => exact fun h => absurd h List.not_mem_nil
  case loose_parent => exact fun h => absurd h List.not_mem_nil
  case loose_pos => exact fun h => absurd h List.not_mem_nil
  case loose_nodup => exact List.nodup_nil

theorem Removal.parts (h : Removal t id owner t') (x : NodeId) :
    t'.parts x = if x = owner then (t.parts x).erase id else t.parts x := by
  obtain ⟨content, list, hcontent, hlist, -⟩ := h.listed
  rw [Tree.parts, h.content? x]
  by_cases hx : x = owner
  · subst hx
    simp [parts_of_content? hcontent, hcontent, hlist, Content.children_withStatements hlist,
      Content.children_of_statementList? hlist]
  · rw [if_neg hx, if_neg hx]
    rfl

theorem Removal.mem_parts (h : Removal t id owner t') : id ∈ t.parts owner := by
  obtain ⟨content, list, hcontent, hlist, hmem⟩ := h.listed
  rw [parts_of_content? hcontent, Content.children_of_statementList? hlist]
  exact hmem

theorem Removal.owner_isLive (ht : t.Linked []) (h : Removal t id owner t') :
    t.isLive owner = true :=
  (ht.owner_of_parent? h.id_isLive h.id_parent).1

theorem Removal.linked (ht : t.Linked []) (h : Removal t id owner t') : t'.Linked [] := by
  have howner := h.owner_isLive ht
  have hpos := ht.part_pos h.mem_parts
  refine ht.cut (t.Below id) h.root h.size ?_ h.isLive_iff ?_
    (ht.not_below_root hpos) (fun _ _ => Below.part) ?_
  · intro x
    rw [h.parts x]
    split
    · exact List.erase_sublist
    · exact List.Sublist.refl _
  · intro x hx
    rw [h.parent? x, if_neg]
    rintro rfl
    exact ((h.isLive_iff x).mp hx).2 .refl
  · intro p part hp hmem
    obtain ⟨hpLive, hpStays⟩ := (h.isLive_iff p).mp hp
    rw [h.parts p]
    by_cases hpo : p = owner
    · subst hpo
      rw [if_pos rfl, (ht.parts_nodup hpLive).mem_erase_iff]
      refine ⟨fun ⟨hne, _⟩ hb => ?_, fun hb => ⟨?_, hmem⟩⟩
      · exact (ht.below_owner h.id_isLive hpLive hmem hb).elim hne hpStays
      · rintro rfl
        exact hb .refl
    · rw [if_neg hpo]
      refine ⟨fun _ hb => ?_, fun _ => hmem⟩
      rcases ht.below_owner h.id_isLive hpLive hmem hb with rfl | hb
      · exact hpo (ht.owner_unique hpLive howner hmem h.mem_parts)
      · exact hpStays hb

theorem Replacement.parts (h : Replacement t id content t') (x : NodeId) :
    t'.parts x = if x = id then [] else t.parts x := by
  obtain ⟨text, htext, -⟩ := h.leaf
  rw [Tree.parts, h.content? x]
  by_cases hx : x = id
  · simp [hx, Content.children_of_leafText? htext]
  · rw [if_neg hx, if_neg hx]
    rfl

theorem StrictlyBelow.part (h : t.StrictlyBelow id owner) (hx : x ∈ t.parts owner) :
    t.StrictlyBelow id x := by
  obtain ⟨part, hpart, hb⟩ := h
  exact ⟨part, hpart, hb.part hx⟩

theorem Replacement.linked (ht : t.Linked []) (h : Replacement t id content t') :
    t'.Linked [] := by
  refine ht.cut (t.StrictlyBelow id) h.root h.size ?_ h.isLive_iff (fun x _ => h.parent? x)
    ?_ (fun _ _ => StrictlyBelow.part) ?_
  · intro x
    rw [h.parts x]
    split
    · exact List.nil_sublist _
    · exact List.Sublist.refl _
  · rintro ⟨part, hpart, hb⟩
    exact ht.not_below_root (ht.part_pos hpart) hb
  · intro p part hp hmem
    obtain ⟨hpLive, hpStays⟩ := (h.isLive_iff p).mp hp
    rw [h.parts p]
    by_cases hpo : p = id
    · subst hpo
      rw [if_pos rfl]
      exact ⟨fun hnil => absurd hnil List.not_mem_nil, fun hb => absurd ⟨part, hmem, .refl⟩ hb⟩
    · rw [if_neg hpo]
      refine ⟨fun _ => ?_, fun _ => hmem⟩
      rintro ⟨q, hq, hb⟩
      have hqLive := ht.part_isLive h.id_isLive hq
      rcases ht.below_owner hqLive hpLive hmem hb with rfl | hb
      · exact hpo (ht.owner_unique hpLive h.id_isLive hmem hq)
      · exact hpStays ⟨q, hq, hb⟩

end Flavoring.Tree
