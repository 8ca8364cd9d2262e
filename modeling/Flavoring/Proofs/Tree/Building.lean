import Flavoring.Proofs.Tree.Arena
import Flavoring.Tree.Module

/-!
Building a tree from outlines links it.
-/

namespace Flavoring.Tree

variable {t : Tree} {loose : List NodeId}

/-! Adopting loose nodes -/

/-- `t'` is `t` with more parts to one node. The `new` nodes, of which this one may be, are not in `t`. -/
structure Adoption (t : Tree) (owner : NodeId) (adopted new : List NodeId) (t' : Tree) : Prop where
  root_eq : t'.root = t.root
  size_le : t.nodes.size ≤ t'.nodes.size
  isLive_iff (x : NodeId) : t'.isLive x = true ↔ x ∈ new ∨ t.isLive x = true
  parts_eq (x : NodeId) : t'.parts x = if x = owner then t.parts x ++ adopted else t.parts x
  parent?_eq (x : NodeId) : t'.parent? x = if x ∈ adopted then some owner else t.parent? x
  owner_isLive : t'.isLive owner = true
  lt_owner {part : NodeId} : part ∈ adopted → 0 < owner → part < owner
  new_apart {x : NodeId} : x ∈ new → t.isLive x = false ∧ t.parts x = [] ∧ t.parent? x = none
  new_nodup : new.Nodup

namespace Adoption

variable {t' : Tree} {owner x part : NodeId} {adopted new : List NodeId}

theorem not_isLive_of_new (h : Adoption t owner adopted new t') (hx : x ∈ new) :
    t.isLive x ≠ true := by
  rw [(h.new_apart hx).1]
  exact Bool.false_ne_true

theorem mem_parts_iff (h : Adoption t owner adopted new t') :
    part ∈ t'.parts x ↔ part ∈ t.parts x ∨ x = owner ∧ part ∈ adopted := by
  rw [h.parts_eq]
  split <;> simp [*]

/-- A part of a live node is one that it had before or one that it has adopted. -/
theorem cases_part (h : Adoption t owner adopted new t') (hx : t'.isLive x = true)
    (hpart : part ∈ t'.parts x) :
    t.isLive x = true ∧ part ∈ t.parts x ∨ x = owner ∧ part ∈ adopted := by
  refine (h.mem_parts_iff.mp hpart).imp_left fun hold => ⟨?_, hold⟩
  -- a new node has no parts of its own
  refine ((h.isLive_iff x).mp hx).resolve_left fun hnew => ?_
  rw [(h.new_apart hnew).2.1] at hold
  exact List.not_mem_nil hold

theorem descending (ht : t.Linked (loose ++ adopted)) (h : Adoption t owner adopted new t') :
    t'.Descending where
  root_eq := h.root_eq.trans ht.root_eq
  part_pos hpart := by
    rcases h.mem_parts_iff.mp hpart with hold | ⟨-, hadopted⟩
    · exact ht.part_pos hold
    · exact ht.loose_pos (List.mem_append_right _ hadopted)
  part_lt_size hpart := by
    refine Nat.lt_of_lt_of_le ?_ h.size_le
    rcases h.mem_parts_iff.mp hpart with hold | ⟨-, hadopted⟩
    · exact ht.part_lt_size hold
    · exact lt_size_of_isLive (ht.loose_isLive (List.mem_append_right _ hadopted))
  part_lt hpart hpos := by
    rcases h.mem_parts_iff.mp hpart with hold | ⟨rfl, hadopted⟩
    · exact ht.part_lt hold hpos
    · exact h.lt_owner hadopted hpos

theorem part_parent (ht : t.Linked (loose ++ adopted)) (h : Adoption t owner adopted new t')
    (hx : t'.isLive x = true) (hpart : part ∈ t'.parts x) : t'.parent? part = some x := by
  rw [h.parent?_eq]
  rcases h.cases_part hx hpart with ⟨hlive, hold⟩ | ⟨rfl, hadopted⟩
  · rw [if_neg fun hadopted =>
      ht.not_mem_parts_of_loose (List.mem_append_right _ hadopted) hlive hold]
    exact ht.part_parent hlive hold
  · exact if_pos hadopted

theorem nodup_parts (ht : t.Linked (loose ++ adopted)) (h : Adoption t owner adopted new t')
    (hx : t'.isLive x = true) : (t'.parts x).Nodup := by
  have hold : (t.parts x).Nodup := by
    rcases (h.isLive_iff x).mp hx with hnew | hlive
    · exact (h.new_apart hnew).2.1 ▸ List.nodup_nil
    · exact ht.parts_nodup hlive
  rw [h.parts_eq]
  split
  · refine List.nodup_append.mpr ⟨hold, (List.nodup_append.mp ht.loose_nodup).2.1, ?_⟩
    rintro part hpart _ hadopted rfl
    rcases (h.isLive_iff x).mp hx with hnew | hlive
    · rw [(h.new_apart hnew).2.1] at hpart
      exact List.not_mem_nil hpart
    · exact ht.not_mem_parts_of_loose (List.mem_append_right _ hadopted) hlive hpart
  · exact hold

theorem attached (ht : t.Linked (loose ++ adopted)) (h : Adoption t owner adopted new t')
    (hx : t'.isLive x = true) (hroot : x ≠ t'.root) (hloose : x ∉ loose ++ new) :
    ∃ y, t'.parent? x = some y ∧ t'.isLive y = true ∧ x ∈ t'.parts y := by
  rw [List.mem_append, not_or] at hloose
  by_cases hadopted : x ∈ adopted
  · exact ⟨owner, (h.parent?_eq x).trans (if_pos hadopted), h.owner_isLive,
      h.mem_parts_iff.mpr (.inr ⟨rfl, hadopted⟩)⟩
  · obtain ⟨y, hparent, hlive, hmem⟩ :=
      ht.attached (((h.isLive_iff x).mp hx).resolve_left hloose.2) (h.root_eq ▸ hroot)
        fun hmem => (List.mem_append.mp hmem).elim hloose.1 hadopted
    exact ⟨y, (h.parent?_eq x).trans ((if_neg hadopted).trans hparent),
      (h.isLive_iff y).mpr (.inr hlive), h.mem_parts_iff.mpr (.inl hmem)⟩

/-- Adopting loose nodes leaves the others loose, and those that are new. -/
theorem linked (ht : t.Linked (loose ++ adopted)) (h : Adoption t owner adopted new t') :
    t'.Linked (loose ++ new) := by
  obtain ⟨hnodup, -, hdisjoint⟩ := List.nodup_append.mp ht.loose_nodup
  have hlive {x : NodeId} (hx : x ∈ loose) : t.isLive x = true :=
    ht.loose_isLive (List.mem_append_left _ hx)
  constructor
  case toDescending => exact h.descending ht
  case root_isLive => exact h.root_eq ▸ (h.isLive_iff _).mpr (.inr ht.root_isLive)
  case root_parent =>
    rw [h.root_eq, h.parent?_eq,
      if_neg fun hadopted => ht.root_not_mem_loose (List.mem_append_right _ hadopted)]
    exact ht.root_parent
  case part_isLive =>
    intro x part hx hpart
    refine (h.isLive_iff part).mpr (.inr ?_)
    rcases h.cases_part hx hpart with ⟨hlive, hold⟩ | ⟨-, hadopted⟩
    · exact ht.part_isLive hlive hold
    · exact ht.loose_isLive (List.mem_append_right _ hadopted)
  case part_parent => exact h.part_parent ht
  case parts_nodup => exact h.nodup_parts ht
  case attached => exact h.attached ht
  case loose_isLive =>
    intro x hx
    exact (h.isLive_iff x).mpr ((List.mem_append.mp hx).symm.imp_right hlive)
  case loose_parent =>
    intro x hx
    rw [h.parent?_eq]
    rcases List.mem_append.mp hx with hold | hnew
    · rw [if_neg fun hadopted => hdisjoint x hold x hadopted rfl]
      exact ht.loose_parent (List.mem_append_left _ hold)
    · rw [if_neg fun hadopted =>
        h.not_isLive_of_new hnew (ht.loose_isLive (List.mem_append_right _ hadopted))]
      exact (h.new_apart hnew).2.2
  case loose_pos =>
    intro x hx
    rcases List.mem_append.mp hx with hold | hnew
    · exact ht.loose_pos (List.mem_append_left _ hold)
    · -- the node numbered 0 is the root, which is not new
      refine Nat.pos_of_ne_zero fun hzero => h.not_isLive_of_new hnew ?_
      rw [hzero, ← ht.root_eq]
      exact ht.root_isLive
  case loose_nodup =>
    refine List.nodup_append.mpr ⟨hnodup, h.new_nodup, ?_⟩
    rintro x hold _ hnew rfl
    exact h.not_isLive_of_new hnew (hlive hold)

end Adoption

/-! Adding a node -/

/-- What adoption does to a node. -/
def adopt (owner : NodeId) (node : Node) : Node := { node with parent := some owner }

theorem add_eq (t : Tree) (content : Content) (extent : Extent) (place : Place) :
    t.add content extent place =
      (t.nodes.size,
        { t.updateAll content.children (adopt t.nodes.size) with
          nodes := (t.updateAll content.children (adopt t.nodes.size)).nodes.push
            { content, place, extent } }) := rfl

theorem node?_add (t : Tree) (content : Content) (extent : Extent) (place : Place) (x : NodeId) :
    (t.add content extent place).2.node? x =
      if x = t.nodes.size then some { content, place, extent }
      else (t.node? x).map fun node =>
        if x ∈ content.children then adopt t.nodes.size node else node := by
  rw [add_eq, ← node?_updateAll t content.children (adopt t.nodes.size) (fun _ => rfl) x]
  simp only [node?, Array.getElem?_push, size_updateAll]

theorem size_add (t : Tree) (content : Content) (extent : Extent) (place : Place) :
    (t.add content extent place).2.nodes.size = t.nodes.size + 1 := by
  rw [add_eq]
  simp

section add

variable (t : Tree) (content : Content) (extent : Extent) (place : Place) (x : NodeId)

theorem isLive_add :
    (t.add content extent place).2.isLive x = true ↔ x = t.nodes.size ∨ t.isLive x = true := by
  rw [isLive_iff, isLive_iff, node?_add]
  by_cases hx : x = t.nodes.size
  · simp [hx]
  · rw [if_neg hx]
    cases t.node? x with
    | none => simp [hx]
    | some node => by_cases hc : x ∈ content.children <;> simp [hx, hc, adopt]

theorem content?_add :
    (t.add content extent place).2.content? x =
      if x = t.nodes.size then some content else t.content? x := by
  rw [content?, node?_add]
  by_cases hx : x = t.nodes.size
  · simp [hx]
  · rw [if_neg hx, if_neg hx, content?]
    cases t.node? x with
    | none => rfl
    | some node => by_cases hc : x ∈ content.children <;> simp [hc, adopt]

theorem parts_add :
    (t.add content extent place).2.parts x =
      if x = t.nodes.size then content.children else t.parts x := by
  rw [parts, content?_add]
  by_cases hx : x = t.nodes.size
  · simp [hx]
  · simp [hx, parts]

theorem parent?_add :
    (t.add content extent place).2.parent? x =
      if x = t.nodes.size then none
      else if x ∈ content.children ∧ x < t.nodes.size then some t.nodes.size else t.parent? x := by
  rw [parent?, node?_add]
  by_cases hx : x = t.nodes.size
  · simp [hx]
  · rw [if_neg hx, if_neg hx, parent?]
    cases hnode : t.node? x with
    | none =>
      have hsize : ¬ x < t.nodes.size := by
        rw [← node?_isSome_iff, hnode]
        exact Bool.false_ne_true
      simp [hsize]
    | some node =>
      have hsize : x < t.nodes.size := node?_isSome_iff.mp (by rw [hnode]; rfl)
      by_cases hc : x ∈ content.children <;> simp [hc, hsize, adopt]

end add

/-- A node is added with the loose nodes that are its parts. -/
theorem adoption_add {content : Content} (ht : t.Linked (loose ++ content.children)) (extent : Extent)
    (place : Place) :
    Adoption t t.nodes.size content.children [t.nodes.size] (t.add content extent place).2 := by
  have hdead : t.isLive t.nodes.size = false :=
    Bool.eq_false_iff.mpr fun hlive => Nat.lt_irrefl _ (lt_size_of_isLive hlive)
  have hnode : t.node? t.nodes.size = none := by simp [node?]
  have hparts : t.parts t.nodes.size = [] := by rw [parts, content?, hnode]; rfl
  have hchild {part : NodeId} (hpart : part ∈ content.children) : part < t.nodes.size :=
    lt_size_of_isLive (ht.loose_isLive (List.mem_append_right _ hpart))
  constructor
  case root_eq => exact root_updateAll ..
  case size_le => exact size_add t .. ▸ Nat.le_succ _
  case isLive_iff =>
    intro x
    rw [isLive_add, List.mem_singleton]
  case parts_eq =>
    intro x
    rw [parts_add]
    split
    next hx => rw [hx, hparts, List.nil_append]
    next => rfl
  case parent?_eq =>
    intro x
    rw [parent?_add]
    by_cases hpart : x ∈ content.children
    · rw [if_neg (Nat.ne_of_lt (hchild hpart)), if_pos ⟨hpart, hchild hpart⟩, if_pos hpart]
    · rw [if_neg (fun h : _ ∧ _ => hpart h.1), if_neg hpart]
      split
      next hx => rw [hx, parent?, hnode]; rfl
      next => rfl
  case owner_isLive => exact (isLive_add ..).mpr (.inl rfl)
  case lt_owner => exact fun hpart _ => hchild hpart
  case new_apart =>
    intro x hx
    rw [List.mem_singleton.mp hx]
    exact ⟨hdead, hparts, by rw [parent?, hnode]; rfl⟩
  case new_nodup => exact List.nodup_cons.mpr ⟨List.not_mem_nil, .nil⟩

/-- A node adopts loose nodes and is loose itself. -/
theorem Linked.add {content : Content} (ht : t.Linked (loose ++ content.children)) (extent : Extent)
    (place : Place) :
    (t.add content extent place).2.Linked (loose ++ [(t.add content extent place).1]) :=
  (adoption_add ht extent place).linked ht

/-! Outlines -/

mutual

/-- The node `id` and all below it stand for an outline. -/
def Represents (t : Tree) (id : NodeId) : Outline → Prop
  | .node shape extent place parts =>
    0 < id ∧ t.extent id = extent ∧ t.place id = place ∧
      ∃ ids, t.content? id = some (shape.content ids) ∧ t.RepresentsAll ids parts

/-- Nodes stand for outlines, one for each in their order. -/
def RepresentsAll (t : Tree) : List NodeId → List Outline → Prop
  | [], [] => True
  | id :: ids, o :: os => t.Represents id o ∧ t.RepresentsAll ids os
  | _, _ => False

end

/-- The nodes from `first` on are still what they were. -/
def Keeps (first : NodeId) (t u : Tree) : Prop :=
  ∀ x content, first ≤ x → t.content? x = some content →
    u.content? x = some content ∧ u.extent x = t.extent x ∧ u.place x = t.place x

namespace Keeps

variable {first : NodeId} {u v : Tree}

theorem refl (t : Tree) : Keeps first t t := fun _ _ _ hc => ⟨hc, rfl, rfl⟩

theorem trans (htu : Keeps first t u) (huv : Keeps first u v) : Keeps first t v := by
  intro x content hx hc
  obtain ⟨hc', hextent, hplace⟩ := htu x content hx hc
  obtain ⟨hc'', hextent', hplace'⟩ := huv x content hx hc'
  exact ⟨hc'', hextent'.trans hextent, hplace'.trans hplace⟩

theorem weaken (h : Keeps 0 t u) : Keeps first t u := fun x content _ => h x content (Nat.zero_le x)

end Keeps

mutual

theorem Represents.mono {t u : Tree} (h : Keeps 1 t u) {id : NodeId} :
    (o : Outline) → t.Represents id o → u.Represents id o
  | .node shape extent place parts => by
    rw [Represents, Represents]
    rintro ⟨hpos, hextent, hplace, ids, hcontent, hparts⟩
    obtain ⟨hcontent', hextent', hplace'⟩ := h id _ hpos hcontent
    exact ⟨hpos, hextent'.trans hextent, hplace'.trans hplace, ids, hcontent',
      RepresentsAll.mono h ids parts hparts⟩

theorem RepresentsAll.mono {t u : Tree} (h : Keeps 1 t u) :
    (ids : List NodeId) → (os : List Outline) → t.RepresentsAll ids os → u.RepresentsAll ids os
  | [], [] => id
  | _ :: ids, o :: os => fun hall =>
    ⟨Represents.mono h o hall.1, RepresentsAll.mono h ids os hall.2⟩
  | [], _ :: _ => id
  | _ :: _, [] => id

end

/-- A tree in the making: linked, with nothing removed and nothing edited. -/
structure Built (t : Tree) (source : String) (loose : List NodeId) : Prop extends Linked t loose where
  isLive_of_lt {id : NodeId} : id < t.nodes.size → t.isLive id = true
  program : ∃ body, t.content? t.root = some (.program body)
  source_eq : t.source = source
  edits_eq : t.edits = []

theorem Built.isLive_of_mem_parts {source : String} {x y : NodeId} (ht : t.Built source loose)
    (h : x ∈ t.parts y) : t.isLive y = true :=
  ht.isLive_of_lt (lt_size_of_mem_parts h)

/-- Above a live node all is live. -/
theorem Built.isLive_of_above {source : String} {x y : NodeId} (ht : t.Built source loose)
    (hx : t.isLive x = true) (h : t.Below y x) : t.isLive y = true := by
  rcases h.cases_first with rfl | ⟨part, hpart, -⟩
  · exact hx
  · exact ht.isLive_of_mem_parts hpart

theorem keeps_add (t : Tree) (content : Content) (extent : Extent) (place : Place) :
    Keeps 0 t (t.add content extent place).2 := by
  intro x c _ hc
  obtain ⟨node, hnode, -⟩ := content?_eq_some hc
  have hne : x ≠ t.nodes.size :=
    Nat.ne_of_lt (node?_isSome_iff.mp (by rw [hnode]; rfl))
  refine ⟨by rw [content?_add, if_neg hne, hc], ?_, ?_⟩
  · rw [Tree.extent, node?_add, if_neg hne, Tree.extent, hnode]
    by_cases hx : x ∈ content.children <;> simp [hx, adopt]
  · rw [Tree.place, node?_add, if_neg hne, Tree.place, hnode]
    by_cases hx : x ∈ content.children <;> simp [hx, adopt]

theorem Built.add {source : String} {content : Content}
    (ht : t.Built source (loose ++ content.children)) (extent : Extent) (place : Place) :
    (t.add content extent place).2.Built source (loose ++ [(t.add content extent place).1]) where
  toLinked := ht.toLinked.add extent place
  isLive_of_lt := by
    intro id hid
    rw [size_add] at hid
    rw [isLive_add]
    rcases Nat.lt_succ_iff_lt_or_eq.mp hid with h | h
    · exact Or.inr (ht.isLive_of_lt h)
    · exact Or.inl h
  program := by
    obtain ⟨body, hbody⟩ := ht.program
    have heq : (t.add content extent place).2.root = t.root := root_updateAll ..
    exact ⟨body, by
      rw [heq, content?_add, if_neg (Nat.ne_of_lt (lt_size_of_isLive ht.root_isLive)), hbody]⟩
  source_eq := (source_updateAll ..).trans ht.source_eq
  edits_eq := (edits_updateAll ..).trans ht.edits_eq

mutual

/-- Adding an outline leaves one more loose node, which stands for it. -/
theorem Built.addOutline {source : String} (t : Tree) (loose : List NodeId)
    (ht : t.Built source loose) :
    (o : Outline) → (t.addOutline o).2.Built source (loose ++ [(t.addOutline o).1]) ∧
      Keeps 0 t (t.addOutline o).2 ∧ (t.addOutline o).2.Represents (t.addOutline o).1 o
  | .node shape extent place parts => by
    obtain ⟨hbuilt, hkeeps, hall⟩ := Built.addOutlines t loose ht parts
    rw [Tree.addOutline]
    generalize t.addOutlines parts = added at hbuilt hkeeps hall
    obtain ⟨ids, u⟩ := added
    rw [← Shape.children_content shape ids] at hbuilt
    have hmore := keeps_add u (shape.content ids) extent place
    refine ⟨hbuilt.add extent place, hkeeps.trans hmore, ?_⟩
    rw [Represents]
    refine ⟨Nat.zero_lt_of_lt (lt_size_of_isLive hbuilt.root_isLive), ?_, ?_, ids, ?_,
      RepresentsAll.mono hmore.weaken ids parts hall⟩
    · exact congrArg (fun node : Option Node => (node.map (·.extent)).getD {})
        ((node?_add ..).trans (if_pos rfl))
    · exact congrArg (fun node : Option Node => (node.map (·.place)).getD {})
        ((node?_add ..).trans (if_pos rfl))
    · exact (content?_add ..).trans (if_pos rfl)

theorem Built.addOutlines {source : String} (t : Tree) (loose : List NodeId)
    (ht : t.Built source loose) :
    (os : List Outline) → (t.addOutlines os).2.Built source (loose ++ (t.addOutlines os).1) ∧
      Keeps 0 t (t.addOutlines os).2 ∧
      (t.addOutlines os).2.RepresentsAll (t.addOutlines os).1 os
  | [] => by
    rw [Tree.addOutlines, List.append_nil]
    exact ⟨ht, Keeps.refl t, trivial⟩
  | o :: os => by
    obtain ⟨hbuilt, hkeeps, hone⟩ := Built.addOutline t loose ht o
    rw [Tree.addOutlines]
    generalize t.addOutline o = added at hbuilt hkeeps hone
    obtain ⟨id, u⟩ := added
    obtain ⟨hbuilt', hkeeps', hall⟩ := Built.addOutlines u (loose ++ [id]) hbuilt os
    refine ⟨?_, hkeeps.trans hkeeps', Represents.mono hkeeps'.weaken o hone, hall⟩
    rw [List.append_assoc, List.singleton_append] at hbuilt'
    exact hbuilt'

end

/-! Statements -/

/-- The tree with one more statement at the program's end. -/
def listed (t : Tree) (body : List NodeId) (id : NodeId) : Tree :=
  (t.setContent t.root (.program (body ++ [id]))).setParent (some t.root) id

theorem node?_listed (t : Tree) (body : List NodeId) (id x : NodeId) :
    (t.listed body id).node? x =
      (t.node? x).map fun node =>
        { node with
          content := if x = t.root then .program (body ++ [id]) else node.content
          parent := if x = id then some t.root else node.parent } := by
  rw [listed, setParent, node?_update, setContent, node?_update]
  by_cases hid : id = x <;> by_cases hroot : t.root = x <;>
    cases t.node? x <;> simp [hid, hroot, eq_comm (a := x)]

theorem pushStatement_root {body : List NodeId} {id : NodeId} (hid : t.isLive id = true)
    (hroot : t.isLive t.root = true) (hbody : t.content? t.root = some (.program body)) :
    t.pushStatement t.root id = .ok (t.listed body id) := by
  simp [pushStatement, hid, hroot, hbody, Content.statementList?, Content.withStatements, listed]

section listed

variable {body : List NodeId} {id : NodeId}

theorem content?_listed (hroot : t.isLive t.root = true) (x : NodeId) :
    (t.listed body id).content? x =
      if x = t.root then some (.program (body ++ [id])) else t.content? x := by
  rw [content?, node?_listed]
  by_cases hx : x = t.root
  · obtain ⟨node, hnode, -⟩ := isLive_iff.mp hroot
    simp [hx, hnode]
  · rw [if_neg hx, content?]
    cases t.node? x <;> simp [hx]

theorem parts_listed (hroot : t.isLive t.root = true)
    (hbody : t.content? t.root = some (.program body)) (x : NodeId) :
    (t.listed body id).parts x = if x = t.root then t.parts x ++ [id] else t.parts x := by
  rw [parts, content?_listed hroot]
  by_cases hx : x = t.root
  · simp [hx, parts, hbody, Content.children]
  · simp [hx, parts]

theorem isLive_listed (x : NodeId) : (t.listed body id).isLive x = t.isLive x := by
  rw [isLive, node?_listed, isLive]
  cases t.node? x <;> rfl

theorem parent?_listed (hid : t.isLive id = true) (x : NodeId) :
    (t.listed body id).parent? x = if x = id then some t.root else t.parent? x := by
  rw [parent?, node?_listed, parent?]
  by_cases hx : x = id
  · obtain ⟨node, hnode, -⟩ := isLive_iff.mp hid
    simp [hx, hnode]
  · cases t.node? x <;> simp [hx]

theorem size_listed : (t.listed body id).nodes.size = t.nodes.size := by
  rw [listed, setParent, size_update, setContent, size_update]

/-- A statement is listed at the program's end. -/
theorem adoption_listed (ht : t.Linked [id]) (hbody : t.content? t.root = some (.program body)) :
    Adoption t t.root [id] [] (t.listed body id) := by
  have hid := ht.loose_isLive List.mem_cons_self
  constructor
  case root_eq => rfl
  case size_le => exact Nat.le_of_eq size_listed.symm
  case isLive_iff =>
    intro x
    rw [isLive_listed]
    simp
  case parts_eq => exact parts_listed ht.root_isLive hbody
  case parent?_eq =>
    intro x
    rw [parent?_listed hid]
    simp only [List.mem_singleton]
  case owner_isLive => exact (isLive_listed _).trans ht.root_isLive
  case lt_owner =>
    intro part _ hpos
    rw [ht.root_eq] at hpos
    exact absurd hpos (Nat.lt_irrefl 0)
  case new_apart => exact fun h => absurd h List.not_mem_nil
  case new_nodup => exact List.nodup_nil

theorem Linked.listed (ht : t.Linked [id]) (hbody : t.content? t.root = some (.program body)) :
    (t.listed body id).Linked [] := by
  have hloose : t.Linked ([] ++ [id]) := ht
  exact (adoption_listed ht hbody).linked hloose

end listed

theorem keeps_listed (ht : t.Linked loose) (body : List NodeId) (id : NodeId) :
    Keeps 1 t (t.listed body id) := by
  intro x content hx hcontent
  obtain ⟨node, hnode, -⟩ := content?_eq_some hcontent
  have hne : x ≠ t.root := ht.root_eq ▸ Nat.ne_of_gt hx
  refine ⟨by rw [content?_listed ht.root_isLive, if_neg hne, hcontent], ?_, ?_⟩
  · rw [Tree.extent, node?_listed, Tree.extent, hnode]
    rfl
  · rw [Tree.place, node?_listed, Tree.place, hnode]
    rfl

theorem statements_of_content? {body : List NodeId}
    (h : t.content? t.root = some (.program body)) : t.statements = body := by
  rw [statements, h]
  rfl

theorem RepresentsAll.append {ids ids' : List NodeId} {os os' : List Outline}
    (h : t.RepresentsAll ids os) (h' : t.RepresentsAll ids' os') :
    t.RepresentsAll (ids ++ ids') (os ++ os') := by
  induction ids generalizing os with
  | nil =>
    cases os with
    | nil => exact h'
    | cons o os => exact h.elim
  | cons id ids ih =>
    cases os with
    | nil => exact h.elim
    | cons o os => exact ⟨h.1, ih h.2⟩

/-- Adding a statement at the program's end. -/
theorem Built.addStatement {source : String} {os : List Outline} (ht : t.Built source [])
    (hall : t.RepresentsAll t.statements os) (o : Outline) :
    (t.addStatement o).Built source [] ∧
      (t.addStatement o).RepresentsAll (t.addStatement o).statements (os ++ [o]) := by
  obtain ⟨hbuilt, hkeeps, hone⟩ := Built.addOutline t [] ht o
  have hroot : (t.addOutline o).2.root = t.root := hbuilt.root_eq.trans ht.root_eq.symm
  obtain ⟨body, hbody⟩ := hbuilt.program
  rw [Tree.addStatement]
  generalize t.addOutline o = added at hbuilt hkeeps hone hbody hroot
  obtain ⟨id, u⟩ := added
  have hid := hbuilt.loose_isLive List.mem_cons_self
  have hpush := pushStatement_root hid hbuilt.root_isLive hbody
  have hlisted := keeps_listed hbuilt.toLinked body id
  have hprogram : (u.listed body id).content? u.root = some (.program (body ++ [id])) := by
    rw [content?_listed hbuilt.root_isLive, if_pos rfl]
  simp only [hpush]
  refine ⟨⟨hbuilt.toLinked.listed hbody, ?_, ⟨_, hprogram⟩, hbuilt.source_eq, hbuilt.edits_eq⟩, ?_⟩
  · intro x hx
    rw [size_listed] at hx
    rw [isLive_listed]
    exact hbuilt.isLive_of_lt hx
  · rw [statements_of_content? hprogram]
    have hsame : t.statements = body := by
      obtain ⟨old, hold⟩ := ht.program
      have hnew := (hkeeps t.root _ (Nat.zero_le _) hold).1
      rw [← hroot, hbody] at hnew
      rw [statements_of_content? hold]
      exact (Content.program.inj (Option.some.inj hnew)).symm
    rw [hsame] at hall
    exact (RepresentsAll.mono (hkeeps.weaken.trans hlisted) _ _ hall).append
      ⟨Represents.mono hlisted o hone, trivial⟩

theorem node?_ofText (source : String) (x : NodeId) :
    (ofText source).node? x =
      if x = 0 then some { content := .program [], extent := ⟨0, source.utf8ByteSize⟩ } else none := by
  cases x <;> rfl

theorem parts_ofText (source : String) (x : NodeId) : (ofText source).parts x = [] := by
  rw [parts, content?, node?_ofText]
  by_cases hx : x = 0 <;> simp [hx, Content.children]

theorem built_ofText (source : String) : (ofText source).Built source [] := by
  have hparts {owner part : NodeId} (h : part ∈ (ofText source).parts owner) : False := by
    rw [parts_ofText] at h
    exact List.not_mem_nil h
  have hlive {x : NodeId} (h : (ofText source).isLive x = true) : x = 0 := by
    have hlt := lt_size_of_isLive h
    exact Nat.lt_one_iff.mp hlt
  constructor
  case toLinked =>
    constructor
    case toDescending => exact ⟨rfl, (hparts · |>.elim), (hparts · |>.elim), fun h => (hparts h).elim⟩
    case root_isLive => rfl
    case root_parent => rfl
    case part_isLive => exact fun _ h => (hparts h).elim
    case part_parent => exact fun _ h => (hparts h).elim
    case parts_nodup => exact fun _ => parts_ofText source _ ▸ List.nodup_nil
    case attached => exact fun h hne => absurd (hlive h) hne
    case loose_isLive => exact fun h => absurd h List.not_mem_nil
    case loose_parent => exact fun h => absurd h List.not_mem_nil
    case loose_pos => exact fun h => absurd h List.not_mem_nil
    case loose_nodup => exact List.nodup_nil
  case isLive_of_lt =>
    intro id hid
    rw [Nat.lt_one_iff.mp hid]
    rfl
  case program => exact ⟨[], rfl⟩
  case source_eq => rfl
  case edits_eq => rfl

/-- The tree of a module is linked, and its statements stand for the module's outlines. -/
theorem built_ofOutlines (source : String) (statements : List Outline) :
    (ofOutlines source statements).Built source [] ∧
      (ofOutlines source statements).RepresentsAll (ofOutlines source statements).statements
        statements := by
  have hrun (t : Tree) (done os : List Outline) (ht : t.Built source [])
      (hall : t.RepresentsAll t.statements done) :
      (os.foldl addStatement t).Built source [] ∧
        (os.foldl addStatement t).RepresentsAll (os.foldl addStatement t).statements (done ++ os) := by
    induction os generalizing t done with
    | nil => exact ⟨ht, by rw [List.append_nil]; exact hall⟩
    | cons o os ih =>
      obtain ⟨ht', hall'⟩ := ht.addStatement hall o
      have h := ih (t.addStatement o) (done ++ [o]) ht' hall'
      rw [List.append_assoc, List.singleton_append] at h
      exact h
  exact hrun (ofText source) [] statements (built_ofText source) trivial

theorem parse_eq_ok {source : String} (h : parse source = .ok t) :
    ∃ statements outlines, JavaScript.parse? source = some statements ∧
      Outline.ofModule statements = .ok outlines ∧ t = ofOutlines source outlines := by
  unfold parse at h
  split at h
  · cases h
  · rename_i statements hstatements
    split at h
    · cases h
    · rename_i outlines houtlines
      exact ⟨statements, outlines, hstatements, houtlines, (Except.ok.inj h).symm⟩

theorem exists_ok_of_any {ε α : Type} {x : Except ε α} (p : α → Bool)
    (h : x.toOption.any p = true) : ∃ a, x = .ok a ∧ p a = true := by
  cases x with
  | error _ => cases h
  | ok a => exact ⟨a, rfl, h⟩

theorem exists_parse {source : String} (p : Tree → Bool)
    (h : (parse source).toOption.any p = true) : ∃ t, parse source = .ok t ∧ p t = true :=
  exists_ok_of_any p h

theorem built_of_parse {source : String} (h : parse source = .ok t) : t.Built source [] := by
  obtain ⟨_, outlines, -, -, rfl⟩ := parse_eq_ok h
  exact (built_ofOutlines source outlines).1

-- The program covers the whole text, however many statements were added to it.
theorem Built.extent_root_addStatement {source : String} (ht : t.Built source []) (o : Outline) :
    (t.addStatement o).extent t.root = t.extent t.root := by
  obtain ⟨hbuilt, hkeeps, -⟩ := Built.addOutline t [] ht o
  obtain ⟨body, hbody⟩ := ht.program
  have hsame := (hkeeps t.root _ (Nat.zero_le _) hbody).2.1
  obtain ⟨body', hbody'⟩ := hbuilt.program
  rw [Tree.addStatement]
  generalize t.addOutline o = added at hbuilt hsame hbody'
  obtain ⟨id, u⟩ := added
  have hpush := pushStatement_root (hbuilt.loose_isLive List.mem_cons_self) hbuilt.root_isLive hbody'
  simp only [hpush]
  rw [← hsame, Tree.extent, node?_listed, Tree.extent]
  cases u.node? t.root <;> rfl

theorem extent_root_of_parse {source : String} (h : parse source = .ok t) :
    t.extent t.root = ⟨0, source.utf8ByteSize⟩ := by
  obtain ⟨_, outlines, -, -, rfl⟩ := parse_eq_ok h
  have hrun (t : Tree) (os : List Outline) (ht : t.Built source [])
      (hall : ∃ done, t.RepresentsAll t.statements done)
      (hroot : t.extent t.root = ⟨0, source.utf8ByteSize⟩) :
      (os.foldl addStatement t).extent (os.foldl addStatement t).root
        = ⟨0, source.utf8ByteSize⟩ := by
    induction os generalizing t with
    | nil => exact hroot
    | cons o os ih =>
      obtain ⟨done, hall⟩ := hall
      obtain ⟨ht', hall'⟩ := ht.addStatement hall o
      have hsame : (t.addStatement o).root = t.root := ht'.root_eq.trans ht.root_eq.symm
      apply ih (t.addStatement o) ht' ⟨_, hall'⟩
      rw [hsame, ht.extent_root_addStatement o, hroot]
  exact hrun (ofText source) outlines (built_ofText source) ⟨[], trivial⟩ rfl

end Flavoring.Tree
