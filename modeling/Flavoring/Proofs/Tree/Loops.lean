import Flavoring.Proofs.Tree.Walks

/-!
Loops: walks run over a stack of nodes end, and do what the walks do.

A turn takes the next node off the stack and puts its parts there. No node is on the stack twice in
the course of a loop, so there are no more turns than nodes.
-/

namespace Flavoring.Tree

variable {t u T : Tree} {source : String} {id : NodeId}

/-- The step leads from one state to another in `n` turns. -/
inductive Turns {σ : Type} (step : σ → Option σ) : Nat → σ → σ → Prop
  | refl (s : σ) : Turns step 0 s s
  | turn {n : Nat} {s s' e : σ} :
    step s = some s' → Turns step n s' e → Turns step (n + 1) s e

theorem Turns.trans {σ : Type} {step : σ → Option σ} {m n : Nat} {s s' e : σ}
    (h : Turns step m s s') (h' : Turns step n s' e) : Turns step (m + n) s e := by
  induction h with
  | refl => rwa [Nat.zero_add]
  | turn hstep _ ih =>
    rw [Nat.add_right_comm]
    exact .turn hstep (ih h')

/-- A loop over the step, started in `s`, ends in `e` after `n` turns. -/
def Ends {σ : Type} (step : σ → Option σ) (n : Nat) (s e : σ) : Prop :=
  Turns step n s e ∧ step e = none

/-- A listing in progress: the nodes still to come to, the next one first, and what is listed. -/
structure Listing where
  stack : List NodeId
  order : List NodeId

/-- A live node is listed, and its parts are next. -/
def listNext (t : Tree) : Listing → Option Listing
  | ⟨[], _⟩ => none
  | ⟨id :: stack, order⟩ =>
    some (if t.isLive id then ⟨t.parts id ++ stack, order ++ [id]⟩ else ⟨stack, order⟩)

/-- A removal in progress: the tree so far, and the nodes still to come to, the next one first. -/
structure Marking where
  tree : Tree
  stack : List NodeId

/-- A node is marked, be it marked already or not, and its last part is next. -/
def markNext : Marking → Option Marking
  | ⟨_, []⟩ => none
  | ⟨t, id :: stack⟩ =>
    some (if (t.node? id).isSome then ⟨t.update id mark, (t.parts id).reverse ++ stack⟩
      else ⟨t, stack⟩)

theorem turns_listNext_parts {ids : List NodeId}
    (h : ∀ id ∈ ids, ∀ stack order, Turns t.listNext (t.descendants id).length
      ⟨id :: stack, order⟩ ⟨stack, order ++ t.descendants id⟩) (stack order : List NodeId) :
    Turns t.listNext (ids.flatMap t.descendants).length ⟨ids ++ stack, order⟩
      ⟨stack, order ++ ids.flatMap t.descendants⟩ := by
  induction ids generalizing order with
  | nil =>
    rw [List.flatMap_nil, List.append_nil]
    exact .refl _
  | cons id ids ih =>
    have hfirst := h id List.mem_cons_self (ids ++ stack) order
    have hrest := ih (fun x hx => h x (List.mem_cons_of_mem id hx)) (order ++ t.descendants id)
    rw [List.flatMap_cons, List.length_append, ← List.append_assoc]
    exact hfirst.trans hrest

theorem Linked.turns_listNext (ht : t.Linked []) (hid : t.isLive id = true)
    (stack order : List NodeId) : Turns t.listNext (t.descendants id).length ⟨id :: stack, order⟩
      ⟨stack, order ++ t.descendants id⟩ := by
  induction id using ht.induct generalizing stack order with
  | step id ih =>
    have hparts := turns_listNext_parts
      (fun part hpart => ih part hpart (ht.part_isLive hid hpart)) stack (order ++ [id])
    rw [List.append_assoc, List.singleton_append, ← ht.descendants_eq hid] at hparts
    have hturn : t.listNext ⟨id :: stack, order⟩ = some ⟨t.parts id ++ stack, order ++ [id]⟩ := by
      rw [listNext, if_pos hid]
    -- what lies deeper on the stack waits until all below the node is listed
    have hall := Turns.turn hturn hparts
    rwa [← List.length_cons, ← ht.descendants_eq hid] at hall

/-- Listing what stands below a node ends, and lists its descendants. -/
theorem Pruned.listing_ends (hT : T.Built source []) (h : Pruned T u) (id : NodeId) :
    ∃ turns ≤ u.nodes.size, Ends u.listNext turns ⟨[id], []⟩ ⟨[], u.descendants id⟩ := by
  by_cases hid : u.isLive id = true
  · exact ⟨_, h.length_walk_le hT (lt_size_of_isLive hid), h.turns_listNext hid [] [], rfl⟩
  · refine ⟨1, Nat.zero_lt_of_lt (lt_size_of_isLive h.root_isLive), .turn ?_ (.refl _), rfl⟩
    rw [listNext, if_neg hid, descendants_of_not_isLive (Bool.eq_false_iff.mpr hid)]

theorem updateAll_concat (t : Tree) (ids : List NodeId) (id : NodeId) (f : Node → Node) :
    t.updateAll (ids ++ [id]) f = (t.updateAll ids f).update id f :=
  List.foldl_concat ..

/-- In which order nodes are marked does not matter. -/
theorem updateAll_mark_eq {ids ids' : List NodeId} (h : ∀ x, x ∈ ids ↔ x ∈ ids') :
    t.updateAll ids mark = t.updateAll ids' mark := by
  have hnodes : (t.updateAll ids mark).nodes = (t.updateAll ids' mark).nodes := by
    apply Array.ext_getElem?
    intro x
    show (t.updateAll ids mark).node? x = (t.updateAll ids' mark).node? x
    rw [node?_updateAll t ids mark (fun _ => rfl), node?_updateAll t ids' mark (fun _ => rfl)]
    simp only [h]
  -- and nothing but nodes is changed
  obtain ⟨hroot, hsource, hedits, -⟩ := updateAll_frame t ids mark
  obtain ⟨hroot', hsource', hedits', -⟩ := updateAll_frame t ids' mark
  generalize t.updateAll ids mark = u at *
  generalize t.updateAll ids' mark = u' at *
  cases u
  cases u'
  simp_all

/-- The loop marks the nodes below `id` in some order. -/
def MarksBelow (t : Tree) (id : NodeId) : Prop :=
  ∃ ids, ids.Perm (t.walk (fun _ => true) t.nodes.size id) ∧ ∀ done stack,
    Turns markNext ids.length ⟨t.updateAll done mark, id :: stack⟩
      ⟨t.updateAll (done ++ ids) mark, stack⟩

theorem turns_markNext_parts {parts : List NodeId} (h : ∀ id ∈ parts, t.MarksBelow id) :
    ∃ ids, ids.Perm (parts.flatMap (t.walk (fun _ => true) t.nodes.size)) ∧ ∀ done stack,
      Turns markNext ids.length ⟨t.updateAll done mark, parts ++ stack⟩
        ⟨t.updateAll (done ++ ids) mark, stack⟩ := by
  induction parts with
  | nil => exact ⟨[], .nil, fun done stack => by rw [List.append_nil]; exact .refl _⟩
  | cons id parts ih =>
    obtain ⟨first, hfirst, hmarks⟩ := h id List.mem_cons_self
    obtain ⟨rest, hrest, hmarksRest⟩ := ih fun x hx => h x (List.mem_cons_of_mem id hx)
    refine ⟨first ++ rest, hfirst.append hrest, fun done stack => ?_⟩
    have hall := (hmarks done (parts ++ stack)).trans (hmarksRest (done ++ first) stack)
    rwa [← List.length_append, List.append_assoc] at hall

theorem Descending.marksBelow (ht : t.Descending) (hid : id < t.nodes.size) : t.MarksBelow id := by
  induction id using ht.induct with
  | step id ih =>
    have hparts : ∀ part ∈ (t.parts id).reverse, t.MarksBelow part := by
      intro part hpart
      rw [List.mem_reverse] at hpart
      exact ih part hpart (ht.part_lt_size hpart)
    obtain ⟨ids, hperm, hmarks⟩ := turns_markNext_parts hparts
    obtain ⟨node, hnode⟩ := Option.isSome_iff_exists.mp (node?_isSome_iff.mpr hid)
    refine ⟨id :: ids, ?_, fun done stack => ?_⟩
    · rw [ht.walk_size hnode rfl]
      exact (hperm.trans ((List.reverse_perm _).flatMap_right _)).cons id
    · -- marks change no parts, so the loop goes on as in the tree it started with
      have hsome : ((t.updateAll done mark).node? id).isSome = true := by
        rw [node?_isSome_iff, size_updateAll]
        exact hid
      have hturn : markNext ⟨t.updateAll done mark, id :: stack⟩ =
          some ⟨t.updateAll (done ++ [id]) mark, (t.parts id).reverse ++ stack⟩ := by
        rw [markNext, if_pos hsome, parts_updateAll_mark, updateAll_concat]
      have hall := hmarks (done ++ [id]) stack
      rw [List.append_assoc, List.singleton_append] at hall
      exact .turn hturn hall

/-- Marking what stands below a node ends, and marks what a removal marks. -/
theorem Pruned.marking_ends (hT : T.Built source []) (h : Pruned T u) (id : NodeId) :
    ∃ turns ≤ u.nodes.size, Ends markNext turns ⟨u, [id]⟩ ⟨u.markRemoved id, []⟩ := by
  by_cases hid : id < u.nodes.size
  · obtain ⟨ids, hperm, hmarks⟩ := h.marksBelow hid
    refine ⟨ids.length, hperm.length_eq ▸ h.length_walk_le hT hid, ?_, rfl⟩
    have hall := hmarks [] []
    rw [List.nil_append, updateAll_mark_eq fun x => hperm.mem_iff, ← markRemoved_eq] at hall
    exact hall
  · refine ⟨1, Nat.zero_lt_of_lt (lt_size_of_isLive h.root_isLive), .turn ?_ (.refl _), rfl⟩
    have hnone : ¬ (u.node? id).isSome = true := fun hsome => hid (node?_isSome_iff.mp hsome)
    rw [markNext, if_neg hnone, markRemoved_eq, walk_of_not_follow fun node hnode =>
      absurd (by rw [hnode]; rfl) hnone]
    rfl

/-! Trees after changes -/

/-- Walks from all nodes end and come to no node twice. -/
structure Walkable (u : Tree) : Prop where
  part_lt {owner part : NodeId} : part ∈ u.parts owner → owner ≠ u.root → part < owner
  position_unique {p q x : NodeId} {i j : Nat} :
    (u.parts p)[i]? = some x → (u.parts q)[j]? = some x → p = q ∧ i = j
  listing_ends (id : NodeId) :
    ∃ turns ≤ u.nodes.size, Ends u.listNext turns ⟨[id], []⟩ ⟨[], u.descendants id⟩
  marking_ends (id : NodeId) :
    ∃ turns ≤ u.nodes.size, Ends markNext turns ⟨u, [id]⟩ ⟨u.markRemoved id, []⟩
  listsBelow (id : NodeId) : u.ListsBelow id (u.descendants id)

/-- After any run of changes the walks of a module's tree end, whatever node they start from: as
loops over a stack they take no more turns than there are nodes. -/
theorem walkable_after_changes (h : parse source = .ok t) (changes : List Change) :
    (t.attemptAll changes).Walkable := by
  have hT := built_of_parse h
  have hpruned := (Pruned.of_built hT).attemptAll changes
  constructor
  case part_lt =>
    intro owner part hpart hne
    rw [hpruned.root_eq] at hne
    exact hpruned.part_lt hpart (Nat.pos_of_ne_zero hne)
  case position_unique => exact hpruned.position_unique hT
  case listing_ends => exact hpruned.listing_ends hT
  case marking_ends => exact hpruned.marking_ends hT
  case listsBelow => exact hpruned.listsBelow_descendants hT

/-- A call that was removed with its statement still lists its parts, and what listed the replaced one
is gone. The last change is refused. -/
theorem walkable_after_removal_in_function :
    ∃ t u, parse "import fl from \"m\";\nfunction f() \x7b g(h(1)); \x7d\nfl(f(2));\n" = .ok t ∧
      u = t.attemptAll
        [.remove 10, .replace 16 (.identifier "x"), .remove 18, .replace 9 (.identifier "y")] ∧
      u.parts 9 = [5, 8] ∧ u.parts 16 = [] ∧ u.descendants u.root = [0, 2, 1, 12, 3, 4, 11] ∧
      u.Walkable := by
  let changes : List Change :=
    [.remove 10, .replace 16 (.identifier "x"), .remove 18, .replace 9 (.identifier "y")]
  obtain ⟨t, ht, hcheck⟩ := exists_parse
    (fun t => decide ((t.attemptAll changes).parts 9 = [5, 8] ∧ (t.attemptAll changes).parts 16 = [] ∧
      (t.attemptAll changes).descendants (t.attemptAll changes).root = [0, 2, 1, 12, 3, 4, 11]))
    (by decide +kernel : (parse
      "import fl from \"m\";\nfunction f() \x7b g(h(1)); \x7d\nfl(f(2));\n").toOption.any _ = true)
  obtain ⟨hcall, hreplaced, hlisted⟩ := of_decide_eq_true hcheck
  exact ⟨t, _, ht, rfl, hcall, hreplaced, hlisted, walkable_after_changes ht changes⟩

end Flavoring.Tree
