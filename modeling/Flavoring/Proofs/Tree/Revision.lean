import Flavoring.Proofs.Tree.Building
import Flavoring.Proofs.Tree.Edits

/-!
Revisions: a tree after statements of its program were taken out and literals were put in the place
of nodes.

Whatever the order of the edits was, the revised tree is told by which statements are gone and which
literals were put where. Nodes that are still live stand to each other as they stood before.
-/

namespace Flavoring

namespace Content

/-- What a literal may be put in the place of. -/
def isTerm : Content → Bool
  | call _ _ | literal _ => true
  | _ => false

theorem isStatement_of_isTerm {content : Content} (h : content.isTerm = true) :
    content.isStatement = false := by
  cases content <;> simp_all [isTerm, isStatement]

end Content

namespace Tree

/-- `t` comes from `T` by taking out the statements `gone`, in this order, and putting literals in
the place of nodes, between these or after them. -/
inductive Edited (T : Tree) : List NodeId → (NodeId → Option Literal) → Tree → Prop
  | start : Edited T [] (fun _ => none) T
  | remove {gone : List NodeId} {put : NodeId → Option Literal} {t t' : Tree} {s : NodeId} :
    Edited T gone put t → s ∈ t.statements → t.remove s = .ok t' → Edited T (gone ++ [s]) put t'
  | replace {gone : List NodeId} {put : NodeId → Option Literal} {t t' : Tree} {x : NodeId}
    {l : Literal} {content : Content} :
    Edited T gone put t → T.content? x = some content → content.isTerm = true →
      t.replace x (.literal l) = .ok t' →
      Edited T gone (fun y => if y = x then some l else put y) t'

/-- The revised tree by lookups. -/
structure Revision (T : Tree) (gone : List NodeId) (put : NodeId → Option Literal) (t : Tree) :
    Prop extends Linked t [] where
  root : t.root = T.root
  source : t.source = T.source
  program : t.content? t.root = some (.program (T.statements.filter (· ∉ gone)))
  content? {x : NodeId} : x ≠ T.root → t.content? x = ((put x).map .literal).or (T.content? x)
  parent? (x : NodeId) : t.parent? x = if x ∈ gone then none else T.parent? x
  place (x : NodeId) : t.place x = T.place x
  extent (x : NodeId) : t.extent x = T.extent x
  isLive_iff (x : NodeId) : t.isLive x = true ↔ T.isLive x = true ∧ (∀ g ∈ gone, ¬ T.Below g x) ∧
    ∀ r, (put r).isSome = true → ¬ T.StrictlyBelow r x
  gone_mem {g : NodeId} : g ∈ gone → g ∈ T.statements
  gone_nodup : gone.Nodup
  put_isTerm {x : NodeId} : (put x).isSome = true →
    ∃ content, T.content? x = some content ∧ content.isTerm = true

variable {T t t' : Tree} {source : String} {gone : List NodeId} {put : NodeId → Option Literal}
  {x y s : NodeId}

theorem Built.parts_root (hT : T.Built source []) : T.parts T.root = T.statements := by
  obtain ⟨body, hbody⟩ := hT.program
  rw [parts_of_content? hbody, statements_of_content? hbody]
  rfl

namespace Revision

theorem statements (h : Revision T gone put t) :
    t.statements = T.statements.filter (· ∉ gone) := statements_of_content? h.program

theorem parts_root (h : Revision T gone put t) : t.parts T.root = t.statements := by
  rw [← h.root, parts_of_content? h.program, h.statements]
  rfl

theorem parts_of_ne (h : Revision T gone put t) (hx : x ≠ T.root) :
    t.parts x = if (put x).isSome then [] else T.parts x := by
  rw [Tree.parts, h.content? hx]
  cases put x with
  | none => rfl
  | some l => rfl

theorem parts_subset (hT : T.Built source []) (h : Revision T gone put t) (x : NodeId) :
    t.parts x ⊆ T.parts x := by
  by_cases hx : x = T.root
  · rw [hx, h.parts_root, h.statements, hT.parts_root]
    exact List.filter_sublist.subset
  · rw [h.parts_of_ne hx]
    split
    · exact List.nil_subset _
    · exact fun _ hy => hy

theorem below_of_below (hT : T.Built source []) (h : Revision T gone put t) (hxy : t.Below x y) :
    T.Below x y := by
  induction hxy with
  | refl => exact .refl
  | part _ hmem ih => exact ih.part (h.parts_subset hT _ hmem)

/-- What a live node stands below in the unedited tree is live too. -/
theorem isLive_of_above (hT : T.Built source []) (h : Revision T gone put t)
    (hx : t.isLive x = true) (hyx : T.Below y x) : t.isLive y = true := by
  obtain ⟨hlive, hgone, hput⟩ := (h.isLive_iff x).mp hx
  refine (h.isLive_iff y).mpr ⟨hT.isLive_of_above hlive hyx, ?_, ?_⟩
  · exact fun g hg hgy => hgone g hg (hgy.trans hyx)
  · rintro r hr ⟨part, hpart, hb⟩
    exact hput r hr ⟨part, hpart, hb.trans hyx⟩

theorem put_eq_none_of_isLive_part (h : Revision T gone put t) (hx : t.isLive x = true)
    (hmem : x ∈ T.parts y) : put y = none := by
  refine Option.not_isSome_iff_eq_none.mp fun hy => ?_
  exact ((h.isLive_iff x).mp hx).2.2 y hy ⟨x, hmem, .refl⟩

theorem not_mem_gone_of_isLive (h : Revision T gone put t) (hx : t.isLive x = true) : x ∉ gone :=
  fun hg => ((h.isLive_iff x).mp hx).2.1 x hg .refl

/-- A live node is still on the list that it was on. -/
theorem mem_parts (hT : T.Built source []) (h : Revision T gone put t) (hx : t.isLive x = true)
    (hmem : x ∈ T.parts y) : x ∈ t.parts y := by
  by_cases hy : y = T.root
  · rw [hy, hT.parts_root] at hmem
    rw [hy, h.parts_root, h.statements]
    exact List.mem_filter.mpr ⟨hmem, decide_eq_true (h.not_mem_gone_of_isLive hx)⟩
  · rw [h.parts_of_ne hy, h.put_eq_none_of_isLive_part hx hmem]
    exact hmem

theorem below_iff (hT : T.Built source []) (h : Revision T gone put t) (hx : t.isLive x = true) :
    t.Below y x ↔ T.Below y x := by
  refine ⟨h.below_of_below hT, fun hyx => ?_⟩
  induction hyx with
  | refl => exact .refl
  | part ho hmem ih =>
    have howner := h.isLive_of_above hT hx (Below.of_mem_parts hmem)
    exact (ih howner).part (h.mem_parts hT hx hmem)

theorem strictlyBelow_iff (hT : T.Built source []) (h : Revision T gone put t)
    (hx : t.isLive x = true) : t.StrictlyBelow y x ↔ T.StrictlyBelow y x := by
  constructor
  · rintro ⟨part, hpart, hb⟩
    exact ⟨part, h.parts_subset hT y hpart, h.below_of_below hT hb⟩
  · rintro ⟨part, hpart, hb⟩
    exact ⟨part, h.mem_parts hT (h.isLive_of_above hT hx hb) hpart, (h.below_iff hT hx).mpr hb⟩

theorem ne_root_of_content? (hT : T.Built source []) {content : Content}
    (hx : T.content? x = some content) (hno : ∀ body, content ≠ .program body) : x ≠ T.root := by
  rintro rfl
  obtain ⟨body, hbody⟩ := hT.program
  rw [hbody, Option.some.injEq] at hx
  exact hno body hx.symm

theorem ne_root_of_isTerm (hT : T.Built source []) {content : Content}
    (hx : T.content? x = some content) (hterm : content.isTerm = true) : x ≠ T.root := by
  refine ne_root_of_content? hT hx fun body hbody => ?_
  rw [hbody] at hterm
  cases hterm

theorem content?_of_put_eq_none (h : Revision T gone put t) (hx : x ≠ T.root)
    (hput : put x = none) : t.content? x = T.content? x := by
  rw [h.content? hx, hput]
  rfl

theorem put_eq_none_of_not_isTerm (h : Revision T gone put t) {content : Content}
    (hx : T.content? x = some content) (hterm : content.isTerm = false) : put x = none := by
  refine Option.not_isSome_iff_eq_none.mp fun hsome => ?_
  obtain ⟨term, hcontent, hisTerm⟩ := h.put_isTerm hsome
  rw [hx, Option.some.injEq] at hcontent
  rw [← hcontent, hterm] at hisTerm
  cases hisTerm

theorem start (hT : T.Built source []) : Revision T [] (fun _ => none) T where
  toLinked := hT.toLinked
  root := rfl
  source := rfl
  program := by
    obtain ⟨body, hbody⟩ := hT.program
    rw [hbody, statements_of_content? hbody, List.filter_eq_self.mpr (by simp)]
  content? := by simp
  parent? := by simp
  place _ := rfl
  extent _ := rfl
  isLive_iff := by simp
  gone_mem := by simp
  gone_nodup := List.nodup_nil
  put_isTerm := by simp

/-- What a statement of the revised program is. -/
theorem mem_statements (h : Revision T gone put t) :
    s ∈ t.statements ↔ s ∈ T.statements ∧ s ∉ gone := by
  rw [h.statements, List.mem_filter, decide_eq_true_iff]

theorem isLive_of_mem_statements (h : Revision T gone put t) (hs : s ∈ t.statements) :
    t.isLive s = true := by
  rw [← h.parts_root, ← h.root] at hs
  exact h.part_isLive h.root_isLive hs

theorem parent?_of_mem_statements (h : Revision T gone put t) (hs : s ∈ t.statements) :
    t.parent? s = some t.root := by
  rw [← h.parts_root, ← h.root] at hs
  exact h.part_parent h.root_isLive hs

/-- A live node can be replaced by a literal. -/
theorem exists_replace (hx : t.isLive x = true) (l : Literal) :
    ∃ t', t.replace x (.literal l) = .ok t' :=
  ⟨_, by simp only [Tree.replace, hx, Content.leafText?]; rfl⟩

theorem remove (hT : T.Built source []) (h : Revision T gone put t) (hs : s ∈ t.statements)
    (hr : t.remove s = .ok t') : Revision T (gone ++ [s]) put t' := by
  obtain ⟨owner, hr⟩ := h.toLinked.removal hr
  have howner : owner = T.root := by
    have hparent := hr.id_parent
    rw [h.parent?_of_mem_statements hs, h.root] at hparent
    exact (Option.some.inj hparent).symm
  subst howner
  obtain ⟨hsT, hsGone⟩ := h.mem_statements.mp hs
  have hnodup : (T.statements.filter (· ∉ gone)).Nodup := by
    rw [← h.statements, ← h.parts_root, ← h.root]
    exact h.parts_nodup h.root_isLive
  constructor
  case toLinked => exact hr.linked h.toLinked
  case root => exact hr.root.trans h.root
  case source => exact hr.source.trans h.source
  case program =>
    rw [hr.root, hr.content?, if_pos h.root, h.program]
    simp only [Option.map_some, Content.statementList?, Option.getD_some, Content.withStatements]
    rw [hnodup.erase_eq_filter, List.filter_filter]
    congr 2
    refine List.filter_congr fun y _ => ?_
    by_cases hy : y = s <;> simp [hy]
  case content? =>
    intro x hx
    rw [hr.content?, if_neg hx, h.content? hx]
  case parent? =>
    intro x
    rw [hr.parent?, h.parent?]
    by_cases hx : x = s <;> simp [hx]
  case place => exact fun x => (hr.place x).trans (h.place x)
  case extent => exact fun x => (hr.extent x).trans (h.extent x)
  case isLive_iff =>
    intro x
    rw [hr.isLive_iff]
    constructor
    · rintro ⟨hx, hb⟩
      obtain ⟨hlive, hgone, hput⟩ := (h.isLive_iff x).mp hx
      rw [h.below_iff hT hx] at hb
      refine ⟨hlive, fun g hg => ?_, hput⟩
      rcases List.mem_append.mp hg with hg | hg
      · exact hgone g hg
      · exact List.mem_singleton.mp hg ▸ hb
    · rintro ⟨hlive, hgone, hput⟩
      have hx : t.isLive x = true := (h.isLive_iff x).mpr
        ⟨hlive, fun g hg => hgone g (List.mem_append_left _ hg), hput⟩
      rw [h.below_iff hT hx]
      exact ⟨hx, hgone s (List.mem_append_right _ List.mem_cons_self)⟩
  case gone_mem =>
    intro g hg
    rcases List.mem_append.mp hg with hg | hg
    · exact h.gone_mem hg
    · exact List.mem_singleton.mp hg ▸ hsT
  case gone_nodup =>
    refine List.nodup_append.mpr ⟨h.gone_nodup, List.nodup_cons.mpr ⟨List.not_mem_nil, .nil⟩, ?_⟩
    intro g hg y hy hgy
    exact hsGone (List.mem_singleton.mp hy ▸ hgy ▸ hg)
  case put_isTerm => exact h.put_isTerm

theorem replace (hT : T.Built source []) (h : Revision T gone put t) {l : Literal}
    {content : Content} (hx : T.content? x = some content) (hterm : content.isTerm = true)
    (hr : t.replace x (.literal l) = .ok t') :
    Revision T gone (fun y => if y = x then some l else put y) t' := by
  have hr := h.toLinked.replacement hr
  have hne := ne_root_of_isTerm hT hx hterm
  constructor
  case toLinked => exact hr.linked h.toLinked
  case root => exact hr.root.trans h.root
  case source => exact hr.source.trans h.source
  case program =>
    rw [hr.root, hr.content?, if_neg (h.root ▸ Ne.symm hne), h.program]
  case content? =>
    intro y hy
    rw [hr.content?]
    by_cases hyx : y = x
    · rw [if_pos hyx, if_pos hyx]
      rfl
    · rw [if_neg hyx, if_neg hyx, h.content? hy]
  case parent? => exact fun y => (hr.parent? y).trans (h.parent? y)
  case place => exact fun y => (hr.place y).trans (h.place y)
  case extent => exact fun y => (hr.extent y).trans (h.extent y)
  case isLive_iff =>
    intro y
    rw [hr.isLive_iff]
    constructor
    · rintro ⟨hy, hb⟩
      obtain ⟨hlive, hgone, hput⟩ := (h.isLive_iff y).mp hy
      rw [h.strictlyBelow_iff hT hy] at hb
      refine ⟨hlive, hgone, fun r hsome => ?_⟩
      by_cases hrx : r = x
      · exact hrx ▸ hb
      · rw [if_neg hrx] at hsome
        exact hput r hsome
    · rintro ⟨hlive, hgone, hput⟩
      have hold (r : NodeId) (hsome : (put r).isSome = true) : ¬ T.StrictlyBelow r y := by
        refine hput r ?_
        split
        · rfl
        · exact hsome
      have hy := (h.isLive_iff y).mpr ⟨hlive, hgone, hold⟩
      rw [h.strictlyBelow_iff hT hy]
      exact ⟨hy, hput x (by rw [if_pos rfl]; rfl)⟩
  case gone_mem => exact h.gone_mem
  case gone_nodup => exact h.gone_nodup
  case put_isTerm =>
    intro y hy
    by_cases hyx : y = x
    · exact hyx ▸ ⟨content, hx, hterm⟩
    · rw [if_neg hyx] at hy
      exact h.put_isTerm hy

end Revision

/-- Edits of the kinds that make a revision make one. -/
theorem Edited.revision (hT : T.Built source []) (h : Edited T gone put t) :
    Revision T gone put t := by
  induction h with
  | start => exact .start hT
  | remove _ hs hr ih => exact ih.remove hT hs hr
  | replace _ hx hterm hr ih => exact ih.replace hT hx hterm hr

end Tree

end Flavoring
