import Flavoring.Proofs.Text.Deleting
import Flavoring.Proofs.Tree.Preorder
import Flavoring.Proofs.Tree.Revision

/-!
Layout: where the nodes of a tree stand in its text, and what is recorded when nodes are edited away.

Parts stand within what they are part of and in their order. A statement starts with something else
than space, so what goes along with a deleted statement never reaches into the next one.
-/

namespace Flavoring.Tree

open Text (IsCut IsSolid Blanks LineEndsAt bytes)

-- The extents of a tree that was read from its text.
structure Laid (T : Tree) : Prop where
  nonempty {x : NodeId} : T.isLive x = true → x ≠ T.root → (T.extent x).start < (T.extent x).stop
  isCut {x : NodeId} : T.isLive x = true → x ≠ T.root →
    IsCut T.source.toList (T.extent x).start ∧ IsCut T.source.toList (T.extent x).stop
  within {owner part : NodeId} : T.isLive owner = true → owner ≠ T.root → part ∈ T.parts owner →
    (T.extent owner).start ≤ (T.extent part).start ∧ (T.extent part).stop ≤ (T.extent owner).stop
  ordered {owner : NodeId} : T.isLive owner = true →
    (T.parts owner).Pairwise fun x y => (T.extent x).stop ≤ (T.extent y).start
  isSolid {s : NodeId} : s ∈ T.statements → IsSolid (bytes T.source.toList) (T.extent s).start
  term_last {x : NodeId} {content : Content} : T.isLive x = true → T.content? x = some content →
    content.isTerm = true → ∃ b, (bytes T.source.toList)[(T.extent x).stop - 1]? = some b ∧
      Text.isBlankByte b = false

variable {T t t' : Tree} {source : String} {gone : List NodeId} {put : NodeId → Option Literal}
  {x y p q s g owner : NodeId}

theorem Built.ne_root_of_mem_parts (hT : T.Built source []) (h : x ∈ T.parts owner) :
    x ≠ T.root := by
  have hpos := hT.part_pos h
  rw [hT.root_eq]
  exact Nat.ne_of_gt hpos

theorem Built.below_root (hT : T.Built source []) (hx : T.isLive x = true) : T.Below T.root x :=
  hT.toLinked.reachable_of_isLive hx

theorem Built.ne_root_of_mem_statements (hT : T.Built source []) (hs : s ∈ T.statements) :
    s ≠ T.root := by
  rw [← hT.parts_root] at hs
  exact hT.ne_root_of_mem_parts hs

theorem Built.isLive_of_mem_statements (hT : T.Built source []) (hs : s ∈ T.statements) :
    T.isLive s = true := by
  rw [← hT.parts_root] at hs
  exact hT.part_isLive hT.root_isLive hs

-- Every node but the root stands below a statement of the program.
theorem Built.exists_statement_above (hT : T.Built source []) (hx : T.isLive x = true)
    (hroot : x ≠ T.root) : ∃ s ∈ T.statements, T.Below s x := by
  have hreach : T.Below T.root x := hT.toLinked.reachable_of_isLive hx
  induction hreach with
  | refl => exact absurd rfl hroot
  | @part owner part hb hmem ih =>
    by_cases howner : owner = T.root
    · rw [howner, hT.parts_root] at hmem
      exact ⟨part, hmem, .refl⟩
    · have hlive := hT.toLinked.isLive_of_below hT.root_isLive hb
      obtain ⟨s, hs, hsb⟩ := ih hlive howner
      exact ⟨s, hs, hsb.part hmem⟩

-- Two nodes of which neither stands below the other are below different parts of some node.
theorem exists_fork (hx : T.Below p x) (hy : T.Below p y) :
    T.Below x y ∨ T.Below y x ∨
      ∃ owner a b, a ∈ T.parts owner ∧ b ∈ T.parts owner ∧ a ≠ b ∧ T.Below a x ∧ T.Below b y := by
  induction hx with
  | refl => exact Or.inl hy
  | @part owner x hb hmem ih =>
    rcases ih with howner | hyowner | ⟨top, a, b, ha, hb, hne, hax, hby⟩
    · rcases howner.cases_first with rfl | ⟨b, hbmem, hby⟩
      · exact Or.inr (Or.inl (.of_mem_parts hmem))
      · by_cases hbx : x = b
        · exact Or.inl (hbx ▸ hby)
        · exact Or.inr (Or.inr ⟨owner, x, b, hmem, hbmem, hbx, .refl, hby⟩)
    · exact Or.inr (Or.inl (hyowner.part hmem))
    · exact Or.inr (Or.inr ⟨top, a, b, ha, hb, hne, hax.part hmem, hby⟩)

namespace Laid

theorem start_lt_stop (hL : T.Laid) (hT : T.Built source []) (hs : s ∈ T.statements) :
    (T.extent s).start < (T.extent s).stop :=
  hL.nonempty (hT.isLive_of_mem_statements hs) (hT.ne_root_of_mem_statements hs)

theorem stop_le_length (hL : T.Laid) (hT : T.Built source []) (hs : s ∈ T.statements) :
    (T.extent s).stop ≤ (bytes T.source.toList).length := by
  rw [Text.length_bytes]
  exact (hL.isCut (hT.isLive_of_mem_statements hs) (hT.ne_root_of_mem_statements hs)).2.le

-- What stands below a node stands within it.
theorem within_below (hL : T.Laid) (hT : T.Built source []) (hp : T.isLive p = true)
    (hroot : p ≠ T.root) (h : T.Below p x) :
    (T.extent p).start ≤ (T.extent x).start ∧ (T.extent x).stop ≤ (T.extent p).stop := by
  induction h with
  | refl => exact ⟨Nat.le_refl _, Nat.le_refl _⟩
  | @part owner part hb hmem ih =>
    have hne : owner ≠ T.root := by
      cases hb with
      | refl => exact hroot
      | part _ hmem => exact hT.ne_root_of_mem_parts hmem
    have hown := hL.within (hT.toLinked.isLive_of_below hp hb) hne hmem
    omega

theorem within_of_below (hL : T.Laid) (hT : T.Built source []) (hs : s ∈ T.statements)
    (h : T.Below s x) :
    (T.extent s).start ≤ (T.extent x).start ∧ (T.extent x).stop ≤ (T.extent s).stop :=
  hL.within_below hT (hT.isLive_of_mem_statements hs) (hT.ne_root_of_mem_statements hs) h

-- Of two parts of a node one ends before the other starts.
theorem apart_of_mem_parts (hL : T.Laid) (howner : T.isLive owner = true)
    (hp : p ∈ T.parts owner) (hq : q ∈ T.parts owner) (hne : p ≠ q) :
    (T.extent p).stop ≤ (T.extent q).start ∨ (T.extent q).stop ≤ (T.extent p).start := by
  have hpairs := hL.ordered howner
  obtain ⟨front, back, hsplit⟩ := List.append_of_mem hp
  rw [hsplit, List.pairwise_append, List.pairwise_cons] at hpairs
  rw [hsplit] at hq
  rcases List.mem_append.mp hq with hfront | hback
  · exact Or.inr (hpairs.2.2 q hfront p List.mem_cons_self)
  · exact Or.inl (hpairs.2.1.1 q ((List.mem_cons.mp hback).resolve_left (Ne.symm hne)))

theorem apart (hL : T.Laid) (hT : T.Built source []) (hp : p ∈ T.statements)
    (hs : s ∈ T.statements) (hne : p ≠ s) :
    (T.extent p).stop ≤ (T.extent s).start ∨ (T.extent s).stop ≤ (T.extent p).start := by
  rw [← hT.parts_root] at hp hs
  exact hL.apart_of_mem_parts hT.root_isLive hp hs hne

theorem apart_of_unrelated (hL : T.Laid) (hT : T.Built source []) (hx : T.isLive x = true)
    (hy : T.isLive y = true) (hxy : ¬ T.Below x y) (hyx : ¬ T.Below y x) :
    (T.extent x).stop ≤ (T.extent y).start ∨ (T.extent y).stop ≤ (T.extent x).start := by
  obtain h | h | ⟨owner, a, b, ha, hb, hne, hax, hby⟩ :=
    exists_fork (hT.below_root hx) (hT.below_root hy)
  · exact absurd h hxy
  · exact absurd h hyx
  · have howner := hT.isLive_of_mem_parts ha
    have hain := hL.within_below hT (hT.part_isLive howner ha) (hT.ne_root_of_mem_parts ha) hax
    have hbin := hL.within_below hT (hT.part_isLive howner hb) (hT.ne_root_of_mem_parts hb) hby
    rcases hL.apart_of_mem_parts howner ha hb hne with h | h
    · exact Or.inl (by omega)
    · exact Or.inr (by omega)

-- A walk goes forward in the text: what it comes to later stands behind a node or below it.
theorem pairwise_walk (hL : T.Laid) (hT : T.Built source []) (follow : Node → Bool) (depth : Nat)
    (hx : T.isLive x = true) : (T.walk follow depth x).Pairwise fun y z =>
      T.Below y z ∨ (T.extent y).stop ≤ (T.extent z).start := by
  induction depth generalizing x with
  | zero => exact .nil
  | succ depth ih =>
    obtain ⟨node, hnode, -⟩ := isLive_iff.mp hx
    by_cases hfollow : follow node = true
    · rw [walk_succ_of_node? hnode hfollow, List.pairwise_cons, List.pairwise_flatMap]
      refine ⟨fun z hz => ?_, fun part hpart => ih (hT.part_isLive hx hpart), ?_⟩
      · obtain ⟨part, hpart, hz⟩ := List.mem_flatMap.mp hz
        exact Or.inl ((Below.of_mem_parts hpart).trans (below_of_mem_walk hz))
      · refine (hL.ordered hx).imp_of_mem fun {p q} hp hq hpq y hy z hz => Or.inr ?_
        have hyIn := hL.within_below hT (hT.part_isLive hx hp) (hT.ne_root_of_mem_parts hp)
          (below_of_mem_walk hy)
        have hzIn := hL.within_below hT (hT.part_isLive hx hq) (hT.ne_root_of_mem_parts hq)
          (below_of_mem_walk hz)
        omega
    · simp [walk, hnode, hfollow]

end Laid

/-! Deletions of statements -/

-- The extent that goes when a statement is taken out.
def deletionOf (T : Tree) (s : NodeId) : Extent := Text.deletion T.source (T.extent s)

namespace Laid

theorem widens (hL : T.Laid) (hT : T.Built source []) (hs : s ∈ T.statements) :
    Text.Widens (bytes T.source.toList) (T.extent s) (T.deletionOf s) :=
  Text.widens_deletionIn (Nat.le_of_lt (hL.start_lt_stop hT hs)) (hL.stop_le_length hT hs)

-- A deletion ends before the statements behind it and starts behind the starts of those before it.
theorem deletionOf_stop_le (hL : T.Laid) (hT : T.Built source []) (hp : p ∈ T.statements)
    (hs : s ∈ T.statements) (h : (T.extent p).stop ≤ (T.extent s).start) :
    (T.deletionOf p).stop ≤ (T.extent s).start :=
  (hL.widens hT hp).stop_le_of_isSolid h (hL.isSolid hs)

theorem lt_deletionOf_start (hL : T.Laid) (hT : T.Built source []) (hp : p ∈ T.statements)
    (hs : s ∈ T.statements) (h : (T.extent p).stop ≤ (T.extent s).start) :
    (T.extent p).start < (T.deletionOf s).start := by
  obtain ⟨b, hb, hblank⟩ := (hL.isSolid hp).not_blank
  have hlt := hL.start_lt_stop hT hp
  exact (hL.widens hT hs).lt_start (by omega) hb hblank

-- No deletion covers another one.
theorem not_contains_deletionOf (hL : T.Laid) (hT : T.Built source []) (hg : g ∈ T.statements)
    (hs : s ∈ T.statements) (hne : g ≠ s) :
    (T.deletionOf s).contains (T.deletionOf g) = false := by
  have hwide := hL.widens hT hg
  have hlt := hL.start_lt_stop hT hg
  have hstart := hwide.start_le
  have hstop := hwide.stop_le
  rw [Extent.contains, Bool.and_eq_false_iff, decide_eq_false_iff_not, decide_eq_false_iff_not]
  rcases hL.apart hT hg hs hne with h | h
  · have hbefore := hL.lt_deletionOf_start hT hg hs h
    omega
  · have hbehind := hL.deletionOf_stop_le hT hs hg h
    omega

-- Nor does anything below another statement.
theorem not_contains_of_below (hL : T.Laid) (hT : T.Built source []) (hg : g ∈ T.statements)
    (hs : s ∈ T.statements) (hne : g ≠ s) (hx : T.Below s x) :
    (T.extent x).contains (T.deletionOf g) = false := by
  have hwide := hL.widens hT hg
  have hlt := hL.start_lt_stop hT hg
  have hstart := hwide.start_le
  have hstop := hwide.stop_le
  have hwithin := hL.within_of_below hT hs hx
  rw [Extent.contains, Bool.and_eq_false_iff, decide_eq_false_iff_not, decide_eq_false_iff_not]
  rcases hL.apart hT hg hs hne with h | h <;> omega

-- The deletion of a statement covers all that stands below it.
theorem deletionOf_contains (hL : T.Laid) (hT : T.Built source []) (hs : s ∈ T.statements)
    (hx : T.Below s x) : (T.deletionOf s).contains (T.extent x) = true := by
  have hwide := hL.widens hT hs
  have hwithin := hL.within_of_below hT hs hx
  have hstart := hwide.start_le
  have hstop := hwide.stop_le
  rw [Extent.contains, Bool.and_eq_true, decide_eq_true_iff, decide_eq_true_iff]
  omega

end Laid

/-! Recorded edits -/

theorem not_contains_of_apart {a b : Extent} (h : a.stop ≤ b.start ∨ b.stop ≤ a.start)
    (hlt : b.start < b.stop) : a.contains b = false := by
  rw [Extent.contains, Bool.and_eq_false_iff, decide_eq_false_iff_not, decide_eq_false_iff_not]
  omega

theorem mem_record {e edit : Text.Edit} : e ∈ (t.record edit).edits ↔
    e ∈ t.edits ∧ edit.extent.contains e.extent = false ∨ e = edit := by
  simp [record]

-- An edit takes the place of those with its own extent.
theorem nodup_record (h : (t.edits.map (·.extent)).Nodup) (e : Text.Edit) :
    ((t.record e).edits.map (·.extent)).Nodup := by
  rw [record, List.map_append]
  refine List.Nodup.append (h.sublist (List.filter_sublist.map _)) (List.nodup_singleton _) ?_
  intro extent hold hnew
  obtain rfl := List.mem_singleton.mp hnew
  obtain ⟨e', he', heq⟩ := List.mem_map.mp hold
  have hkept := (List.mem_filter.mp he').2
  rw [heq] at hkept
  simp [Extent.contains] at hkept

-- A deletion covers nothing that may be replaced outside the deleted statement.
theorem Laid.deletionOf_not_contains (hL : T.Laid) (hT : T.Built source []) (hs : s ∈ T.statements)
    {content : Content} (hx : T.isLive x = true) (hcontent : T.content? x = some content)
    (hterm : content.isTerm = true) (hout : ¬ T.Below s x) :
    (T.deletionOf s).contains (T.extent x) = false := by
  have hroot := Revision.ne_root_of_isTerm hT hcontent hterm
  have hxlt := hL.nonempty hx hroot
  obtain ⟨r, hr, hrx⟩ := hT.exists_statement_above hx hroot
  have hwithin := hL.within_of_below hT hr hrx
  have hrs : r ≠ s := fun heq => hout (heq ▸ hrx)
  rw [Extent.contains, Bool.and_eq_false_iff, decide_eq_false_iff_not, decide_eq_false_iff_not]
  rcases hL.apart hT hr hs hrs with hbefore | hbehind
  · -- the last byte of the node is no blank
    obtain ⟨b, hb, hblank⟩ := hL.term_last hx hcontent hterm
    have hlast := (hL.widens hT hs).lt_start (by omega) hb hblank
    omega
  · have hstop := hL.deletionOf_stop_le hT hs hr hbehind
    omega

-- What a revised tree has recorded: all deletions, and what was put in the place of live nodes.
structure Recorded (T : Tree) (gone : List NodeId) (put : NodeId → Option Literal) (t : Tree) :
    Prop where
  deletion {g : NodeId} : g ∈ gone → ⟨T.deletionOf g, ""⟩ ∈ t.edits
  replacement {x : NodeId} {l : Literal} : put x = some l → t.isLive x = true →
    ⟨T.extent x, l.text⟩ ∈ t.edits
  edit {e : Text.Edit} : e ∈ t.edits → (∃ g ∈ gone, e = ⟨T.deletionOf g, ""⟩) ∨
    ∃ x l, put x = some l ∧ t.isLive x = true ∧ e = ⟨T.extent x, l.text⟩

namespace Recorded

theorem remove (hL : T.Laid) (hT : T.Built source []) (hrev : Revision T gone put t)
    (h : Recorded T gone put t) (hs : s ∈ t.statements) (hremove : t.remove s = .ok t') :
    Recorded T (gone ++ [s]) put t' := by
  obtain ⟨owner, hr⟩ := hrev.toLinked.removal hremove
  obtain ⟨hsT, hsGone⟩ := hrev.mem_statements.mp hs
  have hedits : t'.edits = (t.record ⟨T.deletionOf s, ""⟩).edits := by
    rw [hr.edits, hrev.source, hrev.extent]
    rfl
  constructor
  case deletion =>
    intro g hg
    rw [hedits, mem_record]
    dsimp only
    rcases List.mem_append.mp hg with hg | hg
    · have hne : g ≠ s := fun heq => hsGone (heq ▸ hg)
      exact Or.inl ⟨h.deletion hg, hL.not_contains_deletionOf hT (hrev.gone_mem hg) hsT hne⟩
    · exact Or.inr (by rw [List.mem_singleton.mp hg])
  case replacement =>
    intro x l hput hlive
    obtain ⟨hxlive, hout⟩ := (hr.isLive_iff x).mp hlive
    rw [hrev.below_iff hT hxlive] at hout
    obtain ⟨content, hcontent, hterm⟩ := hrev.put_isTerm (by rw [hput]; rfl)
    have hliveT := ((hrev.isLive_iff x).mp hxlive).1
    rw [hedits, mem_record]
    dsimp only
    exact Or.inl ⟨h.replacement hput hxlive,
      hL.deletionOf_not_contains hT hsT hliveT hcontent hterm hout⟩
  case edit =>
    intro e he
    rw [hedits, mem_record] at he
    rcases he with ⟨he, hkept⟩ | rfl
    · rcases h.edit he with ⟨g, hg, heq⟩ | ⟨x, l, hput, hlive, rfl⟩
      · exact Or.inl ⟨g, List.mem_append_left _ hg, heq⟩
      · refine Or.inr ⟨x, l, hput, (hr.isLive_iff x).mpr ⟨hlive, fun hsx => ?_⟩, rfl⟩
        rw [hL.deletionOf_contains hT hsT (hrev.below_of_below hT hsx)] at hkept
        cases hkept
    · exact Or.inl ⟨s, List.mem_append_right _ List.mem_cons_self, rfl⟩

theorem replace (hL : T.Laid) (hT : T.Built source []) (hrev : Revision T gone put t)
    (h : Recorded T gone put t) {l : Literal} {content : Content}
    (hy : T.content? y = some content) (hterm : content.isTerm = true)
    (hreplace : t.replace y (.literal l) = .ok t') :
    Recorded T gone (fun x => if x = y then some l else put x) t' := by
  have hr := hrev.toLinked.replacement hreplace
  obtain ⟨hyT, hyGone, hyPut⟩ := (hrev.isLive_iff y).mp hr.id_isLive
  have hyroot := Revision.ne_root_of_isTerm hT hy hterm
  have hedits : t'.edits = (t.record ⟨T.extent y, l.text⟩).edits := by
    obtain ⟨text, htext, hedits⟩ := hr.leaf
    cases htext
    rw [hedits, hrev.extent]
  constructor
  case deletion =>
    intro g hg
    rw [hedits, mem_record]
    dsimp only
    obtain ⟨s, hs, hsy⟩ := hT.exists_statement_above hyT hyroot
    have hgs : g ≠ s := fun heq => hyGone g hg (heq ▸ hsy)
    exact Or.inl ⟨h.deletion hg, hL.not_contains_of_below hT (hrev.gone_mem hg) hs hgs hsy⟩
  case replacement =>
    intro x l' hput hlive
    rw [hedits, mem_record]
    by_cases hxy : x = y
    · subst hxy
      rw [if_pos rfl, Option.some.injEq] at hput
      exact Or.inr (by rw [hput])
    · rw [if_neg hxy] at hput
      obtain ⟨hxlive, hout⟩ := (hr.isLive_iff x).mp hlive
      rw [hrev.strictlyBelow_iff hT hxlive] at hout
      obtain ⟨term, hxterm, hisTerm⟩ := hrev.put_isTerm (by rw [hput]; rfl)
      have hliveT := ((hrev.isLive_iff x).mp hxlive).1
      refine Or.inl ⟨h.replacement hput hxlive, ?_⟩
      -- neither of the two stands below the other
      have hyx : ¬ T.Below y x := fun hb => hout (hb.cases_first.resolve_left hxy)
      have hxb : ¬ T.Below x y := fun hb =>
        hyPut x (by rw [hput]; rfl) (hb.cases_first.resolve_left (Ne.symm hxy))
      exact not_contains_of_apart (hL.apart_of_unrelated hT hyT hliveT hyx hxb)
        (hL.nonempty hliveT (Revision.ne_root_of_isTerm hT hxterm hisTerm))
  case edit =>
    intro e he
    rw [hedits, mem_record] at he
    rcases he with ⟨he, hkept⟩ | rfl
    · rcases h.edit he with hdeletion | ⟨x, l', hput, hlive, rfl⟩
      · exact Or.inl hdeletion
      · -- an earlier edit of the same node, or of one below it, is covered
        have hxy : x ≠ y := by
          rintro rfl
          simp [Extent.contains] at hkept
        refine Or.inr ⟨x, l', (if_neg hxy).trans hput,
          (hr.isLive_iff x).mpr ⟨hlive, fun hyx => ?_⟩, rfl⟩
        obtain ⟨part, hpart, hb⟩ := (hrev.strictlyBelow_iff hT hlive).mp hyx
        have hin := hL.within_below hT hyT hyroot ((Below.of_mem_parts hpart).trans hb)
        rw [Extent.contains, Bool.and_eq_false_iff, decide_eq_false_iff_not,
          decide_eq_false_iff_not] at hkept
        dsimp only at hkept
        omega
    · refine Or.inr ⟨y, l, if_pos rfl, (hr.isLive_iff y).mpr ⟨hr.id_isLive, ?_⟩, rfl⟩
      rintro ⟨part, hpart, hb⟩
      exact hrev.not_below_owner hpart hb

end Recorded

theorem Edited.recorded (hL : T.Laid) (hT : T.Built source []) (h : Edited T gone put t) :
    Recorded T gone put t := by
  induction h with
  | start => exact ⟨nofun, nofun, fun he => by rw [hT.edits_eq] at he; cases he⟩
  | remove he hs hr ih => exact ih.remove hL hT (he.revision hT) hs hr
  | replace he hx hterm hr ih => exact ih.replace hL hT (he.revision hT) hx hterm hr

theorem Edited.nodup_extents (hT : T.Built source []) (h : Edited T gone put t) :
    (t.edits.map (·.extent)).Nodup := by
  induction h with
  | start =>
    rw [hT.edits_eq]
    exact List.nodup_nil
  | remove h _ hremove ih =>
    obtain ⟨owner, hr⟩ := (h.revision hT).toLinked.removal hremove
    rw [hr.edits]
    exact nodup_record ih _
  | replace h _ _ hreplace ih =>
    obtain ⟨text, -, hedits⟩ := ((h.revision hT).toLinked.replacement hreplace).leaf
    rw [hedits]
    exact nodup_record ih _

end Flavoring.Tree
