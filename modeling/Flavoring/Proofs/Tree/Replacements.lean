import Flavoring.Proofs.Tree.Outlines
import Flavoring.Proofs.Tree.Printing
import Flavoring.Proofs.Tree.Runs

/-!
Replacements: what was put in the place of a node is printed there, as long as the node is live.

Edits supersede each other by their extents and not by the nodes they belong to. A live node that was
replaced is a leaf, so whatever is changed after it stands apart from it or takes it away. The space
that goes along with a removed statement lies in no node that the statement does not stand in.
-/

namespace Flavoring.Tree

variable {T t t' : Tree} {source : String} {replaced : List NodeId} {x y p q s owner : NodeId}
  {i : Nat} {e : Text.Edit} {content : Content}

/-! Space beside statements -/

-- A list of statements names `s`.
def IsListed (T : Tree) (s : NodeId) : Prop :=
  ∃ owner content list, T.content? owner = some content ∧ content.statementList? = some list ∧
    s ∈ list

def Covers (T : Tree) (x : NodeId) (i : Nat) : Prop :=
  (T.extent x).start ≤ i ∧ i < (T.extent x).stop

-- The byte at `i` goes along with `s` when that is taken out, and is not of its own text.
def Beside (T : Tree) (s : NodeId) (i : Nat) : Prop :=
  (T.deletionOf s).start ≤ i ∧ i < (T.deletionOf s).stop ∧ ¬ T.Covers s i

-- What goes along with a statement lies in all that the statement stands in, and in no other node.
def Spaced (T : Tree) : Prop :=
  ∀ s x i, T.IsListed s → T.isLive x = true → x ≠ s → T.Beside s i → (T.Covers x i ↔ T.Below x s)

instance (T : Tree) (x : NodeId) (i : Nat) : Decidable (T.Covers x i) :=
  inferInstanceAs (Decidable (_ ∧ _))

theorem IsListed.exists_owner (h : T.IsListed s) : ∃ owner, s ∈ T.parts owner := by
  obtain ⟨owner, content, list, hcontent, hlist, hmem⟩ := h
  refine ⟨owner, ?_⟩
  rw [parts_of_content? hcontent, Content.children_of_statementList? hlist]
  exact hmem

theorem Built.isLive_of_isListed (hT : T.Built source []) (hs : T.IsListed s) :
    T.isLive s = true := by
  obtain ⟨owner, hmem⟩ := hs.exists_owner
  exact hT.part_isLive (hT.isLive_of_mem_parts hmem) hmem

/-! Checking the space beside statements -/

-- The statements that a node lists, and the bytes beside one of them.
def listOf (T : Tree) (owner : NodeId) : List NodeId :=
  ((T.content? owner).bind (·.statementList?)).getD []

def bytesBeside (T : Tree) (s : NodeId) : List Nat :=
  (List.range (T.deletionOf s).stop).filter fun i =>
    decide ((T.deletionOf s).start ≤ i) && !decide (T.Covers s i)

def isSpaced (T : Tree) : Bool :=
  (List.range T.nodes.size).all fun owner => (T.listOf owner).all fun s =>
    (T.bytesBeside s).all fun i => (List.range T.nodes.size).all fun x =>
      x == s || decide (T.Covers x i) ==
        (x == T.root || (T.walk (fun _ => true) T.nodes.size x).contains s)

theorem IsListed.exists_listOf (h : T.IsListed s) : ∃ owner < T.nodes.size, s ∈ T.listOf owner := by
  obtain ⟨owner, hmem⟩ := h.exists_owner
  obtain ⟨owner, content, list, hcontent, hlist, hmem⟩ := h
  obtain ⟨node, hnode, -⟩ := content?_eq_some hcontent
  refine ⟨owner, node?_isSome_iff.mp (by rw [hnode]; rfl), ?_⟩
  rw [listOf, hcontent, Option.bind_some, hlist]
  exact hmem

theorem mem_bytesBeside (h : T.Beside s i) : i ∈ T.bytesBeside s := by
  obtain ⟨hstart, hstop, hout⟩ := h
  simp [bytesBeside, hstart, hstop, hout]

theorem spaced_of_isSpaced (hT : T.Built source []) (h : T.isSpaced = true) : T.Spaced := by
  intro s x i hs hx hne hbeside
  obtain ⟨owner, howner, hmem⟩ := hs.exists_listOf
  simp only [isSpaced, List.all_eq_true, List.mem_range] at h
  have hcheck := h owner howner s hmem i (mem_bytesBeside hbeside) x (lt_size_of_isLive hx)
  have hwalk : (x == T.root || (T.walk (fun _ => true) T.nodes.size x).contains s) = true ↔
      T.Below x s := by
    by_cases hroot : x = T.root
    · subst hroot
      simp [hT.below_root (hT.isLive_of_isListed hs)]
    · have hpos : 0 < x := Nat.pos_of_ne_zero (hT.root_eq ▸ hroot)
      simp [hroot, mem_walk_all_iff hT.toDescending hpos (lt_size_of_isLive hx)]
  rw [beq_eq_false_iff_ne.mpr hne, Bool.false_or, beq_iff_eq] at hcheck
  rw [← hwalk, ← hcheck, decide_eq_true_iff]

section spaced

variable (hL : T.Laid) (hT : T.Built source [])
  (hroot : T.extent T.root = ⟨0, Text.byteLength T.source.toList⟩) (hS : T.Spaced)

include hL hT in
theorem Laid.start_lt_stop_of_isListed (hs : T.IsListed s) :
    (T.extent s).start < (T.extent s).stop := by
  obtain ⟨owner, hmem⟩ := hs.exists_owner
  exact hL.nonempty (hT.isLive_of_isListed hs) (hT.ne_root_of_mem_parts hmem)

include hL hT in
theorem Laid.widens_of_isListed (hs : T.IsListed s) :
    Text.Widens (Text.bytes T.source.toList) (T.extent s) (T.deletionOf s) := by
  obtain ⟨owner, hmem⟩ := hs.exists_owner
  have hlt := hL.start_lt_stop_of_isListed hT hs
  have hcut := (hL.isCut (hT.isLive_of_isListed hs) (hT.ne_root_of_mem_parts hmem)).2
  apply Text.widens_deletionIn (Nat.le_of_lt hlt)
  rw [Text.length_bytes]
  exact hcut.le

include hL hT hroot

-- A node covers all that stands below it, and the program the whole text.
theorem Laid.contains_of_below (hx : T.isLive x = true) (h : T.Below x y) :
    (T.extent x).contains (T.extent y) = true := by
  rw [Extent.contains, Bool.and_eq_true, decide_eq_true_iff, decide_eq_true_iff]
  by_cases hxroot : x = T.root
  · subst hxroot
    rw [hroot]
    by_cases hyroot : y = T.root
    · rw [hyroot, hroot]
      exact ⟨Nat.le_refl _, Nat.le_refl _⟩
    · have hcut := hL.isCut (hT.toLinked.isLive_of_below hx h) hyroot
      exact ⟨Nat.zero_le _, hcut.2.le⟩
  · exact hL.within_below hT hx hxroot h

include hS

-- It also covers what goes along with a statement below it.
theorem Laid.contains_deletionOf (hx : T.isLive x = true) (hs : T.IsListed s) (h : T.Below x s)
    (hne : x ≠ s) : (T.extent x).contains (T.deletionOf s) = true := by
  have hlt := hL.start_lt_stop_of_isListed hT hs
  have hwide := hL.widens_of_isListed hT hs
  have hstart := hwide.start_le
  have hstop := hwide.stop_le
  have hcover (i : Nat) (hi : (T.deletionOf s).start ≤ i) (hi' : i < (T.deletionOf s).stop) :
      T.Covers x i := by
    by_cases hown : T.Covers s i
    · have hin := hL.contains_of_below hT hroot hx h
      rw [Extent.contains, Bool.and_eq_true, decide_eq_true_iff, decide_eq_true_iff] at hin
      obtain ⟨hsi, his⟩ := hown
      exact ⟨by omega, by omega⟩
    · exact (hS s x i hs hx hne ⟨hi, hi', hown⟩).mpr h
  have hfirst := hcover (T.deletionOf s).start (Nat.le_refl _) (by omega)
  have hlast := hcover ((T.deletionOf s).stop - 1) (by omega) (by omega)
  rw [Extent.contains, Bool.and_eq_true, decide_eq_true_iff, decide_eq_true_iff]
  exact ⟨hfirst.1, Nat.le_of_pred_lt hlast.2⟩

omit hroot in
-- A node that is neither above nor below a statement stands apart from all that goes with it.
theorem Laid.apart_deletionOf (hx : T.isLive x = true) (hs : T.IsListed s) (hxs : ¬ T.Below x s)
    (hsx : ¬ T.Below s x) :
    (T.extent x).stop ≤ (T.deletionOf s).start ∨ (T.deletionOf s).stop ≤ (T.extent x).start := by
  have hslive := hT.isLive_of_isListed hs
  have hxroot : x ≠ T.root := fun heq => hxs (heq ▸ hT.below_root hslive)
  have hxlt := hL.nonempty hx hxroot
  have hne : x ≠ s := fun heq => hxs (heq ▸ .refl)
  have hclear (i : Nat) (hi : T.Beside s i) : ¬ T.Covers x i := fun hcover =>
    hxs ((hS s x i hs hx hne hi).mp hcover)
  have hslt := hL.start_lt_stop_of_isListed hT hs
  have hwide := hL.widens_of_isListed hT hs
  have hstart := hwide.start_le
  have hstop := hwide.stop_le
  rcases hL.apart_of_unrelated hT hx hslive hxs hsx with hbefore | hbehind
  · left
    by_contra hover
    -- the first byte that both would have stands before the statement
    have hbyte := hclear (max (T.deletionOf s).start (T.extent x).start)
      ⟨by omega, by omega, fun hcover => by have := hcover.1; omega⟩
    exact hbyte ⟨by omega, by omega⟩
  · right
    by_contra hover
    have hbyte := hclear (T.extent x).start
      ⟨by omega, by omega, fun hcover => by have := hcover.2; omega⟩
    exact hbyte ⟨by omega, by omega⟩

end spaced

/-! Runs of changes that are all made -/

-- The tree after changes that all succeed.
def changeAll (t : Tree) (changes : List Change) : Except Fault Tree := changes.foldlM change t

theorem changeAll_cons {c : Change} {changes : List Change} (h : t.changeAll (c :: changes) = .ok t') :
    ∃ u, t.change c = .ok u ∧ u.changeAll changes = .ok t' := by
  rw [changeAll, List.foldlM_cons] at h
  cases hc : t.change c with
  | error fault =>
    rw [hc] at h
    cases h
  | ok u =>
    rw [hc] at h
    exact ⟨u, rfl, h⟩

-- What a change leaves as it is: where nodes stand, and under which parents the live ones do.
structure Descends (T t : Tree) : Prop extends Linked t [] where
  root : t.root = T.root
  source : t.source = T.source
  extent (x : NodeId) : t.extent x = T.extent x
  isLive {x : NodeId} : t.isLive x = true → T.isLive x = true
  parent? {x : NodeId} : t.isLive x = true → t.parent? x = T.parent? x
  parts_subset (x : NodeId) : t.parts x ⊆ T.parts x
  isListed {s : NodeId} : t.IsListed s → T.IsListed s

namespace Descends

theorem start (hT : T.Built source []) : Descends T T :=
  ⟨hT.toLinked, rfl, rfl, fun _ => rfl, id, fun _ => rfl, fun _ _ h => h, id⟩

theorem removal (h : Descends T t) (hr : Removal t s owner t') : Descends T t' := by
  constructor
  case toLinked => exact hr.linked h.toLinked
  case root => exact hr.root.trans h.root
  case source => exact hr.source.trans h.source
  case extent => exact fun x => (hr.extent x).trans (h.extent x)
  case isLive => exact fun hx => h.isLive ((hr.isLive_iff _).mp hx).1
  case parent? =>
    intro x hx
    obtain ⟨hlive, hout⟩ := (hr.isLive_iff x).mp hx
    have hne : x ≠ s := fun heq => hout (heq ▸ .refl)
    rw [hr.parent? x, if_neg hne, h.parent? hlive]
  case parts_subset =>
    intro x y hy
    rw [hr.parts x] at hy
    apply h.parts_subset x
    split at hy
    · exact List.mem_of_mem_erase hy
    · exact hy
  case isListed =>
    rintro y ⟨o, content, list, hcontent, hlist, hmem⟩
    apply h.isListed
    rw [hr.content? o] at hcontent
    by_cases ho : o = owner
    · -- the owner's list has only lost the statement
      subst ho
      obtain ⟨old, oldList, hold, holdList, -⟩ := hr.listed
      rw [if_pos rfl, hold, Option.map_some, Option.some.injEq] at hcontent
      refine ⟨o, old, oldList, hold, holdList, ?_⟩
      rw [holdList, Option.getD_some] at hcontent
      have hchildren : content.children = oldList.erase s := by
        rw [← hcontent, Content.children_withStatements holdList]
      rw [Content.children_of_statementList? hlist] at hchildren
      rw [hchildren] at hmem
      exact List.mem_of_mem_erase hmem
    · rw [if_neg ho] at hcontent
      exact ⟨o, content, list, hcontent, hlist, hmem⟩

theorem replacement (h : Descends T t) (hr : Replacement t y content t') : Descends T t' := by
  constructor
  case toLinked => exact hr.linked h.toLinked
  case root => exact hr.root.trans h.root
  case source => exact hr.source.trans h.source
  case extent => exact fun x => (hr.extent x).trans (h.extent x)
  case isLive => exact fun hx => h.isLive ((hr.isLive_iff _).mp hx).1
  case parent? => exact fun hx => (hr.parent? _).trans (h.parent? ((hr.isLive_iff _).mp hx).1)
  case parts_subset =>
    intro x z hz
    rw [hr.parts x] at hz
    split at hz
    · cases hz
    · exact h.parts_subset x hz
  case isListed =>
    rintro z ⟨o, content', list, hcontent, hlist, hmem⟩
    apply h.isListed
    rw [hr.content? o] at hcontent
    by_cases ho : o = y
    · rw [if_pos ho, Option.some.injEq] at hcontent
      subst hcontent
      obtain ⟨text, htext, -⟩ := hr.leaf
      have hnil := Content.children_of_leafText? htext
      rw [Content.children_of_statementList? hlist] at hnil
      rw [hnil] at hmem
      cases hmem
    · rw [if_neg ho] at hcontent
      exact ⟨o, content', list, hcontent, hlist, hmem⟩

theorem below (h : Descends T t) (hxy : t.Below x y) : T.Below x y := by
  induction hxy with
  | refl => exact .refl
  | part _ hmem ih => exact ih.part (h.parts_subset _ hmem)

-- All that a live node stood in is live, and the node still stands in it.
theorem above (hT : T.Built source []) (h : Descends T t) (hy : t.isLive y = true)
    (hxy : T.Below x y) : t.isLive x = true ∧ t.Below x y := by
  induction hxy with
  | refl => exact ⟨hy, .refl⟩
  | @part owner y hb hmem ih =>
    have hparent := hT.part_parent (hT.isLive_of_mem_parts hmem) hmem
    rw [← h.parent? hy] at hparent
    obtain ⟨howner, hlisted⟩ := h.toLinked.owner_of_parent? hy hparent
    obtain ⟨hx, hbelow⟩ := ih howner
    exact ⟨hx, hbelow.part hlisted⟩

end Descends

-- Tree and edits agree: each live node that was replaced is a leaf with its edit, and every other
-- edit is that of a removed statement which stands in none of these nodes.
structure Agrees (T : Tree) (replaced : List NodeId) (t : Tree) : Prop extends Descends T t where
  leaf {x : NodeId} : x ∈ replaced → t.isLive x = true → ∃ content text,
    t.content? x = some content ∧ content.leafText? = some text ∧ ⟨T.extent x, text⟩ ∈ t.edits
  edit {e : Text.Edit} : e ∈ t.edits →
    (∃ x ∈ replaced, t.isLive x = true ∧ e.extent = T.extent x) ∨
      ∃ s, T.IsListed s ∧ t.isLive s = false ∧ e.extent = T.deletionOf s ∧
        ∀ x ∈ replaced, t.isLive x = true → ¬ T.Below x s
  nodup : (t.edits.map (·.extent)).Nodup

theorem filter_extent_eq_singleton {edits : List Text.Edit} (h : (edits.map (·.extent)).Nodup)
    (he : e ∈ edits) : edits.filter (fun e' => e'.extent = e.extent) = [e] := by
  obtain ⟨front, back, rfl⟩ := List.append_of_mem he
  rw [List.map_append, List.map_cons] at h
  have hmiddle := List.nodup_middle.mp h
  rw [List.nodup_cons, List.mem_append, not_or] at hmiddle
  obtain ⟨⟨hfront, hback⟩, -⟩ := hmiddle
  have hnone (es : List Text.Edit) (hes : e.extent ∉ es.map (·.extent)) :
      es.filter (fun e' => e'.extent = e.extent) = [] := by
    refine List.filter_eq_nil_iff.mpr fun e' he' heq => hes ?_
    exact List.mem_map.mpr ⟨e', he', of_decide_eq_true heq⟩
  have hself : (e :: back).filter (fun e' => e'.extent = e.extent) =
      e :: back.filter (fun e' => e'.extent = e.extent) := List.filter_cons_of_pos (by simp)
  rw [List.filter_append, hself, hnone front hfront, hnone back hback, List.nil_append]

namespace Agrees

theorem start (hT : T.Built source []) : Agrees T [] T := by
  refine ⟨.start hT, nofun, fun he => ?_, ?_⟩
  · rw [hT.edits_eq] at he
    cases he
  · rw [hT.edits_eq]
    exact List.nodup_nil

-- Nothing live stands below a live node that was replaced.
theorem not_below (hT : T.Built source []) (h : Agrees T replaced t) (hx : x ∈ replaced)
    (hxlive : t.isLive x = true) (hylive : t.isLive y = true) (hne : y ≠ x) : ¬ T.Below x y := by
  intro hxy
  obtain ⟨content, text, hcontent, htext, -⟩ := h.leaf hx hxlive
  rcases (h.above hT hylive hxy).2.cases_first with heq | ⟨part, hpart, -⟩
  · exact hne heq
  · rw [parts_of_content? hcontent, Content.children_of_leafText? htext] at hpart
    cases hpart

section step

variable (hL : T.Laid) (hT : T.Built source [])
  (hroot : T.extent T.root = ⟨0, Text.byteLength T.source.toList⟩) (hS : T.Spaced)

include hL hT hS

theorem remove (h : Agrees T replaced t) (hr : t.remove s = .ok t') : Agrees T replaced t' := by
  obtain ⟨owner, hr⟩ := h.toLinked.removal hr
  have hlisted : T.IsListed s := by
    obtain ⟨content, list, hcontent, hlist, hmem⟩ := hr.listed
    exact h.isListed ⟨owner, content, list, hcontent, hlist, hmem⟩
  have hedits : t'.edits = (t.record ⟨T.deletionOf s, ""⟩).edits := by
    rw [hr.edits, h.source, h.extent]
    rfl
  -- a replaced node that stays is not above the statement
  have hclear (x : NodeId) (hx : x ∈ replaced) (hlive : t'.isLive x = true) : ¬ T.Below x s := by
    obtain ⟨hxlive, hout⟩ := (hr.isLive_iff x).mp hlive
    exact h.not_below hT hx hxlive hr.id_isLive fun heq => hout (heq ▸ .refl)
  refine ⟨h.toDescends.removal hr, ?_, ?_, ?_⟩
  case refine_1 =>
    intro x hx hlive
    obtain ⟨hxlive, hout⟩ := (hr.isLive_iff x).mp hlive
    obtain ⟨content, text, hcontent, htext, hmem⟩ := h.leaf hx hxlive
    have hxowner : x ≠ owner := by
      rintro rfl
      have hpart := hr.mem_parts
      rw [parts_of_content? hcontent, Content.children_of_leafText? htext] at hpart
      cases hpart
    refine ⟨content, text, by rw [hr.content? x, if_neg hxowner, hcontent], htext, ?_⟩
    rw [hedits, mem_record]
    refine Or.inl ⟨hmem, ?_⟩
    have hxs := hclear x hx hlive
    have hsx : ¬ T.Below s x := fun hb => hout (h.above hT hxlive hb).2
    have hxroot : x ≠ T.root := fun heq => hxs (heq ▸ hT.below_root (hT.isLive_of_isListed hlisted))
    have hapart := hL.apart_deletionOf hT hS (h.isLive hxlive) hlisted hxs hsx
    exact not_contains_of_apart hapart.symm (hL.nonempty (h.isLive hxlive) hxroot)
  case refine_2 =>
    intro e he
    rw [hedits, mem_record] at he
    rcases he with ⟨he, hkept⟩ | rfl
    · rcases h.edit he with ⟨x, hx, hxlive, hext⟩ | ⟨g, hg, hdead, hext, hout⟩
      · refine Or.inl ⟨x, hx, (hr.isLive_iff x).mpr ⟨hxlive, fun hsx => ?_⟩, hext⟩
        -- what stood below the statement is covered by its deletion
        have hwide := hL.widens_of_isListed hT hlisted
        have hstart := hwide.start_le
        have hstop := hwide.stop_le
        obtain ⟨o, hpart⟩ := hlisted.exists_owner
        have hin := hL.within_below hT (hT.isLive_of_isListed hlisted)
          (hT.ne_root_of_mem_parts hpart) (h.below hsx)
        rw [hext, Extent.contains, Bool.and_eq_false_iff, decide_eq_false_iff_not,
          decide_eq_false_iff_not] at hkept
        dsimp only at hkept
        omega
      · refine Or.inr ⟨g, hg, ?_, hext, fun x hx hlive => hout x hx ((hr.isLive_iff x).mp hlive).1⟩
        rw [Bool.eq_false_iff] at hdead ⊢
        exact fun hlive => hdead ((hr.isLive_iff g).mp hlive).1
    · refine Or.inr ⟨s, hlisted, ?_, rfl, hclear⟩
      rw [Bool.eq_false_iff]
      exact fun hlive => ((hr.isLive_iff s).mp hlive).2 .refl
  case refine_3 =>
    rw [hedits]
    exact nodup_record h.nodup _

include hroot

theorem replace (h : Agrees T replaced t) (hr : t.replace y content = .ok t') :
    Agrees T (y :: replaced) t' := by
  have hr := h.toLinked.replacement hr
  obtain ⟨newText, hleaf, hedits⟩ := hr.leaf
  rw [h.extent] at hedits
  have hylive := h.isLive hr.id_isLive
  have hystays : t'.isLive y = true := by
    refine (hr.isLive_iff y).mpr ⟨hr.id_isLive, ?_⟩
    rintro ⟨part, hpart, hb⟩
    exact h.toLinked.not_below_owner hpart hb
  refine ⟨h.toDescends.replacement hr, ?_, ?_, ?_⟩
  case refine_1 =>
    intro x hx hlive
    by_cases hxy : x = y
    · subst hxy
      refine ⟨content, newText, by rw [hr.content? x, if_pos rfl], hleaf, ?_⟩
      rw [hedits, mem_record]
      exact Or.inr rfl
    · have hx := (List.mem_cons.mp hx).resolve_left hxy
      obtain ⟨hxlive, hout⟩ := (hr.isLive_iff x).mp hlive
      obtain ⟨old, text, hold, htext, hmem⟩ := h.leaf hx hxlive
      refine ⟨old, text, by rw [hr.content? x, if_neg hxy, hold], htext, ?_⟩
      rw [hedits, mem_record]
      refine Or.inl ⟨hmem, ?_⟩
      have hxbelow := h.not_below hT hx hxlive hr.id_isLive (Ne.symm hxy)
      have hybelow : ¬ T.Below y x := by
        intro hb
        rcases (h.above hT hxlive hb).2.cases_first with heq | hstrict
        · exact hxy heq
        · exact hout hstrict
      have hxroot : x ≠ T.root := fun heq => hxbelow (heq ▸ hT.below_root hylive)
      have hapart := hL.apart_of_unrelated hT hylive (h.isLive hxlive) hybelow hxbelow
      exact not_contains_of_apart hapart (hL.nonempty (h.isLive hxlive) hxroot)
  case refine_2 =>
    intro e he
    rw [hedits, mem_record] at he
    rcases he with ⟨he, hkept⟩ | rfl
    · rcases h.edit he with ⟨x, hx, hxlive, hext⟩ | ⟨g, hg, hdead, hext, hout⟩
      · refine Or.inl ⟨x, List.mem_cons_of_mem y hx, ?_, hext⟩
        refine (hr.isLive_iff x).mpr ⟨hxlive, fun ⟨part, hpart, hb⟩ => ?_⟩
        have hbelow := h.below ((Below.of_mem_parts hpart).trans hb)
        rw [hext, hL.contains_of_below hT hroot hylive hbelow] at hkept
        cases hkept
      · have hgy : y ≠ g := by
          rintro rfl
          rw [hr.id_isLive] at hdead
          cases hdead
        refine Or.inr ⟨g, hg, ?_, hext, fun x hx hlive => ?_⟩
        · rw [Bool.eq_false_iff] at hdead ⊢
          exact fun hlive => hdead ((hr.isLive_iff g).mp hlive).1
        · rcases List.mem_cons.mp hx with rfl | hx
          · intro hb
            rw [hext, hL.contains_deletionOf hT hroot hS hylive hg hb hgy] at hkept
            cases hkept
          · exact hout x hx ((hr.isLive_iff x).mp hlive).1
    · exact Or.inl ⟨y, List.mem_cons_self, hystays, rfl⟩
  case refine_3 =>
    rw [hedits]
    exact nodup_record h.nodup _

-- What one change keeps, a whole run keeps.
theorem changeAll {changes : List Change} (h : Agrees T replaced t)
    (hrun : t.changeAll changes = .ok t') :
    ∃ replaced', Agrees T replaced' t' ∧ replaced ⊆ replaced' ∧
      ∀ x content, Change.replace x content ∈ changes → x ∈ replaced' := by
  induction changes generalizing t replaced with
  | nil =>
    cases hrun
    exact ⟨replaced, h, fun _ hx => hx, nofun⟩
  | cons c changes ih =>
    obtain ⟨u, hc, hrest⟩ := changeAll_cons hrun
    cases c with
    | remove s =>
      obtain ⟨replaced', h', hsub, hmem⟩ := ih (h.remove hL hT hS hc) hrest
      refine ⟨replaced', h', hsub, fun x content hx => hmem x content ?_⟩
      exact (List.mem_cons.mp hx).resolve_left nofun
    | replace y content =>
      obtain ⟨replaced', h', hsub, hmem⟩ := ih (h.replace hL hT hroot hS hc) hrest
      refine ⟨replaced', h', fun x hx => hsub (List.mem_cons_of_mem y hx), fun x content' hx => ?_⟩
      rcases List.mem_cons.mp hx with heq | hx
      · cases heq
        exact hsub List.mem_cons_self
      · exact hmem x content' hx

-- The edit of a live node that was replaced overlaps no other one.
theorem mem_applied {text : String} (h : Agrees T replaced t) (hx : x ∈ replaced)
    (hlive : t.isLive x = true) (hmem : ⟨T.extent x, text⟩ ∈ t.edits) :
    ⟨T.extent x, text⟩ ∈ t.applied := by
  have hxlive := h.isLive hlive
  have hfits : (T.extent x).start ≤ (T.extent x).stop ∧
      Text.IsCut T.source.toList (T.extent x).start ∧
      Text.IsCut T.source.toList (T.extent x).stop := by
    by_cases hxroot : x = T.root
    · rw [hxroot, hroot]
      exact ⟨Nat.zero_le _, Text.IsCut.zero _, Text.IsCut.all _⟩
    · exact ⟨Nat.le_of_lt (hL.nonempty hxlive hxroot), hL.isCut hxlive hxroot⟩
  unfold Tree.applied
  rw [h.source]
  refine Text.mem_applied hmem ⟨Nat.zero_le _, hfits⟩ fun e he hne hle => ?_
  have hapart : e.extent.stop ≤ (T.extent x).start ∨ (T.extent x).stop ≤ e.extent.start ∧
      (T.extent x).start < (T.extent x).stop := by
    rcases h.edit he with ⟨y, hy, hylive, hext⟩ | ⟨s, hs, hdead, hext, hout⟩
    · have hxy : y ≠ x := by
        rintro rfl
        exact hne (List.inj_on_of_nodup_map h.nodup he hmem hext)
      have hxbelow := h.not_below hT hx hlive hylive hxy
      have hybelow := h.not_below hT hy hylive hlive (Ne.symm hxy)
      have hxroot : x ≠ T.root := fun heq => hxbelow (heq ▸ hT.below_root (h.isLive hylive))
      rw [hext]
      exact (hL.apart_of_unrelated hT (h.isLive hylive) hxlive hybelow hxbelow).imp_right
        fun hle => ⟨hle, hL.nonempty hxlive hxroot⟩
    · have hxs := hout x hx hlive
      have hsx : ¬ T.Below s x := by
        intro hb
        rw [(h.above hT hlive hb).1] at hdead
        cases hdead
      have hxroot : x ≠ T.root := fun heq => hxs (heq ▸ hT.below_root (hT.isLive_of_isListed hs))
      rw [hext]
      exact (hL.apart_deletionOf hT hS hxlive hs hxs hsx).symm.imp_right
        fun hle => ⟨hle, hL.nonempty hxlive hxroot⟩
  have hle : e.extent.start ≤ (T.extent x).start := hle
  show e.extent.stop ≤ (T.extent x).start
  omega

end step

end Agrees

-- Around an applied edit the printed text is what the edits before and behind it make of the source.
theorem render_eq_of_mem_applied {text : String} (h : ⟨t.extent x, text⟩ ∈ t.applied) :
    ∃ before after, t.applied = before ++ ⟨t.extent x, text⟩ :: after ∧
      t.render = String.ofList (Text.stretch t.source.toList 0 (t.extent x).start before) ++ text ++
        String.ofList (Text.stretch t.source.toList (t.extent x).stop
          (Text.byteLength t.source.toList) after) := by
  obtain ⟨before, after, hsplit⟩ := List.append_of_mem h
  refine ⟨before, after, hsplit, ?_⟩
  rw [render_eq_weave, Text.weave_eq_stretch, hsplit, Text.stretch_append, String.ofList_append,
    String.ofList_append, String.ofList_toList]

theorem omits_of_mem_applied {text : String} (h : ⟨t.extent x, text⟩ ∈ t.applied) : t.Omits x := by
  intro i hi hi' hcopies
  have hout := (Text.isCopied_iff.mp hcopies).2 _ h
  dsimp only at hout
  omega

/-- A node that was replaced and is still live has one edit, with the text of what stands in its
place now. The edit is applied: the node's own text is not printed, and the new text is. -/
theorem replaced_text_printed {changes : List Change} (hparse : parse source = .ok T)
    (hspaced : T.Spaced) (hrun : T.changeAll changes = .ok t)
    (hmem : Change.replace x content ∈ changes) (hlive : t.isLive x = true) :
    ∃ current text, t.content? x = some current ∧ current.leafText? = some text ∧
      t.edits.filter (fun e => e.extent = t.extent x) = [⟨t.extent x, text⟩] ∧
      ⟨t.extent x, text⟩ ∈ t.applied ∧ t.Omits x ∧
      ∃ before after, t.applied = before ++ ⟨t.extent x, text⟩ :: after ∧
        t.render = String.ofList (Text.stretch source.toList 0 (t.extent x).start before) ++ text ++
          String.ofList (Text.stretch source.toList (t.extent x).stop source.utf8ByteSize after) := by
  have hT := built_of_parse hparse
  have hL := laid_of_parse hparse
  have hroot : T.extent T.root = ⟨0, Text.byteLength T.source.toList⟩ := by
    rw [extent_root_of_parse hparse, hT.source_eq, Text.byteLength_toList]
  obtain ⟨replaced, h, -, hreplaced⟩ := (Agrees.start hT).changeAll hL hT hroot hspaced hrun
  have hx := hreplaced x content hmem
  obtain ⟨current, text, hcurrent, htext, hedit⟩ := h.leaf hx hlive
  have happlied := h.mem_applied hL hT hroot hspaced hx hlive hedit
  rw [← h.extent x] at hedit happlied
  refine ⟨current, text, hcurrent, htext, ?_, happlied, omits_of_mem_applied happlied, ?_⟩
  · exact filter_extent_eq_singleton h.nodup hedit
  · have hrender := render_eq_of_mem_applied happlied
    rw [h.source, hT.source_eq, Text.byteLength_toList] at hrender
    exact hrender

/-- A call is replaced inside and out, the statement next to it removed, and the call replaced once
more: the last text is printed in its place. -/
theorem replaced_text_printed_beside_removal :
    ∃ T t, parse "if (a) \x7b\n  f(g(1));\n  h();\n\x7d\n" = .ok T ∧
      T.changeAll [.replace 5 (.identifier "x"), .replace 6 (.identifier "y"), .remove 10,
        .replace 6 (.identifier "z")] = .ok t ∧ t.isLive 6 = true ∧
      ∃ current text, t.content? 6 = some current ∧ current.leafText? = some text ∧
        t.edits.filter (fun e => e.extent = t.extent 6) = [⟨t.extent 6, text⟩] ∧ t.Omits 6 := by
  obtain ⟨T, hparse, hcheck⟩ := exists_parse
    (fun T => T.isSpaced && (T.changeAll [.replace 5 (.identifier "x"), .replace 6 (.identifier "y"),
      .remove 10, .replace 6 (.identifier "z")]).toOption.any (·.isLive 6))
    (by decide +kernel :
      (parse "if (a) \x7b\n  f(g(1));\n  h();\n\x7d\n").toOption.any _ = true)
  obtain ⟨hspaced, hrun⟩ := Bool.and_eq_true_iff.mp hcheck
  obtain ⟨t, ht, hlive⟩ := exists_ok_of_any _ hrun
  obtain ⟨current, text, hcontent, htext, hedit, -, homits, -⟩ :=
    replaced_text_printed hparse (spaced_of_isSpaced (built_of_parse hparse) hspaced) ht
      (List.mem_cons_of_mem _ List.mem_cons_self) hlive
  exact ⟨T, t, hparse, ht, hlive, current, text, hcontent, htext, hedit, homits⟩

end Flavoring.Tree
