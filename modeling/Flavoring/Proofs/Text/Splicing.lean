import Mathlib.Data.List.Nodup
import Flavoring.Proofs.Text.Cutting
import Flavoring.Text.Splice

/-!
Splicing: which edits are applied, and which bytes of the text are copied.

The spliced text is the source cut at the applied edits, each of them exchanged for its replacement.
An edit is applied if every other one that starts no later is over where it starts.
-/

namespace Flavoring.Text

variable {source : List Char} {cursor i : Nat} {e e' : Edit} {es before after : List Edit}

instance (cs : List Char) (n : Nat) : Decidable (IsCut cs n) :=
  decidable_of_iff ((splitAt? n cs).isSome = true) <| by
    simp [Option.isSome_iff_exists, Prod.exists, splitAt?_eq_some_iff, IsCut]

-- The edit can be applied when all before `cursor` is written.
def Edit.Fits (e : Edit) (source : List Char) (cursor : Nat) : Prop :=
  cursor ≤ e.extent.start ∧ e.extent.start ≤ e.extent.stop ∧
    IsCut source e.extent.start ∧ IsCut source e.extent.stop

instance (e : Edit) (source : List Char) (cursor : Nat) : Decidable (e.Fits source cursor) :=
  inferInstanceAs (Decidable (_ ∧ _))

-- Those of the edits, in their order, that are applied from `cursor` on.
def appliedFrom (source : List Char) (cursor : Nat) : List Edit → List Edit
  | [] => []
  | e :: es =>
    if e.Fits source cursor then e :: appliedFrom source e.extent.stop es
    else appliedFrom source cursor es

-- The source from `cursor` on, cut at edits that follow each other.
def weave (source : List Char) (cursor : Nat) : List Edit → List Char
  | [] => (drop? cursor source).getD []
  | e :: es =>
    (slice? source cursor e.extent.start).getD [] ++ e.replacement.toList
      ++ weave source e.extent.stop es

-- The stretches of the source that `weave` copies.
def keptFrom (size cursor : Nat) : List Edit → List Extent
  | [] => [⟨cursor, size⟩]
  | e :: es => ⟨cursor, e.extent.start⟩ :: keptFrom size e.extent.stop es

-- The edits that are applied to a text, in the order in which they apply.
def applied (source : String) (edits : List Edit) : List Edit :=
  appliedFrom source.toList 0 (edits.mergeSort Edit.before)

-- The byte at `i` of the text is copied into the spliced one.
def IsCopied (source : String) (edits : List Edit) (i : Nat) : Prop :=
  ∃ kept ∈ keptFrom (byteLength source.toList) 0 (applied source edits),
    kept.start ≤ i ∧ i < kept.stop

/-! One run over the edits -/

theorem spliceFrom_eq_weave (hcursor : IsCut source cursor) (es : List Edit) :
    spliceFrom source cursor es = weave source cursor (appliedFrom source cursor es) := by
  induction es generalizing cursor with
  | nil => rfl
  | cons e es ih =>
    unfold spliceFrom appliedFrom
    by_cases hfits : e.Fits source cursor
    · obtain ⟨hle, horder, hstart, hstop⟩ := hfits
      obtain ⟨kept, hkept⟩ := Option.isSome_iff_exists.mp
        (isSome_slice?_iff.mpr ⟨hle, hcursor, hstart⟩)
      obtain ⟨cut, hcut⟩ := Option.isSome_iff_exists.mp
        (isSome_slice?_iff.mpr ⟨horder, hstart, hstop⟩)
      rw [if_neg (by omega), if_pos ⟨hle, horder, hstart, hstop⟩, hkept, hcut]
      simp only [weave, hkept, Option.getD_some, ih hstop]
    · rw [if_neg hfits, ← ih hcursor]
      split
      · rfl
      · split
        · next hlt _ _ kept cut hkept hcut =>
          -- both slices exist, so the edit would fit
          obtain ⟨hle, -, -⟩ := isSome_slice?_iff.mp (Option.isSome_of_eq_some hkept)
          obtain ⟨horder, hstart, hstop⟩ := isSome_slice?_iff.mp (Option.isSome_of_eq_some hcut)
          exact absurd ⟨hle, horder, hstart, hstop⟩ hfits
        · rfl

theorem splice_eq_weave (source : String) (edits : List Edit) :
    splice source edits = String.ofList (weave source.toList 0 (applied source edits)) := by
  rw [splice, spliceFrom_eq_weave (IsCut.zero _), applied]

theorem appliedFrom_sublist (source : List Char) (cursor : Nat) (es : List Edit) :
    (appliedFrom source cursor es).Sublist es := by
  fun_induction appliedFrom source cursor es with
  | case1 => exact .slnil
  | case2 cursor e es hfits ih => exact ih.cons_cons e
  | case3 cursor e es hfits ih => exact ih.cons e

theorem fits_of_mem_appliedFrom (h : e ∈ appliedFrom source cursor es) : e.Fits source cursor := by
  fun_induction appliedFrom source cursor es with
  | case1 => cases h
  | case2 cursor e' es hfits ih =>
    rcases List.mem_cons.mp h with rfl | hmem
    · exact hfits
    · obtain ⟨hle, horder, hcuts⟩ := ih hmem
      have hle' := hfits.1
      have horder' := hfits.2.1
      exact ⟨by omega, horder, hcuts⟩
  | case3 cursor e' es hfits ih => exact ih h

-- An edit that no earlier one reaches into is applied.
theorem mem_appliedFrom (hfits : e.Fits source cursor)
    (hover : ∀ e' ∈ before, e'.extent.stop ≤ e.extent.start) :
    e ∈ appliedFrom source cursor (before ++ e :: after) := by
  induction before generalizing cursor with
  | nil =>
    rw [List.nil_append, appliedFrom, if_pos hfits]
    exact List.mem_cons_self
  | cons e' before ih =>
    have hover' := fun x hx => hover x (List.mem_cons_of_mem e' hx)
    rw [List.cons_append, appliedFrom]
    split
    · obtain ⟨-, horder, hcuts⟩ := hfits
      exact List.mem_cons_of_mem e' (ih ⟨hover e' List.mem_cons_self, horder, hcuts⟩ hover')
    · exact ih hfits hover'

theorem pairwise_appliedFrom (source : List Char) (cursor : Nat) (es : List Edit) :
    (appliedFrom source cursor es).Pairwise fun a b => a.extent.stop ≤ b.extent.start := by
  fun_induction appliedFrom source cursor es with
  | case1 => exact .nil
  | case2 cursor e es hfits ih =>
    exact List.pairwise_cons.mpr ⟨fun e' he' => (fits_of_mem_appliedFrom he').1, ih⟩
  | case3 cursor e es hfits ih => exact ih

-- What is copied is what no applied edit covers.
theorem exists_keptFrom_iff {size : Nat} (hsize : size = byteLength source) :
    (∃ kept ∈ keptFrom size cursor (appliedFrom source cursor es), kept.start ≤ i ∧ i < kept.stop) ↔
      cursor ≤ i ∧ i < size ∧
        ∀ e ∈ appliedFrom source cursor es, i < e.extent.start ∨ e.extent.stop ≤ i := by
  fun_induction appliedFrom source cursor es with
  | case1 cursor => simp [keptFrom]
  | case2 cursor e es hfits ih =>
    obtain ⟨hle, horder, hcuts⟩ := hfits
    have hstop := hcuts.2.le
    rw [keptFrom]
    simp only [List.mem_cons, exists_eq_or_imp, forall_eq_or_imp, ih]
    constructor
    · rintro (⟨hi, hlt⟩ | ⟨hi, hlt, hrest⟩)
      · refine ⟨hi, by omega, Or.inl hlt, fun e' he' => Or.inl ?_⟩
        have hnext := (fits_of_mem_appliedFrom he').1
        omega
      · exact ⟨by omega, hlt, Or.inr hi, hrest⟩
    · rintro ⟨hi, hlt, hbefore | hbehind, hrest⟩
      · exact Or.inl ⟨hi, hbefore⟩
      · exact Or.inr ⟨hbehind, hlt, hrest⟩
  | case3 cursor e es hfits ih => exact ih

/-! What stands before and behind an applied edit -/

-- The source from `cursor` to `stop`, cut at edits that follow each other there.
def stretch (source : List Char) (cursor stop : Nat) : List Edit → List Char
  | [] => (slice? source cursor stop).getD []
  | e :: es =>
    (slice? source cursor e.extent.start).getD [] ++ e.replacement.toList
      ++ stretch source e.extent.stop stop es

theorem drop?_getD_eq_slice? (source : List Char) (cursor : Nat) :
    (drop? cursor source).getD [] = (slice? source cursor (byteLength source)).getD [] := by
  cases hdrop : drop? cursor source with
  | some back =>
    obtain ⟨front, rfl, hfront⟩ := drop?_eq_some_iff.mp hdrop
    have hslice : slice? (front ++ back) cursor (byteLength (front ++ back)) = some back :=
      slice?_eq_some_iff.mpr ⟨front, [], by simp, hfront, rfl⟩
    rw [hslice]
  | none =>
    cases hslice : slice? source cursor (byteLength source) with
    | none => rfl
    | some mid =>
      obtain ⟨front, back, hsource, hfront, -⟩ := slice?_eq_some_iff.mp hslice
      have hsome := drop?_eq_some_iff.mpr ⟨front, hsource.trans (List.append_assoc ..), hfront⟩
      rw [hsome] at hdrop
      cases hdrop

theorem weave_eq_stretch (source : List Char) (cursor : Nat) (es : List Edit) :
    weave source cursor es = stretch source cursor (byteLength source) es := by
  induction es generalizing cursor with
  | nil => exact drop?_getD_eq_slice? source cursor
  | cons e es ih => rw [weave, stretch, ih]

theorem stretch_append (source : List Char) (cursor stop : Nat) (before : List Edit) (e : Edit)
    (after : List Edit) :
    stretch source cursor stop (before ++ e :: after) =
      stretch source cursor e.extent.start before ++ e.replacement.toList
        ++ stretch source e.extent.stop stop after := by
  induction before generalizing cursor with
  | nil => rfl
  | cons e' before ih => simp [stretch, ih]

-- A stretch is cut in two where no edit stands.
theorem stretch_cut {a b c : Nat} (hac : a ≤ c) (hcb : c ≤ b) (ha : IsCut source a)
    (hc : IsCut source c) (hb : IsCut source b)
    (hbefore : ∀ e ∈ before, e.Fits source a ∧ e.extent.stop ≤ c)
    (hpairs : before.Pairwise fun e e' => e.extent.stop ≤ e'.extent.start)
    (hafter : ∀ e ∈ after, e.Fits source c) :
    stretch source a b (before ++ after) =
      stretch source a c before ++ stretch source c b after := by
  induction before generalizing a with
  | nil =>
    cases after with
    | nil => exact slice?_append hac hcb ha hc hb
    | cons e after =>
      obtain ⟨hle, -, hstart, -⟩ := hafter e List.mem_cons_self
      rw [List.nil_append, stretch, stretch, stretch, slice?_append hac hle ha hc hstart]
      simp only [List.append_assoc]
  | cons e before ih =>
    obtain ⟨⟨-, -, -, hstop⟩, hle⟩ := hbefore e List.mem_cons_self
    rw [List.pairwise_cons] at hpairs
    rw [List.cons_append, stretch, stretch, ih hle hstop ?_ hpairs.2]
    · simp only [List.append_assoc]
    · intro e' he'
      obtain ⟨⟨-, hfits⟩, hle'⟩ := hbefore e' (List.mem_cons_of_mem e he')
      exact ⟨⟨hpairs.1 e' he', hfits⟩, hle'⟩

-- The edits that start from `a` on and before `b`.
def startingIn (a b : Nat) (es : List Edit) : List Edit :=
  es.filter fun e => a ≤ e.extent.start ∧ e.extent.start < b

theorem mem_startingIn {a b : Nat} :
    e ∈ startingIn a b es ↔ e ∈ es ∧ a ≤ e.extent.start ∧ e.extent.start < b := by
  rw [startingIn, List.mem_filter, decide_eq_true_iff]

theorem startingIn_append {a b c : Nat} (hac : a ≤ c) (hcb : c ≤ b)
    (h : es.Pairwise fun e e' => e.extent.start ≤ e'.extent.start) :
    startingIn a b es = startingIn a c es ++ startingIn c b es := by
  induction es with
  | nil => rfl
  | cons e es ih =>
    rw [List.pairwise_cons] at h
    by_cases hlt : e.extent.start < c
    · have hright : startingIn c b (e :: es) = startingIn c b es :=
        List.filter_cons_of_neg (by simp; omega)
      rw [hright]
      by_cases ha : a ≤ e.extent.start
      · have hall (b' : Nat) (hlt : e.extent.start < b') :
            startingIn a b' (e :: es) = e :: startingIn a b' es :=
          List.filter_cons_of_pos (by simp [ha, hlt])
        rw [hall b (by omega), hall c hlt, ih h.2, List.cons_append]
      · have hnone (b' : Nat) : startingIn a b' (e :: es) = startingIn a b' es :=
          List.filter_cons_of_neg (by simp [ha])
        rw [hnone, hnone, ih h.2]
    · -- none of the edits starts before `c`
      have hle : ∀ e' ∈ e :: es, c ≤ e'.extent.start := by
        refine List.forall_mem_cons.mpr ⟨by omega, fun e' he' => ?_⟩
        have := h.1 e' he'
        omega
      have hleft : startingIn a c (e :: es) = [] :=
        List.filter_eq_nil_iff.mpr fun e' he' => by
          have := hle e' he'
          simp
          omega
      rw [hleft, List.nil_append]
      refine List.filter_congr fun e' he' => ?_
      have := hle e' he'
      simp only [decide_eq_decide]
      omega

/-! All edits of a text -/

section all

variable {source : String} {edits : List Edit}

theorem mem_of_mem_applied (h : e ∈ applied source edits) : e ∈ edits :=
  List.mem_mergeSort.mp ((appliedFrom_sublist _ _ _).subset h)

theorem pairwise_applied (source : String) (edits : List Edit) :
    (applied source edits).Pairwise fun a b => a.extent.stop ≤ b.extent.start :=
  pairwise_appliedFrom _ _ _

theorem isCopied_iff : IsCopied source edits i ↔
    i < byteLength source.toList ∧
      ∀ e ∈ applied source edits, i < e.extent.start ∨ e.extent.stop ≤ i := by
  rw [IsCopied, applied, exists_keptFrom_iff rfl]
  simp

theorem Edit.before_trans (a b c : Edit) (hab : a.before b = true) (hbc : b.before c = true) :
    a.before c = true := by
  simp only [before, Bool.or_eq_true, Bool.and_eq_true, decide_eq_true_eq, beq_iff_eq] at *
  omega

theorem Edit.before_total (a b : Edit) : (a.before b || b.before a) = true := by
  simp only [before, Bool.or_eq_true, Bool.and_eq_true, decide_eq_true_eq, beq_iff_eq]
  omega

theorem Edit.start_le_of_before (h : e'.before e = true) : e'.extent.start ≤ e.extent.start := by
  simp only [before, Bool.or_eq_true, Bool.and_eq_true, decide_eq_true_eq, beq_iff_eq] at h
  omega

theorem Edit.extent_eq_of_before (h : e.before e' = true) (h' : e'.before e = true) :
    e.extent = e'.extent := by
  obtain ⟨⟨start, stop⟩, text⟩ := e
  obtain ⟨⟨start', stop'⟩, text'⟩ := e'
  simp only [before, Bool.or_eq_true, Bool.and_eq_true, decide_eq_true_eq, beq_iff_eq] at h h'
  simp only [Extent.mk.injEq]
  omega

-- An edit is applied if every other one that starts no later is over where it starts.
theorem mem_applied (hmem : e ∈ edits) (hfits : e.Fits source.toList 0)
    (hclear : ∀ e' ∈ edits, e' ≠ e → e'.extent.start ≤ e.extent.start →
      e'.extent.stop ≤ e.extent.start) :
    e ∈ applied source edits := by
  have hsorted := List.pairwise_mergeSort Edit.before_trans Edit.before_total edits
  obtain ⟨front, back, hsplit, hnot⟩ :=
    List.eq_append_cons_of_mem (List.mem_mergeSort.mpr hmem : e ∈ edits.mergeSort Edit.before)
  rw [hsplit, List.pairwise_append] at hsorted
  rw [applied, hsplit]
  refine mem_appliedFrom hfits fun e' he' => ?_
  have hbefore := hsorted.2.2 e' he' e List.mem_cons_self
  have he'edits : e' ∈ edits := by
    have hmem' : e' ∈ edits.mergeSort Edit.before := by
      rw [hsplit]
      exact List.mem_append_left _ he'
    exact List.mem_mergeSort.mp hmem'
  refine hclear e' he'edits ?_ (Edit.start_le_of_before hbefore)
  rintro rfl
  exact hnot he'

-- Two applied edits do not overlap.
theorem stop_le_start_of_mem_applied (he : e ∈ applied source edits)
    (he' : e' ∈ applied source edits) (hne : e ≠ e') :
    e.extent.stop ≤ e'.extent.start ∨ e'.extent.stop ≤ e.extent.start := by
  have hpairs := pairwise_applied source edits
  obtain ⟨front, back, hsplit⟩ := List.append_of_mem he
  rw [hsplit] at hpairs he'
  rw [List.pairwise_append, List.pairwise_cons] at hpairs
  rcases List.mem_append.mp he' with hfront | hback
  · exact Or.inr (hpairs.2.2 e' hfront e List.mem_cons_self)
  · exact Or.inl (hpairs.2.1.1 e' ((List.mem_cons.mp hback).resolve_left (Ne.symm hne)))

-- Edits with different extents are applied alike in whichever order they are given.
theorem mergeSort_eq_of_perm {edits' : List Edit} (h : edits.Perm edits')
    (hnodup : (edits.map (·.extent)).Nodup) :
    edits.mergeSort Edit.before = edits'.mergeSort Edit.before := by
  refine List.Perm.eq_of_pairwise ?_
    (List.pairwise_mergeSort Edit.before_trans Edit.before_total edits)
    (List.pairwise_mergeSort Edit.before_trans Edit.before_total edits') ?_
  · intro a b ha hb hab hba
    have ha := List.mem_mergeSort.mp ha
    have hb := h.mem_iff.mpr (List.mem_mergeSort.mp hb)
    exact List.inj_on_of_nodup_map hnodup ha hb (Edit.extent_eq_of_before hab hba)
  · exact (List.mergeSort_perm edits _).trans (h.trans (List.mergeSort_perm edits' _).symm)

theorem splice_perm {edits' : List Edit} (h : edits.Perm edits')
    (hnodup : (edits.map (·.extent)).Nodup) : splice source edits = splice source edits' := by
  rw [splice, splice, mergeSort_eq_of_perm h hnodup]

-- Edits with different starts are applied in the order of these.
theorem mergeSort_of_ordered {ordered : List Edit} (h : edits.Perm ordered)
    (hordered : ordered.Pairwise fun a b => a.extent.start < b.extent.start) :
    edits.mergeSort Edit.before = ordered := by
  have hnodup : (edits.map (·.extent)).Nodup := by
    rw [(h.map _).nodup_iff, List.Nodup, List.pairwise_map]
    refine hordered.imp fun {a b} hlt heq => ?_
    rw [heq] at hlt
    exact Nat.lt_irrefl _ hlt
  have hsorted : ordered.Pairwise fun a b => a.before b = true :=
    hordered.imp fun {a b} hlt => by simp [Edit.before, hlt]
  rw [mergeSort_eq_of_perm h hnodup, List.mergeSort_of_pairwise hsorted]

theorem splice_of_ordered {ordered : List Edit} (h : edits.Perm ordered)
    (hordered : ordered.Pairwise fun a b => a.extent.start < b.extent.start) :
    splice source edits = String.ofList (spliceFrom source.toList 0 ordered) := by
  rw [splice, mergeSort_of_ordered h hordered]

theorem applied_of_ordered {ordered : List Edit} (h : edits.Perm ordered)
    (hordered : ordered.Pairwise fun a b => a.extent.start < b.extent.start) :
    applied source edits = appliedFrom source.toList 0 ordered := by
  rw [applied, mergeSort_of_ordered h hordered]

/-! Parts of a text -/

-- What is written for the part of a text from `a` to `b`, if no applied edit reaches over its ends.
def written (source : String) (edits : List Edit) (a b : Nat) : List Char :=
  stretch source.toList a b (startingIn a b (applied source edits))

-- Edits with different starts are written in the order of these.
theorem written_of_ordered {ordered : List Edit} {a b : Nat} (h : edits.Perm ordered)
    (hordered : ordered.Pairwise fun a b => a.extent.start < b.extent.start) :
    written source edits a b =
      stretch source.toList a b (startingIn a b (appliedFrom source.toList 0 ordered)) := by
  rw [written, applied_of_ordered h hordered]

theorem fits_of_mem_applied (h : e ∈ applied source edits) : e.Fits source.toList 0 :=
  fits_of_mem_appliedFrom h

theorem splice_eq_written (h : ∀ e ∈ edits, e.extent.start < e.extent.stop) :
    splice source edits =
      String.ofList (written source edits 0 (byteLength source.toList)) := by
  have hall : startingIn 0 (byteLength source.toList) (applied source edits) =
      applied source edits := by
    refine List.filter_eq_self.mpr fun e he => decide_eq_true ⟨Nat.zero_le _, ?_⟩
    have hstop := (fits_of_mem_applied he).2.2.2.le
    have hlt := h e (mem_of_mem_applied he)
    omega
  rw [splice_eq_weave, weave_eq_stretch, written, hall]

theorem written_append {a b c : Nat} (hac : a ≤ c) (hcb : c ≤ b) (ha : IsCut source.toList a)
    (hc : IsCut source.toList c) (hb : IsCut source.toList b)
    (hclear : ∀ e ∈ applied source edits, e.extent.stop ≤ c ∨ c ≤ e.extent.start) :
    written source edits a b = written source edits a c ++ written source edits c b := by
  have hpairs := pairwise_applied source edits
  have hsorted : (applied source edits).Pairwise fun e e' => e.extent.start ≤ e'.extent.start :=
    hpairs.imp_of_mem fun {e e'} he _ hle => Nat.le_trans (fits_of_mem_applied he).2.1 hle
  rw [written, startingIn_append hac hcb hsorted]
  refine stretch_cut hac hcb ha hc hb ?_ (hpairs.sublist List.filter_sublist) ?_
  · intro e he
    obtain ⟨hmem, hle, hlt⟩ := mem_startingIn.mp he
    exact ⟨⟨hle, (fits_of_mem_applied hmem).2⟩, (hclear e hmem).resolve_right (by omega)⟩
  · intro e he
    obtain ⟨hmem, hle, -⟩ := mem_startingIn.mp he
    exact ⟨hle, (fits_of_mem_applied hmem).2⟩

-- Behind the last edit the text is written as it is.
theorem written_of_stop_le {a b : Nat} (h : ∀ e ∈ edits, e.extent.start < e.extent.stop ∧
    e.extent.stop ≤ a) : written source edits a b = (slice? source.toList a b).getD [] := by
  have hnone : startingIn a b (applied source edits) = [] := by
    refine List.filter_eq_nil_iff.mpr fun e he => ?_
    have hle := h e (mem_of_mem_applied he)
    simp
    omega
  rw [written, hnone]
  rfl

end all

end Flavoring.Text
