import Flavoring.Proofs.Text.Exchanging

/-!
Selecting: of the edits of a text, those that are applied are a largest choice without overlaps.

The edits are gone through by their starts. One that is left out has no text of its own, or starts
within one that was applied before it; so a choice that keeps all of the applied edits has no room
for it. Edits that share an extent are taken as they come.
-/

namespace Flavoring.Text

/-- Both ends of the extent stand between characters of the text, and in order. -/
def Edit.IsSound (e : Edit) (source : List Char) : Prop :=
  (slice? source e.extent.start e.extent.stop).isSome = true

/-- The edit `e` starts within the extent of `a`, and reaches no further if they start together. -/
structure Edit.Shadows (a e : Edit) : Prop where
  start_le : a.extent.start ≤ e.extent.start
  lt_stop : e.extent.start < a.extent.stop
  wider : a.extent.start = e.extent.start → e.extent.stop ≤ a.extent.stop

/-- The edits `applied` are chosen from `edits`, and `dropped` are all the others. -/
structure Selects (source : List Char) (edits applied dropped : List Edit) : Prop where
  perm : (applied ++ dropped).Perm edits
  /-- Of edits with one extent the first are chosen, in the order in which they are given. -/
  first : ∀ x, applied.filter (·.extent = x) <+: edits.filter (·.extent = x)
  sound : ∀ e ∈ applied, e.IsSound source
  ascending : applied.Pairwise fun a b => a.extent.stop ≤ b.extent.start
  largest : ∀ e ∈ dropped, ¬ e.IsSound source ∨ ∃ a ∈ applied, a.Shadows e

variable {source : List Char} {cursor : Nat} {e : Edit} {es : List Edit}

theorem Edit.fits_iff : e.Fits source cursor ↔ cursor ≤ e.extent.start ∧ e.IsSound source := by
  rw [Edit.Fits, Edit.IsSound, isSome_slice?_iff]

theorem Edit.stop_le_of_before {a : Edit} (h : a.before e = true)
    (hstart : a.extent.start = e.extent.start) : e.extent.stop ≤ a.extent.stop := by
  simp only [before, Bool.or_eq_true, Bool.and_eq_true, decide_eq_true_eq, beq_iff_eq] at h
  omega

/-! One run over the edits -/

-- Those of the edits, in their order, that are not applied from `cursor` on.
def droppedFrom (source : List Char) (cursor : Nat) : List Edit → List Edit
  | [] => []
  | e :: es =>
    if e.Fits source cursor then droppedFrom source e.extent.stop es
    else e :: droppedFrom source cursor es

theorem appliedFrom_append_droppedFrom_perm (source : List Char) (cursor : Nat) (es : List Edit) :
    (appliedFrom source cursor es ++ droppedFrom source cursor es).Perm es := by
  fun_induction appliedFrom source cursor es with
  | case1 => exact .nil
  | case2 cursor e es hfits ih =>
    rw [droppedFrom, if_pos hfits, List.cons_append]
    exact ih.cons e
  | case3 cursor e es hfits ih =>
    rw [droppedFrom, if_neg hfits]
    exact List.perm_middle.trans (ih.cons e)

-- The edits that were applied before `cursor` are behind; of those before which it stands, one that
-- is left out is shadowed by an applied one.
theorem shadowed_of_mem_droppedFrom (hsorted : es.Pairwise fun a b => a.before b = true)
    (h : e ∈ droppedFrom source cursor es) :
    ¬ e.IsSound source ∨ e.extent.start < cursor ∨
      ∃ a ∈ appliedFrom source cursor es, a.Shadows e := by
  fun_induction droppedFrom source cursor es with
  | case1 => cases h
  | case2 cursor a es hfits ih =>
    rw [List.pairwise_cons] at hsorted
    rw [appliedFrom, if_pos hfits]
    rcases ih hsorted.2 h with hnot | hlt | ⟨b, hb, hshadows⟩
    · exact Or.inl hnot
    · have hbefore := hsorted.1 e ((appliedFrom_append_droppedFrom_perm _ _ es).subset
        (List.mem_append_right _ h))
      refine Or.inr (Or.inr ⟨a, List.mem_cons_self, Edit.start_le_of_before hbefore, hlt, ?_⟩)
      exact Edit.stop_le_of_before hbefore
    · exact Or.inr (Or.inr ⟨b, List.mem_cons_of_mem a hb, hshadows⟩)
  | case3 cursor a es hfits ih =>
    rw [appliedFrom, if_neg hfits]
    rcases List.mem_cons.mp h with rfl | h
    · rw [Edit.fits_iff, not_and_or] at hfits
      rcases hfits with hlt | hnot
      · exact Or.inr (Or.inl (by omega))
      · exact Or.inl hnot
    · exact ih (List.pairwise_cons.mp hsorted).2 h

-- Once an edit is left out, all later ones with its extent are.
theorem filter_appliedFrom_prefix (source : List Char) (cursor : Nat) (es : List Edit)
    (x : Extent) : (appliedFrom source cursor es).filter (·.extent = x) <+: es.filter (·.extent = x) := by
  fun_induction appliedFrom source cursor es with
  | case1 => exact List.prefix_rfl
  | case2 cursor e es hfits ih =>
    by_cases hx : e.extent = x
    · rw [List.filter_cons_of_pos (by simpa using hx), List.filter_cons_of_pos (by simpa using hx)]
      exact (List.prefix_cons_inj e).mpr ih
    · rw [List.filter_cons_of_neg (by simpa using hx), List.filter_cons_of_neg (by simpa using hx)]
      exact ih
  | case3 cursor e es hfits ih =>
    by_cases hx : e.extent = x
    · have hnone : (appliedFrom source cursor es).filter (·.extent = x) = [] := by
        refine List.filter_eq_nil_iff.mpr fun a ha hax => hfits ?_
        have hfits' := fits_of_mem_appliedFrom ha
        rw [Edit.Fits, of_decide_eq_true hax, ← hx] at hfits'
        exact hfits'
      rw [hnone]
      exact List.nil_prefix
    · rw [List.filter_cons_of_neg (by simpa using hx)]
      exact ih

/-! All edits of a text -/

-- Going through the edits by their starts keeps the order of those that share an extent.
theorem filter_extent_mergeSort (edits : List Edit) (x : Extent) :
    (edits.mergeSort Edit.before).filter (·.extent = x) = edits.filter (·.extent = x) := by
  have hsub : (edits.filter (·.extent = x)).Sublist (edits.mergeSort Edit.before) := by
    refine List.sublist_mergeSort Edit.before_trans Edit.before_total ?_ List.filter_sublist
    refine List.pairwise_of_forall_mem_list fun a ha b hb => ?_
    have hax := of_decide_eq_true (List.mem_filter.mp ha).2
    have hbx := of_decide_eq_true (List.mem_filter.mp hb).2
    simp [Edit.before, hax, hbx]
  have hsub' := hsub.filter (·.extent = x)
  rw [List.filter_filter] at hsub'
  simp only [Bool.and_self] at hsub'
  exact (hsub'.eq_of_length
    (((List.mergeSort_perm edits Edit.before).filter _).length_eq).symm).symm

theorem selects_applied (source : String) (edits : List Edit) :
    Selects source.toList edits (applied source edits)
      (droppedFrom source.toList 0 (edits.mergeSort Edit.before)) where
  perm := (appliedFrom_append_droppedFrom_perm _ _ _).trans (List.mergeSort_perm edits _)
  first x := by
    rw [← filter_extent_mergeSort edits x]
    exact filter_appliedFrom_prefix _ _ _ x
  sound e he := (Edit.fits_iff.mp (fits_of_mem_applied he)).2
  ascending := pairwise_applied source edits
  largest e he := by
    have hsorted := List.pairwise_mergeSort Edit.before_trans Edit.before_total edits
    rcases shadowed_of_mem_droppedFrom hsorted he with hnot | hlt | hshadowed
    · exact Or.inl hnot
    · exact absurd hlt (Nat.not_lt_zero _)
    · exact Or.inr hshadowed

/-- Whatever edits are given, some of them are chosen, one behind the other and as many as there is
room for, and the spliced text is the source with the extents of these exchanged. -/
theorem splice_exchanges_selected (source : String) (edits : List Edit) :
    ∃ applied dropped, Selects source.toList edits applied dropped ∧
      Exchanges 0 applied source.toList (splice source edits).toList :=
  ⟨_, _, selects_applied source edits, exchanges_splice source edits⟩

end Flavoring.Text
