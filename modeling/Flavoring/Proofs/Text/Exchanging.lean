import Mathlib.Data.List.Forall2
import Mathlib.Data.List.ReduceOption
import Flavoring.Proofs.Text.Splicing

/-!
Exchanging: what a spliced text has from its source, byte by byte.

The relation between a text and itself with some of its parts exchanged says nothing of how the parts
are found. That a spliced text is such a text, and that the bytes outside of the exchanged parts come
through once and in their order, follows by going through the parts from left to right.
-/

namespace Flavoring.Text

/-- The second text is the first, which starts at offset `n`, with the extents of these edits
exchanged for their replacements. -/
inductive Exchanges : Nat → List Edit → List Char → List Char → Prop
  | rest {n : Nat} {text : List Char} : Exchanges n [] text text
  | edit {n : Nat} {e : Edit} {es : List Edit} {kept cut text out : List Char} :
    e.extent.start = n + byteLength kept → e.extent.stop = e.extent.start + byteLength cut →
    Exchanges e.extent.stop es text out →
    Exchanges n (e :: es) (kept ++ cut ++ text) (kept ++ e.replacement.toList ++ out)

/-- The byte at `i` stands in none of the edits' extents. -/
def Outside (es : List Edit) (i : Nat) : Prop :=
  ∀ e ∈ es, i < e.extent.start ∨ e.extent.stop ≤ i

instance (es : List Edit) : DecidablePred (Outside es) := fun _ => List.decidableBAll _ es

/-- A byte is the one at its origin, if it has one. -/
def CopiedFrom (source : List UInt8) (b : UInt8) (origin : Option Nat) : Prop :=
  ∀ i, origin = some i → source[i]? = some b

/-- Each byte of a text with its origin in another text, if it is copied from there. What is copied
comes in the order in which it stands there. -/
structure Traced (source out : List UInt8) (origins : List (Option Nat)) : Prop where
  copied : List.Forall₂ (CopiedFrom source) out origins
  ordered : origins.reduceOption.Pairwise (· < ·)

variable {n : Nat} {e : Edit} {es : List Edit} {text out : List Char}

/-! Spliced texts -/

theorem exchanges_weave {source : List Char} (front : List Char) {cursor : Nat}
    (hsource : source = front ++ text) (hfront : byteLength front = cursor) (es : List Edit) :
    Exchanges cursor (appliedFrom source cursor es) text
      (weave source cursor (appliedFrom source cursor es)) := by
  fun_induction appliedFrom source cursor es generalizing front text with
  | case1 cursor =>
    have hdrop : drop? cursor source = some text := drop?_eq_some_iff.mpr ⟨front, hsource, hfront⟩
    rw [weave, hdrop]
    exact .rest
  | case2 cursor e es hfits ih =>
    obtain ⟨hle, horder, ⟨upto, behind, hstart, hupto⟩, past, rest, hstop, hpast⟩ := hfits
    obtain ⟨kept, hkept, htext⟩ := exists_append_of_byteLength_le (hsource.symm.trans hstart)
      (by omega)
    obtain ⟨cut, hcut, hbehind⟩ := exists_append_of_byteLength_le (hstart.symm.trans hstop)
      (by omega)
    have hslice : slice? source cursor e.extent.start = some kept :=
      slice?_eq_some_iff.mpr ⟨front, behind, by rw [hstart, hkept], hfront, by rw [← hkept, hupto]⟩
    have hlength : byteLength front + byteLength kept = e.extent.start := by
      rw [← byteLength_append, ← hkept, hupto]
    have hlength' : e.extent.start + byteLength cut = e.extent.stop := by
      rw [← hupto, ← byteLength_append, ← hcut, hpast]
    rw [weave, hslice, Option.getD_some, htext, hbehind, ← List.append_assoc]
    exact .edit (by omega) hlength'.symm (ih past hstop hpast)
  | case3 cursor e es hfits ih => exact ih front hsource hfront

theorem exchanges_splice (source : String) (edits : List Edit) :
    Exchanges 0 (applied source edits) source.toList (splice source edits).toList := by
  rw [splice_eq_weave, String.toList_ofList]
  exact exchanges_weave [] rfl rfl _

/-! Origins of bytes -/

-- Bytes that stand in the source are copied from where they stand.
theorem forall₂_copiedFrom_self (front mid back : List UInt8) :
    List.Forall₂ (CopiedFrom (front ++ mid ++ back)) mid
      ((List.range' front.length mid.length).map some) := by
  induction mid generalizing front with
  | nil => exact .nil
  | cons b mid ih =>
    have hrest := ih (front ++ [b])
    rw [List.length_append, List.length_singleton, List.append_assoc front [b] mid,
      List.singleton_append] at hrest
    rw [List.length_cons, List.range'_succ, List.map_cons]
    refine .cons ?_ hrest
    rintro i hi
    cases hi
    rw [List.append_assoc, List.getElem?_append_right (Nat.le_refl _), Nat.sub_self]
    rfl

-- Bytes without an origin may be any.
theorem forall₂_copiedFrom_none (source bs : List UInt8) :
    List.Forall₂ (CopiedFrom source) bs (List.replicate bs.length none) := by
  induction bs with
  | nil => exact .nil
  | cons b bs ih => exact .cons nofun ih

-- Before the first extent all is outside, within it nothing, and behind it the others decide.
theorem filter_outside_cons {k m r : Nat} (hstart : e.extent.start = n + k)
    (hstop : e.extent.stop = e.extent.start + m)
    (hlater : ∀ e' ∈ es, e.extent.stop ≤ e'.extent.start) :
    (List.range' n (k + m + r)).filter (Outside (e :: es)) =
      List.range' n k ++ (List.range' e.extent.stop r).filter (Outside es) := by
  have hkept : (List.range' n k).filter (Outside (e :: es)) = List.range' n k := by
    refine List.filter_eq_self.mpr fun i hi => decide_eq_true fun e' he' => Or.inl ?_
    have hlt := (List.mem_range'_1.mp hi).2
    rcases List.mem_cons.mp he' with rfl | he'
    · omega
    · have := hlater e' he'
      omega
  have hcut : (List.range' e.extent.start m).filter (Outside (e :: es)) = [] := by
    refine List.filter_eq_nil_iff.mpr fun i hi hout => ?_
    have hin := List.mem_range'_1.mp hi
    have := of_decide_eq_true hout e List.mem_cons_self
    omega
  have hrest : (List.range' e.extent.stop r).filter (Outside (e :: es)) =
      (List.range' e.extent.stop r).filter (Outside es) := by
    refine List.filter_congr fun i hi => ?_
    have hle := (List.mem_range'_1.mp hi).1
    simp [Outside, hle]
  calc (List.range' n (k + m + r)).filter (Outside (e :: es))
      = (List.range' n k ++ List.range' e.extent.start m ++ List.range' e.extent.stop r).filter
          (Outside (e :: es)) := by
        rw [hstop, hstart, List.range'_append_1, Nat.add_assoc n k m, List.range'_append_1]
    _ = List.range' n k ++ (List.range' e.extent.stop r).filter (Outside es) := by
        rw [List.filter_append, List.filter_append, hkept, hcut, hrest, List.append_nil]

namespace Exchanges

theorem le_start (h : Exchanges n es text out) (he : e ∈ es) : n ≤ e.extent.start := by
  induction h with
  | rest => cases he
  | edit hstart hstop _ ih =>
    rcases List.mem_cons.mp he with rfl | he
    · omega
    · have := ih he
      omega

/-- The bytes outside are copied, in their order, and no others. -/
theorem exists_origins (h : Exchanges n es text out) (front : List Char)
    (hfront : byteLength front = n) :
    ∃ origins, List.Forall₂ (CopiedFrom (bytes (front ++ text))) (bytes out) origins ∧
      origins.reduceOption = (List.range' n (byteLength text)).filter (Outside es) := by
  induction h generalizing front with
  | @rest n text =>
    refine ⟨(List.range' n (byteLength text)).map some, ?_, ?_⟩
    · have hself := forall₂_copiedFrom_self (bytes front) (bytes text) []
      rwa [List.append_nil, ← bytes_append, length_bytes, length_bytes, hfront] at hself
    · simp [List.reduceOption, Outside]
  | @edit n e es kept cut text out hstart hstop hrest ih =>
    obtain ⟨origins, hcopied, hplaces⟩ := ih (front ++ kept ++ cut)
      (by simp only [byteLength_append]; omega)
    refine ⟨(List.range' n (byteLength kept)).map some ++
      List.replicate (byteLength e.replacement.toList) none ++ origins, ?_, ?_⟩
    · have hsource : bytes (front ++ (kept ++ cut ++ text)) =
          bytes front ++ bytes kept ++ bytes (cut ++ text) := by simp
      have hself := forall₂_copiedFrom_self (bytes front) (bytes kept) (bytes (cut ++ text))
      have hnew := forall₂_copiedFrom_none (bytes (front ++ (kept ++ cut ++ text)))
        (bytes e.replacement.toList)
      rw [← hsource, length_bytes, length_bytes, hfront] at hself
      rw [length_bytes] at hnew
      rw [List.append_assoc (front ++ kept), List.append_assoc front, ← List.append_assoc kept]
        at hcopied
      rw [bytes_append (kept ++ _), bytes_append kept]
      exact List.rel_append (List.rel_append hself hnew) hcopied
    · rw [byteLength_append, byteLength_append,
        filter_outside_cons hstart hstop fun e' he' => hrest.le_start he', ← hplaces,
        List.reduceOption_append, List.reduceOption_append, List.reduceOption_replicate_none]
      simp [List.reduceOption]

/-- The origins of a text with parts exchanged. What stands outside of the parts is copied once. -/
theorem exists_traced (h : Exchanges 0 es text out) :
    ∃ origins, Traced (bytes text) (bytes out) origins ∧
      ∀ i < (bytes text).length, Outside es i → origins.reduceOption.count i = 1 := by
  obtain ⟨origins, hcopied, hplaces⟩ := h.exists_origins [] rfl
  have hordered : origins.reduceOption.Pairwise (· < ·) := by
    rw [hplaces]
    exact List.Pairwise.filter _ List.pairwise_lt_range'
  refine ⟨origins, ⟨hcopied, hordered⟩, fun i hi hout => ?_⟩
  refine List.count_eq_one_of_mem (hordered.imp Nat.ne_of_lt) ?_
  rw [hplaces]
  rw [length_bytes] at hi
  exact List.mem_filter.mpr ⟨List.mem_range'_1.mpr ⟨Nat.zero_le i, by omega⟩, decide_eq_true hout⟩

end Exchanges

end Flavoring.Text
