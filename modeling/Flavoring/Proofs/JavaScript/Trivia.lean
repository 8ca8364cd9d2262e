import Flavoring.JavaScript.Parser.Basic
import Flavoring.Proofs.Text.Cutting
import Flavoring.Text.Deletion

/-!
What is passed over before a token: space always is, and nothing where a token starts.
-/

namespace Flavoring.JavaScript

variable {cur : Cursor} {cs : List Char} {c : Char}

/-! Space -/

theorem isSeparator_of_isAsciiSpace {c : Char} (h : isAsciiSpace c = true) :
    isSeparator c = true := by
  simp only [isAsciiSpace, Bool.or_eq_true, Bool.and_eq_true, decide_eq_true_eq, beq_iff_eq] at h
  rcases h with h | rfl
  · simp [isSeparator, h]
  · rfl

theorem isAsciiSpace_of_mem {c : Char} {b : UInt8} (hb : b ∈ String.utf8EncodeChar c)
    (h : Text.isBlankByte b = true ∨ b = 0x0A ∨ b = 0x0D) : isAsciiSpace c = true := by
  simp only [Text.isBlankByte, Bool.or_eq_true, beq_iff_eq] at h
  have hnat : c.toNat = b.toNat := Text.toNat_eq_of_mem hb (by
    rcases h with (rfl | rfl) | rfl | rfl <;> decide)
  rcases h with (rfl | rfl) | rfl | rfl
  · rw [isAsciiSpace, Char.toNat_inj.mp (hnat.trans (rfl : _ = ' '.toNat))]
    rfl
  all_goals simp [isAsciiSpace, hnat]

theorem markupComment_of_space {c : Char} (h : isAsciiSpace c = true) :
    Token.markupComment (c :: cs) = Token.further (Token.markupComment cs) := by
  have hlead : Token.run (fun c => isAsciiSpace c || isLineEnd c) (c :: cs) =
      Token.run (fun c => isAsciiSpace c || isLineEnd c) cs + 1 := by
    rw [Token.run, List.takeWhile_cons_of_pos (by simp [h]), List.length_cons, Token.run]
  unfold Token.markupComment
  simp only [hlead, List.drop_succ_cons, beq_iff_eq]
  split
  · rfl
  · next hmark =>
    have hfurther (n : Nat) (hn : n ≠ 0) : Token.further n = n + 1 := by
      obtain ⟨k, rfl⟩ := Nat.exists_eq_succ_of_ne_zero hn
      rfl
    rw [hfurther _ (by omega)]
    omega

-- A space is passed over together with what follows it.
theorem skipTrivia_past {c : Char} (h : isAsciiSpace c = true) (hrest : cur.rest = c :: cs) :
    (cur.past c cs).skipTrivia = cur.skipTrivia := by
  have hforward (k : Nat) : cur.forward (k + 1) = (cur.past c cs).forward k := by
    rw [Cursor.forward, hrest]
  have hseparators : cur.skipSeparators = (cur.past c cs).skipSeparators := by
    rw [Cursor.skipSeparators, hrest, List.takeWhile_cons_of_pos (isSeparator_of_isAsciiSpace h),
      List.length_cons, hforward]
    rfl
  have hmark : Token.markupComment cur.rest = Token.further (Token.markupComment (cur.past c cs).rest) := by
    rw [hrest, markupComment_of_space h]
    rfl
  change (cur.past c cs).skipTriviaWithin true (cur.size + 1) = _
  unfold Cursor.skipTrivia Cursor.skipTriviaWithin
  rw [if_pos rfl, if_pos rfl, hmark, hseparators]
  cases Token.markupComment (cur.past c cs).rest with
  | zero => rfl
  | succ k => exact congrArg (Cursor.skipTriviaWithin true cur.size) (hforward (k + 1)).symm

theorem skipTrivia_forward_of_space {v : List Char} (hv : ∀ c ∈ v, isAsciiSpace c = true)
    (hrest : cur.rest = v ++ cs) : (cur.forward v.length).skipTrivia = cur.skipTrivia := by
  induction v generalizing cur with
  | nil => rfl
  | cons c v ih =>
    obtain ⟨hc, hv⟩ := List.forall_mem_cons.mp hv
    rw [List.length_cons, Cursor.forward, hrest]
    exact (ih hv rfl).trans (skipTrivia_past hc hrest)

/-! Tokens -/

/-- The character separates nothing and opens no comment. -/
def isPlain (c : Char) : Bool := !isSeparator c && c != '/' && c != '<' && c != '-'

theorem skipSeparators_of_plain (hc : isSeparator c = false) (hrest : cur.rest = c :: cs) :
    cur.skipSeparators = cur := by
  rw [Cursor.skipSeparators, hrest, List.takeWhile_cons_of_neg (by simp [hc])]
  rfl

theorem skipTrivia_of_plain (hc : isPlain c = true) (hrest : cur.rest = c :: cs) :
    cur.skipTrivia = cur := by
  simp only [isPlain, Bool.and_eq_true, Bool.not_eq_true', bne_iff_ne] at hc
  obtain ⟨⟨⟨hseparator, hslash⟩, hangle⟩, hdash⟩ := hc
  have hmarkup : Token.markupComment cur.rest = 0 := by
    have hlead : (isAsciiSpace c || isLineEnd c) = false := by
      rw [Bool.or_eq_false_iff]
      refine ⟨Bool.eq_false_iff.mpr fun h => ?_, Bool.eq_false_iff.mpr fun h => ?_⟩
      · rw [isSeparator_of_isAsciiSpace h] at hseparator
        cases hseparator
      · simp only [isLineEnd, Bool.or_eq_true, beq_iff_eq] at h
        rcases h with (rfl | rfl) | rfl <;> cases hseparator
    have hopening : Token.literal "<!--" (c :: cs) = 0 :=
      if_neg (by simp [Token.startsWith, Ne.symm hangle])
    have hclosing : Token.literal "-->" (c :: cs) = 0 :=
      if_neg (by simp [Token.startsWith, Ne.symm hdash])
    rw [hrest, Token.markupComment, Token.run, List.takeWhile_cons_of_neg (by simp [hlead])]
    simp [hopening, hclosing]
  have hcomment : Token.comment cur.rest = 0 := by
    rw [hrest]
    unfold Token.comment
    split
    · next heq => exact absurd (List.cons.inj heq).1 hslash
    · next heq => exact absurd (List.cons.inj heq).1 hslash
    · rfl
  unfold Cursor.skipTrivia Cursor.skipTriviaWithin
  rw [if_pos rfl, hmarkup, skipSeparators_of_plain hseparator hrest]
  dsimp only
  rw [hcomment]
  rfl

theorem skipTrivia_of_space_plain {space : Char} (hspace : isAsciiSpace space = true)
    (hc : isPlain c = true) (hrest : cur.rest = space :: c :: cs) :
    cur.skipTrivia = cur.past space (c :: cs) := by
  rw [← skipTrivia_past hspace hrest]
  exact skipTrivia_of_plain hc rfl

end Flavoring.JavaScript
