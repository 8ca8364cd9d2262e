import Mathlib.Tactic.SplitIfs
import Flavoring.Proofs.Text.Cutting
import Flavoring.Text.Quoted

/-!
Quoting: a value that is written between quotes is read back as it was.

Each character is written as an escape that stands for it alone, so reading goes on behind the
escape as if the character had not been there.
-/

namespace Flavoring.Text

namespace Hex

theorem digit?_digit {n : Nat} (h : n < 16) : digit? (digit n) = some n := by
  have hall : ∀ n < 16, digit? (digit n) = some n := by decide
  exact hall n h

theorem value?_four {n : Nat} (h : n < 65536) : value? (four n) = some n := by
  have hdigit (m : Nat) : digit? (digit (m % 16)) = some (m % 16) :=
    digit?_digit (Nat.mod_lt m (by decide))
  simp only [value?, four, valueFrom?, hdigit, Option.bind_some, Option.some.injEq]
  omega

theorem leading?_four {n : Nat} (h : n < 65536) (rest : List Char) :
    leading? 4 (four n ++ rest) = some (n, rest) := by
  have hlength : (four n).length = 4 := rfl
  rw [leading?, if_pos (by simp [hlength]), List.take_left' hlength, value?_four h,
    List.drop_left' hlength]
  rfl

end Hex

namespace Quoted

/-- What literals are written between. -/
def IsDelimiter (d : Char) : Prop := d = '\'' ∨ d = '"'

variable {d c : Char}

theorem codePoint?_four {n : Nat} (h : n < 0xA0) (rest : List Char) :
    codePoint? (Hex.four n ++ rest) = some (n, rest) := by
  have hlead := Hex.leading?_four (n := n) (by omega) rest
  have hbrace : ∀ cs, Hex.four n ++ rest ≠ '{' :: cs := by
    intro cs heq
    have hfirst : Hex.digit (n / 4096 % 16) = '{' := (List.cons.inj heq).1
    have hzero : n / 4096 % 16 = 0 := by omega
    rw [hzero] at hfirst
    exact absurd hfirst (by decide)
  unfold codePoint?
  split
  · exact absurd ‹_› (hbrace _)
  · rw [hlead]
    exact if_neg (by omega)

theorem toNat_lt_of_isControl (h : isControl c = true) : c.toNat < 0xA0 := by
  simp only [isControl, Bool.or_eq_true, Bool.and_eq_true, decide_eq_true_eq] at h
  omega

theorem ofCodePoint_toNat (c : Char) : ofCodePoint c.toNat = c := by
  have hvalid : c.toNat.isValidChar := c.valid
  rw [ofCodePoint, if_pos hvalid, Char.ofNat_toNat]

theorem unescape_backslash {cs out rest : List Char} (h : unescape? cs = some (out, rest)) :
    unescape ('\\' :: cs) = out ++ unescape rest := by
  rw [unescape, if_pos rfl]
  split
  · next hsome =>
    rw [h] at hsome
    cases hsome
    rfl
  · next hnone =>
    rw [h] at hnone
    cases hnone

theorem unescape_one {e : Char} (hplain : e ≠ 'x' ∧ e ≠ 'u' ∧ e ≠ '\r') (hone : unescapeOne e = [c])
    (rest : List Char) : unescape ('\\' :: e :: rest) = c :: unescape rest := by
  have hread : unescape? (e :: rest) = some ([c], rest) := by
    rw [unescape?, if_neg hplain.1, if_neg hplain.2.1, if_neg hplain.2.2, hone]
  exact unescape_backslash hread

/-- A character that is written is read back, whatever follows it. -/
theorem unescape_escape (hd : IsDelimiter d) (c : Char) (rest : List Char) :
    unescape (escape d c ++ rest) = c :: unescape rest := by
  unfold escape
  split_ifs with hslash hfeed hreturn htab hnul hdelim hcontrol
  · subst hslash
    exact unescape_one (by decide) (by decide) rest
  · subst hfeed
    exact unescape_one (by decide) (by decide) rest
  · subst hreturn
    exact unescape_one (by decide) (by decide) rest
  · subst htab
    exact unescape_one (by decide) (by decide) rest
  · subst hnul
    exact unescape_one (by decide) (by decide) rest
  · subst hdelim
    rcases hd with rfl | rfl <;> exact unescape_one (by decide) (by decide) rest
  · have hpoint := codePoint?_four (toNat_lt_of_isControl hcontrol) rest
    have hread : unescape? ('u' :: (Hex.four c.toNat ++ rest)) = some ([c], rest) := by
      rw [unescape?, if_neg (by decide), if_pos rfl, hpoint]
      simp only [ofCodePoint_toNat]
    exact unescape_backslash hread
  · rw [List.singleton_append, unescape, if_neg hslash]

theorem unescape_flatMap_escape (hd : IsDelimiter d) (value : List Char) :
    unescape (value.flatMap (escape d)) = value := by
  induction value with
  | nil => rw [List.flatMap_nil, unescape]
  | cons c value ih => rw [List.flatMap_cons, unescape_escape hd, ih]

theorem unquote_delimited (hd : IsDelimiter d) (body : List Char) :
    unquote (d :: body ++ [d]) = unescape body := by
  have hone : d.utf8Size = 1 := by rcases hd with rfl | rfl <;> rfl
  have hbody : slice? (d :: body ++ [d]) 1 (byteLength (d :: body ++ [d]) - 1) = some body := by
    refine slice?_eq_some_iff.mpr ⟨[d], [d], rfl, by simp [hone], ?_⟩
    simp only [byteLength_append, byteLength_cons, byteLength_nil, List.cons_append,
      List.nil_append, hone]
    omega
  rw [unquote, hbody, Option.getD_some]

theorem unquote_quote (hd : IsDelimiter d) (value : List Char) :
    unquote (quote d value) = value := by
  rw [quote, unquote_delimited hd, unescape_flatMap_escape hd]

end Quoted

end Flavoring.Text
