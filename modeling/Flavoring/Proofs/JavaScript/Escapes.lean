import Flavoring.Proofs.JavaScript.Unquoting

/-!
Escapes of any text, also of one that is no literal: what is read of them, and what is left.

Escapes may be cut short, or stand for numbers that are no character. The code point that is read
behind a backslash and a `u` is that of the longest escape that comes first; if none does, nothing is
read. What is left is always the end of the text.
-/

namespace Flavoring.JavaScript.StringLiteral

open Text Text.Quoted

variable {c : Char} {n k code : Nat} {digits escape cs rest : List Char}

/-! Hexadecimal digits -/

theorem mem_hexDigits_of_digit? (h : Hex.digit? c = some n) : c ∈ hexDigits := by
  have hall : ∀ m < 128, Hex.digit? (Char.ofNat m) ≠ none → Char.ofNat m ∈ hexDigits := by decide
  have hlt : c.toNat < 128 := by
    have hlast : c ≤ 'f' := by
      unfold Hex.digit? at h
      split_ifs at h with hdecimal hlower hupper
      · exact Char.le_trans hdecimal.2 (by decide)
      · exact hlower.2
      · exact Char.le_trans hupper.2 (by decide)
    exact Nat.lt_of_le_of_lt (Char.le_def.mp hlast) (by decide)
  rw [← Char.ofNat_toNat c]
  exact hall c.toNat hlt (by rw [Char.ofNat_toNat, h]; exact nofun)

theorem subset_hexDigits_of_valueFrom? {m : Nat} (h : Hex.valueFrom? m digits = some n) :
    digits ⊆ hexDigits := by
  induction digits generalizing m with
  | nil => exact List.nil_subset _
  | cons c digits ih =>
    rw [Hex.valueFrom?, Option.bind_eq_some_iff] at h
    obtain ⟨d, hd, hrest⟩ := h
    exact List.cons_subset.mpr ⟨mem_hexDigits_of_digit? hd, ih hrest⟩

theorem hexValue?_eq_some_iff :
    Hex.value? digits = some n ↔ digits ⊆ hexDigits ∧ number digits = n := by
  constructor
  · intro h
    have hdigits := subset_hexDigits_of_valueFrom? h
    exact ⟨hdigits, Option.some.inj ((hexValue?_of_subset hdigits).symm.trans h)⟩
  · rintro ⟨hdigits, rfl⟩
    exact hexValue?_of_subset hdigits

theorem leading?_eq_some_iff : Hex.leading? k cs = some (n, rest) ↔
    ∃ digits, cs = digits ++ rest ∧ digits.length = k ∧ digits ⊆ hexDigits ∧ number digits = n := by
  constructor
  · intro h
    unfold Hex.leading? at h
    split at h
    · next hle =>
      simp only [Option.map_eq_some_iff, Prod.mk.injEq, hexValue?_eq_some_iff] at h
      obtain ⟨_, ⟨hdigits, hnumber⟩, rfl, rfl⟩ := h
      exact ⟨cs.take k, (List.take_append_drop k cs).symm, List.length_take_of_le hle, hdigits,
        hnumber⟩
    · cases h
  · rintro ⟨digits, rfl, hlength, hdigits, rfl⟩
    exact leading?_append hlength hdigits rest

theorem byteLength_of_subset (h : digits ⊆ hexDigits) : byteLength digits = digits.length := by
  have hone : hexDigits.all (fun c => c.utf8Size = 1) = true := by decide
  induction digits with
  | nil => rfl
  | cons c digits ih =>
    rw [List.cons_subset] at h
    have hc : c.utf8Size = 1 := of_decide_eq_true (List.all_eq_true.mp hone c h.1)
    rw [byteLength_cons, hc, ih h.2, List.length_cons, Nat.add_comm]

/-! Escapes of code points -/

/-- Behind a backslash and a `u`, the text stands for the code point. It need not be one that has a
character. -/
inductive Spells : List Char → Nat → Prop
  | braced {digits : List Char} : digits ≠ [] → digits ⊆ hexDigits → number digits < UInt32.size →
    Spells ('{' :: (digits ++ ['}'])) (number digits)
  | unit {digits : List Char} : digits.length = 4 → digits ⊆ hexDigits →
    Spells digits (number digits)
  | pair {high low : List Char} {code : Nat} : high.length = 4 → high ⊆ hexDigits →
    low.length = 4 → low ⊆ hexDigits → IsHighSurrogate (number high) →
    IsLowSurrogate (number low) → encode code = [number high, number low] →
    Spells (high ++ '\\' :: 'u' :: low) code

/-- The escape comes first in `cs`, and no longer one does. -/
structure LeadingEscape (cs escape : List Char) (code : Nat) : Prop where
  comesFirst : escape <+: cs
  spells : Spells escape code
  longest {escape' : List Char} {code' : Nat} : escape' <+: cs → Spells escape' code' →
    escape'.length ≤ escape.length

theorem eq_of_encode_eq_pair {m u v : Nat} (hm : encode m = [u, v]) (hn : encode n = [u, v]) :
    m = n := by
  have hunits (k : Nat) (h : encode k = [u, v]) :
      ¬ k ≤ 0xFFFF ∧ 0xD800 + (k - 0x10000) / 0x400 = u ∧ 0xDC00 + (k - 0x10000) % 0x400 = v := by
    unfold encode at h
    split at h
    · cases h
    · next hlarge => simpa [hlarge] using h
  have := hunits m hm
  have := hunits n hn
  omega

theorem digitsCodePoint?_eq_some_iff : digitsCodePoint? digits = some n ↔
    digits ≠ [] ∧ digits ⊆ hexDigits ∧ number digits < UInt32.size ∧ number digits = n := by
  unfold digitsCodePoint?
  cases digits with
  | nil => simp
  | cons c digits =>
    simp only [List.isEmpty_cons, Bool.false_eq_true, if_false, Option.bind_eq_some_iff,
      hexValue?_eq_some_iff, Option.ite_none_right_eq_some, Option.some.injEq, ne_eq,
      List.cons_ne_nil, not_false_eq_true, true_and]
    constructor
    · rintro ⟨m, ⟨hdigits, rfl⟩, hlt, rfl⟩
      exact ⟨hdigits, hlt, rfl⟩
    · rintro ⟨hdigits, hlt, rfl⟩
      exact ⟨_, ⟨hdigits, rfl⟩, hlt, rfl⟩

theorem exists_of_lowSurrogate? (h : lowSurrogate? cs = some (n, rest)) :
    ∃ low, cs = '\\' :: 'u' :: (low ++ rest) ∧ low.length = 4 ∧ low ⊆ hexDigits ∧ number low = n ∧
      IsLowSurrogate n := by
  unfold lowSurrogate? at h
  split at h
  · split at h
    · next hlead =>
      split at h
      · next hlow =>
        cases h
        obtain ⟨low, rfl, hlength, hdigits, rfl⟩ := leading?_eq_some_iff.mp hlead
        exact ⟨low, rfl, hlength, hdigits, rfl, hlow⟩
      · cases h
    · cases h
  · cases h

theorem forall_ne_brace (h : '}' ∉ cs) : ∀ c ∈ cs, (c != '}') = true := by
  intro c hc
  simpa using ne_of_mem_of_not_mem hc h

theorem bracedCodePoint?_append (h : '}' ∉ digits) (rest : List Char) :
    bracedCodePoint? (digits ++ '}' :: rest) = (digitsCodePoint? digits).map (·, rest) := by
  have hclose := forall_ne_brace h
  rw [bracedCodePoint?, List.dropWhile_append_of_pos hclose, List.takeWhile_append_of_pos hclose]
  simp

theorem bracedCodePoint?_of_not_mem (h : '}' ∉ cs) : bracedCodePoint? cs = none := by
  rw [bracedCodePoint?, List.dropWhile_eq_nil_iff.mpr (forall_ne_brace h)]

/-- What is read of an escape is the escape, or it is the first half of a pair and the other half is
read with it. -/
theorem Spells.codePoint?_append (h : Spells escape code) (rest : List Char) :
    ∃ code' rest', codePoint? (escape ++ rest) = some (code', rest') ∧
      (rest'.length < rest.length ∨ (code' = code ∧ rest' = rest)) := by
  cases h with
  | @braced digits hne hdigits hlt =>
    have hclose : '}' ∉ digits := fun hmem => absurd (hdigits hmem) (by decide)
    have hcode := digitsCodePoint?_eq_some_iff.mpr ⟨hne, hdigits, hlt, rfl⟩
    refine ⟨_, rest, ?_, Or.inr ⟨rfl, rfl⟩⟩
    rw [List.cons_append, List.append_assoc, List.singleton_append, codePoint?,
      bracedCodePoint?_append hclose, hcode, Option.map_some]
  | unit hlength hdigits =>
    rw [StringLiteral.codePoint?_append hlength hdigits]
    split
    · cases hlow : lowSurrogate? rest with
      | none => exact ⟨_, _, rfl, Or.inr ⟨rfl, rfl⟩⟩
      | some p =>
        have := length_of_lowSurrogate? hlow
        exact ⟨_, _, rfl, Or.inl (by omega)⟩
    · exact ⟨_, _, rfl, Or.inr ⟨rfl, rfl⟩⟩
  | @pair high low _ hlength hdigits hlength' hdigits' hhigh hlow hcode =>
    refine ⟨code, rest, ?_, Or.inr ⟨rfl, rfl⟩⟩
    have hsecond := lowSurrogate?_unit hlength' hdigits' hlow rest
    rw [List.append_assoc, StringLiteral.codePoint?_append hlength hdigits, if_pos hhigh,
      List.cons_append, List.cons_append, hsecond,
      eq_of_encode_eq_pair hcode (encode_pair hhigh hlow)]

theorem exists_spells_of_codePoint? (h : codePoint? cs = some (code, rest)) :
    ∃ escape, cs = escape ++ rest ∧ Spells escape code := by
  unfold codePoint? at h
  split at h
  · next braced =>
    by_cases hclose : '}' ∈ braced
    · obtain ⟨digits, following, rfl, hdigits⟩ := List.eq_append_cons_of_mem hclose
      rw [bracedCodePoint?_append hdigits] at h
      simp only [Option.map_eq_some_iff, Prod.mk.injEq, digitsCodePoint?_eq_some_iff] at h
      obtain ⟨_, ⟨hne, hhex, hlt, rfl⟩, rfl, rfl⟩ := h
      exact ⟨'{' :: (digits ++ ['}']), by simp, .braced hne hhex hlt⟩
    · rw [bracedCodePoint?_of_not_mem hclose] at h
      cases h
  · split at h
    · cases h
    · next hlead =>
      obtain ⟨digits, rfl, hlength, hdigits, rfl⟩ := leading?_eq_some_iff.mp hlead
      split at h
      · next hhigh =>
        split at h
        · next hsecond =>
          obtain ⟨low, rfl, hlength', hdigits', rfl, hlow⟩ := exists_of_lowSurrogate? hsecond
          obtain ⟨rfl, rfl⟩ := Prod.mk.inj (Option.some.inj h)
          refine ⟨digits ++ '\\' :: 'u' :: low, by simp, ?_⟩
          exact .pair hlength hdigits hlength' hdigits' hhigh hlow (encode_pair hhigh hlow)
        · cases h
          exact ⟨digits, rfl, .unit hlength hdigits⟩
      · cases h
        exact ⟨digits, rfl, .unit hlength hdigits⟩

/-- The code point that is read is that of the longest escape that comes first. -/
theorem codePoint?_eq_some_iff : codePoint? (escape ++ rest) = some (code, rest) ↔
    LeadingEscape (escape ++ rest) escape code := by
  constructor
  · intro h
    obtain ⟨escape', heq, hspells⟩ := exists_spells_of_codePoint? h
    obtain rfl := List.append_cancel_right heq
    refine ⟨List.prefix_append _ _, hspells, ?_⟩
    -- a longer escape would have been read to its own end, which leaves less
    rintro longer code' ⟨rest', heq'⟩ hlonger
    obtain ⟨_, _, hread, hshort⟩ := hlonger.codePoint?_append rest'
    rw [heq', h] at hread
    obtain ⟨rfl, rfl⟩ := Prod.mk.inj (Option.some.inj hread)
    have hlength := congrArg List.length heq'
    have hle : rest.length ≤ rest'.length := by
      rcases hshort with hlt | ⟨-, rfl⟩ <;> omega
    simp only [List.length_append] at hlength
    omega
  · intro h
    obtain ⟨code', rest', hread, hshort | ⟨rfl, rfl⟩⟩ := h.spells.codePoint?_append rest
    · obtain ⟨longer, heq, hlonger⟩ := exists_spells_of_codePoint? hread
      have hle := h.longest (heq ▸ List.prefix_append _ _) hlonger
      have hlength := congrArg List.length heq
      simp only [List.length_append] at hlength
      omega
    · exact hread

/-! What is left -/

theorem suffix_of_unescape? {out : List Char} (h : unescape? cs = some (out, rest)) :
    rest <:+ cs := by
  cases cs with
  | nil => cases h
  | cons c cs =>
    suffices hrest : rest <:+ cs from hrest.trans (List.suffix_cons c cs)
    rw [unescape?] at h
    split_ifs at h with hbyte hunit hreturn
    · split at h
      · next hlead =>
        obtain ⟨digits, rfl, -⟩ := leading?_eq_some_iff.mp hlead
        cases h
        exact List.suffix_append _ _
      · cases h
        exact List.suffix_refl _
    · split at h
      · next hpoint =>
        obtain ⟨escape, rfl, -⟩ := exists_spells_of_codePoint? hpoint
        cases h
        exact List.suffix_append _ _
      · cases h
        exact List.suffix_refl _
    · cases h
      unfold skipLineFeed
      split
      · exact List.suffix_cons _ _
      · exact List.suffix_refl _
    · cases h
      exact List.suffix_refl _

theorem unescape_plain {plain : List Char} (h : '\\' ∉ plain) (cs : List Char) :
    unescape (plain ++ cs) = plain ++ unescape cs := by
  induction plain with
  | nil => rfl
  | cons c plain ih =>
    rw [List.mem_cons, not_or] at h
    rw [List.cons_append, unescape, if_neg (Ne.symm h.1), ih h.2, List.cons_append]

end Flavoring.JavaScript.StringLiteral
