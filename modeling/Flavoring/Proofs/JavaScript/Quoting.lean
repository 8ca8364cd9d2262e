import Flavoring.Proofs.JavaScript.StringLiterals
import Flavoring.Proofs.Text.Delimiting

/-!
Quoting, as the language reads it.

Every character but one is written as a part that may stand anywhere. A zero is written as the
escape that may not stand before a digit, and a digit is written as itself. So a quoted value is a
literal, and stands for that value, exactly if it holds no zero right before a digit.
-/

namespace Flavoring.JavaScript.StringLiteral

open Text.Quoted

variable {d c : Char} {following cs : List Char} {ps : List Part}

/-- The part that a character of a value is written as. -/
def partOf (d c : Char) : Part :=
  if c = '\\' then .escaped '\\'
  else if c = '\n' then .escaped 'n'
  else if c = '\r' then .escaped 'r'
  else if c = '\t' then .escaped 't'
  else if c = '\x00' then .zero
  else if c = d then .escaped c
  else if isControl c then .unit (Text.Hex.four c.toNat)
  else .verbatim c

/-- Somewhere in the value a digit stands right behind a zero. -/
def HasZeroBeforeDigit (value : List Char) : Prop :=
  ∃ c, isDigit c = true ∧ ['\x00', c] <:+: value

theorem text_partOf (d c : Char) : (partOf d c).text = escape d c := by
  unfold partOf escape
  split_ifs <;> rfl

theorem text_map_partOf (d : Char) (v : List Char) :
    text (v.map (partOf d)) = v.flatMap (escape d) := by
  induction v with
  | nil => rfl
  | cons c v ih => rw [List.map_cons, text_cons, List.flatMap_cons, text_partOf, ih]

theorem four_subset_hexDigits (n : Nat) : Text.Hex.four n ⊆ hexDigits := by
  have hall : Text.Hex.written.all (· ∈ hexDigits) = true := by decide
  exact fun c hc =>
    of_decide_eq_true (List.all_eq_true.mp hall c (Text.Hex.mem_written_of_mem_four hc))

theorem number_four {n : Nat} (h : n < 65536) : number (Text.Hex.four n) = n := by
  have hvalue := hexValue?_of_subset (four_subset_hexDigits n)
  rw [Text.Hex.value?_four h] at hvalue
  exact (Option.some.inj hvalue).symm

theorem value_partOf (hd : IsDelimiter d) (c : Char) : (partOf d c).value = encode c.toNat := by
  unfold partOf
  split_ifs with hslash hfeed hreturn htab hzero hdelim hcontrol
  · rw [hslash]; rfl
  · rw [hfeed]; rfl
  · rw [hreturn]; rfl
  · rw [htab]; rfl
  · rw [hzero]; rfl
  · subst hdelim
    rcases hd with rfl | rfl <;> rfl
  · have hlt := toNat_lt_of_isControl hcontrol
    rw [Part.value, number_four (by omega), encode, if_pos (by omega)]
  · rfl

theorem value_map_partOf (hd : IsDelimiter d) (v : List Char) :
    value (v.map (partOf d)) = codeUnits v := by
  induction v with
  | nil => rfl
  | cons c v ih =>
    rw [List.map_cons, value_cons, value_partOf hd, ih]
    rfl

theorem allowed_partOf (hd : IsDelimiter d) (hzero : c ≠ '\x00') (following : List Char) :
    (partOf d c).Allowed d following := by
  unfold partOf
  split_ifs with hslash hfeed hreturn htab hdelim hcontrol
  · exact Or.inl (by decide)
  · exact Or.inl (by decide)
  · exact Or.inl (by decide)
  · exact Or.inl (by decide)
  · subst hdelim
    rcases hd with rfl | rfl <;> exact Or.inl (by decide)
  · exact ⟨rfl, four_subset_hexDigits _⟩
  · refine ⟨hdelim, hslash, fun hline => ?_⟩
    simpa [lineTerminators, hfeed, hreturn] using hline

theorem next_escape (hd : IsDelimiter d) (c : Char) (following : List Char) :
    next (escape d c ++ following) = some (partOf d c, following) := by
  by_cases hzero : c = '\x00'
  · rw [hzero]
    rfl
  · rw [← text_partOf]
    exact next_text (allowed_partOf hd hzero following)

/-- Parts that spell a quoted value are those that its characters are written as. -/
theorem eq_map_partOf_of_text_eq (hd : IsDelimiter d) {v : List Char} (hp : AllAllowed d ps)
    (h : text ps = v.flatMap (escape d)) : ps = v.map (partOf d) := by
  induction v generalizing ps with
  | nil =>
    cases ps with
    | nil => rfl
    | cons p ps => exact absurd (List.append_eq_nil_iff.mp h).1 p.text_ne_nil
  | cons c v ih =>
    rw [List.flatMap_cons] at h
    cases ps with
    | nil =>
      rw [← text_partOf] at h
      exact absurd (List.append_eq_nil_iff.mp h.symm).1 (partOf d c).text_ne_nil
    | cons p ps =>
      have hnext := next_text hp.1
      rw [← List.append_assoc, ← text_cons, h, List.append_assoc, next_escape hd] at hnext
      obtain ⟨rfl, hrest⟩ := Prod.mk.inj (Option.some.inj hnext)
      rw [List.map_cons, ih hp.2 (List.append_cancel_right hrest).symm]

/-! Zeros and digits -/

theorem escape_of_isDigit (hd : IsDelimiter d) (h : isDigit c = true) : escape d c = [c] := by
  have hne (x : Char) (hx : isDigit x = false) : c ≠ x := by
    rintro rfl
    exact absurd h (by simp [hx])
  have hdelim : c ≠ d := by rcases hd with rfl | rfl <;> exact hne _ (by decide)
  have hcontrol : ¬ isControl c = true := by
    simp only [isDigit, Bool.and_eq_true, decide_eq_true_eq] at h
    have hlow : 48 ≤ c.toNat := h.1
    have hhigh : c.toNat ≤ 57 := h.2
    simp only [isControl, Bool.or_eq_true, Bool.and_eq_true, decide_eq_true_eq]
    omega
  rw [escape, if_neg (hne _ (by decide)), if_neg (hne _ (by decide)), if_neg (hne _ (by decide)),
    if_neg (hne _ (by decide)), if_neg (hne _ (by decide)), if_neg hdelim, if_neg hcontrol]

-- What is written begins with a digit exactly if the value does.
theorem head?_escaped_any_isDigit (hd : IsDelimiter d) (v : List Char) :
    (v.flatMap (escape d) ++ [d]).head?.any isDigit = v.head?.any isDigit := by
  have hslash : isDigit '\\' = false := by decide
  cases v with
  | nil => rcases hd with rfl | rfl <;> rfl
  | cons c v =>
    by_cases hdigit : isDigit c = true
    · simp [escape_of_isDigit hd hdigit]
    · rw [Bool.not_eq_true] at hdigit
      rcases escape_cases hd c with ⟨e, -, hletter⟩ | hnumber | ⟨hself, -, -⟩
      · simp [hletter, hslash, hdigit]
      · simp [hnumber, hslash, hdigit]
      · simp [hself]

theorem hasZeroBeforeDigit_cons {v : List Char} : HasZeroBeforeDigit (c :: v) ↔
    (c = '\x00' ∧ v.head?.any isDigit = true) ∨ HasZeroBeforeDigit v := by
  constructor
  · rintro ⟨x, hdigit, hinfix⟩
    rcases List.infix_cons_iff.mp hinfix with hprefix | hinfix
    · obtain ⟨rfl, t, rfl⟩ := List.cons_prefix_cons.mp hprefix
      exact Or.inl ⟨rfl, hdigit⟩
    · exact Or.inr ⟨x, hdigit, hinfix⟩
  · rintro (⟨rfl, hany⟩ | ⟨x, hdigit, hinfix⟩)
    · cases v with
      | nil => cases hany
      | cons x v => exact ⟨x, hany, [], v, rfl⟩
    · exact ⟨x, hdigit, List.infix_cons hinfix⟩

instance decidableHasZeroBeforeDigit : DecidablePred HasZeroBeforeDigit
  | [] => isFalse fun ⟨_, _, hinfix⟩ => List.cons_ne_nil _ _ (List.infix_nil.mp hinfix)
  | _ :: v =>
    have := decidableHasZeroBeforeDigit v
    decidable_of_iff _ hasZeroBeforeDigit_cons.symm

theorem allAllowed_map_partOf_iff (hd : IsDelimiter d) {v : List Char} :
    AllAllowed d (v.map (partOf d)) ↔ ¬ HasZeroBeforeDigit v := by
  induction v with
  | nil => simp [HasZeroBeforeDigit, AllAllowed]
  | cons c v ih =>
    rw [List.map_cons, AllAllowed, ih, hasZeroBeforeDigit_cons, not_or, text_map_partOf]
    refine and_congr_left fun _ => ?_
    by_cases hzero : c = '\x00'
    · have hpart : partOf d '\x00' = .zero := rfl
      subst hzero
      rw [hpart, Part.Allowed, head?_escaped_any_isDigit hd]
      simp
    · simp [allowed_partOf hd hzero, hzero]

theorem consists_quote_iff (hd : IsDelimiter d) {v : List Char} {d' : Char} :
    Consists (quote d v) d' ps ↔ d' = d ∧ ps = v.map (partOf d) ∧ ¬ HasZeroBeforeDigit v := by
  constructor
  · intro h
    obtain ⟨rfl, hrest⟩ := List.cons.inj h.spelled
    have hparts := eq_map_partOf_of_text_eq hd h.allowed (List.append_cancel_right hrest).symm
    refine ⟨rfl, hparts, (allAllowed_map_partOf_iff hd).mp ?_⟩
    rw [← hparts]
    exact h.allowed
  · rintro ⟨rfl, rfl, hzero⟩
    exact ⟨hd, by rw [text_map_partOf]; rfl, (allAllowed_map_partOf_iff hd).mpr hzero⟩

/-- A quoted value is a literal exactly if it has no zero right before a digit, and then its value
is the one that was quoted. -/
theorem quote_hasValue_iff (hd : IsDelimiter d) (v : List Char) (units : List Nat) :
    HasValue (quote d v) units ↔ units = codeUnits v ∧ ¬ HasZeroBeforeDigit v := by
  constructor
  · rintro ⟨d', ps, hconsists, rfl⟩
    obtain ⟨-, rfl, hzero⟩ := (consists_quote_iff hd).mp hconsists
    exact ⟨value_map_partOf hd v, hzero⟩
  · rintro ⟨rfl, hzero⟩
    exact ⟨d, _, (consists_quote_iff hd).mpr ⟨rfl, rfl, hzero⟩, (value_map_partOf hd v).symm⟩

/-- A zero at the end, both quotes, a control character beside digits, and a character of two code
units. -/
theorem quote_hasValue_of_zero_at_end :
    IsDelimiter '"' ∧ HasValue (quote '"' "\x7F41'\"\n😀1\x00".toList)
      [0x7F, 0x34, 0x31, 0x27, 0x22, 0x0A, 0xD83D, 0xDE00, 0x31, 0] :=
  ⟨Or.inr rfl, (quote_hasValue_iff (Or.inr rfl) _ _).mpr ⟨by decide +kernel, by decide +kernel⟩⟩

/-- The zero and the digit make an octal escape, which strict code does not have. -/
theorem quote_no_literal_of_zero_before_digit :
    quote '\'' ['\x00', '1'] = "'\\01'".toList ∧
      ∀ units, ¬ HasValue (quote '\'' ['\x00', '1']) units := by
  refine ⟨by decide +kernel, ?_⟩
  rintro units ⟨d', ps, hconsists, -⟩
  exact ((consists_quote_iff (Or.inl rfl)).mp hconsists).2.2 (by decide)

end Flavoring.JavaScript.StringLiteral
