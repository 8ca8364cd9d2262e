import Mathlib.Algebra.GroupWithZero.Nat
import Mathlib.Data.List.TakeWhile
import Flavoring.Proofs.Text.Quoting
import Flavoring.JavaScript.Character

/-!
String literals of the language: what they may be written as, and what they stand for.

A literal is written part by part: characters that stand for themselves, escapes and line
continuations. Some parts depend on the character behind them. The value is made of 16-bit code
units, so a half of a surrogate pair can be written on its own. All this is the grammar of strict
code, as modules are: a zero escape stands before no digit, and there are no octal escapes.
-/

namespace Flavoring.JavaScript

/-! Code units -/

def IsHighSurrogate (u : Nat) : Prop := 0xD800 ≤ u ∧ u ≤ 0xDBFF

def IsLowSurrogate (u : Nat) : Prop := 0xDC00 ≤ u ∧ u ≤ 0xDFFF

instance : DecidablePred IsHighSurrogate := fun _ => inferInstanceAs (Decidable (_ ∧ _))

instance : DecidablePred IsLowSurrogate := fun _ => inferInstanceAs (Decidable (_ ∧ _))

def IsSurrogate (u : Nat) : Prop := IsHighSurrogate u ∨ IsLowSurrogate u

instance : DecidablePred IsSurrogate := fun _ => inferInstanceAs (Decidable (_ ∨ _))

/-- The code units of a code point. -/
def encode (n : Nat) : List Nat :=
  if n ≤ 0xFFFF then [n] else [0xD800 + (n - 0x10000) / 0x400, 0xDC00 + (n - 0x10000) % 0x400]

/-- The code units of a text. -/
def codeUnits (cs : List Char) : List Nat := cs.flatMap fun c => encode c.toNat

/-- Every surrogate belongs to a pair of a high and a low one. -/
inductive WellFormed : List Nat → Prop
  | nil : WellFormed []
  | unit {u : Nat} {us : List Nat} : ¬ IsSurrogate u → WellFormed us → WellFormed (u :: us)
  | pair {high low : Nat} {us : List Nat} : IsHighSurrogate high → IsLowSurrogate low →
    WellFormed us → WellFormed (high :: low :: us)

namespace StringLiteral

/-! Characters -/

def hexDigits : List Char := "0123456789abcdefABCDEF".toList

def digitValue (c : Char) : Nat := "0123456789abcdef".toList.idxOf c.toLower

/-- The number that hexadecimal digits write. -/
def number (digits : List Char) : Nat := digits.foldl (fun n c => 16 * n + digitValue c) 0

def lineTerminators : List Char := ['\n', '\r', '\u2028', '\u2029']

/-- The characters that are escapes by themselves, with what they stand for. -/
def singleEscapes : List (Char × Char) :=
  [('\'', '\''), ('"', '"'), ('\\', '\\'), ('b', '\x08'), ('f', '\x0C'), ('n', '\n'), ('r', '\r'),
    ('t', '\t'), ('v', '\x0B')]

def IsSingleEscape (c : Char) : Prop := c ∈ singleEscapes.map Prod.fst

instance : DecidablePred IsSingleEscape := fun _ => inferInstanceAs (Decidable (_ ∈ _))

/-- The character has a meaning of its own behind a backslash. -/
def IsEscapeCharacter (c : Char) : Prop := IsSingleEscape c ∨ isDigit c = true ∨ c = 'x' ∨ c = 'u'

instance : DecidablePred IsEscapeCharacter := fun _ => inferInstanceAs (Decidable (_ ∨ _))

/-! Parts -/

/-- One part of a literal. -/
inductive Part
  | verbatim (c : Char)
  | escaped (c : Char)
  | zero
  | byte (digits : List Char)
  | unit (digits : List Char)
  | point (digits : List Char)
  | continuation (lineBreak : List Char)
deriving DecidableEq, Repr

namespace Part

def text : Part → List Char
  | verbatim c => [c]
  | escaped c => ['\\', c]
  | zero => ['\\', '0']
  | byte digits => '\\' :: 'x' :: digits
  | unit digits => '\\' :: 'u' :: digits
  | point digits => '\\' :: 'u' :: '{' :: digits ++ ['}']
  | continuation lineBreak => '\\' :: lineBreak

def value : Part → List Nat
  | verbatim c => encode c.toNat
  | escaped c => encode ((singleEscapes.lookup c).getD c).toNat
  | zero => [0]
  | byte digits => [number digits]
  | unit digits => [number digits]
  | point digits => encode (number digits)
  | continuation _ => []

/-- The part may be written in a literal with this delimiter, before this text. -/
def Allowed (delimiter : Char) (following : List Char) : Part → Prop
  | verbatim c => c ≠ delimiter ∧ c ≠ '\\' ∧ (c ∈ lineTerminators → c = '\u2028' ∨ c = '\u2029')
  | escaped c => IsSingleEscape c ∨ (¬ IsEscapeCharacter c ∧ c ∉ lineTerminators)
  | zero => following.head?.any isDigit = false
  | byte digits => digits.length = 2 ∧ digits ⊆ hexDigits
  | unit digits => digits.length = 4 ∧ digits ⊆ hexDigits
  | point digits => digits ≠ [] ∧ digits ⊆ hexDigits ∧ number digits ≤ 0x10FFFF
  | continuation lineBreak =>
    lineBreak ∈ [['\n'], ['\u2028'], ['\u2029'], ['\r', '\n']] ∨
      (lineBreak = ['\r'] ∧ following.head? ≠ some '\n')

instance (delimiter : Char) (following : List Char) : DecidablePred (Allowed delimiter following)
  | verbatim _ => inferInstanceAs (Decidable (_ ∧ _))
  | escaped _ => inferInstanceAs (Decidable (_ ∨ _))
  | zero => inferInstanceAs (Decidable (_ = false))
  | byte _ => inferInstanceAs (Decidable (_ ∧ _))
  | unit _ => inferInstanceAs (Decidable (_ ∧ _))
  | point _ => inferInstanceAs (Decidable (_ ∧ _))
  | continuation _ => inferInstanceAs (Decidable (_ ∨ _))

end Part

/-! Literals -/

def text (parts : List Part) : List Char := parts.flatMap Part.text

def value (parts : List Part) : List Nat := parts.flatMap Part.value

/-- Each of the parts may be written before the others and the closing delimiter. -/
def AllAllowed (delimiter : Char) : List Part → Prop
  | [] => True
  | p :: ps => p.Allowed delimiter (text ps ++ [delimiter]) ∧ AllAllowed delimiter ps

instance decidableAllAllowed (delimiter : Char) : DecidablePred (AllAllowed delimiter)
  | [] => isTrue trivial
  | _ :: ps =>
    have := decidableAllAllowed delimiter ps
    inferInstanceAs (Decidable (_ ∧ _))

/-- `raw` is a literal, made of these parts. -/
structure Consists (raw : List Char) (delimiter : Char) (parts : List Part) : Prop where
  delimits : Text.Quoted.IsDelimiter delimiter
  spelled : raw = delimiter :: text parts ++ [delimiter]
  allowed : AllAllowed delimiter parts

/-- `raw` is a literal, and these code units are its value. -/
def HasValue (raw : List Char) (units : List Nat) : Prop :=
  ∃ delimiter parts, Consists raw delimiter parts ∧ units = value parts

variable {d c : Char} {digits following cs : List Char} {p : Part} {ps qs : List Part}

@[simp] theorem text_nil : text [] = [] := rfl

@[simp] theorem text_cons (p : Part) (ps : List Part) : text (p :: ps) = p.text ++ text ps := rfl

@[simp] theorem value_cons (p : Part) (ps : List Part) :
    value (p :: ps) = p.value ++ value ps := rfl

/-! Numbers -/

theorem hexDigit?_of_mem (h : c ∈ hexDigits) : Text.Hex.digit? c = some (digitValue c) := by
  have hall : hexDigits.all (fun c => Text.Hex.digit? c = some (digitValue c)) = true := by decide
  exact of_decide_eq_true (List.all_eq_true.mp hall c h)

theorem ne_brace_of_mem (h : c ∈ hexDigits) : (c != '}') = true := by
  have hall : hexDigits.all (· != '}') = true := by decide
  exact List.all_eq_true.mp hall c h

theorem digitValue_lt (h : c ∈ hexDigits) : digitValue c < 16 := by
  have hall : hexDigits.all (fun c => digitValue c < 16) = true := by decide
  exact of_decide_eq_true (List.all_eq_true.mp hall c h)

theorem hexValue?_of_subset (h : digits ⊆ hexDigits) :
    Text.Hex.value? digits = some (number digits) := by
  have hfrom (n : Nat) : Text.Hex.valueFrom? n digits =
      some (digits.foldl (fun n c => 16 * n + digitValue c) n) := by
    induction digits generalizing n with
    | nil => rfl
    | cons c digits ih =>
      rw [List.cons_subset] at h
      rw [Text.Hex.valueFrom?, hexDigit?_of_mem h.1, Option.bind_some, ih h.2, List.foldl_cons]
  exact hfrom 0

theorem number_lt (h : digits ⊆ hexDigits) : number digits < 16 ^ digits.length := by
  have hfrom (n : Nat) : digits.foldl (fun n c => 16 * n + digitValue c) n <
      16 ^ digits.length * (n + 1) := by
    induction digits generalizing n with
    | nil => simp
    | cons c digits ih =>
      rw [List.cons_subset] at h
      have hdigit := digitValue_lt h.1
      calc digits.foldl (fun n c => 16 * n + digitValue c) (16 * n + digitValue c)
          < 16 ^ digits.length * (16 * n + digitValue c + 1) := ih h.2 _
        _ ≤ 16 ^ digits.length * (16 * (n + 1)) := Nat.mul_le_mul_left _ (by omega)
        _ = 16 ^ (c :: digits).length * (n + 1) := by
          rw [List.length_cons, Nat.pow_succ, Nat.mul_assoc]
  exact (hfrom 0).trans_eq (Nat.mul_one _)

theorem leading?_append {k : Nat} (hlength : digits.length = k) (h : digits ⊆ hexDigits)
    (rest : List Char) : Text.Hex.leading? k (digits ++ rest) = some (number digits, rest) := by
  rw [Text.Hex.leading?, if_pos (by simp [hlength]), List.take_left' hlength,
    hexValue?_of_subset h, List.drop_left' hlength]
  rfl

theorem append_ne_brace (hlength : digits.length = 4) (h : digits ⊆ hexDigits)
    (rest cs : List Char) : digits ++ rest ≠ '{' :: cs := by
  intro hbrace
  cases digits with
  | nil => cases hlength
  | cons c digits =>
    obtain ⟨rfl, -⟩ := List.cons.inj hbrace
    exact absurd (h List.mem_cons_self) (by decide)

/-! Only one part can come first -/

-- What stands behind a backslash, by its first characters.
def nextEscape : List Char → Option (Part × List Char)
  | [] => none
  | '0' :: cs => some (.zero, cs)
  | 'x' :: cs => some (.byte (cs.take 2), cs.drop 2)
  | 'u' :: '{' :: cs => some (.point (cs.takeWhile (· != '}')), (cs.dropWhile (· != '}')).tail)
  | 'u' :: cs => some (.unit (cs.take 4), cs.drop 4)
  | '\r' :: '\n' :: cs => some (.continuation ['\r', '\n'], cs)
  | c :: cs => some (if c ∈ lineTerminators then .continuation [c] else .escaped c, cs)

-- The part that comes first, by its first characters, and what follows it.
def next : List Char → Option (Part × List Char)
  | [] => none
  | '\\' :: cs => nextEscape cs
  | c :: cs => some (.verbatim c, cs)

theorem nextEscape_plain (h : c ∉ ['0', 'x', 'u', '\r']) (cs : List Char) :
    nextEscape (c :: cs) =
      some (if c ∈ lineTerminators then .continuation [c] else .escaped c, cs) := by
  simp only [List.mem_cons, List.not_mem_nil, or_false, not_or] at h
  unfold nextEscape
  split <;> simp_all

theorem not_mem_of_allowed_escaped (h : (Part.escaped c).Allowed d following) :
    c ∉ ['0', 'x', 'u', '\r'] ∧ c ∉ lineTerminators := by
  have hsingles : (singleEscapes.map Prod.fst).all
      (fun c => c ∉ ['0', 'x', 'u', '\r'] ∧ c ∉ lineTerminators) = true := by decide
  rcases h with hsingle | ⟨hescape, hline⟩
  · exact of_decide_eq_true (List.all_eq_true.mp hsingles c hsingle)
  · refine ⟨fun hmem => ?_, hline⟩
    simp only [List.mem_cons, List.not_mem_nil, or_false] at hmem
    rcases hmem with rfl | rfl | rfl | rfl
    · exact hescape (by decide)
    · exact hescape (by decide)
    · exact hescape (by decide)
    · exact hline (by decide)

theorem next_text (h : p.Allowed d following) :
    next (p.text ++ following) = some (p, following) := by
  cases p with
  | verbatim c =>
    rw [Part.text, List.singleton_append, next]
    exact fun hslash => absurd hslash h.2.1
  | escaped c =>
    have hc := not_mem_of_allowed_escaped h
    rw [Part.text, List.cons_append, List.singleton_append, next, nextEscape_plain hc.1,
      if_neg hc.2]
  | zero => rfl
  | byte digits =>
    rw [Part.text, List.cons_append, List.cons_append, next, nextEscape, List.take_left' h.1,
      List.drop_left' h.1]
  | unit digits =>
    rw [Part.text, List.cons_append, List.cons_append, next, nextEscape, List.take_left' h.1,
      List.drop_left' h.1]
    exact fun cs hbrace => append_ne_brace h.1 h.2 following cs hbrace
  | point digits =>
    have hclose : ∀ c ∈ digits, (c != '}') = true := fun c hc => ne_brace_of_mem (h.2.1 hc)
    simp only [Part.text, List.cons_append, next, nextEscape, List.append_assoc,
      List.takeWhile_append_of_pos hclose, List.dropWhile_append_of_pos hclose]
    simp
  | continuation lineBreak =>
    rcases h with hmem | ⟨rfl, hfeed⟩
    · simp only [List.mem_cons, List.not_mem_nil, or_false] at hmem
      rcases hmem with rfl | rfl | rfl | rfl <;> rfl
    · cases following with
      | nil => rfl
      | cons c following =>
        have hc : c ≠ '\n' := by simpa using hfeed
        simp [Part.text, next, nextEscape, hc, lineTerminators]

theorem Part.text_ne_nil (p : Part) : p.text ≠ [] := by
  cases p <;> exact List.cons_ne_nil _ _

theorem text_append_inj {following' : List Char} {q : Part} (hp : p.Allowed d following)
    (hq : q.Allowed d following') (h : p.text ++ following = q.text ++ following') :
    p = q ∧ following = following' := by
  have hnext := next_text hp
  rw [h, next_text hq] at hnext
  cases hnext
  exact ⟨rfl, rfl⟩

theorem eq_of_text_eq (hp : AllAllowed d ps) (hq : AllAllowed d qs) (h : text ps = text qs) :
    ps = qs := by
  induction ps generalizing qs with
  | nil =>
    cases qs with
    | nil => rfl
    | cons q qs => exact absurd (List.append_eq_nil_iff.mp h.symm).1 q.text_ne_nil
  | cons p ps ih =>
    cases qs with
    | nil => exact absurd (List.append_eq_nil_iff.mp h).1 p.text_ne_nil
    | cons q qs =>
      have hclosed : p.text ++ (text ps ++ [d]) = q.text ++ (text qs ++ [d]) := by
        rw [← List.append_assoc, ← List.append_assoc, ← text_cons, ← text_cons, h]
      obtain ⟨rfl, hrest⟩ := text_append_inj hp.1 hq.1 hclosed
      rw [ih hp.2 hq.2 (List.append_cancel_right hrest)]

/-- The grammar is unambiguous: a literal has one delimiter, and is made of parts in one way. -/
theorem Consists.unique {raw : List Char} {d' : Char} (h : Consists raw d ps)
    (h' : Consists raw d' qs) : d = d' ∧ ps = qs := by
  have hspelled := h.spelled.symm.trans h'.spelled
  obtain ⟨rfl, hrest⟩ := List.cons.inj hspelled
  exact ⟨rfl, eq_of_text_eq h.allowed h'.allowed (List.append_cancel_right hrest)⟩

/-- A literal has one value. -/
theorem HasValue.unique {raw : List Char} {us us' : List Nat} (h : HasValue raw us)
    (h' : HasValue raw us') : us = us' := by
  obtain ⟨d, ps, hconsists, rfl⟩ := h
  obtain ⟨d', qs, hconsists', rfl⟩ := h'
  rw [(hconsists.unique hconsists').2]

end StringLiteral

end Flavoring.JavaScript
