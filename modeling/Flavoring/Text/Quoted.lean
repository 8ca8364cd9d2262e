import Flavoring.Text.Bytes
import Flavoring.Text.Hex

/-!
String literals: a value written between two delimiters, and the value that such a text stands for.

A backslash introduces an escape. Writing escapes the delimiter, the backslash and the control
characters; reading takes every escape of the language, and takes any other escaped character for
itself.
-/

namespace Flavoring.Text.Quoted

/-- The control characters of Unicode. -/
def isControl (c : Char) : Bool := c.toNat < 0x20 || (0x7F ≤ c.toNat && c.toNat < 0xA0)

/-- How a character of a value is written. -/
def escape (delimiter c : Char) : List Char :=
  if c = '\\' then ['\\', '\\']
  else if c = '\n' then ['\\', 'n']
  else if c = '\r' then ['\\', 'r']
  else if c = '\t' then ['\\', 't']
  else if c = '\x00' then ['\\', '0']
  else if c = delimiter then ['\\', c]
  else if isControl c then '\\' :: 'u' :: Hex.four c.toNat
  else [c]

/-- The literal that stands for `value`. -/
def quote (delimiter : Char) (value : List Char) : List Char :=
  delimiter :: value.flatMap (escape delimiter) ++ [delimiter]

/-- The character of a code point, or the replacement character if there is none. -/
def ofCodePoint (n : Nat) : Char := if n.isValidChar then Char.ofNat n else '\uFFFD'

/-- The code point that digits in braces stand for. -/
def digitsCodePoint? (digits : List Char) : Option Nat :=
  if digits.isEmpty then none
  else (Hex.value? digits).bind fun n => if n < UInt32.size then some n else none

/-- The code point of an escape in braces, whose opening brace is read, with what follows it. -/
def bracedCodePoint? (cs : List Char) : Option (Nat × List Char) :=
  match cs.dropWhile (· != '}') with
  | [] => none
  | _ :: rest => (digitsCodePoint? (cs.takeWhile (· != '}'))).map fun n => (n, rest)

/-- The second half of a surrogate pair, as an escape of its own. -/
def lowSurrogate? : List Char → Option (Nat × List Char)
  | '\\' :: 'u' :: cs =>
    match Hex.leading? 4 cs with
    | some (n, rest) => if 0xDC00 ≤ n ∧ n ≤ 0xDFFF then some (n, rest) else none
    | none => none
  | _ => none

/-- The code point of an escape whose `u` is read, with what follows it. Two surrogates that form a
pair are one code point. -/
def codePoint? : List Char → Option (Nat × List Char)
  | '{' :: cs => bracedCodePoint? cs
  | cs =>
    match Hex.leading? 4 cs with
    | none => none
    | some (high, rest) =>
      if 0xD800 ≤ high ∧ high ≤ 0xDBFF then
        match lowSurrogate? rest with
        | some (low, rest) => some (0x10000 + (high - 0xD800) * 0x400 + (low - 0xDC00), rest)
        | none => some (high, rest)
      else some (high, rest)

/-- What an escaped character stands for that needs no more than itself. An escaped line break
stands for nothing. -/
def unescapeOne (c : Char) : List Char :=
  if c = 'n' then ['\n']
  else if c = 'r' then ['\r']
  else if c = 't' then ['\t']
  else if c = 'b' then ['\x08']
  else if c = 'f' then ['\x0C']
  else if c = 'v' then ['\x0B']
  else if c = '0' then ['\x00']
  else if c = '\n' || c = '\r' || c = '\u2028' || c = '\u2029' then []
  else [c]

/-- A line feed that comes first belongs to the carriage return before it. -/
def skipLineFeed : List Char → List Char
  | '\n' :: cs => cs
  | cs => cs

/-- What an escape stands for and what follows it; nothing if no character is escaped. -/
def unescape? : List Char → Option (List Char × List Char)
  | [] => none
  | c :: cs =>
    if c = 'x' then
      match Hex.leading? 2 cs with
      | some (n, rest) => some ([ofCodePoint n], rest)
      | none => some ([c], cs)
    else if c = 'u' then
      match codePoint? cs with
      | some (n, rest) => some ([ofCodePoint n], rest)
      | none => some ([c], cs)
    else if c = '\r' then some (unescapeOne c, skipLineFeed cs)
    else some (unescapeOne c, cs)

theorem length_dropWhile_le (p : Char → Bool) (cs : List Char) :
    (cs.dropWhile p).length ≤ cs.length :=
  (List.dropWhile_sublist p).length_le

theorem length_of_bracedCodePoint? {n : Nat} {cs rest : List Char}
    (h : bracedCodePoint? cs = some (n, rest)) : rest.length < cs.length := by
  have hle := length_dropWhile_le (· != '}') cs
  unfold bracedCodePoint? at h
  split at h
  · cases h
  · rename_i heq
    rw [heq, List.length_cons] at hle
    simp only [Option.map_eq_some_iff, Prod.mk.injEq] at h
    obtain ⟨_, _, _, rfl⟩ := h
    exact hle

theorem length_of_lowSurrogate? {n : Nat} {cs rest : List Char}
    (h : lowSurrogate? cs = some (n, rest)) : rest.length + 6 = cs.length := by
  unfold lowSurrogate? at h
  split at h
  · split at h
    · rename_i hlead
      split at h
      · cases h
        simpa using Hex.length_of_leading? hlead
      · cases h
    · cases h
  · cases h

theorem length_of_codePoint? {n : Nat} {cs rest : List Char}
    (h : codePoint? cs = some (n, rest)) : rest.length < cs.length := by
  unfold codePoint? at h
  split at h
  · have := length_of_bracedCodePoint? h
    rw [List.length_cons]
    omega
  · split at h
    · cases h
    · rename_i hlead
      have hlen := Hex.length_of_leading? hlead
      split at h
      · split at h
        · rename_i hlow
          have := length_of_lowSurrogate? hlow
          obtain ⟨_, rfl⟩ := Prod.mk.inj (Option.some.inj h)
          omega
        · cases h; omega
      · cases h; omega

theorem length_skipLineFeed_le (cs : List Char) : (skipLineFeed cs).length ≤ cs.length := by
  unfold skipLineFeed
  split
  · rw [List.length_cons]; omega
  · exact Nat.le_refl _

theorem length_of_unescape? {out cs rest : List Char} (h : unescape? cs = some (out, rest)) :
    rest.length < cs.length := by
  cases cs with
  | nil => cases h
  | cons c cs =>
    rw [List.length_cons]
    simp only [unescape?] at h
    split at h
    · split at h
      · rename_i hlead
        have := Hex.length_of_leading? hlead
        cases h; omega
      · cases h; omega
    · split at h
      · split at h
        · rename_i hpoint
          have := length_of_codePoint? hpoint
          cases h; omega
        · cases h; omega
      · split at h
        · have := length_skipLineFeed_le cs
          cases h; omega
        · cases h; omega

/-- The value of a literal's text between its delimiters. -/
def unescape : List Char → List Char
  | [] => []
  | c :: cs =>
    if c = '\\' then
      match _h : unescape? cs with
      | some (out, rest) => out ++ unescape rest
      | none => []
    else c :: unescape cs
termination_by cs => cs.length
decreasing_by
  · have := length_of_unescape? _h
    rw [List.length_cons]
    omega
  · simp

/-- The value of a literal, given with its delimiters: whatever the first and the last byte are,
they do not count. -/
def unquote (raw : List Char) : List Char :=
  unescape ((slice? raw 1 (byteLength raw - 1)).getD [])

end Flavoring.Text.Quoted
