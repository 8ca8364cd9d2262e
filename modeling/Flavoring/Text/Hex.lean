/-!
Hexadecimal digits, read and written.
-/

namespace Flavoring.Text.Hex

/-- The value of a digit. -/
def digit? (c : Char) : Option Nat :=
  if '0' ≤ c ∧ c ≤ '9' then some (c.toNat - '0'.toNat)
  else if 'a' ≤ c ∧ c ≤ 'f' then some (c.toNat - 'a'.toNat + 10)
  else if 'A' ≤ c ∧ c ≤ 'F' then some (c.toNat - 'A'.toNat + 10)
  else none

def isDigit (c : Char) : Bool := (digit? c).isSome

/-- The number that `cs` writes behind one of value `n`, if `cs` holds digits only. -/
def valueFrom? (n : Nat) : List Char → Option Nat
  | [] => some n
  | c :: cs => (digit? c).bind fun d => valueFrom? (16 * n + d) cs

/-- The number that `cs` writes, if it holds digits only. -/
def value? (cs : List Char) : Option Nat := valueFrom? 0 cs

/-- The number written by the first `n` characters, with what follows them. -/
def leading? (n : Nat) (cs : List Char) : Option (Nat × List Char) :=
  if n ≤ cs.length then (value? (cs.take n)).map fun v => (v, cs.drop n) else none

/-- The lowercase digit of a value below 16. -/
def digit (n : Nat) : Char :=
  if n < 10 then Char.ofNat ('0'.toNat + n) else Char.ofNat ('a'.toNat + (n - 10))

/-- A number below 16⁴ in four digits. -/
def four (n : Nat) : List Char :=
  [digit (n / 4096 % 16), digit (n / 256 % 16), digit (n / 16 % 16), digit (n % 16)]

theorem length_of_leading? {n v : Nat} {cs rest : List Char} (h : leading? n cs = some (v, rest)) :
    rest.length + n = cs.length := by
  unfold leading? at h
  split at h
  · simp only [Option.map_eq_some_iff, Prod.mk.injEq] at h
    obtain ⟨_, _, _, rfl⟩ := h
    rw [List.length_drop]
    omega
  · cases h

end Flavoring.Text.Hex
