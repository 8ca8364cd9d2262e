import Flavoring.Text.Bytes

/-!
Cuts of a text: the offsets that stand between two characters.

Cutting a text succeeds at cuts and nowhere else. Next to an ASCII byte a cut on one side of it is a
cut on the other side too.
-/

namespace Flavoring.Text

variable {cs front back mid : List Char} {m n start stop : Nat} {b : UInt8}

/-! Lengths -/

@[simp] theorem byteLength_nil : byteLength [] = 0 := rfl

@[simp] theorem byteLength_cons (c : Char) (cs : List Char) :
    byteLength (c :: cs) = c.utf8Size + byteLength cs := rfl

@[simp] theorem byteLength_append (front back : List Char) :
    byteLength (front ++ back) = byteLength front + byteLength back := by
  induction front with
  | nil => simp
  | cons c front ih => simp [ih, Nat.add_assoc]

theorem length_le_byteLength (cs : List Char) : cs.length ≤ byteLength cs := by
  induction cs with
  | nil => simp
  | cons c cs ih =>
    have hpos := c.utf8Size_pos
    simp only [List.length_cons, byteLength_cons]
    omega

@[simp] theorem bytes_cons (c : Char) (cs : List Char) :
    bytes (c :: cs) = String.utf8EncodeChar c ++ bytes cs := rfl

@[simp] theorem bytes_append (front back : List Char) :
    bytes (front ++ back) = bytes front ++ bytes back := by
  simp [bytes]

@[simp] theorem length_bytes (cs : List Char) : (bytes cs).length = byteLength cs := by
  induction cs with
  | nil => rfl
  | cons c cs ih => simp [ih]

theorem byteLength_toList (s : String) : byteLength s.toList = s.utf8ByteSize := by
  rw [← length_bytes, ← String.size_toByteArray, ← String.ofList_toList (s := s),
    String.toByteArray_ofList, String.toList_ofList, List.utf8Encode, List.size_toByteArray]
  rfl

/-! Cuts -/

-- `n` stands between two characters of `cs`, or at one of its ends
def IsCut (cs : List Char) (n : Nat) : Prop :=
  ∃ front back, cs = front ++ back ∧ byteLength front = n

namespace IsCut

theorem zero (cs : List Char) : IsCut cs 0 := ⟨[], cs, rfl, rfl⟩

theorem all (cs : List Char) : IsCut cs (byteLength cs) := ⟨cs, [], by simp, rfl⟩

theorem le (h : IsCut cs n) : n ≤ byteLength cs := by
  obtain ⟨front, back, rfl, rfl⟩ := h
  simp

end IsCut

-- The shorter of two fronts of one text is a front of the longer.
theorem exists_append_of_byteLength_le {front' back' : List Char}
    (h : front ++ back = front' ++ back') (hle : byteLength front ≤ byteLength front') :
    ∃ mid, front' = front ++ mid ∧ back = mid ++ back' := by
  rcases List.append_eq_append_iff.mp h with ⟨mid, hfront, hback⟩ | ⟨mid, hfront, hback⟩
  · exact ⟨mid, hfront, hback⟩
  · have hlength : byteLength front = byteLength front' + byteLength mid := by
      rw [hfront, byteLength_append]
    have hmid := length_le_byteLength mid
    have hnil : mid = [] := List.eq_nil_of_length_eq_zero (by omega)
    subst hnil
    exact ⟨[], by simpa using hfront.symm, by simpa using hback.symm⟩

theorem splitAt?_eq_some_iff :
    splitAt? n cs = some (front, back) ↔ cs = front ++ back ∧ byteLength front = n := by
  fun_induction splitAt? n cs generalizing front back with
  | case1 cs =>
    constructor
    · intro h
      cases h
      exact ⟨rfl, rfl⟩
    · rintro ⟨rfl, hzero⟩
      have hlength := length_le_byteLength front
      have hnil : front = [] := List.eq_nil_of_length_eq_zero (by omega)
      simp [hnil]
  | case2 n =>
    constructor
    · exact nofun
    · rintro ⟨hnil, hn⟩
      obtain ⟨rfl, rfl⟩ := List.append_eq_nil_iff.mp hnil.symm
      cases hn
  | case3 n c cs hle ih =>
    simp only [Option.map_eq_some_iff, Prod.exists, Prod.mk.injEq]
    constructor
    · rintro ⟨front', back', h, rfl, rfl⟩
      obtain ⟨rfl, hlength⟩ := ih.mp h
      exact ⟨rfl, by rw [byteLength_cons]; omega⟩
    · rintro ⟨h, hlength⟩
      cases front with
      | nil => cases hlength
      | cons d front =>
        obtain ⟨rfl, rfl⟩ := List.cons.inj h
        rw [byteLength_cons] at hlength
        exact ⟨front, back, ih.mpr ⟨rfl, by omega⟩, rfl, rfl⟩
  | case4 n c cs hle =>
    constructor
    · exact nofun
    · rintro ⟨h, hlength⟩
      cases front with
      | nil => cases hlength
      | cons d front =>
        obtain ⟨rfl, rfl⟩ := List.cons.inj h
        rw [byteLength_cons] at hlength
        omega

theorem drop?_eq_some_iff :
    drop? n cs = some back ↔ ∃ front, cs = front ++ back ∧ byteLength front = n := by
  simp [drop?, splitAt?_eq_some_iff]

-- What stands between two offsets is cut out exactly when both are cuts and in order.
theorem slice?_eq_some_iff :
    slice? cs start stop = some mid ↔
      ∃ front back, cs = front ++ mid ++ back ∧ byteLength front = start ∧
        byteLength (front ++ mid) = stop := by
  unfold slice?
  split
  case isTrue hle =>
    simp only [Option.bind_eq_some_iff, Option.map_eq_some_iff, Prod.exists, drop?_eq_some_iff,
      splitAt?_eq_some_iff]
    constructor
    · rintro ⟨rest, ⟨front, rfl, hfront⟩, mid', back, ⟨rfl, hmid⟩, rfl⟩
      exact ⟨front, back, by simp, hfront, by rw [byteLength_append]; omega⟩
    · rintro ⟨front, back, rfl, hfront, hstop⟩
      rw [byteLength_append] at hstop
      exact ⟨mid ++ back, ⟨front, by simp, hfront⟩, mid, back, ⟨rfl, by omega⟩, rfl⟩
  case isFalse hle =>
    constructor
    · exact nofun
    · rintro ⟨front, back, -, hfront, hstop⟩
      rw [byteLength_append] at hstop
      omega

theorem isSome_slice?_iff :
    (slice? cs start stop).isSome = true ↔ start ≤ stop ∧ IsCut cs start ∧ IsCut cs stop := by
  rw [Option.isSome_iff_exists]
  constructor
  · rintro ⟨mid, h⟩
    obtain ⟨front, back, hcs, hfront, hstop⟩ := slice?_eq_some_iff.mp h
    refine ⟨?_, ⟨front, mid ++ back, by simp [hcs], hfront⟩, ⟨front ++ mid, back, hcs, hstop⟩⟩
    rw [byteLength_append] at hstop
    omega
  · rintro ⟨hle, ⟨front, back, rfl, rfl⟩, ⟨front', back', h, rfl⟩⟩
    obtain ⟨mid, rfl, rfl⟩ := exists_append_of_byteLength_le h hle
    exact ⟨mid, slice?_eq_some_iff.mpr ⟨front, back', by simp, rfl, rfl⟩⟩

-- What stands between two cuts is divided by a third.
theorem slice?_append {a b c : Nat} (hac : a ≤ c) (hcb : c ≤ b) (ha : IsCut cs a)
    (hc : IsCut cs c) (hb : IsCut cs b) :
    (slice? cs a b).getD [] = (slice? cs a c).getD [] ++ (slice? cs c b).getD [] := by
  obtain ⟨front, back, rfl, rfl⟩ := ha
  obtain ⟨front', back', hcs, rfl⟩ := hc
  obtain ⟨left, rfl, rfl⟩ := exists_append_of_byteLength_le hcs hac
  obtain ⟨front', back'', hcs, rfl⟩ := hb
  rw [← List.append_assoc] at hcs
  obtain ⟨right, rfl, rfl⟩ := exists_append_of_byteLength_le hcs hcb
  have hleft : slice? (front ++ (left ++ (right ++ back''))) (byteLength front)
      (byteLength (front ++ left)) = some left :=
    slice?_eq_some_iff.mpr ⟨front, right ++ back'', by simp, rfl, rfl⟩
  have hright : slice? (front ++ (left ++ (right ++ back''))) (byteLength (front ++ left))
      (byteLength (front ++ left ++ right)) = some right :=
    slice?_eq_some_iff.mpr ⟨front ++ left, back'', by simp, rfl, rfl⟩
  have hboth : slice? (front ++ (left ++ (right ++ back''))) (byteLength front)
      (byteLength (front ++ left ++ right)) = some (left ++ right) :=
    slice?_eq_some_iff.mpr ⟨front, back'', by simp, rfl, by rw [List.append_assoc]⟩
  rw [hleft, hright, hboth]
  rfl

/-! Next to ASCII -/

-- All bytes of a longer encoding have their high bit set.
theorem utf8Size_eq_one_of_mem {c : Char} (hmem : b ∈ String.utf8EncodeChar c)
    (hb : b.toNat < 0x80) : c.utf8Size = 1 := by
  rw [← String.length_utf8EncodeChar]
  revert hmem
  fun_cases String.utf8EncodeChar c with
  | case1 => exact fun _ => rfl
  | case2 =>
    intro hmem
    simp only [List.mem_cons, List.not_mem_nil, or_false] at hmem
    rcases hmem with rfl | rfl <;> simp only [UInt8.toNat_ofNat'] at hb <;> omega
  | case3 =>
    intro hmem
    simp only [List.mem_cons, List.not_mem_nil, or_false] at hmem
    rcases hmem with rfl | rfl | rfl <;> simp only [UInt8.toNat_ofNat'] at hb <;> omega
  | case4 =>
    intro hmem
    simp only [List.mem_cons, List.not_mem_nil, or_false] at hmem
    rcases hmem with rfl | rfl | rfl | rfl <;> simp only [UInt8.toNat_ofNat'] at hb <;> omega

-- An ASCII byte is the whole of its character.
theorem toNat_eq_of_mem {c : Char} (hmem : b ∈ String.utf8EncodeChar c) (hb : b.toNat < 0x80) :
    c.toNat = b.toNat := by
  have hone := utf8Size_eq_one_of_mem hmem hb
  rw [String.utf8EncodeChar_eq_singleton hone, List.mem_singleton] at hmem
  have hle : c.val.toNat ≤ 0x7f := Char.utf8Size_eq_one_iff.mp hone
  rw [hmem, UInt32.toNat_toUInt8, Nat.mod_eq_of_lt (by omega)]
  rfl

-- The bytes of a character in a text.
theorem getElem?_bytes (front back : List Char) {c : Char} (hi : n < c.utf8Size) :
    (bytes (front ++ c :: back))[byteLength front + n]? = (String.utf8EncodeChar c)[n]? := by
  have hlt : n < (String.utf8EncodeChar c).length := by rwa [String.length_utf8EncodeChar]
  rw [bytes_append, ← length_bytes, List.getElem?_append_right (Nat.le_add_right _ _),
    Nat.add_sub_cancel_left, bytes_cons, List.getElem?_append_left hlt]

namespace IsCut

theorem succ (h : IsCut cs n) (hn : (bytes cs)[n]? = some b) (hb : b.toNat < 0x80) :
    IsCut cs (n + 1) := by
  obtain ⟨front, back, rfl, rfl⟩ := h
  cases back with
  | nil =>
    rw [List.append_nil, ← length_bytes, List.getElem?_eq_none (Nat.le_refl _)] at hn
    cases hn
  | cons c back =>
    rw [← Nat.add_zero (byteLength front), getElem?_bytes front back c.utf8Size_pos] at hn
    have hone := utf8Size_eq_one_of_mem (List.mem_of_getElem? hn) hb
    exact ⟨front ++ [c], back, by simp, by simp [hone]⟩

theorem pred (h : IsCut cs (n + 1)) (hn : (bytes cs)[n]? = some b) (hb : b.toNat < 0x80) :
    IsCut cs n := by
  obtain ⟨front, back, rfl, hfront⟩ := h
  rcases List.eq_nil_or_concat front with rfl | ⟨front, c, rfl⟩
  · cases hfront
  · have hpos := c.utf8Size_pos
    simp only [List.concat_eq_append, byteLength_append, byteLength_cons, byteLength_nil] at hfront
    have hmem : b ∈ String.utf8EncodeChar c := by
      have hlast : n = byteLength front + (c.utf8Size - 1) := by omega
      rw [List.concat_eq_append, List.append_assoc, List.singleton_append, hlast,
        getElem?_bytes front back (by omega)] at hn
      exact List.mem_of_getElem? hn
    have hone := utf8Size_eq_one_of_mem hmem hb
    exact ⟨front, c :: back, by simp, by omega⟩

-- A cut moves over any stretch of ASCII bytes, in both directions.
theorem forward (h : IsCut cs m) (hmn : m ≤ n)
    (hascii : ∀ i, m ≤ i → i < n → ∃ b, (bytes cs)[i]? = some b ∧ b.toNat < 0x80) :
    IsCut cs n := by
  induction hmn with
  | refl => exact h
  | @step n hle ih =>
    have hn := ih fun i him hin => hascii i him (by omega)
    obtain ⟨b, hb, hlow⟩ := hascii n hle (Nat.lt_succ_self n)
    exact hn.succ hb hlow

theorem backward (h : IsCut cs n) (hmn : m ≤ n)
    (hascii : ∀ i, m ≤ i → i < n → ∃ b, (bytes cs)[i]? = some b ∧ b.toNat < 0x80) :
    IsCut cs m := by
  induction hmn with
  | refl => exact h
  | @step n hle ih =>
    obtain ⟨b, hb, hlow⟩ := hascii n hle (Nat.lt_succ_self n)
    exact ih (h.pred hb hlow) fun i him hin => hascii i him (by omega)

end IsCut

end Flavoring.Text
