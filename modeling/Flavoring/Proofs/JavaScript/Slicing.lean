import Flavoring.Proofs.JavaScript.Escapes

/-!
Slicing: a literal is read by slices at counted offsets, and all of them stand between characters.

The reader goes from one backslash to the next and slices off what it has read. Where it only looks
ahead, for digits, a slice may be missing; where it cuts the text, a slice that is out of bounds or
cuts a character is a fault. No text has one: what is counted for an escape is exactly what the escape
takes. So the reader gives every text its value, and each turn leaves less of it.
-/

namespace Flavoring.JavaScript.StringLiteral

open Text Text.Quoted

variable {c : Char} {n code used : Nat} {digits plain front cs rest : List Char}

/-! The reader by slices -/

namespace Sliced

/-- A slice whose ends are not in order, or do not both stand between characters of the text. -/
structure BadSlice where
  text : List Char
  start : Nat
  stop : Nat
deriving DecidableEq, Repr

/-- The text between two offsets. -/
def slice (cs : List Char) (start stop : Nat) : Except BadSlice (List Char) :=
  match slice? cs start stop with
  | some mid => .ok mid
  | none => .error ⟨cs, start, stop⟩

def sliceTo (cs : List Char) (stop : Nat) : Except BadSlice (List Char) := slice cs 0 stop

def sliceFrom (cs : List Char) (start : Nat) : Except BadSlice (List Char) :=
  slice cs start (byteLength cs)

/-- The offset of the first `c`. -/
def find? (c : Char) : List Char → Option Nat
  | [] => none
  | d :: cs => if d = c then some 0 else (find? c cs).map (d.utf8Size + ·)

/-- The number that the first `n` bytes write, if they are digits. -/
def leading? (n : Nat) (cs : List Char) : Option Nat := (slice? cs 0 n).bind Hex.value?

/-- The second half of a surrogate pair, as an escape of its own behind the first four bytes. -/
def lowSurrogate? (cs : List Char) : Option Nat :=
  match slice? cs 4 (byteLength cs) with
  | some ('\\' :: 'u' :: tail) =>
    (leading? 4 tail).filter fun low => 0xDC00 ≤ low ∧ low ≤ 0xDFFF
  | _ => none

/-- The code point of an escape whose `u` is read, with the number of bytes that it takes. -/
def codePoint? (cs : List Char) : Except BadSlice (Option (Nat × Nat)) :=
  match cs with
  | '{' :: braced =>
    match find? '}' braced with
    | none => return none
    | some close => do
      let digits ← sliceTo braced close
      -- both braces are counted, one byte each
      return (digitsCodePoint? digits).map fun code => (code, close + 2)
  | cs =>
    match leading? 4 cs with
    | none => return none
    | some high =>
      if 0xD800 ≤ high ∧ high ≤ 0xDBFF then
        match lowSurrogate? cs with
        | some low => return some (0x10000 + (high - 0xD800) * 0x400 + (low - 0xDC00), 10)
        | none => return some (high, 4)
      else return some (high, 4)

/-- What the escaped character `c` stands for, with what is left behind its escape. -/
def unescape? (c : Char) (cs : List Char) : Except BadSlice (List Char × List Char) :=
  if c = 'x' then
    match leading? 2 cs with
    | some code => do return ([ofCodePoint code], ← sliceFrom cs 2)
    | none => return ([c], cs)
  else if c = 'u' then do
    match ← codePoint? cs with
    | some (code, used) => return ([ofCodePoint code], ← sliceFrom cs used)
    | none => return ([c], cs)
  else if c = '\r' then return (unescapeOne c, skipLineFeed cs)
  else return (unescapeOne c, cs)

/-- One turn of the reader: what it writes for the text up to the next backslash and for what is
escaped there, with what is left. It takes no turn if no backslash is left, and a backslash at the
end leaves nothing. -/
def turn (cs : List Char) : Except BadSlice (Option (List Char × List Char)) :=
  match find? '\\' cs with
  | none => return none
  | some index => do
    let plain ← sliceTo cs index
    let rest ← sliceFrom cs (index + 1)
    match rest with
    | [] => return some (plain, [])
    | c :: _ =>
      let (out, rest) ← unescape? c (← sliceFrom rest c.utf8Size)
      return some (plain ++ out, rest)

/-! Each slice -/

theorem slice_append (front mid back : List Char) :
    slice (front ++ mid ++ back) (byteLength front) (byteLength (front ++ mid)) = .ok mid := by
  have hmid : slice? (front ++ mid ++ back) (byteLength front) (byteLength (front ++ mid)) =
      some mid := slice?_eq_some_iff.mpr ⟨front, back, rfl, rfl, rfl⟩
  rw [slice, hmid]

theorem sliceTo_append (front back : List Char) :
    sliceTo (front ++ back) (byteLength front) = .ok front := slice_append [] front back

theorem sliceFrom_append (front back : List Char) :
    sliceFrom (front ++ back) (byteLength front) = .ok back := by
  simpa [sliceFrom] using slice_append front back []

theorem exists_slice_eq_ok_iff {start stop : Nat} :
    (∃ mid, slice cs start stop = .ok mid) ↔ start ≤ stop ∧ IsCut cs start ∧ IsCut cs stop := by
  rw [← isSome_slice?_iff, slice]
  cases slice? cs start stop with
  | none => simp
  | some mid => simp

theorem find?_eq_none_iff : find? c cs = none ↔ c ∉ cs := by
  induction cs with
  | nil => simp [find?]
  | cons d cs ih =>
    by_cases hd : d = c
    · simp [find?, hd]
    · simp [find?, hd, ih, Ne.symm hd]

theorem find?_append (h : c ∉ front) (back : List Char) :
    find? c (front ++ c :: back) = some (byteLength front) := by
  induction front with
  | nil => simp [find?]
  | cons d front ih =>
    rw [List.mem_cons, not_or] at h
    simp [find?, Ne.symm h.1, ih h.2]

theorem slice?_zero_eq_some_iff {mid : List Char} :
    slice? cs 0 n = some mid ↔ ∃ back, cs = mid ++ back ∧ byteLength mid = n := by
  have hsplit : slice? cs 0 n = (splitAt? n cs).map Prod.fst := by
    simp [slice?, drop?, splitAt?]
  rw [hsplit]
  simp [splitAt?_eq_some_iff]

theorem leading?_eq (n : Nat) (cs : List Char) :
    leading? n cs = (Hex.leading? n cs).map Prod.fst := by
  apply Option.ext
  intro v
  simp only [leading?, Option.bind_eq_some_iff, slice?_zero_eq_some_iff, hexValue?_eq_some_iff,
    Option.map_eq_some_iff, Prod.exists, leading?_eq_some_iff]
  constructor
  · rintro ⟨digits, ⟨rest, rfl, hlength⟩, hdigits, rfl⟩
    rw [byteLength_of_subset hdigits] at hlength
    exact ⟨_, rest, ⟨digits, rfl, hlength, hdigits, rfl⟩, rfl⟩
  · rintro ⟨_, rest, ⟨digits, rfl, hlength, hdigits, rfl⟩, rfl⟩
    exact ⟨digits, ⟨rest, rfl, by rw [byteLength_of_subset hdigits, hlength]⟩, hdigits, rfl⟩

theorem lowSurrogate?_append (h : byteLength digits = 4) (rest : List Char) :
    lowSurrogate? (digits ++ rest) = (Quoted.lowSurrogate? rest).map Prod.fst := by
  have hrest : slice? (digits ++ rest) 4 (byteLength (digits ++ rest)) = some rest :=
    slice?_eq_some_iff.mpr ⟨digits, [], by simp, h, rfl⟩
  unfold lowSurrogate? Quoted.lowSurrogate?
  rw [hrest]
  split
  · next tail htail =>
    cases htail
    rw [leading?_eq]
    cases hlead : Hex.leading? 4 tail with
    | none => simp [hlead]
    | some p =>
      by_cases hlow : 0xDC00 ≤ p.1 ∧ p.1 ≤ 0xDFFF
      · simp [hlead, hlow, Option.filter]
      · simp [hlead, hlow, Option.filter]
  · next hother =>
    split
    · exact absurd rfl (hother _)
    · rfl

theorem codePoint?_braced_append (h : '}' ∉ digits) (rest : List Char) :
    codePoint? ('{' :: (digits ++ '}' :: rest)) =
      .ok ((digitsCodePoint? digits).map fun code => (code, byteLength digits + 2)) := by
  rw [codePoint?, find?_append h]
  dsimp only
  rw [sliceTo_append]
  rfl

theorem byteLength_sub_of_braced (digits rest : List Char) :
    byteLength ('{' :: (digits ++ '}' :: rest)) - byteLength rest = byteLength digits + 2 := by
  have hbraces : '{'.utf8Size = 1 ∧ '}'.utf8Size = 1 := by decide
  simp only [byteLength_cons, byteLength_append, hbraces]
  omega

theorem byteLength_sub_of_lowSurrogate? {low : Nat} {rest' : List Char}
    (h : Quoted.lowSurrogate? rest = some (low, rest')) (hbytes : byteLength digits = 4) :
    byteLength (digits ++ rest) - byteLength rest' = 10 := by
  obtain ⟨second, rfl, hlength, hdigits, -⟩ := exists_of_lowSurrogate? h
  have hmark : '\\'.utf8Size = 1 ∧ 'u'.utf8Size = 1 := by decide
  simp only [byteLength_append, byteLength_cons, hbytes, hmark, byteLength_of_subset hdigits, hlength]
  omega

/-- What is counted for an escape is the length of what is read. -/
theorem codePoint?_eq (cs : List Char) : codePoint? cs = .ok ((Quoted.codePoint? cs).map
    fun (code, rest) => (code, byteLength cs - byteLength rest)) := by
  unfold Quoted.codePoint?
  split
  · next braced =>
    by_cases hclose : '}' ∈ braced
    · obtain ⟨digits, rest, rfl, hdigits⟩ := List.eq_append_cons_of_mem hclose
      rw [codePoint?_braced_append hdigits, bracedCodePoint?_append hdigits, Option.map_map]
      simp only [Function.comp_def, byteLength_sub_of_braced]
    · rw [codePoint?, find?_eq_none_iff.mpr hclose, bracedCodePoint?_of_not_mem hclose]
      rfl
  · next hbrace =>
    -- all that is counted here is ASCII: digits, and the backslash and `u` of a second escape
    unfold codePoint?
    split
    · exact absurd rfl (hbrace _)
    · rw [leading?_eq]
      cases hlead : Hex.leading? 4 cs with
      | none => rfl
      | some p =>
        obtain ⟨digits, rfl, hlength, hdigits, -⟩ := leading?_eq_some_iff.mp hlead
        have hbytes : byteLength digits = 4 := by rw [byteLength_of_subset hdigits, hlength]
        have hfour : byteLength (digits ++ p.2) - byteLength p.2 = 4 := by
          rw [byteLength_append, hbytes, Nat.add_sub_cancel]
        rw [lowSurrogate?_append hbytes]
        simp only [Option.map_some]
        split
        · cases hlow : Quoted.lowSurrogate? p.2 with
          | none =>
            simp only [Option.map_none, Option.map_some, hfour]
            rfl
          | some q =>
            simp only [Option.map_some, byteLength_sub_of_lowSurrogate? hlow hbytes]
            rfl
        · simp only [Option.map_some, hfour]
          rfl

theorem sliceFrom_eq_of_codePoint? (h : Quoted.codePoint? cs = some (code, rest)) :
    sliceFrom cs (byteLength cs - byteLength rest) = .ok rest := by
  obtain ⟨escape, rfl, -⟩ := exists_spells_of_codePoint? h
  rw [byteLength_append, Nat.add_sub_cancel]
  exact sliceFrom_append escape rest

/-- An escape is read without a fault, and as without slices. -/
theorem unescape?_eq (c : Char) (cs : List Char) :
    (unescape? c cs).map some = .ok (Quoted.unescape? (c :: cs)) := by
  rw [unescape?, Quoted.unescape?]
  split_ifs with hbyte hunit hreturn
  · rw [leading?_eq]
    cases hlead : Hex.leading? 2 cs with
    | none => rfl
    | some p =>
      obtain ⟨digits, rfl, hlength, hdigits, -⟩ := leading?_eq_some_iff.mp hlead
      have hslice := sliceFrom_append digits p.2
      rw [byteLength_of_subset hdigits, hlength] at hslice
      simp only [Option.map_some, hslice]
      rfl
  · rw [codePoint?_eq]
    cases hpoint : Quoted.codePoint? cs with
    | none => rfl
    | some p =>
      simp only [Option.map_some, bind, Except.bind, sliceFrom_eq_of_codePoint? hpoint]
      rfl
  · rfl
  · rfl

theorem exists_unescape?_eq (c : Char) (cs : List Char) : ∃ out rest,
    unescape? c cs = .ok (out, rest) ∧ Quoted.unescape? (c :: cs) = some (out, rest) := by
  have heq := unescape?_eq c cs
  cases hread : unescape? c cs with
  | error bad =>
    rw [hread] at heq
    cases heq
  | ok p =>
    rw [hread] at heq
    exact ⟨p.1, p.2, rfl, (Except.ok.inj heq).symm⟩

/-! Turns -/

theorem byteLength_lt_of_suffix (h : rest <:+ cs) (hlength : rest.length < cs.length) :
    byteLength rest < byteLength cs := by
  obtain ⟨front, rfl⟩ := h
  have hfront := length_le_byteLength front
  rw [List.length_append] at hlength
  rw [byteLength_append]
  omega

/-- What a turn does: it writes the value of the text up to what it leaves, and leaves less. -/
structure Advances (cs written rest : List Char) : Prop where
  suffix : rest <:+ cs
  shorter : byteLength rest < byteLength cs
  value : Quoted.unescape cs = written ++ Quoted.unescape rest

theorem turn_append (h : '\\' ∉ plain) (rest : List Char) : turn (plain ++ '\\' :: rest) =
    match rest with
    | [] => .ok (some (plain, []))
    | c :: cs => (unescape? c cs).map fun (out, rest) => some (plain ++ out, rest) := by
  have hone : '\\'.utf8Size = 1 := by decide
  have hplain := sliceTo_append plain ('\\' :: rest)
  have hrest := sliceFrom_append (plain ++ ['\\']) rest
  rw [List.append_assoc, List.singleton_append, byteLength_append, byteLength_cons, byteLength_nil,
    hone] at hrest
  simp only [turn, find?_append h, hplain, hrest, bind, Except.bind]
  cases rest with
  | nil => rfl
  | cons c cs =>
    have hescaped : sliceFrom (c :: cs) c.utf8Size = .ok cs := sliceFrom_append [c] cs
    simp only [hescaped]
    cases unescape? c cs with
    | error bad => rfl
    | ok p => rfl

theorem exists_advances_of_mem (h : '\\' ∈ cs) :
    ∃ written rest, turn cs = .ok (some (written, rest)) ∧ Advances cs written rest := by
  -- up to the first backslash the text stands for itself
  obtain ⟨plain, following, rfl, hplain⟩ := List.eq_append_cons_of_mem h
  rw [turn_append hplain]
  cases following with
  | nil =>
    have hnothing : Quoted.unescape ['\\'] = Quoted.unescape [] := by
      simp [Quoted.unescape, Quoted.unescape?]
    refine ⟨plain, [], rfl, List.nil_suffix, ?_, ?_⟩
    · exact byteLength_lt_of_suffix List.nil_suffix (by simp)
    · rw [unescape_plain hplain, hnothing]
  | cons c cs =>
    obtain ⟨out, rest, hslices, hread⟩ := exists_unescape?_eq c cs
    have hsuffix : rest <:+ plain ++ '\\' :: c :: cs :=
      (suffix_of_unescape? hread).trans ((List.suffix_cons _ _).trans (List.suffix_append _ _))
    refine ⟨plain ++ out, rest, by simp only [hslices, Except.map], hsuffix, ?_, ?_⟩
    · have hshorter := length_of_unescape? hread
      refine byteLength_lt_of_suffix hsuffix ?_
      rw [List.length_append, List.length_cons]
      omega
    · rw [unescape_plain hplain, unescape_backslash hread, List.append_assoc]

/-- A turn takes no bad slice. It is taken as long as a backslash is left. -/
theorem turn_cases (cs : List Char) :
    (turn cs = .ok none ∧ Quoted.unescape cs = cs) ∨
    ∃ written rest, turn cs = .ok (some (written, rest)) ∧ Advances cs written rest := by
  by_cases hslash : '\\' ∈ cs
  · exact Or.inr (exists_advances_of_mem hslash)
  · have hturn : turn cs = .ok none := by
      rw [turn, find?_eq_none_iff.mpr hslash]
      rfl
    have hall := unescape_plain hslash []
    rw [List.append_nil, Quoted.unescape, List.append_nil] at hall
    exact Or.inl ⟨hturn, hall⟩

theorem advances_of_turn {written : List Char} (h : turn cs = .ok (some (written, rest))) :
    Advances cs written rest := by
  obtain ⟨hturn, -⟩ | ⟨_, _, hturn, hadvances⟩ := turn_cases cs
  · rw [hturn] at h
    cases h
  · rw [hturn] at h
    cases h
    exact hadvances

/-- The text between the delimiters, read turn by turn. -/
def unescape (cs : List Char) : Except BadSlice (List Char) :=
  match _h : turn cs with
  | .error bad => .error bad
  | .ok none => .ok cs
  | .ok (some (written, rest)) => (unescape rest).map (written ++ ·)
termination_by byteLength cs
decreasing_by exact (advances_of_turn _h).shorter

/-- A literal given with its delimiters, read by slices. -/
def unquote (raw : List Char) : Except BadSlice (List Char) :=
  unescape ((slice? raw 1 (byteLength raw - 1)).getD [])

/-- The reader comes to the end of every text, and reads it as without slices. -/
theorem unescape_eq (cs : List Char) : unescape cs = .ok (Quoted.unescape cs) := by
  fun_induction unescape cs with
  | case1 cs bad h =>
    obtain ⟨hturn, -⟩ | ⟨_, _, hturn, -⟩ := turn_cases cs
    · cases hturn.symm.trans h
    · cases hturn.symm.trans h
  | case2 cs h =>
    obtain ⟨-, hvalue⟩ | ⟨_, _, hturn, -⟩ := turn_cases cs
    · rw [hvalue]
    · cases hturn.symm.trans h
  | case3 cs written rest h ih =>
    rw [ih, (advances_of_turn h).value]
    rfl

theorem codePoint?_eq_ok_some_iff : codePoint? cs = .ok (some (code, used)) ↔
    ∃ escape, LeadingEscape cs escape code ∧ byteLength escape = used := by
  rw [codePoint?_eq, Except.ok.injEq]
  simp only [Option.map_eq_some_iff, Prod.exists, Prod.mk.injEq]
  constructor
  · rintro ⟨_, rest, hread, rfl, rfl⟩
    obtain ⟨escape, rfl, -⟩ := exists_spells_of_codePoint? hread
    exact ⟨escape, codePoint?_eq_some_iff.mp hread, by rw [byteLength_append, Nat.add_sub_cancel]⟩
  · rintro ⟨escape, hleading, rfl⟩
    obtain ⟨rest, rfl⟩ := hleading.comesFirst
    exact ⟨code, rest, codePoint?_eq_some_iff.mpr hleading, rfl,
      by rw [byteLength_append, Nat.add_sub_cancel]⟩

end Sliced

/-- Whatever the text, it is read by slices that stand between characters, with the value that it has
without slices. Each turn leaves less to read, and what is counted for the escape of a code point is
the length of the longest such escape that comes first. -/
theorem unquote_slices_at_cuts (raw : List Char) :
    Sliced.unquote raw = .ok (Quoted.unquote raw) ∧
    (∀ cs start stop, (∃ mid, Sliced.slice cs start stop = .ok mid) ↔
      start ≤ stop ∧ IsCut cs start ∧ IsCut cs stop) ∧
    (∀ cs, ∃ turned, Sliced.turn cs = .ok turned ∧ ∀ written rest, turned = some (written, rest) →
      rest <:+ cs ∧ byteLength rest < byteLength cs) ∧
    (∀ cs, ∃ found, Sliced.codePoint? cs = .ok found ∧ ∀ code used, found = some (code, used) ↔
      ∃ escape, LeadingEscape cs escape code ∧ byteLength escape = used) := by
  refine ⟨Sliced.unescape_eq _, fun _ _ _ => Sliced.exists_slice_eq_ok_iff, fun cs => ?_,
    fun cs => ?_⟩
  · obtain ⟨hturn, -⟩ | ⟨written, rest, hturn, hadvances⟩ := Sliced.turn_cases cs
    · exact ⟨_, hturn, nofun⟩
    · refine ⟨_, hturn, ?_⟩
      rintro _ _ ⟨⟩
      exact ⟨hadvances.suffix, hadvances.shorter⟩
  · have hpoint := Sliced.codePoint?_eq cs
    refine ⟨_, hpoint, fun code used => ?_⟩
    rw [← Sliced.codePoint?_eq_ok_some_iff, hpoint, Except.ok.injEq]

/-- Escapes that are cut short, or that a wider character breaks off, next to one that is whole, and a
backslash at the end. -/
theorem unquote_slices_at_cuts_of_malformed :
    Sliced.unquote "'é\\u\x7b1F600\x7dé\\u\x7bé\x7d\\uD83Dé\\x4é\\u12\\'".toList =
      .ok "é😀éu\x7bé\x7d\uFFFDéx4éu12".toList ∧
    byteLength "é\\'".toList < byteLength "\\u\x7b1F600\x7dé\\'".toList ∧
    ∃ escape, LeadingEscape "\x7b1F600\x7dé".toList escape 0x1F600 ∧ byteLength escape = 7 := by
  obtain ⟨hread, -, hturns, hpoints⟩ :=
    unquote_slices_at_cuts "'é\\u\x7b1F600\x7dé\\u\x7bé\x7d\\uD83Dé\\x4é\\u12\\'".toList
  have hvalue : unquote "'é\\u\x7b1F600\x7dé\\u\x7bé\x7d\\uD83Dé\\x4é\\u12\\'".toList =
      "é😀éu\x7bé\x7d\uFFFDéx4éu12".toList := by decide +kernel
  refine ⟨by rw [hread, hvalue], ?_, ?_⟩
  · obtain ⟨_, hturn, hshorter⟩ := hturns "\\u\x7b1F600\x7dé\\'".toList
    have hwritten : Sliced.turn "\\u\x7b1F600\x7dé\\'".toList =
        .ok (some ("😀".toList, "é\\'".toList)) := rfl
    rw [hwritten] at hturn
    exact (hshorter _ _ (Except.ok.inj hturn).symm).2
  · obtain ⟨_, hfound, hcounted⟩ := hpoints "\x7b1F600\x7dé".toList
    have hseven : Sliced.codePoint? "\x7b1F600\x7dé".toList = .ok (some (0x1F600, 7)) := rfl
    rw [hseven] at hfound
    exact (hcounted _ _).mp (Except.ok.inj hfound).symm

end Flavoring.JavaScript.StringLiteral
