import Flavoring.Proofs.Text.Deleting

/-!
Scanning: what is deleted with a statement is found byte by byte, within the text.

Two places move over the blanks around the statement, one to each side. No byte is read that the
text does not have. What is found is the statement with blanks beside it and at most one line break,
and each of these only if it belongs to the statement.
-/

namespace Flavoring.Text

variable {bs term : List UInt8} {e d : Extent} {i m n p q : Nat} {b : UInt8}

/-! The scan -/

/-- The first place from `i` on where no blank stands; `none` if a byte is read behind the end. -/
def scanForward (bs : List UInt8) (i : Nat) : Option Nat :=
  if i < bs.length then
    match bs[i]? with
    | none => none
    | some b => if isBlankByte b then scanForward bs (i + 1) else some i
  else some i
termination_by bs.length - i

/-- The last place up to `i` that no blank stands before; `none` if a byte is read behind the end. -/
def scanBackward (bs : List UInt8) : Nat → Option Nat
  | 0 => some 0
  | i + 1 =>
    match bs[i]? with
    | none => none
    | some b => if isBlankByte b then scanBackward bs i else some (i + 1)

/-- Whether a line starts at `i`; `none` if the byte before is read and is not there. -/
def opensLine? (bs : List UInt8) : Nat → Option Bool
  | 0 => some true
  | i + 1 => bs[i]?.map (· == 0x0A)

/-- Whether a line ends at `i`; `none` if the byte there is read and is not there. -/
def closesLine? (bs : List UInt8) (i : Nat) : Option Bool :=
  if i = bs.length then some true else bs[i]?.map fun b => b == 0x0A || b == 0x0D

/-- The bytes from `i` on; `none` if the text has fewer than `i`. -/
def suffix? (bs : List UInt8) (i : Nat) : Option (List UInt8) :=
  if i ≤ bs.length then some (bs.drop i) else none

/-- The extent to delete together with a statement, with every byte asked for by its place. -/
def scanDeletion (bs : List UInt8) (e : Extent) : Option Extent := do
  let stop ← scanForward bs (min e.stop bs.length)
  let start ← scanBackward bs (min e.start stop)
  let opens ← opensLine? bs start
  let closes ← closesLine? bs stop
  match opens, closes with
  | true, true => return ⟨start, stop + lineBreak (← suffix? bs stop)⟩
  | false, true => return ⟨start, stop⟩
  | _, false => return ⟨min e.start stop, stop⟩

theorem blankRun_cons (b : UInt8) (bs : List UInt8) :
    blankRun (b :: bs) = if isBlankByte b then blankRun bs + 1 else 0 := by
  unfold blankRun
  rw [List.takeWhile_cons]
  split <;> rfl

theorem scanForward_eq (bs : List UInt8) (i : Nat) :
    scanForward bs i = some (i + blankRun (bs.drop i)) := by
  fun_induction scanForward bs i with
  | case1 i hlt hnone =>
    rw [List.getElem?_eq_none_iff] at hnone
    omega
  | case2 i hlt b hb hblank ih =>
    obtain ⟨_, rfl⟩ := List.getElem?_eq_some_iff.mp hb
    rw [ih, List.drop_eq_getElem_cons hlt, blankRun_cons, if_pos hblank]
    congr 1
    omega
  | case3 i hlt b hb hblank =>
    obtain ⟨_, rfl⟩ := List.getElem?_eq_some_iff.mp hb
    rw [List.drop_eq_getElem_cons hlt, blankRun_cons, if_neg hblank, Nat.add_zero]
  | case4 i hge =>
    rw [List.drop_eq_nil_of_le (Nat.le_of_not_lt hge)]
    rfl

theorem scanBackward_eq (hi : i ≤ bs.length) :
    scanBackward bs i = some (i - blankRun (bs.take i).reverse) := by
  induction i with
  | zero => rfl
  | succ i ih =>
    have htake : (bs.take (i + 1)).reverse = bs[i] :: (bs.take i).reverse := by
      rw [List.take_succ_eq_append_getElem hi, List.reverse_append]
      rfl
    have hread : bs[i]? = some bs[i] := List.getElem?_eq_getElem hi
    rw [htake, blankRun_cons, scanBackward, hread]
    by_cases hblank : isBlankByte bs[i] = true
    · simp only [hblank, if_true, ih (Nat.le_of_succ_le hi), Nat.add_sub_add_right]
    · simp only [hblank, if_false, Nat.sub_zero, Bool.false_eq_true]

theorem opensLine?_eq (hi : i ≤ bs.length) : opensLine? bs i = some (startsLine (bs.take i)) := by
  cases i with
  | zero => rfl
  | succ i =>
    have hread : bs[i]? = some bs[i] := List.getElem?_eq_getElem hi
    rw [opensLine?, hread, List.take_succ_eq_append_getElem hi, startsLine,
      List.getLast?_concat]
    rfl

theorem closesLine?_eq (hi : i ≤ bs.length) : closesLine? bs i = some (endsLine (bs.drop i)) := by
  rw [closesLine?]
  split
  · next heq => rw [heq, List.drop_length, endsLine]
  · next hne =>
    have hlt : i < bs.length := by omega
    rw [List.drop_eq_getElem_cons hlt, List.getElem?_eq_getElem hlt]
    rfl

theorem blankRun_le_length (bs : List UInt8) : blankRun bs ≤ bs.length :=
  (List.takeWhile_sublist _).length_le

theorem add_blankRun_drop_le (hn : n ≤ bs.length) : n + blankRun (bs.drop n) ≤ bs.length := by
  have hle := blankRun_le_length (bs.drop n)
  rw [List.length_drop] at hle
  omega

/-- The scan never reads a byte that is not there, and it finds the extent of the deletion. -/
theorem scanDeletion_eq (bs : List UInt8) (e : Extent) :
    scanDeletion bs e = some (deletionIn bs e) := by
  have hstop := add_blankRun_drop_le (Nat.min_le_right e.stop bs.length)
  unfold scanDeletion deletionIn
  dsimp only
  rw [scanForward_eq]
  generalize min e.stop bs.length + blankRun (bs.drop (min e.stop bs.length)) = stop at *
  have hown : min e.start stop ≤ bs.length := Nat.le_trans (Nat.min_le_right _ _) hstop
  have hstart : min e.start stop - blankRun (bs.take (min e.start stop)).reverse ≤ bs.length :=
    Nat.le_trans (Nat.sub_le _ _) hown
  simp only [bind, Option.bind, pure, scanBackward_eq hown, opensLine?_eq hstart,
    closesLine?_eq hstop, suffix?, if_pos hstop]
  cases startsLine (bs.take _) <;> cases endsLine (bs.drop stop) <;> rfl

theorem lineBreak_le_length (bs : List UInt8) : lineBreak bs ≤ bs.length := by
  fun_cases lineBreak bs with
  | case1 => exact Nat.le_refl _
  | case2 rest =>
    rw [List.length_cons, List.length_cons]
    omega
  | case3 b rest =>
    rw [List.length_cons]
    omega

/-- What is deleted lies within the text, whatever the extent. -/
theorem deletionIn_bounds (bs : List UInt8) (e : Extent) :
    (deletionIn bs e).start ≤ (deletionIn bs e).stop ∧ (deletionIn bs e).stop ≤ bs.length := by
  have hstop := add_blankRun_drop_le (Nat.min_le_right e.stop bs.length)
  unfold deletionIn
  dsimp only
  generalize min e.stop bs.length + blankRun (bs.drop (min e.stop bs.length)) = stop at *
  have hown : min e.start stop ≤ stop := Nat.min_le_right _ _
  have hbreak := lineBreak_le_length (bs.drop stop)
  rw [List.length_drop] at hbreak
  cases startsLine (bs.take _) <;> cases endsLine (bs.drop stop) <;> dsimp only <;> omega

/-! What belongs to a statement -/

/-- Only blanks stand between `n` and the line feed before it, or the start of the text. -/
def OpensLine (bs : List UInt8) (n : Nat) : Prop :=
  ∃ p ≤ n, Blanks bs p n ∧ (p = 0 ∨ bs[p - 1]? = some 0x0A)

/-- The line break that comes first. A carriage return takes a line feed behind it along. -/
inductive Terminates : List UInt8 → List UInt8 → Prop
  | feed {rest : List UInt8} : Terminates [0x0A] (0x0A :: rest)
  | pair {rest : List UInt8} : Terminates [0x0D, 0x0A] (0x0D :: 0x0A :: rest)
  | carriage {rest : List UInt8} : rest.head? ≠ some 0x0A → Terminates [0x0D] (0x0D :: rest)

/-- The line break `term` stands at `q`, and only blanks stand between `n` and it. -/
def BreakFollows (bs : List UInt8) (n q : Nat) (term : List UInt8) : Prop :=
  n ≤ q ∧ Blanks bs n q ∧ Terminates term (bs.drop q)

/-- Behind the blanks at `n` other text stands on the line. -/
def TextFollows (bs : List UInt8) (n : Nat) : Prop := ∃ q, n ≤ q ∧ Blanks bs n q ∧ IsSolid bs q

/-- `d` ends with the line break that follows `e`. -/
def TakesBreak (bs : List UInt8) (e d : Extent) : Prop :=
  ∃ q term, BreakFollows bs e.stop q term ∧ d.stop = q + term.length

/-- `d` adds to `e` what belongs to it: blanks beside it, those before it unless other text follows on
the line, and the line break behind it if nothing else stands on the line. -/
structure Tidies (bs : List UInt8) (e d : Extent) : Prop where
  contains : d.contains e = true
  before : Blanks bs d.start e.start
  behind : Blanks bs e.stop d.stop ∨ TakesBreak bs e d
  takesBreak_iff : TakesBreak bs e d ↔
    OpensLine bs e.start ∧ ∃ q term, BreakFollows bs e.stop q term
  kept_iff {i : Nat} : i < e.start → Blanks bs i e.start → (i < d.start ↔ TextFollows bs e.stop)

theorem Terminates.lineBreak_eq {rest : List UInt8} (h : Terminates term rest) :
    lineBreak rest = term.length := by
  cases h with
  | feed => rfl
  | pair => rfl
  | @carriage rest hhead =>
    cases rest with
    | nil => rfl
    | cons b rest =>
      have hne : b ≠ 0x0A := fun heq => hhead (by rw [heq]; rfl)
      unfold lineBreak
      split <;> simp_all

theorem Terminates.endsLine {rest : List UInt8} (h : Terminates term rest) :
    endsLine rest = true := by
  cases h <;> rfl

/-- A line ends with a line break or with the text. -/
theorem eq_nil_or_terminates {rest : List UInt8} (h : endsLine rest = true) :
    rest = [] ∨ ∃ term, Terminates term rest := by
  cases rest with
  | nil => exact Or.inl rfl
  | cons b rest =>
    simp only [Text.endsLine, Bool.or_eq_true, beq_iff_eq] at h
    rcases h with rfl | rfl
    · exact Or.inr ⟨_, .feed⟩
    · by_cases hhead : rest.head? = some 0x0A
      · obtain ⟨tail, rfl⟩ := List.head?_eq_some_iff.mp hhead
        exact Or.inr ⟨_, .pair⟩
      · exact Or.inr ⟨_, .carriage hhead⟩

theorem Terminates.length_pos {rest : List UInt8} (h : Terminates term rest) : 0 < term.length := by
  cases h <;> exact Nat.succ_pos _

theorem isBlankByte_of_endsLine (h : endsLine (bs.drop n) = true) (hb : bs[n]? = some b) :
    isBlankByte b = false := by
  rcases endsLine_drop.mp h b hb with rfl | rfl <;> rfl

-- The blanks behind an extent end where something else stands.
theorem eq_trailing (hq : e.stop ≤ q) (hblanks : Blanks bs e.stop q)
    (hend : ∀ b, bs[q]? = some b → isBlankByte b = false) : q = trailing bs e :=
  hblanks.unique (blanks_trailing bs e) hq (stop_le_trailing bs e) hend
    fun _ hb => not_blank_at_trailing hb

theorem BreakFollows.eq_trailing (h : BreakFollows bs e.stop q term) : q = trailing bs e :=
  Text.eq_trailing h.1 h.2.1 fun _ hb => isBlankByte_of_endsLine h.2.2.endsLine hb

theorem textFollows_iff : TextFollows bs e.stop ↔ endsLine (bs.drop (trailing bs e)) = false := by
  constructor
  · rintro ⟨q, hq, hblanks, b, hb, hblank, hfeed, hreturn⟩
    have hat : q = trailing bs e := eq_trailing hq hblanks fun b' hb' => by
      rw [hb, Option.some.injEq] at hb'
      exact hb' ▸ hblank
    rw [← hat, ← Bool.not_eq_true, endsLine_drop]
    intro hall
    rcases hall b hb with rfl | rfl
    · exact hfeed rfl
    · exact hreturn rfl
  · intro hends
    rw [← Bool.not_eq_true, endsLine_drop, Classical.not_forall] at hends
    obtain ⟨b, hat⟩ := hends
    obtain ⟨hb, hnot⟩ := Classical.not_imp.mp hat
    obtain ⟨hfeed, hreturn⟩ := not_or.mp hnot
    exact ⟨_, stop_le_trailing bs e, blanks_trailing bs e, b, hb, not_blank_at_trailing hb, hfeed,
      hreturn⟩

-- The blanks before an extent start behind something else.
theorem not_blank_before_leading (hlength : e.start ≤ bs.length) (hpos : 0 < leading bs e)
    (hb : bs[leading bs e - 1]? = some b) : isBlankByte b = false := by
  have hlen : (bs.take e.start).length = e.start := List.length_take_of_le hlength
  unfold leading at hpos hb
  have hlast : (bs.take e.start).reverse[blankRun (bs.take e.start).reverse]? = some b := by
    rw [List.getElem?_reverse (by omega), hlen, List.getElem?_take_of_lt (by omega), ← hb]
    congr 1
    omega
  exact not_isBlankByte_at_blankRun hlast

theorem leading_le_of_blanks (hlength : e.start ≤ bs.length)
    (hblanks : Blanks bs p e.start) : leading bs e ≤ p := by
  refine Nat.le_of_not_lt fun hlt => ?_
  have hle := leading_le bs e
  obtain ⟨b, hb, hblank⟩ := hblanks (leading bs e - 1) (by omega) (by omega)
  rw [not_blank_before_leading hlength (by omega) hb] at hblank
  cases hblank

theorem opensLine_iff (hlength : e.start ≤ bs.length) :
    OpensLine bs e.start ↔ startsLine (bs.take (leading bs e)) = true := by
  have hle := leading_le bs e
  have hread : startsLine (bs.take (leading bs e)) = true ↔
      leading bs e = 0 ∨ bs[leading bs e - 1]? = some 0x0A := by
    have hopens := opensLine?_eq (Nat.le_trans hle hlength)
    cases hat : leading bs e with
    | zero => simp [startsLine]
    | succ i =>
      rw [hat] at hopens
      rw [← Option.some_inj, ← hopens, opensLine?]
      simp
  rw [hread]
  constructor
  · rintro ⟨p, hp, hblanks, hor⟩
    have hpLe := leading_le_of_blanks hlength hblanks
    -- no line feed is among the blanks
    have heq : p = leading bs e := by
      refine Nat.le_antisymm (Nat.le_of_not_lt fun hlt => ?_) hpLe
      obtain ⟨b, hb, hblank⟩ := blanks_leading hlength (p - 1) (by omega) (by omega)
      rcases hor with rfl | hfeed
      · omega
      · rw [hfeed, Option.some.injEq] at hb
        rw [← hb] at hblank
        cases hblank
    exact heq ▸ hor
  · exact fun hor => ⟨_, hle, blanks_leading hlength, hor⟩

-- The line break goes with a line that the extent fills, and nothing but blanks goes otherwise.
theorem deletionIn_stop_of_not_fillsLines (horder : e.start ≤ e.stop) (hlength : e.stop ≤ bs.length)
    (h : ¬ FillsLines bs e) : (deletionIn bs e).stop = trailing bs e := by
  have hstop : min e.stop bs.length = e.stop := Nat.min_eq_left hlength
  have hown : min e.start (trailing bs e) = e.start :=
    Nat.min_eq_left (Nat.le_trans horder (stop_le_trailing bs e))
  unfold FillsLines at h
  unfold deletionIn
  simp only [hstop, ← trailing.eq_def, hown, ← leading.eq_def]
  cases hstarts : startsLine (bs.take (leading bs e)) <;>
    cases hends : endsLine (bs.drop (trailing bs e)) <;> simp_all

theorem takesBreak_deletionIn_iff (horder : e.start ≤ e.stop) (hlength : e.stop ≤ bs.length) :
    TakesBreak bs e (deletionIn bs e) ↔
      OpensLine bs e.start ∧ ∃ q term, BreakFollows bs e.stop q term := by
  rw [opensLine_iff (Nat.le_trans horder hlength)]
  constructor
  · rintro ⟨q, term, hfollows, hstop⟩
    have hpos := hfollows.2.2.length_pos
    have hat := hfollows.eq_trailing
    have hfills : FillsLines bs e := Decidable.byContradiction fun hnot => by
      rw [deletionIn_stop_of_not_fillsLines horder hlength hnot] at hstop
      omega
    exact ⟨hfills.1, q, term, hfollows⟩
  · rintro ⟨hstarts, q, term, hfollows⟩
    obtain rfl := hfollows.eq_trailing
    refine ⟨_, term, hfollows, ?_⟩
    rw [deletionIn_of_fillsLines horder hlength ⟨hstarts, hfollows.2.2.endsLine⟩,
      hfollows.2.2.lineBreak_eq]

theorem tidies_deletionIn (horder : e.start ≤ e.stop) (hlength : e.stop ≤ bs.length) :
    Tidies bs e (deletionIn bs e) where
  contains := by
    have hwide := widens_deletionIn horder hlength
    rw [Extent.contains, Bool.and_eq_true, decide_eq_true_iff, decide_eq_true_iff]
    exact ⟨hwide.start_le, hwide.stop_le⟩
  before := (widens_deletionIn horder hlength).before
  behind := by
    have hblanks := blanks_trailing bs e
    by_cases hfills : FillsLines bs e
    · rcases eq_nil_or_terminates hfills.2 with hnil | ⟨term, hterm⟩
      · -- the text ends behind the blanks
        left
        rw [deletionIn_of_fillsLines horder hlength hfills, hnil]
        exact hblanks
      · right
        have hfollows : BreakFollows bs e.stop (trailing bs e) term :=
          ⟨stop_le_trailing bs e, hblanks, hterm⟩
        have hopens := (opensLine_iff (Nat.le_trans horder hlength)).mpr hfills.1
        exact (takesBreak_deletionIn_iff horder hlength).mpr ⟨hopens, _, term, hfollows⟩
    · left
      rwa [deletionIn_stop_of_not_fillsLines horder hlength hfills]
  takesBreak_iff := takesBreak_deletionIn_iff horder hlength
  kept_iff := by
    intro i hi hblanks
    have hle := leading_le_of_blanks (Nat.le_trans horder hlength) hblanks
    rw [textFollows_iff]
    rcases deletionIn_cases horder hlength with ⟨hends, heq⟩ | ⟨hends, hstart, -⟩
    · simp [heq, hends, hi]
    · rw [hstart, hends]
      simp only [Bool.true_eq_false, iff_false]
      omega

/-- What is deleted with a statement is found without a read behind the end and lies within the text;
if the extent of the statement does too, only what belongs to it is added, and no character is cut. -/
theorem deletion_takes_own_line (source : String) (e : Extent) :
    scanDeletion (bytes source.toList) e = some (deletion source e) ∧
    (deletion source e).start ≤ (deletion source e).stop ∧
    (deletion source e).stop ≤ (bytes source.toList).length ∧
    (e.start ≤ e.stop → e.stop ≤ (bytes source.toList).length →
      Tidies (bytes source.toList) e (deletion source e) ∧
      (IsCut source.toList e.start → IsCut source.toList e.stop →
        IsCut source.toList (deletion source e).start ∧
          IsCut source.toList (deletion source e).stop)) := by
  obtain ⟨horder, hlength⟩ := deletionIn_bounds (bytes source.toList) e
  exact ⟨scanDeletion_eq _ _, horder, hlength, fun he hwithin =>
    ⟨tidies_deletionIn he hwithin, isCut_deletionIn he⟩⟩

/-- An indented statement between two accented letters goes with its blanks and with both bytes of the
line break. -/
theorem deletion_takes_own_line_of_pair :
    deletion "é\n  f();\t\r\né" ⟨5, 9⟩ = ⟨3, 12⟩ ∧
    Tidies (bytes "é\n  f();\t\r\né".toList) ⟨5, 9⟩ ⟨3, 12⟩ ∧
    IsCut "é\n  f();\t\r\né".toList 3 ∧ IsCut "é\n  f();\t\r\né".toList 12 := by
  have hat : deletion "é\n  f();\t\r\né" ⟨5, 9⟩ = ⟨3, 12⟩ := by decide +kernel
  obtain ⟨-, -, -, hwithin⟩ := deletion_takes_own_line "é\n  f();\t\r\né" ⟨5, 9⟩
  rw [hat] at hwithin
  obtain ⟨htidies, hcut⟩ := hwithin (by decide) (by decide +kernel)
  have hstart : IsCut "é\n  f();\t\r\né".toList 5 :=
    ⟨"é\n  ".toList, "f();\t\r\né".toList, by decide +kernel, by decide +kernel⟩
  have hstop : IsCut "é\n  f();\t\r\né".toList 9 :=
    ⟨"é\n  f();".toList, "\t\r\né".toList, by decide +kernel, by decide +kernel⟩
  exact ⟨hat, htidies, hcut hstart hstop⟩

end Flavoring.Text
