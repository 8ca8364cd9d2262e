import Flavoring.Proofs.Text.Cutting
import Flavoring.Text.Deletion

/-!
What is deleted along with a statement.

The blanks behind it are, and nothing but one line break after these. The blanks before it are when
its line ends behind it.
-/

namespace Flavoring.Text

variable {bs : List UInt8} {e : Extent} {i m n q : Nat} {b : UInt8}

-- All bytes from `m` up to `n` are blanks.
def Blanks (bs : List UInt8) (m n : Nat) : Prop :=
  ∀ i, m ≤ i → i < n → ∃ b, bs[i]? = some b ∧ isBlankByte b = true

-- A byte stands at `n` that is neither a blank nor part of a line break.
def IsSolid (bs : List UInt8) (n : Nat) : Prop :=
  ∃ b, bs[n]? = some b ∧ isBlankByte b = false ∧ b ≠ 0x0A ∧ b ≠ 0x0D

-- Behind the blanks at `n` the line ends, or the text.
def LineEndsAt (bs : List UInt8) (n : Nat) : Prop :=
  ∃ q, n ≤ q ∧ Blanks bs n q ∧ endsLine (bs.drop q) = true

theorem toNat_lt_of_isBlankByte (h : isBlankByte b = true) : b.toNat < 0x80 := by
  simp only [isBlankByte, Bool.or_eq_true, beq_iff_eq] at h
  rcases h with rfl | rfl <;> decide

namespace Blanks

theorem refl (bs : List UInt8) (n : Nat) : Blanks bs n n := fun i hm hn => by omega

theorem not_mem (h : Blanks bs m n) (hi : bs[i]? = some b) (hb : isBlankByte b = false) :
    i < m ∨ n ≤ i := by
  by_cases hin : m ≤ i ∧ i < n
  · obtain ⟨b', hb', hblank⟩ := h i hin.1 hin.2
    rw [hi, Option.some.injEq] at hb'
    rw [hb', hblank] at hb
    cases hb
  · omega

-- Two runs of blanks from one place that no blank follows are one.
theorem unique (h : Blanks bs m n) (h' : Blanks bs m q) (hm : m ≤ n) (hmq : m ≤ q)
    (hn : ∀ b, bs[n]? = some b → isBlankByte b = false)
    (hq : ∀ b, bs[q]? = some b → isBlankByte b = false) : n = q := by
  rcases Nat.lt_trichotomy n q with hlt | heq | hlt
  · obtain ⟨b, hb, hblank⟩ := h' n hm hlt
    rw [hn b hb] at hblank
    cases hblank
  · exact heq
  · obtain ⟨b, hb, hblank⟩ := h q hmq hlt
    rw [hq b hb] at hblank
    cases hblank

end Blanks

/-! Runs -/

theorem getElem?_of_lt_blankRun (h : i < blankRun bs) :
    ∃ b, bs[i]? = some b ∧ isBlankByte b = true := by
  induction bs generalizing i with
  | nil => cases h
  | cons c bs ih =>
    unfold blankRun at h ih
    rw [List.takeWhile_cons] at h
    split at h
    · next hc =>
      cases i with
      | zero => exact ⟨c, rfl, hc⟩
      | succ i => exact ih (by rw [List.length_cons] at h; omega)
    · cases h

theorem not_isBlankByte_at_blankRun (h : bs[blankRun bs]? = some b) : isBlankByte b = false := by
  induction bs with
  | nil => cases h
  | cons c bs ih =>
    unfold blankRun at h ih
    rw [List.takeWhile_cons] at h
    split at h
    · exact ih h
    · next hc =>
      cases h
      exact Bool.not_eq_true _ ▸ hc

theorem endsLine_drop : endsLine (bs.drop n) = true ↔
    ∀ b, bs[n]? = some b → b = 0x0A ∨ b = 0x0D := by
  rw [← List.head?_drop]
  cases bs.drop n with
  | nil => simp [endsLine]
  | cons b bs => simp [endsLine]

-- The bytes of a line break are nothing else.
theorem lineBreak_drop (h : endsLine (bs.drop n) = true) (hn : n ≤ i)
    (hi : i < n + lineBreak (bs.drop n)) : ∃ b, bs[i]? = some b ∧ (b = 0x0A ∨ b = 0x0D) := by
  have hat (k : Nat) : bs[n + k]? = (bs.drop n)[k]? := by rw [List.getElem?_drop]
  obtain ⟨k, rfl⟩ := Nat.exists_eq_add_of_le hn
  rw [hat]
  generalize bs.drop n = rest at *
  unfold lineBreak at hi
  split at hi
  · omega
  · have hk : k = 0 ∨ k = 1 := by omega
    rcases hk with rfl | rfl
    · exact ⟨_, rfl, Or.inr rfl⟩
    · exact ⟨_, rfl, Or.inl rfl⟩
  · next b rest _ =>
    have hk : k = 0 := by omega
    subst hk
    simp only [endsLine, Bool.or_eq_true, beq_iff_eq] at h
    exact ⟨b, rfl, h⟩

/-! The extent that is deleted -/

-- Where the blanks behind an extent end, and where those before it start.
def trailing (bs : List UInt8) (e : Extent) : Nat := e.stop + blankRun (bs.drop e.stop)

def leading (bs : List UInt8) (e : Extent) : Nat := e.start - blankRun (bs.take e.start).reverse

theorem blanks_trailing (bs : List UInt8) (e : Extent) : Blanks bs e.stop (trailing bs e) := by
  intro i hm hn
  obtain ⟨k, rfl⟩ := Nat.exists_eq_add_of_le hm
  unfold trailing at hn
  have hk : k < blankRun (bs.drop e.stop) := by omega
  have hat := getElem?_of_lt_blankRun hk
  rwa [List.getElem?_drop] at hat

theorem stop_le_trailing (bs : List UInt8) (e : Extent) : e.stop ≤ trailing bs e :=
  Nat.le_add_right _ _

theorem not_blank_at_trailing (h : bs[trailing bs e]? = some b) : isBlankByte b = false := by
  unfold trailing at h
  rw [← List.getElem?_drop] at h
  exact not_isBlankByte_at_blankRun h

theorem leading_le (bs : List UInt8) (e : Extent) : leading bs e ≤ e.start := Nat.sub_le _ _

theorem blanks_leading (hlength : e.start ≤ bs.length) : Blanks bs (leading bs e) e.start := by
  intro i hm hn
  unfold leading at hm
  have hk : e.start - 1 - i < blankRun (bs.take e.start).reverse := by omega
  have hlen : (bs.take e.start).length = e.start := List.length_take_of_le hlength
  have hat := getElem?_of_lt_blankRun hk
  rwa [List.getElem?_reverse (by omega), hlen, List.getElem?_take_of_lt (by omega),
    show e.start - 1 - (e.start - 1 - i) = i by omega] at hat

theorem leading_lt (hlength : e.start ≤ bs.length) (hpos : 0 < e.start)
    (hb : bs[e.start - 1]? = some b) (hblank : isBlankByte b = true) :
    leading bs e < e.start := by
  have hlen : (bs.take e.start).length = e.start := List.length_take_of_le hlength
  unfold leading
  by_cases hzero : blankRun (bs.take e.start).reverse = 0
  · have hlast : (bs.take e.start).reverse[blankRun (bs.take e.start).reverse]? = some b := by
      rw [hzero, List.getElem?_reverse (by omega), hlen, List.getElem?_take_of_lt (by omega)]
      exact hb
    rw [not_isBlankByte_at_blankRun hlast] at hblank
    cases hblank
  · omega

-- Either text follows on the line and the blanks before stay, or they go, perhaps with the line.
theorem deletionIn_cases (horder : e.start ≤ e.stop) (hlength : e.stop ≤ bs.length) :
    (endsLine (bs.drop (trailing bs e)) = false ∧ deletionIn bs e = ⟨e.start, trailing bs e⟩) ∨
    endsLine (bs.drop (trailing bs e)) = true ∧ (deletionIn bs e).start = leading bs e ∧
      ((deletionIn bs e).stop = trailing bs e ∨
        (deletionIn bs e).stop = trailing bs e + lineBreak (bs.drop (trailing bs e))) := by
  have hstop : min e.stop bs.length = e.stop := Nat.min_eq_left hlength
  have hown : min e.start (trailing bs e) = e.start :=
    Nat.min_eq_left (Nat.le_trans horder (stop_le_trailing bs e))
  unfold deletionIn
  simp only [hstop, ← trailing.eq_def, hown, ← leading.eq_def]
  cases endsLine (bs.drop (trailing bs e)) with
  | false => cases startsLine (bs.take (leading bs e)) <;> exact Or.inl ⟨rfl, rfl⟩
  | true =>
    cases startsLine (bs.take (leading bs e)) with
    | false => exact Or.inr ⟨rfl, rfl, Or.inl rfl⟩
    | true => exact Or.inr ⟨rfl, rfl, Or.inr rfl⟩

-- Only blanks stand beside the extent on its first line and its last one.
def FillsLines (bs : List UInt8) (e : Extent) : Prop :=
  startsLine (bs.take (leading bs e)) = true ∧ endsLine (bs.drop (trailing bs e)) = true

instance (bs : List UInt8) (e : Extent) : Decidable (FillsLines bs e) :=
  inferInstanceAs (Decidable (_ ∧ _))

-- Lines that the extent fills are deleted as a whole.
theorem deletionIn_of_fillsLines (horder : e.start ≤ e.stop) (hlength : e.stop ≤ bs.length)
    (h : FillsLines bs e) : deletionIn bs e =
      ⟨leading bs e, trailing bs e + lineBreak (bs.drop (trailing bs e))⟩ := by
  have hstop : min e.stop bs.length = e.stop := Nat.min_eq_left hlength
  have hown : min e.start (trailing bs e) = e.start :=
    Nat.min_eq_left (Nat.le_trans horder (stop_le_trailing bs e))
  unfold deletionIn
  simp only [hstop, ← trailing.eq_def, hown, ← leading.eq_def, h.1, h.2]

-- What a deletion covers around the extent itself.
structure Widens (bs : List UInt8) (e d : Extent) : Prop where
  start_le : d.start ≤ e.start
  stop_le : e.stop ≤ d.stop
  before : Blanks bs d.start e.start
  behind : ∃ q, e.stop ≤ q ∧ q ≤ d.stop ∧ Blanks bs e.stop q ∧
    ∀ i, q ≤ i → i < d.stop → ∃ b, bs[i]? = some b ∧ (b = 0x0A ∨ b = 0x0D)

theorem widens_deletionIn (horder : e.start ≤ e.stop) (hlength : e.stop ≤ bs.length) :
    Widens bs e (deletionIn bs e) := by
  have hstop := stop_le_trailing bs e
  have hbehind := blanks_trailing bs e
  rcases deletionIn_cases horder hlength with ⟨-, heq⟩ | ⟨hends, hstart, hlast⟩
  · rw [heq]
    exact ⟨Nat.le_refl _, hstop, Blanks.refl _ _, _, hstop, Nat.le_refl _, hbehind,
      fun i hi hlt => absurd hlt (Nat.not_lt.mpr hi)⟩
  · refine ⟨hstart ▸ leading_le bs e, ?_, hstart ▸ blanks_leading (by omega), _, hstop, ?_, hbehind,
      fun i hi hlt => lineBreak_drop hends hi ?_⟩ <;> omega

namespace Widens

variable {d : Extent}

-- Behind the extent only blanks go with it, and a line break.
theorem space_behind (h : Widens bs e d) (hi : e.stop ≤ i) (hlt : i < d.stop) :
    ∃ b, bs[i]? = some b ∧ (isBlankByte b = true ∨ b = 0x0A ∨ b = 0x0D) := by
  obtain ⟨q, -, -, hblanks, hbreak⟩ := h.behind
  by_cases hiq : i < q
  · obtain ⟨b, hb, hblank⟩ := hblanks i hi hiq
    exact ⟨b, hb, Or.inl hblank⟩
  · obtain ⟨b, hb, hor⟩ := hbreak i (by omega) hlt
    exact ⟨b, hb, Or.inr hor⟩

-- A deletion ends before the next thing that is neither blank nor a line break.
theorem stop_le_of_isSolid (h : Widens bs e d) (hn : e.stop ≤ n) (hsolid : IsSolid bs n) :
    d.stop ≤ n := by
  obtain ⟨b, hb, hblank, hfeed, hreturn⟩ := hsolid
  obtain ⟨q, -, -, hblanks, hbreak⟩ := h.behind
  have hq := hblanks.not_mem hb hblank
  by_cases hlt : n < d.stop
  · obtain ⟨b', hb', hor⟩ := hbreak n (by omega) hlt
    rw [hb, Option.some.injEq] at hb'
    rw [← hb'] at hor
    exact absurd hor (by simp [hfeed, hreturn])
  · omega

-- A deletion starts behind the last thing that is not blank.
theorem lt_start (h : Widens bs e d) (hn : n < e.start) (hb : bs[n]? = some b)
    (hblank : isBlankByte b = false) : n < d.start := by
  have hor := h.before.not_mem hb hblank
  omega

end Widens

theorem IsSolid.not_blank (h : IsSolid bs n) : ∃ b, bs[n]? = some b ∧ isBlankByte b = false := by
  obtain ⟨b, hb, hblank, -⟩ := h
  exact ⟨b, hb, hblank⟩

-- With more text on the line the deletion reaches up to that text.
theorem deletionIn_of_isSolid (horder : e.start ≤ e.stop) (hn : e.stop ≤ n)
    (hblanks : Blanks bs e.stop n) (hsolid : IsSolid bs n) : deletionIn bs e = ⟨e.start, n⟩ := by
  obtain ⟨b, hb, hblank, hfeed, hreturn⟩ := hsolid
  have hlt : n < bs.length := (List.getElem?_eq_some_iff.mp hb).1
  have hat : trailing bs e = n := by
    refine (blanks_trailing bs e).unique hblanks (stop_le_trailing bs e) hn
      (fun b hb => not_blank_at_trailing hb) fun b' hb' => ?_
    rw [hb, Option.some.injEq] at hb'
    exact hb' ▸ hblank
  rcases deletionIn_cases horder (by omega : e.stop ≤ bs.length) with ⟨-, heq⟩ | ⟨hends, -⟩
  · rw [heq, hat]
  · rw [hat] at hends
    exact absurd (endsLine_drop.mp hends b hb) (by simp [hfeed, hreturn])

theorem lineEndsAt_iff : LineEndsAt bs e.stop ↔ endsLine (bs.drop (trailing bs e)) = true := by
  constructor
  · rintro ⟨q, hq, hblanks, hends⟩
    have hat : trailing bs e = q := by
      refine (blanks_trailing bs e).unique hblanks (stop_le_trailing bs e) hq
        (fun b hb => not_blank_at_trailing hb) fun b hb => ?_
      rcases endsLine_drop.mp hends b hb with rfl | rfl <;> rfl
    rw [hat]
    exact hends
  · exact fun hends => ⟨_, stop_le_trailing bs e, blanks_trailing bs e, hends⟩

-- The blanks before go exactly when there are any and the line ends behind.
theorem deletionIn_start_lt_iff (horder : e.start ≤ e.stop) (hlength : e.stop ≤ bs.length) :
    (deletionIn bs e).start < e.start ↔
      0 < e.start ∧ Blanks bs (e.start - 1) e.start ∧ LineEndsAt bs e.stop := by
  rw [lineEndsAt_iff]
  rcases deletionIn_cases horder hlength with ⟨hends, heq⟩ | ⟨hends, hstart, -⟩
  · simp [heq, hends]
  · rw [hstart]
    constructor
    · intro hlt
      refine ⟨by omega, fun i hi hlt' => ?_, hends⟩
      exact blanks_leading (by omega) i (by omega) hlt'
    · rintro ⟨hpos, hblank, -⟩
      obtain ⟨b, hb, hisBlank⟩ := hblank (e.start - 1) (Nat.le_refl _) (by omega)
      exact leading_lt (by omega) hpos hb hisBlank

-- A deletion cuts the text where an extent between two cuts does.
theorem isCut_deletionIn {cs : List Char} (horder : e.start ≤ e.stop) (hstart : IsCut cs e.start)
    (hstop : IsCut cs e.stop) :
    IsCut cs (deletionIn (bytes cs) e).start ∧ IsCut cs (deletionIn (bytes cs) e).stop := by
  have hlength : e.stop ≤ (bytes cs).length := by
    rw [length_bytes]
    exact hstop.le
  have hwide := widens_deletionIn horder hlength
  constructor
  · refine hstart.backward hwide.start_le fun i hi hlt => ?_
    obtain ⟨b, hb, hblank⟩ := hwide.before i hi hlt
    exact ⟨b, hb, toNat_lt_of_isBlankByte hblank⟩
  · refine hstop.forward hwide.stop_le fun i hi hlt => ?_
    obtain ⟨b, hb, hor⟩ := hwide.space_behind hi hlt
    refine ⟨b, hb, ?_⟩
    rcases hor with hblank | rfl | rfl
    · exact toNat_lt_of_isBlankByte hblank
    · decide
    · decide

end Flavoring.Text
