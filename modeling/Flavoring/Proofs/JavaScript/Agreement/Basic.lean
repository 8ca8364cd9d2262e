import Flavoring.Proofs.JavaScript.Reading
import Flavoring.Proofs.JavaScript.Unplaced

/-!
Agreement: two runs of a parser over the same text.

What a parser reads is told by the text from its cursor on. Where the cursor stands, how long the
whole text is and how many nested steps are left make no difference, as long as these suffice. A rule
asks for its parts behind a token of its own, so that each is asked for with fewer characters left;
the lemmas count these down.
-/

namespace Flavoring.JavaScript

open Text (byteLength)

variable {m n k : Nat} {cur cur' : Cursor} {α β γ δ : Type}

/-! Cursors -/

namespace Cursor

-- Both cursors stand before the same text, fewer than `n` characters of it.
structure Before (n : Nat) (cur cur' : Cursor) : Prop where
  rest : cur'.rest = cur.rest
  lt : cur.rest.length < n
  fits : cur.rest.length ≤ cur.size
  fits' : cur.rest.length ≤ cur'.size

-- The same token comes next, with fewer than `n` characters from it on.
def Facing (n : Nat) (cur cur' : Cursor) : Prop := Before n cur.skipTrivia cur'.skipTrivia

theorem skipTriviaWithin_spec (markup : Bool) (n : Nat) (cur : Cursor) :
    (cur.skipTriviaWithin markup n).size = cur.size ∧
      (cur.skipTriviaWithin markup n).offset + byteLength (cur.skipTriviaWithin markup n).rest =
        cur.offset + byteLength cur.rest := by
  have hforward (k : Nat) (cur : Cursor) : (cur.forward k).size = cur.size ∧
      (cur.forward k).offset + byteLength (cur.forward k).rest =
        cur.offset + byteLength cur.rest := by
    obtain ⟨hrest, hsize, hoffset⟩ := forward_spec k cur
    refine ⟨hsize, ?_⟩
    rw [hrest, hoffset, Nat.add_assoc, ← Text.byteLength_append, List.take_append_drop]
  induction n generalizing cur with
  | zero => exact ⟨rfl, rfl⟩
  | succ n ih =>
    unfold skipTriviaWithin
    split
    · dsimp only
      split
      · exact hforward _ cur
      · obtain ⟨hsize, hoffset⟩ := ih (cur.skipSeparators.forward (Token.comment _))
        obtain ⟨hsize₁, hoffset₁⟩ := hforward (Token.comment _) cur.skipSeparators
        obtain ⟨hsize₂, hoffset₂⟩ := hforward _ cur
        exact ⟨hsize.trans (hsize₁.trans hsize₂), hoffset.trans (hoffset₁.trans hoffset₂)⟩
    · obtain ⟨hsize, hoffset⟩ := ih (cur.forward _)
      obtain ⟨hsize₁, hoffset₁⟩ := hforward _ cur
      exact ⟨hsize.trans hsize₁, hoffset.trans hoffset₁⟩

namespace Before

theorem mono (h : Before m cur cur') (hm : m ≤ n) : Before n cur cur' :=
  ⟨h.rest, Nat.lt_of_lt_of_le h.lt hm, h.fits, h.fits'⟩

theorem succ (h : Before n cur cur') : Before (n + 1) cur cur' := h.mono (Nat.le_succ n)

theorem forward (h : Before n cur cur') (k : Nat) : Before n (cur.forward k) (cur'.forward k) := by
  obtain ⟨hrest, hsize, -⟩ := forward_spec k cur
  obtain ⟨hrest', hsize', -⟩ := forward_spec k cur'
  have hle : (cur.rest.drop k).length ≤ cur.rest.length := by
    rw [List.length_drop]
    omega
  refine ⟨?_, ?_, ?_, ?_⟩
  · rw [hrest, hrest', h.rest]
  all_goals rw [hrest]
  · exact Nat.lt_of_le_of_lt hle h.lt
  · exact hsize ▸ Nat.le_trans hle h.fits
  · exact hsize' ▸ Nat.le_trans hle h.fits'

theorem forward_lt (h : Before (n + 1) cur cur') (hk : k ≠ 0) (hne : cur.rest ≠ []) :
    Before n (cur.forward k) (cur'.forward k) := by
  have hlt := length_forward_lt hk hne
  exact { h.forward k with lt := Nat.lt_of_lt_of_le hlt (Nat.le_of_lt_succ h.lt) }

theorem skipSeparators (h : Before n cur cur') : Before n cur.skipSeparators cur'.skipSeparators := by
  rw [Cursor.skipSeparators, Cursor.skipSeparators, h.rest]
  exact h.forward _

theorem skipTriviaWithin (markup : Bool) {a b : Nat} (h : Before n cur cur')
    (ha : cur.rest.length < a) (hb : cur.rest.length < b) :
    Before n (cur.skipTriviaWithin markup a) (cur'.skipTriviaWithin markup b) := by
  induction a generalizing b cur cur' with
  | zero => omega
  | succ a ih =>
    cases b with
    | zero => omega
    | succ b =>
      have hsep := h.skipSeparators
      have hle := length_skipSeparators_le cur
      unfold Cursor.skipTriviaWithin
      rw [h.rest]
      split
      · dsimp only
        rw [hsep.rest]
        split
        · exact hsep
        · next hk =>
          have hlt := length_forward_lt hk (ne_nil_of_comment rfl hk)
          exact ih (hsep.forward _) (by omega) (by omega)
      · next hk =>
        have hne : cur.rest ≠ [] := by
          split at hk
          · exact ne_nil_of_markupComment rfl hk
          · exact absurd rfl hk
        have hlt := length_forward_lt hk hne
        exact ih (h.forward _) (by omega) (by omega)

theorem facing (h : Before n cur cur') : Facing n cur cur' :=
  h.skipTriviaWithin true (Nat.lt_add_one_of_le h.fits) (Nat.lt_add_one_of_le h.fits')

-- The two agree on whether only plain trivia come next.
theorem markupFree_eq (h : Before n cur cur') :
    (cur'.skipTrivia.offset == (cur'.skipTriviaWithin false (cur'.size + 1)).offset) =
      (cur.skipTrivia.offset == (cur.skipTriviaWithin false (cur.size + 1)).offset) := by
  have hall := h.facing.rest
  have hplain := (h.skipTriviaWithin false (Nat.lt_add_one_of_le h.fits)
    (Nat.lt_add_one_of_le h.fits')).rest
  have h₁ := (skipTriviaWithin_spec true (cur.size + 1) cur).2
  have h₂ := (skipTriviaWithin_spec false (cur.size + 1) cur).2
  have h₁' := (skipTriviaWithin_spec true (cur'.size + 1) cur').2
  have h₂' := (skipTriviaWithin_spec false (cur'.size + 1) cur').2
  rw [hplain] at h₂'
  change cur.skipTrivia.offset + byteLength cur.skipTrivia.rest = _ at h₁
  change cur'.skipTrivia.offset + byteLength cur'.skipTrivia.rest = _ at h₁'
  rw [hall] at h₁'
  rw [Bool.eq_iff_iff, beq_iff_eq, beq_iff_eq]
  omega

-- What comes ahead of one cursor comes ahead of the other.
theorem ahead? (h : Before n cur cur') (semicolon afterOperand : Bool) :
    cur.ahead? semicolon afterOperand = none ∧ cur'.ahead? semicolon afterOperand = none ∨
      ∃ next next' question, cur.ahead? semicolon afterOperand = some ⟨next, question⟩ ∧
        cur'.ahead? semicolon afterOperand = some ⟨next', question⟩ ∧ Before n next next' := by
  have hwithin (a b : Nat) (cur cur' : Cursor) (h : Before n cur cur') (ha : cur.rest.length < a)
      (hb : cur.rest.length < b) : cur.aheadWithin semicolon afterOperand a = none ∧
        cur'.aheadWithin semicolon afterOperand b = none ∨
      ∃ next next' question, cur.aheadWithin semicolon afterOperand a = some ⟨next, question⟩ ∧
        cur'.aheadWithin semicolon afterOperand b = some ⟨next', question⟩ ∧
          Before n next next' := by
    induction a generalizing b cur cur' with
    | zero => omega
    | succ a ih =>
      cases b with
      | zero => omega
      | succ b =>
        have hsep := h.skipSeparators
        have hle := length_skipSeparators_le cur
        unfold aheadWithin
        rw [h.rest]
        split
        · exact Or.inl ⟨rfl, rfl⟩
        · dsimp only
          rw [hsep.rest]
          split
          · exact Or.inr ⟨_, _, _, rfl, rfl, hsep⟩
          · next hk =>
            have hlt := length_forward_lt hk (ne_nil_of_comment rfl hk)
            exact ih b _ _ (hsep.forward _) (by omega) (by omega)
  exact hwithin _ _ cur cur' h (Nat.lt_add_one_of_le h.fits) (Nat.lt_add_one_of_le h.fits')

theorem supply? (h : Before n cur cur') (afterOperand : Bool) :
    cur.supply? afterOperand = none ∧ cur'.supply? afterOperand = none ∨
      ∃ next next', cur.supply? afterOperand = some next ∧
        cur'.supply? afterOperand = some next' ∧ Before n next next' := by
  have hwithin (a b : Nat) (cur cur' : Cursor) (h : Before n cur cur') (ha : cur.rest.length < a)
      (hb : cur.rest.length < b) : cur.supplyWithin afterOperand a = none ∧
        cur'.supplyWithin afterOperand b = none ∨
      ∃ next next', cur.supplyWithin afterOperand a = some next ∧
        cur'.supplyWithin afterOperand b = some next' ∧ Before n next next' := by
    induction a generalizing b cur cur' with
    | zero => omega
    | succ a ih =>
      cases b with
      | zero => omega
      | succ b =>
        have hsep := h.skipSeparators
        have hle := length_skipSeparators_le cur
        unfold supplyWithin
        rw [h.rest]
        split
        · exact Or.inr ⟨_, _, rfl, rfl, h⟩
        · dsimp only
          rw [hsep.rest]
          split
          · exact Or.inl ⟨rfl, rfl⟩
          · next hk =>
            have hlt := length_forward_lt hk (ne_nil_of_comment rfl hk)
            exact ih b _ _ (hsep.forward _) (by omega) (by omega)
  exact hwithin _ _ cur cur' h (Nat.lt_add_one_of_le h.fits) (Nat.lt_add_one_of_le h.fits')

end Before

end Cursor

namespace Parser

open Cursor (Before Facing)
open Concrete (unplaced)

/-! Two runs -/

-- Both runs fail, or both read something and `post` holds of what they read and where they stop.
def Agree (p p' : Parser α) (cur cur' : Cursor) (post : α → α → Cursor → Cursor → Prop) : Prop :=
  p cur = none ∧ p' cur' = none ∨
    ∃ a a' next next', p cur = some (a, next) ∧ p' cur' = some (a', next') ∧ post a a' next next'

-- What was read looks the same, and fewer than `n` characters are left.
def Reach (n : Nat) (view : α → β) (a a' : α) (cur cur' : Cursor) : Prop :=
  view a' = view a ∧ Before n cur cur'

section agree

variable {p p' q q' : Parser α} {f f' : α → Parser β} {post : β → β → Cursor → Cursor → Prop}
  {post' post'' : α → α → Cursor → Cursor → Prop} {view : α → γ}

theorem Agree.bind
    (h : Agree p p' cur cur' fun a a' next next' => Agree (f a) (f' a') next next' post) :
    Agree (p >>= f) (p' >>= f') cur cur' post := by
  rcases h with ⟨h, h'⟩ | ⟨a, a', next, next', h, h', hrest⟩
  · refine Or.inl ⟨?_, ?_⟩
    · exact Option.bind_eq_none_iff.mpr fun r hr => by rw [h] at hr; cases hr
    · exact Option.bind_eq_none_iff.mpr fun r hr => by rw [h'] at hr; cases hr
  · have heq : (p >>= f) cur = f a next := by
      change (p cur).bind _ = _
      rw [h]
      rfl
    have heq' : (p' >>= f') cur' = f' a' next' := by
      change (p' cur').bind _ = _
      rw [h']
      rfl
    unfold Agree
    rw [heq, heq']
    exact hrest

theorem Agree.pure {a a' : α} (h : post' a a' cur cur') :
    Agree (pure a) (pure a') cur cur' post' := Or.inr ⟨a, a', cur, cur', rfl, rfl, h⟩

theorem Agree.pure_bind {a a' : α} (h : Agree (f a) (f' a') cur cur' post) :
    Agree (Pure.pure a >>= f) (Pure.pure a' >>= f') cur cur' post := h

theorem Agree.failure : Agree failure failure cur cur' post' := Or.inl ⟨rfl, rfl⟩

theorem Agree.failure_bind : Agree (Alternative.failure >>= f) (Alternative.failure >>= f') cur cur' post :=
  Or.inl ⟨rfl, rfl⟩

theorem Agree.mono (h : Agree p p' cur cur' post')
    (himp : ∀ a a' next next', post' a a' next next' → post'' a a' next next') :
    Agree p p' cur cur' post'' := by
  rcases h with h | ⟨a, a', next, next', h, h', hpost⟩
  · exact Or.inl h
  · exact Or.inr ⟨a, a', next, next', h, h', himp a a' next next' hpost⟩

theorem Agree.andThen (h : Agree p p' cur cur' post')
    (hf : ∀ a a' next next', post' a a' next next' → Agree (f a) (f' a') next next' post) :
    Agree (p >>= f) (p' >>= f') cur cur' post := .bind (h.mono hf)

theorem Agree.orElse (h : Agree p p' cur cur' post') (h' : Agree q q' cur cur' post') :
    Agree (p <|> q) (p' <|> q') cur cur' post' := by
  have hor (p q : Parser α) (cur : Cursor) : (p <|> q) cur = (p cur <|> q cur) := rfl
  unfold Agree
  rw [hor, hor]
  rcases h with ⟨h₁, h₁'⟩ | ⟨a, a', next, next', h₁, h₁', hpost⟩
  · rw [h₁, h₁']
    exact h'
  · rw [h₁, h₁']
    exact Or.inr ⟨a, a', next, next', rfl, rfl, hpost⟩

theorem Agree.map {g : α → β}
    (h : Agree p p' cur cur' fun a a' next next' => post (g a) (g a') next next') :
    Agree (g <$> p) (g <$> p') cur cur' post := by
  have hmap (p : Parser α) : g <$> p = p >>= fun a => Pure.pure (g a) := by rw [map_eq_pure_bind]
  rw [hmap, hmap]
  exact .bind (h.mono fun _ _ _ _ hpost => .pure hpost)

theorem Agree.get {f f' : Cursor → Parser β} (h : Agree (f cur) (f' cur') cur cur' post) :
    Agree (get >>= f) (get >>= f') cur cur' post := h

theorem Agree.set {next next' : Cursor} {f f' : PUnit → Parser β}
    (h : Agree (f ⟨⟩) (f' ⟨⟩) next next' post) :
    Agree (set next >>= f) (set next' >>= f') cur cur' post := h

theorem Agree.modify {g : Cursor → Cursor} {f f' : PUnit → Parser β}
    (h : Agree (f ⟨⟩) (f' ⟨⟩) (g cur) (g cur') post) :
    Agree (modify g >>= f) (modify g >>= f') cur cur' post := h

end agree

/-! Parsers that look ahead -/

-- Both runs see the same and stay.
def Same (cur cur' : Cursor) (a a' : α) (next next' : Cursor) : Prop :=
  a' = a ∧ next = cur ∧ next' = cur'

theorem Agree.see {p p' : Parser α} {f f' : α → Parser β}
    {post : β → β → Cursor → Cursor → Prop} (h : Agree p p' cur cur' (Same cur cur'))
    (hf : ∀ a, Agree (f a) (f' a) cur cur' post) : Agree (p >>= f) (p' >>= f') cur cur' post := by
  refine h.andThen ?_
  rintro _ a _ _ ⟨rfl, rfl, rfl⟩
  exact hf a

theorem see_peek (h : Facing n cur cur') : Agree peek peek cur cur' (Same cur cur') :=
  Or.inr ⟨_, _, cur, cur', rfl, rfl, h.rest, rfl, rfl⟩

theorem see_peekWord (h : Facing n cur cur') :
    Agree peekWord peekWord cur cur' (Same cur cur') :=
  (see_peek h).see fun _ => .pure ⟨rfl, rfl, rfl⟩

theorem see_peekChar (h : Facing n cur cur') :
    Agree peekChar peekChar cur cur' (Same cur cur') :=
  (see_peek h).see fun _ => .pure ⟨rfl, rfl, rfl⟩

theorem see_nextIs (p : Char → Bool) (h : Facing n cur cur') :
    Agree (nextIs p) (nextIs p) cur cur' (Same cur cur') :=
  (see_peekChar h).see fun _ => .pure ⟨rfl, rfl, rfl⟩

theorem see_noMarkupComment (h : Before n cur cur') :
    Agree noMarkupComment noMarkupComment cur cur' (Same cur cur') := by
  unfold noMarkupComment
  refine .get ?_
  rw [h.markupFree_eq]
  split
  · exact .pure ⟨rfl, rfl, rfl⟩
  · exact .failure

/-! Parsers that move -/

-- From the same token on both read the same, that token at least.
def Leads (m : Nat) (view : α → β) (p p' : Parser α) : Prop :=
  ∀ cur cur', Facing (m + 1) cur cur' → Agree p p' cur cur' (Reach m view)

-- From the same text on both read the same, one character at least.
def Takes (m : Nat) (view : α → β) (p p' : Parser α) : Prop :=
  ∀ cur cur', Before (m + 1) cur cur' → Agree p p' cur cur' (Reach m view)

-- From the same text on both read the same.
def Stays (m : Nat) (view : α → β) (p p' : Parser α) : Prop :=
  ∀ cur cur', Before m cur cur' → Agree p p' cur cur' (Reach m view)

section moving

variable {p p' q q' : Parser α} {f f' : α → Parser β} {post : β → β → Cursor → Cursor → Prop}
  {view : α → γ}

theorem Leads.takes (h : Leads m view p p') : Takes m view p p' :=
  fun cur cur' hcur => h cur cur' hcur.facing

theorem Takes.stays (h : Takes m view p p') : Stays m view p p' :=
  fun cur cur' hcur => h cur cur' hcur.succ

theorem Leads.stays (h : Leads m view p p') : Stays m view p p' := h.takes.stays

theorem Leads.bind (h : Leads m view p p') (hcur : Facing (m + 1) cur cur')
    (hf : ∀ a a' next next', view a' = view a → Before m next next' →
      Agree (f a) (f' a') next next' post) : Agree (p >>= f) (p' >>= f') cur cur' post :=
  (h cur cur' hcur).andThen fun a a' next next' hreach =>
    hf a a' next next' hreach.1 hreach.2

theorem Takes.bind (h : Takes m view p p') (hcur : Before (m + 1) cur cur')
    (hf : ∀ a a' next next', view a' = view a → Before m next next' →
      Agree (f a) (f' a') next next' post) : Agree (p >>= f) (p' >>= f') cur cur' post :=
  (h cur cur' hcur).andThen fun a a' next next' hreach =>
    hf a a' next next' hreach.1 hreach.2

theorem Stays.bind (h : Stays m view p p') (hcur : Before m cur cur')
    (hf : ∀ a a' next next', view a' = view a → Before m next next' →
      Agree (f a) (f' a') next next' post) : Agree (p >>= f) (p' >>= f') cur cur' post :=
  (h cur cur' hcur).andThen fun a a' next next' hreach =>
    hf a a' next next' hreach.1 hreach.2

theorem Stays.orElse (h : Stays m view p p') (h' : Stays m view q q') :
    Stays m view (p <|> q) (p' <|> q') :=
  fun cur cur' hcur => (h cur cur' hcur).orElse (h' cur cur' hcur)

end moving

/-! Leaves and tokens -/

theorem stays_leaf (kind : String) (standing : Standing) (k : Nat) :
    Stays m unplaced (leaf kind standing k) (leaf kind standing k) := by
  intro cur cur' h
  exact Or.inr ⟨_, _, _, _, rfl, rfl, by simp [h.rest], h.forward k⟩

theorem leaf_lt (kind : String) (standing : Standing) (h : Before (m + 1) cur cur') (hk : k ≠ 0)
    (hne : cur.rest ≠ []) :
    Agree (leaf kind standing k) (leaf kind standing k) cur cur' (Reach m unplaced) :=
  Or.inr ⟨_, _, _, _, rfl, rfl, by simp [h.rest], h.forward_lt hk hne⟩

theorem stays_nothing : Stays m unplaced nothing nothing := stays_leaf "" .anonymous 0

theorem takes_adjacent (kind : String) {scan : List Char → Nat} (hscan : scan [] = 0) :
    Takes m unplaced (adjacent kind scan) (adjacent kind scan) := by
  intro cur cur' h
  unfold adjacent
  refine .get ?_
  rw [h.rest]
  split
  · exact .failure
  · next k hk =>
    exact leaf_lt kind .named h hk fun hnil => hk (by rw [hnil, hscan])

theorem leads_token (kind : String) {scan : List Char → Nat} (hscan : scan [] = 0) :
    Leads m unplaced (token kind scan) (token kind scan) :=
  fun cur cur' h => .modify (takes_adjacent kind hscan cur.skipTrivia cur'.skipTrivia h)

theorem length_ne_zero {s : String} (hs : s ≠ "") : s.length ≠ 0 := by
  rw [← String.length_toList, ne_eq, List.length_eq_zero_iff]
  exact fun h => hs (String.toList_inj.mp h)

theorem takes_adjacentMark {s : String} (hs : s ≠ "") :
    Takes m unplaced (adjacentMark s) (adjacentMark s) := by
  intro cur cur' h
  unfold adjacentMark
  refine .get ?_
  rw [h.rest]
  split
  · next hstarts =>
    refine leaf_lt s .anonymous h (length_ne_zero hs) fun hnil => hs ?_
    rw [hnil, Token.startsWith, List.isPrefixOf_iff_prefix, List.prefix_nil] at hstarts
    exact String.toList_inj.mp hstarts
  · exact .failure

theorem leads_mark {s : String} (hs : s ≠ "") : Leads m unplaced (mark s) (mark s) :=
  fun cur cur' h => .modify (takes_adjacentMark hs cur.skipTrivia cur'.skipTrivia h)

theorem leads_keyword {s : String} (hs : s ≠ "") : Leads m unplaced (keyword s) (keyword s) := by
  intro cur cur' h
  unfold keyword
  refine .modify (.get ?_)
  have h : Before (m + 1) cur.skipTrivia cur'.skipTrivia := h
  rw [h.rest]
  split
  · next hword =>
    refine leaf_lt s .anonymous h (length_ne_zero hs) fun hnil => hs ?_
    rw [hnil, beq_iff_eq] at hword
    exact hword.symm.trans (by decide)
  · exact .failure

-- Also a keyword without characters, which is none, is read alike.
theorem stays_keyword (s : String) : Stays m unplaced (keyword s) (keyword s) := by
  intro cur cur' h
  unfold keyword
  refine .modify (.get ?_)
  rw [h.facing.rest]
  split
  · exact stays_leaf s .anonymous s.length _ _ h.facing
  · exact .failure

theorem leads_word (kind : String) : Leads m unplaced (word kind) (word kind) :=
  leads_token kind rfl

theorem leads_string : Leads m unplaced (token "string" Token.string) (token "string" Token.string) :=
  leads_token "string" rfl

theorem leads_exchangedName : Leads m unplaced exchangedName exchangedName := by
  intro cur cur' h
  unfold exchangedName
  refine (see_peekChar h).see fun c => ?_
  split
  · split
    · exact leads_string cur cur' h
    · exact leads_word "identifier" cur cur' h
  · exact .failure

/-! Repetition -/

-- One step of a repetition: the last one stays, any other leaves fewer characters.
def Turn (m : Nat) (view : α → β) : Option α → Option α → Cursor → Cursor → Prop
  | none, none, cur, cur' => Before (m + 1) cur cur'
  | some a, some a', cur, cur' => view a' = view a ∧ Before m cur cur'
  | _, _, _, _ => False

def Turns (m : Nat) (view : α → β) (step step' : Parser (Option α)) : Prop :=
  ∀ j < m, ∀ cur cur', Before (j + 1) cur cur' → Agree step step' cur cur' (Turn j view)

section repetition

variable {view : α → γ} {step step' : Parser (Option α)}

theorem Turn.cases {o o' : Option α} (h : Turn m view o o' cur cur') :
    o = none ∧ o' = none ∧ Before (m + 1) cur cur' ∨
      ∃ a a', o = some a ∧ o' = some a' ∧ view a' = view a ∧ Before m cur cur' := by
  rcases o with - | a <;> rcases o' with - | a'
  · exact Or.inl ⟨rfl, rfl, h⟩
  · exact h.elim
  · exact h.elim
  · exact Or.inr ⟨a, a', rfl, rfl, h⟩

theorem Agree.stop (h : Before (m + 1) cur cur') :
    Agree (Pure.pure none) (Pure.pure none) cur cur' (Turn m view) := .pure h

theorem Agree.turn {p p' : Parser α} (h : Agree p p' cur cur' (Reach m view)) :
    Agree (some <$> p) (some <$> p') cur cur' (Turn m view) := .map (h.mono fun _ _ _ _ h => h)

theorem agree_manyWithin (hstep : Turns m view step step') (hn : n ≤ m) (a b : Nat) (ha : n ≤ a)
    (hb : n ≤ b) (hcur : Before n cur cur') :
    Agree (manyWithin step a) (manyWithin step' b) cur cur' (Reach n (List.map view)) := by
  induction n generalizing a b cur cur' with
  | zero => exact absurd hcur.lt (Nat.not_lt_zero _)
  | succ n ih =>
    obtain ⟨a, rfl⟩ := Nat.exists_eq_add_of_le' (Nat.lt_of_lt_of_le (Nat.succ_pos n) ha)
    obtain ⟨b, rfl⟩ := Nat.exists_eq_add_of_le' (Nat.lt_of_lt_of_le (Nat.succ_pos n) hb)
    unfold manyWithin
    refine (hstep n hn cur cur' hcur).andThen fun o o' next next' hturn => ?_
    rcases hturn.cases with ⟨rfl, rfl, hnext⟩ | ⟨x, x', rfl, rfl, hview, hnext⟩
    · exact .pure ⟨rfl, hnext⟩
    · refine (ih (Nat.le_of_succ_le hn) a b (Nat.le_of_succ_le_succ ha)
        (Nat.le_of_succ_le_succ hb) hnext).andThen fun xs xs' last last' hmore => ?_
      refine .pure ⟨?_, hmore.2.succ⟩
      rw [List.map_cons, List.map_cons, hview, hmore.1]

theorem stays_many (view : α → γ) (hstep : Turns m view step step') :
    Stays m (List.map view) (many step) (many step') := by
  intro cur cur' h
  refine .get ((agree_manyWithin hstep (Nat.succ_le_of_lt h.lt) _ _
    (Nat.succ_le_succ h.fits) (Nat.succ_le_succ h.fits')
    { h with lt := Nat.lt_succ_self _ }).mono fun _ _ _ _ hreach => ?_)
  exact ⟨hreach.1, hreach.2.mono (Nat.succ_le_of_lt h.lt)⟩

theorem stays_grow {step step' : α → Parser (Option α)}
    (hstep : ∀ a a', view a' = view a → Turns m view (step a) (step' a')) {a a' : α}
    (ha : view a' = view a) : Stays m view (grow step a) (grow step' a') := by
  have hwithin (n : Nat) (hn : n ≤ m) (k l : Nat) (hk : n ≤ k) (hl : n ≤ l) (a a' : α)
      (ha : view a' = view a) (cur cur' : Cursor) (hcur : Before n cur cur') :
      Agree (growWithin step k a) (growWithin step' l a') cur cur' (Reach n view) := by
    induction n generalizing k l a a' cur cur' with
    | zero => exact absurd hcur.lt (Nat.not_lt_zero _)
    | succ n ih =>
      obtain ⟨k, rfl⟩ := Nat.exists_eq_add_of_le' (Nat.lt_of_lt_of_le (Nat.succ_pos n) hk)
      obtain ⟨l, rfl⟩ := Nat.exists_eq_add_of_le' (Nat.lt_of_lt_of_le (Nat.succ_pos n) hl)
      unfold growWithin
      refine (hstep a a' ha n hn cur cur' hcur).andThen fun o o' next next' hturn => ?_
      rcases hturn.cases with ⟨rfl, rfl, hnext⟩ | ⟨x, x', rfl, rfl, hview, hnext⟩
      · exact .pure ⟨ha, hnext⟩
      · refine (ih (Nat.le_of_succ_le hn) k l (Nat.le_of_succ_le_succ hk)
          (Nat.le_of_succ_le_succ hl) x x' hview next next' hnext).mono fun _ _ _ _ hreach => ?_
        exact ⟨hreach.1, hreach.2.succ⟩
  intro cur cur' h
  refine .get ((hwithin _ (Nat.succ_le_of_lt h.lt) _ _ (Nat.succ_le_succ h.fits)
    (Nat.succ_le_succ h.fits') a a' ha cur cur' { h with lt := Nat.lt_succ_self _ }).mono
      fun _ _ _ _ hreach => ?_)
  exact ⟨hreach.1, hreach.2.mono (Nat.succ_le_of_lt h.lt)⟩

-- One step where only the next token is known to be the same: the last one stays, any other leaves
-- the same text and less than `m` characters of it.
def Glance (m : Nat) (view : α → β) (cur cur' : Cursor) :
    Option α → Option α → Cursor → Cursor → Prop
  | none, none, next, next' => next = cur ∧ next' = cur'
  | some a, some a', next, next' => view a' = view a ∧ Before m next next'
  | _, _, _, _ => False

theorem Glance.cases {o o' : Option α} {next next' : Cursor}
    (h : Glance m view cur cur' o o' next next') :
    o = none ∧ o' = none ∧ next = cur ∧ next' = cur' ∨
      ∃ a a', o = some a ∧ o' = some a' ∧ view a' = view a ∧ Before m next next' := by
  rcases o with - | a <;> rcases o' with - | a'
  · exact Or.inl ⟨rfl, rfl, h⟩
  · exact h.elim
  · exact h.elim
  · exact Or.inr ⟨a, a', rfl, rfl, h⟩

theorem agree_manyWithin_of_facing (a b : Nat) (ha : m < a) (hb : m < b)
    (hstep : ∀ j ≤ m, ∀ cur cur', Facing (j + 1) cur cur' →
      Agree step step' cur cur' (Glance j view cur cur')) (hcur : Facing (m + 1) cur cur') :
    Agree (manyWithin step a) (manyWithin step' b) cur cur' fun as as' next next' =>
      as'.map view = as.map view ∧ Facing (m + 1) next next' := by
  induction m generalizing a b cur cur' with
  | zero =>
    obtain ⟨a, rfl⟩ := Nat.exists_eq_add_of_le' ha
    obtain ⟨b, rfl⟩ := Nat.exists_eq_add_of_le' hb
    unfold manyWithin
    refine (hstep 0 (Nat.le_refl 0) cur cur' hcur).andThen fun o o' next next' hglance => ?_
    rcases hglance.cases with ⟨rfl, rfl, rfl, rfl⟩ | ⟨x, x', -, -, -, hnext⟩
    · exact .pure ⟨rfl, hcur⟩
    · exact absurd hnext.lt (Nat.not_lt_zero _)
  | succ m ih =>
    obtain ⟨a, rfl⟩ := Nat.exists_eq_add_of_le' (Nat.lt_of_le_of_lt (Nat.zero_le _) ha)
    obtain ⟨b, rfl⟩ := Nat.exists_eq_add_of_le' (Nat.lt_of_le_of_lt (Nat.zero_le _) hb)
    unfold manyWithin
    refine (hstep (m + 1) (Nat.le_refl _) cur cur' hcur).andThen fun o o' next next' hglance => ?_
    rcases hglance.cases with ⟨rfl, rfl, rfl, rfl⟩ | ⟨x, x', rfl, rfl, hview, hnext⟩
    · exact .pure ⟨rfl, hcur⟩
    · refine (ih a b (Nat.lt_of_succ_lt_succ ha) (Nat.lt_of_succ_lt_succ hb)
        (fun j hj => hstep j (Nat.le_succ_of_le hj)) hnext.facing).andThen
          fun xs xs' last last' hmore => ?_
      refine .pure ⟨?_, Before.succ hmore.2⟩
      rw [List.map_cons, List.map_cons, hview, hmore.1]

theorem agree_many_of_facing
    (hstep : ∀ j ≤ m, ∀ cur cur', Facing (j + 1) cur cur' →
      Agree step step' cur cur' (Glance j view cur cur')) (hcur : Facing (m + 1) cur cur') :
    Agree (many step) (many step') cur cur' fun as as' next next' =>
      as'.map view = as.map view ∧ Facing (m + 1) next next' := by
  -- counted from the characters that are left, so that the steps that are left suffice
  generalize hk : cur.skipTrivia.rest.length = k
  have hkm : k ≤ m := hk ▸ Nat.le_of_lt_succ hcur.lt
  have hnear : Facing (k + 1) cur cur' := { hcur with lt := hk ▸ Nat.lt_succ_self _ }
  have hsize : k ≤ cur.size :=
    hk ▸ (Cursor.skipTriviaWithin_spec true (cur.size + 1) cur).1 ▸ hcur.fits
  have hsize' : k ≤ cur'.size :=
    hk ▸ (Cursor.skipTriviaWithin_spec true (cur'.size + 1) cur').1 ▸ hcur.fits'
  refine .get ((agree_manyWithin_of_facing _ _ (Nat.lt_succ_of_le hsize) (Nat.lt_succ_of_le hsize')
    (fun j hj => hstep j (Nat.le_trans hj hkm)) hnear).mono fun _ _ _ _ hmore => ?_)
  exact ⟨hmore.1, Before.mono hmore.2 (Nat.succ_le_succ hkm)⟩

end repetition

/-! Lists -/

-- With fewer than `m` characters left both read the same, one character at least.
def Provides (m : Nat) (p p' : Parser Concrete) : Prop := ∀ j < m, Takes j unplaced p p'

section lists

variable {p p' : Parser Concrete}

theorem Provides.mono (h : Provides n p p') (hm : m ≤ n) : Provides m p p' :=
  fun j hj => h j (Nat.lt_of_lt_of_le hj hm)

theorem Provides.stays (h : Provides m p p') : Stays m unplaced p p' := by
  intro cur cur' hcur
  cases m with
  | zero => exact absurd hcur.lt (Nat.not_lt_zero _)
  | succ m =>
    exact (h m (Nat.lt_succ_self m) cur cur' hcur).mono fun _ _ _ _ hreach =>
      ⟨hreach.1, hreach.2.succ⟩

-- Behind an item of a list comes its end or a comma.
theorem agree_item {close : String} (h : Takes m unplaced p p') (hcur : Before (m + 1) cur cur') :
    Agree
      (do
        let a ← p
        if Token.startsWith close (← peek) then return some [a] else return some [a, ← mark ","])
      (do
        let a ← p'
        if Token.startsWith close (← peek) then return some [a] else return some [a, ← mark ","])
      cur cur' (Turn m (List.map unplaced)) := by
  refine h.bind hcur fun a a' next next' ha hnext => ?_
  refine (see_peek hnext.facing).see fun cs => ?_
  split
  · exact .pure ⟨by simp [ha], hnext⟩
  · refine (leads_mark (by decide)).stays.bind hnext fun comma comma' last last' hcomma hlast => ?_
    exact .pure ⟨by simp [ha, hcomma], hlast⟩

theorem stays_listWithHoles {close : String} (hclose : close ≠ "") (h : Provides m p p') :
    Stays m (List.map unplaced) (listWithHoles close p) (listWithHoles close p') := by
  intro cur cur' hcur
  unfold listWithHoles
  refine (stays_many (List.map unplaced) fun j hj cur cur' hcur => ?_).bind hcur
    fun parts parts' next next' hparts hnext => ?_
  · refine (see_peek hcur.facing).see fun cs => ?_
    split
    · exact .stop hcur
    split
    · refine (leads_mark (by decide)).bind hcur.facing fun comma comma' next next' hcomma hnext => ?_
      exact .pure ⟨by simp [hcomma], hnext⟩
    · exact agree_item (h j hj) hcur
  · refine (leads_mark hclose).stays.bind hnext fun closing closing' last last' hclosing hlast => ?_
    refine .pure ⟨?_, hlast⟩
    simp only [List.map_append, List.map_flatten, hparts, List.map_cons, hclosing]

theorem stays_listOf {close : String} (hclose : close ≠ "") (h : Provides m p p') :
    Stays m (List.map unplaced) (listOf close p) (listOf close p') := by
  intro cur cur' hcur
  unfold listOf
  refine (stays_many (List.map unplaced) fun j hj cur cur' hcur => ?_).bind hcur
    fun parts parts' next next' hparts hnext => ?_
  · refine (see_peek hcur.facing).see fun cs => ?_
    split
    · exact .stop hcur
    · exact agree_item (h j hj) hcur
  · refine (leads_mark hclose).stays.bind hnext fun closing closing' last last' hclosing hlast => ?_
    refine .pure ⟨?_, hlast⟩
    simp only [List.map_append, List.map_flatten, hparts, List.map_cons, hclosing]

end lists

/-! Semicolons -/

theorem stays_terminator (afterOperand : Bool) :
    Stays m unplaced (terminator afterOperand) (terminator afterOperand) := by
  intro cur cur' hcur
  unfold terminator
  refine .get ?_
  rcases hcur.supply? afterOperand with ⟨hnone, hnone'⟩ | ⟨next, next', hsome, hsome', hnext⟩
  · rw [hnone, hnone']
    dsimp only
    rcases hcur.ahead? false afterOperand with
      ⟨hahead, hahead'⟩ | ⟨next, next', question, hahead, hahead', hnext⟩
    · rw [hahead, hahead']
      exact .failure
    · rw [hahead, hahead']
      dsimp only
      rw [hnext.rest]
      split
      · exact .set (stays_leaf ";" .anonymous 1 next next' hnext)
      · exact .failure
  · rw [hsome, hsome']
    exact .set (stays_nothing next next' hnext)

theorem stays_supplied? (afterOperand : Bool) :
    Stays m (Option.map unplaced) (supplied? afterOperand) (supplied? afterOperand) := by
  intro cur cur' hcur
  unfold supplied?
  refine .get ?_
  rcases hcur.supply? afterOperand with ⟨hnone, hnone'⟩ | ⟨next, next', hsome, hsome', hnext⟩
  · rw [hnone, hnone']
    have hend (r : PUnit) : Agree ((fun _ => pure none : PUnit → Parser (Option Concrete)) r)
        (pure none) cur cur' (Reach m (Option.map unplaced)) := .pure ⟨rfl, hcur⟩
    dsimp only
    split
    · exact (see_noMarkupComment hcur).see hend
    · exact hend ⟨⟩
  · rw [hsome, hsome']
    refine .set (stays_nothing.bind hnext fun a a' last last' ha hlast => ?_)
    exact .pure ⟨by simp [ha], hlast⟩

end Parser

end Flavoring.JavaScript
