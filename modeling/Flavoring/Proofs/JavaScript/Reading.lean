import Flavoring.JavaScript.Parser.Basic
import Flavoring.Proofs.JavaScript.Layout

/-!
Reading: what a parser keeps while it moves through a text.

A parser that starts at an offset of the text ends at an offset of the text, and what it has read
stands between the two.
-/

namespace Flavoring.JavaScript

open Text (IsCut byteLength)

variable {text : List Char} {cur next : Cursor} {α β : Type}

/-! Cursors -/

-- The cursor stands in the text.
structure Cursor.In (text : List Char) (cur : Cursor) : Prop where
  size : cur.size = text.length
  split : ∃ front, text = front ++ cur.rest ∧ byteLength front = cur.offset

-- It was moved forward from `cur`.
structure Cursor.Past (text : List Char) (cur next : Cursor) : Prop
    extends Cursor.In text next where
  le : cur.offset ≤ next.offset

namespace Cursor

theorem forward_spec (n : Nat) (cur : Cursor) :
    (cur.forward n).rest = cur.rest.drop n ∧ (cur.forward n).size = cur.size ∧
      (cur.forward n).offset = cur.offset + byteLength (cur.rest.take n) := by
  induction n generalizing cur with
  | zero => exact ⟨rfl, rfl, rfl⟩
  | succ n ih =>
    unfold forward
    cases hrest : cur.rest with
    | nil => simp [hrest]
    | cons c cs =>
      obtain ⟨hdrop, hsize, hoffset⟩ := ih (cur.past c cs)
      refine ⟨hdrop, hsize, ?_⟩
      rw [hoffset]
      simp only [past, List.take_succ_cons, Text.byteLength_cons]
      omega

namespace In

theorem isCut (h : cur.In text) : IsCut text cur.offset := by
  obtain ⟨front, hsplit, hoffset⟩ := h.split
  exact ⟨front, cur.rest, hsplit, hoffset⟩

theorem length_le (h : cur.In text) : cur.rest.length ≤ cur.size := by
  obtain ⟨front, hsplit, -⟩ := h.split
  rw [h.size, hsplit, List.length_append]
  omega

theorem refl (h : cur.In text) : Past text cur cur := ⟨h, Nat.le_refl _⟩

theorem forward (h : cur.In text) (n : Nat) : Past text cur (cur.forward n) := by
  obtain ⟨hrest, hsize, hoffset⟩ := forward_spec n cur
  obtain ⟨front, hsplit, hfront⟩ := h.split
  refine ⟨⟨hsize.trans h.size, front ++ cur.rest.take n, ?_, ?_⟩, ?_⟩
  · rw [hrest, List.append_assoc, List.take_append_drop]
    exact hsplit
  · rw [Text.byteLength_append, hoffset, hfront]
  · omega

theorem skipSeparators (h : cur.In text) : Past text cur cur.skipSeparators := h.forward _

end In

theorem Past.trans {last : Cursor} (h : Past text cur next) (h' : Past text next last) :
    Past text cur last := ⟨h'.toIn, Nat.le_trans h.le h'.le⟩

-- A character that is no separator stands next, if any does.
def AtToken (cur : Cursor) : Prop := ∀ c ∈ cur.rest.head?, isSeparator c = false

theorem atToken_skipSeparators (cur : Cursor) : cur.skipSeparators.AtToken := by
  intro c hc
  rw [skipSeparators, (forward_spec _ cur).1] at hc
  induction hrest : cur.rest generalizing cur with
  | nil =>
    rw [hrest] at hc
    cases hc
  | cons d cs ih =>
    rw [hrest, List.takeWhile_cons] at hc
    split at hc
    · exact ih { cur with rest := cs } hc rfl
    · next hd =>
      cases hc
      exact Bool.not_eq_true _ ▸ hd

theorem length_forward_lt {n : Nat} (hn : n ≠ 0) (hrest : cur.rest ≠ []) :
    (cur.forward n).rest.length < cur.rest.length := by
  rw [(forward_spec n cur).1, List.length_drop]
  have hpos := List.length_pos_iff.mpr hrest
  omega

theorem length_skipSeparators_le (cur : Cursor) :
    cur.skipSeparators.rest.length ≤ cur.rest.length := by
  rw [skipSeparators, (forward_spec _ cur).1, List.length_drop]
  exact Nat.sub_le _ _

theorem ne_nil_of_comment {cs : List Char} {k : Nat} (h : Token.comment cs = k) (hk : k ≠ 0) :
    cs ≠ [] := by
  rintro rfl
  exact hk h.symm

theorem ne_nil_of_markupComment {cs : List Char} {k : Nat} (h : Token.markupComment cs = k)
    (hk : k ≠ 0) : cs ≠ [] := by
  rintro rfl
  exact hk (h.symm.trans (by decide))

theorem ne_nil_of_operator {cs : List Char} {op : String} (h : Token.operator cs = op)
    (hop : op ≠ "") : cs ≠ [] := by
  rintro rfl
  exact hop (h.symm.trans (by decide))

theorem In.skipTriviaWithin (markup : Bool) (n : Nat) (h : cur.In text) :
    Past text cur (cur.skipTriviaWithin markup n) := by
  induction n generalizing cur with
  | zero => exact h.refl
  | succ n ih =>
    unfold Cursor.skipTriviaWithin
    split
    · have hnext := h.skipSeparators
      dsimp only
      split
      · exact hnext
      · have hbehind := hnext.forward (Token.comment cur.skipSeparators.rest)
        exact hnext.trans (hbehind.trans (ih hbehind.toIn))
    · have hbehind := h.forward (if markup = true then Token.markupComment cur.rest else 0)
      exact hbehind.trans (ih hbehind.toIn)

-- With enough steps all trivia are passed over.
theorem atToken_skipTriviaWithin (markup : Bool) (n : Nat) (hn : cur.rest.length < n) :
    (cur.skipTriviaWithin markup n).AtToken := by
  induction n generalizing cur with
  | zero => omega
  | succ n ih =>
    have hle := length_skipSeparators_le cur
    unfold Cursor.skipTriviaWithin
    split
    · dsimp only
      split
      · exact atToken_skipSeparators cur
      · next k hk =>
        have hlt := length_forward_lt hk (ne_nil_of_comment rfl hk)
        exact ih (by omega)
    · next k hk =>
      have hne : cur.rest ≠ [] := by
        split at hk
        · exact ne_nil_of_markupComment rfl hk
        · exact absurd rfl hk
      have hlt := length_forward_lt hk hne
      exact ih (by omega)

theorem In.skipTrivia (h : cur.In text) : Past text cur cur.skipTrivia :=
  h.skipTriviaWithin _ _

theorem In.atToken_skipTrivia (h : cur.In text) : cur.skipTrivia.AtToken := by
  have hle := h.length_le
  exact atToken_skipTriviaWithin _ _ (by omega)

theorem In.ahead {semicolon afterOperand : Bool} {ahead : Ahead} (h : cur.In text)
    (hahead : cur.ahead? semicolon afterOperand = some ahead) :
    Past text cur ahead.cursor ∧ ahead.cursor.AtToken := by
  unfold ahead? at hahead
  generalize cur.size + 1 = n at hahead
  induction n generalizing cur with
  | zero => cases hahead
  | succ n ih =>
    unfold aheadWithin at hahead
    split at hahead
    · cases hahead
    · have hnext := h.skipSeparators
      dsimp only at hahead
      split at hahead
      · cases hahead
        exact ⟨hnext, atToken_skipSeparators cur⟩
      · have hbehind := hnext.forward (Token.comment cur.skipSeparators.rest)
        obtain ⟨hpast, htoken⟩ := ih hbehind.toIn hahead
        exact ⟨hnext.trans (hbehind.trans hpast), htoken⟩

theorem In.supply {afterOperand : Bool} (h : cur.In text)
    (hsupply : cur.supply? afterOperand = some next) : Past text cur next := by
  unfold supply? at hsupply
  generalize cur.size + 1 = n at hsupply
  induction n generalizing cur with
  | zero => cases hsupply
  | succ n ih =>
    unfold supplyWithin at hsupply
    split at hsupply
    · cases hsupply
      exact h.refl
    · have hnext := h.skipSeparators
      dsimp only at hsupply
      split at hsupply
      · cases hsupply
      · have hbehind := hnext.forward (Token.comment cur.skipSeparators.rest)
        exact hnext.trans (hbehind.trans (ih hbehind.toIn hsupply))

end Cursor

namespace Parser

/-! Results of parsers -/

-- Whatever the parser reads from here and wherever it stops, `post` holds.
def Yields (p : Parser α) (cur : Cursor) (post : α → Cursor → Prop) : Prop :=
  ∀ a next, p cur = some (a, next) → post a next

section yields

variable {p q : Parser α} {f : α → Parser β} {post : β → Cursor → Prop}
  {post' : α → Cursor → Prop}

theorem Yields.bind (h : Yields p cur fun a next => Yields (f a) next post) :
    Yields (p >>= f) cur post := by
  intro b last hb
  obtain ⟨⟨a, next⟩, ha, hrest⟩ := Option.bind_eq_some_iff.mp hb
  exact h a next ha b last hrest

theorem Yields.pure {a : α} (h : post' a cur) : Yields (pure a) cur post' := by
  intro b next hb
  cases hb
  exact h

theorem Yields.failure : Yields (failure : Parser α) cur post' := nofun

theorem Yields.mono {post'' : α → Cursor → Prop} (h : Yields p cur post')
    (himp : ∀ a next, post' a next → post'' a next) : Yields p cur post'' :=
  fun a next ha => himp a next (h a next ha)

theorem Yields.orElse (h : Yields p cur post') (h' : Yields q cur post') :
    Yields (p <|> q) cur post' := by
  intro a next ha
  have hor : (p cur <|> q cur) = some (a, next) := ha
  cases hp : p cur with
  | none =>
    rw [hp] at hor
    exact h' a next hor
  | some result =>
    rw [hp] at hor
    cases hor
    exact h a next hp

theorem Yields.andThen (h : Yields p cur post')
    (hf : ∀ a next, post' a next → Yields (f a) next post) : Yields (p >>= f) cur post :=
  .bind (h.mono hf)

theorem Yields.map {g : α → β} (h : Yields p cur fun a next => post (g a) next) :
    Yields (g <$> p) cur post := by
  intro b next hb
  obtain ⟨⟨a, last⟩, ha, heq⟩ := Option.bind_eq_some_iff.mp hb
  obtain ⟨rfl, rfl⟩ := Prod.mk.inj (Option.some.inj heq)
  exact h a last ha

theorem Yields.get {f : Cursor → Parser β} (h : Yields (f cur) cur post) :
    Yields (get >>= f) cur post := h

theorem Yields.peek {f : List Char → Parser β} (h : Yields (f cur.skipTrivia.rest) cur post) :
    Yields (peek >>= f) cur post := h

theorem Yields.peekWord {f : String → Parser β}
    (h : Yields (f (Token.wordText cur.skipTrivia.rest)) cur post) :
    Yields (peekWord >>= f) cur post := h

theorem Yields.peekChar {f : Option Char → Parser β}
    (h : Yields (f cur.skipTrivia.rest.head?) cur post) : Yields (peekChar >>= f) cur post := h

theorem Yields.set {f : PUnit → Parser β} (h : Yields (f ⟨⟩) next post) :
    Yields (set next >>= f) cur post := h

theorem Yields.modify {g : Cursor → Cursor} {f : PUnit → Parser β}
    (h : Yields (f ⟨⟩) (g cur) post) : Yields (modify g >>= f) cur post := h

end yields

/-! Parsers that do not move -/

-- The parser only looks ahead.
def Looks (p : Parser α) : Prop := ∀ cur, Yields p cur fun _ next => next = cur

theorem Looks.bind {p : Parser α} {f : α → Parser β} {post : β → Cursor → Prop} (hp : Looks p)
    (h : ∀ a, Yields (f a) cur post) : Yields (p >>= f) cur post := by
  refine Yields.bind fun a next ha => ?_
  have heq : next = cur := hp cur a next ha
  exact heq ▸ h a

theorem looks_get : Looks (get : Parser Cursor) := fun _ => Yields.pure rfl

theorem Looks.map {p : Parser α} (hp : Looks p) (g : α → β) : Looks (do return g (← p)) :=
  fun _ => hp.bind fun _ => Yields.pure rfl

theorem looks_peek : Looks peek := looks_get.map _

theorem looks_peekWord : Looks peekWord := looks_peek.map _

theorem looks_peekChar : Looks peekChar := looks_peek.map _

theorem looks_nextIs (p : Char → Bool) : Looks (nextIs p) := looks_peekChar.map _

theorem looks_noMarkupComment : Looks noMarkupComment := by
  intro cur
  unfold noMarkupComment
  refine looks_get.bind fun start => ?_
  split
  · exact Yields.pure rfl
  · exact Yields.failure

/-! Parsers that move forward -/

-- The parser stays in the text, and what it has read stands between its ends as `R` says.
def Spans (text : List Char) (R : Nat → α → Nat → Prop) (p : Parser α) : Prop :=
  ∀ cur, cur.In text → Yields p cur fun a next => next.In text ∧ R cur.offset a next.offset

-- The parser reads one construct, or a list of nodes.
abbrev Reads (text : List Char) (p : Parser Concrete) : Prop := Spans text (Stands text) p

abbrev Lists (text : List Char) (p : Parser (List Concrete)) : Prop := Spans text (Chain text) p

section spans

variable {R : Nat → α → Nat → Prop} {p q : Parser α} {f : α → Parser β}
  {post : β → Cursor → Prop}

theorem Spans.bind (h : Spans text R p) (hcur : cur.In text)
    (hf : ∀ a next, next.In text → R cur.offset a next.offset → Yields (f a) next post) :
    Yields (p >>= f) cur post :=
  Yields.bind fun a next ha => hf a next (h cur hcur a next ha).1 (h cur hcur a next ha).2

theorem Spans.yields (h : Spans text R p) (hcur : cur.In text) :
    Yields p cur fun a next => next.In text ∧ R cur.offset a next.offset := h cur hcur

theorem Spans.orElse (h : Spans text R p) (h' : Spans text R q) : Spans text R (p <|> q) :=
  fun cur hcur => (h cur hcur).orElse (h' cur hcur)

theorem Spans.mono {R' : Nat → α → Nat → Prop} (h : Spans text R p)
    (himp : ∀ lo a hi, R lo a hi → R' lo a hi) : Spans text R' p :=
  fun cur hcur => (h cur hcur).mono fun _ _ ha => ⟨ha.1, himp _ _ _ ha.2⟩

-- Lists of nodes, read step by step. `S` is kept when lists are joined.
theorem spans_many {S : Nat → List Concrete → Nat → Prop}
    (happend : ∀ {lo mid hi ts us}, S lo ts mid → S mid us hi → S lo (ts ++ us) hi)
    {step : Parser (Option α)} (view : α → List Concrete)
    (h : Spans text (fun lo o hi => S lo (o.elim [] view) hi) step) :
    Spans text (fun lo as hi => S lo (as.flatMap view) hi) (many step) := by
  have hwithin (n : Nat) :
      Spans text (fun lo as hi => S lo (as.flatMap view) hi) (manyWithin step n) := by
    induction n with
    | zero => exact fun cur _ => Yields.failure
    | succ n ih =>
      intro cur hcur
      unfold manyWithin
      refine h.bind hcur fun o next hnext hone => ?_
      cases o with
      | none => exact Yields.pure ⟨hnext, hone⟩
      | some a =>
        refine ih.bind hnext fun as last hlast hrest => ?_
        exact Yields.pure ⟨hlast, happend hone hrest⟩
  intro cur hcur
  exact Yields.get (hwithin _ cur hcur)

theorem lists_many {step : Parser (Option Concrete)}
    (h : Spans text (fun lo o hi => Chain text lo o.toList hi) step) : Lists text (many step) := by
  have hview : Spans text (fun lo o hi => Chain text lo (o.elim [] ([·])) hi) step :=
    h.mono fun lo o hi hchain => by cases o <;> exact hchain
  refine (spans_many Chain.append _ hview).mono fun lo as hi hchain => ?_
  rwa [List.flatMap_singleton'] at hchain

theorem rows_many {step : Parser (Option Concrete)}
    (h : Spans text (fun lo o hi => Row text lo o.toList hi) step) :
    Spans text (Row text) (many step) := by
  have hview : Spans text (fun lo o hi => Row text lo (o.elim [] ([·])) hi) step :=
    h.mono fun lo o hi hrow => by cases o <;> exact hrow
  refine (spans_many Row.append _ hview).mono fun lo as hi hrow => ?_
  rwa [List.flatMap_singleton'] at hrow

theorem lists_many_flatten {step : Parser (Option (List Concrete))}
    (h : Spans text (fun lo o hi => Chain text lo (o.getD []) hi) step) :
    Spans text (fun lo as hi => Chain text lo as.flatten hi) (many step) := by
  have hview : Spans text (fun lo o hi => Chain text lo (o.elim [] id) hi) step :=
    h.mono fun lo o hi hchain => by cases o <;> exact hchain
  refine (spans_many Chain.append _ hview).mono fun lo as hi hchain => ?_
  rwa [List.flatMap_id] at hchain

theorem rows_many_flatten {step : Parser (Option (List Concrete))}
    (h : Spans text (fun lo o hi => Row text lo (o.getD []) hi) step) :
    Spans text (fun lo as hi => Row text lo as.flatten hi) (many step) := by
  have hview : Spans text (fun lo o hi => Row text lo (o.elim [] id) hi) step :=
    h.mono fun lo o hi hrow => by cases o <;> exact hrow
  refine (spans_many Row.append _ hview).mono fun lo as hi hrow => ?_
  rwa [List.flatMap_id] at hrow

-- A value that grows, all of it read from `lo` on.
theorem grow_yields {step : α → Parser (Option α)} {lo : Nat}
    (h : ∀ a cur, cur.In text → R lo a cur.offset → Yields (step a) cur fun o next =>
      next.In text ∧ R lo (o.getD a) next.offset)
    {a : α} (hcur : cur.In text) (ha : R lo a cur.offset) :
    Yields (grow step a) cur fun b next => next.In text ∧ R lo b next.offset := by
  have hwithin (n : Nat) (a : α) (cur : Cursor) (hcur : cur.In text) (ha : R lo a cur.offset) :
      Yields (growWithin step n a) cur fun b next => next.In text ∧ R lo b next.offset := by
    induction n generalizing a cur with
    | zero => exact Yields.failure
    | succ n ih =>
      unfold growWithin
      refine Yields.bind fun o next ho => ?_
      obtain ⟨hnext, hgrown⟩ := h a cur hcur ha o next ho
      cases o with
      | none => exact Yields.pure ⟨hnext, hgrown⟩
      | some b => exact ih b next hnext hgrown
  exact Yields.get (hwithin _ a cur hcur ha)

end spans

end Parser

end Flavoring.JavaScript
