import Flavoring.JavaScript.Module
import Flavoring.Proofs.JavaScript.Statements

/-!
Where statements end: the cursor stands right behind the last token of a statement, or behind the
comments that a semicolon was supplied after.
-/

namespace Flavoring.JavaScript.Parser

open Concrete

variable {α β : Type} {cur : Cursor} {read : Reader}

def EndsAt (t : Concrete) (next : Cursor) : Prop := t.label.extent.stop = next.offset

-- What the parser reads ends where it stops.
def Ends (p : Parser Concrete) : Prop := ∀ cur, Yields p cur EndsAt

-- The last of what the parser reads does.
def LastEnds (p : Parser (List Concrete)) : Prop :=
  ∀ cur, Yields p cur fun ts next => ∃ front last, ts = front ++ [last] ∧ EndsAt last next

-- The reader's statements and blocks do.
structure Closing (read : Reader) : Prop where
  statement (closed : Bool) : Ends (read (.statement closed))
  block (afterOperand : Bool) : Ends (read (.block afterOperand))

theorem Yields.skip {p : Parser α} {f : α → Parser β} {post : β → Cursor → Prop}
    (h : ∀ a next, Yields (f a) next post) : Yields (p >>= f) cur post :=
  Yields.bind fun a next _ => h a next

theorem Ends.bind {p : Parser Concrete} {f : Concrete → Parser β} {post : β → Cursor → Prop}
    (hp : Ends p) (h : ∀ t next, EndsAt t next → Yields (f t) next post) :
    Yields (p >>= f) cur post :=
  (hp cur).andThen h

theorem Ends.orElse {p q : Parser Concrete} (hp : Ends p) (hq : Ends q) : Ends (p <|> q) :=
  fun cur => (hp cur).orElse (hq cur)

theorem EndsAt.branch {first last : Concrete} {front : List Concrete} {next : Cursor}
    (h : EndsAt last next) (kind : String) :
    EndsAt (branch kind first (front ++ [last])) next := by
  unfold EndsAt Concrete.branch
  rwa [label, List.getLast?_concat, Option.getD_some]

/-! Tokens -/

theorem ends_leaf (kind : String) (standing : Standing) (n : Nat) : Ends (leaf kind standing n) := by
  intro cur t next ht
  cases ht
  rfl

theorem ends_mark (s : String) : Ends (mark s) := by
  intro cur
  unfold mark
  refine .modify (.get ?_)
  split
  · exact ends_leaf _ _ _ _
  · exact .failure

theorem ends_terminator (afterOperand : Bool) : Ends (terminator afterOperand) := by
  intro cur
  unfold terminator
  refine .get ?_
  split
  · exact .set (ends_leaf _ _ _ _)
  split
  · split
    · exact .set (ends_leaf _ _ _ _)
    · exact .failure
  · exact .failure

-- A supplied semicolon ends where the cursor stands, and without one the cursor stays.
theorem yields_supplied? (afterOperand : Bool) (cur : Cursor) :
    Yields (supplied? afterOperand) cur fun o next =>
      (∃ t, o = some t ∧ EndsAt t next) ∨ o = none ∧ next = cur := by
  unfold supplied?
  refine .get ?_
  split
  · refine .set ((ends_leaf _ _ _).bind fun t next ht => ?_)
    exact .pure (Or.inl ⟨t, rfl, ht⟩)
  · split
    · exact looks_noMarkupComment.bind fun _ => .pure (Or.inr ⟨rfl, rfl⟩)
    · exact .pure (Or.inr ⟨rfl, rfl⟩)

-- A branch whose last part may be a supplied semicolon.
theorem endsAt_supplied {kind : String} {first last : Concrete} {front : List Concrete}
    {tail : Option Concrete} {c next : Cursor} (hlast : EndsAt last c)
    (htail : (∃ t, tail = some t ∧ EndsAt t next) ∨ tail = none ∧ next = c) :
    EndsAt (branch kind first (front ++ last :: tail.toList)) next := by
  rcases htail with ⟨t, rfl, ht⟩ | ⟨rfl, rfl⟩
  · have hsplit : front ++ last :: (some t).toList = (front ++ [last]) ++ [t] := by simp
    rw [hsplit]
    exact ht.branch kind
  · exact hlast.branch kind

/-! Expressions and blocks -/

theorem ends_expressionStatement : Ends (expressionStatement read) := by
  intro cur
  unfold expressionStatement
  exact .skip fun e c₁ => (ends_terminator true).bind fun tail c₂ htail => .pure htail

theorem ends_block (afterOperand : Bool) : Ends (block read afterOperand) := by
  intro cur
  unfold block
  refine .skip fun opening c₁ => .skip fun body c₂ => ?_
  refine (ends_mark "\x7d").bind fun closing c₃ hclosing => ?_
  exact (yields_supplied? afterOperand c₃).andThen fun tail c₄ htail =>
    .pure (endsAt_supplied hclosing htail)

theorem ends_braced (closed : Bool) : Ends (braced read closed) := by
  intro cur
  have hexpression : Ends (expressionStatement read) := ends_expressionStatement
  have hblock : Ends (block read false) := ends_block false
  have hseveral : Ends (severalFirst (expressionStatement read)) := by
    intro cur
    unfold severalFirst
    refine hexpression.bind fun t c₁ ht => ?_
    split
    · exact .pure ht
    · exact .failure
  unfold braced
  refine .get (.skip fun braces c => ?_)
  split
  · refine (ends_block true).bind fun b c₁ hb => ?_
    extract_lets ended done
    have hdone (r : Unit) : Yields (done r) c₁ EndsAt := .pure hb
    refine (looks_continues closed).bind fun goesOn => ?_
    split
    · exact .set (hexpression _)
    split
    · exact looks_noMarkupComment.bind hdone
    · exact hdone ()
  · exact hexpression.orElse hblock _
  · exact hseveral.orElse hblock _
  · exact hexpression.orElse hblock _
  · exact hblock.orElse hexpression _
  · exact hblock _

/-! Declarations -/

theorem ends_variableDeclaration (w : String) : Ends (variableDeclaration read w) := by
  intro cur
  unfold variableDeclaration
  refine .skip fun kw c₁ => .skip fun first c₂ => .skip fun row c₃ => ?_
  dsimp only
  exact (ends_terminator row.2).bind fun tail c₄ htail => .pure (htail.branch _)

theorem eq_tail_concat {front more : List Concrete} {first last : Concrete}
    (h : front ++ [last] = first :: more) (hne : front ≠ []) : more = front.tail ++ [last] := by
  rw [← List.tail_append_of_ne_nil hne, h, List.tail_cons]

-- A function ends with its body.
theorem yields_functionParts (hread : Closing read) (afterOperand : Bool) (cur : Cursor) :
    Yields (functionParts read afterOperand) cur fun parts next =>
      ∃ front last, parts.more = front ++ [last] ∧ EndsAt last next := by
  unfold functionParts
  refine looks_peekWord.bind fun w => ?_
  extract_lets rest
  have hrest (before : List Concrete) (c : Cursor) : Yields (rest before) c fun parts next =>
      ∃ front last, parts.more = front ++ [last] ∧ EndsAt last next := by
    refine .skip fun kw c₁ => (looks_nextIs _).bind fun isStar => ?_
    extract_lets named
    have hnamed (star : List Concrete) (c : Cursor) : Yields (named star) c fun parts next =>
        ∃ front last, parts.more = front ++ [last] ∧ EndsAt last next := by
      refine (looks_nextIs _).bind fun isNameless => ?_
      extract_lets finish
      have hfinish (name : List Concrete) (c : Cursor) : Yields (finish name) c fun parts next =>
          ∃ front last, parts.more = front ++ [last] ∧ EndsAt last next := by
        refine .skip fun params c₂ => (hread.block afterOperand).bind fun body c₃ hbody => ?_
        split
        · next first more hparts =>
          have hsplit : before ++ kw :: star ++ name ++ [params, body.inRole .body] =
              (before ++ kw :: star ++ name ++ [params]) ++ [body.inRole .body] := by simp
          exact .pure ⟨_, body.inRole .body, eq_tail_concat (hsplit ▸ hparts) (by simp), hbody⟩
        · exact .failure
      split
      · exact .skip fun _ _ => hfinish _ _
      · exact .skip fun _ _ => .skip fun _ _ => hfinish _ _
    split
    · exact .skip fun _ _ => .skip fun _ _ => hnamed _ _
    · exact .skip fun _ _ => hnamed _ _
  split
  · exact .skip fun _ _ => .skip fun _ _ => hrest _ _
  · exact .skip fun _ _ => hrest _ _

theorem ends_classBody : Ends (classBody read) := by
  intro cur
  unfold classBody
  refine .skip fun opening c₁ => .skip fun members c₂ => ?_
  exact (ends_mark "\x7d").bind fun closing c₃ hclosing => .pure (hclosing.branch _)

theorem yields_classParts_last (marks : List Concrete) (cur : Cursor) :
    Yields (classParts read marks) cur fun parts next =>
      ∃ front last, parts.more = front ++ [last] ∧ EndsAt last next := by
  unfold classParts
  refine .skip fun kw c₁ => looks_peekWord.bind fun w => ?_
  extract_lets rest
  have hrest (name : List Concrete) (c : Cursor) : Yields (rest name) c fun parts next =>
      ∃ front last, parts.more = front ++ [last] ∧ EndsAt last next := by
    refine looks_peekWord.bind fun w => ?_
    extract_lets finish
    have hfinish (heritage : List Concrete) (c : Cursor) : Yields (finish heritage) c
        fun parts next => ∃ front last, parts.more = front ++ [last] ∧ EndsAt last next := by
      refine ends_classBody.bind fun body c₂ hbody => ?_
      split
      · next first more hparts =>
        exact .pure ⟨_, body.inRole .body, eq_tail_concat hparts (by simp), hbody⟩
      · exact .failure
    split
    · exact .skip fun _ _ => .skip fun _ _ => .skip fun _ _ => hfinish _ _
    · exact .skip fun _ _ => hfinish _ _
  split
  · exact .skip fun _ _ => hrest _ _
  · exact .skip fun _ _ => .skip fun _ _ => hrest _ _

-- A declaration ends with its last part or a supplied semicolon, if it is one.
theorem yields_declarationOr_ends (closed isNamed : Bool) {declaration : List Concrete → Concrete}
    {expression : Concrete} (cur : Cursor)
    (hdeclaration : ∀ (tail : Option Concrete) next,
      ((∃ t, tail = some t ∧ EndsAt t next) ∨ tail = none ∧ next = cur) →
        EndsAt (declaration tail.toList) next) :
    Yields (declarationOr read closed isNamed declaration expression) cur fun r next =>
      r.2 = true → EndsAt r.1 next := by
  unfold declarationOr
  split
  · refine (yields_supplied? true cur).andThen fun tail c₁ htail => ?_
    have hends := hdeclaration tail c₁ htail
    cases tail with
    | some tail => exact .pure fun _ => hends
    | none =>
      refine (looks_continues closed).bind fun goesOn => ?_
      split
      · exact .skip fun _ _ => .pure nofun
      · exact looks_noMarkupComment.bind fun _ => .pure fun _ => hends
  · exact .skip fun _ _ => .pure nofun

theorem yields_functionOrClass_ends (hread : Closing read) (closed : Bool) (marks : List Concrete)
    (cur : Cursor) :
    Yields (functionOrClass read closed marks) cur fun r next => r.2 = true → EndsAt r.1 next := by
  unfold functionOrClass
  refine looks_peekWord.bind fun w => ?_
  split
  · refine (yields_functionParts hread true cur).andThen fun parts c₁ ⟨front, last, hmore, hlast⟩ => ?_
    refine yields_declarationOr_ends closed _ c₁ fun tail next htail => ?_
    rw [FunctionParts.declaration, hmore, List.append_assoc, List.singleton_append]
    exact endsAt_supplied hlast htail
  · refine (yields_classParts_last marks cur).andThen fun parts c₁ ⟨front, last, hmore, hlast⟩ => ?_
    refine yields_declarationOr_ends closed _ c₁ fun tail next htail => ?_
    rw [ClassParts.declaration, hmore, List.append_assoc, List.singleton_append]
    exact endsAt_supplied hlast htail

theorem ends_withTerminator (hread : Closing read) (closed : Bool) (marks : List Concrete) :
    Ends (do statement.withTerminator (← functionOrClass read closed marks)) := by
  intro cur
  refine (yields_functionOrClass_ends hread closed marks cur).andThen fun r c₁ hr => ?_
  obtain ⟨t, isDeclaration⟩ := r
  cases isDeclaration with
  | true => exact .pure (hr rfl)
  | false => exact (ends_terminator true).bind fun tail c₂ htail => .pure htail

theorem ends_declaration (hread : Closing read) : Ends (declaration read) := by
  intro cur
  unfold declaration
  refine .skip fun marks c₁ => looks_peekWord.bind fun w => ?_
  have hvariable (w : String) : Yields
      (if marks.isEmpty then variableDeclaration read w else failure) c₁ EndsAt := by
    split
    · exact ends_variableDeclaration w c₁
    · exact .failure
  split
  · exact hvariable _
  · exact hvariable _
  · exact hvariable _
  · refine (yields_classParts_last marks c₁).andThen fun parts c₂ ⟨front, last, hmore, hlast⟩ => ?_
    split
    · refine (yields_supplied? false c₂).andThen fun tail c₃ htail => .pure ?_
      rw [ClassParts.declaration, hmore, List.append_assoc, List.singleton_append]
      exact endsAt_supplied hlast htail
    · exact .failure
  · split
    · refine (yields_functionParts hread false c₁).andThen
        fun parts c₂ ⟨front, last, hmore, hlast⟩ => ?_
      split
      · refine (yields_supplied? false c₂).andThen fun tail c₃ htail => .pure ?_
        rw [FunctionParts.declaration, hmore, List.append_assoc, List.singleton_append]
        exact endsAt_supplied hlast htail
      · exact .failure
    · exact .failure

/-! Exchange between modules -/

theorem ends_importStatement : Ends (importStatement read) := by
  intro cur
  unfold importStatement
  refine .skip fun kw c₁ => looks_peek.bind fun cs => ?_
  extract_lets rest
  have hrest (parts : List Concrete) (c : Cursor) : Yields (rest parts) c EndsAt := by
    refine .get ?_
    extract_lets finish
    have hfinish (attributes : List Concrete) (c : Cursor) : Yields (finish attributes) c EndsAt :=
      (ends_terminator false).bind fun tail c₂ htail => .pure (htail.branch _)
    split
    · split
      · exact .set (.skip fun _ _ => .skip fun _ _ => .skip fun _ _ => hfinish _ _)
      · exact .skip fun _ _ => hfinish _ _
    · exact .skip fun _ _ => hfinish _ _
  split
  · exact .skip fun _ _ => .skip fun _ _ => hrest _ _
  · exact .skip fun _ _ => .skip fun _ _ => .skip fun _ _ => hrest _ _

theorem lastEnds_exported (hread : Closing read) (isDecorated : Bool) :
    LastEnds (exported read isDecorated) := by
  intro cur
  unfold exported
  refine looks_peek.bind fun cs => ?_
  split
  · refine .skip fun star c₁ => looks_peekWord.bind fun w => ?_
    extract_lets rest
    have hrest (first : Concrete) (c : Cursor) : Yields (rest first) c fun ts next =>
        ∃ front last, ts = front ++ [last] ∧ EndsAt last next := by
      refine .skip fun source c₂ => (ends_terminator false).bind fun tail c₃ htail => ?_
      exact .pure ⟨first :: source, tail, rfl, htail⟩
    split
    · exact .skip fun _ _ => .skip fun _ _ => .skip fun _ _ => hrest _ _
    · exact .skip fun _ _ => hrest _ _
  split
  · refine .skip fun opening c₁ => .skip fun names c₂ => .get ?_
    extract_lets finish
    have hfinish (source : List Concrete) (c : Cursor) : Yields (finish source) c fun ts next =>
        ∃ front last, ts = front ++ [last] ∧ EndsAt last next := by
      refine (ends_terminator false).bind fun tail c₃ htail => ?_
      exact .pure ⟨_ :: source, tail, rfl, htail⟩
    split
    · split
      · exact .set (.skip fun _ _ => hfinish _ _)
      · exact .skip fun _ _ => hfinish _ _
    · exact .skip fun _ _ => hfinish _ _
  split
  · refine .skip fun kw c₁ => looks_peekWord.bind fun w => ?_
    refine (looks_nextIs _).bind fun isMark => (looks_startsFunction true).bind fun isFunction => ?_
    split
    · refine .skip fun marks c₂ => ?_
      refine (yields_functionOrClass_ends hread false marks c₂).andThen fun r c₃ hr => ?_
      obtain ⟨t, isDeclaration⟩ := r
      dsimp only
      split
      · next hdeclares => exact .pure ⟨[kw], t.inRole .declaration, rfl, hr hdeclares⟩
      · refine (ends_terminator true).bind fun tail c₄ htail => ?_
        exact .pure ⟨[kw, t.inRole .value], tail, rfl, htail⟩
    refine (looks_declaresLet true).bind fun isLet => ?_
    split
    · refine (ends_declaration hread).bind fun t c₂ ht => ?_
      exact .pure ⟨[kw], t.inRole .declaration, rfl, ht⟩
    · refine .skip fun value c₂ => ?_
      split
      · exact .failure
      · refine (ends_terminator true).bind fun tail c₃ htail => ?_
        exact .pure ⟨[kw, value.inRole .value], tail, rfl, htail⟩
  · refine (ends_declaration hread).bind fun t c₁ ht => ?_
    exact .pure ⟨[], t.inRole .declaration, rfl, ht⟩

theorem ends_exportStatement (hread : Closing read) (marks : List Concrete) :
    Ends (exportStatement read marks) := by
  intro cur
  unfold exportStatement
  refine .skip fun kw c₁ => (lastEnds_exported hread _ c₁).andThen
    fun parts c₂ ⟨front, last, hparts, hlast⟩ => ?_
  have hsplit : marks ++ kw :: parts = (marks ++ kw :: front) ++ [last] := by simp [hparts]
  rw [hsplit]
  cases hfirst : marks ++ kw :: front with
  | nil => simp at hfirst
  | cons first more => exact .pure (hlast.branch _)

/-! Control -/

theorem ends_body (hread : Closing read) (closed : Bool) : Ends (body read closed) := by
  intro cur
  unfold body
  exact (hread.statement closed).bind fun t c₁ ht => .pure ht

theorem ends_ifStatement (hread : Closing read) (closed : Bool) :
    Ends (ifStatement read closed) := by
  intro cur
  unfold ifStatement
  refine .skip fun kw c₁ => .skip fun test c₂ => ?_
  refine (hread.statement closed).bind fun first c₃ hfirst => looks_peekWord.bind fun w => ?_
  split
  · exact .skip fun other c₄ => (hread.statement closed).bind fun t c₅ ht => .pure ht
  · exact .pure hfirst

theorem ends_switchStatement : Ends (switchStatement read) := by
  intro cur
  unfold switchStatement
  refine .skip fun kw c₁ => .skip fun value c₂ => .skip fun opening c₃ => .skip fun cases c₄ => ?_
  exact (ends_mark "\x7d").bind fun closing c₅ hclosing => .pure (hclosing.branch "switch_body")

theorem ends_forInStatement (hread : Closing read) (closed : Bool) (kw : Concrete) :
    Ends (forInStatement read closed kw) := by
  intro cur
  unfold forInStatement
  refine looks_peekWord.bind fun w => ?_
  extract_lets rest
  have hrest (await : List Concrete) (c : Cursor) : Yields (rest await) c EndsAt := by
    refine .skip fun opening c₁ => .skip fun head c₂ => .skip fun right c₃ => .skip
      fun closing c₄ => ?_
    refine (ends_body hread closed).bind fun t c₅ ht => .pure ?_
    have hsplit (front : List Concrete) (r : Concrete) :
        front ++ [r, closing, t] = (front ++ [r, closing]) ++ [t] := by simp
    rw [hsplit]
    exact ht.branch _
  split
  · exact .skip fun _ _ => .skip fun _ _ => hrest _ _
  · exact .skip fun _ _ => hrest _ _

theorem ends_forStatement (hread : Closing read) (closed : Bool) (kw : Concrete) :
    Ends (forStatement read closed kw) := by
  intro cur
  unfold forStatement
  refine .skip fun opening c₁ => looks_peekWord.bind fun w => ?_
  extract_lets rest
  have hrest (start : List Concrete) (c : Cursor) : Yields (rest start) c EndsAt := by
    refine .skip fun test c₂ => (looks_nextIs _).bind fun isEnd => ?_
    extract_lets finish
    have hfinish (step : List Concrete) (c : Cursor) : Yields (finish step) c EndsAt := by
      refine .skip fun closing c₃ => (ends_body hread closed).bind fun t c₄ ht => .pure ?_
      have hsplit (front : List Concrete) : front ++ [closing, t] = (front ++ [closing]) ++ [t] := by
        simp
      rw [hsplit]
      exact ht.branch _
    split
    · exact .skip fun _ _ => hfinish _ _
    · exact .skip fun _ _ => .skip fun _ _ => hfinish _ _
  refine .skip fun isLet c₂ => ?_
  split
  · exact .skip fun _ _ => .skip fun _ _ => hrest _ _
  · exact .skip fun _ _ => hrest _ _

theorem ends_condition : Ends (condition read) := by
  intro cur
  unfold condition
  refine .skip fun opening c₁ => .skip fun e c₂ => ?_
  exact (ends_mark ")").bind fun closing c₃ hclosing => .pure hclosing

theorem ends_doStatement : Ends (doStatement read) := by
  intro cur
  unfold doStatement
  refine .skip fun kw c₁ => .skip fun inside c₂ => .skip fun again c₃ => ?_
  refine ends_condition.bind fun test c₄ htest => .get ?_
  have htail : Yields ((do pure [← terminator false]) <|> (do set c₄; pure [])) c₄
      fun tail next => (∃ t, tail = [t] ∧ EndsAt t next) ∨ tail = [] ∧ next = c₄ := by
    refine .orElse ?_ (.set (.pure (Or.inr ⟨rfl, rfl⟩)))
    exact (ends_terminator false).bind fun t c₅ ht => .pure (Or.inl ⟨t, rfl, ht⟩)
  refine htail.andThen fun tail c₅ hends => .pure ?_
  rcases hends with ⟨t, rfl, ht⟩ | ⟨rfl, rfl⟩
  · exact ht
  · exact htest

theorem ends_tryStatement (hread : Closing read) : Ends (tryStatement read) := by
  intro cur
  unfold tryStatement
  refine .skip fun kw c₁ => (hread.block false).bind fun inside c₂ hinside => ?_
  refine looks_peekWord.bind fun w => ?_
  extract_lets rest
  -- the last of the clauses so far
  have hrest (handler : List Concrete) (c : Cursor)
      (hlast : EndsAt ((inside.inRole .body :: handler).getLast (by simp)) c) :
      Yields (rest handler) c EndsAt := by
    refine looks_peekWord.bind fun w => ?_
    split
    · refine .skip fun kw c₃ => (hread.block false).bind fun block c₄ hblock => .pure ?_
      have hclause : EndsAt ((branch "finally_clause" kw [block.inRole .body]).inRole .finalizer) c₄ :=
        hblock
      exact hclause.branch "try_statement"
    · refine .pure ?_
      have hsplit := List.dropLast_concat_getLast
        (by simp : inside.inRole .body :: handler ≠ [])
      show EndsAt (branch "try_statement" kw (inside.inRole .body :: handler ++ [])) c
      rw [List.append_nil, ← hsplit]
      exact hlast.branch _
  split
  · refine .skip fun kw c₃ => (looks_nextIs _).bind fun isOpen => ?_
    extract_lets caught
    have hcaught (param : List Concrete) (c : Cursor) : Yields (caught param) c EndsAt := by
      refine (hread.block false).bind fun block c₄ hblock => ?_
      have hbody : EndsAt (block.inRole .body) c₄ := hblock
      rw [pure_bind]
      exact hrest [_] c₄ (hbody.branch "catch_clause")
    split
    · exact .skip fun _ _ => .skip fun _ _ => .skip fun _ _ => .skip fun _ _ => hcaught _ _
    · exact .skip fun _ _ => hcaught _ _
  · rw [pure_bind]
    exact hrest [] c₂ hinside

theorem ends_jump (w kind : String) : Ends (jump w kind) := by
  intro cur
  unfold jump
  have hbare (kw : Concrete) (c : Cursor) :
      Yields (do return branch kind kw [← terminator false]) c EndsAt :=
    (ends_terminator false).bind fun tail c₁ htail => .pure htail
  refine .skip fun kw c₁ => .get ?_
  split
  · split
    · exact .skip fun label c₂ => (ends_terminator false).bind fun tail c₃ htail => .pure htail
    · exact hbare kw c₁
  · exact hbare kw c₁

theorem ends_returnStatement : Ends (returnStatement read) := by
  intro cur
  unfold returnStatement
  have hbare (kw : Concrete) (c : Cursor) :
      Yields (do return branch "return_statement" kw [← terminator false]) c EndsAt :=
    (ends_terminator false).bind fun tail c₁ htail => .pure htail
  refine .skip fun kw c₁ => .get ?_
  split
  · split
    · exact hbare kw c₁
    · refine .skip fun _ c₂ => .skip fun e c₃ => ?_
      exact (ends_terminator true).bind fun tail c₄ htail => .pure htail
  · exact hbare kw c₁

theorem ends_throwStatement : Ends (throwStatement read) := by
  intro cur
  unfold throwStatement
  refine .skip fun kw c₁ => .skip fun e c₂ => ?_
  exact (ends_terminator true).bind fun tail c₃ htail => .pure htail

theorem ends_conditional (hread : Closing read) (closed : Bool) (w kind : String) (role : Role) :
    Ends (conditional read closed w kind role) := by
  intro cur
  unfold conditional
  refine .skip fun kw c₁ => .skip fun test c₂ => ?_
  exact (ends_body hread closed).bind fun t c₃ ht => .pure ht

theorem ends_labelOrExpression (hread : Closing read) (closed : Bool) :
    Ends (labelOrExpression read closed) := by
  intro cur
  unfold labelOrExpression
  refine looks_peekWord.bind fun w => .skip fun isLabel c₁ => ?_
  split
  · refine .skip fun label c₂ => .skip fun colon c₃ => ?_
    exact (ends_body hread closed).bind fun t c₄ ht => .pure ht
  · exact ends_expressionStatement c₁

theorem ends_statement (hread : Closing read) (closed : Bool) : Ends (statement read closed) := by
  intro cur
  have hlabel : Ends (labelOrExpression read closed) := ends_labelOrExpression hread closed
  have hdeclares := ends_withTerminator hread closed []
  unfold statement
  refine looks_peekChar.bind fun c => ?_
  split
  · exact ends_braced closed cur
  · exact (ends_mark ";").bind fun sign c₁ hsign => .pure hsign
  · refine .skip fun marks c₁ => looks_peekWord.bind fun w => ?_
    split
    · exact ends_exportStatement hread marks c₁
    · exact ends_withTerminator hread closed marks c₁
  refine looks_peekWord.bind fun w => ?_
  split
  · refine .get ?_
    dsimp only
    split
    · exact ends_expressionStatement cur
    · exact ends_importStatement cur
  · refine .skip fun isExport c₁ => ?_
    split
    · exact ends_exportStatement hread [] c₁
    · exact hlabel c₁
  · exact ends_variableDeclaration _ cur
  · exact ends_variableDeclaration _ cur
  · refine .skip fun isLet c₁ => ?_
    split
    · exact ends_variableDeclaration _ c₁
    · exact hlabel c₁
  · exact .skip fun kw c₁ => (ends_terminator false).bind fun tail c₂ htail => .pure htail
  · exact ends_ifStatement hread closed cur
  · exact ends_switchStatement cur
  · refine .skip fun kw c₁ => ?_
    exact (ends_forInStatement hread closed kw).orElse (ends_forStatement hread closed kw) c₁
  · exact ends_conditional hread closed _ _ _ cur
  · exact ends_doStatement cur
  · exact ends_tryStatement hread cur
  · exact ends_conditional hread closed _ _ _ cur
  · exact ends_jump _ _ cur
  · exact ends_jump _ _ cur
  · exact ends_returnStatement cur
  · exact ends_throwStatement cur
  · exact hdeclares cur
  · refine .skip fun isFunction c₁ => ?_
    split
    · exact hdeclares c₁
    · exact hlabel c₁

-- However deep the rules are nested, statements end where the cursor stands.
theorem closing_nested (n : Nat) : Closing (nested n) := by
  induction n with
  | zero => exact ⟨fun _ _ => .failure, fun _ _ => .failure⟩
  | succ n ih => exact ⟨ends_statement ih, ends_block⟩

end Flavoring.JavaScript.Parser
