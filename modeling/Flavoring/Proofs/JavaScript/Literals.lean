import Flavoring.JavaScript.Parser.Literal
import Flavoring.Proofs.JavaScript.Tokens

/-!
The layout of what brackets hold: literals, arguments, parameters, members and decorators.
-/

namespace Flavoring.JavaScript.Parser

open Concrete

variable {text : List Char} {cur : Cursor} {lo mid : Nat} {read : Reader}

-- Every goal is served by a construct that stands where it was asked for.
abbrev Serves (text : List Char) (read : Reader) : Prop := ∀ goal, Reads text (read goal)

-- What a parser yields that goes on from something read from `lo` on.
abbrev YieldsFrom (text : List Char) (lo : Nat) (p : Parser Concrete) (cur : Cursor) : Prop :=
  Yields p cur fun t next => next.In text ∧ Stands text lo t next.offset

/-! Expressions within brackets -/

theorem yields_settled {p : Parser Concrete} {post : Concrete → Cursor → Prop}
    (hp : Yields p cur post) : Yields (settled p) cur post := by
  unfold settled
  refine hp.andThen fun t next ht => ?_
  split
  · exact Yields.pure ht
  · exact Yields.failure

theorem reads_settled {p : Parser Concrete} (hp : Reads text p) : Reads text (settled p) :=
  fun cur hcur => yields_settled (hp cur hcur)

theorem reads_inner (hread : Serves text read) : Reads text (inner read) :=
  reads_settled (hread _)

theorem yields_sequenceFrom (hread : Serves text read) (s : Setting) {first : Concrete}
    (hcur : cur.In text) (hfirst : Stands text lo first cur.offset) :
    YieldsFrom text lo (sequenceFrom read s first) cur := by
  unfold sequenceFrom
  refine (lists_many_flatten ?_).bind hcur fun more next hnext hmore => Yields.pure ⟨hnext, ?_⟩
  · intro cur hcur
    refine Yields.get ?_
    split
    · next start question hahead =>
      have hpast := (hcur.ahead hahead).1
      split
      · refine Yields.set ((spans_leaf "," 1 (by decide)).bind hpast.toIn
          fun comma c₁ h₁ hcomma => ?_)
        refine (reads_settled (hread _)).bind h₁ fun e c₂ h₂ he => ?_
        exact Yields.pure ⟨h₂, (hcomma.append he.chain).lower hpast.le⟩
      · exact Yields.pure ⟨hcur, .nil (Nat.le_refl _)⟩
    · exact Yields.pure ⟨hcur, .nil (Nat.le_refl _)⟩
  · split
    · exact hfirst.mono hmore.le
    · exact hfirst.branch (by decide) hmore

theorem reads_innerExpressions (hread : Serves text read) : Reads text (innerExpressions read) := by
  intro cur hcur
  unfold innerExpressions
  exact (reads_inner hread).bind hcur fun e next hnext he => yields_sequenceFrom hread {} hnext he

theorem reads_condition (hread : Serves text read) : Reads text (condition read) := by
  intro cur hcur
  unfold condition
  refine (reads_mark "(" rfl).bind hcur fun opening c₁ h₁ hopening => ?_
  refine (reads_innerExpressions hread).bind h₁ fun e c₂ h₂ he => ?_
  refine (reads_mark ")" rfl).bind h₂ fun closing c₃ h₃ hclosing => ?_
  exact Yields.pure ⟨h₃, hopening.branch (by decide) (he.chain.append hclosing.chain)⟩

theorem looks_arrowAhead (s : Setting) : Looks (arrowAhead s) := by
  intro cur
  unfold arrowAhead
  refine Yields.get ?_
  split <;> exact Yields.pure rfl

theorem reads_spreadOrElement (hread : Serves text read) : Reads text (spreadOrElement read) := by
  intro cur hcur
  unfold spreadOrElement
  refine looks_peek.bind fun cs => ?_
  split
  · refine (reads_mark "..." rfl).bind hcur fun dots c₁ h₁ hdots => ?_
    refine (hread _).bind h₁ fun e c₂ h₂ he => ?_
    exact Yields.pure ⟨h₂, hdots.branch (by decide) he.chain⟩
  · exact (hread _).yields hcur

/-! Parameters and arguments -/

theorem yields_parameterList {opening : Concrete} {items : List Concrete} {hi : Nat}
    (hcur : cur.In text) (hhi : cur.offset = hi) (hopening : Stands text lo opening mid)
    (hitems : Chain text mid items hi) : YieldsFrom text lo (parameterList opening items) cur := by
  subst hhi
  unfold parameterList
  split
  · next items' hpatterns =>
    exact Yields.pure ⟨hcur, hopening.branch (by decide) (chain_patterns? items hpatterns hitems)⟩
  · exact Yields.failure

theorem reads_parameters (hread : Serves text read) : Reads text (parameters read) := by
  intro cur hcur
  unfold parameters
  refine (reads_mark "(" rfl).bind hcur fun opening c₁ h₁ hopening => ?_
  refine (closed_listOf ")" rfl (reads_spreadOrElement hread)).bind h₁ fun items c₂ h₂ hitems => ?_
  refine (yields_parameterList h₂ rfl hopening hitems.chain).andThen fun t c₃ ht => ?_
  exact Yields.pure ⟨ht.1, ht.2.inRole⟩

-- Arguments end in their closing bracket. They may still be taken apart.
theorem spans_openArguments (hread : Serves text read) :
    Spans text (fun lo t hi =>
      Stands text lo t hi ∧ t.kind ∈ tightKinds ∧ Row text lo t.children hi) (openArguments read) := by
  intro cur hcur
  unfold openArguments
  refine (reads_mark "(" rfl).bind hcur fun opening c₁ h₁ hopening => ?_
  refine (closed_listWithHoles ")" rfl (reads_spreadOrElement hread)).bind h₁
    fun items c₂ h₂ hitems => ?_
  exact Yields.pure ⟨h₂, hitems.branch hopening, (by decide : "arguments" ∈ tightKinds),
    hopening.row hitems.chain⟩

theorem spans_arguments (hread : Serves text read) :
    Spans text (fun lo t hi => Stands text lo t hi ∧ t.kind ∈ tightKinds) (arguments read) := by
  intro cur hcur
  unfold arguments
  refine (spans_openArguments hread).bind hcur fun args next hnext hargs => ?_
  split
  · exact Yields.pure ⟨hnext, hargs.1, hargs.2.1⟩
  · exact Yields.failure

-- A call may be of its kind since it ends in its arguments or its template.
theorem stands_call {hi : Nat} {left args : Concrete} (front : List Concrete)
    (hleft : Stands text lo left mid) (hargs : Chain text mid (front ++ [args]) hi)
    (hkind : args.kind ∈ tightKinds) :
    Stands text lo (branch "call_expression" (left.inRole .function)
      (front ++ [args.inRole .arguments])) hi := by
  obtain ⟨_, hfront, hlast⟩ := hargs.split
  exact hleft.inRole.branchTight (hfront.append hlast.inRole) hkind

/-! Templates, regular expressions and arrays -/

theorem spans_template (hread : Serves text read) :
    Spans text (fun lo t hi => Stands text lo t hi ∧ t.kind ∈ tightKinds) (template read) := by
  intro cur hcur
  unfold template
  refine (reads_mark "`" rfl).bind hcur fun opening c₁ h₁ hopening => ?_
  refine (lists_many ?_).bind h₁ fun parts c₂ h₂ hparts => ?_
  · intro cur hcur
    refine Yields.get ?_
    split
    · exact Yields.pure ⟨hcur, .nil (Nat.le_refl _)⟩
    · refine (spans_adjacent "escape_sequence" Token.escape rfl (by decide)).bind hcur
        fun t next hnext ht => ?_
      exact Yields.pure ⟨hnext, ht⟩
    · refine (spans_adjacentMark "$\x7b" rfl).bind hcur fun dollar c₁ h₁ hdollar => ?_
      refine (reads_innerExpressions hread).bind h₁ fun e c₂ h₂ he => ?_
      refine (reads_mark "\x7d" rfl).bind h₂ fun closing c₃ h₃ hclosing => ?_
      exact Yields.pure ⟨h₃, (hdollar.1.branch (by decide) (he.chain.append hclosing.chain)).chain⟩
    · refine (spans_adjacent "string_fragment" Token.templateText rfl (by decide)).bind hcur
        fun t next hnext ht => ?_
      exact Yields.pure ⟨hnext, ht⟩
  · refine (spans_adjacentMark "`" rfl).bind h₂ fun closing c₃ h₃ hclosing => ?_
    refine Yields.pure ⟨h₃, (hopening.row (hparts.append hclosing.1.chain)).branchOf fun _ => ?_,
      (by decide : "template_string" ∈ tightKinds)⟩
    rw [List.getLast?_concat, Option.getD_some]
    exact hclosing.2

theorem Cursor.In.flagsWithin {semicolon : Bool} {n : Nat} {start : Cursor} (h : cur.In text)
    (hflags : flagsWithin semicolon n cur = some start) : Cursor.Past text cur start := by
  induction n generalizing cur with
  | zero => cases hflags
  | succ n ih =>
    unfold Parser.flagsWithin at hflags
    split at hflags
    · cases hflags
      exact h.refl
    · split at hflags
      · cases hflags
      · have hnext := h.skipSeparators
        dsimp only at hflags
        split at hflags
        · cases hflags
        · have hbehind := hnext.forward (Token.comment cur.skipSeparators.rest)
          exact hnext.trans (hbehind.trans (ih hbehind.toIn hflags))

theorem reads_regex (s : Setting) : Reads text (regex s) := by
  intro cur hcur
  unfold regex
  refine (reads_mark "/" rfl).bind hcur fun opening c₁ h₁ hopening => ?_
  refine (spans_adjacent "regex_pattern" Token.regexPattern rfl (by decide)).bind h₁
    fun body c₂ h₂ hbody => ?_
  refine (spans_adjacentMark "/" rfl).bind h₂ fun closing c₃ h₃ hclosing => ?_
  have hparts : Chain text c₁.offset [body.inRole .pattern, closing] c₃.offset :=
    hbody.inRole.append hclosing.1.chain
  refine Yields.get ?_
  split
  · exact Yields.pure ⟨h₃, hopening.branch (by decide) hparts⟩
  · next start hflags =>
    have hpast := Cursor.In.flagsWithin h₃ hflags
    refine Yields.set ?_
    refine (spans_adjacent "regex_flags" (Token.run isFlag) rfl (by decide)).bind hpast.toIn
      fun flags c₄ h₄ hflags => ?_
    exact Yields.pure ⟨h₄, hopening.branch (by decide)
      (hparts.append (hflags.inRole.lower hpast.le))⟩

theorem spans_array (hread : Serves text read) :
    Spans text (fun lo t hi => Stands text lo t hi ∧ Row text lo t.children hi) (array read) := by
  intro cur hcur
  unfold array
  refine (reads_mark "[" rfl).bind hcur fun opening c₁ h₁ hopening => ?_
  refine (closed_listWithHoles "]" rfl (reads_spreadOrElement hread)).bind h₁
    fun items c₂ h₂ hitems => ?_
  exact Yields.pure ⟨h₂, hitems.branch hopening, hopening.row hitems.chain⟩

theorem reads_array (hread : Serves text read) : Reads text (array read) :=
  (spans_array hread).mono fun _ _ _ h => h.1

/-! Members -/

theorem reads_propertyName (hread : Serves text read) : Reads text (propertyName read) := by
  intro cur hcur
  unfold propertyName
  refine looks_peek.bind fun cs => ?_
  split
  · exact (reads_string Token.endsQuoted_string).yields hcur
  split
  · exact (reads_token "number" Token.number rfl (by decide)).yields hcur
  split
  · exact (reads_token "private_property_identifier" Token.privateName rfl (by decide)).yields hcur
  split
  · refine (reads_mark "[" rfl).bind hcur fun opening c₁ h₁ hopening => ?_
    refine (reads_inner hread).bind h₁ fun e c₂ h₂ he => ?_
    refine (reads_mark "]" rfl).bind h₂ fun closing c₃ h₃ hclosing => ?_
    exact Yields.pure ⟨h₃, hopening.branch (by decide) (he.chain.append hclosing.chain)⟩
  · exact (reads_word "property_identifier" (by decide)).yields hcur

-- Words that are read as modifiers.
theorem rows_modifier? (semicolon : Bool) (words : List String)
    (hwords : ∀ w ∈ words, w ≠ "" ∧ w ∉ tightKinds) :
    Spans text (fun lo o hi => Row text lo o.toList hi) (modifier? semicolon words) := by
  intro cur hcur
  unfold modifier?
  refine Yields.get (looks_peekWord.bind fun w => ?_)
  extract_lets jp
  have hjp (r : Unit) (c : Cursor) : Yields (jp r) c fun o next =>
      next.In text ∧ Row text cur.offset o.toList next.offset :=
    Yields.set (Yields.pure ⟨hcur, .nil (Nat.le_refl _)⟩)
  split
  · next hmem =>
    rw [List.contains_eq_mem, decide_eq_true_iff] at hmem
    refine (reads_keyword w (hwords w hmem)).bind hcur fun kw c₁ h₁ hkw => Yields.get ?_
    split
    · split
      · exact Yields.pure ⟨h₁, hkw⟩
      · exact hjp () c₁
    · exact hjp () c₁
  · exact hjp () cur

theorem rows_accessModifiers (semicolon : Bool) :
    Spans text (Row text) (accessModifiers semicolon) := by
  intro cur hcur
  unfold accessModifiers
  refine (rows_modifier? semicolon ["async"] (by decide)).bind hcur fun isAsync c₁ h₁ hasync => ?_
  refine (looks_nextIs _).bind fun isStar => ?_
  extract_lets jp
  have hjp (star : Option Concrete) (c : Cursor) (hc : c.In text)
      (hstar : Row text c₁.offset star.toList c.offset) :
      Yields (jp star) c fun ts next => next.In text ∧ Row text cur.offset ts next.offset :=
    Yields.pure ⟨hc, hasync.append hstar⟩
  split
  · refine Yields.bind (Yields.map (((reads_mark "*" rfl).yields h₁).mono fun star c₂ hstar => ?_))
    exact hjp (some star) c₂ hstar.1 hstar.2
  · exact (rows_modifier? semicolon ["get", "set"] (by decide)).bind h₁ hjp

theorem rows_staticModifier (semicolon : Bool) :
    Spans text (Row text) (staticModifier semicolon) := by
  intro cur hcur
  unfold staticModifier
  refine Yields.peek ?_
  split
  · refine (rows_modifier? semicolon ["static"] (by decide)).bind hcur
      fun static c₁ h₁ hstatic => ?_
    exact Yields.pure ⟨h₁, hstatic⟩
  · next n hn =>
    have hpast := hcur.skipTrivia
    have hrest : cur.skipTrivia.rest ≠ [] := fun hnil => hn (hnil ▸ by decide)
    refine Yields.modify (Yields.bind ?_)
    refine (yields_leaf_stands hpast.toIn hcur.atToken_skipTrivia hrest hn
      fun hmem => absurd hmem (by decide)).mono fun t c₁ h => ?_
    exact Yields.pure ⟨h.2.1, h.2.2.1.lower hpast.le⟩

theorem yields_memberNode {kind : String} {parts : List Concrete} {hi : Nat}
    (hkind : kind ∉ tightKinds) (hcur : cur.In text) (hhi : cur.offset = hi)
    (hparts : Row text lo parts hi) : YieldsFrom text lo (memberNode kind parts) cur := by
  subst hhi
  unfold memberNode
  split
  · exact Yields.pure ⟨hcur, hparts.branch hkind⟩
  · exact Yields.failure

theorem yields_methodFrom (hread : Serves text read) {before : List Concrete} {name : Concrete}
    {hi : Nat} (hcur : cur.In text) (hhi : cur.offset = hi) (hbefore : Row text lo before mid)
    (hname : Stands text mid name hi) : YieldsFrom text lo (methodFrom read before name) cur := by
  subst hhi
  unfold methodFrom
  refine (reads_parameters hread).bind hcur fun params c₁ h₁ hparams => ?_
  refine (hread _).bind h₁ fun body c₂ h₂ hbody => ?_
  exact yields_memberNode (by decide) h₂ rfl
    (hbefore.append (hname.inRole.row (hparams.chain.append hbody.inRole.chain)))

-- The path of a decorator or an element grows by one name at a time.
theorem yields_path {name : Concrete} (hcur : cur.In text)
    (hname : Stands text lo name cur.offset) :
    YieldsFrom text lo (grow (fun object => do
      if ← nextIs (· == '.') then do
        let dot ← mark "."
        let property ← word "property_identifier"
        return some (branch "member_expression" (object.inRole .object)
          [dot, property.inRole .property])
      else return none) name) cur := by
  refine grow_yields (fun object cur hcur hobject => ?_) hcur hname
  refine (looks_nextIs _).bind fun isDot => ?_
  split
  · refine (reads_mark "." rfl).bind hcur fun dot c₁ h₁ hdot => ?_
    refine (reads_word "property_identifier" (by decide)).bind h₁ fun property c₂ h₂ hproperty => ?_
    exact Yields.pure ⟨h₂, hobject.inRole.branch (by decide)
      (hdot.chain.append hproperty.inRole.chain)⟩
  · exact Yields.pure ⟨hcur, hobject⟩

theorem reads_decorator (hread : Serves text read) : Reads text (decorator read) := by
  intro cur hcur
  unfold decorator
  refine (reads_mark "@" rfl).bind hcur fun sign c₁ h₁ hsign => ?_
  refine (reads_word "identifier" (by decide)).bind h₁ fun name c₂ h₂ hname => ?_
  refine (yields_path h₂ hname).andThen fun path c₃ hpath => ?_
  refine (looks_nextIs _).bind fun isCall => ?_
  extract_lets jp
  have hjp (whole : Concrete) (c : Cursor) (hc : c.In text)
      (hwhole : Stands text c₁.offset whole c.offset) : YieldsFrom text cur.offset (jp whole) c :=
    Yields.pure ⟨hc, (hsign.branch (by decide) hwhole.chain).inRole⟩
  split
  · refine (spans_arguments hread).bind hpath.1 fun args c₄ h₄ hargs => ?_
    refine Yields.bind (Yields.pure (hjp _ c₄ h₄ ?_))
    exact stands_call [] hpath.2 hargs.1.chain hargs.2
  · exact Yields.bind (Yields.pure (hjp path c₃ hpath.1 hpath.2))

theorem rows_decorators (hread : Serves text read) : Spans text (Row text) (decorators read) := by
  unfold decorators
  refine rows_many fun cur hcur => ?_
  refine (looks_nextIs _).bind fun isMark => ?_
  split
  · exact Yields.map (((reads_decorator hread).yields hcur).mono fun t next ht => ht)
  · exact Yields.pure ⟨hcur, .nil (Nat.le_refl _)⟩

/-! Objects -/

theorem reads_bracketMember (hread : Serves text read) : Reads text (bracketMember read) := by
  intro cur hcur
  unfold bracketMember
  refine (spans_array hread).bind hcur fun list c₁ h₁ hlist => ?_
  refine looks_peekChar.bind fun c => ?_
  split
  · refine (reads_mark "=" rfl).bind h₁ fun eq c₂ h₂ heq => ?_
    split
    · next left hleft =>
      refine (reads_inner hread).bind h₂ fun right c₃ h₃ hright => ?_
      exact Yields.pure ⟨h₃, (hlist.1.pattern hleft).inRole.branch (by decide)
        (heq.chain.append hright.inRole.chain)⟩
    · exact Yields.failure
  · next c opening e closing _ hchildren =>
    have hname : Stands text cur.offset
        (branch "computed_property_name" opening [e, closing]) c₁.offset := by
      have hrow := hlist.2
      rw [hchildren] at hrow
      exact hrow.branch (by decide)
    split
    · dsimp only
      split
      · refine (reads_mark ":" rfl).bind h₁ fun colon c₂ h₂ hcolon => ?_
        refine (hread _).bind h₂ fun value c₃ h₃ hvalue => ?_
        exact Yields.pure ⟨h₃, hname.inRole.branch (by decide)
          (hcolon.chain.append hvalue.inRole.chain)⟩
      · exact yields_methodFrom hread h₁ rfl (.nil (Nat.le_refl _)) hname
    · exact Yields.failure
  · exact Yields.failure

theorem reads_plainMember (hread : Serves text read) : Reads text (plainMember read) := by
  intro cur hcur
  unfold plainMember
  refine (rows_decorators hread).bind hcur fun marks c₁ h₁ hmarks => ?_
  refine (rows_staticModifier false).bind h₁ fun static c₂ h₂ hstatic => ?_
  refine (rows_accessModifiers false).bind h₂ fun modifiers c₃ h₃ hmodifiers => ?_
  have hbefore := (hmarks.append hstatic).append hmodifiers
  dsimp only
  refine (reads_propertyName hread).bind h₃ fun name c₄ h₄ hname => ?_
  have hname' := hname.lower hbefore.le
  refine looks_peekChar.bind fun c => ?_
  split
  · exact yields_methodFrom hread h₄ rfl hbefore hname
  · split
    · refine (reads_mark ":" rfl).bind h₄ fun colon c₅ h₅ hcolon => ?_
      refine (hread _).bind h₅ fun value c₆ h₆ hvalue => ?_
      exact Yields.pure ⟨h₆, hname'.inRole.branch (by decide)
        (hcolon.chain.append hvalue.inRole.chain)⟩
    · exact Yields.failure
  · split
    · split
      · refine (reads_mark "=" rfl).bind h₄ fun eq c₅ h₅ heq => ?_
        refine (reads_inner hread).bind h₅ fun right c₆ h₆ hright => ?_
        exact Yields.pure ⟨h₆, (hname'.called (by decide)).inRole.branch (by decide)
          (heq.chain.append hright.inRole.chain)⟩
      · exact Yields.pure ⟨h₄, hname'.called (by decide)⟩
    · exact Yields.failure

theorem reads_objectMember (hread : Serves text read) : Reads text (objectMember read) := by
  intro cur hcur
  unfold objectMember
  refine looks_peek.bind fun cs => ?_
  split
  · split
    · exact (reads_plainMember hread).yields hcur
    · exact (reads_spreadOrElement hread).yields hcur
  · exact (reads_bracketMember hread).yields hcur
  · refine (hread _).bind hcur fun t next hnext ht => ?_
    split
    · split
      · exact Yields.pure ⟨hnext, ht.called (by decide)⟩
      · exact Yields.failure
    · exact Yields.failure
  · exact (reads_plainMember hread).yields hcur

theorem reads_object (hread : Serves text read) : Reads text (object read) := by
  intro cur hcur
  unfold object
  refine (reads_mark "\x7b" rfl).bind hcur fun opening c₁ h₁ hopening => ?_
  refine (closed_listWithHoles "\x7d" rfl (reads_objectMember hread)).bind h₁
    fun items c₂ h₂ hitems => ?_
  exact Yields.pure ⟨h₂, hitems.branch hopening⟩

end Flavoring.JavaScript.Parser
