import Flavoring.JavaScript.Parser.Function
import Flavoring.Proofs.JavaScript.Literals

/-! The layout of functions and classes. -/

namespace Flavoring.JavaScript.Parser

open Concrete

variable {text : List Char} {cur : Cursor} {lo mid hi : Nat} {read : Reader}

/-! Arrow functions -/

theorem looks_braces : Looks braces := by
  intro cur
  unfold braces
  refine Yields.get ?_
  dsimp only
  repeat' split
  all_goals exact Yields.pure rfl

theorem spans_severalFirst {R : Nat → Concrete → Nat → Prop} {p : Parser Concrete}
    (hp : Spans text R p) : Spans text R (severalFirst p) := by
  intro cur hcur
  unfold severalFirst
  refine hp.bind hcur fun t next hnext ht => ?_
  split
  · exact Yields.pure ⟨hnext, ht⟩
  · exact Yields.failure

theorem reads_arrowBody (hread : Serves text read) (s : Setting) :
    Reads text (arrowBody read s) := by
  intro cur hcur
  have hblock : Reads text (read (.block true)) := hread _
  have hexpression : Reads text (settled (read (.element s))) := reads_settled (hread _)
  unfold arrowBody
  dsimp only
  refine (looks_nextIs _).bind fun isBrace => ?_
  split
  · refine looks_braces.bind fun braces => ?_
    split
    · exact hblock.yields hcur
    · exact hblock.yields hcur
    · exact (hexpression.orElse hblock).yields hcur
    · exact ((spans_severalFirst hexpression).orElse hblock).yields hcur
    · exact (hblock.orElse hexpression).yields hcur
  · exact hexpression.yields hcur

theorem yields_arrowFrom (hread : Serves text read) (s : Setting) {first : Concrete}
    {more : List Concrete} (hcur : cur.In text) (hhi : cur.offset = hi)
    (hfirst : Stands text lo first mid) (hmore : Chain text mid more hi) :
    YieldsFrom text lo (arrowFrom read s first more) cur := by
  subst hhi
  unfold arrowFrom
  refine (reads_mark "=>" rfl).bind hcur fun arrow c₁ h₁ harrow => ?_
  refine (reads_arrowBody hread s).bind h₁ fun body c₂ h₂ hbody => ?_
  exact Yields.pure ⟨h₂, hfirst.branch (by decide)
    (hmore.append (harrow.chain.append hbody.inRole.chain))⟩

/-! Functions -/

theorem stands_functionExpression {parts : FunctionParts}
    (h : Row text lo (parts.first :: parts.more) hi) : Stands text lo parts.expression hi := by
  unfold FunctionParts.expression
  split <;> exact h.branch (by decide)

theorem bare_functionDeclaration {parts : FunctionParts} {tail : List Concrete}
    (h : Row text lo (parts.first :: parts.more) mid) (htail : Chain text mid tail hi) :
    Bare text lo (parts.declaration tail) hi := by
  obtain ⟨hfirst, hmore⟩ := Stands.of_row h
  unfold FunctionParts.declaration
  split <;> exact hfirst.bare (by decide) (hmore.append htail)

theorem spans_functionParts (hread : Serves text read) (afterOperand : Bool) :
    Spans text (fun lo parts hi => Row text lo (parts.first :: parts.more) hi)
      (functionParts read afterOperand) := by
  intro cur hcur
  unfold functionParts
  refine looks_peekWord.bind fun w => ?_
  extract_lets withAsync
  have hasync (isAsync : List Concrete) (c₁ : Cursor) (h₁ : c₁.In text)
      (hasync : Row text cur.offset isAsync c₁.offset) :
      Yields (withAsync isAsync) c₁ fun parts next =>
        next.In text ∧ Row text cur.offset (parts.first :: parts.more) next.offset := by
    refine (reads_keyword "function" (by decide)).bind h₁ fun kw c₂ h₂ hkw => ?_
    refine (looks_nextIs _).bind fun isStar => ?_
    extract_lets withStar
    have hstar (star : List Concrete) (c₃ : Cursor) (h₃ : c₃.In text)
        (hstar : Chain text c₂.offset star c₃.offset) :
        Yields (withStar star) c₃ fun parts next =>
          next.In text ∧ Row text cur.offset (parts.first :: parts.more) next.offset := by
      refine (looks_nextIs _).bind fun isAnonymous => ?_
      extract_lets withName
      have hname (name : List Concrete) (c₄ : Cursor) (h₄ : c₄.In text)
          (hname : Row text c₃.offset name c₄.offset) :
          Yields (withName name) c₄ fun parts next =>
            next.In text ∧ Row text cur.offset (parts.first :: parts.more) next.offset := by
        refine (reads_parameters hread).bind h₄ fun params c₅ h₅ hparams => ?_
        refine (hread _).bind h₅ fun body c₆ h₆ hbody => ?_
        have hrow : Row text cur.offset
            (isAsync ++ kw :: star ++ name ++ [params, body.inRole .body]) c₆.offset :=
          ((hasync.append (hkw.row hstar)).append hname).append (hparams.row hbody.inRole.chain)
        split
        · next heq =>
          rw [heq] at hrow
          exact Yields.pure ⟨h₆, hrow⟩
        · exact Yields.failure
      clear_value withName
      split
      · exact Yields.bind (Yields.pure (hname [] c₃ h₃ (.nil (Nat.le_refl _))))
      · refine (reads_word "identifier" (by decide)).bind h₃ fun name c₄ h₄ hword => ?_
        exact Yields.bind (Yields.pure (hname _ c₄ h₄ hword.inRole))
    clear_value withStar
    split
    · refine (reads_mark "*" rfl).bind h₂ fun star c₃ h₃ hmark => ?_
      exact Yields.bind (Yields.pure (hstar [star] c₃ h₃ hmark.chain))
    · exact Yields.bind (Yields.pure (hstar [] c₂ h₂ (.nil (Nat.le_refl _))))
  clear_value withAsync
  split
  · refine (reads_keyword "async" (by decide)).bind hcur fun kw c₁ h₁ hkw => ?_
    exact Yields.bind (Yields.pure (hasync [kw] c₁ h₁ hkw))
  · exact Yields.bind (Yields.pure (hasync [] cur hcur (.nil (Nat.le_refl _))))

/-! Classes -/

theorem yields_fieldFrom (hread : Serves text read) {before : List Concrete} {name : Concrete}
    (hcur : cur.In text) (hhi : cur.offset = hi) (hbefore : Row text lo before mid)
    (hname : Stands text mid name hi) :
    Yields (fieldFrom read before name) cur fun ts next =>
      next.In text ∧ Chain text lo ts next.offset := by
  subst hhi
  unfold fieldFrom
  dsimp only
  have hnamed : Row text lo (before ++ [name.inRole .property]) cur.offset :=
    hbefore.append hname.inRole
  have hplain : Yields (do
      let field ← memberNode "field_definition" (before ++ [name.inRole .property])
      return [field.inRole .member, ← terminator false]) cur fun ts next =>
        next.In text ∧ Chain text lo ts next.offset := by
    refine (yields_memberNode (by decide) hcur rfl hnamed).andThen
      fun field c₁ hfield => ?_
    refine (spans_terminator false).bind hfield.1 fun tail c₂ h₂ htail => ?_
    exact Yields.pure ⟨h₂, hfield.2.inRole.chain.append htail⟩
  refine Yields.get ?_
  split
  · next start question hahead =>
    have hpast := (hcur.ahead hahead).1
    split
    · refine Yields.set ((spans_leaf "=" 1 (by decide)).bind hpast.toIn fun eq c₁ h₁ heq => ?_)
      refine (reads_settled (hread _)).bind h₁ fun value c₂ h₂ hvalue => ?_
      have hvalued : Row text lo (before ++ [name.inRole .property] ++ [eq, value.inRole .value])
          c₂.offset := by
        rw [List.append_assoc]
        exact hbefore.append
          (hname.inRole.row ((heq.append hvalue.inRole.chain).lower hpast.le))
      refine (yields_memberNode (by decide) h₂ rfl hvalued).andThen
        fun field c₃ hfield => ?_
      refine (spans_terminator true).bind hfield.1 fun tail c₄ h₄ htail => ?_
      exact Yields.pure ⟨h₄, hfield.2.inRole.chain.append htail⟩
    · exact hplain
  · exact hplain

theorem spans_staticBlock? (hread : Serves text read) :
    Spans text (fun lo o hi => Chain text lo o.toList hi) (staticBlock? read) := by
  intro cur hcur
  unfold staticBlock?
  refine Yields.get (looks_peekWord.bind fun w => ?_)
  extract_lets nothingRead
  have hnothing (r : Unit) (c : Cursor) : Yields (nothingRead r) c fun o next =>
      next.In text ∧ Chain text cur.offset o.toList next.offset :=
    Yields.set (Yields.pure ⟨hcur, .nil (Nat.le_refl _)⟩)
  clear_value nothingRead
  split
  · refine (reads_keyword "static" (by decide)).bind hcur fun kw c₁ h₁ hkw => ?_
    refine (spans_supplied? false).bind h₁ fun tail c₂ h₂ htail => ?_
    refine (looks_nextIs _).bind fun isBrace => ?_
    split
    · refine (hread _).bind h₂ fun body c₃ h₃ hbody => ?_
      exact Yields.pure ⟨h₃, (hkw.branch (by decide) (htail.append hbody.inRole.chain)).chain⟩
    · exact hnothing () c₂
  · exact hnothing () cur

theorem lists_classMember (hread : Serves text read) : Lists text (classMember read) := by
  intro cur hcur
  unfold classMember
  refine (looks_nextIs _).bind fun isEmpty => ?_
  split
  · refine (reads_mark ";" rfl).bind hcur fun semicolon c₁ h₁ hsemicolon => ?_
    exact Yields.pure ⟨h₁, hsemicolon.chain⟩
  · refine (spans_staticBlock? hread).bind hcur fun block c₁ h₁ hblock => ?_
    split
    · exact Yields.pure ⟨h₁, Chain.inRole hblock⟩
    · have hle : cur.offset ≤ c₁.offset := hblock.le
      refine (rows_decorators hread).bind h₁ fun marks c₂ h₂ hmarks => ?_
      refine (rows_staticModifier true).bind h₂ fun static c₃ h₃ hstatic => ?_
      refine (rows_accessModifiers true).bind h₃ fun modifiers c₄ h₄ hmodifiers => ?_
      refine (reads_propertyName hread).bind h₄ fun name c₅ h₅ hname => Yields.get ?_
      have hbefore := (hmarks.lower hle).append hstatic
      extract_lets isMethod
      clear_value isMethod
      split
      · refine (yields_methodFrom hread h₅ rfl (hbefore.append hmodifiers)
          hname).andThen fun method c₆ hmethod => ?_
        exact Yields.pure ⟨hmethod.1, hmethod.2.inRole.chain⟩
      · split
        · exact yields_fieldFrom hread h₅ rfl hbefore (hname.lower hmodifiers.le)
        · exact Yields.failure

theorem reads_classBody (hread : Serves text read) : Reads text (classBody read) := by
  intro cur hcur
  unfold classBody
  refine (reads_mark "\x7b" rfl).bind hcur fun opening c₁ h₁ hopening => ?_
  refine (lists_many_flatten ?_).bind h₁ fun members c₂ h₂ hmembers => ?_
  · intro cur hcur
    refine (looks_nextIs _).bind fun isEnd => ?_
    split
    · exact Yields.pure ⟨hcur, .nil (Nat.le_refl _)⟩
    · exact Yields.map (((lists_classMember hread).yields hcur).mono fun ts next hts => hts)
  · refine (reads_mark "\x7d" rfl).bind h₂ fun closing c₃ h₃ hclosing => ?_
    exact Yields.pure ⟨h₃, hopening.branch (by decide) (hmembers.append hclosing.chain)⟩

theorem stands_classExpression {parts : ClassParts}
    (h : Row text lo (parts.first :: parts.more) hi) : Stands text lo parts.expression hi :=
  h.branch (by decide)

theorem bare_classDeclaration {parts : ClassParts} {tail : List Concrete}
    (h : Row text lo (parts.first :: parts.more) mid) (htail : Chain text mid tail hi) :
    Bare text lo (parts.declaration tail) hi := by
  obtain ⟨hfirst, hmore⟩ := Stands.of_row h
  exact hfirst.bare (by decide) (hmore.append htail)

theorem yields_classParts (hread : Serves text read) {marks : List Concrete} (hcur : cur.In text)
    (hmarks : Row text lo marks cur.offset) :
    Yields (classParts read marks) cur fun parts next =>
      next.In text ∧ Row text lo (parts.first :: parts.more) next.offset := by
  unfold classParts
  refine (reads_keyword "class" (by decide)).bind hcur fun kw c₁ h₁ hkw => ?_
  refine looks_peekWord.bind fun w => ?_
  extract_lets withName
  have hname (name : List Concrete) (c₂ : Cursor) (h₂ : c₂.In text)
      (hname : Chain text c₁.offset name c₂.offset) :
      Yields (withName name) c₂ fun parts next =>
        next.In text ∧ Row text lo (parts.first :: parts.more) next.offset := by
    refine looks_peekWord.bind fun w => ?_
    extract_lets withHeritage
    have hheritage (heritage : List Concrete) (c₃ : Cursor) (h₃ : c₃.In text)
        (hheritage : Row text c₂.offset heritage c₃.offset) :
        Yields (withHeritage heritage) c₃ fun parts next =>
          next.In text ∧ Row text lo (parts.first :: parts.more) next.offset := by
      refine (reads_classBody hread).bind h₃ fun body c₄ h₄ hbody => ?_
      have hrow : Row text lo (marks ++ kw :: name ++ heritage ++ [body.inRole .body]) c₄.offset :=
        ((hmarks.append (hkw.row hname)).append hheritage).append hbody.inRole
      split
      · next heq =>
        rw [heq] at hrow
        exact Yields.pure ⟨h₄, hrow⟩
      · exact Yields.failure
    clear_value withHeritage
    split
    · refine (reads_keyword "extends" (by decide)).bind h₂ fun ext c₃ h₃ hext => ?_
      refine (reads_inner hread).bind h₃ fun e c₄ h₄ he => ?_
      exact Yields.bind (Yields.pure (hheritage _ c₄ h₄ (hext.branch (by decide) he.chain)))
    · exact Yields.bind (Yields.pure (hheritage [] c₂ h₂ (.nil (Nat.le_refl _))))
  clear_value withName
  split
  · exact Yields.bind (Yields.pure (hname [] c₁ h₁ (.nil (Nat.le_refl _))))
  · refine (reads_word "identifier" (by decide)).bind h₁ fun name c₂ h₂ hword => ?_
    exact Yields.bind (Yields.pure (hname _ c₂ h₂ hword.inRole.chain))

end Flavoring.JavaScript.Parser
