import Flavoring.JavaScript.Parser.Expression
import Flavoring.Proofs.JavaScript.Functions
import Flavoring.Proofs.JavaScript.Markup

/-!
The layout of expressions.

What is applied to an expression takes it for its first part: the expression grows to the right and
still starts where it did.
-/

namespace Flavoring.JavaScript.Parser

open Concrete

variable {text : List Char} {cur next : Cursor} {lo mid hi : Nat} {read : Reader} {left : Concrete}
  {op : String}

/-! Primary expressions -/

theorem stands_parenthesized {opening first : Concrete} {more closing : List Concrete}
    (hopening : Stands text lo opening mid)
    (hitems : Closed text mid (first :: more ++ closing) hi) (hclosing : closing.length = 1) :
    Stands text lo (branch "parenthesized_expression" opening
      ((if more.isEmpty then first else branch "sequence_expression" first more) ::
        closing)) hi := by
  obtain ⟨front, last, mid', heq, hfront, hlast, -⟩ := hitems
  obtain ⟨rfl, rfl⟩ := List.append_inj' heq (by rw [hclosing]; rfl)
  have hcontent : Chain text mid
      [if more.isEmpty then first else branch "sequence_expression" first more] mid' := by
    split
    · next hempty =>
      rw [List.isEmpty_iff] at hempty
      subst hempty
      exact hfront.chain
    · exact (hfront.branch (by decide)).chain
  exact hopening.branch (by decide) (hcontent.append hlast.chain)

theorem reads_parenthesized (hread : Serves text read) (s : Setting) :
    Reads text (parenthesized read s) := by
  intro cur hcur
  unfold parenthesized
  refine (reads_mark "(" rfl).bind hcur fun opening c₁ h₁ hopening => ?_
  refine (closed_listOf ")" rfl (reads_spreadOrElement hread)).bind h₁ fun items c₂ h₂ hitems => ?_
  refine (looks_arrowAhead s).bind fun isArrow => ?_
  split
  · refine (yields_parameterList h₂ rfl hopening hitems.chain).andThen
      fun params c₃ hparams => ?_
    exact yields_arrowFrom hread s hparams.1 rfl hparams.2.inRole (.nil (Nat.le_refl _))
  · dsimp only
    split
    · exact Yields.failure
    · next first more hcontent =>
      split
      · exact Yields.failure
      · refine Yields.pure ⟨h₂, stands_parenthesized hopening ?_ ?_⟩
        · rwa [← hcontent, List.dropLast_eq_take, List.take_append_drop]
        · obtain ⟨front, last, _, rfl, -⟩ := hitems
          simp

theorem reads_importOperand (hread : Serves text read) : Reads text (importOperand read) := by
  intro cur hcur
  unfold importOperand
  refine (reads_word "import" (by decide)).bind hcur fun kw c₁ h₁ hkw => ?_
  refine looks_peek.bind fun cs => ?_
  split
  · refine (spans_arguments hread).bind h₁ fun args c₂ h₂ hargs => ?_
    exact Yields.pure ⟨h₂, stands_call [] hkw hargs.1.chain hargs.2⟩
  split
  · refine (reads_token "optional_chain" (Token.literal "?.") rfl (by decide)).bind h₁
      fun chain c₂ h₂ hchain => ?_
    refine (reads_word "property_identifier" (by decide)).bind h₂ fun property c₃ h₃ hproperty => ?_
    exact Yields.pure ⟨h₃, hkw.inRole.branch (by decide)
      (hchain.inRole.chain.append hproperty.inRole.chain)⟩
  · refine (reads_mark "." rfl).bind h₁ fun dot c₂ h₂ hdot => ?_
    refine (reads_keyword "meta" (by decide)).bind h₂ fun name c₃ h₃ hname => ?_
    exact Yields.pure ⟨h₃, hkw.asKeyword.branch (by decide) (hdot.chain.append hname.chain)⟩

theorem reads_nameOperand (hread : Serves text read) (s : Setting) :
    Reads text (nameOperand read s) := by
  intro cur hcur
  unfold nameOperand
  refine (reads_word "identifier" (by decide)).bind hcur fun name c₁ h₁ hname => ?_
  refine (looks_arrowAhead s).bind fun isArrow => ?_
  split
  · exact yields_arrowFrom hread s h₁ rfl hname.inRole (.nil (Nat.le_refl _))
  · exact Yields.pure ⟨h₁, hname⟩

theorem reads_asyncOperand (hread : Serves text read) (s : Setting) (constructing : Bool) :
    Reads text (asyncOperand read s constructing) := by
  intro cur hcur
  unfold asyncOperand
  refine Yields.get ((reads_word "identifier" (by decide)).bind hcur
    fun name c₁ h₁ hname => Yields.get ?_)
  have hplain : YieldsFrom text cur.offset (return name) c₁ := Yields.pure ⟨h₁, hname⟩
  split
  · exact hplain
  next next question hahead =>
  have hpast := (h₁.ahead hahead).1
  dsimp only
  split
  · refine Yields.set ((spans_functionParts hread true).bind hcur fun parts c₂ h₂ hparts => ?_)
    exact Yields.pure ⟨h₂, stands_functionExpression hparts⟩
  split
  · exact hplain
  split
  · refine Yields.orElse (Yields.set ?_) hplain
    refine (reads_word "identifier" (by decide)).bind hpast.toIn fun param c₂ h₂ hparam => ?_
    refine (looks_arrowAhead s).bind fun isArrow => ?_
    split
    · exact yields_arrowFrom hread s h₂ rfl hname.asKeyword (hparam.inRole.chain.lower hpast.le)
    · exact Yields.failure
  split
  · refine Yields.set ((spans_openArguments hread).bind hpast.toIn fun args c₂ h₂ hargs => ?_)
    obtain ⟨hargs, hkind, hchildren⟩ := hargs
    refine (looks_arrowAhead s).bind fun isArrow => ?_
    split
    · split
      · next opening items heq =>
        rw [heq] at hchildren
        obtain ⟨hopening, hitems⟩ := Stands.of_row hchildren
        split
        · exact Yields.failure
        · refine (yields_parameterList h₂ rfl hopening hitems).andThen
            fun params c₃ hparams => ?_
          exact yields_arrowFrom hread s hparams.1 rfl hname.asKeyword
            (hparams.2.inRole.chain.lower hpast.le)
      · exact Yields.failure
    split
    · exact Yields.set hplain
    split
    · exact Yields.pure ⟨h₂, stands_call [] hname (hargs.chain.lower hpast.le) hkind⟩
    · exact Yields.failure
  split
  · exact yields_arrowFrom hread s h₁ rfl hname.inRole (.nil (Nat.le_refl _))
  · exact hplain

theorem reads_wordOperand (hread : Serves text read) (s : Setting) (constructing : Bool) :
    Reads text (wordOperand read s constructing) := by
  intro cur hcur
  unfold wordOperand
  refine looks_peekWord.bind fun w => ?_
  split
  · exact Yields.failure
  · exact (reads_asyncOperand hread s constructing).yields hcur
  · refine (yields_classParts hread hcur (.nil (Nat.le_refl _))).andThen
      fun parts next hparts => ?_
    exact Yields.pure ⟨hparts.1, stands_classExpression hparts.2⟩
  · refine (spans_functionParts hread true).bind hcur fun parts next hnext hparts => ?_
    exact Yields.pure ⟨hnext, stands_functionExpression hparts⟩
  · exact (reads_importOperand hread).yields hcur
  · split
    · next hmem =>
      have hkind : ∀ w ∈ ["this", "super", "true", "false", "null", "undefined"],
          w ∉ tightKinds := by decide
      exact (reads_word _ (hkind _ (List.contains_iff_mem.mp hmem))).yields hcur
    · exact (reads_nameOperand hread s).yields hcur

theorem reads_primary (hread : Serves text read) (s : Setting) (constructing : Bool) :
    Reads text (primary read s constructing) := by
  intro cur hcur
  unfold primary
  refine looks_peek.bind fun cs => ?_
  split
  · exact (reads_string Token.endsQuoted_string).yields hcur
  split
  · exact (reads_token "number" Token.number rfl (by decide)).yields hcur
  split
  · exact (reads_parenthesized hread s).yields hcur
  · exact (reads_array hread).yields hcur
  · exact (reads_object hread).yields hcur
  · exact ((spans_template hread).yields hcur).mono fun t next ht => ⟨ht.1, ht.2.1⟩
  · exact (reads_regex s).yields hcur
  · refine (rows_decorators hread).bind hcur fun marks c₁ h₁ hmarks => ?_
    refine (yields_classParts hread h₁ hmarks).andThen fun parts next hparts => ?_
    exact Yields.pure ⟨hparts.1, stands_classExpression hparts.2⟩
  · exact (reads_wordOperand hread s constructing).yields hcur

/-! What is applied to an expression -/

-- What a step makes of `left`, which stands from `lo` up to the cursor.
abbrev GrowsFrom (text : List Char) (lo : Nat) (left : Concrete) (step : Parser (Option Concrete))
    (cur : Cursor) : Prop :=
  Yields step cur fun o next => next.In text ∧ Stands text lo (o.getD left) next.offset

theorem reads_property : Reads text property := by
  intro cur hcur
  unfold property
  refine (looks_nextIs _).bind fun isPrivate => ?_
  split
  · exact (reads_token "private_property_identifier" Token.privateName rfl (by decide)).yields hcur
  · exact (reads_word "property_identifier" (by decide)).yields hcur

theorem yields_accessFrom (hread : Serves text read) {link : List Concrete} (hcur : cur.In text)
    (hleft : Stands text lo left mid) (hlink : Chain text mid link cur.offset) :
    YieldsFrom text lo (accessFrom read left link) cur := by
  unfold accessFrom
  dsimp only
  refine (looks_nextIs _).bind fun isIndex => ?_
  split
  · refine (reads_mark "[" rfl).bind hcur fun opening c₁ h₁ hopening => ?_
    refine (reads_innerExpressions hread).bind h₁ fun index c₂ h₂ hindex => ?_
    refine (reads_mark "]" rfl).bind h₂ fun closing c₃ h₃ hclosing => ?_
    refine Yields.pure ⟨h₃, hleft.inRole.branch (by decide) (hlink.append ?_)⟩
    exact hopening.chain.append (hindex.inRole.chain.append hclosing.chain)
  · refine reads_property.bind hcur fun name c₁ h₁ hname => ?_
    exact Yields.pure ⟨h₁, hleft.inRole.branch (by decide) (hlink.append hname.inRole.chain)⟩

theorem grows_accessStep (hread : Serves text read) (hcur : cur.In text)
    (hnext : Cursor.Past text cur next) (hop : Token.operator next.rest = op)
    (hleft : Stands text lo left cur.offset) :
    GrowsFrom text lo left (accessStep read op next left) cur := by
  have hleft' := hleft.mono hnext.le
  unfold accessStep
  split
  · exact Yields.failure
  split
  · refine Yields.set ((spans_leaf "." 1 (by decide)).bind hnext.toIn fun dot c₁ h₁ hdot => ?_)
    refine reads_property.bind h₁ fun name c₂ h₂ hname => ?_
    exact Yields.pure ⟨h₂, hleft'.inRole.branch (by decide) (hdot.append hname.inRole.chain)⟩
  · have hrest := Cursor.ne_nil_of_operator hop (by decide)
    refine Yields.set ((yields_leaf hnext.toIn (fun _ => ⟨hrest, by decide⟩)
      fun hmem => absurd hmem (by decide)).andThen fun sign c₁ hsign => ?_)
    obtain ⟨-, h₁, hsign, -⟩ := hsign
    refine (looks_nextIs _).bind fun isCall => ?_
    split
    · split
      · refine (spans_arguments hread).bind h₁ fun args c₂ h₂ hargs => ?_
        exact Yields.pure ⟨h₂, stands_call [sign.inRole .optionalChain] hleft'
          (hsign.inRole.append hargs.1.chain) hargs.2⟩
      · exact Yields.failure
    · exact Yields.map (yields_accessFrom hread h₁ hleft' hsign.inRole)
  · exact Yields.set (Yields.map (yields_accessFrom hread hnext.toIn hleft' (.nil (Nat.le_refl _))))
  · split
    · refine Yields.set ((spans_template hread).bind hnext.toIn fun quasi c₁ h₁ hquasi => ?_)
      exact Yields.pure ⟨h₁, stands_call [] hleft' hquasi.1.chain hquasi.2⟩
    · exact Yields.failure
  · exact Yields.pure ⟨hcur, hleft⟩

theorem grows_constructStep (hread : Serves text read) (s : Setting) (hcur : cur.In text)
    (hleft : Stands text lo left cur.offset) :
    GrowsFrom text lo left (constructStep read s left) cur := by
  unfold constructStep
  refine Yields.get ?_
  split
  · next next hahead => exact grows_accessStep hread hcur (hcur.ahead hahead).1 rfl hleft
  · exact Yields.pure ⟨hcur, hleft⟩

theorem yields_appliedOnce (hread : Serves text read) (s : Setting) (hcur : cur.In text)
    (hleft : Stands text lo left cur.offset) :
    YieldsFrom text lo (appliedOnce read s left) cur := by
  unfold appliedOnce
  refine Yields.get ?_
  split
  · next next hahead =>
    have hpast := (hcur.ahead hahead).1
    split
    · refine Yields.set ((spans_arguments hread).bind hpast.toIn fun args c₁ h₁ hargs => ?_)
      exact Yields.pure ⟨h₁, stands_call [] hleft (hargs.1.chain.lower hpast.le) hargs.2⟩
    · exact Yields.pure ⟨hcur, hleft⟩
  · exact Yields.pure ⟨hcur, hleft⟩

theorem reads_newExpression (hread : Serves text read) (s : Setting) :
    Reads text (newExpression read s) := by
  intro cur hcur
  unfold newExpression
  refine (reads_keyword "new" (by decide)).bind hcur fun kw c₁ h₁ hkw => ?_
  refine looks_peek.bind fun cs => ?_
  split
  · refine (reads_mark "." rfl).bind h₁ fun dot c₂ h₂ hdot => ?_
    refine (reads_keyword "target" (by decide)).bind h₂ fun name c₃ h₃ hname => ?_
    exact Yields.pure ⟨h₃, hkw.asKeyword.branch (by decide) (hdot.chain.append hname.chain)⟩
  extract_lets withCallee withOperand
  have hcallee (first : Concrete) (c₂ : Cursor) (h₂ : c₂.In text)
      (hfirst : Stands text c₁.offset first c₂.offset) :
      YieldsFrom text cur.offset (withCallee first) c₂ := by
    refine (grow_yields (fun left c hc hleft =>
      grows_constructStep hread s hc hleft) h₂ hfirst).andThen fun callee c₃ hcallee => ?_
    obtain ⟨h₃, hcallee⟩ := hcallee
    have hplain : YieldsFrom text cur.offset
        (return branch "new_expression" kw [callee.inRole .callee]) c₃ :=
      Yields.pure ⟨h₃, hkw.branch (by decide) hcallee.inRole.chain⟩
    split
    · exact Yields.failure
    refine Yields.get ?_
    split
    · next next hahead =>
      have hpast := (h₃.ahead hahead).1
      split
      · refine Yields.set ((spans_arguments hread).bind hpast.toIn fun args c₄ h₄ hargs => ?_)
        exact Yields.pure ⟨h₄, hkw.branch (by decide) (hcallee.inRole.chain.append
          (hargs.1.inRole.chain.lower hpast.le))⟩
      · exact hplain
    · exact hplain
  clear_value withCallee
  have hoperand (first : Concrete) (c₂ : Cursor) (h₂ : c₂.In text)
      (hfirst : Stands text c₁.offset first c₂.offset) :
      YieldsFrom text cur.offset (withOperand first) c₂ := by
    unfold withOperand
    split
    · exact Yields.bind (Yields.pure (hcallee first c₂ h₂ hfirst))
    · exact (yields_appliedOnce hread s h₂ hfirst).andThen fun t c₃ ht =>
        hcallee t c₃ ht.1 ht.2
  clear_value withOperand
  split
  · exact (hread _).bind h₁ hoperand
  · refine (reads_keyword "yield" (by decide)).bind h₁ fun name c₂ h₂ hname => ?_
    exact Yields.bind (Yields.pure (hoperand _ c₂ h₂ (hname.branch (by decide)
      (.nil (Nat.le_refl _)))))
  · split
    · exact Yields.bind Yields.failure
    split
    · exact (reads_element hread).bind h₁ hoperand
    · exact (reads_primary hread s true).bind h₁ hoperand

theorem not_mem_of_updatingOperators (h : updatingOperators.contains op = true) :
    op ∉ tightKinds := by
  have hall : ∀ op ∈ updatingOperators, op ∉ tightKinds := by decide
  exact hall op (List.contains_iff_mem.mp h)

theorem grows_suffixStep (hread : Serves text read) (s : Setting) (update : Bool)
    (hcur : cur.In text) (hleft : Stands text lo left cur.offset) :
    GrowsFrom text lo left (suffixStep read s update left) cur := by
  have hnone : GrowsFrom text lo left (return none) cur := Yields.pure ⟨hcur, hleft⟩
  unfold suffixStep
  refine Yields.get ?_
  split
  · next next hahead =>
    have hpast := (hcur.ahead hahead).1
    have hleft' := hleft.mono hpast.le
    have haccess : GrowsFrom text lo left
        (accessStep read (Token.operator next.rest) next left) cur :=
      grows_accessStep hread hcur hpast rfl hleft
    have hsign (op : String) (hop : op ∉ tightKinds) : GrowsFrom text lo left (do
        if !update then return none
        else if !left.isSettled then failure
        else
          set next
          let sign ← leaf op .anonymous 2
          return some (branch "update_expression" (left.inRole .argument)
            [sign.inRole .operator])) cur := by
      split
      · exact hnone
      split
      · exact Yields.failure
      · refine Yields.set ((spans_leaf op 2 hop).bind hpast.toIn fun sign c₁ h₁ hsign => ?_)
        exact Yields.pure ⟨h₁, hleft'.inRole.branch (by decide) hsign.inRole⟩
    dsimp only
    split
    · exact haccess
    · exact haccess
    · exact haccess
    · exact haccess
    · split
      · exact Yields.failure
      · refine Yields.set ((spans_arguments hread).bind hpast.toIn fun args c₁ h₁ hargs => ?_)
        exact Yields.pure ⟨h₁, stands_call [] hleft' hargs.1.chain hargs.2⟩
    · next hop =>
      rw [hop]
      exact hsign "++" (by decide)
    · next hop =>
      rw [hop]
      exact hsign "--" (by decide)
    · split
      · exact hnone
      · next target htarget =>
        have htarget' := hleft'.assignee htarget
        refine Yields.set ((spans_leaf "=" 1 (by decide)).bind hpast.toIn fun eq c₁ h₁ heq => ?_)
        refine (reads_settled (hread _)).bind h₁ fun right c₂ h₂ hright => ?_
        exact Yields.pure ⟨h₂, htarget'.inRole.branch (by decide) (heq.append hright.inRole.chain)⟩
    · split
      · next hupdating =>
        rw [Bool.and_eq_true] at hupdating
        have hop := not_mem_of_updatingOperators hupdating.1
        refine Yields.set ((spans_leaf _ _ hop).bind hpast.toIn fun sign c₁ h₁ hsign => ?_)
        refine (reads_settled (hread _)).bind h₁ fun right c₂ h₂ hright => ?_
        exact Yields.pure ⟨h₂, hleft'.inRole.branch (by decide)
          (hsign.inRole.append hright.inRole.chain)⟩
      · exact hnone
  · exact hnone

theorem yields_suffixes (hread : Serves text read) (s : Setting) (update : Bool)
    (hcur : cur.In text) (hleft : Stands text lo left cur.offset) :
    YieldsFrom text lo (grow (suffixStep read s update) left) cur :=
  grow_yields (fun _ _ hc ht => grows_suffixStep hread s update hc ht) hcur hleft

/-! Operands -/

theorem reads_unary (hread : Serves text read) (s : Setting) (op : String)
    (hop : Token.literal op [] = 0 ∧ op ∉ tightKinds) :
    Reads text (unary read s op) := by
  intro cur hcur
  unfold unary
  refine (reads_token op (Token.literal op) hop.1 hop.2).bind hcur fun sign c₁ h₁ hsign => ?_
  refine (reads_settled (hread _)).bind h₁ fun argument c₂ h₂ hargument => ?_
  exact Yields.pure ⟨h₂, hsign.asKeyword.inRole.branch (by decide) hargument.inRole.chain⟩

theorem reads_yieldExpression (hread : Serves text read) (s : Setting) :
    Reads text (yieldExpression read s) := by
  intro cur hcur
  unfold yieldExpression
  refine (reads_keyword "yield" (by decide)).bind hcur fun kw c₁ h₁ hkw => Yields.get ?_
  have hbare : YieldsFrom text cur.offset (suffixed read s (branch "yield_expression" kw [])) c₁ :=
    yields_suffixes hread s true h₁ (hkw.branch (by decide) (.nil (Nat.le_refl _)))
  split
  · next next hahead =>
    have hpast := (h₁.ahead hahead).1
    split
    · refine Yields.set ((spans_leaf "*" 1 (by decide)).bind hpast.toIn fun star c₂ h₂ hstar => ?_)
      refine (reads_settled (hread _)).bind h₂ fun e c₃ h₃ he => ?_
      exact Yields.pure ⟨h₃, hkw.branch (by decide) ((hstar.append he.chain).lower hpast.le)⟩
    split
    · refine looks_noMarkupComment.bind fun _ => ?_
      refine (reads_settled (hread _)).bind h₁ fun e c₂ h₂ he => ?_
      exact Yields.pure ⟨h₂, hkw.branch (by decide) he.chain⟩
    · exact hbare
  · exact hbare

theorem reads_privateLookup (hread : Serves text read) (s : Setting) :
    Reads text (privateLookup read s) := by
  intro cur hcur
  unfold privateLookup
  refine (reads_token "private_property_identifier" Token.privateName rfl (by decide)).bind hcur
    fun name c₁ h₁ hname => ?_
  refine (reads_keyword "in" (by decide)).bind h₁ fun op c₂ h₂ hop => ?_
  refine (reads_settled (hread _)).bind h₂ fun right c₃ h₃ hright => ?_
  exact Yields.pure ⟨h₃, hname.inRole.branch (by decide)
    (hop.inRole.chain.append hright.inRole.chain)⟩

theorem reads_operand (hread : Serves text read) (s : Setting) (update : Bool) :
    Reads text (operand read s update) := by
  intro cur hcur
  unfold operand
  refine looks_peek.bind fun cs => ?_
  have hupdating (op : String) (hop : isMark op = true) : YieldsFrom text cur.offset (do
      let sign ← mark op
      let argument ← settled (read (.updated s))
      suffixed read s (branch "update_expression" (sign.inRole .operator)
        [argument.inRole .argument])) cur := by
    refine (reads_mark op hop).bind hcur fun sign c₁ h₁ hsign => ?_
    refine (reads_settled (hread _)).bind h₁ fun argument c₂ h₂ hargument => ?_
    exact yields_suffixes hread s true h₂ (hsign.inRole.branch (by decide) hargument.inRole.chain)
  dsimp only
  split
  · exact (reads_unary hread s "!" (by decide)).yields hcur
  · exact (reads_unary hread s "~" (by decide)).yields hcur
  · exact hupdating "++" (by decide)
  · exact hupdating "--" (by decide)
  · exact (reads_unary hread s "+" (by decide)).yields hcur
  · exact (reads_unary hread s "-" (by decide)).yields hcur
  · refine (reads_element hread).bind hcur fun e c₁ h₁ he => ?_
    exact yields_suffixes hread s true h₁ he
  · exact (reads_privateLookup hread s).yields hcur
  split
  · exact (reads_unary hread s "typeof" (by decide)).yields hcur
  · exact (reads_unary hread s "void" (by decide)).yields hcur
  · exact (reads_unary hread s "delete" (by decide)).yields hcur
  · refine (reads_keyword "await" (by decide)).bind hcur fun kw c₁ h₁ hkw => ?_
    refine (reads_settled (hread _)).bind h₁ fun e c₂ h₂ he => ?_
    exact Yields.pure ⟨h₂, hkw.branch (by decide) he.chain⟩
  · exact (reads_yieldExpression hread s).yields hcur
  · refine (reads_newExpression hread s).bind hcur fun e c₁ h₁ he => ?_
    exact yields_suffixes hread s update h₁ he
  · refine (reads_primary hread s false).bind hcur fun e c₁ h₁ he => ?_
    exact yields_suffixes hread s update h₁ he

/-! Binary operators -/

theorem not_mem_of_level? {level : Nat} (h : level? op = some level) : op ∉ tightKinds := by
  intro hmem
  have hnone : ∀ op ∈ tightKinds, level? op = none := by decide
  rw [hnone op hmem] at h
  cases h

theorem grows_binaryStep (hread : Serves text read) (s : Setting) (level : Nat) (hcur : cur.In text)
    (hleft : Stands text lo left cur.offset) :
    GrowsFrom text lo left (binaryStep read s level left) cur := by
  have hnone : GrowsFrom text lo left (return none) cur := Yields.pure ⟨hcur, hleft⟩
  unfold binaryStep
  refine Yields.get ?_
  split
  · exact hnone
  · next next hahead =>
    have hpast := (hcur.ahead hahead).1
    split
    · exact hnone
    split
    · exact Yields.failure
    refine Yields.set ((spans_leaf "?" 1 (by decide)).bind hpast.toIn
      fun question c₁ h₁ hquestion => ?_)
    refine (reads_inner hread).bind h₁ fun consequence c₂ h₂ hconsequence => ?_
    refine (reads_mark ":" rfl).bind h₂ fun colon c₃ h₃ hcolon => ?_
    refine (reads_settled (hread _)).bind h₃ fun alternative c₄ h₄ halternative => ?_
    refine Yields.pure ⟨h₄, (hleft.mono hpast.le).inRole.branch (by decide) (hquestion.append ?_)⟩
    exact hconsequence.inRole.chain.append (hcolon.chain.append halternative.inRole.chain)
  · next next hahead =>
    have hpast := (hcur.ahead hahead).1
    dsimp only
    split
    · exact hnone
    next l hlevel =>
    split
    · exact hnone
    split
    · exact Yields.failure
    refine Yields.set ((spans_leaf _ _ (not_mem_of_level? hlevel)).bind hpast.toIn
      fun sign c₁ h₁ hsign => ?_)
    refine (reads_settled (hread _)).bind h₁ fun right c₂ h₂ hright => ?_
    exact Yields.pure ⟨h₂, (hleft.mono hpast.le).inRole.branch (by decide)
      (hsign.inRole.append hright.inRole.chain)⟩

theorem yields_binaryFrom (hread : Serves text read) (s : Setting) (level : Nat)
    (hcur : cur.In text) (hleft : Stands text lo left cur.offset) :
    YieldsFrom text lo (binaryFrom read s level left) cur :=
  grow_yields (fun _ _ hc ht => grows_binaryStep hread s level hc ht) hcur hleft

theorem reads_binary (hread : Serves text read) (s : Setting) (level : Nat) :
    Reads text (binary read s level) := by
  intro cur hcur
  unfold binary
  refine (reads_operand hread s true).bind hcur fun e c₁ h₁ he => ?_
  exact yields_binaryFrom hread s level h₁ he

theorem reads_expressions (hread : Serves text read) (s : Setting) :
    Reads text (expressions read s) := by
  intro cur hcur
  unfold expressions
  refine (reads_settled (reads_binary hread s 0)).bind hcur fun e c₁ h₁ he => ?_
  exact yields_sequenceFrom hread s h₁ he

theorem yields_expressionsFrom (hread : Serves text read) (s : Setting) (hcur : cur.In text)
    (hleft : Stands text lo left cur.offset) :
    YieldsFrom text lo (expressionsFrom read s left) cur := by
  unfold expressionsFrom
  refine (yields_suffixes hread s true hcur hleft).andThen fun e c₁ he => ?_
  have hbinary := yields_settled (yields_binaryFrom hread s 0 he.1 he.2)
  exact hbinary.andThen fun e' c₂ he' => yields_sequenceFrom hread s he'.1 he'.2

end Flavoring.JavaScript.Parser
