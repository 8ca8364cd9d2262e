import Flavoring.JavaScript.Parser.Statement
import Flavoring.Proofs.JavaScript.Expressions

/-! The layout of statements. -/

namespace Flavoring.JavaScript.Parser

open Concrete

variable {text : List Char} {cur : Cursor} {lo mid hi : Nat} {read : Reader}

-- The parser reads one statement.
abbrev States (text : List Char) (p : Parser Concrete) : Prop := Spans text (Bare text) p

theorem States.reads {p : Parser Concrete} (h : States text p) : Reads text p :=
  h.mono fun _ _ _ ht => ht.1

/-! Expressions and blocks -/

theorem states_expressionStatement (hread : Serves text read) :
    States text (expressionStatement read) := by
  intro cur hcur
  unfold expressionStatement
  refine (reads_expressions hread openEnded).bind hcur fun e c₁ h₁ he => ?_
  refine (spans_terminator true).bind h₁ fun tail c₂ h₂ htail => ?_
  exact Yields.pure ⟨h₂, he.bare (by decide) htail⟩

theorem states_block (hread : Serves text read) (afterOperand : Bool) :
    States text (block read afterOperand) := by
  intro cur hcur
  unfold block
  refine (reads_mark "\x7b" rfl).bind hcur fun opening c₁ h₁ hopening => ?_
  refine (lists_many ?_).bind h₁ fun body c₂ h₂ hbody => ?_
  · intro cur hcur
    refine (looks_nextIs _).bind fun isEnd => ?_
    split
    · exact Yields.pure ⟨hcur, .nil (Nat.le_refl _)⟩
    · exact Yields.map (((hread _).yields hcur).mono fun t next ht => ⟨ht.1, ht.2.chain⟩)
  · refine (reads_mark "\x7d" rfl).bind h₂ fun closing c₃ h₃ hclosing => ?_
    refine (spans_supplied? afterOperand).bind h₃ fun tail c₄ h₄ htail => ?_
    exact Yields.pure ⟨h₄, hopening.bare (by decide) (hbody.append (hclosing.chain.append htail))⟩

theorem looks_continues (closed : Bool) : Looks (continues closed) := by
  intro cur
  unfold continues
  refine Yields.get ?_
  dsimp only
  repeat' split
  all_goals exact Yields.pure rfl

theorem states_braced (hread : Serves text read) (closed : Bool) :
    States text (braced read closed) := by
  intro cur hcur
  have hexpression : States text (expressionStatement read) := states_expressionStatement hread
  have hblock : States text (block read false) := states_block hread false
  unfold braced
  refine Yields.get (looks_braces.bind fun braces => ?_)
  split
  · refine (states_block hread true).bind hcur fun b c₁ h₁ hb => ?_
    extract_lets ended done
    have hdone (r : Unit) : Yields (done r) c₁ fun t next =>
        next.In text ∧ Bare text cur.offset t next.offset := Yields.pure ⟨h₁, hb⟩
    refine (looks_continues closed).bind fun goesOn => ?_
    split
    · exact Yields.set (hexpression.yields hcur)
    split
    · exact looks_noMarkupComment.bind hdone
    · exact hdone ()
  · exact (hexpression.orElse hblock).yields hcur
  · exact ((spans_severalFirst hexpression).orElse hblock).yields hcur
  · exact (hexpression.orElse hblock).yields hcur
  · exact (hblock.orElse hexpression).yields hcur
  · exact hblock.yields hcur

/-! Declarations -/

theorem reads_bound (hread : Serves text read) : Reads text (bound read) := by
  intro cur hcur
  unfold bound
  have htaken (t : Concrete) (c : Cursor) (hc : c.In text)
      (ht : Stands text cur.offset t c.offset) :
      YieldsFrom text cur.offset (bound.taken t) c := by
    unfold bound.taken
    split
    · next t' hpattern => exact Yields.pure ⟨hc, ht.pattern hpattern⟩
    · exact Yields.failure
  refine looks_peekChar.bind fun c => ?_
  split
  · exact (reads_array hread).bind hcur htaken
  · exact (reads_object hread).bind hcur htaken
  · exact (reads_word "identifier" (by decide)).yields hcur

theorem spans_declarator (hread : Serves text read) :
    Spans text (fun lo r hi => Stands text lo r.1 hi) (declarator read) := by
  intro cur hcur
  unfold declarator
  refine (reads_bound hread).bind hcur fun name c₁ h₁ hname => Yields.get ?_
  have hbare : Stands text cur.offset (branch "variable_declarator" (name.inRole .name) [])
      c₁.offset := hname.inRole.branch (by decide) (.nil (Nat.le_refl _))
  split
  · next next question hahead =>
    have hpast := (h₁.ahead hahead).1
    split
    · refine Yields.set ((spans_leaf "=" 1 (by decide)).bind hpast.toIn fun eq c₂ h₂ heq => ?_)
      refine (reads_settled (hread _)).bind h₂ fun value c₃ h₃ hvalue => ?_
      exact Yields.pure ⟨h₃, hname.inRole.branch (by decide)
        ((heq.append hvalue.inRole.chain).lower hpast.le)⟩
    · exact Yields.pure ⟨h₁, hbare⟩
  · exact Yields.pure ⟨h₁, hbare⟩

theorem states_variableDeclaration (hread : Serves text read) (w : String)
    (hw : w ≠ "" ∧ w ∉ tightKinds) : States text (variableDeclaration read w) := by
  intro cur hcur
  unfold variableDeclaration
  refine (reads_keyword w hw).bind hcur fun kw c₁ h₁ hkw => ?_
  refine (spans_declarator hread).bind h₁ fun first c₂ h₂ hfirst => ?_
  refine (grow_yields (R := fun lo r hi => Chain text lo r.1 hi) ?_ h₂
    hfirst.chain).andThen ?_
  · rintro ⟨parts, hasValue⟩ c hc hparts
    refine Yields.get ?_
    split
    · next next question hahead =>
      have hpast := (hc.ahead hahead).1
      split
      · refine Yields.set ((spans_leaf "," 1 (by decide)).bind hpast.toIn
          fun comma c₃ h₃ hcomma => ?_)
        refine (spans_declarator hread).bind h₃ fun more c₄ h₄ hmore => ?_
        exact Yields.pure ⟨h₄, hparts.append ((hcomma.append hmore.chain).lower hpast.le)⟩
      · exact Yields.pure ⟨hc, hparts⟩
    · exact Yields.pure ⟨hc, hparts⟩
  · rintro ⟨parts, hasValue⟩ c₃ ⟨h₃, hparts⟩
    dsimp only
    refine (spans_terminator hasValue).bind h₃ fun tail c₄ h₄ htail => Yields.pure ⟨h₄, ?_⟩
    split
    · exact hkw.bare (by decide) (hparts.append htail)
    · exact hkw.inRole.bare (by decide) (hparts.append htail)

theorem looks_declaresLet (semicolon : Bool) : Looks (declaresLet semicolon) := by
  intro cur
  unfold declaresLet
  refine looks_peekWord.bind fun w => ?_
  split
  · refine Yields.get ?_
    dsimp only
    split <;> exact Yields.pure rfl
  · exact Yields.pure rfl

theorem looks_startsFunction (semicolon : Bool) : Looks (startsFunction semicolon) := by
  intro cur
  unfold startsFunction
  refine looks_peekWord.bind fun w => ?_
  split
  · exact Yields.pure rfl
  · refine Yields.get ?_
    dsimp only
    split <;> exact Yields.pure rfl
  · exact Yields.pure rfl

-- A declaration, with `true`, or an expression.
def Declares (text : List Char) (lo : Nat) (r : Concrete × Bool) (hi : Nat) : Prop :=
  Stands text lo r.1 hi ∧ (r.2 = true → r.1.kind ≠ "parenthesized_expression")

theorem yields_declarationOr (hread : Serves text read) (closed isNamed : Bool)
    {declaration : List Concrete → Concrete} {expression : Concrete} (hcur : cur.In text)
    (hdeclaration : ∀ tail hi, Chain text cur.offset tail hi → Bare text lo (declaration tail) hi)
    (hexpression : Stands text lo expression cur.offset) :
    Yields (declarationOr read closed isNamed declaration expression) cur fun r next =>
      next.In text ∧ Declares text lo r next.offset := by
  have hgoesOn {c : Cursor} (hc : c.In text) (hle : cur.offset ≤ c.offset) :
      Yields (do return (← expressionsFrom read openEnded expression, false)) c fun r next =>
        next.In text ∧ Declares text lo r next.offset := by
    refine (yields_expressionsFrom hread openEnded hc (hexpression.mono hle)).andThen
      fun e c₁ he => ?_
    exact Yields.pure ⟨he.1, he.2, nofun⟩
  unfold declarationOr
  split
  · refine (spans_supplied? true).bind hcur fun tail c₁ h₁ htail => ?_
    cases tail with
    | some tail =>
      obtain ⟨hstands, hkind⟩ := hdeclaration _ _ htail
      exact Yields.pure ⟨h₁, hstands, fun _ => hkind⟩
    | none =>
      refine (looks_continues closed).bind fun goesOn => ?_
      split
      · exact hgoesOn h₁ htail.le
      · refine looks_noMarkupComment.bind fun _ => ?_
        obtain ⟨hstands, hkind⟩ := hdeclaration [] _ htail
        exact Yields.pure ⟨h₁, hstands, fun _ => hkind⟩
  · exact hgoesOn hcur (Nat.le_refl _)

theorem yields_functionOrClass (hread : Serves text read) (closed : Bool) {marks : List Concrete}
    (hcur : cur.In text) (hmarks : Row text lo marks cur.offset) :
    Yields (functionOrClass read closed marks) cur fun r next =>
      next.In text ∧ Declares text lo r next.offset := by
  unfold functionOrClass
  refine looks_peekWord.bind fun w => ?_
  split
  · refine (spans_functionParts hread true).bind hcur fun parts c₁ h₁ hparts => ?_
    have hparts' := hparts.lower hmarks.le
    exact yields_declarationOr hread closed _ h₁ (fun _ _ => bare_functionDeclaration hparts')
      (stands_functionExpression hparts')
  · refine (yields_classParts hread hcur hmarks).andThen fun parts c₁ hparts => ?_
    exact yields_declarationOr hread closed _ hparts.1
      (fun _ _ => bare_classDeclaration hparts.2) (stands_classExpression hparts.2)

theorem reads_declaration (hread : Serves text read) : Reads text (declaration read) := by
  intro cur hcur
  unfold declaration
  refine (rows_decorators hread).bind hcur fun marks c₁ h₁ hmarks => ?_
  have hvariable (w : String) (hw : w ≠ "" ∧ w ∉ tightKinds) : YieldsFrom text cur.offset
      (if marks.isEmpty then variableDeclaration read w else failure) c₁ := by
    split
    · exact ((states_variableDeclaration hread w hw).yields h₁).mono
        fun t next ht => ⟨ht.1, ht.2.1.lower hmarks.le⟩
    · exact Yields.failure
  refine looks_peekWord.bind fun w => ?_
  split
  · exact hvariable "var" (by decide)
  · exact hvariable "let" (by decide)
  · exact hvariable "const" (by decide)
  · refine (yields_classParts hread h₁ hmarks).andThen fun parts c₂ hparts => ?_
    split
    · refine (spans_supplied? false).bind hparts.1 fun tail c₃ h₃ htail => ?_
      exact Yields.pure ⟨h₃, (bare_classDeclaration hparts.2 htail).1⟩
    · exact Yields.failure
  · split
    · refine (spans_functionParts hread false).bind h₁ fun parts c₂ h₂ hparts => ?_
      split
      · refine (spans_supplied? false).bind h₂ fun tail c₃ h₃ htail => ?_
        exact Yields.pure ⟨h₃, (bare_functionDeclaration (hparts.lower hmarks.le) htail).1⟩
      · exact Yields.failure
    · exact Yields.failure

/-! Exchange between modules -/

theorem lists_fromClause : Lists text fromClause := by
  intro cur hcur
  unfold fromClause
  refine (reads_keyword "from" (by decide)).bind hcur fun kw c₁ h₁ hkw => ?_
  refine (reads_string Token.endsQuoted_string).bind h₁ fun source c₂ h₂ hsource => ?_
  exact Yields.pure ⟨h₂, hkw.chain.append hsource.inRole.chain⟩

theorem lists_exchangedNames {item : Parser Concrete} (hitem : Reads text item) :
    Lists text (exchangedNames item) := by
  intro cur hcur
  unfold exchangedNames
  refine (looks_nextIs _).bind fun isComma => ?_
  split
  · refine (reads_mark "," rfl).bind hcur fun comma c₁ h₁ hcomma => ?_
    refine (reads_mark "\x7d" rfl).bind h₁ fun closing c₂ h₂ hclosing => ?_
    exact Yields.pure ⟨h₂, hcomma.chain.append hclosing.chain⟩
  · exact ((closed_listOf "\x7d" rfl hitem).yields hcur).mono fun ts next hts =>
      ⟨hts.1, hts.2.chain⟩

theorem reads_importSpecifier : Reads text importSpecifier := by
  intro cur hcur
  unfold importSpecifier
  refine reads_exchangedName.bind hcur fun name c₁ h₁ hname => ?_
  refine looks_peekWord.bind fun w => ?_
  split
  · refine (reads_keyword "as" (by decide)).bind h₁ fun kw c₂ h₂ hkw => ?_
    refine (reads_word "identifier" (by decide)).bind h₂ fun localName c₃ h₃ hlocal => ?_
    exact Yields.pure ⟨h₃, hname.inRole.branch (by decide) (hkw.chain.append hlocal.inRole.chain)⟩
  split
  · exact Yields.pure ⟨h₁, hname.inRole.branch (by decide) (.nil (Nat.le_refl _))⟩
  · exact Yields.failure

theorem reads_importedNames : Reads text importedNames := by
  intro cur hcur
  unfold importedNames
  refine (looks_nextIs _).bind fun isStar => ?_
  split
  · refine (reads_mark "*" rfl).bind hcur fun star c₁ h₁ hstar => ?_
    refine (reads_keyword "as" (by decide)).bind h₁ fun kw c₂ h₂ hkw => ?_
    refine (reads_word "identifier" (by decide)).bind h₂ fun name c₃ h₃ hname => ?_
    exact Yields.pure ⟨h₃, hstar.branch (by decide) (hkw.chain.append hname.chain)⟩
  · refine (reads_mark "\x7b" rfl).bind hcur fun opening c₁ h₁ hopening => ?_
    refine (lists_exchangedNames reads_importSpecifier).bind h₁ fun names c₂ h₂ hnames => ?_
    exact Yields.pure ⟨h₂, hopening.branch (by decide) hnames⟩

theorem reads_importClause : Reads text importClause := by
  intro cur hcur
  unfold importClause
  refine (looks_nextIs _).bind fun isList => ?_
  split
  · refine reads_importedNames.bind hcur fun names c₁ h₁ hnames => ?_
    exact Yields.pure ⟨h₁, hnames.branch (by decide) (.nil (Nat.le_refl _))⟩
  · refine (reads_word "identifier" (by decide)).bind hcur fun name c₁ h₁ hname => ?_
    refine (looks_nextIs _).bind fun isComma => ?_
    split
    · refine (reads_mark "," rfl).bind h₁ fun comma c₂ h₂ hcomma => ?_
      refine reads_importedNames.bind h₂ fun names c₃ h₃ hnames => ?_
      exact Yields.pure ⟨h₃, hname.branch (by decide) (hcomma.chain.append hnames.chain)⟩
    · exact Yields.pure ⟨h₁, hname.branch (by decide) (.nil (Nat.le_refl _))⟩

theorem states_importStatement (hread : Serves text read) : States text (importStatement read) := by
  intro cur hcur
  unfold importStatement
  refine (reads_keyword "import" (by decide)).bind hcur fun kw c₁ h₁ hkw => ?_
  refine looks_peek.bind fun cs => ?_
  extract_lets withParts
  have hparts (parts : List Concrete) (c₂ : Cursor) (h₂ : c₂.In text)
      (hparts : Chain text c₁.offset parts c₂.offset) :
      Yields (withParts parts) c₂ fun t next =>
        next.In text ∧ Bare text cur.offset t next.offset := by
    refine Yields.get ?_
    extract_lets withAttributes
    have hattributes (attributes : List Concrete) (c₃ : Cursor) (h₃ : c₃.In text)
        (hattributes : Chain text c₂.offset attributes c₃.offset) :
        Yields (withAttributes attributes) c₃ fun t next =>
          next.In text ∧ Bare text cur.offset t next.offset := by
      refine (spans_terminator false).bind h₃ fun tail c₄ h₄ htail => ?_
      exact Yields.pure ⟨h₄, hkw.bare (by decide) ((hparts.append hattributes).append htail)⟩
    clear_value withAttributes
    have hnone := hattributes [] c₂ h₂ (.nil (Nat.le_refl _))
    split
    · next next question hahead =>
      have hpast := (h₂.ahead hahead).1
      split
      · refine Yields.set ((reads_keyword "with" (by decide)).bind hpast.toIn
          fun mark c₃ h₃ hmark => ?_)
        refine (reads_settled (reads_object hread)).bind h₃ fun e c₄ h₄ he => ?_
        exact Yields.bind (Yields.pure (hattributes _ c₄ h₄
          ((hmark.branch (by decide) he.chain).chain.lower hpast.le)))
      · exact Yields.bind (Yields.pure hnone)
    · exact Yields.bind (Yields.pure hnone)
  clear_value withParts
  split
  · refine (reads_string Token.endsQuoted_string).bind h₁ fun source c₂ h₂ hsource => ?_
    exact Yields.bind (Yields.pure (hparts _ c₂ h₂ hsource.inRole.chain))
  · refine reads_importClause.bind h₁ fun clause c₂ h₂ hclause => ?_
    refine lists_fromClause.bind h₂ fun source c₃ h₃ hsource => ?_
    exact Yields.bind (Yields.pure (hparts _ c₃ h₃ (hclause.chain.append hsource)))

theorem reads_exportSpecifier : Reads text exportSpecifier := by
  intro cur hcur
  unfold exportSpecifier
  refine reads_exchangedName.bind hcur fun name c₁ h₁ hname => ?_
  refine looks_peekWord.bind fun w => ?_
  split
  · refine (reads_keyword "as" (by decide)).bind h₁ fun kw c₂ h₂ hkw => ?_
    refine reads_exchangedName.bind h₂ fun other c₃ h₃ hother => ?_
    exact Yields.pure ⟨h₃, hname.inRole.branch (by decide) (hkw.chain.append hother.inRole.chain)⟩
  · exact Yields.pure ⟨h₁, hname.inRole.branch (by decide) (.nil (Nat.le_refl _))⟩

theorem lists_exported (hread : Serves text read) (isDecorated : Bool) :
    Lists text (exported read isDecorated) := by
  intro cur hcur
  unfold exported
  refine looks_peek.bind fun cs => ?_
  split
  · refine (reads_mark "*" rfl).bind hcur fun star c₁ h₁ hstar => ?_
    refine looks_peekWord.bind fun w => ?_
    extract_lets withFirst
    have hfirst (first : Concrete) (c₂ : Cursor) (h₂ : c₂.In text)
        (hfirst : Stands text cur.offset first c₂.offset) :
        Yields (withFirst first) c₂ fun ts next =>
          next.In text ∧ Chain text cur.offset ts next.offset := by
      refine lists_fromClause.bind h₂ fun source c₃ h₃ hsource => ?_
      refine (spans_terminator false).bind h₃ fun tail c₄ h₄ htail => ?_
      exact Yields.pure ⟨h₄, (hfirst.chain.append hsource).append htail⟩
    clear_value withFirst
    split
    · refine (reads_keyword "as" (by decide)).bind h₁ fun kw c₂ h₂ hkw => ?_
      refine reads_exchangedName.bind h₂ fun name c₃ h₃ hname => ?_
      exact Yields.bind (Yields.pure (hfirst _ c₃ h₃
        (hstar.branch (by decide) (hkw.chain.append hname.chain))))
    · exact Yields.bind (Yields.pure (hfirst star c₁ h₁ hstar))
  split
  · refine (reads_mark "\x7b" rfl).bind hcur fun opening c₁ h₁ hopening => ?_
    refine (lists_exchangedNames reads_exportSpecifier).bind h₁ fun names c₂ h₂ hnames => ?_
    refine Yields.get ?_
    extract_lets withSource
    have hsource (source : List Concrete) (c₃ : Cursor) (h₃ : c₃.In text)
        (hsource : Chain text c₂.offset source c₃.offset) :
        Yields (withSource source) c₃ fun ts next =>
          next.In text ∧ Chain text cur.offset ts next.offset := by
      refine (spans_terminator false).bind h₃ fun tail c₄ h₄ htail => ?_
      have hclause : Stands text cur.offset (branch "export_clause" opening names) c₂.offset :=
        hopening.branch (by decide) hnames
      exact Yields.pure ⟨h₄, (hclause.chain.append hsource).append htail⟩
    clear_value withSource
    have hnone := hsource [] c₂ h₂ (.nil (Nat.le_refl _))
    split
    · next next question hahead =>
      have hpast := (h₂.ahead hahead).1
      split
      · refine Yields.set (lists_fromClause.bind hpast.toIn fun source c₃ h₃ hfrom => ?_)
        exact hsource source c₃ h₃ (hfrom.lower hpast.le)
      · exact Yields.bind (Yields.pure hnone)
    · exact Yields.bind (Yields.pure hnone)
  split
  · refine (reads_keyword "default" (by decide)).bind hcur fun kw c₁ h₁ hkw => ?_
    refine looks_peekWord.bind fun w => ?_
    refine (looks_nextIs _).bind fun isMark => (looks_startsFunction true).bind fun isFunction => ?_
    split
    · refine (rows_decorators hread).bind h₁ fun marks c₂ h₂ hmarks => ?_
      refine (yields_functionOrClass hread false h₂ hmarks).andThen ?_
      rintro ⟨t, isDeclaration⟩ c₃ ⟨h₃, ht, -⟩
      dsimp only
      split
      · exact Yields.pure ⟨h₃, hkw.chain.append ht.inRole.chain⟩
      · refine (spans_terminator true).bind h₃ fun tail c₄ h₄ htail => ?_
        exact Yields.pure ⟨h₄, hkw.chain.append (ht.inRole.chain.append htail)⟩
    refine (looks_declaresLet true).bind fun isLet => ?_
    split
    · refine (reads_declaration hread).bind h₁ fun t c₂ h₂ ht => ?_
      exact Yields.pure ⟨h₂, hkw.chain.append ht.inRole.chain⟩
    · refine (reads_expressions hread openEnded).bind h₁ fun value c₂ h₂ hvalue => ?_
      split
      · exact Yields.failure
      · refine (spans_terminator true).bind h₂ fun tail c₃ h₃ htail => ?_
        exact Yields.pure ⟨h₃, hkw.chain.append (hvalue.inRole.chain.append htail)⟩
  · refine (reads_declaration hread).bind hcur fun t c₁ h₁ ht => ?_
    exact Yields.pure ⟨h₁, ht.inRole.chain⟩

theorem yields_exportStatement (hread : Serves text read) {marks : List Concrete}
    (hcur : cur.In text) (hmarks : Row text lo marks cur.offset) :
    Yields (exportStatement read marks) cur fun t next =>
      next.In text ∧ Bare text lo t next.offset := by
  unfold exportStatement
  refine (reads_keyword "export" (by decide)).bind hcur fun kw c₁ h₁ hkw => ?_
  refine (lists_exported hread _).bind h₁ fun parts c₂ h₂ hparts => ?_
  have hrow := hmarks.append (hkw.row hparts)
  unfold memberNode
  split
  · next heq =>
    rw [heq] at hrow
    exact Yields.pure ⟨h₂, hrow.bare (by decide)⟩
  · exact Yields.failure

theorem looks_startsExport : Looks startsExport := by
  intro cur
  unfold startsExport
  refine Yields.get ?_
  dsimp only
  split <;> exact Yields.pure rfl

/-! Control -/

theorem reads_body (hread : Serves text read) (closed : Bool) : Reads text (body read closed) := by
  intro cur hcur
  unfold body
  refine (hread _).bind hcur fun t next hnext ht => ?_
  exact Yields.pure ⟨hnext, ht.inRole⟩

theorem states_ifStatement (hread : Serves text read) (closed : Bool) :
    States text (ifStatement read closed) := by
  intro cur hcur
  unfold ifStatement
  refine (reads_keyword "if" (by decide)).bind hcur fun kw c₁ h₁ hkw => ?_
  refine (reads_condition hread).bind h₁ fun test c₂ h₂ htest => ?_
  refine (hread _).bind h₂ fun consequence c₃ h₃ hconsequence => ?_
  refine looks_peekWord.bind fun w => ?_
  split
  · refine (reads_keyword "else" (by decide)).bind h₃ fun other c₄ h₄ hother => ?_
    refine (hread _).bind h₄ fun alternative c₅ h₅ halternative => ?_
    have hclause : Stands text c₃.offset (branch "else_clause" other [alternative]) c₅.offset :=
      hother.branch (by decide) halternative.chain
    exact Yields.pure ⟨h₅, hkw.bare (by decide) (htest.inRole.chain.append
      (hconsequence.inRole.chain.append hclause.inRole.chain))⟩
  · exact Yields.pure ⟨h₃, hkw.bare (by decide)
      (htest.inRole.chain.append hconsequence.inRole.chain)⟩

theorem reads_switchCase (hread : Serves text read) : Reads text (switchCase read) := by
  intro cur hcur
  unfold switchCase
  extract_lets statements
  have hstatements : Lists text statements := by
    refine lists_many fun cur hcur => ?_
    refine looks_peekWord.bind fun w => ?_
    refine (looks_nextIs _).bind fun isEnd => ?_
    split
    · exact Yields.pure ⟨hcur, .nil (Nat.le_refl _)⟩
    · refine (hread _).bind hcur fun t next hnext ht => ?_
      exact Yields.pure ⟨hnext, ht.inRole.chain⟩
  clear_value statements
  refine looks_peekWord.bind fun w => ?_
  split
  · refine (reads_keyword "case" (by decide)).bind hcur fun kw c₁ h₁ hkw => ?_
    refine (reads_innerExpressions hread).bind h₁ fun value c₂ h₂ hvalue => ?_
    refine (reads_mark ":" rfl).bind h₂ fun colon c₃ h₃ hcolon => ?_
    refine hstatements.bind h₃ fun body c₄ h₄ hbody => ?_
    exact Yields.pure ⟨h₄, hkw.branch (by decide)
      (hvalue.inRole.chain.append (hcolon.chain.append hbody))⟩
  · refine (reads_keyword "default" (by decide)).bind hcur fun kw c₁ h₁ hkw => ?_
    refine (reads_mark ":" rfl).bind h₁ fun colon c₂ h₂ hcolon => ?_
    refine hstatements.bind h₂ fun body c₃ h₃ hbody => ?_
    exact Yields.pure ⟨h₃, hkw.branch (by decide) (hcolon.chain.append hbody)⟩

theorem states_switchStatement (hread : Serves text read) : States text (switchStatement read) := by
  intro cur hcur
  unfold switchStatement
  refine (reads_keyword "switch" (by decide)).bind hcur fun kw c₁ h₁ hkw => ?_
  refine (reads_condition hread).bind h₁ fun value c₂ h₂ hvalue => ?_
  refine (reads_mark "\x7b" rfl).bind h₂ fun opening c₃ h₃ hopening => ?_
  refine (lists_many ?_).bind h₃ fun cases c₄ h₄ hcases => ?_
  · intro cur hcur
    refine (looks_nextIs _).bind fun isEnd => ?_
    split
    · exact Yields.pure ⟨hcur, .nil (Nat.le_refl _)⟩
    · exact Yields.map (((reads_switchCase hread).yields hcur).mono fun t next ht =>
        ⟨ht.1, ht.2.chain⟩)
  · refine (reads_mark "\x7d" rfl).bind h₄ fun closing c₅ h₅ hclosing => ?_
    have hbody : Stands text c₂.offset (branch "switch_body" opening (cases ++ [closing]))
        c₅.offset := hopening.branch (by decide) (hcases.append hclosing.chain)
    exact Yields.pure ⟨h₅, hkw.bare (by decide) (hvalue.inRole.chain.append hbody.inRole.chain)⟩

theorem reads_loopOperator : Reads text loopOperator := by
  intro cur hcur
  unfold loopOperator
  refine looks_peekWord.bind fun w => ?_
  split
  · refine (reads_keyword "in" (by decide)).bind hcur fun kw c₁ h₁ hkw => ?_
    exact Yields.pure ⟨h₁, hkw.inRole⟩
  · refine (reads_keyword "of" (by decide)).bind hcur fun kw c₁ h₁ hkw => ?_
    exact Yields.pure ⟨h₁, hkw.inRole⟩
  · exact Yields.failure

theorem yields_declaresLoopLet (cur : Cursor) :
    Yields declaresLoopLet cur fun isLet next => next = cur ∧
      (isLet = true → Token.wordText cur.skipTrivia.rest = "let") := by
  unfold declaresLoopLet
  have hlet : Yields (declaresLet false) cur fun isLet next => next = cur ∧
      (isLet = true → Token.wordText cur.skipTrivia.rest = "let") := by
    unfold declaresLet
    refine Yields.peekWord ?_
    split
    · next hword =>
      rw [beq_iff_eq] at hword
      refine Yields.get ?_
      dsimp only
      split
      · exact Yields.pure ⟨rfl, nofun⟩
      · exact Yields.pure ⟨rfl, fun _ => hword⟩
    · exact Yields.pure ⟨rfl, nofun⟩
  refine hlet.andThen ?_
  rintro isLet _ ⟨rfl, hword⟩
  split
  · next hisLet => exact Yields.get (Yields.pure ⟨rfl, fun _ => hword hisLet⟩)
  · exact Yields.pure ⟨rfl, nofun⟩

theorem lists_loopVariable (hread : Serves text read) (awaited : Bool) :
    Lists text (loopVariable read awaited) := by
  unfold loopVariable
  extract_lets declared taken assigned declaredHead assignedHead
  have hdeclared : Lists text declared := by
    intro cur hcur
    refine looks_peekWord.bind fun w => ?_
    split
    · refine (reads_keyword "var" (by decide)).bind hcur fun kw c₁ h₁ hkw => ?_
      refine (reads_bound hread).bind h₁ fun name c₂ h₂ hname => Yields.get ?_
      split
      · exact Yields.failure
      next next question hahead =>
      have hpast := (h₂.ahead hahead).1
      split
      · refine Yields.set ((spans_leaf "=" 1 (by decide)).bind hpast.toIn fun eq c₃ h₃ heq => ?_)
        refine (reads_settled (hread _)).bind h₃ fun value c₄ h₄ hvalue => ?_
        exact Yields.pure ⟨h₄, hkw.inRole.chain.append (hname.inRole.chain.append
          ((heq.append hvalue.inRole.chain).lower hpast.le))⟩
      · exact Yields.pure ⟨h₂, hkw.inRole.chain.append hname.inRole.chain⟩
    · refine (yields_declaresLoopLet cur).andThen ?_
      rintro isLet _ ⟨rfl, -⟩
      split
      · next hw =>
        have hkeyword : w ≠ "" ∧ w ∉ tightKinds := by
          simp only [Bool.or_eq_true, Bool.and_eq_true, beq_iff_eq] at hw
          rcases hw with rfl | ⟨rfl, -⟩ <;> decide
        refine (reads_keyword w hkeyword).bind hcur fun kw c₁ h₁ hkw => ?_
        refine (reads_bound hread).bind h₁ fun name c₂ h₂ hname => ?_
        refine (spans_supplied? false).bind h₂ fun tail c₃ h₃ htail => ?_
        exact Yields.pure ⟨h₃, hkw.inRole.chain.append (hname.inRole.chain.append htail)⟩
      · exact Yields.failure
  have hassigned : Lists text assigned := by
    intro cur hcur
    refine looks_peekWord.bind fun w => ?_
    split
    · exact Yields.bind Yields.failure
    · refine (reads_operand hread _ true).bind hcur fun e c₁ h₁ he => ?_
      split
      · next t ht => exact Yields.pure ⟨h₁, (he.assignee ht).inRole.chain⟩
      · exact Yields.failure
  have hhead {p : Parser (List Concrete)} (hp : Lists text p) :
      Lists text (do return (← p) ++ [← loopOperator]) := by
    intro cur hcur
    refine hp.bind hcur fun parts c₁ h₁ hparts => ?_
    refine reads_loopOperator.bind h₁ fun op c₂ h₂ hop => ?_
    exact Yields.pure ⟨h₂, hparts.append hop.chain⟩
  split
  · exact (hhead hassigned).orElse (hhead hdeclared)
  · exact (hhead hdeclared).orElse (hhead hassigned)

theorem yields_forInStatement (hread : Serves text read) (closed : Bool) {kw : Concrete}
    (hcur : cur.In text) (hkw : Stands text lo kw cur.offset) :
    Yields (forInStatement read closed kw) cur fun t next =>
      next.In text ∧ Bare text lo t next.offset := by
  unfold forInStatement
  refine looks_peekWord.bind fun w => ?_
  extract_lets withAwait
  have hawait (await : List Concrete) (c₁ : Cursor) (h₁ : c₁.In text)
      (hawait : Chain text cur.offset await c₁.offset) :
      Yields (withAwait await) c₁ fun t next => next.In text ∧ Bare text lo t next.offset := by
    refine (reads_mark "(" rfl).bind h₁ fun opening c₂ h₂ hopening => ?_
    refine (lists_loopVariable hread _).bind h₂ fun head c₃ h₃ hhead => ?_
    refine (reads_innerExpressions hread).bind h₃ fun right c₄ h₄ hright => ?_
    refine (reads_mark ")" rfl).bind h₄ fun closing c₅ h₅ hclosing => ?_
    refine (reads_body hread closed).bind h₅ fun inside c₆ h₆ hinside => ?_
    refine Yields.pure ⟨h₆, hkw.bare (by decide) ?_⟩
    exact (hawait.append (hopening.chain.append hhead)).append
      (hright.inRole.chain.append (hclosing.chain.append hinside.chain))
  clear_value withAwait
  split
  · refine (reads_keyword "await" (by decide)).bind hcur fun await c₁ h₁ hword => ?_
    exact Yields.bind (Yields.pure (hawait [await] c₁ h₁ hword.chain))
  · exact Yields.bind (Yields.pure (hawait [] cur hcur (.nil (Nat.le_refl _))))

theorem lists_loopPart (hread : Serves text read) (role : Role) :
    Lists text (loopPart read role) := by
  intro cur hcur
  unfold loopPart
  refine (looks_nextIs _).bind fun isEmpty => ?_
  split
  · refine (reads_mark ";" rfl).bind hcur fun semicolon c₁ h₁ hsemicolon => ?_
    have hempty : Stands text cur.offset (branch "empty_statement" semicolon []) c₁.offset :=
      hsemicolon.branch (by decide) (.nil (Nat.le_refl _))
    exact Yields.pure ⟨h₁, hempty.inRole.chain⟩
  · refine (reads_innerExpressions hread).bind hcur fun e c₁ h₁ he => ?_
    refine (reads_mark ";" rfl).bind h₁ fun semicolon c₂ h₂ hsemicolon => ?_
    exact Yields.pure ⟨h₂, he.inRole.chain.append hsemicolon.chain⟩

theorem yields_forStatement (hread : Serves text read) (closed : Bool) {kw : Concrete}
    (hcur : cur.In text) (hkw : Stands text lo kw cur.offset) :
    Yields (forStatement read closed kw) cur fun t next =>
      next.In text ∧ Bare text lo t next.offset := by
  unfold forStatement
  refine (reads_mark "(" rfl).bind hcur fun opening c₁ h₁ hopening => ?_
  refine Yields.peekWord ((yields_declaresLoopLet c₁).andThen ?_)
  rintro isLet c ⟨hc, hlet⟩
  subst hc
  extract_lets withStart
  have hstart (start : List Concrete) (c₂ : Cursor) (h₂ : c₂.In text)
      (hstart : Chain text c.offset start c₂.offset) :
      Yields (withStart start) c₂ fun t next => next.In text ∧ Bare text lo t next.offset := by
    refine (lists_loopPart hread .condition).bind h₂ fun test c₃ h₃ htest => ?_
    refine (looks_nextIs _).bind fun isEnd => ?_
    extract_lets withStep
    have hstep (step : List Concrete) (c₄ : Cursor) (h₄ : c₄.In text)
        (hstep : Chain text c₃.offset step c₄.offset) :
        Yields (withStep step) c₄ fun t next => next.In text ∧ Bare text lo t next.offset := by
      refine (reads_mark ")" rfl).bind h₄ fun closing c₅ h₅ hclosing => ?_
      refine (reads_body hread closed).bind h₅ fun inside c₆ h₆ hinside => ?_
      refine Yields.pure ⟨h₆, hkw.bare (by decide) ?_⟩
      exact (((hopening.chain.append hstart).append htest).append hstep).append
        (hclosing.chain.append hinside.chain)
    clear_value withStep
    split
    · exact Yields.bind (Yields.pure (hstep [] c₃ h₃ (.nil (Nat.le_refl _))))
    · refine (reads_innerExpressions hread).bind h₃ fun e c₄ h₄ he => ?_
      exact Yields.bind (Yields.pure (hstep _ c₄ h₄ he.inRole.chain))
  clear_value withStart
  split
  · next hw =>
    have hkeyword : Token.wordText c.skipTrivia.rest ≠ "" ∧
        Token.wordText c.skipTrivia.rest ∉ tightKinds := by
      simp only [Bool.or_eq_true, beq_iff_eq] at hw
      rcases hw with (hvar | hconst) | hlet'
      · rw [hvar]
        decide
      · rw [hconst]
        decide
      · rw [hlet hlet']
        decide
    refine (states_variableDeclaration hread _ hkeyword).bind h₁ fun t c₂ h₂ ht => ?_
    exact Yields.bind (Yields.pure (hstart _ c₂ h₂ ht.1.inRole.chain))
  · exact (lists_loopPart hread .initializer).bind h₁ hstart

theorem states_doStatement (hread : Serves text read) : States text (doStatement read) := by
  intro cur hcur
  unfold doStatement
  refine (reads_keyword "do" (by decide)).bind hcur fun kw c₁ h₁ hkw => ?_
  refine (reads_body hread true).bind h₁ fun inside c₂ h₂ hinside => ?_
  refine (reads_keyword "while" (by decide)).bind h₂ fun again c₃ h₃ hagain => ?_
  refine (reads_condition hread).bind h₃ fun test c₄ h₄ htest => Yields.get ?_
  have htail : Yields ((do pure [← terminator false]) <|> (do set c₄; pure [])) c₄ fun tail next =>
      next.In text ∧ Chain text c₄.offset tail next.offset := by
    refine Yields.orElse ?_ (Yields.set (Yields.pure ⟨h₄, .nil (Nat.le_refl _)⟩))
    refine (spans_terminator false).bind h₄ fun tail c₅ h₅ htail => ?_
    exact Yields.pure ⟨h₅, htail⟩
  refine htail.andThen fun tail c₅ htail => ?_
  exact Yields.pure ⟨htail.1, hkw.bare (by decide) (hinside.chain.append (hagain.chain.append
    (htest.inRole.chain.append htail.2)))⟩

theorem states_tryStatement (hread : Serves text read) : States text (tryStatement read) := by
  intro cur hcur
  unfold tryStatement
  refine (reads_keyword "try" (by decide)).bind hcur fun kw c₁ h₁ hkw => ?_
  refine (hread _).bind h₁ fun inside c₂ h₂ hinside => ?_
  refine looks_peekWord.bind fun w => ?_
  extract_lets withHandler
  have hhandler (handler : List Concrete) (c₃ : Cursor) (h₃ : c₃.In text)
      (hhandler : Chain text c₂.offset handler c₃.offset) :
      Yields (withHandler handler) c₃ fun t next =>
        next.In text ∧ Bare text cur.offset t next.offset := by
    refine looks_peekWord.bind fun w => ?_
    extract_lets withFinalizer
    have hfinalizer (finalizer : List Concrete) (c₄ : Cursor) (h₄ : c₄.In text)
        (hfinalizer : Chain text c₃.offset finalizer c₄.offset) :
        Yields (withFinalizer finalizer) c₄ fun t next =>
          next.In text ∧ Bare text cur.offset t next.offset :=
      Yields.pure ⟨h₄, hkw.bare (by decide)
        ((hinside.inRole.chain.append hhandler).append hfinalizer)⟩
    clear_value withFinalizer
    split
    · refine (reads_keyword "finally" (by decide)).bind h₃ fun word c₄ h₄ hword => ?_
      refine (hread _).bind h₄ fun body c₅ h₅ hbody => ?_
      have hclause : Stands text c₃.offset (branch "finally_clause" word [body.inRole .body])
          c₅.offset := hword.branch (by decide) hbody.inRole.chain
      exact Yields.bind (Yields.pure (hfinalizer _ c₅ h₅ hclause.inRole.chain))
    · exact Yields.bind (Yields.pure (hfinalizer [] c₃ h₃ (.nil (Nat.le_refl _))))
  clear_value withHandler
  split
  · refine (reads_keyword "catch" (by decide)).bind h₂ fun word c₃ h₃ hword => ?_
    refine (looks_nextIs _).bind fun isParameter => ?_
    extract_lets withParameter
    have hparameter (param : List Concrete) (c₄ : Cursor) (h₄ : c₄.In text)
        (hparam : Chain text c₃.offset param c₄.offset) :
        Yields (withParameter param) c₄ fun t next =>
          next.In text ∧ Bare text cur.offset t next.offset := by
      refine (hread _).bind h₄ fun body c₅ h₅ hbody => ?_
      have hclause : Stands text c₂.offset
          (branch "catch_clause" word (param ++ [body.inRole .body])) c₅.offset :=
        hword.branch (by decide) (hparam.append hbody.inRole.chain)
      exact Yields.bind (Yields.pure (hhandler _ c₅ h₅ hclause.inRole.chain))
    clear_value withParameter
    split
    · refine (reads_mark "(" rfl).bind h₃ fun opening c₄ h₄ hopening => ?_
      refine (reads_bound hread).bind h₄ fun name c₅ h₅ hname => ?_
      refine (reads_mark ")" rfl).bind h₅ fun closing c₆ h₆ hclosing => ?_
      exact Yields.bind (Yields.pure (hparameter _ c₆ h₆
        (hopening.chain.append (hname.inRole.chain.append hclosing.chain))))
    · exact Yields.bind (Yields.pure (hparameter [] c₃ h₃ (.nil (Nat.le_refl _))))
  · exact Yields.bind (Yields.pure (hhandler [] c₂ h₂ (.nil (Nat.le_refl _))))

theorem states_jump (w kind : String) (hw : w ≠ "" ∧ w ∉ tightKinds)
    (hkind : kind ∉ tightKinds ∧ kind ≠ "parenthesized_expression") :
    States text (jump w kind) := by
  intro cur hcur
  unfold jump
  refine (reads_keyword w hw).bind hcur fun kw c₁ h₁ hkw => Yields.get ?_
  have hplain : Yields (do return branch kind kw [← terminator false]) c₁ fun t next =>
      next.In text ∧ Bare text cur.offset t next.offset := by
    refine (spans_terminator false).bind h₁ fun tail c₂ h₂ htail => ?_
    exact Yields.pure ⟨h₂, hkw.bare hkind htail⟩
  split
  · split
    · refine (reads_word "statement_identifier" (by decide)).bind h₁ fun label c₂ h₂ hlabel => ?_
      refine (spans_terminator false).bind h₂ fun tail c₃ h₃ htail => ?_
      exact Yields.pure ⟨h₃, hkw.bare hkind (hlabel.inRole.chain.append htail)⟩
    · exact hplain
  · exact hplain

theorem states_returnStatement (hread : Serves text read) : States text (returnStatement read) := by
  intro cur hcur
  unfold returnStatement
  refine (reads_keyword "return" (by decide)).bind hcur fun kw c₁ h₁ hkw => Yields.get ?_
  have hplain : Yields (do return branch "return_statement" kw [← terminator false]) c₁
      fun t next => next.In text ∧ Bare text cur.offset t next.offset := by
    refine (spans_terminator false).bind h₁ fun tail c₂ h₂ htail => ?_
    exact Yields.pure ⟨h₂, hkw.bare (by decide) htail⟩
  split
  · split
    · exact hplain
    · refine looks_noMarkupComment.bind fun _ => ?_
      refine (reads_expressions hread openEnded).bind h₁ fun e c₂ h₂ he => ?_
      refine (spans_terminator true).bind h₂ fun tail c₃ h₃ htail => ?_
      exact Yields.pure ⟨h₃, hkw.bare (by decide) (he.chain.append htail)⟩
  · exact hplain

theorem states_throwStatement (hread : Serves text read) : States text (throwStatement read) := by
  intro cur hcur
  unfold throwStatement
  refine (reads_keyword "throw" (by decide)).bind hcur fun kw c₁ h₁ hkw => ?_
  refine (reads_expressions hread openEnded).bind h₁ fun e c₂ h₂ he => ?_
  refine (spans_terminator true).bind h₂ fun tail c₃ h₃ htail => ?_
  exact Yields.pure ⟨h₃, hkw.bare (by decide) (he.chain.append htail)⟩

theorem states_conditional (hread : Serves text read) (closed : Bool) (w kind : String)
    (role : Role) (hw : w ≠ "" ∧ w ∉ tightKinds)
    (hkind : kind ∉ tightKinds ∧ kind ≠ "parenthesized_expression") :
    States text (conditional read closed w kind role) := by
  intro cur hcur
  unfold conditional
  refine (reads_keyword w hw).bind hcur fun kw c₁ h₁ hkw => ?_
  refine (reads_condition hread).bind h₁ fun test c₂ h₂ htest => ?_
  refine (reads_body hread closed).bind h₂ fun inside c₃ h₃ hinside => ?_
  exact Yields.pure ⟨h₃, hkw.bare hkind (htest.inRole.chain.append hinside.chain)⟩

theorem looks_startsLabel : Looks startsLabel := by
  intro cur
  unfold startsLabel
  refine Yields.get ?_
  dsimp only
  split <;> exact Yields.pure rfl

theorem states_labelOrExpression (hread : Serves text read) (closed : Bool) :
    States text (labelOrExpression read closed) := by
  intro cur hcur
  unfold labelOrExpression
  refine looks_peekWord.bind fun w => looks_startsLabel.bind fun isLabel => ?_
  split
  · refine (reads_word "statement_identifier" (by decide)).bind hcur fun label c₁ h₁ hlabel => ?_
    refine (reads_mark ":" rfl).bind h₁ fun colon c₂ h₂ hcolon => ?_
    refine (reads_body hread closed).bind h₂ fun inside c₃ h₃ hinside => ?_
    exact Yields.pure ⟨h₃, hlabel.inRole.bare (by decide) (hcolon.chain.append hinside.chain)⟩
  · exact (states_expressionStatement hread).yields hcur

/-! All statements -/

theorem yields_withTerminator {r : Concrete × Bool} (hcur : cur.In text)
    (hr : Declares text lo r cur.offset) :
    Yields (statement.withTerminator r) cur fun t next =>
      next.In text ∧ Bare text lo t next.offset := by
  obtain ⟨t, isDeclaration⟩ := r
  obtain ⟨ht, hkind⟩ := hr
  cases isDeclaration with
  | true => exact Yields.pure ⟨hcur, ht, hkind rfl⟩
  | false =>
    refine (spans_terminator true).bind hcur fun tail c₁ h₁ htail => ?_
    exact Yields.pure ⟨h₁, ht.bare (by decide) htail⟩

theorem states_statement (hread : Serves text read) (closed : Bool) :
    States text (statement read closed) := by
  intro cur hcur
  have hdeclares (marks : List Concrete) (c : Cursor) (hc : c.In text)
      (hmarks : Row text cur.offset marks c.offset) :
      Yields (do statement.withTerminator (← functionOrClass read closed marks)) c fun t next =>
        next.In text ∧ Bare text cur.offset t next.offset :=
    (yields_functionOrClass hread closed hc hmarks).andThen fun r c₁ hr =>
      yields_withTerminator hr.1 hr.2
  have hnone : Row text cur.offset [] cur.offset := .nil (Nat.le_refl _)
  unfold statement
  refine looks_peekChar.bind fun c => ?_
  split
  · exact (states_braced hread closed).yields hcur
  · refine (reads_mark ";" rfl).bind hcur fun semicolon c₁ h₁ hsemicolon => ?_
    exact Yields.pure ⟨h₁, hsemicolon.bare (by decide) (.nil (Nat.le_refl _))⟩
  · refine (rows_decorators hread).bind hcur fun marks c₁ h₁ hmarks => ?_
    refine looks_peekWord.bind fun w => ?_
    split
    · exact yields_exportStatement hread h₁ hmarks
    · exact hdeclares marks c₁ h₁ hmarks
  refine looks_peekWord.bind fun w => ?_
  split
  · refine Yields.get ?_
    dsimp only
    split
    · exact (states_expressionStatement hread).yields hcur
    · exact (states_importStatement hread).yields hcur
  · refine looks_startsExport.bind fun isExport => ?_
    split
    · exact yields_exportStatement hread hcur hnone
    · exact (states_labelOrExpression hread closed).yields hcur
  · exact (states_variableDeclaration hread "var" (by decide)).yields hcur
  · exact (states_variableDeclaration hread "const" (by decide)).yields hcur
  · refine (looks_declaresLet true).bind fun isLet => ?_
    split
    · exact (states_variableDeclaration hread "let" (by decide)).yields hcur
    · exact (states_labelOrExpression hread closed).yields hcur
  · refine (reads_keyword "debugger" (by decide)).bind hcur fun kw c₁ h₁ hkw => ?_
    refine (spans_terminator false).bind h₁ fun tail c₂ h₂ htail => ?_
    exact Yields.pure ⟨h₂, hkw.bare (by decide) htail⟩
  · exact (states_ifStatement hread closed).yields hcur
  · exact (states_switchStatement hread).yields hcur
  · refine (reads_keyword "for" (by decide)).bind hcur fun kw c₁ h₁ hkw => ?_
    exact (yields_forInStatement hread closed h₁ hkw).orElse
      (yields_forStatement hread closed h₁ hkw)
  · exact (states_conditional hread closed "while" "while_statement" .condition (by decide)
      (by decide)).yields hcur
  · exact (states_doStatement hread).yields hcur
  · exact (states_tryStatement hread).yields hcur
  · exact (states_conditional hread closed "with" "with_statement" .object (by decide)
      (by decide)).yields hcur
  · exact (states_jump "break" "break_statement" (by decide) (by decide)).yields hcur
  · exact (states_jump "continue" "continue_statement" (by decide) (by decide)).yields hcur
  · exact (states_returnStatement hread).yields hcur
  · exact (states_throwStatement hread).yields hcur
  · exact hdeclares [] cur hcur hnone
  · refine (looks_startsFunction true).bind fun isFunction => ?_
    split
    · exact hdeclares [] cur hcur hnone
    · exact (states_labelOrExpression hread closed).yields hcur

end Flavoring.JavaScript.Parser
