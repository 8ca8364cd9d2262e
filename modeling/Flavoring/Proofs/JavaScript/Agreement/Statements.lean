import Flavoring.JavaScript.Parser.Statement
import Flavoring.Proofs.JavaScript.Agreement.Expressions

/-! Agreement on statements. -/

namespace Flavoring.JavaScript.Parser

open Concrete
open Cursor (Before Facing)

variable {m n : Nat} {cur cur' : Cursor} {read read' : Reader} {t t' : Concrete}
  {ts ts' : List Concrete}

/-! Expressions and blocks -/

theorem leads_expressionStatement (hread : Alike m read read') :
    Leads m unplaced (expressionStatement read) (expressionStatement read') := by
  intro cur cur' hcur
  unfold expressionStatement
  refine (leads_expressions hread openEnded).bind hcur fun e e' c₁ c₁' he h₁ => ?_
  refine (stays_terminator true).bind h₁ fun tail tail' c₂ c₂' htail h₂ => ?_
  exact .pure ⟨by simp [he, htail], h₂⟩

theorem leads_block (hread : Alike m read read') (afterOperand : Bool) :
    Leads m unplaced (block read afterOperand) (block read' afterOperand) := by
  intro cur cur' hcur
  unfold block
  refine (leads_mark (by decide)).bind hcur fun opening opening' c₁ c₁' hopening h₁ => ?_
  refine (stays_many unplaced fun j hj cur cur' hcur => ?_).bind h₁
    fun body body' c₂ c₂' hbody h₂ => ?_
  · refine (see_nextIs _ hcur.facing).see fun isEnd => ?_
    split
    · exact .stop hcur
    · exact (hread _ j hj cur cur' hcur).turn
  · refine (leads_mark (by decide)).stays.bind h₂ fun closing closing' c₃ c₃' hclosing h₃ => ?_
    refine (stays_supplied? afterOperand).bind h₃ fun tail tail' c₄ c₄' htail h₄ => ?_
    exact .pure ⟨by simp [hopening, hbody, hclosing, ← Option.toList_map, htail], h₄⟩

theorem see_continues (closed : Bool) (h : Before n cur cur') :
    Agree (continues closed) (continues closed) cur cur' (Same cur cur') := by
  have hsame (b : Bool) : Agree (pure b) (pure b) cur cur' (Same cur cur') := .pure ⟨rfl, rfl, rfl⟩
  unfold continues
  refine .get ?_
  rcases h.ahead? false true with
    ⟨hahead, hahead'⟩ | ⟨next, next', question, hahead, hahead', hnext⟩
  · rw [hahead, hahead']
    exact hsame _
  · rw [hahead, hahead']
    dsimp only
    rw [hnext.rest]
    split
    · exact hsame _
    split
    · exact hsame _
    · exact hsame _

theorem leads_braced (hread : Alike m read read') (closed : Bool) :
    Leads m unplaced (braced read closed) (braced read' closed) := by
  intro cur cur' hcur
  have hexpression := leads_expressionStatement hread cur cur' hcur
  have hblock := leads_block hread false cur cur' hcur
  unfold braced
  refine .get ((see_braces hcur).see fun braces => ?_)
  cases braces with
  | empty =>
    dsimp only
    refine (leads_block hread true).bind hcur fun b b' c₁ c₁' hb h₁ => ?_
    have hended : ((b'.children.getLast?.map (·.kind == "")).getD false) =
        ((b.children.getLast?.map (·.kind == "")).getD false) := by
      have hkinds (us : List Concrete) : us.getLast?.map (·.kind == "") =
          (us.map kind).getLast?.map (· == "") := by
        rw [List.getLast?_map, Option.map_map]
        rfl
      rw [hkinds, hkinds, map_kind_congr (children_congr hb)]
    have hdone : Agree (pure b) (pure b') c₁ c₁' (Reach m unplaced) := .pure ⟨hb, h₁⟩
    rw [hended]
    refine (see_continues closed h₁).see fun goesOn => ?_
    split
    · exact .set hexpression
    split
    · exact (see_noMarkupComment h₁).see fun _ => hdone
    · exact hdone
  | members => exact hexpression.orElse hblock
  | assignment => exact hexpression.severalFirst.orElse hblock
  | call plain =>
    cases plain with
    | true => exact hexpression.orElse hblock
    | false => exact hblock.orElse hexpression
  | statements => exact hblock

/-! Declarations -/

theorem leads_bound (hread : Alike m read read') :
    Leads m unplaced (bound read) (bound read') := by
  intro cur cur' hcur
  unfold bound
  have htaken (t t' : Concrete) (c c' : Cursor) (ht : t'.unplaced = t.unplaced) (hc : Before m c c') :
      Agree (bound.taken t) (bound.taken t') c c' (Reach m unplaced) := by
    unfold bound.taken
    rcases pattern?_cases .target ht with ⟨hnone, hnone'⟩ | ⟨p, p', hsome, hsome', hp⟩
    · rw [hnone, hnone']
      exact .failure
    · rw [hsome, hsome']
      exact .pure ⟨hp, hc⟩
  refine (see_peekChar hcur).see fun c => ?_
  split
  · exact (leads_array hread).bind hcur htaken
  · exact (leads_object hread).bind hcur htaken
  · exact leads_word _ cur cur' hcur

-- What a declarator reads, without places.
def viewPair (r : Concrete × Bool) : Concrete × Bool := (r.1.unplaced, r.2)

theorem leads_declarator (hread : Alike m read read') :
    Leads m viewPair (declarator read) (declarator read') := by
  intro cur cur' hcur
  unfold declarator
  refine (leads_bound hread).bind hcur fun name name' c₁ c₁' hname h₁ => .get ?_
  have hbare : Agree (pure (branch "variable_declarator" (name.inRole .name) [], false))
      (pure (branch "variable_declarator" (name'.inRole .name) [], false)) c₁ c₁'
      (Reach m viewPair) := .pure ⟨by simp [viewPair, hname], h₁⟩
  rcases h₁.ahead? true false with
    ⟨hahead, hahead'⟩ | ⟨next, next', question, hahead, hahead', hnext⟩
  · rw [hahead, hahead']
    exact hbare
  · rw [hahead, hahead']
    dsimp only
    rw [hnext.rest]
    split
    · refine .set ((stays_leaf "=" .anonymous 1).bind hnext fun eq eq' c₂ c₂' heq h₂ => ?_)
      refine (hread _).settled.stays.bind h₂ fun value value' c₃ c₃' hvalue h₃ => ?_
      exact .pure ⟨by simp [viewPair, hname, heq, hvalue], h₃⟩
    · exact hbare

-- The declarators of a declaration, and whether the last one has a value.
def viewRow (r : List Concrete × Bool) : List Concrete × Bool := (r.1.map unplaced, r.2)

theorem agree_variableDeclaration (hread : Alike m read read') {w : String}
    (hkeyword : Agree (keyword w) (keyword w) cur cur' (Reach m unplaced)) :
    Agree (variableDeclaration read w) (variableDeclaration read' w) cur cur' (Reach m unplaced) := by
  unfold variableDeclaration
  refine hkeyword.andThen fun kw kw' c₁ c₁' ⟨hkw, h₁⟩ => ?_
  refine (leads_declarator hread).stays.bind h₁ fun first first' c₂ c₂' hfirst h₂ => ?_
  obtain ⟨hfirst, hvalue⟩ := Prod.mk.inj hfirst
  have hstart : viewRow ([first'.1], first'.2) = viewRow ([first.1], first.2) := by
    simp [viewRow, hfirst, hvalue]
  refine (stays_grow (fun row row' hrow j hj cur cur' hcur => ?_) hstart).bind h₂
    fun row row' c₃ c₃' hrow h₃ => ?_
  · obtain ⟨parts, hasValue⟩ := row
    obtain ⟨parts', hasValue'⟩ := row'
    simp only [viewRow, Prod.mk.injEq] at hrow
    obtain ⟨hparts, rfl⟩ := hrow
    dsimp only
    refine .get ?_
    rcases hcur.ahead? true hasValue' with
      ⟨hahead, hahead'⟩ | ⟨next, next', question, hahead, hahead', hnext⟩
    · rw [hahead, hahead']
      exact .stop hcur
    · rw [hahead, hahead']
      dsimp only
      rw [hnext.rest]
      split
      · refine .set ((stays_leaf "," .anonymous 1).bind hnext fun comma comma' c₄ c₄' hcomma h₄ => ?_)
        refine (leads_declarator (hread.of_lt hj)).takes.bind h₄ fun more more' c₅ c₅' hmore h₅ => ?_
        obtain ⟨hmore, hlast⟩ := Prod.mk.inj hmore
        exact .pure ⟨by simp [viewRow, hparts, hcomma, hmore, hlast], h₅⟩
      · exact .stop hcur
  · obtain ⟨parts, hasValue⟩ := row
    obtain ⟨parts', hasValue'⟩ := row'
    simp only [viewRow, Prod.mk.injEq] at hrow
    obtain ⟨hparts, rfl⟩ := hrow
    dsimp only
    refine (stays_terminator hasValue').bind h₃ fun tail tail' c₄ c₄' htail h₄ => .pure ⟨?_, h₄⟩
    simp only [unplaced_branch, List.map_append, hparts, List.map_cons, htail]
    split <;> simp [hkw]

theorem leads_variableDeclaration (hread : Alike m read read') {w : String} (hw : w ≠ "") :
    Leads m unplaced (variableDeclaration read w) (variableDeclaration read' w) :=
  fun cur cur' hcur => agree_variableDeclaration hread (leads_keyword hw cur cur' hcur)

theorem see_declaresLet (semicolon : Bool) (h : Facing n cur cur') :
    Agree (declaresLet semicolon) (declaresLet semicolon) cur cur' (Same cur cur') := by
  have hsame (b : Bool) : Agree (pure b) (pure b) cur cur' (Same cur cur') := .pure ⟨rfl, rfl, rfl⟩
  unfold declaresLet
  refine (see_peekWord h).see fun w => ?_
  split
  · refine .get ?_
    dsimp only
    rcases (Before.forward h 3).ahead? semicolon true with
      ⟨hahead, hahead'⟩ | ⟨next, next', question, hahead, hahead', hnext⟩
    · rw [hahead, hahead']
      exact hsame _
    · rw [hahead, hahead']
      dsimp only
      rw [hnext.rest]
      exact hsame _
  · exact hsame _

theorem stays_declarationOr (hread : Alike m read read') (closed isNamed : Bool)
    {declaration declaration' : List Concrete → Concrete} {expression expression' : Concrete}
    (hdeclaration : ∀ ts ts', ts'.map unplaced = ts.map unplaced →
      (declaration' ts').unplaced = (declaration ts).unplaced)
    (hexpression : expression'.unplaced = expression.unplaced) :
    Stays m viewPair (declarationOr read closed isNamed declaration expression)
      (declarationOr read' closed isNamed declaration' expression') := by
  intro cur cur' hcur
  have hgoesOn (c c' : Cursor) (hc : Before m c c') : Agree
      (do return (← expressionsFrom read openEnded expression, false))
      (do return (← expressionsFrom read' openEnded expression', false)) c c' (Reach m viewPair) := by
    refine (stays_expressionsFrom hread openEnded hexpression).bind hc fun e e' c₁ c₁' he h₁ => ?_
    exact .pure ⟨by simp [viewPair, he], h₁⟩
  unfold declarationOr
  split
  · refine (stays_supplied? true).bind hcur fun tail tail' c₁ c₁' htail h₁ => ?_
    match tail, tail', htail with
    | some tail, some tail', htail =>
      refine .pure ⟨?_, h₁⟩
      rw [viewPair, viewPair, hdeclaration [tail] [tail'] (by simpa using htail)]
    | none, none, _ =>
      refine (see_continues closed h₁).see fun goesOn => ?_
      split
      · exact hgoesOn c₁ c₁' h₁
      · refine (see_noMarkupComment h₁).see fun _ => .pure ⟨?_, h₁⟩
        rw [viewPair, viewPair, hdeclaration [] [] rfl]
  · exact hgoesOn cur cur' hcur

theorem see_startsFunction (semicolon : Bool) (h : Facing n cur cur') :
    Agree (startsFunction semicolon) (startsFunction semicolon) cur cur' (Same cur cur') := by
  have hsame (b : Bool) : Agree (pure b) (pure b) cur cur' (Same cur cur') := .pure ⟨rfl, rfl, rfl⟩
  unfold startsFunction
  refine (see_peekWord h).see fun w => ?_
  split
  · exact hsame _
  · refine .get ?_
    dsimp only
    rcases (Before.forward h 5).ahead? semicolon true with
      ⟨hahead, hahead'⟩ | ⟨next, next', question, hahead, hahead', hnext⟩
    · rw [hahead, hahead']
      exact hsame _
    · rw [hahead, hahead']
      dsimp only
      rw [hnext.rest]
      exact hsame _
  · exact hsame _

theorem leads_functionOrClass (hread : Alike m read read') (closed : Bool)
    (hts : ts'.map unplaced = ts.map unplaced) :
    Leads m viewPair (functionOrClass read closed ts) (functionOrClass read' closed ts') := by
  intro cur cur' hcur
  unfold functionOrClass
  refine (see_peekWord hcur).see fun w => ?_
  rw [isEmpty_congr hts]
  split
  · refine (leads_functionParts hread true).bind hcur fun parts parts' c₁ c₁' hparts h₁ => ?_
    have hnamed : parts'.isNamed = parts.isNamed := congrArg (·.2.2.2) hparts
    rw [hnamed]
    exact stays_declarationOr hread closed _
      (fun _ _ hts => FunctionParts.unplaced_declaration hparts hts)
      (FunctionParts.unplaced_expression hparts) c₁ c₁' h₁
  · refine (leads_classParts hread hts).bind hcur fun parts parts' c₁ c₁' hparts h₁ => ?_
    have hnamed : parts'.isNamed = parts.isNamed := congrArg (·.2.2) hparts
    rw [hnamed]
    exact stays_declarationOr hread closed _
      (fun _ _ hts => ClassParts.unplaced_declaration hparts hts)
      (ClassParts.unplaced_expression hparts) c₁ c₁' h₁

theorem leads_declaration (hread : Alike m read read') :
    Leads m unplaced (declaration read) (declaration read') := by
  intro cur cur' hcur
  unfold declaration
  refine (agree_decorators hread hcur).andThen fun marks marks' c₁ c₁' ⟨hmarks, h₁⟩ => ?_
  refine (see_peekWord h₁).see fun w => ?_
  rw [isEmpty_congr hmarks]
  have hvariable {w : String} (hw : w ≠ "") : Agree
      (if marks.isEmpty then variableDeclaration read w else failure)
      (if marks.isEmpty then variableDeclaration read' w else failure) c₁ c₁'
      (Reach m unplaced) := by
    split
    · exact leads_variableDeclaration hread hw c₁ c₁' h₁
    · exact .failure
  split
  · exact hvariable (by decide)
  · exact hvariable (by decide)
  · exact hvariable (by decide)
  · refine (leads_classParts hread hmarks).bind h₁ fun parts parts' c₂ c₂' hparts h₂ => ?_
    have hnamed : parts'.isNamed = parts.isNamed := congrArg (·.2.2) hparts
    rw [hnamed]
    split
    · refine (stays_supplied? false).bind h₂ fun tail tail' c₃ c₃' htail h₃ => ?_
      refine .pure ⟨ClassParts.unplaced_declaration hparts ?_, h₃⟩
      rw [← Option.toList_map, ← Option.toList_map, htail]
    · exact .failure
  · split
    · refine (leads_functionParts hread false).bind h₁ fun parts parts' c₂ c₂' hparts h₂ => ?_
      have hnamed : parts'.isNamed = parts.isNamed := congrArg (·.2.2.2) hparts
      rw [hnamed]
      split
      · refine (stays_supplied? false).bind h₂ fun tail tail' c₃ c₃' htail h₃ => ?_
        refine .pure ⟨FunctionParts.unplaced_declaration hparts ?_, h₃⟩
        rw [← Option.toList_map, ← Option.toList_map, htail]
      · exact .failure
    · exact .failure

/-! Exchange between modules -/

theorem leads_fromClause : Leads m (List.map unplaced) fromClause fromClause := by
  intro cur cur' hcur
  unfold fromClause
  refine (leads_keyword (by decide)).bind hcur fun kw kw' c₁ c₁' hkw h₁ => ?_
  refine leads_string.stays.bind h₁ fun source source' c₂ c₂' hsource h₂ => ?_
  exact .pure ⟨by simp [hkw, hsource], h₂⟩

theorem stays_exchangedNames {item : Parser Concrete} (hitem : Provides m item item) :
    Stays m (List.map unplaced) (exchangedNames item) (exchangedNames item) := by
  intro cur cur' hcur
  unfold exchangedNames
  refine (see_nextIs _ hcur.facing).see fun isComma => ?_
  split
  · refine (leads_mark (by decide)).stays.bind hcur fun comma comma' c₁ c₁' hcomma h₁ => ?_
    refine (leads_mark (by decide)).stays.bind h₁ fun closing closing' c₂ c₂' hclosing h₂ => ?_
    exact .pure ⟨by simp [hcomma, hclosing], h₂⟩
  · exact stays_listOf (by decide) hitem cur cur' hcur

theorem leads_importSpecifier : Leads m unplaced importSpecifier importSpecifier := by
  intro cur cur' hcur
  unfold importSpecifier
  refine leads_exchangedName.bind hcur fun name name' c₁ c₁' hname h₁ => ?_
  have hkind : (name'.inRole .name).kind = (name.inRole .name).kind :=
    kind_congr (by simp [hname])
  dsimp only
  rw [hkind]
  refine (see_peekWord h₁.facing).see fun w => ?_
  split
  · refine (leads_keyword (by decide)).stays.bind h₁ fun kw kw' c₂ c₂' hkw h₂ => ?_
    refine (leads_word _).stays.bind h₂ fun other other' c₃ c₃' hother h₃ => ?_
    exact .pure ⟨by simp [hname, hkw, hother], h₃⟩
  split
  · exact .pure ⟨by simp [hname], h₁⟩
  · exact .failure

theorem leads_exportSpecifier : Leads m unplaced exportSpecifier exportSpecifier := by
  intro cur cur' hcur
  unfold exportSpecifier
  refine leads_exchangedName.bind hcur fun name name' c₁ c₁' hname h₁ => ?_
  dsimp only
  refine (see_peekWord h₁.facing).see fun w => ?_
  split
  · refine (leads_keyword (by decide)).stays.bind h₁ fun kw kw' c₂ c₂' hkw h₂ => ?_
    refine leads_exchangedName.stays.bind h₂ fun other other' c₃ c₃' hother h₃ => ?_
    exact .pure ⟨by simp [hname, hkw, hother], h₃⟩
  · exact .pure ⟨by simp [hname], h₁⟩

theorem leads_importedNames : Leads m unplaced importedNames importedNames := by
  intro cur cur' hcur
  unfold importedNames
  refine (see_nextIs _ hcur).see fun isStar => ?_
  split
  · refine (leads_mark (by decide)).bind hcur fun star star' c₁ c₁' hstar h₁ => ?_
    refine (leads_keyword (by decide)).stays.bind h₁ fun kw kw' c₂ c₂' hkw h₂ => ?_
    refine (leads_word _).stays.bind h₂ fun name name' c₃ c₃' hname h₃ => ?_
    exact .pure ⟨by simp [hstar, hkw, hname], h₃⟩
  · refine (leads_mark (by decide)).bind hcur fun opening opening' c₁ c₁' hopening h₁ => ?_
    refine (stays_exchangedNames fun _ _ => leads_importSpecifier.takes).bind h₁
      fun names names' c₂ c₂' hnames h₂ => ?_
    exact .pure ⟨by simp [hopening, hnames], h₂⟩

theorem leads_importClause : Leads m unplaced importClause importClause := by
  intro cur cur' hcur
  unfold importClause
  refine (see_nextIs _ hcur).see fun isNamed => ?_
  split
  · refine leads_importedNames.bind hcur fun names names' c₁ c₁' hnames h₁ => ?_
    exact .pure ⟨by simp [hnames], h₁⟩
  · refine (leads_word _).bind hcur fun name name' c₁ c₁' hname h₁ => ?_
    refine (see_nextIs _ h₁.facing).see fun isComma => ?_
    split
    · refine (leads_mark (by decide)).stays.bind h₁ fun comma comma' c₂ c₂' hcomma h₂ => ?_
      refine leads_importedNames.stays.bind h₂ fun names names' c₃ c₃' hnames h₃ => ?_
      exact .pure ⟨by simp [hname, hcomma, hnames], h₃⟩
    · exact .pure ⟨by simp [hname], h₁⟩

theorem leads_importStatement (hread : Alike m read read') :
    Leads m unplaced (importStatement read) (importStatement read') := by
  intro cur cur' hcur
  unfold importStatement
  refine (leads_keyword (by decide)).bind hcur fun kw kw' c₁ c₁' hkw h₁ => ?_
  refine (see_peek h₁.facing).see fun cs => ?_
  extract_lets rest rest'
  have hrest (parts parts' : List Concrete) (c c' : Cursor)
      (hparts : parts'.map unplaced = parts.map unplaced) (hc : Before m c c') :
      Agree (rest parts) (rest' parts') c c' (Reach m unplaced) := by
    refine .get ?_
    extract_lets finish finish'
    have hfinish (attributes attributes' : List Concrete) (c c' : Cursor)
        (hattributes : attributes'.map unplaced = attributes.map unplaced) (hc : Before m c c') :
        Agree (finish attributes) (finish' attributes') c c' (Reach m unplaced) := by
      refine (stays_terminator false).bind hc fun tail tail' c₂ c₂' htail h₂ => ?_
      exact .pure ⟨by simp [hkw, hparts, hattributes, htail], h₂⟩
    rcases hc.ahead? true false with
      ⟨hahead, hahead'⟩ | ⟨next, next', question, hahead, hahead', hnext⟩
    · rw [hahead, hahead']
      exact .pure_bind (hfinish [] [] c c' rfl hc)
    · rw [hahead, hahead']
      dsimp only
      rw [hnext.rest]
      split
      · refine .set ((leads_keyword (by decide)).stays.bind hnext fun kw kw' c₂ c₂' hkw h₂ => ?_)
        refine ((leads_object hread).stays c₂ c₂' h₂).settled.andThen fun object object' c₃ c₃' h₃ => ?_
        exact .pure_bind (hfinish [_] [_] c₃ c₃' (by simp [hkw, h₃.1]) h₃.2)
      · exact .pure_bind (hfinish [] [] c c' rfl hc)
  split
  · refine leads_string.stays.bind h₁ fun source source' c₂ c₂' hsource h₂ => ?_
    exact .pure_bind (hrest [_] [_] c₂ c₂' (by simp [hsource]) h₂)
  · refine leads_importClause.stays.bind h₁ fun clause clause' c₂ c₂' hclause h₂ => ?_
    refine leads_fromClause.stays.bind h₂ fun source source' c₃ c₃' hsource h₃ => ?_
    exact .pure_bind (hrest _ _ c₃ c₃' (by simp [hclause, hsource]) h₃)

theorem leads_exported (hread : Alike m read read') (isDecorated : Bool) :
    Leads m (List.map unplaced) (exported read isDecorated) (exported read' isDecorated) := by
  intro cur cur' hcur
  unfold exported
  refine (see_peek hcur).see fun cs => ?_
  split
  · refine (leads_mark (by decide)).bind hcur fun star star' c₁ c₁' hstar h₁ => ?_
    refine (see_peekWord h₁.facing).see fun w => ?_
    extract_lets rest
    have hrest (first first' : Concrete) (c c' : Cursor) (hfirst : first'.unplaced = first.unplaced)
        (hc : Before m c c') :
        Agree (rest first) (rest first') c c' (Reach m (List.map unplaced)) := by
      refine leads_fromClause.stays.bind hc fun source source' c₂ c₂' hsource h₂ => ?_
      refine (stays_terminator false).bind h₂ fun tail tail' c₃ c₃' htail h₃ => ?_
      exact .pure ⟨by simp [hfirst, hsource, htail], h₃⟩
    split
    · refine (leads_keyword (by decide)).stays.bind h₁ fun kw kw' c₂ c₂' hkw h₂ => ?_
      refine leads_exchangedName.stays.bind h₂ fun name name' c₃ c₃' hname h₃ => ?_
      exact .pure_bind (hrest _ _ c₃ c₃' (by simp [hstar, hkw, hname]) h₃)
    · exact .pure_bind (hrest star star' c₁ c₁' hstar h₁)
  split
  · refine (leads_mark (by decide)).bind hcur fun opening opening' c₁ c₁' hopening h₁ => ?_
    refine (stays_exchangedNames fun _ _ => leads_exportSpecifier.takes).bind h₁
      fun names names' c₂ c₂' hnames h₂ => .get ?_
    extract_lets finish finish'
    have hfinish (source source' : List Concrete) (c c' : Cursor)
        (hsource : source'.map unplaced = source.map unplaced) (hc : Before m c c') :
        Agree (finish source) (finish' source') c c' (Reach m (List.map unplaced)) := by
      refine (stays_terminator false).bind hc fun tail tail' c₃ c₃' htail h₃ => ?_
      exact .pure ⟨by simp [hopening, hnames, hsource, htail], h₃⟩
    rcases h₂.ahead? true false with
      ⟨hahead, hahead'⟩ | ⟨next, next', question, hahead, hahead', hnext⟩
    · rw [hahead, hahead']
      exact .pure_bind (hfinish [] [] c₂ c₂' rfl h₂)
    · rw [hahead, hahead']
      dsimp only
      rw [hnext.rest]
      split
      · refine .set (leads_fromClause.stays.bind hnext fun source source' c₃ c₃' hsource h₃ => ?_)
        exact hfinish source source' c₃ c₃' hsource h₃
      · exact .pure_bind (hfinish [] [] c₂ c₂' rfl h₂)
  split
  · refine (leads_keyword (by decide)).bind hcur fun kw kw' c₁ c₁' hkw h₁ => ?_
    refine (see_peekWord h₁.facing).see fun w => ?_
    refine (see_nextIs _ h₁.facing).see fun isMark => ?_
    refine (see_startsFunction true h₁.facing).see fun isFunction => ?_
    split
    · refine (stays_decorators hread).bind h₁.succ fun marks marks' c₂ c₂' hmarks h₂ => ?_
      refine (leads_functionOrClass hread false hmarks).bind h₂.facing
        fun result result' c₃ c₃' hresult h₃ => ?_
      obtain ⟨t, isDeclaration⟩ := result
      obtain ⟨t', isDeclaration'⟩ := result'
      simp only [viewPair, Prod.mk.injEq] at hresult
      obtain ⟨ht, rfl⟩ := hresult
      dsimp only
      split
      · exact .pure ⟨by simp [hkw, ht], h₃⟩
      · refine (stays_terminator true).bind h₃ fun tail tail' c₄ c₄' htail h₄ => ?_
        exact .pure ⟨by simp [hkw, ht, htail], h₄⟩
    refine (see_declaresLet true h₁.facing).see fun isLet => ?_
    split
    · refine (leads_declaration hread).stays.bind h₁ fun t t' c₂ c₂' ht h₂ => ?_
      exact .pure ⟨by simp [hkw, ht], h₂⟩
    · refine (leads_expressions hread openEnded).stays.bind h₁ fun value value' c₂ c₂' hvalue h₂ => ?_
      rw [kind_congr hvalue]
      split
      · exact .failure
      · refine (stays_terminator true).bind h₂ fun tail tail' c₃ c₃' htail h₃ => ?_
        exact .pure ⟨by simp [hkw, hvalue, htail], h₃⟩
  · refine (leads_declaration hread).bind hcur fun t t' c₁ c₁' ht h₁ => ?_
    exact .pure ⟨by simp [ht], h₁⟩

theorem leads_exportStatement (hread : Alike m read read') (hts : ts'.map unplaced = ts.map unplaced) :
    Leads m unplaced (exportStatement read ts) (exportStatement read' ts') := by
  intro cur cur' hcur
  unfold exportStatement
  refine (leads_keyword (by decide)).bind hcur fun kw kw' c₁ c₁' hkw h₁ => ?_
  rw [isEmpty_congr hts]
  refine (leads_exported hread _).stays.bind h₁ fun parts parts' c₂ c₂' hparts h₂ => ?_
  exact agree_memberNode "export_statement" (by simp [hts, hkw, hparts]) h₂

theorem see_startsExport (h : Facing n cur cur') :
    Agree startsExport startsExport cur cur' (Same cur cur') := by
  have hsame (b : Bool) : Agree (pure b) (pure b) cur cur' (Same cur cur') := .pure ⟨rfl, rfl, rfl⟩
  unfold startsExport
  refine .get ?_
  dsimp only
  rcases (Before.forward h 6).ahead? true true with
    ⟨hahead, hahead'⟩ | ⟨next, next', question, hahead, hahead', hnext⟩
  · rw [hahead, hahead']
    exact hsame _
  · rw [hahead, hahead']
    dsimp only
    rw [hnext.rest]
    exact hsame _

/-! Control -/

theorem stays_body (hread : Alike m read read') (closed : Bool) :
    Stays m unplaced (body read closed) (body read' closed) := by
  intro cur cur' hcur
  unfold body
  refine (hread _).stays.bind hcur fun t t' c₁ c₁' ht h₁ => ?_
  exact .pure ⟨by simp [ht], h₁⟩

theorem leads_ifStatement (hread : Alike m read read') (closed : Bool) :
    Leads m unplaced (ifStatement read closed) (ifStatement read' closed) := by
  intro cur cur' hcur
  unfold ifStatement
  refine (leads_keyword (by decide)).bind hcur fun kw kw' c₁ c₁' hkw h₁ => ?_
  refine (leads_condition hread).stays.bind h₁ fun test test' c₂ c₂' htest h₂ => ?_
  refine (hread _).stays.bind h₂ fun first first' c₃ c₃' hfirst h₃ => ?_
  refine (see_peekWord h₃.facing).see fun w => ?_
  split
  · refine (leads_keyword (by decide)).stays.bind h₃ fun other other' c₄ c₄' hother h₄ => ?_
    refine (hread _).stays.bind h₄ fun second second' c₅ c₅' hsecond h₅ => ?_
    exact .pure ⟨by simp [hkw, htest, hfirst, hother, hsecond], h₅⟩
  · exact .pure ⟨by simp [hkw, htest, hfirst], h₃⟩

theorem leads_switchCase (hread : Alike m read read') :
    Leads m unplaced (switchCase read) (switchCase read') := by
  intro cur cur' hcur
  unfold switchCase
  extract_lets statements statements'
  have hstatements : Stays m (List.map unplaced) statements statements' := by
    refine stays_many unplaced fun j hj cur cur' hcur => ?_
    refine (see_peekWord hcur.facing).see fun w => ?_
    refine (see_nextIs _ hcur.facing).see fun isEnd => ?_
    split
    · exact .stop hcur
    · refine (hread _ j hj).bind hcur fun t t' c₁ c₁' ht h₁ => ?_
      exact .pure ⟨by simp [ht], h₁⟩
  refine (see_peekWord hcur).see fun w => ?_
  split
  · refine (leads_keyword (by decide)).bind hcur fun kw kw' c₁ c₁' hkw h₁ => ?_
    refine (provides_innerExpressions hread).stays.bind h₁ fun value value' c₂ c₂' hvalue h₂ => ?_
    refine (leads_mark (by decide)).stays.bind h₂ fun colon colon' c₃ c₃' hcolon h₃ => ?_
    refine hstatements.bind h₃ fun body body' c₄ c₄' hbody h₄ => ?_
    exact .pure ⟨by simp [hkw, hvalue, hcolon, hbody], h₄⟩
  · refine (leads_keyword (by decide)).bind hcur fun kw kw' c₁ c₁' hkw h₁ => ?_
    refine (leads_mark (by decide)).stays.bind h₁ fun colon colon' c₂ c₂' hcolon h₂ => ?_
    refine hstatements.bind h₂ fun body body' c₃ c₃' hbody h₃ => ?_
    exact .pure ⟨by simp [hkw, hcolon, hbody], h₃⟩

theorem leads_switchStatement (hread : Alike m read read') :
    Leads m unplaced (switchStatement read) (switchStatement read') := by
  intro cur cur' hcur
  unfold switchStatement
  refine (leads_keyword (by decide)).bind hcur fun kw kw' c₁ c₁' hkw h₁ => ?_
  refine (leads_condition hread).stays.bind h₁ fun value value' c₂ c₂' hvalue h₂ => ?_
  refine (leads_mark (by decide)).stays.bind h₂ fun opening opening' c₃ c₃' hopening h₃ => ?_
  refine (stays_many unplaced fun j hj cur cur' hcur => ?_).bind h₃
    fun cases cases' c₄ c₄' hcases h₄ => ?_
  · refine (see_nextIs _ hcur.facing).see fun isEnd => ?_
    split
    · exact .stop hcur
    · exact (leads_switchCase (hread.of_lt hj) cur cur' hcur.facing).turn
  · refine (leads_mark (by decide)).stays.bind h₄ fun closing closing' c₅ c₅' hclosing h₅ => ?_
    exact .pure ⟨by simp [hkw, hvalue, hopening, hcases, hclosing], h₅⟩

theorem leads_loopOperator : Leads m unplaced loopOperator loopOperator := by
  intro cur cur' hcur
  unfold loopOperator
  refine (see_peekWord hcur).see fun w => ?_
  split
  · refine (leads_keyword (by decide)).bind hcur fun kw kw' c₁ c₁' hkw h₁ => ?_
    exact .pure ⟨by simp [hkw], h₁⟩
  · refine (leads_keyword (by decide)).bind hcur fun kw kw' c₁ c₁' hkw h₁ => ?_
    exact .pure ⟨by simp [hkw], h₁⟩
  · exact .failure

theorem see_declaresLoopLet (h : Facing n cur cur') :
    Agree declaresLoopLet declaresLoopLet cur cur' (Same cur cur') := by
  unfold declaresLoopLet
  refine (see_declaresLet false h).see fun isLet => ?_
  split
  · refine .get ?_
    dsimp only
    rw [(Before.forward h 3).facing.rest]
    exact .pure ⟨rfl, rfl, rfl⟩
  · exact .pure ⟨rfl, rfl, rfl⟩

theorem stays_loopVariable (hread : Alike m read read') (awaited : Bool) :
    Stays m (List.map unplaced) (loopVariable read awaited) (loopVariable read' awaited) := by
  intro cur cur' hcur
  unfold loopVariable
  extract_lets declared target assigned declaredHead assignedHead declared' target' assigned'
    declaredHead' assignedHead'
  have hdeclared : Agree declared declared' cur cur' (Reach m (List.map unplaced)) := by
    refine (see_peekWord hcur.facing).see fun w => ?_
    split
    · refine (leads_keyword (by decide)).stays.bind hcur fun kw kw' c₁ c₁' hkw h₁ => ?_
      refine (leads_bound hread).stays.bind h₁ fun name name' c₂ c₂' hname h₂ => .get ?_
      rcases h₂.ahead? true false with
        ⟨hahead, hahead'⟩ | ⟨next, next', question, hahead, hahead', hnext⟩
      · rw [hahead, hahead']
        exact .failure
      · rw [hahead, hahead']
        dsimp only
        rw [hnext.rest]
        split
        · refine .set ((stays_leaf "=" .anonymous 1).bind hnext fun eq eq' c₃ c₃' heq h₃ => ?_)
          refine (hread _).settled.stays.bind h₃ fun value value' c₄ c₄' hvalue h₄ => ?_
          exact .pure ⟨by simp [hkw, hname, heq, hvalue], h₄⟩
        · exact .pure ⟨by simp [hkw, hname], h₂⟩
    · have hnamed (isLet : Bool) : Agree
          (if w == "const" || (w == "let" && isLet) then do
            let kw := (← keyword w).inRole .kind
            let name := (← bound read).inRole .left
            return kw :: name :: (← supplied? false).toList
          else failure)
          (if w == "const" || (w == "let" && isLet) then do
            let kw := (← keyword w).inRole .kind
            let name := (← bound read').inRole .left
            return kw :: name :: (← supplied? false).toList
          else failure) cur cur' (Reach m (List.map unplaced)) := by
        split
        · refine (stays_keyword w).bind hcur fun kw kw' c₁ c₁' hkw h₁ => ?_
          refine (leads_bound hread).stays.bind h₁ fun name name' c₂ c₂' hname h₂ => ?_
          refine (stays_supplied? false).bind h₂ fun tail tail' c₃ c₃' htail h₃ => ?_
          exact .pure ⟨by simp [hkw, hname, ← Option.toList_map, htail], h₃⟩
        · exact .failure
      exact (see_declaresLoopLet hcur.facing).see hnamed
  have hassigned : Agree assigned assigned' cur cur' (Reach m (List.map unplaced)) := by
    refine (see_peekWord hcur.facing).see fun w => ?_
    split
    · exact .failure_bind
    refine (leads_operand hread _ true).stays.bind hcur fun t t' c₁ c₁' ht h₁ => ?_
    rcases assignee?_cases ht with ⟨hnone, hnone'⟩ | ⟨p, p', hsome, hsome', hp⟩
    · rw [hnone, hnone']
      exact .failure
    · rw [hsome, hsome']
      exact .pure ⟨by simp [hp], h₁⟩
  have hhead {p p' : Parser (List Concrete)} (h : Agree p p' cur cur' (Reach m (List.map unplaced))) :
      Agree (do return (← p) ++ [← loopOperator]) (do return (← p') ++ [← loopOperator]) cur cur'
        (Reach m (List.map unplaced)) := by
    refine h.andThen fun head head' c₁ c₁' h₁ => ?_
    refine leads_loopOperator.stays.bind h₁.2 fun op op' c₂ c₂' hop h₂ => ?_
    exact .pure ⟨by simp [h₁.1, hop], h₂⟩
  split
  · exact (hhead hassigned).orElse (hhead hdeclared)
  · exact (hhead hdeclared).orElse (hhead hassigned)

theorem stays_forInStatement (hread : Alike m read read') (closed : Bool)
    (ht : t'.unplaced = t.unplaced) :
    Stays m unplaced (forInStatement read closed t) (forInStatement read' closed t') := by
  intro cur cur' hcur
  unfold forInStatement
  refine (see_peekWord hcur.facing).see fun w => ?_
  extract_lets rest rest'
  have hrest (await await' : List Concrete) (c c' : Cursor)
      (hawait : await'.map unplaced = await.map unplaced) (hc : Before m c c') :
      Agree (rest await) (rest' await') c c' (Reach m unplaced) := by
    refine (leads_mark (by decide)).stays.bind hc fun opening opening' c₁ c₁' hopening h₁ => ?_
    rw [isEmpty_congr hawait]
    refine (stays_loopVariable hread _).bind h₁ fun head head' c₂ c₂' hhead h₂ => ?_
    refine (provides_innerExpressions hread).stays.bind h₂ fun right right' c₃ c₃' hright h₃ => ?_
    refine (leads_mark (by decide)).stays.bind h₃ fun closing closing' c₄ c₄' hclosing h₄ => ?_
    refine (stays_body hread closed).bind h₄ fun inside inside' c₅ c₅' hinside h₅ => ?_
    exact .pure ⟨by simp [ht, hawait, hopening, hhead, hright, hclosing, hinside], h₅⟩
  split
  · refine (leads_keyword (by decide)).stays.bind hcur fun kw kw' c₁ c₁' hkw h₁ => ?_
    exact .pure_bind (hrest [kw] [kw'] c₁ c₁' (by simp [hkw]) h₁)
  · exact .pure_bind (hrest [] [] cur cur' rfl hcur)

theorem stays_loopPart (hread : Alike m read read') (role : Role) :
    Stays m (List.map unplaced) (loopPart read role) (loopPart read' role) := by
  intro cur cur' hcur
  unfold loopPart
  refine (see_nextIs _ hcur.facing).see fun isEmpty => ?_
  split
  · refine (leads_mark (by decide)).stays.bind hcur fun sign sign' c₁ c₁' hsign h₁ => ?_
    exact .pure ⟨by simp [hsign], h₁⟩
  · refine (provides_innerExpressions hread).stays.bind hcur fun e e' c₁ c₁' he h₁ => ?_
    refine (leads_mark (by decide)).stays.bind h₁ fun sign sign' c₂ c₂' hsign h₂ => ?_
    exact .pure ⟨by simp [he, hsign], h₂⟩

theorem stays_forStatement (hread : Alike m read read') (closed : Bool)
    (ht : t'.unplaced = t.unplaced) :
    Stays m unplaced (forStatement read closed t) (forStatement read' closed t') := by
  intro cur cur' hcur
  unfold forStatement
  refine (leads_mark (by decide)).stays.bind hcur fun opening opening' c₁ c₁' hopening h₁ => ?_
  refine (see_peekWord h₁.facing).see fun w => ?_
  extract_lets rest rest'
  have hrest (start start' : List Concrete) (c c' : Cursor)
      (hstart : start'.map unplaced = start.map unplaced) (hc : Before m c c') :
      Agree (rest start) (rest' start') c c' (Reach m unplaced) := by
    refine (stays_loopPart hread _).bind hc fun test test' c₂ c₂' htest h₂ => ?_
    refine (see_nextIs _ h₂.facing).see fun isEnd => ?_
    extract_lets finish finish'
    have hfinish (step step' : List Concrete) (c c' : Cursor)
        (hstep : step'.map unplaced = step.map unplaced) (hc : Before m c c') :
        Agree (finish step) (finish' step') c c' (Reach m unplaced) := by
      refine (leads_mark (by decide)).stays.bind hc fun closing closing' c₃ c₃' hclosing h₃ => ?_
      refine (stays_body hread closed).bind h₃ fun inside inside' c₄ c₄' hinside h₄ => ?_
      exact .pure ⟨by simp [ht, hopening, hstart, htest, hstep, hclosing, hinside], h₄⟩
    split
    · exact .pure_bind (hfinish [] [] c₂ c₂' rfl h₂)
    · refine (provides_innerExpressions hread).stays.bind h₂ fun e e' c₃ c₃' he h₃ => ?_
      exact .pure_bind (hfinish [_] [_] c₃ c₃' (by simp [he]) h₃)
  refine (see_declaresLoopLet h₁.facing).see fun isLet => ?_
  split
  · refine (agree_variableDeclaration hread (stays_keyword w c₁ c₁' h₁)).andThen
      fun first first' c₂ c₂' h₂ => ?_
    exact .pure_bind (hrest [_] [_] c₂ c₂' (by simp [h₂.1]) h₂.2)
  · refine (stays_loopPart hread _).bind h₁ fun first first' c₂ c₂' hfirst h₂ => ?_
    exact hrest first first' c₂ c₂' hfirst h₂

theorem leads_doStatement (hread : Alike m read read') :
    Leads m unplaced (doStatement read) (doStatement read') := by
  intro cur cur' hcur
  unfold doStatement
  refine (leads_keyword (by decide)).bind hcur fun kw kw' c₁ c₁' hkw h₁ => ?_
  refine (stays_body hread true).bind h₁ fun inside inside' c₂ c₂' hinside h₂ => ?_
  refine (leads_keyword (by decide)).stays.bind h₂ fun again again' c₃ c₃' hagain h₃ => ?_
  refine (leads_condition hread).stays.bind h₃ fun test test' c₄ c₄' htest h₄ => .get ?_
  have htail : Agree ((do pure [← terminator false]) <|> (do set c₄; pure []))
      ((do pure [← terminator false]) <|> (do set c₄'; pure [])) c₄ c₄'
      (Reach m (List.map unplaced)) := by
    refine .orElse ?_ (.set (.pure ⟨rfl, h₄⟩))
    refine (stays_terminator false).bind h₄ fun tail tail' c₅ c₅' htail h₅ => ?_
    exact .pure ⟨by simp [htail], h₅⟩
  refine htail.andThen fun tail tail' c₅ c₅' h₅ => ?_
  exact .pure ⟨by simp [hkw, hinside, hagain, htest, h₅.1], h₅.2⟩

theorem leads_tryStatement (hread : Alike m read read') :
    Leads m unplaced (tryStatement read) (tryStatement read') := by
  intro cur cur' hcur
  unfold tryStatement
  refine (leads_keyword (by decide)).bind hcur fun kw kw' c₁ c₁' hkw h₁ => ?_
  refine (hread _).stays.bind h₁ fun inside inside' c₂ c₂' hinside h₂ => ?_
  refine (see_peekWord h₂.facing).see fun w => ?_
  extract_lets rest rest'
  have hrest (handler handler' : List Concrete) (c c' : Cursor)
      (hhandler : handler'.map unplaced = handler.map unplaced) (hc : Before m c c') :
      Agree (rest handler) (rest' handler') c c' (Reach m unplaced) := by
    refine (see_peekWord hc.facing).see fun w => ?_
    extract_lets finish finish'
    have hfinish (last last' : List Concrete) (c c' : Cursor)
        (hlast : last'.map unplaced = last.map unplaced) (hc : Before m c c') :
        Agree (finish last) (finish' last') c c' (Reach m unplaced) :=
      .pure ⟨by simp [hkw, hinside, hhandler, hlast], hc⟩
    split
    · refine (leads_keyword (by decide)).stays.bind hc fun kw kw' c₃ c₃' hkw h₃ => ?_
      refine (hread _).stays.bind h₃ fun block block' c₄ c₄' hblock h₄ => ?_
      exact .pure_bind (hfinish [_] [_] c₄ c₄' (by simp [hkw, hblock]) h₄)
    · exact .pure_bind (hfinish [] [] c c' rfl hc)
  split
  · refine (leads_keyword (by decide)).stays.bind h₂ fun kw kw' c₃ c₃' hkw h₃ => ?_
    refine (see_nextIs _ h₃.facing).see fun isOpen => ?_
    extract_lets caught caught'
    have hcaught (param param' : List Concrete) (c c' : Cursor)
        (hparam : param'.map unplaced = param.map unplaced) (hc : Before m c c') :
        Agree (caught param) (caught' param') c c' (Reach m unplaced) := by
      refine (hread _).stays.bind hc fun block block' c₄ c₄' hblock h₄ => ?_
      exact .pure_bind (hrest [_] [_] c₄ c₄' (by simp [hkw, hparam, hblock]) h₄)
    split
    · refine (leads_mark (by decide)).stays.bind h₃ fun opening opening' c₄ c₄' hopening h₄ => ?_
      refine (leads_bound hread).stays.bind h₄ fun name name' c₅ c₅' hname h₅ => ?_
      refine (leads_mark (by decide)).stays.bind h₅ fun closing closing' c₆ c₆' hclosing h₆ => ?_
      exact .pure_bind (hcaught [_, _, _] [_, _, _] c₆ c₆' (by simp [hopening, hname, hclosing]) h₆)
    · exact .pure_bind (hcaught [] [] c₃ c₃' rfl h₃)
  · exact .pure_bind (hrest [] [] c₂ c₂' rfl h₂)

theorem leads_jump {w : String} (hw : w ≠ "") (kind : String) :
    Leads m unplaced (jump w kind) (jump w kind) := by
  intro cur cur' hcur
  unfold jump
  refine (leads_keyword hw).bind hcur fun kw kw' c₁ c₁' hkw h₁ => .get ?_
  have hbare : Agree (do return branch kind kw [← terminator false])
      (do return branch kind kw' [← terminator false]) c₁ c₁' (Reach m unplaced) := by
    refine (stays_terminator false).bind h₁ fun tail tail' c₂ c₂' htail h₂ => ?_
    exact .pure ⟨by simp [hkw, htail], h₂⟩
  rcases h₁.ahead? true false with
    ⟨hahead, hahead'⟩ | ⟨next, next', question, hahead, hahead', hnext⟩
  · rw [hahead, hahead']
    exact hbare
  · rw [hahead, hahead']
    dsimp only
    rw [hnext.rest]
    split
    · refine (leads_word _).stays.bind h₁ fun label label' c₂ c₂' hlabel h₂ => ?_
      refine (stays_terminator false).bind h₂ fun tail tail' c₃ c₃' htail h₃ => ?_
      exact .pure ⟨by simp [hkw, hlabel, htail], h₃⟩
    · exact hbare

theorem leads_returnStatement (hread : Alike m read read') :
    Leads m unplaced (returnStatement read) (returnStatement read') := by
  intro cur cur' hcur
  unfold returnStatement
  refine (leads_keyword (by decide)).bind hcur fun kw kw' c₁ c₁' hkw h₁ => .get ?_
  have hbare : Agree (do return branch "return_statement" kw [← terminator false])
      (do return branch "return_statement" kw' [← terminator false]) c₁ c₁' (Reach m unplaced) := by
    refine (stays_terminator false).bind h₁ fun tail tail' c₂ c₂' htail h₂ => ?_
    exact .pure ⟨by simp [hkw, htail], h₂⟩
  rcases h₁.ahead? true false with
    ⟨hahead, hahead'⟩ | ⟨next, next', question, hahead, hahead', hnext⟩
  · rw [hahead, hahead']
    exact hbare
  · rw [hahead, hahead']
    dsimp only
    rw [hnext.rest]
    split
    · exact hbare
    · refine (see_noMarkupComment h₁).see fun _ => ?_
      refine (leads_expressions hread openEnded).stays.bind h₁ fun e e' c₂ c₂' he h₂ => ?_
      refine (stays_terminator true).bind h₂ fun tail tail' c₃ c₃' htail h₃ => ?_
      exact .pure ⟨by simp [hkw, he, htail], h₃⟩

theorem leads_throwStatement (hread : Alike m read read') :
    Leads m unplaced (throwStatement read) (throwStatement read') := by
  intro cur cur' hcur
  unfold throwStatement
  refine (leads_keyword (by decide)).bind hcur fun kw kw' c₁ c₁' hkw h₁ => ?_
  refine (leads_expressions hread openEnded).stays.bind h₁ fun e e' c₂ c₂' he h₂ => ?_
  refine (stays_terminator true).bind h₂ fun tail tail' c₃ c₃' htail h₃ => ?_
  exact .pure ⟨by simp [hkw, he, htail], h₃⟩

theorem leads_conditional (hread : Alike m read read') (closed : Bool) {w : String} (hw : w ≠ "")
    (kind : String) (role : Role) :
    Leads m unplaced (conditional read closed w kind role) (conditional read' closed w kind role) := by
  intro cur cur' hcur
  unfold conditional
  refine (leads_keyword hw).bind hcur fun kw kw' c₁ c₁' hkw h₁ => ?_
  refine (leads_condition hread).stays.bind h₁ fun test test' c₂ c₂' htest h₂ => ?_
  refine (stays_body hread closed).bind h₂ fun inside inside' c₃ c₃' hinside h₃ => ?_
  exact .pure ⟨by simp [hkw, htest, hinside], h₃⟩

theorem see_startsLabel (h : Facing n cur cur') :
    Agree startsLabel startsLabel cur cur' (Same cur cur') := by
  unfold startsLabel
  refine .get ?_
  dsimp only
  rw [Before.rest h]
  rcases (Before.forward h _).ahead? true true with
    ⟨hahead, hahead'⟩ | ⟨next, next', question, hahead, hahead', hnext⟩
  · rw [hahead, hahead']
    exact .pure ⟨rfl, rfl, rfl⟩
  · rw [hahead, hahead']
    dsimp only
    rw [hnext.rest]
    exact .pure ⟨rfl, rfl, rfl⟩

theorem leads_labelOrExpression (hread : Alike m read read') (closed : Bool) :
    Leads m unplaced (labelOrExpression read closed) (labelOrExpression read' closed) := by
  intro cur cur' hcur
  unfold labelOrExpression
  refine (see_peekWord hcur).see fun w => ?_
  refine (see_startsLabel hcur).see fun isLabel => ?_
  split
  · refine (leads_word _).bind hcur fun label label' c₁ c₁' hlabel h₁ => ?_
    refine (leads_mark (by decide)).stays.bind h₁ fun colon colon' c₂ c₂' hcolon h₂ => ?_
    refine (stays_body hread closed).bind h₂ fun inside inside' c₃ c₃' hinside h₃ => ?_
    exact .pure ⟨by simp [hlabel, hcolon, hinside], h₃⟩
  · exact leads_expressionStatement hread cur cur' hcur

theorem leads_withTerminator (hread : Alike m read read') (closed : Bool)
    (hts : ts'.map unplaced = ts.map unplaced) :
    Leads m unplaced (do statement.withTerminator (← functionOrClass read closed ts))
      (do statement.withTerminator (← functionOrClass read' closed ts')) := by
  intro cur cur' hcur
  refine (leads_functionOrClass hread closed hts).bind hcur fun r r' c₁ c₁' hr h₁ => ?_
  obtain ⟨t, isDeclaration⟩ := r
  obtain ⟨t', isDeclaration'⟩ := r'
  simp only [viewPair, Prod.mk.injEq] at hr
  obtain ⟨ht, rfl⟩ := hr
  cases isDeclaration' with
  | true => exact .pure ⟨ht, h₁⟩
  | false =>
    refine (stays_terminator true).bind h₁ fun tail tail' c₂ c₂' htail h₂ => ?_
    exact .pure ⟨by simp [ht, htail], h₂⟩

theorem leads_statement (hread : Alike m read read') (closed : Bool) :
    Leads m unplaced (statement read closed) (statement read' closed) := by
  intro cur cur' hcur
  have hlabel := leads_labelOrExpression hread closed cur cur' hcur
  have hnone : ([] : List Concrete).map unplaced = [] := rfl
  have hdeclares := leads_withTerminator hread closed (hnone.trans hnone.symm) cur cur' hcur
  unfold statement
  refine (see_peekChar hcur).see fun c => ?_
  split
  · exact leads_braced hread closed cur cur' hcur
  · refine (leads_mark (by decide)).bind hcur fun sign sign' c₁ c₁' hsign h₁ => ?_
    exact .pure ⟨by simp [hsign], h₁⟩
  · refine (agree_decorators hread hcur).andThen fun marks marks' c₁ c₁' ⟨hmarks, h₁⟩ => ?_
    refine (see_peekWord h₁).see fun w => ?_
    split
    · exact leads_exportStatement hread hmarks c₁ c₁' h₁
    · exact leads_withTerminator hread closed hmarks c₁ c₁' h₁
  refine (see_peekWord hcur).see fun w => ?_
  split
  · refine .get ?_
    dsimp only
    rw [(Before.forward hcur 6).facing.rest]
    split
    · exact leads_expressionStatement hread cur cur' hcur
    · exact leads_importStatement hread cur cur' hcur
  · refine (see_startsExport hcur).see fun isExport => ?_
    split
    · exact leads_exportStatement hread rfl cur cur' hcur
    · exact hlabel
  · exact leads_variableDeclaration hread (by decide) cur cur' hcur
  · exact leads_variableDeclaration hread (by decide) cur cur' hcur
  · refine (see_declaresLet true hcur).see fun isLet => ?_
    split
    · exact leads_variableDeclaration hread (by decide) cur cur' hcur
    · exact hlabel
  · refine (leads_keyword (by decide)).bind hcur fun kw kw' c₁ c₁' hkw h₁ => ?_
    refine (stays_terminator false).bind h₁ fun tail tail' c₂ c₂' htail h₂ => ?_
    exact .pure ⟨by simp [hkw, htail], h₂⟩
  · exact leads_ifStatement hread closed cur cur' hcur
  · exact leads_switchStatement hread cur cur' hcur
  · refine (leads_keyword (by decide)).bind hcur fun kw kw' c₁ c₁' hkw h₁ => ?_
    exact ((stays_forInStatement hread closed hkw).orElse (stays_forStatement hread closed hkw))
      c₁ c₁' h₁
  · exact leads_conditional hread closed (by decide) _ _ cur cur' hcur
  · exact leads_doStatement hread cur cur' hcur
  · exact leads_tryStatement hread cur cur' hcur
  · exact leads_conditional hread closed (by decide) _ _ cur cur' hcur
  · exact leads_jump (by decide) _ cur cur' hcur
  · exact leads_jump (by decide) _ cur cur' hcur
  · exact leads_returnStatement hread cur cur' hcur
  · exact leads_throwStatement hread cur cur' hcur
  · exact hdeclares
  · refine (see_startsFunction true hcur).see fun isFunction => ?_
    split
    · exact hdeclares
    · exact hlabel

end Flavoring.JavaScript.Parser
