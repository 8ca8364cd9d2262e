import Flavoring.Proofs.JavaScript.Agreement.Literals

/-! Agreement on functions and classes. -/

namespace Flavoring.JavaScript.Parser

open Concrete
open Cursor (Before Facing)

variable {m n : Nat} {cur cur' : Cursor} {read read' : Reader} {p p' : Parser Concrete}
  {t t' : Concrete} {ts ts' : List Concrete}

/-! Functions -/

theorem see_braces (h : Facing n cur cur') : Agree braces braces cur cur' (Same cur cur') := by
  have hin : Before n ((cur.skipTrivia.forward 1).skipTrivia) ((cur'.skipTrivia.forward 1).skipTrivia) :=
    (Before.forward h 1).facing
  unfold braces
  refine .get ?_
  dsimp only
  generalize (cur.skipTrivia.forward 1).skipTrivia = inside at hin
  generalize (cur'.skipTrivia.forward 1).skipTrivia = inside' at hin
  have hnext (k : Nat) : (inside'.forward k).skipTrivia.rest = (inside.forward k).skipTrivia.rest :=
    (hin.forward k).facing.rest
  have hbehind (k : Nat) : ((inside'.forward k).skipTrivia.forward 1).skipTrivia.rest =
      ((inside.forward k).skipTrivia.forward 1).skipTrivia.rest :=
    (Before.forward (hin.forward k).facing 1).facing.rest
  have hsame (b : Braces) : Agree (pure b) (pure b) cur cur' (Same cur cur') := .pure ⟨rfl, rfl, rfl⟩
  simp only [hin.rest, hnext, hbehind]
  split
  iterate 8 exact hsame _
  split
  · exact hsame _
  split
  · exact hsame _
  split
  · exact hsame _
  rcases (hin.forward (Token.word inside.rest)).ahead? true true with
    ⟨hahead, hahead'⟩ | ⟨next, next', question, hahead, hahead', hlast⟩
  · rw [hahead, hahead']
    exact hsame _
  · rw [hahead, hahead']
    dsimp only
    rw [hlast.rest]
    split
    · exact hsame _
    · exact hsame _

theorem Agree.severalFirst (h : Agree p p' cur cur' (Reach m unplaced)) :
    Agree (severalFirst p) (severalFirst p') cur cur' (Reach m unplaced) := by
  unfold Parser.severalFirst
  refine h.andThen fun t t' next next' hreach => ?_
  rw [← startsWithSeveral_unplaced t', hreach.1, startsWithSeveral_unplaced]
  split
  · exact .pure hreach
  · exact .failure

theorem stays_arrowBody (hread : Alike m read read') (s : Setting) :
    Stays m unplaced (arrowBody read s) (arrowBody read' s) := by
  intro cur cur' hcur
  have hblock := (hread (.block true)).stays cur cur' hcur
  have hexpression := ((hread (.element s)).stays cur cur' hcur).settled
  unfold arrowBody
  refine (see_nextIs _ hcur.facing).see fun isBrace => ?_
  split
  · refine (see_braces hcur.facing).see fun b => ?_
    cases b with
    | empty => exact hblock
    | statements => exact hblock
    | members => exact hexpression.orElse hblock
    | assignment => exact hexpression.severalFirst.orElse hblock
    | call plain => exact hblock.orElse hexpression
  · exact hexpression

theorem leads_arrowFrom (hread : Alike m read read') (s : Setting) (ht : t'.unplaced = t.unplaced)
    (hts : ts'.map unplaced = ts.map unplaced) :
    Leads m unplaced (arrowFrom read s t ts) (arrowFrom read' s t' ts') := by
  intro cur cur' hcur
  unfold arrowFrom
  refine (leads_mark (by decide)).bind hcur fun arrow arrow' c₁ c₁' harrow h₁ => ?_
  refine (stays_arrowBody hread s).bind h₁ fun body body' c₂ c₂' hbody h₂ => ?_
  exact .pure ⟨by simp [ht, hts, harrow, hbody], h₂⟩

-- The parts of a function without places.
def FunctionParts.view (p : FunctionParts) : Concrete × List Concrete × Bool × Bool :=
  (p.first.unplaced, p.more.map unplaced, p.isGenerator, p.isNamed)

theorem FunctionParts.unplaced_expression {p p' : FunctionParts} (h : p'.view = p.view) :
    p'.expression.unplaced = p.expression.unplaced := by
  simp only [view, Prod.mk.injEq] at h
  simp only [expression, unplaced_branch, h]

theorem FunctionParts.unplaced_declaration {p p' : FunctionParts} (h : p'.view = p.view)
    (hts : ts'.map unplaced = ts.map unplaced) :
    (p'.declaration ts').unplaced = (p.declaration ts).unplaced := by
  simp only [view, Prod.mk.injEq] at h
  simp only [declaration, unplaced_branch, List.map_append, h, hts]

theorem leads_functionParts (hread : Alike m read read') (afterOperand : Bool) :
    Leads m FunctionParts.view (functionParts read afterOperand) (functionParts read' afterOperand) := by
  intro cur cur' hcur
  unfold functionParts
  refine (see_peekWord hcur).see fun w => ?_
  extract_lets rest rest'
  have hrest (before before' : List Concrete) (c c' : Cursor)
      (hbefore : before'.map unplaced = before.map unplaced) (hc : Facing (m + 1) c c') :
      Agree (rest before) (rest' before') c c' (Reach m FunctionParts.view) := by
    refine (leads_keyword (by decide)).bind hc fun kw kw' c₁ c₁' hkw h₁ => ?_
    refine (see_nextIs _ h₁.facing).see fun isStar => ?_
    extract_lets named named'
    have hnamed (star star' : List Concrete) (c c' : Cursor)
        (hstar : star'.map unplaced = star.map unplaced) (hc : Before m c c') :
        Agree (named star) (named' star') c c' (Reach m FunctionParts.view) := by
      refine (see_nextIs _ hc.facing).see fun isNameless => ?_
      extract_lets body body'
      have hbody (name name' : List Concrete) (c c' : Cursor)
          (hname : name'.map unplaced = name.map unplaced) (hc : Before m c c') :
          Agree (body name) (body' name') c c' (Reach m FunctionParts.view) := by
        refine (leads_parameters hread).stays.bind hc fun params params' c₂ c₂' hparams h₂ => ?_
        refine (hread _).stays.bind h₂ fun block block' c₃ c₃' hblock h₃ => ?_
        have hparts : (before' ++ kw' :: star' ++ name' ++ [params', block'.inRole .body]).map unplaced =
            (before ++ kw :: star ++ name ++ [params, block.inRole .body]).map unplaced := by
          simp [hbefore, hkw, hstar, hname, hparams, hblock]
        rw [isEmpty_congr hstar, isEmpty_congr hname]
        generalize before ++ kw :: star ++ name ++ [params, block.inRole .body] = parts at hparts ⊢
        generalize before' ++ kw' :: star' ++ name' ++ [params', block'.inRole .body] = parts' at hparts ⊢
        match parts, parts', hparts with
        | [], [], _ => exact .failure
        | first :: more, first' :: more', hparts =>
          obtain ⟨hfirst, hmore⟩ := List.cons.inj hparts
          exact .pure ⟨by simp only [FunctionParts.view, hfirst, hmore], h₃⟩
      split
      · exact .pure_bind (hbody [] [] c c' rfl hc)
      · refine (leads_word _).stays.bind hc fun name name' c₂ c₂' hname h₂ => ?_
        exact .pure_bind (hbody [_] [_] c₂ c₂' (by simp [hname]) h₂)
    split
    · refine (leads_mark (by decide)).stays.bind h₁ fun star star' c₂ c₂' hstar h₂ => ?_
      exact .pure_bind (hnamed [star] [star'] c₂ c₂' (by simp [hstar]) h₂)
    · exact .pure_bind (hnamed [] [] c₁ c₁' rfl h₁)
  split
  · refine (leads_keyword (by decide)).bind hcur fun kw kw' c₁ c₁' hkw h₁ => ?_
    exact .pure_bind (hrest [kw] [kw'] c₁ c₁' (by simp [hkw]) h₁.succ.facing)
  · exact .pure_bind (hrest [] [] cur cur' rfl hcur)

/-! Classes -/

theorem stays_fieldFrom (hread : Alike m read read') (hts : ts'.map unplaced = ts.map unplaced)
    (ht : t'.unplaced = t.unplaced) :
    Stays m (List.map unplaced) (fieldFrom read ts t) (fieldFrom read' ts' t') := by
  intro cur cur' hcur
  unfold fieldFrom
  extract_lets named named'
  have hnamed : named'.map unplaced = named.map unplaced := by simp [named, named', hts, ht]
  have hplain : Agree
      (do
        let field ← memberNode "field_definition" named
        return [field.inRole .member, ← terminator false])
      (do
        let field ← memberNode "field_definition" named'
        return [field.inRole .member, ← terminator false])
      cur cur' (Reach m (List.map unplaced)) := by
    refine (agree_memberNode "field_definition" hnamed hcur).andThen fun field field' c₁ c₁' h₁ => ?_
    refine (stays_terminator false).bind h₁.2 fun tail tail' c₂ c₂' htail h₂ => ?_
    exact .pure ⟨by simp [h₁.1, htail], h₂⟩
  refine .get ?_
  rcases hcur.ahead? true false with
    ⟨hahead, hahead'⟩ | ⟨next, next', question, hahead, hahead', hnext⟩
  · rw [hahead, hahead']
    exact hplain
  · rw [hahead, hahead']
    dsimp only
    rw [hnext.rest]
    split
    · refine .set ((stays_leaf "=" .anonymous 1).bind hnext fun eq eq' c₁ c₁' heq h₁ => ?_)
      refine (hread _).settled.stays.bind h₁ fun value value' c₂ c₂' hvalue h₂ => ?_
      refine (agree_memberNode "field_definition" (by simp [hnamed, heq, hvalue]) h₂).andThen
        fun field field' c₃ c₃' h₃ => ?_
      refine (stays_terminator true).bind h₃.2 fun tail tail' c₄ c₄' htail h₄ => ?_
      exact .pure ⟨by simp [h₃.1, htail], h₄⟩
    · exact hplain

-- A static block, or nothing with the cursor where it was.
theorem agree_staticBlock? (hread : Alike m read read') (hcur : Before (m + 1) cur cur') :
    Agree (staticBlock? read) (staticBlock? read') cur cur' (Turn m unplaced) := by
  have hback (c c' : Cursor) : Agree (do set cur; return none) (do set cur'; return none) c c'
      (Turn m unplaced) := .set (.stop hcur)
  unfold staticBlock?
  refine .get ((see_peekWord hcur.facing).see fun w => ?_)
  dsimp only
  split
  · refine (leads_keyword (by decide)).takes.bind hcur fun kw kw' c₁ c₁' hkw h₁ => ?_
    refine (stays_supplied? false).bind h₁ fun tail tail' c₂ c₂' htail h₂ => ?_
    refine (see_nextIs _ h₂.facing).see fun isBrace => ?_
    split
    · refine (hread _).stays.bind h₂ fun body body' c₃ c₃' hbody h₃ => ?_
      exact .pure ⟨by simp [hkw, ← Option.toList_map, htail, hbody], h₃⟩
    · exact hback c₂ c₂'
  · exact hback cur cur'

theorem takes_classMember (hread : Alike m read read') :
    Takes m (List.map unplaced) (classMember read) (classMember read') := by
  intro cur cur' hcur
  unfold classMember
  refine (see_nextIs _ hcur.facing).see fun isSemicolon => ?_
  split
  · refine (leads_mark (by decide)).takes.bind hcur fun sign sign' c₁ c₁' hsign h₁ => ?_
    exact .pure ⟨by simp [hsign], h₁⟩
  refine (agree_staticBlock? hread hcur).andThen fun o o' c₁ c₁' h₁ => ?_
  match o, o', h₁ with
  | some b, some b', ⟨hb, h₁⟩ => exact .pure ⟨by simp [hb], h₁⟩
  | none, none, h₁ =>
    refine (stays_decorators hread).bind h₁ fun marks marks' c₂ c₂' hmarks h₂ => ?_
    refine (stays_staticModifier true).bind h₂ fun static static' c₃ c₃' hstatic h₃ => ?_
    refine (stays_accessModifiers true).bind h₃ fun mods mods' c₄ c₄' hmods h₄ => ?_
    refine (leads_propertyName hread).takes.bind h₄ fun name name' c₅ c₅' hname h₅ => .get ?_
    have htail (isMethod : Bool) : Agree
        (if isMethod then do
          return [(← methodFrom read (marks ++ static ++ mods) name).inRole .member]
        else if mods.isEmpty && static.all (·.kind == "static") then
          fieldFrom read (marks ++ static) name
        else failure)
        (if isMethod then do
          return [(← methodFrom read' (marks' ++ static' ++ mods') name').inRole .member]
        else if mods'.isEmpty && static'.all (·.kind == "static") then
          fieldFrom read' (marks' ++ static') name'
        else failure)
        c₅ c₅' (Reach m (List.map unplaced)) := by
      rw [isEmpty_congr hmods, all_kind_congr (· == "static") hstatic]
      split
      · refine (leads_methodFrom hread (by simp [hmarks, hstatic, hmods]) hname).stays.bind h₅
          fun method method' c₆ c₆' hmethod h₆ => ?_
        exact .pure ⟨by simp [hmethod], h₆⟩
      split
      · exact stays_fieldFrom hread (by simp [hmarks, hstatic]) hname c₅ c₅' h₅
      · exact .failure
    rcases h₅.ahead? true false with
      ⟨hahead, hahead'⟩ | ⟨next, next', question, hahead, hahead', hnext⟩
    · rw [hahead, hahead']
      exact htail false
    · rw [hahead, hahead']
      dsimp only
      rw [hnext.rest]
      exact htail _

theorem leads_classBody (hread : Alike m read read') :
    Leads m unplaced (classBody read) (classBody read') := by
  intro cur cur' hcur
  unfold classBody
  refine (leads_mark (by decide)).bind hcur fun opening opening' c₁ c₁' hopening h₁ => ?_
  refine (stays_many (List.map unplaced) fun j hj cur cur' hcur => ?_).bind h₁
    fun members members' c₂ c₂' hmembers h₂ => ?_
  · refine (see_nextIs _ hcur.facing).see fun isEnd => ?_
    split
    · exact .stop hcur
    · exact (takes_classMember (hread.of_lt hj) cur cur' hcur).turn
  · refine (leads_mark (by decide)).stays.bind h₂ fun closing closing' c₃ c₃' hclosing h₃ => ?_
    refine .pure ⟨?_, h₃⟩
    simp only [unplaced_branch, hopening, List.map_append, List.map_flatten, hmembers, List.map_cons,
      hclosing]

-- The parts of a class without places.
def ClassParts.view (p : ClassParts) : Concrete × List Concrete × Bool :=
  (p.first.unplaced, p.more.map unplaced, p.isNamed)

theorem ClassParts.unplaced_expression {p p' : ClassParts} (h : p'.view = p.view) :
    p'.expression.unplaced = p.expression.unplaced := by
  simp only [view, Prod.mk.injEq] at h
  simp only [expression, unplaced_branch, h]

theorem ClassParts.unplaced_declaration {p p' : ClassParts} (h : p'.view = p.view)
    (hts : ts'.map unplaced = ts.map unplaced) :
    (p'.declaration ts').unplaced = (p.declaration ts).unplaced := by
  simp only [view, Prod.mk.injEq] at h
  simp only [declaration, unplaced_branch, List.map_append, h, hts]

theorem leads_classParts (hread : Alike m read read') (hts : ts'.map unplaced = ts.map unplaced) :
    Leads m ClassParts.view (classParts read ts) (classParts read' ts') := by
  intro cur cur' hcur
  unfold classParts
  refine (leads_keyword (by decide)).bind hcur fun kw kw' c₁ c₁' hkw h₁ => ?_
  refine (see_peekWord h₁.facing).see fun w => ?_
  extract_lets rest rest'
  have hrest (name name' : List Concrete) (c c' : Cursor)
      (hname : name'.map unplaced = name.map unplaced) (hc : Before m c c') :
      Agree (rest name) (rest' name') c c' (Reach m ClassParts.view) := by
    refine (see_peekWord hc.facing).see fun w => ?_
    extract_lets body body'
    have hbody (heritage heritage' : List Concrete) (c c' : Cursor)
        (hheritage : heritage'.map unplaced = heritage.map unplaced) (hc : Before m c c') :
        Agree (body heritage) (body' heritage') c c' (Reach m ClassParts.view) := by
      refine (leads_classBody hread).stays.bind hc fun block block' c₂ c₂' hblock h₂ => ?_
      have hparts : (ts' ++ kw' :: name' ++ heritage' ++ [block'.inRole .body]).map unplaced =
          (ts ++ kw :: name ++ heritage ++ [block.inRole .body]).map unplaced := by
        simp [hts, hkw, hname, hheritage, hblock]
      rw [isEmpty_congr hname]
      generalize ts ++ kw :: name ++ heritage ++ [block.inRole .body] = parts at hparts ⊢
      generalize ts' ++ kw' :: name' ++ heritage' ++ [block'.inRole .body] = parts' at hparts ⊢
      match parts, parts', hparts with
      | [], [], _ => exact .failure
      | first :: more, first' :: more', hparts =>
        obtain ⟨hfirst, hmore⟩ := List.cons.inj hparts
        exact .pure ⟨by simp only [ClassParts.view, hfirst, hmore], h₂⟩
    split
    · refine (leads_keyword (by decide)).stays.bind hc fun ext ext' c₂ c₂' hext h₂ => ?_
      refine (provides_inner hread).stays.bind h₂ fun e e' c₃ c₃' he h₃ => ?_
      exact .pure_bind (hbody [_] [_] c₃ c₃' (by simp [hext, he]) h₃)
    · exact .pure_bind (hbody [] [] c c' rfl hc)
  split
  · exact .pure_bind (hrest [] [] c₁ c₁' rfl h₁)
  · refine (leads_word _).stays.bind h₁ fun name name' c₂ c₂' hname h₂ => ?_
    exact .pure_bind (hrest [_] [_] c₂ c₂' (by simp [hname]) h₂)

end Flavoring.JavaScript.Parser
