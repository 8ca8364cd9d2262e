import Flavoring.Proofs.JavaScript.Agreement.Basic

/-! Agreement on literals, and on what the rules of the grammar share. -/

namespace Flavoring.JavaScript.Parser

open Concrete
open Cursor (Before Facing)

variable {m n : Nat} {cur cur' : Cursor} {read read' : Reader} {p p' : Parser Concrete}
  {t t' : Concrete}

-- Two readers that serve every goal alike, with fewer than `m` characters left.
def Alike (m : Nat) (read read' : Reader) : Prop := ∀ goal, Provides m (read goal) (read' goal)

theorem Alike.mono (h : Alike n read read') (hm : m ≤ n) : Alike m read read' :=
  fun goal => (h goal).mono hm

theorem Alike.of_lt (h : Alike n read read') (hm : m < n) : Alike m read read' :=
  h.mono (Nat.le_of_lt hm)

/-! What rules share -/

theorem Agree.settled (h : Agree p p' cur cur' (Reach m unplaced)) :
    Agree (settled p) (settled p') cur cur' (Reach m unplaced) := by
  unfold Parser.settled
  refine h.andThen fun t t' next next' hreach => ?_
  rw [isSettled_congr hreach.1]
  split
  · exact .pure hreach
  · exact .failure

theorem Provides.settled (h : Provides m p p') : Provides m (settled p) (settled p') :=
  fun j hj cur cur' hcur => (h j hj cur cur' hcur).settled

theorem provides_inner (hread : Alike m read read') : Provides m (inner read) (inner read') :=
  (hread _).settled

theorem stays_sequenceFrom (hread : Alike m read read') (s : Setting)
    (ht : t'.unplaced = t.unplaced) :
    Stays m unplaced (sequenceFrom read s t) (sequenceFrom read' s t') := by
  intro cur cur' hcur
  unfold sequenceFrom
  refine (stays_many (List.map unplaced) fun j hj cur cur' hcur => ?_).bind hcur
    fun more more' next next' hmore hnext => ?_
  · refine .get ?_
    rcases hcur.ahead? s.semicolon true with
      ⟨hahead, hahead'⟩ | ⟨next, next', question, hahead, hahead', hnext⟩
    · rw [hahead, hahead']
      exact .stop hcur
    · rw [hahead, hahead']
      dsimp only
      rw [hnext.rest]
      split
      · refine .set ((stays_leaf "," .anonymous 1).bind hnext fun comma comma' c₁ c₁' hcomma h₁ => ?_)
        refine ((hread _).settled j hj).bind h₁ fun a a' c₂ c₂' ha h₂ => ?_
        exact .pure ⟨by simp [hcomma, ha], h₂⟩
      · exact .stop hcur
  · refine .pure ⟨?_, hnext⟩
    have hempty : more'.isEmpty = more.isEmpty := by
      rw [← List.isEmpty_map (f := List.map unplaced), hmore, List.isEmpty_map]
    rw [hempty]
    split
    · exact ht
    · simp only [unplaced_branch, ht, List.map_flatten, hmore]

theorem provides_innerExpressions (hread : Alike m read read') :
    Provides m (innerExpressions read) (innerExpressions read') := by
  intro j hj cur cur' hcur
  unfold innerExpressions
  refine (provides_inner hread j hj).bind hcur fun t t' next next' ht hnext => ?_
  exact stays_sequenceFrom (hread.of_lt hj) {} ht next next' hnext

theorem leads_condition (hread : Alike m read read') :
    Leads m unplaced (condition read) (condition read') := by
  intro cur cur' hcur
  unfold condition
  refine (leads_mark (by decide)).bind hcur fun opening opening' c₁ c₁' hopening h₁ => ?_
  refine (provides_innerExpressions hread).stays.bind h₁ fun e e' c₂ c₂' he h₂ => ?_
  refine (leads_mark (by decide)).stays.bind h₂ fun closing closing' c₃ c₃' hclosing h₃ => ?_
  exact .pure ⟨by simp [hopening, he, hclosing], h₃⟩

theorem see_arrowAhead (s : Setting) (h : Before n cur cur') :
    Agree (arrowAhead s) (arrowAhead s) cur cur' (Same cur cur') := by
  unfold arrowAhead
  refine .get ?_
  rcases h.ahead? s.semicolon true with
    ⟨hahead, hahead'⟩ | ⟨next, next', question, hahead, hahead', hnext⟩
  · rw [hahead, hahead']
    exact .pure ⟨rfl, rfl, rfl⟩
  · rw [hahead, hahead']
    exact .pure ⟨by rw [hnext.rest], rfl, rfl⟩

theorem provides_spreadOrElement (hread : Alike m read read') :
    Provides m (spreadOrElement read) (spreadOrElement read') := by
  intro j hj cur cur' hcur
  unfold spreadOrElement
  refine (see_peek hcur.facing).see fun cs => ?_
  split
  · refine (leads_mark (by decide)).takes.bind hcur fun dots dots' c₁ c₁' hdots h₁ => ?_
    refine (hread.of_lt hj _).stays.bind h₁ fun e e' c₂ c₂' he h₂ => ?_
    exact .pure ⟨by simp [hdots, he], h₂⟩
  · exact hread _ j hj cur cur' hcur

theorem agree_parameterList {items items' : List Concrete} (ht : t'.unplaced = t.unplaced)
    (hitems : items'.map unplaced = items.map unplaced) (hcur : Before m cur cur') :
    Agree (parameterList t items) (parameterList t' items') cur cur' (Reach m unplaced) := by
  unfold parameterList
  rcases patterns?_cases "array" hitems with
    ⟨hnone, hnone'⟩ | ⟨ps, ps', hsome, hsome', hps⟩
  · rw [hnone, hnone']
    exact .failure
  · rw [hsome, hsome']
    exact .pure ⟨by simp [ht, hps], hcur⟩

theorem leads_parameters (hread : Alike m read read') :
    Leads m unplaced (parameters read) (parameters read') := by
  intro cur cur' hcur
  unfold parameters
  refine (leads_mark (by decide)).bind hcur fun opening opening' c₁ c₁' hopening h₁ => ?_
  refine (stays_listOf (by decide) (provides_spreadOrElement hread)).bind h₁
    fun items items' c₂ c₂' hitems h₂ => ?_
  refine (agree_parameterList hopening hitems h₂).andThen fun ps ps' c₃ c₃' h₃ => ?_
  exact .pure ⟨by simp [h₃.1], h₃.2⟩

/-! Templates and regular expressions -/

theorem leads_template (hread : Alike m read read') :
    Leads m unplaced (template read) (template read') := by
  intro cur cur' hcur
  unfold template
  refine (leads_mark (by decide)).bind hcur fun opening opening' c₁ c₁' hopening h₁ => ?_
  refine (stays_many unplaced fun j hj cur cur' hcur => ?_).bind h₁
    fun parts parts' c₂ c₂' hparts h₂ => ?_
  · refine .get ?_
    rw [hcur.rest]
    split
    · exact .stop hcur
    · exact (takes_adjacent "escape_sequence" rfl).bind hcur fun _ _ _ _ h h' => .pure ⟨h, h'⟩
    · refine (takes_adjacentMark (by decide)).bind hcur fun dollar dollar' c₃ c₃' hdollar h₃ => ?_
      refine (provides_innerExpressions (hread.of_lt hj)).stays.bind h₃
        fun e e' c₄ c₄' he h₄ => ?_
      refine (leads_mark (by decide)).stays.bind h₄ fun close close' c₅ c₅' hclose h₅ => ?_
      exact .pure ⟨by simp [hdollar, he, hclose], h₅⟩
    · exact (takes_adjacent "string_fragment" rfl).bind hcur fun _ _ _ _ h h' => .pure ⟨h, h'⟩
  · refine (takes_adjacentMark (by decide)).stays.bind h₂ fun close close' c₃ c₃' hclose h₃ => ?_
    exact .pure ⟨by simp [hopening, hparts, hclose], h₃⟩

-- Where the flags of a regular expression start.
theorem flagsWithin_cases {a b : Nat} (semicolon : Bool) (h : Before n cur cur')
    (ha : cur.rest.length < a) (hb : cur.rest.length < b) :
    flagsWithin semicolon a cur = none ∧ flagsWithin semicolon b cur' = none ∨
      ∃ next next', flagsWithin semicolon a cur = some next ∧
        flagsWithin semicolon b cur' = some next' ∧ Before n next next' := by
  induction a generalizing b cur cur' with
  | zero => omega
  | succ a ih =>
    cases b with
    | zero => omega
    | succ b =>
      have hsep := h.skipSeparators
      have hle := Cursor.length_skipSeparators_le cur
      unfold flagsWithin
      rw [h.rest]
      split
      · exact Or.inr ⟨_, _, rfl, rfl, h⟩
      split
      · exact Or.inl ⟨rfl, rfl⟩
      · dsimp only
        rw [hsep.rest]
        split
        · exact Or.inl ⟨rfl, rfl⟩
        · next hk =>
          have hlt := Cursor.length_forward_lt hk (Cursor.ne_nil_of_comment rfl hk)
          exact ih (hsep.forward _) (by omega) (by omega)

theorem leads_regex (s : Setting) : Leads m unplaced (regex s) (regex s) := by
  intro cur cur' hcur
  unfold regex
  refine (leads_mark (by decide)).bind hcur fun opening opening' c₁ c₁' hopening h₁ => ?_
  refine (takes_adjacent "regex_pattern" rfl).stays.bind h₁ fun body body' c₂ c₂' hbody h₂ => ?_
  refine (takes_adjacentMark (by decide)).stays.bind h₂ fun closing closing' c₃ c₃' hclosing h₃ => ?_
  refine .get ?_
  rcases flagsWithin_cases s.semicolon h₃ (Nat.lt_add_one_of_le h₃.fits)
    (Nat.lt_add_one_of_le h₃.fits') with ⟨hnone, hnone'⟩ | ⟨next, next', hsome, hsome', hnext⟩
  · rw [hnone, hnone']
    exact .pure ⟨by simp [hopening, hbody, hclosing], h₃⟩
  · rw [hsome, hsome']
    refine .set ((takes_adjacent "regex_flags" rfl).stays.bind hnext
      fun flags flags' c₄ c₄' hflags h₄ => ?_)
    exact .pure ⟨by simp [hopening, hbody, hclosing, hflags], h₄⟩

/-! Arrays and arguments -/

theorem leads_array (hread : Alike m read read') : Leads m unplaced (array read) (array read') := by
  intro cur cur' hcur
  unfold array
  refine (leads_mark (by decide)).bind hcur fun opening opening' c₁ c₁' hopening h₁ => ?_
  refine (stays_listWithHoles (by decide) (provides_spreadOrElement hread)).bind h₁
    fun items items' c₂ c₂' hitems h₂ => ?_
  exact .pure ⟨by simp [hopening, hitems], h₂⟩

theorem leads_openArguments (hread : Alike m read read') :
    Leads m unplaced (openArguments read) (openArguments read') := by
  intro cur cur' hcur
  unfold openArguments
  refine (leads_mark (by decide)).bind hcur fun opening opening' c₁ c₁' hopening h₁ => ?_
  refine (stays_listWithHoles (by decide) (provides_spreadOrElement hread)).bind h₁
    fun items items' c₂ c₂' hitems h₂ => ?_
  exact .pure ⟨by simp [hopening, hitems], h₂⟩

theorem leads_arguments (hread : Alike m read read') :
    Leads m unplaced (arguments read) (arguments read') := by
  intro cur cur' hcur
  unfold arguments
  refine (leads_openArguments hread).bind hcur fun args args' c₁ c₁' hargs h₁ => ?_
  rw [allSettled_congr (children_congr hargs)]
  split
  · exact .pure ⟨hargs, h₁⟩
  · exact .failure

/-! Members -/

theorem leads_propertyName (hread : Alike m read read') :
    Leads m unplaced (propertyName read) (propertyName read') := by
  intro cur cur' hcur
  unfold propertyName
  refine (see_peek hcur).see fun cs => ?_
  split
  · exact leads_string cur cur' hcur
  split
  · exact leads_token "number" (by decide) cur cur' hcur
  split
  · exact leads_token "private_property_identifier" rfl cur cur' hcur
  split
  · refine (leads_mark (by decide)).bind hcur fun opening opening' c₁ c₁' hopening h₁ => ?_
    refine (provides_inner hread).stays.bind h₁ fun e e' c₂ c₂' he h₂ => ?_
    refine (leads_mark (by decide)).stays.bind h₂ fun closing closing' c₃ c₃' hclosing h₃ => ?_
    exact .pure ⟨by simp [hopening, he, hclosing], h₃⟩
  · exact leads_word "property_identifier" cur cur' hcur

theorem stays_modifier? (semicolon : Bool) {words : List String} (hwords : "" ∉ words) :
    Stays m (Option.map unplaced) (modifier? semicolon words) (modifier? semicolon words) := by
  intro cur cur' hcur
  have hback (c c' : Cursor) : Agree (do set cur; return none) (do set cur'; return none) c c'
      (Reach m (Option.map unplaced)) := .set (.pure ⟨rfl, hcur⟩)
  unfold modifier?
  refine .get ((see_peekWord hcur.facing).see fun w => ?_)
  dsimp only
  split
  · next hw =>
    have hw : w ≠ "" := by
      rintro rfl
      exact hwords (List.contains_iff_mem.mp hw)
    refine (leads_keyword hw).stays.bind hcur fun kw kw' c₁ c₁' hkw h₁ => .get ?_
    rcases h₁.ahead? semicolon false with
      ⟨hahead, hahead'⟩ | ⟨next, next', question, hahead, hahead', hnext⟩
    · rw [hahead, hahead']
      exact hback c₁ c₁'
    · rw [hahead, hahead']
      dsimp only
      rw [hnext.rest]
      split
      · exact .pure ⟨by simp [hkw], h₁⟩
      · exact hback c₁ c₁'
  · exact hback cur cur'

theorem stays_accessModifiers (semicolon : Bool) :
    Stays m (List.map unplaced) (accessModifiers semicolon) (accessModifiers semicolon) := by
  intro cur cur' hcur
  unfold accessModifiers
  refine (stays_modifier? semicolon (by decide)).bind hcur fun first first' c₁ c₁' hfirst h₁ => ?_
  refine (see_nextIs _ h₁.facing).see fun isStar => ?_
  dsimp only
  split
  · refine .bind (.map ((leads_mark (by decide)).stays _ _ h₁ |>.mono fun star star' c₂ c₂' h₂ => ?_))
    exact .pure ⟨by simp [← Option.toList_map, hfirst, h₂.1], h₂.2⟩
  · refine (stays_modifier? semicolon (by decide)).bind h₁ fun star star' c₂ c₂' hstar h₂ => ?_
    exact .pure ⟨by simp [← Option.toList_map, hfirst, hstar], h₂⟩

theorem stays_staticModifier (semicolon : Bool) :
    Stays m (List.map unplaced) (staticModifier semicolon) (staticModifier semicolon) := by
  intro cur cur' hcur
  unfold staticModifier
  refine (see_peek hcur.facing).see fun cs => ?_
  split
  · refine (stays_modifier? semicolon (by decide)).bind hcur fun o o' c₁ c₁' ho h₁ => .pure ⟨?_, h₁⟩
    simp only [← Option.toList_map, ho]
  · refine .modify ((stays_leaf "static get" .anonymous _).bind hcur.facing
      fun t t' c₁ c₁' ht h₁ => ?_)
    exact .pure ⟨by simp [ht], h₁⟩

theorem agree_memberNode (kind : String) {parts parts' : List Concrete}
    (h : parts'.map unplaced = parts.map unplaced) (hcur : Before m cur cur') :
    Agree (memberNode kind parts) (memberNode kind parts') cur cur' (Reach m unplaced) := by
  match parts, parts', h with
  | [], [], _ => exact .failure
  | first :: more, first' :: more', h =>
    obtain ⟨hfirst, hmore⟩ := List.cons.inj h
    exact .pure ⟨by simp [hfirst, hmore], hcur⟩

theorem leads_methodFrom (hread : Alike m read read') {before before' : List Concrete}
    (hbefore : before'.map unplaced = before.map unplaced) (ht : t'.unplaced = t.unplaced) :
    Leads m unplaced (methodFrom read before t) (methodFrom read' before' t') := by
  intro cur cur' hcur
  unfold methodFrom
  refine (leads_parameters hread).bind hcur fun params params' c₁ c₁' hparams h₁ => ?_
  refine (hread _).stays.bind h₁ fun body body' c₂ c₂' hbody h₂ => ?_
  exact agree_memberNode "method_definition" (by simp [hbefore, ht, hparams, hbody]) h₂

-- A name, and the members of it that dots lead to.
theorem stays_path (ht : t'.unplaced = t.unplaced) :
    Stays m unplaced
      (grow (fun object => do
        if ← nextIs (· == '.') then do
          let dot ← mark "."
          let property ← word "property_identifier"
          return some (branch "member_expression" (object.inRole .object)
            [dot, property.inRole .property])
        else return none) t)
      (grow (fun object => do
        if ← nextIs (· == '.') then do
          let dot ← mark "."
          let property ← word "property_identifier"
          return some (branch "member_expression" (object.inRole .object)
            [dot, property.inRole .property])
        else return none) t') := by
  refine stays_grow (fun object object' hobject j hj cur cur' hcur => ?_) ht
  refine (see_nextIs _ hcur.facing).see fun isDot => ?_
  split
  · refine (leads_mark (by decide)).takes.bind hcur fun dot dot' c₁ c₁' hdot h₁ => ?_
    refine (leads_word _).stays.bind h₁ fun property property' c₂ c₂' hproperty h₂ => ?_
    exact .pure ⟨by simp [hobject, hdot, hproperty], h₂⟩
  · exact .stop hcur

theorem leads_decorator (hread : Alike m read read') :
    Leads m unplaced (decorator read) (decorator read') := by
  intro cur cur' hcur
  unfold decorator
  refine (leads_mark (by decide)).bind hcur fun sign sign' c₁ c₁' hsign h₁ => ?_
  refine (leads_word _).stays.bind h₁ fun name name' c₂ c₂' hname h₂ => ?_
  refine (stays_path hname).bind h₂ fun path path' c₃ c₃' hpath h₃ => ?_
  refine (see_nextIs _ h₃.facing).see fun isCall => ?_
  split
  · refine (leads_arguments hread).stays.bind h₃ fun args args' c₄ c₄' hargs h₄ => ?_
    exact .pure ⟨by simp [hsign, hpath, hargs], h₄⟩
  · exact .pure ⟨by simp [hsign, hpath], h₃⟩

theorem turns_decorators (hread : Alike m read read') :
    Turns (m + 1) unplaced
      (do if ← nextIs (· == '@') then some <$> decorator read else return none)
      (do if ← nextIs (· == '@') then some <$> decorator read' else return none) := by
  intro j hj cur cur' hcur
  refine (see_nextIs _ hcur.facing).see fun isMark => ?_
  split
  · exact (leads_decorator (hread.mono (Nat.le_of_lt_succ hj)) cur cur' hcur.facing).turn
  · exact .stop hcur

theorem stays_decorators (hread : Alike m read read') :
    Stays (m + 1) (List.map unplaced) (decorators read) (decorators read') :=
  stays_many unplaced (turns_decorators hread)

-- Decorators where only the next token is known to be the same: there may be none.
theorem agree_decorators (hread : Alike m read read') (hcur : Facing (m + 1) cur cur') :
    Agree (decorators read) (decorators read') cur cur' fun marks marks' next next' =>
      marks'.map unplaced = marks.map unplaced ∧ Facing (m + 1) next next' := by
  refine agree_many_of_facing (fun j hj cur cur' hcur => ?_) hcur
  refine (see_nextIs _ hcur).see fun isMark => ?_
  split
  · exact .map ((leads_decorator (hread.mono hj) cur cur' hcur).mono fun _ _ _ _ h => h)
  · exact .pure ⟨rfl, rfl⟩

/-! Objects -/

theorem map_eq_triple {ts : List Concrete} {a b c : Concrete}
    (h : ts.map unplaced = [a, b, c].map unplaced) : ∃ a' b' c', ts = [a', b', c'] ∧
      a'.unplaced = a.unplaced ∧ b'.unplaced = b.unplaced ∧ c'.unplaced = c.unplaced := by
  simp only [List.map_cons, List.map_nil, List.map_eq_cons_iff, List.map_eq_nil_iff] at h
  obtain ⟨a', _, rfl, ha, b', _, rfl, hb, c', _, rfl, hc, rfl⟩ := h
  exact ⟨a', b', c', rfl, ha, hb, hc⟩

theorem leads_bracketMember (hread : Alike m read read') :
    Leads m unplaced (bracketMember read) (bracketMember read') := by
  intro cur cur' hcur
  unfold bracketMember
  refine (leads_array hread).bind hcur fun list list' c₁ c₁' hlist h₁ => ?_
  refine (see_peekChar h₁.facing).see fun c => ?_
  have hchildren := children_congr hlist
  split
  · refine (leads_mark (by decide)).stays.bind h₁ fun eq eq' c₂ c₂' heq h₂ => ?_
    rcases pattern?_cases .target hlist with
      ⟨hnone, hnone'⟩ | ⟨left, left', hsome, hsome', hleft⟩
    · rw [hnone, hnone']
      exact .failure
    · rw [hsome, hsome']
      refine (provides_inner hread).stays.bind h₂ fun right right' c₃ c₃' hright h₃ => ?_
      exact .pure ⟨by simp [hleft, heq, hright], h₃⟩
  · next c opening e closing hc htriple =>
    rw [htriple] at hchildren
    obtain ⟨opening', e', closing', htriple', hopening, he, hclosing⟩ := map_eq_triple hchildren
    rw [htriple']
    conv => arg 2; simp_match
    rw [standing_congr he, kind_congr he, isSettled_congr he]
    split
    · dsimp only
      split
      · refine (leads_mark (by decide)).stays.bind h₁ fun colon colon' c₂ c₂' hcolon h₂ => ?_
        refine (hread _).stays.bind h₂ fun value value' c₃ c₃' hvalue h₃ => ?_
        exact .pure ⟨by simp [hopening, he, hclosing, hcolon, hvalue], h₃⟩
      · exact (leads_methodFrom hread rfl (by simp [hopening, he, hclosing])).stays _ _ h₁
    · exact .failure
  · next hassign htriple =>
    split
    · exact (hassign rfl).elim
    · next htriple' =>
      rw [htriple'] at hchildren
      obtain ⟨_, _, _, heq, -⟩ := map_eq_triple hchildren.symm
      exact (htriple _ _ _ _ rfl heq).elim
    · exact .failure

theorem takes_plainMember (hread : Alike m read read') :
    Takes m unplaced (plainMember read) (plainMember read') := by
  intro cur cur' hcur
  unfold plainMember
  refine (stays_decorators hread).bind hcur fun marks marks' c₁ c₁' hmarks h₁ => ?_
  refine (stays_staticModifier false).bind h₁ fun static static' c₂ c₂' hstatic h₂ => ?_
  refine (stays_accessModifiers false).bind h₂ fun mods mods' c₃ c₃' hmods h₃ => ?_
  dsimp only
  have hbefore : (marks' ++ static' ++ mods').map unplaced = (marks ++ static ++ mods).map unplaced := by
    simp only [List.map_append, hmarks, hstatic, hmods]
  generalize marks ++ static ++ mods = before at hbefore ⊢
  generalize marks' ++ static' ++ mods' = before' at hbefore ⊢
  refine (leads_propertyName hread).takes.bind h₃ fun name name' c₄ c₄' hname h₄ => ?_
  refine (see_peekChar h₄.facing).see fun next => ?_
  rw [isEmpty_congr hbefore, kind_congr hname]
  split
  · exact (leads_methodFrom hread hbefore hname).stays _ _ h₄
  · split
    · refine (leads_mark (by decide)).stays.bind h₄ fun colon colon' c₅ c₅' hcolon h₅ => ?_
      refine (hread _).stays.bind h₅ fun value value' c₆ c₆' hvalue h₆ => ?_
      exact .pure ⟨by simp [hname, hcolon, hvalue], h₆⟩
    · exact .failure
  · split
    · split
      · refine (leads_mark (by decide)).stays.bind h₄ fun eq eq' c₅ c₅' heq h₅ => ?_
        refine (provides_inner hread).stays.bind h₅ fun right right' c₆ c₆' hright h₆ => ?_
        exact .pure ⟨by simp [hname, heq, hright], h₆⟩
      · exact .pure ⟨by simp [hname], h₄⟩
    · exact .failure

theorem provides_objectMember (hread : Alike m read read') :
    Provides m (objectMember read) (objectMember read') := by
  intro j hj cur cur' hcur
  have hread' := hread.of_lt hj
  unfold objectMember
  refine (see_peek hcur.facing).see fun cs => ?_
  split
  · split
    · exact takes_plainMember hread' cur cur' hcur
    · exact provides_spreadOrElement hread j hj cur cur' hcur
  · exact (leads_bracketMember hread').takes cur cur' hcur
  · refine (hread _ j hj).bind hcur fun t t' next next' ht hnext => ?_
    have hchildren := children_congr ht
    rw [kind_congr ht]
    generalize t.kind = kind
    cases hcs : t.children with
    | nil =>
      rw [hcs, List.map_nil, List.map_eq_nil_iff] at hchildren
      rw [hchildren]
      split
      · contradiction
      · exact .failure
    | cons left more =>
      rw [hcs, List.map_cons, List.map_eq_cons_iff] at hchildren
      obtain ⟨left', more', hcs', hleft, -⟩ := hchildren
      rw [hcs']
      by_cases hkind : kind = "assignment_expression"
      · subst hkind
        conv => arg 1; simp_match
        conv => arg 2; simp_match
        rw [kind_congr hleft]
        split
        · exact .pure ⟨by simp [ht], hnext⟩
        · exact .failure
      · split <;> split <;> first | contradiction | exact .failure
  · exact takes_plainMember hread' cur cur' hcur

theorem leads_object (hread : Alike m read read') : Leads m unplaced (object read) (object read') := by
  intro cur cur' hcur
  unfold object
  refine (leads_mark (by decide)).bind hcur fun opening opening' c₁ c₁' hopening h₁ => ?_
  refine (stays_listWithHoles (by decide) (provides_objectMember hread)).bind h₁
    fun items items' c₂ c₂' hitems h₂ => ?_
  exact .pure ⟨by simp [hopening, hitems], h₂⟩

end Flavoring.JavaScript.Parser
