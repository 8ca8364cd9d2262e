import Flavoring.JavaScript.Parser.Expression
import Flavoring.Proofs.JavaScript.Agreement.Functions
import Flavoring.Proofs.JavaScript.Agreement.Markup

/-! Agreement on expressions. -/

namespace Flavoring.JavaScript.Parser

open Concrete
open Cursor (Before Facing)

variable {m n : Nat} {cur cur' : Cursor} {read read' : Reader} {t t' : Concrete}
  {ts ts' : List Concrete}

/-! Primary expressions -/

theorem leads_parenthesized (hread : Alike m read read') (s : Setting) :
    Leads m unplaced (parenthesized read s) (parenthesized read' s) := by
  intro cur cur' hcur
  unfold parenthesized
  refine (leads_mark (by decide)).bind hcur fun opening opening' c₁ c₁' hopening h₁ => ?_
  refine (stays_listOf (by decide) (provides_spreadOrElement hread)).bind h₁
    fun items items' c₂ c₂' hitems h₂ => ?_
  refine (see_arrowAhead s h₂).see fun isArrow => ?_
  split
  · refine (agree_parameterList hopening hitems h₂).andThen fun params params' c₃ c₃' h₃ => ?_
    exact (leads_arrowFrom hread s (by simp [h₃.1]) rfl).stays c₃ c₃' h₃.2
  have hlength : items'.length = items.length := by
    rw [← List.length_map (f := unplaced), hitems, List.length_map]
  have hcontent : items'.dropLast.map unplaced = items.dropLast.map unplaced := by
    rw [List.map_dropLast, List.map_dropLast, hitems]
  have hclosing : (items'.drop (items'.length - 1)).map unplaced =
      (items.drop (items.length - 1)).map unplaced := by
    rw [hlength, List.map_drop, List.map_drop, hitems]
  dsimp only
  generalize items.dropLast = content at hcontent ⊢
  generalize items'.dropLast = content' at hcontent ⊢
  match content, content', hcontent with
  | [], [], _ => exact .failure
  | first :: more, first' :: more', hcontent =>
    obtain ⟨hfirst, hmore⟩ := List.cons.inj hcontent
    have htrailing : (more'.getLast?.map (·.kind == ",")).getD false =
        (more.getLast?.map (·.kind == ",")).getD false := by
      have hlast (us : List Concrete) : us.getLast?.map (·.kind == ",") =
          (us.map kind).getLast?.map (· == ",") := by
        rw [List.getLast?_map, Option.map_map]
        rfl
      rw [hlast, hlast, map_kind_congr hmore]
    dsimp only
    rw [htrailing, allSettled_congr hcontent, any_kind_congr (· == "spread_element") hcontent,
      isEmpty_congr hmore]
    split
    · exact .failure
    · refine .pure ⟨?_, h₂⟩
      split <;> simp only [unplaced_branch, hopening, List.map_cons, hclosing, hfirst, hmore]

theorem leads_importOperand (hread : Alike m read read') :
    Leads m unplaced (importOperand read) (importOperand read') := by
  intro cur cur' hcur
  unfold importOperand
  refine (leads_word _).bind hcur fun kw kw' c₁ c₁' hkw h₁ => ?_
  refine (see_peek h₁.facing).see fun cs => ?_
  split
  · refine (leads_arguments hread).stays.bind h₁ fun args args' c₂ c₂' hargs h₂ => ?_
    exact .pure ⟨by simp [hkw, hargs], h₂⟩
  split
  · refine (leads_token "optional_chain" rfl).stays.bind h₁ fun chain chain' c₂ c₂' hchain h₂ => ?_
    refine (leads_word _).stays.bind h₂ fun property property' c₃ c₃' hproperty h₃ => ?_
    exact .pure ⟨by simp [hkw, hchain, hproperty], h₃⟩
  · refine (leads_mark (by decide)).stays.bind h₁ fun dot dot' c₂ c₂' hdot h₂ => ?_
    refine (leads_keyword (by decide)).stays.bind h₂ fun name name' c₃ c₃' hname h₃ => ?_
    exact .pure ⟨by simp [hkw, hdot, hname], h₃⟩

theorem leads_nameOperand (hread : Alike m read read') (s : Setting) :
    Leads m unplaced (nameOperand read s) (nameOperand read' s) := by
  intro cur cur' hcur
  unfold nameOperand
  refine (leads_word _).bind hcur fun name name' c₁ c₁' hname h₁ => ?_
  refine (see_arrowAhead s h₁).see fun isArrow => ?_
  split
  · exact (leads_arrowFrom hread s (by simp [hname]) rfl).stays c₁ c₁' h₁
  · exact .pure ⟨hname, h₁⟩

theorem hasHole_congr (h : ts'.map unplaced = ts.map unplaced) :
    asyncOperand.hasHole ts' = asyncOperand.hasHole ts := by
  induction ts generalizing ts' with
  | nil =>
    rw [List.map_nil, List.map_eq_nil_iff] at h
    rw [h]
  | cons a ts ih =>
    obtain ⟨a', ts', rfl, ha, hts⟩ := List.map_eq_cons_iff.mp h
    cases ts with
    | nil =>
      rw [List.map_nil, List.map_eq_nil_iff] at hts
      rw [hts]
      rfl
    | cons b ts =>
      obtain ⟨b', us', rfl, hb, -⟩ := List.map_eq_cons_iff.mp hts
      rw [asyncOperand.hasHole, asyncOperand.hasHole, ih hts, kind_congr ha, kind_congr hb]

theorem leads_asyncOperand (hread : Alike m read read') (s : Setting) (constructing : Bool) :
    Leads m unplaced (asyncOperand read s constructing) (asyncOperand read' s constructing) := by
  intro cur cur' hcur
  unfold asyncOperand
  refine .get ((leads_word _).bind hcur fun name name' c₁ c₁' hname h₁ => .get ?_)
  have hplain : Agree (pure name) (pure name') c₁ c₁' (Reach m unplaced) := .pure ⟨hname, h₁⟩
  rcases h₁.ahead? s.semicolon true with
    ⟨hahead, hahead'⟩ | ⟨next, next', question, hahead, hahead', hnext⟩
  · rw [hahead, hahead']
    exact hplain
  rw [hahead, hahead']
  dsimp only
  rw [hnext.rest]
  split
  · refine .set ((leads_functionParts hread true).bind hcur fun parts parts' c₂ c₂' hparts h₂ => ?_)
    exact .pure ⟨FunctionParts.unplaced_expression hparts, h₂⟩
  split
  · exact hplain
  split
  · refine .orElse (.set ((leads_word _).stays.bind hnext fun param param' c₂ c₂' hparam h₂ => ?_))
      hplain
    refine (see_arrowAhead s h₂).see fun isArrow => ?_
    split
    · exact (leads_arrowFrom hread s (by simp [hname]) (by simp [hparam])).stays c₂ c₂' h₂
    · exact .failure
  split
  · refine .set ((leads_openArguments hread).stays.bind hnext fun args args' c₂ c₂' hargs h₂ => ?_)
    have hchildren := children_congr hargs
    refine (see_arrowAhead s h₂).see fun isArrow => ?_
    split
    · generalize args.children = children at hchildren ⊢
      generalize args'.children = children' at hchildren ⊢
      match children, children', hchildren with
      | [], [], _ => exact .failure
      | opening :: items, opening' :: items', hchildren =>
        obtain ⟨hopening, hitems⟩ := List.cons.inj hchildren
        have hhead : items'.head?.any (·.kind == ",") = items.head?.any (·.kind == ",") := by
          have hkinds (us : List Concrete) : us.head?.any (·.kind == ",") =
              (us.map kind).head?.any (· == ",") := by
            rw [List.head?_map, Option.any_map]
          rw [hkinds, hkinds, map_kind_congr hitems]
        dsimp only
        rw [hhead, hasHole_congr hitems]
        split
        · exact .failure
        · refine (agree_parameterList hopening hitems h₂).andThen fun params params' c₃ c₃' h₃ => ?_
          exact (leads_arrowFrom hread s (by simp [hname]) (by simp [h₃.1])).stays c₃ c₃' h₃.2
    split
    · exact .set (.pure ⟨hname, h₁⟩)
    rw [allSettled_congr hchildren]
    split
    · exact .pure ⟨by simp [hname, hargs], h₂⟩
    · exact .failure
  split
  · exact (leads_arrowFrom hread s (by simp [hname]) rfl).stays c₁ c₁' h₁
  · exact hplain

theorem leads_wordOperand (hread : Alike m read read') (s : Setting) (constructing : Bool) :
    Leads m unplaced (wordOperand read s constructing) (wordOperand read' s constructing) := by
  intro cur cur' hcur
  unfold wordOperand
  refine (see_peekWord hcur).see fun w => ?_
  split
  · exact .failure
  · exact leads_asyncOperand hread s constructing cur cur' hcur
  · refine (leads_classParts hread rfl).bind hcur fun parts parts' c₁ c₁' hparts h₁ => ?_
    exact .pure ⟨ClassParts.unplaced_expression hparts, h₁⟩
  · refine (leads_functionParts hread true).bind hcur fun parts parts' c₁ c₁' hparts h₁ => ?_
    exact .pure ⟨FunctionParts.unplaced_expression hparts, h₁⟩
  · exact leads_importOperand hread cur cur' hcur
  · split
    · exact leads_word _ cur cur' hcur
    · exact leads_nameOperand hread s cur cur' hcur

theorem leads_primary (hread : Alike m read read') (s : Setting) (constructing : Bool) :
    Leads m unplaced (primary read s constructing) (primary read' s constructing) := by
  intro cur cur' hcur
  unfold primary
  refine (see_peek hcur).see fun cs => ?_
  split
  · exact leads_string cur cur' hcur
  split
  · exact leads_token "number" (by decide) cur cur' hcur
  split
  · exact leads_parenthesized hread s cur cur' hcur
  · exact leads_array hread cur cur' hcur
  · exact leads_object hread cur cur' hcur
  · exact leads_template hread cur cur' hcur
  · exact leads_regex s cur cur' hcur
  · refine (agree_decorators hread hcur).andThen fun marks marks' c₁ c₁' h₁ => ?_
    refine (leads_classParts hread h₁.1).bind h₁.2 fun parts parts' c₂ c₂' hparts h₂ => ?_
    exact .pure ⟨ClassParts.unplaced_expression hparts, h₂⟩
  · exact leads_wordOperand hread s constructing cur cur' hcur

/-! What is applied to an expression -/

theorem leads_property : Leads m unplaced property property := by
  intro cur cur' hcur
  unfold property
  refine (see_nextIs _ hcur).see fun isPrivate => ?_
  split
  · exact leads_token "private_property_identifier" rfl cur cur' hcur
  · exact leads_word _ cur cur' hcur

theorem leads_accessFrom (hread : Alike m read read') (ht : t'.unplaced = t.unplaced)
    (hts : ts'.map unplaced = ts.map unplaced) :
    Leads m unplaced (accessFrom read t ts) (accessFrom read' t' ts') := by
  intro cur cur' hcur
  unfold accessFrom
  dsimp only
  refine (see_nextIs _ hcur).see fun isIndex => ?_
  split
  · refine (leads_mark (by decide)).bind hcur fun opening opening' c₁ c₁' hopening h₁ => ?_
    refine (provides_innerExpressions hread).stays.bind h₁ fun index index' c₂ c₂' hindex h₂ => ?_
    refine (leads_mark (by decide)).stays.bind h₂ fun closing closing' c₃ c₃' hclosing h₃ => ?_
    exact .pure ⟨by simp [ht, hts, hopening, hindex, hclosing], h₃⟩
  · refine leads_property.bind hcur fun property property' c₁ c₁' hproperty h₁ => ?_
    exact .pure ⟨by simp [ht, hts, hproperty], h₁⟩

-- `next` stands before the operator, which belongs to the step if there is one.
theorem agree_accessStep (hread : Alike m read read') (op : String) {next next' : Cursor}
    (hcur : Before (m + 1) cur cur') (hnext : Before (m + 1) next next')
    (ht : t'.unplaced = t.unplaced) :
    Agree (accessStep read op next t) (accessStep read' op next' t') cur cur' (Turn m unplaced) := by
  unfold accessStep
  rw [isSettled_congr ht]
  split
  · exact .failure
  split
  · refine .set ((stays_leaf "." .anonymous 1).bind hnext fun dot dot' c₁ c₁' hdot h₁ => ?_)
    refine leads_property.takes.bind h₁ fun property property' c₂ c₂' hproperty h₂ => ?_
    exact .pure ⟨by simp [ht, hdot, hproperty], h₂⟩
  · refine .set ((stays_leaf "optional_chain" .named 2).bind hnext
      fun chain chain' c₁ c₁' hchain h₁ => ?_)
    dsimp only
    refine (see_nextIs _ h₁.facing).see fun isCall => ?_
    rw [isPrimary_congr ht]
    split
    · split
      · refine (leads_arguments hread).takes.bind h₁ fun args args' c₂ c₂' hargs h₂ => ?_
        exact .pure ⟨by simp [ht, hchain, hargs], h₂⟩
      · exact .failure
    · exact (leads_accessFrom hread ht (by simp [hchain]) c₁ c₁' h₁.facing).turn
  · exact .set (leads_accessFrom hread ht rfl next next' hnext.facing).turn
  · rw [isPrimary_congr ht, kind_congr ht]
    split
    · refine .set ((leads_template hread).takes.bind hnext fun text text' c₁ c₁' htext h₁ => ?_)
      exact .pure ⟨by simp [ht, htext], h₁⟩
    · exact .failure
  · exact .stop hcur

theorem turns_constructStep (hread : Alike m read read') (s : Setting)
    (ht : t'.unplaced = t.unplaced) :
    Turns m unplaced (constructStep read s t) (constructStep read' s t') := by
  intro j hj cur cur' hcur
  unfold constructStep
  refine .get ?_
  rcases hcur.ahead? s.semicolon true with
    ⟨hahead, hahead'⟩ | ⟨next, next', question, hahead, hahead', hnext⟩
  · rw [hahead, hahead']
    exact .stop hcur
  · rw [hahead, hahead']
    cases question with
    | true => exact .stop hcur
    | false =>
      dsimp only
      rw [hnext.rest]
      exact agree_accessStep (hread.of_lt hj) _ hcur hnext ht

theorem stays_appliedOnce (hread : Alike m read read') (s : Setting) (ht : t'.unplaced = t.unplaced) :
    Stays m unplaced (appliedOnce read s t) (appliedOnce read' s t') := by
  intro cur cur' hcur
  unfold appliedOnce
  refine .get ?_
  rcases hcur.ahead? s.semicolon true with
    ⟨hahead, hahead'⟩ | ⟨next, next', question, hahead, hahead', hnext⟩
  · rw [hahead, hahead']
    exact .pure ⟨ht, hcur⟩
  · rw [hahead, hahead']
    cases question with
    | true => exact .pure ⟨ht, hcur⟩
    | false =>
      dsimp only
      rw [hnext.rest]
      split
      · refine .set ((leads_arguments hread).stays.bind hnext fun args args' c₁ c₁' hargs h₁ => ?_)
        exact .pure ⟨by simp [ht, hargs], h₁⟩
      · exact .pure ⟨ht, hcur⟩

theorem leads_newExpression (hread : Alike m read read') (s : Setting) :
    Leads m unplaced (newExpression read s) (newExpression read' s) := by
  intro cur cur' hcur
  unfold newExpression
  refine (leads_keyword (by decide)).bind hcur fun kw kw' c₁ c₁' hkw h₁ => ?_
  refine (see_peek h₁.facing).see fun cs => ?_
  split
  · refine (leads_mark (by decide)).stays.bind h₁ fun dot dot' c₂ c₂' hdot h₂ => ?_
    refine (leads_keyword (by decide)).stays.bind h₂ fun name name' c₃ c₃' hname h₃ => ?_
    exact .pure ⟨by simp [hkw, hdot, hname], h₃⟩
  extract_lets finish begin finish' begin'
  have hfinish (first first' : Concrete) (c c' : Cursor) (hfirst : first'.unplaced = first.unplaced)
      (hc : Before m c c') : Agree (finish first) (finish' first') c c' (Reach m unplaced) := by
    refine (stays_grow (fun _ _ ht => turns_constructStep hread s ht) hfirst).bind hc
      fun callee callee' c₂ c₂' hcallee h₂ => ?_
    rw [isSettled_congr hcallee, isPrimary_congr hcallee, kind_congr hcallee]
    split
    · exact .failure
    dsimp only
    refine .get ?_
    have hbare : Agree (pure (branch "new_expression" kw [callee.inRole .callee]))
        (pure (branch "new_expression" kw' [callee'.inRole .callee])) c₂ c₂' (Reach m unplaced) :=
      .pure ⟨by simp [hkw, hcallee], h₂⟩
    rcases h₂.ahead? s.semicolon true with
      ⟨hahead, hahead'⟩ | ⟨next, next', question, hahead, hahead', hnext⟩
    · rw [hahead, hahead']
      exact hbare
    · rw [hahead, hahead']
      cases question with
      | true => exact hbare
      | false =>
        dsimp only
        rw [hnext.rest]
        split
        · refine .set ((leads_arguments hread).stays.bind hnext fun args args' c₃ c₃' hargs h₃ => ?_)
          exact .pure ⟨by simp [hkw, hcallee, hargs], h₃⟩
        · exact hbare
  have hbegin (first first' : Concrete) (c c' : Cursor) (hfirst : first'.unplaced = first.unplaced)
      (hc : Before m c c') : Agree (begin first) (begin' first') c c' (Reach m unplaced) := by
    dsimp only [begin, begin']
    rw [isPrimary_congr hfirst, kind_congr hfirst]
    split
    · exact .pure_bind (hfinish first first' c c' hfirst hc)
    · exact (stays_appliedOnce hread s hfirst).bind hc hfinish
  split
  · exact (hread _).stays.bind h₁ hbegin
  · refine (leads_keyword (by decide)).stays.bind h₁ fun kw kw' c₂ c₂' hkw h₂ => ?_
    exact .pure_bind (hbegin _ _ c₂ c₂' (by simp [hkw]) h₂)
  split
  · exact .failure_bind
  split
  · exact (leads_element hread).stays.bind h₁ hbegin
  · exact (leads_primary hread s true).stays.bind h₁ hbegin

theorem turns_suffixStep (hread : Alike m read read') (s : Setting) (update : Bool)
    (ht : t'.unplaced = t.unplaced) :
    Turns m unplaced (suffixStep read s update t) (suffixStep read' s update t') := by
  intro j hj cur cur' hcur
  have hread' := hread.of_lt hj
  have hstop : Agree (pure none) (pure none) cur cur' (Turn j unplaced) := .stop hcur
  unfold suffixStep
  refine .get ?_
  rcases hcur.ahead? s.semicolon true with
    ⟨hahead, hahead'⟩ | ⟨next, next', question, hahead, hahead', hnext⟩
  · rw [hahead, hahead']
    exact hstop
  rw [hahead, hahead']
  cases question with
  | true => exact hstop
  | false =>
    dsimp only
    rw [hnext.rest, isSettled_congr ht, isUpdatable_congr ht]
    have haccess := agree_accessStep hread' (Token.operator next.rest) hcur hnext ht
    have hupdate (op : String) (hop : Token.operator next.rest = op) (hne : op ≠ "") : Agree
        (if (!update) = true then pure none
        else if (!t.isSettled) = true then failure
        else do
          set next
          let sign ← leaf op .anonymous 2
          return some (branch "update_expression" (t.inRole .argument) [sign.inRole .operator]))
        (if (!update) = true then pure none
        else if (!t.isSettled) = true then failure
        else do
          set next'
          let sign ← leaf op .anonymous 2
          return some (branch "update_expression" (t'.inRole .argument) [sign.inRole .operator]))
        cur cur' (Turn j unplaced) := by
      split
      · exact hstop
      split
      · exact .failure
      · refine .set ((leaf_lt op .anonymous hnext (by decide) (Cursor.ne_nil_of_operator hop hne)).andThen
          fun sign sign' c₁ c₁' h₁ => ?_)
        exact .pure ⟨by simp [ht, h₁.1], h₁.2⟩
    generalize hop : Token.operator next.rest = op at haccess ⊢
    split
    iterate 4 exact haccess
    · split
      · exact .failure
      · refine .set ((leads_arguments hread').takes.bind hnext fun args args' c₁ c₁' hargs h₁ => ?_)
        exact .pure ⟨by simp [ht, hargs], h₁⟩
    · exact hupdate _ hop (by decide)
    · exact hupdate _ hop (by decide)
    · rcases assignee?_cases ht with ⟨hnone, hnone'⟩ | ⟨target, target', hsome, hsome', htarget⟩
      · rw [hnone, hnone']
        exact hstop
      · rw [hsome, hsome']
        refine .set ((stays_leaf "=" .anonymous 1).bind hnext fun eq eq' c₁ c₁' heq h₁ => ?_)
        refine ((hread _).settled j hj).bind h₁ fun right right' c₂ c₂' hright h₂ => ?_
        exact .pure ⟨by simp [htarget, heq, hright], h₂⟩
    · split
      · refine .set ((stays_leaf op .anonymous op.length).bind hnext fun sign sign' c₁ c₁' hsign h₁ => ?_)
        refine ((hread _).settled j hj).bind h₁ fun right right' c₂ c₂' hright h₂ => ?_
        exact .pure ⟨by simp [ht, hsign, hright], h₂⟩
      · exact hstop

theorem stays_suffixed (hread : Alike m read read') (s : Setting) (update : Bool)
    (ht : t'.unplaced = t.unplaced) :
    Stays m unplaced (grow (suffixStep read s update) t) (grow (suffixStep read' s update) t') :=
  stays_grow (fun _ _ ht => turns_suffixStep hread s update ht) ht

/-! Operands -/

theorem leads_unary (hread : Alike m read read') (s : Setting) {op : String} (hop : op ≠ "") :
    Leads m unplaced (unary read s op) (unary read' s op) := by
  intro cur cur' hcur
  unfold unary
  have hscan : Token.literal op [] = 0 := by
    unfold Token.literal
    split
    · next hstarts =>
      rw [Token.startsWith, List.isPrefixOf_iff_prefix, List.prefix_nil] at hstarts
      exact absurd (String.toList_inj.mp hstarts) hop
    · rfl
  refine (leads_token op hscan).bind hcur fun sign sign' c₁ c₁' hsign h₁ => ?_
  refine (hread _).settled.stays.bind h₁ fun argument argument' c₂ c₂' hargument h₂ => ?_
  exact .pure ⟨by simp [hsign, hargument], h₂⟩

theorem leads_yieldExpression (hread : Alike m read read') (s : Setting) :
    Leads m unplaced (yieldExpression read s) (yieldExpression read' s) := by
  intro cur cur' hcur
  unfold yieldExpression
  refine (leads_keyword (by decide)).bind hcur fun kw kw' c₁ c₁' hkw h₁ => .get ?_
  have hyield : (branch "yield_expression" kw' []).unplaced =
      (branch "yield_expression" kw []).unplaced := by simp [hkw]
  have hbare := stays_suffixed hread s true hyield c₁ c₁' h₁
  rcases h₁.ahead? s.semicolon true with
    ⟨hahead, hahead'⟩ | ⟨next, next', question, hahead, hahead', hnext⟩
  · rw [hahead, hahead']
    exact hbare
  rw [hahead, hahead']
  cases question with
  | true => exact hbare
  | false =>
    dsimp only
    rw [hnext.rest]
    split
    · refine .set ((stays_leaf "*" .anonymous 1).bind hnext fun star star' c₂ c₂' hstar h₂ => ?_)
      refine (hread _).settled.stays.bind h₂ fun e e' c₃ c₃' he h₃ => ?_
      exact .pure ⟨by simp [hkw, hstar, he], h₃⟩
    split
    · refine (see_noMarkupComment h₁).see fun _ => ?_
      refine (hread _).settled.stays.bind h₁ fun e e' c₂ c₂' he h₂ => ?_
      exact .pure ⟨by simp [hkw, he], h₂⟩
    · exact hbare

theorem leads_privateLookup (hread : Alike m read read') (s : Setting) :
    Leads m unplaced (privateLookup read s) (privateLookup read' s) := by
  intro cur cur' hcur
  unfold privateLookup
  refine (leads_token _ rfl).bind hcur fun name name' c₁ c₁' hname h₁ => ?_
  refine (leads_keyword (by decide)).stays.bind h₁ fun op op' c₂ c₂' hop h₂ => ?_
  refine (hread _).settled.stays.bind h₂ fun right right' c₃ c₃' hright h₃ => ?_
  exact .pure ⟨by simp [hname, hop, hright], h₃⟩

theorem leads_operand (hread : Alike m read read') (s : Setting) (update : Bool) :
    Leads m unplaced (operand read s update) (operand read' s update) := by
  intro cur cur' hcur
  have hunary {op : String} (hop : op ≠ "") := leads_unary hread s hop cur cur' hcur
  unfold operand
  refine (see_peek hcur).see fun cs => ?_
  extract_lets updating updating'
  have hupdating {op : String} (hop : op ≠ "") :
      Agree (updating op) (updating' op) cur cur' (Reach m unplaced) := by
    refine (leads_mark hop).bind hcur fun sign sign' c₁ c₁' hsign h₁ => ?_
    refine (hread _).settled.stays.bind h₁ fun argument argument' c₂ c₂' hargument h₂ => ?_
    exact stays_suffixed hread s true (by simp [hsign, hargument]) c₂ c₂' h₂
  split
  · exact hunary (by decide)
  · exact hunary (by decide)
  · exact hupdating (by decide)
  · exact hupdating (by decide)
  · exact hunary (by decide)
  · exact hunary (by decide)
  · exact (leads_element hread).bind hcur fun _ _ c₁ c₁' ht h₁ =>
      stays_suffixed hread s true ht c₁ c₁' h₁
  · exact leads_privateLookup hread s cur cur' hcur
  split
  · exact hunary (by decide)
  · exact hunary (by decide)
  · exact hunary (by decide)
  · refine (leads_keyword (by decide)).bind hcur fun kw kw' c₁ c₁' hkw h₁ => ?_
    refine (hread _).settled.stays.bind h₁ fun e e' c₂ c₂' he h₂ => ?_
    exact .pure ⟨by simp [hkw, he], h₂⟩
  · exact leads_yieldExpression hread s cur cur' hcur
  · exact (leads_newExpression hread s).bind hcur fun _ _ c₁ c₁' ht h₁ =>
      stays_suffixed hread s update ht c₁ c₁' h₁
  · exact (leads_primary hread s false).bind hcur fun _ _ c₁ c₁' ht h₁ =>
      stays_suffixed hread s update ht c₁ c₁' h₁

/-! Binary operators -/

theorem turns_binaryStep (hread : Alike m read read') (s : Setting) (level : Nat)
    (ht : t'.unplaced = t.unplaced) :
    Turns m unplaced (binaryStep read s level t) (binaryStep read' s level t') := by
  intro j hj cur cur' hcur
  have hread' := hread.of_lt hj
  have hstop : Agree (pure none) (pure none) cur cur' (Turn j unplaced) := .stop hcur
  unfold binaryStep
  refine .get ?_
  rcases hcur.ahead? s.semicolon true with
    ⟨hahead, hahead'⟩ | ⟨next, next', question, hahead, hahead', hnext⟩
  · rw [hahead, hahead']
    exact hstop
  rw [hahead, hahead']
  cases question with
  | true =>
    dsimp only
    rw [isSettled_congr ht]
    split
    · exact hstop
    split
    · exact .failure
    refine .set ((stays_leaf "?" .anonymous 1).bind hnext fun mark mark' c₁ c₁' hmark h₁ => ?_)
    refine (provides_inner hread j hj).bind h₁ fun e e' c₂ c₂' he h₂ => ?_
    refine (leads_mark (by decide)).stays.bind h₂ fun colon colon' c₃ c₃' hcolon h₃ => ?_
    refine (hread' _).settled.stays.bind h₃ fun other other' c₄ c₄' hother h₄ => ?_
    exact .pure ⟨by simp [ht, hmark, he, hcolon, hother], h₄⟩
  | false =>
    dsimp only
    rw [hnext.rest, isSettled_congr ht]
    split
    · exact hstop
    split
    · exact hstop
    split
    · exact .failure
    refine .set ((stays_leaf _ .anonymous _).bind hnext fun sign sign' c₁ c₁' hsign h₁ => ?_)
    refine ((hread _).settled j hj).bind h₁ fun right right' c₂ c₂' hright h₂ => ?_
    exact .pure ⟨by simp [ht, hsign, hright], h₂⟩

theorem stays_binaryFrom (hread : Alike m read read') (s : Setting) (level : Nat)
    (ht : t'.unplaced = t.unplaced) :
    Stays m unplaced (binaryFrom read s level t) (binaryFrom read' s level t') :=
  stays_grow (fun _ _ ht => turns_binaryStep hread s level ht) ht

theorem leads_binary (hread : Alike m read read') (s : Setting) (level : Nat) :
    Leads m unplaced (binary read s level) (binary read' s level) := by
  intro cur cur' hcur
  exact (leads_operand hread s true).bind hcur fun _ _ c₁ c₁' ht h₁ =>
    stays_binaryFrom hread s level ht c₁ c₁' h₁

theorem leads_expressions (hread : Alike m read read') (s : Setting) :
    Leads m unplaced (expressions read s) (expressions read' s) := by
  intro cur cur' hcur
  exact (leads_binary hread s 0 cur cur' hcur).settled.andThen fun _ _ c₁ c₁' h₁ =>
    stays_sequenceFrom hread s h₁.1 c₁ c₁' h₁.2

theorem stays_expressionsFrom (hread : Alike m read read') (s : Setting)
    (ht : t'.unplaced = t.unplaced) :
    Stays m unplaced (expressionsFrom read s t) (expressionsFrom read' s t') := by
  intro cur cur' hcur
  unfold expressionsFrom
  refine (stays_suffixed hread s true ht).bind hcur fun left left' c₁ c₁' hleft h₁ => ?_
  exact (stays_binaryFrom hread s 0 hleft c₁ c₁' h₁).settled.andThen fun _ _ c₂ c₂' h₂ =>
    stays_sequenceFrom hread s h₂.1 c₂ c₂' h₂.2

end Flavoring.JavaScript.Parser
