import Flavoring.JavaScript.Parser.Markup
import Flavoring.Proofs.JavaScript.Agreement.Literals

/-! Agreement on markup elements. -/

namespace Flavoring.JavaScript.Parser

open Concrete
open Cursor (Before Facing)

variable {m n : Nat} {cur cur' : Cursor} {read read' : Reader} {t t' : Concrete}
  {ts ts' : List Concrete}

theorem leads_markupWord (kind : String) :
    Leads m unplaced (markupWord kind) (markupWord kind) := by
  intro cur cur' hcur
  unfold markupWord
  refine (see_peek hcur).see fun cs => ?_
  split
  · exact leads_token kind rfl cur cur' hcur
  · exact leads_word kind cur cur' hcur

theorem agree_namespaced (view : Concrete → Concrete)
    (hview : (view t').unplaced = (view t).unplaced) (ht : t'.unplaced = t.unplaced)
    (hcur : Before m cur cur') :
    Agree (namespaced view t) (namespaced view t') cur cur' (Reach m unplaced) := by
  unfold namespaced
  refine (see_nextIs _ hcur.facing).see fun isColon => ?_
  split
  · refine (leads_mark (by decide)).stays.bind hcur fun colon colon' c₁ c₁' hcolon h₁ => ?_
    refine (leads_markupWord _).stays.bind h₁ fun name name' c₂ c₂' hname h₂ => ?_
    exact .pure ⟨by simp [ht, hcolon, hname], h₂⟩
  · exact .pure ⟨hview, hcur⟩

theorem leads_elementName : Leads m unplaced elementName elementName := by
  intro cur cur' hcur
  unfold elementName
  refine (see_peek hcur).see fun cs => ?_
  refine (leads_markupWord _).bind hcur fun first first' c₁ c₁' hfirst h₁ => ?_
  extract_lets named
  have hnamed (path path' : Concrete) (c c' : Cursor) (hpath : path'.unplaced = path.unplaced)
      (hc : Before m c c') : Agree (named path) (named path') c c' (Reach m unplaced) := by
    dsimp only [named]
    rw [kind_congr hpath]
    split
    · refine (agree_namespaced id hpath hpath hc).andThen fun name name' c₂ c₂' h₂ => ?_
      exact .pure ⟨by simp [h₂.1], h₂.2⟩
    · exact .pure ⟨by simp [hpath], hc⟩
  split
  · exact (stays_path hfirst).bind h₁ hnamed
  · exact .pure_bind (hnamed first first' c₁ c₁' hfirst h₁)

theorem leads_markupExpression (hread : Alike m read read') :
    Leads m unplaced (markupExpression read) (markupExpression read') := by
  intro cur cur' hcur
  unfold markupExpression
  refine (leads_mark (by decide)).bind hcur fun opening opening' c₁ c₁' hopening h₁ => ?_
  refine (see_peek h₁.facing).see fun cs => ?_
  extract_lets rest rest'
  have hrest (content content' : List Concrete) (c c' : Cursor)
      (hcontent : content'.map unplaced = content.map unplaced) (hc : Before m c c') :
      Agree (rest content) (rest' content') c c' (Reach m unplaced) := by
    refine (leads_mark (by decide)).stays.bind hc fun close close' c₂ c₂' hclose h₂ => ?_
    exact .pure ⟨by simp [hopening, hcontent, hclose], h₂⟩
  split
  · exact .pure_bind (hrest [] [] c₁ c₁' rfl h₁)
  split
  · refine .bind (((provides_spreadOrElement hread).stays c₁ c₁' h₁).settled.mono
      fun e e' c₂ c₂' h₂ => ?_)
    exact .pure_bind (hrest [e] [e'] c₂ c₂' (by simp [h₂.1]) h₂.2)
  · refine (provides_innerExpressions hread).stays.bind h₁ fun e e' c₂ c₂' he h₂ => ?_
    exact .pure_bind (hrest [e] [e'] c₂ c₂' (by simp [he]) h₂)

theorem leads_markupAttribute (hread : Alike m read read') :
    Leads m unplaced (markupAttribute read) (markupAttribute read') := by
  intro cur cur' hcur
  unfold markupAttribute
  refine (see_nextIs _ hcur).see fun isBrace => ?_
  split
  · refine (leads_markupExpression hread).bind hcur fun e e' c₁ c₁' he h₁ => ?_
    exact .pure ⟨by simp [he], h₁⟩
  · refine (leads_markupWord _).bind hcur fun word word' c₁ c₁' hword h₁ => ?_
    refine (agree_namespaced _ (by simp [hword]) hword h₁).andThen fun name name' c₂ c₂' h₂ => ?_
    refine (see_nextIs _ h₂.2.facing).see fun isAssigned => ?_
    split
    · refine (leads_mark (by decide)).stays.bind h₂.2 fun eq eq' c₃ c₃' heq h₃ => ?_
      refine (see_peekChar h₃.facing).see fun c => ?_
      have hvalue (value value' : Concrete) (c c' : Cursor) (hv : value'.unplaced = value.unplaced)
          (hc : Before m c c') : Agree
            (pure ((branch "jsx_attribute" name [eq, value]).inRole .attribute))
            (pure ((branch "jsx_attribute" name' [eq', value']).inRole .attribute))
            c c' (Reach m unplaced) :=
        .pure ⟨by simp [h₂.1, heq, hv], hc⟩
      dsimp only
      split
      · exact (leads_markupExpression hread).stays.bind h₃ hvalue
      · exact (hread _).stays.bind h₃ hvalue
      · exact (leads_token "string" rfl).stays.bind h₃ hvalue
    · exact .pure ⟨by simp [h₂.1], h₂.2⟩

theorem turns_elementChild? (hread : Alike m read read') :
    Turns m unplaced (elementChild? read) (elementChild? read') := by
  intro j hj cur cur' hcur
  unfold elementChild?
  refine .get ?_
  rw [hcur.rest]
  split
  · refine (see_peek hcur.facing).see fun cs => ?_
    split
    · exact .stop hcur
    split
    · exact (hread _ j hj cur cur' hcur).turn
    · exact (leads_markupExpression (hread.of_lt hj) cur cur' hcur.facing).turn
    · exact (leads_token "html_character_reference" rfl cur cur' hcur.facing).turn
    · exact .failure
  · next hk =>
    refine (leaf_lt "jsx_text" .named hcur hk fun hnil => hk ?_).turn
    rw [hnil]
    rfl

theorem leads_elementFrom (hread : Alike m read read') (ht : t'.unplaced = t.unplaced)
    (hts : ts'.map unplaced = ts.map unplaced) :
    Leads m unplaced (elementFrom read t ts) (elementFrom read' t' ts') := by
  intro cur cur' hcur
  unfold elementFrom
  refine (leads_mark (by decide)).bind hcur fun close close' c₁ c₁' hclose h₁ => ?_
  refine (stays_many unplaced (turns_elementChild? hread)).bind h₁
    fun content content' c₂ c₂' hcontent h₂ => ?_
  refine (leads_mark (by decide)).stays.bind h₂ fun opening opening' c₃ c₃' hopening h₃ => ?_
  refine (see_nextIs _ h₃.facing).see fun isNameless => ?_
  extract_lets rest rest'
  have hrest (name name' : List Concrete) (c c' : Cursor)
      (hname : name'.map unplaced = name.map unplaced) (hc : Before m c c') :
      Agree (rest name) (rest' name') c c' (Reach m unplaced) := by
    refine (leads_mark (by decide)).stays.bind hc fun last last' c₄ c₄' hlast h₄ => ?_
    exact .pure ⟨by simp [ht, hts, hclose, hcontent, hopening, hname, hlast], h₄⟩
  split
  · exact .pure_bind (hrest [] [] c₃ c₃' rfl h₃)
  · refine leads_elementName.stays.bind h₃ fun name name' c₄ c₄' hname h₄ => ?_
    exact .pure_bind (hrest [name] [name'] c₄ c₄' (by simp [hname]) h₄)

theorem leads_element (hread : Alike m read read') :
    Leads m unplaced (element read) (element read') := by
  intro cur cur' hcur
  unfold element
  refine (leads_mark (by decide)).bind hcur fun opening opening' c₁ c₁' hopening h₁ => ?_
  refine (see_nextIs _ h₁.facing).see fun isNameless => ?_
  split
  · exact (leads_elementFrom hread hopening rfl).stays c₁ c₁' h₁
  refine leads_elementName.stays.bind h₁ fun name name' c₂ c₂' hname h₂ => ?_
  refine (stays_many unplaced fun j hj cur cur' hcur => ?_).bind h₂
    fun attributes attributes' c₃ c₃' hattributes h₃ => ?_
  · refine (see_nextIs _ hcur.facing).see fun isEnd => ?_
    split
    · exact .stop hcur
    · exact (leads_markupAttribute (hread.of_lt hj) cur cur' hcur.facing).turn
  dsimp only
  refine (see_nextIs _ h₃.facing).see fun isClosed => ?_
  split
  · refine (leads_mark (by decide)).stays.bind h₃ fun close close' c₄ c₄' hclose h₄ => ?_
    exact .pure ⟨by simp [hopening, hname, hattributes, hclose], h₄⟩
  · exact (leads_elementFrom hread hopening (by simp [hname, hattributes])).stays c₃ c₃' h₃

end Flavoring.JavaScript.Parser
