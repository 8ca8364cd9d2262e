import Flavoring.JavaScript.Parser.Markup
import Flavoring.Proofs.JavaScript.Literals

/-! The layout of markup elements. -/

namespace Flavoring.JavaScript.Parser

open Concrete

variable {text : List Char} {cur : Cursor} {lo mid hi : Nat} {read : Reader}

/-! Names -/

theorem reads_markupWord (kind : String) (hkind : kind ∉ tightKinds) :
    Reads text (markupWord kind) := by
  intro cur hcur
  unfold markupWord
  refine looks_peek.bind fun cs => ?_
  split
  · exact (reads_token kind Token.hyphenated rfl hkind).yields hcur
  · exact (reads_word kind hkind).yields hcur

theorem yields_namespaced {name : Concrete → Concrete} {first : Concrete} (hcur : cur.In text)
    (hfirst : Stands text lo first cur.offset) (hname : Stands text lo (name first) cur.offset) :
    YieldsFrom text lo (namespaced name first) cur := by
  unfold namespaced
  refine (looks_nextIs _).bind fun isColon => ?_
  split
  · refine (reads_mark ":" rfl).bind hcur fun colon c₁ h₁ hcolon => ?_
    refine (reads_markupWord "identifier" (by decide)).bind h₁ fun word c₂ h₂ hword => ?_
    exact Yields.pure ⟨h₂, hfirst.branch (by decide) (hcolon.chain.append hword.chain)⟩
  · exact Yields.pure ⟨hcur, hname⟩

theorem reads_elementName : Reads text elementName := by
  intro cur hcur
  unfold elementName
  refine looks_peek.bind fun cs => ?_
  extract_lets hyphens named
  refine (reads_markupWord "identifier" (by decide)).bind hcur fun first c₁ h₁ hfirst => ?_
  have hnamed (path : Concrete) (c₂ : Cursor)
      (hpath : c₂.In text ∧ Stands text cur.offset path c₂.offset) :
      YieldsFrom text cur.offset (named path) c₂ := by
    obtain ⟨h₂, hpath⟩ := hpath
    unfold named
    split
    · refine (yields_namespaced h₂ hpath hpath).andThen fun t c₃ ht => ?_
      exact Yields.pure ⟨ht.1, ht.2.inRole⟩
    · exact Yields.pure ⟨h₂, hpath.inRole⟩
  clear_value named
  split
  · exact (yields_path h₁ hfirst).andThen hnamed
  · exact Yields.bind (Yields.pure (hnamed first c₁ ⟨h₁, hfirst⟩))

/-! Attributes and contents -/

theorem reads_markupExpression (hread : Serves text read) : Reads text (markupExpression read) := by
  intro cur hcur
  unfold markupExpression
  refine (reads_mark "\x7b" rfl).bind hcur fun opening c₁ h₁ hopening => ?_
  refine looks_peek.bind fun cs => ?_
  extract_lets withContent
  have hcontent (content : List Concrete) (c₂ : Cursor) (h₂ : c₂.In text)
      (hcontent : Chain text c₁.offset content c₂.offset) :
      YieldsFrom text cur.offset (withContent content) c₂ := by
    refine (reads_mark "\x7d" rfl).bind h₂ fun closing c₃ h₃ hclosing => ?_
    exact Yields.pure ⟨h₃, hopening.branch (by decide) (hcontent.append hclosing.chain)⟩
  clear_value withContent
  split
  · exact Yields.bind (Yields.pure (hcontent [] c₁ h₁ (.nil (Nat.le_refl _))))
  · split
    · refine (reads_settled (reads_spreadOrElement hread)).bind h₁ fun e c₂ h₂ he => ?_
      exact Yields.bind (Yields.pure (hcontent [e] c₂ h₂ he.chain))
    · refine (reads_innerExpressions hread).bind h₁ fun e c₂ h₂ he => ?_
      exact Yields.bind (Yields.pure (hcontent [e] c₂ h₂ he.chain))

theorem reads_markupAttribute (hread : Serves text read) : Reads text (markupAttribute read) := by
  intro cur hcur
  unfold markupAttribute
  refine (looks_nextIs _).bind fun isBrace => ?_
  split
  · refine (reads_markupExpression hread).bind hcur fun e c₁ h₁ he => ?_
    exact Yields.pure ⟨h₁, he.inRole⟩
  · refine (reads_markupWord "identifier" (by decide)).bind hcur fun first c₁ h₁ hfirst => ?_
    refine (yields_namespaced h₁ hfirst (hfirst.called (by decide))).andThen
      fun name c₂ hname => ?_
    obtain ⟨h₂, hname⟩ := hname
    refine (looks_nextIs _).bind fun isValued => ?_
    split
    · refine (reads_mark "=" rfl).bind h₂ fun eq c₃ h₃ heq => ?_
      refine looks_peekChar.bind fun c => ?_
      extract_lets withValue
      have hvalue (value : Concrete) (c₄ : Cursor) (h₄ : c₄.In text)
          (hvalue : Stands text c₃.offset value c₄.offset) :
          YieldsFrom text cur.offset (withValue value) c₄ :=
        Yields.pure ⟨h₄, (hname.branch (by decide) (heq.chain.append hvalue.chain)).inRole⟩
      clear_value withValue
      split
      · exact (reads_markupExpression hread).bind h₃ hvalue
      · exact (hread _).bind h₃ hvalue
      · exact (reads_string Token.endsQuoted_attributeString).bind h₃ hvalue
    · exact Yields.pure ⟨h₂, (hname.branch (by decide) (.nil (Nat.le_refl _))).inRole⟩

theorem spans_elementChild? (hread : Serves text read) :
    Spans text (fun lo o hi => Chain text lo o.toList hi) (elementChild? read) := by
  intro cur hcur
  unfold elementChild?
  refine Yields.get ?_
  split
  · refine looks_peek.bind fun cs => ?_
    split
    · exact Yields.pure ⟨hcur, .nil (Nat.le_refl _)⟩
    · split
      · exact Yields.map (((hread _).yields hcur).mono fun t c₁ ht => ⟨ht.1, ht.2.chain⟩)
      · exact Yields.map (((reads_markupExpression hread).yields hcur).mono
          fun t c₁ ht => ⟨ht.1, ht.2.chain⟩)
      · exact Yields.map (((reads_token "html_character_reference" Token.entity rfl
          (by decide)).yields hcur).mono
          fun t c₁ ht => ⟨ht.1, ht.2.chain⟩)
      · exact Yields.failure
  · next n hn =>
    have hrest : cur.rest ≠ [] := fun hnil => hn (hnil ▸ by decide)
    refine Yields.map ((yields_leaf hcur (fun _ => ⟨hrest, hn⟩)
      fun hmem => absurd hmem (by decide)).mono fun t c₁ ht => ?_)
    exact ⟨ht.2.1, ht.2.2.1⟩

/-! Elements -/

theorem yields_elementFrom (hread : Serves text read) {opening : Concrete} {head : List Concrete}
    (hcur : cur.In text) (hhi : cur.offset = hi) (hopening : Stands text lo opening mid)
    (hhead : Chain text mid head hi) : YieldsFrom text lo (elementFrom read opening head) cur := by
  subst hhi
  unfold elementFrom
  refine (reads_mark ">" rfl).bind hcur fun bracket c₁ h₁ hbracket => ?_
  extract_lets tag
  have htag : Stands text lo tag c₁.offset := hopening.branch (by decide)
    (hhead.append hbracket.chain)
  refine (lists_many (spans_elementChild? hread)).bind h₁ fun content c₂ h₂ hcontent => ?_
  refine (reads_mark "</" rfl).bind h₂ fun close c₃ h₃ hclose => ?_
  refine (looks_nextIs _).bind fun isEnd => ?_
  extract_lets withName
  have hname (name : List Concrete) (c₄ : Cursor) (h₄ : c₄.In text)
      (hname : Chain text c₃.offset name c₄.offset) :
      YieldsFrom text lo (withName name) c₄ := by
    refine (reads_mark ">" rfl).bind h₄ fun bracket' c₅ h₅ hbracket' => ?_
    have hclosing : Stands text c₂.offset
        (branch "jsx_closing_element" close (name ++ [bracket'])) c₅.offset :=
      hclose.branch (by decide) (hname.append hbracket'.chain)
    exact Yields.pure ⟨h₅, htag.inRole.branch (by decide) (hcontent.append hclosing.inRole.chain)⟩
  clear_value withName
  split
  · exact Yields.bind (Yields.pure (hname [] c₃ h₃ (.nil (Nat.le_refl _))))
  · refine reads_elementName.bind h₃ fun name c₄ h₄ hword => ?_
    exact Yields.bind (Yields.pure (hname [name] c₄ h₄ hword.chain))

theorem reads_element (hread : Serves text read) : Reads text (element read) := by
  intro cur hcur
  unfold element
  refine (reads_mark "<" rfl).bind hcur fun opening c₁ h₁ hopening => ?_
  refine (looks_nextIs _).bind fun isFragment => ?_
  split
  · exact yields_elementFrom hread h₁ rfl hopening (.nil (Nat.le_refl _))
  · refine reads_elementName.bind h₁ fun name c₂ h₂ hname => ?_
    refine (lists_many ?_).bind h₂ fun attributes c₃ h₃ hattributes => ?_
    · intro cur hcur
      refine (looks_nextIs _).bind fun isEnd => ?_
      split
      · exact Yields.pure ⟨hcur, .nil (Nat.le_refl _)⟩
      · exact Yields.map (((reads_markupAttribute hread).yields hcur).mono
          fun t next ht => ⟨ht.1, ht.2.chain⟩)
    · have hhead := hname.chain.append hattributes
      dsimp only
      refine (looks_nextIs _).bind fun isClosed => ?_
      split
      · refine (reads_mark "/>" rfl).bind h₃ fun close c₄ h₄ hclose => ?_
        exact Yields.pure ⟨h₄, hopening.branch (by decide) (hhead.append hclose.chain)⟩
      · exact yields_elementFrom hread h₃ rfl hopening hhead

end Flavoring.JavaScript.Parser
