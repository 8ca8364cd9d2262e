import Flavoring.JavaScript.Parser.Statement
import Flavoring.Proofs.JavaScript.Reading
import Flavoring.Proofs.JavaScript.Trivia

/-!
An import that a semicolon closes ends there, whatever follows.
-/

namespace Flavoring.JavaScript

variable {cur c₁ c₂ c₃ : Cursor} {text more cs : List Char} {c : Char}

namespace Parser

theorem get_bind {α : Type} (f : Cursor → Parser α) : (get >>= f) cur = f cur cur := rfl

theorem modify_bind {α : Type} (g : Cursor → Cursor) (f : PUnit → Parser α) :
    (modify g >>= f) cur = f ⟨⟩ (g cur) := rfl

theorem peek_bind {α : Type} (f : List Char → Parser α) :
    (peek >>= f) cur = f cur.skipTrivia.rest cur := rfl

theorem bind_of_eq_some {α β : Type} {p : Parser α} {f : α → Parser β} {a : α} {next : Cursor}
    (h : p cur = some (a, next)) : (p >>= f) cur = f a next := by
  change (p cur).bind _ = _
  rw [h]
  rfl

/-! A written semicolon -/

theorem isSupplied_semicolon (afterOperand : Bool) (cs : List Char) :
    Semicolon.isSupplied afterOperand (';' :: cs) = false := by
  unfold Semicolon.isSupplied
  simp [Semicolon.atEnd, Semicolon.leadingGap, isLineEnd, isAsciiSpace]

theorem ahead?_semicolon (h : cur.rest = ';' :: cs) (semicolon afterOperand : Bool) :
    cur.ahead? semicolon afterOperand = some ⟨cur, Cursor.isQuestion semicolon (';' :: cs)⟩ := by
  unfold Cursor.ahead? Cursor.aheadWithin
  rw [h, isSupplied_semicolon, skipSeparators_of_plain rfl h]
  simp [h, Token.comment]

theorem supply?_semicolon (h : cur.rest = ';' :: cs) (afterOperand : Bool) :
    cur.supply? afterOperand = none := by
  unfold Cursor.supply? Cursor.supplyWithin
  rw [h, isSupplied_semicolon, skipSeparators_of_plain rfl h]
  simp [h, Token.comment]

theorem terminator_semicolon (h : cur.rest = ';' :: cs) (afterOperand : Bool) :
    terminator afterOperand cur = leaf ";" .anonymous 1 cur := by
  unfold terminator
  rw [get_bind, supply?_semicolon h]
  dsimp only
  rw [ahead?_semicolon h]
  dsimp only
  rw [h]
  rfl

/-! Tokens -/

-- A leaf with this text, wherever it stands.
def IsLeaf (kind : String) (standing : Standing) (text : List Char) (t : Concrete) : Prop :=
  ∃ extent place, t = .node ⟨kind, standing, none, extent, place, String.ofList text⟩ []

-- A parser reads this text, up to `cs`, as a leaf.
def ReadsLeaf (p : Parser Concrete) (cur : Cursor) (kind : String) (standing : Standing)
    (text cs : List Char) : Prop :=
  ∃ t next, p cur = some (t, next) ∧ next.rest = cs ∧ IsLeaf kind standing text t

theorem readsLeaf_leaf (kind : String) (standing : Standing) (text : List Char)
    (h : cur.rest = text ++ cs) :
    ReadsLeaf (leaf kind standing text.length) cur kind standing text cs := by
  have htake : cur.rest.take text.length = text := by rw [h, List.take_left]
  have hdrop : (cur.forward text.length).rest = cs := by
    rw [(Cursor.forward_spec _ cur).1, h, List.drop_left]
  refine ⟨_, _, rfl, hdrop, ⟨cur.offset, (cur.forward text.length).offset⟩, cur.place, ?_⟩
  rw [htake]

theorem readsLeaf_token (kind : String) (scan : List Char → Nat)
    (h : cur.skipTrivia.rest = c :: more ++ cs) (hscan : scan (c :: more ++ cs) = more.length + 1) :
    ReadsLeaf (token kind scan) cur kind .named (c :: more) cs := by
  have hrun : token kind scan cur = leaf kind .named (c :: more).length cur.skipTrivia := by
    unfold token
    rw [modify_bind, get_bind, h, hscan]
    rfl
  unfold ReadsLeaf
  rw [hrun]
  exact readsLeaf_leaf kind .named _ h

theorem readsLeaf_keyword (s : String) (h : cur.skipTrivia.rest = s.toList ++ cs)
    (hword : Token.wordText (s.toList ++ cs) = s) :
    ReadsLeaf (keyword s) cur s .anonymous s.toList cs := by
  have hrun : keyword s cur = leaf s .anonymous s.toList.length cur.skipTrivia := by
    unfold keyword
    rw [modify_bind, get_bind, h, hword, if_pos (beq_self_eq_true s), String.length_toList]
  unfold ReadsLeaf
  rw [hrun]
  exact readsLeaf_leaf s .anonymous _ h

theorem nextIs_eq (p : Char → Bool) (h : cur.skipTrivia.rest = c :: cs) :
    nextIs p cur = some (p c, cur) := by
  change some (((cur.skipTrivia.rest.head?).map p).getD false, cur) = _
  rw [h]
  rfl

/-! Words -/

theorem ne_of_isWordPart {d : Char} (h : isWordPart c = true) (hd : punctuation.contains d = true) :
    c ≠ d := by
  rintro rfl
  rw [isWordPart, hd, Bool.not_true, Bool.and_false] at h
  cases h

theorem isPlain_of_isWordPart (h : isWordPart c = true) : isPlain c = true := by
  have hseparator : isSeparator c = false := by
    simp only [isWordPart, Bool.and_eq_true, Bool.not_eq_true'] at h
    exact h.1.2
  simp [isPlain, hseparator, ne_of_isWordPart h (d := '/') rfl, ne_of_isWordPart h (d := '<') rfl,
    ne_of_isWordPart h (d := '-') rfl]

-- A name that is written without escapes.
structure IsName (first : Char) (more : List Char) : Prop where
  word_parts : ∀ c ∈ first :: more, isWordPart c = true
  not_digit : isDigit first = false

theorem IsName.word (h : IsName c more) (cs : List Char) :
    Token.word (c :: more ++ ' ' :: cs) = more.length + 1 := by
  have htail (text : List Char) (htext : ∀ c ∈ text, isWordPart c = true) :
      Token.wordTail 0 (text ++ ' ' :: cs) = text.length := by
    induction text with
    | nil => rfl
    | cons c text ih =>
      obtain ⟨hc, htext⟩ := List.forall_mem_cons.mp htext
      rw [List.cons_append, Token.wordTail, if_pos hc, ih htext, List.length_cons, Nat.add_comm]
  rw [List.cons_append, Token.word, if_neg (by simp [h.not_digit])]
  exact htail _ h.word_parts

theorem IsName.wordText (h : IsName c more) (cs : List Char) :
    Token.wordText (c :: more ++ ' ' :: cs) = String.ofList (c :: more) := by
  rw [Token.wordText, h.word, List.take_left' (List.length_cons ..)]

theorem isName_import : IsName 'i' "mport".toList := ⟨List.all_eq_true.mp rfl, rfl⟩

theorem isName_from : IsName 'f' "rom".toList := ⟨List.all_eq_true.mp rfl, rfl⟩

/-! Imports -/

theorem importStatement_of_semicolon (read : Reader) {kw clause : Concrete} {parts : List Concrete}
    (hkw : keyword "import" cur = some (kw, c₁)) (hname : startsString c₁.skipTrivia.rest = false)
    (hclause : importClause c₁ = some (clause, c₂)) (hfrom : fromClause c₂ = some (parts, c₃))
    (hrest : c₃.rest = ';' :: cs) : ∃ tail, importStatement read cur =
      some (Concrete.branch "import_statement" kw (clause :: parts ++ [tail]), c₃.forward 1) ∧
        IsLeaf ";" .anonymous [';'] tail := by
  obtain ⟨tail, next, htail, -, hleaf⟩ := readsLeaf_leaf ";" .anonymous [';'] hrest
  have hnext : next = c₃.forward 1 := by
    cases htail
    rfl
  subst hnext
  have hword : Token.wordText c₃.rest = "" := by
    rw [hrest]
    rfl
  refine ⟨tail, ?_, hleaf⟩
  unfold importStatement
  rw [bind_of_eq_some hkw, peek_bind, if_neg (by simp [hname]), bind_of_eq_some hclause,
    bind_of_eq_some hfrom, pure_bind]
  dsimp only
  rw [get_bind, ahead?_semicolon hrest]
  dsimp only
  rw [if_neg (by rw [hword]; decide), pure_bind,
    bind_of_eq_some ((terminator_semicolon hrest false).trans htail), List.append_nil]
  rfl

-- A string literal that ends where its text does, whatever follows.
structure IsString (quote : Char) (more : List Char) : Prop where
  quote_eq : quote = '"' ∨ quote = '\''
  string (cs : List Char) : Token.string (quote :: more ++ cs) = more.length + 1

theorem IsString.isPlain {quote : Char} (h : IsString quote more) : isPlain quote = true := by
  rcases h.quote_eq with rfl | rfl <;> rfl

section importStatement

variable {quote : Char} {inside : List Char}

theorem importClause_of_isName (hname : IsName c more)
    (hrest : cur.rest = ' ' :: (c :: more ++ ' ' :: "from".toList ++ cs)) :
    ∃ name next, importClause cur = some (Concrete.branch "import_clause" name [], next) ∧
      next.rest = ' ' :: "from".toList ++ cs ∧ IsLeaf "identifier" .named (c :: more) name := by
  have hc := hname.word_parts c List.mem_cons_self
  have hskip : cur.skipTrivia.rest = c :: more ++ (' ' :: "from".toList ++ cs) := by
    rw [skipTrivia_of_space_plain rfl (isPlain_of_isWordPart hc) hrest]
    simp [Cursor.past]
  obtain ⟨name, next, hrun, hnext, hleaf⟩ :=
    readsLeaf_token "identifier" Token.word hskip (hname.word _)
  refine ⟨name, next, ?_, hnext, hleaf⟩
  have hmark : (c == '*' || c == '{') = false := by
    simp [ne_of_isWordPart hc (d := '*') rfl, ne_of_isWordPart hc (d := '{') rfl]
  have hskip' : next.skipTrivia.rest = 'f' :: ("rom".toList ++ cs) := by
    rw [skipTrivia_of_space_plain rfl rfl hnext]
    rfl
  unfold importClause
  rw [bind_of_eq_some (nextIs_eq _ hskip), hmark, if_neg Bool.false_ne_true]
  change ((token "identifier" Token.word >>= _) cur) = _
  rw [bind_of_eq_some hrun, bind_of_eq_some (nextIs_eq (· == ',') hskip')]
  rfl

theorem fromClause_of_isString (hstring : IsString quote inside)
    (hrest : cur.rest = ' ' :: "from".toList ++ ' ' :: (quote :: inside ++ cs)) :
    ∃ kw source next, fromClause cur = some ([kw, source.inRole .source], next) ∧ next.rest = cs ∧
      IsLeaf "from" .anonymous "from".toList kw ∧
      IsLeaf "string" .named (quote :: inside) source := by
  have hskip : cur.skipTrivia.rest = "from".toList ++ ' ' :: (quote :: inside ++ cs) := by
    rw [skipTrivia_of_space_plain rfl (rfl : isPlain 'f' = true) hrest]
    rfl
  obtain ⟨kw, c₁, hkw, hc₁, hkwLeaf⟩ := readsLeaf_keyword "from" hskip (isName_from.wordText _)
  have hskip₁ : c₁.skipTrivia.rest = quote :: inside ++ cs := by
    rw [skipTrivia_of_space_plain rfl hstring.isPlain hc₁]
    rfl
  obtain ⟨source, c₂, hsource, hc₂, hleaf⟩ :=
    readsLeaf_token "string" Token.string hskip₁ (hstring.string cs)
  refine ⟨kw, source, c₂, ?_, hc₂, hkwLeaf, hleaf⟩
  unfold fromClause
  rw [bind_of_eq_some hkw, bind_of_eq_some hsource]
  rfl

-- A default import on its own: where it ends is told by its own text.
theorem statement_of_import (read : Reader) (closed : Bool) (hname : IsName c more)
    (hstring : IsString quote inside) (hrest : cur.rest = "import".toList ++ ' ' :: (c :: more ++
      ' ' :: "from".toList ++ ' ' :: (quote :: inside ++ ';' :: cs))) :
    ∃ kw name from_ source tail next, statement read closed cur =
        some (Concrete.branch "import_statement" kw
          [Concrete.branch "import_clause" name [], from_, source.inRole .source, tail], next) ∧
      next.rest = cs ∧ IsLeaf "import" .anonymous "import".toList kw ∧
      IsLeaf "identifier" .named (c :: more) name ∧ IsLeaf "from" .anonymous "from".toList from_ ∧
      IsLeaf "string" .named (quote :: inside) source ∧ IsLeaf ";" .anonymous [';'] tail := by
  have hstart : cur.skipTrivia = cur := skipTrivia_of_plain (rfl : isPlain 'i' = true) hrest
  have hskip := hstart ▸ hrest
  have hc := hname.word_parts c List.mem_cons_self
  obtain ⟨kw, c₁, hkw, hc₁, hkwLeaf⟩ :=
    readsLeaf_keyword "import" hskip (isName_import.wordText _)
  have hspaced : c₁.rest = ' ' :: (c :: more ++
      ' ' :: "from".toList ++ ' ' :: (quote :: inside ++ ';' :: cs)) := by
    simpa using hc₁
  obtain ⟨name, c₂, hclause, hc₂, hnameLeaf⟩ := importClause_of_isName hname hspaced
  obtain ⟨from_, source, c₃, hfrom, hc₃, hfromLeaf, hsourceLeaf⟩ := fromClause_of_isString hstring hc₂
  have hskip₁ := skipTrivia_of_space_plain rfl (isPlain_of_isWordPart hc) hc₁
  have hstarts : startsString c₁.skipTrivia.rest = false := by
    rw [hskip₁]
    simp [startsString, Cursor.past, ne_of_isWordPart hc (d := '"') rfl,
      ne_of_isWordPart hc (d := '\'') rfl]
  obtain ⟨tail, himport, htailLeaf⟩ :=
    importStatement_of_semicolon read hkw hstarts hclause hfrom hc₃
  refine ⟨kw, name, from_, source, tail, c₃.forward 1, ?_, ?_, hkwLeaf, hnameLeaf, hfromLeaf,
    hsourceLeaf, htailLeaf⟩
  · have hfirst : peekChar cur = some (some 'i', cur) := by
      change some (cur.skipTrivia.rest.head?, cur) = _
      rw [hskip]
      rfl
    have hword : peekWord cur = some ("import", cur) := by
      change some (Token.wordText cur.skipTrivia.rest, cur) = _
      rw [hskip]
      exact congrArg (fun w => some (w, cur)) (isName_import.wordText _)
    have hbehind : (cur.skipTrivia.forward 6).skipTrivia.rest.head? = some c := by
      have hrest₆ : (cur.skipTrivia.forward 6).rest = c₁.rest := by
        rw [(Cursor.forward_spec 6 _).1, hskip, hc₁]
        rfl
      rw [skipTrivia_of_space_plain rfl (isPlain_of_isWordPart hc) (hrest₆.trans hc₁)]
      rfl
    have hget (f : Cursor → Parser Concrete) : (get >>= f) cur = f cur cur := rfl
    have hcall : ['(', '.', '?'].contains c = false := by
      simp [ne_of_isWordPart hc (d := '(') rfl, ne_of_isWordPart hc (d := '.') rfl,
        ne_of_isWordPart hc (d := '?') rfl]
    unfold statement
    rw [bind_of_eq_some hfirst]
    change (peekWord >>= _) cur = _
    rw [bind_of_eq_some hword]
    change (get >>= fun start : Cursor => if ['(', '.', '?'].contains
      ((start.skipTrivia.forward 6).skipTrivia.rest.head?.getD ' ') then expressionStatement read
        else importStatement read : Parser Concrete) cur = _
    rw [hget, hbehind, Option.getD_some, hcall, if_neg Bool.false_ne_true]
    exact himport
  · rw [(Cursor.forward_spec 1 c₃).1, hc₃, List.drop_one, List.tail_cons]

end importStatement

end Parser

end Flavoring.JavaScript
