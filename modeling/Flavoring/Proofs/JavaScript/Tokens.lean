import Flavoring.Proofs.JavaScript.Reading

/-!
The layout of tokens, and of the lists that marks and commas hold together.
-/

namespace Flavoring.JavaScript

open Text (IsCut byteLength)

variable {text : List Char} {cur next : Cursor} {kind s : String} {n : Nat}

/-! Scanners of quoted text -/

namespace Token

-- What is scanned is there and ends in `quote`.
def Closes (quote : Char) (cs : List Char) (n : Nat) : Prop :=
  n ≠ 0 → ∃ front, cs.take n = front ++ [quote]

variable {quote c : Char} {cs : List Char}

theorem closes_zero : Closes quote cs 0 := nofun

theorem closes_further (h : Closes quote cs n) : Closes quote (c :: cs) (further n) := by
  cases n with
  | zero => exact closes_zero
  | succ n =>
    intro _
    obtain ⟨front, hfront⟩ := h (Nat.succ_ne_zero n)
    exact ⟨c :: front, by rw [further, List.take_succ_cons, hfront, List.cons_append]⟩

theorem closes_one : Closes c (c :: cs) 1 := fun _ => ⟨[], rfl⟩

theorem closes_stringTail (quote : Char) (skip : Nat) (cs : List Char) :
    Closes quote cs (stringTail quote skip cs) := by
  fun_induction stringTail quote skip cs
  case case1 => exact closes_zero
  case case2 ih => exact closes_further ih
  case case3 c cs hquote =>
    rw [beq_iff_eq] at hquote
    exact hquote ▸ closes_one
  case case4 => exact closes_zero
  case case5 ih => exact closes_further ih
  case case6 c cs _ _ _ k behind hquote =>
    -- the quote stands behind the separators of a new line
    intro _
    rw [beq_iff_eq] at hquote
    have hat : cs[k]? = some quote := by
      rw [← List.head?_drop]
      exact hquote
    refine ⟨c :: cs.take k, ?_⟩
    rw [List.take_succ_cons, List.take_add_one, hat]
    rfl
  case case7 => exact closes_zero
  case case8 ih => exact closes_further ih
  case case9 => exact closes_zero
  case case10 ih => exact closes_further ih

theorem closes_attributeTail (quote : Char) (skip : Nat) (cs : List Char) :
    Closes quote cs (attributeTail quote skip cs) := by
  fun_induction attributeTail quote skip cs
  case case1 => exact closes_zero
  case case2 ih => exact closes_further ih
  case case3 c cs hquote =>
    rw [beq_iff_eq] at hquote
    exact hquote ▸ closes_one
  all_goals first | exact closes_zero | (rename_i ih; exact closes_further ih)

-- A quoted text ends in a quote.
def EndsQuoted (scan : List Char → Nat) : Prop :=
  ∀ cs, ∃ quote, (quote = '"' ∨ quote = '\'') ∧ Closes quote cs (scan cs)

theorem endsQuoted_string : EndsQuoted string := by
  intro cs
  fun_cases string cs with
  | case1 q cs hq =>
    rw [Bool.or_eq_true, beq_iff_eq, beq_iff_eq] at hq
    exact ⟨q, hq, closes_further (closes_stringTail q 0 cs)⟩
  | case2 q cs hq => exact ⟨'"', Or.inl rfl, closes_zero⟩
  | case3 => exact ⟨'"', Or.inl rfl, closes_zero⟩

theorem endsQuoted_attributeString : EndsQuoted attributeString := by
  intro cs
  fun_cases attributeString cs with
  | case1 q cs hq =>
    rw [Bool.or_eq_true, beq_iff_eq, beq_iff_eq] at hq
    exact ⟨q, hq, closes_further (closes_attributeTail q 0 cs)⟩
  | case2 q cs hq => exact ⟨'"', Or.inl rfl, closes_zero⟩
  | case3 => exact ⟨'"', Or.inl rfl, closes_zero⟩

end Token

/-! Leaves -/

namespace Cursor

theorem In.endsTight (h : cur.In text) {front : List Char} {c : Char}
    (htake : cur.rest.take n = front ++ [c]) (hspace : c ≠ ' ') (htab : c ≠ '\t') :
    EndsTight text ⟨cur.offset, (cur.forward n).offset⟩ := by
  obtain ⟨before, hsplit, hoffset⟩ := h.split
  have hpos := c.utf8Size_pos
  have hrest := List.take_append_drop n cur.rest
  rw [htake] at hrest
  have hall : text = (before ++ front) ++ c :: cur.rest.drop n := calc
    text = before ++ cur.rest := hsplit
    _ = before ++ (front ++ [c] ++ cur.rest.drop n) := by rw [hrest]
    _ = (before ++ front) ++ c :: cur.rest.drop n := by simp
  have hat := Text.getElem?_bytes (before ++ front) (cur.rest.drop n)
    (show c.utf8Size - 1 < c.utf8Size by omega)
  rw [← hall, Text.byteLength_append] at hat
  obtain ⟨b, hb⟩ : ∃ b, (String.utf8EncodeChar c)[c.utf8Size - 1]? = some b :=
    ⟨_, List.getElem?_eq_getElem (by rw [String.length_utf8EncodeChar]; omega)⟩
  refine ⟨byteLength before + byteLength front + (c.utf8Size - 1), b, ?_, ?_, hat.trans hb, ?_⟩
  · show cur.offset ≤ _
    omega
  · show (cur.forward n).offset = _
    rw [(forward_spec n cur).2.2, htake, Text.byteLength_append, Text.byteLength_cons,
      Text.byteLength_nil]
    omega
  · -- a blank would be the character itself
    rw [Bool.eq_false_iff]
    intro hblank
    have hnat := Text.toNat_eq_of_mem (List.mem_of_getElem? hb)
      (Text.toNat_lt_of_isBlankByte hblank)
    simp only [Text.isBlankByte, Bool.or_eq_true, beq_iff_eq] at hblank
    rcases hblank with rfl | rfl
    · exact hspace (Char.toNat_inj.mp hnat)
    · exact htab (Char.toNat_inj.mp hnat)

theorem In.offset_lt_forward (hrest : cur.rest ≠ []) (hn : n ≠ 0) :
    cur.offset < (cur.forward n).offset := by
  have hlength := Text.length_le_byteLength (cur.rest.take n)
  have hpos := List.length_pos_iff.mpr hrest
  rw [List.length_take] at hlength
  rw [(forward_spec n cur).2.2]
  omega

-- A cursor at a token, with text before it.
theorem In.opensAt (h : cur.In text) (htoken : cur.AtToken) (hrest : cur.rest ≠ []) :
    OpensAt text cur.offset := by
  obtain ⟨front, hsplit, hoffset⟩ := h.split
  cases hcs : cur.rest with
  | nil => exact absurd hcs hrest
  | cons c cs => exact ⟨front, c, cs, hcs ▸ hsplit, hoffset, htoken c (by rw [hcs]; rfl)⟩

end Cursor

namespace Parser

variable {standing : Standing} {scan : List Char → Nat}

-- A leaf covers the characters that it takes.
theorem yields_leaf (hcur : cur.In text)
    (hnamed : standing = .named → cur.rest ≠ [] ∧ n ≠ 0)
    (htight : kind ∈ tightKinds → EndsTight text ⟨cur.offset, (cur.forward n).offset⟩) :
    Yields (leaf kind standing n) cur fun t next => next = cur.forward n ∧ next.In text ∧
      Chain text cur.offset [t] next.offset ∧ t.label.extent = ⟨cur.offset, next.offset⟩ := by
  intro t next ht
  cases ht
  have hpast := hcur.forward n
  refine ⟨rfl, hpast.toIn, chain_cons.mpr ⟨Nat.le_refl _, ?_, .nil (Nat.le_refl _)⟩, rfl⟩
  refine laid_node.mpr ⟨⟨hcur.isCut, hpast.isCut, hpast.le, fun h => ?_, htight⟩, .nil hpast.le⟩
  obtain ⟨hrest, hn⟩ := hnamed h
  exact Cursor.In.offset_lt_forward hrest hn

-- A mark behind the cursor, of which nothing is asked.
theorem spans_leaf (kind : String) (n : Nat) (hkind : kind ∉ tightKinds) :
    Spans text (fun lo t hi => Chain text lo [t] hi) (leaf kind .anonymous n) := by
  intro cur hcur
  have hleaf : Yields (leaf kind .anonymous n) cur _ :=
    yields_leaf hcur nofun fun hmem => absurd hmem hkind
  exact hleaf.mono fun t next h => ⟨h.2.1, h.2.2.1⟩

theorem spans_nothing : Spans text (fun lo t hi => Chain text lo [t] hi) nothing :=
  spans_leaf "" 0 (by decide)

-- A leaf at a token.
theorem yields_leaf_stands (hcur : cur.In text) (htoken : cur.AtToken) (hrest : cur.rest ≠ [])
    (hn : n ≠ 0)
    (htight : kind ∈ tightKinds → EndsTight text ⟨cur.offset, (cur.forward n).offset⟩) :
    Yields (leaf kind standing n) cur fun t next => next = cur.forward n ∧ next.In text ∧
      Stands text cur.offset t next.offset ∧ t.label.extent = ⟨cur.offset, next.offset⟩ := by
  refine (yields_leaf hcur (fun _ => ⟨hrest, hn⟩) htight).mono fun t next h => ?_
  obtain ⟨rfl, hnext, hchain, hextent⟩ := h
  refine ⟨rfl, hnext, ⟨hchain, fun t' ht' => ?_⟩, hextent⟩
  cases ht'
  unfold Concrete.Opens
  rw [hextent]
  exact ⟨Cursor.In.offset_lt_forward hrest hn, hcur.opensAt htoken hrest⟩

/-! Tokens -/

theorem reads_token (kind : String) (scan : List Char → Nat) (hscan : scan [] = 0)
    (hkind : kind ∉ tightKinds) : Reads text (token kind scan) := by
  intro cur hcur
  have hpast := hcur.skipTrivia
  unfold token
  refine Yields.modify (Yields.get ?_)
  split
  · exact Yields.failure
  · next n hn =>
    have hrest : cur.skipTrivia.rest ≠ [] := fun hnil => hn (hnil ▸ hscan)
    refine (yields_leaf_stands hpast.toIn hcur.atToken_skipTrivia hrest hn
      fun hmem => absurd hmem hkind).mono fun t next h => ?_
    exact ⟨h.2.1, h.2.2.1.lower hpast.le⟩

theorem reads_string (hscan : Token.EndsQuoted scan) : Reads text (token "string" scan) := by
  intro cur hcur
  have hpast := hcur.skipTrivia
  unfold token
  refine Yields.modify (Yields.get ?_)
  split
  · exact Yields.failure
  · next n hn =>
    obtain ⟨quote, hquote, hcloses⟩ := hscan cur.skipTrivia.rest
    obtain ⟨front, hfront⟩ := hcloses hn
    have hrest : cur.skipTrivia.rest ≠ [] := by
      intro hnil
      rw [hnil, List.take_nil] at hfront
      exact List.cons_ne_nil _ _ (List.append_eq_nil_iff.mp hfront.symm).2
    have hend : EndsTight text ⟨cur.skipTrivia.offset,
        (cur.skipTrivia.forward (scan cur.skipTrivia.rest)).offset⟩ := by
      refine hpast.toIn.endsTight hfront ?_ ?_ <;> rcases hquote with rfl | rfl <;> decide
    refine (yields_leaf_stands hpast.toIn hcur.atToken_skipTrivia hrest hn
      fun _ => hend).mono fun t next h => ?_
    exact ⟨h.2.1, h.2.2.1.lower hpast.le⟩

theorem reads_word (kind : String) (hkind : kind ∉ tightKinds) :
    Reads text (word kind) := reads_token kind Token.word rfl hkind

theorem spans_adjacent (kind : String) (scan : List Char → Nat) (hscan : scan [] = 0)
    (hkind : kind ∉ tightKinds) :
    Spans text (fun lo t hi => Chain text lo [t] hi) (adjacent kind scan) := by
  intro cur hcur
  unfold adjacent
  refine Yields.get ?_
  split
  · exact Yields.failure
  · next n hn =>
    have hrest : cur.rest ≠ [] := fun hnil => hn (hnil ▸ hscan)
    exact (yields_leaf hcur (fun _ => ⟨hrest, hn⟩) fun hmem => absurd hmem hkind).mono
      fun t next h => ⟨h.2.1, h.2.2.1⟩

/-! Marks and keywords -/

-- What a mark may be written as: it neither starts with a separator nor ends in a blank.
def isMark (s : String) : Bool :=
  !tightKinds.contains s && s.toList.head?.any (!isSeparator ·)
    && s.toList.getLast?.any fun c => c != ' ' && c != '\t'

theorem isMark_spec (hs : isMark s = true) (hstarts : Token.startsWith s cur.rest = true) :
    s ∉ tightKinds ∧ cur.AtToken ∧ cur.rest ≠ [] ∧ s.length ≠ 0 ∧ ∃ front c,
      cur.rest.take s.length = front ++ [c] ∧ c ≠ ' ' ∧ c ≠ '\t' := by
  unfold isMark at hs
  rw [Bool.and_eq_true, Bool.and_eq_true, Bool.not_eq_true', List.contains_eq_mem,
    decide_eq_false_iff_not, Option.any_eq_true, Option.any_eq_true] at hs
  obtain ⟨⟨htight, d, hhead, hd⟩, c, hlast, hc⟩ := hs
  rw [Bool.and_eq_true, bne_iff_ne, bne_iff_ne] at hc
  obtain ⟨front, hfront⟩ := List.getLast?_eq_some_iff.mp hlast
  obtain ⟨back, hback⟩ := List.isPrefixOf_iff_prefix.mp hstarts
  have htake : cur.rest.take s.length = s.toList := by
    rw [← hback, ← String.length_toList, List.take_left]
  refine ⟨htight, ?_, ?_, ?_, front, c, htake.trans hfront, hc⟩
  · intro c' hc'
    rw [← hback, List.head?_append, hhead] at hc'
    cases hc'
    exact (Bool.not_eq_true' _).mp hd
  · rw [← hback, hfront]
    simp
  · rw [← String.length_toList, hfront]
    simp

theorem spans_mark (s : String) (hs : isMark s = true) :
    Spans text (fun lo t hi => Stands text lo t hi ∧ EndsTight text t.label.extent) (mark s) := by
  intro cur hcur
  have hpast := hcur.skipTrivia
  unfold mark
  refine Yields.modify (Yields.get ?_)
  split
  · next hstarts =>
    obtain ⟨hkind, -, hrest, hn, front, c, htake, hc⟩ := isMark_spec hs hstarts
    refine (yields_leaf_stands hpast.toIn hcur.atToken_skipTrivia hrest hn
      fun hmem => absurd hmem hkind).mono fun t next h => ?_
    obtain ⟨rfl, hnext, hstands, hextent⟩ := h
    refine ⟨hnext, hstands.lower hpast.le, ?_⟩
    rw [hextent]
    exact hpast.toIn.endsTight htake hc.1 hc.2
  · exact Yields.failure

theorem reads_mark (s : String) (hs : isMark s = true) : Reads text (mark s) :=
  (spans_mark s hs).mono fun _ _ _ h => h.1

theorem spans_adjacentMark (s : String) (hs : isMark s = true) :
    Spans text (fun lo t hi => Stands text lo t hi ∧ EndsTight text t.label.extent)
      (adjacentMark s) := by
  intro cur hcur
  unfold adjacentMark
  refine Yields.get ?_
  split
  · next hstarts =>
    obtain ⟨hkind, htoken, hrest, hn, front, c, htake, hc⟩ := isMark_spec hs hstarts
    refine (yields_leaf_stands hcur htoken hrest hn
      fun hmem => absurd hmem hkind).mono fun t next h => ?_
    obtain ⟨rfl, hnext, hstands, hextent⟩ := h
    refine ⟨hnext, hstands, ?_⟩
    rw [hextent]
    exact hcur.endsTight htake hc.1 hc.2
  · exact Yields.failure

theorem reads_keyword (s : String) (hs : s ≠ "" ∧ s ∉ tightKinds) :
    Reads text (keyword s) := by
  intro cur hcur
  have hpast := hcur.skipTrivia
  unfold keyword
  refine Yields.modify (Yields.get ?_)
  split
  · next hword =>
    rw [beq_iff_eq] at hword
    have hrest : cur.skipTrivia.rest ≠ [] := by
      intro hnil
      rw [hnil] at hword
      exact hs.1 hword.symm
    have hn : s.length ≠ 0 := by
      rw [← String.length_toList]
      exact fun hzero => hs.1 (String.toList_eq_nil_iff.mp (List.eq_nil_of_length_eq_zero hzero))
    refine (yields_leaf_stands hpast.toIn hcur.atToken_skipTrivia hrest hn
      fun hmem => absurd hmem hs.2).mono fun t next h => ?_
    exact ⟨h.2.1, h.2.2.1.lower hpast.le⟩
  · exact Yields.failure

theorem reads_exchangedName : Reads text exchangedName := by
  intro cur hcur
  unfold exchangedName
  refine looks_peekChar.bind fun c => ?_
  split
  · split
    · exact (reads_string Token.endsQuoted_string).yields hcur
    · exact (reads_word "identifier" (by decide)).yields hcur
  · exact Yields.failure

/-! Lists -/

-- A row and the mark that closes it.
def Closed (text : List Char) (lo : Nat) (ts : List Concrete) (hi : Nat) : Prop :=
  ∃ front last mid, ts = front ++ [last] ∧ Row text lo front mid ∧ Stands text mid last hi ∧
    EndsTight text last.label.extent

theorem Closed.row {lo hi : Nat} {ts : List Concrete} (h : Closed text lo ts hi) :
    Row text lo ts hi := by
  obtain ⟨front, last, mid, rfl, hfront, hlast, -⟩ := h
  exact hfront.append hlast

theorem Closed.chain {lo hi : Nat} {ts : List Concrete} (h : Closed text lo ts hi) :
    Chain text lo ts hi := h.row.chain

-- Over a closed list a branch may be of a kind that does not end in a blank.
theorem Closed.branch {lo mid hi : Nat} {opening : Concrete} {ts : List Concrete}
    (hopening : Stands text lo opening mid) (h : Closed text mid ts hi) :
    Stands text lo (Concrete.branch kind opening ts) hi := by
  have hrow := hopening.row h.chain
  obtain ⟨front, last, _, rfl, -, -, htight⟩ := h
  refine hrow.branchOf fun _ => ?_
  rwa [List.getLast?_concat, Option.getD_some]

theorem spans_close {lo mid : Nat} {front : List Concrete} (close : String)
    (hclose : isMark close = true) (hcur : cur.In text) (hmid : cur.offset = mid)
    (hfront : Row text lo front mid) :
    Yields (do return front ++ [← mark close]) cur fun ts next =>
      next.In text ∧ Closed text lo ts next.offset := by
  subst hmid
  refine (spans_mark close hclose).bind hcur fun last next hnext hlast => ?_
  exact Yields.pure ⟨hnext, front, last, _, rfl, hfront, hlast⟩

theorem closed_listWithHoles {item : Parser Concrete} (close : String)
    (hclose : isMark close = true) (hitem : Reads text item) :
    Spans text (Closed text) (listWithHoles close item) := by
  intro cur hcur
  unfold listWithHoles
  refine (rows_many_flatten ?_).bind hcur fun parts next hnext hparts =>
    spans_close close hclose hnext rfl hparts
  intro cur hcur
  refine looks_peek.bind fun cs => ?_
  split
  · exact Yields.pure ⟨hcur, .nil (Nat.le_refl _)⟩
  · split
    · refine (reads_mark "," rfl).bind hcur fun comma next hnext hcomma => ?_
      exact Yields.pure ⟨hnext, hcomma⟩
    · refine hitem.bind hcur fun a next hnext ha => ?_
      refine looks_peek.bind fun cs => ?_
      split
      · exact Yields.pure ⟨hnext, ha⟩
      · refine (reads_mark "," rfl).bind hnext fun comma last hlast hcomma => ?_
        exact Yields.pure ⟨hlast, ha.row hcomma.chain⟩

theorem closed_listOf {item : Parser Concrete} (close : String)
    (hclose : isMark close = true) (hitem : Reads text item) :
    Spans text (Closed text) (listOf close item) := by
  intro cur hcur
  unfold listOf
  refine (rows_many_flatten ?_).bind hcur fun parts next hnext hparts =>
    spans_close close hclose hnext rfl hparts
  intro cur hcur
  refine looks_peek.bind fun cs => ?_
  split
  · exact Yields.pure ⟨hcur, .nil (Nat.le_refl _)⟩
  · refine hitem.bind hcur fun a next hnext ha => ?_
    refine looks_peek.bind fun cs => ?_
    split
    · exact Yields.pure ⟨hnext, ha⟩
    · refine (reads_mark "," rfl).bind hnext fun comma last hlast hcomma => ?_
      exact Yields.pure ⟨hlast, ha.row hcomma.chain⟩

/-! Semicolons -/

-- An end that may be supplied stands at the cursor or behind comments.
theorem spans_terminator (afterOperand : Bool) :
    Spans text (fun lo t hi => Chain text lo [t] hi) (terminator afterOperand) := by
  intro cur hcur
  unfold terminator
  refine Yields.get ?_
  split
  · next start hsupply =>
    have hpast := hcur.supply hsupply
    refine Yields.set ((spans_nothing.yields hpast.toIn).mono fun t next h => ?_)
    exact ⟨h.1, h.2.lower hpast.le⟩
  · split
    · next start question hahead =>
      have hpast := (hcur.ahead hahead).1
      split
      · refine Yields.set (((spans_leaf ";" 1 (by decide)).yields hpast.toIn).mono
          fun t next h => ?_)
        exact ⟨h.1, h.2.lower hpast.le⟩
      · exact Yields.failure
    · exact Yields.failure

theorem spans_supplied? (afterOperand : Bool) :
    Spans text (fun lo o hi => Chain text lo o.toList hi) (supplied? afterOperand) := by
  intro cur hcur
  unfold supplied?
  refine Yields.get ?_
  split
  · next start hsupply =>
    have hpast := hcur.supply hsupply
    refine Yields.set (spans_nothing.bind hpast.toIn fun t next hnext ht => ?_)
    exact Yields.pure ⟨hnext, ht.lower hpast.le⟩
  · extract_lets jp
    have hjp (r : Unit) : Yields (jp r) cur fun o next =>
        next.In text ∧ Chain text cur.offset o.toList next.offset :=
      Yields.pure ⟨hcur, .nil (Nat.le_refl _)⟩
    split
    · exact looks_noMarkupComment.bind hjp
    · exact hjp ()

end Parser

end Flavoring.JavaScript
