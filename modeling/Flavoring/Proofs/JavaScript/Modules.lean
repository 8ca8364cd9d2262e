import Flavoring.JavaScript.Module
import Flavoring.Proofs.JavaScript.Statements

/-! The layout of a whole module: every rule keeps it, however deep the rules are nested. -/

namespace Flavoring.JavaScript

namespace Parser

variable {text : List Char} {cur : Cursor} {read : Reader}

-- One step: a rule whose parts are laid out reads what is laid out.
theorem serves_rule (hread : Serves text read) : Serves text (rule read) := by
  intro goal
  cases goal with
  | statement closed => exact (states_statement hread closed).reads
  | block afterOperand => exact (states_block hread afterOperand).reads
  | element s => exact reads_binary hread s 0
  | operand s => exact reads_operand hread s true
  | updated s => exact reads_operand hread s false
  | binary s level => exact reads_binary hread s level
  | construct s => exact reads_newExpression hread s
  | markup => exact reads_element hread

theorem serves_nested (n : Nat) : Serves text (nested n) := by
  induction n with
  | zero => exact fun goal cur hcur => Yields.failure
  | succ n ih => exact serves_rule ih

-- Statements one behind the other.
def Body (text : List Char) (lo : Nat) (ts : List Concrete) (hi : Nat) : Prop :=
  Chain text lo ts hi ∧ ∀ t ∈ ts, t.Opens text ∧ t.kind ≠ "parenthesized_expression"

theorem Body.append {lo mid hi : Nat} {ts us : List Concrete} (h : Body text lo ts mid)
    (h' : Body text mid us hi) : Body text lo (ts ++ us) hi := by
  refine ⟨h.1.append h'.1, fun t ht => ?_⟩
  rcases List.mem_append.mp ht with ht | ht
  · exact h.2 t ht
  · exact h'.2 t ht

theorem Body.filter {lo hi : Nat} {ts : List Concrete} (h : Body text lo ts hi)
    (p : Concrete → Bool) : Body text lo (ts.filter p) hi :=
  ⟨h.1.sublist List.filter_sublist, fun t ht => h.2 t (List.mem_filter.mp ht).1⟩

-- One statement of a list, if another one comes.
def next? (read : Reader) : Parser (Option Concrete) := do
  if (← peek).isEmpty then return none else some <$> read (.statement false)

theorem spans_body (n : Nat) : Spans text (Body text) (many (next? (nested (n + 1)))) := by
  have hstep : Spans text (fun lo o hi => Body text lo (o.elim [] ([·])) hi)
      (next? (nested (n + 1))) := by
    intro cur hcur
    refine looks_peek.bind fun cs => ?_
    split
    · exact Yields.pure ⟨hcur, .nil (Nat.le_refl _), nofun⟩
    · refine Yields.map (((states_statement (serves_nested n) false).yields hcur).mono
        fun t next ht => ?_)
      refine ⟨ht.1, ht.2.1.chain, fun t' ht' => ?_⟩
      rw [List.mem_singleton.mp ht']
      exact ⟨ht.2.1.opens, ht.2.2⟩
  refine (spans_many Body.append _ hstep).mono fun lo ts hi hbody => ?_
  rwa [List.flatMap_singleton'] at hbody

-- No statement starts like an interpreter line.
theorem yields_statement_of_interpreterLine {cs : List Char} (closed : Bool)
    (h : cur.skipTrivia.rest = '#' :: '!' :: cs) :
    Yields (statement read closed) cur fun _ _ => False := by
  have hword : Token.wordText cur.skipTrivia.rest = "" := by
    rw [h]
    rfl
  -- only a private name starts with that sign
  have hoperand (s : Setting) (update : Bool) :
      Yields (operand read s update) cur fun _ _ => False := by
    unfold operand
    refine Yields.peek ?_
    rw [h]
    unfold privateLookup token
    refine Yields.bind (Yields.modify (Yields.get ?_))
    rw [h]
    exact Yields.failure
  have hexpression : Yields (expressionStatement read) cur fun _ _ => False := by
    unfold expressionStatement expressions settled binary
    exact Yields.bind (Yields.bind (Yields.bind (Yields.bind ((hoperand _ _).mono nofun))))
  have hlabel : Yields (labelOrExpression read closed) cur fun _ _ => False := by
    unfold labelOrExpression
    refine Yields.peekWord (looks_startsLabel.bind fun isLabel => ?_)
    rw [hword]
    exact hexpression
  have hfunction : startsFunction true cur = some (false, cur) := by
    have hpeek : peekWord cur = some ("", cur) := congrArg (fun w => some (w, cur)) hword
    unfold startsFunction
    simp only [bind, StateT.bind, hpeek]
    rfl
  unfold statement
  refine Yields.peekChar ?_
  rw [h]
  refine Yields.peekWord ?_
  rw [hword]
  refine Yields.bind fun isFunction next hnext => ?_
  rw [hfunction] at hnext
  cases hnext
  exact hlabel

-- The statements of a module are read from its start on, or from the end of its interpreter line.
theorem yields_program (read : Reader) (hcur : cur.In text) :
    Yields (program read) cur fun ts last => ∃ start body, start.In text ∧
      cur.offset ≤ start.offset ∧ many (next? read) start = some (body, last) ∧
      ts.filter (·.kind != "hash_bang_line") = body.filter (·.kind != "hash_bang_line") := by
  unfold program
  refine Yields.get ?_
  extract_lets first withLine
  have hline (line : List Concrete) (c : Cursor) (hc : c.In text) (hle : cur.offset ≤ c.offset)
      (hnone : line.filter (·.kind != "hash_bang_line") = []) :
      Yields (withLine line) c fun ts last => ∃ start body, start.In text ∧
        cur.offset ≤ start.offset ∧ many (next? read) start = some (body, last) ∧
        ts.filter (·.kind != "hash_bang_line") = body.filter (·.kind != "hash_bang_line") := by
    refine Yields.bind fun body last hbody => Yields.pure ⟨c, body, hc, hle, hbody, ?_⟩
    rw [List.filter_append, hnone, List.nil_append]
  clear_value withLine
  split
  · exact Yields.bind (Yields.pure (hline [] cur hcur (Nat.le_refl _) rfl))
  · next n hn =>
    refine Yields.set (Yields.bind fun t next ht => ?_)
    have hpast : Cursor.Past text cur next := by
      cases ht
      exact hcur.skipTrivia.trans (hcur.skipTrivia.toIn.forward _)
    have hkind : t.kind = "hash_bang_line" := by
      cases ht
      rfl
    refine Yields.bind (Yields.pure (hline [t] next hpast.toIn hpast.le ?_))
    rw [List.filter_cons_of_neg (by simp [hkind]), List.filter_nil]

end Parser

-- The statements of a module are laid out from the start of its text on.
theorem body_of_parse? {source : String} {statements : List Concrete}
    (h : parse? source = some statements) : ∃ hi, Parser.Body source.toList 0
      (statements.filter (·.kind != "hash_bang_line")) hi := by
  unfold parse? at h
  obtain ⟨⟨ts, next⟩, hrun, rfl⟩ := Option.map_eq_some_iff.mp h
  have hcur : Cursor.In source.toList { rest := source.toList, size := source.toList.length } :=
    ⟨rfl, [], rfl, rfl⟩
  obtain ⟨start, body, hstart, hle, hbody, hfilter⟩ := Parser.yields_program _ hcur ts next hrun
  have hspan := ((Parser.spans_body _).yields hstart body next hbody).2.filter
    (·.kind != "hash_bang_line")
  exact ⟨_, hfilter ▸ hspan.1.lower (Nat.le_trans (Nat.zero_le _) hle), hfilter ▸ hspan.2⟩

end Flavoring.JavaScript
