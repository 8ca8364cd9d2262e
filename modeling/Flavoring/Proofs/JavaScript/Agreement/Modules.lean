import Flavoring.Proofs.JavaScript.Agreement.Statements
import Flavoring.Proofs.JavaScript.Modules

/-!
Agreement on whole lists of statements: these are told by their text alone, wherever it stands in a
module.
-/

namespace Flavoring.JavaScript.Parser

open Concrete
open Flavoring.JavaScript.Cursor (Before Facing)

variable {m n a b : Nat} {cur cur' : Cursor} {read read' : Reader}

-- One step: rules whose parts are read alike read alike.
theorem leads_rule (hread : Alike m read read') (goal : Goal) :
    Leads m unplaced (rule read goal) (rule read' goal) := by
  cases goal with
  | statement closed => exact leads_statement hread closed
  | block afterOperand => exact leads_block hread afterOperand
  | element s => exact leads_binary hread s 0
  | operand s => exact leads_operand hread s true
  | updated s => exact leads_operand hread s false
  | binary s level => exact leads_binary hread s level
  | construct s => exact leads_newExpression hread s
  | markup => exact leads_element hread

-- As many nested steps as there are characters suffice; more make no difference.
theorem alike_nested (ha : n ≤ a) (hb : n ≤ b) : Alike n (nested a) (nested b) := by
  induction n generalizing a b with
  | zero => exact fun goal j hj => absurd hj (Nat.not_lt_zero j)
  | succ n ih =>
    intro goal j hj
    obtain ⟨a, rfl⟩ := Nat.exists_eq_add_of_le' (Nat.lt_of_le_of_lt (Nat.zero_le n) ha)
    obtain ⟨b, rfl⟩ := Nat.exists_eq_add_of_le' (Nat.lt_of_le_of_lt (Nat.zero_le n) hb)
    have halike := ih (Nat.le_of_succ_le_succ ha) (Nat.le_of_succ_le_succ hb)
    exact (leads_rule (halike.mono (Nat.le_of_lt_succ hj)) goal).takes

theorem leads_nested (ha : m < a) (hb : m < b) (goal : Goal) :
    Leads m unplaced (nested a goal) (nested b goal) := by
  obtain ⟨a, rfl⟩ := Nat.exists_eq_add_of_le' (Nat.lt_of_le_of_lt (Nat.zero_le m) ha)
  obtain ⟨b, rfl⟩ := Nat.exists_eq_add_of_le' (Nat.lt_of_le_of_lt (Nat.zero_le m) hb)
  exact leads_rule (alike_nested (Nat.le_of_lt_succ ha) (Nat.le_of_lt_succ hb)) goal

theorem agree_next? (ha : m < a) (hb : m < b) (hcur : Facing (m + 1) cur cur') :
    Agree (next? (nested a)) (next? (nested b)) cur cur' (Glance m unplaced cur cur') := by
  refine (see_peek hcur).see fun cs => ?_
  split
  · exact .pure ⟨rfl, rfl⟩
  · exact .map ((leads_nested ha hb _ cur cur' hcur).mono fun _ _ _ _ h => h)

theorem manyWithin_mono {α : Type} {step : Parser (Option α)} {k k' : Nat} {r : List α × Cursor}
    (h : manyWithin step k cur = some r) (hk : k ≤ k') : manyWithin step k' cur = some r := by
  induction k generalizing k' cur r with
  | zero => cases h
  | succ k ih =>
    obtain ⟨k', rfl⟩ := Nat.exists_eq_add_of_le' (Nat.lt_of_lt_of_le (Nat.succ_pos k) hk)
    obtain ⟨⟨o, next⟩, hstep, hrest⟩ := Option.bind_eq_some_iff.mp h
    refine Option.bind_eq_some_iff.mpr ⟨(o, next), hstep, ?_⟩
    cases o with
    | none => exact hrest
    | some a =>
      obtain ⟨r', hmany, hend⟩ := Option.bind_eq_some_iff.mp hrest
      exact Option.bind_eq_some_iff.mpr ⟨r', ih hmany (Nat.le_of_succ_le_succ hk), hend⟩

theorem facing_of_rest (h : cur.rest.length ≤ cur.size) (h' : cur'.rest.length ≤ cur'.size)
    (hrest : cur'.skipTrivia.rest = cur.skipTrivia.rest) :
    Facing (cur.skipTrivia.rest.length + 1) cur cur' := by
  have hself : Before (cur.rest.length + 1) cur cur := ⟨rfl, Nat.lt_succ_self _, h, h⟩
  have hself' : Before (cur'.rest.length + 1) cur' cur' := ⟨rfl, Nat.lt_succ_self _, h', h'⟩
  exact ⟨hrest, Nat.lt_succ_self _, hself.facing.fits, hrest ▸ hself'.facing.fits⟩

-- Two lists of statements from the same token on.
theorem exists_manyWithin (b k' : Nat) {k : Nat} {ts : List Concrete} {last : Cursor}
    (h : cur.rest.length ≤ cur.size) (h' : cur'.rest.length ≤ cur'.size)
    (hrest : cur'.skipTrivia.rest = cur.skipTrivia.rest) (ha : cur.skipTrivia.rest.length < a)
    (hb : cur.skipTrivia.rest.length < b) (hk : cur.skipTrivia.rest.length < k')
    (hrun : manyWithin (next? (nested a)) k cur = some (ts, last)) :
    ∃ ts' last', manyWithin (next? (nested b)) k' cur' = some (ts', last') ∧
      ts'.map unplaced = ts.map unplaced := by
  have hmore := manyWithin_mono hrun (Nat.le_add_right k (cur.skipTrivia.rest.length + 1))
  rcases agree_manyWithin_of_facing (k + (cur.skipTrivia.rest.length + 1)) k' (by omega) hk
    (fun j hj c c' hc => agree_next? (Nat.lt_of_le_of_lt hj ha) (Nat.lt_of_le_of_lt hj hb) hc)
    (facing_of_rest h h' hrest) with ⟨hnone, -⟩ | ⟨us, us', c, c', hsome, hsome', hus, -⟩
  · rw [hmore] at hnone
    cases hnone
  · rw [hmore] at hsome
    cases hsome
    exact ⟨us', c', hsome', hus⟩

-- A statement has characters of its own.
theorem length_lt_of_statement {t : Concrete} {next : Cursor} {closed : Bool}
    (h : cur.rest.length ≤ cur.size) (ha : cur.skipTrivia.rest.length < a)
    (hrun : nested a (.statement closed) cur = some (t, next)) :
    next.rest.length < cur.skipTrivia.rest.length := by
  rcases leads_nested ha ha (.statement closed) cur cur (facing_of_rest h h rfl) with
    ⟨hnone, -⟩ | ⟨u, u', c, c', hsome, -, -, hreach⟩
  · rw [hrun] at hnone
    cases hnone
  · rw [hrun] at hsome
    cases hsome
    exact hreach.lt

end Flavoring.JavaScript.Parser
