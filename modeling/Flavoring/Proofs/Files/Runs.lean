import Flavoring.Files.Transformer
import Flavoring.Proofs.Files.Folders

/-!
Runs of work on a store: what each way to put work together makes of statistics and store.
-/

namespace Flavoring.Files

/-- What work gives, the statistics it leaves and the store it leaves. -/
structure Ran (α : Type) where
  result : Except Failure α
  stats : Expansion.Statistics
  store : Store

namespace Work

variable {α β : Type} {stats : Expansion.Statistics} {s : Store}

/-- Does work on a store. -/
def exec (work : Work (StateM Store) α) (stats : Expansion.Statistics) (s : Store) : Ran α :=
  let ((result, stats), s) := (work.run.run stats).run s
  { result, stats, store := s }

theorem exec_bind (work : Work (StateM Store) α) (f : α → Work (StateM Store) β) :
    exec (work >>= f) stats s =
      match exec work stats s with
      | ⟨.ok a, stats, s⟩ => exec (f a) stats s
      | ⟨.error failure, stats, s⟩ => ⟨.error failure, stats, s⟩ := by
  simp only [exec, ExceptT.run_bind, StateT.run_bind]
  change (match (work.run.run stats).run s with | ((r, stats), s) => _) = _
  obtain ⟨⟨result, stats⟩, s⟩ := (work.run.run stats).run s
  cases result <;> rfl

theorem exec_step (action : StateM Store α) :
    exec (step action) stats s = ⟨.ok (action.run s).1, stats, (action.run s).2⟩ := rfl

theorem exec_attempt (context : Option Context) (action : StateM Store (Except FileError α)) :
    exec (attempt context action) stats s =
      ⟨(action.run s).1.mapError fun e => { context, cause := .file e }, stats, (action.run s).2⟩ := by
  rw [attempt, exec_bind, exec_step]
  simp only
  cases (action.run s).1 <;> rfl

theorem exec_outcome (work : Work (StateM Store) α) :
    exec (outcome work) stats s =
      ⟨.ok (exec work stats s).result, (exec work stats s).stats, (exec work stats s).store⟩ := rfl

theorem exec_getThe : exec (getThe Expansion.Statistics) stats s = ⟨.ok stats, stats, s⟩ := rfl

theorem exec_set (stats' : Expansion.Statistics) :
    exec (set stats') stats s = ⟨.ok (), stats', s⟩ := rfl

end Work

end Flavoring.Files
