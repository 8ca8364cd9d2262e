import Flavoring.Proofs.Files.Walking
import Mathlib.Data.List.Sort

/-!
Independence of the files of a folder. With outputs elsewhere, each file fares as it would alone,
whatever became of those before it.
-/

namespace Flavoring.Files

open Store

namespace Transformer

variable {t : Transformer} {input output root : Path} {src out place names : List String}
  {s s' s₁ : Store} {stats : Expansion.Statistics} {files : List (List String)} {name : String}

/-- At its turn each file whose text can be made is written as well. -/
def WritesSucceed (t : Transformer) (output root : Path) :
    List Path → Expansion.Statistics → Store → Prop
  | [], _, _ => True
  | path :: paths, stats, s =>
    ((Work.exec (t.transformToText path) stats s).result.isOk = true →
      (Work.exec (t.transformFile path (t.outputFor path output root)) stats s).result.isOk = true) ∧
    WritesSucceed t output root paths (Work.exec (t.transformEntry path output root) stats s).stats
      (Work.exec (t.transformEntry path output root) stats s).store

instance decidableWritesSucceed (t : Transformer) (output root : Path) :
    ∀ (paths : List Path) (stats : Expansion.Statistics) (s : Store),
      Decidable (t.WritesSucceed output root paths stats s)
  | [], _, _ => inferInstanceAs (Decidable True)
  | _ :: paths, _, _ =>
    have := decidableWritesSucceed t output root paths
    inferInstanceAs (Decidable (_ ∧ _))

end Transformer

variable {t : Transformer} {input output : Path} {src out names : List String} {s s₁ s' : Store}
  {stats stats' : Expansion.Statistics} {files : List (List String)} {report : Report}

section Apart

variable (hsrcout : ¬ src <+: out) (houtsrc : ¬ out <+: src)
include hsrcout houtsrc

/-- No place in the input folder, nor one above such a place, is below the output folder. -/
theorem not_below_of_apart {init : List String} (hinit : init <+: src ++ names) : ¬ out <+: init := by
  intro hbelow
  obtain h | h := List.prefix_or_prefix_of_prefix (hbelow.trans hinit) (List.prefix_append src names)
  · exact houtsrc h
  · exact hsrcout h

/-- The walk takes all modules that were there before the output folder was made, and nothing else. -/
theorem Visits.mem_iff_of_apart {P : List String → Prop} (hadds : Adds P s s₁)
    (hready : Ready s₁ input input output src out)
    (h : Visits t input input output src out (fun _ => True) stats s₁ files report stats' s') :
    names ∈ files ↔ names ≠ [] ∧ t.isModule (input.descend names) = true ∧
      (∀ name ∈ names.dropLast, Transformer.isSkipped ⟨name⟩ = false) ∧
      ∃ content, s.spot? (src ++ names) = some (.file content) := by
  constructor
  · intro hmem
    obtain ⟨-, htakes, s₂, content, hgrows, hfile⟩ := h.sound names hmem
    rw [hgrows.spot? _ fun h => not_below_of_apart hsrcout houtsrc List.prefix_rfl h.1,
      hadds.file_iff] at hfile
    exact ⟨htakes.ne_nil, htakes.isModule, htakes.kept, content, hfile⟩
  · rintro ⟨hne, hmodule, hkept, content, hfile⟩
    have hfile₁ := hadds.file_iff.mpr hfile
    refine h.complete names content trivial ⟨hne, hmodule, hkept, ?_⟩ hfile₁
    intro before _ hbefore
    rw [Bool.eq_false_iff]
    intro hsame
    have hthere : s₁.spot? (src ++ before) ≠ none := there_of_prefix (by simp [hfile₁]) hbefore
    exact hsrcout ⟨before, hready.eq_of_sameAs hthere hsame⟩

end Apart

end Flavoring.Files
