import Flavoring.Config.Basic

/-!
Mappings: what a key stands for after entries were put one after the other. The last entry of a key
decides, wherever the key came first.
-/

namespace Flavoring.Mapping

variable {key value k v : String}

theorem lookup_put (k v : String) (entries : List (String × String)) (key : String) :
    (put k v entries).lookup key = if key = k then some v else entries.lookup key := by
  induction entries with
  | nil =>
    by_cases h : key = k
    · simp [put, h]
    · simp [put, List.lookup_cons, beq_eq_false_iff_ne.mpr h, h]
  | cons entry entries ih =>
    obtain ⟨k', v'⟩ := entry
    rw [put]
    by_cases hk : k' = k
    · subst hk
      rw [if_pos rfl]
      by_cases h : key = k'
      · simp [h]
      · simp [List.lookup_cons, beq_eq_false_iff_ne.mpr h, h]
    · rw [if_neg hk]
      by_cases h : key = k'
      · subst h
        simp [hk]
      · simp only [List.lookup_cons, beq_eq_false_iff_ne.mpr h]
        exact ih

theorem find?_insert (m : Mapping) (k v key : String) :
    (m.insert k v).find? key = if key = k then some v else m.find? key :=
  lookup_put k v m.entries key

theorem find?_ofList (entries : List (String × String)) (key : String) :
    (ofList entries).find? key = entries.reverse.lookup key := by
  generalize hreverse : entries.reverse = reversed
  induction reversed generalizing entries with
  | nil =>
    rw [List.reverse_eq_nil_iff.mp hreverse]
    rfl
  | cons entry reversed ih =>
    obtain ⟨k, v⟩ := entry
    have hsplit : entries = reversed.reverse ++ [(k, v)] := by
      rw [← List.reverse_cons, ← hreverse, List.reverse_reverse]
    have hlast : ofList entries = (ofList reversed.reverse).insert k v := by
      rw [hsplit, ofList, List.foldl_append]
      rfl
    rw [hlast, find?_insert, ih _ (List.reverse_reverse reversed), List.lookup_cons]
    by_cases h : key = k
    · simp [h]
    · rw [if_neg h, beq_eq_false_iff_ne.mpr h]

/-- The last entry of a key decides. -/
theorem find?_ofList_eq_some_iff {entries : List (String × String)} :
    (ofList entries).find? key = some value ↔ ∃ before after,
      entries = before ++ (key, value) :: after ∧ ∀ entry ∈ after, entry.1 ≠ key := by
  rw [find?_ofList, List.lookup_eq_some_iff]
  constructor
  · rintro ⟨after, before, hsplit, hafter⟩
    refine ⟨before.reverse, after.reverse, ?_, fun entry hentry => ?_⟩
    · rw [← List.reverse_reverse entries, hsplit]
      simp
    · have hne := hafter entry (List.mem_reverse.mp hentry)
      exact Ne.symm (by simpa using hne)
  · rintro ⟨before, after, rfl, hafter⟩
    refine ⟨after.reverse, before.reverse, by simp, fun entry hentry => ?_⟩
    have hne := hafter entry (List.mem_reverse.mp hentry)
    simpa using Ne.symm hne

end Flavoring.Mapping
