import Flavoring.Proofs.Text.Quoting

/-!
Delimiting: a quoted value ends where its literal ends, whatever is written behind it.

A reader that knows no more of escapes than that a backslash takes the next character with it finds
the closing delimiter, since what a character is written as never holds a delimiter or a backslash
that could be mistaken.
-/

namespace Flavoring.Text

namespace Hex

/-- The digits that are written. -/
def written : List Char := "0123456789abcdef".toList

theorem digit_mem_written {n : Nat} (h : n < 16) : digit n ∈ written := by
  have hall : ∀ n < 16, digit n ∈ written := by decide
  exact hall n h

theorem mem_written_of_mem_four {n : Nat} {c : Char} (h : c ∈ four n) : c ∈ written := by
  have hdigit (m : Nat) : digit (m % 16) ∈ written := digit_mem_written (Nat.mod_lt m (by decide))
  simp only [four, List.mem_cons, List.not_mem_nil, or_false] at h
  rcases h with rfl | rfl | rfl | rfl <;> exact hdigit _

end Hex

namespace Quoted

/-- What is passed from behind an opening delimiter up to the first one that no backslash stands
before, and what follows that. -/
def upToClosing? (d : Char) : List Char → Option (List Char × List Char)
  | [] => none
  | '\\' :: c :: cs => (upToClosing? d cs).map fun (body, rest) => ('\\' :: c :: body, rest)
  | c :: cs =>
    if c = d then some ([], cs)
    else (upToClosing? d cs).map fun (body, rest) => (c :: body, rest)

variable {d c : Char} {cs body rest following : List Char}

/-! Reading on -/

-- The reader passes `cs`, whatever follows it.
def Passes (d : Char) (cs : List Char) : Prop :=
  ∀ rest body following, upToClosing? d rest = some (body, following) →
    upToClosing? d (cs ++ rest) = some (cs ++ body, following)

namespace Passes

theorem nil (d : Char) : Passes d [] := fun _ _ _ h => h

theorem append (h : Passes d cs) (h' : Passes d rest) : Passes d (cs ++ rest) := by
  intro rest' body following hrest
  rw [List.append_assoc, List.append_assoc]
  exact h _ _ _ (h' _ _ _ hrest)

theorem plain (hd : c ≠ d) (hslash : c ≠ '\\') : Passes d [c] := by
  intro rest body following h
  rw [List.singleton_append, upToClosing?, if_neg hd, h]
  · rfl
  · rintro e cs rfl
    exact absurd rfl hslash

theorem escaped (d c : Char) : Passes d ['\\', c] := by
  intro rest body following h
  simp only [List.cons_append, List.nil_append, upToClosing?, h, Option.map_some]

theorem of_forall (h : ∀ c ∈ cs, Passes d [c]) : Passes d cs := by
  induction cs with
  | nil => exact nil d
  | cons c cs ih =>
    rw [List.forall_mem_cons] at h
    exact h.1.append (ih h.2)

theorem flatMap {f : Char → List Char} (h : ∀ c, Passes d (f c)) (value : List Char) :
    Passes d (value.flatMap f) := by
  induction value with
  | nil => exact nil d
  | cons c value ih => exact (h c).append ih

end Passes

theorem passes_four (hd : IsDelimiter d) (n : Nat) : Passes d (Hex.four n) := by
  have hplain : Hex.written.all (fun c => c ≠ '\'' ∧ c ≠ '"' ∧ c ≠ '\\') = true := by decide
  have hpass : ∀ c ∈ Hex.four n, Passes d [c] := by
    intro c hc
    obtain ⟨hsingle, hdouble, hslash⟩ :=
      of_decide_eq_true (List.all_eq_true.mp hplain c (Hex.mem_written_of_mem_four hc))
    rcases hd with rfl | rfl
    · exact .plain hsingle hslash
    · exact .plain hdouble hslash
  exact .of_forall hpass

/-- What stands behind the backslash of an escape that is no number. -/
def letters : List Char := "\\nrt0'\"".toList

/-- The three forms in which a character is written. -/
theorem escape_cases (hd : IsDelimiter d) (c : Char) :
    (∃ e ∈ letters, escape d c = ['\\', e]) ∨
    escape d c = '\\' :: 'u' :: Hex.four c.toNat ∨
    (escape d c = [c] ∧ c ≠ d ∧ c ∉ ['\\', '\n', '\r']) := by
  unfold escape
  split_ifs with hslash hfeed hreturn htab hnul hdelim hcontrol
  · exact Or.inl ⟨'\\', by decide, rfl⟩
  · exact Or.inl ⟨'n', by decide, rfl⟩
  · exact Or.inl ⟨'r', by decide, rfl⟩
  · exact Or.inl ⟨'t', by decide, rfl⟩
  · exact Or.inl ⟨'0', by decide, rfl⟩
  · subst hdelim
    rcases hd with rfl | rfl <;> exact Or.inl ⟨_, by decide, rfl⟩
  · exact Or.inr (Or.inl rfl)
  · exact Or.inr (Or.inr ⟨rfl, hdelim, by simp [hslash, hfeed, hreturn]⟩)

theorem passes_escape (hd : IsDelimiter d) (c : Char) : Passes d (escape d c) := by
  rcases escape_cases hd c with ⟨e, -, hletter⟩ | hnumber | ⟨hself, hdelim, hplain⟩
  · rw [hletter]
    exact .escaped d e
  · rw [hnumber]
    exact (Passes.escaped d 'u').append (passes_four hd c.toNat)
  · rw [hself]
    exact .plain hdelim fun hslash => hplain (by simp [hslash])

theorem not_mem_line_breaks_of_mem_escape {x : Char} (hd : IsDelimiter d) (h : x ∈ escape d c) :
    x ∉ ['\n', '\r'] := by
  have hletters : letters.all (· ∉ ['\n', '\r']) = true := by decide
  have hwritten : Hex.written.all (· ∉ ['\n', '\r']) = true := by decide
  rcases escape_cases hd c with ⟨e, he, hletter⟩ | hnumber | ⟨hself, -, hplain⟩
  · rw [hletter, List.mem_cons, List.mem_singleton] at h
    rcases h with rfl | rfl
    · decide
    · exact of_decide_eq_true (List.all_eq_true.mp hletters x he)
  · rw [hnumber, List.mem_cons, List.mem_cons] at h
    rcases h with rfl | rfl | hfour
    · decide
    · decide
    · exact of_decide_eq_true (List.all_eq_true.mp hwritten x (Hex.mem_written_of_mem_four hfour))
  · rw [hself, List.mem_singleton] at h
    subst h
    exact fun hx => hplain (List.mem_cons_of_mem _ hx)

/-- A reader stops behind the last character of a quoted value, having met no line break, and what
it has passed stands for the value. -/
theorem quote_delimits_itself (hd : IsDelimiter d) (value following : List Char) :
    ∃ body, quote d value = d :: body ++ [d] ∧
      upToClosing? d ((quote d value ++ following).drop 1) = some (body, following) ∧
      '\n' ∉ body ∧ '\r' ∉ body ∧ unquote (quote d value) = value := by
  have hclosing : upToClosing? d (d :: following) = some ([], following) := by
    rcases hd with rfl | rfl <;> rfl
  have hbreak (x : Char) (hx : x ∈ value.flatMap (escape d)) : x ∉ ['\n', '\r'] := by
    obtain ⟨c, -, hc⟩ := List.mem_flatMap.mp hx
    exact not_mem_line_breaks_of_mem_escape hd hc
  refine ⟨value.flatMap (escape d), rfl, ?_, ?_, ?_, unquote_quote hd value⟩
  · have hpass := Passes.flatMap (passes_escape hd) value _ _ _ hclosing
    simpa [quote] using hpass
  · exact fun hx => hbreak _ hx (by decide)
  · exact fun hx => hbreak _ hx (by decide)

/-- The value ends in a backslash and both delimiters, and more of them follow the literal. -/
theorem quote_delimits_itself_after_backslash :
    IsDelimiter '\'' ∧ ∃ body, body = "a\\r\\u0085\\\\\"\\'".toList ∧
      quote '\'' "a\r\x85\\\"'".toList = '\'' :: body ++ ['\''] ∧
      upToClosing? '\'' (body ++ '\'' :: "'\\".toList) = some (body, "'\\".toList) ∧
      unquote ('\'' :: body ++ ['\'']) = "a\r\x85\\\"'".toList := by
  obtain ⟨body, hquote, hclosing, -, -, hback⟩ :=
    quote_delimits_itself (Or.inl rfl) "a\r\x85\\\"'".toList "'\\".toList
  have hbody : quote '\'' "a\r\x85\\\"'".toList =
      '\'' :: "a\\r\\u0085\\\\\"\\'".toList ++ ['\''] := by decide +kernel
  refine ⟨Or.inl rfl, body, ?_, hquote, ?_, ?_⟩
  · exact List.append_cancel_right (List.cons.inj (hquote.symm.trans hbody)).2
  · rw [hquote] at hclosing
    simpa using hclosing
  · rw [← hquote]
    exact hback

end Quoted

end Flavoring.Text
