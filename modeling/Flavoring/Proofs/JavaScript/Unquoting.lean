import Flavoring.Proofs.JavaScript.StringLiterals

/-!
Unquoting, beside the value that the language gives to a literal.

Each part of a literal is read as what it stands for, save a half of a surrogate pair: there is no
character for that. Two halves are put together only if both are written in four digits and nothing
stands between them. So a literal is read as its value exactly if its pairs are written so.
-/

namespace Flavoring.JavaScript.StringLiteral

open Text.Quoted

variable {d c : Char} {n u : Nat} {digits following rest cs : List Char} {p : Part}
  {ps : List Part}

/-- The part stands for one half of a surrogate pair. -/
def Part.IsHalf (p : Part) : Prop := ∃ u, p.value = [u] ∧ IsSurrogate u

instance : DecidablePred Part.IsHalf := fun p =>
  decidable_of_iff (∃ u ∈ p.value, p.value = [u] ∧ IsSurrogate u) <| by
    refine exists_congr fun u => and_iff_right_of_imp fun h => ?_
    rw [h.1]
    exact List.mem_singleton_self u

/-- Halves of surrogate pairs are written in four digits only, and a low one right behind its high
one. -/
inductive Paired : List Part → Prop
  | nil : Paired []
  | whole {p : Part} {ps : List Part} : ¬ p.IsHalf → Paired ps → Paired (p :: ps)
  | pair {high low : List Char} {ps : List Part} : IsHighSurrogate (number high) →
    IsLowSurrogate (number low) → Paired ps → Paired (.unit high :: .unit low :: ps)

/-- Halves of surrogate pairs are written in pairs in the literal. -/
def IsPaired (raw : List Char) : Prop :=
  ∃ delimiter parts, Consists raw delimiter parts ∧ Paired parts

/-! Code points -/

theorem isValidChar_iff : n.isValidChar ↔ n ≤ 0x10FFFF ∧ ¬ IsSurrogate n := by
  simp only [Nat.isValidChar, IsSurrogate, IsHighSurrogate, IsLowSurrogate]
  omega

theorem toNat_ofCodePoint (h : n.isValidChar) : (ofCodePoint n).toNat = n := by
  rw [ofCodePoint, if_pos h]
  calc (Char.ofNat n).toNat
      = (Char.ofNat (Char.ofNatAux n h).toNat).toNat := rfl
    _ = (Char.ofNatAux n h).toNat := by rw [Char.ofNat_toNat]
    _ = n := rfl

theorem ofCodePoint_of_isSurrogate (h : IsSurrogate n) : ofCodePoint n = '\uFFFD' :=
  if_neg fun hvalid => (isValidChar_iff.mp hvalid).2 h

theorem encode_of_isSurrogate (h : IsSurrogate u) : encode u = [u] := by
  simp only [IsSurrogate, IsHighSurrogate, IsLowSurrogate] at h
  exact if_pos (by omega)

theorem encode_pair {high low : Nat} (hhigh : IsHighSurrogate high) (hlow : IsLowSurrogate low) :
    encode (0x10000 + (high - 0xD800) * 0x400 + (low - 0xDC00)) = [high, low] := by
  simp only [IsHighSurrogate, IsLowSurrogate] at hhigh hlow
  rw [encode, if_neg (by omega)]
  simp only [List.cons.injEq, and_true]
  omega

@[simp] theorem codeUnits_nil : codeUnits [] = [] := rfl

@[simp] theorem codeUnits_cons (c : Char) (cs : List Char) :
    codeUnits (c :: cs) = encode c.toNat ++ codeUnits cs := rfl

@[simp] theorem codeUnits_append (cs cs' : List Char) :
    codeUnits (cs ++ cs') = codeUnits cs ++ codeUnits cs' := List.flatMap_append

theorem codeUnits_ofCodePoint (hle : n ≤ 0x10FFFF) (h : ¬ IsSurrogate n) :
    codeUnits [ofCodePoint n] = encode n := by
  rw [codeUnits_cons, toNat_ofCodePoint (isValidChar_iff.mpr ⟨hle, h⟩), codeUnits_nil,
    List.append_nil]

theorem encode_of_lt (h : n < 0x10000) : encode n = [n] := if_pos (by omega)

theorem eq_of_encode_eq_singleton (h : encode n = [u]) : u = n := by
  unfold encode at h
  split at h
  · exact (List.cons.inj h).1.symm
  · cases h

theorem not_isSurrogate_toNat (c : Char) : ¬ IsSurrogate c.toNat :=
  (isValidChar_iff.mp c.valid).2

/-! One part -/

theorem unescapeOne_of_allowed (h : (Part.escaped c).Allowed d following) :
    unescapeOne c = [(singleEscapes.lookup c).getD c] := by
  have hsingles : (singleEscapes.map Prod.fst).all
      (fun c => unescapeOne c = [(singleEscapes.lookup c).getD c]) = true := by decide
  rcases h with hsingle | ⟨hescape, hline⟩
  · exact of_decide_eq_true (List.all_eq_true.mp hsingles c hsingle)
  · rw [IsEscapeCharacter, not_or, not_or] at hescape
    obtain ⟨hsingle, hdigit, -⟩ := hescape
    have hzero : c ≠ '0' := by
      rintro rfl
      exact hdigit (by decide)
    have hlookup : singleEscapes.lookup c = none := by
      rw [List.lookup_eq_none_iff]
      exact fun pair hpair => bne_iff_ne.mpr fun heq =>
        hsingle (heq ▸ List.mem_map_of_mem hpair)
    rw [hlookup]
    simp only [IsSingleEscape, singleEscapes, lineTerminators, List.map_cons, List.map_nil,
      List.mem_cons, List.not_mem_nil, or_false, not_or] at hsingle hline
    simp [unescapeOne, hzero, hsingle, hline]

theorem unescape_lineBreak {lineBreak : List Char}
    (hp : (Part.continuation lineBreak).Allowed d (cs ++ [d])) :
    unescape ('\\' :: (lineBreak ++ cs)) = unescape cs := by
  suffices hread : unescape? (lineBreak ++ cs) = some ([], cs) from unescape_backslash hread
  rcases hp with hmem | ⟨rfl, hfeed⟩
  · simp only [List.mem_cons, List.not_mem_nil, or_false] at hmem
    rcases hmem with rfl | rfl | rfl | rfl <;> rfl
  · have hskip : skipLineFeed cs = cs := by
      unfold skipLineFeed
      split
      · exact absurd rfl hfeed
      · rfl
    rw [List.singleton_append, unescape?, if_neg (by decide), if_neg (by decide), if_pos rfl, hskip]
    rfl

theorem unescape_point_of (h : codePoint? cs = some (n, rest)) :
    unescape ('\\' :: 'u' :: cs) = ofCodePoint n :: unescape rest := by
  have hread : unescape? ('u' :: cs) = some ([ofCodePoint n], rest) := by
    rw [unescape?, if_neg (by decide), if_pos rfl, h]
  exact unescape_backslash hread

theorem unescape_byte (hlength : digits.length = 2) (h : digits ⊆ hexDigits) (rest : List Char) :
    unescape ('\\' :: 'x' :: (digits ++ rest)) = ofCodePoint (number digits) :: unescape rest := by
  have hread : unescape? ('x' :: (digits ++ rest)) =
      some ([ofCodePoint (number digits)], rest) := by
    rw [unescape?, if_pos rfl, leading?_append hlength h]
  exact unescape_backslash hread

theorem codePoint?_braced (hne : digits ≠ []) (h : digits ⊆ hexDigits)
    (hle : number digits ≤ 0x10FFFF) (rest : List Char) :
    codePoint? ('{' :: (digits ++ '}' :: rest)) = some (number digits, rest) := by
  have hclose : ∀ c ∈ digits, (c != '}') = true := fun c hc => ne_brace_of_mem (h hc)
  have hlt : number digits < UInt32.size := Nat.lt_of_le_of_lt hle (by decide)
  rw [codePoint?, bracedCodePoint?, List.dropWhile_append_of_pos hclose,
    List.takeWhile_append_of_pos hclose]
  simp [digitsCodePoint?, hne, hexValue?_of_subset h, hlt]

theorem codePoint?_append (hlength : digits.length = 4) (h : digits ⊆ hexDigits)
    (rest : List Char) : codePoint? (digits ++ rest) =
      if IsHighSurrogate (number digits) then
        match lowSurrogate? rest with
        | some (low, rest) =>
          some (0x10000 + (number digits - 0xD800) * 0x400 + (low - 0xDC00), rest)
        | none => some (number digits, rest)
      else some (number digits, rest) := by
  have hlead := leading?_append hlength h rest
  unfold codePoint?
  split
  · next hbrace => exact absurd hbrace (append_ne_brace hlength h rest _)
  · rw [hlead]
    rfl

theorem lowSurrogate?_unit (hlength : digits.length = 4) (h : digits ⊆ hexDigits)
    (hlow : IsLowSurrogate (number digits)) (rest : List Char) :
    lowSurrogate? ('\\' :: 'u' :: (digits ++ rest)) = some (number digits, rest) := by
  rw [lowSurrogate?, leading?_append hlength h]
  exact if_pos hlow

theorem leading?_brace (n : Nat) (cs : List Char) :
    Text.Hex.leading? (n + 1) ('{' :: cs) = none := by
  unfold Text.Hex.leading?
  split <;> rfl

theorem exists_unit_of_lowSurrogate? (hp : AllAllowed d ps)
    (h : lowSurrogate? (text ps) = some (n, rest)) :
    ∃ low qs, ps = .unit low :: qs ∧ IsLowSurrogate (number low) := by
  unfold lowSurrogate? at h
  split at h
  case h_2 => cases h
  case h_1 cs htext =>
    cases ps with
    | nil => cases htext
    | cons p qs =>
      have hallowed := hp.1
      cases p with
      | verbatim c => exact absurd (List.cons.inj htext).1 hallowed.2.1
      | escaped c =>
        have hc : c = 'u' := (List.cons.inj (List.cons.inj htext).2).1
        subst hc
        exact absurd (by decide) (not_mem_of_allowed_escaped hallowed).1
      | zero => cases htext
      | byte digits => cases htext
      | unit digits =>
        have hcs : digits ++ text qs = cs := (List.cons.inj (List.cons.inj htext).2).2
        rw [← hcs, leading?_append hallowed.1 hallowed.2] at h
        refine ⟨digits, qs, rfl, ?_⟩
        by_contra hlow
        rw [IsLowSurrogate] at hlow
        simp [hlow] at h
      | point digits =>
        have hcs : '{' :: (digits ++ ['}'] ++ text qs) = cs :=
          (List.cons.inj (List.cons.inj htext).2).2
        rw [← hcs, leading?_brace] at h
        cases h
      | continuation lineBreak =>
        rcases hallowed with hmem | ⟨rfl, -⟩
        · simp only [List.mem_cons, List.not_mem_nil, or_false] at hmem
          rcases hmem with rfl | rfl | rfl | rfl <;> cases htext
        · cases htext

/-- A part that is no half is read as what it stands for. -/
theorem unescape_whole (hp : p.Allowed d (cs ++ [d])) (hhalf : ¬ p.IsHalf) :
    ∃ out, unescape (p.text ++ cs) = out ++ unescape cs ∧ codeUnits out = p.value := by
  cases p with
  | verbatim c =>
    refine ⟨[c], ?_, List.append_nil _⟩
    rw [Part.text, List.singleton_append, unescape, if_neg hp.2.1]
    rfl
  | escaped c =>
    have hplain := (not_mem_of_allowed_escaped hp).1
    simp only [List.mem_cons, List.not_mem_nil, or_false, not_or] at hplain
    have hone := unescapeOne_of_allowed hp
    exact ⟨[_], unescape_one ⟨hplain.2.1, hplain.2.2.1, hplain.2.2.2⟩ hone cs, List.append_nil _⟩
  | zero => exact ⟨['\x00'], unescape_one (by decide) (by decide) cs, rfl⟩
  | byte digits =>
    have hlt := number_lt hp.2
    rw [hp.1] at hlt
    refine ⟨[ofCodePoint (number digits)], unescape_byte hp.1 hp.2 cs, ?_⟩
    rw [codeUnits_ofCodePoint, encode_of_lt]
    · rfl
    · omega
    · omega
    · simp only [IsSurrogate, IsHighSurrogate, IsLowSurrogate]
      omega
  | unit digits =>
    have hlt := number_lt hp.2
    rw [hp.1] at hlt
    have hwhole : ¬ IsSurrogate (number digits) := fun h => hhalf ⟨_, rfl, h⟩
    have hpoint : codePoint? (digits ++ cs) = some (number digits, cs) := by
      rw [codePoint?_append hp.1 hp.2, if_neg fun hhigh => hwhole (Or.inl hhigh)]
    refine ⟨[ofCodePoint (number digits)], unescape_point_of hpoint, ?_⟩
    rw [codeUnits_ofCodePoint (by omega) hwhole, encode_of_lt (by omega)]
    rfl
  | point digits =>
    obtain ⟨hne, hdigits, hle⟩ := hp
    have hwhole : ¬ IsSurrogate (number digits) :=
      fun h => hhalf ⟨_, encode_of_isSurrogate h, h⟩
    refine ⟨[ofCodePoint (number digits)], ?_, codeUnits_ofCodePoint hle hwhole⟩
    have hpoint := codePoint?_braced hne hdigits hle cs
    simpa [Part.text] using unescape_point_of hpoint
  | continuation lineBreak => exact ⟨[], unescape_lineBreak hp, rfl⟩

/-- Only escapes in hexadecimal digits stand for halves. -/
theorem exists_digits_of_isHalf (hp : p.Allowed d following) (h : p.IsHalf) :
    ∃ digits, (p = .unit digits ∨ p = .point digits) ∧ IsSurrogate (number digits) := by
  obtain ⟨u, hu, hsurrogate⟩ := h
  cases p with
  | verbatim c =>
    rw [eq_of_encode_eq_singleton hu] at hsurrogate
    exact absurd hsurrogate (not_isSurrogate_toNat _)
  | escaped c =>
    rw [eq_of_encode_eq_singleton hu] at hsurrogate
    exact absurd hsurrogate (not_isSurrogate_toNat _)
  | zero =>
    cases hu
    exact absurd hsurrogate (by decide)
  | byte digits =>
    have hlt := number_lt hp.2
    rw [hp.1] at hlt
    cases hu
    simp only [IsSurrogate, IsHighSurrogate, IsLowSurrogate] at hsurrogate
    omega
  | unit digits =>
    cases hu
    exact ⟨digits, Or.inl rfl, hsurrogate⟩
  | point digits =>
    rw [eq_of_encode_eq_singleton hu] at hsurrogate
    exact ⟨digits, Or.inr rfl, hsurrogate⟩
  | continuation lineBreak => cases hu

/-- A half that is not read with its other half is lost. -/
theorem unescape_half (hp : AllAllowed d (p :: ps)) (hhalf : p.IsHalf)
    (hsplit : ∀ high low qs, p = .unit high → ps = .unit low :: qs →
      IsHighSurrogate (number high) → ¬ IsLowSurrogate (number low)) :
    unescape (p.text ++ text ps) = '\uFFFD' :: unescape (text ps) := by
  obtain ⟨hallowed, hrest⟩ := hp
  obtain ⟨digits, rfl | rfl, hsurrogate⟩ := exists_digits_of_isHalf hallowed hhalf
  · have halone : IsHighSurrogate (number digits) → lowSurrogate? (text ps) = none := by
      intro hhigh
      rw [Option.eq_none_iff_forall_not_mem]
      rintro ⟨n, rest⟩ hsome
      obtain ⟨low, qs, rfl, hlow⟩ := exists_unit_of_lowSurrogate? hrest hsome
      exact hsplit digits low qs rfl rfl hhigh hlow
    have hpoint : codePoint? (digits ++ text ps) = some (number digits, text ps) := by
      rw [codePoint?_append hallowed.1 hallowed.2]
      split
      · next hhigh => rw [halone hhigh]
      · rfl
    rw [← ofCodePoint_of_isSurrogate hsurrogate]
    exact unescape_point_of hpoint
  · obtain ⟨hne, hdigits, hle⟩ := hallowed
    have hpoint := codePoint?_braced hne hdigits hle (text ps)
    rw [← ofCodePoint_of_isSurrogate hsurrogate]
    simpa [Part.text] using unescape_point_of hpoint

/-- Two halves in four digits each are read as one character. -/
theorem unescape_pair {high low : List Char} (hp : AllAllowed d (.unit high :: .unit low :: ps))
    (hhigh : IsHighSurrogate (number high)) (hlow : IsLowSurrogate (number low)) :
    ∃ out, unescape (text (.unit high :: .unit low :: ps)) = out ++ unescape (text ps) ∧
      codeUnits out = [number high, number low] := by
  obtain ⟨⟨hlength, hdigits⟩, ⟨hlength', hdigits'⟩, -⟩ := hp
  have hpoint : codePoint? (high ++ text (.unit low :: ps)) =
      some (0x10000 + (number high - 0xD800) * 0x400 + (number low - 0xDC00), text ps) := by
    have hsecond := lowSurrogate?_unit hlength' hdigits' hlow (text ps)
    rw [codePoint?_append hlength hdigits, if_pos hhigh]
    rw [text_cons, Part.text, List.cons_append, List.cons_append, hsecond]
  refine ⟨[ofCodePoint _], unescape_point_of hpoint, ?_⟩
  rw [codeUnits_ofCodePoint, encode_pair hhigh hlow]
  all_goals
    simp only [IsSurrogate, IsHighSurrogate, IsLowSurrogate] at *
    omega

/-! All parts -/

theorem paired_cons_iff_of_whole (h : ¬ p.IsHalf) : Paired (p :: ps) ↔ Paired ps := by
  refine ⟨fun hpaired => ?_, .whole h⟩
  cases hpaired with
  | whole _ hrest => exact hrest
  | pair hhigh _ _ => exact absurd ⟨_, rfl, Or.inl hhigh⟩ h

theorem paired_pair_iff {high low : List Char} (hhigh : IsHighSurrogate (number high))
    (hlow : IsLowSurrogate (number low)) :
    Paired (.unit high :: .unit low :: ps) ↔ Paired ps := by
  refine ⟨fun hpaired => ?_, .pair hhigh hlow⟩
  cases hpaired with
  | whole hwhole _ => exact absurd ⟨_, rfl, Or.inl hhigh⟩ hwhole
  | pair _ _ hrest => exact hrest

theorem paired_of_whole (h : ∀ p ∈ ps, ¬ p.IsHalf) : Paired ps := by
  induction ps with
  | nil => exact .nil
  | cons p ps ih =>
    rw [List.forall_mem_cons] at h
    exact .whole h.1 (ih h.2)

/-- What the parts are read as has the code units that they stand for exactly if halves are written
in pairs. -/
theorem codeUnits_unescape_eq_iff (hp : AllAllowed d ps) :
    codeUnits (unescape (text ps)) = value ps ↔ Paired ps := by
  -- a pair takes two parts at once
  induction hlength : ps.length using Nat.strong_induction_on generalizing ps with
  | _ k ih =>
    cases ps with
    | nil =>
      rw [text_nil, unescape]
      exact iff_of_true rfl .nil
    | cons p ps =>
      subst hlength
      by_cases hhalf : p.IsHalf
      · by_cases hpair : ∃ high low qs, p = .unit high ∧ ps = .unit low :: qs ∧
            IsHighSurrogate (number high) ∧ IsLowSurrogate (number low)
        · obtain ⟨high, low, qs, rfl, rfl, hhigh, hlow⟩ := hpair
          obtain ⟨out, hread, hout⟩ := unescape_pair hp hhigh hlow
          have hvalue : value (.unit high :: .unit low :: qs) =
              [number high, number low] ++ value qs := rfl
          rw [hread, codeUnits_append, hout, hvalue, List.append_right_inj,
            paired_pair_iff hhigh hlow]
          exact ih qs.length (by simp only [List.length_cons]; omega) hp.2.2 rfl
        · have hsplit : ∀ high low qs, p = .unit high → ps = .unit low :: qs →
              IsHighSurrogate (number high) → ¬ IsLowSurrogate (number low) :=
            fun high low qs hp hps hhigh hlow => hpair ⟨high, low, qs, hp, hps, hhigh, hlow⟩
          obtain ⟨u, hu, hsurrogate⟩ := hhalf
          have hread := unescape_half hp ⟨u, hu, hsurrogate⟩ hsplit
          refine iff_of_false (fun heq => ?_) (fun hpaired => ?_)
          · rw [text_cons, hread, value_cons, hu] at heq
            have hlost : 0xFFFD = u := (List.cons.inj heq).1
            rw [← hlost] at hsurrogate
            exact absurd hsurrogate (by decide)
          · cases hpaired with
            | whole hwhole _ => exact hwhole ⟨u, hu, hsurrogate⟩
            | pair hhigh hlow _ => exact hsplit _ _ _ rfl rfl hhigh hlow
      · obtain ⟨out, hread, hout⟩ := unescape_whole hp.1 hhalf
        rw [text_cons, hread, codeUnits_append, hout, value_cons, List.append_right_inj,
          paired_cons_iff_of_whole hhalf]
        exact ih ps.length (by simp) hp.2 rfl

/-- A literal is read as its value exactly if every half of a surrogate pair in it is written in
four digits, with the other half next to it. -/
theorem unquote_eq_value_iff {raw : List Char} {units : List Nat} (h : HasValue raw units) :
    codeUnits (unquote raw) = units ↔ IsPaired raw := by
  obtain ⟨d, ps, hconsists, rfl⟩ := h
  have hread : unquote raw = unescape (text ps) := by
    rw [hconsists.spelled, unquote_delimited hconsists.delimits]
  rw [hread, codeUnits_unescape_eq_iff hconsists.allowed]
  constructor
  · exact fun hpaired => ⟨d, ps, hconsists, hpaired⟩
  · rintro ⟨d', qs, hconsists', hpaired⟩
    rw [(hconsists.unique hconsists').2]
    exact hpaired

/-- A pair in four digits each, the same character in braces, a line continuation and escapes that
stand for a character. -/
theorem unquote_eq_value_of_pair :
    ∃ raw, raw = "'\\ud83d\\uDE00\\u\x7b0001F600\x7d\\\r\n\\0\\q\\v'".toList ∧
      HasValue raw [0xD83D, 0xDE00, 0xD83D, 0xDE00, 0, 0x71, 0x0B] ∧
      codeUnits (unquote raw) = [0xD83D, 0xDE00, 0xD83D, 0xDE00, 0, 0x71, 0x0B] := by
  have hconsists : Consists "'\\ud83d\\uDE00\\u\x7b0001F600\x7d\\\r\n\\0\\q\\v'".toList '\''
      [.unit "d83d".toList, .unit "DE00".toList, .point "0001F600".toList,
        .continuation ['\r', '\n'], .zero, .escaped 'q', .escaped 'v'] :=
    ⟨Or.inl rfl, by decide +kernel, by decide +kernel⟩
  have hvalue : HasValue "'\\ud83d\\uDE00\\u\x7b0001F600\x7d\\\r\n\\0\\q\\v'".toList
      [0xD83D, 0xDE00, 0xD83D, 0xDE00, 0, 0x71, 0x0B] := ⟨_, _, hconsists, by decide +kernel⟩
  have hwhole : Paired [.point "0001F600".toList, .continuation ['\r', '\n'], .zero, .escaped 'q',
      .escaped 'v'] :=
    paired_of_whole (by decide +kernel)
  exact ⟨_, rfl, hvalue, (unquote_eq_value_iff hvalue).mpr
    ⟨_, _, hconsists, .pair (by decide +kernel) (by decide +kernel) hwhole⟩⟩

/-- Two halves in braces make a pair for the language, but are read one by one. -/
theorem unquote_ne_value_of_braced_halves :
    HasValue "'\\u\x7bD83D\x7d\\u\x7bDE00\x7d'".toList [0xD83D, 0xDE00] ∧
      WellFormed [0xD83D, 0xDE00] ∧
      codeUnits (unquote "'\\u\x7bD83D\x7d\\u\x7bDE00\x7d'".toList) = [0xFFFD, 0xFFFD] := by
  have hconsists : Consists "'\\u\x7bD83D\x7d\\u\x7bDE00\x7d'".toList '\''
      [.point "D83D".toList, .point "DE00".toList] :=
    ⟨Or.inl rfl, by decide +kernel, by decide +kernel⟩
  refine ⟨⟨_, _, hconsists, by decide +kernel⟩, ?_, by decide +kernel⟩
  exact .pair (by decide) (by decide) .nil

end Flavoring.JavaScript.StringLiteral
