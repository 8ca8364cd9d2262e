import Mathlib.Data.List.Forall2
import Flavoring.Expansion.Rule
import Flavoring.Proofs.Tree.Preorder
import Flavoring.Proofs.Tree.Revision

/-!
Marker statements: the statement that a marker stands in, told by the unedited tree.
-/

namespace Flavoring.Expansion

open Flavoring.Tree

/-- The nearest statement among a node and those it is a part of, `n` levels up. -/
inductive Encloses (t : Tree) : Nat → NodeId → NodeId → Prop
  | here {s : NodeId} {content : Content} :
    t.content? s = some content → content.isStatement = true → Encloses t 0 s s
  | up {n : Nat} {x parent s : NodeId} {content : Content} :
    t.content? x = some content → content.isStatement = false → t.parent? x = some parent →
      Encloses t n parent s → Encloses t (n + 1) x s

/-- The statement that holds a marker: an expression statement of the program, the nearest statement
around the marker, and not more than `limit` levels up. -/
structure IsMarker (t : Tree) (limit : Nat) (site s : NodeId) : Prop where
  encloses : ∃ n ≤ limit, Encloses t n site s
  expression : ∃ e, t.content? s = some (.expressionStatement e)
  listed : s ∈ t.statements

variable {T t : Tree} {source : String} {gone : List NodeId} {put : NodeId → Option Literal}
  {limit n : Nat} {x s site : NodeId}

namespace Encloses

theorem unique {m : Nat} {s' : NodeId} (h : Encloses T n x s) (h' : Encloses T m x s') : s = s' := by
  induction h generalizing m with
  | here hc hs =>
    cases h' with
    | here => rfl
    | up hc' hs' =>
      rw [hc, Option.some.injEq] at hc'
      rw [← hc', hs] at hs'
      cases hs'
  | up hc hs hp _ ih =>
    cases h' with
    | here hc' hs' =>
      rw [hc, Option.some.injEq] at hc'
      rw [hc', hs'] at hs
      cases hs
    | up _ _ hp' hrest =>
      rw [hp, Option.some.injEq] at hp'
      exact ih (hp' ▸ hrest)

theorem isBelow (hT : T.Linked []) (hx : T.isLive x = true) (h : Encloses T n x s) : T.Below s x := by
  induction h with
  | here => exact .refl
  | up _ _ hp _ ih =>
    obtain ⟨hlive, hmem⟩ := hT.owner_of_parent? hx hp
    exact (ih hlive).part hmem

end Encloses

theorem IsMarker.isBelow (hT : T.Linked []) (hsite : T.isLive site = true)
    (h : IsMarker T limit site s) : T.Below s site := by
  obtain ⟨n, -, henc⟩ := h.encloses
  exact henc.isBelow hT hsite

theorem IsMarker.unique {s' : NodeId} (h : IsMarker T limit site s) (h' : IsMarker T limit site s') :
    s = s' := by
  obtain ⟨n, -, henc⟩ := h.encloses
  obtain ⟨m, -, henc'⟩ := h'.encloses
  exact henc.unique henc'

/-! The search for a marker's statement -/

/-- A node that is still live stands where it stood: among statements or not. -/
theorem content?_of_isLive (hT : T.Built source []) (h : Revision T gone put t)
    (hx : t.isLive x = true) :
    ∃ content original, t.content? x = some content ∧ T.content? x = some original ∧
      content.isStatement = original.isStatement ∧
      content.isExpressionStatement = original.isExpressionStatement := by
  obtain ⟨original, horiginal⟩ := exists_content?_of_isLive ((h.isLive_iff x).mp hx).1
  by_cases hroot : x = T.root
  · obtain ⟨body, hbody⟩ := hT.program
    subst hroot
    rw [hbody, Option.some.injEq] at horiginal
    subst horiginal
    have hcontent := h.program
    rw [h.root] at hcontent
    exact ⟨_, _, hcontent, hbody, rfl, rfl⟩
  · have hcontent := h.content? hroot
    cases hput : put x with
    | none =>
      rw [hput, Option.map_none, Option.none_or] at hcontent
      exact ⟨_, _, hcontent.trans horiginal, horiginal, rfl, rfl⟩
    | some l =>
      rw [hput, Option.map_some, Option.some_or] at hcontent
      obtain ⟨term, hterm, hisTerm⟩ := h.put_isTerm (by rw [hput]; rfl)
      rw [horiginal, Option.some.injEq] at hterm
      subst hterm
      refine ⟨_, _, hcontent, horiginal, (Content.isStatement_of_isTerm hisTerm).symm, ?_⟩
      cases original <;> simp_all [Content.isTerm, Content.isExpressionStatement]

/-- A node that is still live has the parent that it had. -/
theorem parent?_of_isLive (h : Revision T gone put t) (hx : t.isLive x = true) :
    t.parent? x = T.parent? x := by
  rw [h.parent?, if_neg (h.not_mem_gone_of_isLive hx)]

/-- Around a node that is still live the search ends as it did in the unedited tree. -/
theorem searchStatement_eq (hT : T.Built source []) (h : Revision T gone put t)
    (hx : t.isLive x = true) (limit : Nat) :
    searchStatement t limit x = searchStatement T limit x := by
  induction limit generalizing x with
  | zero =>
    have hxT := ((h.isLive_iff x).mp hx).1
    obtain ⟨content, original, hcontent, horiginal, hstatement, hexpression⟩ :=
      content?_of_isLive hT h hx
    simp only [searchStatement, hx, hxT, hcontent, horiginal, hstatement, hexpression]
  | succ limit ih =>
    have hxT := ((h.isLive_iff x).mp hx).1
    obtain ⟨content, original, hcontent, horiginal, hstatement, hexpression⟩ :=
      content?_of_isLive hT h hx
    simp only [searchStatement, hx, hxT, hcontent, horiginal, hstatement, hexpression,
      parent?_of_isLive h hx]
    cases hparent : T.parent? x with
    | none => rfl
    | some parent =>
      have hlive := (h.owner_of_parent? hx ((parent?_of_isLive h hx).trans hparent)).1
      simp only [ih hlive]

/-- A search that finds a statement finds the nearest one, and it is an expression statement. -/
theorem encloses_of_searchStatement (h : searchStatement t limit x = .found s) :
    t.isLive s = true ∧ (∃ n ≤ limit, Encloses t n x s) ∧
      ∃ e, t.content? s = some (.expressionStatement e) := by
  fun_induction searchStatement t limit x with
  | case1 => cases h
  | case2 limit x hlive content hcontent hexpression =>
    cases h
    cases content with
    | expressionStatement e => exact ⟨hlive, ⟨0, Nat.zero_le _, .here hcontent rfl⟩, e, hcontent⟩
    | _ => cases hexpression
  | case3 => cases h
  | case4 => cases h
  | case5 x hlive content hcontent hexpression hstatement limit parent hparent ih =>
    obtain ⟨hs, ⟨n, hn, henc⟩, he⟩ := ih h
    have hno : content.isStatement = false := Bool.eq_false_iff.mpr hstatement
    exact ⟨hs, ⟨n + 1, Nat.succ_le_succ hn, .up hcontent hno hparent henc⟩, he⟩
  | case6 => cases h
  | case7 => cases h

theorem searchStatement_of_encloses (hT : T.Linked []) (hx : T.isLive x = true)
    (henc : Encloses T n x s) (hn : n ≤ limit) {e : NodeId}
    (he : T.content? s = some (.expressionStatement e)) : searchStatement T limit x = .found s := by
  induction henc generalizing limit with
  | here =>
    rw [searchStatement.eq_def]
    simp [hx, he, Content.isExpressionStatement]
  | @up n x parent s content hcontent hstatement hparent _ ih =>
    obtain ⟨limit, rfl⟩ := Nat.exists_eq_add_of_le' (Nat.le_trans (Nat.le_add_left 1 n) hn)
    have hexpression : content.isExpressionStatement = false := by
      cases content <;> simp_all [Content.isStatement, Content.isExpressionStatement]
    have hrest := ih (hT.owner_of_parent? hx hparent).1 (Nat.le_of_succ_le_succ hn) he
    simp [searchStatement, hx, hcontent, hstatement, hexpression, hparent, hrest]

theorem searchStatement_of_markerStatement {limit : Nat} {marker : String} {statement : NodeId}
    {above : List NodeId} (h : markerStatement t site limit marker = .ok (statement, above)) :
    searchStatement t limit site = .found statement ∧ t.parent? statement = some t.root := by
  unfold markerStatement expressionStatement at h
  cases hsearch : searchStatement t limit site with
  | tooFar =>
    rw [hsearch] at h
    cases h
  | absent =>
    rw [hsearch] at h
    cases h
  | found s =>
    simp only [hsearch, bind, Except.bind, pure, Except.pure, throw, throwThe,
      MonadExceptOf.throw] at h
    split at h
    · cases h
    · next parent hparent =>
      split at h
      · cases h
      · split at h
        · cases h
        · next hroot =>
          split at h
          · cases h
          · cases h
            exact ⟨rfl, Classical.not_not.mp hroot ▸ hparent⟩

theorem take_of_idxOf? {list : List NodeId} {index : Nat} (h : list.idxOf? s = some index) :
    list.take index = list.takeWhile (· ≠ s) := by
  induction list generalizing index with
  | nil => simp
  | cons y list ih =>
    rw [List.idxOf?_cons] at h
    by_cases hy : y = s
    · simp_all
    · simp only [beq_iff_eq, hy, if_false, Option.map_eq_some_iff] at h
      obtain ⟨i, hi, rfl⟩ := h
      simp [hy, ih hi]

/-- What the program lists is no part of another live node. -/
theorem parent?_of_mem_statements (hT : T.Built source []) (hs : s ∈ T.statements) :
    T.parent? s = some T.root :=
  (Revision.start hT).parent?_of_mem_statements hs

/-- A marker that is still live has the statement that the unedited tree gives it, and if it has
none, the misuse is the same as there. -/
theorem markerStatement_of_isLive (hT : T.Built source []) (h : Revision T gone put t)
    (hsite : t.isLive site = true) (limit : Nat) (marker : String) :
    (∃ s, IsMarker T limit site s ∧ s ∈ t.statements ∧
      markerStatement t site limit marker = .ok (s, t.statements.takeWhile (· ≠ s))) ∨
    ∃ misuse, (∀ s, ¬ IsMarker T limit site s) ∧
      markerStatement t site limit marker = .error misuse ∧
      markerStatement T site limit marker = .error misuse := by
  have hsiteT := ((h.isLive_iff site).mp hsite).1
  have hsearch := searchStatement_eq hT h hsite limit
  -- a marker statement is always found
  have hfound {s : NodeId} (hs : IsMarker T limit site s) :
      searchStatement T limit site = .found s := by
    obtain ⟨n, hn, henc⟩ := hs.encloses
    obtain ⟨e, he⟩ := hs.expression
    exact searchStatement_of_encloses hT.toLinked hsiteT henc hn he
  unfold markerStatement expressionStatement
  rw [hsearch, h.place]
  cases hT' : searchStatement T limit site with
  | tooFar => exact Or.inr ⟨_, fun s hs => by simp [hfound hs] at hT', rfl, rfl⟩
  | absent => exact Or.inr ⟨_, fun s hs => by simp [hfound hs] at hT', rfl, rfl⟩
  | found s =>
    obtain ⟨hlive, -, -⟩ := encloses_of_searchStatement (hsearch.trans hT')
    obtain ⟨hliveT, henc, e, he⟩ := encloses_of_searchStatement hT'
    have hne : s ≠ T.root := by
      rintro rfl
      obtain ⟨body, hbody⟩ := hT.program
      rw [hbody] at he
      cases he
    obtain ⟨parent, hparent, hparentLive, hmem⟩ := hT.attached hliveT hne List.not_mem_nil
    have hplace := h.place s
    have hparent' := (parent?_of_isLive h hlive).trans hparent
    by_cases hroot : parent = T.root
    · subst hroot
      rw [hT.parts_root] at hmem
      have hs := h.mem_statements.mpr ⟨hmem, h.not_mem_gone_of_isLive hlive⟩
      obtain ⟨index, hindex⟩ := Option.isSome_iff_exists.mp (List.isSome_idxOf?.mpr hs)
      have hprogram : t.content? T.root = some (.program t.statements) := by
        rw [← h.root, h.program, h.statements]
      refine Or.inl ⟨s, ⟨henc, ⟨e, he⟩, hmem⟩, hs, ?_⟩
      rw [← take_of_idxOf? hindex]
      simp [bind, Except.bind, pure, Except.pure, hparent', hprogram, Content.statementList?, h.root,
        hindex]
    · have hput := h.put_eq_none_of_isLive_part hlive hmem
      have hcontent : t.content? parent = T.content? parent := by
        rw [h.content? hroot, hput]
        rfl
      have hnone (s' : NodeId) : ¬ IsMarker T limit site s' := by
        intro hs'
        have heq := hfound hs'
        rw [hT', Search.found.injEq] at heq
        have hp := parent?_of_mem_statements hT hs'.listed
        rw [← heq, hparent, Option.some.injEq] at hp
        exact hroot hp
      cases hlist : (T.content? parent).bind (·.statementList?) with
      | none =>
        refine Or.inr ⟨.missingStatementBody marker (T.place s), hnone, ?_, ?_⟩
        · simp [bind, Except.bind, hparent', hcontent, hlist, hplace, throw, throwThe,
            MonadExceptOf.throw]
        · simp [bind, Except.bind, hparent, hlist, throw, throwThe, MonadExceptOf.throw]
      | some body =>
        refine Or.inr ⟨.notAnExpressionStatement marker (T.place s), hnone, ?_, ?_⟩
        · simp [bind, Except.bind, hparent', hcontent, hlist, hplace, h.root, hroot, throw, throwThe,
            MonadExceptOf.throw]
        · simp [bind, Except.bind, hparent, hlist, hroot, throw, throwThe, MonadExceptOf.throw]

end Flavoring.Expansion
