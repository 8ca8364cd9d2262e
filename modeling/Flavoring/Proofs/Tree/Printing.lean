import Flavoring.Proofs.Text.Splicing
import Flavoring.Proofs.Tree.Layout

/-!
Printing: which deletions reach the text that a revised tree prints.

The blanks between two deleted statements on one line go with the first one. If the second one ends
the line, its own deletion wants these blanks too, overlaps the first and is left out. Every other
deletion is applied.
-/

namespace Flavoring.Tree

open Text (IsCut IsSolid Blanks LineEndsAt bytes)

variable {T t : Tree} {source : String} {gone : List NodeId} {put : NodeId → Option Literal}
  {x p s g : NodeId} {i : Nat}

-- The edits that are applied when a tree is printed, and the bytes of its text that are copied.
def applied (t : Tree) : List Text.Edit := Text.applied t.source t.edits

def Copies (t : Tree) (i : Nat) : Prop := Text.IsCopied t.source t.edits i

-- No byte of a node's own text is printed, or every one is.
def Omits (t : Tree) (x : NodeId) : Prop :=
  ∀ i, (t.extent x).start ≤ i → i < (t.extent x).stop → ¬ t.Copies i

def Includes (t : Tree) (x : NodeId) : Prop :=
  ∀ i, (t.extent x).start ≤ i → i < (t.extent x).stop → t.Copies i

-- `s` comes next after `p` and ends its line, and only blanks stand between the two and before `s`.
structure Joined (T : Tree) (p s : NodeId) : Prop where
  next : [p, s] <:+: T.statements
  between : Blanks (bytes T.source.toList) (T.extent p).stop (T.extent s).start
  before : Blanks (bytes T.source.toList) ((T.extent s).start - 1) (T.extent s).start
  lineEnds : LineEndsAt (bytes T.source.toList) (T.extent s).stop

-- What is printed for the text up to `cut`.
def printedTo (t : Tree) (cut : Nat) : List Char := Text.written t.source t.edits 0 cut

theorem render_eq_weave (t : Tree) :
    t.render = String.ofList (Text.weave t.source.toList 0 t.applied) :=
  Text.splice_eq_weave _ _

namespace Joined

theorem mem_left (h : Joined T p s) : p ∈ T.statements :=
  h.next.subset List.mem_cons_self

theorem mem_right (h : Joined T p s) : s ∈ T.statements :=
  h.next.subset (List.mem_cons_of_mem p List.mem_cons_self)

theorem stop_le_start (hL : T.Laid) (hT : T.Built source []) (h : Joined T p s) :
    (T.extent p).stop ≤ (T.extent s).start := by
  have hpairs := hL.ordered hT.root_isLive
  rw [hT.parts_root] at hpairs
  have hpair := hpairs.sublist h.next.sublist
  rw [List.pairwise_cons] at hpair
  exact hpair.1 s List.mem_cons_self

-- The line goes on behind the first of two joined statements, so this one is joined to none before.
theorem not_joined_left (hL : T.Laid) (hT : T.Built source []) (h : Joined T p s) (q : NodeId) :
    ¬ Joined T q p := by
  intro h'
  have hps := h.stop_le_start hL hT
  obtain ⟨n, hn, hblanks, hends⟩ := h'.lineEnds
  obtain ⟨b, hb, hblank, hfeed, hreturn⟩ := hL.isSolid h.mem_right
  have hat : n = (T.extent s).start := by
    refine hblanks.unique h.between hn hps (fun b' hb' => ?_) fun b' hb' => ?_
    · rcases Text.endsLine_drop.mp hends b' hb' with rfl | rfl <;> rfl
    · rw [hb, Option.some.injEq] at hb'
      exact hb' ▸ hblank
  rw [hat] at hends
  rcases Text.endsLine_drop.mp hends b hb with heq | heq
  · exact hfeed heq
  · exact hreturn heq

-- The end of the line keeps the deletions behind it away.
theorem stop_le_deletionOf_start (hL : T.Laid) (hT : T.Built source []) (h : Joined T p s)
    (hg : g ∈ T.statements) (hsg : (T.extent s).stop ≤ (T.extent g).start) :
    (T.extent s).stop ≤ (T.deletionOf g).start := by
  obtain ⟨n, hn, hblanks, hends⟩ := h.lineEnds
  obtain ⟨b, hb, hblank, hfeed, hreturn⟩ := hL.isSolid hg
  have hng := hblanks.not_mem hb hblank
  have hbound := (List.getElem?_eq_some_iff.mp hb).1
  have hnlt : n < (bytes T.source.toList).length := by omega
  obtain ⟨b', hb'⟩ : ∃ b', (bytes T.source.toList)[n]? = some b' :=
    ⟨_, List.getElem?_eq_getElem hnlt⟩
  have hbreak := Text.endsLine_drop.mp hends b' hb'
  have hne : n ≠ (T.extent g).start := by
    rintro rfl
    rw [hb, Option.some.injEq] at hb'
    subst hb'
    exact hbreak.elim hfeed hreturn
  have hblank' : Text.isBlankByte b' = false := by
    rcases hbreak with rfl | rfl <;> rfl
  have hlt := (hL.widens hT hg).lt_start (by omega) hb' hblank'
  omega

end Joined

namespace Laid

-- A node that is not below a statement stands before or behind it.
theorem apart_of_not_below (hL : T.Laid) (hT : T.Built source []) (hx : T.isLive x = true)
    (hroot : x ≠ T.root) (hs : s ∈ T.statements) (hout : ¬ T.Below s x) :
    (T.extent x).stop ≤ (T.extent s).start ∨ (T.extent s).stop ≤ (T.extent x).start := by
  obtain ⟨r, hr, hrx⟩ := hT.exists_statement_above hx hroot
  have hwithin := hL.within_of_below hT hr hrx
  have hrs : r ≠ s := fun heq => hout (heq ▸ hrx)
  rcases hL.apart hT hr hs hrs with hrs | hsr
  · exact Or.inl (by omega)
  · exact Or.inr (by omega)

-- With nothing but blanks between two statements there is no third between them.
theorem infix_of_blanks (hL : T.Laid) (hT : T.Built source []) (hp : p ∈ T.statements)
    (hs : s ∈ T.statements) (hle : (T.extent p).stop ≤ (T.extent s).start)
    (hblanks : Blanks (bytes T.source.toList) (T.extent p).stop (T.extent s).start) :
    [p, s] <:+: T.statements := by
  have hpairs := hL.ordered hT.root_isLive
  rw [hT.parts_root] at hpairs
  obtain ⟨front, back, hsplit⟩ := List.append_of_mem hp
  rw [hsplit, List.pairwise_append, List.pairwise_cons] at hpairs
  have hsback : s ∈ back := by
    rw [hsplit] at hs
    have hplt := hL.start_lt_stop hT hp
    rcases List.mem_append.mp hs with hfront | hback
    · have hslt := hL.start_lt_stop hT (hsplit ▸ List.mem_append_left _ hfront)
      have hbefore := hpairs.2.2 s hfront p List.mem_cons_self
      omega
    · rcases List.mem_cons.mp hback with rfl | hback
      · omega
      · exact hback
  obtain ⟨mid, rest, hback⟩ := List.append_of_mem hsback
  have hmid : mid = [] := by
    refine List.eq_nil_iff_forall_not_mem.mpr fun r hr => ?_
    have hrT : r ∈ T.statements := by
      rw [hsplit, hback]
      simp [hr]
    have hpr := hpairs.2.1.1 r (hback ▸ List.mem_append_left _ hr)
    have hrs : (T.extent r).stop ≤ (T.extent s).start := by
      have hrest := hpairs.2.1.2
      rw [hback, List.pairwise_append] at hrest
      exact hrest.2.2 r hr s List.mem_cons_self
    -- the start of the third would be a blank
    obtain ⟨b, hb, hblank⟩ := (hL.isSolid hrT).not_blank
    have hrlt := hL.start_lt_stop hT hrT
    have hout := hblanks.not_mem hb hblank
    omega
  rw [hsplit, hback, hmid]
  exact ⟨front, rest, by simp⟩

-- Deletions that overlap are those of joined statements.
theorem joined_of_overlap (hL : T.Laid) (hT : T.Built source []) (hp : p ∈ T.statements)
    (hs : s ∈ T.statements) (hle : (T.extent p).stop ≤ (T.extent s).start)
    (hover : (T.deletionOf s).start < (T.deletionOf p).stop) : Joined T p s := by
  have hstop := hL.deletionOf_stop_le hT hp hs hle
  have hslt := hL.start_lt_stop hT hs
  have hlt : (T.deletionOf s).start < (T.extent s).start := by omega
  obtain ⟨-, hbefore, hends⟩ := (Text.deletionIn_start_lt_iff (Nat.le_of_lt hslt)
    (hL.stop_le_length hT hs)).mp hlt
  have hlead := (hL.widens hT hs).before
  have hblanks : Blanks (bytes T.source.toList) (T.extent p).stop (T.extent s).start := by
    obtain ⟨q, hq, hq', hblanks, hbreak⟩ := (hL.widens hT hp).behind
    -- the first deletion ends in no line break, since blanks go on behind it
    have hall : (T.deletionOf p).stop ≤ q := by
      by_contra hcontra
      obtain ⟨b, hb, hor⟩ := hbreak ((T.deletionOf p).stop - 1) (by omega) (by omega)
      obtain ⟨b', hb', hblank⟩ := hlead ((T.deletionOf p).stop - 1) (by omega) (by omega)
      rw [hb, Option.some.injEq] at hb'
      subst hb'
      rcases hor with rfl | rfl <;> cases hblank
    intro i hi hlt
    by_cases hiq : i < q
    · exact hblanks i hi hiq
    · exact hlead i (by omega) hlt
  exact ⟨hL.infix_of_blanks hT hp hs hle hblanks, hblanks, hbefore, hends⟩

end Laid

section edited

variable (hL : T.Laid) (hT : T.Built source []) (h : Edited T gone put t)

include hL hT h

theorem Edited.mem_applied (hs : s ∈ gone) (hfree : ∀ p ∈ gone, ¬ Joined T p s) :
    ⟨T.deletionOf s, ""⟩ ∈ t.applied := by
  have hrev := h.revision hT
  have hrec := h.recorded hL hT
  have hsT := hrev.gone_mem hs
  have hslt := hL.start_lt_stop hT hsT
  have hwide := hL.widens hT hsT
  have hsStart := hwide.start_le
  have hsStop := hwide.stop_le
  have hcuts := hL.isCut (hT.isLive_of_mem_statements hsT) (hT.ne_root_of_mem_statements hsT)
  have hdcuts := Text.isCut_deletionIn (Nat.le_of_lt hslt) hcuts.1 hcuts.2
  unfold Tree.applied
  rw [hrev.source]
  refine Text.mem_applied (hrec.deletion hs) ⟨Nat.zero_le _, ?_, hdcuts⟩ fun e he hne hle => ?_
  · show (T.deletionOf s).start ≤ (T.deletionOf s).stop
    omega
  have hle : e.extent.start ≤ (T.deletionOf s).start := hle
  show e.extent.stop ≤ (T.deletionOf s).start
  rcases hrec.edit he with ⟨g, hg, rfl⟩ | ⟨x, l, hput, hxlive, rfl⟩
  · have hgs : g ≠ s := fun heq => hne (by rw [heq])
    have hgT := hrev.gone_mem hg
    rcases hL.apart hT hgT hsT hgs with hgs | hsg
    · by_contra hcontra
      exact hfree g hg (hL.joined_of_overlap hT hgT hsT hgs (Nat.lt_of_not_le hcontra))
    · have hlt := hL.lt_deletionOf_start hT hsT hgT hsg
      have hle : (T.deletionOf g).start ≤ (T.deletionOf s).start := hle
      omega
  · obtain ⟨hlive, hgone, -⟩ := (hrev.isLive_iff x).mp hxlive
    obtain ⟨content, hcontent, hterm⟩ := hrev.put_isTerm (by rw [hput]; rfl)
    have hroot := Revision.ne_root_of_isTerm hT hcontent hterm
    have hxlt := hL.nonempty hlive hroot
    rcases hL.apart_of_not_below hT hlive hroot hsT (hgone s hs) with hxs | hsx
    · obtain ⟨b, hb, hblank⟩ := hL.term_last hlive hcontent hterm
      have hlast := hwide.lt_start (by omega) hb hblank
      show (T.extent x).stop ≤ (T.deletionOf s).start
      omega
    · have hle : (T.extent x).start ≤ (T.deletionOf s).start := hle
      omega

-- The second of two joined deletions is left out.
theorem Edited.not_mem_applied (hp : p ∈ gone) (hjoined : Joined T p s) :
    ⟨T.deletionOf s, ""⟩ ∉ t.applied := by
  have hpT := hjoined.mem_left
  have hsT := hjoined.mem_right
  have hps := hjoined.stop_le_start hL hT
  have hplt := hL.start_lt_stop hT hpT
  have hslt := hL.start_lt_stop hT hsT
  have hsStop := (hL.widens hT hsT).stop_le
  have hfirst : T.deletionOf p = ⟨(T.extent p).start, (T.extent s).start⟩ :=
    Text.deletionIn_of_isSolid (Nat.le_of_lt hplt) hps hjoined.between (hL.isSolid hsT)
  have hsecond : (T.deletionOf s).start < (T.extent s).start :=
    (Text.deletionIn_start_lt_iff (Nat.le_of_lt hslt) (hL.stop_le_length hT hsT)).mpr
      ⟨by omega, hjoined.before, hjoined.lineEnds⟩
  have happlied : ⟨T.deletionOf p, ""⟩ ∈ t.applied :=
    h.mem_applied hL hT hp fun q _ => hjoined.not_joined_left hL hT q
  intro hmem
  have hne : (⟨T.deletionOf p, ""⟩ : Text.Edit) ≠ ⟨T.deletionOf s, ""⟩ := by
    intro heq
    have hstop := congrArg (fun e : Text.Edit => e.extent.stop) heq
    simp only [hfirst] at hstop
    omega
  rcases Text.stop_le_start_of_mem_applied happlied hmem hne with hle | hle
  · simp only [hfirst] at hle
    omega
  · simp only [hfirst] at hle
    omega

-- What is left of a deleted statement: all of it if it is joined to another one, and else nothing.
theorem Edited.includes_of_joined (hp : p ∈ gone) (hs : s ∈ gone) (hjoined : Joined T p s) :
    t.Includes s := by
  intro i hi hi'
  have hrev := h.revision hT
  rw [hrev.extent] at hi hi'
  have hrec := h.recorded hL hT
  have hsT := hjoined.mem_right
  have hlength := hL.stop_le_length hT hsT
  rw [Text.length_bytes] at hlength
  refine Text.isCopied_iff.mpr ⟨by rw [hrev.source]; omega, fun e he => ?_⟩
  rcases hrec.edit (Text.mem_of_mem_applied he) with ⟨g, hg, rfl⟩ | ⟨x, l, hput, hxlive, rfl⟩
  · have hgs : g ≠ s := by
      rintro rfl
      exact h.not_mem_applied hL hT hp hjoined he
    have hgT := hrev.gone_mem hg
    rcases hL.apart hT hgT hsT hgs with hgs | hsg
    · have hle := hL.deletionOf_stop_le hT hgT hsT hgs
      exact Or.inr (Nat.le_trans hle hi)
    · have hle := hjoined.stop_le_deletionOf_start hL hT hgT hsg
      exact Or.inl (Nat.lt_of_lt_of_le hi' hle)
  · obtain ⟨hlive, hgone, -⟩ := (hrev.isLive_iff x).mp hxlive
    obtain ⟨content, hcontent, hterm⟩ := hrev.put_isTerm (by rw [hput]; rfl)
    have hroot := Revision.ne_root_of_isTerm hT hcontent hterm
    show i < (T.extent x).start ∨ (T.extent x).stop ≤ i
    rcases hL.apart_of_not_below hT hlive hroot hsT (hgone s hs) with hxs | hsx
    · exact Or.inr (Nat.le_trans hxs hi)
    · exact Or.inl (Nat.lt_of_lt_of_le hi' hsx)

theorem Edited.omits_of_mem_applied (hs : s ∈ gone) (hmem : ⟨T.deletionOf s, ""⟩ ∈ t.applied) :
    t.Omits s := by
  intro i hi hi' hcopies
  have hrev := h.revision hT
  rw [hrev.extent] at hi hi'
  have hwide := hL.widens hT (hrev.gone_mem hs)
  have hstart := hwide.start_le
  have hstop := hwide.stop_le
  have hout := (Text.isCopied_iff.mp hcopies).2 _ hmem
  simp only at hout
  omega

theorem Edited.omits_iff (hs : s ∈ gone) : t.Omits s ↔ ∀ p ∈ gone, ¬ Joined T p s := by
  constructor
  · intro homits p hp hjoined
    have hlt := hL.start_lt_stop hT hjoined.mem_right
    rw [← (h.revision hT).extent] at hlt
    exact homits _ (Nat.le_refl _) hlt
      (h.includes_of_joined hL hT hp hs hjoined _ (Nat.le_refl _) hlt)
  · exact fun hfree => h.omits_of_mem_applied hL hT hs (h.mem_applied hL hT hs hfree)

theorem Edited.omits_or_includes (hs : s ∈ gone) : t.Omits s ∨ t.Includes s := by
  by_cases hfree : ∀ p ∈ gone, ¬ Joined T p s
  · exact Or.inl ((h.omits_iff hL hT hs).mpr hfree)
  · push Not at hfree
    obtain ⟨p, hp, hjoined⟩ := hfree
    exact Or.inr (h.includes_of_joined hL hT hp hs hjoined)

theorem Edited.omits_iff_mem_applied (hs : s ∈ gone) :
    t.Omits s ↔ ⟨T.deletionOf s, ""⟩ ∈ t.applied := by
  refine ⟨fun homits => ?_, h.omits_of_mem_applied hL hT hs⟩
  exact h.mem_applied hL hT hs ((h.omits_iff hL hT hs).mp homits)

-- Behind the last edit the text is printed as it stands.
theorem Edited.render_eq_printedTo {cut : Nat} {behind : List Char}
    (hlast : ∀ e ∈ t.edits, e.extent.stop ≤ cut)
    (hbehind : Text.drop? cut T.source.toList = some behind) :
    t.render = String.ofList (t.printedTo cut ++ behind) := by
  have hrev := h.revision hT
  have hrec := h.recorded hL hT
  have hnonempty : ∀ e ∈ t.edits, e.extent.start < e.extent.stop := by
    intro e he
    rcases hrec.edit he with ⟨g, hg, rfl⟩ | ⟨x, l, hput, hxlive, rfl⟩
    · have hgT := hrev.gone_mem hg
      have hwide := hL.widens hT hgT
      have hstart := hwide.start_le
      have hstop := hwide.stop_le
      have hlt := hL.start_lt_stop hT hgT
      show (T.deletionOf g).start < (T.deletionOf g).stop
      omega
    · obtain ⟨content, hcontent, hterm⟩ := hrev.put_isTerm (by rw [hput]; rfl)
      exact hL.nonempty ((hrev.isLive_iff x).mp hxlive).1
        (Revision.ne_root_of_isTerm hT hcontent hterm)
  obtain ⟨front, hsource, hfront⟩ := Text.drop?_eq_some_iff.mp hbehind
  have hcut : IsCut t.source.toList cut := ⟨front, behind, hrev.source ▸ hsource, hfront⟩
  have hrest : Text.written t.source t.edits cut (Text.byteLength t.source.toList) = behind := by
    rw [Text.written_of_stop_le fun e he => ⟨hnonempty e he, hlast e he⟩,
      ← Text.drop?_getD_eq_slice?, hrev.source, hbehind, Option.getD_some]
  rw [Tree.render, Text.splice_eq_written hnonempty, printedTo, ← hrest]
  congr 1
  exact Text.written_append (Nat.zero_le _) hcut.le (.zero _) hcut (.all _) fun e he =>
    Or.inl (hlast e (Text.mem_of_mem_applied he))

end edited

end Flavoring.Tree
