import Flavoring.JavaScript.Parser.Pattern
import Flavoring.JavaScript.Character
import Flavoring.Proofs.Text.Deleting

/-!
The layout of concrete trees.

A node covers its children, which stand one behind the other. A construct is never empty, and one
that a value may be put in the place of does not end in a blank.
-/

namespace Flavoring.JavaScript

open Text (IsCut bytes byteLength isBlankByte)

variable {text : List Char} {lo mid hi n : Nat} {t t' first last : Concrete}
  {ts us more : List Concrete} {kind : String} {l : Label}

/-! Ends of extents -/

-- A character other than a separator stands at `n`.
def OpensAt (text : List Char) (n : Nat) : Prop :=
  ∃ front c back, text = front ++ c :: back ∧ byteLength front = n ∧ isSeparator c = false

-- The last byte of the extent is no blank.
def EndsTight (text : List Char) (e : Extent) : Prop :=
  ∃ n b, e.start ≤ n ∧ e.stop = n + 1 ∧ (bytes text)[n]? = some b ∧ isBlankByte b = false

theorem OpensAt.isSolid (h : OpensAt text n) : Text.IsSolid (bytes text) n := by
  obtain ⟨front, c, back, rfl, rfl, hc⟩ := h
  have hpos := c.utf8Size_pos
  have hat := Text.getElem?_bytes front back hpos
  obtain ⟨b, hb⟩ : ∃ b, (String.utf8EncodeChar c)[0]? = some b := by
    rw [← String.length_utf8EncodeChar] at hpos
    exact ⟨_, List.getElem?_eq_getElem hpos⟩
  -- a byte of white space would be the whole of a separator
  have hspace (hlow : b.toNat < 0x80) (hor : b.toNat = 0x20 ∨ (9 ≤ b.toNat ∧ b.toNat ≤ 13)) :
      False := by
    have hnat := Text.toNat_eq_of_mem (List.mem_of_getElem? hb) hlow
    have htrue : isSeparator c = true := by
      simp only [isSeparator, hnat, Bool.or_eq_true, Bool.and_eq_true, decide_eq_true_eq,
        beq_iff_eq]
      omega
    rw [hc] at htrue
    cases htrue
  refine ⟨b, hat.trans hb, ?_, ?_, ?_⟩
  · rw [Bool.eq_false_iff]
    intro hblank
    simp only [isBlankByte, Bool.or_eq_true, beq_iff_eq] at hblank
    rcases hblank with rfl | rfl
    · exact hspace (by decide) (by decide)
    · exact hspace (by decide) (by decide)
  · rintro rfl
    exact hspace (by decide) (by decide)
  · rintro rfl
    exact hspace (by decide) (by decide)

theorem EndsTight.widen {e e' : Extent} (h : EndsTight text e) (hstart : e'.start ≤ e.start)
    (hstop : e'.stop = e.stop) : EndsTight text e' := by
  obtain ⟨n, b, hn, hn', hb⟩ := h
  exact ⟨n, b, by omega, by omega, hb⟩

/-! Nodes and lists of nodes -/

-- The kinds of nodes that do not end in a blank: literals, calls, and what a call ends in.
def tightKinds : List String := ["string", "arguments", "template_string", "call_expression"]

structure Label.Fits (text : List Char) (l : Label) : Prop where
  isCut_start : IsCut text l.extent.start
  isCut_stop : IsCut text l.extent.stop
  start_le : l.extent.start ≤ l.extent.stop
  nonempty : l.standing = .named → l.extent.start < l.extent.stop
  tight : l.kind ∈ tightKinds → EndsTight text l.extent

mutual

-- The node covers its children, and these are laid out.
def Concrete.Laid (text : List Char) : Concrete → Prop
  | .node l cs => l.Fits text ∧ Chain text l.extent.start cs l.extent.stop

-- The nodes stand one behind the other between `lo` and `hi`.
def Chain (text : List Char) : Nat → List Concrete → Nat → Prop
  | lo, [], hi => lo ≤ hi
  | lo, .node l cs :: more, hi =>
    lo ≤ l.extent.start ∧ Concrete.Laid text (.node l cs) ∧ Chain text l.extent.stop more hi

end

theorem laid_node {cs : List Concrete} : Concrete.Laid text (.node l cs) ↔
    l.Fits text ∧ Chain text l.extent.start cs l.extent.stop := by
  rw [Concrete.Laid]

theorem chain_nil : Chain text lo [] hi ↔ lo ≤ hi := by
  rw [Chain]

theorem chain_cons : Chain text lo (t :: ts) hi ↔
    lo ≤ t.label.extent.start ∧ t.Laid text ∧ Chain text t.label.extent.stop ts hi := by
  cases t
  rw [Chain]
  rfl

theorem Concrete.Laid.fits (h : t.Laid text) : t.label.Fits text := by
  cases t
  exact (laid_node.mp h).1

namespace Chain

theorem nil (h : lo ≤ hi) : Chain text lo [] hi := chain_nil.mpr h

theorem le (h : Chain text lo ts hi) : lo ≤ hi := by
  induction ts generalizing lo with
  | nil => exact chain_nil.mp h
  | cons t ts ih =>
    obtain ⟨hlo, hlaid, hrest⟩ := chain_cons.mp h
    have hstart := hlaid.fits.start_le
    have hstop := ih hrest
    omega

theorem append (h : Chain text lo ts mid) (h' : Chain text mid us hi) :
    Chain text lo (ts ++ us) hi := by
  induction ts generalizing lo with
  | nil =>
    have hle := chain_nil.mp h
    cases us with
    | nil => exact chain_nil.mpr (Nat.le_trans hle (chain_nil.mp h'))
    | cons u us =>
      obtain ⟨hlo, hrest⟩ := chain_cons.mp h'
      exact chain_cons.mpr ⟨Nat.le_trans hle hlo, hrest⟩
  | cons t ts ih =>
    obtain ⟨hlo, hlaid, hrest⟩ := chain_cons.mp h
    exact chain_cons.mpr ⟨hlo, hlaid, ih hrest⟩

theorem mono (h : Chain text lo ts hi) {lo' hi' : Nat} (hlo : lo' ≤ lo) (hhi : hi ≤ hi') :
    Chain text lo' ts hi' := by
  have hfront : Chain text lo' [] lo := .nil hlo
  have hback : Chain text hi [] hi' := .nil hhi
  have hall := hfront.append (h.append hback)
  rwa [List.nil_append, List.append_nil] at hall

theorem lower (h : Chain text mid ts hi) (hlo : lo ≤ mid) : Chain text lo ts hi :=
  h.mono hlo (Nat.le_refl hi)

theorem split (h : Chain text lo (ts ++ us) hi) :
    ∃ mid, Chain text lo ts mid ∧ Chain text mid us hi := by
  induction ts generalizing lo with
  | nil => exact ⟨lo, .nil (Nat.le_refl lo), h⟩
  | cons t ts ih =>
    obtain ⟨hlo, hlaid, hrest⟩ := chain_cons.mp h
    obtain ⟨mid, hts, hus⟩ := ih hrest
    exact ⟨mid, chain_cons.mpr ⟨hlo, hlaid, hts⟩, hus⟩

theorem laid (h : Chain text lo ts hi) (ht : t ∈ ts) : t.Laid text := by
  obtain ⟨front, back, rfl⟩ := List.append_of_mem ht
  obtain ⟨mid, -, hback⟩ := h.split
  exact (chain_cons.mp hback).2.1

theorem sublist (h : Chain text lo ts hi) (hsub : us.Sublist ts) : Chain text lo us hi := by
  induction hsub generalizing lo with
  | slnil => exact h
  | cons t hsub ih =>
    obtain ⟨hlo, hlaid, hrest⟩ := chain_cons.mp h
    have hstart := hlaid.fits.start_le
    exact (ih hrest).lower (by omega)
  | cons_cons t hsub ih =>
    obtain ⟨hlo, hlaid, hrest⟩ := chain_cons.mp h
    exact chain_cons.mpr ⟨hlo, hlaid, ih hrest⟩

-- A list that is not empty ends with its last node.
theorem getLast (h : Chain text lo (first :: more) hi) :
    Chain text lo (first :: more) (more.getLast?.getD first).label.extent.stop ∧
      (more.getLast?.getD first).label.extent.stop ≤ hi ∧
      (more.getLast?.getD first).Laid text ∧
      first.label.extent.start ≤ (more.getLast?.getD first).label.extent.start := by
  obtain ⟨hlo, hlaid, hrest⟩ := chain_cons.mp h
  rcases List.eq_nil_or_concat more with rfl | ⟨front, last, rfl⟩
  · exact ⟨chain_cons.mpr ⟨hlo, hlaid, .nil (Nat.le_refl _)⟩, hrest.le, hlaid, Nat.le_refl _⟩
  · rw [List.concat_eq_append] at hrest ⊢
    rw [List.getLast?_concat]
    obtain ⟨mid, hfront, hback⟩ := hrest.split
    obtain ⟨hmid, hlast, hend⟩ := chain_cons.mp hback
    have hstart := hlaid.fits.start_le
    have hle := hfront.le
    have hlastChain : Chain text mid [last] last.label.extent.stop :=
      chain_cons.mpr ⟨hmid, hlast, .nil (Nat.le_refl _)⟩
    exact ⟨chain_cons.mpr ⟨hlo, hlaid, hfront.append hlastChain⟩, hend.le, hlast, by
      rw [Option.getD_some]
      omega⟩

end Chain

/-! Relabelled nodes -/

theorem Concrete.Laid.relabel {l l' : Label} {cs : List Concrete}
    (h : Concrete.Laid text (.node l cs)) (hextent : l'.extent = l.extent)
    (hstanding : l'.standing = .named → l.standing = .named)
    (htight : l'.kind ∈ tightKinds → l.kind ∈ tightKinds) : Concrete.Laid text (.node l' cs) := by
  obtain ⟨hfits, hchain⟩ := laid_node.mp h
  refine laid_node.mpr ⟨⟨?_, ?_, ?_, fun hnamed => ?_, fun hkind => ?_⟩, ?_⟩ <;> rw [hextent]
  · exact hfits.isCut_start
  · exact hfits.isCut_stop
  · exact hfits.start_le
  · exact hfits.nonempty (hstanding hnamed)
  · exact hfits.tight (htight hkind)
  · exact hchain

namespace Concrete

theorem Laid.inRole (h : t.Laid text) (role : Role) : (t.inRole role).Laid text := by
  cases t
  exact h.relabel rfl id id

theorem Laid.called (h : t.Laid text) (hkind : kind ∉ tightKinds) : (t.called kind).Laid text := by
  cases t
  exact h.relabel rfl id fun hmem => absurd hmem hkind

theorem Laid.asKeyword (h : t.Laid text) : t.asKeyword.Laid text := by
  cases t
  exact h.relabel rfl nofun id

end Concrete

-- No kind of a pattern is one of those.
theorem kind?_not_mem {slot : Concrete.Slot} {kind kind' : String}
    (h : slot.kind? kind = some kind') : kind' ∉ tightKinds := by
  unfold Concrete.Slot.kind? at h
  split at h
  all_goals first | cases h; done | skip
  all_goals first | (cases h; decide) | skip
  next =>
    split at h
    · next hmem =>
      cases h
      intro htight
      simp only [tightKinds, List.mem_cons, List.not_mem_nil, or_false] at htight
      rcases htight with rfl | rfl | rfl | rfl <;> simp at hmem
    · cases h

mutual

theorem laid_pattern? {slot : Concrete.Slot} :
    (t : Concrete) → {t' : Concrete} → t.pattern? slot = some t' → t.Laid text →
      t'.Laid text ∧ t'.label.extent = t.label.extent
  | .node l cs => by
    intro h hlaid
    simp only [Concrete.pattern?, Option.bind_eq_bind, Option.bind_eq_some_iff,
      Option.pure_def, Option.some.injEq] at h
    obtain ⟨kind, hkind, cs', hcs, rfl⟩ := h
    obtain ⟨hfits, hchain⟩ := laid_node.mp hlaid
    have hchain' := chain_patterns? cs hcs hchain
    have hnew : Concrete.Laid text (.node l cs') := laid_node.mpr ⟨hfits, hchain'⟩
    exact ⟨hnew.relabel rfl id fun hmem => absurd hmem (kind?_not_mem hkind), rfl⟩

theorem chain_patterns? {parent : String} :
    (ts : List Concrete) → {us : List Concrete} → {lo hi : Nat} →
      Concrete.patterns? parent ts = some us → Chain text lo ts hi → Chain text lo us hi
  | [] => by
    intro h hchain
    simp only [Concrete.patterns?, Option.some.injEq] at h
    exact h ▸ hchain
  | t :: ts => by
    intro h hchain
    obtain ⟨hlo, hlaid, hrest⟩ := chain_cons.mp hchain
    simp only [Concrete.patterns?] at h
    split at h
    · simp only [Option.bind_eq_bind, Option.bind_eq_some_iff, Option.pure_def,
        Option.some.injEq] at h
      obtain ⟨us', hus, rfl⟩ := h
      exact chain_cons.mpr ⟨hlo, hlaid, chain_patterns? ts hus hrest⟩
    · simp only [Option.bind_eq_bind, Option.bind_eq_some_iff, Option.pure_def,
        Option.some.injEq] at h
      obtain ⟨t', ht', us', hus, rfl⟩ := h
      obtain ⟨hlaid', hextent⟩ := laid_pattern? t ht' hlaid
      exact chain_cons.mpr ⟨hextent ▸ hlo, hlaid', hextent ▸ chain_patterns? ts hus hrest⟩

end

/-! Rows: lists that start with a construct -/

-- The node is not empty and starts with something else than space.
def Concrete.Opens (text : List Char) (t : Concrete) : Prop :=
  t.label.extent.start < t.label.extent.stop ∧ OpensAt text t.label.extent.start

structure Row (text : List Char) (lo : Nat) (ts : List Concrete) (hi : Nat) : Prop where
  chain : Chain text lo ts hi
  opens : ∀ t ∈ ts.head?, t.Opens text

-- One node between `lo` and `hi`.
def Stands (text : List Char) (lo : Nat) (t : Concrete) (hi : Nat) : Prop := Row text lo [t] hi

namespace Row

theorem nil (h : lo ≤ hi) : Row text lo [] hi := ⟨.nil h, nofun⟩

theorem append (h : Row text lo ts mid) (h' : Row text mid us hi) : Row text lo (ts ++ us) hi := by
  refine ⟨h.chain.append h'.chain, ?_⟩
  cases ts with
  | nil => exact h'.opens
  | cons t ts => exact h.opens

theorem le (h : Row text lo ts hi) : lo ≤ hi := h.chain.le

theorem lower (h : Row text mid ts hi) (hlo : lo ≤ mid) : Row text lo ts hi :=
  ⟨h.chain.lower hlo, h.opens⟩

-- A branch over a row that ends in a blank, perhaps, or not.
theorem branchOf (h : Row text lo (first :: more) hi)
    (htight : kind ∈ tightKinds → EndsTight text (more.getLast?.getD first).label.extent) :
    Stands text lo (Concrete.branch kind first more) hi := by
  obtain ⟨hnonempty, hopens⟩ := h.opens first rfl
  obtain ⟨hchain, hle, hlast, hfirst⟩ := h.chain.getLast
  obtain ⟨hlo, hlaid, hrest⟩ := chain_cons.mp hchain
  have hstop := hrest.le
  have hlaid' : (Concrete.branch kind first more).Laid text := by
    refine laid_node.mpr ⟨⟨hlaid.fits.isCut_start, hlast.fits.isCut_stop, ?_, ?_, ?_⟩, ?_⟩
    · show first.label.extent.start ≤ (more.getLast?.getD first).label.extent.stop
      omega
    · intro _
      show first.label.extent.start < (more.getLast?.getD first).label.extent.stop
      omega
    · exact fun hkind => (htight hkind).widen hfirst rfl
    · exact chain_cons.mpr ⟨Nat.le_refl _, hlaid, hrest⟩
  refine ⟨chain_cons.mpr ⟨hlo, hlaid', .nil hle⟩, fun t ht => ?_⟩
  cases ht
  exact ⟨Nat.lt_of_lt_of_le hnonempty hstop, hopens⟩

theorem branch (h : Row text lo (first :: more) hi) (hkind : kind ∉ tightKinds) :
    Stands text lo (Concrete.branch kind first more) hi :=
  h.branchOf fun hmem => absurd hmem hkind

end Row

-- A node that is not put in parentheses, as statements are.
def Bare (text : List Char) (lo : Nat) (t : Concrete) (hi : Nat) : Prop :=
  Stands text lo t hi ∧ t.kind ≠ "parenthesized_expression"

theorem Row.bare (h : Row text lo (first :: more) hi)
    (hkind : kind ∉ tightKinds ∧ kind ≠ "parenthesized_expression") :
    Bare text lo (Concrete.branch kind first more) hi :=
  ⟨h.branch hkind.1, hkind.2⟩

theorem Chain.inRole {role : Role} (h : Chain text lo [t] hi) :
    Chain text lo [t.inRole role] hi := by
  obtain ⟨hlo, hlaid, hrest⟩ := chain_cons.mp h
  exact chain_cons.mpr ⟨hlo, hlaid.inRole role, hrest⟩

namespace Stands

theorem chain (h : Stands text lo t hi) : Chain text lo [t] hi := Row.chain h

theorem opens (h : Stands text lo t hi) : t.Opens text := Row.opens h t rfl

theorem laid (h : Stands text lo t hi) : t.Laid text := h.chain.laid List.mem_cons_self

theorem row (h : Stands text lo t mid) (h' : Chain text mid ts hi) : Row text lo (t :: ts) hi :=
  ⟨h.chain.append h', fun t' ht' => by cases ht'; exact h.opens⟩

theorem mono (h : Stands text lo t mid) (hhi : mid ≤ hi) : Stands text lo t hi :=
  h.row (.nil hhi)

theorem lower (h : Stands text mid t hi) (hlo : lo ≤ mid) : Stands text lo t hi := Row.lower h hlo

theorem branch (h : Stands text lo first mid) (hkind : kind ∉ tightKinds)
    (h' : Chain text mid more hi) : Stands text lo (Concrete.branch kind first more) hi :=
  (h.row h').branch hkind

theorem bare (h : Stands text lo first mid)
    (hkind : kind ∉ tightKinds ∧ kind ≠ "parenthesized_expression") (h' : Chain text mid more hi) :
    Bare text lo (Concrete.branch kind first more) hi :=
  (h.row h').bare hkind

-- A branch that ends in one of the tight kinds may be of such a kind itself.
theorem branchTight (h : Stands text lo first mid) {front : List Concrete}
    (h' : Chain text mid (front ++ [last]) hi) (hlast : last.kind ∈ tightKinds) :
    Stands text lo (Concrete.branch kind first (front ++ [last])) hi := by
  refine (h.row h').branchOf fun _ => ?_
  rw [List.getLast?_concat, Option.getD_some]
  exact (h'.laid (List.mem_append_right _ List.mem_cons_self)).fits.tight hlast

theorem relabel (h : Stands text lo t hi) (hextent : t'.label.extent = t.label.extent)
    (hlaid : t'.Laid text) : Stands text lo t' hi := by
  obtain ⟨hlo, -, hrest⟩ := chain_cons.mp h.chain
  refine ⟨chain_cons.mpr ⟨by rwa [hextent], hlaid, by rwa [hextent]⟩, fun t'' ht'' => ?_⟩
  cases ht''
  unfold Concrete.Opens
  rw [hextent]
  exact h.opens

theorem inRole {role : Role} (h : Stands text lo t hi) : Stands text lo (t.inRole role) hi :=
  h.relabel rfl (h.laid.inRole role)

theorem called (h : Stands text lo t hi) (hkind : kind ∉ tightKinds) :
    Stands text lo (t.called kind) hi :=
  h.relabel rfl (h.laid.called hkind)

theorem asKeyword (h : Stands text lo t hi) : Stands text lo t.asKeyword hi :=
  h.relabel rfl h.laid.asKeyword

theorem pattern {slot : Concrete.Slot} (h : Stands text lo t hi) (ht : t.pattern? slot = some t') :
    Stands text lo t' hi := by
  obtain ⟨hlaid, hextent⟩ := laid_pattern? t ht h.laid
  exact h.relabel hextent hlaid

-- A row falls into its first node and the rest.
theorem of_row (h : Row text lo (t :: ts) hi) :
    Stands text lo t t.label.extent.stop ∧ Chain text t.label.extent.stop ts hi := by
  obtain ⟨hlo, hlaid, hrest⟩ := chain_cons.mp h.chain
  exact ⟨⟨chain_cons.mpr ⟨hlo, hlaid, .nil (Nat.le_refl _)⟩, h.opens⟩, hrest⟩

theorem assignee (h : Stands text lo t hi) (ht : t.assignee? = some t') : Stands text lo t' hi := by
  unfold Concrete.assignee? at ht
  split at ht
  · cases ht
    exact h
  · exact h.pattern ht

end Stands

end Flavoring.JavaScript
