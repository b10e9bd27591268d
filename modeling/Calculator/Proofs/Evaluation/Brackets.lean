import Calculator.Proofs.Evaluation.Moments
import Calculator.Proofs.Evaluation.Safety
import Calculator.Proofs.Sequence.Pairing

/-!
# Live cells and intact brackets

At every moment of a reduction the handles in use are those of linked cells, every token has been
taken over, and each opening parenthesis has its partner behind it, the pairs properly nested. This
holds on failing runs too, because every single move keeps it.

## A closing parenthesis may be left alone

The two parentheses of a group are taken out one after the other, the opening one first. Between
these two steps its partner is a loose cell, so the invariant lets closing parentheses stand
anywhere, besides the plain cells. Every opening one still has its own partner in its place.
-/

namespace Calculator

/-- A plain cell, or a closing parenthesis, whatever became of its partner. -/
def Cell.isLoose : Cell → Bool
  | closing _ => true
  | cell => cell.isPlain

theorem Cell.isLoose_of_isPlain {cell : Cell} (h : cell.isPlain) : cell.isLoose := by
  cases cell <;> first | rfl | exact h

open Reduction

namespace Sequence

variable {s : Sequence} {ordinary : Cell → Prop} {es before after : List Entry} {h : Handle}
  {cell : Cell}

/-! ## Entries of a sequence -/

/-- The cells from the head on, each with its handle. -/
def entries (s : Sequence) : List Entry := s.handles.map fun h ↦ (h, s.cellOf h)

theorem Represents.entries_eq (hs : s.Represents es) : s.entries = es := by
  rw [entries, hs.handles_eq, handlesOf, List.map_map]
  refine (List.map_congr_left fun e he ↦ ?_).trans (List.map_id es)
  rw [Function.comp_apply, cellOf, hs.cell_eq he]
  rfl

/-- A sequence without tokens in which the partner of every opening parenthesis is behind it, and
what stands between the two has the partners of all its own opening parentheses in it. -/
structure HasIntactBrackets (s : Sequence) : Prop where
  settled : ∀ e ∈ s.entries, ∀ token, e.2 ≠ .lexeme token
  partner : ∀ before opening closing rest,
    s.entries = before ++ (opening, .opening closing) :: rest →
      ∃ inner after, rest = inner ++ (closing, .closing opening) :: after ∧
        ∀ o c, (o, .opening c) ∈ inner → (c, .closing o) ∈ inner

/-! ## Nested entries -/

namespace Balanced

theorem mono {weaker : Cell → Prop} (hes : Balanced ordinary es)
    (h : ∀ cell, ordinary cell → weaker cell) : Balanced weaker es := by
  induction hes with
  | nil => exact .nil
  | cons hcell _ ih => exact .cons (h _ hcell) ih
  | group _ _ ihinner ihrest => exact .group ihinner ihrest

/-- An ordinary cell may be put in anywhere. -/
theorem insert (hcell : ordinary cell) (hes : Balanced ordinary es) :
    ∀ {before after}, es = before ++ after → Balanced ordinary (before ++ (h, cell) :: after) := by
  induction hes with
  | nil =>
    intro before after hsplit
    obtain ⟨rfl, rfl⟩ := List.append_eq_nil_iff.mp hsplit.symm
    exact .cons hcell .nil
  | cons hc hrest ih =>
    intro before after hsplit
    obtain _ | ⟨e, before⟩ := before
    · subst hsplit
      exact .cons hcell (.cons hc hrest)
    · obtain ⟨rfl, hbehind⟩ := List.cons.inj hsplit
      exact .cons hc (ih hbehind)
  | group hinner hrest ihinner ihrest =>
    intro before after hsplit
    obtain _ | ⟨e, before⟩ := before
    · subst hsplit
      exact .cons hcell (.group hinner hrest)
    obtain ⟨rfl, hbehind⟩ := List.cons.inj hsplit
    rcases split_append hbehind.symm with ⟨mid, rfl, rfl⟩ | ⟨mid, rfl, rfl⟩
    · simpa using Balanced.group hinner (ihrest rfl)
    · simpa using Balanced.group (ihinner rfl) hrest

end Balanced

/-- Entries in which each opening parenthesis has its partner. -/
abbrev IsNested (es : List Entry) : Prop := Balanced (fun cell ↦ cell.isLoose) es

private theorem removable_of_subset {others others' : List Entry} (h : Removable cell others)
    (hsubset : others' ⊆ others) : Removable cell others' := by
  rcases h with hplain | hopening | ⟨opening, rfl, hnot⟩
  · exact .inl hplain
  · exact .inr (.inl hopening)
  · exact .inr (.inr ⟨opening, rfl, fun hmem ↦ hnot (List.map_subset _ hsubset hmem)⟩)

namespace IsNested

/-- An opening parenthesis that is taken out leaves its partner as a loose cell; no other closing
parenthesis is taken out while its partner is there. -/
theorem remove (hes : IsNested es) : ∀ {before after}, es = before ++ (h, cell) :: after →
    Removable cell (before ++ after) → IsNested (before ++ after) := by
  induction hes with
  | nil => exact fun hsplit _ ↦ absurd hsplit (by simp)
  | cons hc hrest ih =>
    intro before after hsplit hremovable
    obtain _ | ⟨e, before⟩ := before
    · obtain ⟨-, rfl⟩ := List.cons.inj hsplit
      exact hrest
    · obtain ⟨rfl, hbehind⟩ := List.cons.inj hsplit
      exact .cons hc (ih hbehind (removable_of_subset hremovable (by simp)))
  | @group o c inner rest hinner hrest ihinner ihrest =>
    intro before after hsplit hremovable
    obtain _ | ⟨e, before⟩ := before
    · obtain ⟨-, rfl⟩ := List.cons.inj hsplit
      exact hinner.append (.cons rfl hrest)
    obtain ⟨rfl, hbehind⟩ := List.cons.inj hsplit
    rcases split_cons hbehind with ⟨mid, rfl, rfl⟩ | ⟨rfl, hclosing, rfl⟩ | ⟨mid, rfl, rfl⟩
    · have hinside := ihinner rfl (removable_of_subset hremovable (by simp; grind))
      simpa using Balanced.group hinside hrest
    · -- The partner of this closing parenthesis stands in front of it.
      cases hclosing
      rcases hremovable with hplain | ⟨_, hopening⟩ | ⟨opening, hclosing, hnot⟩
      · cases hplain
      · cases hopening
      · cases hclosing
        exact absurd (by simp) hnot
    · have hbehind := ihrest rfl (removable_of_subset hremovable (by simp; grind))
      simpa using Balanced.group hinner hbehind

theorem partner (hes : IsNested es) {opening closing : Handle}
    (hsplit : es = before ++ (opening, .opening closing) :: after) :
    ∃ inner rest, after = inner ++ (closing, .closing opening) :: rest ∧ IsNested inner :=
  hes.exists_closing (by simp [Cell.isLoose, Cell.isPlain]) hsplit

end IsNested

theorem Represents.hasIntactBrackets (hs : s.Represents es) (hsettled : Settled es)
    (hes : IsNested es) : s.HasIntactBrackets where
  settled e he token htoken := by
    rw [hs.entries_eq] at he
    have hcell := hsettled e he
    rw [htoken] at hcell
    cases hcell
  partner before opening closing rest hsplit := by
    rw [hs.entries_eq] at hsplit
    obtain ⟨inner, after, hrest, hinner⟩ := hes.partner hsplit
    refine ⟨inner, after, hrest, fun o c hmem ↦ ?_⟩
    obtain ⟨first, last, rfl⟩ := List.append_of_mem hmem
    obtain ⟨inner', after', rfl, -⟩ := hinner.partner rfl
    simp

end Sequence

open Sequence

/-! ## Every move -/

namespace Reduction

variable {origin s : Sequence} {history : List Step} {es es' : List Entry} {step : Step}
  {fresh : Handle}

theorem Move.isNested (hmove : Move fresh es step es') (hes : IsNested es) : IsNested es' := by
  cases hmove with
  | start _ => exact hes
  | look _ => exact hes
  | report => exact hes
  | set hold hnew =>
    exact (hes.remove rfl (.inl hold)).insert (Cell.isLoose_of_isPlain hnew) rfl
  | insert hnew => exact hes.insert (Cell.isLoose_of_isPlain hnew) rfl
  | remove hremovable => exact hes.remove rfl hremovable

/-- Entries that begin nested stay so. -/
theorem Chronicle.isNested {first : List Entry} (hfirst : origin.Represents first)
    (hnested : IsNested first) (h : Chronicle origin history s es) : IsNested es := by
  induction h with
  | origin hes _ => rwa [← hes.entries_eq, hfirst.entries_eq]
  | step _ hmove ih => exact hmove.isNested ih

end Reduction

/-! ## Every moment -/

/-- At a moment of a reduction the next step is taken at a linked cell, and the brackets are intact.
-/
structure Evaluation.IsIntactAt (s : Sequence) (k : Nat) : Prop where
  linked : ∀ step, (ofSequence s).history[k]? = some step →
    ∀ h ∈ step.target?, h ∈ (sequenceAt s k).handles
  brackets : (sequenceAt s k).HasIntactBrackets

/-- **A reduction works on live cells and intact brackets only**, at every moment of every run. -/
theorem isIntactAt_of_prepare {tokens : List Token} {s : Sequence} (h : prepare tokens = .ok s)
    (k : Nat) : Evaluation.IsIntactAt s k := by
  obtain ⟨items, body, -, hs⟩ := exists_isPrepared h
  refine ⟨fun step hstep handle hhandle ↦ ?_, ?_⟩
  · obtain ⟨es, es', hchronicle, hmove⟩ := exists_move_at hs hstep
    rw [hchronicle.represents.handles_eq]
    exact hmove.mem_of_step hhandle
  · obtain ⟨es, hchronicle⟩ := exists_chronicle_at hs k
    have hbody : IsNested body := hs.isBody.mono fun _ ↦ Cell.isLoose_of_isPlain
    have hnested := hchronicle.isNested hs.represents (.group hbody .nil)
    exact hchronicle.represents.hasIntactBrackets hchronicle.settled hnested

/-- The moment between the removals of the two parentheses of a group, in an expression that has no
value: three closing parentheses are left for two opening ones. -/
theorem isIntactAt_of_lone_closing :
    ∃ s, prepare [.opening, .opening, .number "1", .closing, .operator '+', .closing] = .ok s ∧
      (Evaluation.ofSequence s).history[21]? = some (.edit (.remove 3)) ∧
      Evaluation.IsIntactAt s 21 := by
  have hprepare : prepare [.opening, .opening, .number "1", .closing, .operator '+', .closing]
      = .ok ((prepare [.opening, .opening, .number "1", .closing, .operator '+',
        .closing]).toOption.getD empty) := by
    decide +kernel
  exact ⟨_, hprepare, by decide +kernel, isIntactAt_of_prepare hprepare 21⟩

end Calculator
