import Calculator.Proofs.Sequence.Listing
import Mathlib.Algebra.Order.Field.Basic
import Mathlib.Algebra.Order.Field.Rat
import Mathlib.Data.Finset.Card
import Mathlib.Data.Finset.Range
import Mathlib.Data.List.Chain
import Mathlib.Logic.Relation
import Mathlib.Tactic.Linarith

/-!
# Links stay sound under every edit

An edit may name a cell that was taken out. Then the sequence falls apart into chains, the head and
the tail may be on different ones, and cells come back, so no list of cells describes it any more.
What is left are the links themselves: they are mutual, they never lead round in a circle, and the
two ends are ends.

## Every cell has a place

Circles are ruled out by giving each handle a place on the rational line, so that every link leads
to a greater place. A new cell gets a place between its neighbours, which always exists, and all
others keep theirs; a cell that is taken out leaves a link from its one neighbour to the other, and
their places are in order because its own was between them.

## Every new cell goes into a gap

All insertions are one: between a cell and what follows it, before a cell that follows none, or
behind a cell that none follows. Whether those cells can be reached from the head does not matter.
-/

namespace Calculator

namespace Sequence

variable {s : Sequence} {h p n : Handle} {slot : Slot} {previous next start : Option Handle}
  {es : List Entry} {place : Handle → ℚ} {e : Edit} {edits : List Edit} {given limit : Nat}

/-- The handle of the cell after a cell. -/
def nextOf (s : Sequence) (h : Handle) : Option Handle := s.slots[h]?.bind Slot.next

/-- The handle of the cell before a cell. -/
def previousOf (s : Sequence) (h : Handle) : Option Handle := s.slots[h]?.bind Slot.previous

private theorem lt_size_of_nextOf (h : s.nextOf p = some n) : p < s.slots.size := by
  obtain ⟨slot, hslot, -⟩ := Option.bind_eq_some_iff.mp h
  exact (Array.getElem?_eq_some_iff.mp hslot).1

private theorem lt_size_of_previousOf (h : s.previousOf n = some p) : n < s.slots.size := by
  obtain ⟨slot, hslot, -⟩ := Option.bind_eq_some_iff.mp h
  exact (Array.getElem?_eq_some_iff.mp hslot).1

/-! ## The invariant -/

/-- Links are mutual, and lead to greater places; no cell is before the head or behind the tail. -/
structure IsPlaced (s : Sequence) (place : Handle → ℚ) : Prop where
  next_iff : ∀ p n, s.nextOf p = some n ↔ s.previousOf n = some p
  lt : ∀ p n, s.nextOf p = some n → place p < place n
  head : ∀ h, s.head = some h → h < s.slots.size ∧ s.previousOf h = none
  tail : ∀ h, s.tail = some h → h < s.slots.size ∧ s.nextOf h = none

/-- A place where a new cell may go: each neighbour has the other one at its side. -/
structure IsGap (s : Sequence) (previous next : Option Handle) : Prop where
  left : ∀ p, previous = some p → p < s.slots.size ∧ s.nextOf p = next
  right : ∀ n, next = some n → n < s.slots.size ∧ s.previousOf n = previous

private theorem isPlaced_empty (place : Handle → ℚ) : empty.IsPlaced place where
  next_iff p n := by simp [nextOf, previousOf, empty]
  lt p n hn := by simp [nextOf, empty] at hn
  head h hh := by cases hh
  tail h hh := by cases hh

/-! ### Insertions -/

/-- There is always room between two neighbours. -/
theorem exists_between_places
    (hlt : ∀ p ∈ previous, ∀ n ∈ next, place p < place n) :
    ∃ middle, (∀ p ∈ previous, place p < middle) ∧ ∀ n ∈ next, middle < place n := by
  cases previous with
  | none =>
    cases next with
    | none => exact ⟨0, by rintro _ ⟨⟩, by rintro _ ⟨⟩⟩
    | some n =>
      obtain ⟨middle, hmiddle⟩ := exists_lt (place n)
      exact ⟨middle, by rintro _ ⟨⟩, by rintro _ ⟨⟩; exact hmiddle⟩
  | some p =>
    cases next with
    | none =>
      obtain ⟨middle, hmiddle⟩ := exists_gt (place p)
      exact ⟨middle, by rintro _ ⟨⟩; exact hmiddle, by rintro _ ⟨⟩⟩
    | some n =>
      obtain ⟨middle, hleft, hright⟩ := exists_between (hlt p rfl n rfl)
      exact ⟨middle, by rintro _ ⟨⟩; exact hleft, by rintro _ ⟨⟩; exact hright⟩

namespace IsGap

variable (hgap : s.IsGap previous next) (cell : Cell)
include hgap

theorem nextOf_insert (j : Handle) :
    (s.insert cell previous next).nextOf j
      = if j = s.slots.size then next
        else if previous = some j then some s.slots.size else s.nextOf j := by
  rw [Sequence.nextOf, slots_insert_of_lt (fun p hp ↦ (hgap.left p hp).1)
    (fun n hn ↦ (hgap.right n hn).1), Sequence.nextOf]
  by_cases hj : j = s.slots.size
  · rw [if_pos hj, if_pos hj]
    rfl
  rw [if_neg hj, if_neg hj]
  by_cases hprevious : previous = some j
  · simp [hprevious, Array.getElem?_eq_getElem (hgap.left j hprevious).1]
  · simp only [if_neg hprevious]
    cases s.slots[j]? <;> rfl

private theorem previousOf_insert (j : Handle) :
    (s.insert cell previous next).previousOf j
      = if j = s.slots.size then previous
        else if next = some j then some s.slots.size else s.previousOf j := by
  rw [Sequence.previousOf, slots_insert_of_lt (fun p hp ↦ (hgap.left p hp).1)
    (fun n hn ↦ (hgap.right n hn).1), Sequence.previousOf]
  by_cases hj : j = s.slots.size
  · rw [if_pos hj, if_pos hj]
    rfl
  rw [if_neg hj, if_neg hj]
  by_cases hnext : next = some j
  · simp [hnext, Array.getElem?_eq_getElem (hgap.right j hnext).1]
  · simp only [if_neg hnext]
    cases s.slots[j]? <;> rfl

end IsGap

theorem head_insert (s : Sequence) (cell : Cell) (previous next : Option Handle) :
    (s.insert cell previous next).head
      = if previous = none then some s.slots.size else s.head := by
  rw [insert, head_linkPrevious, head_linkNext]

theorem tail_insert (s : Sequence) (cell : Cell) (previous next : Option Handle) :
    (s.insert cell previous next).tail = if next = none then some s.slots.size else s.tail := by
  rw [insert, tail_linkPrevious, tail_linkNext]

namespace IsPlaced

variable (hplaced : s.IsPlaced place)
include hplaced

private theorem ne_self (hp : s.nextOf p = some n) : p ≠ n := by
  rintro rfl
  exact lt_irrefl _ (hplaced.lt _ _ hp)

theorem insert (hgap : s.IsGap previous next) (cell : Cell) :
    ∃ place', (s.insert cell previous next).IsPlaced place' := by
  have hnextOf := hgap.nextOf_insert cell
  have hpreviousOf := hgap.previousOf_insert cell
  have hsize := size_insert s cell previous next
  have hbefore := hgap.left
  have hafter := hgap.right
  have hneighbours : ∀ p ∈ previous, ∀ n ∈ next, place p < place n := fun p hp n hn ↦
    hplaced.lt p n ((hgap.left p hp).2.trans hn)
  obtain ⟨middle, hleft, hright⟩ := exists_between_places hneighbours
  have hnew : ∀ j, s.nextOf j ≠ some s.slots.size := fun j hj ↦
    absurd (lt_size_of_previousOf ((hplaced.next_iff j _).mp hj)) (Nat.lt_irrefl _)
  have hnew' : ∀ j, s.previousOf j ≠ some s.slots.size := fun j hj ↦
    absurd (lt_size_of_nextOf ((hplaced.next_iff _ j).mpr hj)) (Nat.lt_irrefl _)
  -- Links change at the gap only, so each case is one of the new links or an old one.
  refine ⟨fun j ↦ if j = s.slots.size then middle else place j, ?_, ?_, ?_, ?_⟩
  · intro p n
    have hiff := hplaced.next_iff p n
    rw [hnextOf, hpreviousOf]
    grind
  · intro p n
    have hlt := hplaced.lt p n
    rw [hnextOf]
    grind
  · intro h
    have hhead := hplaced.head h
    rw [head_insert, hpreviousOf, hsize]
    grind
  · intro h
    have htail := hplaced.tail h
    rw [tail_insert, hnextOf, hsize]
    grind

end IsPlaced

/-! ### Removals -/

theorem nextOf_of_slot (hslot : s.slots[h]? = some slot) : s.nextOf h = slot.next := by
  rw [nextOf, hslot, Option.bind_some]

theorem previousOf_of_slot (hslot : s.slots[h]? = some slot) : s.previousOf h = slot.previous := by
  rw [previousOf, hslot, Option.bind_some]

/-- A removal either changes nothing or takes out a cell that has links. -/
theorem remove_cases (s : Sequence) (h : Handle) :
    s.remove h = s ∨ ∃ slot, s.slots[h]? = some slot ∧ s.isUnlinked h slot = false := by
  cases hslot : s.slots[h]? with
  | none => exact .inl (by rw [remove, hslot])
  | some slot =>
    cases hlinked : s.isUnlinked h slot with
    | true =>
      refine .inl ?_
      rw [remove, hslot]
      exact if_pos hlinked
    | false => exact .inr ⟨slot, rfl, hlinked⟩

theorem head_remove (hslot : s.slots[h]? = some slot) (hlinked : s.isUnlinked h slot = false) :
    (s.remove h).head = if s.previousOf h = none then s.nextOf h else s.head := by
  rw [remove_of_isLinked hslot hlinked, nextOf_of_slot hslot, previousOf_of_slot hslot]
  simp only [clearLinks, head_linkPrevious, head_linkNext]

theorem tail_remove (hslot : s.slots[h]? = some slot) (hlinked : s.isUnlinked h slot = false) :
    (s.remove h).tail = if s.nextOf h = none then s.previousOf h else s.tail := by
  rw [remove_of_isLinked hslot hlinked, nextOf_of_slot hslot, previousOf_of_slot hslot]
  simp only [clearLinks, tail_linkPrevious, tail_linkNext]

namespace IsPlaced

variable (hplaced : s.IsPlaced place)
include hplaced

/-- The neighbours of a cell that is taken out have one another, and it has none. -/
theorem nextOf_remove (hslot : s.slots[h]? = some slot) (hlinked : s.isUnlinked h slot = false)
    (j : Handle) :
    (s.remove h).nextOf j
      = if h = j then none else if s.previousOf h = some j then s.nextOf h else s.nextOf j := by
  rw [nextOf, slots_remove_of_isLinked hslot hlinked, nextOf_of_slot hslot,
    previousOf_of_slot hslot]
  cases hj : s.slots[j]? with
  | some other => simp [nextOf_of_slot hj]
  | none =>
    have hnone : s.nextOf j = none := by rw [nextOf, hj, Option.bind_none]
    have hnot : slot.previous ≠ some j := fun hprevious ↦ by
      have hnext := (hplaced.next_iff j h).mpr ((previousOf_of_slot hslot).trans hprevious)
      exact absurd (hnone.symm.trans hnext) (Option.some_ne_none h).symm
    simp [hnot, hnone]

private theorem previousOf_remove (hslot : s.slots[h]? = some slot)
    (hlinked : s.isUnlinked h slot = false) (j : Handle) :
    (s.remove h).previousOf j
      = if h = j then none
        else if s.nextOf h = some j then s.previousOf h else s.previousOf j := by
  rw [previousOf, slots_remove_of_isLinked hslot hlinked, nextOf_of_slot hslot,
    previousOf_of_slot hslot]
  cases hj : s.slots[j]? with
  | some other => simp [previousOf_of_slot hj]
  | none =>
    have hnone : s.previousOf j = none := by rw [previousOf, hj, Option.bind_none]
    have hnot : slot.next ≠ some j := fun hnext ↦ by
      have hprevious := (hplaced.next_iff h j).mp ((nextOf_of_slot hslot).trans hnext)
      exact absurd (hnone.symm.trans hprevious) (Option.some_ne_none h).symm
    simp [hnot, hnone]

theorem remove (h : Handle) : (s.remove h).IsPlaced place := by
  rcases s.remove_cases h with hsame | ⟨slot, hslot, hlinked⟩
  · rwa [hsame]
  have hnextOf := hplaced.nextOf_remove hslot hlinked
  have hpreviousOf := hplaced.previousOf_remove hslot hlinked
  have hsize := size_remove s h
  have hhead := head_remove hslot hlinked
  have htail := tail_remove hslot hlinked
  have hforth := fun p n ↦ (hplaced.next_iff p n).mp
  have hback := fun p n ↦ (hplaced.next_iff p n).mpr
  have hlt := hplaced.lt
  -- The one new link skips the removed cell, whose place was between the two it joins.
  refine ⟨fun p n ↦ ?_, fun p n ↦ ?_, fun k ↦ ?_, fun k ↦ ?_⟩
  · rw [hnextOf, hpreviousOf]
    grind
  · rw [hnextOf]
    grind
  · have hold := hplaced.head k
    rw [hhead, hpreviousOf, hsize]
    grind [lt_size_of_previousOf]
  · have hold := hplaced.tail k
    rw [htail, hnextOf, hsize]
    grind [lt_size_of_nextOf]

end IsPlaced

/-! ### Every edit -/

theorem nextOf_set (s : Sequence) (h : Handle) (cell : Cell) (j : Handle) :
    (s.set h cell).nextOf j = s.nextOf j := by
  rw [nextOf, Sequence.set, Array.getElem?_modify, nextOf]
  split
  · cases s.slots[j]? <;> rfl
  · rfl

private theorem previousOf_set (s : Sequence) (h : Handle) (cell : Cell) (j : Handle) :
    (s.set h cell).previousOf j = s.previousOf j := by
  rw [previousOf, Sequence.set, Array.getElem?_modify, previousOf]
  split
  · cases s.slots[j]? <;> rfl
  · rfl

namespace IsPlaced

variable (hplaced : s.IsPlaced place)
include hplaced

private theorem lt_size_of_eq_nextOf (hn : s.nextOf p = some n) : n < s.slots.size :=
  lt_size_of_previousOf ((hplaced.next_iff p n).mp hn)

private theorem lt_size_of_eq_previousOf (hp : s.previousOf n = some p) : p < s.slots.size :=
  lt_size_of_nextOf ((hplaced.next_iff p n).mpr hp)

private theorem isGap_tail : s.IsGap s.tail none where
  left := hplaced.tail
  right := by rintro _ ⟨⟩

private theorem isGap_head : s.IsGap none s.head where
  left := by rintro _ ⟨⟩
  right := hplaced.head

private theorem isGap_after (hh : h < s.slots.size) : s.IsGap (some h) (s.nextOf h) where
  left := by
    rintro _ ⟨⟩
    exact ⟨hh, rfl⟩
  right n hn := ⟨hplaced.lt_size_of_eq_nextOf hn, (hplaced.next_iff h n).mp hn⟩

theorem isGap_before (hh : h < s.slots.size) : s.IsGap (s.previousOf h) (some h) where
  left p hp := ⟨hplaced.lt_size_of_eq_previousOf hp, (hplaced.next_iff p h).mpr hp⟩
  right := by
    rintro _ ⟨⟩
    exact ⟨hh, rfl⟩

theorem set (h : Handle) (cell : Cell) : (s.set h cell).IsPlaced place where
  next_iff p n := by
    rw [nextOf_set, previousOf_set]
    exact hplaced.next_iff p n
  lt p n := by
    rw [nextOf_set]
    exact hplaced.lt p n
  head k := by
    rw [size_set, previousOf_set]
    exact hplaced.head k
  tail k := by
    rw [size_set, nextOf_set]
    exact hplaced.tail k

/-- Any edit at a handle that was given out leaves the cells in places, wherever that cell is. -/
theorem apply (he : ∀ h ∈ e.target?, h < s.slots.size) :
    ∃ place', (e.apply s).IsPlaced place' := by
  cases e with
  | pushBack cell => exact hplaced.insert hplaced.isGap_tail cell
  | pushFront cell => exact hplaced.insert hplaced.isGap_head cell
  | insertAfter h cell => exact hplaced.insert (hplaced.isGap_after (he h rfl)) cell
  | insertBefore h cell => exact hplaced.insert (hplaced.isGap_before (he h rfl)) cell
  | set h cell => exact ⟨place, hplaced.set h cell⟩
  | remove h => exact ⟨place, hplaced.remove h⟩

/-- A cell that was just taken out looks like one. -/
theorem remove_remove (h : Handle) : (s.remove h).remove h = s.remove h := by
  rcases s.remove_cases h with hsame | ⟨slot, hslot, hlinked⟩
  · rw [hsame, hsame]
  have hslot' : (s.remove h).slots[h]? = some { slot with previous := none, next := none } := by
    rw [slots_remove_of_isLinked hslot hlinked, hslot]
    simp
  have hhead : (s.remove h).head ≠ some h := by
    rw [head_remove hslot hlinked]
    split
    · exact fun hnext ↦ hplaced.ne_self hnext rfl
    · next hprevious => exact fun hh ↦ hprevious (hplaced.head h hh).2
  have hunlinked : (s.remove h).isUnlinked h { slot with previous := none, next := none } := by
    simp [isUnlinked, hhead]
  generalize s.remove h = removed at hslot' hunlinked
  rw [Sequence.remove, hslot']
  exact if_pos hunlinked

end IsPlaced

/-! ## Following the links -/

/-- What is met from a place on when the link after each cell is followed until there is none. There
is no bound on how long that takes, and each handle on the way has to be one that was given out. -/
inductive Visits (s : Sequence) : Option Handle → List Entry → Prop
  | stop : s.Visits none []
  | step (h : Handle) (slot : Slot) (es : List Entry) :
    s.slot h = .ok slot → s.Visits slot.next es → s.Visits (some h) ((h, slot.cell) :: es)

theorem slot_eq_ok_iff : s.slot h = .ok slot ↔ s.slots[h]? = some slot := by
  rw [Sequence.slot]
  cases s.slots[h]? <;> simp

namespace Visits

theorem head?_eq (hvisits : s.Visits start es) : (handlesOf es).head? = start := by
  cases hvisits <;> rfl

theorem lt_size (hvisits : s.Visits start es) (hh : h ∈ handlesOf es) : h < s.slots.size := by
  induction hvisits with
  | stop => cases hh
  | step k slot es hslot _ ih =>
    rcases List.mem_cons.mp hh with rfl | hh
    · exact (Array.getElem?_eq_some_iff.mp (slot_eq_ok_iff.mp hslot)).1
    · exact ih hh

/-- A walk with enough steps meets what is met without a bound on the steps. -/
theorem walk_eq (hvisits : s.Visits start es) (hlimit : es.length ≤ limit) :
    s.walk limit start = handlesOf es := by
  induction hvisits generalizing limit with
  | stop => cases limit <;> rfl
  | step h slot es hslot _ ih =>
    obtain ⟨limit, rfl⟩ := Nat.exists_eq_add_one_of_ne_zero
      (Nat.ne_of_gt (Nat.lt_of_lt_of_le (Nat.succ_pos _) hlimit))
    rw [walk, slot_eq_ok_iff.mp hslot, Option.bind_some, ih (Nat.le_of_succ_le_succ hlimit)]
    rfl

theorem cells_eq (hvisits : s.Visits start es) :
    (handlesOf es).filterMap (fun h ↦ s.slots[h]?.map Slot.cell) = es.map Prod.snd := by
  induction hvisits with
  | stop => rfl
  | step h slot es hslot _ ih =>
    rw [handlesOf_cons, List.filterMap_cons, slot_eq_ok_iff.mp hslot, ih]
    rfl

end Visits

/-- How many handles have a greater place. -/
def ahead (s : Sequence) (place : Handle → ℚ) (h : Handle) : Nat :=
  ((Finset.range s.slots.size).filter fun k ↦ place h < place k).card

namespace IsPlaced

variable (hplaced : s.IsPlaced place)
include hplaced

/-- Each link leaves fewer handles ahead. -/
theorem ahead_lt (hn : s.nextOf p = some n) : s.ahead place n < s.ahead place p := by
  have hlt := hplaced.lt p n hn
  have hsubset : ((Finset.range s.slots.size).filter fun k ↦ place n < place k)
      ⊆ (Finset.range s.slots.size).filter fun k ↦ place p < place k := fun k hk ↦ by
    rw [Finset.mem_filter] at hk ⊢
    exact ⟨hk.1, hlt.trans hk.2⟩
  refine Finset.card_lt_card ((Finset.ssubset_iff_of_subset hsubset).mpr ⟨n, ?_, ?_⟩)
  · exact Finset.mem_filter.mpr ⟨Finset.mem_range.mpr (hplaced.lt_size_of_eq_nextOf hn), hlt⟩
  · exact fun hmem ↦ lt_irrefl _ (Finset.mem_filter.mp hmem).2

/-- The links come to an end from any cell on. -/
theorem exists_visits_some (hh : h < s.slots.size) : ∃ es, s.Visits (some h) es := by
  induction hcount : s.ahead place h using Nat.strong_induction_on generalizing h with
  | _ count ih =>
    have hslot := Array.getElem?_eq_getElem hh
    have hnext := nextOf_of_slot hslot
    cases hlink : s.slots[h].next with
    | none =>
      refine ⟨_, .step h _ [] (slot_eq_ok_iff.mpr hslot) ?_⟩
      rw [hlink]
      exact .stop
    | some n =>
      have hn := hnext.trans hlink
      obtain ⟨es, hes⟩ := ih _ (hcount ▸ hplaced.ahead_lt hn) (hplaced.lt_size_of_eq_nextOf hn) rfl
      exact ⟨_, .step h _ es (slot_eq_ok_iff.mpr hslot) (hlink ▸ hes)⟩

private theorem exists_visits (hstart : ∀ h, start = some h → h < s.slots.size) :
    ∃ es, s.Visits start es := by
  cases start with
  | none => exact ⟨[], .stop⟩
  | some h => exact hplaced.exists_visits_some (hstart h rfl)

/-- The places of what is met increase. -/
theorem pairwise_of_visits (hvisits : s.Visits start es) :
    (handlesOf es).Pairwise (place · < place ·) := by
  have hchain : (handlesOf es).IsChain (place · < place ·) := by
    induction hvisits with
    | stop => exact .nil
    | step h slot es hslot hvisits ih =>
      refine List.isChain_cons.mpr ⟨fun n hn ↦ hplaced.lt h n ?_, ih⟩
      rw [nextOf_of_slot (slot_eq_ok_iff.mp hslot), ← hvisits.head?_eq]
      exact hn
  have : IsTrans Handle (place · < place ·) := ⟨fun _ _ _ ↦ lt_trans⟩
  exact List.isChain_iff_pairwise.mp hchain

private theorem nodup_of_visits (hvisits : s.Visits start es) : (handlesOf es).Nodup :=
  (hplaced.pairwise_of_visits hvisits).imp fun hlt heq ↦ (heq ▸ hlt).false

/-- What is found by following the links for as many steps as there are handles is all there is. -/
theorem handles_eq (hvisits : s.Visits s.head es) : s.handles = handlesOf es := by
  have hsubset : handlesOf es ⊆ List.range s.slots.size := fun h hh ↦
    List.mem_range.mpr (hvisits.lt_size hh)
  have hlength := ((hplaced.nodup_of_visits hvisits).subperm hsubset).length_le
  rw [handlesOf, List.length_map, List.length_range] at hlength
  exact hvisits.walk_eq hlength

end IsPlaced

/-! ## What holds after every run of edits -/

/-- The links of a sequence are in order, as far as they go: also those of cells that the head does
not lead to. -/
structure HasSoundLinks (s : Sequence) : Prop where
  next_iff : ∀ p n, s.nextOf p = some n ↔ s.previousOf n = some p
  acyclic : ∀ h, ¬ Relation.TransGen (fun p n ↦ s.nextOf p = some n) h h
  head : ∀ h, s.head = some h → h < s.slots.size ∧ s.previousOf h = none
  tail : ∀ h, s.tail = some h → h < s.slots.size ∧ s.nextOf h = none

theorem IsPlaced.hasSoundLinks (hplaced : s.IsPlaced place) : s.HasSoundLinks where
  next_iff := hplaced.next_iff
  acyclic h hh := by
    have hlt : ∀ n, Relation.TransGen (fun p n ↦ s.nextOf p = some n) h n → place h < place n := by
      intro n hn
      induction hn with
      | single hn => exact hplaced.lt _ _ hn
      | tail _ hn ih => exact ih.trans (hplaced.lt _ _ hn)
    exact lt_irrefl _ (hlt h hh)
  head := hplaced.head
  tail := hplaced.tail

/-- Whether each of some edits names a handle that was given out by then, if it names one. Handles
are given out in order, one for each new cell. -/
def NamesGiven : (given : Nat) → List Edit → Prop
  | _, [] => True
  | given, e :: edits =>
    (∀ h ∈ e.target?, h < given) ∧ NamesGiven (given + if e.isInsertion then 1 else 0) edits

instance decidableNamesGiven : (given : Nat) → (edits : List Edit) →
    Decidable (NamesGiven given edits)
  | _, [] => .isTrue trivial
  | given, e :: edits =>
    have := decidableNamesGiven (given + if e.isInsertion then 1 else 0) edits
    inferInstanceAs (Decidable (_ ∧ _))

theorem IsPlaced.performAll (hplaced : s.IsPlaced place) (hedits : NamesGiven s.slots.size edits) :
    ∃ s' place', s.performAll edits
        = .ok (List.range' s.slots.size (edits.countP Edit.isInsertion), s') ∧
      s'.slots.size = s.slots.size + edits.countP Edit.isInsertion ∧ s'.IsPlaced place' := by
  induction edits generalizing s place with
  | nil => exact ⟨s, place, rfl, rfl, hplaced⟩
  | cons e edits ih =>
    obtain ⟨he, hedits⟩ := hedits
    obtain ⟨place', hplaced'⟩ := hplaced.apply he
    rw [← size_apply] at hedits
    obtain ⟨s', place'', hlater, hsize, hplaced''⟩ := ih hplaced' hedits
    refine ⟨s', place'', performAll_cons he hlater, ?_, hplaced''⟩
    rw [hsize, size_apply, List.countP_cons]
    cases e.isInsertion
    · rfl
    · exact Nat.add_right_comm ..

end Sequence

open Sequence

/-- **Links stay sound.** Every run of edits at handles that were given out, those of removed cells
included, succeeds. After it links are mutual and never lead round in a circle, nothing is before
the head or behind the tail, and who follows the links from the head on comes to an end without
meeting a cell twice: that is what the sequence lists and shows. Taking a cell out once more changes
nothing. -/
theorem links_stay_sound (edits : List Edit) (h : NamesGiven 0 edits) :
    ∃ s, Sequence.empty.performAll edits = .ok (List.range (edits.countP Edit.isInsertion), s) ∧
      s.HasSoundLinks ∧
      (∃ es, s.Visits s.head es ∧ (handlesOf es).Nodup ∧ s.handles = handlesOf es ∧
        s.cells = es.map Prod.snd ∧ s.text = " ".intercalate (es.map fun e ↦ e.2.text)) ∧
      ∀ k < edits.countP Edit.isInsertion, ∃ s',
        s.perform (.remove k) = .ok (none, s') ∧ s'.perform (.remove k) = .ok (none, s') := by
  obtain ⟨s, place, hok, hsize, hplaced⟩ := (isPlaced_empty fun _ ↦ 0).performAll h
  have hempty : Sequence.empty.slots.size = 0 := rfl
  rw [hempty, ← List.range_eq_range'] at hok
  rw [hempty, Nat.zero_add] at hsize
  obtain ⟨es, hvisits⟩ := hplaced.exists_visits fun h hh ↦ (hplaced.head h hh).1
  have hhandles := hplaced.handles_eq hvisits
  have hcells : s.cells = es.map Prod.snd := by rw [cells, hhandles, hvisits.cells_eq]
  have htext : s.text = " ".intercalate (es.map fun e ↦ e.2.text) := by
    rw [text, hcells, List.map_map]
    rfl
  refine ⟨s, hok, hplaced.hasSoundLinks,
    ⟨es, hvisits, hplaced.nodup_of_visits hvisits, hhandles, hcells, htext⟩, fun k hk ↦ ?_⟩
  have htarget : ∀ h ∈ (Edit.remove k).target?, h < s.slots.size := by
    rintro _ ⟨⟩
    exact hsize ▸ hk
  have hagain := perform_of_target_lt (s := s.remove k) (e := .remove k)
    (by rwa [size_remove])
  rw [Edit.apply, hplaced.remove_remove] at hagain
  exact ⟨s.remove k, perform_of_target_lt htarget, hagain⟩

/-- Edits around a cell that was taken out. The head leads to one chain then, and the tail is on
another, with that cell. -/
def strayEdits : List Edit :=
  [.pushBack (.operator '+'), .pushBack (.operator '-'), .remove 0, .insertAfter 0 (.operator '*'),
    .set 0 (.function "sin"), .insertBefore 1 (.operator '/'), .pushBack (.operator '&'), .remove 2]

theorem links_of_strayEdits_sound :
    NamesGiven 0 strayEdits ∧
      ∃ s, Sequence.empty.performAll strayEdits = .ok ([0, 1, 2, 3, 4], s) ∧
        s.handles = [3, 1] ∧ s.tail = some 4 ∧ s.previousOf 4 = some 0 ∧ s.HasSoundLinks ∧
        ∃ s', s.perform (.remove 0) = .ok (none, s') ∧
          s'.perform (.remove 0) = .ok (none, s') := by
  have hnames : NamesGiven 0 strayEdits := by decide
  obtain ⟨s, hok, hsound, -, hremoved⟩ := links_stay_sound strayEdits hnames
  have hs : Sequence.empty.performAll strayEdits
      = .ok ([0, 1, 2, 3, 4], Sequence.empty.replay strayEdits) := rfl
  obtain rfl : Sequence.empty.replay strayEdits = s :=
    congrArg Prod.snd (Except.ok.inj (hs.symm.trans hok))
  exact ⟨hnames, _, hok, rfl, rfl, rfl, hsound, hremoved 0 (by decide)⟩

end Calculator
