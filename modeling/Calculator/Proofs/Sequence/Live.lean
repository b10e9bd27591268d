import Calculator.Proofs.Sequence.Prepared
import Calculator.Sequence.Edit
import Mathlib.Data.List.TakeWhile

/-!
# Edits of linked cells

An edit reads the slot it names and relinks the neighbours of that slot. Where the sequence stands
for a list of cells, every link leads to a slot, so an edit is safe if it names a cell of the list.

## Preparation as edits

Preparation is written as functions on whole sequences. Here it is a list of edits, one for each
cell that is put in or changed, so that it can be looked at moment by moment like a reduction. All
its edits put cells in or change cells, so every handle that was given out stays in the sequence.
-/

namespace Calculator.Sequence

variable {s : Sequence} {es : List Entry} {e : Edit} {edits : List Edit}

/-! ## Links lead to slots -/

/-- Every handle in the sequence was given out. -/
structure InRange (s : Sequence) : Prop where
  head : ∀ h ∈ s.head, h < s.slots.size
  tail : ∀ h ∈ s.tail, h < s.slots.size
  previous : ∀ slot ∈ s.slots, ∀ h ∈ slot.previous, h < s.slots.size
  next : ∀ slot ∈ s.slots, ∀ h ∈ slot.next, h < s.slots.size

/-- A linked slot links to entries; another slot has no links. -/
theorem Represents.links (hs : s.Represents es) {slot : Slot} (hslot : slot ∈ s.slots) :
    (∀ h ∈ slot.previous, h ∈ handlesOf es) ∧ ∀ h ∈ slot.next, h ∈ handlesOf es := by
  obtain ⟨k, hk, rfl⟩ := Array.mem_iff_getElem.mp hslot
  by_cases hmem : k ∈ handlesOf es
  · obtain ⟨before, cell, after, rfl⟩ := exists_split_of_mem hmem
    have hlinked := hs.linked before k cell after rfl
    rw [Array.getElem?_eq_getElem hk] at hlinked
    rw [Option.some.inj hlinked]
    constructor
    · intro h hh
      rw [handlesOf_append]
      exact List.mem_append_left _ (mem_of_lastOf hh)
    · intro h hh
      rw [handlesOf_append]
      exact List.mem_append_right _ (List.mem_cons_of_mem _ (mem_of_firstOf hh))
  · obtain ⟨cell, hcell⟩ := hs.unlinked k hk hmem
    rw [Array.getElem?_eq_getElem hk] at hcell
    rw [Option.some.inj hcell]
    exact ⟨by rintro _ ⟨⟩, by rintro _ ⟨⟩⟩

theorem Represents.inRange (hs : s.Represents es) : s.InRange where
  head _ hh := hs.lt_size (mem_of_firstOf (hs.head ▸ hh))
  tail _ hh := hs.lt_size (mem_of_lastOf (hs.tail ▸ hh))
  previous _ hslot h hh := hs.lt_size ((hs.links hslot).1 h hh)
  next _ hslot h hh := hs.lt_size ((hs.links hslot).2 h hh)

/-! ## Live edits -/

/-- The sequence stands for a list, and the handle that an edit names is in it. -/
def Edit.IsLive (e : Edit) (s : Sequence) : Prop :=
  ∃ es, s.Represents es ∧ ∀ h ∈ e.target?, h ∈ handlesOf es

/-- Every edit is live at its moment. -/
def LiveFrom : Sequence → List Edit → Prop
  | _, [] => True
  | s, e :: edits => e.IsLive s ∧ LiveFrom (e.apply s) edits

theorem liveFrom_append {later : List Edit} :
    LiveFrom s (edits ++ later) ↔ LiveFrom s edits ∧ LiveFrom (s.replay edits) later := by
  induction edits generalizing s with
  | nil => exact (iff_of_eq (true_and _)).symm
  | cons e edits ih =>
    rw [List.cons_append, LiveFrom, LiveFrom, ih, and_assoc]
    rfl

theorem LiveFrom.isLive {later : List Edit} (h : LiveFrom s (edits ++ e :: later)) :
    e.IsLive (s.replay edits) := (liveFrom_append.mp h).2.1

/-! ## Sequences that only grow -/

/-- The sequence stands for a list with every handle that was given out. -/
def IsFull (s : Sequence) : Prop := ∃ es, s.Represents es ∧ ∀ h < s.slots.size, h ∈ handlesOf es

/-- Whether an edit puts a cell at an end, or changes one with a handle below `size`. -/
def Edit.Grows (size : Nat) : Edit → Prop
  | pushBack _ | pushFront _ => True
  | set h _ => h < size
  | insertAfter _ _ | insertBefore _ _ | remove _ => False

theorem Edit.Grows.mono {size size' : Nat} (he : e.Grows size) (hle : size ≤ size') :
    e.Grows size' := by
  cases e with
  | set h cell => exact Nat.lt_of_lt_of_le he hle
  | pushBack _ => trivial
  | pushFront _ => trivial
  | insertAfter _ _ => exact he
  | insertBefore _ _ => exact he
  | remove _ => exact he

private theorem isFull_empty : empty.IsFull := ⟨[], represents_empty, by rintro h ⟨⟩⟩

namespace IsFull

theorem apply (hs : s.IsFull) (he : e.Grows s.slots.size) :
    (e.apply s).IsFull ∧ s.slots.size ≤ (e.apply s).slots.size := by
  obtain ⟨es, hes, hfull⟩ := hs
  cases e with
  | pushBack cell =>
    have hsize : (s.pushBack cell).slots.size = s.slots.size + 1 := size_insert ..
    refine ⟨⟨_, hes.pushBack cell, fun h hh ↦ ?_⟩, hsize ▸ Nat.le_succ _⟩
    rw [Edit.apply, hsize, Nat.lt_succ_iff_lt_or_eq] at hh
    rw [handlesOf_append, List.mem_append]
    rcases hh with hh | rfl
    · exact .inl (hfull h hh)
    · exact .inr (List.mem_singleton.mpr rfl)
  | pushFront cell =>
    have hsize : (s.pushFront cell).slots.size = s.slots.size + 1 := size_insert ..
    refine ⟨⟨_, hes.pushFront cell, fun h hh ↦ ?_⟩, hsize ▸ Nat.le_succ _⟩
    rw [Edit.apply, hsize, Nat.lt_succ_iff_lt_or_eq] at hh
    rcases hh with hh | rfl
    · exact List.mem_cons_of_mem _ (hfull h hh)
    · exact List.mem_cons_self
  | set h cell =>
    obtain ⟨before, old, after, rfl⟩ := exists_split_of_mem (hfull h he)
    have hsize := size_set s h cell
    refine ⟨⟨_, hes.set cell, fun k hk ↦ ?_⟩, Nat.le_of_eq hsize.symm⟩
    rw [Edit.apply, hsize] at hk
    simpa using hfull k hk
  | insertAfter _ _ => exact he.elim
  | insertBefore _ _ => exact he.elim
  | remove _ => exact he.elim

theorem isLive (hs : s.IsFull) (he : e.Grows s.slots.size) : e.IsLive s := by
  obtain ⟨es, hes, hfull⟩ := hs
  refine ⟨es, hes, fun h hh ↦ ?_⟩
  cases e with
  | set k cell =>
    cases hh
    exact hfull h he
  | pushBack _ => cases hh
  | pushFront _ => cases hh
  | insertAfter _ _ => exact he.elim
  | insertBefore _ _ => exact he.elim
  | remove _ => exact he.elim

/-- Edits that grow a full sequence are live, and leave it full. -/
theorem liveFrom (hs : s.IsFull) (hedits : ∀ e ∈ edits, e.Grows s.slots.size) :
    LiveFrom s edits ∧ (s.replay edits).IsFull := by
  -- A handle below the size stays below it, so one bound serves for all the edits that come later.
  induction edits generalizing s with
  | nil => exact ⟨trivial, hs⟩
  | cons e edits ih =>
    have he := hedits e List.mem_cons_self
    obtain ⟨hfull, hle⟩ := hs.apply he
    obtain ⟨hlive, hend⟩ := ih hfull fun e' he' ↦
      (hedits e' (List.mem_cons_of_mem _ he')).mono hle
    exact ⟨⟨hs.isLive he, hlive⟩, hend⟩

end IsFull

/-! ## The edits of a preparation -/

/-- The edits that pair the parentheses of tokens, up to the first that has no partner. -/
def pairingEdits (h : Handle) : List Token → (stack : List Handle) → List Edit
  | [], _ => []
  | .opening :: tokens, stack => pairingEdits (h + 1) tokens (h :: stack)
  | .closing :: _, [] => []
  | .closing :: tokens, opening :: stack =>
    .set opening (.opening h) :: .set h (.closing opening) :: pairingEdits (h + 1) tokens stack
  | _ :: tokens, stack => pairingEdits (h + 1) tokens stack

/-- The cell with a handle. -/
def cellOf (s : Sequence) (h : Handle) : Cell := (s.slots[h]?.map Slot.cell).getD default

/-- The edits that settle every cell, up to the first that cannot be settled. -/
def settlingEdits (s : Sequence) : List Edit :=
  ((List.range s.slots.size).takeWhile fun h ↦ (errorOf (settle (s.cellOf h))).isNone).map
    fun h ↦ .set h (settled (s.cellOf h))

/-- The edits that put a pair of parentheses around `size` cells. -/
def enclosingEdits (size : Nat) : List Edit :=
  [.pushFront (.opening (size + 1)), .pushBack (.closing size)]

/-- The edits behind pairing: all of them, or up to the first cell that cannot be settled. -/
def editsAfterPairing (s : Sequence) : List Edit :=
  s.settlingEdits ++
    match s.settleAll with
    | .ok settled => enclosingEdits settled.slots.size
    | .error _ => []

/-- The edits that prepare an expression, up to the first error. -/
def preparationEdits (tokens : List Token) : List Edit :=
  tokens.map (fun token ↦ .pushBack (.lexeme token)) ++
    (pairingEdits 0 tokens [] ++
      match pairFrom 0 tokens [] (ofTokens tokens) with
      | .ok s => s.editsAfterPairing
      | .error _ => [])

/-! ## Replaying a preparation -/

theorem replay_pushBack (tokens : List Token) :
    empty.replay (tokens.map fun token ↦ .pushBack (.lexeme token)) = ofTokens tokens :=
  List.foldl_map

private theorem eq_replay_of_pairFrom {tokens : List Token} {h : Handle} {stack : List Handle}
    {s s' : Sequence} (hpair : pairFrom h tokens stack s = .ok s') :
    s' = s.replay (pairingEdits h tokens stack) := by
  induction tokens generalizing h stack s with
  | nil =>
    cases stack with
    | nil =>
      cases hpair
      rfl
    | cons opening stack => cases hpair
  | cons token tokens ih =>
    cases token with
    | closing =>
      cases stack with
      | nil => cases hpair
      | cons opening stack => exact ih hpair
    | opening => exact ih hpair
    | number literal => exact ih hpair
    | operator symbol => exact ih hpair
    | function name => exact ih hpair

private theorem grows_pairingEdits {tokens : List Token} {h size : Nat} {stack : List Handle}
    (hsize : h + tokens.length ≤ size) (hstack : ∀ k ∈ stack, k < h) :
    ∀ e ∈ pairingEdits h tokens stack, e.Grows size := by
  induction tokens generalizing h stack with
  | nil =>
    rintro e he
    cases he
  | cons token tokens ih =>
    rw [List.length_cons] at hsize
    have hlater : ∀ stack : List Handle, (∀ k ∈ stack, k < h + 1) →
        ∀ e ∈ pairingEdits (h + 1) tokens stack, e.Grows size :=
      fun _ hstack ↦ ih (by omega) hstack
    have hsame : ∀ k ∈ stack, k < h + 1 := fun k hk ↦ Nat.lt_succ_of_lt (hstack k hk)
    -- Only a closing parenthesis makes edits, of itself and of the last open one.
    cases token with
    | number literal => exact hlater stack hsame
    | operator symbol => exact hlater stack hsame
    | function name => exact hlater stack hsame
    | opening =>
      refine hlater (h :: stack) fun k hk ↦ ?_
      rcases List.mem_cons.mp hk with rfl | hk
      · exact Nat.lt_succ_self _
      · exact hsame k hk
    | closing =>
      cases stack with
      | nil =>
        rintro e he
        cases he
      | cons opening stack =>
        intro e he
        rcases List.mem_cons.mp he with rfl | he
        · have hopening := hstack opening List.mem_cons_self
          exact Nat.lt_of_lt_of_le hopening (by omega)
        rcases List.mem_cons.mp he with rfl | he
        · exact (by omega : h < size)
        · exact hlater stack (fun k hk ↦ hsame k (List.mem_cons_of_mem _ hk)) e he

private theorem grows_settlingEdits (s : Sequence) :
    ∀ e ∈ s.settlingEdits, e.Grows s.slots.size := by
  intro e he
  obtain ⟨h, hh, rfl⟩ := List.mem_map.mp he
  exact List.mem_range.mp ((List.takeWhile_prefix _).subset hh)

private theorem eq_of_slots (s : Sequence) {slots slots' : Array Slot}
    (h : ∀ j : Nat, slots[j]? = slots'[j]?) :
    ({ s with slots } : Sequence) = { s with slots := slots' } := by
  rw [Array.ext_getElem? h]

/-- Changing the first cells one by one. -/
theorem replay_set (s : Sequence) (cell : Handle → Cell) (k : Nat) :
    s.replay ((List.range k).map fun h ↦ .set h (cell h))
      = { s with slots := s.slots.mapIdx fun h slot ↦
            if h < k then { slot with cell := cell h } else slot } := by
  induction k with
  | zero => exact eq_of_slots s fun j ↦ by simp
  | succ k ih =>
    rw [List.range_succ, List.map_append, replay_append, ih]
    refine eq_of_slots s fun j ↦ ?_
    rw [Array.getElem?_modify, Array.getElem?_mapIdx, Array.getElem?_mapIdx]
    cases s.slots[j]? with
    | none => simp
    | some slot =>
      rcases Nat.lt_trichotomy j k with hlt | rfl | hgt
      · simp [hlt, Nat.ne_of_gt hlt, Nat.lt_succ_of_lt hlt]
      · simp
      · simp [Nat.ne_of_lt hgt, Nat.not_lt_of_lt hgt, Nat.not_lt.mpr (Nat.succ_le_of_lt hgt)]

theorem cellOf_eq {h : Handle} {slot : Slot} (hslot : s.slots[h]? = some slot) :
    s.cellOf h = slot.cell := by
  rw [cellOf, hslot]
  rfl

private theorem eq_replay_of_settleAll {s s' : Sequence} (h : s.settleAll = .ok s') :
    s' = s.replay s.settlingEdits := by
  -- Settling looks at cells alone, so the handles of these entries do not matter.
  have hcells : s.slots.toList.map Slot.cell
      = (s.slots.toList.map fun slot ↦ ((0 : Handle), slot.cell)).map Prod.snd := by
    rw [List.map_map]
    rfl
  have hsettle := settleAll_eq hcells
  rw [h] at hsettle
  cases herror : settlingError (s.slots.toList.map fun slot ↦ ((0 : Handle), slot.cell)) with
  | some cause =>
    rw [herror] at hsettle
    cases hsettle
  | none =>
    rw [herror] at hsettle
    have hall : ∀ k ∈ List.range s.slots.size, (errorOf (settle (s.cellOf k))).isNone := by
      intro k hk
      have hslot := Array.getElem?_eq_getElem (List.mem_range.mp hk)
      rw [cellOf_eq hslot, Option.isNone_iff_eq_none]
      refine List.findSome?_eq_none_iff.mp herror (0, _) (List.mem_map.mpr ⟨_, ?_, rfl⟩)
      exact Array.getElem_mem_toList _
    rw [settlingEdits, List.takeWhile_eq_self_iff.mpr hall, replay_set]
    refine (Except.ok.inj hsettle).trans (eq_of_slots s fun j ↦ ?_)
    rw [Array.getElem?_map, Array.getElem?_mapIdx]
    cases hslot : s.slots[j]? with
    | none => rfl
    | some slot =>
      have hj := (Array.getElem?_eq_some_iff.mp hslot).1
      simp [hj, cellOf_eq hslot]

/-- **Preparing is replaying its edits.** -/
theorem eq_replay_of_prepare {tokens : List Token} {s : Sequence} (h : prepare tokens = .ok s) :
    s = empty.replay (preparationEdits tokens) := by
  rw [prepare] at h
  rw [preparationEdits, replay_append, replay_append, replay_pushBack]
  cases hpair : pairFrom 0 tokens [] (ofTokens tokens) with
  | error cause =>
    rw [hpair] at h
    cases h
  | ok paired =>
    rw [hpair] at h
    dsimp only
    rw [← eq_replay_of_pairFrom hpair, editsAfterPairing, replay_append]
    cases hsettle : paired.settleAll with
    | error cause =>
      simp only [bind, Except.bind, hsettle] at h
      cases h
    | ok settled =>
      simp only [bind, Except.bind, hsettle] at h
      cases h
      rw [← eq_replay_of_settleAll hsettle]
      rfl

/-- **Every edit of a preparation is live.** -/
theorem liveFrom_preparationEdits (tokens : List Token) :
    LiveFrom empty (preparationEdits tokens) := by
  have hpush : ∀ e ∈ tokens.map fun token ↦ Edit.pushBack (.lexeme token),
      e.Grows empty.slots.size := by
    intro e he
    obtain ⟨token, -, rfl⟩ := List.mem_map.mp he
    trivial
  obtain ⟨hlive, hfull⟩ := isFull_empty.liveFrom hpush
  rw [replay_pushBack] at hfull
  have hpair : ∀ e ∈ pairingEdits 0 tokens [], e.Grows (ofTokens tokens).slots.size := by
    refine grows_pairingEdits ?_ (by rintro _ ⟨⟩)
    rw [size_ofTokens, Nat.zero_add]
  obtain ⟨hlive', hfull'⟩ := hfull.liveFrom hpair
  rw [preparationEdits, liveFrom_append, liveFrom_append, replay_pushBack]
  refine ⟨hlive, hlive', ?_⟩
  cases hpairs : pairFrom 0 tokens [] (ofTokens tokens) with
  | error cause => trivial
  | ok paired =>
    rw [← eq_replay_of_pairFrom hpairs] at hfull' ⊢
    obtain ⟨hlive'', hfull''⟩ := hfull'.liveFrom (grows_settlingEdits paired)
    dsimp only
    rw [editsAfterPairing, liveFrom_append]
    refine ⟨hlive'', ?_⟩
    cases hsettle : paired.settleAll with
    | error cause => trivial
    | ok settled =>
      refine (hfull''.liveFrom fun e he ↦ ?_).1
      simp only [enclosingEdits, List.mem_cons, List.not_mem_nil, or_false] at he
      rcases he with rfl | rfl <;> trivial

end Calculator.Sequence
