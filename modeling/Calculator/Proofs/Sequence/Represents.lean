import Calculator.Sequence.Edit
import Mathlib.Data.List.Nodup
import Mathlib.Data.List.Perm.Subperm

/-!
# Sequences as lists

What a linked sequence stands for is the list of its cells in order, each with its handle. This
module says when a sequence represents such a list and that each edit next to a cell of the list
changes the list as its name says.

## Links are stated at every split

A slot links to what is before and after it, so the condition on links is stated for every way to
split the list around one entry. Each edit then compares a split of the new list with a split of the
old one, and the only entries whose links move are the last before the edit and the first after it.

## Cells that were taken out

A removed cell keeps its slot without links. The condition is part of the representation, because
`remove` tells from the links alone whether a cell is in the sequence.
-/

namespace Calculator

/-- A cell in a sequence, with its handle. -/
abbrev Entry := Handle × Cell

namespace Sequence

/-- The handle of the first entry. -/
def firstOf (entries : List Entry) : Option Handle := entries.head?.map Prod.fst

/-- The handle of the last entry. -/
def lastOf (entries : List Entry) : Option Handle := entries.getLast?.map Prod.fst

/-- The handles of entries, in order. -/
def handlesOf (entries : List Entry) : List Handle := entries.map Prod.fst

@[simp] theorem firstOf_nil : firstOf [] = none := rfl

@[simp] theorem firstOf_cons (e : Entry) (es : List Entry) : firstOf (e :: es) = some e.1 := rfl

@[simp] theorem firstOf_append (es fs : List Entry) :
    firstOf (es ++ fs) = (firstOf es).or (firstOf fs) := by
  cases es <;> rfl

@[simp] theorem lastOf_nil : lastOf [] = none := rfl

@[simp] theorem lastOf_cons (e : Entry) (es : List Entry) :
    lastOf (e :: es) = (lastOf es).or (some e.1) := by
  rw [lastOf, lastOf, List.getLast?_cons]
  cases es.getLast? <;> rfl

@[simp] theorem lastOf_append (es fs : List Entry) :
    lastOf (es ++ fs) = (lastOf fs).or (lastOf es) := by
  rw [lastOf, lastOf, lastOf, List.getLast?_append]
  cases fs.getLast? <;> rfl

@[simp] theorem handlesOf_nil : handlesOf [] = [] := rfl

@[simp] theorem handlesOf_cons (e : Entry) (es : List Entry) :
    handlesOf (e :: es) = e.1 :: handlesOf es := rfl

@[simp] theorem handlesOf_append (es fs : List Entry) :
    handlesOf (es ++ fs) = handlesOf es ++ handlesOf fs := List.map_append

theorem mem_of_firstOf {es : List Entry} {h : Handle} (hh : firstOf es = some h) :
    h ∈ handlesOf es := by
  cases es with
  | nil => cases hh
  | cons e es =>
    cases hh
    exact List.mem_cons_self

theorem mem_of_lastOf {es : List Entry} {h : Handle} (hh : lastOf es = some h) :
    h ∈ handlesOf es := by
  obtain ⟨e, he, rfl⟩ := Option.map_eq_some_iff.mp hh
  exact List.mem_map_of_mem (List.mem_of_getLast? he)

theorem exists_split_of_mem {es : List Entry} {h : Handle} (hh : h ∈ handlesOf es) :
    ∃ before cell after, es = before ++ (h, cell) :: after := by
  obtain ⟨⟨k, cell⟩, he, hk⟩ := List.mem_map.mp hh
  obtain ⟨before, after, rfl⟩ := List.append_of_mem he
  exact ⟨before, cell, after, by rw [← hk]⟩

/-- A sequence represents a list of entries: it links exactly these cells, in this order. -/
structure Represents (s : Sequence) (entries : List Entry) : Prop where
  nodup : (handlesOf entries).Nodup
  linked : ∀ before h cell after, entries = before ++ (h, cell) :: after →
    s.slots[h]? = some ⟨cell, lastOf before, firstOf after⟩
  unlinked : ∀ h < s.slots.size, h ∉ handlesOf entries →
    ∃ cell, s.slots[h]? = some ⟨cell, none, none⟩
  head : s.head = firstOf entries
  tail : s.tail = lastOf entries
  length : s.length = UInt64.ofNat entries.length

namespace Represents

variable {s : Sequence} {es before after : List Entry} {h : Handle} {cell : Cell}

theorem lt_size (hs : s.Represents es) (hh : h ∈ handlesOf es) : h < s.slots.size := by
  obtain ⟨before, c, after, rfl⟩ := exists_split_of_mem hh
  obtain ⟨hlt, -⟩ := Array.getElem?_eq_some_iff.mp (hs.linked before h c after rfl)
  exact hlt

theorem length_le_size (hs : s.Represents es) : es.length ≤ s.slots.size := by
  have hsub : handlesOf es ⊆ List.range s.slots.size := fun h hh ↦
    List.mem_range.mpr (hs.lt_size hh)
  have hle := (hs.nodup.subperm hsub).length_le
  rwa [handlesOf, List.length_map, List.length_range] at hle

/-- Where 64 bits are enough to count the slots, a sequence with a cell has a length. -/
theorem length_pos (hs : s.Represents es) (hh : h ∈ handlesOf es)
    (hsize : s.slots.size < UInt64.size) : 0 < s.length := by
  have hcount := Nat.lt_of_le_of_lt hs.length_le_size hsize
  have hpos := List.length_pos_of_mem hh
  rw [handlesOf, List.length_map] at hpos
  rwa [hs.length, UInt64.lt_iff_toNat_lt, UInt64.toNat_ofNat_of_lt' hcount]

theorem not_mem_handlesOf (hs : s.Represents es) (hes : es = before ++ (h, cell) :: after) :
    h ∉ handlesOf (before ++ after) := by
  have hnodup := hs.nodup
  rw [hes, handlesOf_append, handlesOf_cons, List.nodup_middle, List.nodup_cons] at hnodup
  rw [handlesOf_append]
  exact hnodup.1

theorem slot_eq (hs : s.Represents es) (hes : es = before ++ (h, cell) :: after) :
    s.slot h = .ok ⟨cell, lastOf before, firstOf after⟩ := by
  rw [slot, hs.linked before h cell after hes]

end Represents

theorem represents_empty : empty.Represents [] where
  nodup := List.nodup_nil
  linked := by simp
  unlinked := by simp [empty]
  head := rfl
  tail := rfl
  length := rfl

/-! ## Relinking

What one link change does to every slot and to the two ends. -/

theorem slots_linkNext (s : Sequence) (target next : Option Handle) (j : Handle) :
    (s.linkNext target next).slots[j]?
      = if target = some j then s.slots[j]?.map ({ · with next }) else s.slots[j]? := by
  cases target with
  | none => rfl
  | some h => simp [linkNext, Array.getElem?_modify]

theorem slots_linkPrevious (s : Sequence) (target previous : Option Handle) (j : Handle) :
    (s.linkPrevious target previous).slots[j]?
      = if target = some j then s.slots[j]?.map ({ · with previous }) else s.slots[j]? := by
  cases target with
  | none => rfl
  | some h => simp [linkPrevious, Array.getElem?_modify]

theorem slots_clearLinks (s : Sequence) (h j : Handle) :
    (s.clearLinks h).slots[j]?
      = if h = j then s.slots[j]?.map ({ · with previous := none, next := none })
        else s.slots[j]? := by
  simp [clearLinks, Array.getElem?_modify]

theorem size_linkNext (s : Sequence) (target next : Option Handle) :
    (s.linkNext target next).slots.size = s.slots.size := by
  cases target <;> simp [linkNext]

theorem size_linkPrevious (s : Sequence) (target previous : Option Handle) :
    (s.linkPrevious target previous).slots.size = s.slots.size := by
  cases target <;> simp [linkPrevious]

theorem head_linkNext (s : Sequence) (target next : Option Handle) :
    (s.linkNext target next).head = if target = none then next else s.head := by
  cases target <;> rfl

theorem tail_linkPrevious (s : Sequence) (target previous : Option Handle) :
    (s.linkPrevious target previous).tail = if target = none then previous else s.tail := by
  cases target <;> rfl

theorem tail_linkNext (s : Sequence) (target next : Option Handle) :
    (s.linkNext target next).tail = s.tail := by
  cases target <;> rfl

theorem head_linkPrevious (s : Sequence) (target previous : Option Handle) :
    (s.linkPrevious target previous).head = s.head := by
  cases target <;> rfl

theorem length_clearLinks (s : Sequence) (h : Handle) : (s.clearLinks h).length = s.length := rfl

theorem length_linkNext (s : Sequence) (target next : Option Handle) :
    (s.linkNext target next).length = s.length := by
  cases target <;> rfl

theorem length_linkPrevious (s : Sequence) (target previous : Option Handle) :
    (s.linkPrevious target previous).length = s.length := by
  cases target <;> rfl

/-- What an insertion between two cells that have slots does to every slot. -/
theorem slots_insert_of_lt {s : Sequence} {previous next : Option Handle}
    (hprevious : ∀ p ∈ previous, p < s.slots.size) (hnext : ∀ n ∈ next, n < s.slots.size)
    (cell : Cell) (j : Handle) :
    (s.insert cell previous next).slots[j]?
      = if j = s.slots.size then some ⟨cell, previous, next⟩
        else s.slots[j]?.map fun slot ↦ ⟨slot.cell,
          if next = some j then some s.slots.size else slot.previous,
          if previous = some j then some s.slots.size else slot.next⟩ := by
  have hp : previous ≠ some s.slots.size := fun h ↦ absurd (hprevious _ h) (Nat.lt_irrefl _)
  have hn : next ≠ some s.slots.size := fun h ↦ absurd (hnext _ h) (Nat.lt_irrefl _)
  simp only [insert, slots_linkPrevious, slots_linkNext, Array.getElem?_push]
  by_cases hj : j = s.slots.size
  · subst hj
    simp [hp, hn]
  · simp only [if_neg hj]
    split <;> split <;> cases s.slots[j]? <;> rfl

theorem remove_of_isLinked {s : Sequence} {h : Handle} {slot : Slot}
    (hslot : s.slots[h]? = some slot) (hlinked : s.isUnlinked h slot = false) :
    s.remove h = { ((s.linkNext slot.previous slot.next).linkPrevious slot.next
      slot.previous).clearLinks h with length := s.length - 1 } := by
  rw [remove, hslot]
  simp only [hlinked, Bool.false_eq_true, if_false, length_clearLinks, length_linkPrevious,
    length_linkNext]

/-- What the removal of a cell that has links does to every slot. -/
theorem slots_remove_of_isLinked {s : Sequence} {h : Handle} {slot : Slot}
    (hslot : s.slots[h]? = some slot) (hlinked : s.isUnlinked h slot = false) (j : Handle) :
    (s.remove h).slots[j]?
      = s.slots[j]?.map fun other ↦ ⟨other.cell,
          if h = j then none else if slot.next = some j then slot.previous else other.previous,
          if h = j then none else if slot.previous = some j then slot.next else other.next⟩ := by
  rw [remove_of_isLinked hslot hlinked]
  simp only [slots_clearLinks, slots_linkPrevious, slots_linkNext]
  split <;> split <;> split <;> cases s.slots[j]? <;> rfl

theorem size_insert (s : Sequence) (cell : Cell) (previous next : Option Handle) :
    (s.insert cell previous next).slots.size = s.slots.size + 1 := by
  simp [insert, size_linkPrevious, size_linkNext]

theorem size_set (s : Sequence) (h : Handle) (cell : Cell) :
    (s.set h cell).slots.size = s.slots.size := by
  simp [set]

theorem size_remove (s : Sequence) (h : Handle) : (s.remove h).slots.size = s.slots.size := by
  rw [remove]
  cases s.slots[h]? with
  | none => rfl
  | some slot =>
    dsimp only
    split
    · rfl
    · simp [clearLinks, size_linkPrevious, size_linkNext]

theorem size_apply (s : Sequence) (e : Edit) :
    (e.apply s).slots.size = s.slots.size + if e.isInsertion then 1 else 0 := by
  cases e with
  | pushBack cell => exact size_insert ..
  | pushFront cell => exact size_insert ..
  | insertAfter h cell => exact size_insert ..
  | insertBefore h cell => exact size_insert ..
  | set h cell => exact size_set ..
  | remove h => exact size_remove ..

/-- There is a slot for each cell that was ever put in. -/
theorem size_replay (s : Sequence) (edits : List Edit) :
    (s.replay edits).slots.size = s.slots.size + edits.countP Edit.isInsertion := by
  induction edits generalizing s with
  | nil => rfl
  | cons e edits ih =>
    rw [replay, List.foldl_cons, ← replay, ih, size_apply, List.countP_cons]
    omega

theorem fault?_eq_none {s : Sequence} {e : Edit} (he : ∀ h ∈ e.target?, h < s.slots.size) :
    e.fault? s = none := by
  rw [Edit.fault?]
  cases htarget : e.target? with
  | none => rfl
  | some h => exact if_pos (he h htarget)

/-- An edit at a handle that was given out is done, and a new cell gets the next handle. -/
theorem perform_of_target_lt {s : Sequence} {e : Edit} (he : ∀ h ∈ e.target?, h < s.slots.size) :
    s.perform e = .ok (if e.isInsertion then some s.slots.size else none, e.apply s) := by
  rw [perform, fault?_eq_none he]
  rfl

/-! ## Splits of a list around an edit -/

theorem split_append {α : Type} {before after b a : List α} {f : α}
    (h : before ++ after = b ++ f :: a) :
    (∃ mid, before = b ++ f :: mid ∧ a = mid ++ after) ∨
      ∃ mid, after = mid ++ f :: a ∧ b = before ++ mid := by
  rcases List.append_eq_append_iff.mp h with ⟨mid, rfl, rfl⟩ | ⟨mid, rfl, hmid⟩
  · exact .inr ⟨mid, rfl, rfl⟩
  · cases mid with
    | nil => exact .inr ⟨[], by simpa using hmid.symm, by simp⟩
    | cons e mid =>
      obtain ⟨rfl, rfl⟩ := List.cons.inj hmid
      exact .inl ⟨mid, rfl, rfl⟩

theorem split_cons {α : Type} {before after b a : List α} {e f : α}
    (h : before ++ e :: after = b ++ f :: a) :
    (∃ mid, before = b ++ f :: mid ∧ a = mid ++ e :: after) ∨
      (b = before ∧ f = e ∧ a = after) ∨
      ∃ mid, after = mid ++ f :: a ∧ b = before ++ e :: mid := by
  rcases split_append h with hleft | ⟨mid, hmid, rfl⟩
  · exact .inl hleft
  · cases mid with
    | nil =>
      obtain ⟨rfl, rfl⟩ := List.cons.inj hmid
      exact .inr (.inl ⟨by simp, rfl, rfl⟩)
    | cons e' mid =>
      obtain ⟨rfl, rfl⟩ := List.cons.inj hmid
      exact .inr (.inr ⟨mid, rfl, rfl⟩)

theorem forall_prefix_cons {α : Type} {p : List α → Prop} {a : α} {as : List α} :
    (∀ first, first <+: a :: as → p first) ↔ p [] ∧ ∀ first, first <+: as → p (a :: first) := by
  constructor
  · intro h
    exact ⟨h [] List.nil_prefix, fun first hfirst ↦ h _ (List.cons_prefix_cons.mpr ⟨rfl, hfirst⟩)⟩
  · rintro ⟨hnil, hcons⟩ first hfirst
    rcases List.prefix_cons_iff.mp hfirst with rfl | ⟨later, rfl, hlater⟩
    · exact hnil
    · exact hcons later hlater

/-! ## Edits -/

namespace Represents

variable {s : Sequence} {es before after : List Entry} {h : Handle} {cell : Cell}

theorem slots_insert (hs : s.Represents (before ++ after)) (j : Handle) :
    (s.insert cell (lastOf before) (firstOf after)).slots[j]?
      = if j = s.slots.size then some ⟨cell, lastOf before, firstOf after⟩
        else s.slots[j]?.map fun slot ↦ ⟨slot.cell,
          if firstOf after = some j then some s.slots.size else slot.previous,
          if lastOf before = some j then some s.slots.size else slot.next⟩ :=
  slots_insert_of_lt (fun _ hlast ↦ hs.lt_size (by simp [mem_of_lastOf hlast]))
    (fun _ hfirst ↦ hs.lt_size (by simp [mem_of_firstOf hfirst])) cell j

/-- In a list without repetition an entry is the last one only if nothing follows it. -/
private theorem lastOf_eq_some_iff {before mid : List Entry}
    (hnodup : (handlesOf (before ++ (h, cell) :: mid)).Nodup) :
    lastOf (before ++ (h, cell) :: mid) = some h ↔ mid = [] := by
  rw [lastOf_append, lastOf_cons]
  cases hlast : lastOf mid with
  | none =>
    rw [lastOf, Option.map_eq_none_iff, List.getLast?_eq_none_iff] at hlast
    simp [hlast]
  | some k =>
    have hk := mem_of_lastOf hlast
    have hne : mid ≠ [] := by
      rintro rfl
      cases hk
    have hhk : k ≠ h := by
      rintro rfl
      simp_all [List.nodup_append]
    simp [hne, hhk]

private theorem firstOf_eq_some_iff {mid after : List Entry}
    (hnodup : (handlesOf (mid ++ (h, cell) :: after)).Nodup) :
    firstOf (mid ++ (h, cell) :: after) = some h ↔ mid = [] := by
  cases mid with
  | nil => simp
  | cons e mid =>
    have he : e.1 ≠ h := by
      rintro rfl
      simp at hnodup
    simp [he]

private theorem firstOf_ne_some (hnodup : (handlesOf (before ++ after)).Nodup)
    (hh : h ∈ handlesOf before) : firstOf after ≠ some h := fun hfirst ↦
  List.disjoint_of_nodup_append (by simpa using hnodup) hh (mem_of_firstOf hfirst)

private theorem lastOf_ne_some (hnodup : (handlesOf (before ++ after)).Nodup)
    (hh : h ∈ handlesOf after) : lastOf before ≠ some h := fun hlast ↦
  List.disjoint_of_nodup_append (by simpa using hnodup) (mem_of_lastOf hlast) hh

/-- The new handle is that of no entry. -/
theorem size_not_mem (hs : s.Represents es) : s.slots.size ∉ handlesOf es := fun hmem ↦
  absurd (hs.lt_size hmem) (Nat.lt_irrefl _)

private theorem linked_insert (hs : s.Represents (before ++ after)) {b a : List Entry} {c : Cell}
    (hsplit : before ++ (s.slots.size, cell) :: after = b ++ (h, c) :: a) :
    (s.insert cell (lastOf before) (firstOf after)).slots[h]? = some ⟨c, lastOf b, firstOf a⟩ := by
  have hnew := hs.size_not_mem
  have hold := hs.nodup
  rw [hs.slots_insert]
  rcases split_cons hsplit with ⟨mid, rfl, rfl⟩ | ⟨rfl, he, rfl⟩ | ⟨mid, rfl, rfl⟩
  · rw [hs.linked b h c (mid ++ after) (by simp)]
    have hh : h ≠ s.slots.size := by
      rintro rfl
      simp at hnew
    have hmem : h ∈ handlesOf (b ++ (h, c) :: mid) := by simp
    have hfirst := firstOf_ne_some hold hmem
    have hlast : lastOf (b ++ (h, c) :: mid) = some h ↔ mid = [] :=
      lastOf_eq_some_iff (List.Nodup.of_append_left (by simpa using hold))
    -- Its link to the next cell moves just when nothing stood between it and the new one.
    cases mid <;> simp_all
  · cases he
    rw [if_pos rfl]
  · rw [hs.linked (before ++ mid) h c a (by simp)]
    have hh : h ≠ s.slots.size := by
      rintro rfl
      simp at hnew
    have hmem : h ∈ handlesOf (mid ++ (h, c) :: a) := by simp
    have hlast := lastOf_ne_some hold hmem
    have hfirst : firstOf (mid ++ (h, c) :: a) = some h ↔ mid = [] :=
      firstOf_eq_some_iff (List.Nodup.of_append_right (by simpa using hold))
    cases mid <;> simp_all

private theorem unlinked_insert (hs : s.Represents (before ++ after))
    (hlt : h < (s.insert cell (lastOf before) (firstOf after)).slots.size)
    (hmem : h ∉ handlesOf (before ++ (s.slots.size, cell) :: after)) :
    ∃ c, (s.insert cell (lastOf before) (firstOf after)).slots[h]? = some ⟨c, none, none⟩ := by
  have hh : h ≠ s.slots.size := by
    rintro rfl
    simp at hmem
  rw [size_insert] at hlt
  have hsize : h < s.slots.size := Nat.lt_of_le_of_ne (Nat.le_of_lt_succ hlt) hh
  obtain ⟨c, hc⟩ := hs.unlinked h hsize (by simp_all)
  have hlast : lastOf before ≠ some h := fun hl ↦ hmem (by simp [mem_of_lastOf hl])
  have hfirst : firstOf after ≠ some h := fun hf ↦ hmem (by simp [mem_of_firstOf hf])
  exact ⟨c, by simp [hs.slots_insert, hh, hc, hlast, hfirst]⟩

theorem insert (hs : s.Represents (before ++ after)) (cell : Cell) :
    (s.insert cell (lastOf before) (firstOf after)).Represents
      (before ++ (s.slots.size, cell) :: after) := by
  have hnodup : (handlesOf before ++ s.slots.size :: handlesOf after).Nodup := by
    rw [List.nodup_middle, List.nodup_cons, ← handlesOf_append]
    exact ⟨hs.size_not_mem, hs.nodup⟩
  refine ⟨by simpa using hnodup, ?_, ?_, ?_, ?_, ?_⟩
  · intro _ _ _ _ hsplit
    exact hs.linked_insert hsplit
  · intro _ hlt hmem
    exact hs.unlinked_insert hlt hmem
  · rw [Sequence.insert, head_linkPrevious, head_linkNext]
    cases before <;> simp [hs.head]
  · rw [Sequence.insert, tail_linkPrevious, tail_linkNext]
    cases after <;> simp [hs.tail]
  · rw [Sequence.insert, length_linkPrevious, length_linkNext]
    simp [hs.length, UInt64.add_assoc]

theorem pushBack (hs : s.Represents es) (cell : Cell) :
    (s.pushBack cell).Represents (es ++ [(s.slots.size, cell)]) := by
  have hs' : s.Represents (es ++ []) := by simpa using hs
  rw [Sequence.pushBack, hs.tail]
  exact hs'.insert cell

theorem pushFront (hs : s.Represents es) (cell : Cell) :
    (s.pushFront cell).Represents ((s.slots.size, cell) :: es) := by
  have hs' : s.Represents ([] ++ es) := hs
  rw [Sequence.pushFront, hs.head]
  exact hs'.insert cell

theorem insertBefore {c : Cell} (hs : s.Represents (before ++ (h, c) :: after)) (cell : Cell) :
    (s.insertBefore h cell).Represents (before ++ (s.slots.size, cell) :: (h, c) :: after) := by
  rw [Sequence.insertBefore, hs.linked before h c after rfl]
  exact hs.insert cell

theorem insertAfter {c : Cell} (hs : s.Represents (before ++ (h, c) :: after)) (cell : Cell) :
    (s.insertAfter h cell).Represents (before ++ (h, c) :: (s.slots.size, cell) :: after) := by
  have hs' : s.Represents ((before ++ [(h, c)]) ++ after) := by simpa using hs
  have hlast : lastOf (before ++ [(h, c)]) = some h := by simp
  have hinsert := hs'.insert cell
  rw [hlast, List.append_assoc] at hinsert
  rw [Sequence.insertAfter, hs.linked before h c after rfl]
  exact hinsert

theorem set {old : Cell} (hs : s.Represents (before ++ (h, old) :: after)) (cell : Cell) :
    (s.set h cell).Represents (before ++ (h, cell) :: after) := by
  have hnodup := hs.nodup
  refine ⟨by simpa using hnodup, ?_, ?_, hs.head.trans (by simp), hs.tail.trans (by simp),
    hs.length.trans (by simp)⟩
  · -- Only the cell at `h` changes, and the links on both sides of every split are the same.
    intro b k c a hsplit
    simp only [Sequence.set, Array.getElem?_modify]
    rcases split_cons hsplit with ⟨mid, rfl, rfl⟩ | ⟨rfl, he, rfl⟩ | ⟨mid, rfl, rfl⟩
    · have hne : h ≠ k := by
        rintro rfl
        simp [List.nodup_append] at hnodup
      rw [if_neg hne, hs.linked b k c (mid ++ (h, old) :: after) (by simp)]
      simp
    · cases he
      rw [if_pos rfl, hs.linked _ h old _ rfl]
      rfl
    · have hne : h ≠ k := by
        rintro rfl
        simp [List.nodup_append] at hnodup
      rw [if_neg hne, hs.linked (before ++ (h, old) :: mid) k c a (by simp)]
      simp
  · intro k hk hmem
    have hne : h ≠ k := by
      rintro rfl
      simp at hmem
    simp only [Sequence.set, Array.size_modify] at hk
    simpa [Sequence.set, Array.getElem?_modify, hne] using hs.unlinked k hk (by simpa using hmem)

/-- A linked cell never looks like one that was taken out: without links it is the only one, and
then it is the head. -/
theorem not_isUnlinked (hs : s.Represents (before ++ (h, cell) :: after)) :
    s.isUnlinked h ⟨cell, lastOf before, firstOf after⟩ = false := by
  cases before with
  | nil => simp [isUnlinked, hs.head]
  | cons e before => simp [isUnlinked]

theorem remove_eq (hs : s.Represents (before ++ (h, cell) :: after)) :
    s.remove h = { ((s.linkNext (lastOf before) (firstOf after)).linkPrevious (firstOf after)
      (lastOf before)).clearLinks h with length := s.length - 1 } :=
  remove_of_isLinked (hs.linked before h cell after rfl) hs.not_isUnlinked

theorem slots_remove (hs : s.Represents (before ++ (h, cell) :: after)) (j : Handle) :
    (s.remove h).slots[j]?
      = s.slots[j]?.map fun slot ↦ ⟨slot.cell,
          if h = j then none else if firstOf after = some j then lastOf before else slot.previous,
          if h = j then none else if lastOf before = some j then firstOf after else slot.next⟩ :=
  slots_remove_of_isLinked (hs.linked before h cell after rfl) hs.not_isUnlinked j

private theorem linked_remove (hs : s.Represents (before ++ (h, cell) :: after)) {k : Handle}
    {b a : List Entry} {c : Cell} (hsplit : before ++ after = b ++ (k, c) :: a) :
    (s.remove h).slots[k]? = some ⟨c, lastOf b, firstOf a⟩ := by
  have hold := hs.nodup
  have hnodup : (h :: handlesOf (before ++ after)).Nodup := by
    rw [handlesOf_append, handlesOf_cons, List.nodup_middle] at hold
    rwa [handlesOf_append]
  have hrest := (List.nodup_cons.mp hnodup).2
  have hne : h ≠ k := by
    rintro rfl
    rw [hsplit] at hnodup
    simp at hnodup
  rw [hs.slots_remove]
  rcases split_append hsplit with ⟨mid, rfl, rfl⟩ | ⟨mid, rfl, rfl⟩
  · rw [hs.linked b k c (mid ++ (h, cell) :: after) (by simp)]
    have hmem : k ∈ handlesOf (b ++ (k, c) :: mid) := by simp
    have hfirst := firstOf_ne_some hrest hmem
    have hlast : lastOf (b ++ (k, c) :: mid) = some k ↔ mid = [] :=
      lastOf_eq_some_iff (List.Nodup.of_append_left (by simpa using hold))
    cases mid <;> simp_all
  · rw [hs.linked (before ++ (h, cell) :: mid) k c a (by simp)]
    have hmem : k ∈ handlesOf (mid ++ (k, c) :: a) := by simp
    have hlast := lastOf_ne_some hrest hmem
    have hfirst : firstOf (mid ++ (k, c) :: a) = some k ↔ mid = [] :=
      firstOf_eq_some_iff (List.Nodup.of_append_right (by simpa using hrest))
    cases mid <;> simp_all

private theorem unlinked_remove (hs : s.Represents (before ++ (h, cell) :: after)) {k : Handle}
    (hlt : k < (s.remove h).slots.size) (hmem : k ∉ handlesOf (before ++ after)) :
    ∃ c, (s.remove h).slots[k]? = some ⟨c, none, none⟩ := by
  rw [hs.slots_remove]
  by_cases hne : h = k
  · subst hne
    exact ⟨cell, by simp [hs.linked before h cell after rfl]⟩
  · have hsize : k < s.slots.size := by
      rw [hs.remove_eq] at hlt
      simpa [clearLinks, size_linkPrevious, size_linkNext] using hlt
    obtain ⟨c, hc⟩ := hs.unlinked k hsize (by simp_all [Ne.symm hne])
    have hlast : lastOf before ≠ some k := fun hl ↦ hmem (by simp [mem_of_lastOf hl])
    have hfirst : firstOf after ≠ some k := fun hf ↦ hmem (by simp [mem_of_firstOf hf])
    exact ⟨c, by simp [hc, hne, hlast, hfirst]⟩

theorem remove (hs : s.Represents (before ++ (h, cell) :: after)) :
    (s.remove h).Represents (before ++ after) := by
  have hnodup : (h :: (handlesOf before ++ handlesOf after)).Nodup := by
    rw [← List.nodup_middle]
    simpa using hs.nodup
  refine ⟨by simpa using (List.nodup_cons.mp hnodup).2, ?_, ?_, ?_, ?_, ?_⟩
  · intro _ _ _ _ hsplit
    exact hs.linked_remove hsplit
  · intro _ hlt hmem
    exact hs.unlinked_remove hlt hmem
  · rw [hs.remove_eq]
    simp only [clearLinks, head_linkPrevious, head_linkNext]
    cases before <;> simp [hs.head]
  · rw [hs.remove_eq]
    simp only [clearLinks, tail_linkPrevious, tail_linkNext]
    cases after <;> simp [hs.tail]
  · rw [hs.remove_eq]
    simp [hs.length, ← UInt64.add_assoc]

/-- Taking out a cell that is out already changes nothing. -/
theorem remove_of_not_mem (hs : s.Represents es) (hh : h ∉ handlesOf es) : s.remove h = s := by
  rw [Sequence.remove]
  by_cases hlt : h < s.slots.size
  · obtain ⟨cell, hcell⟩ := hs.unlinked h hlt hh
    have hhead : s.head ≠ some h := fun hhead ↦ hh (mem_of_firstOf (hs.head ▸ hhead))
    have hunlinked : s.isUnlinked h ⟨cell, none, none⟩ = true := by simp [isUnlinked, hhead]
    rw [hcell]
    exact if_pos hunlinked
  · rw [Array.getElem?_eq_none (Nat.not_lt.mp hlt)]

/-! ### Walking the links -/

theorem walk_eq (hs : s.Represents es) {limit : Nat} :
    ∀ {before after : List Entry}, es = before ++ after → after.length ≤ limit →
      s.walk limit (firstOf after) = handlesOf after := by
  -- The limit is what the walk recurses on; the entries passed so far move into `before`.
  induction limit with
  | zero =>
    intro before after hes hlimit
    rw [List.length_eq_zero_iff.mp (Nat.le_zero.mp hlimit)]
    rfl
  | succ limit ih =>
    intro before after hes hlimit
    cases after with
    | nil => rfl
    | cons e after =>
      have hslot := hs.linked before e.1 e.2 after hes
      have hes' : es = (before ++ [e]) ++ after := by simp [hes]
      have hrest := ih hes' (Nat.le_of_succ_le_succ hlimit)
      rw [firstOf_cons, walk, hslot]
      exact congrArg (e.1 :: ·) hrest

/-- **The handles of a sequence are those of the list it represents.** -/
theorem handles_eq (hs : s.Represents es) : s.handles = handlesOf es := by
  have hes : es = [] ++ es := rfl
  rw [handles, hs.head]
  exact hs.walk_eq hes hs.length_le_size

theorem cell_eq (hs : s.Represents es) {e : Entry} (he : e ∈ es) :
    s.slots[e.1]?.map Slot.cell = some e.2 := by
  obtain ⟨before, after, rfl⟩ := List.append_of_mem he
  rw [hs.linked before e.1 e.2 after rfl]
  rfl

theorem filterMap_cell {α : Type} (hs : s.Represents es) (f : Cell → Option α) {fs : List Entry}
    (hfs : fs ⊆ es) :
    (handlesOf fs).filterMap (fun h ↦ (s.slots[h]?.map Slot.cell).bind f)
      = fs.filterMap fun e ↦ f e.2 := by
  induction fs with
  | nil => rfl
  | cons e fs ih =>
    obtain ⟨he, hfs⟩ := List.cons_subset.mp hfs
    rw [handlesOf_cons, List.filterMap_cons, List.filterMap_cons, hs.cell_eq he, ih hfs]
    rfl

/-- **The cells of a sequence are those of the list it represents.** -/
theorem cells_eq (hs : s.Represents es) : s.cells = es.map Prod.snd := by
  have hcells := hs.filterMap_cell some (List.Subset.refl es)
  rw [cells, hs.handles_eq, ← List.filterMap_eq_map]
  simpa using hcells

end Represents

end Sequence

end Calculator
