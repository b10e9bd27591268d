import Calculator.Proofs.Sequence.Represents

/-!
# A sequence is a list

Edits of a linked sequence are edits of a list of cells with handles, as long as insertions and
changes name cells of the list; a removal may name any handle that was given out. After every such
history of edits all that can be seen of the sequence is seen of the list.

## Every edit replaces one entry

Next to an edit's handle the list changes as the name of the edit says, and elsewhere it stays. All
edits at a handle are therefore one function, which replaces the entry with that handle: by itself
and a new one, by another cell, or by nothing. A handle that is not in the list has no entry to
replace, so taking it out once more changes nothing.
-/

namespace Calculator

open Sequence

/-- Cells with their handles, and how many handles were given out. A new cell has that number for a
handle. -/
structure Listing where
  entries : List Entry
  given : Nat

namespace Listing

variable {l : Listing} {e : Edit} {edits : List Edit} {s : Sequence} {es before after : List Entry}
  {h : Handle} {cell : Cell}

/-- The listing without cells, before any handle was given out. -/
def empty : Listing := ⟨[], 0⟩

/-! ## Edits of a list -/

/-- Replaces the entry with a handle, and leaves the others where they are. -/
def replaceAt (h : Handle) (replacement : Entry → List Entry) (es : List Entry) : List Entry :=
  es.flatMap fun e ↦ if e.1 = h then replacement e else [e]

/-- The entries after an edit. -/
def change (l : Listing) : Edit → List Entry
  | .pushBack cell => l.entries ++ [(l.given, cell)]
  | .pushFront cell => (l.given, cell) :: l.entries
  | .insertAfter h cell => replaceAt h (fun e ↦ [e, (l.given, cell)]) l.entries
  | .insertBefore h cell => replaceAt h (fun e ↦ [(l.given, cell), e]) l.entries
  | .set h cell => replaceAt h (fun _ ↦ [(h, cell)]) l.entries
  | .remove h => replaceAt h (fun _ ↦ []) l.entries

/-- The listing after an edit. -/
def next (l : Listing) (e : Edit) : Listing :=
  ⟨l.change e, if e.isInsertion then l.given + 1 else l.given⟩

/-- The listing after edits. -/
def replay (l : Listing) (edits : List Edit) : Listing := edits.foldl next l

/-- Whether an edit may be made: an insertion or a change at a cell that is in the list, a removal
at a handle that was given out. -/
def Permits (l : Listing) : Edit → Prop
  | .pushBack _ | .pushFront _ => True
  | .insertAfter h _ | .insertBefore h _ | .set h _ => h ∈ handlesOf l.entries
  | .remove h => h < l.given

/-- Whether each of some edits may be made when its turn comes. -/
def PermitsAll : Listing → List Edit → Prop
  | _, [] => True
  | l, e :: edits => l.Permits e ∧ (l.next e).PermitsAll edits

instance (l : Listing) : (e : Edit) → Decidable (l.Permits e)
  | .pushBack _ | .pushFront _ => .isTrue trivial
  | .insertAfter h _ | .insertBefore h _ | .set h _ =>
    inferInstanceAs (Decidable (h ∈ handlesOf l.entries))
  | .remove h => inferInstanceAs (Decidable (h < l.given))

instance decidablePermitsAll : (l : Listing) → (edits : List Edit) → Decidable (l.PermitsAll edits)
  | _, [] => .isTrue trivial
  | l, e :: edits =>
    have := decidablePermitsAll (l.next e) edits
    inferInstanceAs (Decidable (_ ∧ _))

/-! ### Replacing an entry -/

theorem replaceAt_of_not_mem (replacement : Entry → List Entry) (hh : h ∉ handlesOf es) :
    replaceAt h replacement es = es := by
  induction es with
  | nil => rfl
  | cons e es ih =>
    rw [handlesOf_cons, List.mem_cons, not_or] at hh
    have hrest : (es.flatMap fun e ↦ if e.1 = h then replacement e else [e]) = es := ih hh.2
    rw [replaceAt, List.flatMap_cons, if_neg (Ne.symm hh.1), hrest]
    rfl

theorem replaceAt_append (replacement : Entry → List Entry) (es fs : List Entry) :
    replaceAt h replacement (es ++ fs)
      = replaceAt h replacement es ++ replaceAt h replacement fs := List.flatMap_append

private theorem replaceAt_split (replacement : Entry → List Entry)
    (hh : h ∉ handlesOf (before ++ after)) :
    replaceAt h replacement (before ++ (h, cell) :: after)
      = before ++ replacement (h, cell) ++ after := by
  rw [handlesOf_append, List.mem_append, not_or] at hh
  have hcons : replaceAt h replacement ((h, cell) :: after)
      = replacement (h, cell) ++ replaceAt h replacement after := by
    rw [replaceAt, List.flatMap_cons, if_pos rfl]
    rfl
  rw [replaceAt_append, hcons, replaceAt_of_not_mem _ hh.1, replaceAt_of_not_mem _ hh.2,
    List.append_assoc]

/-! ## One edit -/

/-- The sequence stands for the listing: it represents the entries, and has a slot for each handle
that was given out. -/
structure IsListed (l : Listing) (s : Sequence) : Prop where
  represents : s.Represents l.entries
  size : s.slots.size = l.given

private theorem isListed_empty : empty.IsListed Sequence.empty := ⟨represents_empty, rfl⟩

namespace IsListed

/-- What an edit at a linked cell makes of a sequence, where the list is split at that cell. -/
theorem replaceAt {s' : Sequence} {replacement : Entry → List Entry} (hs : l.IsListed s)
    (hh : h ∈ handlesOf l.entries)
    (hs' : ∀ before cell after, s.Represents (before ++ (h, cell) :: after) →
      s'.Represents (before ++ replacement (h, cell) ++ after)) :
    s'.Represents (Listing.replaceAt h replacement l.entries) := by
  obtain ⟨before, cell, after, hes⟩ := exists_split_of_mem hh
  have hnot := hs.represents.not_mem_handlesOf hes
  rw [hes, replaceAt_split _ hnot]
  exact hs' before cell after (hes ▸ hs.represents)

theorem represents_apply (hs : l.IsListed s) (he : l.Permits e) :
    (e.apply s).Represents (l.change e) := by
  have hgiven := hs.size.symm
  cases e with
  | pushBack cell =>
    rw [change, hgiven]
    exact hs.represents.pushBack cell
  | pushFront cell =>
    rw [change, hgiven]
    exact hs.represents.pushFront cell
  | insertAfter h cell =>
    refine hs.replaceAt he fun before c after hsplit ↦ ?_
    simpa [Edit.apply, hgiven] using hsplit.insertAfter cell
  | insertBefore h cell =>
    refine hs.replaceAt he fun before c after hsplit ↦ ?_
    simpa [Edit.apply, hgiven] using hsplit.insertBefore cell
  | set h cell =>
    refine hs.replaceAt he fun before c after hsplit ↦ ?_
    simpa [Edit.apply] using hsplit.set cell
  | remove h =>
    by_cases hh : h ∈ handlesOf l.entries
    · refine hs.replaceAt hh fun before c after hsplit ↦ ?_
      simpa [Edit.apply] using hsplit.remove
    · rw [change, replaceAt_of_not_mem _ hh, Edit.apply, hs.represents.remove_of_not_mem hh]
      exact hs.represents

/-- A permitted edit makes of the sequence what it makes of the list. -/
theorem next (hs : l.IsListed s) (he : l.Permits e) : (l.next e).IsListed (e.apply s) where
  represents := hs.represents_apply he
  size := by
    rw [size_apply, hs.size, Listing.next]
    split <;> rfl

/-- A permitted edit names a handle that was given out. -/
theorem target_lt (hs : l.IsListed s) (he : l.Permits e) : ∀ h ∈ e.target?, h < s.slots.size := by
  intro h hh
  cases e with
  | pushBack cell => cases hh
  | pushFront cell => cases hh
  | insertAfter k cell =>
    cases hh
    exact hs.represents.lt_size he
  | insertBefore k cell =>
    cases hh
    exact hs.represents.lt_size he
  | set k cell =>
    cases hh
    exact hs.represents.lt_size he
  | remove k =>
    cases hh
    exact hs.size ▸ he

/-- A permitted edit is done, and a new cell gets the next handle. -/
theorem perform (hs : l.IsListed s) (he : l.Permits e) :
    s.perform e = .ok (if e.isInsertion then some l.given else none, e.apply s) := by
  rw [perform_of_target_lt (hs.target_lt he), hs.size]

end IsListed

end Listing

/-! ## Histories of edits -/

namespace Sequence

/-- Does edits one after the other, up to one that names a handle that was never given out. Answers
the handles of the new cells, in order. -/
def performAll (s : Sequence) : List Edit → Except OutOfRange (List Handle × Sequence)
  | [] => .ok ([], s)
  | e :: edits => do
    let (created, s) ← s.perform e
    let (later, s) ← s.performAll edits
    return (created.toList ++ later, s)

/-- A first edit at a handle that was given out, and the later ones after it. -/
theorem performAll_cons {s s' : Sequence} {e : Edit} {edits : List Edit}
    (he : ∀ h ∈ e.target?, h < s.slots.size)
    (hlater : (e.apply s).performAll edits
      = .ok (List.range' (e.apply s).slots.size (edits.countP Edit.isInsertion), s')) :
    s.performAll (e :: edits)
      = .ok (List.range' s.slots.size ((e :: edits).countP Edit.isInsertion), s') := by
  rw [performAll, perform_of_target_lt he, List.countP_cons]
  simp only [bind, Except.bind, hlater]
  rw [size_apply]
  cases e.isInsertion
  · rfl
  · rfl

/-- All that can be seen of a sequence is that of a list. The length is counted in 64 bits, which is
enough for any number of cells that fit into memory. -/
structure Shows (s : Sequence) (es : List Entry) : Prop where
  cells : s.cells = es.map Prod.snd
  text : s.text = " ".intercalate (es.map fun e ↦ e.2.text)
  handles : s.handles = handlesOf es
  head : s.head = firstOf es
  slot : ∀ before h cell after, es = before ++ (h, cell) :: after →
    s.slot h = .ok ⟨cell, lastOf before, firstOf after⟩
  length : es.length < UInt64.size → s.length.toNat = es.length
  isEmpty : es.length < UInt64.size → s.isEmpty = es.isEmpty

theorem Represents.shows {s : Sequence} {es : List Entry} (hs : s.Represents es) :
    s.Shows es where
  cells := hs.cells_eq
  text := by
    rw [Sequence.text, hs.cells_eq, List.map_map]
    rfl
  handles := hs.handles_eq
  head := hs.head
  slot _ _ _ _ hes := hs.slot_eq hes
  length hcount := by rw [hs.length, UInt64.toNat_ofNat_of_lt' hcount]
  isEmpty hcount := by
    have hlength : s.length.toNat = es.length := by
      rw [hs.length, UInt64.toNat_ofNat_of_lt' hcount]
    have hzero : s.length = 0 ↔ es = [] := by
      rw [← UInt64.toNat_inj, hlength]
      exact List.length_eq_zero_iff
    rw [Bool.eq_iff_iff, Sequence.isEmpty, beq_iff_eq, hzero, List.isEmpty_iff]

end Sequence

namespace Listing

variable {l : Listing} {s : Sequence} {edits : List Edit}

private theorem given_replay (l : Listing) (edits : List Edit) :
    (l.replay edits).given = l.given + edits.countP Edit.isInsertion := by
  induction edits generalizing l with
  | nil => rfl
  | cons e edits ih =>
    have hreplay : l.replay (e :: edits) = (l.next e).replay edits := rfl
    rw [hreplay, ih, next, List.countP_cons]
    cases e.isInsertion
    · rfl
    · exact Nat.add_right_comm ..

theorem IsListed.performAll (hs : l.IsListed s) (hedits : l.PermitsAll edits) :
    ∃ s', s.performAll edits = .ok (List.range' l.given (edits.countP Edit.isInsertion), s') ∧
      (l.replay edits).IsListed s' := by
  induction edits generalizing l s with
  | nil => exact ⟨s, rfl, hs⟩
  | cons e edits ih =>
    obtain ⟨he, hedits⟩ := hedits
    obtain ⟨s', hlater, hs'⟩ := ih (hs.next he) hedits
    rw [← (hs.next he).size] at hlater
    rw [← hs.size]
    exact ⟨s', performAll_cons (hs.target_lt he) hlater, hs'⟩

end Listing

/-- **A sequence is a list.** Every permitted history of edits succeeds and gives out the handles
`0`, `1`, … in turn, so none twice. All that can be seen of the sequence then is that of the list
that the same edits make, and taking out a cell that is out already changes nothing at all. -/
theorem performAll_eq_replay (edits : List Edit) (h : Listing.empty.PermitsAll edits) :
    ∃ s, Sequence.empty.performAll edits
        = .ok (List.range (edits.countP Edit.isInsertion), s) ∧
      s.Shows (Listing.empty.replay edits).entries ∧
      (handlesOf (Listing.empty.replay edits).entries).Nodup ∧
      ∀ k < edits.countP Edit.isInsertion, k ∉ handlesOf (Listing.empty.replay edits).entries →
        s.perform (.remove k) = .ok (none, s) := by
  obtain ⟨s, hok, hs⟩ := Listing.isListed_empty.performAll h
  rw [Listing.empty, ← List.range_eq_range'] at hok
  refine ⟨s, hok, hs.represents.shows, hs.represents.nodup, fun k hk hnot ↦ ?_⟩
  have hgiven : (Listing.empty.replay edits).given = edits.countP Edit.isInsertion := by
    rw [Listing.given_replay]
    exact Nat.zero_add _
  have hpermits : (Listing.empty.replay edits).Permits (.remove k) := by
    rw [← hgiven] at hk
    exact hk
  have hperform := hs.perform hpermits
  rwa [Edit.apply, hs.represents.remove_of_not_mem hnot] at hperform

/-- Edits at both ends and in the middle, with two cells taken out and one of them twice. -/
def listedEdits : List Edit :=
  [.pushBack (.operator '+'), .pushFront (.operator '-'), .pushBack (.function "sin"),
    .insertAfter 0 (.operator '*'), .remove 0, .insertBefore 1 (.operator '/'), .remove 2,
    .remove 0, .set 1 (.function "cos"), .pushBack (.operator '&')]

theorem performAll_listedEdits :
    Listing.empty.PermitsAll listedEdits ∧
      ∃ s, Sequence.empty.performAll listedEdits = .ok ([0, 1, 2, 3, 4, 5], s) ∧
        s.Shows [(4, .operator '/'), (1, .function "cos"), (3, .operator '*'),
          (5, .operator '&')] ∧
        s.perform (.remove 0) = .ok (none, s) := by
  have hpermits : Listing.empty.PermitsAll listedEdits := by decide
  obtain ⟨s, hok, hshows, -, hremoved⟩ := performAll_eq_replay listedEdits hpermits
  exact ⟨hpermits, s, hok, hshows, hremoved 0 (by decide) (by decide)⟩

end Calculator
