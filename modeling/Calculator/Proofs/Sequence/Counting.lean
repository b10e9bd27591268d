import Calculator.Proofs.Sequence.Links

/-!
# Where the length is the number of cells

The length of a sequence is a counter of its own. Edits beside cells that were taken out can part it
from the cells that the head leads to, and then a removal at such a cell changes something, although
the cell is out. Here is told of every edit whether it keeps the two together, and so of which runs
of edits it can be said that the counter is right all along.

## A new cell belongs to what the head leads to

The counter is raised by every insertion, so the new cell has to be one that the head leads to. At
the end this depends on the tail, which may be out of the sequence itself. In front of a cell that
is out a new cell becomes the head, and brings that cell back; everything else goes out. The counter
is right after that only if there was exactly one cell to go out, and then the tail stays behind.

## All but the tail

What the head leads to does not depend on the tail. So the invariant is that the sequence represents
a list once its tail is put right, and that a wrong tail is a cell that is out.
-/

namespace Calculator

namespace Sequence

variable {s s' : Sequence} {es before after : List Entry} {h t k : Handle} {cell c : Cell}
  {tail : Option Handle} {e : Edit} {edits : List Edit}

/-! ## What is to be counted -/

/-- The length is the number of cells from the head on, to remove any other cell changes nothing,
and a length of zero is not lowered. With as many slots as 64 bits can count a length of zero might
stand for that many cells. -/
structure CountsHonestly (s : Sequence) : Prop where
  length : s.length = UInt64.ofNat s.handles.length
  remove : ∀ h, h ∉ s.handles → s.remove h = s
  pos : s.slots.size < UInt64.size → ∀ h, s.remove h ≠ s → 0 < s.length

/-- Whether an edit leaves the length the number of cells. -/
def KeepsCount (s : Sequence) : Edit → Prop
  | .pushBack _ => s.tail = s.handles.getLast?
  | .insertAfter h _ => h ∈ s.handles
  | .insertBefore h _ => h ∈ s.handles ∨ s.handles.length = 1
  | .pushFront _ | .set _ _ | .remove _ => True

/-- Whether each of some edits does when its turn comes. -/
def KeepsCountAll : Sequence → List Edit → Prop
  | _, [] => True
  | s, e :: edits => s.KeepsCount e ∧ KeepsCountAll (e.apply s) edits

/-! ## Lists and links -/

theorem lastOf_eq (es : List Entry) : lastOf es = (handlesOf es).getLast? := List.getLast?_map.symm

/-- A cell may be changed whether or not it is in the list. -/
theorem Represents.exists_set (hs : s.Represents es) (h : Handle) (cell : Cell) :
    ∃ es', handlesOf es' = handlesOf es ∧ (s.set h cell).Represents es' := by
  by_cases hh : h ∈ handlesOf es
  · obtain ⟨before, old, after, rfl⟩ := exists_split_of_mem hh
    exact ⟨_, by simp, hs.set cell⟩
  refine ⟨es, rfl, hs.nodup, fun before k c after hes ↦ ?_, fun k hk hnot ↦ ?_, hs.head, hs.tail,
    hs.length⟩
  · have hne : h ≠ k := by
      rintro rfl
      simp [hes] at hh
    simpa [Sequence.set, Array.getElem?_modify, hne] using hs.linked before k c after hes
  · rw [size_set] at hk
    obtain ⟨c, hc⟩ := hs.unlinked k hk hnot
    by_cases hne : h = k
    · exact ⟨cell, by simp [Sequence.set, Array.getElem?_modify, hne, hc]⟩
    · exact ⟨c, by simp [Sequence.set, Array.getElem?_modify, hne, hc]⟩

private theorem walk_succ (s : Sequence) (limit : Nat) (h : Handle) :
    s.walk (limit + 1) (some h) = h :: s.walk limit (s.nextOf h) := rfl

private theorem walk_none (s : Sequence) (limit : Nat) :
    s.walk limit none = [] := by cases limit <;> rfl

/-- Where each entry links to the one behind it, a walk from the first one meets them all. -/
theorem walk_eq_of_nextOf {limit : Nat} (hlimit : es.length ≤ limit)
    (hnext : ∀ before e after, es = before ++ e :: after → s.nextOf e.1 = firstOf after) :
    s.walk limit (firstOf es) = handlesOf es := by
  induction es generalizing limit with
  | nil => exact walk_none s limit
  | cons e es ih =>
    obtain ⟨limit, rfl⟩ := Nat.exists_eq_add_one.mpr (Nat.lt_of_lt_of_le (Nat.succ_pos _) hlimit)
    have hrest := ih (Nat.le_of_succ_le_succ hlimit) fun before e' after hes ↦
      hnext (e :: before) e' after (congrArg (e :: ·) hes)
    rw [firstOf_cons, walk_succ, hnext [] e es rfl, hrest]
    rfl

/-! ## The tail apart -/

/-- The sequence with another tail. -/
def withTail (s : Sequence) (tail : Option Handle) : Sequence := { s with tail }

private theorem walk_withTail (limit : Nat) (place : Option Handle) :
    (s.withTail tail).walk limit place = s.walk limit place := by
  induction limit generalizing place with
  | zero => cases place <;> rfl
  | succ limit ih =>
    cases place with
    | none => rfl
    | some h => exact congrArg (h :: ·) (ih _)

private theorem handles_withTail : (s.withTail tail).handles = s.handles := walk_withTail _ _

private theorem insert_withTail (previous next : Option Handle) :
    (s.withTail tail).insert cell previous next
      = (s.insert cell previous next).withTail
        ((s.withTail tail).insert cell previous next).tail := by
  cases previous <;> cases next <;> rfl

private theorem remove_withTail :
    (s.withTail tail).remove h = (s.remove h).withTail ((s.withTail tail).remove h).tail := by
  have hslots : (s.withTail tail).slots = s.slots := rfl
  have hunlinked (slot : Slot) : (s.withTail tail).isUnlinked h slot = s.isUnlinked h slot := rfl
  rw [remove, remove, hslots]
  cases s.slots[h]? with
  | none => rfl
  | some slot =>
    simp only [hunlinked]
    cases s.isUnlinked h slot
    · obtain ⟨_, _ | _, _ | _⟩ := slot <;> rfl
    · rfl

theorem Represents.withTail (hs : s'.Represents es) (h : s' = s.withTail s'.tail) :
    (s.withTail (lastOf es)).Represents es := by
  rw [← hs.tail, ← h]
  exact hs

theorem length_insert (s : Sequence) (cell : Cell) (previous next : Option Handle) :
    (s.insert cell previous next).length = s.length + 1 := by
  rw [insert, length_linkPrevious, length_linkNext]

private theorem remove_ne_of_isLinked {slot : Slot} (hslot : s.slots[h]? = some slot)
    (hlinked : s.isUnlinked h slot = false) : s.remove h ≠ s := by
  intro hsame
  have hlength := congrArg Sequence.length hsame
  rw [remove_of_isLinked hslot hlinked] at hlength
  grind

private theorem remove_ne_of_nextOf {n : Handle} (hn : s.nextOf h = some n) : s.remove h ≠ s := by
  obtain ⟨slot, hslot, hnext⟩ := Option.bind_eq_some_iff.mp hn
  exact remove_ne_of_isLinked hslot (by simp [isUnlinked, hnext])

/-- The head leads to the entries, and only what it leads to has links. The tail is the last of the
entries or a cell that is out. -/
structure Leads (s : Sequence) (es : List Entry) : Prop where
  represents : (s.withTail (lastOf es)).Represents es
  tail : s.tail = lastOf es ∨ ∃ t, s.tail = some t ∧ t < s.slots.size ∧ t ∉ handlesOf es

private theorem leads_empty : empty.Leads [] := ⟨represents_empty, .inl rfl⟩

namespace Leads

theorem handles_eq (hs : s.Leads es) : s.handles = handlesOf es :=
  handles_withTail.symm.trans hs.represents.handles_eq

theorem unlinked (hs : s.Leads es) (hlt : h < s.slots.size) (hh : h ∉ handlesOf es) :
    ∃ c, s.slots[h]? = some ⟨c, none, none⟩ := hs.represents.unlinked h hlt hh

theorem linked (hs : s.Leads (before ++ (h, cell) :: after)) :
    s.slots[h]? = some ⟨cell, lastOf before, firstOf after⟩ :=
  hs.represents.linked before h cell after rfl

theorem remove_of_not_mem (hs : s.Leads es) (hh : h ∉ handlesOf es) : s.remove h = s := by
  rcases s.remove_cases h with hsame | ⟨slot, hslot, hlinked⟩
  · exact hsame
  · exact absurd (hs.represents.remove_of_not_mem hh) (remove_ne_of_isLinked hslot hlinked)

theorem length_eq (hs : s.Leads es) : s.length = UInt64.ofNat es.length := hs.represents.length

/-- Where the head leads to all cells that have links, the counter is right. -/
theorem countsHonestly (hs : s.Leads es) : s.CountsHonestly where
  length := by
    rw [hs.handles_eq, handlesOf, List.length_map]
    exact hs.length_eq
  remove h hh := hs.remove_of_not_mem (hs.handles_eq ▸ hh)
  pos hsize h hremove := by
    have hmem : h ∈ handlesOf es := by
      by_contra hnot
      exact hremove (hs.remove_of_not_mem hnot)
    exact hs.represents.length_pos hmem hsize

/-! ## Edits that keep the count -/

/-- A new cell among the entries. -/
theorem insert (hs : s.Leads (before ++ after)) (cell : Cell) :
    (s.insert cell (lastOf before) (firstOf after)).Leads
      (before ++ (s.slots.size, cell) :: after) where
  represents := (hs.represents.insert cell).withTail (insert_withTail _ _)
  tail := by
    rw [tail_insert, size_insert]
    cases after with
    | nil => exact .inl (by simp)
    | cons e after =>
      rw [firstOf_cons, if_neg (Option.some_ne_none e.1)]
      rcases hs.tail with htail | ⟨t, htail, hlt, hnot⟩
      · exact .inl (htail.trans (by simp))
      · have hne := Nat.ne_of_lt hlt
        exact .inr ⟨t, htail, Nat.lt_succ_of_lt hlt, by simp_all⟩

theorem remove (hs : s.Leads (before ++ (h, cell) :: after)) :
    (s.remove h).Leads (before ++ after) where
  represents := hs.represents.remove.withTail remove_withTail
  tail := by
    rw [tail_remove hs.linked hs.represents.not_isUnlinked, nextOf_of_slot hs.linked,
      previousOf_of_slot hs.linked, size_remove]
    cases after with
    | nil => exact .inl (by simp)
    | cons e after =>
      rw [firstOf_cons, if_neg (Option.some_ne_none e.1)]
      rcases hs.tail with htail | ⟨t, htail, hlt, hnot⟩
      · exact .inl (htail.trans (by simp))
      · exact .inr ⟨t, htail, hlt, by simp_all⟩

/-- Any cell may be changed, also one that is out. -/
theorem set (hs : s.Leads es) (h : Handle) (cell : Cell) : ∃ es', (s.set h cell).Leads es' := by
  obtain ⟨es', hhandles, hset⟩ := hs.represents.exists_set h cell
  refine ⟨es', hset.withTail rfl, ?_⟩
  rw [lastOf_eq, hhandles, ← lastOf_eq, size_set]
  exact hs.tail

/-- A new cell in front of one that is out, where there is one cell to go out. The tail stays, and
is out unless it was the cell that came in. -/
theorem insertBefore_stray (hs : s.Leads [(k, c)]) (hlt : h < s.slots.size) (hne : h ≠ k) :
    ∃ es', (s.insertBefore h cell).Leads es' := by
  obtain ⟨c', hslot⟩ := hs.unlinked hlt (by simpa using hne)
  have hk : s.slots[k]? = some ⟨c, none, none⟩ := hs.represents.linked [] k c [] rfl
  have hback : ({ s with head := some h, tail := some h, length := 1 } : Sequence).Represents
      ([] ++ [(h, c')]) := by
    refine ⟨List.nodup_singleton h, fun before j cell after hsplit ↦ ?_, fun j hj hnot ↦ ?_, rfl,
      rfl, rfl⟩
    · rcases split_cons hsplit with ⟨mid, hnil, -⟩ | ⟨rfl, hentry, rfl⟩ | ⟨mid, hnil, -⟩
      · exact absurd hnil (by simp)
      · cases hentry
        exact hslot
      · exact absurd hnil (by simp)
    · by_cases hjk : j = k
      · exact ⟨c, hjk ▸ hk⟩
      · exact hs.unlinked hj (by simpa using hjk)
  have hlength : s.length = 1 := hs.length_eq
  have hprevious : s.slots[h]?.bind Slot.previous = none := by rw [hslot]; rfl
  rw [insertBefore, hprevious]
  refine ⟨_, (hback.insert cell).withTail ?_, ?_⟩
  · simp [Sequence.insert, linkNext, linkPrevious, withTail, hlength]
  · rw [tail_insert, if_neg (Option.some_ne_none h), size_insert]
    rcases hs.tail with htail | ⟨t, htail, hlt', hnot⟩
    · have hklt : k < s.slots.size := (Array.getElem?_eq_some_iff.mp hk).1
      exact .inr ⟨k, htail, Nat.lt_succ_of_lt hklt, by simp [Nat.ne_of_lt hklt, Ne.symm hne]⟩
    · by_cases hth : t = h
      · exact .inl (by simp [htail, hth])
      · exact .inr ⟨t, htail, Nat.lt_succ_of_lt hlt', by simp [Nat.ne_of_lt hlt', hth]⟩

/-- **An edit that keeps the count** leads to entries again. -/
theorem apply (hs : s.Leads es) (he : ∀ h ∈ e.target?, h < s.slots.size)
    (hkeeps : s.KeepsCount e) : ∃ es', (e.apply s).Leads es' := by
  cases e with
  | pushBack cell =>
    have htail : s.tail = lastOf es := by
      rw [lastOf_eq, ← hs.handles_eq]
      exact hkeeps
    have hs' : s.Leads (es ++ []) := by rwa [List.append_nil]
    rw [Edit.apply, pushBack, htail]
    exact ⟨_, hs'.insert cell⟩
  | pushFront cell =>
    have hhead : s.head = firstOf es := hs.represents.head
    have hs' : s.Leads ([] ++ es) := hs
    rw [Edit.apply, pushFront, hhead]
    exact ⟨_, hs'.insert cell⟩
  | insertAfter h cell =>
    have hmem : h ∈ handlesOf es := hs.handles_eq ▸ hkeeps
    obtain ⟨before, c, after, rfl⟩ := exists_split_of_mem hmem
    have hs' : s.Leads ((before ++ [(h, c)]) ++ after) := by rwa [← List.append_cons]
    have hinsert := hs'.insert cell
    have hlast : lastOf (before ++ [(h, c)]) = some h := by simp
    rw [hlast] at hinsert
    rw [Edit.apply, insertAfter, hs.linked]
    exact ⟨_, hinsert⟩
  | insertBefore h cell =>
    by_cases hmem : h ∈ handlesOf es
    · obtain ⟨before, c, after, rfl⟩ := exists_split_of_mem hmem
      rw [Edit.apply, insertBefore, hs.linked]
      exact ⟨_, hs.insert cell⟩
    · have hone : s.handles.length = 1 := hkeeps.resolve_left (hs.handles_eq ▸ hmem)
      rw [hs.handles_eq, handlesOf, List.length_map] at hone
      obtain ⟨⟨k, c⟩, rfl⟩ := List.length_eq_one_iff.mp hone
      exact hs.insertBefore_stray (he h rfl) (by simpa using hmem)
  | set h cell => exact hs.set h cell
  | remove h =>
    rw [Edit.apply]
    by_cases hmem : h ∈ handlesOf es
    · obtain ⟨before, c, after, rfl⟩ := exists_split_of_mem hmem
      exact ⟨_, hs.remove⟩
    · rw [hs.remove_of_not_mem hmem]
      exact ⟨es, hs⟩

/-! ## Edits that do not -/

theorem isGap_behind (hs : s.Leads es) (ht : t ∉ handlesOf es) (hlt : t < s.slots.size) :
    s.IsGap (some t) none where
  left := by
    rintro _ ⟨⟩
    obtain ⟨c, hslot⟩ := hs.unlinked hlt ht
    exact ⟨hlt, nextOf_of_slot hslot⟩
  right := by rintro _ ⟨⟩

theorem isGap_before (hs : s.Leads es) (ht : t ∉ handlesOf es) (hlt : t < s.slots.size) :
    s.IsGap none (some t) where
  left := by rintro _ ⟨⟩
  right := by
    rintro _ ⟨⟩
    obtain ⟨c, hslot⟩ := hs.unlinked hlt ht
    exact ⟨hlt, previousOf_of_slot hslot⟩

theorem insertBefore_eq (hs : s.Leads es) (ht : t ∉ handlesOf es) (hlt : t < s.slots.size)
    (cell : Cell) : s.insertBefore t cell = s.insert cell none (some t) := by
  obtain ⟨c, hslot⟩ := hs.unlinked hlt ht
  rw [insertBefore, hslot]
  rfl

theorem insertAfter_eq (hs : s.Leads es) (ht : t ∉ handlesOf es) (hlt : t < s.slots.size)
    (cell : Cell) : s.insertAfter t cell = s.insert cell (some t) none := by
  obtain ⟨c, hslot⟩ := hs.unlinked hlt ht
  rw [insertAfter, hslot]
  rfl

/-- A new cell behind one that is out is out as well, but it is counted. -/
theorem not_countsHonestly_behind (hs : s.Leads es) (ht : t ∉ handlesOf es)
    (hlt : t < s.slots.size) : ¬ (s.insert cell (some t) none).CountsHonestly := by
  intro hhonest
  have hnextOf := (hs.isGap_behind ht hlt).nextOf_insert cell
  have hhead : (s.insert cell (some t) none).head = firstOf es := by
    rw [head_insert, if_neg (Option.some_ne_none t)]
    exact hs.represents.head
  have hhandles : (s.insert cell (some t) none).handles = handlesOf es := by
    rw [handles, hhead, size_insert]
    refine walk_eq_of_nextOf (Nat.le_succ_of_le hs.represents.length_le_size) ?_
    rintro before ⟨k, c⟩ after rfl
    have hk : k ≠ s.slots.size := Nat.ne_of_lt (hs.represents.lt_size (by simp))
    have htk : some t ≠ some k := by
      rintro ⟨⟩
      simp at ht
    rw [hnextOf, if_neg hk, if_neg htk, nextOf_of_slot hs.linked]
  have hlength := hhonest.length
  rw [hhandles, handlesOf, List.length_map, length_insert, hs.length_eq] at hlength
  grind

/-- In front of a cell that is out a new cell is the first of two, whatever was in before. If
nothing was, the length is one; if there were more, the first of them is out but has a link. -/
theorem not_countsHonestly_before (hs : s.Leads es) (ht : t ∉ handlesOf es)
    (hlt : t < s.slots.size) (hone : es.length ≠ 1) :
    ¬ (s.insert cell none (some t)).CountsHonestly := by
  intro hhonest
  have hnextOf := (hs.isGap_before ht hlt).nextOf_insert cell
  have hne := Nat.ne_of_lt hlt
  have hnew : (s.insert cell none (some t)).nextOf s.slots.size = some t := by
    rw [hnextOf, if_pos rfl]
  have hold : (s.insert cell none (some t)).nextOf t = none := by
    obtain ⟨c, hslot⟩ := hs.unlinked hlt ht
    rw [hnextOf, if_neg hne, if_neg (Option.some_ne_none t).symm, nextOf_of_slot hslot]
  have hlast (limit : Nat) (hpos : 0 < limit) :
      (s.insert cell none (some t)).walk limit (some t) = [t] := by
    obtain ⟨limit, rfl⟩ := Nat.exists_eq_add_one.mpr hpos
    rw [walk_succ, hold, walk_none]
  have hhandles : (s.insert cell none (some t)).handles = [s.slots.size, t] := by
    rw [handles, head_insert, if_pos rfl, size_insert, walk_succ, hnew,
      hlast _ (Nat.zero_lt_of_lt hlt)]
  obtain _ | ⟨⟨a, ca⟩, _ | ⟨⟨b, cb⟩, rest⟩⟩ := es
  · have hlength := hhonest.length
    rw [hhandles, length_insert, hs.length_eq] at hlength
    have htwo : (1 : UInt64) = 2 := hlength
    exact absurd htwo (by decide)
  · exact hone rfl
  · have ha : a ≠ s.slots.size := Nat.ne_of_lt (hs.represents.lt_size (by simp))
    have hat : t ≠ a ∧ some t ≠ some a := by simp_all
    have hnext : (s.insert cell none (some t)).nextOf a = some b := by
      rw [hnextOf, if_neg ha, if_neg (Option.some_ne_none a).symm]
      exact nextOf_of_slot (hs.represents.linked [] a ca _ rfl)
    refine remove_ne_of_nextOf hnext (hhonest.remove a ?_)
    rw [hhandles]
    simp [ha, Ne.symm hat.1]

/-- **An edit that does not keep the count** makes it wrong at once. -/
theorem not_countsHonestly (hs : s.Leads es) (he : ∀ h ∈ e.target?, h < s.slots.size)
    (hkeeps : ¬ s.KeepsCount e) : ¬ (e.apply s).CountsHonestly := by
  cases e with
  | pushBack cell =>
    rcases hs.tail with htail | ⟨t, htail, hlt, hnot⟩
    · refine absurd ?_ hkeeps
      rw [KeepsCount, htail, lastOf_eq, hs.handles_eq]
    · rw [Edit.apply, pushBack, htail]
      exact hs.not_countsHonestly_behind hnot hlt
  | insertAfter h cell =>
    have hnot : h ∉ handlesOf es := hs.handles_eq ▸ hkeeps
    rw [Edit.apply, hs.insertAfter_eq hnot (he h rfl)]
    exact hs.not_countsHonestly_behind hnot (he h rfl)
  | insertBefore h cell =>
    obtain ⟨hmem, hone⟩ := not_or.mp hkeeps
    rw [hs.handles_eq] at hmem hone
    rw [handlesOf, List.length_map] at hone
    rw [Edit.apply, hs.insertBefore_eq hmem (he h rfl)]
    exact hs.not_countsHonestly_before hmem (he h rfl) hone
  | _ => exact absurd trivial hkeeps

/-! ## Runs of edits -/

theorem countsHonestly_iff (hs : s.Leads es) (hedits : NamesGiven s.slots.size edits) :
    (∀ earlier, earlier <+: edits → (s.replay earlier).CountsHonestly) ↔ s.KeepsCountAll edits := by
  induction edits generalizing s es with
  | nil =>
    refine iff_of_true (fun earlier hearlier ↦ ?_) trivial
    rw [List.prefix_nil.mp hearlier]
    exact hs.countsHonestly
  | cons e edits ih =>
    obtain ⟨he, hedits⟩ := hedits
    rw [← size_apply] at hedits
    by_cases hkeeps : s.KeepsCount e
    · obtain ⟨es', hs'⟩ := hs.apply he hkeeps
      rw [forall_prefix_cons, KeepsCountAll, ← ih hs' hedits]
      exact and_congr_left' (iff_of_true hs.countsHonestly hkeeps)
    · refine iff_of_false (fun hall ↦ ?_) fun hall ↦ hkeeps hall.1
      exact hs.not_countsHonestly he hkeeps (hall [e] (List.prefix_append [e] edits))

end Leads

theorem performAll_eq (hedits : NamesGiven s.slots.size edits) :
    s.performAll edits
      = .ok (List.range' s.slots.size (edits.countP Edit.isInsertion), s.replay edits) := by
  induction edits generalizing s with
  | nil => rfl
  | cons e edits ih =>
    obtain ⟨he, hedits⟩ := hedits
    rw [← size_apply] at hedits
    exact performAll_cons he (ih hedits)

instance (s : Sequence) : (e : Edit) → Decidable (s.KeepsCount e)
  | .pushBack _ => inferInstanceAs (Decidable (s.tail = s.handles.getLast?))
  | .insertAfter h _ => inferInstanceAs (Decidable (h ∈ s.handles))
  | .insertBefore h _ => inferInstanceAs (Decidable (h ∈ s.handles ∨ s.handles.length = 1))
  | .pushFront _ | .set _ _ | .remove _ => .isTrue trivial

instance decidableKeepsCountAll : (s : Sequence) → (edits : List Edit) →
    Decidable (s.KeepsCountAll edits)
  | _, [] => .isTrue trivial
  | s, e :: edits =>
    have := decidableKeepsCountAll (e.apply s) edits
    inferInstanceAs (Decidable (_ ∧ _))

/-- **The counter is right all along just where every edit keeps it.** A run of edits at handles
that were given out succeeds. After each of them the length is the number of cells from the head on
and no other cell can be removed, if and only if each new cell was put in at a place that the head
leads to, or in front of a cell that was out while there was one cell in. -/
theorem counts_along_run_iff (edits : List Edit) (h : NamesGiven 0 edits) :
    empty.performAll edits
        = .ok (List.range (edits.countP Edit.isInsertion), empty.replay edits) ∧
      ((∀ earlier, earlier <+: edits → (empty.replay earlier).CountsHonestly) ↔
        empty.KeepsCountAll edits) := by
  refine ⟨?_, leads_empty.countsHonestly_iff h⟩
  rw [List.range_eq_range']
  exact performAll_eq h

/-- Edits that keep the count beside a cell that was taken out: in front of it while there is one
cell, which then goes out and stays the tail until there is a new one. -/
def countedEdits : List Edit :=
  [.pushBack (.operator '+'), .pushBack (.operator '-'), .remove 0, .insertBefore 0 (.operator '*'),
    .set 1 (.function "sin"), .remove 1, .pushFront (.operator '/'), .insertAfter 0 (.operator '&'),
    .pushBack (.operator '^')]

theorem counts_along_countedEdits :
    NamesGiven 0 countedEdits ∧
      (∀ earlier, earlier <+: countedEdits → (empty.replay earlier).CountsHonestly) ∧
      (empty.replay countedEdits).handles = [3, 2, 0, 4, 5] := by
  have hnames : NamesGiven 0 countedEdits := by decide
  exact ⟨hnames, (counts_along_run_iff countedEdits hnames).2.mpr (by decide), rfl⟩

/-- A new cell behind one that was taken out, and both of them removed. -/
def miscountedEdits : List Edit :=
  [.pushBack (.operator '+'), .remove 0, .insertAfter 0 (.operator '-'), .remove 0, .remove 1]

/-- With the third edit there is a length, but no cell. The fourth removes a cell that is out, and
makes another one the head. The fifth lowers a length of zero. -/
theorem miscounts_along_miscountedEdits :
    NamesGiven 0 miscountedEdits ∧
      (empty.replay (miscountedEdits.take 3)).handles = [] ∧
      (empty.replay (miscountedEdits.take 3)).length = 1 ∧
      ((empty.replay (miscountedEdits.take 3)).remove 0).head = some 1 ∧
      (empty.replay (miscountedEdits.take 4)).length = 0 ∧
      (empty.replay miscountedEdits).length = 18446744073709551615 := by
  decide

end Sequence

end Calculator
