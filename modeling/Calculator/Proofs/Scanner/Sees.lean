import Calculator.Scanner.Progress

/-!
# What a scanner sees

A scanner as two lists: the items it has accepted, which are its view, and the items ahead. Every
action of a rule takes items from the front of one to the back of the other, or puts them back, and
how much of the source lies in the buffer does not matter. The place of the view in the source moves
only when the view is forgotten, and then by as many items as it has.
-/

namespace Calculator.Scanner

variable {α : Type} {s t : Scanner α} {origin : Nat} {accepted more ahead : List α} {item : α}
  {condition : α → Bool}

/-- The scanner has accepted some items from a place of the source on, and has others ahead. -/
structure Sees (s : Scanner α) (origin : Nat) (accepted ahead : List α) : Prop where
  offset : s.offset = origin
  rest : s.rest = accepted ++ ahead
  cursor : s.cursor = accepted.length
  length_le : accepted.length ≤ s.buffer.size

/-- The next item of the source is in the buffer once it is asked for. -/
theorem getElem?_fill (s : Scanner α) (i : Nat) : (s.fill (i + 1)).buffer[i]? = s.rest[i]? := by
  have hrest := rest_fill s (i + 1)
  rw [← hrest, rest, ← Array.getElem?_toList]
  by_cases hi : i < (s.fill (i + 1)).buffer.toList.length
  · rw [List.getElem?_append_left hi]
  · -- Filling stops short of the item only at the end of the source.
    have hunread : (s.fill (i + 1)).unread = [] := by
      simp only [fill, Array.toList_appendList, List.length_append, Array.length_toList,
        List.length_take, List.drop_eq_nil_iff] at hi ⊢
      omega
    rw [hunread, List.append_nil]

/-- What stepping on stops at does not satisfy the condition. -/
theorem not_of_mem_head?_dropWhile (h : item ∈ (ahead.dropWhile condition).head?) :
    ¬ condition item := by
  have hhead := List.head?_dropWhile_not condition ahead
  rw [h] at hhead
  simpa using hhead

theorem skipWhile_of_some (h : acceptIf condition s = (some item, t)) (advanced : Bool) :
    skipWhile condition advanced s = skipWhile condition true t := by
  rw [skipWhile]
  split
  · next h' =>
    rw [h] at h'
    cases h'
    rfl
  · next h' =>
    rw [h] at h'
    cases h'

theorem skipWhile_of_none (h : acceptIf condition s = (none, t)) (advanced : Bool) :
    skipWhile condition advanced s = (advanced, t) := by
  rw [skipWhile]
  split
  · next h' =>
    rw [h] at h'
    cases h'
  · next h' =>
    rw [h] at h'
    cases h'
    rfl

namespace Sees

theorem start (h : s.cursor = 0) : s.Sees s.offset [] s.rest := ⟨rfl, rfl, h, Nat.zero_le _⟩

/-- Going back to an earlier place puts items back. -/
theorem moveTo (h : t.Sees origin (accepted ++ more) ahead) :
    (t.moveTo accepted.length).Sees origin accepted (more ++ ahead) where
  offset := h.offset
  rest := by rw [rest_moveTo, h.rest, List.append_assoc]
  cursor := rfl
  length_le := by
    have hle := h.length_le
    rw [List.length_append] at hle
    exact Nat.le_trans (Nat.le_add_right _ _) hle

theorem next_fst (h : s.Sees origin accepted ahead) : (next s).1 = ahead.head? := by
  have hfst : (next s).1 = (s.fill (s.cursor + 1)).buffer[s.cursor]? := rfl
  rw [hfst, getElem?_fill, h.rest, h.cursor, List.getElem?_append_right (Nat.le_refl _),
    Nat.sub_self, List.head?_eq_getElem?]

theorem next_cons (h : s.Sees origin accepted (item :: ahead)) :
    (next s).2.Sees origin (accepted ++ [item]) ahead := by
  have hfst : (next s).1 = some item := h.next_fst
  obtain ⟨hlt, -⟩ := Array.getElem?_eq_some_iff.mp (show (next s).2.buffer[s.cursor]? = _ from hfst)
  refine ⟨h.offset, ?_, ?_, ?_⟩
  · rw [rest_next, h.rest, List.append_assoc, List.singleton_append]
  · rw [(cursor_next_of_some hfst).1, h.cursor, List.length_append, List.length_singleton]
  · rw [List.length_append, List.length_singleton, ← h.cursor]
    exact hlt

theorem moveTo_next (h : s.Sees origin accepted ahead) :
    ((next s).2.moveTo s.cursor).Sees origin accepted ahead where
  offset := h.offset
  rest := by rw [rest_moveTo, rest_next, h.rest]
  cursor := h.cursor
  length_le := Nat.le_trans h.length_le (size_le_next s)

/-! ## Stepping on under a condition -/

theorem acceptIf_some (h : s.Sees origin accepted (item :: ahead)) (condition : α → Bool)
    (hitem : condition item) :
    ∃ t, acceptIf condition s = (some item, t) ∧ t.Sees origin (accepted ++ [item]) ahead := by
  refine ⟨(next s).2, ?_, h.next_cons⟩
  have hnext : next s = (some item, (next s).2) := Prod.ext h.next_fst rfl
  rw [acceptIf, hnext]
  exact if_pos hitem

private theorem acceptIf_none (h : s.Sees origin accepted ahead) (condition : α → Bool)
    (hahead : ∀ item ∈ ahead.head?, ¬ condition item) :
    ∃ t, acceptIf condition s = (none, t) ∧ t.Sees origin accepted ahead := by
  refine ⟨(next s).2.moveTo s.cursor, ?_, h.moveTo_next⟩
  have hnext : next s = (ahead.head?, (next s).2) := Prod.ext h.next_fst rfl
  rw [acceptIf, hnext]
  cases hhead : ahead.head? with
  | none => rfl
  | some item => exact if_neg (hahead item hhead)

theorem acceptIf_cases (h : s.Sees origin accepted ahead) (condition : α → Bool) :
    (∃ item behind t, ahead = item :: behind ∧ condition item ∧
        acceptIf condition s = (some item, t) ∧ t.Sees origin (accepted ++ [item]) behind) ∨
      ∃ t, (∀ item ∈ ahead.head?, ¬ condition item) ∧ acceptIf condition s = (none, t) ∧
        t.Sees origin accepted ahead := by
  cases ahead with
  | nil =>
    have hnone : ∀ item ∈ ([] : List α).head?, ¬ condition item := by rintro _ ⟨⟩
    obtain ⟨t, haccept, ht⟩ := h.acceptIf_none condition hnone
    exact .inr ⟨t, hnone, haccept, ht⟩
  | cons item behind =>
    by_cases hitem : condition item
    · obtain ⟨t, haccept, ht⟩ := h.acceptIf_some condition hitem
      exact .inl ⟨item, behind, t, rfl, hitem, haccept, ht⟩
    · have hnone : ∀ item' ∈ (item :: behind).head?, ¬ condition item' := by simpa using hitem
      obtain ⟨t, haccept, ht⟩ := h.acceptIf_none condition hnone
      exact .inr ⟨t, hnone, haccept, ht⟩

/-- Stepping on under a condition takes all items at the front that satisfy it. -/
theorem skipWhile (h : s.Sees origin accepted ahead) (condition : α → Bool) (advanced : Bool) :
    ∃ t, Scanner.skipWhile condition advanced s
        = (advanced || !(ahead.takeWhile condition).isEmpty, t) ∧
      t.Sees origin (accepted ++ ahead.takeWhile condition) (ahead.dropWhile condition) := by
  induction ahead generalizing s accepted advanced with
  | nil =>
    obtain ⟨t, haccept, ht⟩ := h.acceptIf_none condition (by rintro _ ⟨⟩)
    refine ⟨t, ?_, by simpa using ht⟩
    rw [skipWhile_of_none haccept]
    simp
  | cons item ahead ih =>
    by_cases hitem : condition item
    · obtain ⟨t, haccept, ht⟩ := h.acceptIf_some condition hitem
      obtain ⟨u, hskip, hu⟩ := ih ht true
      rw [List.append_assoc, List.singleton_append] at hu
      rw [List.takeWhile_cons_of_pos hitem, List.dropWhile_cons_of_pos hitem]
      refine ⟨u, ?_, hu⟩
      rw [skipWhile_of_some haccept, hskip]
      simp
    · obtain ⟨t, haccept, ht⟩ := h.acceptIf_none condition (by simpa using hitem)
      rw [List.takeWhile_cons_of_neg hitem, List.dropWhile_cons_of_neg hitem]
      refine ⟨t, ?_, by simpa using ht⟩
      rw [skipWhile_of_none haccept]
      simp

/-! ## Forgetting -/

theorem view (h : s.Sees origin accepted ahead) : s.view = accepted := by
  have hlength : accepted.length ≤ s.buffer.toList.length := by simpa using h.length_le
  have htake := congrArg (List.take accepted.length) h.rest
  rw [List.take_left' rfl, Scanner.rest, List.take_append_of_le_length hlength] at htake
  rw [Scanner.view, h.cursor, htake]

theorem ignore (h : s.Sees origin accepted ahead) :
    (Scanner.ignore s).2.Sees (origin + accepted.length) [] ahead where
  offset := by
    have hoffset : (Scanner.ignore s).2.offset = s.offset + min s.cursor s.buffer.size := rfl
    rw [hoffset, h.offset, h.cursor, Nat.min_eq_left h.length_le]
  rest := by rw [rest_ignore, h.rest, h.cursor, Nat.min_eq_left h.length_le, List.drop_left' rfl,
    List.nil_append]
  cursor := rfl
  length_le := Nat.zero_le _

end Sees

end Calculator.Scanner
