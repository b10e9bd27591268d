import Calculator.Proofs.Scanner.Window

/-!
# Looking ahead

A scanner that looks ahead, or that tries to accept and does not, steps on and then takes its cursor
back. Its position and its offset are what they were. The buffer may have grown, and this can be
seen in one case: where the cursor stands one past the buffer although the source has more items,
the item that is read comes to lie under the cursor, as if it had been accepted.

## In reach

Stepping on brings the cursor one past the buffer only at the end of the source, and forgetting puts
it in front of the buffer. So a scanner comes into that case only where its position is set there.
-/

namespace Calculator

namespace Scanner

variable {α : Type} {s t : Scanner α} {condition : α → Bool}

/-! ## Looking -/

/-- A scanner that has looked at the next item. -/
def looked (s : Scanner α) : Scanner α := (next s).2.moveTo s.cursor

/-- Accepting under a condition is a step, or it is a look. -/
private theorem acceptIf_eq_or (condition : α → Bool) (s : Scanner α) :
    (∃ item, acceptIf condition s = (some item, (next s).2)) ∨
      acceptIf condition s = (none, s.looked) := by
  rw [acceptIf, looked]
  rcases next s with ⟨_ | item, t⟩
  · exact .inr rfl
  · by_cases hitem : condition item
    · exact .inl ⟨item, if_pos hitem⟩
    · exact .inr (if_neg hitem)

private theorem acceptIf_snd_of_none (h : (acceptIf condition s).1 = none) :
    (acceptIf condition s).2 = s.looked := by
  rcases acceptIf_eq_or condition s with ⟨item, haccept⟩ | haccept
  · rw [haccept] at h
    cases h
  · rw [haccept]

private theorem skipWhile_true_fst (condition : α → Bool) (s : Scanner α) :
    (skipWhile condition true s).1 = true := by
  generalize hadvanced : true = advanced
  fun_induction skipWhile condition advanced s with
  | case1 advanced s item t _ ih => rw [← hadvanced, ih rfl]
  | case2 advanced s t _ => rfl

/-- Only the first item is looked at where none is skipped. -/
private theorem skipWhile_snd_of_false (h : (skipWhile condition false s).1 = false) :
    (skipWhile condition false s).2 = s.looked := by
  rcases haccept : acceptIf condition s with ⟨_ | item, t⟩
  · rw [skipWhile_of_none haccept, ← acceptIf_snd_of_none (congrArg Prod.fst haccept), haccept]
  · rw [skipWhile_of_some haccept, skipWhile_true_fst] at h
    cases h

/-- Actions that only look ahead: a peek, and attempts at which nothing is accepted. -/
def Action.Looks (s : Scanner Char) : Action → Prop
  | .peek => True
  | .accept c => (Scanner.accept c s).1 = none
  | .acceptAny cs => (Scanner.acceptAny cs s).1 = none
  | .skipAll cs => (Scanner.skipAll cs s).1 = false
  | _ => False

theorem Action.Looks.perform_snd {s : Scanner Char} {action : Action} (h : action.Looks s) :
    (action.perform s).2 = s.looked := by
  cases action with
  | peek => rfl
  | accept c => exact acceptIf_snd_of_none h
  | acceptAny cs => exact acceptIf_snd_of_none h
  | skipAll cs => exact skipWhile_snd_of_false h
  | _ => exact h.elim

/-! ## What a look shows -/

/-- The cursor is not past the buffer, or there are no more items to read. -/
def InReach (s : Scanner α) : Prop := s.cursor ≤ s.buffer.size ∨ s.unread = []

@[simp] theorem cursor_looked (s : Scanner α) : s.looked.cursor = s.cursor := rfl

private theorem buffer_looked (s : Scanner α) :
    s.looked.buffer = s.buffer ++ s.unread.take (s.cursor + 1 - s.buffer.size) := rfl

theorem size_looked (s : Scanner α) :
    s.looked.buffer.size
      = s.buffer.size + min (s.cursor + 1 - s.buffer.size) s.unread.length := by
  rw [buffer_looked, ← Array.length_toList, Array.toList_appendList, List.length_append,
    List.length_take, Array.length_toList]

theorem isSome_current_iff (s : Scanner α) :
    s.current.isSome ↔ 0 < s.cursor ∧ s.cursor ≤ s.buffer.size := by
  rw [current]
  split
  · next h => exact iff_of_false nofun (by omega)
  · next i h =>
    rw [isSome_getElem?, h]
    omega

theorem looked_of_unread_eq_nil (h : s.unread = []) : s.looked = s := by
  obtain ⟨buffer, unread, cursor, offset⟩ := s
  subst h
  simp [looked, next, fill, moveTo]

theorem view_looked_iff (s : Scanner α) : s.looked.view = s.view ↔ InReach s := by
  constructor
  · -- Out of reach the view grows by what is read.
    intro h
    have hlength := congrArg List.length h
    rw [length_view, length_view, size_looked, cursor_looked] at hlength
    rw [InReach, ← List.length_eq_zero_iff]
    omega
  · rintro (hle | hnil)
    · have hle' : s.cursor ≤ s.buffer.toList.length := hle
      rw [view, view, cursor_looked, buffer_looked, Array.toList_appendList,
        List.take_append_of_le_length hle']
    · rw [looked_of_unread_eq_nil hnil]

theorem current_looked_iff (hs : s.cursor ≤ s.buffer.size + 1) :
    s.looked.current = s.current ↔ InReach s := by
  constructor
  · intro h
    have hisSome := isSome_current_iff s.looked
    rw [h, isSome_current_iff, size_looked, cursor_looked] at hisSome
    rw [InReach, ← List.length_eq_zero_iff]
    omega
  · rintro (hle | hnil)
    · rw [current, current, cursor_looked, buffer_looked]
      cases hcursor : s.cursor with
      | zero => rfl
      | succ i =>
        rw [hcursor] at hle
        have hlt : i < s.buffer.toList.length := hle
        dsimp only
        rw [← Array.getElem?_toList, Array.toList_appendList, List.getElem?_append_left hlt,
          Array.getElem?_toList]
    · rw [looked_of_unread_eq_nil hnil]

/-! ## What keeps the cursor in reach -/

private theorem inReach_next (s : Scanner α) : InReach (next s).2 := by
  have hsize : (next s).2.buffer.size = _ := size_looked s
  have hcursor : (next s).2.cursor = min (s.cursor + 1) ((next s).2.buffer.size + 1) := rfl
  have hunread : (next s).2.unread = s.unread.drop (s.cursor + 1 - s.buffer.size) := rfl
  rw [InReach, hcursor, hunread, hsize, List.drop_eq_nil_iff]
  omega

theorem Moves.inReach_back (h : Moves s t) (hs : InReach s) : InReach (t.moveTo s.cursor) := by
  rcases hs with hle | hnil
  · exact .inl (Nat.le_trans hle h.size)
  · -- What was read before is the whole rest of the source, so there is nothing else to read.
    have hlength := congrArg List.length h.rest
    have hsize := h.size
    rw [Scanner.rest, Scanner.rest, hnil, List.append_nil, List.length_append, Array.length_toList,
      Array.length_toList] at hlength
    exact .inr (List.length_eq_zero_iff.mp (show t.unread.length = 0 by omega))

private theorem inReach_ignore (s : Scanner α) : InReach (ignore s).2 := .inl (Nat.zero_le _)

namespace InReach

theorem acceptIf (hs : InReach s) (condition : α → Bool) :
    InReach (Scanner.acceptIf condition s).2 := by
  rcases acceptIf_eq_or condition s with ⟨item, haccept⟩ | haccept
  · rw [haccept]
    exact inReach_next s
  · rw [haccept]
    exact (Moves.next s).inReach_back hs

theorem skipWhile (hs : InReach s) (condition : α → Bool) (advanced : Bool) :
    InReach (Scanner.skipWhile condition advanced s).2 := by
  fun_induction Scanner.skipWhile condition advanced s with
  | case1 advanced s item t ht ih =>
    have haccept := hs.acceptIf condition
    rw [ht] at haccept
    exact ih haccept
  | case2 advanced s t ht =>
    have haccept := hs.acceptIf condition
    rwa [ht] at haccept

variable {s : Scanner Char}

theorem scanCharacter (hs : InReach s) (characters : List Char) :
    InReach (Scanner.scanCharacter characters s).2 := by
  have haccept := hs.acceptIf (characters.contains ·)
  rw [Scanner.scanCharacter, acceptAny]
  split
  · exact inReach_ignore _
  · next t ht => rwa [ht] at haccept

theorem scanNumber (hs : InReach s) : InReach (Scanner.scanNumber s).2 := by
  have hskip := hs.skipWhile Char.isDigit false
  rw [Scanner.scanNumber, skipDigits]
  split
  · next t ht => rwa [ht] at hskip
  · exact inReach_ignore _

theorem scanFunction (hs : InReach s) (hcursor : s.cursor ≤ s.buffer.size + 1) :
    InReach (Scanner.scanFunction s).2 := by
  obtain ⟨hmoves, -⟩ :=
    Moves.growWindow s MathFunction.longestName [] none hcursor (by rintro _ ⟨⟩)
  rw [Scanner.scanFunction]
  rcases ht : growWindow MathFunction.longestName [] none s with ⟨_ | ⟨place, name⟩, t⟩
  · exact (hmoves.of_eq ht).inReach_back hs
  · exact inReach_ignore _

end InReach

/-- A position is not set one past the buffer while the source has more items. -/
def Action.KeepsReach (s : Scanner Char) : Action → Prop
  | .setPosition position => position = s.buffer.size → s.unread = []
  | _ => True

/-- No action of a run takes the cursor out of reach. -/
def AllKeepReach : List Action → Scanner Char → Prop
  | [], _ => True
  | action :: actions, s => action.KeepsReach s ∧ AllKeepReach actions (action.perform s).2

namespace InReach

variable {s : Scanner Char} {source : List Char} {pieces : List (List Char)} {action : Action}
  {actions : List Action}

theorem setPosition {position : Int} (hs : InReach s)
    (h : position = s.buffer.size → s.unread = []) :
    InReach (Scanner.setPosition position s).2 := by
  rw [Scanner.setPosition]
  split
  · next hrange =>
    by_cases hend : position = s.buffer.size
    · exact .inr (h hend)
    · refine .inl ?_
      change (position + 1).toNat ≤ s.buffer.size
      omega
  · exact hs

theorem perform (hs : InReach s) (hcursor : s.cursor ≤ s.buffer.size + 1)
    (h : action.KeepsReach s) : InReach (action.perform s).2 := by
  cases action with
  | next => exact inReach_next s
  | peek => exact (Moves.next s).inReach_back hs
  | current => exact hs
  | setPosition position => exact hs.setPosition h
  | ignore => exact inReach_ignore s
  | extract => exact inReach_ignore s
  | extractText => exact inReach_ignore s
  | accept c => exact hs.acceptIf (· == c)
  | acceptAny cs => exact hs.acceptIf (cs.contains ·)
  | skipAll cs => exact hs.skipWhile (cs.contains ·) false
  | ignoreBlanks => exact inReach_ignore _
  | scanNumber => exact hs.scanNumber
  | scanParenthesis => exact hs.scanCharacter _
  | scanOperator => exact hs.scanCharacter _
  | scanFunction => exact hs.scanFunction hcursor

theorem performAll (hs : InReach s) (hwindow : IsWindow source pieces s)
    (h : AllKeepReach actions s) : InReach (Scanner.performAll actions s) := by
  induction actions generalizing s pieces with
  | nil => exact hs
  | cons action actions ih =>
    exact ih (hs.perform hwindow.cursor h.1) (hwindow.perform action) h.2

end InReach

/-- What can be seen of a scanner after a look, compared with what could be seen before. -/
structure ShowsLook (s t : Scanner α) : Prop where
  position : t.position = s.position
  offset : t.offset = s.offset
  current : t.current = s.current ↔ InReach s
  view : t.view = s.view ↔ InReach s

/-- **Looking ahead leaves the position and the offset**, and it leaves the current item and the
view exactly where the cursor is in reach. It is, unless the position was set one past the buffer
while the source had more items. -/
theorem showsLook_perform (source : List Char) (actions : List Action) (action : Action)
    (h : action.Looks (performAll actions (ofList source))) :
    ShowsLook (performAll actions (ofList source))
        (action.perform (performAll actions (ofList source))).2 ∧
      (AllKeepReach actions (ofList source) → InReach (performAll actions (ofList source))) := by
  have hwindow := (isWindow_ofList source).performAll actions
  refine ⟨?_, InReach.performAll (.inl (Nat.zero_le _)) (isWindow_ofList source)⟩
  rw [h.perform_snd]
  exact ⟨rfl, rfl, current_looked_iff hwindow.cursor, view_looked_iff _⟩

/-- A character that is looked at and not accepted is not seen. -/
theorem view_accept_after_back :
    ((Action.accept 'b').perform (performAll [.next, .setPosition (-1)] (ofList ['a', 'b']))).2.view
      = (performAll [.next, .setPosition (-1)] (ofList ['a', 'b'])).view := by
  obtain ⟨hshows, hreach⟩ :=
    showsLook_perform ['a', 'b'] [.next, .setPosition (-1)] (.accept 'b') (by rfl)
  exact hshows.view.mpr (hreach ⟨trivial, fun hend ↦ absurd hend (by decide), trivial⟩)

/-- A look from one past the buffer shows what was looked at as if it had been accepted. -/
theorem view_peek_past_buffer :
    ∃ s, s = performAll [.setPosition 0] (ofList ['a', 'b']) ∧ s.current = none ∧ s.view = [] ∧
      (Action.peek.perform s).2.current = some 'a' ∧ (Action.peek.perform s).2.view = ['a'] :=
  ⟨_, rfl, by decide⟩

end Scanner

end Calculator
