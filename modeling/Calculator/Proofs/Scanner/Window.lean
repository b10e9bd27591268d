import Calculator.Proofs.Scanner.Sees
import Calculator.Scanner.Action

/-!
# A scanner is a window over its source

Whatever is done with a scanner, what it has forgotten, its buffer and what is unread are the source
in order, and its offset and position say where in the source it stands. No item is lost, none is
read twice, and none changes its place.

## Moving and forgetting

Every action moves the cursor, forgets the view, or moves and then forgets. Moving may read items
into the buffer and may go back to a place where the cursor stood before; the buffer never shrinks
on the way, so that place is still in it or one past it. Only forgetting changes the offset. A rule
is therefore a move with at most one forgetting at its end, wherever the cursor stood when the rule
began.
-/

namespace Calculator

namespace Scanner

variable {α : Type} {s t u : Scanner α} {source : List α} {pieces : List (List α)}

/-! ## Moving -/

/-- The scanner comes to another state without forgetting anything. -/
structure Moves (s t : Scanner α) : Prop where
  rest : t.rest = s.rest
  offset : t.offset = s.offset
  size : s.buffer.size ≤ t.buffer.size
  cursor : s.cursor ≤ s.buffer.size + 1 → t.cursor ≤ t.buffer.size + 1

namespace Moves

theorem refl (s : Scanner α) : Moves s s := ⟨rfl, rfl, Nat.le_refl _, id⟩

theorem trans (h : Moves s t) (h' : Moves t u) : Moves s u where
  rest := h'.rest.trans h.rest
  offset := h'.offset.trans h.offset
  size := Nat.le_trans h.size h'.size
  cursor hs := h'.cursor (h.cursor hs)

theorem of_eq {β : Type} {answer : β} {result : β × Scanner α} (h : Moves s result.2)
    (hresult : result = (answer, t)) : Moves s t := by
  rwa [hresult] at h

/-- Going to a place that the cursor could take in an earlier state. -/
theorem moveTo (h : Moves s t) {place : Nat}
    (hplace : s.cursor ≤ s.buffer.size + 1 → place ≤ t.buffer.size + 1) :
    Moves s (t.moveTo place) where
  rest := h.rest
  offset := h.offset
  size := h.size
  cursor := hplace

private theorem back (h : Moves s t) : Moves s (t.moveTo s.cursor) :=
  h.moveTo fun hs ↦ Nat.le_trans hs (Nat.succ_le_succ h.size)

theorem next (s : Scanner α) : Moves s (Scanner.next s).2 where
  rest := rest_next s
  offset := rfl
  size := size_le_next s
  cursor _ := Nat.min_le_right _ _

theorem setPosition (position : Int) (s : Scanner α) :
    Moves s (Scanner.setPosition position s).2 := by
  rw [Scanner.setPosition]
  split
  · next hrange => exact (refl s).moveTo fun _ ↦ by omega
  · exact refl s

theorem acceptIf (condition : α → Bool) (s : Scanner α) :
    Moves s (Scanner.acceptIf condition s).2 := by
  have hnext := next s
  rw [Scanner.acceptIf]
  split
  · next item t ht =>
    split
    · exact hnext.of_eq ht
    · exact (hnext.of_eq ht).back
  · next t ht => exact (hnext.of_eq ht).back

theorem skipWhile (condition : α → Bool) (advanced : Bool) (s : Scanner α) :
    Moves s (Scanner.skipWhile condition advanced s).2 := by
  have haccept := acceptIf condition
  fun_induction Scanner.skipWhile condition advanced s with
  | case1 advanced s item t ht ih => exact ((haccept s).of_eq ht).trans ih
  | case2 advanced s t ht => exact (haccept s).of_eq ht

/-! ### Moves of the rules -/

variable (s : Scanner Char)

theorem skipFraction : Moves s (Scanner.skipFraction s).2 := by
  have haccept := acceptIf (· == '.') s
  rw [Scanner.skipFraction, accept]
  split
  · next t ht => exact haccept.of_eq ht
  · next t ht =>
    have hskip := (haccept.of_eq ht).trans (skipWhile Char.isDigit false t)
    rw [skipDigits]
    split
    · next u hu => exact hskip.of_eq hu
    · next u hu => exact (hskip.of_eq hu).back

theorem skipExponent : Moves s (Scanner.skipExponent s).2 := by
  have haccept := acceptIf (['e', 'E'].contains ·) s
  rw [Scanner.skipExponent, acceptAny]
  split
  · next t ht => exact haccept.of_eq ht
  · next t ht =>
    have hsign := (haccept.of_eq ht).trans (acceptIf (['+', '-'].contains ·) t)
    have hskip := hsign.trans (skipWhile Char.isDigit false _)
    rw [skipDigits, acceptAny]
    split
    · next u hu => exact hskip.of_eq hu
    · next u hu => exact (hskip.of_eq hu).back

/-- The window moves, and a name found in it ends at a place where the cursor may stand. -/
theorem growWindow (limit : Nat) (window : List Char) (found : Option (Nat × String))
    (hs : s.cursor ≤ s.buffer.size + 1) (hfound : ∀ p ∈ found, p.1 ≤ s.buffer.size + 1) :
    Moves s (Scanner.growWindow limit window found s).2 ∧
      ∀ p ∈ (Scanner.growWindow limit window found s).1,
        p.1 ≤ (Scanner.growWindow limit window found s).2.buffer.size + 1 := by
  have hnext := next (α := Char)
  have hkept : ∀ {s t : Scanner Char} {found : Option (Nat × String)}, Moves s t →
      (∀ p ∈ found, p.1 ≤ s.buffer.size + 1) → ∀ p ∈ found, p.1 ≤ t.buffer.size + 1 :=
    fun h hfound p hp ↦ Nat.le_trans (hfound p hp) (Nat.succ_le_succ h.size)
  fun_induction Scanner.growWindow limit window found s with
  | case1 window found s => exact ⟨refl s, hfound⟩
  | case2 limit window found s c t ht hc window' name longest ih =>
    have hmove := (hnext s).of_eq ht
    obtain ⟨hmoves, hplace⟩ := ih (hmove.cursor hs) fun p hp ↦ by
      change p ∈ (if name ∈ MathFunction.names then some (t.cursor, name) else found) at hp
      split at hp
      · cases hp
        exact hmove.cursor hs
      · exact hkept hmove hfound p hp
    exact ⟨hmove.trans hmoves, hplace⟩
  | case3 limit window found s c t ht hc =>
    have hmove := (hnext s).of_eq ht
    exact ⟨hmove, hkept hmove hfound⟩
  | case4 limit window found s t ht =>
    have hmove := (hnext s).of_eq ht
    exact ⟨hmove, hkept hmove hfound⟩

end Moves

/-! ## The window -/

/-- The scanner stands in a source of which it has forgotten some pieces, one after the other. -/
structure IsWindow (source : List α) (pieces : List (List α)) (s : Scanner α) : Prop where
  rest : pieces.flatten ++ s.rest = source
  offset : s.offset = pieces.flatten.length
  cursor : s.cursor ≤ s.buffer.size + 1

private theorem view_append_rest_ignore (s : Scanner α) : s.view ++ (ignore s).2.rest = s.rest := by
  have hview : s.view = s.rest.take (min s.cursor s.buffer.size) := by
    have hle : min s.cursor s.buffer.size ≤ s.buffer.toList.length := by
      rw [Array.length_toList]
      exact Nat.min_le_right _ _
    rw [view, rest, List.take_append_of_le_length hle, ← Array.length_toList,
      List.take_eq_take_iff]
    omega
  rw [hview, rest_ignore, List.take_append_drop]

theorem length_view (s : Scanner α) : s.view.length = min s.cursor s.buffer.size := by
  rw [view, List.length_take, Array.length_toList]

theorem isWindow_ofList (source : List α) : IsWindow source [] (ofList source) :=
  ⟨rfl, rfl, Nat.zero_le _⟩

namespace IsWindow

private theorem moves (h : IsWindow source pieces s) (hmoves : Moves s t) :
    IsWindow source pieces t where
  rest := hmoves.rest ▸ h.rest
  offset := hmoves.offset.trans h.offset
  cursor := hmoves.cursor h.cursor

private theorem still (h : IsWindow source pieces s) (hmoves : Moves s t) :
    IsWindow source (pieces ++ []) t := by
  rw [List.append_nil]
  exact h.moves hmoves

/-- What is forgotten is the view. -/
theorem ignore (h : IsWindow source pieces s) :
    IsWindow source (pieces ++ [s.view]) (Scanner.ignore s).2 where
  rest := by
    rw [List.flatten_append, List.flatten_singleton, List.append_assoc, view_append_rest_ignore,
      h.rest]
  offset := by
    have hoffset : (Scanner.ignore s).2.offset = s.offset + min s.cursor s.buffer.size := rfl
    rw [hoffset, h.offset, List.flatten_append, List.flatten_singleton, List.length_append,
      length_view]
  cursor := Nat.zero_le _

end IsWindow

/-! ## Runs of actions -/

/-- What a rule for single characters forgets: the view, once a character is accepted. -/
def forgottenByCharacter (characters : List Char) (s : Scanner Char) : List (List Char) :=
  match acceptAny characters s with
  | (some _, t) => [t.view]
  | (none, _) => []

/-- The pieces of the source that an action forgets: each is the view when it is forgotten, and
where it is extracted it is what the action answers. -/
def Action.forgotten (s : Scanner Char) : Action → List (List Char)
  | .ignore => [s.view]
  | .extract => [(Scanner.extract s).1]
  | .extractText => [(Scanner.extractText s).1.toList]
  | .ignoreBlanks => [(skipWhile isBlank false s).2.view]
  | .scanNumber => (Scanner.scanNumber s).1.toList.map String.toList
  | .scanParenthesis => forgottenByCharacter ['(', ')'] s
  | .scanOperator => forgottenByCharacter (Operator.all.map Operator.symbol) s
  | .scanFunction =>
    match growWindow MathFunction.longestName [] none s with
    | (some (place, _), t) => [(t.moveTo place).view]
    | (none, _) => []
  | .next | .peek | .current | .setPosition _ | .accept _ | .acceptAny _ | .skipAll _ => []

/-- A scanner after some actions. -/
def performAll : List Action → Scanner Char → Scanner Char
  | [], s => s
  | action :: actions, s => performAll actions (action.perform s).2

/-- The pieces that some actions forget, in order. -/
def forgottenByAll : List Action → Scanner Char → List (List Char)
  | [], _ => []
  | action :: actions, s => action.forgotten s ++ forgottenByAll actions (action.perform s).2

namespace IsWindow

variable {s : Scanner Char} {source : List Char} {pieces : List (List Char)}

theorem scanCharacter (h : IsWindow source pieces s) (characters : List Char) :
    IsWindow source (pieces ++ forgottenByCharacter characters s)
      (Scanner.scanCharacter characters s).2 := by
  have haccept := Moves.acceptIf (characters.contains ·) s
  rw [forgottenByCharacter, Scanner.scanCharacter, acceptAny]
  rcases ht : Scanner.acceptIf (characters.contains ·) s with ⟨_ | c, t⟩
  · exact h.still (haccept.of_eq ht)
  · exact (h.moves (haccept.of_eq ht)).ignore

theorem scanNumber (h : IsWindow source pieces s) :
    IsWindow source (pieces ++ (Scanner.scanNumber s).1.toList.map String.toList)
      (Scanner.scanNumber s).2 := by
  have hskip := Moves.skipWhile Char.isDigit false s
  rw [Scanner.scanNumber, skipDigits]
  split
  · next t ht => exact h.still (hskip.of_eq ht)
  · next t ht =>
    have hfraction := (hskip.of_eq ht).trans (Moves.skipFraction t)
    -- The text that is answered is the view that is forgotten.
    have hextract : ∀ u, Moves s u → IsWindow source
        (pieces ++ (some (Scanner.extractText u).1).toList.map String.toList)
        (Scanner.extractText u).2 := by
      intro u hu
      have hforget := (h.moves hu).ignore
      simpa [Scanner.extractText, Scanner.extract] using hforget
    refine hextract _ ?_
    split
    · next u hu => exact (hfraction.of_eq hu).trans (Moves.skipExponent u)
    · next u hu => exact hfraction.of_eq hu

theorem scanFunction (h : IsWindow source pieces s) :
    IsWindow source (pieces ++ Action.scanFunction.forgotten s) (Scanner.scanFunction s).2 := by
  obtain ⟨hmoves, hplace⟩ :=
    Moves.growWindow s MathFunction.longestName [] none h.cursor (by rintro _ ⟨⟩)
  rw [Action.forgotten, Scanner.scanFunction]
  rcases ht : growWindow MathFunction.longestName [] none s with ⟨_ | ⟨place, name⟩, t⟩
  · exact h.still (hmoves.of_eq ht).back
  · rw [ht] at hplace
    exact (h.moves ((hmoves.of_eq ht).moveTo fun _ ↦ hplace _ rfl)).ignore

/-- **Every action keeps the window**, and forgets the next pieces of the source. -/
theorem perform (h : IsWindow source pieces s) (action : Action) :
    IsWindow source (pieces ++ action.forgotten s) (action.perform s).2 := by
  cases action with
  | next => exact h.still (.next s)
  | peek => exact h.still (Moves.next s).back
  | current => exact h.still (.refl s)
  | setPosition position => exact h.still (.setPosition position s)
  | ignore => exact h.ignore
  | extract => exact h.ignore
  | extractText =>
    have hforget := h.ignore
    rw [← String.toList_ofList (l := s.view)] at hforget
    exact hforget
  | accept c => exact h.still (.acceptIf (· == c) s)
  | acceptAny cs => exact h.still (.acceptIf (cs.contains ·) s)
  | skipAll cs => exact h.still (.skipWhile (cs.contains ·) false s)
  | ignoreBlanks => exact (h.moves (.skipWhile isBlank false s)).ignore
  | scanNumber => exact h.scanNumber
  | scanParenthesis => exact h.scanCharacter _
  | scanOperator => exact h.scanCharacter _
  | scanFunction => exact h.scanFunction

theorem performAll (h : IsWindow source pieces s) (actions : List Action) :
    IsWindow source (pieces ++ forgottenByAll actions s) (Scanner.performAll actions s) := by
  induction actions generalizing pieces s with
  | nil => exact h.still (.refl s)
  | cons action actions ih =>
    rw [forgottenByAll, ← List.append_assoc]
    exact ih (h.perform action)

end IsWindow

/-! ## What a window shows -/

/-- What can be seen of a scanner over a source of which it has forgotten some pieces. -/
structure ShowsSource (source : List α) (pieces : List (List α)) (s : Scanner α) : Prop where
  position : -1 ≤ s.position ∧ s.position ≤ s.buffer.size
  /-- The buffer is the source from the offset on, for its length. -/
  buffer : s.buffer.toList = (source.drop s.offset).take s.buffer.size
  /-- Stepping on answers the item behind the position, if the source has one there. -/
  next : ∀ i : Nat, (i : Int) = s.offset + s.position + 1 → (Scanner.next s).1 = source[i]?
  /-- The pieces are the source up to the offset, and what was not forgotten is the rest of it. -/
  pieces : pieces.flatten = source.take s.offset
  offset : s.offset ≤ source.length
  rest : s.rest = source.drop s.offset

theorem IsWindow.showsSource (h : IsWindow source pieces s) : ShowsSource source pieces s := by
  have hrest : s.rest = source.drop s.offset := by rw [← h.rest, h.offset, List.drop_left]
  refine ⟨⟨?_, ?_⟩, ?_, fun i hi ↦ ?_, ?_, ?_, hrest⟩
  · rw [Scanner.position]
    omega
  · have hcursor := h.cursor
    rw [Scanner.position]
    omega
  · rw [← hrest, Scanner.rest, ← Array.length_toList, List.take_left]
  · have hindex : i = s.offset + s.cursor := by
      rw [Scanner.position] at hi
      omega
    have hfst : (Scanner.next s).1 = (s.fill (s.cursor + 1)).buffer[s.cursor]? := rfl
    rw [hfst, getElem?_fill, hrest, List.getElem?_drop, hindex]
  · rw [← h.rest, h.offset, List.take_left]
  · rw [← h.rest, h.offset, List.length_append]
    exact Nat.le_add_right _ _

/-- **A scanner is a faithful window**: after any actions it shows its source from its offset on,
and what it has forgotten is the source before. -/
theorem showsSource_performAll (source : List Char) (actions : List Action) :
    ShowsSource source (forgottenByAll actions (ofList source))
      (performAll actions (ofList source)) :=
  ((isWindow_ofList source).performAll actions).showsSource

end Scanner

end Calculator
