import Calculator.Proofs.Scanner.LookAhead
import Calculator.Proofs.Scanner.Rules

/-!
# Rules are all or nothing

A rule for tokens that begins at a clear start, with nothing accepted, ends at a clear start. Either
it refuses, and nothing that can be seen of the scanner or read from it later has changed, or it
takes the longest text of its kind off the front of what is to come, and nothing else. Where it has
looked and gone back in between does not show.

## What is to come

A rule that has looked ahead leaves more items in the buffer than it found, so the scanner itself is
not the same. What later reads see is the same: it is defined by stepping on again and again, and
depends on the items that were not forgotten and on the cursor alone.
-/

namespace Calculator

namespace Scanner

variable {α : Type} {s t : Scanner α} {origin : Nat} {accepted ahead spelling left : List α}

/-! ## Stepping on from now -/

/-- What stepping on answers for the `k`-th time from now, counted from zero. -/
def upcoming (s : Scanner α) : Nat → Option α
  | 0 => (next s).1
  | k + 1 => upcoming (next s).2 k

/-- At the end of the source stepping on leaves the cursor behind every item. -/
theorem length_rest_le_cursor_next (h : s.rest.length ≤ s.cursor) :
    s.rest.length ≤ (next s).2.cursor := by
  have hsize : (next s).2.buffer.size = _ := size_looked s
  have hcursor : (next s).2.cursor = min (s.cursor + 1) ((next s).2.buffer.size + 1) := rfl
  have hrest : s.rest.length = s.buffer.size + s.unread.length := by
    rw [rest, List.length_append, Array.length_toList]
  omega

theorem upcoming_eq (s : Scanner α) (k : Nat) : s.upcoming k = s.rest[s.cursor + k]? := by
  induction k generalizing s with
  | zero => exact getElem?_fill s s.cursor
  | succ k ih =>
    rw [upcoming, ih, rest_next]
    by_cases hend : s.rest.length ≤ s.cursor
    · have hnext := length_rest_le_cursor_next hend
      rw [List.getElem?_eq_none (by omega), List.getElem?_eq_none (by omega)]
    · have hfirst : (next s).1 = some s.rest[s.cursor] :=
        (getElem?_fill s s.cursor).trans (List.getElem?_eq_getElem (by omega))
      rw [(cursor_next_of_some hfirst).1]
      congr 1
      omega

theorem Sees.upcoming (h : s.Sees origin accepted ahead) (k : Nat) :
    s.upcoming k = ahead[k]? := by
  rw [upcoming_eq, h.rest, h.cursor, List.getElem?_append_right (Nat.le_add_right _ _),
    Nat.add_sub_cancel_left]

/-! ## Refusing and taking -/

/-- Nothing that can be seen of a scanner has changed, and nothing that it will answer. -/
structure Unmoved (s t : Scanner α) : Prop where
  position : t.position = s.position
  offset : t.offset = s.offset
  current : t.current = s.current
  view : t.view = s.view
  rest : t.rest = s.rest
  upcoming : ∀ k, t.upcoming k = s.upcoming k

/-- A scanner is at a clear start again, and a text was taken off the front of what is to come. -/
structure TakesOff (spelling : List α) (s t : Scanner α) : Prop where
  position : t.position = -1
  offset : t.offset = s.offset + spelling.length
  rest : s.rest = spelling ++ t.rest
  taken : ∀ k < spelling.length, s.upcoming k = spelling[k]?
  upcoming : ∀ k, t.upcoming k = s.upcoming (spelling.length + k)

theorem Sees.rest_eq (h : s.Sees origin [] ahead) : s.rest = ahead := h.rest

theorem Sees.position_eq (h : s.Sees origin [] ahead) : s.position = -1 := by
  rw [position, h.cursor]
  rfl

theorem Sees.current_eq (h : s.Sees origin [] ahead) : s.current = none := by
  rw [current, h.cursor]
  rfl

theorem Sees.unmoved (hs : s.Sees origin [] ahead) (ht : t.Sees origin [] ahead) :
    Unmoved s t where
  position := ht.position_eq.trans hs.position_eq.symm
  offset := ht.offset.trans hs.offset.symm
  current := ht.current_eq.trans hs.current_eq.symm
  view := ht.view.trans hs.view.symm
  rest := ht.rest.trans hs.rest.symm
  upcoming k := (ht.upcoming k).trans (hs.upcoming k).symm

theorem Sees.takesOff (hs : s.Sees origin [] (spelling ++ left))
    (ht : t.Sees (origin + spelling.length) [] left) : TakesOff spelling s t where
  position := ht.position_eq
  offset := by rw [ht.offset, hs.offset]
  rest := by rw [hs.rest_eq, ht.rest_eq]
  taken k hk := by rw [hs.upcoming, List.getElem?_append_left hk]
  upcoming k := by
    rw [ht.upcoming, hs.upcoming, List.getElem?_append_right (Nat.le_add_right _ _),
      Nat.add_sub_cancel_left]

/-! ## The rules for tokens -/

namespace Action

/-- The rules for tokens. -/
def IsRule : Action → Prop
  | .scanNumber | .scanParenthesis | .scanOperator | .scanFunction => True
  | _ => False

/-- The texts that a rule takes. -/
def Takes : Action → List Char → Prop
  | .scanNumber, text => Token.isNumberText text
  | .scanParenthesis, text => ∃ c ∈ ['(', ')'], text = [c]
  | .scanOperator, text => ∃ c ∈ ['+', '-', '*', '/', '&'], text = [c]
  | .scanFunction, text => Token.IsName text
  | _, _ => False

/-- What a rule answers for the text that it takes, if it takes one: the text itself, but a function
name in lower case. -/
def answer : Action → Option (List Char) → Answer
  | .scanNumber, found => .text (found.map String.ofList)
  | .scanParenthesis, found | .scanOperator, found => .character (found.bind List.head?)
  | .scanFunction, found => .text (found.map fun text ↦ String.ofList (text.map Char.toLower))
  | _, _ => .nothing

end Action

/-- How a rule ends: it refuses where no text of its kind is ahead, and leaves everything as it was,
or it takes the longest text of its kind. -/
inductive AllOrNothing (rule : Action) (s : Scanner Char) : Answer × Scanner Char → Prop where
  | nothing {t : Scanner Char} : (∀ text, text <+: s.rest → ¬ rule.Takes text) → Unmoved s t →
      AllOrNothing rule s (rule.answer none, t)
  | all {spelling : List Char} {t : Scanner Char} : IsLongest rule.Takes spelling t.rest →
      TakesOff spelling s t → AllOrNothing rule s (rule.answer (some spelling), t)

section Rules

variable {s t : Scanner Char} {ahead spelling left characters : List Char} {rule : Action}

theorem Sees.nothing (hs : s.Sees origin [] ahead) (ht : t.Sees origin [] ahead)
    (hnone : ∀ text, text <+: ahead → ¬ rule.Takes text) :
    AllOrNothing rule s (rule.answer none, t) :=
  .nothing (by rwa [hs.rest_eq]) (hs.unmoved ht)

theorem Sees.all (hs : s.Sees origin [] (spelling ++ left))
    (ht : t.Sees (origin + spelling.length) [] left)
    (hlongest : IsLongest rule.Takes spelling left) :
    AllOrNothing rule s (rule.answer (some spelling), t) :=
  .all (by rwa [ht.rest_eq]) (hs.takesOff ht)

private theorem not_isNumberText_of_prefix {text : List Char}
    (hahead : ∀ c ∈ ahead.head?, ¬ c.isDigit)
    (htext : text <+: ahead) : ¬ Token.isNumberText text := by
  cases text with
  | nil => rintro ⟨⟩
  | cons c text =>
    obtain ⟨behind, rfl⟩ := htext
    exact Token.not_isNumberText_of_head (hahead c rfl)

/-- No text of one character can be made longer. -/
theorem isLongest_character {c : Char} (hc : c ∈ characters) (left : List Char) :
    IsLongest (fun text ↦ ∃ c ∈ characters, text = [c]) [c] left where
  holds := ⟨c, hc, rfl⟩
  longest := by
    rintro more - ⟨_, -, hmore⟩
    exact (List.cons.inj hmore).2

private theorem not_character_of_prefix {text : List Char}
    (hahead : ∀ c ∈ ahead.head?, c ∉ characters)
    (htext : text <+: ahead) : ¬ ∃ c ∈ characters, text = [c] := by
  rintro ⟨c, hc, rfl⟩
  obtain ⟨behind, rfl⟩ := htext
  exact hahead c rfl hc

theorem Sees.allOrNothing (h : s.Sees origin [] ahead) (hrule : rule.IsRule) :
    AllOrNothing rule s (rule.perform s) := by
  have hcharacter := h.scanCharacter
  cases rule with
  | scanNumber =>
    rw [Action.perform, Answer.via]
    rcases h.scanNumber with ⟨spelling, left, t, hscan, rfl, hlongest, ht⟩ | ⟨t, hscan, hnone, ht⟩
    · rw [hscan]
      exact h.all ht hlongest
    · rw [hscan]
      exact h.nothing ht fun _ ↦ not_isNumberText_of_prefix hnone
  | scanParenthesis =>
    rw [Action.perform, Answer.via, Scanner.scanParenthesis]
    rcases hcharacter ['(', ')'] with ⟨c, left, t, hscan, rfl, hc, ht⟩ | ⟨t, hscan, hnone, ht⟩
    · rw [hscan]
      have hone : s.Sees origin [] ([c] ++ left) := h
      exact hone.all ht (isLongest_character hc left)
    · rw [hscan]
      exact h.nothing ht fun _ ↦ not_character_of_prefix hnone
  | scanOperator =>
    rw [Action.perform, Answer.via, Scanner.scanOperator]
    rcases hcharacter (Operator.all.map Operator.symbol) with
      ⟨c, left, t, hscan, rfl, hc, ht⟩ | ⟨t, hscan, hnone, ht⟩
    · rw [hscan]
      have hone : s.Sees origin [] ([c] ++ left) := h
      exact hone.all ht (isLongest_character hc left)
    · rw [hscan]
      exact h.nothing ht fun _ ↦ not_character_of_prefix hnone
  | scanFunction =>
    rw [Action.perform, Answer.via]
    rcases h.scanFunction with ⟨spelling, left, t, hscan, rfl, hlongest, ht⟩ | ⟨t, hscan, hnone, ht⟩
    · rw [hscan]
      exact h.all ht hlongest
    · rw [hscan]
      exact h.nothing ht hnone
  | _ => exact hrule.elim

end Rules

/-! ## Rules in any run -/

/-- **Rules are all or nothing.** After any actions that lead to a clear start, however much was
read ahead, a rule for tokens refuses and leaves all as it was, or takes exactly the characters of
the longest text of its kind. -/
theorem allOrNothing_perform (source : List Char) (actions : List Action) (rule : Action)
    (hrule : rule.IsRule)
    (hstart : (performAll actions (ofList source)).position = -1) :
    AllOrNothing rule (performAll actions (ofList source))
      (rule.perform (performAll actions (ofList source))) := by
  have hcursor : (performAll actions (ofList source)).cursor = 0 := by
    rw [position] at hstart
    omega
  exact (Sees.start hcursor).allOrNothing hrule

/-- A number is taken off behind which an exponent marker has a sign and no digits, all of which was
read ahead before. -/
theorem takesOff_number_before_marker :
    ∃ s, s = performAll [.skipAll ['2', '.', '5', 'e', '+'], .setPosition (-1)]
        (ofList ['2', '.', '5', 'e', '+', 'x']) ∧
      Action.scanNumber.IsRule ∧ s.position = -1 ∧ s.buffer.size = 6 ∧
      (Action.scanNumber.perform s).1 = .text (some "2.5") ∧
      TakesOff ['2', '.', '5'] s (Action.scanNumber.perform s).2 := by
  refine ⟨_, rfl, trivial, by decide +kernel, by decide +kernel, by decide +kernel, ?_⟩
  have hrule := allOrNothing_perform ['2', '.', '5', 'e', '+', 'x']
    [.skipAll ['2', '.', '5', 'e', '+'], .setPosition (-1)] .scanNumber trivial (by decide +kernel)
  have hanswer : (Action.scanNumber.perform (performAll
      [.skipAll ['2', '.', '5', 'e', '+'], .setPosition (-1)]
      (ofList ['2', '.', '5', 'e', '+', 'x']))).1 = .text (some "2.5") := by decide +kernel
  generalize Action.scanNumber.perform _ = result at hrule hanswer ⊢
  cases hrule with
  | nothing _ _ => cases hanswer
  | @all spelling t _ htakes =>
    have htext : String.ofList spelling = String.ofList ['2', '.', '5'] := by
      injection hanswer with hfound
      exact Option.some.inj hfound
    rwa [String.ofList_injective htext] at htakes

end Scanner

end Calculator
