import Calculator.Scanner.Progress
import Calculator.Token

/-!
# From text to tokens

A lexer reads one token after the other from a text. It drops blanks, then tries the rules for
numbers, parentheses, operators and function names in this order. A character at which no rule
succeeds is a lexical error; a lexer that has answered one answers nothing more.

## Errors know their place

The position of an error is the offset of the scanner at that moment, so it counts characters from
the start of the text. Every rule that failed before has put the cursor back, and what it read ahead
is still in the buffer, so the character found is the one at that position.
-/

namespace Calculator

/-- A character at which no token begins. -/
structure LexError where
  /-- How many characters stand before it. -/
  position : Nat
  found : Char
deriving DecidableEq, Repr

/-- The text of a lexical error. -/
def LexError.message (e : LexError) : String :=
  "unexpected character '" ++ e.found.toString ++ "' at position " ++ e.position.repr

/-- What a lexer answers where the text is not at its end. -/
abbrev LexItem := Except LexError Token

/-- A reader of tokens. -/
structure Lexer where
  scanner : Scanner Char
  /-- Whether a lexical error was answered. -/
  failed : Bool

namespace Lexer

open Scanner

/-- A lexer at the start of a text. -/
def ofString (text : String) : Lexer := ⟨Scanner.ofList text.toList, false⟩

/-- Blanks, then a token or an error; nothing at the end of the text. -/
def scanItem : Scan Char (Option LexItem) := fun s ↦
  match scanNumber (ignoreBlanks s).2 with
  | (some literal, s) => (some (.ok (.number literal)), s)
  | (none, s) =>
    match scanParenthesis s with
    | (some c, s) => (some (.ok (if c = '(' then .opening else .closing)), s)
    | (none, s) =>
      match scanOperator s with
      | (some symbol, s) => (some (.ok (.operator symbol)), s)
      | (none, s) =>
        match scanFunction s with
        | (some name, s) => (some (.ok (.function name)), s)
        | (none, s) =>
          let position := s.offset
          match peek s with
          | (some found, s) => (some (.error ⟨position, found⟩), s)
          | (none, s) => (none, s)

/-- The next token or error. -/
def next (l : Lexer) : Option LexItem × Lexer :=
  if l.failed then (none, l)
  else
    match scanItem l.scanner with
    | (some (.error e), s) => (some (.error e), ⟨s, true⟩)
    | (item, s) => (item, ⟨s, false⟩)

/-! ## All tokens -/

theorem length_scanItem_of_token {s s' : Scanner Char} {token : Token}
    (h : scanItem s = (some (.ok token), s')) : s'.rest.length < s.rest.length := by
  have hblanks := length_ignoreBlanks_le s
  have hnumber := @length_scanNumber_of_some (ignoreBlanks s).2
  have hno := @length_scanNumber_of_none (ignoreBlanks s).2
  unfold scanItem at h
  split at h
  · next literal t ht =>
    obtain ⟨-, rfl⟩ := Prod.mk.inj h
    exact Nat.lt_of_lt_of_le (hnumber ht) hblanks
  next t ht =>
  have ht := hno ht
  split at h
  · next c u hu =>
    obtain ⟨-, rfl⟩ := Prod.mk.inj h
    have := length_scanCharacter_of_some hu
    rw [ht] at this
    omega
  next u hu =>
  have hu := length_scanCharacter_of_none hu
  split at h
  · next c v hv =>
    obtain ⟨-, rfl⟩ := Prod.mk.inj h
    have := length_scanCharacter_of_some hv
    rw [hu, ht] at this
    omega
  next v hv =>
  have hv := length_scanCharacter_of_none hv
  split at h
  · next name w hw =>
    obtain ⟨-, rfl⟩ := Prod.mk.inj h
    have := length_scanFunction_of_some hw
    rw [hv, hu, ht] at this
    omega
  next w hw =>
  simp only at h
  split at h
  · next => cases (Prod.mk.inj h).1
  · next => cases (Prod.mk.inj h).1

/-- A bound on how often a lexer still answers. -/
def measure (l : Lexer) : Nat := if l.failed then 0 else l.scanner.rest.length + 1

theorem measure_next_lt {l l' : Lexer} {item : LexItem} (h : l.next = (some item, l')) :
    l'.measure < l.measure := by
  have htoken := @length_scanItem_of_token l.scanner
  unfold next at h
  split at h
  · cases (Prod.mk.inj h).1
  · next hfailed =>
    split at h
    · obtain ⟨-, rfl⟩ := Prod.mk.inj h
      simp [measure, hfailed]
    · next found s hnot hs =>
      obtain ⟨rfl, rfl⟩ := Prod.mk.inj h
      cases item with
      | error e => exact absurd rfl (hnot e)
      | ok token =>
        have := htoken hs
        simpa [measure, hfailed]

/-- Everything that a lexer still answers, up to the end of the text or the first error. -/
def items (l : Lexer) : List LexItem :=
  match _ : l.next with
  | (some item, l') => item :: l'.items
  | (none, _) => []
termination_by l.measure
decreasing_by exact measure_next_lt ‹_›

end Lexer

/-- The tokens of a text, or its first lexical error. -/
def tokenize (text : String) : Except LexError (List Token) := (Lexer.ofString text).items.mapM id

end Calculator
