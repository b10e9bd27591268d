import Calculator.Console.ClusterRole.Table

/-!
# Roles in a cluster

What a reader takes for one character may be several: a letter with its accents, a syllable of
Hangul, a flag of two letters. Such a group is a *cluster*. The role of a character says how it
joins its neighbours. It is a function of the character alone.
-/

namespace Calculator.Console

open Text (Ranges)

/-- How a character joins its neighbours. -/
inductive ClusterRole where
  /-- No role of its own. -/
  | other
  | carriageReturn
  | lineFeed
  /-- A control character, which nothing joins. -/
  | control
  /-- A mark that belongs to the character before it. -/
  | extender
  /-- The joiner of zero width. -/
  | joiner
  /-- A mark with space of its own that belongs to the character before it. -/
  | spacingMark
  /-- A mark that belongs to the character behind it. -/
  | prepended
  /-- One of the letters of which two make a flag. -/
  | regional
  /-- A letter that begins a syllable of Hangul. -/
  | hangulLead
  /-- A letter in the middle of a syllable of Hangul. -/
  | hangulVowel
  /-- A letter that ends a syllable of Hangul. -/
  | hangulTail
  /-- A syllable of Hangul that a tail may follow. -/
  | hangulOpen
  /-- A syllable of Hangul that has its tail. -/
  | hangulClosed
  | pictograph
  /-- An Indic consonant. -/
  | consonant
deriving DecidableEq, Repr

namespace ClusterRole

/-- The composed syllables of Hangul are in blocks of this length, a block for each lead and vowel.
The first of a block has no tail. -/
def hangulBlock : Nat := 28

/-- The ranges of a role that has ranges, and nothing for the roles of single characters and of the
two kinds of syllables. -/
def ranges : ClusterRole → Ranges
  | control => controls
  | extender => extenders
  | spacingMark => spacingMarks
  | prepended => prependedMarks
  | regional => regionalLetters
  | hangulLead => hangulLeads
  | hangulVowel => hangulVowels
  | hangulTail => hangulTails
  | pictograph => pictographs
  | consonant => conjunctConsonants
  | other | carriageReturn | lineFeed | joiner | hangulOpen | hangulClosed => []

/-- The roles that have ranges. -/
def ranged : List ClusterRole :=
  [control, extender, spacingMark, prepended, regional, hangulLead, hangulVowel, hangulTail,
    pictograph, consonant]

/-- The role of a character. -/
def ofChar (c : Char) : ClusterRole :=
  if c = '\r' then carriageReturn
  else if c = '\n' then lineFeed
  else if c = '\u200D' then joiner
  else if 0xAC00 ≤ c.toNat ∧ c.toNat ≤ 0xD7A3 then
    if (c.toNat - 0xAC00) % hangulBlock = 0 then hangulOpen else hangulClosed
  else (ranged.find? fun role ↦ role.ranges.has c).getD other

/-- Whether a mark may stand between a linker and the consonants that it joins. The marks that
extend and the joiner may, except the linkers themselves and the mark that keeps characters
apart. -/
def isConjunctMark (c : Char) : Bool :=
  (ofChar c = extender ∨ ofChar c = joiner) ∧ linkers.has c = false ∧ c ≠ '\u200C'

end ClusterRole

end Calculator.Console
