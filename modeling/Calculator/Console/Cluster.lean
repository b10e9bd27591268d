import Calculator.Console.ClusterRole

/-!
# Clusters

A text is divided into clusters by the rules for extended grapheme clusters: each character either
joins the cluster before it or begins a new one.

## What a rule looks at

Most rules look at the roles of two neighbours. Three look further back: the rule for pictographs
that a joiner connects, the one for consonants that a linker connects, and the one for flags, which
are pairs of letters in a row. What they look for never lies before the cluster that the character
might join, so a cluster is all that they need to see.

## Representation

A cluster that is being built is reversed, so that its last character stands first.
-/

namespace Calculator.Console

/-- A cluster, or the part of it that is known, with its last character first. -/
abbrev Cluster := List Char

namespace Cluster

open ClusterRole

/-- Whether a cluster ends in a consonant and behind it marks with a linker among them. The flag
`linked` tells whether a linker was seen already. -/
def endsLinked (linked : Bool) : Cluster → Bool
  | [] => false
  | c :: before =>
    if linkers.has c then endsLinked true before
    else if isConjunctMark c then endsLinked linked before
    else linked && ofChar c = consonant

/-- Whether a cluster ends in a pictograph with any extending marks. -/
def endsPictographic : Cluster → Bool
  | [] => false
  | c :: before =>
    if ofChar c = extender then endsPictographic before else ofChar c = pictograph

/-- How many letters of flags stand at the end of a cluster. -/
def regionalCount (cluster : Cluster) : Nat :=
  (cluster.takeWhile fun c ↦ ofChar c = regional).length

/-- Whether a role behind another one makes a syllable of Hangul. -/
def continuesSyllable : ClusterRole → ClusterRole → Bool
  | hangulLead, hangulLead | hangulLead, hangulVowel | hangulLead, hangulOpen
  | hangulLead, hangulClosed => true
  | hangulOpen, hangulVowel | hangulOpen, hangulTail => true
  | hangulVowel, hangulVowel | hangulVowel, hangulTail => true
  | hangulClosed, hangulTail | hangulTail, hangulTail => true
  | _, _ => false

/-- Whether nothing joins a role from either side. -/
def standsAlone (role : ClusterRole) : Bool :=
  role = control || role = carriageReturn || role = lineFeed

/-- Whether a character joins the cluster before it, whose last character is `last`. -/
def isJoinedBy (last : Char) (before : Cluster) (c : Char) : Bool :=
  let left := ofChar last
  let right := ofChar c
  if left = carriageReturn ∧ right = lineFeed then true
  else if standsAlone left || standsAlone right then false
  else if right = extender ∨ right = joiner ∨ right = spacingMark ∨ left = prepended then true
  else if continuesSyllable left right then true
  else match right with
    | consonant => endsLinked false (last :: before)
    | pictograph => left = joiner && endsPictographic before
    | regional => regionalCount (last :: before) % 2 = 1
    | _ => false

/-- The clusters of a text, behind a cluster that ends in `last`. -/
def split (last : Char) (before : Cluster) : List Char → List (List Char)
  | [] => [(last :: before).reverse]
  | c :: rest =>
    if isJoinedBy last before c then split c (last :: before) rest
    else (last :: before).reverse :: split c [] rest

end Cluster

/-- The clusters of a text, in order. -/
def clusters : List Char → List (List Char)
  | [] => []
  | c :: rest => Cluster.split c [] rest

end Calculator.Console
