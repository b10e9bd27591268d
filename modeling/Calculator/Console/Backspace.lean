import Calculator.Console.Cluster
import Calculator.LineEditor

/-!
# Backspaces

The editor of an input that is no terminal. A backspace in a line takes back the cluster before it,
as if the line had been typed. At the start of a line there is nothing to take back.

## Long clusters

How much a backspace takes back is kept as a number of bytes, in one byte for each cluster. So of a
cluster of 256 bytes or more only the remainder of its size by 256 is taken back, from its end. All
smaller clusters go as a whole. An editor that would have to cut a character in two breaks down.
-/

namespace Calculator.Console

open LineEditor (backspace)

/-- The size of a piece of text in bytes. -/
def byteCount (text : List Char) : Nat := (text.map Char.utf8Size).foldl (· + ·) 0

/-- Drops characters that have so many bytes together, if there are such. -/
def dropBytes? (count : Nat) : List Char → Option (List Char)
  | [] => some []
  | c :: rest =>
    if count = 0 then some (c :: rest)
    else if count < c.utf8Size then none
    else dropBytes? (count - c.utf8Size) rest

/-- A line that is being typed. -/
structure Draft where
  /-- The characters of the line, the last one first. -/
  characters : List Char
  /-- How much each cluster of the line takes back, the last one first. -/
  sizes : List UInt8

namespace Draft

/-- A line of which nothing is typed. -/
def empty : Draft := ⟨[], []⟩

/-- Types a cluster. -/
def append (draft : Draft) (cluster : List Char) : Draft where
  characters := cluster.reverse ++ draft.characters
  sizes := UInt8.ofNat (byteCount cluster) :: draft.sizes

/-- Takes back the cluster typed last. -/
def erase? (draft : Draft) : Option Draft :=
  match draft.sizes with
  | [] => some draft
  | size :: sizes => (dropBytes? size.toNat draft.characters).map fun left ↦ ⟨left, sizes⟩

/-- Types a cluster, or takes one back if it is a backspace. -/
def enter? (draft : Draft) (cluster : List Char) : Option Draft :=
  if cluster = [backspace] then draft.erase? else some (draft.append cluster)

/-- The line as it stands. -/
def text (draft : Draft) : String := String.ofList draft.characters.reverse

end Draft

/-- A line as its backspaces leave it. -/
def edited (line : String) : LineAnswer :=
  if backspace ∈ line.toList then
    match (clusters line.toList).foldlM Draft.enter? .empty with
    | some draft => .line draft.text
    | none => .crashed
  else .line line

/-- The editor of an input that is no terminal. -/
def editor : LineEditor := .ofLines edited

end Calculator.Console
