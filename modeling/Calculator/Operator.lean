/-!
# Binary operators

The five operators with their characters, priorities and meaning on doubles. A higher priority binds
tighter. Only exponentiation groups to the right.

A token may carry any character as its operator, because tokens need not come from text; a
character that is no operator has no priority, so it ends whatever expression it stands in.
-/

namespace Calculator

/-- A binary operator. -/
inductive Operator where
  | add
  | subtract
  | multiply
  | divide
  | power
deriving DecidableEq, Repr, Inhabited

namespace Operator

/-- All operators, in the order in which they are listed for users. -/
def all : List Operator := [add, subtract, multiply, divide, power]

/-- The character that writes an operator. -/
def symbol : Operator → Char
  | add => '+'
  | subtract => '-'
  | multiply => '*'
  | divide => '/'
  | power => '&'

/-- The operator that a character writes. -/
def ofChar? (c : Char) : Option Operator := all.find? fun o ↦ o.symbol = c

/-- How tightly an operator binds, from `1` to `3`. -/
def priority : Operator → Nat
  | add | subtract => 1
  | multiply | divide => 2
  | power => 3

/-- The value of an operator on two doubles. -/
def apply : Operator → Float → Float → Float
  | add, x, y => x + y
  | subtract, x, y => x - y
  | multiply, x, y => x * y
  | divide, x, y => x / y
  | power, x, y => Float.pow x y

end Operator

/-- The priority of the operator that a character writes. -/
def priority (c : Char) : Option Nat := (Operator.ofChar? c).map Operator.priority

/-- Operators of this priority group to the right. -/
def groupsRight (priority : Nat) : Bool := priority = Operator.power.priority

namespace Operator

theorem ofChar?_symbol (o : Operator) : ofChar? o.symbol = some o := by
  cases o <;> decide

theorem symbol_of_ofChar? {c : Char} {o : Operator} (h : ofChar? c = some o) : o.symbol = c := by
  simpa using List.find?_some h

theorem priority_symbol (o : Operator) : Calculator.priority o.symbol = some o.priority := by
  rw [Calculator.priority, ofChar?_symbol]
  rfl

theorem one_le_priority (o : Operator) : 1 ≤ o.priority := by
  cases o <;> decide

end Operator

end Calculator
