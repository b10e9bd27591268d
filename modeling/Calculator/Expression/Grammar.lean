import Calculator.Operator
import Calculator.Token

/-!
# The grammar of expressions

Which token lists are expressions, said without any evaluation:

```text
expression  ::=  operand (operator operand)*
operand     ::=  '-'* primary
primary     ::=  number | '(' expression ')' | function '(' expression ')'
```
-/

namespace Calculator

mutual

/-- Operands with operators between them. -/
inductive IsExpression : List Token → Prop where
  | operand {tokens : List Token} : IsOperand tokens → IsExpression tokens
  | combination {left right : List Token} (operator : Operator) :
      IsOperand left → IsExpression right →
      IsExpression (left ++ .operator operator.symbol :: right)

/-- A primary behind any number of minus signs. -/
inductive IsOperand : List Token → Prop where
  | primary {tokens : List Token} : IsPrimary tokens → IsOperand tokens
  | minus {tokens : List Token} : IsOperand tokens → IsOperand (.operator '-' :: tokens)

/-- A number, a group or a function with its argument. -/
inductive IsPrimary : List Token → Prop where
  | number (literal : String) : IsPrimary [.number literal]
  | group {tokens : List Token} :
      IsExpression tokens → IsPrimary (.opening :: tokens ++ [.closing])
  | application {tokens : List Token} (name : String) :
      IsExpression tokens → IsPrimary (.function name :: .opening :: tokens ++ [.closing])

end

end Calculator
