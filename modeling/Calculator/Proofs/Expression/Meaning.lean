import Calculator.Computation
import Calculator.Expression.Meaning

/-!
# Tables mean what they say

What a computation looks up is what its words mean: the operator of a character with its priority,
the function of a name, and the check that a result is finite.
-/

namespace Calculator

theorem Computation.value_eq_finite {what : Computation} {x : Float}
    (houtcome : what.outcome = .ok x) : what.value = Meaning.finite what x := by
  rw [value, houtcome]
  rfl

namespace Meaning

/-! ## Operators -/

private theorem ofChar?_eq_none {symbol : Char} (hadd : symbol ≠ '+') (hsubtract : symbol ≠ '-')
    (hmultiply : symbol ≠ '*') (hdivide : symbol ≠ '/') (hpower : symbol ≠ '&') :
    Operator.ofChar? symbol = none := by
  refine List.find?_eq_none.mpr fun o _ ↦ ?_
  rw [decide_eq_true_iff]
  rintro rfl
  cases o with
  | add => exact hadd rfl
  | subtract => exact hsubtract rfl
  | multiply => exact hmultiply rfl
  | divide => exact hdivide rfl
  | power => exact hpower rfl

theorem tightness_eq (symbol : Char) : tightness symbol = priority symbol := by
  rw [priority]
  unfold tightness
  split
  · rfl
  · rfl
  · rfl
  · rfl
  · rfl
  · next hadd hsubtract hmultiply hdivide hpower =>
    rw [ofChar?_eq_none hadd hsubtract hmultiply hdivide hpower]
    rfl

theorem groupsRight_eq (p : Nat) : groupsRight p = Calculator.groupsRight p := by
  rw [Calculator.groupsRight]
  unfold groupsRight
  split
  · rfl
  · next hp => exact (decide_eq_false hp).symm

theorem combination_eq (x : Float) (symbol : Char) (y : Float) :
    combination x symbol y = (Computation.combination x symbol y).value := by
  have hknown (o : Operator) :
      finite (.combination x o.symbol y) (o.apply x y)
        = (Computation.combination x o.symbol y).value :=
    (Computation.value_eq_finite (Computation.outcome_combination x o y)).symm
  unfold combination
  split
  · exact hknown .add
  · exact hknown .subtract
  · exact hknown .multiply
  · exact hknown .divide
  · exact hknown .power
  · next hadd hsubtract hmultiply hdivide hpower =>
    rw [Computation.value, Computation.outcome,
      ofChar?_eq_none hadd hsubtract hmultiply hdivide hpower]
    rfl

/-! ## Literals and functions -/

theorem literal_eq (text : String) : literal text = (Computation.literal text).value := by
  rw [literal, Computation.value, Computation.outcome]
  cases Number.read? text <;> rfl

theorem application_eq (name : String) (x : Float) :
    application name x = (Computation.application name x).value := by
  have hknown (f : MathFunction) :
      finite (.application f.name x) (f.apply x) = (Computation.application f.name x).value :=
    (Computation.value_eq_finite (Computation.outcome_application f x)).symm
  unfold application
  split
  · exact hknown .log
  · exact hknown .ln
  · exact hknown .exp
  · exact hknown .sqrt
  · exact hknown .abs
  · exact hknown .atan
  · exact hknown .acos
  · exact hknown .asin
  · exact hknown .sinh
  · exact hknown .cosh
  · exact hknown .tanh
  · exact hknown .tan
  · exact hknown .sin
  · exact hknown .cos
  · have hnone : MathFunction.ofName? name = none := by
      refine List.find?_eq_none.mpr fun f _ ↦ ?_
      rw [decide_eq_true_iff]
      rintro rfl
      cases f <;> contradiction
    rw [Computation.value, Computation.outcome, hnone]
    rfl

end Meaning

end Calculator
