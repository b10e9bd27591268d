import Calculator.Error
import Calculator.MathFunction
import Calculator.Number.Literal
import Calculator.Operator

/-!
# Single computations

The three ways in which a number comes about: a literal is read, a function is applied, two numbers
are combined. Each result must be finite. Wherever an expression is evaluated, these are the only
places where numbers are made.
-/

namespace Calculator.Computation

/-- The result of a computation, finite or not. -/
def outcome : Computation → Except EvalError Float
  | literal text =>
    match Number.read? text with
    | some x => .ok x
    | none => .error (.badLiteral text)
  | application name argument =>
    match MathFunction.ofName? name with
    | some f => .ok (f.apply argument)
    | none => .error (.unknownFunction name)
  | combination left symbol right =>
    match Operator.ofChar? symbol with
    | some o => .ok (o.apply left right)
    | none => .error (.unknownOperator symbol)

/-- The result of a computation, which must be finite. -/
def value (what : Computation) : Except EvalError Float := do
  let x ← what.outcome
  if x.isFinite then return x else .error (.domain what)

theorem isFinite_of_value {what : Computation} {x : Float} (h : what.value = .ok x) :
    x.isFinite := by
  rw [value] at h
  cases houtcome : what.outcome with
  | error cause => rw [houtcome] at h; cases h
  | ok y =>
    rw [houtcome] at h
    cases hfinite : y.isFinite with
    | false => simp [bind, Except.bind, hfinite] at h
    | true =>
      simp only [bind, Except.bind, hfinite, if_true] at h
      cases h
      exact hfinite

/-- A computation with an outcome fails only if the outcome is not finite. -/
theorem domain_of_value {what : Computation} {x : Float} {cause : EvalError}
    (houtcome : what.outcome = .ok x) (h : what.value = .error cause) :
    cause = .domain what := by
  rw [value, houtcome] at h
  by_cases hfinite : x.isFinite
  · simp [bind, Except.bind, hfinite, pure, Except.pure] at h
  · simpa [bind, Except.bind, hfinite] using h.symm

theorem value_of_outcome {what : Computation} {x : Float} (houtcome : what.outcome = .ok x)
    (hx : x.isFinite) : what.value = .ok x := by
  rw [value, houtcome]
  exact if_pos hx

theorem outcome_application (f : MathFunction) (x : Float) :
    (application f.name x).outcome = .ok (f.apply x) := by
  rw [outcome, f.ofName?_name]

theorem outcome_combination (x : Float) (o : Operator) (y : Float) :
    (combination x o.symbol y).outcome = .ok (o.apply x y) := by
  rw [outcome, o.ofChar?_symbol]

end Calculator.Computation
