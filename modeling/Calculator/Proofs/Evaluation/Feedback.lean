import Calculator.Proofs.Evaluation.Finiteness
import Calculator.Proofs.Expression.Signed
import Calculator.Proofs.Lexer.Written
import Calculator.Proofs.Number.RoundTrip

/-!
# Results can be fed back

A result is an expression, and evaluating it gives the result again, to the last bit and with the
sign of a zero.

## The sign comes back as an operator

The digits of a result are one number token, and the minus sign before them is a token of its own.
Evaluation makes it a product by minus one, which is exact.
-/

namespace Calculator

open Climbing (ReadsAs)

variable {x y : Float} {literal : String} {tokens : List Token} {rest : List Char}

/-! ## Signs and a number -/

/-- Minus signs in front of a number change its sign, once for each. -/
theorem evaluate_signed_number (hy : (Computation.literal literal).value = .ok y) (count : Nat) :
    evaluate (minusSigns count ++ [.number literal]) = .ok (signed count y) := by
  have hnumber := WritesItems.number hy
  rcases Nat.eq_zero_or_pos count with rfl | hcount
  · exact hnumber.evaluate_eq (.number y) (by rintro _ ⟨⟩)
  · have hgroup := (ReadsAs.number y).readGroup_signs [] hcount
    rw [((writesItems_minusSigns count).append hnumber).evaluate_eq_readGroup, hgroup,
      Climbing.ok_bind, value_sign_mul (Computation.isFinite_of_value hy)]
    rfl

theorem Writes.minusSigns (count : Nat) (h : Writes tokens rest) :
    Writes (minusSigns count ++ tokens) (List.replicate count '-' ++ rest) := by
  have hblanks : [].all Token.isBlank := rfl
  induction count with
  | zero => exact h
  | succ count ih =>
    have hminus : (Token.operator '-').IsWrittenAs ['-'] := rfl
    have htext : List.replicate (count + 1) '-' ++ rest
        = [] ++ ['-'] ++ (List.replicate count '-' ++ rest) := rfl
    rw [htext]
    exact .cons hblanks hminus ih (by rintro ⟨⟩)

private theorem writes_number (literal : String) : Writes [.number literal] literal.toList := by
  have hblanks : [].all Token.isBlank := rfl
  have hnumber : (Token.number literal).IsWrittenAs literal.toList := rfl
  simpa using Writes.cons hblanks hnumber (.nil hblanks) (by rintro - ⟨⟩)

/-! ## The text of a number as an expression -/

/-- How many minus signs a double is shown with. -/
def signCount (x : Float) : Nat := if Number.isNegative x then 1 else 0

private theorem toList_text (hx : x.isFinite) :
    (Number.text x).toList = List.replicate (signCount x) '-' ++ Number.digits x := by
  rw [Number.text_eq hx, String.toList_append, String.toList_ofList, signCount]
  split <;> rfl

/-- A shown number is one number token, behind a minus sign if it is negative. -/
theorem tokenize_text (hx : x.isFinite) :
    tokenize (Number.text x)
      = .ok (minusSigns (signCount x) ++ [.number (String.ofList (Number.digits x))]) := by
  have hnumber := writes_number (String.ofList (Number.digits x))
  rw [String.toList_ofList] at hnumber
  have hwrites := hnumber.minusSigns (signCount x)
  rw [← toList_text hx] at hwrites
  refine tokenize_of_writes hwrites fun token htoken ↦ ?_
  rcases List.mem_append.mp htoken with hminus | hnumber
  · rw [List.eq_of_mem_replicate hminus]
    rfl
  · rw [List.mem_singleton.mp hnumber, Token.IsLexical, String.toList_ofList]
    exact Number.isNumberText_digits x

private theorem value_digits (hx : x.isFinite) :
    (Computation.literal (String.ofList (Number.digits x))).value
      = .ok (signed (signCount x) x) := by
  refine Computation.value_of_outcome ?_ (isFinite_signed hx _)
  rw [Computation.outcome, Number.read?_digits hx, signed, signCount]
  cases Number.isNegative x <;> rfl

/-- Taking the sign away and putting it back changes nothing. -/
theorem signed_signed (hx : x.isFinite) (count : Nat) : signed count (signed count x) = x := by
  rw [signed, signed]
  split
  · exact Number.neg_neg hx
  · rfl

/-- **A finite number is the value of its text**, to the last bit. -/
theorem evaluateText_text (hx : x.isFinite) : evaluateText (Number.text x) = .ok x := by
  have hvalue := evaluate_signed_number (value_digits hx) (signCount x)
  rw [signed_signed hx] at hvalue
  rw [evaluateText, tokenize_text hx]
  exact congrArg (Except.mapError Error.eval) hvalue

/-- **Results can be fed back.** Evaluating a result gives the same value, to the last bit, and so
the same text. -/
theorem eval_eval (text : String) (h : ¬ "ERROR".toList <+: (eval text).toList) :
    (∃ x, evaluateText text = .ok x ∧ evaluateText (eval text) = .ok x) ∧
      eval (eval text) = eval text := by
  cases hvalue : evaluateText text with
  | error cause => exact absurd ((prefix_eval_iff text).mpr ⟨cause, hvalue⟩) h
  | ok x =>
    have hshown : eval text = Number.text x := by
      rw [eval, hvalue]
      rfl
    have hagain := evaluateText_text (isFinite_of_evaluateText hvalue)
    rw [hshown]
    refine ⟨⟨x, rfl, hagain⟩, ?_⟩
    rw [eval, hagain]
    rfl

theorem eval_eval_of_negative_quotient :
    eval "(1 - 4) / 9e20" = "-0.0000000000000000000033333333333333333" ∧
      ¬ "ERROR".toList <+: (eval "(1 - 4) / 9e20").toList ∧
      evaluateText "-0.0000000000000000000033333333333333333" = evaluateText "(1 - 4) / 9e20" ∧
      eval "-0.0000000000000000000033333333333333333"
        = "-0.0000000000000000000033333333333333333" := by
  have hvalue : eval "(1 - 4) / 9e20" = "-0.0000000000000000000033333333333333333" := by
    decide +kernel
  have hresult : ¬ "ERROR".toList <+: (eval "(1 - 4) / 9e20").toList := by
    rw [hvalue]
    decide
  obtain ⟨⟨x, hx, hagain⟩, hshown⟩ := eval_eval "(1 - 4) / 9e20" hresult
  rw [hvalue] at hagain hshown
  exact ⟨hvalue, hresult, hagain.trans hx.symm, hshown⟩

end Calculator
