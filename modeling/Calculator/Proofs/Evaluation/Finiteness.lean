import Calculator.Proofs.Evaluation.Moments
import Calculator.Proofs.Expression.Written
import Calculator.Proofs.Number.Text
import Calculator.Proofs.Token.Munch

/-!
# No number is ever infinite

Every number that comes about is checked where it comes about, whatever the functions of doubles
answer. So no infinity and no word for what is no number circulates in a reduction, where a later
division or arc tangent could turn it into a plausible result, and none is ever shown.
-/

namespace Calculator

open Reduction Sequence

variable {tokens : List Token} {s : Sequence} {text : String} {x : Float}

/-! ## During a reduction -/

/-- **At every moment every number in the sequence is finite.** -/
theorem isFinite_of_mem_cells (h : prepare tokens = .ok s) {k : Nat}
    (hx : .number x ∈ (Evaluation.sequenceAt s k).cells) : x.isFinite := by
  obtain ⟨items, body, -, hs⟩ := exists_isPrepared h
  obtain ⟨es, hchronicle⟩ := exists_chronicle_at hs k
  rw [hchronicle.represents.cells_eq] at hx
  obtain ⟨e, he, hcell⟩ := List.mem_map.mp hx
  have hsettled := hchronicle.settled e he
  rwa [hcell] at hsettled

/-! ## Results -/

theorem isFinite_of_evaluate (h : evaluate tokens = .ok x) : x.isFinite := by
  obtain ⟨items, -, -, hx⟩ := exists_writesItems_of_evaluate h
  exact hx

theorem isFinite_of_evaluateText (h : evaluateText text = .ok x) : x.isFinite := by
  rw [evaluateText] at h
  cases htokens : tokenize text with
  | error cause =>
    rw [htokens] at h
    cases h
  | ok tokens =>
    rw [htokens] at h
    cases hvalue : evaluate tokens with
    | error cause =>
      simp only [Except.mapError, bind, Except.bind, hvalue] at h
      cases h
    | ok y =>
      simp only [Except.mapError, bind, Except.bind, hvalue] at h
      cases h
      exact isFinite_of_evaluate hvalue

/-! ## Shown results -/

/-- The text of a finite double begins with a digit, or with a minus sign and a digit. -/
theorem text_cases (hx : x.isFinite) :
    ∃ c rest, c.isDigit ∧
      ((Number.text x).toList = c :: rest ∨ (Number.text x).toList = '-' :: c :: rest) := by
  obtain ⟨digits, hdigits, htext⟩ := Number.text_of_isFinite hx
  cases digits with
  | nil => cases hdigits
  | cons c rest =>
    refine ⟨c, rest, Token.isDigit_of_isNumberText hdigits, ?_⟩
    rw [htext]
    cases Number.isNegative x
    · exact .inl (by simp)
    · exact .inr (by simp)

private theorem text_not_mem_words (hx : x.isFinite) : Number.text x ∉ ["NaN", "inf", "-inf"] := by
  intro hword
  obtain ⟨c, rest, hc, htext⟩ := text_cases hx
  simp only [List.mem_cons, List.not_mem_nil, or_false] at hword
  rcases hword with hword | hword | hword <;> rw [hword] at htext <;>
    rcases htext with htext | htext <;> cases htext <;> cases hc

private theorem not_prefix_text (hx : x.isFinite) : ¬ "ERROR".toList <+:
    (Number.text x).toList := by
  rintro ⟨behind, hbehind⟩
  obtain ⟨c, rest, hc, htext⟩ := text_cases hx
  rw [← hbehind] at htext
  rcases htext with htext | htext <;> cases htext
  cases hc

/-- What a text evaluates to: the text of a finite number, or of the error. -/
theorem eval_cases (text : String) :
    match evaluateText text with
    | .ok x => eval text = Number.text x ∧ eval text ∉ ["NaN", "inf", "-inf"]
    | .error cause => eval text = "ERROR: " ++ cause.message := by
  rw [eval]
  cases h : evaluateText text with
  | ok x => exact ⟨rfl, text_not_mem_words (isFinite_of_evaluateText h)⟩
  | error cause => rfl

/-- A result begins with the word for an error just where there is no value. -/
theorem prefix_eval_iff (text : String) :
    "ERROR".toList <+: (eval text).toList ↔ ∃ cause, evaluateText text = .error cause := by
  rw [eval]
  cases h : evaluateText text with
  | ok x =>
    refine iff_of_false (not_prefix_text (isFinite_of_evaluateText h)) ?_
    rintro ⟨_, ⟨⟩⟩
  | error cause =>
    refine iff_of_true ⟨": ".toList ++ cause.message.toList, ?_⟩ ⟨cause, rfl⟩
    rw [showResult, String.toList_append]
    rfl

/-! ## No infinity anywhere -/

/-- **No infinity circulates and none comes out**: neither at any moment of a reduction, nor as a
value, nor as text. -/
theorem numbers_stay_finite :
    (∀ tokens s, prepare tokens = .ok s → ∀ k x,
        .number x ∈ (Evaluation.sequenceAt s k).cells → x.isFinite) ∧
      (∀ tokens x, evaluate tokens = .ok x → x.isFinite) ∧
      (∀ text x, evaluateText text = .ok x → x.isFinite) ∧
      ∀ text,
        (match evaluateText text with
          | .ok x => eval text = Number.text x ∧ eval text ∉ ["NaN", "inf", "-inf"]
          | .error cause => eval text = "ERROR: " ++ cause.message) ∧
        ("ERROR".toList <+: (eval text).toList ↔ ∃ cause, evaluateText text = .error cause) :=
  ⟨fun _ _ h _ _ hx ↦ isFinite_of_mem_cells h hx, fun _ _ h ↦ isFinite_of_evaluate h,
    fun _ _ h ↦ isFinite_of_evaluateText h, fun text ↦ ⟨eval_cases text, prefix_eval_iff text⟩⟩

theorem numbers_stay_finite_in_difference :
    let s := (((empty.pushBack (.number 3.0)).pushBack (.operator '-')).pushBack
      (.number 5.0)).enclose
    (prepare [.number "3", .operator '-', .number "5"] = .ok s ∧
        .number (-2.0) ∈ (Evaluation.sequenceAt s 23).cells ∧ (-2.0 : Float).isFinite) ∧
      (evaluate [.number "3", .operator '-', .number "5"] = .ok (-2.0) ∧
        (-2.0 : Float).isFinite) ∧
      (evaluateText "3 - 5" = .ok (-2.0) ∧ (-2.0 : Float).isFinite) ∧
      eval "3 - 5" = "-2" ∧ ¬ "ERROR".toList <+: (eval "3 - 5").toList := by
  intro s
  have hprepare : prepare [.number "3", .operator '-', .number "5"] = .ok s := by decide +kernel
  have hcell : Cell.number (-2.0) ∈ (Evaluation.sequenceAt s 23).cells := by decide +kernel
  have hvalue : evaluate [.number "3", .operator '-', .number "5"] = .ok (-2.0) := by
    decide +kernel
  have htext : evaluateText "3 - 5" = .ok (-2.0) := by decide +kernel
  obtain ⟨hcells, hvalues, htexts, hshown⟩ := numbers_stay_finite
  have hshown := hshown "3 - 5"
  rw [htext] at hshown
  refine ⟨⟨hprepare, hcell, hcells _ _ hprepare _ _ hcell⟩, ⟨hvalue, hvalues _ _ hvalue⟩,
    ⟨htext, htexts _ _ htext⟩, hshown.1.1.trans (by decide +kernel), ?_⟩
  rw [hshown.2]
  rintro ⟨_, ⟨⟩⟩

end Calculator
