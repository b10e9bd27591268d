import Calculator.Proofs.Expression.MinusRuns

/-!
# Runs of minus signs among items

The runs of minus signs can be counted on the items of an expression as on its tokens: reading a
token changes nothing but its number. So an account of an evaluation can say what is due to the
items that are left in terms of the runs in the tokens.
-/

namespace Calculator

open Climbing (Item minusRun)

/-- An item as a token again. -/
def Climbing.Item.token : Item → Token
  | .number value => .number (Number.text value)
  | .operator symbol => .operator symbol
  | .function name => .function name
  | .opening => .opening
  | .closing => .closing

namespace MinusRun

variable {tokens : List Token} {token : Token} {item : Item} {items : List Item}

private theorem endsOperand_token (item : Item) : item.token.endsOperand = item.endsOperand := by
  cases item <;> rfl

private theorem token_ne_minus (hitem : item ≠ .operator '-') : item.token ≠ .operator '-' := by
  cases item with
  | operator symbol =>
    rintro ⟨⟩
    exact hitem rfl
  | _ => rintro ⟨⟩

/-- Another token ends the run before it. -/
theorem runsFrom_cons (htoken : token ≠ .operator '-') (run : MinusRun) (tokens : List Token) :
    runsFrom run (token :: tokens)
      = if run.length = 0 then runsFrom ⟨token.endsOperand, 0⟩ tokens
        else run :: runsFrom ⟨token.endsOperand, 0⟩ tokens := by
  rw [runsFrom]
  exact htoken

/-- Where no run is at hand, only a minus sign asks what stands before it. -/
theorem runsFrom_of_ne_minus (hitem : item ≠ .operator '-') (isBinary : Bool)
    (items : List Item) :
    runsFrom ⟨isBinary, 0⟩ ((item :: items).map Item.token)
      = runsFrom ⟨item.endsOperand, 0⟩ (items.map Item.token) := by
  rw [List.map_cons, runsFrom_cons (token_ne_minus hitem), if_pos rfl, endsOperand_token]

/-- The reading takes a run off as a whole and finds the parity of its length, and what is behind it
asks for nothing before. -/
theorem runsFrom_minusRun (isBinary isBinary' odd : Bool) (length : Nat)
    (hodd : odd = decide ((length + 1) % 2 = 1)) (items : List Item) :
    ∃ length', (minusRun odd items).1 = decide (length' % 2 = 1) ∧
      runsFrom ⟨isBinary, length + 1⟩ (items.map Item.token)
        = ⟨isBinary, length'⟩
          :: runsFrom ⟨isBinary', 0⟩ ((minusRun odd items).2.map Item.token) := by
  induction items generalizing odd length with
  | nil => exact ⟨length + 1, hodd, rfl⟩
  | cons item items ih =>
    by_cases hitem : item = .operator '-'
    · subst hitem
      refine ih (!odd) (length + 1) ?_
      rw [hodd, ← Climbing.decide_odd_succ]
    · refine ⟨length + 1, ?_, ?_⟩
      · rw [Climbing.minusRun_cons hitem]
        exact hodd
      · rw [Climbing.minusRun_cons hitem, runsFrom_of_ne_minus hitem, List.map_cons,
          runsFrom_cons (token_ne_minus hitem), endsOperand_token]
        rfl

/-- Reading changes no run. -/
theorem runsFrom_map_token (h : tokens.mapM Item.ofToken = .ok items) (run : MinusRun) :
    runsFrom run (items.map Item.token) = runsFrom run tokens := by
  induction tokens generalizing items run with
  | nil =>
    cases h
    rfl
  | cons token tokens ih =>
    obtain ⟨item, rest, hitem, hrest, rfl⟩ := Climbing.exists_of_mapM_cons h
    by_cases htoken : token = .operator '-'
    · subst htoken
      cases hitem
      exact ih hrest _
    · have hne := ne_minus_of_ofToken htoken hitem
      rw [List.map_cons, runsFrom_cons (token_ne_minus hne), runsFrom_cons htoken,
        endsOperand_token, endsOperand_of_ofToken hitem, ih hrest]

/-- The parenthesis behind an expression makes no run and lengthens none. -/
theorem runsFrom_append_closing (run : MinusRun) (tokens : List Token) :
    runsFrom run (tokens ++ [.closing]) = runsFrom run tokens := by
  induction tokens generalizing run with
  | nil => rfl
  | cons token tokens ih =>
    by_cases htoken : token = .operator '-'
    · subst htoken
      exact ih _
    · rw [List.cons_append, runsFrom_cons htoken, runsFrom_cons htoken, ih]

end MinusRun

end Calculator
