import Calculator.Proofs.Evaluation.Moments
import Calculator.Proofs.Evaluation.Spending
import Calculator.Proofs.Expression.ItemRuns
import Calculator.Proofs.Reduction.LastValue

/-!
# Everything is done once

Each operator and each function of an expression is applied once, and nothing else is done. The
trace of a reduction that has a value tells so: what its events say was done is, in some order, what
its tokens ask for, and the last value they tell of is the result.

## What tokens ask for

Every operator but the minus sign asks for a combination, and every name for an application. A run
of minus signs asks for one combination as a whole, with the symbol that it amounts to, and for one
more event unless it is an odd run between two operands.

## One account for each deed

A reduction comes across operators in an order of its own, so deeds are counted: for each deed there
is an account by which just the events that tell of it have a price. What is due to the items that
are left is how often they ask for the deed.
-/

namespace Calculator

namespace Log

/-- What an event of the trace tells was done, without the numbers it was done to. -/
inductive Deed where
  /-- A word was read, or found to be none. -/
  | reading
  /-- A run of minus signs was made a factor. -/
  | unaryMinusRun
  /-- A run of minus signs was made an addition. -/
  | binaryMinusRun
  | application (name : String)
  | combination (symbol : Char)
deriving DecidableEq

namespace Deed

/-- Whether two numbers were combined. -/
def isCombination : Deed → Bool
  | combination _ => true
  | reading | unaryMinusRun | binaryMinusRun | application _ => false

end Deed

/-- The deed that an event tells of. -/
def Event.deed? : Event → Option Deed
  | token _ | lexError _ => some .reading
  | unaryMinusRun _ => some .unaryMinusRun
  | binaryMinusRun => some .binaryMinusRun
  | application name _ _ => some (.application name)
  | combination _ symbol _ _ => some (.combination symbol)
  | reducing _ | result _ | failed _ _ | noHistory _ => none

/-- How the log words a deed, with the value that came of it. -/
def Deed.IsWorded (message : String) (value? : Option Float) : Deed → Prop
  | .reading =>
    (∃ token : Token, message = "token " ++ token.describe) ∨
      ∃ cause : LexError, message = "lex error: " ++ cause.message
  | .unaryMinusRun => ∃ sign, message = "unary minus run -> " ++ Number.text sign ++ " *"
  | .binaryMinusRun => message = "binary minus run -> +"
  | .application name => ∃ argument value, value? = some value ∧
    message = name ++ "(" ++ Number.text argument ++ ")" ++ " = " ++ Number.text value
  | .combination symbol => ∃ left right value, value? = some value ∧
    message = Number.text left ++ " " ++ symbol.toString ++ " " ++ Number.text right ++ " = "
      ++ Number.text value

/-- An event is worded as its deed is. -/
theorem Event.isWorded {event : Event} {deed : Deed} (h : event.deed? = some deed) :
    deed.IsWorded event.message event.value? := by
  cases event with
  | token token => cases h; exact .inl ⟨token, rfl⟩
  | lexError cause => cases h; exact .inr ⟨cause, rfl⟩
  | unaryMinusRun sign => cases h; exact ⟨sign, rfl⟩
  | binaryMinusRun => cases h; rfl
  | application name argument value => cases h; exact ⟨argument, value, rfl, rfl⟩
  | combination left symbol right value => cases h; exact ⟨left, right, value, rfl, rfl⟩
  | _ => cases h

/-- The deeds are what the trace tells of. -/
theorem Event.isSome_deed? (event : Event) : event.deed?.isSome ↔ event.level = .trace := by
  cases event <;> simp [deed?, level]

end Log

open Climbing (Item binaryOperator minusRun readItems)
open Log Reduction Sequence

/-! ## What tokens ask for -/

/-- What a token asks for by itself. -/
def Token.deed? : Token → Option Deed
  | .operator symbol => if symbol = '-' then none else some (.combination symbol)
  | .function name => some (.application name)
  | .number _ | .opening | .closing => none

/-- What a run of minus signs asks for. -/
def MinusRun.deeds (run : MinusRun) : List Deed :=
  if run.isBinary then
    if run.length % 2 = 1 then [.combination '-'] else [.binaryMinusRun, .combination '+']
  else [.unaryMinusRun, .combination '*']

/-- What tokens ask for, behind an operand that has ended or elsewhere. -/
def deedsFrom (behindOperand : Bool) (tokens : List Token) : List Deed :=
  tokens.filterMap Token.deed?
    ++ (MinusRun.runsFrom ⟨behindOperand, 0⟩ tokens).flatMap MinusRun.deeds

/-- What the tokens of an expression ask for. -/
def deedsOf (tokens : List Token) : List Deed := deedsFrom false tokens

/-! ## What items ask for -/

private theorem filterMap_cons_toList {α β : Type} (f : α → Option β) (a : α) (as : List α) :
    (a :: as).filterMap f = (f a).toList ++ as.filterMap f := by
  rw [List.filterMap_cons]
  cases f a <;> rfl

/-- A sign asks for nothing by itself. -/
private theorem filterMap_deed?_minusRun (odd : Bool) (items : List Item) :
    ((minusRun odd items).2.map Item.token).filterMap Token.deed?
      = (items.map Item.token).filterMap Token.deed? := by
  induction items generalizing odd with
  | nil => rfl
  | cons item items ih =>
    by_cases hitem : item = .operator '-'
    · subst hitem
      exact ih (!odd)
    · rw [Climbing.minusRun_cons hitem]

private theorem filterMap_deed?_map_token {tokens : List Token} {items : List Item}
    (h : tokens.mapM Item.ofToken = .ok items) :
    (items.map Item.token).filterMap Token.deed? = tokens.filterMap Token.deed? := by
  induction tokens generalizing items with
  | nil =>
    cases h
    rfl
  | cons token tokens ih =>
    obtain ⟨item, rest, hitem, hrest, rfl⟩ := Climbing.exists_of_mapM_cons h
    have hdeed : item.token.deed? = token.deed? := by
      have htoken := Climbing.eq_of_ofToken hitem
      cases item with
      | number x =>
        obtain ⟨literal, rfl⟩ := htoken
        rfl
      | _ =>
        cases htoken
        rfl
    rw [List.map_cons, filterMap_cons_toList, filterMap_cons_toList, hdeed, ih hrest]

/-- Reading changes nothing of what is asked for, and neither does the parenthesis behind an
expression. -/
theorem deedsFrom_items {tokens : List Token} {items : List Item}
    (h : readItems tokens = .ok items) :
    deedsFrom false ((items ++ [Item.closing]).map Item.token) = deedsOf tokens := by
  have hreads := (WritesItems.of_readItems h).reads
  have hclosing : [Item.closing].map Item.token = [Token.closing] := rfl
  have hnothing : [Token.closing].filterMap Token.deed? = [] := rfl
  rw [deedsFrom, List.map_append, hclosing, List.filterMap_append, hnothing, List.append_nil,
    MinusRun.runsFrom_append_closing, filterMap_deed?_map_token hreads,
    MinusRun.runsFrom_map_token hreads]
  rfl

/-- How often items ask for a deed. -/
def deedsDue (deed : Deed) (behindOperand : Bool) (items : List Item) : Nat :=
  (deedsFrom behindOperand (items.map Item.token)).count deed

variable {deed : Deed}

theorem deedsDue_cons {item : Item} (hitem : item ≠ .operator '-') (behindOperand : Bool)
    (items : List Item) :
    deedsDue deed behindOperand (item :: items)
      = item.token.deed?.toList.count deed + deedsDue deed item.endsOperand items := by
  rw [deedsDue, deedsFrom, MinusRun.runsFrom_of_ne_minus hitem, List.map_cons,
    filterMap_cons_toList, List.append_assoc, List.count_append]
  rfl

/-- A run asks for what its side and its parity say, and what is behind it asks as before. -/
theorem deedsDue_minus (deed : Deed) (behindOperand behindOperand' : Bool) (items : List Item) :
    ∃ length, (minusRun true items).1 = decide (length % 2 = 1) ∧
      deedsDue deed behindOperand (.operator '-' :: items)
        = (MinusRun.deeds ⟨behindOperand, length⟩).count deed
          + deedsDue deed behindOperand' (minusRun true items).2 := by
  obtain ⟨length, hodd, hrun⟩ :=
    MinusRun.runsFrom_minusRun behindOperand behindOperand' true 0 rfl items
  refine ⟨length, hodd, ?_⟩
  have hfirst : deedsFrom behindOperand ((.operator '-' :: items).map Item.token)
      = (items.map Item.token).filterMap Token.deed?
        ++ (MinusRun.runsFrom ⟨behindOperand, 0 + 1⟩ (items.map Item.token)).flatMap
          MinusRun.deeds := rfl
  rw [deedsDue, hfirst, hrun, deedsDue, deedsFrom, filterMap_deed?_minusRun, List.flatMap_cons,
    List.count_append, List.count_append, List.count_append]
  exact Nat.add_left_comm _ _ _

/-- The account of a deed: each event that tells of it costs one. -/
def Reduction.Account.ofDeed (deed : Deed) : Account where
  price
    | .report event => event.deed?.toList.count deed
    | .start _ | .look _ | .edit _ => 0
  due := deedsDue deed
  price_start _ := rfl
  price_look _ := rfl
  price_set _ _ := rfl
  price_remove _ := rfl
  price_reducing _ := rfl
  price_result _ := rfl
  due_number _ _ := (deedsDue_cons (by rintro ⟨⟩) _ _).trans (Nat.zero_add _)
  due_opening _ := (deedsDue_cons (by rintro ⟨⟩) _ _).trans (Nat.zero_add _)
  due_closing _ := (deedsDue_cons (by rintro ⟨⟩) _ _).trans (Nat.zero_add _)
  due_function _ _ _ _ := deedsDue_cons (by rintro ⟨⟩) _ _
  due_factor _ _ items := by
    obtain ⟨length, -, hdue⟩ := deedsDue_minus deed false false items
    have hdeeds : MinusRun.deeds ⟨false, length⟩ = [.unaryMinusRun] ++ [.combination '*'] := rfl
    rw [hdue, hdeeds, List.count_append, deedsDue_cons (by decide), Nat.add_assoc]
    rfl
  due_operator {symbol} _ _ _ _ items _ := by
    rw [binaryOperator]
    split
    · next hsymbol =>
      subst hsymbol
      obtain ⟨length, hodd, hdue⟩ := deedsDue_minus deed true false items
      generalize minusRun true items = run at hodd hdue
      obtain ⟨odd, items'⟩ := run
      dsimp only at hodd hdue
      subst hodd
      rw [hdue, MinusRun.deeds]
      by_cases hlength : length % 2 = 1
      · simp [hlength, Event.deed?]
      · simp [hlength, Event.deed?, List.count_cons, Nat.add_comm]
    · next hsymbol =>
      have hoperator : Item.operator symbol ≠ .operator '-' := fun h ↦ hsymbol (Item.operator.inj h)
      have hdeed : (Item.operator symbol).token.deed? = some (.combination symbol) :=
        if_neg hsymbol
      rw [deedsDue_cons hoperator, hdeed, if_pos rfl, Nat.zero_add]
      rfl

theorem Reduction.Account.cost_ofDeed (history : List Step) :
    (ofDeed deed).cost history
      = ((history.filterMap Step.event?).filterMap Event.deed?).count deed := by
  induction history with
  | nil => rfl
  | cons step history ih =>
    rw [cost, ih, filterMap_cons_toList]
    cases step with
    | report event =>
      have htold : (Step.report event).event?.toList = [event] := rfl
      rw [htold, List.singleton_append, filterMap_cons_toList, List.count_append]
      rfl
    | _ => exact Nat.zero_add _

/-! ## What the trace tells of -/

namespace Evaluation

/-- What the trace tells was done, in order. -/
def deeds (e : Evaluation) : List Deed := e.events.filterMap Event.deed?

/-- The values that the trace tells of, in order. -/
def values (e : Evaluation) : List Float := e.events.filterMap Event.value?

end Evaluation

variable {tokens : List Token} {x : Float}

/-- A value comes from the reduction of a prepared sequence. -/
theorem exists_reduction_of_evaluate (h : evaluate tokens = .ok x) :
    ∃ s, prepare tokens = .ok s ∧ Evaluation.ofTokens tokens = Evaluation.ofSequence s ∧
      (Evaluation.ofSequence s).result = .ok x := by
  have hx : (Evaluation.ofTokens tokens).result = .ok x := by
    rw [result_ofTokens, ← evaluate_eq_readValue, h]
    rfl
  rw [Evaluation.ofTokens] at hx ⊢
  cases hprepare : prepare tokens with
  | error cause =>
    rw [hprepare] at hx
    cases hx
  | ok s =>
    rw [hprepare] at hx
    exact ⟨s, rfl, rfl, hx⟩

private theorem deeds_perm (h : evaluate tokens = .ok x) :
    (Evaluation.ofTokens tokens).deeds.Perm (deedsOf tokens) := by
  obtain ⟨s, hprepare, hreduction, hx⟩ := exists_reduction_of_evaluate h
  obtain ⟨items, body, hitems, hs⟩ := exists_isPrepared hprepare
  rw [hreduction]
  refine List.perm_iff_count.mpr fun deed ↦ ?_
  have hcost := (Account.ofDeed deed).cost_history_eq hs hx
  have hdue : (Account.ofDeed deed).due false (items ++ [.closing])
      = (deedsOf tokens).count deed := congrArg (List.count deed) (deedsFrom_items hitems)
  have hnothing : (Account.ofDeed deed).due true [] = 0 := rfl
  rwa [Account.cost_ofDeed, hdue, hnothing, Nat.add_zero] at hcost

private theorem grants_reduce (s : Sequence) :
    Grants (reduce s) ⟨s, []⟩ fun x w ↦ ∀ v, w.history.findSome? Step.value? = some v → v = x := by
  rw [reduce]
  refine (grants_report _ _).bind ?_
  rintro _ _ rfl
  cases s.head with
  | none => exact grants_fail _
  | some root =>
    have hbegins : Task.Begins [] ⟨s, [.report (.reducing s)]⟩ (.group root) :=
      QuietSince.step rfl []
    refine (leavesLast_perform _ [] _ _ hbegins).bind ?_
    rintro h w₁ h₁
    refine (grants_get w₁).bind ?_
    rintro _ _ ⟨rfl, rfl⟩
    dsimp only
    split
    · exact grants_fail _
    refine (grants_number h _).bind ?_
    rintro x w₂ ⟨h₂, hx⟩
    refine (grants_report _ w₂).bind ?_
    rintro _ _ rfl
    refine grants_pure fun v hv ↦ ?_
    have hresult : Undisturbed w₂ ⟨w₂.sequence, .report (.result x) :: w₂.history⟩ :=
      undisturbed_note rfl w₂
    obtain ⟨later, hhistory, hlast⟩ := h₁.undisturbed (h₂.trans hresult)
    rw [hhistory, List.append_nil] at hv
    have hcell := (hlast v hv).symm.trans hx
    exact Cell.number.inj (Option.some.inj hcell)

/-- The last value is the result. -/
theorem eq_of_getLast?_values (h : evaluate tokens = .ok x) {v : Float}
    (hv : (Evaluation.ofTokens tokens).values.getLast? = some v) : v = x := by
  obtain ⟨s, -, hreduction, hx⟩ := exists_reduction_of_evaluate h
  have hhistory : (Evaluation.ofSequence s).history
      = ((reduce s).run.run ⟨s, []⟩).2.history.reverse := rfl
  rw [hreduction, Evaluation.values, Evaluation.events, List.filterMap_filterMap,
    List.getLast?_filterMap, hhistory, List.reverse_reverse] at hv
  exact grants_reduce s x hx v hv

/-! ## How often -/

/-- Whether a token is an operator other than the minus sign. -/
def Token.isOtherOperator : Token → Bool
  | .operator symbol => symbol ≠ '-'
  | .number _ | .function _ | .opening | .closing => false

/-- What is counted of the deeds is counted of tokens and of runs. -/
theorem countP_deedsOf {p : Deed → Bool} {ofToken : Token → Bool} {ofRun : MinusRun → Bool}
    (htoken : ∀ token : Token, (token.deed?.map p).getD false = ofToken token)
    (hrun : ∀ run : MinusRun, run.deeds.countP p = if ofRun run then 1 else 0)
    (tokens : List Token) :
    (deedsOf tokens).countP p = tokens.countP ofToken + (minusRuns tokens).countP ofRun := by
  have hruns (runs : List MinusRun) :
      (runs.flatMap MinusRun.deeds).countP p = runs.countP ofRun := by
    induction runs with
    | nil => rfl
    | cons run runs ih =>
      rw [List.flatMap_cons, List.countP_append, List.countP_cons, hrun, ih, Nat.add_comm]
  rw [deedsOf, deedsFrom, List.countP_append, List.countP_filterMap, hruns]
  simp only [htoken]
  rfl

private theorem countP_isCombination_deedsOf (tokens : List Token) :
    (deedsOf tokens).countP Deed.isCombination
      = tokens.countP Token.isOtherOperator + (minusRuns tokens).length := by
  have htoken (token : Token) :
      (token.deed?.map Deed.isCombination).getD false = token.isOtherOperator := by
    cases token with
    | operator symbol =>
      by_cases hsymbol : symbol = '-' <;>
        simp [Token.deed?, Token.isOtherOperator, Deed.isCombination, hsymbol]
    | _ => rfl
  have hrun (run : MinusRun) : run.deeds.countP Deed.isCombination = if true then 1 else 0 := by
    rw [MinusRun.deeds]
    split
    · split <;> rfl
    · rfl
  rw [countP_deedsOf htoken hrun, List.countP_true]

private theorem count_application_deedsOf (name : String) (tokens : List Token) :
    (deedsOf tokens).count (.application name) = tokens.count (.function name) := by
  have htoken (token : Token) :
      (token.deed?.map (· == .application name)).getD false = (token == .function name) := by
    cases token with
    | operator symbol => by_cases hsymbol : symbol = '-' <;> simp [Token.deed?, hsymbol]
    | function other => simp [Token.deed?]
    | _ => rfl
  have hrun (run : MinusRun) :
      run.deeds.countP (· == .application name) = if false then 1 else 0 := by
    rw [MinusRun.deeds]
    split
    · split <;> rfl
    · rfl
  exact (countP_deedsOf htoken hrun tokens).trans (by simp [List.count])

/-- By itself a token asks for nothing, for a combination or for an application. -/
theorem deed?_cases (token : Token) : token.deed? = none ∨
    (∃ symbol, token.deed? = some (.combination symbol)) ∨
      ∃ name, token.deed? = some (.application name) := by
  cases token with
  | operator symbol =>
    by_cases hsymbol : symbol = '-'
    · exact .inl (if_pos hsymbol)
    · exact .inr (.inl ⟨symbol, if_neg hsymbol⟩)
  | function name => exact .inr (.inr ⟨name, rfl⟩)
  | _ => exact .inl rfl

private theorem count_unaryMinusRun_deedsOf (tokens : List Token) :
    (deedsOf tokens).count .unaryMinusRun = (minusRuns tokens).countP (!·.isBinary) := by
  have htoken (token : Token) : (token.deed?.map (· == .unaryMinusRun)).getD false = false := by
    rcases deed?_cases token with h | ⟨_, h⟩ | ⟨_, h⟩ <;> rw [h] <;> rfl
  have hrun (run : MinusRun) :
      run.deeds.countP (· == .unaryMinusRun) = if !run.isBinary then 1 else 0 := by
    obtain ⟨isBinary, length⟩ := run
    rw [MinusRun.deeds]
    cases isBinary with
    | false => rfl
    | true => rcases Nat.mod_two_eq_zero_or_one length with h | h <;> simp [h]
  exact (countP_deedsOf htoken hrun tokens).trans (by simp)

private theorem count_binaryMinusRun_deedsOf (tokens : List Token) :
    (deedsOf tokens).count .binaryMinusRun
      = (minusRuns tokens).countP fun run ↦ run.isBinary && run.length % 2 = 0 := by
  have htoken (token : Token) : (token.deed?.map (· == .binaryMinusRun)).getD false = false := by
    rcases deed?_cases token with h | ⟨_, h⟩ | ⟨_, h⟩ <;> rw [h] <;> rfl
  have hrun (run : MinusRun) :
      run.deeds.countP (· == .binaryMinusRun)
        = if run.isBinary && run.length % 2 = 0 then 1 else 0 := by
    obtain ⟨isBinary, length⟩ := run
    rw [MinusRun.deeds]
    cases isBinary with
    | false => rfl
    | true => rcases Nat.mod_two_eq_zero_or_one length with h | h <;> simp [h]
  exact (countP_deedsOf htoken hrun tokens).trans (by simp)

/-! ## Once each -/

/-- In an evaluation with the value `x` every operator and every function is applied once, and what
is applied last has that value. -/
structure AppliesOnce (tokens : List Token) (x : Float) : Prop where
  /-- The trace tells of what the tokens ask for, and of nothing else. -/
  deeds : (Evaluation.ofTokens tokens).deeds.Perm (deedsOf tokens)
  combinations : (Evaluation.ofTokens tokens).deeds.countP Deed.isCombination
    = tokens.countP Token.isOtherOperator + (minusRuns tokens).length
  applications (name : String) : (Evaluation.ofTokens tokens).deeds.count (.application name)
    = tokens.count (.function name)
  unaryMinusRuns : (Evaluation.ofTokens tokens).deeds.count .unaryMinusRun
    = (minusRuns tokens).countP (!·.isBinary)
  binaryMinusRuns : (Evaluation.ofTokens tokens).deeds.count .binaryMinusRun
    = (minusRuns tokens).countP fun run ↦ run.isBinary && run.length % 2 = 0
  /-- What is counted here reads as such in the log. -/
  worded : ∀ event ∈ (Evaluation.ofTokens tokens).events, ∀ deed, event.deed? = some deed →
    deed.IsWorded event.message event.value?
  /-- The value of the last combination or application is the result. -/
  last : ∀ v ∈ (Evaluation.ofTokens tokens).values.getLast?, v = x

/-- **Every operator and every function is applied exactly once.** -/
theorem appliesOnce_of_evaluate (h : evaluate tokens = .ok x) : AppliesOnce tokens x where
  deeds := deeds_perm h
  combinations := ((deeds_perm h).countP_eq _).trans (countP_isCombination_deedsOf tokens)
  applications name := ((deeds_perm h).count_eq _).trans (count_application_deedsOf name tokens)
  unaryMinusRuns := ((deeds_perm h).count_eq _).trans (count_unaryMinusRun_deedsOf tokens)
  binaryMinusRuns := ((deeds_perm h).count_eq _).trans (count_binaryMinusRun_deedsOf tokens)
  worded _ _ _ := Event.isWorded
  last _ hv := eq_of_getLast?_values h hv

/-- A square root, a sum made of two signs, a product, and the product of a factor. -/
theorem appliesOnce_of_signs :
    evaluate [.function "sqrt", .opening, .number "4", .closing, .operator '-', .operator '-',
        .number "2", .operator '*', .operator '-', .number "3"] = .ok (-4.0) ∧
      AppliesOnce [.function "sqrt", .opening, .number "4", .closing, .operator '-', .operator '-',
        .number "2", .operator '*', .operator '-', .number "3"] (-4.0) := by
  have h : evaluate [.function "sqrt", .opening, .number "4", .closing, .operator '-',
      .operator '-', .number "2", .operator '*', .operator '-', .number "3"] = .ok (-4.0) := by
    decide +kernel
  exact ⟨h, appliesOnce_of_evaluate h⟩

end Calculator
