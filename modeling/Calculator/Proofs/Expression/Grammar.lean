import Calculator.Expression.Grammar
import Calculator.Expression.MinusRuns
import Calculator.Proofs.Climbing.Induction
import Calculator.Proofs.Expression.Written

/-!
# Expressions are what is accepted

Tokens that derive from the grammar have a value, unless a result on the way is not finite; all
others end in an error. So no error about the shape of an expression is ever raised for an
expression, and no value is ever given to anything else.

## Reading decides step by step

Read from the left, an expression is a walk in which operands and operators take turns, down to the
closing parenthesis of the group. Each answer of a reading function says how this walk goes on: the
walk through the given items exists just when the one through the items left does. The items left
need not be a part of the given ones, because minus signs leave a product, but the product stands
where the operand behind the signs stood.
-/

namespace Calculator

/-! ## Tokens to compute with -/

/-- Whether a token can be computed with: a number is finite and a function is known. -/
def Token.IsComputable : Token → Prop
  | number literal => (Number.read? literal).any Float.isFinite
  | function name => name ∈ MathFunction.names
  | operator _ | opening | closing => True

instance : (token : Token) → Decidable token.IsComputable
  | .number literal =>
    inferInstanceAs (Decidable ((Number.read? literal).any Float.isFinite = true))
  | .function name => inferInstanceAs (Decidable (name ∈ MathFunction.names))
  | .operator _ | .opening | .closing => .isTrue trivial

theorem Token.exists_value_of_isComputable {literal : String}
    (h : (Token.number literal).IsComputable) :
    ∃ x, (Computation.literal literal).value = .ok x := by
  obtain ⟨x, hx, hfinite⟩ := (Option.any_eq_true _ _).mp h
  refine ⟨x, Computation.value_of_outcome ?_ hfinite⟩
  rw [Computation.outcome, hx]

/-! ## The grammar -/

/-- Expressions, operands and primaries are built in five ways. -/
theorem grammar_induction (goal : List Token → Prop)
    (number : ∀ literal, goal [.number literal])
    (group : ∀ tokens, goal tokens → goal (.opening :: tokens ++ [.closing]))
    (application : ∀ name tokens, goal tokens →
      goal (.function name :: .opening :: tokens ++ [.closing]))
    (minus : ∀ tokens, goal tokens → goal (.operator '-' :: tokens))
    (combination : ∀ (o : Operator) left right, goal left → goal right →
      goal (left ++ .operator o.symbol :: right))
    {tokens : List Token} (h : IsExpression tokens) : goal tokens :=
  @IsExpression.rec (fun tokens _ ↦ goal tokens) (fun tokens _ ↦ goal tokens)
    (fun tokens _ ↦ goal tokens) (fun _ h ↦ h) (fun o _ _ ↦ combination o _ _) (fun _ h ↦ h)
    (fun _ h ↦ minus _ h) number (fun _ h ↦ group _ h) (fun name _ h ↦ application name _ h)
    tokens h

theorem IsExpression.minus {tokens : List Token} (h : IsExpression tokens) :
    IsExpression (.operator '-' :: tokens) := by
  cases h with
  | operand h => exact .operand (.minus h)
  | combination o hleft hright => exact .combination o (.minus hleft) hright

/-- An expression ends with the end of an operand. -/
theorem exists_last_of_isExpression {tokens : List Token} (h : IsExpression tokens) :
    ∃ token ∈ tokens.getLast?, token.endsOperand := by
  refine grammar_induction (fun tokens ↦ ∃ token ∈ tokens.getLast?, token.endsOperand)
    ?number ?group ?application ?minus ?combination h
  case number => exact fun literal ↦ ⟨.number literal, rfl, rfl⟩
  case group => exact fun tokens _ ↦ ⟨.closing, List.getLast?_concat, rfl⟩
  case application => exact fun name tokens _ ↦ ⟨.closing, List.getLast?_concat, rfl⟩
  case minus =>
    rintro tokens ⟨token, hlast, hends⟩
    exact ⟨token, by simp_all [List.getLast?_cons], hends⟩
  case combination =>
    rintro o left right - ⟨token, hlast, hends⟩
    exact ⟨token, by simp_all [List.getLast?_cons], hends⟩

/-- What may stand behind an operand, or where an operand is awaited, up to the end. -/
def Continues : (ended : Bool) → List Token → Prop
  | false, tokens => IsExpression tokens
  | true, tokens =>
    tokens = [] ∨ ∃ (o : Operator) (right : List Token),
      IsExpression right ∧ tokens = .operator o.symbol :: right

theorem IsPrimary.isExpression_append {tokens rest : List Token} (h : IsPrimary tokens)
    (hrest : Continues true rest) : IsExpression (tokens ++ rest) := by
  rcases hrest with rfl | ⟨o, right, hright, rfl⟩
  · rw [List.append_nil]
    exact .operand (.primary h)
  · exact .combination o (.primary h) hright

/-! ## Walks through items -/

namespace Climbing

/-- From a place where an operand is awaited or has just ended, the items lead to the end of their
group; `rest` is what stands behind its closing parenthesis. -/
inductive Completes : (ended : Bool) → List Item → (rest : List Item) → Prop where
  | closing (rest : List Item) : Completes true (.closing :: rest) rest
  | operator (o : Operator) {items rest : List Item} :
      Completes false items rest → Completes true (.operator o.symbol :: items) rest
  | minus {items rest : List Item} :
      Completes false items rest → Completes false (.operator '-' :: items) rest
  | number (x : Float) {items rest : List Item} :
      Completes true items rest → Completes false (.number x :: items) rest
  | group {items later rest : List Item} :
      Completes false items later → Completes true later rest →
        Completes false (.opening :: items) rest
  | application (f : MathFunction) {items later rest : List Item} :
      Completes false items later → Completes true later rest →
        Completes false (.function f.name :: .opening :: items) rest

variable {items left rest : List Item} {tokens : List Token}

theorem completes_minus_iff :
    Completes false (.operator '-' :: items) rest ↔ Completes false items rest := by
  constructor
  · intro h
    cases h with
    | minus h => exact h
  · exact .minus

theorem completes_minusRun_iff (odd : Bool) :
    Completes false (minusRun odd items).2 rest ↔ Completes false items rest := by
  fun_induction minusRun odd items with
  | case1 odd items ih => exact ih.trans completes_minus_iff.symm
  | case2 => exact Iff.rfl

theorem completes_binaryOperator_iff (symbol : Char) :
    Completes false (binaryOperator symbol items).2 rest ↔ Completes false items rest := by
  rw [binaryOperator]
  split
  · exact completes_minusRun_iff true
  · exact Iff.rfl

theorem completes_operator_iff {symbol : Char} {p : Nat} (hp : priority symbol = some p) :
    Completes true (.operator symbol :: items) rest ↔ Completes false items rest := by
  constructor
  · intro h
    cases h with
    | operator _ h => exact h
  · intro h
    obtain ⟨o, ho, -⟩ := Option.map_eq_some_iff.mp hp
    obtain rfl := Operator.symbol_of_ofChar? ho
    exact .operator o h

/-! ## What an answer decides -/

/-- A value hands the question on to the items left, a result that is not finite leaves it open, and
any other error denies it. -/
def Decides (accepted : Prop) (leaves : List Item → Prop) :
    Except EvalError (Float × List Item) → Prop
  | .ok answer => accepted ↔ leaves answer.2
  | .error (.domain _) => True
  | .error _ => ¬ accepted

namespace Decides

variable {accepted accepted' : Prop} {leaves leaves' : List Item → Prop}
  {r : Except EvalError (Float × List Item)}

theorem congr (h : Decides accepted leaves r) (heq : accepted' ↔ accepted) :
    Decides accepted' leaves r := by
  rwa [propext heq]

theorem bind {k : Float × List Item → Except EvalError (Float × List Item)}
    (h : Decides accepted leaves r)
    (hk : ∀ x left, r = .ok (x, left) → Decides (leaves left) leaves' (k (x, left))) :
    Decides accepted leaves' (r >>= k) := by
  cases r with
  | ok answer => exact (hk answer.1 answer.2 rfl).congr h
  | error cause => cases cause <;> exact h

private theorem error_of_value {what : Computation} {x : Float} {cause : EvalError}
    (houtcome : what.outcome = .ok x) (h : what.value = .error cause) :
    Decides accepted leaves (.error cause) := by
  rw [Computation.domain_of_value houtcome h]
  trivial

end Decides

/-- A group is decided by its items and what is left behind it. -/
def GroupDecides (items : List Item) : Prop :=
  ∀ rest, Decides (Completes false items rest) (rest = ·) (readGroup items)

theorem GroupDecides.opening (h : GroupDecides items) (rest : List Item) :
    Decides (Completes false (.opening :: items) rest) (Completes true · rest)
      (readGroup items) := by
  have hgroup : Completes false (.opening :: items) rest ↔
      ∃ later, Completes false items later ∧ Completes true later rest := by
    constructor
    · intro h
      cases h with
      | group hinner hlater => exact ⟨_, hinner, hlater⟩
    · rintro ⟨later, hinner, hlater⟩
      exact .group hinner hlater
  refine Decides.congr ?_ hgroup
  have hdecides := fun later ↦ h later
  cases hread : readGroup items with
  | ok answer =>
    rw [hread] at hdecides
    constructor
    · rintro ⟨later, hinner, hlater⟩
      rwa [(hdecides later).mp hinner] at hlater
    · intro hlater
      exact ⟨answer.2, (hdecides answer.2).mpr rfl, hlater⟩
  | error cause =>
    rw [hread] at hdecides
    cases cause with
    | domain what => trivial
    | _ =>
      rintro ⟨later, hinner, -⟩
      exact hdecides later hinner

private theorem not_completes_noArgument (name : String)
    (hitems : ∀ inner, items ≠ .opening :: inner) :
    ¬ Completes false (.function name :: items) rest := by
  intro h
  cases h with
  | application f _ _ => exact hitems _ rfl

private theorem not_completes_missing {item : Item} (hitem : item.BeginsNoOperand) :
    ¬ Completes false (item :: items) rest := by
  intro h
  rcases hitem with rfl | ⟨symbol, hsymbol, rfl⟩
  · cases h
  · cases h with
    | minus _ => exact hsymbol rfl

/-- A function with its argument is known, or no walk goes through it. -/
theorem GroupDecides.application (h : GroupDecides items) (name : String) (rest : List Item) :
    Decides (Completes false (.function name :: .opening :: items) rest) (Completes true · rest)
      (readOperand (.function name :: .opening :: items)) := by
  have hread : readOperand (.function name :: .opening :: items)
      = readGroup items >>= fun answer ↦ do
          let y ← (Computation.application name answer.1).value
          return (y, answer.2) := readOperand_function name items
  rw [hread]
  cases hf : MathFunction.ofName? name with
  | none =>
    -- No walk goes through the name of an unknown function, whatever its argument is.
    have hunknown : ¬ Completes false (.function name :: .opening :: items) rest := by
      intro h
      cases h with
      | application f _ _ =>
        rw [f.ofName?_name] at hf
        cases hf
    have hvalue : ∀ x, (Computation.application name x).value = .error (.unknownFunction name) := by
      intro x
      rw [Computation.value, Computation.outcome, hf]
      rfl
    cases hgroup : readGroup items with
    | error cause =>
      cases cause with
      | domain what => trivial
      | _ => exact hunknown
    | ok answer =>
      rw [ok_bind, hvalue]
      exact hunknown
  | some f =>
    have hargument : Completes false (.function name :: .opening :: items) rest ↔
        Completes false (.opening :: items) rest := by
      constructor
      · intro h
        cases h with
        | application _ hinner hlater => exact .group hinner hlater
      · intro h
        cases h with
        | group hinner hlater =>
          rw [← MathFunction.name_of_ofName? hf]
          exact .application f hinner hlater
    refine ((h.opening rest).congr hargument).bind fun x left _ ↦ ?_
    dsimp only
    cases hvalue : (Computation.application name x).value with
    | ok y => exact Iff.rfl
    | error cause =>
      refine .error_of_value (x := f.apply x) ?_ hvalue
      rw [Computation.outcome, hf]

private theorem decides_minus (items rest : List Item) :
    Decides (Completes false (.operator '-' :: items) rest) (Completes true · rest)
      (readOperand (.operator '-' :: items)) := by
  have hrun : Completes false (.operator '-' :: items) rest ↔
      Completes false (minusRun true items).2 rest :=
    completes_minus_iff.trans (completes_minusRun_iff true).symm
  refine Decides.congr ?_ hrun
  rw [readOperand_minus]
  generalize minusRun true items = run
  obtain ⟨odd, _ | ⟨item, items⟩⟩ := run
  · rintro ⟨⟩
  · exact (completes_operator_iff (p := 2) (by decide)).symm

/-- An operand is decided by the items left behind it. -/
def OperandDecides (items : List Item) : Prop :=
  ∀ rest, Decides (Completes false items rest) (Completes true · rest) (readOperand items)

/-- Operators and their right operands are decided by the items left behind them. -/
def ExpressionDecides (x : Float) (least : Nat) (items : List Item) : Prop :=
  ∀ rest, Decides (Completes true items rest) (Completes true · rest) (readExpression x least items)

private theorem decides_readFrom {least : Nat} (hoperand : OperandDecides items)
    (hexpression : ∀ x left, readOperand items = .ok (x, left) → ExpressionDecides x least left)
    (rest : List Item) :
    Decides (Completes false items rest) (Completes true · rest) (readFrom least items) := by
  rw [readFrom]
  exact (hoperand rest).bind fun x left hread ↦ hexpression x left hread rest

/-- An operator and its right operand, which is an operand with tighter operators behind it. -/
private theorem decides_operation {symbol : Char} {p : Nat} (hp : priority symbol = some p)
    (x : Float) (hoperand : OperandDecides (binaryOperator symbol items).2)
    (hexpression : ∀ y left, readOperand (binaryOperator symbol items).2 = .ok (y, left) →
      ExpressionDecides y (tighter p) left) (rest : List Item) :
    Decides (Completes true (.operator symbol :: items) rest) (Completes true · rest)
      (readOperation x p (binaryOperator symbol items)) := by
  have hitems : Completes true (.operator symbol :: items) rest ↔
      Completes false (binaryOperator symbol items).2 rest :=
    (completes_operator_iff hp).trans (completes_binaryOperator_iff symbol).symm
  have hfrom := decides_readFrom hoperand hexpression rest
  rw [readOperation_eq_readFrom]
  refine (hfrom.congr hitems).bind fun y left _ ↦ ?_
  dsimp only
  obtain ⟨o, ho⟩ := ofChar?_binaryOperator hp items
  cases hvalue : (Computation.combination x (binaryOperator symbol items).1 y).value with
  | ok z => exact Iff.rfl
  | error cause =>
    refine .error_of_value (x := o.apply x y) ?_ hvalue
    rw [Computation.outcome, ho]

/-- A group ends at its closing parenthesis and nowhere else. -/
private theorem decides_closeGroup {y : Float} (hleft : ∀ p, leading left ≠ some p)
    (rest : List Item) :
    Decides (Completes true left rest) (rest = ·) (closeGroup (y, left)) := by
  cases left with
  | nil => rintro ⟨⟩
  | cons item later =>
    cases item with
    | closing =>
      constructor
      · intro h
        cases h with
        | closing _ => rfl
      · rintro rfl
        exact .closing _
    | operator symbol =>
      intro h
      cases h with
      | operator o _ => exact hleft o.priority o.priority_symbol
    | _ => rintro ⟨⟩

/-- **Reading decides walks.** -/
theorem decides_reading :
    (∀ items, OperandDecides items) ∧ (∀ items, GroupDecides items) ∧
      ∀ x least items, ExpressionDecides x least items := by
  apply reading_induction OperandDecides GroupDecides ExpressionDecides
  constructor
  case groupNil =>
    rintro rest ⟨⟩
  case groupClosing =>
    rintro items rest ⟨⟩
  case groupCons =>
    intro item items hitem hoperand hexpression rest
    rw [readGroup_cons hitem]
    exact (decides_readFrom hoperand hexpression rest).bind fun y left hread ↦
      decides_closeGroup (leading_ne_some_of_readFrom hread) rest
  case operandNil =>
    rintro rest ⟨⟩
  case number =>
    intro x items rest
    rw [readOperand_number]
    constructor
    · intro h
      cases h with
      | number _ h => exact h
    · exact .number x
  case opening =>
    intro items hgroup rest
    rw [readOperand_opening]
    exact hgroup.opening rest
  case application =>
    intro name items hgroup rest
    exact hgroup.application name rest
  case noArgument =>
    intro name items hitems rest
    rw [readOperand_missingArgument name hitems]
    exact not_completes_noArgument name hitems
  case minus => exact decides_minus
  case missing =>
    intro item items hitem rest
    rw [readOperand_missing hitem]
    exact not_completes_missing hitem
  case expressionEnd =>
    intro x least items hend rest
    rw [readExpression_end hend]
    exact Iff.rfl
  case expressionOperator =>
    intro x least symbol p items hp hleast hoperand hexpression hlater rest
    rw [readExpression_operator hp hleast]
    exact (decides_operation hp x hoperand hexpression rest).bind fun z left hread ↦
      hlater z left hread rest

/-! ## Walks through tokens -/

theorem exists_of_mapM_eq_cons {item : Item} (h : tokens.mapM Item.ofToken = .ok (item :: items)) :
    ∃ token later, tokens = token :: later ∧ Item.ofToken token = .ok item ∧
      later.mapM Item.ofToken = .ok items := by
  cases tokens with
  | nil => cases h
  | cons token later =>
    obtain ⟨item, items, hitem, hitems, heq⟩ := exists_of_mapM_cons h
    cases heq
    exact ⟨token, later, rfl, hitem, hitems⟩

/-- The items of an expression are a walk, on which any walk behind an operand may follow. -/
theorem exists_writesItems (h : IsExpression tokens) :
    (∀ token ∈ tokens, token.IsComputable) →
      ∃ items, WritesItems tokens items ∧
        ∀ later rest, Completes true later rest → Completes false (items ++ later) rest := by
  refine grammar_induction (fun tokens ↦ (∀ token ∈ tokens, token.IsComputable) →
    ∃ items, WritesItems tokens items ∧
      ∀ later rest, Completes true later rest → Completes false (items ++ later) rest)
    ?number ?group ?application ?minus ?combination h
  case number =>
    intro literal hcomputable
    obtain ⟨x, hx⟩ := Token.exists_value_of_isComputable (hcomputable _ List.mem_cons_self)
    exact ⟨_, .number hx, fun later rest hlater ↦ .number x hlater⟩
  case group =>
    intro tokens ih hcomputable
    obtain ⟨items, hwrites, hwalk⟩ := ih fun token htoken ↦ hcomputable token (by simp [htoken])
    refine ⟨_, hwrites.enclosed, fun later rest hlater ↦ ?_⟩
    have hinner := Completes.group (hwalk _ _ (.closing later)) hlater
    simpa using hinner
  case application =>
    intro name tokens ih hcomputable
    obtain ⟨items, hwrites, hwalk⟩ := ih fun token htoken ↦ hcomputable token (by simp [htoken])
    obtain ⟨f, -, rfl⟩ := List.mem_map.mp (hcomputable (.function name) (by simp))
    refine ⟨_, (WritesItems.function f.name).append hwrites.enclosed, fun later rest hlater ↦ ?_⟩
    have hinner := Completes.application f (hwalk _ _ (.closing later)) hlater
    simpa using hinner
  case minus =>
    intro tokens ih hcomputable
    obtain ⟨items, hwrites, hwalk⟩ := ih fun token htoken ↦ hcomputable token (by simp [htoken])
    exact ⟨_, (WritesItems.operator '-').append hwrites, fun later rest hlater ↦
      .minus (hwalk later rest hlater)⟩
  case combination =>
    intro o left right ihleft ihright hcomputable
    obtain ⟨leftItems, hleft, hwalkLeft⟩ := ihleft fun token htoken ↦
      hcomputable token (by simp [htoken])
    obtain ⟨rightItems, hright, hwalkRight⟩ := ihright fun token htoken ↦
      hcomputable token (by simp [htoken])
    refine ⟨_, hleft.append ((WritesItems.operator o.symbol).append hright),
      fun later rest hlater ↦ ?_⟩
    rw [List.append_assoc]
    exact hwalkLeft _ rest (.operator o (hwalkRight later rest hlater))

/-- A walk through the items of tokens goes through an expression, or through what may continue one,
up to a closing parenthesis. -/
theorem exists_of_completes {ended : Bool} (h : Completes ended items rest)
    (hitems : tokens.mapM Item.ofToken = .ok items) :
    ∃ before after, tokens = before ++ .closing :: after ∧ after.mapM Item.ofToken = .ok rest ∧
      Continues ended before := by
  induction h generalizing tokens with
  | closing rest =>
    obtain ⟨token, later, rfl, hitem, hlater⟩ := exists_of_mapM_eq_cons hitems
    cases eq_of_ofToken hitem
    exact ⟨[], later, rfl, hlater, .inl rfl⟩
  | operator o _ ih =>
    obtain ⟨token, later, rfl, hitem, hlater⟩ := exists_of_mapM_eq_cons hitems
    cases eq_of_ofToken hitem
    obtain ⟨before, after, rfl, hafter, hbefore⟩ := ih hlater
    exact ⟨.operator o.symbol :: before, after, rfl, hafter, .inr ⟨o, before, hbefore, rfl⟩⟩
  | minus _ ih =>
    obtain ⟨token, later, rfl, hitem, hlater⟩ := exists_of_mapM_eq_cons hitems
    cases eq_of_ofToken hitem
    obtain ⟨before, after, rfl, hafter, hbefore⟩ := ih hlater
    exact ⟨.operator '-' :: before, after, rfl, hafter, IsExpression.minus hbefore⟩
  | number x _ ih =>
    obtain ⟨token, later, rfl, hitem, hlater⟩ := exists_of_mapM_eq_cons hitems
    obtain ⟨literal, rfl⟩ := eq_of_ofToken hitem
    obtain ⟨before, after, rfl, hafter, hbefore⟩ := ih hlater
    exact ⟨.number literal :: before, after, rfl, hafter,
      (IsPrimary.number literal).isExpression_append hbefore⟩
  | group _ _ ihinner ihlater =>
    obtain ⟨token, later, rfl, hitem, hlater⟩ := exists_of_mapM_eq_cons hitems
    cases eq_of_ofToken hitem
    obtain ⟨inner, later, rfl, hlater, hinner⟩ := ihinner hlater
    obtain ⟨before, after, rfl, hafter, hbefore⟩ := ihlater hlater
    refine ⟨.opening :: inner ++ [.closing] ++ before, after, by simp, hafter, ?_⟩
    exact (IsPrimary.group hinner).isExpression_append hbefore
  | application f _ _ ihinner ihlater =>
    obtain ⟨token, argument, rfl, hitem, hargument⟩ := exists_of_mapM_eq_cons hitems
    cases eq_of_ofToken hitem
    obtain ⟨token, behind, rfl, hitem, hbehind⟩ := exists_of_mapM_eq_cons hargument
    cases eq_of_ofToken hitem
    obtain ⟨inner, later, rfl, hlater, hinner⟩ := ihinner hbehind
    obtain ⟨before, after, rfl, hafter, hbefore⟩ := ihlater hlater
    refine ⟨.function f.name :: .opening :: inner ++ [.closing] ++ before, after, by simp, hafter,
      ?_⟩
    exact (IsPrimary.application f.name hinner).isExpression_append hbefore

end Climbing

/-! ## What is accepted -/

open Climbing (Item readGroup)

variable {tokens : List Token}

/-- A value is only ever given to an expression. -/
theorem isExpression_of_evaluate {x : Float} (h : evaluate tokens = .ok x) :
    IsExpression tokens := by
  obtain ⟨items, hwrites, hread, -⟩ := exists_writesItems_of_evaluate h
  have hdecides := Climbing.decides_reading.2.1 (items ++ [.closing]) []
  rw [hread] at hdecides
  have hclosed : (tokens ++ [Token.closing]).mapM Item.ofToken = .ok (items ++ [.closing]) :=
    mapM_append_of_ok hwrites.reads rfl
  obtain ⟨before, after, htokens, hafter, hbefore⟩ :=
    Climbing.exists_of_completes (hdecides.mpr rfl) hclosed
  -- Nothing is left behind the group, so the walk ends at its very last token.
  cases after with
  | nil =>
    rw [List.append_cancel_right htokens]
    exact hbefore
  | cons token after =>
    obtain ⟨_, _, -, -, heq⟩ := Climbing.exists_of_mapM_cons hafter
    cases heq

/-- An expression of computable tokens has a value, or a result on the way to it is not finite. -/
theorem evaluate_of_isExpression (h : IsExpression tokens)
    (hcomputable : ∀ token ∈ tokens, token.IsComputable) :
    (∃ x, evaluate tokens = .ok x) ∨ ∃ what, evaluate tokens = .error (.domain what) := by
  obtain ⟨items, hwrites, hwalk⟩ := Climbing.exists_writesItems h hcomputable
  have hdecides := Climbing.decides_reading.2.1 (items ++ [.closing]) []
  rw [hwrites.evaluate_eq_readGroup]
  have haccepted := hwalk _ _ (.closing [])
  cases hread : readGroup (items ++ [.closing]) with
  | ok answer => exact .inl ⟨answer.1, rfl⟩
  | error cause =>
    rw [hread] at hdecides
    cases cause with
    | domain what => exact .inr ⟨what, rfl⟩
    | _ => exact absurd haccepted hdecides

/-- **Exactly the expressions are accepted.** Computable tokens that are an expression have a value
or a result that is not finite; tokens that are none end in an error. -/
theorem evaluate_accepts_expressions (tokens : List Token) :
    ((∀ token ∈ tokens, token.IsComputable) → IsExpression tokens →
        (∃ x, evaluate tokens = .ok x) ∨ ∃ what, evaluate tokens = .error (.domain what)) ∧
      (¬ IsExpression tokens → ∃ cause, evaluate tokens = .error cause) := by
  refine ⟨fun hcomputable h ↦ evaluate_of_isExpression h hcomputable, fun h ↦ ?_⟩
  cases hvalue : evaluate tokens with
  | ok x => exact absurd (isExpression_of_evaluate hvalue) h
  | error cause => exact ⟨cause, rfl⟩

/-- The value here hangs on the exponential function, and the power behind it has no operand. -/
theorem evaluate_accepts_signed_application :
    ((∃ x, evaluate [.number "2", .operator '/', .operator '-', .operator '-', .function "exp",
          .opening, .operator '-', .number "7e2", .closing] = .ok x) ∨
        ∃ what, evaluate [.number "2", .operator '/', .operator '-', .operator '-',
          .function "exp", .opening, .operator '-', .number "7e2", .closing]
            = .error (.domain what)) ∧
      ∃ cause, evaluate [.number "2", .operator '/', .operator '-', .operator '-',
        .function "exp", .opening, .operator '-', .number "7e2", .closing, .operator '&',
        .operator '-'] = .error cause := by
  have hexpression : IsExpression [.number "2", .operator '/', .operator '-', .operator '-',
      .function "exp", .opening, .operator '-', .number "7e2", .closing] :=
    .combination .divide (.primary (.number "2")) (.operand (.minus (.minus (.primary
      (.application "exp" (.operand (.minus (.primary (.number "7e2")))))))))
  refine ⟨(evaluate_accepts_expressions _).1 (by decide +kernel) hexpression,
    (evaluate_accepts_expressions _).2 fun h ↦ ?_⟩
  obtain ⟨token, hlast, hends⟩ := exists_last_of_isExpression h
  cases hlast
  cases hends

end Calculator
