import Calculator.Proofs.Climbing.Locality
import Calculator.Proofs.Evaluation.Refinement
import Calculator.Proofs.Lexer.Readable
import Calculator.Proofs.Sequence.Live

/-!
# Evaluation is safe

No internal error is reachable from a text. Tokens that can be evaluated have a value or an error
of the expression, and at every moment of every evaluation the handles in use are those of linked
cells.

## Moments

An evaluation is one list of steps, preparation included, and the edits among the first of them tell
how the sequence looks when the next one is taken. Preparation and reduction both only name cells of
the list that the sequence stands for at that moment; what is safe about a step follows from that.
-/

namespace Calculator

open Climbing (Item)
open Reduction Sequence

/-! ## No internal errors -/

theorem MathFunction.exists_of_mem_names {name : String} (h : name ∈ names) :
    ∃ f, ofName? name = some f := by
  obtain ⟨f, -, rfl⟩ := List.mem_map.mp h
  exact ⟨f, f.ofName?_name⟩

variable {tokens : List Token}

private theorem ofToken_ne_internal {token : Token} (h : token.IsReadable) (what : String) :
    Item.ofToken token ≠ .error (.internal what) := by
  cases token with
  | number literal =>
    obtain ⟨x, hx⟩ := Option.isSome_iff_exists.mp h
    have houtcome : (Computation.literal literal).outcome = .ok x := by rw [Computation.outcome, hx]
    rw [Item.ofToken_number]
    cases hvalue : (Computation.literal literal).value with
    | ok y => rintro ⟨⟩
    | error cause =>
      rw [Computation.domain_of_value houtcome hvalue]
      rintro ⟨⟩
  | operator symbol => rintro ⟨⟩
  | function name => rintro ⟨⟩
  | opening => rintro ⟨⟩
  | closing => rintro ⟨⟩

private theorem mapM_ofToken_ne_internal (h : ∀ token ∈ tokens, token.IsReadable) (what : String) :
    tokens.mapM Item.ofToken ≠ .error (.internal what) := by
  induction tokens with
  | nil => rintro ⟨⟩
  | cons token tokens ih =>
    have htoken := ofToken_ne_internal (h token List.mem_cons_self) what
    have htokens := ih fun token' h' ↦ h token' (List.mem_cons_of_mem _ h')
    rw [List.mapM_cons]
    cases hitem : Item.ofToken token with
    | error cause =>
      rintro ⟨⟩
      exact htoken hitem
    | ok item =>
      cases hitems : tokens.mapM Item.ofToken with
      | error cause =>
        rintro ⟨⟩
        exact htokens hitems
      | ok items => rintro ⟨⟩

/-- **Readable tokens never lead to an internal error.** -/
theorem evaluate_ne_internal (h : ∀ token ∈ tokens, token.IsReadable) (what : String) :
    evaluate tokens ≠ .error (.internal what) := by
  rw [evaluate_eq_readValue, readValue, Climbing.readItems]
  split
  · next hbalanced =>
    cases hitems : tokens.mapM Item.ofToken with
    | error cause =>
      rintro ⟨⟩
      exact mapM_ofToken_ne_internal h what hitems
    | ok items =>
      have hnested := Climbing.nested_of_balanced (· ∈ MathFunction.names) hbalanced hitems
        fun name hname ↦ h _ hname
      obtain ⟨r, -, hblameless, hread⟩ := Climbing.isLocalGroup hnested true
      rw [Climbing.ok_bind, hread [] rfl]
      cases r with
      | ok x => rintro ⟨⟩
      | error cause =>
        rintro ⟨⟩
        obtain ⟨name, hname, hunknown⟩ := hblameless _ rfl what rfl
        obtain ⟨f, hf⟩ := MathFunction.exists_of_mem_names hname
        rw [hf] at hunknown
        cases hunknown
  · rintro ⟨⟩

private theorem evaluateText_ne_internal (text : String) (what : String) :
    evaluateText text ≠ .error (.eval (.internal what)) := by
  intro h
  cases htokens : tokenize text with
  | error cause =>
    have herror : evaluateText text = .error (.lex cause) := by
      rw [evaluateText, htokens]
      rfl
    rw [herror] at h
    cases h
  | ok tokens =>
    have hevaluate : evaluateText text = (evaluate tokens).mapError .eval := by
      rw [evaluateText, htokens]
      rfl
    rw [hevaluate] at h
    cases hvalue : evaluate tokens with
    | ok x =>
      rw [hvalue] at h
      cases h
    | error cause =>
      rw [hvalue] at h
      cases h
      exact evaluate_ne_internal (isReadable_of_tokenize htokens) what hvalue

/-! ## Safe steps -/

/-- The handle that a step looks at or edits. -/
def Reduction.Step.target? : Step → Option Handle
  | .look h => some h
  | .edit e => e.target?
  | .start _ | .report _ => none

/-- A move is at the handle of an entry. -/
theorem Reduction.Move.mem_of_step {fresh h : Handle} {es es' : List Entry} {step : Step}
    (hmove : Move fresh es step es') (htarget : step.target? = some h) : h ∈ handlesOf es := by
  cases step with
  | look _ =>
    cases htarget
    cases hmove with
    | look hmem => exact hmem
  | edit e => exact hmove.mem_of_target? htarget
  | _ => cases htarget

/-- A step that is taken where every link leads to a slot, at the handle of a linked cell. The
counter is the number of linked cells, so there is one to take away when a cell is taken out; only
with more slots than 64 bits can count would it have begun again at zero. -/
structure Reduction.Step.IsSafe (step : Step) (s : Sequence) : Prop where
  inRange : s.InRange
  lt_size : ∀ h ∈ step.target?, h < s.slots.size
  linked : ∀ h ∈ step.target?, h ∈ s.handles
  length : s.length = UInt64.ofNat s.handles.length
  pos : ∀ h, step = .edit (.remove h) → s.slots.size < UInt64.size → 0 < s.length

private theorem isSafe_of_represents {s : Sequence} {es : List Entry} {step : Step}
    (hs : s.Represents es) (hlive : ∀ h ∈ step.target?, h ∈ handlesOf es) : step.IsSafe s where
  inRange := hs.inRange
  lt_size h hh := hs.lt_size (hlive h hh)
  linked h hh := hs.handles_eq ▸ hlive h hh
  length := by
    rw [hs.handles_eq, handlesOf, List.length_map]
    exact hs.length
  pos h hremove hsize := by
    subst hremove
    exact hs.length_pos (hlive h rfl) hsize

/-! ## The steps of an evaluation -/

/-- All that is done to evaluate tokens: the edits of the preparation and what the reduction does.
-/
def Evaluation.steps (tokens : List Token) : List Step :=
  (preparationEdits tokens).map .edit ++ (Evaluation.ofTokens tokens).history

theorem filterMap_edit (edits : List Edit) :
    (edits.map Step.edit).filterMap Step.edit? = edits := by
  rw [List.filterMap_map]
  exact List.filterMap_some

/-- A step of a reduction is a move, and a move names linked cells. -/
private theorem isSafe_of_history {earlier later : List Step} {step : Step}
    (hhistory : (Evaluation.ofTokens tokens).history = earlier ++ step :: later) :
    step.IsSafe (empty.replay (preparationEdits tokens ++ earlier.filterMap Step.edit?)) := by
  have hprepare := prepare_spec tokens
  rw [Evaluation.ofTokens] at hhistory
  cases hitems : Climbing.readItems tokens with
  | error cause =>
    rw [hitems] at hprepare
    rw [hprepare] at hhistory
    exact absurd hhistory.symm (by simp)
  | ok items =>
    rw [hitems] at hprepare
    obtain ⟨s, body, hok, hs⟩ := hprepare
    obtain ⟨-, _, _, hchronicle⟩ := ofSequence_spec hs
    rw [hok] at hhistory
    dsimp only at hhistory
    -- The step stands in the chronicle between what came before it and what came later.
    rw [hhistory, List.reverse_append, List.reverse_cons, List.append_assoc,
      List.singleton_append] at hchronicle
    obtain ⟨s', es, es', hearlier, hmove⟩ := hchronicle.exists_move
    rw [replay_append, ← eq_replay_of_prepare hok, ← hearlier.eq_replay_of_reverse]
    exact isSafe_of_represents hearlier.represents fun h ↦ hmove.mem_of_step

private theorem isSafe_of_preparation {earlier later : List Edit} {e : Edit}
    (h : preparationEdits tokens = earlier ++ e :: later) :
    (Step.edit e).IsSafe (empty.replay earlier) := by
  have hlive := liveFrom_preparationEdits tokens
  rw [h] at hlive
  obtain ⟨es, hes, hmem⟩ := hlive.isLive
  exact isSafe_of_represents hes hmem

private theorem isSafe_of_steps {earlier later : List Step} {step : Step}
    (h : Evaluation.steps tokens = earlier ++ step :: later) :
    step.IsSafe (empty.replay (earlier.filterMap Step.edit?)) := by
  rw [Evaluation.steps] at h
  -- Either all of the preparation lies before the step, or the step may be a part of it.
  rcases List.append_eq_append_iff.mp h with ⟨later', hearlier, hhistory⟩ | ⟨later', hedits, hlater⟩
  · rw [hearlier, List.filterMap_append, filterMap_edit]
    exact isSafe_of_history hhistory
  · cases later' with
    | nil =>
      rw [List.append_nil] at hedits
      rw [← hedits, filterMap_edit]
      have hhistory : (Evaluation.ofTokens tokens).history = [] ++ step :: later := hlater.symm
      have hsafe := isSafe_of_history hhistory
      rwa [List.filterMap_nil, List.append_nil] at hsafe
    | cons step' later' =>
      obtain ⟨rfl, -⟩ := List.cons.inj hlater
      obtain ⟨earlier, behind, hprepare, rfl, hbehind⟩ := List.map_eq_append_iff.mp hedits
      obtain ⟨e, _, rfl, rfl, -⟩ := List.map_eq_cons_iff.mp hbehind
      rw [filterMap_edit]
      exact isSafe_of_preparation hprepare

/-- The run of an evaluation without a panic: the prepared sequence is what its edits make, every
step is safe, no handle is out of range, and the reduction ends. -/
structure RunsSafely (tokens : List Token) : Prop where
  prepared : ∀ s, prepare tokens = .ok s → s = empty.replay (preparationEdits tokens)
  isSafe : ∀ earlier step later, Evaluation.steps tokens = earlier ++ step :: later →
    step.IsSafe (empty.replay (earlier.filterMap Step.edit?))
  inRange : ∀ cause, (Evaluation.ofTokens tokens).result ≠ .error (.outOfRange cause)
  ends : (Evaluation.ofTokens tokens).result ≠ .error .exhausted

private theorem runsSafely (tokens : List Token) : RunsSafely tokens where
  prepared _ h := eq_replay_of_prepare h
  isSafe _ _ _ h := isSafe_of_steps h
  inRange cause h := by
    rw [result_ofTokens] at h
    cases hvalue : readValue tokens <;> rw [hvalue] at h <;> cases h
  ends h := by
    rw [result_ofTokens] at h
    cases hvalue : readValue tokens <;> rw [hvalue] at h <;> cases h

/-- **No internal error and no panic is reachable from a text.** -/
theorem internal_unreachable :
    (∀ tokens : List Token, (∀ token ∈ tokens, token.IsReadable) →
        (∀ what, evaluate tokens ≠ .error (.internal what)) ∧ RunsSafely tokens) ∧
      (∀ text tokens, tokenize text = .ok tokens → ∀ token ∈ tokens, token.IsReadable) ∧
      ∀ text what, evaluateText text ≠ .error (.eval (.internal what)) :=
  ⟨fun tokens h ↦ ⟨evaluate_ne_internal h, runsSafely tokens⟩,
    fun _ _ h ↦ isReadable_of_tokenize h, evaluateText_ne_internal⟩

theorem internal_unreachable_of_unknown_operator :
    (∀ what, evaluate [.function "sqrt", .opening, .operator '-', .number "4", .operator '*',
        .operator '^', .closing, .operator '/', .number "0"] ≠ .error (.internal what)) ∧
      RunsSafely [.function "sqrt", .opening, .operator '-', .number "4", .operator '*',
        .operator '^', .closing, .operator '/', .number "0"] :=
  internal_unreachable.1 _ (by decide +kernel)

end Calculator
