import Calculator.Proofs.Climbing.Equations
import Calculator.Proofs.Sequence.Content
import Calculator.Sequence.Prepared

/-!
# Preparation

What preparing an expression gives: for matched parentheses and readable numbers a sequence whose
body is balanced and reads as the items of the tokens, and otherwise the error that comes first.

## The pairs that are still open

While parentheses are paired, what lies behind the last open one is balanced, and so is what lies
between any two open ones. `Pending` says this for the stack of handles and the entries read so far.

## Settling changes cells, not links

Settling works on the slots, not along the links. Between pairing and enclosing every slot is linked
and its place is its handle, so the slots in order are the entries in order.
-/

namespace Calculator

/-- The token that a cell stands for in an expression. -/
def Cell.token : Cell → Token
  | lexeme token => token
  | number value => .number (Number.text value)
  | operator symbol => .operator symbol
  | function name => .function name
  | opening _ => .opening
  | closing _ => .closing

/-- A token that was not taken over yet and is no parenthesis. -/
def Cell.isUnsettled : Cell → Bool
  | lexeme .opening | lexeme .closing => false
  | lexeme _ => true
  | _ => false

namespace Sequence

/-- The tokens that entries stand for. -/
def tokensOf (entries : List Entry) : List Token := entries.map fun e ↦ e.2.token

@[simp] theorem tokensOf_nil : tokensOf [] = [] := rfl

@[simp] theorem tokensOf_cons (e : Entry) (es : List Entry) :
    tokensOf (e :: es) = e.2.token :: tokensOf es := rfl

@[simp] theorem tokensOf_append (es fs : List Entry) :
    tokensOf (es ++ fs) = tokensOf es ++ tokensOf fs := List.map_append

/-! ## Tokens become cells -/

/-- Tokens as entries, with handles from `h` on. -/
def lexemesFrom : (h : Handle) → List Token → List Entry
  | _, [] => []
  | h, token :: tokens => (h, .lexeme token) :: lexemesFrom (h + 1) tokens

private theorem handlesOf_lexemesFrom (h : Handle) (tokens : List Token) :
    handlesOf (lexemesFrom h tokens) = List.range' h tokens.length := by
  induction tokens generalizing h with
  | nil => rfl
  | cons token tokens ih => rw [lexemesFrom, handlesOf_cons, ih, List.length_cons, List.range'_succ]

private theorem tokensOf_lexemesFrom (h : Handle) (tokens : List Token) :
    tokensOf (lexemesFrom h tokens) = tokens := by
  induction tokens generalizing h with
  | nil => rfl
  | cons token tokens ih => rw [lexemesFrom, tokensOf_cons, ih]; rfl

theorem represents_foldl_pushBack (tokens : List Token) {s : Sequence} {es : List Entry}
    (hs : s.Represents es) :
    (tokens.foldl (fun s token ↦ s.pushBack (.lexeme token)) s).Represents
        (es ++ lexemesFrom s.slots.size tokens) ∧
      (tokens.foldl (fun s token ↦ s.pushBack (.lexeme token)) s).slots.size
        = s.slots.size + tokens.length := by
  induction tokens generalizing s es with
  | nil => exact ⟨by simpa [lexemesFrom] using hs, rfl⟩
  | cons token tokens ih =>
    have hsize : (s.pushBack (.lexeme token)).slots.size = s.slots.size + 1 := size_insert ..
    obtain ⟨hrepresents, hfinal⟩ := ih (hs.pushBack (.lexeme token))
    rw [hsize] at hrepresents hfinal
    constructor
    · rw [lexemesFrom, List.append_cons]
      exact hrepresents
    · rw [List.foldl_cons, hfinal, List.length_cons]
      omega

theorem represents_ofTokens (tokens : List Token) :
    (ofTokens tokens).Represents (lexemesFrom 0 tokens) :=
  (represents_foldl_pushBack tokens represents_empty).1

theorem size_ofTokens (tokens : List Token) : (ofTokens tokens).slots.size = tokens.length := by
  rw [ofTokens, (represents_foldl_pushBack tokens represents_empty).2]
  exact Nat.zero_add _

/-! ## Pairing -/

/-- Entries behind which the parentheses on the stack are open. -/
inductive Pending : (stack : List Handle) → List Entry → Prop where
  | nil {es : List Entry} : Balanced (·.isUnsettled) es → Pending [] es
  | cons {stack : List Handle} {es inner : List Entry} {opening : Handle} :
      Pending stack es → Balanced (·.isUnsettled) inner →
      Pending (opening :: stack) (es ++ (opening, .lexeme .opening) :: inner)

theorem Pending.append {stack : List Handle} {es fs : List Entry} (hes : Pending stack es)
    (hfs : Balanced (·.isUnsettled) fs) : Pending stack (es ++ fs) := by
  cases hes with
  | nil hes => exact .nil (hes.append hfs)
  | cons hes hinner =>
    rw [List.append_assoc, List.cons_append]
    exact .cons hes (hinner.append hfs)

/-- What pairing makes of a sequence: balanced entries for the same tokens at the same handles. -/
def Paired (s : Sequence) (es : List Entry) (s' : Sequence) : Prop :=
  ∃ es', s'.Represents es' ∧ Balanced (·.isUnsettled) es' ∧ tokensOf es' = tokensOf es ∧
    handlesOf es' = handlesOf es ∧ s'.slots.size = s.slots.size

theorem Paired.trans {s s₁ s₂ : Sequence} {es es₁ : List Entry} (h : Paired s₁ es₁ s₂)
    (htokens : tokensOf es₁ = tokensOf es) (hhandles : handlesOf es₁ = handlesOf es)
    (hsize : s₁.slots.size = s.slots.size) : Paired s es s₂ := by
  obtain ⟨es', hs', hbalanced, htokens', hhandles', hsize'⟩ := h
  exact ⟨es', hs', hbalanced, htokens'.trans htokens, hhandles'.trans hhandles,
    hsize'.trans hsize⟩

/-- Pairing succeeds just where the parentheses match behind those that are open. -/
theorem pairFrom_spec (tokens : List Token) {h : Handle} {stack : List Handle} {s : Sequence}
    {es : List Entry} (hpending : Pending stack es)
    (hs : s.Represents (es ++ lexemesFrom h tokens)) :
    if Climbing.balanced stack.length tokens then
      ∃ s', pairFrom h tokens stack s = .ok s' ∧ Paired s (es ++ lexemesFrom h tokens) s'
    else pairFrom h tokens stack s = .error .unmatchedParentheses := by
  -- The entries in front of the place grow with each token, and the stack with each open one.
  induction tokens generalizing h stack s es with
  | nil =>
    cases hpending with
    | nil hes =>
      refine ⟨s, rfl, es, ?_, hes, ?_, ?_, rfl⟩
      · simpa [lexemesFrom] using hs
      · simp [lexemesFrom]
      · simp [lexemesFrom]
    | cons hes hinner => rfl
  | cons token tokens ih =>
    have hordinary : Cell.isUnsettled (.lexeme token) →
        Pending stack (es ++ [(h, .lexeme token)]) :=
      fun hcell ↦ hpending.append (.cons hcell .nil)
    rw [lexemesFrom] at hs ⊢
    rw [List.append_cons] at hs ⊢
    cases token with
    | number literal => exact ih (hordinary rfl) hs
    | operator symbol => exact ih (hordinary rfl) hs
    | function name => exact ih (hordinary rfl) hs
    | opening => exact ih (.cons hpending .nil) hs
    | closing =>
      cases hpending with
      | nil hes => rfl
      | @cons stack es inner opening hes hinner =>
        -- The two partners are set one after the other, each at its own split of the entries.
        have hopening : s.Represents (es ++ (opening, .lexeme .opening) ::
            (inner ++ (h, .lexeme .closing) :: lexemesFrom (h + 1) tokens)) := by simpa using hs
        have hclosing : (s.set opening (.opening h)).Represents
            ((es ++ (opening, .opening h) :: inner) ++
              (h, .lexeme .closing) :: lexemesFrom (h + 1) tokens) := by
          simpa using hopening.set (.opening h)
        have hpaired : ((s.set opening (.opening h)).set h (.closing opening)).Represents
            ((es ++ (opening, .opening h) :: (inner ++ [(h, .closing opening)])) ++
              lexemesFrom (h + 1) tokens) := by
          simpa using hclosing.set (.closing opening)
        have hrest := ih (hes.append hinner.enclose) hpaired
        by_cases hbalanced : Climbing.balanced stack.length tokens
        · rw [if_pos hbalanced] at hrest
          obtain ⟨s', hok, hs'⟩ := hrest
          refine (if_pos hbalanced).mpr ⟨s', hok, hs'.trans ?_ ?_ ?_⟩
          · simp [Cell.token]
          · simp
          · rw [size_set, size_set]
        · rw [if_neg hbalanced] at hrest
          exact (if_neg hbalanced).mpr hrest

/-! ## Settling -/

/-- The error of a computation. -/
def errorOf {ε α : Type} : Except ε α → Option ε
  | .ok _ => none
  | .error e => some e

private theorem mapM_eq_findSome? {ε α β : Type} {f : α → Except ε β} {g : α → β}
    (hfg : ∀ a b, f a = .ok b → g a = b) (l : List α) :
    l.mapM f = match l.findSome? (fun a ↦ errorOf (f a)) with
      | some e => .error e
      | none => .ok (l.map g) := by
  induction l with
  | nil => rfl
  | cons a l ih =>
    rw [List.mapM_cons, ih, List.findSome?_cons]
    cases hfa : f a with
    | error e => rfl
    | ok b =>
      rw [List.map_cons, hfg a b hfa]
      cases l.findSome? fun a ↦ errorOf (f a) <;> rfl

/-- A cell after settling; a cell that cannot be settled stays. -/
def settled (cell : Cell) : Cell :=
  match settle cell with
  | .ok cell' => cell'
  | .error _ => cell

theorem settled_of_settle {cell cell' : Cell} (h : settle cell = .ok cell') :
    settled cell = cell' := by
  rw [settled, h]

private theorem settled_opening (partner : Handle) :
    settled (.opening partner) = .opening partner := rfl

private theorem settled_closing (partner : Handle) :
    settled (.closing partner) = .closing partner := rfl

/-- Entries after settling. -/
def settledEntries (es : List Entry) : List Entry := es.map fun e ↦ (e.1, settled e.2)

/-- The error of the first entry that cannot be settled. -/
def settlingError (es : List Entry) : Option EvalError :=
  es.findSome? fun e ↦ errorOf (settle e.2)

@[simp] theorem settledEntries_nil : settledEntries [] = [] := rfl

@[simp] theorem settledEntries_cons (h : Handle) (cell : Cell) (es : List Entry) :
    settledEntries ((h, cell) :: es) = (h, settled cell) :: settledEntries es := rfl

@[simp] theorem settledEntries_append (es fs : List Entry) :
    settledEntries (es ++ fs) = settledEntries es ++ settledEntries fs := List.map_append

@[simp] theorem handlesOf_settledEntries (es : List Entry) :
    handlesOf (settledEntries es) = handlesOf es := by
  simp [handlesOf, settledEntries]

theorem settlingError_cons (h : Handle) (cell : Cell) (es : List Entry) :
    settlingError ((h, cell) :: es) = (errorOf (settle cell)).or (settlingError es) := by
  rw [settlingError, settlingError, List.findSome?_cons]
  cases errorOf (settle cell) <;> rfl

theorem settlingError_append (es fs : List Entry) :
    settlingError (es ++ fs) = (settlingError es).or (settlingError fs) := List.findSome?_append

@[simp] theorem firstOf_settledEntries (es : List Entry) :
    firstOf (settledEntries es) = firstOf es := by
  cases es <;> rfl

@[simp] theorem lastOf_settledEntries (es : List Entry) :
    lastOf (settledEntries es) = lastOf es := by
  simp [lastOf, settledEntries, List.getLast?_map, Function.comp_def]

/-- A sequence after settling. -/
def settledSequence (s : Sequence) : Sequence :=
  { s with slots := s.slots.map fun slot ↦ { slot with cell := settled slot.cell } }

theorem slots_settledSequence (s : Sequence) (h : Handle) :
    s.settledSequence.slots[h]?
      = s.slots[h]?.map fun slot ↦ { slot with cell := settled slot.cell } := by
  simp [settledSequence]

/-- Settles the cell of one slot. -/
def settleSlot (slot : Slot) : Except EvalError Slot := do
  return { slot with cell := ← settle slot.cell }

private theorem errorOf_settleSlot (slot : Slot) :
    errorOf (settleSlot slot) = errorOf (settle slot.cell) := by
  rw [settleSlot]
  cases settle slot.cell <;> rfl

private theorem eq_of_settleSlot (slot slot' : Slot) (h : settleSlot slot = .ok slot') :
    { slot with cell := settled slot.cell } = slot' := by
  rw [settleSlot] at h
  cases hcell : settle slot.cell with
  | error cause => rw [hcell] at h; cases h
  | ok cell =>
    rw [hcell] at h
    rw [settled_of_settle hcell]
    exact Except.ok.inj h

/-- Where the slots in order are the entries in order, all slots are settled with the entries. -/
theorem settleAll_eq {s : Sequence} {es : List Entry}
    (hslots : s.slots.toList.map Slot.cell = es.map Prod.snd) :
    settleAll s = match settlingError es with
      | some cause => .error cause
      | none => .ok s.settledSequence := by
  have herror : settlingError es
      = s.slots.toList.findSome? fun slot ↦ errorOf (settle slot.cell) := by
    have hes := congrArg (List.findSome? fun cell ↦ errorOf (settle cell)) hslots
    rw [List.findSome?_map, List.findSome?_map] at hes
    exact hes.symm
  have hmapM := mapM_eq_findSome? eq_of_settleSlot s.slots.toList
  simp only [errorOf_settleSlot, ← herror] at hmapM
  have hsettle : settleAll s = (do return { s with slots := ← s.slots.mapM settleSlot }) := rfl
  rw [hsettle, Array.mapM_eq_mapM_toList, hmapM]
  cases settlingError es with
  | some cause => rfl
  | none =>
    refine congrArg (fun slots ↦ Except.ok { s with slots := slots }) ?_
    rw [← List.map_toArray]

/-- If the handles are `0`, `1`, … then the slots in order are the entries in order. -/
theorem Represents.map_cell {s : Sequence} {es : List Entry} (hs : s.Represents es)
    (hhandles : handlesOf es = List.range s.slots.size) :
    s.slots.toList.map Slot.cell = es.map Prod.snd := by
  have hlength : es.length = s.slots.size := by
    have := congrArg List.length hhandles
    simpa [handlesOf] using this
  refine List.ext_getElem (by simp [hlength]) fun i hi hi' ↦ ?_
  rw [List.length_map] at hi'
  have hhandle : es[i].1 = i := by
    have := List.getElem_of_eq hhandles (i := i) (by simpa [handlesOf] using hi')
    simpa [handlesOf] using this
  have hsplit : es = es.take i ++ es[i] :: es.drop (i + 1) := by simp
  have hlinked := hs.linked _ es[i].1 es[i].2 _ hsplit
  rw [hhandle] at hlinked
  obtain ⟨_, hslot⟩ := Array.getElem?_eq_some_iff.mp hlinked
  simp [hslot]

theorem Represents.settled {s : Sequence} {es : List Entry} (hs : s.Represents es) :
    s.settledSequence.Represents (settledEntries es) := by
  refine ⟨by simpa using hs.nodup, ?_, ?_, hs.head.trans (by simp), hs.tail.trans (by simp),
    hs.length.trans (by simp [settledEntries])⟩
  · intro before h cell after hsplit
    obtain ⟨before, after', rfl, rfl, hafter⟩ := List.map_eq_append_iff.mp hsplit
    obtain ⟨⟨h, cell⟩, after, rfl, heq, rfl⟩ := List.map_eq_cons_iff.mp hafter
    cases heq
    have hlast := lastOf_settledEntries before
    have hfirst := firstOf_settledEntries after
    rw [settledEntries] at hlast hfirst
    rw [slots_settledSequence, hs.linked before h cell after rfl, hlast, hfirst]
    rfl
  · intro h hh hmem
    rw [handlesOf_settledEntries] at hmem
    obtain ⟨cell, hcell⟩ := hs.unlinked h (by simpa [settledSequence] using hh) hmem
    exact ⟨Sequence.settled cell, by rw [slots_settledSequence, hcell]; rfl⟩

/-- A token that is no parenthesis is settled as it is read. -/
theorem settle_cases {cell : Cell} (hcell : cell.isUnsettled) :
    (∃ cause, settle cell = .error cause ∧ Climbing.Item.ofToken cell.token = .error cause) ∨
      ∃ cell' item, settle cell = .ok cell' ∧ cell'.isPlain ∧ cell'.item? = some item ∧
        Climbing.Item.ofToken cell.token = .ok item := by
  cases cell with
  | lexeme token =>
    cases token with
    | number literal =>
      rw [settle, Cell.token, Climbing.Item.ofToken_number]
      cases hvalue : (Computation.literal literal).value with
      | error cause => exact .inl ⟨cause, rfl, rfl⟩
      | ok x => exact .inr ⟨_, _, rfl, Computation.isFinite_of_value hvalue, rfl, rfl⟩
    | operator symbol => exact .inr ⟨_, _, rfl, rfl, rfl, rfl⟩
    | function name => exact .inr ⟨_, _, rfl, rfl, rfl, rfl⟩
    | opening => cases hcell
    | closing => cases hcell
  | _ => cases hcell

/-- Balanced entries that can be settled become a body. -/
theorem Balanced.settled {es : List Entry} (hes : Balanced (·.isUnsettled) es)
    (herror : settlingError es = none) : IsBody (settledEntries es) := by
  induction hes with
  | nil => exact .nil
  | @cons h cell rest hcell _ ih =>
    rw [settlingError_cons] at herror
    rcases settle_cases hcell with ⟨cause, hsettle, -⟩ | ⟨cell', item, hsettle, hplain, -, -⟩
    · rw [hsettle] at herror
      cases herror
    · rw [hsettle] at herror
      rw [settledEntries_cons, settled_of_settle hsettle]
      exact .cons hplain (ih herror)
  | group _ _ ihinner ihrest =>
    rw [settlingError_cons, settlingError_append, settlingError_cons] at herror
    obtain ⟨-, herror⟩ := Option.or_eq_none_iff.mp herror
    obtain ⟨hinner, herror⟩ := Option.or_eq_none_iff.mp herror
    obtain ⟨-, hrest⟩ := Option.or_eq_none_iff.mp herror
    rw [settledEntries_cons, settledEntries_append, settledEntries_cons]
    exact .group (ihinner hinner) (ihrest hrest)

/-- Reading the tokens of balanced entries is settling the entries. -/
theorem mapM_ofToken {es : List Entry} (hes : Balanced (·.isUnsettled) es) :
    (tokensOf es).mapM Climbing.Item.ofToken = match settlingError es with
      | some cause => .error cause
      | none => .ok (itemsOf (settledEntries es)) := by
  induction hes with
  | nil => rfl
  | @cons h cell rest hcell _ ih =>
    rw [tokensOf_cons, List.mapM_cons, ih, settlingError_cons]
    rcases settle_cases hcell with ⟨cause, hsettle, hread⟩ | ⟨cell', item, hsettle, -, hitem, hread⟩
    · rw [hread, hsettle]
      rfl
    · rw [hread, hsettle, settledEntries_cons, settled_of_settle hsettle]
      cases settlingError rest with
      | some cause => rfl
      | none => simp [itemsOf, hitem, bind, Except.bind, pure, Except.pure, errorOf]
  | group _ _ ihinner ihrest =>
    rw [tokensOf_cons, List.mapM_cons, tokensOf_append, List.mapM_append, tokensOf_cons,
      List.mapM_cons, ihinner, ihrest, settlingError_cons, settlingError_append,
      settlingError_cons]
    cases settlingError _ with
    | some cause => rfl
    | none =>
      cases settlingError _ with
      | some cause => rfl
      | none =>
        rw [settledEntries_cons, settledEntries_append, settledEntries_cons, settled_opening,
          settled_closing, itemsOf_opening, itemsOf_append, itemsOf_closing]
        rfl

/-! ## The prepared sequence -/

/-- A pair of parentheses around entries, with handles from `n` on. -/
def enclosed (n : Nat) (body : List Entry) : List Entry :=
  (n, .opening (n + 1)) :: (body ++ [(n + 1, .closing n)])

theorem Represents.enclose {s : Sequence} {es : List Entry} (hs : s.Represents es) :
    s.enclose.Represents (enclosed s.slots.size es) := by
  have hfront := hs.pushFront (.opening (s.slots.size + 1))
  have hback := hfront.pushBack (.closing s.slots.size)
  rw [Sequence.pushFront, size_insert] at hback
  exact hback

/-- What becomes of tokens whose parentheses match: they are paired, then settled, then enclosed. -/
theorem prepare_cases (tokens : List Token) :
    if Climbing.balanced 0 tokens then
      ∃ es, Balanced (·.isUnsettled) es ∧ tokensOf es = tokens ∧
        handlesOf es = List.range tokens.length ∧
        match settlingError es with
          | some cause => prepare tokens = .error cause
          | none => ∃ s, prepare tokens = .ok s ∧
              s.Represents (enclosed tokens.length (settledEntries es)) ∧
              s.slots.size = tokens.length + 2
    else prepare tokens = .error .unmatchedParentheses := by
  -- The three stages one after the other, each with what the next one asks for.
  have hlexemes : (ofTokens tokens).Represents ([] ++ lexemesFrom 0 tokens) :=
    represents_ofTokens tokens
  have hpair := pairFrom_spec tokens (.nil .nil) hlexemes
  rw [prepare]
  by_cases hbalanced : Climbing.balanced 0 tokens
  · rw [if_pos hbalanced]
    obtain ⟨s, hok, es, hs, hes, htokens, hhandles, hsize⟩ := (if_pos hbalanced).mp hpair
    rw [List.nil_append, tokensOf_lexemesFrom] at htokens
    rw [List.nil_append, handlesOf_lexemesFrom, ← List.range_eq_range'] at hhandles
    rw [size_ofTokens] at hsize
    have hsettle := settleAll_eq (hs.map_cell (hhandles.trans (by rw [hsize])))
    refine ⟨es, hes, htokens, hhandles, ?_⟩
    rw [hok]
    cases herror : settlingError es with
    | some cause =>
      rw [herror] at hsettle
      simp [bind, Except.bind, hsettle]
    | none =>
      rw [herror] at hsettle
      have hsize' : s.settledSequence.slots.size = tokens.length := by
        rw [settledSequence, Array.size_map, hsize]
      have henclosed := hs.settled.enclose
      rw [hsize'] at henclosed
      refine ⟨s.settledSequence.enclose, ?_, henclosed, ?_⟩
      · simp [bind, Except.bind, hsettle, pure, Except.pure]
      · rw [enclose, Sequence.pushBack, size_insert, Sequence.pushFront, size_insert, hsize']
  · rw [if_neg hbalanced, (if_neg hbalanced).mp hpair]
    rfl

/-- What a prepared sequence for items from `n` tokens is. -/
structure IsPrepared (s : Sequence) (n : Nat) (items : List Climbing.Item) (body : List Entry) :
    Prop where
  represents : s.Represents (enclosed n body)
  isBody : IsBody body
  itemsOf_eq : itemsOf body = items
  handlesOf_eq : handlesOf body = List.range n
  size : s.slots.size = n + 2

theorem IsPrepared.length_le {s : Sequence} {n : Nat} {items : List Climbing.Item}
    {body : List Entry} (hs : s.IsPrepared n items body) : items.length ≤ n := by
  have hhandles := congrArg List.length hs.handlesOf_eq
  rw [handlesOf, List.length_map, List.length_range] at hhandles
  rw [← hs.itemsOf_eq, ← hhandles]
  exact List.length_filterMap_le _ _

/-- **Preparation fails just where reading the items does**, and else prepares what was read. -/
theorem prepare_spec (tokens : List Token) :
    match Climbing.readItems tokens with
    | .error cause => prepare tokens = .error cause
    | .ok items => ∃ s body, prepare tokens = .ok s ∧ s.IsPrepared tokens.length items body := by
  have hcases := prepare_cases tokens
  rw [Climbing.readItems]
  by_cases hbalanced : Climbing.balanced 0 tokens
  · rw [if_pos hbalanced] at hcases ⊢
    obtain ⟨es, hes, htokens, hhandles, hprepare⟩ := hcases
    have hread := mapM_ofToken hes
    rw [htokens] at hread
    rw [hread]
    cases herror : settlingError es with
    | some cause =>
      rw [herror] at hprepare
      exact hprepare
    | none =>
      rw [herror] at hprepare
      obtain ⟨s, hok, henclosed, hsize⟩ := hprepare
      exact ⟨s, settledEntries es, hok, henclosed, hes.settled herror, rfl,
        (handlesOf_settledEntries es).trans hhandles, hsize⟩
  · rw [if_neg hbalanced] at hcases ⊢
    exact hcases

end Sequence

end Calculator
