import Calculator.Proofs.Climbing.Nesting
import Calculator.Proofs.Sequence.Listing
import Calculator.Proofs.Sequence.Prepared

/-!
# Partners

A prepared sequence has a cell for each token at the handle that is the token's place, and each
parenthesis holds the handle of its partner. Which parentheses are partners is said of the tokens
alone: a closing one is the partner of an opening one before it if the parentheses between them
match.

## A partner is found from the left

Behind an opening parenthesis there is at most one partner, because up to any later closing
parenthesis what stands between would close more than it opens. The body of a prepared sequence has
a partner for every parenthesis in it, so these are the only ones there can be.
-/

namespace Calculator

namespace Token

variable {tokens inner inner' after after' : List Token} {opening closing closing' : Handle}

/-! ## Matching parentheses -/

/-- The parentheses of tokens match: no beginning closes more than it opens, and all together close
as many as they open. -/
structure Matched (tokens : List Token) : Prop where
  closing_le : ∀ first, first <+: tokens → first.count .closing ≤ first.count .opening
  closing_eq : tokens.count .closing = tokens.count .opening

theorem balanced_iff (depth : Nat) (tokens : List Token) :
    Climbing.balanced depth tokens ↔
      (∀ first, first <+: tokens → first.count .closing ≤ first.count .opening + depth) ∧
        tokens.count .closing = tokens.count .opening + depth := by
  induction tokens generalizing depth with
  | nil => simp [Climbing.balanced, eq_comm]
  | cons token tokens ih =>
    rw [Sequence.forall_prefix_cons]
    by_cases hopening : token = .opening
    · subst hopening
      rw [Climbing.balanced, ih]
      simp [Nat.add_right_comm, Nat.add_assoc]
    by_cases hclosing : token = .closing
    · subst hclosing
      cases depth with
      | zero =>
        refine iff_of_false (by simp [Climbing.balanced]) fun h ↦ ?_
        have hle := h.1.2 [] List.nil_prefix
        simp at hle
      | succ depth =>
        rw [Climbing.balanced, ih]
        simp [← Nat.add_assoc]
    · rw [Climbing.balanced_cons hopening hclosing, ih]
      simp [List.count_cons_of_ne hopening, List.count_cons_of_ne hclosing]

theorem matched_iff_balanced : Matched tokens ↔ Climbing.balanced 0 tokens := by
  rw [balanced_iff]
  exact ⟨fun h ↦ ⟨h.closing_le, h.closing_eq⟩, fun h ↦ ⟨h.1, h.2⟩⟩

/-- Matched parentheses with a closing one behind begin no matched parentheses. -/
theorem Matched.not_concat_prefix (h : Matched inner) (h' : Matched inner') :
    ¬ inner ++ [.closing] <+: inner' := by
  intro hprefix
  have hle := h'.closing_le _ hprefix
  have heq := h.closing_eq
  have hnone : [closing].count opening = 0 := rfl
  rw [List.count_append, List.count_append, List.count_singleton_self, hnone] at hle
  omega

theorem Matched.eq_of_append (h : Matched inner) (h' : Matched inner')
    (heq : inner ++ .closing :: after = inner' ++ .closing :: after') : inner = inner' := by
  rcases List.append_eq_append_iff.mp heq with ⟨more, rfl, hmore⟩ | ⟨more, rfl, hmore⟩
  · cases more with
    | nil => simp
    | cons token more =>
      obtain ⟨rfl, -⟩ := List.cons.inj hmore
      exact absurd ⟨more, by simp⟩ (h.not_concat_prefix h')
  · cases more with
    | nil => simp
    | cons token more =>
      obtain ⟨rfl, -⟩ := List.cons.inj hmore
      exact absurd ⟨more, by simp⟩ (h'.not_concat_prefix h)

/-! ## Partners among tokens -/

/-- At two places of the tokens stand an opening parenthesis and, behind it, a closing one, and the
parentheses between them match. -/
def ArePartners (tokens : List Token) (opening closing : Nat) : Prop :=
  ∃ before inner after, tokens = before ++ .opening :: (inner ++ .closing :: after) ∧
    before.length = opening ∧ opening + inner.length + 1 = closing ∧ Matched inner

theorem ArePartners.unique (h : ArePartners tokens opening closing)
    (h' : ArePartners tokens opening closing') : closing = closing' := by
  obtain ⟨before, inner, after, rfl, hbefore, rfl, hinner⟩ := h
  obtain ⟨before', inner', after', heq, hbefore', rfl, hinner'⟩ := h'
  have hrest := (List.append_inj heq (hbefore.trans hbefore'.symm)).2
  rw [hinner.eq_of_append hinner' (List.cons.inj hrest).2]

/-! ## What tokens become -/

/-- The error of a number token that is no finite number. -/
def numberError? : Token → Option EvalError
  | .number literal =>
    match Number.read? literal with
    | none => some (.badLiteral literal)
    | some x => if x.isFinite then none else some (.domain (.literal literal))
  | .operator _ | .function _ | .opening | .closing => none

private theorem ne_of_numberError? {token : Token} {cause : EvalError}
    (h : token.numberError? = some cause) : cause ≠ .unmatchedParentheses := by
  rintro rfl
  cases token with
  | number literal =>
    rw [numberError?] at h
    cases hread : Number.read? literal with
    | none =>
      rw [hread] at h
      cases h
    | some x =>
      rw [hread] at h
      by_cases hfinite : x.isFinite <;> simp [hfinite] at h
  | _ => cases h

/-- A token becomes a cell: a number is read and must be finite, an operator or a function is taken
over, and a parenthesis has a partner. -/
def Becomes : Token → Cell → Prop
  | .number literal, .number x => Number.read? literal = some x ∧ x.isFinite
  | .operator symbol, .operator symbol' => symbol' = symbol
  | .function name, .function name' => name' = name
  | .opening, .opening _ | .closing, .closing _ => True
  | _, _ => False

end Token

namespace Sequence

open Token (ArePartners Matched)

variable {ordinary : Cell → Prop} {es : List Entry} {h opening closing : Handle} {cell : Cell}
  {tokens : List Token}

/-! ## Partners among entries -/

namespace Balanced

/-- Behind an opening parenthesis its partner closes what is balanced. -/
theorem exists_closing (hes : Balanced ordinary es)
    (hordinary : ∀ partner, ¬ ordinary (.opening partner)) :
    ∀ {before after}, es = before ++ (opening, .opening closing) :: after →
      ∃ inner rest, after = inner ++ (closing, .closing opening) :: rest ∧
        Balanced ordinary inner := by
  induction hes with
  | nil => exact fun hsplit ↦ absurd hsplit (by simp)
  | cons hcell _ ih =>
    intro before after hsplit
    cases before with
    | nil =>
      obtain ⟨he, -⟩ := List.cons.inj hsplit
      cases he
      exact absurd hcell (hordinary closing)
    | cons e before => exact ih (List.cons.inj hsplit).2
  | @group o c inner rest hinner _ ihinner ihrest =>
    intro before after hsplit
    cases before with
    | nil =>
      obtain ⟨he, rfl⟩ := List.cons.inj hsplit
      cases he
      exact ⟨inner, rest, rfl, hinner⟩
    | cons e before =>
      rcases split_cons (List.cons.inj hsplit).2 with ⟨mid, hmid, rfl⟩ | ⟨-, he, -⟩ |
        ⟨mid, hmid, -⟩
      · obtain ⟨inner, rest', rfl, hinner⟩ := ihinner hmid
        exact ⟨inner, rest' ++ (c, .closing o) :: rest, by simp, hinner⟩
      · cases he
      · exact ihrest hmid

/-- The partner of a closing parenthesis is there. -/
theorem mem_opening (hes : Balanced ordinary es)
    (hordinary : ∀ partner, ¬ ordinary (.closing partner))
    (hmem : (closing, .closing opening) ∈ es) : (opening, .opening closing) ∈ es := by
  induction hes with
  | nil => cases hmem
  | cons hcell _ ih =>
    rcases List.mem_cons.mp hmem with he | hmem
    · cases he
      exact absurd hcell (hordinary opening)
    · exact List.mem_cons_of_mem _ (ih hmem)
  | group _ _ ihinner ihrest =>
    simp only [List.mem_cons, List.mem_append] at hmem ⊢
    rcases hmem with he | hmem | he | hmem
    · cases he
    · exact .inr (.inl (ihinner hmem))
    · cases he
      exact .inl rfl
    · exact .inr (.inr (.inr (ihrest hmem)))

end Balanced

private theorem not_isUnsettled_of_token (hcell : cell.isUnsettled) :
    cell.token ≠ .opening ∧ cell.token ≠ .closing := by
  cases cell with
  | lexeme token =>
    cases token with
    | opening => cases hcell
    | closing => cases hcell
    | _ => exact ⟨nofun, nofun⟩
  | _ => cases hcell

/-- Entries that are balanced before they are settled stand for tokens whose parentheses match. -/
theorem Balanced.matched (hes : Balanced (·.isUnsettled) es) : Matched (tokensOf es) := by
  rw [Token.matched_iff_balanced]
  induction hes with
  | nil => rfl
  | cons hcell _ ih =>
    obtain ⟨hopening, hclosing⟩ := not_isUnsettled_of_token hcell
    rw [tokensOf_cons, Climbing.balanced_cons hopening hclosing]
    exact ih
  | @group opening closing inner rest _ _ ihinner ihrest =>
    have hbehind := Climbing.balanced_append ihinner 1 (.closing :: tokensOf rest)
    rw [Nat.zero_add] at hbehind
    rw [tokensOf_cons, tokensOf_append, tokensOf_cons]
    exact hbehind.trans ihrest

/-- Where the handles are counted from the left, the handle of an entry is its place. -/
theorem eq_of_getElem? {n i : Nat} (hhandles : handlesOf es = List.range n)
    (he : es[i]? = some (h, cell)) : i = h := by
  have hget : (handlesOf es)[i]? = some h := by
    rw [handlesOf, List.getElem?_map, he]
    rfl
  rw [hhandles] at hget
  obtain ⟨hi, hrange⟩ := List.getElem?_eq_some_iff.mp hget
  rwa [List.getElem_range] at hrange

theorem length_eq_of_handlesOf {n : Nat} {before after : List Entry}
    (hhandles : handlesOf (before ++ (h, cell) :: after) = List.range n) : before.length = h := by
  have he : (before ++ (h, cell) :: after)[before.length]? = some (h, cell) := by simp
  exact eq_of_getElem? hhandles he

private theorem arePartners_of_mem {n : Nat} (hes : Balanced (·.isUnsettled) es)
    (hhandles : handlesOf es = List.range n) (hmem : (opening, .opening closing) ∈ es) :
    ArePartners (tokensOf es) opening closing := by
  obtain ⟨before, after, rfl⟩ := List.append_of_mem hmem
  obtain ⟨inner, rest, rfl, hinner⟩ := hes.exists_closing (by simp [Cell.isUnsettled]) rfl
  have hopening := length_eq_of_handlesOf hhandles
  have hsplit : before ++ (opening, Cell.opening closing) ::
        (inner ++ (closing, .closing opening) :: rest)
      = (before ++ (opening, .opening closing) :: inner)
        ++ (closing, .closing opening) :: rest := by
    simp
  rw [hsplit] at hhandles
  have hclosing := length_eq_of_handlesOf hhandles
  refine ⟨tokensOf before, tokensOf inner, tokensOf rest, ?_, ?_, ?_, hinner.matched⟩
  · rw [tokensOf_append, tokensOf_cons, tokensOf_append, tokensOf_cons]
    rfl
  · rw [tokensOf, List.length_map, hopening]
  · rw [List.length_append, List.length_cons, hopening] at hclosing
    rw [tokensOf, List.length_map, ← hclosing, Nat.add_assoc]

/-- Handles of partners are places of partners. -/
theorem mem_opening_iff {n : Nat} (hes : Balanced (·.isUnsettled) es)
    (hhandles : handlesOf es = List.range n) :
    (opening, .opening closing) ∈ es ↔ ArePartners (tokensOf es) opening closing := by
  refine ⟨arePartners_of_mem hes hhandles, fun hpartners ↦ ?_⟩
  obtain ⟨before, inner, after, htokens, hbefore, -, -⟩ := id hpartners
  obtain ⟨before, rest, rfl, rfl, hrest⟩ := List.map_eq_append_iff.mp htokens
  obtain ⟨⟨h, cell⟩, rest, rfl, htoken, -⟩ := List.map_eq_cons_iff.mp hrest
  rw [List.length_map, length_eq_of_handlesOf hhandles] at hbefore
  subst hbefore
  -- The opening parenthesis at that place has a partner, and there is only one.
  have hmem : (h, cell) ∈ before ++ (h, cell) :: rest := by simp
  rcases hes.cell_cases hmem with hcell | ⟨partner, rfl⟩ | ⟨partner, rfl⟩
  · exact absurd htoken (not_isUnsettled_of_token hcell).1
  · rwa [hpartners.unique (arePartners_of_mem hes hhandles hmem)]
  · cases htoken

theorem mem_closing_iff {n : Nat} (hes : Balanced (·.isUnsettled) es)
    (hhandles : handlesOf es = List.range n) :
    (closing, .closing opening) ∈ es ↔ ArePartners (tokensOf es) opening closing := by
  rw [← mem_opening_iff hes hhandles]
  refine ⟨hes.mem_opening (by simp [Cell.isUnsettled]), fun hmem ↦ ?_⟩
  obtain ⟨before, after, rfl⟩ := List.append_of_mem hmem
  obtain ⟨inner, rest, rfl, -⟩ := hes.exists_closing (by simp [Cell.isUnsettled]) rfl
  simp

/-! ## Cells and their tokens -/

theorem settle_number (literal : String) :
    settle (.lexeme (.number literal)) = match Number.read? literal with
      | none => .error (.badLiteral literal)
      | some x => if x.isFinite then .ok (.number x) else .error (.domain (.literal literal)) := by
  rw [settle, Computation.value, Computation.outcome]
  cases Number.read? literal with
  | none => rfl
  | some x =>
    simp only [bind, Except.bind]
    split <;> rfl

/-- A cell of a token settles to what the token becomes, or has the token's error. -/
theorem settle_or_numberError (hcell : cell.isUnsettled ∨ (∃ partner, cell = .opening partner) ∨
    ∃ partner, cell = .closing partner) :
    match cell.token.numberError? with
    | none => ∃ cell', settle cell = .ok cell' ∧ cell.token.Becomes cell'
    | some cause => settle cell = .error cause := by
  rcases hcell with hcell | ⟨partner, rfl⟩ | ⟨partner, rfl⟩
  · cases cell with
    | lexeme token =>
      cases token with
      | number literal =>
        rw [settle_number, Cell.token, Token.numberError?]
        cases hread : Number.read? literal with
        | none => rfl
        | some x => by_cases hfinite : x.isFinite <;> simp [hfinite, Token.Becomes, hread]
      | operator symbol => exact ⟨_, rfl, rfl⟩
      | function name => exact ⟨_, rfl, rfl⟩
      | opening => cases hcell
      | closing => cases hcell
    | _ => cases hcell
  · exact ⟨_, rfl, trivial⟩
  · exact ⟨_, rfl, trivial⟩

private theorem errorOf_settle (hcell : cell.isUnsettled ∨ (∃ partner, cell = .opening partner) ∨
    ∃ partner, cell = .closing partner) : errorOf (settle cell) = cell.token.numberError? := by
  have hsettle := settle_or_numberError hcell
  cases herror : cell.token.numberError? with
  | none =>
    rw [herror] at hsettle
    obtain ⟨cell', hok, -⟩ := hsettle
    rw [hok]
    rfl
  | some cause =>
    rw [herror] at hsettle
    rw [hsettle]
    rfl

private theorem becomes_settled (hcell : cell.isUnsettled ∨ (∃ partner, cell = .opening partner) ∨
    ∃ partner, cell = .closing partner) (herror : cell.token.numberError? = none) :
    cell.token.Becomes (settled cell) := by
  have hsettle := settle_or_numberError hcell
  rw [herror] at hsettle
  obtain ⟨cell', hok, hbecomes⟩ := hsettle
  rwa [settled_of_settle hok]

theorem settlingError_eq (hes : Balanced (·.isUnsettled) es) :
    settlingError es = (tokensOf es).findSome? Token.numberError? := by
  have herror : ∀ e ∈ es, errorOf (settle e.2) = e.2.token.numberError? :=
    fun e he ↦ errorOf_settle (hes.cell_cases he)
  clear hes
  induction es with
  | nil => rfl
  | cons e es ih =>
    obtain ⟨he, hes⟩ := List.forall_mem_cons.mp herror
    rw [settlingError_cons, he, ih hes, tokensOf_cons, List.findSome?_cons]
    cases e.2.token.numberError? <;> rfl

private theorem settled_lexeme_ne (token : Token) (partner : Handle) :
    settled (.lexeme token) ≠ .opening partner ∧ settled (.lexeme token) ≠ .closing partner := by
  cases token with
  | number literal =>
    rw [settled, settle]
    cases (Computation.literal literal).value <;> simp [Except.map]
  | _ => simp [settled, settle]

/-- Settling makes no parenthesis and takes none away. -/
theorem settled_eq_parenthesis_iff (cell : Cell) (partner : Handle) :
    (settled cell = .opening partner ↔ cell = .opening partner) ∧
      (settled cell = .closing partner ↔ cell = .closing partner) := by
  cases cell with
  | lexeme token =>
    obtain ⟨hopening, hclosing⟩ := settled_lexeme_ne token partner
    exact ⟨iff_of_false hopening (by simp), iff_of_false hclosing (by simp)⟩
  | _ => exact ⟨Iff.rfl, Iff.rfl⟩

theorem mem_settledEntries_iff {settledCell : Cell} :
    (h, settledCell) ∈ settledEntries es ↔ ∃ cell, (h, cell) ∈ es ∧ settled cell = settledCell := by
  simp [settledEntries]

/-! ## The body of a prepared sequence -/

/-- What a prepared sequence holds for its tokens between the outer parentheses: at the place of
each token, which is its handle, the cell that it becomes, and for each parenthesis its partner. -/
structure IsBodyFor (tokens : List Token) (body : List Entry) : Prop where
  handles : handlesOf body = List.range tokens.length
  becomes : ∀ (i : Nat) (token : Token), tokens[i]? = some token →
    ∃ cell, body[i]? = some (i, cell) ∧ token.Becomes cell
  settled : ∀ e ∈ body, ∀ token, e.2 ≠ .lexeme token
  opening_iff : ∀ opening closing,
    (opening, .opening closing) ∈ body ↔ ArePartners tokens opening closing
  closing_iff : ∀ opening closing,
    (closing, .closing opening) ∈ body ↔ ArePartners tokens opening closing

theorem isBodyFor_settledEntries (hes : Balanced (·.isUnsettled) es)
    (htokens : tokensOf es = tokens) (hhandles : handlesOf es = List.range tokens.length)
    (herror : tokens.findSome? Token.numberError? = none) :
    IsBodyFor tokens (settledEntries es) := by
  subst htokens
  have hbecomes : ∀ e ∈ es, e.2.token.Becomes (Sequence.settled e.2) := fun e he ↦
    becomes_settled (hes.cell_cases he)
      (List.findSome?_eq_none_iff.mp herror _ (List.mem_map_of_mem he))
  refine ⟨(handlesOf_settledEntries es).trans hhandles, ?_, ?_, ?_, ?_⟩
  · intro i token htoken
    rw [tokensOf, List.getElem?_map] at htoken
    obtain ⟨⟨h, cell⟩, he, rfl⟩ := Option.map_eq_some_iff.mp htoken
    obtain rfl := eq_of_getElem? hhandles he
    refine ⟨Sequence.settled cell, ?_, hbecomes _ (List.mem_of_getElem? he)⟩
    rw [settledEntries, List.getElem?_map, he]
    rfl
  · rintro ⟨h, settledCell⟩ he token rfl
    obtain ⟨cell, hcell, hsettled⟩ := mem_settledEntries_iff.mp he
    have htoken := hbecomes _ hcell
    rw [hsettled] at htoken
    cases hkind : cell.token <;> rw [hkind] at htoken <;> exact htoken
  · intro opening closing
    rw [← mem_opening_iff hes hhandles, mem_settledEntries_iff]
    simp [(settled_eq_parenthesis_iff _ closing).1]
  · intro opening closing
    rw [← mem_closing_iff hes hhandles, mem_settledEntries_iff]
    simp [(settled_eq_parenthesis_iff _ opening).2]

/-- **Preparation is exact.** It finds unmatched parentheses just where there are some; else it has
the error of the first number token that is no finite number; and else it puts around the body for
the tokens one pair of parentheses with the next two handles. -/
theorem prepare_exact (tokens : List Token) :
    (prepare tokens = .error .unmatchedParentheses ↔ ¬ Matched tokens) ∧
      (Matched tokens → match tokens.findSome? Token.numberError? with
        | some cause => prepare tokens = .error cause
        | none => ∃ s body, prepare tokens = .ok s ∧ IsBodyFor tokens body ∧
            s.handles = tokens.length :: (List.range tokens.length ++ [tokens.length + 1]) ∧
            s.Shows ((tokens.length, .opening (tokens.length + 1)) ::
              (body ++ [(tokens.length + 1, .closing tokens.length)]))) := by
  have hcases := prepare_cases tokens
  by_cases hmatched : Matched tokens
  · rw [if_pos (Token.matched_iff_balanced.mp hmatched)] at hcases
    obtain ⟨es, hes, htokens, hhandles, hprepare⟩ := hcases
    rw [settlingError_eq hes, htokens] at hprepare
    cases herror : tokens.findSome? Token.numberError? with
    | some cause =>
      rw [herror] at hprepare
      refine ⟨iff_of_false ?_ (not_not_intro hmatched), fun _ ↦ hprepare⟩
      obtain ⟨token, -, htoken⟩ := List.exists_of_findSome?_eq_some herror
      rw [hprepare]
      exact fun h ↦ Token.ne_of_numberError? htoken (Except.error.inj h)
    | none =>
      rw [herror] at hprepare
      obtain ⟨s, hok, hs, -⟩ := hprepare
      have hbody := isBodyFor_settledEntries hes htokens hhandles herror
      refine ⟨iff_of_false (by rw [hok]; nofun) (not_not_intro hmatched), fun _ ↦
        ⟨s, settledEntries es, hok, hbody, ?_, hs.shows⟩⟩
      rw [hs.handles_eq, enclosed, handlesOf_cons, handlesOf_append, hbody.handles]
      rfl
  · rw [if_neg (mt Token.matched_iff_balanced.mpr hmatched)] at hcases
    exact ⟨iff_of_true hcases hmatched, fun h ↦ absurd h hmatched⟩

/-- The outer parentheses have the last handles, and stand around the others. -/
theorem handles_of_nested_groups :
    Matched [.opening, .opening, .closing, .closing] ∧
      ∃ s, prepare [.opening, .opening, .closing, .closing] = .ok s ∧
        s.handles = [4, 0, 1, 2, 3, 5] := by
  have hmatched : Matched [.opening, .opening, .closing, .closing] :=
    Token.matched_iff_balanced.mpr rfl
  obtain ⟨s, body, hprepare, -, hhandles, -⟩ := (prepare_exact _).2 hmatched
  exact ⟨hmatched, s, hprepare, hhandles⟩

/-- Unmatched parentheses are found before any number is read. -/
example : prepare [.closing, .number "1e400", .opening] = .error .unmatchedParentheses := rfl

end Sequence

end Calculator
