import Calculator.Proofs.Lexer.Written
import Calculator.Proofs.Number.RoundTrip
import Calculator.Proofs.Sequence.Pairing
import Calculator.Proofs.Session.Arguments

/-!
# The text of a prepared sequence

What the log shows of a prepared sequence is an expression again. It is prepared to the same cells,
in one more pair of parentheses, though a number may be spelled in another way.

## Places instead of handles

The pair around a prepared sequence is made last and so has the last handles, while the same pair
read as tokens has the first and the last handle of those that come before. The handles of partners
are not the same, but the places of partners in the row of cells are, one further to the right.
-/

namespace Calculator

open Token (ArePartners Matched)

/-! ## Tokens separated by blanks -/

namespace Token

variable {token : Token} {tokens : List Token}

private theorem isWrittenAs_text (htoken : token.IsLexical) :
    token.IsWrittenAs token.text.toList := by
  cases token with
  | function name =>
    have hlower : ∀ name ∈ MathFunction.names, name.toList.map Char.toLower = name.toList := by
      decide
    exact hlower name htoken
  | _ => rfl

theorem tokenize_text (htoken : token.IsLexical) : tokenize token.text = .ok [token] := by
  have hblanks : [].all Token.isBlank := rfl
  have hwrites : Writes [token] ([] ++ token.text.toList ++ []) :=
    .cons hblanks (isWrittenAs_text htoken) (.nil hblanks) (by rintro - ⟨⟩)
  refine tokenize_of_writes (by simpa using hwrites) fun other hother ↦ ?_
  rwa [List.mem_singleton.mp hother]

/-- **The texts of tokens with blanks between them have these tokens.** -/
theorem tokenize_intercalate (htokens : ∀ token ∈ tokens, token.IsLexical) :
    tokenize (" ".intercalate (tokens.map text)) = .ok tokens := by
  have hall : List.Forall₂ (tokenize · = .ok ·) (tokens.map text)
      (tokens.map fun token ↦ [token]) := by
    rw [List.forall₂_map_left_iff, List.forall₂_map_right_iff]
    exact List.forall₂_same.mpr fun token htoken ↦ tokenize_text (htokens token htoken)
  have hjoined := Session.tokenize_joined hall
  rwa [← List.flatMap_def, List.flatMap_singleton'] at hjoined

/-! ## Tokens in their new spelling -/

/-- A token as it is spelled once it was read: a number is shown again. -/
def respelled : Token → Token
  | number literal =>
    match Number.read? literal with
    | some x => number (Number.text x)
    | none => number literal
  | token => token

theorem respelled_eq_opening_iff (token : Token) :
    token.respelled = .opening ↔ token = .opening := by
  cases token with
  | number literal =>
    rw [respelled]
    cases Number.read? literal <;> simp
  | _ => simp [respelled]

theorem respelled_eq_closing_iff (token : Token) :
    token.respelled = .closing ↔ token = .closing := by
  cases token with
  | number literal =>
    rw [respelled]
    cases Number.read? literal <;> simp
  | _ => simp [respelled]

/-- Tokens in their new spelling, in one more pair of parentheses. -/
def enclosedAgain (tokens : List Token) : List Token :=
  .opening :: (tokens.map respelled ++ [.closing])

private theorem matched_map_respelled : Matched (tokens.map respelled) ↔ Matched tokens := by
  rw [matched_iff_balanced, matched_iff_balanced,
    Climbing.balanced_map respelled_eq_opening_iff respelled_eq_closing_iff]

theorem Matched.enclosedAgain (h : Matched tokens) : Matched (enclosedAgain tokens) :=
  matched_iff_balanced.mpr
    (Climbing.balanced_enclosed (matched_iff_balanced.mp (matched_map_respelled.mpr h)))

theorem Matched.arePartners (h : Matched tokens) :
    ArePartners (Token.enclosedAgain tokens) 0 (tokens.length + 1) :=
  ⟨[], tokens.map respelled, [], rfl, rfl, by simp, matched_map_respelled.mpr h⟩

theorem ArePartners.enclosedAgain {opening closing : Nat} (h : ArePartners tokens opening closing) :
    ArePartners (Token.enclosedAgain tokens) (opening + 1) (closing + 1) := by
  obtain ⟨before, inner, after, rfl, hbefore, hinner, hmatched⟩ := h
  refine ⟨.opening :: before.map respelled, inner.map respelled, after.map respelled ++ [.closing],
    ?_, ?_, ?_, matched_map_respelled.mpr hmatched⟩
  · simp [Token.enclosedAgain, respelled]
  · simp [hbefore]
  · rw [List.length_map]
    omega

/-! ## What the new spelling becomes -/

variable {cell : Cell}

theorem Becomes.cases (h : token.Becomes cell) :
    (∃ literal x, token = .number literal ∧ cell = .number x ∧ Number.read? literal = some x ∧
        x.isFinite) ∨
      (∃ symbol, token = .operator symbol ∧ cell = .operator symbol) ∨
      (∃ name, token = .function name ∧ cell = .function name) ∨
      (token = .opening ∧ ∃ partner, cell = .opening partner) ∨
      (token = .closing ∧ ∃ partner, cell = .closing partner) := by
  cases token <;> cases cell <;> simp_all [Becomes]

theorem Becomes.token_eq (h : token.Becomes cell) : cell.token = token.respelled := by
  rcases h.cases with ⟨literal, x, rfl, rfl, hread, -⟩ | ⟨symbol, rfl, rfl⟩ | ⟨name, rfl, rfl⟩ |
    ⟨rfl, partner, rfl⟩ | ⟨rfl, partner, rfl⟩
  · rw [respelled, hread, Cell.token]
  · rfl
  · rfl
  · rfl
  · rfl

/-- A token of a text becomes the same cell in its new spelling. -/
theorem Becomes.respelled (htoken : token.IsLexical) (h : token.Becomes cell) :
    token.respelled.IsLexical ∧ token.respelled.Becomes cell := by
  rcases h.cases with ⟨literal, x, rfl, rfl, hread, hfinite⟩ | ⟨symbol, rfl, rfl⟩ |
    ⟨name, rfl, rfl⟩ | ⟨rfl, partner, rfl⟩ | ⟨rfl, partner, rfl⟩
  · obtain ⟨hlexical, hagain⟩ :=
      Number.read?_text hfinite (Number.isNegative_of_read? htoken hread)
    rw [Token.respelled, hread]
    exact ⟨hlexical, hagain, hfinite⟩
  · exact ⟨htoken, h⟩
  · exact ⟨htoken, h⟩
  · exact ⟨htoken, h⟩
  · exact ⟨htoken, h⟩

theorem Becomes.numberError? (h : token.Becomes cell) : token.numberError? = none := by
  rcases h.cases with ⟨literal, x, rfl, -, hread, hfinite⟩ | ⟨symbol, rfl, -⟩ | ⟨name, rfl, -⟩ |
    ⟨rfl, -⟩ | ⟨rfl, -⟩
  · rw [Token.numberError?, hread]
    exact if_pos hfinite
  · rfl
  · rfl
  · rfl
  · rfl

/-- A token that is no parenthesis becomes one cell only. -/
theorem Becomes.unique {cell' : Cell} (h : token.Becomes cell) (h' : token.Becomes cell')
    (hopening : token ≠ .opening) (hclosing : token ≠ .closing) : cell' = cell := by
  cases token <;> cases cell <;> cases cell' <;> simp_all [Becomes]

theorem ArePartners.lt_length {opening closing : Nat} (h : ArePartners tokens opening closing) :
    opening < tokens.length ∧ closing < tokens.length := by
  obtain ⟨before, inner, after, rfl, hbefore, hinner, -⟩ := h
  simp only [List.length_append, List.length_cons]
  omega

end Token

/-! ## Places -/

theorem Cell.text_token (cell : Cell) : cell.token.text = cell.text := by
  cases cell <;> rfl

/-- A parenthesis whose partner has another name. -/
def Cell.relink (f : Handle → Handle) : Cell → Cell
  | opening partner => opening (f partner)
  | closing partner => closing (f partner)
  | cell => cell

namespace Sequence

variable {s : Sequence} {tokens : List Token} {body es es' : List Entry} {h : Handle} {cell : Cell}

/-- The cells in order, each parenthesis with the place of its partner instead of its handle. -/
def placedCells (s : Sequence) : List Cell :=
  s.cells.map (Cell.relink fun partner ↦ s.handles.idxOf partner)

/-- The partner of every parenthesis in a sequence is in the sequence too. -/
def HasPartners (s : Sequence) : Prop :=
  ∀ partner, .opening partner ∈ s.cells ∨ .closing partner ∈ s.cells → partner ∈ s.handles

/-! ## Bodies -/

theorem eq_of_forall_mem {n : Nat} (hes : handlesOf es = List.range n)
    (hes' : handlesOf es' = List.range n) (hmem : ∀ e ∈ es, e ∈ es') : es = es' := by
  have hlength : es.length = es'.length := by
    simpa [handlesOf] using congrArg List.length (hes.trans hes'.symm)
  refine List.ext_getElem hlength fun i hi hi' ↦ ?_
  obtain ⟨⟨h, cell⟩, he⟩ : ∃ e, es[i] = e := ⟨_, rfl⟩
  obtain rfl := eq_of_getElem? hes (List.getElem?_eq_some_iff.mpr ⟨hi, he⟩)
  obtain ⟨j, hj⟩ := List.getElem?_of_mem (hmem _ (List.mem_of_getElem he))
  obtain rfl := eq_of_getElem? hes' hj
  rw [he]
  exact (List.getElem?_eq_some_iff.mp hj).2.symm

namespace IsBodyFor

theorem length_eq (hbody : IsBodyFor tokens body) : body.length = tokens.length := by
  simpa [handlesOf] using congrArg List.length hbody.handles

private theorem exists_token (hbody : IsBodyFor tokens body) (he : (h, cell) ∈ body) :
    ∃ token, tokens[h]? = some token ∧ token.Becomes cell := by
  obtain ⟨i, hi⟩ := List.getElem?_of_mem he
  obtain rfl := eq_of_getElem? hbody.handles hi
  have hlt : i < tokens.length := hbody.length_eq ▸ (List.getElem?_eq_some_iff.mp hi).1
  obtain ⟨cell', hcell', hbecomes⟩ := hbody.becomes i _ (List.getElem?_eq_getElem hlt)
  rw [hi] at hcell'
  cases hcell'
  exact ⟨_, List.getElem?_eq_getElem hlt, hbecomes⟩

private theorem exists_cell (hbody : IsBodyFor tokens body) {token : Token}
    (htoken : token ∈ tokens) :
    ∃ cell, token.Becomes cell := by
  obtain ⟨i, hi⟩ := List.getElem?_of_mem htoken
  obtain ⟨cell, -, hbecomes⟩ := hbody.becomes i token hi
  exact ⟨cell, hbecomes⟩

theorem tokensOf_eq (hbody : IsBodyFor tokens body) :
    tokensOf body = tokens.map Token.respelled := by
  refine List.ext_getElem (by simp [tokensOf, hbody.length_eq]) fun i hi hi' ↦ ?_
  rw [List.length_map] at hi'
  obtain ⟨cell, hcell, hbecomes⟩ := hbody.becomes i _ (List.getElem?_eq_getElem hi')
  obtain ⟨_, he⟩ := List.getElem?_eq_some_iff.mp hcell
  simp [tokensOf, he, hbecomes.token_eq]

private theorem partner_lt (hbody : IsBodyFor tokens body) {partner : Handle}
    (he : (h, .opening partner) ∈ body ∨ (h, .closing partner) ∈ body) :
    partner < tokens.length := by
  rcases he with he | he
  · exact ((hbody.opening_iff _ _).mp he).lt_length.2
  · exact ((hbody.closing_iff _ _).mp he).lt_length.1

/-- The cell of a token comes again one place further, with its partner. -/
theorem mem_enclosedAgain {body' : List Entry} (hbody : IsBodyFor tokens body)
    (hbody' : IsBodyFor (Token.enclosedAgain tokens) body')
    (hlexical : ∀ token ∈ tokens, token.IsLexical) (hcell : (h, cell) ∈ body) :
    (h + 1, cell.relink (· + 1)) ∈ body' := by
  obtain ⟨token, htoken, hbecomes⟩ := hbody.exists_token hcell
  have hagain := (hbecomes.respelled (hlexical _ (List.mem_of_getElem? htoken))).2
  -- What a token that is no parenthesis becomes does not depend on where it stands.
  have hplain : token ≠ .opening → token ≠ .closing → (h + 1, cell) ∈ body' := by
    intro hopening hclosing
    obtain ⟨hlt, hget⟩ := List.getElem?_eq_some_iff.mp htoken
    have hplace : (Token.enclosedAgain tokens)[h + 1]? = some token.respelled := by
      simp [Token.enclosedAgain, List.getElem?_append, hlt, hget]
    obtain ⟨cell', hcell', hbecomes'⟩ := hbody'.becomes (h + 1) _ hplace
    have hcell := hagain.unique hbecomes' (mt (Token.respelled_eq_opening_iff token).mp hopening)
      (mt (Token.respelled_eq_closing_iff token).mp hclosing)
    exact hcell ▸ List.mem_of_getElem? hcell'
  rcases hbecomes.cases with ⟨literal, x, rfl, rfl, -, -⟩ | ⟨symbol, rfl, rfl⟩ | ⟨name, rfl, rfl⟩ |
    ⟨rfl, partner, rfl⟩ | ⟨rfl, partner, rfl⟩
  · exact hplain nofun nofun
  · exact hplain nofun nofun
  · exact hplain nofun nofun
  · exact (hbody'.opening_iff _ _).mpr ((hbody.opening_iff _ _).mp hcell).enclosedAgain
  · exact (hbody'.closing_iff _ _).mpr ((hbody.closing_iff _ _).mp hcell).enclosedAgain

/-- The body of the tokens that a sequence is shown with is all of the sequence, with places instead
of handles. -/
theorem enclosedAgain_eq {body' : List Entry} (hbody : IsBodyFor tokens body)
    (hbody' : IsBodyFor (Token.enclosedAgain tokens) body')
    (hlexical : ∀ token ∈ tokens, token.IsLexical) (hmatched : Matched tokens) :
    (0, .opening (tokens.length + 1)) ::
        (body.map (fun e ↦ (e.1 + 1, e.2.relink (· + 1))) ++ [(tokens.length + 1, .closing 0)])
      = body' := by
  have hlength : (Token.enclosedAgain tokens).length = tokens.length + 2 := by
    simp [Token.enclosedAgain]
  refine eq_of_forall_mem (n := tokens.length + 2) ?_ (hlength ▸ hbody'.handles) ?_
  · have hhandles : body.map Prod.fst = List.range tokens.length := hbody.handles
    have hshifted : handlesOf (body.map fun e ↦ (e.1 + 1, e.2.relink (· + 1)))
        = (List.range tokens.length).map (· + 1) := by
      rw [← hhandles, handlesOf, List.map_map, List.map_map]
      rfl
    rw [handlesOf_cons, handlesOf_append, hshifted, List.range_succ_eq_map, List.range_succ]
    simp
  · intro e he
    rcases List.mem_cons.mp he with rfl | he
    · exact (hbody'.opening_iff _ _).mpr hmatched.arePartners
    rcases List.mem_append.mp he with he | he
    · obtain ⟨⟨i, cell⟩, hcell, rfl⟩ := List.mem_map.mp he
      exact hbody.mem_enclosedAgain hbody' hlexical hcell
    · rw [List.mem_singleton.mp he]
      exact (hbody'.closing_iff _ _).mpr hmatched.arePartners

end IsBodyFor

/-! ## Prepared sequences -/

/-- What is known of tokens that can be prepared, and of the sequence that is prepared for them. -/
private theorem exists_body_of_prepare (hs : prepare tokens = .ok s) :
    Matched tokens ∧ ∃ body, IsBodyFor tokens body ∧
      s.Represents (enclosed tokens.length body) := by
  have hcases := prepare_cases tokens
  by_cases hbalanced : Climbing.balanced 0 tokens
  · rw [if_pos hbalanced] at hcases
    obtain ⟨es, hes, htokens, hhandles, hprepare⟩ := hcases
    cases herror : settlingError es with
    | some cause =>
      rw [herror, hs] at hprepare
      cases hprepare
    | none =>
      rw [herror] at hprepare
      obtain ⟨s', hok, hs', -⟩ := hprepare
      rw [hs] at hok
      cases hok
      rw [settlingError_eq hes, htokens] at herror
      exact ⟨Token.matched_iff_balanced.mpr hbalanced, _,
        isBodyFor_settledEntries hes htokens hhandles herror, hs'⟩
  · rw [if_neg hbalanced, hs] at hcases
    cases hcases

private theorem exists_prepare (hmatched : Matched tokens)
    (hcells : ∀ token ∈ tokens, ∃ cell, token.Becomes cell) : ∃ s, prepare tokens = .ok s := by
  have hcases := prepare_cases tokens
  rw [if_pos (Token.matched_iff_balanced.mp hmatched)] at hcases
  obtain ⟨es, hes, htokens, -, hprepare⟩ := hcases
  have herror : settlingError es = none := by
    rw [settlingError_eq hes, htokens, List.findSome?_eq_none_iff]
    intro token htoken
    obtain ⟨cell, hbecomes⟩ := hcells token htoken
    exact hbecomes.numberError?
  rw [herror] at hprepare
  obtain ⟨s, hok, -⟩ := hprepare
  exact ⟨s, hok⟩

section Enclosed

variable (hbody : IsBodyFor tokens body) (hs : s.Represents (enclosed tokens.length body))

include hbody hs

private theorem handles_of_enclosed :
    s.handles = tokens.length :: (List.range tokens.length ++ [tokens.length + 1]) := by
  rw [hs.handles_eq, enclosed, handlesOf_cons, handlesOf_append, hbody.handles]
  rfl

/-- The places of the cells: the outer parentheses are first and last, and each other cell is one
place behind the one that its handle counts. -/
theorem idxOf_handles :
    s.handles.idxOf tokens.length = 0 ∧ s.handles.idxOf (tokens.length + 1) = tokens.length + 1 ∧
      ∀ h < tokens.length, s.handles.idxOf h = h + 1 := by
  rw [handles_of_enclosed hbody hs]
  refine ⟨List.idxOf_cons_self, ?_, fun h hh ↦ ?_⟩
  · rw [List.idxOf_cons_ne _ (by simp), List.idxOf_append_of_notMem (by simp)]
    simp
  · have hrange := List.nodup_range.idxOf_getElem h (by rwa [List.length_range])
    rw [List.getElem_range] at hrange
    rw [List.idxOf_cons_ne _ (Nat.ne_of_gt hh), List.idxOf_append_of_mem (List.mem_range.mpr hh),
      hrange]

private theorem placedCells_of_enclosed :
    s.placedCells = .opening (tokens.length + 1) ::
      (body.map (fun e ↦ e.2.relink (· + 1)) ++ [.closing 0]) := by
  obtain ⟨hfirst, hlast, hinner⟩ := idxOf_handles hbody hs
  have hrelink : body.map (fun e ↦ e.2.relink fun partner ↦ s.handles.idxOf partner)
      = body.map fun e ↦ e.2.relink (· + 1) := by
    refine List.map_congr_left ?_
    rintro ⟨h, cell⟩ he
    cases cell with
    | opening partner => exact congrArg Cell.opening (hinner _ (hbody.partner_lt (.inl he)))
    | closing partner => exact congrArg Cell.closing (hinner _ (hbody.partner_lt (.inr he)))
    | _ => rfl
  have houter : Cell.relink (fun partner ↦ s.handles.idxOf partner) (.opening (tokens.length + 1))
        = .opening (tokens.length + 1) ∧
      Cell.relink (fun partner ↦ s.handles.idxOf partner) (.closing tokens.length) = .closing 0 :=
    ⟨congrArg Cell.opening hlast, congrArg Cell.closing hfirst⟩
  rw [← hrelink, placedCells, hs.cells_eq, enclosed]
  simp [houter, Function.comp_def]

private theorem hasPartners_of_enclosed : s.HasPartners := by
  intro partner hmem
  rw [handles_of_enclosed hbody hs]
  rw [hs.cells_eq, enclosed] at hmem
  simp only [List.map_cons, List.map_append, List.map_nil, List.mem_cons, List.mem_append,
    List.mem_map, Prod.exists, exists_eq_right, List.not_mem_nil, or_false, List.mem_range,
    Cell.opening.injEq, Cell.closing.injEq, reduceCtorEq, false_or] at hmem ⊢
  rcases hmem with (rfl | ⟨h, he⟩) | ⟨h, he⟩ | rfl
  · exact .inr (.inr rfl)
  · exact .inr (.inl (hbody.partner_lt (.inl he)))
  · exact .inr (.inl (hbody.partner_lt (.inr he)))
  · exact .inl rfl

end Enclosed

private theorem tokens_of_enclosed (hbody : IsBodyFor tokens body)
    (hs : s.Represents (enclosed tokens.length body)) :
    s.cells.map Cell.token = Token.enclosedAgain tokens := by
  have htokens : body.map (fun e ↦ e.2.token) = tokens.map Token.respelled := hbody.tokensOf_eq
  rw [hs.cells_eq, enclosed, Token.enclosedAgain, ← htokens]
  simp [Cell.token, Function.comp_def]

private theorem text_eq_intercalate (s : Sequence) :
    s.text = " ".intercalate ((s.cells.map Cell.token).map Token.text) := by
  rw [Sequence.text, List.map_map]
  exact congrArg _ (List.map_congr_left fun cell _ ↦ cell.text_token.symm)

/-- Each token that a sequence is shown with can be spelled and becomes a cell again. -/
theorem IsBodyFor.forall_enclosedAgain (hbody : IsBodyFor tokens body)
    (hlexical : ∀ token ∈ tokens, token.IsLexical) :
    ∀ token ∈ Token.enclosedAgain tokens, token.IsLexical ∧ ∃ cell, token.Becomes cell := by
  intro token htoken
  simp only [Token.enclosedAgain, List.mem_cons, List.mem_append, List.mem_map,
    List.not_mem_nil, or_false] at htoken
  rcases htoken with rfl | ⟨token, htoken, rfl⟩ | rfl
  · exact ⟨trivial, .opening 0, trivial⟩
  · obtain ⟨cell, hbecomes⟩ := hbody.exists_cell htoken
    obtain ⟨hagain, hcell⟩ := hbecomes.respelled (hlexical token htoken)
    exact ⟨hagain, cell, hcell⟩
  · exact ⟨trivial, .closing 0, trivial⟩

/-- **The text of a prepared sequence is an expression for it.** It has the tokens of the cells, and
they are prepared to the same cells in the same order between one more pair of parentheses, each
parenthesis with its partner at the same place. -/
theorem prepare_text {text : String} (htokens : tokenize text = .ok tokens)
    (hs : prepare tokens = .ok s) :
    s.HasPartners ∧ tokenize s.text = .ok (s.cells.map Cell.token) ∧
      ∃ s', prepare (s.cells.map Cell.token) = .ok s' ∧
        s'.placedCells = .opening (s.cells.length + 1) ::
          (s.placedCells.map (Cell.relink (· + 1)) ++ [.closing 0]) := by
  have hlexical := Token.isLexical_of_munch ((tokenize_eq text).symm.trans htokens)
  obtain ⟨hmatched, body, hbody, hrepresents⟩ := exists_body_of_prepare hs
  have hshown := tokens_of_enclosed hbody hrepresents
  have hagain := hbody.forall_enclosedAgain hlexical
  refine ⟨hasPartners_of_enclosed hbody hrepresents, ?_, ?_⟩
  · rw [text_eq_intercalate, hshown]
    exact Token.tokenize_intercalate fun token htoken ↦ (hagain token htoken).1
  · rw [hshown]
    obtain ⟨s', hs'⟩ := exists_prepare hmatched.enclosedAgain fun token htoken ↦
      (hagain token htoken).2
    obtain ⟨-, body', hbody', hrepresents'⟩ := exists_body_of_prepare hs'
    have hlength : (Token.enclosedAgain tokens).length = s.cells.length := by
      rw [← hshown, List.length_map]
    refine ⟨s', hs', ?_⟩
    rw [placedCells_of_enclosed hbody' hrepresents', placedCells_of_enclosed hbody hrepresents,
      ← hbody.enclosedAgain_eq hbody' hlexical hmatched, hlength]
    simp [Function.comp_def, Cell.relink]

/-- Numbers with exponents are shown without, and read back. -/
theorem prepare_text_of_exponents :
    ∃ s, tokenize "1e3/(2-1E-7)" = .ok [.number "1e3", .operator '/', .opening, .number "2",
        .operator '-', .number "1E-7", .closing] ∧
      prepare [.number "1e3", .operator '/', .opening, .number "2", .operator '-', .number "1E-7",
        .closing] = .ok s ∧
      s.text = "( 1000 / ( 2 - 0.0000001 ) )" ∧
      tokenize "( 1000 / ( 2 - 0.0000001 ) )" = .ok (s.cells.map Cell.token) ∧
      ∃ s', prepare (s.cells.map Cell.token) = .ok s' ∧
        s'.placedCells
          = .opening 10 :: (s.placedCells.map (Cell.relink (· + 1)) ++ [.closing 0]) := by
  have htokens : tokenize "1e3/(2-1E-7)" = .ok [.number "1e3", .operator '/', .opening, .number "2",
      .operator '-', .number "1E-7", .closing] := by
    decide +kernel
  have hshown : (prepare [.number "1e3", .operator '/', .opening, .number "2", .operator '-',
      .number "1E-7", .closing]).map (fun s ↦ (s.text, s.cells.length))
        = .ok ("( 1000 / ( 2 - 0.0000001 ) )", 9) := by
    decide +kernel
  cases hs : prepare [.number "1e3", .operator '/', .opening, .number "2", .operator '-',
      .number "1E-7", .closing] with
  | error cause =>
    rw [hs] at hshown
    cases hshown
  | ok s =>
    rw [hs] at hshown
    obtain ⟨htext, hlength⟩ := Prod.mk.inj (Except.ok.inj hshown)
    obtain ⟨-, hagain, hprepared⟩ := prepare_text htokens hs
    rw [htext] at hagain
    rw [hlength] at hprepared
    exact ⟨s, htokens, rfl, htext, hagain, hprepared⟩

end Sequence

end Calculator
