import Calculator.Lexer
import Calculator.Proofs.Scanner.Rules
import Calculator.Proofs.Token.Writes

/-!
# The lexer takes the longest token

Blanks apart, the lexer takes the longest part of the text ahead that is a token, and where there is
none it fails with the character that it stands at. The order in which the rules are tried does not
matter, because no two of them begin with the same character.
-/

namespace Calculator

namespace Lexer

open Scanner hiding isBlank
open Token (IsFirst isBlank munch ofSpelling?)

variable {s : Scanner Char} {origin : Nat} {ahead : List Char}

/-! ## One item -/

theorem isBlank_eq : Scanner.isBlank = isBlank := by
  funext c
  rw [Scanner.isBlank, isBlank, decide_eq_decide]
  tauto

private theorem ignoreBlanks_sees (h : s.Sees origin [] ahead) :
    ∃ blanks left, (∀ c ∈ blanks, isBlank c) ∧ ahead = blanks ++ left ∧
      (∀ c ∈ left.head?, ¬ isBlank c) ∧
      (ignoreBlanks s).2.Sees (origin + blanks.length) [] left := by
  obtain ⟨t, hskip, ht⟩ := h.skipWhile Scanner.isBlank false
  rw [isBlank_eq] at hskip ht
  refine ⟨ahead.takeWhile isBlank, ahead.dropWhile isBlank, fun c ↦ List.mem_takeWhile_imp,
    List.takeWhile_append_dropWhile.symm, fun c hc ↦ not_of_mem_head?_dropWhile hc, ?_⟩
  rw [ignoreBlanks, isBlank_eq, hskip]
  exact ht.ignore

/-- What a lexer finds behind the blanks: a token, a character at which none begins, or the end. -/
inductive Finds (origin : Nat) : List Char → Option LexItem × Scanner Char → Prop where
  | token {token : Token} {spelling left : List Char} {t : Scanner Char} :
      IsFirst token spelling left → t.Sees (origin + spelling.length) [] left →
      Finds origin (spelling ++ left) (some (.ok token), t)
  | error {c : Char} {left : List Char} {t : Scanner Char} :
      (∀ text, text <+: c :: left → ofSpelling? text = none) →
      Finds origin (c :: left) (some (.error ⟨origin, c⟩), t)
  | nothing {t : Scanner Char} : t.Sees origin [] [] → Finds origin [] (none, t)

/-- The rules, one after the other, find the longest token. -/
theorem finds_scanItem (h : s.Sees origin [] ahead) :
    ∃ blanks left, (∀ c ∈ blanks, isBlank c) ∧ ahead = blanks ++ left ∧
      (∀ c ∈ left.head?, ¬ isBlank c) ∧
      Finds (origin + blanks.length) left (scanItem s) := by
  obtain ⟨blanks, left, hblanks, hahead, hleft, hs⟩ := ignoreBlanks_sees h
  refine ⟨blanks, left, hblanks, hahead, hleft, ?_⟩
  rw [scanItem]
  rcases hs.scanNumber with ⟨spelling, left, t, hscan, rfl, hlongest, ht⟩ | ⟨t, hscan, hnumber, ht⟩
  · rw [hscan]
    exact .token (Token.isFirst_number hlongest) ht
  rw [hscan]
  dsimp only
  rcases ht.scanCharacter ['(', ')'] with ⟨c, left, u, hscan, rfl, hc, hu⟩ |
    ⟨u, hscan, hparenthesis, hu⟩
  · rw [scanParenthesis, hscan]
    have hcases : c = '(' ∨ c = ')' := by simpa using hc
    rcases hcases with rfl | rfl
    · exact .token Token.isFirst_opening hu
    · exact .token Token.isFirst_closing hu
  rw [scanParenthesis, hscan]
  dsimp only
  rcases hu.scanCharacter (Operator.all.map Operator.symbol) with ⟨c, left, v, hscan, rfl, hc, hv⟩ |
    ⟨v, hscan, hoperator, hv⟩
  · rw [scanOperator, hscan]
    obtain ⟨o, -, rfl⟩ := List.mem_map.mp hc
    exact .token (Token.isFirst_operator o) hv
  rw [scanOperator, hscan]
  dsimp only
  rcases hv.scanFunction with ⟨spelling, left, w, hscan, rfl, hlongest, hw⟩ |
    ⟨w, hscan, hname, hw⟩
  · rw [hscan]
    exact .token (Token.isFirst_function hlongest) hw
  rw [hscan]
  have hpeek : peek w = (left.head?, (peek w).2) := Prod.ext hw.next_fst rfl
  dsimp only
  rw [hpeek, hw.offset]
  cases left with
  | nil => exact .nothing hw.moveTo_next
  | cons c left =>
    refine .error fun text ↦ Token.ofSpelling?_eq_none (hnumber c rfl) ?_ hname
    rintro (rfl | rfl | hsymbol)
    · exact hparenthesis '(' rfl (by simp)
    · exact hparenthesis ')' rfl (by simp)
    · obtain ⟨o, rfl⟩ := Token.isSome_ofChar?_iff.mp hsymbol
      exact hoperator o.symbol rfl (List.mem_map_of_mem (by cases o <;> decide))

/-! ## All items -/

theorem items_of_some {l l' : Lexer} {item : LexItem} (h : l.next = (some item, l')) :
    l.items = item :: l'.items := by
  rw [items]
  split
  · next h' =>
    rw [h] at h'
    cases h'
    rfl
  · next h' =>
    rw [h] at h'
    cases h'

theorem items_of_none {l l' : Lexer} (h : l.next = (none, l')) : l.items = [] := by
  rw [items]
  split
  · next h' =>
    rw [h] at h'
    cases h'
  · rfl

/-- A list of tokens as items, with the error behind them. -/
def itemsOf (tokens : List Token) (failure : Option LexError) : List LexItem :=
  tokens.map .ok ++ failure.toList.map .error

theorem mapM_itemsOf (tokens : List Token) (failure : Option LexError) :
    (itemsOf tokens failure).mapM id = Token.outcome tokens failure := by
  induction tokens with
  | nil => cases failure <;> rfl
  | cons token tokens ih =>
    have hcons : itemsOf (token :: tokens) failure = .ok token :: itemsOf tokens failure := rfl
    rw [hcons, List.mapM_cons, ih]
    cases failure <;> rfl

/-- A lexer answers what the text ahead yields. -/
theorem items_eq (h : s.Sees origin [] ahead) :
    ∃ tokens failure, Token.Yields origin ahead tokens failure ∧
      (⟨s, false⟩ : Lexer).items = itemsOf tokens failure := by
  induction hlength : ahead.length using Nat.strong_induction_on generalizing s origin ahead with
  | h n ih =>
    obtain ⟨blanks, left, hblanks, rfl, hleft, hfinds⟩ := finds_scanItem h
    generalize hscan : scanItem s = found at hfinds
    cases hfinds with
    | @nothing t _ =>
      have hnext : (⟨s, false⟩ : Lexer).next = (none, ⟨t, false⟩) := by
        rw [next, hscan]
        rfl
      exact ⟨[], none, .blanks hblanks .nil, items_of_none hnext⟩
    | @error c left t hnone =>
      have hnext : (⟨s, false⟩ : Lexer).next
          = (some (.error ⟨origin + blanks.length, c⟩), ⟨t, true⟩) := by
        rw [next, hscan]
        rfl
      refine ⟨[], _, .blanks hblanks (.error (hleft _ rfl) hnone), ?_⟩
      rw [items_of_some hnext, items_of_none rfl]
      rfl
    | @token token spelling left t hfirst ht =>
      have hnext : (⟨s, false⟩ : Lexer).next = (some (.ok token), ⟨t, false⟩) := by
        rw [next, hscan]
        rfl
      have hpos := hfirst.length_pos
      have hshorter : left.length < n := by
        rw [← hlength, List.length_append, List.length_append]
        omega
      obtain ⟨tokens, failure, hyields, hitems⟩ := ih _ hshorter ht rfl
      refine ⟨token :: tokens, failure, .blanks hblanks (.token hfirst hyields), ?_⟩
      rw [items_of_some hnext, hitems]
      rfl

/-- A lexer answers the tokens of the text ahead, each the longest possible, up to its end or the
first error. -/
theorem mapM_items (h : s.Sees origin [] ahead) :
    (⟨s, false⟩ : Lexer).items.mapM id = munch origin ahead := by
  obtain ⟨tokens, failure, hyields, hitems⟩ := items_eq h
  rw [hitems, mapM_itemsOf, hyields.munch_eq]

end Lexer

theorem tokenize_eq (text : String) : tokenize text = Token.munch 0 text.toList :=
  Lexer.mapM_items (Scanner.Sees.start rfl)

/-- **Tokenizing always takes the longest token** and skips nothing but blanks; the text is written
by its tokens. -/
theorem tokenize_eq_munch (text : String) :
    tokenize text = Token.munch 0 text.toList ∧
      ∀ tokens, tokenize text = .ok tokens → Writes tokens text.toList :=
  ⟨tokenize_eq text, fun _ htokens ↦
    Token.writes_of_munch ((tokenize_eq text).symm.trans htokens)⟩

/-- Names need no blank between them, numbers do. -/
theorem writes_numbers_and_names :
    tokenize "1.5E3 2tAnHcos" =
        .ok [.number "1.5E3", .number "2", .function "tanh", .function "cos"] ∧
      Writes [.number "1.5E3", .number "2", .function "tanh", .function "cos"]
        "1.5E3 2tAnHcos".toList := by
  have htokens : tokenize "1.5E3 2tAnHcos" =
      .ok [.number "1.5E3", .number "2", .function "tanh", .function "cos"] := by
    decide +kernel
  exact ⟨htokens, (tokenize_eq_munch "1.5E3 2tAnHcos").2 _ htokens⟩

/-- A point without digits behind it is no part of the number, and begins no token. -/
example : tokenize "1.e5" = .error ⟨1, '.'⟩ := by decide +kernel

end Calculator
