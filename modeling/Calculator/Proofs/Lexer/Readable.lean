import Calculator.Proofs.Lexer.Munch

/-!
# The tokens of a text can be evaluated

Every number that the lexer reads is a number literal, and every function name is known. Tokens that
do not come from a text need not be like this, and then the evaluation stops with an internal error.
-/

namespace Calculator

/-- Whether a token can be evaluated: a number is a literal and a function is known. -/
def Token.IsReadable : Token → Prop
  | number literal => (Number.read? literal).isSome
  | function name => name ∈ MathFunction.names
  | operator _ | opening | closing => True

instance : (token : Token) → Decidable token.IsReadable
  | .number literal => inferInstanceAs (Decidable ((Number.read? literal).isSome = true))
  | .function name => inferInstanceAs (Decidable (name ∈ MathFunction.names))
  | .operator _ | .opening | .closing => .isTrue trivial

namespace Token

variable {token : Token} {tokens : List Token} {text : List Char} {position : Nat}

private theorem isReadable_of_spells (h : ofSpelling? text = some token) : token.IsReadable := by
  rcases ofSpelling?_cases h with ⟨hnumber, rfl⟩ | ⟨hname, rfl⟩ | ⟨-, rfl⟩ | ⟨-, rfl⟩ | ⟨o, -, rfl⟩
  · exact isSome_read? hnumber
  · exact hname
  · trivial
  · trivial
  · trivial

private theorem isReadable_of_munch (h : munch position text = .ok tokens) :
    ∀ token ∈ tokens, token.IsReadable := by
  refine munch_induction (fun _ tokens ↦ ∀ token ∈ tokens, token.IsReadable) ?nil ?blank ?first h
  case nil => rintro _ ⟨⟩
  case blank => exact fun _ ih ↦ ih
  case first =>
    intro first spelling rest tokens position hfirst _ ih token htoken
    rcases List.mem_cons.mp htoken with rfl | htoken
    · exact isReadable_of_spells hfirst.spells
    · exact ih token htoken

end Token

/-- **Every token of a text is readable.** -/
theorem isReadable_of_tokenize {text : String} {tokens : List Token}
    (h : tokenize text = .ok tokens) : ∀ token ∈ tokens, token.IsReadable :=
  Token.isReadable_of_munch ((tokenize_eq text).symm.trans h)

end Calculator
