import Calculator.Proofs.Scanner.Sees
import Calculator.Proofs.Token.Munch

/-!
# What the rules accept

Each rule takes the longest text of its kind that lies ahead. Where there is none it takes nothing,
whatever it has looked at before it gave up.

## Numbers

The rule for numbers goes back where a point or an exponent marker has no digits behind it. What it
accepts in the end is therefore digits, a whole fraction or none, and a whole exponent or none.

## Function names

The rule for function names reads letters up to the length of the longest name and remembers the
longest name so far, so it may have read beyond that name or beyond the end of the source before it
goes back.
-/

namespace Calculator

namespace Scanner

open Token (areDigits areSigns isExponent isFraction isNumberText IsName)

variable {s t : Scanner Char} {origin : Nat} {accepted ahead : List Char}

namespace Sees

/-! ## Numbers -/

theorem skipDigits (h : s.Sees origin accepted ahead) :
    (∃ digits left t, Scanner.skipDigits s = (true, t) ∧ ahead = digits ++ left ∧
        areDigits digits ∧ (∀ c ∈ left.head?, ¬ c.isDigit) ∧
        t.Sees origin (accepted ++ digits) left) ∨
      ∃ t, Scanner.skipDigits s = (false, t) ∧ (∀ c ∈ ahead.head?, ¬ c.isDigit) ∧
        t.Sees origin accepted ahead := by
  obtain ⟨t, hskip, ht⟩ := h.skipWhile Char.isDigit false
  have hahead := List.takeWhile_append_dropWhile (p := Char.isDigit) (l := ahead)
  have hleft : ∀ c ∈ (ahead.dropWhile Char.isDigit).head?, ¬ c.isDigit := fun c hc ↦
    not_of_mem_head?_dropWhile hc
  cases hdigits : ahead.takeWhile Char.isDigit with
  | nil =>
    rw [hdigits, List.nil_append] at hahead
    rw [hdigits, hahead, List.append_nil] at ht
    rw [hahead] at hleft
    refine .inr ⟨t, ?_, hleft, ht⟩
    rw [Scanner.skipDigits, hskip, hdigits]
    rfl
  | cons digit digits =>
    rw [hdigits] at hskip ht hahead
    refine .inl ⟨digit :: digits, ahead.dropWhile Char.isDigit, t, hskip, hahead.symm, ?_, hleft,
      ht⟩
    rw [areDigits, ← hdigits, List.all_takeWhile, hdigits]
    rfl

/-- A point is accepted with the digits behind it, or not at all. -/
theorem skipFraction (h : s.Sees origin accepted ahead) :
    ∃ flag t fraction left, Scanner.skipFraction s = (flag, t) ∧ ahead = fraction ++ left ∧
      IsLongest (isFraction ·) fraction left ∧ (flag = false → left.head? = some '.') ∧
      t.Sees origin (accepted ++ fraction) left := by
  rw [Scanner.skipFraction, accept]
  rcases h.acceptIf_cases (· == '.') with ⟨c, behind, t, rfl, hc, haccept, ht⟩ |
    ⟨t, hnone, haccept, ht⟩
  · cases eq_of_beq hc
    rw [haccept]
    dsimp only
    rcases ht.skipDigits with ⟨digits, left, u, hskip, rfl, hdigits, hleft, hu⟩ |
      ⟨u, hskip, hbehind, hu⟩
    · rw [hskip]
      exact ⟨true, u, '.' :: digits, left, rfl, rfl,
        Token.isLongest_fraction (Token.isLongest_areDigits hdigits hleft), by rintro ⟨⟩,
        by simpa using hu⟩
    · -- Going back to the place in front of the point puts it ahead again.
      rw [hskip, h.cursor]
      exact ⟨false, _, [], '.' :: behind, rfl, rfl, Token.isLongest_noFraction hbehind,
        fun _ ↦ rfl, by simpa using hu.moveTo⟩
  · rw [haccept]
    have hpoint : ∀ c ∈ ahead.head?, c ≠ '.' := by simpa using hnone
    exact ⟨true, t, [], ahead, rfl, rfl, Token.isLongest_noFraction_of_head hpoint, by rintro ⟨⟩,
      by simpa using ht⟩

private theorem acceptSign (h : s.Sees origin accepted ahead) :
    ∃ signs left, ahead = signs ++ left ∧ IsLongest areSigns signs left ∧
      (acceptAny ['+', '-'] s).2.Sees origin (accepted ++ signs) left := by
  rw [acceptAny]
  rcases h.acceptIf_cases (['+', '-'].contains ·) with
    ⟨sign, behind, t, rfl, hsign, haccept, ht⟩ | ⟨t, hnone, haccept, ht⟩
  · rw [haccept]
    exact ⟨[sign], behind, rfl, Token.isLongest_sign (by simpa using hsign), ht⟩
  · rw [haccept]
    exact ⟨[], ahead, rfl, Token.isLongest_noSign (by simpa using hnone), by simpa using ht⟩

/-- An exponent is accepted as a whole, or not at all. -/
theorem skipExponent (h : s.Sees origin accepted ahead) :
    ∃ exponent left, ahead = exponent ++ left ∧ IsLongest (isExponent ·) exponent left ∧
      (Scanner.skipExponent s).2.Sees origin (accepted ++ exponent) left := by
  rw [Scanner.skipExponent, acceptAny]
  rcases h.acceptIf_cases (['e', 'E'].contains ·) with
    ⟨marker, behind, t, rfl, hmarker, haccept, ht⟩ | ⟨t, hnone, haccept, ht⟩
  · rw [haccept]
    dsimp only
    have hmarker : marker = 'e' ∨ marker = 'E' := by simpa using hmarker
    obtain ⟨signs, behind, rfl, hsigns, hsign⟩ := ht.acceptSign
    rcases hsign.skipDigits with ⟨digits, left, u, hskip, rfl, hdigits, hleft, hu⟩ |
      ⟨u, hskip, hbehind, hu⟩
    · rw [hskip]
      exact ⟨marker :: (signs ++ digits), left, by simp,
        Token.isLongest_exponent hmarker hsigns (Token.isLongest_areDigits hdigits hleft),
        by simpa using hu⟩
    · rw [hskip, h.cursor]
      rw [List.append_assoc] at hu
      exact ⟨[], _, rfl, Token.isLongest_noExponent hsigns hbehind, by simpa using hu.moveTo⟩
  · rw [haccept]
    exact ⟨[], ahead, rfl, Token.isLongest_noExponent_of_head (by simpa using hnone),
      by simpa using ht⟩

theorem extractText (h : s.Sees origin accepted ahead) :
    ∃ t, Scanner.extractText s = (String.ofList accepted, t) ∧
      t.Sees (origin + accepted.length) [] ahead := by
  refine ⟨(Scanner.ignore s).2, ?_, h.ignore⟩
  rw [Scanner.extractText, extract, h.view]

/-- **The longest number ahead is taken**, or none is there. -/
theorem scanNumber (h : s.Sees origin [] ahead) :
    (∃ spelling left t, Scanner.scanNumber s = (some (String.ofList spelling), t) ∧
        ahead = spelling ++ left ∧ IsLongest (isNumberText ·) spelling left ∧
        t.Sees (origin + spelling.length) [] left) ∨
      ∃ t, Scanner.scanNumber s = (none, t) ∧ (∀ c ∈ ahead.head?, ¬ c.isDigit) ∧
        t.Sees origin [] ahead := by
  rw [Scanner.scanNumber]
  rcases h.skipDigits with ⟨whole, behind, u, hskip, rfl, hwhole, hbehind, hu⟩ |
    ⟨u, hskip, hahead, hu⟩
  · refine .inl ?_
    have hwhole := Token.isLongest_areDigits hwhole hbehind
    obtain ⟨flag, v, fraction, behind, hskipFraction, rfl, hfraction, hflag, hv⟩ := hu.skipFraction
    rw [hskip]
    dsimp only
    rw [hskipFraction]
    cases flag with
    | false =>
      -- A point without digits ends the number, so no exponent is looked for.
      have hexponent : IsLongest (isExponent ·) [] behind := by
        refine Token.isLongest_noExponent_of_head ?_
        rw [hflag rfl]
        rintro _ ⟨⟩
        decide
      have hnumber := Token.isLongest_isNumberText hwhole hfraction hexponent
      obtain ⟨w, hextract, hw⟩ := hv.extractText
      dsimp only
      rw [hextract]
      exact ⟨whole ++ (fraction ++ []), behind, w, by simp, by simp, hnumber, by simpa using hw⟩
    | true =>
      obtain ⟨exponent, left, rfl, hexponent, hw⟩ := hv.skipExponent
      have hnumber := Token.isLongest_isNumberText hwhole hfraction hexponent
      obtain ⟨x, hextract, hx⟩ := hw.extractText
      dsimp only
      rw [hextract]
      exact ⟨whole ++ (fraction ++ exponent), left, x, by simp, by simp, hnumber,
        by simpa using hx⟩
  · rw [hskip]
    exact .inr ⟨u, rfl, hahead, hu⟩

/-! ## Single characters -/

theorem scanCharacter (h : s.Sees origin [] ahead) (characters : List Char) :
    (∃ c left t, Scanner.scanCharacter characters s = (some c, t) ∧ ahead = c :: left ∧
        c ∈ characters ∧ t.Sees (origin + 1) [] left) ∨
      ∃ t, Scanner.scanCharacter characters s = (none, t) ∧ (∀ c ∈ ahead.head?, c ∉ characters) ∧
        t.Sees origin [] ahead := by
  rw [Scanner.scanCharacter, acceptAny]
  rcases h.acceptIf_cases (characters.contains ·) with
    ⟨c, left, t, rfl, hc, haccept, ht⟩ | ⟨t, hnone, haccept, ht⟩
  · rw [haccept]
    exact .inl ⟨c, left, _, rfl, rfl, by simpa using hc, ht.ignore⟩
  · rw [haccept]
    exact .inr ⟨t, rfl, by simpa using hnone, ht⟩

end Sees

/-! ## Function names -/

/-- What is remembered of the letters read so far: the longest name that they begin with. -/
def Remembers (found : Option (Nat × String)) (letters : List Char) : Prop :=
  match found with
  | some (place, name) => ∃ spelling left, letters = spelling ++ left ∧ place = spelling.length ∧
      name = String.ofList (spelling.map Char.toLower) ∧ IsLongest IsName spelling left
  | none => ∀ text, text <+: letters → ¬ IsName text

variable {found : Option (Nat × String)} {letters behind : List Char}

theorem remembers_nil : Remembers none [] := by
  intro text htext hname
  exact hname.ne_nil (List.prefix_nil.mp htext)

/-- The longest name stays so in front of text that makes none longer. -/
theorem Remembers.append (h : Remembers found letters)
    (hlonger : ∀ text, text <+: behind → text ≠ [] → ¬ IsName (letters ++ text)) :
    Remembers found (letters ++ behind) := by
  cases found with
  | some best =>
    obtain ⟨place, name⟩ := best
    obtain ⟨spelling, left, rfl, hplace, hspelling, hlongest⟩ := h
    refine ⟨spelling, left ++ behind, by simp, hplace, hspelling, hlongest.append_rest ?_⟩
    simpa using hlonger
  | none =>
    rintro text ⟨later, hlater⟩ hname
    rcases List.append_eq_append_iff.mp hlater with ⟨more, rfl, -⟩ | ⟨more, rfl, hbehind⟩
    · exact h text (List.prefix_append _ _) hname
    · by_cases hmore : more = []
      · subst hmore
        exact h letters List.prefix_rfl (by simpa using hname)
      · exact hlonger more ⟨later, hbehind.symm⟩ hmore hname

/-- One letter more makes the longest name, or none. -/
theorem Remembers.concat (h : Remembers found letters) (c : Char) :
    Remembers (if String.ofList ((letters ++ [c]).map Char.toLower) ∈ MathFunction.names
        then some ((letters ++ [c]).length, String.ofList ((letters ++ [c]).map Char.toLower))
        else found)
      (letters ++ [c]) := by
  split
  · next hname =>
    refine ⟨letters ++ [c], [], (List.append_nil _).symm, rfl, rfl, hname, fun more hmore _ ↦ ?_⟩
    exact List.prefix_nil.mp hmore
  · next hname =>
    refine h.append fun text htext hne ↦ ?_
    rcases List.prefix_cons_iff.mp htext with rfl | ⟨_, rfl, hnil⟩
    · exact absurd rfl hne
    · rw [List.prefix_nil.mp hnil]
      exact hname

namespace Sees

/-- The window is grown until no letter follows or no name is as long. -/
theorem growWindow (h : s.Sees origin accepted ahead) {limit : Nat}
    (hlimit : MathFunction.longestName ≤ accepted.length + limit)
    (hfound : Remembers found accepted) :
    ∃ found' t letters behind,
      Scanner.growWindow limit (accepted.map Char.toLower) found s = (found', t) ∧
        accepted ++ ahead = letters ++ behind ∧ Remembers found' letters ∧
        (t.moveTo letters.length).Sees origin letters behind ∧
        ∀ text, text <+: behind → text ≠ [] → ¬ IsName (letters ++ text) := by
  induction limit generalizing s accepted ahead found with
  | zero =>
    refine ⟨found, s, accepted, ahead, rfl, rfl, hfound, ?_, fun text _ hne hname ↦ ?_⟩
    · rw [← h.cursor]
      exact h
    · have hlength := hname.length_le
      have hpos := List.length_pos_iff.mpr hne
      rw [List.length_append] at hlength
      omega
  | succ limit ih =>
    have hnext : Scanner.next s = (ahead.head?, (Scanner.next s).2) := Prod.ext h.next_fst rfl
    have hstop := h.moveTo_next
    rw [h.cursor] at hstop
    rw [Scanner.growWindow, hnext]
    cases ahead with
    | nil => exact ⟨found, _, accepted, [], rfl, rfl, hfound, hstop, fun text htext hne ↦
        absurd (List.prefix_nil.mp htext) hne⟩
    | cons c ahead =>
      dsimp only [List.head?_cons]
      by_cases hc : c.isAlpha
      · rw [if_pos hc]
        have hlimit' : MathFunction.longestName ≤ (accepted ++ [c]).length + limit := by
          rw [List.length_append, List.length_singleton]
          omega
        obtain ⟨found', t, letters, behind, hgrow, hletters, hrest⟩ :=
          ih h.next_cons hlimit' (hfound.concat c)
        refine ⟨found', t, letters, behind, ?_, by simpa using hletters, hrest⟩
        rw [← hgrow, h.next_cons.cursor]
        simp
      · rw [if_neg hc]
        refine ⟨found, _, accepted, c :: ahead, rfl, rfl, hfound, hstop, ?_⟩
        intro text htext hne hname
        obtain ⟨d, text, rfl⟩ := List.exists_cons_of_ne_nil hne
        obtain ⟨rfl, -⟩ := List.cons_prefix_cons.mp htext
        exact hc (hname.isAlpha d (by simp))

/-- **The longest function name ahead is taken**, or none is there. -/
theorem scanFunction (h : s.Sees origin [] ahead) :
    (∃ spelling left t,
        Scanner.scanFunction s = (some (String.ofList (spelling.map Char.toLower)), t) ∧
        ahead = spelling ++ left ∧ IsLongest IsName spelling left ∧
        t.Sees (origin + spelling.length) [] left) ∨
      ∃ t, Scanner.scanFunction s = (none, t) ∧ (∀ text, text <+: ahead → ¬ IsName text) ∧
        t.Sees origin [] ahead := by
  obtain ⟨found, t, letters, behind, hgrow, hahead, hfound, ht, hlonger⟩ :=
    h.growWindow (Nat.le_add_left MathFunction.longestName _) remembers_nil
  rw [List.nil_append] at hahead
  subst hahead
  rw [Scanner.scanFunction, ← List.map_nil (f := Char.toLower), hgrow]
  cases found with
  | some best =>
    obtain ⟨place, name⟩ := best
    obtain ⟨spelling, left, rfl, rfl, rfl, hlongest⟩ := hfound
    have hback := ht.moveTo.ignore
    refine .inl ⟨spelling, left ++ behind, _, rfl, by simp, hlongest.append_rest ?_, hback⟩
    simpa using hlonger
  | none =>
    have hback : (t.moveTo letters.length).Sees origin ([] ++ letters) behind := ht
    refine .inr ⟨t.moveTo s.cursor, rfl, hfound.append hlonger, ?_⟩
    rw [h.cursor]
    exact hback.moveTo

end Sees

end Scanner

end Calculator
