import Calculator.Scanner.Rules

/-!
# Rules make progress

A rule that succeeds leaves fewer characters than it found. The point is kept apart from what a rule
accepts: all that counts is that something was accepted and was in the buffer when the view was
forgotten, and that later steps of the rule never go back behind it.
-/

namespace Calculator.Scanner

variable {α : Type}

/-! ## Looking and stepping keep what is there -/

@[simp] theorem rest_moveTo (cursor : Nat) (s : Scanner α) : (s.moveTo cursor).rest = s.rest := rfl

@[simp] theorem rest_acceptIf (condition : α → Bool) (s : Scanner α) :
    (acceptIf condition s).2.rest = s.rest := by
  have hrest := rest_next s
  unfold acceptIf
  grind [rest_moveTo]

@[simp] theorem rest_skipWhile (condition : α → Bool) (advanced : Bool) (s : Scanner α) :
    (skipWhile condition advanced s).2.rest = s.rest := by
  fun_induction skipWhile condition advanced s with
  | case1 advanced s item s' h ih =>
    rw [ih, ← rest_acceptIf condition s, h]
  | case2 advanced s s' h => rw [← rest_acceptIf condition s, h]

@[simp] theorem rest_peek (s : Scanner α) : (peek s).2.rest = s.rest := rest_next s

theorem rest_ignore (s : Scanner α) :
    (ignore s).2.rest = s.rest.drop (min s.cursor s.buffer.size) := by
  simp only [ignore, rest, Array.toList_extract, List.extract_eq_take_drop]
  rw [List.drop_append, List.take_of_length_le (by simp)]
  rcases Nat.le_total s.cursor s.buffer.size with h | h
  · simp [h]
  · simp [h, List.drop_eq_nil_of_le]

/-! ## Something is accepted -/

/-- At least one item of the buffer is accepted. -/
def Holds (s : Scanner α) : Prop := 0 < s.cursor ∧ 0 < s.buffer.size

theorem Holds.moveTo {s t : Scanner α} (hs : Holds s) (hsize : s.buffer.size ≤ t.buffer.size) :
    Holds (t.moveTo s.cursor) :=
  ⟨hs.1, Nat.lt_of_lt_of_le hs.2 hsize⟩

theorem size_le_next (s : Scanner α) : s.buffer.size ≤ (next s).2.buffer.size := by
  simp only [next, fill, ← Array.length_toList, Array.toList_appendList, List.length_append]
  exact Nat.le_add_right _ _

theorem size_le_acceptIf (condition : α → Bool) (s : Scanner α) :
    s.buffer.size ≤ (acceptIf condition s).2.buffer.size := by
  have hsize := size_le_next s
  unfold acceptIf
  grind [moveTo]

theorem holds_next_of_some {s : Scanner α} {item : α} (h : (next s).1 = some item) :
    Holds (next s).2 := by
  obtain ⟨hlt, -⟩ := Array.getElem?_eq_some_iff.mp (show (next s).2.buffer[s.cursor]? = _ from h)
  exact ⟨by rw [(cursor_next_of_some h).1]; omega, by omega⟩

theorem holds_acceptIf_of_some {condition : α → Bool} {s s' : Scanner α} {item : α}
    (h : acceptIf condition s = (some item, s')) : Holds s' := by
  have hnext := @holds_next_of_some α s
  unfold acceptIf at h
  grind

theorem Holds.acceptIf {s : Scanner α} (hs : Holds s) (condition : α → Bool) :
    Holds (Scanner.acceptIf condition s).2 := by
  have hnext := @holds_next_of_some α s
  have hback := hs.moveTo (size_le_next s)
  unfold Scanner.acceptIf
  grind

theorem size_le_skipWhile (condition : α → Bool) (advanced : Bool) (s : Scanner α) :
    s.buffer.size ≤ (skipWhile condition advanced s).2.buffer.size := by
  fun_induction skipWhile condition advanced s with
  | case1 advanced s item s' h ih =>
    have hsize := size_le_acceptIf condition s
    rw [h] at hsize
    exact Nat.le_trans hsize ih
  | case2 advanced s s' h =>
    have hsize := size_le_acceptIf condition s
    rwa [h] at hsize

theorem Holds.skipWhile {s : Scanner α} (hs : Holds s) (condition : α → Bool) (advanced : Bool) :
    Holds (Scanner.skipWhile condition advanced s).2 := by
  fun_induction Scanner.skipWhile condition advanced s with
  | case1 advanced s item s' h ih => exact ih (holds_acceptIf_of_some h)
  | case2 advanced s s' h => simpa [h] using hs.acceptIf condition

theorem holds_skipWhile_of_true {condition : α → Bool} {s s' : Scanner α}
    (h : skipWhile condition false s = (true, s')) : Holds s' := by
  unfold skipWhile at h
  split at h
  · next item t ht => simpa [h] using (holds_acceptIf_of_some ht).skipWhile condition true
  · cases (Prod.mk.inj h).1

theorem length_ignore_lt {s : Scanner α} (hs : Holds s) :
    (ignore s).2.rest.length < s.rest.length := by
  have hsize : s.buffer.size ≤ s.rest.length := by simp [rest]
  rw [rest_ignore, List.length_drop]
  have := hs.1
  have := hs.2
  omega

/-! ## The rules -/

theorem length_ignoreBlanks_le (s : Scanner Char) :
    (ignoreBlanks s).2.rest.length ≤ s.rest.length := by
  rw [ignoreBlanks, rest_ignore, rest_skipWhile]
  simp

private theorem Holds.skipFraction {s : Scanner Char} (hs : Holds s) :
    Holds (Scanner.skipFraction s).2 := by
  have haccept := hs.acceptIf (· == '.')
  have hsize := size_le_acceptIf (· == '.') s
  unfold Scanner.skipFraction skipDigits accept
  split
  · next t ht => rwa [ht] at haccept
  · next t ht =>
    rw [ht] at haccept hsize
    have hskip := haccept.skipWhile Char.isDigit false
    have hgrow := size_le_skipWhile Char.isDigit false t
    split
    · next u hu => rwa [hu] at hskip
    · next u hu =>
      rw [hu] at hgrow
      exact hs.moveTo (Nat.le_trans hsize hgrow)

private theorem Holds.skipExponent {s : Scanner Char} (hs : Holds s) :
    Holds (Scanner.skipExponent s).2 := by
  have haccept := hs.acceptIf (['e', 'E'].contains ·)
  have hsize := size_le_acceptIf (['e', 'E'].contains ·) s
  unfold Scanner.skipExponent skipDigits acceptAny
  split
  · next t ht => rwa [ht] at haccept
  · next t ht =>
    rw [ht] at haccept hsize
    have hsign := haccept.acceptIf (['+', '-'].contains ·)
    have hskip := hsign.skipWhile Char.isDigit false
    have hgrow := Nat.le_trans (size_le_acceptIf (['+', '-'].contains ·) t)
      (size_le_skipWhile Char.isDigit false _)
    split
    · next u hu => rwa [hu] at hskip
    · next u hu =>
      rw [hu] at hgrow
      exact hs.moveTo (Nat.le_trans hsize hgrow)

@[simp] private theorem rest_skipFraction (s : Scanner Char) :
    (Scanner.skipFraction s).2.rest = s.rest := by
  have haccept := rest_acceptIf (· == '.') s
  unfold Scanner.skipFraction skipDigits accept
  split
  · next t ht => rwa [ht] at haccept
  · next t ht =>
    rw [ht] at haccept
    have hskip := rest_skipWhile Char.isDigit false t
    split <;> next u hu =>
      rw [hu] at hskip
      exact hskip.trans haccept

@[simp] private theorem rest_skipExponent (s : Scanner Char) :
    (Scanner.skipExponent s).2.rest = s.rest := by
  have haccept := rest_acceptIf (['e', 'E'].contains ·) s
  unfold Scanner.skipExponent skipDigits acceptAny
  split
  · next t ht => rwa [ht] at haccept
  · next t ht =>
    rw [ht] at haccept
    have hskip := rest_skipWhile Char.isDigit false (acceptIf (['+', '-'].contains ·) t).2
    rw [rest_acceptIf] at hskip
    split <;> next u hu =>
      rw [hu] at hskip
      exact hskip.trans haccept

theorem length_scanNumber_of_some {s s' : Scanner Char} {literal : String}
    (h : scanNumber s = (some literal, s')) : s'.rest.length < s.rest.length := by
  unfold scanNumber at h
  split at h
  · cases (Prod.mk.inj h).1
  · next t ht =>
    have hrest := rest_skipWhile Char.isDigit false s
    have hholds : Holds t := holds_skipWhile_of_true ht
    rw [show skipWhile Char.isDigit false s = (true, t) from ht] at hrest
    have hfraction := rest_skipFraction t
    have hheld := hholds.skipFraction
    obtain ⟨-, rfl⟩ := Prod.mk.inj h
    split
    · next u hu =>
      rw [hu] at hfraction hheld
      have hless := length_ignore_lt hheld.skipExponent
      rw [rest_skipExponent] at hless
      rw [← hrest, ← hfraction]
      exact hless
    · next u hu =>
      rw [hu] at hfraction hheld
      rw [← hrest, ← hfraction]
      exact length_ignore_lt hheld

theorem length_scanNumber_of_none {s s' : Scanner Char} (h : scanNumber s = (none, s')) :
    s'.rest = s.rest := by
  have hrest := rest_skipWhile Char.isDigit false s
  unfold scanNumber skipDigits at h
  grind

theorem length_scanCharacter_of_some {characters : List Char} {s s' : Scanner Char} {c : Char}
    (h : scanCharacter characters s = (some c, s')) : s'.rest.length < s.rest.length := by
  have hrest := rest_acceptIf (characters.contains ·) s
  unfold scanCharacter at h
  split at h
  · next d t ht =>
    obtain ⟨-, rfl⟩ := Prod.mk.inj h
    rw [show acceptIf (characters.contains ·) s = (some d, t) from ht] at hrest
    rw [← hrest]
    exact length_ignore_lt (holds_acceptIf_of_some ht)
  · cases (Prod.mk.inj h).1

theorem length_scanCharacter_of_none {characters : List Char} {s s' : Scanner Char}
    (h : scanCharacter characters s = (none, s')) : s'.rest = s.rest := by
  have hrest := rest_acceptIf (characters.contains ·) s
  unfold scanCharacter at h
  split at h
  · cases (Prod.mk.inj h).1
  · next t ht =>
    obtain ⟨-, rfl⟩ := Prod.mk.inj h
    rwa [show acceptIf (characters.contains ·) s = (none, t) from ht] at hrest

@[simp] private theorem rest_growWindow (limit : Nat) (window : List Char)
    (found : Option (Nat × String)) (s : Scanner Char) :
    (growWindow limit window found s).2.rest = s.rest := by
  fun_induction growWindow limit window found s with
  | case1 => rfl
  | case2 limit window found s c s' h hc window' name longest ih =>
    rw [ih, ← rest_next s, h]
  | case3 limit window found s c s' h hc => rw [← rest_next s, h]
  | case4 limit window found s s' h => rw [← rest_next s, h]

/-- A place found for a name lies behind an accepted item. -/
private theorem place_growWindow (limit : Nat) (window : List Char)
    (found : Option (Nat × String)) (s : Scanner Char)
    (hfound : ∀ p ∈ found, 0 < p.1 ∧ 0 < s.buffer.size) :
    ∀ p ∈ (growWindow limit window found s).1,
      0 < p.1 ∧ 0 < (growWindow limit window found s).2.buffer.size := by
  fun_induction growWindow limit window found s with
  | case1 => exact hfound
  | case2 limit window found s c s' h hc window' name longest ih =>
    refine ih fun p hp ↦ ?_
    have hholds : Holds (next s).2 := holds_next_of_some (by rw [h])
    rw [h] at hholds
    change p ∈ (if name ∈ MathFunction.names then some (s'.cursor, name) else found) at hp
    split at hp
    · cases hp
      exact hholds
    · exact ⟨(hfound p hp).1, hholds.2⟩
  | case3 limit window found s c s' h hc =>
    have hsize := size_le_next s
    rw [h] at hsize
    intro p hp
    exact ⟨(hfound p hp).1, Nat.lt_of_lt_of_le (hfound p hp).2 hsize⟩
  | case4 limit window found s s' h =>
    have hsize := size_le_next s
    rw [h] at hsize
    intro p hp
    exact ⟨(hfound p hp).1, Nat.lt_of_lt_of_le (hfound p hp).2 hsize⟩

theorem length_scanFunction_of_some {s s' : Scanner Char} {name : String}
    (h : scanFunction s = (some name, s')) : s'.rest.length < s.rest.length := by
  have hrest := rest_growWindow MathFunction.longestName [] none s
  have hplace := place_growWindow MathFunction.longestName [] none s (by simp)
  unfold scanFunction at h
  split at h
  · next place found t ht =>
    obtain ⟨-, rfl⟩ := Prod.mk.inj h
    rw [ht] at hrest hplace
    rw [← hrest]
    exact length_ignore_lt (s := t.moveTo place) (hplace (place, found) rfl)
  · cases (Prod.mk.inj h).1

end Calculator.Scanner
