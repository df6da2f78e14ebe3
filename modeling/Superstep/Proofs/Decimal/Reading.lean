import Mathlib
import Superstep.Proofs.Json.Number
import Superstep.Proofs.Text

/-!
# Numbers in plain text

A natural number is read as it was written, if it is below the limit. Numbers have no blanks in
them: what is printed has none, and what has some is not read as a double.

## Key results

- `readNatural_toDigits`: natural numbers are read as they were written
- `isField_toDigits`, `isField_of_readDouble`: numbers are fields
-/

namespace Superstep

open Text

/-! ## Natural numbers -/

/-- Reading more digits does not lower a number. -/
theorem le_foldl_digits (digits : List Digit) (n : Nat) :
    n ≤ digits.foldl (fun n d => n * 10 + d.val) n := by
  induction digits generalizing n with
  | nil => exact Nat.le_refl n
  | cons d digits ih =>
    have hstep : n ≤ n * 10 + d.val := by omega
    exact Nat.le_trans hstep (ih _)

/-- Digits are read if the number that they lead to is below the limit. -/
theorem readDigitsBelow_map {limit : Nat} (digits : List Digit) {n : Nat} (hn : n < limit)
    (h : digits.foldl (fun n d => n * 10 + d.val) n < limit) :
    readDigitsBelow limit n (digits.map Digit.char)
      = .ok (digits.foldl (fun n d => n * 10 + d.val) n) := by
  induction digits generalizing n with
  | nil => rfl
  | cons d digits ih =>
    rw [List.foldl_cons] at h
    have hstep : n * 10 + d.val < limit := Nat.lt_of_le_of_lt (le_foldl_digits digits _) h
    simp only [List.map_cons, readDigitsBelow, digit?_char, if_pos hstep, List.foldl_cons]
    exact ih hstep h

/-- Natural numbers are read as they were written. -/
theorem readNatural_toDigits {limit n : Nat} (h : n < limit) :
    readNatural limit (Nat.toDigits 10 n) = .ok n := by
  have hread := readDigitsBelow_map (digitsOf n) (Nat.zero_lt_of_lt h)
  rw [← ofDigits, ofDigits_digitsOf] at hread
  rw [toDigits_eq_map]
  have hne := digitsOf_ne_nil n
  cases hdigits : digitsOf n with
  | nil => exact absurd hdigits hne
  | cons d digits =>
    rw [hdigits] at hread
    -- a digit is not taken for a sign
    have hplus : d.char ≠ '+' := char_ne (by decide) d
    rw [List.map_cons, readNatural]
    · exact hread h
    all_goals simp [hplus]

/-- A digit is not blank. -/
theorem isBlank_char (d : Digit) : isBlank d.char = false := by
  revert d
  decide

/-- A number that was written is a field. -/
theorem isField_toDigits (n : Nat) : IsField (Nat.toDigits 10 n) := by
  rw [toDigits_eq_map]
  constructor
  · simpa using digitsOf_ne_nil n
  · intro c hc
    obtain ⟨d, -, rfl⟩ := List.mem_map.mp hc
    exact isBlank_char d

/-! ## Doubles -/

/-- Letters, digits and signs are not blank. -/
theorem isBlank_of_visible {c : Char} (hlow : 32 < c.toNat) (hhigh : c.toNat < 127) :
    isBlank c = false := by
  simp only [isBlank, blankRanges, List.any_cons, List.any_nil]
  simp
  omega

/-- What is read as a digit is not blank. -/
theorem isBlank_of_digit? {c : Char} {d : Digit} (h : digit? c = some d) : isBlank c = false := by
  rw [digit?] at h
  split at h
  · exact isBlank_of_visible (by omega) (by omega)
  · cases h

/-- What is not blank in lower case is not blank. -/
theorem isBlank_of_toLower {c : Char} (h : isBlank c.toLower = false) : isBlank c = false := by
  rw [Char.toLower] at h
  split at h
  · -- capital letters are not blank either
    rename_i hupper
    obtain ⟨hlow, hhigh⟩ := hupper
    have hlow : 65 ≤ c.toNat := hlow
    have hhigh : c.toNat ≤ 90 := hhigh
    exact isBlank_of_visible (by omega) (by omega)
  · exact h

/-- A text is without blanks if what follows its first digits is. -/
theorem dense_of_spanDigits {text : List Char}
    (h : ∀ c ∈ (spanDigits text).2, isBlank c = false) : ∀ c ∈ text, isBlank c = false := by
  induction text with
  | nil => exact h
  | cons c text ih =>
    rw [spanDigits] at h
    split at h
    · rename_i d hd
      exact List.forall_mem_cons.mpr ⟨isBlank_of_digit? hd, ih h⟩
    · exact h

/-- A sign in front of a text is not blank. -/
theorem dense_of_sign {text rest : List Char} {negative : Bool}
    (hsign : (match text with
      | '-' :: rest => (true, rest)
      | '+' :: rest => (false, rest)
      | text => (false, text)) = (negative, rest))
    (h : ∀ c ∈ rest, isBlank c = false) : ∀ c ∈ text, isBlank c = false := by
  split at hsign <;> cases hsign
  · exact List.forall_mem_cons.mpr ⟨by decide, h⟩
  · exact List.forall_mem_cons.mpr ⟨by decide, h⟩
  · exact h

/-- There is no blank in an exponent. -/
theorem dense_of_readExponent {text : List Char} {e : Int} (h : readExponent text = some e) :
    ∀ c ∈ text, isBlank c = false := by
  unfold readExponent at h
  split at h
  rename_i negative rest hsign
  refine dense_of_sign hsign (dense_of_spanDigits ?_)
  split at h
  · cases h
  · rename_i hspan
    rw [hspan]
    exact List.forall_mem_nil _
  · cases h

/-- There is no blank in the exponent of a number, if it has one. -/
theorem dense_of_exponent? {text : List Char} {number d : SignedDecimal}
    {decimal : Int → SignedDecimal} (h : (match text with
      | [] => some number
      | c :: rest =>
        if c = 'e' ∨ c = 'E' then (readExponent rest).map decimal else none) = some d) :
    ∀ c ∈ text, isBlank c = false := by
  split at h
  · exact List.forall_mem_nil _
  · split at h
    · rename_i hletter
      obtain ⟨e, he, -⟩ := Option.map_eq_some_iff.mp h
      refine List.forall_mem_cons.mpr ⟨?_, dense_of_readExponent he⟩
      obtain rfl | rfl := hletter <;> decide
    · cases h

/-- What is read as a number without a sign is a field. -/
theorem isField_of_readMagnitude {negative : Bool} {text : List Char} {d : SignedDecimal}
    (h : readMagnitude negative text = some d) : IsField text := by
  constructor
  · -- an empty text has no digits
    rintro rfl
    simp [readMagnitude, spanDigits] at h
  · refine dense_of_spanDigits ?_
    unfold readMagnitude at h
    dsimp only at h
    split at h
    · rename_i rest hpoint
      split at h
      · cases h
      · rw [hpoint]
        exact List.forall_mem_cons.mpr ⟨by decide, dense_of_spanDigits (dense_of_exponent? h)⟩
    · split at h
      · cases h
      · exact dense_of_exponent? h

/-- What is read as a number is a field. -/
theorem isField_of_readDouble {field : List Char} {x : Float} (h : readDouble field = some x) :
    IsField field := by
  unfold readDouble at h
  split at h
  rename_i negative rest hsign
  -- a name has letters only
  have hname (name : String) (hne : name.toList ≠ [])
      (hletters : ∀ c ∈ name.toList, isBlank c = false)
      (h : String.ofList (rest.map Char.toLower) = name) : IsField rest := by
    subst h
    rw [String.toList_ofList] at hne hletters
    exact ⟨by simpa using hne,
      fun c hc => isBlank_of_toLower (hletters _ (List.mem_map_of_mem hc))⟩
  -- a name, or a magnitude
  have hrest : IsField rest := by
    dsimp only at h
    split at h
    · rename_i hinfinite
      obtain hinf | hinfinity := hinfinite
      · exact hname "inf" (by simp) (by simp; decide) hinf
      · exact hname "infinity" (by simp) (by simp; decide) hinfinity
    · split at h
      · rename_i hnan
        exact hname "nan" (by simp) (by simp; decide) hnan
      · obtain ⟨d, hd, -⟩ := Option.map_eq_some_iff.mp h
        exact isField_of_readMagnitude hd
  refine ⟨?_, dense_of_sign hsign hrest.dense⟩
  rintro rfl
  cases hsign
  exact hrest.nonempty rfl

end Superstep
