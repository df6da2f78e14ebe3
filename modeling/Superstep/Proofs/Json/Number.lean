import Mathlib
import Superstep.Json.Printer
import Superstep.Json.Reader

/-!
# Numbers are read as they were written

The digits of a number, read back, are the number again, and a JSON number keeps its sign, its
digits after the point and its exponent. A number in a text ends where no digit, point or exponent
follows (`JsonNumber.EndsAt`), which is so in front of everything that a printed value is followed
by.

## Key results

- `ofDigits_digitsOf`: digits say which number it is
- `JsonNumber.read?_write`: a number is read as it was written
- `JsonNumber.toLong?_ofInt`, `JsonNumber.toNatBelow?_ofNat`: so is what it stands for
- `JsonNumber.point_or_exponent_ofFinite`: a double is not taken for an integer
-/

namespace Superstep

/-! ## Digits of a number -/

/-- The character of a digit is read as this digit. -/
theorem digit?_digitChar {n : Nat} (h : n < 10) : digit? (Nat.digitChar n) = some ⟨n, h⟩ :=
  digit?_char ⟨n, h⟩

/-- What is no digit is not the character of one. -/
theorem char_ne {c : Char} (h : digit? c = none) (d : Digit) : d.char ≠ c := by
  rintro rfl
  simp [digit?_char] at h

/-- The text does not go on with a digit. -/
def NoDigitAhead (text : List Char) : Prop := ∀ c ∈ text.head?, digit? c = none

/-- A text that is over does not go on with a digit. -/
theorem noDigitAhead_nil : NoDigitAhead [] := by simp [NoDigitAhead]

/-- Nor does a text that goes on with another character. -/
theorem noDigitAhead_cons {c : Char} {text : List Char} (h : digit? c = none) :
    NoDigitAhead (c :: text) := by simpa [NoDigitAhead] using h

/-- A span of digits ends where no digit follows. -/
theorem spanDigits_append (digits : List Digit) {rest : List Char} (h : NoDigitAhead rest) :
    spanDigits (digits.map Digit.char ++ rest) = (digits, rest) := by
  induction digits with
  | nil =>
    -- the first character after the digits stops the span
    cases rest with
    | nil => rfl
    | cons c rest =>
      have hc : digit? c = none := h c rfl
      simp [spanDigits, hc]
  | cons d digits ih => simp [spanDigits, digit?_char, ih]

/-- A number below ten is one digit. -/
theorem digitsOf_of_lt {n : Nat} (h : n < 10) : digitsOf n = [⟨n, h⟩] := by
  simp [digitsOf, Nat.toDigits_of_lt_base h, spanDigits, digit?_digitChar h]

/-- The digits of a number, as they are printed. -/
theorem toDigits_eq_map (n : Nat) : Nat.toDigits 10 n = (digitsOf n).map Digit.char := by
  -- characters of digits are those that a span of digits takes
  suffices h : ∃ digits : List Digit, Nat.toDigits 10 n = digits.map Digit.char by
    obtain ⟨digits, hdigits⟩ := h
    have hspan := spanDigits_append digits noDigitAhead_nil
    rw [List.append_nil] at hspan
    rw [digitsOf, hdigits, hspan]
  induction n using Nat.strongRecOn with
  | ind n ih =>
    by_cases h : n < 10
    · exact ⟨[⟨n, h⟩], Nat.toDigits_of_lt_base h⟩
    · obtain ⟨digits, hdigits⟩ := ih (n / 10) (by omega)
      refine ⟨digits ++ [⟨n % 10, by omega⟩], ?_⟩
      rw [Nat.toDigits_of_base_le (by omega) (by omega), hdigits, List.map_append]
      rfl

/-- A larger number ends with what is left of it after whole tens. -/
theorem digitsOf_of_le {n : Nat} (h : 10 ≤ n) :
    digitsOf n = digitsOf (n / 10) ++ [⟨n % 10, by omega⟩] := by
  have hlast : n % 10 < 10 := by omega
  -- this is known of the characters, which different digits do not share
  have hchars : (digitsOf n).map Digit.char
      = (digitsOf (n / 10) ++ [(⟨n % 10, hlast⟩ : Digit)]).map Digit.char := by
    rw [← toDigits_eq_map, Nat.toDigits_of_base_le (by omega) h, toDigits_eq_map, List.map_append]
    rfl
  have hinj : Function.Injective Digit.char := fun a b hab => by
    have hdigit := congrArg digit? hab
    simpa [digit?_char] using hdigit
  exact List.map_injective_iff.mpr hinj hchars

/-- A further digit makes a number ten times as large. -/
theorem ofDigits_append_singleton (digits : List Digit) (d : Digit) :
    ofDigits (digits ++ [d]) = ofDigits digits * 10 + d.val := by
  simp [ofDigits]

/-- Digits say which number it is. -/
theorem ofDigits_digitsOf (n : Nat) : ofDigits (digitsOf n) = n := by
  induction n using Nat.strongRecOn with
  | ind n ih =>
    by_cases h : n < 10
    · simp [digitsOf_of_lt h, ofDigits]
    · -- all digits but the last are those of a smaller number
      rw [digitsOf_of_le (by omega), ofDigits_append_singleton, ih (n / 10) (by omega)]
      show n / 10 * 10 + n % 10 = n
      omega

/-- Every number has a digit. -/
theorem digitsOf_ne_nil (n : Nat) : digitsOf n ≠ [] := by
  by_cases h : n < 10
  · simp [digitsOf_of_lt h]
  · simp [digitsOf_of_le (Nat.not_lt.mp h)]

/-- Only zero is written with a zero first. -/
theorem eq_zero_of_head?_digitsOf {n : Nat} (h : (digitsOf n).head? = some 0) : n = 0 := by
  induction n using Nat.strongRecOn with
  | ind n ih =>
    by_cases hlt : n < 10
    · rw [digitsOf_of_lt hlt] at h
      exact congrArg Fin.val (Option.some.inj h)
    · rw [digitsOf_of_le (by omega), List.head?_append_of_ne_nil _ (digitsOf_ne_nil _)] at h
      -- the first digit is that of the whole tens, which are not zero
      have hquotient := ih (n / 10) (by omega) h
      omega

namespace JsonNumber

/-! ## What is read -/

/-- A number in front of the text has come to its end. -/
structure EndsAt (rest : List Char) : Prop where
  digit : NoDigitAhead rest
  point : rest.head? ≠ some '.'
  lower : rest.head? ≠ some 'e'
  upper : rest.head? ≠ some 'E'

/-- A number ends where the text does. -/
theorem endsAt_nil : EndsAt [] := ⟨noDigitAhead_nil, nofun, nofun, nofun⟩

/-- A number ends in front of a comma. -/
theorem endsAt_comma (rest : List Char) : EndsAt (',' :: rest) :=
  ⟨noDigitAhead_cons rfl, by simp, by simp, by simp⟩

/-- A number ends in front of a closing bracket. -/
theorem endsAt_bracket (rest : List Char) : EndsAt (']' :: rest) :=
  ⟨noDigitAhead_cons rfl, by simp, by simp, by simp⟩

/-- A number ends in front of a closing brace. -/
theorem endsAt_brace (rest : List Char) : EndsAt ('\x7d' :: rest) :=
  ⟨noDigitAhead_cons rfl, by simp, by simp, by simp⟩

/-- Digits are read up to where no digit follows, if there is one at all. -/
theorem readDigits?_append {digits : List Digit} {rest : List Char} (hne : digits ≠ [])
    (h : NoDigitAhead rest) :
    readDigits? (digits.map Digit.char ++ rest) = some (digits, rest) := by
  rw [readDigits?, spanDigits_append digits h]
  cases digits with
  | nil => contradiction
  | cons d digits => rfl

/-- The digits of a number are read as they are printed. -/
theorem readDigits?_toDigits (n : Nat) {rest : List Char} (h : NoDigitAhead rest) :
    readDigits? (Nat.toDigits 10 n ++ rest) = some (digitsOf n, rest) := by
  rw [toDigits_eq_map, readDigits?_append (digitsOf_ne_nil n) h]

/-- The digits before the point are read as the number that they are. -/
theorem readWhole?_toDigits (n : Nat) {rest : List Char} (h : NoDigitAhead rest) :
    readWhole? (Nat.toDigits 10 n ++ rest) = some (n, rest) := by
  have hvalue := ofDigits_digitsOf n
  unfold readWhole?
  rw [readDigits?_toDigits n h]
  cases hdigits : digitsOf n with
  | nil => exact absurd hdigits (digitsOf_ne_nil n)
  | cons d digits =>
    rw [hdigits] at hvalue
    -- a zero in front stands alone
    have hzero : d.val = 0 → digits = [] := fun hd => by
      have hhead : (digitsOf n).head? = some 0 := by
        rw [hdigits]
        exact congrArg some (Fin.ext hd)
      rw [eq_zero_of_head?_digitsOf hhead, digitsOf_of_lt (by omega)] at hdigits
      exact (List.cons.inj hdigits).2.symm
    -- so the check for leading zeros is passed
    have hcheck : (decide (d.val = 0) && !digits.isEmpty) = false := by
      by_cases hd : d.val = 0
      · simp [hzero hd]
      · simp [hd]
    simp only [hcheck, Bool.false_eq_true, if_false, hvalue]

/-- The text of the digits after the point. -/
def writeFraction (fraction : List Digit) (rest : List Char) : List Char :=
  if fraction.isEmpty then rest else '.' :: (fraction.map Digit.char ++ rest)

/-- The digits after the point are read as they were written. -/
theorem readFraction?_writeFraction (fraction : List Digit) {rest : List Char}
    (hdigit : NoDigitAhead rest) (hpoint : rest.head? ≠ some '.') :
    readFraction? (writeFraction fraction rest) = some (fraction, rest) := by
  unfold writeFraction
  cases fraction with
  | nil =>
    rw [List.isEmpty_nil, if_pos rfl]
    -- without digits there is no point, and none is taken from what follows
    unfold readFraction?
    split
    · simp at hpoint
    · rfl
  | cons d fraction => exact readDigits?_append (List.cons_ne_nil d fraction) hdigit

/-- The digits before the point end at the point, or where the number does. -/
theorem noDigitAhead_writeFraction (fraction : List Digit) {rest : List Char}
    (h : NoDigitAhead rest) : NoDigitAhead (writeFraction fraction rest) := by
  unfold writeFraction
  split
  · exact h
  · exact noDigitAhead_cons rfl

/-- The text of an exponent, if there is one. -/
def writeExponent? : Option Int → List Char → List Char
  | none, rest => rest
  | some e, rest => writeExponent e rest

/-- An exponent is read as it was written. -/
theorem readExponent?_writeExponent? (exponent : Option Int) {rest : List Char} (h : EndsAt rest) :
    readExponent? (writeExponent? exponent rest) = some (exponent, rest) := by
  cases exponent with
  | none =>
    cases rest with
    | nil => rfl
    | cons c rest =>
      have hlower : c ≠ 'e' := by simpa using h.lower
      have hupper : c ≠ 'E' := by simpa using h.upper
      simp [writeExponent?, readExponent?, hlower, hupper]
  | some e =>
    -- the sign is written first, then the digits of the magnitude
    have hdigits := readDigits?_toDigits e.natAbs h.digit
    have hvalue := ofDigits_digitsOf e.natAbs
    simp only [writeExponent?, writeExponent, readExponent?, true_or, if_true]
    by_cases he : e < 0
    · simp only [he, if_true, readMagnitude?, hdigits, Option.map_some, hvalue]
      congr 3
      omega
    · simp only [he, if_false, readMagnitude?, hdigits, Option.map_some, hvalue,
        Bool.false_eq_true]
      congr 3
      omega

/-- The digits after the point end at the exponent, or where the number does. -/
theorem ahead_writeExponent? (exponent : Option Int) {rest : List Char} (h : EndsAt rest) :
    NoDigitAhead (writeExponent? exponent rest) ∧
      (writeExponent? exponent rest).head? ≠ some '.' := by
  cases exponent with
  | none => exact ⟨h.digit, h.point⟩
  | some e => exact ⟨noDigitAhead_cons rfl, by simp [writeExponent?, writeExponent]⟩

/-- The text of a number without its sign. -/
def writeUnsigned (n : JsonNumber) (rest : List Char) : List Char :=
  Nat.toDigits 10 n.whole ++ writeFraction n.fraction (writeExponent? n.exponent rest)

/-- A number is written with its sign in front. -/
theorem write_eq (n : JsonNumber) (rest : List Char) :
    n.write rest = if n.negative then '-' :: n.writeUnsigned rest else n.writeUnsigned rest := by
  cases he : n.exponent <;> simp [write, writeUnsigned, writeFraction, writeExponent?, he]

/-- The parts of a number are read one after the other. -/
theorem readUnsigned?_writeUnsigned (n : JsonNumber) {rest : List Char} (h : EndsAt rest) :
    readUnsigned? n.negative (n.writeUnsigned rest) = some (n, rest) := by
  obtain ⟨hdigit, hpoint⟩ := ahead_writeExponent? n.exponent h
  simp [readUnsigned?, writeUnsigned, readFraction?_writeFraction n.fraction hdigit hpoint,
    readWhole?_toDigits n.whole (noDigitAhead_writeFraction n.fraction hdigit),
    readExponent?_writeExponent? n.exponent h]

/-- Without its sign, the text of a number starts with a digit. -/
theorem exists_writeUnsigned_eq_cons (n : JsonNumber) (rest : List Char) :
    ∃ (d : Digit) (text : List Char), n.writeUnsigned rest = d.char :: text := by
  unfold writeUnsigned
  rw [toDigits_eq_map]
  cases hdigits : digitsOf n.whole with
  | nil => exact absurd hdigits (digitsOf_ne_nil _)
  | cons d digits => exact ⟨d, _, rfl⟩

/-- A number is read as it was written. -/
theorem read?_write (n : JsonNumber) {rest : List Char} (h : EndsAt rest) :
    read? (n.write rest) = some (n, rest) := by
  have hread := readUnsigned?_writeUnsigned n h
  rw [write_eq]
  cases hnegative : n.negative with
  | true =>
    rw [hnegative] at hread
    exact hread
  | false =>
    rw [hnegative] at hread
    obtain ⟨d, text, htext⟩ := exists_writeUnsigned_eq_cons n rest
    -- a digit is not taken for the sign
    have hminus : d.char ≠ '-' := char_ne rfl d
    rw [if_neg (by simp), htext]
    rw [htext] at hread
    unfold read?
    split
    · rename_i heq
      exact absurd (List.cons.inj heq).1 hminus
    · exact hread

/-! ## What it stands for -/

/-- An integer is read as it was written. -/
theorem toInt?_ofInt (i : Int) : (ofInt i).toInt? = some i := by
  unfold toInt? ofInt
  by_cases hi : i < 0
  · -- a sign in front of zero would not be an integer
    have habs : i.natAbs ≠ 0 := by omega
    simp only [hi, decide_true, List.isEmpty_nil, Option.isNone_none, and_self, if_true, habs,
      if_false]
    congr 1
    omega
  · simp only [hi, decide_false, List.isEmpty_nil, Option.isNone_none, and_self, if_true,
      Bool.false_eq_true, if_false]
    congr 1
    omega

/-- A 64-bit integer is read as it was written. -/
theorem toLong?_ofInt (i : Int64) : (ofInt i.toInt).toLong? = some i := by
  have hlow := i.le_toInt
  have hhigh := i.toInt_lt
  -- every 64-bit integer lies within the limits that are checked
  have hrange : -(longLimit : Int) ≤ i.toInt ∧ i.toInt < longLimit := by
    simp only [longLimit]
    omega
  simp [toLong?, toInt?_ofInt, hrange]

/-- A natural number below the limit is read as it was written. -/
theorem toNatBelow?_ofNat {limit n : Nat} (h : n < limit) :
    (ofNat n).toNatBelow? limit = some n := by
  simp [toNatBelow?, toInt?, ofNat, h]

/-- With a point or an exponent, a number is not an integer. -/
theorem toLong?_eq_none {n : JsonNumber} (h : n.fraction ≠ [] ∨ n.exponent ≠ none) :
    n.toLong? = none := by
  have hint : n.toInt? = none := by
    unfold toInt?
    rw [if_neg]
    rintro ⟨hfraction, hexponent⟩
    rcases h with h | h
    · exact h (List.isEmpty_iff.mp hfraction)
    · exact h (Option.isNone_iff_eq_none.mp hexponent)
  rw [toLong?, hint]

/-- A double is written with a point or an exponent. -/
theorem point_or_exponent_ofFinite (x : Float) :
    (JsonNumber.ofFinite x).fraction ≠ [] ∨ (JsonNumber.ofFinite x).exponent ≠ none := by
  -- a decimal without digits after the point gets a zero there, or an exponent
  have hdecimal : ∀ negative d, (ofDecimal negative d).fraction ≠ [] ∨
      (ofDecimal negative d).exponent ≠ none := by
    intro negative d
    have hdigits := digitsOf_ne_nil d.digits
    unfold ofDecimal
    dsimp only
    split
    · split
      · simp [hdigits]
      · left
        dsimp only
        split
        · simp
        · rename_i hfraction
          exact fun hnil => hfraction (List.isEmpty_iff.mpr hnil)
    · simp
  unfold ofFinite
  dsimp only
  split
  · simp
  · exact hdecimal _ _

end JsonNumber

end Superstep
