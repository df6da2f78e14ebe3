import Mathlib
import Superstep.Proofs.Json.Number

/-!
# Values are read as they were written

The text of a JSON value, written without white space, is read as that value, whatever its strings
hold and however deep it is nested. A string keeps quotes, backslashes and control characters
through its escapes, and even a string that is no Unicode text is read as one.

The reader spends a unit of fuel for each value and each item. What it still has to read, a value
and what follows in its list, is longer than what follows alone, so that as much fuel as there are
characters is enough (`Json.readValue?_write`).

## Key results

- `Json.readString?_write`: strings
- `Json.readValue?_write`, `Json.readItems?_write`, `Json.readMembers?_write`: values and lists
- `Json.parse?_compact`: a text is read as the value that was written
-/

namespace Superstep.Json

open JsonNumber

/-! ## Strings -/

/-- A hexadecimal digit is read as it is printed. -/
theorem hexDigit?_digitChar {n : Nat} (h : n < 16) : hexDigit? (Nat.digitChar n) = some n := by
  revert h
  revert n
  decide

/-- A letter that stands for a character after a backslash is read as this character. -/
theorem unescape?_of_shortEscape? {c e : Char} (h : shortEscape? c = some e) :
    unescape? e = some c ∧ e ≠ 'u' := by
  unfold shortEscape? at h
  split_ifs at h <;> cases h <;> subst_vars <;> decide

/-- The piece that a character is written as. -/
def pieceOf (c : Char) : StringPiece :=
  if shortEscape? c = none ∧ c.toNat < 0x20 then .escape c.toNat else .char c

/-- A short escape is read as the character that it stands for. -/
theorem readPieces?_short {e c : Char} (he : e ≠ 'u') (h : unescape? e = some c)
    (rest : List Char) : readPieces? ('\\' :: e :: rest)
      = (readPieces? rest).map fun (pieces, rest) => (.char c :: pieces, rest) := by
  rw [readPieces?.eq_def]
  -- the letter is none of those that the other cases ask for
  split
  · simp_all
  · simp_all
  · simp_all
  · rename_i heq
    cases heq
    rw [h]
    cases readPieces? rest <;> rfl
  · rename_i hnot heq
    cases heq
    exact absurd rfl (hnot e rest rfl)

/-- An escape of two digits is read as the number that it stands for. -/
theorem readPieces?_hex {n : Nat} (h : n < 256) (rest : List Char) :
    readPieces? ('\\' :: 'u' :: '0' :: '0' :: Nat.digitChar (n / 16) :: Nat.digitChar (n % 16)
        :: rest)
      = (readPieces? rest).map fun (pieces, rest) => (.escape n :: pieces, rest) := by
  have hhigh := hexDigit?_digitChar (n := n / 16) (by omega)
  have hlow := hexDigit?_digitChar (n := n % 16) (by omega)
  have hzero : hexDigit? '0' = some 0 := rfl
  have hsum : n / 16 * 16 + n % 16 = n := by omega
  have hnumber : hexNumber? ['0', '0', Nat.digitChar (n / 16), Nat.digitChar (n % 16)]
      = some n := by
    simp [hexNumber?, hzero, hhigh, hlow, hsum]
  rw [readPieces?, hnumber]
  cases readPieces? rest <;> rfl

/-- A character that needs no escape is read as itself. -/
theorem readPieces?_plain {c : Char} (hquote : c ≠ '"') (hslash : c ≠ '\\')
    (hcontrol : ¬c.toNat < 0x20) (rest : List Char) : readPieces? (c :: rest)
      = (readPieces? rest).map fun (pieces, rest) => (.char c :: pieces, rest) := by
  rw [readPieces?.eq_def]
  split <;> simp_all

/-- A character is read as the piece that it was written as. -/
theorem readPieces?_writeChar (c : Char) (rest : List Char) : readPieces? (writeChar c rest)
    = (readPieces? rest).map fun (pieces, rest) => (pieceOf c :: pieces, rest) := by
  unfold writeChar pieceOf
  cases hshort : shortEscape? c with
  | some e =>
    obtain ⟨hletter, hne⟩ := unescape?_of_shortEscape? hshort
    simp [readPieces?_short hne hletter]
  | none =>
    by_cases hcontrol : c.toNat < 0x20
    · simp [hcontrol, readPieces?_hex (show c.toNat < 256 by omega)]
    · -- a quote and a backslash would have had a short escape
      have hquote : c ≠ '"' := by rintro rfl; simp [shortEscape?] at hshort
      have hslash : c ≠ '\\' := by rintro rfl; simp [shortEscape?] at hshort
      simp [hcontrol, readPieces?_plain hquote hslash hcontrol]

/-- The characters of a string are read piece by piece up to the closing quote. -/
theorem readPieces?_writeChars (text rest : List Char) :
    readPieces? (text.foldr writeChar ('"' :: rest)) = some (text.map pieceOf, rest) := by
  induction text with
  | nil => rfl
  | cons c text ih => rw [List.foldr_cons, readPieces?_writeChar, ih]; rfl

/-- An escape that is no half of a character is a character of its own. -/
theorem joinPieces?_escape {unit : Nat} (h : unit < 0xD800) (pieces : List StringPiece) :
    joinPieces? (.escape unit :: pieces) = (joinPieces? pieces).map (Char.ofNat unit :: ·) := by
  have hhigh : isHighHalf unit = false := by simp [isHighHalf]; omega
  have hlow : isLowHalf unit = false := by simp [isLowHalf]; omega
  rcases pieces with _ | ⟨_ | low, pieces⟩ <;> simp [joinPieces?, hhigh, hlow]

/-- The pieces of a text make up the text again. -/
theorem joinPieces?_map_pieceOf (text : List Char) :
    joinPieces? (text.map pieceOf) = some text := by
  induction text with
  | nil => rfl
  | cons c text ih =>
    rw [List.map_cons, pieceOf]
    split
    · rename_i h
      -- a control character is far below the halves of other characters
      rw [joinPieces?_escape (by omega), ih, Option.map_some, Char.ofNat_toNat]
    · rw [joinPieces?, ih, Option.map_some]

/-- A string is read as it was written, also if it is no Unicode text. -/
theorem readString?_write (text : Option String) (rest : List Char) :
    ∃ body, writeString text rest = '"' :: body ∧ readString? body = some (text, rest) := by
  cases text with
  | some s =>
    refine ⟨_, rfl, ?_⟩
    simp [readString?, readPieces?_writeChars, joinPieces?_map_pieceOf]
  | none => exact ⟨_, rfl, rfl⟩

/-! ## Lengths -/

/-- Characters and the closing quote take more characters than what follows them. -/
theorem length_writeChars (text rest : List Char) :
    rest.length < (text.foldr writeChar ('"' :: rest)).length := by
  induction text with
  | nil => simp
  | cons c text ih =>
    -- a character takes one, two or six
    have hlonger (rest : List Char) : rest.length < (writeChar c rest).length := by
      unfold writeChar
      split
      · simp only [List.length_cons]; omega
      · split <;> simp only [List.length_cons] <;> omega
    exact ih.trans (hlonger _)

/-- A string takes a character. -/
theorem length_writeString (text : Option String) (rest : List Char) :
    rest.length < (writeString text rest).length := by
  cases text with
  | some s => exact (length_writeChars s.toList rest).trans (Nat.lt_succ_self _)
  | none => simp [writeString]; omega

/-- A number takes a character. -/
theorem length_writeNumber (n : JsonNumber) (rest : List Char) :
    rest.length < (n.write rest).length := by
  have hexponent : rest.length ≤ (writeExponent? n.exponent rest).length := by
    cases n.exponent with
    | none => exact le_rfl
    | some e => simp [writeExponent?, writeExponent]; omega
  have hfraction : (writeExponent? n.exponent rest).length
      ≤ (writeFraction n.fraction (writeExponent? n.exponent rest)).length := by
    unfold writeFraction
    split
    · exact le_rfl
    · simp; omega
  -- fraction and exponent may be missing, but there is a digit before the point
  have hwhole : 0 < (Nat.toDigits 10 n.whole).length := by
    rw [toDigits_eq_map, List.length_map]
    exact List.length_pos_iff.mpr (digitsOf_ne_nil _)
  rw [write_eq, writeUnsigned]
  split <;> simp <;> omega

mutual

/-- Every value takes a character. -/
theorem length_write : ∀ (j : Json) (rest : List Char),
    rest.length < (j.write .compact rest).length
  | .null, rest => by simp only [write, List.length_cons]; omega
  | .bool true, rest => by simp only [write, List.length_cons]; omega
  | .bool false, rest => by simp only [write, List.length_cons]; omega
  | .number n, rest => length_writeNumber n rest
  | .string s, rest => length_writeString s rest
  | .array [], rest => by simp only [write, List.length_cons]; omega
  | .array (item :: items), rest => by
    have hitem := length_write item (writeItems .compact items (']' :: rest))
    have hitems := length_writeItems items (']' :: rest)
    simp only [write, Arrangement.inner, Arrangement.lineBreak, List.length_cons] at *
    omega
  | .object [], rest => by simp only [write, List.length_cons]; omega
  | .object ((key, value) :: members), rest => by
    have hvalue := length_write value (writeMembers .compact members ('\x7d' :: rest))
    have hmembers := length_writeMembers members ('\x7d' :: rest)
    have hkey := length_writeString key
      (':' :: write .compact value (writeMembers .compact members ('\x7d' :: rest)))
    simp only [write, Arrangement.inner, Arrangement.lineBreak, Arrangement.colon,
      List.length_cons] at *
    omega

/-- Further items make a text no shorter. -/
theorem length_writeItems : ∀ (items : List Json) (rest : List Char),
    rest.length ≤ (writeItems .compact items rest).length
  | [], rest => le_rfl
  | item :: items, rest => by
    have hitem := length_write item (writeItems .compact items rest)
    have hitems := length_writeItems items rest
    simp only [writeItems, Arrangement.lineBreak, List.length_cons]
    omega

/-- Further members make a text no shorter. -/
theorem length_writeMembers : ∀ (members : List (Option String × Json)) (rest : List Char),
    rest.length ≤ (writeMembers .compact members rest).length
  | [], rest => le_rfl
  | (key, value) :: members, rest => by
    have hvalue := length_write value (writeMembers .compact members rest)
    have hmembers := length_writeMembers members rest
    have hkey := length_writeString key
      (':' :: write .compact value (writeMembers .compact members rest))
    simp only [writeMembers, Arrangement.lineBreak, Arrangement.colon, List.length_cons] at *
    omega

end

/-! ## Values -/

/-- There is no white space to skip in front of another character. -/
theorem skipSpace_cons {c : Char} (h : isSpace c = false) (text : List Char) :
    skipSpace (c :: text) = c :: text := by simp [skipSpace, h]

/-- A character that a value may start with. -/
def StartsValue (c : Char) : Prop := isSpace c = false ∧ c ≠ ']'

/-- A value may start with a digit. -/
theorem startsValue_char (d : Digit) : StartsValue d.char := by
  revert d
  unfold StartsValue
  decide

/-- A value is not written with white space or a closing bracket first. -/
theorem exists_write_eq_cons (j : Json) (rest : List Char) :
    ∃ c text, j.write .compact rest = c :: text ∧ StartsValue c := by
  cases j with
  | null => exact ⟨_, _, rfl, by decide, by decide⟩
  | bool b => cases b <;> exact ⟨_, _, rfl, by decide, by decide⟩
  | number n =>
    rw [write, write_eq]
    split
    · exact ⟨_, _, rfl, by decide, by decide⟩
    · obtain ⟨d, text, htext⟩ := exists_writeUnsigned_eq_cons n rest
      exact ⟨_, _, htext, startsValue_char d⟩
  | string s =>
    obtain ⟨body, hbody, -⟩ := readString?_write s rest
    exact ⟨_, _, hbody, by decide, by decide⟩
  | array items => cases items <;> exact ⟨_, _, rfl, by decide, by decide⟩
  | object members => rcases members with _ | ⟨⟨key, value⟩, members⟩ <;>
      exact ⟨_, _, rfl, by decide, by decide⟩

/-- What starts with a digit or a minus sign is read as a number. -/
theorem readValue?_number {c : Char} (h : c = '-' ∨ ∃ d : Digit, c = d.char) (text : List Char)
    (fuel : Nat) : readValue? (fuel + 1) (c :: text)
      = (JsonNumber.read? (c :: text)).map fun (n, rest) => (.number n, rest) := by
  -- no other kind of value starts like this
  have hother : isSpace c = false ∧ c ≠ 'n' ∧ c ≠ 't' ∧ c ≠ 'f' ∧ c ≠ '"' ∧ c ≠ '['
      ∧ c ≠ '\x7b' := by
    rcases h with rfl | ⟨d, rfl⟩
    · decide
    · revert d
      decide
  obtain ⟨hspace, hn, ht, hf, hquote, hbracket, hbrace⟩ := hother
  rw [readValue?, skipSpace_cons hspace]
  split <;> simp_all

/-- A number among the items of an array ends where it should. -/
theorem endsAt_writeItems (items : List Json) (rest : List Char) :
    EndsAt (writeItems .compact items (']' :: rest)) := by
  cases items with
  | nil => exact endsAt_bracket rest
  | cons item items => exact endsAt_comma _

/-- A number among the members of an object ends where it should. -/
theorem endsAt_writeMembers (members : List (Option String × Json)) (rest : List Char) :
    EndsAt (writeMembers .compact members ('\x7d' :: rest)) := by
  cases members with
  | nil => exact endsAt_brace rest
  | cons member members => exact endsAt_comma _

mutual

/-- A value is read as it was written, with as much fuel as it takes characters. -/
theorem readValue?_write : ∀ (j : Json) (rest : List Char) (fuel : Nat), EndsAt rest →
    (j.write .compact rest).length ≤ fuel + rest.length →
    readValue? fuel (j.write .compact rest) = some (j, rest)
  | j, rest, 0, _, hfuel => by
    have hlength := length_write j rest
    omega
  | .null, rest, fuel + 1, _, _ => rfl
  | .bool true, rest, fuel + 1, _, _ => rfl
  | .bool false, rest, fuel + 1, _, _ => rfl
  | .number n, rest, fuel + 1, hrest, _ => by
    have hread := JsonNumber.read?_write n hrest
    rw [write_eq] at hread
    rw [write, write_eq]
    split at hread
    · rename_i hsign
      rw [if_pos hsign, readValue?_number (.inl rfl), hread, Option.map_some]
    · rename_i hsign
      obtain ⟨d, text, htext⟩ := exists_writeUnsigned_eq_cons n rest
      rw [htext] at hread
      rw [if_neg hsign, htext, readValue?_number (.inr ⟨d, rfl⟩), hread, Option.map_some]
  | .string s, rest, fuel + 1, _, _ => by
    obtain ⟨body, hbody, hread⟩ := readString?_write s rest
    rw [write, hbody, readValue?, skipSpace_cons (by decide)]
    simp [hread]
  | .array [], rest, fuel + 1, _, _ => rfl
  | .array (item :: items), rest, fuel + 1, _, hfuel => by
    simp only [write, Arrangement.inner, Arrangement.lineBreak, List.length_cons] at hfuel ⊢
    have hitems := readItems?_write item items rest fuel (by omega)
    obtain ⟨c, text, htext, hspace, hbracket⟩ :=
      exists_write_eq_cons item (writeItems .compact items (']' :: rest))
    rw [htext] at hitems ⊢
    rw [readValue?, skipSpace_cons (by decide)]
    simp only [skipSpace_cons hspace]
    split
    · simp_all
    · rw [hitems, Option.map_some]
  | .object [], rest, fuel + 1, _, _ => rfl
  | .object ((key, value) :: members), rest, fuel + 1, _, hfuel => by
    simp only [write, Arrangement.inner, Arrangement.lineBreak, Arrangement.colon,
      List.length_cons] at hfuel ⊢
    have hmembers := readMembers?_write key value members rest fuel (by omega)
    obtain ⟨body, hbody, -⟩ := readString?_write key
      (':' :: write .compact value (writeMembers .compact members ('\x7d' :: rest)))
    rw [hbody] at hmembers ⊢
    rw [readValue?, skipSpace_cons (by decide)]
    simp only [skipSpace_cons (show isSpace '"' = false by decide)]
    show Option.map _ (readMembers? fuel ('"' :: body)) = _
    rw [hmembers, Option.map_some]

/-- The items of an array are read as they were written. -/
theorem readItems?_write : ∀ (item : Json) (items : List Json) (rest : List Char) (fuel : Nat),
    (item.write .compact (writeItems .compact items (']' :: rest))).length ≤ fuel + rest.length →
    readItems? fuel (item.write .compact (writeItems .compact items (']' :: rest)))
      = some (item :: items, rest)
  | item, items, rest, 0, hfuel => by
    have hitem := length_write item (writeItems .compact items (']' :: rest))
    have hitems := length_writeItems items (']' :: rest)
    simp only [List.length_cons] at hitems
    omega
  | item, items, rest, fuel + 1, hfuel => by
    have hlength := length_writeItems items (']' :: rest)
    simp only [List.length_cons] at hlength
    have hitem := readValue?_write item _ fuel (endsAt_writeItems items rest) (by omega)
    rw [readItems?, hitem]
    cases items with
    | nil => rfl
    | cons next items =>
      have hshorter := length_write item (writeItems .compact (next :: items) (']' :: rest))
      simp only [writeItems, Arrangement.lineBreak, List.length_cons] at hshorter hfuel
      have hrest := readItems?_write next items rest fuel (by omega)
      simp [writeItems, Arrangement.lineBreak, skipSpace, isSpace, hrest]

/-- The members of an object are read as they were written. -/
theorem readMembers?_write : ∀ (key : Option String) (value : Json)
    (members : List (Option String × Json)) (rest : List Char) (fuel : Nat),
    (writeString key (':' :: value.write .compact
      (writeMembers .compact members ('\x7d' :: rest)))).length ≤ fuel + rest.length →
    readMembers? fuel (writeString key (':' :: value.write .compact
      (writeMembers .compact members ('\x7d' :: rest)))) = some ((key, value) :: members, rest)
  | key, value, members, rest, 0, hfuel => by
    have hkey := length_writeString key
      (':' :: value.write .compact (writeMembers .compact members ('\x7d' :: rest)))
    have hvalue := length_write value (writeMembers .compact members ('\x7d' :: rest))
    have hmembers := length_writeMembers members ('\x7d' :: rest)
    simp only [List.length_cons] at hkey hmembers
    omega
  | key, value, members, rest, fuel + 1, hfuel => by
    have hkey := length_writeString key
      (':' :: value.write .compact (writeMembers .compact members ('\x7d' :: rest)))
    have hlength := length_writeMembers members ('\x7d' :: rest)
    simp only [List.length_cons] at hkey hlength
    obtain ⟨body, hbody, hread⟩ := readString?_write key
      (':' :: value.write .compact (writeMembers .compact members ('\x7d' :: rest)))
    have hvalue := readValue?_write value _ fuel (endsAt_writeMembers members rest) (by omega)
    rw [hbody, readMembers?, skipSpace_cons (by decide)]
    simp only [hread, Option.bind_eq_bind, Option.bind_some,
      skipSpace_cons (show isSpace ':' = false by decide), hvalue]
    cases members with
    | nil => rfl
    | cons next members =>
      obtain ⟨nextKey, nextValue⟩ := next
      have hshorter := length_write value
        (writeMembers .compact ((nextKey, nextValue) :: members) ('\x7d' :: rest))
      simp only [writeMembers, Arrangement.lineBreak, Arrangement.colon, List.length_cons]
        at hkey hshorter hfuel
      have hrest := readMembers?_write nextKey nextValue members rest fuel (by omega)
      simp [writeMembers, Arrangement.lineBreak, Arrangement.colon, skipSpace, isSpace, hrest]

end

/-- A text is read as the value that was written. -/
theorem parse?_compact (j : Json) : parse? j.compact.toList = some j := by
  have hread := readValue?_write j [] (2 * (j.write .compact []).length + 1) endsAt_nil
    (by simp; omega)
  rw [compact, String.toList_ofList, parse?, hread]
  rfl

end Superstep.Json
