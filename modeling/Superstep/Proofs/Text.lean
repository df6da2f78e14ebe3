import Mathlib
import Superstep.Text.Blank

/-!
# Fields and lines

What the functions that cut a text take it to consist of. Fields are pieces without blanks, with
blanks between them (`Separated`). Lines end with a newline, before which a carriage return is
dropped, or with the text (`IsLines`). Every text is cut in one way.

## Key results

- `Text.fields_append_blank`: a blank is where fields part
- `Text.fields_eq_iff`, `Text.lines_eq_iff`: what a text consists of
- `Text.fields_trim`, `Text.trim_append_blank`: blanks around a text
-/

namespace Superstep.Text

/-- All characters are blank. -/
def AllBlank (text : List Char) : Prop := ∀ c ∈ text, isBlank c = true

/-- A piece of a text that has characters, none of which is blank. -/
structure IsField (field : List Char) : Prop where
  nonempty : field ≠ []
  dense : ∀ c ∈ field, isBlank c = false

/-- A text that consists of these fields, with blanks before, between and after them. -/
inductive Separated : List Char → List (List Char) → Prop
  | blank {gap : List Char} : AllBlank gap → Separated gap []
  | last {gap field : List Char} : AllBlank gap → IsField field → Separated (gap ++ field) [field]
  | cons {gap field rest : List Char} {c : Char} {fields : List (List Char)} :
    AllBlank gap → IsField field → isBlank c = true → Separated rest fields →
      Separated (gap ++ (field ++ c :: rest)) (field :: fields)

/-- A text that consists of these lines. -/
inductive IsLines : List Char → List (List Char) → Prop
  | nil : IsLines [] []
  /-- The last line may go without a newline. -/
  | last {line : List Char} : line ≠ [] → '\n' ∉ line → IsLines line [line]
  | newline {line rest : List Char} {lines : List (List Char)} :
    '\n' ∉ line → line.getLast? ≠ some '\r' → IsLines rest lines →
      IsLines (line ++ '\n' :: rest) (line :: lines)
  | return {line rest : List Char} {lines : List (List Char)} :
    '\n' ∉ line → IsLines rest lines → IsLines (line ++ '\r' :: '\n' :: rest) (line :: lines)

variable {text gap field rest line : List Char} {c : Char}

/-- No character, none that is not blank. -/
theorem allBlank_nil : AllBlank [] := List.forall_mem_nil _

/-- Blanks after blanks are blanks. -/
theorem AllBlank.append {gap' : List Char} (h : AllBlank gap) (h' : AllBlank gap') :
    AllBlank (gap ++ gap') :=
  List.forall_mem_append.mpr ⟨h, h'⟩

/-! ## Fields -/

/-- The fields found so far come first. -/
theorem fieldsFrom_eq (field : List Char) (fields : List (List Char)) (text : List Char) :
    fieldsFrom field fields text = fields.reverse ++ fieldsFrom field [] text := by
  have hclose (field : List Char) (fields : List (List Char)) :
      (closeField field fields).reverse = fields.reverse ++ (closeField field []).reverse := by
    rw [closeField, closeField]
    split <;> simp
  induction text generalizing field fields with
  | nil => exact hclose field fields
  | cons c text ih =>
    rw [fieldsFrom, fieldsFrom]
    split
    · rw [ih, hclose, ih [] (closeField field []), List.append_assoc]
    · exact ih (c :: field) fields

/-- What is cut behind a blank does not depend on what stands before it. -/
theorem fieldsFrom_append_blank (hc : isBlank c = true) (field text rest : List Char) :
    fieldsFrom field [] (text ++ c :: rest) = fieldsFrom field [] text ++ fields rest := by
  induction text generalizing field with
  | nil =>
    have hcut : fieldsFrom field [] (c :: rest) = fieldsFrom [] (closeField field []) rest :=
      if_pos hc
    rw [List.nil_append, hcut, fieldsFrom_eq]
    rfl
  | cons d text ih =>
    rw [List.cons_append, fieldsFrom, fieldsFrom]
    split
    · rw [fieldsFrom_eq, ih, ← List.append_assoc, ← fieldsFrom_eq]
    · exact ih (d :: field)

/-- Fields part at a blank. -/
theorem fields_append_blank (hc : isBlank c = true) (text rest : List Char) :
    fields (text ++ c :: rest) = fields text ++ fields rest :=
  fieldsFrom_append_blank hc [] text rest

/-- Blanks have no fields. -/
theorem fields_of_allBlank (h : AllBlank gap) : fields gap = [] := by
  induction gap with
  | nil => rfl
  | cons c gap ih =>
    have hc := h c (List.mem_cons_self ..)
    have hgap := ih fun d hd => h d (List.mem_cons_of_mem _ hd)
    exact (fields_append_blank hc [] gap).trans hgap

/-- Blanks before a text do not matter. -/
theorem fields_allBlank_append (h : AllBlank gap) (text : List Char) :
    fields (gap ++ text) = fields text := by
  induction gap with
  | nil => rfl
  | cons c gap ih =>
    have hc := h c (List.mem_cons_self ..)
    have hgap := ih fun d hd => h d (List.mem_cons_of_mem _ hd)
    exact (fields_append_blank hc [] (gap ++ text)).trans hgap

/-- Blanks behind a text do not matter. -/
theorem fields_append_allBlank (h : AllBlank gap) (text : List Char) :
    fields (text ++ gap) = fields text := by
  cases gap with
  | nil => rw [List.append_nil]
  | cons c gap =>
    have hgap : AllBlank gap := fun d hd => h d (List.mem_cons_of_mem _ hd)
    rw [fields_append_blank (h c (List.mem_cons_self ..)), fields_of_allBlank hgap,
      List.append_nil]

/-- A field is the only field of itself. -/
theorem fields_of_isField (h : IsField field) : fields field = [field] := by
  -- nothing is cut until the end is reached
  have hrun (text before : List Char) (htext : ∀ c ∈ text, isBlank c = false) :
      fieldsFrom before [] text = fieldsFrom (text.reverse ++ before) [] [] := by
    induction text generalizing before with
    | nil => rfl
    | cons c text ih =>
      have hkept : fieldsFrom before [] (c :: text) = fieldsFrom (c :: before) [] text :=
        if_neg (by simp [htext c (List.mem_cons_self ..)])
      rw [hkept, ih _ fun d hd => htext d (List.mem_cons_of_mem _ hd), List.reverse_cons,
        List.append_assoc, List.singleton_append]
  rw [fields, hrun field [] h.dense, List.append_nil, fieldsFrom, closeField,
    if_neg (by simp [h.nonempty])]
  simp

/-- A field that was begun is the first one. -/
theorem exists_fieldsFrom (h : field ≠ []) (text : List Char) :
    ∃ more fs, fieldsFrom field [] text = (field.reverse ++ more) :: fs := by
  induction text generalizing field with
  | nil => exact ⟨[], [], by rw [fieldsFrom, closeField, if_neg (by simpa using h)]; simp⟩
  | cons c text ih =>
    rw [fieldsFrom]
    split
    · refine ⟨[], fields text, ?_⟩
      rw [fieldsFrom_eq, closeField, if_neg (by simpa using h), List.append_nil]
      rfl
    · obtain ⟨more, fs, hmore⟩ := ih (List.cons_ne_nil c field)
      exact ⟨c :: more, fs, by rw [hmore, List.reverse_cons, List.append_assoc]; rfl⟩

/-- A text that does not start with a blank starts with its first field. -/
theorem exists_fields_cons (hc : isBlank c = false) (text : List Char) :
    ∃ more fs, fields (c :: text) = (c :: more) :: fs := by
  have hkept : fields (c :: text) = fieldsFrom [c] [] text := if_neg (by simp [hc])
  rw [hkept]
  exact exists_fieldsFrom (List.cons_ne_nil c []) text

/-- A text that consists of fields has these fields. -/
theorem Separated.fields_eq {fs : List (List Char)} (h : Separated text fs) : fields text = fs := by
  induction h with
  | blank hgap => exact fields_of_allBlank hgap
  | last hgap hfield => rw [fields_allBlank_append hgap, fields_of_isField hfield]
  | cons hgap hfield hc _ ih =>
    rw [fields_allBlank_append hgap, fields_append_blank hc, fields_of_isField hfield, ih]
    rfl

/-- A blank more before a text separates the same fields. -/
theorem Separated.cons_blank {fs : List (List Char)} (h : Separated text fs)
    (hc : isBlank c = true) : Separated (c :: text) fs := by
  have hgap (gap : List Char) (h : AllBlank gap) : AllBlank (c :: gap) :=
    List.forall_mem_cons.mpr ⟨hc, h⟩
  cases h with
  | blank h => exact .blank (hgap _ h)
  | last h hfield => exact .last (hgap _ h) hfield
  | cons h hfield hd hrest => exact .cons (hgap _ h) hfield hd hrest

/-- What is cut from a field that was begun. -/
theorem separated_fieldsFrom (field text : List Char) (hfield : ∀ c ∈ field, isBlank c = false) :
    Separated (field.reverse ++ text) (fieldsFrom field [] text) := by
  have hclosed (h : field ≠ []) : IsField field.reverse :=
    ⟨by simpa using h, fun c hc => hfield c (List.mem_reverse.mp hc)⟩
  induction text generalizing field with
  | nil =>
    rw [fieldsFrom, closeField, List.append_nil]
    by_cases h : field = []
    · subst h
      exact .blank allBlank_nil
    · rw [if_neg (by simpa using h)]
      exact .last allBlank_nil (hclosed h)
  | cons c text ih =>
    rw [fieldsFrom]
    -- a blank closes the field, any other character belongs to it
    by_cases hc : isBlank c = true
    · have hrest := ih [] (List.forall_mem_nil _) fun h => absurd rfl h
      rw [if_pos hc, fieldsFrom_eq, closeField]
      by_cases h : field = []
      · subst h
        exact hrest.cons_blank hc
      · rw [if_neg (by simpa using h)]
        exact .cons allBlank_nil (hclosed h) hc hrest
    · have hlonger : ∀ d ∈ c :: field, isBlank d = false :=
        List.forall_mem_cons.mpr ⟨Bool.eq_false_of_not_eq_true hc, hfield⟩
      have hrest := ih (c :: field) hlonger fun _ =>
        ⟨by simp, fun d hd => hlonger d (List.mem_reverse.mp hd)⟩
      rw [if_neg hc]
      simpa using hrest

/-- Which fields a text has. -/
theorem fields_eq_iff {fs : List (List Char)} : fields text = fs ↔ Separated text fs := by
  constructor
  · rintro rfl
    exact separated_fieldsFrom [] text (List.forall_mem_nil _)
  · exact Separated.fields_eq

/-! ## Trimming -/

/-- Blanks are dropped in front, then at the end. -/
theorem trim_eq (text : List Char) :
    trim text = (text.dropWhile isBlank).rdropWhile isBlank := rfl

/-- What is trimmed away is blank. -/
theorem exists_trim (text : List Char) :
    ∃ before after, AllBlank before ∧ AllBlank after ∧ text = before ++ (trim text ++ after) := by
  refine ⟨text.takeWhile isBlank, (text.dropWhile isBlank).rtakeWhile isBlank,
    fun _ => List.mem_takeWhile_imp, fun _ => List.mem_rtakeWhile_imp, ?_⟩
  rw [trim_eq, List.rdropWhile_append_rtakeWhile, List.takeWhile_append_dropWhile]

/-- A text has the fields that it has without the blanks around it. -/
theorem fields_trim (text : List Char) : fields (trim text) = fields text := by
  obtain ⟨before, after, hbefore, hafter, htext⟩ := exists_trim text
  conv_rhs => rw [htext]
  rw [fields_allBlank_append hbefore, fields_append_allBlank hafter]

/-- A blank at the end is trimmed away. -/
theorem trim_append_blank (text : List Char) (hc : isBlank c = true) :
    trim (text ++ [c]) = trim text := by
  rw [trim_eq, trim_eq]
  -- blanks only, or something that the blank stands behind
  by_cases htext : AllBlank text
  · have hnil : (text ++ [c]).dropWhile isBlank = [] :=
      List.dropWhile_eq_nil_iff.mpr (htext.append (List.forall_mem_singleton.mpr hc))
    rw [hnil, List.dropWhile_eq_nil_iff.mpr htext]
  · have hlonger : (text ++ [c]).dropWhile isBlank = text.dropWhile isBlank ++ [c] := by
      rw [List.dropWhile_append, if_neg]
      rw [List.isEmpty_iff]
      exact fun h => htext (List.dropWhile_eq_nil_iff.mp h)
    rw [hlonger, List.rdropWhile_concat_pos _ _ _ hc]

/-- Nothing is left of blanks. -/
theorem trim_eq_nil_iff : trim text = [] ↔ AllBlank text := by
  constructor
  · intro h
    obtain ⟨before, after, hbefore, hafter, htext⟩ := exists_trim text
    rw [htext, h, List.nil_append]
    exact hbefore.append hafter
  · intro h
    rw [trim_eq, List.dropWhile_eq_nil_iff.mpr h]
    rfl

/-- What a text starts with that is not blank. -/
theorem exists_trim_eq_cons_iff (hc : isBlank c = false) : (∃ rest, trim text = c :: rest) ↔
    ∃ gap rest, AllBlank gap ∧ text = gap ++ c :: rest := by
  constructor
  · rintro ⟨rest, hrest⟩
    obtain ⟨before, after, hbefore, -, htext⟩ := exists_trim text
    exact ⟨before, rest ++ after, hbefore, by rw [htext, hrest]; rfl⟩
  · rintro ⟨gap, rest, hgap, rfl⟩
    have hstart : (gap ++ c :: rest).dropWhile isBlank = c :: rest := by
      rw [List.dropWhile_append_of_pos hgap, List.dropWhile_cons_of_neg (by simp [hc])]
    rw [trim_eq, hstart]
    -- a text that starts with something is trimmed at its end only
    have hprefix := List.rdropWhile_prefix isBlank (c :: rest)
    cases hleft : (c :: rest).rdropWhile isBlank with
    | nil =>
      have hblank := List.rdropWhile_eq_nil_iff.mp hleft c (List.mem_cons_self ..)
      rw [hc] at hblank
      cases hblank
    | cons d left =>
      rw [hleft] at hprefix
      obtain ⟨rfl, -⟩ := List.cons_prefix_cons.mp hprefix
      exact ⟨left, rfl⟩

/-! ## Lines -/

/-- The lines found so far come first. -/
theorem linesFrom_eq (line : List Char) (lines : List (List Char)) (text : List Char) :
    linesFrom line lines text = lines.reverse ++ linesFrom line [] text := by
  induction text generalizing line lines with
  | nil =>
    rw [linesFrom, linesFrom]
    split <;> simp
  | cons c text ih =>
    rw [linesFrom, linesFrom]
    split
    · rw [ih, ih [] [closeLine line]]
      simp
    · exact ih (c :: line) lines

/-- Nothing is cut before a newline. -/
theorem linesFrom_append (h : '\n' ∉ line) (before rest : List Char) :
    linesFrom before [] (line ++ rest) = linesFrom (line.reverse ++ before) [] rest := by
  induction line generalizing before with
  | nil => rfl
  | cons c line ih =>
    obtain ⟨hc, hline⟩ := List.ne_and_not_mem_of_not_mem_cons h
    -- the character belongs to the line
    have hkept : linesFrom before [] (c :: (line ++ rest))
        = linesFrom (c :: before) [] (line ++ rest) := if_neg hc.symm
    rw [List.cons_append, hkept, ih hline, List.reverse_cons, List.append_assoc,
      List.singleton_append]

/-- A newline ends the first line. -/
theorem lines_append_newline (h : '\n' ∉ line) (rest : List Char) :
    lines (line ++ '\n' :: rest) = closeLine line.reverse :: lines rest := by
  have hcut : linesFrom line.reverse [] ('\n' :: rest)
      = linesFrom [] [closeLine line.reverse] rest := if_pos rfl
  rw [lines, linesFrom_append h, List.append_nil, hcut, linesFrom_eq]
  rfl

/-- A text without a newline is one line. -/
theorem lines_of_not_mem (h : '\n' ∉ line) (hne : line ≠ []) : lines line = [line] := by
  have hrun := linesFrom_append h [] []
  rw [List.append_nil, List.append_nil] at hrun
  rw [lines, hrun, linesFrom, if_neg (by simpa using hne)]
  simp

/-- A carriage return at the end of a line is dropped. -/
theorem closeLine_return (line : List Char) : closeLine (line ++ ['\r']).reverse = line := by
  rw [List.reverse_append]
  exact List.reverse_reverse line

/-- A line that does not end with a carriage return is kept as it is. -/
theorem closeLine_of_getLast? (h : line.getLast? ≠ some '\r') : closeLine line.reverse = line := by
  rw [← List.head?_reverse] at h
  rw [closeLine, List.reverse_reverse]
  intro rest hrest
  rw [hrest] at h
  exact h rfl

/-- Which lines a text has. -/
theorem lines_eq_iff {ls : List (List Char)} : lines text = ls ↔ IsLines text ls := by
  constructor
  · rintro rfl
    induction hlength : text.length using Nat.strong_induction_on generalizing text with
    | _ n ih =>
      subst hlength
      -- the text is cut at its first newline, if there is one
      by_cases hmem : '\n' ∈ text
      · obtain ⟨line, rest, rfl, hline⟩ := List.eq_append_cons_of_mem hmem
        have hrest := ih rest.length (by simp; omega) rfl
        rw [lines_append_newline hline]
        -- either line end may have been meant
        by_cases hreturn : line.getLast? = some '\r'
        · obtain ⟨front, rfl⟩ := List.getLast?_eq_some_iff.mp hreturn
          rw [closeLine_return, List.append_assoc]
          exact .return (fun h => hline (List.mem_append_left _ h)) hrest
        · rw [closeLine_of_getLast? hreturn]
          exact .newline hline hreturn hrest
      · by_cases hnil : text = []
        · subst hnil
          exact .nil
        · rw [lines_of_not_mem hmem hnil]
          exact .last hnil hmem
  · intro h
    induction h with
    | nil => rfl
    | last hne hline => exact lines_of_not_mem hline hne
    | newline hline hreturn _ ih =>
      rw [lines_append_newline hline, closeLine_of_getLast? hreturn, ih]
    | @«return» line rest lines hline _ ih =>
      have hlonger : '\n' ∉ line ++ ['\r'] := by simp [hline]
      have hlines := lines_append_newline hlonger rest
      rw [closeLine_return, ih, List.append_assoc] at hlines
      exact hlines

end Superstep.Text
