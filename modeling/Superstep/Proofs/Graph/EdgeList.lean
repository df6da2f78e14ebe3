import Mathlib
import Superstep.Graph.EdgeList
import Superstep.Proofs.Decimal.Reading

/-!
# The grammar of edge lists

What a line of an edge list says, in terms of the line (`EdgeList.Says`): nothing if it is blank or
a comment, and a relationship if it has two or three fields of the right kinds. A text is read
exactly if every line says something, and what is read is what the lines say. Otherwise the first
line that says nothing is reported. So whoever writes relationships down (`EdgeList.Written`), with
blanks, comments and line endings as they please, has them read as they were.

## Key results

- `EdgeList.says_iff`: what one line says
- `EdgeList.readLines_eq_ok_iff`, `readLines_eq_error_iff`: what lines say, and the first that does
  not
- `EdgeList.Written.said`: what is written down is said
- `edge_list_grammar`: texts
-/

namespace Superstep.EdgeList

open CsrGraph (ExternalEdge)
open Text

variable {α : Type} {readWeight : List Char → Option α}

/-! ## What a line says -/

/-- What a line of an edge list says: nothing, or a relationship. -/
inductive Says (readWeight : List Char → Option α) : List Char → Option (ExternalEdge α) → Prop
  | blank {line : List Char} : AllBlank line → Says readWeight line none
  | comment {gap rest : List Char} : AllBlank gap → Says readWeight (gap ++ '#' :: rest) none
  | plain {line source target : List Char} {s t : UInt64} : Separated line [source, target] →
    readId source = .ok s → readId target = .ok t → Says readWeight line (some ⟨s, t, none⟩)
  | weighted {line source target weight : List Char} {s t : UInt64} {w : α} :
    Separated line [source, target, weight] → readId source = .ok s → readId target = .ok t →
      readWeight weight = some w → Says readWeight line (some ⟨s, t, some w⟩)

/-- Reads a line. -/
def readLine (readWeight : List Char → Option α) (line : List Char) :
    Except LineFault (Option (ExternalEdge α)) :=
  if isSkipped (trim line) then .ok none
  else (readFields readWeight (fields (trim line))).map some

/-- The lines that are passed over are those that say nothing. -/
theorem isSkipped_iff {line : List Char} :
    isSkipped (trim line) = true ↔ Says readWeight line none := by
  have hhash : isBlank '#' = false := by decide
  constructor
  · intro h
    cases htrim : trim line with
    | nil => exact .blank (trim_eq_nil_iff.mp htrim)
    | cons c rest =>
      rw [htrim, isSkipped, beq_iff_eq] at h
      -- what is left of the line starts with the sign of a comment
      subst h
      obtain ⟨gap, rest, hgap, rfl⟩ := (exists_trim_eq_cons_iff hhash).mp ⟨rest, htrim⟩
      exact .comment hgap
  · intro h
    cases h with
    | blank h => rw [trim_eq_nil_iff.mpr h, isSkipped]
    | comment hgap =>
      obtain ⟨rest, hrest⟩ := (exists_trim_eq_cons_iff hhash).mpr ⟨_, _, hgap, rfl⟩
      rw [hrest, isSkipped, beq_self_eq_true]

/-- An id does not start like a comment. -/
theorem head?_of_readId {field : List Char} {n : UInt64} (h : readId field = .ok n) :
    field.head? ≠ some '#' := by
  intro hhead
  obtain ⟨rest, rfl⟩ := List.head?_eq_some_iff.mp hhead
  cases h

/-- The line of a relationship is not passed over. -/
theorem isSkipped_of_separated {line source : List Char} {fs : List (List Char)} {n : UInt64}
    (h : Separated line (source :: fs)) (hsource : readId source = .ok n) :
    isSkipped (trim line) = false := by
  cases htrim : trim line with
  | nil =>
    have hfields := fields_of_allBlank (trim_eq_nil_iff.mp htrim)
    rw [h.fields_eq] at hfields
    cases hfields
  | cons c rest =>
    rw [isSkipped, beq_eq_false_iff_ne]
    rintro rfl
    -- the comment would be the first field
    obtain ⟨more, fs', hfields⟩ := exists_fields_cons (by decide : isBlank '#' = false) rest
    rw [← htrim, fields_trim, h.fields_eq] at hfields
    obtain ⟨rfl, -⟩ := List.cons.inj hfields
    exact head?_of_readId hsource rfl

/-- The relationship of two fields. -/
theorem readFields_pair_iff {source target : List Char} {e : ExternalEdge α} :
    readFields readWeight [source, target] = .ok e ↔ readId source = .ok e.source ∧
      readId target = .ok e.target ∧ e.weight = none := by
  obtain ⟨s, t, w⟩ := e
  rw [readFields]
  -- the first field that is no id decides
  cases hs : readId source with
  | error fault => simp [bind, Except.bind]
  | ok n =>
    cases ht : readId target with
    | error fault => simp [bind, Except.bind]
    | ok m => simp [bind, Except.bind, pure, Except.pure, eq_comm]

/-- The relationship of three fields. -/
theorem readFields_triple_iff {source target weight : List Char} {e : ExternalEdge α} :
    readFields readWeight [source, target, weight] = .ok e ↔ readId source = .ok e.source ∧
      readId target = .ok e.target ∧ e.weight ≠ none ∧ readWeight weight = e.weight := by
  obtain ⟨s, t, w⟩ := e
  rw [readFields]
  cases hw : readWeight weight with
  | none => cases w <;> simp
  | some x =>
    cases hs : readId source with
    | error fault => simp [bind, Except.bind]
    | ok n =>
      cases ht : readId target with
      | error fault => simp [bind, Except.bind]
      | ok m => cases w <;> simp [bind, Except.bind, pure, Except.pure]

/-- What is read from a line is what it says. -/
theorem says_iff {line : List Char} {m : Option (ExternalEdge α)} :
    Says readWeight line m ↔ readLine readWeight line = .ok m := by
  rw [readLine, fields_trim]
  constructor
  · intro h
    cases m with
    | none => rw [if_pos (isSkipped_iff.mpr h)]
    | some e =>
      cases h with
      | plain hline hs ht =>
        rw [isSkipped_of_separated hline hs, if_neg Bool.false_ne_true, hline.fields_eq,
          (readFields_pair_iff (e := ⟨_, _, none⟩)).mpr ⟨hs, ht, rfl⟩, Except.map]
      | weighted hline hs ht hw =>
        rw [isSkipped_of_separated hline hs, if_neg Bool.false_ne_true, hline.fields_eq,
          (readFields_triple_iff (e := ⟨_, _, some _⟩)).mpr ⟨hs, ht, Option.some_ne_none _, hw⟩,
          Except.map]
  · -- conversely the number of fields decides what the line can say
    intro h
    split at h
    · rename_i hskipped
      cases h
      exact isSkipped_iff.mp hskipped
    · obtain ⟨e, he, rfl⟩ : ∃ e, readFields readWeight (fields line) = .ok e ∧ some e = m := by
        cases hread : readFields readWeight (fields line) with
        | error fault => rw [hread] at h; cases h
        | ok e => rw [hread] at h; exact ⟨e, rfl, Except.ok.inj h⟩
      match hfields : fields line with
      | [] | [_] | _ :: _ :: _ :: _ :: _ => rw [hfields] at he; cases he
      | [source, target] =>
        rw [hfields] at he
        obtain ⟨hs, ht, hw⟩ := readFields_pair_iff.mp he
        obtain ⟨s, t, w⟩ := e
        subst hw
        exact .plain (fields_eq_iff.mp hfields) hs ht
      | [source, target, weight] =>
        rw [hfields] at he
        obtain ⟨hs, ht, hsome, hw⟩ := readFields_triple_iff.mp he
        obtain ⟨s, t, w⟩ := e
        obtain ⟨w, rfl⟩ := Option.ne_none_iff_exists'.mp hsome
        exact .weighted (fields_eq_iff.mp hfields) hs ht hw

/-- A line says one thing. -/
theorem Says.unique {line : List Char} {m m' : Option (ExternalEdge α)}
    (h : Says readWeight line m) (h' : Says readWeight line m') : m = m' :=
  Except.ok.inj ((says_iff.mp h).symm.trans (says_iff.mp h'))

/-- A carriage return at the end of a line is not heard. -/
theorem Says.of_return {line : List Char} {m : Option (ExternalEdge α)}
    (h : Says readWeight (line ++ ['\r']) m) : Says readWeight line m := by
  rw [says_iff, readLine] at h ⊢
  rwa [trim_append_blank line (by decide)] at h

/-! ## Lines -/

/-- Reading lines is reading the first, and then the others under the next number. -/
theorem readLines_cons (number : Nat) (line : List Char) (lines : List (List Char)) :
    readLines readWeight number (line :: lines) = match readLine readWeight line with
      | .error cause => .error ⟨number, cause⟩
      | .ok m => (readLines readWeight (number + 1) lines).map (m.toList ++ ·) := by
  rw [readLines, readLine]
  split
  · cases readLines readWeight (number + 1) lines <;> rfl
  · cases readFields readWeight (fields (trim line)) <;> rfl

/-- Lines are read if all of them say something. What they say comes in their order. -/
theorem readLines_eq_ok_iff {number : Nat} {lines : List (List Char)}
    {edges : List (ExternalEdge α)} : readLines readWeight number lines = .ok edges ↔
      ∃ ms, List.Forall₂ (Says readWeight) lines ms ∧ edges = ms.reduceOption := by
  -- the rest is read under greater numbers
  induction lines generalizing number edges with
  | nil =>
    rw [readLines, Except.ok.injEq]
    constructor
    · rintro rfl
      exact ⟨[], .nil, rfl⟩
    · rintro ⟨ms, hms, rfl⟩
      cases hms
      rfl
  | cons line lines ih =>
    rw [readLines_cons]
    constructor
    · intro h
      -- the first line is read, or nothing is
      cases hline : readLine readWeight line with
      | error cause => rw [hline] at h; cases h
      | ok m =>
        rw [hline] at h
        cases hrest : readLines readWeight (number + 1) lines with
        | error fault => simp [hrest, Except.map] at h
        | ok rest =>
          simp only [hrest, Except.map, Except.ok.injEq] at h
          obtain ⟨ms, hms, rfl⟩ := ih.mp hrest
          exact ⟨m :: ms, .cons (says_iff.mpr hline) hms, by cases m <;> simp [← h]⟩
    · rintro ⟨ms, hms, rfl⟩
      cases hms with
      | @cons _ m _ ms hm hms =>
        rw [says_iff.mp hm]
        dsimp only
        rw [ih.mpr ⟨ms, hms, rfl⟩, Except.map]
        cases m <;> simp

/-- What is reported is the first line that says nothing, with its number. -/
theorem readLines_eq_error_iff {number : Nat} {lines : List (List Char)} {fault : Fault} :
    readLines readWeight number lines = .error fault ↔
      ∃ before line after, lines = before ++ line :: after ∧
        (∀ l ∈ before, ∃ m, Says readWeight l m) ∧ readLine readWeight line = .error fault.fault ∧
        fault.line = number + before.length := by
  induction lines generalizing number with
  | nil =>
    rw [readLines]
    constructor
    · intro h
      cases h
    · rintro ⟨before, line, after, hlines, -⟩
      simp at hlines
  | cons line lines ih =>
    rw [readLines_cons]
    cases hline : readLine readWeight line with
    | error cause =>
      -- no line comes before this one, since it would be among those that say something
      dsimp only
      constructor
      · intro h
        cases h
        exact ⟨[], line, lines, rfl, List.forall_mem_nil _, hline, rfl⟩
      · rintro ⟨before, first, after, hlines, hbefore, hfirst, hnumber⟩
        cases before with
        | nil =>
          cases hlines
          rw [hline] at hfirst
          cases hfirst
          rw [List.length_nil, Nat.add_zero] at hnumber
          rw [← hnumber]
        | cons l before =>
          cases hlines
          obtain ⟨m, hm⟩ := hbefore line (List.mem_cons_self ..)
          cases hline.symm.trans (says_iff.mp hm)
    | ok m =>
      -- this line comes before the one that is reported
      have hmap : (readLines readWeight (number + 1) lines).map (m.toList ++ ·) = .error fault ↔
          readLines readWeight (number + 1) lines = .error fault := by
        cases readLines readWeight (number + 1) lines <;> simp [Except.map]
      dsimp only
      rw [hmap, ih]
      constructor
      · rintro ⟨before, first, after, rfl, hbefore, hfirst, hnumber⟩
        refine ⟨line :: before, first, after, rfl, ?_, hfirst, by rw [hnumber]; simp; omega⟩
        exact List.forall_mem_cons.mpr ⟨⟨m, says_iff.mpr hline⟩, hbefore⟩
      · rintro ⟨before, first, after, hlines, hbefore, hfirst, hnumber⟩
        cases before with
        | nil =>
          cases hlines
          cases hline.symm.trans hfirst
        | cons l before =>
          cases hlines
          refine ⟨before, first, after, rfl,
            fun l hl => hbefore l (List.mem_cons_of_mem _ hl), hfirst, ?_⟩
          rw [hnumber, List.length_cons]
          omega

/-! ## Writing -/

/-- Blanks within a line. -/
structure IsGap (gap : List Char) : Prop where
  blank : AllBlank gap
  newline : '\n' ∉ gap

/-- These pieces with blanks between them, and possibly behind them. -/
inductive Spaced : List Char → List (List Char) → Prop
  | last {piece gap : List Char} : IsGap gap → Spaced (piece ++ gap) [piece]
  | cons {piece gap rest : List Char} {pieces : List (List Char)} :
    IsGap gap → gap ≠ [] → Spaced rest pieces → Spaced (piece ++ (gap ++ rest)) (piece :: pieces)

/-- The fields in which a relationship is written down. -/
def writeFields (writeWeight : α → List Char) (e : ExternalEdge α) : List (List Char) :=
  Nat.toDigits 10 e.source.toNat :: Nat.toDigits 10 e.target.toNat ::
    (e.weight.map writeWeight).toList

/-- A line that is written down to say nothing or a relationship. -/
inductive WrittenLine (writeWeight : α → List Char) : List Char → Option (ExternalEdge α) → Prop
  | blank {gap : List Char} : IsGap gap → WrittenLine writeWeight gap none
  | comment {gap rest : List Char} : IsGap gap → '\n' ∉ rest →
    WrittenLine writeWeight (gap ++ '#' :: rest) none
  | edge {gap text : List Char} {e : ExternalEdge α} : IsGap gap →
    Spaced text (writeFields writeWeight e) → WrittenLine writeWeight (gap ++ text) (some e)

/-- A text that is written down to say these relationships. -/
inductive Written (writeWeight : α → List Char) : List Char → List (ExternalEdge α) → Prop
  | nil : Written writeWeight [] []
  /-- The last line may go without a newline. -/
  | last {line : List Char} {m : Option (ExternalEdge α)} :
    WrittenLine writeWeight line m → Written writeWeight line m.toList
  | newline {line rest : List Char} {m : Option (ExternalEdge α)} {edges : List (ExternalEdge α)} :
    WrittenLine writeWeight line m → Written writeWeight rest edges →
      Written writeWeight (line ++ '\n' :: rest) (m.toList ++ edges)
  | return {line rest : List Char} {m : Option (ExternalEdge α)} {edges : List (ExternalEdge α)} :
    WrittenLine writeWeight line m → Written writeWeight rest edges →
      Written writeWeight (line ++ '\r' :: '\n' :: rest) (m.toList ++ edges)

/-- What is read as a weight is a field: it has characters, and none of them is blank. -/
def ReadsFields (readWeight : List Char → Option α) : Prop :=
  ∀ field w, readWeight field = some w → IsField field

/-- The weights of these relationships are read as they are written. -/
def Inverts (readWeight : List Char → Option α) (writeWeight : α → List Char)
    (edges : List (ExternalEdge α)) : Prop :=
  ∀ e ∈ edges, ∀ w, e.weight = some w → readWeight (writeWeight w) = some w

/-- What is read as a double is a field. -/
theorem readsFields_readDouble : ReadsFields readDouble := fun _ _ => isField_of_readDouble

variable {writeWeight : α → List Char}

/-- An id is read as it was written. -/
theorem readId_toDigits (n : UInt64) : readId (Nat.toDigits 10 n.toNat) = .ok n := by
  have hlimit : n.toNat < wordLimit := n.toNat_lt
  simp [readId, readNatural_toDigits hlimit]

/-- A relationship is written down in fields. -/
theorem isField_of_mem_writeFields {e : ExternalEdge α} (hfields : ReadsFields readWeight)
    (hinverts : Inverts readWeight writeWeight [e]) :
    ∀ field ∈ writeFields writeWeight e, IsField field := by
  refine List.forall_mem_cons.mpr ⟨isField_toDigits _, ?_⟩
  refine List.forall_mem_cons.mpr ⟨isField_toDigits _, fun field hfield => ?_⟩
  obtain ⟨w, hw, rfl⟩ := Option.map_eq_some_iff.mp (Option.mem_toList.mp hfield)
  exact hfields _ _ (hinverts e (List.mem_singleton_self e) w hw)

/-- Fields with blanks between them stay on a line and are found again. -/
theorem Spaced.separated {text : List Char} {fs : List (List Char)} (h : Spaced text fs)
    (hfs : ∀ field ∈ fs, IsField field) : '\n' ∉ text ∧ fields text = fs := by
  -- no character of a field is blank, so none of them ends the line
  have hnewline {field : List Char} (h : IsField field) : '\n' ∉ field := fun hmem =>
    absurd (h.dense _ hmem) (by decide)
  induction h with
  | last hgap =>
    have hfield := hfs _ (List.mem_singleton_self _)
    refine ⟨by simp [hnewline hfield, hgap.newline], ?_⟩
    rw [fields_append_allBlank hgap.blank, fields_of_isField hfield]
  | @cons piece gap rest pieces hgap hne _ ih =>
    obtain ⟨hfield, hrest⟩ := List.forall_mem_cons.mp hfs
    obtain ⟨hline, hpieces⟩ := ih hrest
    refine ⟨by simp [hnewline hfield, hgap.newline, hline], ?_⟩
    -- one blank of the gap ends the field, and the others are passed over
    obtain ⟨c, gap, rfl⟩ := List.exists_cons_of_ne_nil hne
    obtain ⟨hc, hblank⟩ := List.forall_mem_cons.mp hgap.blank
    rw [List.cons_append, fields_append_blank hc, fields_of_isField hfield,
      fields_allBlank_append hblank, hpieces]
    rfl

/-- What is written on a line is said by it. -/
theorem WrittenLine.said {line : List Char} {m : Option (ExternalEdge α)}
    (h : WrittenLine writeWeight line m) (hfields : ReadsFields readWeight)
    (hinverts : Inverts readWeight writeWeight m.toList) :
    '\n' ∉ line ∧ Says readWeight line m := by
  cases h with
  | blank hgap => exact ⟨hgap.newline, .blank hgap.blank⟩
  | comment hgap hrest => exact ⟨by simp [hgap.newline, hrest], .comment hgap.blank⟩
  | @edge gap text e hgap htext =>
    obtain ⟨hnewline, htext⟩ := htext.separated (isField_of_mem_writeFields hfields hinverts)
    refine ⟨by simp [hgap.newline, hnewline], ?_⟩
    rw [← fields_allBlank_append hgap.blank, fields_eq_iff] at htext
    obtain ⟨s, t, w⟩ := e
    -- the weight decides between two fields and three
    cases w with
    | none => exact .plain htext (readId_toDigits s) (readId_toDigits t)
    | some w =>
      exact .weighted htext (readId_toDigits s) (readId_toDigits t)
        (hinverts _ (List.mem_singleton_self _) w rfl)

/-- The lines of a text say what was written down. -/
theorem Written.said {text : List Char} {edges : List (ExternalEdge α)}
    (h : Written writeWeight text edges) (hfields : ReadsFields readWeight)
    (hinverts : Inverts readWeight writeWeight edges) :
    ∃ ms, List.Forall₂ (Says readWeight) (lines text) ms ∧ edges = ms.reduceOption := by
  induction h with
  | nil => exact ⟨[], .nil, rfl⟩
  | @last line m hline =>
    obtain ⟨hnewline, hsaid⟩ := hline.said hfields hinverts
    -- an empty last line is none
    by_cases hne : line = []
    · subst hne
      cases hsaid.unique (.blank allBlank_nil)
      exact ⟨[], .nil, rfl⟩
    · rw [lines_of_not_mem hnewline hne]
      exact ⟨[m], .cons hsaid .nil, by cases m <;> rfl⟩
  | @newline line rest m edges hline _ ih =>
    obtain ⟨hfirst, hrest⟩ := List.forall_mem_append.mp hinverts
    obtain ⟨hnewline, hsaid⟩ := hline.said hfields hfirst
    obtain ⟨ms, hms, rfl⟩ := ih hrest
    refine ⟨m :: ms, ?_, by cases m <;> simp⟩
    rw [lines_append_newline hnewline]
    refine .cons ?_ hms
    -- the blanks at the end of the line may end with a carriage return
    by_cases hreturn : line.getLast? = some '\r'
    · obtain ⟨front, rfl⟩ := List.getLast?_eq_some_iff.mp hreturn
      rw [closeLine_return]
      exact hsaid.of_return
    · rwa [closeLine_of_getLast? hreturn]
  | @«return» line rest m edges hline _ ih =>
    obtain ⟨hfirst, hrest⟩ := List.forall_mem_append.mp hinverts
    obtain ⟨hnewline, hsaid⟩ := hline.said hfields hfirst
    obtain ⟨ms, hms, rfl⟩ := ih hrest
    refine ⟨m :: ms, ?_, by cases m <;> simp⟩
    -- the carriage return is taken for the end of the line, and then dropped
    have hlonger : '\n' ∉ line ++ ['\r'] := by simp [hnewline]
    have hlines := lines_append_newline hlonger rest
    rw [closeLine_return, List.append_assoc] at hlines
    exact hlines ▸ .cons hsaid hms

/-! ## Texts -/

/-- The number of the first line that says nothing, counted from one. -/
def IsFirstFault (readWeight : List Char → Option α) (lines : List (List Char)) (number : Nat) :
    Prop :=
  ∃ before line after, lines = before ++ line :: after ∧
    (∀ l ∈ before, ∃ m, Says readWeight l m) ∧ (∀ m, ¬ Says readWeight line m) ∧
    number = before.length + 1

/-- A line that is not read is one that says nothing, and the other way round. -/
theorem exists_readLine_error_iff {line : List Char} :
    (∃ cause, readLine readWeight line = .error cause) ↔ ∀ m, ¬ Says readWeight line m := by
  simp only [says_iff]
  cases readLine readWeight line <;> simp

/-- Lines that all say something say a list of things. -/
theorem exists_forall₂_says_iff {lines : List (List Char)} :
    (∃ ms, List.Forall₂ (Says readWeight) lines ms) ↔
      ∀ line ∈ lines, ∃ m, Says readWeight line m := by
  -- on the lines, one thing said for each
  induction lines with
  | nil => exact ⟨fun _ => List.forall_mem_nil _, fun _ => ⟨[], .nil⟩⟩
  | cons line lines ih =>
    rw [List.forall_mem_cons, ← ih]
    constructor
    · rintro ⟨ms, hms⟩
      cases hms with
      | cons hm hms => exact ⟨⟨_, hm⟩, _, hms⟩
    · rintro ⟨⟨m, hm⟩, ms, hms⟩
      exact ⟨m :: ms, .cons hm hms⟩

/-- A text is read exactly if all its lines say something. -/
theorem exists_read_eq_ok_iff {text : List Char} :
    (∃ edges, read readWeight text = .ok edges) ↔
      ∀ line ∈ lines text, ∃ m, Says readWeight line m := by
  rw [← exists_forall₂_says_iff]
  constructor
  · rintro ⟨edges, hedges⟩
    obtain ⟨ms, hms, -⟩ := readLines_eq_ok_iff.mp hedges
    exact ⟨ms, hms⟩
  · rintro ⟨ms, hms⟩
    exact ⟨_, readLines_eq_ok_iff.mpr ⟨ms, hms, rfl⟩⟩

/-- The fault of a text is in the first line that says nothing. -/
theorem exists_read_eq_error_iff {text : List Char} {number : Nat} :
    (∃ fault, read readWeight text = .error fault ∧ fault.line = number) ↔
      IsFirstFault readWeight (lines text) number := by
  constructor
  · rintro ⟨fault, hfault, rfl⟩
    obtain ⟨before, line, after, hlines, hbefore, hline, hnumber⟩ :=
      readLines_eq_error_iff.mp hfault
    exact ⟨before, line, after, hlines, hbefore, exists_readLine_error_iff.mp ⟨_, hline⟩,
      hnumber.trans (Nat.add_comm ..)⟩
  · rintro ⟨before, line, after, hlines, hbefore, hline, rfl⟩
    obtain ⟨cause, hcause⟩ := exists_readLine_error_iff.mpr hline
    exact ⟨⟨_, cause⟩, readLines_eq_error_iff.mpr
      ⟨before, line, after, hlines, hbefore, hcause, Nat.add_comm ..⟩, rfl⟩

/-- What is reported about a fault says in which line it is. -/
theorem Fault.exists_message_eq (f : Fault) : ∃ detail, f.message = s!"line {f.line}: " ++ detail :=
  ⟨_, rfl⟩

end EdgeList

open EdgeList CsrGraph in
/-- A text is read as an edge list exactly if each of its lines is blank, a comment or a
relationship. The graph is then that of the relationships in line order. Otherwise the first other
line is reported under its number. What was written down as an edge list is read as it was. -/
theorem edge_list_grammar {α : Type} [Scalar α] (readWeight : List Char → Option α)
    (text : List Char) :
    ∃ lines, Text.IsLines text lines ∧ (∀ lines', Text.IsLines text lines' → lines' = lines) ∧
      ((∃ edges, read readWeight text = .ok edges) ↔
        ∀ line ∈ lines, ∃ m, Says readWeight line m) ∧
      (∀ ms, List.Forall₂ (Says readWeight) lines ms →
        (read readWeight text).map ofExternalEdges = .ok (ofExternalEdges ms.reduceOption)) ∧
      (∀ number, (∃ fault, read readWeight text = .error fault ∧ fault.line = number ∧
        ∃ detail, fault.message = s!"line {number}: " ++ detail) ↔
          IsFirstFault readWeight lines number) ∧
      (ReadsFields readWeight → ∀ writeWeight edges, Inverts readWeight writeWeight edges →
        Written writeWeight text edges →
          (read readWeight text).map ofExternalEdges = .ok (ofExternalEdges edges)) := by
  refine ⟨Text.lines text, Text.lines_eq_iff.mp rfl, fun _ h => (Text.lines_eq_iff.mpr h).symm,
    exists_read_eq_ok_iff, fun ms hms => ?_, fun number => ?_,
    fun hfields writeWeight edges hinverts hwritten => ?_⟩
  · have hread : read readWeight text = .ok ms.reduceOption :=
      readLines_eq_ok_iff.mpr ⟨ms, hms, rfl⟩
    rw [hread]
    rfl
  · rw [← exists_read_eq_error_iff]
    constructor
    · rintro ⟨fault, hfault, hline, -⟩
      exact ⟨fault, hfault, hline⟩
    · rintro ⟨fault, hfault, rfl⟩
      exact ⟨fault, hfault, rfl, fault.exists_message_eq⟩
  · have hread : read readWeight text = .ok edges :=
      readLines_eq_ok_iff.mpr (hwritten.said hfields hinverts)
    rw [hread]
    rfl

open EdgeList CsrGraph in
/-- Two relationships, one of them with a weight, below a comment and around a blank line. -/
theorem edge_list_of_four_lines :
    let text := ['#', '1', '\r', '\n', ' ', '1', '\t', '2', ' ', '1', '.', '5', '\r', '\n', '\n',
      '2', ' ', '1', ' ']
    let writeWeight := fun _ : Float => ['1', '.', '5']
    let edges := [⟨1, 2, some (SignedDecimal.toDouble ⟨false, 15, -1⟩)⟩, ⟨2, 1, none⟩]
    Written writeWeight text edges ∧ Inverts readDouble writeWeight edges ∧
      (read readDouble text).map ofExternalEdges = .ok (ofExternalEdges edges) := by
  intro text writeWeight edges
  -- that characters are blank is decided, gap by gap
  have hgap {gap : List Char} (hblank : gap.all Text.isBlank = true) (hline : '\n' ∉ gap) :
      IsGap gap := ⟨List.all_eq_true.mp hblank, hline⟩
  have hnil : IsGap [] := hgap rfl (by decide)
  have htab : IsGap ['\t'] := hgap rfl (by decide)
  have hspace : IsGap [' '] := hgap rfl (by decide)
  have hone : Nat.toDigits 10 1 = ['1'] := rfl
  have hcomment : WrittenLine writeWeight ['#', '1'] none := .comment hnil (by decide)
  have hfirst : WrittenLine writeWeight [' ', '1', '\t', '2', ' ', '1', '.', '5'] edges[0] := by
    have hfields : Spaced (['1'] ++ (['\t'] ++ (['2'] ++ ([' '] ++ (['1', '.', '5'] ++ [])))))
        (writeFields writeWeight edges[0]) := by
      simp only [writeFields, edges, writeWeight, List.getElem_cons_zero, UInt64.toNat_one, hone]
      exact .cons htab (by decide) (.cons hspace (by decide) (.last hnil))
    exact .edge hspace hfields
  have hlast : WrittenLine writeWeight ['2', ' ', '1', ' '] edges[1] := by
    have hfields : Spaced (['2'] ++ ([' '] ++ (['1'] ++ [' '])))
        (writeFields writeWeight edges[1]) := by
      simp only [writeFields, edges, List.getElem_cons_succ, List.getElem_cons_zero,
        UInt64.toNat_one, hone]
      exact .cons hspace (by decide) (.last hspace)
    exact .edge hnil hfields
  -- the four lines end with a carriage return or without, and the last with nothing
  have hwritten : Written writeWeight text edges :=
    .return hcomment <| .return hfirst <| .newline (.blank hnil) <| .last hlast
  -- only the first relationship has a weight
  have hinverts : Inverts readDouble writeWeight edges := by
    intro e he w hw
    obtain rfl | he := List.mem_cons.mp he
    · cases hw
      rfl
    · obtain rfl := List.mem_singleton.mp he
      cases hw
  obtain ⟨-, -, -, -, -, -, hread⟩ := edge_list_grammar readDouble text
  exact ⟨hwritten, hinverts, hread readsFields_readDouble _ _ hinverts hwritten⟩

end Superstep
