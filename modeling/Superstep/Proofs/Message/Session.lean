import Mathlib
import Superstep.Proofs.Message.Reading

/-!
# What a messenger is asked to do over time

A messenger is prepared for one superstep after the other, and in between it is sent messages and
asked for them in any order. Several vertices may read at the same time, some of them to the end and
some not, and a reading is over when the next superstep is prepared. A `Session` is a messenger with
the readings that are open. What a request out of range asks for is refused and changes nothing.

## Key results

- `Session.Serves.run`: what one errand does to the readings that are open
- `Session.Serves.prepare`: no reading is open when a superstep begins
- `Session.Serves.after`, `delivers_begun`: whatever is done in the meantime, a reading delivers
  what its vertex had when it began
-/

namespace Superstep

variable {α : Type}

/-- What a messenger is asked to do in a superstep. -/
inductive Errand (α : Type) where
  | send (target : Nat) (value : α)
  /-- All messages of a vertex, at once. -/
  | receive (vertex : Nat)
  /-- The messages of a vertex, to be read one by one. -/
  | beginReading (vertex : Nat)
  /-- At most so many messages more, in the reading that was begun in this place. -/
  | readOn (place count : Nat)

/-- What a messenger is asked to do. -/
inductive SessionStep (α : Type) where
  | prepare (superstep : Nat)
  | errand (e : Errand α)

/-- A messenger with the readings that were begun in the current superstep. -/
structure Session (α : Type) where
  messenger : Messenger α
  readings : List (Reading α)

namespace Session

/-- A new messenger. -/
def create (n : Nat) (r : Option (Reducer α)) (isAsynchronous : Bool) : Session α :=
  ⟨.create n r isAsynchronous, []⟩

/-- Prepares a superstep. Whoever was reading has stopped. -/
def prepare (s : Session α) (superstep : Nat) : Session α :=
  ⟨(s.messenger.perform (.prepare superstep)).2, []⟩

/-- Runs one errand. -/
def run (s : Session α) : Errand α → Session α
  | .send target value => ⟨(s.messenger.perform (.send target value)).2, s.readings⟩
  | .receive vertex => ⟨(s.messenger.perform (.receive vertex)).2, s.readings⟩
  | .beginReading vertex =>
    match s.messenger.beginReading vertex with
    | (.ok reading, m) => ⟨m, s.readings ++ [reading]⟩
    | (.error _, m) => ⟨m, s.readings⟩
  | .readOn place count => ⟨s.messenger, s.readings.modify place (s.messenger.readUpTo count)⟩

/-- Takes one step. -/
def step (s : Session α) : SessionStep α → Session α
  | .prepare superstep => s.prepare superstep
  | .errand e => s.run e

/-- Takes steps one after the other. -/
def after (s : Session α) (steps : List (SessionStep α)) : Session α := steps.foldl step s

/-- Steps may be taken in two parts. -/
theorem after_append (s : Session α) (steps steps' : List (SessionStep α)) :
    s.after (steps ++ steps') = (s.after steps).after steps' := List.foldl_append

/-- The last step is taken after the others. -/
theorem after_concat (s : Session α) (steps : List (SessionStep α)) (a : SessionStep α) :
    s.after (steps ++ [a]) = (s.after steps).step a := List.foldl_concat ..

/-- The readings that are open: whose messages they are, and all of these, read or not. -/
def contents (s : Session α) : List (Nat × List α) :=
  s.readings.map fun r => (r.vertex, s.messenger.contents r)

/-- The reading that an errand opens. -/
def opened (n : Nat) (m : Messenger α) : Errand α → List (Nat × List α)
  | .beginReading v => if v < n then [(v, m.inbox v)] else []
  | .send _ _ | .receive _ | .readOn _ _ => []

/-- The messenger is well-formed, and every open reading can go on. -/
structure Serves (n : Nat) (s : Session α) : Prop where
  valid : s.messenger.Valid n
  holds : ∀ r ∈ s.readings, s.messenger.Holds r.unread

/-- Nobody reads a new messenger. -/
theorem serves_create (n : Nat) (r : Option (Reducer α)) (isAsynchronous : Bool) :
    (create n r isAsynchronous).Serves n where
  valid := Messenger.valid_create n r isAsynchronous
  holds := List.forall_mem_nil _

variable {n : Nat} {s : Session α} {m : Messenger α}

/-! ## Errands -/

/-- A reading is begun for a vertex that exists, behind those that are open. -/
theorem run_beginReading (h : s.messenger.Valid n) (v : Nat) :
    s.run (.beginReading v) = if v < n then
      ⟨s.messenger.afterReceiving v, s.readings ++ [⟨v, [], s.messenger.unread v⟩]⟩ else s := by
  have haccepts := Messenger.readRefusal?_eq_none_iff h v
  rw [run, Messenger.beginReading]
  cases hrefusal : s.messenger.readRefusal? v with
  | none => rw [if_pos (haccepts.mp hrefusal)]
  | some violation =>
    have hv : ¬v < n := by
      rw [← haccepts, hrefusal]
      exact Option.some_ne_none violation
    rw [if_neg hv]

/-- What an errand leaves of the messenger that runs it. -/
def leave (n : Nat) (m : Messenger α) : Errand α → Messenger α
  | .send t x => if t < n then m.post t x else m
  | .receive v | .beginReading v => if v < n then m.afterReceiving v else m
  | .readOn _ _ => m

/-- An errand does not change how many buffers there are. -/
@[simp] theorem isDoubleBuffered_leave (m : Messenger α) (e : Errand α) :
    (leave n m e).isDoubleBuffered = m.isDoubleBuffered := by
  cases e <;> simp only [leave] <;> split <;> simp

/-- An errand does not change the reducer. -/
@[simp] theorem reducer?_leave (m : Messenger α) (e : Errand α) :
    (leave n m e).reducer? = m.reducer? := by
  cases e <;> simp only [leave] <;> split <;> simp

/-- What an errand leaves does not depend on the readings that are open. -/
theorem messenger_run (h : s.messenger.Valid n) (e : Errand α) :
    (s.run e).messenger = leave n s.messenger e := by
  cases e with
  | send t x => exact Messenger.perform_send h t x
  | receive v => exact Messenger.perform_receive h v
  | beginReading v =>
    rw [run_beginReading h, leave]
    split <;> rfl
  | readOn place count => rfl

/-- An errand leaves a valid messenger. -/
theorem valid_leave (h : m.Valid n) (e : Errand α) : (leave n m e).Valid n := by
  cases e with
  | send t x =>
    rw [leave]
    split
    · rename_i ht
      exact h.post ht x
    · exact h
  | receive v | beginReading v =>
    rw [leave]
    split
    · exact h.afterReceiving v
    · exact h
  | readOn place count => exact h

/-- No errand disturbs a reading. -/
theorem holds_leave {u : Unread α} (h : m.Holds u) (e : Errand α) :
    (leave n m e).Holds u ∧ (leave n m e).left u = m.left u := by
  cases e with
  | send t x =>
    rw [leave]
    split
    · exact h.post t x
    · exact ⟨h, rfl⟩
  | receive v | beginReading v =>
    rw [leave]
    split
    · exact h.afterReceiving v
    · exact ⟨h, rfl⟩
  | readOn place count => exact ⟨h, rfl⟩

/-- A reading is opened for a vertex that exists, with what it would receive. -/
theorem snd_of_mem_opened {e : Errand α} {entry : Nat × List α} (h : entry ∈ opened n m e) :
    entry.1 < n ∧ entry.2 = m.inbox entry.1 := by
  cases e with
  | beginReading v =>
    rw [opened] at h
    split at h
    · rename_i hv
      obtain rfl := List.mem_singleton.mp h
      exact ⟨hv, rfl⟩
    · cases h
  | send | receive | readOn => cases h

/-- The readings that were open before an errand deliver the same after it. -/
theorem Serves.undisturbed (h : s.Serves n) (e : Errand α) :
    (⟨leave n s.messenger e, s.readings⟩ : Session α).Serves n ∧
      (⟨leave n s.messenger e, s.readings⟩ : Session α).contents = s.contents := by
  refine ⟨⟨valid_leave h.valid e, fun r hr => (holds_leave (h.holds r hr) e).1⟩, ?_⟩
  refine List.map_congr_left fun r hr => ?_
  rw [Messenger.contents, Messenger.contents, (holds_leave (h.holds r hr) e).2]

/-- Reading on changes no reading's messages. -/
theorem Serves.readOn (h : s.Serves n) (place count : Nat) :
    (s.run (.readOn place count)).Serves n ∧
      (s.run (.readOn place count)).contents = s.contents := by
  refine ⟨⟨h.valid, fun r hr => ?_⟩, ?_⟩
  · obtain ⟨i, hi⟩ := List.getElem?_of_mem hr
    rw [run, List.getElem?_modify] at hi
    obtain ⟨r', hr', rfl⟩ := Option.map_eq_some_iff.mp hi
    have hholds := h.holds r' (List.mem_of_getElem? hr')
    -- the reading in this place, or another one
    split
    · exact (Messenger.readUpTo_spec count hholds).1
    · exact hholds
  · refine List.ext_getElem? fun i => ?_
    simp only [contents, run, List.getElem?_map, List.getElem?_modify]
    cases hr : s.readings[i]? with
    | none => rfl
    | some r =>
      obtain ⟨-, hvertex, hcontents⟩ :=
        Messenger.readUpTo_spec count (h.holds r (List.mem_of_getElem? hr))
      simp only [Option.map_eq_map, Option.map_some]
      split
      · rw [hvertex, hcontents]
      · rfl

/-- An errand leaves the readings that are open as they are, and begins one more at most. -/
theorem Serves.run (h : s.Serves n) (e : Errand α) :
    (s.run e).Serves n ∧ (s.run e).contents = s.contents ++ opened n s.messenger e := by
  obtain ⟨hserves, hcontents⟩ := h.undisturbed e
  cases e with
  | send t x =>
    rw [Session.run, Messenger.perform_send h.valid, opened, List.append_nil]
    exact ⟨hserves, hcontents⟩
  | receive v =>
    rw [Session.run, Messenger.perform_receive h.valid, opened, List.append_nil]
    exact ⟨hserves, hcontents⟩
  | beginReading v =>
    rw [run_beginReading h.valid, opened]
    split
    · rename_i hv
      rw [leave, if_pos hv] at hserves hcontents
      -- taking the queue off is what receiving does, and the reading keeps its cells
      obtain ⟨hunread, hleft⟩ := Messenger.holds_unread h.valid v
      obtain ⟨hafter, hsame⟩ := hunread.afterReceiving v
      refine ⟨⟨hserves.valid, ?_⟩, ?_⟩
      · exact List.forall_mem_append.mpr ⟨hserves.holds, List.forall_mem_singleton.mpr hafter⟩
      · -- the new reading has everything that waited
        rw [contents, List.map_append, ← hcontents, ← hleft, ← hsame]
        rfl
    · rw [List.append_nil]
      exact ⟨h, rfl⟩
  | readOn place count =>
    rw [opened, List.append_nil]
    exact h.readOn place count

/-- No reading is open when a superstep begins. -/
theorem Serves.prepare (h : s.Serves n) (superstep : Nat) :
    (s.prepare superstep).Serves n ∧
      (s.prepare superstep).messenger = s.messenger.prepare superstep ∧
      (s.prepare superstep).contents = [] := by
  have hmessenger := Messenger.perform_prepare h.valid superstep
  refine ⟨⟨?_, List.forall_mem_nil _⟩, hmessenger, rfl⟩
  rw [Session.prepare, hmessenger]
  exact h.valid.prepare superstep

/-- What one step leaves of the messenger. -/
theorem messenger_step (h : s.messenger.Valid n) (a : SessionStep α) :
    (s.step a).messenger = match a with
      | .prepare superstep => s.messenger.prepare superstep
      | .errand e => leave n s.messenger e := by
  cases a with
  | prepare superstep => exact Messenger.perform_prepare h superstep
  | errand e => exact messenger_run h e

/-- A session is in order at every moment of its history, and reduces as it did from the start. -/
theorem serves_after (n : Nat) (r : Option (Reducer α)) (isAsynchronous : Bool)
    (history : List (SessionStep α)) :
    ((create n r isAsynchronous).after history).Serves n ∧
      ((create n r isAsynchronous).after history).messenger.reducer? = r := by
  induction history using List.reverseRecOn with
  | nil => exact ⟨serves_create n r isAsynchronous, Messenger.reducer?_create n r isAsynchronous⟩
  | append_singleton history a ih =>
    obtain ⟨hserves, hreducer⟩ := ih
    rw [after_concat, messenger_step hserves.valid]
    cases a with
    | prepare superstep =>
      exact ⟨(hserves.prepare superstep).1, (Messenger.reducer?_prepare _ _).trans hreducer⟩
    | errand e => exact ⟨(hserves.run e).1, (reducer?_leave _ e).trans hreducer⟩

/-- Whatever is done in a superstep, the readings that are open deliver what they did. -/
theorem Serves.after (h : s.Serves n) (errands : List (Errand α)) :
    (s.after (errands.map .errand)).Serves n ∧
      s.contents <+: (s.after (errands.map .errand)).contents := by
  induction errands generalizing s with
  | nil => exact ⟨h, List.prefix_rfl⟩
  | cons e errands ih =>
    obtain ⟨hserves, hcontents⟩ := h.run e
    have hfirst : s.contents <+: (s.run e).contents := by
      rw [hcontents]
      exact List.prefix_append ..
    obtain ⟨hlast, hrest⟩ := ih hserves
    exact ⟨hlast, hfirst.trans hrest⟩

/-! ## What is asked at any moment -/

/-- Read to its end, a reading has delivered these messages. -/
def Delivers (s : Session α) (r : Reading α) (messages : List α) : Prop :=
  ∃ left, s.messenger.Delivers r.unread left ∧ r.taken.reverse ++ left = messages

/-- A reading that is open delivers its messages. -/
theorem Serves.delivers (h : s.Serves n) {r : Reading α} (hr : r ∈ s.readings) :
    s.Delivers r (s.messenger.contents r) :=
  ⟨s.messenger.left r.unread, Messenger.delivers_left (h.holds r hr), rfl⟩

/-- A reading delivers what its vertex had when it began, whatever is done in the meantime. -/
theorem Serves.delivers_begun (h : s.Serves n) {v : Nat} (hv : v < n)
    (later : List (Errand α)) :
    let now := s.after (.errand (.beginReading v) :: later.map .errand)
    ∃ r, now.readings[s.readings.length]? = some r ∧ r.vertex = v ∧
      now.Delivers r (s.messenger.inbox v) := by
  obtain ⟨hserves, hcontents⟩ := h.run (.beginReading v)
  rw [opened, if_pos hv] at hcontents
  obtain ⟨hnow, hprefix⟩ := hserves.after later
  rw [hcontents, List.prefix_iff_getElem?] at hprefix
  -- it was put behind the readings that were open
  obtain ⟨r, hr, hvertex, hmessages⟩ :
      ∃ r, ((s.run (.beginReading v)).after (later.map .errand)).readings[s.readings.length]?
        = some r ∧ r.vertex = v ∧
          ((s.run (.beginReading v)).after (later.map .errand)).messenger.contents r
            = s.messenger.inbox v := by
    have hat := hprefix s.readings.length (by simp [contents])
    simpa [contents] using hat
  exact ⟨r, hr, hvertex, hmessages ▸ hnow.delivers (List.mem_of_getElem? hr)⟩

end Session

/-- What a messenger answers where these messages are for the vertices, and those wait. -/
structure Messenger.Answers (n : Nat) (m : Messenger α) (handed waiting : Nat → List α) :
    Prop where
  hasMail : ∀ v < n, m.perform (.hasMail v) = (.ok (.flag !(handed v).isEmpty), m)
  pending : m.perform .pending =
    (.ok (.flag ((List.range n).any fun v => !(waiting v).isEmpty)), m)

/-- What is asked about messages is answered by the messages. -/
theorem Messenger.answers_of_valid {n : Nat} {m : Messenger α} (h : m.Valid n)
    {handed waiting : Nat → List α} (hinbox : ∀ v < n, (m.inbox v).isEmpty = (handed v).isEmpty)
    (houtbox : ∀ v < n, (m.outbox v).isEmpty = (waiting v).isEmpty) :
    m.Answers n handed waiting where
  hasMail v hv := by
    have hflag : m.hasMail v = !(handed v).isEmpty := by
      rw [← hinbox v hv, Bool.eq_iff_iff, hasMail_iff h]
      simp
    have haccepts := (readRefusal?_eq_none_iff h v).mpr hv
    simp only [perform, rejection?, haccepts, accept, hflag]
  pending := by
    have hflag : m.pending = (List.range n).any fun v => !(waiting v).isEmpty := by
      rw [Bool.eq_iff_iff, pending_iff h, List.any_eq_true]
      refine exists_congr fun v => ?_
      rw [List.mem_range]
      constructor
      · intro hv
        -- nothing waits for a vertex that does not exist
        have hlt : v < n := Nat.lt_of_not_le fun hle => hv (outbox_of_le h hle)
        refine ⟨hlt, ?_⟩
        rw [← houtbox v hlt]
        simpa using hv
      · rintro ⟨hlt, hwaiting⟩
        rw [← houtbox v hlt] at hwaiting
        simpa using hwaiting
    simp only [perform, rejection?, accept, hflag]

end Superstep
