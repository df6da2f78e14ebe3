import Mathlib
import Superstep.Proofs.Exact
import Superstep.Proofs.Message.Session

/-!
# What messengers promise

A double-buffered messenger hands a vertex what was sent to it in the superstep before, all of it or
combined into one value, and an asynchronous messenger what was sent to it since it received last.
Both hold at every moment of any history, however much of what is handed over is read.

## Key results

- `Session.Relays.run`, `Relays.prepare`: a double-buffered messenger keeps supersteps apart
- `Session.Keeps.step`: an asynchronous messenger loses and repeats nothing
- `synchronous_contract`, `asynchronous_conservation`, `reducing_contract`: what follows for the
  three kinds of messengers
-/

namespace Superstep

variable {α : Type}

/-! ## Histories -/

/-- What an errand sends to a vertex. -/
def Errand.valueFor? (v : Nat) : Errand α → Option α
  | .send t x => if t = v then some x else none
  | .receive _ | .beginReading _ | .readOn _ _ => none

namespace Session

/-- What errands send to a vertex, in this order. -/
def sentTo (v : Nat) (errands : List (Errand α)) : List α := errands.filterMap (·.valueFor? v)

/-- One more errand adds at most one value, at the end. -/
theorem sentTo_concat (v : Nat) (errands : List (Errand α)) (e : Errand α) :
    sentTo v (errands ++ [e]) = sentTo v errands ++ (e.valueFor? v).toList := by
  rw [sentTo, List.filterMap_append]
  cases h : e.valueFor? v <;> simp [sentTo, h]

/-- Supersteps with their errands, counted from the first one. -/
def consecutive (rounds : List (List (Errand α))) : List (SessionStep α) :=
  rounds.zipIdx.flatMap fun (errands, superstep) => .prepare superstep :: errands.map .errand

/-- One more superstep is prepared after the earlier ones. -/
theorem consecutive_concat (rounds : List (List (Errand α))) (errands : List (Errand α)) :
    consecutive (rounds ++ [errands])
      = consecutive rounds ++ .prepare rounds.length :: errands.map .errand := by
  simp [consecutive, List.zipIdx_append]

/-- A new messenger after these errands of the superstep that follows the earlier ones. -/
def during (n : Nat) (r : Option (Reducer α)) (isAsynchronous : Bool)
    (earlier : List (List (Errand α))) (errands : List (Errand α)) : Session α :=
  (create n r isAsynchronous).after (consecutive (earlier ++ [errands]))

/-- What was sent to a vertex in the last of the earlier supersteps. -/
def sentBefore (v : Nat) (earlier : List (List (Errand α))) : List α :=
  sentTo v (earlier.getLast?.getD [])

/-- A vertex is handed these messages, as often as it asks for them. -/
def Offers (s : Session α) (v : Nat) (inbox : List α) : Prop :=
  s.messenger.Hands v inbox s.messenger

/-- What one step leaves waiting for a vertex: what is handed to it, however much of that is read,
waits no more. -/
def leaveWaiting (v : Nat) (waiting : List α) : SessionStep α → List α
  | .errand (.send t x) => if t = v then waiting ++ [x] else waiting
  | .errand (.receive w) | .errand (.beginReading w) => if w = v then [] else waiting
  | .errand (.readOn _ _) | .prepare _ => waiting

/-- What was sent to a vertex since it was handed its messages. -/
def waitingFor (v : Nat) (history : List (SessionStep α)) : List α :=
  history.foldl (leaveWaiting v) []

/-- What waits changes with the last step only. -/
theorem waitingFor_concat (v : Nat) (history : List (SessionStep α)) (a : SessionStep α) :
    waitingFor v (history ++ [a]) = leaveWaiting v (waitingFor v history) a :=
  List.foldl_concat ..

/-! ## Two buffers -/

variable {n : Nat} {r : Option (Reducer α)} {superstep : Nat} {before sent : List (Errand α)}
  {s : Session α} {m : Messenger α}

/-- A double-buffered messenger in a superstep: what was sent before is there to be received, what
is sent now waits. -/
structure Relays (n : Nat) (r : Option (Reducer α)) (superstep : Nat)
    (before sent : List (Errand α)) (s : Session α) : Prop where
  serves : s.Serves n
  doubleBuffered : s.messenger.isDoubleBuffered = true
  reducer : s.messenger.reducer? = r
  faces : s.messenger.Faces superstep
  inbox : ∀ v < n, s.messenger.inbox v = Messenger.collected r (sentTo v before)
  outbox : ∀ v < n, s.messenger.outbox v = Messenger.collected r (sentTo v sent)
  contents : ∀ entry ∈ s.contents, entry.2 = Messenger.collected r (sentTo entry.1 before)

/-- Only a message changes a double-buffered messenger. -/
theorem leave_cases (hd : m.isDoubleBuffered = true) (e : Errand α) :
    (leave n m e = m ∧ ∀ v < n, e.valueFor? v = none) ∨
      ∃ t x, t < n ∧ e = .send t x ∧ leave n m e = m.post t x := by
  cases e with
  | send t x =>
    by_cases ht : t < n
    · exact .inr ⟨t, x, ht, rfl, if_pos ht⟩
    · refine .inl ⟨if_neg ht, fun v hv => if_neg ?_⟩
      -- a refused target is none of the vertices
      rintro rfl
      exact ht hv
  | receive v | beginReading v =>
    refine .inl ⟨?_, fun _ _ => rfl⟩
    rw [leave, Messenger.afterReceiving_of_isDoubleBuffered hd, ite_self]
  | readOn place count => exact .inl ⟨rfl, fun _ _ => rfl⟩

/-- What is sent in a superstep waits, and everything else in it changes nothing. -/
theorem Relays.run (h : s.Relays n r superstep before sent) (e : Errand α) :
    (s.run e).Relays n r superstep before (sent ++ [e]) := by
  have hmessenger := messenger_run h.serves.valid e
  obtain ⟨hserves, hcontents⟩ := h.serves.run e
  -- a new reading begins with what is there to be received
  have hreadings : ∀ entry ∈ (s.run e).contents,
      entry.2 = Messenger.collected r (sentTo entry.1 before) := by
    rw [hcontents]
    refine List.forall_mem_append.mpr ⟨h.contents, fun entry hentry => ?_⟩
    obtain ⟨hlt, hinbox⟩ := snd_of_mem_opened hentry
    exact hinbox.trans (h.inbox _ hlt)
  -- the messenger stays the same, or a message joins those that wait
  rcases leave_cases h.doubleBuffered e with ⟨hleave, hnone⟩ | ⟨t, x, ht, rfl, hleave⟩ <;>
    rw [hleave] at hmessenger
  · refine ⟨hserves, ?_, ?_, ?_, ?_, fun v hv => ?_, hreadings⟩ <;> rw [hmessenger]
    · exact h.doubleBuffered
    · exact h.reducer
    · exact h.faces
    · exact h.inbox
    · rw [h.outbox v hv, sentTo_concat, hnone v hv, Option.toList_none, List.append_nil]
  · refine ⟨hserves, ?_, ?_, ?_, fun v hv => ?_, fun v hv => ?_, hreadings⟩ <;> rw [hmessenger]
    · rw [Messenger.isDoubleBuffered_post, h.doubleBuffered]
    · rw [Messenger.reducer?_post, h.reducer]
    · exact h.faces.post t x
    · rw [Messenger.inbox_post_of_isDoubleBuffered h.doubleBuffered, h.inbox v hv]
    · rw [Messenger.outbox_post h.serves.valid ht, h.reducer, h.outbox v hv, sentTo_concat,
        Errand.valueFor?]
      split
      · exact (Messenger.collected_concat r _ x).symm
      · rw [Option.toList_none, List.append_nil]

/-- What is sent in one errand after the other waits in this order. -/
theorem Relays.after (h : s.Relays n r superstep before sent) (errands : List (Errand α)) :
    (s.after (errands.map .errand)).Relays n r superstep before (sent ++ errands) := by
  induction errands generalizing s sent with
  | nil =>
    rw [List.append_nil]
    exact h
  | cons e errands ih =>
    have hrest := ih (h.run e)
    rwa [List.append_assoc] at hrest

/-- With the next superstep, what waited can be received, and what was there before is gone. -/
theorem relays_prepare (hserves : s.Serves n) (hd : s.messenger.isDoubleBuffered = true)
    (hreducer : s.messenger.reducer? = r) (hready : s.messenger.ReadyFor superstep)
    (houtbox : ∀ v < n, s.messenger.outbox v = Messenger.collected r (sentTo v sent)) :
    (s.prepare superstep).Relays n r superstep sent [] := by
  obtain ⟨hserves', hmessenger, hcontents⟩ := hserves.prepare superstep
  have hprepare := Messenger.inbox_prepare_of_isDoubleBuffered hserves.valid hd hready
  refine ⟨hserves', ?_, ?_, ?_, fun v hv => ?_, fun v hv => ?_, ?_⟩
  · rw [hmessenger, Messenger.isDoubleBuffered_prepare, hd]
  · rw [hmessenger, Messenger.reducer?_prepare, hreducer]
  · rw [hmessenger]
    exact Messenger.faces_prepare hserves.valid superstep
  · -- the two buffers change places
    rw [hmessenger, (hprepare v).1, houtbox v hv]
  · rw [hmessenger, (hprepare v).2]
    exact (Messenger.collected_nil _).symm
  · -- no reading goes on over the boundary
    rw [hcontents]
    exact List.forall_mem_nil _

/-- The next superstep begins with what was sent in this one. -/
theorem Relays.prepare (h : s.Relays n r superstep before sent) :
    (s.prepare (superstep + 1)).Relays n r (superstep + 1) sent [] :=
  relays_prepare h.serves h.doubleBuffered h.reducer (.of_faces h.faces) h.outbox

/-- The last superstep starts from what the earlier ones left. -/
theorem during_eq (n : Nat) (r : Option (Reducer α)) (isAsynchronous : Bool)
    (earlier : List (List (Errand α))) (errands : List (Errand α)) :
    during n r isAsynchronous earlier errands
      = (((create n r isAsynchronous).after (consecutive earlier)).prepare earlier.length).after
          (errands.map .errand) := by
  rw [during, consecutive_concat, after_append]
  rfl

/-- A double-buffered messenger is in order at every moment of its history. -/
theorem relays_during {isAsynchronous : Bool} (hd : (r.isSome || !isAsynchronous) = true)
    (earlier : List (List (Errand α))) (errands : List (Errand α)) :
    (during n r isAsynchronous earlier errands).Relays n r earlier.length
      (earlier.getLast?.getD []) errands := by
  -- every superstep begins where the one before has come to
  induction earlier using List.reverseRecOn generalizing errands with
  | nil =>
    -- both buffers of a new messenger are empty, whichever of them is written first
    have hfirst : ((create n r isAsynchronous).prepare 0).Relays n r 0 [] [] := by
      refine relays_prepare (serves_create n r isAsynchronous) ?_ ?_ ?_ fun v _ => ?_
      · exact (Messenger.isDoubleBuffered_create n r isAsynchronous).trans hd
      · exact Messenger.reducer?_create n r isAsynchronous
      · exact Messenger.readyFor_create n r isAsynchronous 0
      · exact (Messenger.outbox_create n r isAsynchronous v).trans (Messenger.collected_nil _).symm
    rw [during_eq]
    exact hfirst.after errands
  | append_singleton earlier round ih =>
    rw [during_eq, List.length_append, List.getLast?_concat]
    exact (ih round).prepare.after errands

/-! ### What is seen of it -/

/-- A vertex is handed what was sent to it before, and the messenger keeps it. -/
theorem Relays.offers (h : s.Relays n r superstep before sent) {v : Nat} (hv : v < n) :
    s.Offers v (Messenger.collected r (sentTo v before)) := by
  have hhands := Messenger.hands_inbox h.serves.valid hv
  rwa [h.inbox v hv, Messenger.afterReceiving_of_isDoubleBuffered h.doubleBuffered] at hhands

/-- At every moment of a superstep a vertex is handed what was sent in the one before. -/
theorem offers_during {isAsynchronous : Bool} (hd : (r.isSome || !isAsynchronous) = true)
    (earlier : List (List (Errand α))) (errands : List (Errand α)) {v : Nat} (hv : v < n) :
    (during n r isAsynchronous earlier errands).Offers v
      (Messenger.collected r (sentBefore v earlier)) :=
  (relays_during hd earlier errands).offers hv

/-- Whether there are messages is told by what was sent before and what was sent now. -/
theorem Relays.answers (h : s.Relays n r superstep before sent) :
    s.messenger.Answers n (sentTo · before) (sentTo · sent) := by
  -- combined or not, there is something or nothing
  have hempty (xs : List α) : (Messenger.collected r xs).isEmpty = xs.isEmpty := by
    rw [Bool.eq_iff_iff, List.isEmpty_iff, List.isEmpty_iff, Messenger.collected_eq_nil_iff]
  refine Messenger.answers_of_valid h.serves.valid (fun v hv => ?_) fun v hv => ?_
  · rw [h.inbox v hv, hempty]
  · rw [h.outbox v hv, hempty]

/-- A reading that is open delivers what was sent before. -/
theorem Relays.delivers (h : s.Relays n r superstep before sent) {reading : Reading α}
    (hreading : reading ∈ s.readings) :
    s.Delivers reading (Messenger.collected r (sentTo reading.vertex before)) := by
  have hcontents : s.messenger.contents reading
      = Messenger.collected r (sentTo reading.vertex before) :=
    h.contents _ (List.mem_map_of_mem hreading)
  rw [← hcontents]
  exact h.serves.delivers hreading

/-! ## One buffer -/

variable {history : List (SessionStep α)}

/-- An asynchronous messenger with what was sent to each vertex since it received last. -/
structure Keeps (n : Nat) (history : List (SessionStep α)) (s : Session α) : Prop where
  serves : s.Serves n
  singleBuffered : s.messenger.isDoubleBuffered = false
  reducer : s.messenger.reducer? = none
  outbox : ∀ v < n, (s.messenger.outbox v).Perm (waitingFor v history)

/-- Receiving takes away what waits for the vertex, and nothing else. -/
theorem outbox_leave_perm (h : m.Valid n) (hd : m.isDoubleBuffered = false)
    (hr : m.reducer? = none) (e : Errand α) {v : Nat} (hv : v < n) {waiting : List α}
    (hperm : (m.outbox v).Perm waiting) :
    ((leave n m e).outbox v).Perm (leaveWaiting v waiting (.errand e)) := by
  cases e with
  | send t x =>
    rw [leave, leaveWaiting]
    by_cases ht : t < n
    · rw [if_pos ht, Messenger.outbox_post h ht, hr]
      split
      · -- a message for `v` goes in front, and is counted at the end
        exact (hperm.cons x).trans (List.perm_append_singleton x waiting).symm
      · exact hperm
    · -- a message that is refused was not for a vertex
      have htv : t ≠ v := by
        rintro rfl
        exact ht hv
      rwa [if_neg ht, if_neg htv]
  | receive w | beginReading w =>
    rw [leave, leaveWaiting]
    by_cases hw : w < n
    · rw [if_pos hw, Messenger.outbox_afterReceiving hd]
      split
      · -- nothing waits for a vertex that has just received
        exact .refl _
      · exact hperm
    · have hwv : w ≠ v := by
        rintro rfl
        exact hw hv
      rwa [if_neg hw, if_neg hwv]
  | readOn place count => exact hperm

/-- No step loses or repeats a message. -/
theorem Keeps.step (h : s.Keeps n history) (a : SessionStep α) :
    (s.step a).Keeps n (history ++ [a]) := by
  cases a with
  | prepare superstep =>
    obtain ⟨hserves, hmessenger, -⟩ := h.serves.prepare superstep
    refine ⟨hserves, ?_, ?_, fun v hv => ?_⟩
    · exact (congrArg _ hmessenger).trans
        ((Messenger.isDoubleBuffered_prepare _ _).trans h.singleBuffered)
    · exact (congrArg _ hmessenger).trans ((Messenger.reducer?_prepare _ _).trans h.reducer)
    · -- every queue was turned round
      have hreverse := Messenger.outbox_prepare_of_not_isDoubleBuffered h.serves.valid
        h.singleBuffered superstep v
      rw [← hmessenger] at hreverse
      rw [waitingFor_concat]
      exact (List.Perm.of_eq hreverse).trans ((List.reverse_perm _).trans (h.outbox v hv))
  | errand e =>
    have hmessenger := messenger_run h.serves.valid e
    refine ⟨(h.serves.run e).1, ?_, ?_, fun v hv => ?_⟩
    · exact (congrArg _ hmessenger).trans ((isDoubleBuffered_leave _ e).trans h.singleBuffered)
    · exact (congrArg _ hmessenger).trans ((reducer?_leave _ e).trans h.reducer)
    · rw [waitingFor_concat, Session.step, hmessenger]
      exact outbox_leave_perm h.serves.valid h.singleBuffered h.reducer e hv (h.outbox v hv)

/-- An asynchronous messenger is in order at every moment of its history. -/
theorem keeps_after (n : Nat) (history : List (SessionStep α)) :
    ((create n none true).after history).Keeps n history := by
  induction history using List.reverseRecOn with
  | nil =>
    refine ⟨serves_create n none true, rfl, rfl, fun v _ => ?_⟩
    rw [after, List.foldl_nil, create, Messenger.outbox_create]
    exact .refl _
  | append_singleton history a ih =>
    rw [after_concat]
    exact ih.step a

/-! ### What is seen of it -/

/-- A vertex is handed what waits for it, and this is forgotten then. -/
theorem Keeps.hands (h : s.Keeps n history) {v : Nat} (hv : v < n) :
    ∃ inbox, s.messenger.Hands v inbox (s.messenger.afterReceiving v) ∧
      inbox.Perm (waitingFor v history) := by
  refine ⟨_, Messenger.hands_inbox h.serves.valid hv, ?_⟩
  rw [Messenger.inbox_eq_outbox h.singleBuffered]
  exact h.outbox v hv

/-- Whether there are messages is told by what waits, now as in the next superstep. -/
theorem Keeps.answers (h : s.Keeps n history) :
    s.messenger.Answers n (waitingFor · history) (waitingFor · history) := by
  refine Messenger.answers_of_valid h.serves.valid (fun v hv => ?_) fun v hv => ?_
  · rw [Messenger.inbox_eq_outbox h.singleBuffered, (h.outbox v hv).isEmpty_eq]
  · rw [(h.outbox v hv).isEmpty_eq]

/-- A reading delivers what waited when it began, whatever is done meanwhile. -/
theorem Keeps.delivers_begun (h : s.Keeps n history) {v : Nat} (hv : v < n)
    (later : List (Errand α)) :
    let now := s.after (.errand (.beginReading v) :: later.map .errand)
    ∃ r messages, now.readings[s.readings.length]? = some r ∧ r.vertex = v ∧
      now.Delivers r messages ∧ messages.Perm (waitingFor v history) := by
  obtain ⟨r, hr, hvertex, hdelivers⟩ := h.serves.delivers_begun hv later
  refine ⟨r, _, hr, hvertex, hdelivers, ?_⟩
  rw [Messenger.inbox_eq_outbox h.singleBuffered]
  exact h.outbox v hv

end Session

/-! ## The three contracts -/

open Session

/-- At every moment of a superstep, the synchronous messenger hands a vertex what was sent to it in
the superstep before, as often as it is asked. What is asked about messages is answered by them, and
a reading that is open delivers the same. -/
theorem synchronous_contract (n : Nat) (earlier : List (List (Errand α)))
    (errands : List (Errand α)) :
    let now := during n none false earlier errands
    (∀ v < n, ∃ inbox, now.Offers v inbox ∧ inbox.Perm (sentBefore v earlier)) ∧
    now.messenger.Answers n (sentBefore · earlier) (sentTo · errands) ∧
    ∀ reading ∈ now.readings, ∃ messages, now.Delivers reading messages ∧
      messages.Perm (sentBefore reading.vertex earlier) := by
  intro now
  have hrelays : now.Relays n none earlier.length _ errands := relays_during rfl earlier errands
  refine ⟨fun v hv => ?_, hrelays.answers, fun reading hreading => ?_⟩
  · -- a queue has the latest message in front
    exact ⟨_, offers_during rfl earlier errands hv, List.reverse_perm _⟩
  · exact ⟨_, hrelays.delivers hreading, List.reverse_perm _⟩

/-- A vertex that has begun to read its two messages can receive both of them meanwhile, also when
it was sent another one. -/
theorem synchronous_contract_of_two_messages :
    let now := during 2 none false [[.send 1 5, .send 1 7]] [.beginReading 1, .send 1 9]
    (∃ inbox, now.Offers 1 inbox ∧ inbox.Perm [5, 7]) ∧
      ∃ reading ∈ now.readings, ∃ messages, now.Delivers reading messages ∧
        messages.Perm [5, 7] := by
  intro now
  obtain ⟨hoffers, -, hreadings⟩ := synchronous_contract 2 [[.send 1 5, .send 1 7]]
    [.beginReading 1, .send 1 9]
  refine ⟨hoffers 1 (by decide), ?_⟩
  have hvertices : now.readings.map (·.vertex) = [1] := by decide +kernel
  obtain ⟨reading, hsingle, hvertex⟩ := List.map_eq_singleton_iff.mp hvertices
  have hmem : reading ∈ now.readings := by simp [hsingle]
  have hmessages := hreadings reading hmem
  rw [hvertex] at hmessages
  exact ⟨reading, hmem, hmessages⟩

/-- At every moment of any history, the asynchronous messenger hands a vertex what was sent to it
since it was handed its messages before, and has forgotten it then. What is asked about messages is
answered by them, and a reading that is open delivers what its vertex was handed when it began. -/
theorem asynchronous_conservation (n : Nat) (history : List (SessionStep α)) :
    let now := (create n none true).after history
    (∀ v < n, ∃ inbox, now.messenger.Hands v inbox (now.messenger.afterReceiving v) ∧
      inbox.Perm (waitingFor v history)) ∧
    now.messenger.Answers n (waitingFor · history) (waitingFor · history) ∧
    ∀ (before : List (SessionStep α)) (v : Nat) (later : List (Errand α)), v < n →
      history = before ++ .errand (.beginReading v) :: later.map .errand →
      ∃ reading messages,
        now.readings[((create n none true).after before).readings.length]? = some reading ∧
          reading.vertex = v ∧ now.Delivers reading messages ∧
            messages.Perm (waitingFor v before) := by
  intro now
  have hkeeps : now.Keeps n history := keeps_after n history
  refine ⟨fun v hv => hkeeps.hands hv, hkeeps.answers, fun before v later hv hhistory => ?_⟩
  -- the reading looks back at the moment when it began
  have hbegun := (keeps_after n before).delivers_begun hv later
  rwa [← after_append, ← hhistory] at hbegun

/-- A vertex has read one of two messages, which were sent in different supersteps, when a third one
arrives. -/
theorem asynchronous_conservation_of_three_messages :
    let before : List (SessionStep Nat) :=
      [.prepare 0, .errand (.send 1 5), .prepare 1, .errand (.send 1 7)]
    let later : List (Errand Nat) := [.readOn 0 1, .send 1 9]
    let now := (create 2 none true).after (before ++ .errand (.beginReading 1) :: later.map .errand)
    (∃ inbox, now.messenger.Hands 1 inbox (now.messenger.afterReceiving 1) ∧ inbox.Perm [9]) ∧
      ∃ reading messages, now.readings[0]? = some reading ∧ reading.vertex = 1 ∧
        now.Delivers reading messages ∧ messages.Perm [5, 7] := by
  intro before later now
  obtain ⟨hhands, -, hreadings⟩ := asynchronous_conservation 2
    (before ++ .errand (.beginReading 1) :: later.map .errand)
  have hplace : ((create 2 none true).after before).readings.length = 0 := by decide +kernel
  have hbegun := hreadings before 1 later (by decide) rfl
  rw [hplace] at hbegun
  exact ⟨hhands 1 (by decide), hbegun⟩

/-- At every moment of a superstep, the reducing messenger hands a vertex the one value that the
messages sent to it in the superstep before combine to, from the left in the order in which they
were sent, or nothing if there were none. Where the order does not matter to the reducer, neither
does it to the vertex. Calculated exactly, the bundled reducers deliver the sum, the least, the
greatest and the number of the messages. -/
theorem reducing_contract :
    (∀ (r : Reducer α) (n : Nat) (isAsynchronous : Bool) (earlier : List (List (Errand α)))
      (errands : List (Errand α)),
      let now := during n (some r) isAsynchronous earlier errands
      let sent v := sentBefore v earlier
      let due v := if (sent v).isEmpty then [] else [(sent v).foldl r.reduce r.identity]
      (∀ v < n, now.Offers v (due v)) ∧
      now.messenger.Answers n sent (sentTo · errands) ∧
      (∀ reading ∈ now.readings, now.Delivers reading (due reading.vertex)) ∧
      (r.IsOrderless → ∀ earlier' errands', ∀ v < n, (sentBefore v earlier').Perm (sent v) →
        (during n (some r) isAsynchronous earlier' errands').Offers v (due v))) ∧
    ∀ (n : Nat) (isAsynchronous : Bool) (earlier : List (List (Errand Exact)))
      (errands : List (Errand Exact)), ∀ v < n, sentBefore v earlier ≠ [] →
      let sent := sentBefore v earlier
      let offers r inbox := (during n (some r) isAsynchronous earlier errands).Offers v inbox
      (∀ qs : List ℚ, sent = qs.map .finite → offers .sum [.finite qs.sum]) ∧
      (∃ least ∈ sent, (∀ x ∈ sent, least.rank ≤ x.rank) ∧ offers .min [least]) ∧
      (∃ greatest ∈ sent, (∀ x ∈ sent, x.rank ≤ greatest.rank) ∧ offers .max [greatest]) ∧
      offers .count [.finite sent.length] := by
  constructor
  · intro r n isAsynchronous earlier errands now sent due
    have hrelays : now.Relays n (some r) earlier.length _ errands :=
      relays_during rfl earlier errands
    refine ⟨fun v hv => hrelays.offers hv, hrelays.answers,
      fun reading hreading => hrelays.delivers hreading, ?_⟩
    -- the combination is the same in any order
    intro horderless earlier' errands' v hv hperm
    have hother : (during n (some r) isAsynchronous earlier' errands').Offers v
        (Messenger.collected (some r) (sentBefore v earlier')) :=
      offers_during rfl earlier' errands' hv
    rw [Messenger.collected_eq_of_perm horderless hperm] at hother
    exact hother
  · intro n isAsynchronous earlier errands v hv hsent sent offers
    -- something was sent, so there is a value
    have hfold (r : Reducer Exact) : offers r [r.fold sent] := by
      have hoffers : offers r (Messenger.collected (some r) sent) :=
        offers_during rfl earlier errands hv
      rwa [Messenger.collected, if_neg (mt List.isEmpty_iff.mp hsent)] at hoffers
    obtain ⟨hmin, hleast⟩ := Exact.fold_min hsent
    obtain ⟨hmax, hgreatest⟩ := Exact.fold_max hsent
    refine ⟨fun qs hqs => ?_, ⟨_, hmin, hleast, hfold .min⟩, ⟨_, hmax, hgreatest, hfold .max⟩, ?_⟩
    · rw [← Exact.fold_sum, ← hqs]
      exact hfold .sum
    · rw [← Exact.fold_count]
      exact hfold .count

/-- Two numbers are added up, in either order, also while the sum is read. -/
theorem reducing_contract_of_two_numbers :
    let added : Reducer Nat := ⟨0, (· + ·)⟩
    let now := during 2 (some added) true [[.send 1 5, .send 1 7]] [.beginReading 1, .readOn 0 1]
    now.Offers 1 [12] ∧ (during 2 (some added) true [[.send 1 7, .send 1 5]] []).Offers 1 [12] ∧
      (∃ reading ∈ now.readings, reading.taken = [12] ∧ now.Delivers reading [12]) ∧
      (during 2 (some .sum) false [[.send 1 (.finite 5), .send 1 (.finite 7)]] []).Offers 1
        [Exact.finite 12] := by
  intro added now
  obtain ⟨hlisted, hexact⟩ := reducing_contract (α := Nat)
  obtain ⟨hoffers, -, hreadings, horder⟩ := hlisted added 2 true [[.send 1 5, .send 1 7]]
    [.beginReading 1, .readOn 0 1]
  have horderless : added.IsOrderless := fun a b c => Nat.add_right_comm c a b
  refine ⟨hoffers 1 (by decide), ?_, ?_, ?_⟩
  · exact horder horderless [[.send 1 7, .send 1 5]] [] 1 (by decide) (.swap ..)
  · have htaken : now.readings.map (fun r => (r.vertex, r.taken)) = [(1, [12])] := by
      decide +kernel
    obtain ⟨reading, hsingle, hpair⟩ := List.map_eq_singleton_iff.mp htaken
    obtain ⟨hvertex, hfirst⟩ := Prod.mk.inj hpair
    have hmem : reading ∈ now.readings := by simp [hsingle]
    have hdelivers := hreadings reading hmem
    rw [hvertex] at hdelivers
    exact ⟨reading, hmem, hfirst, hdelivers⟩
  · obtain ⟨hsum, -⟩ := hexact 2 false [[.send 1 (.finite 5), .send 1 (.finite 7)]] [] 1
      (by decide) (List.cons_ne_nil _ _)
    have htwelve := hsum [5, 7] rfl
    rwa [show ([5, 7] : List ℚ).sum = 12 by norm_num] at htwelve

end Superstep
