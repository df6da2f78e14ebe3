import Mathlib
import Superstep.Word
import Superstep.Proofs.Run.Course

/-!
# Every vertex has one worker

Cutting the vertices into nearly equal parts and halving them until the pieces are small are two
ways to tile them: the ranges follow each other without gap or overlap (`Tiles`), and whatever the
schedule, the workers of a phase keep to such a tiling.

`Bisects` says what halving comes to without a word on how it is carried out. A derivation is the
tree of the halvings, so that there is one means that halving comes to an end.

## Key results

- `Partition.isEven_split`: parts that are as equal as they can be, with sums that fit a word
- `isBisection_pieces`: halving ends, and no piece is small unless there was nothing to halve
- `Workspace.tiles_runPhase`: the workers of a phase tile the vertices
- `workers_tile_vertices`: all of it
-/

namespace Superstep

/-! ## Ranges that follow each other -/

/-- The ranges follow each other without gap or overlap from `start` to `stop`. -/
inductive Tiles : (start : Nat) → List VertexRange → (stop : Nat) → Prop
  | nil {n} : Tiles n [] n
  | cons {start r rs stop} (hstart : r.start = start) (hle : r.start ≤ r.stop)
      (rest : Tiles r.stop rs stop) : Tiles start (r :: rs) stop

namespace Tiles

variable {a b c v : Nat} {r : VertexRange} {rs ss : List VertexRange}

/-- A tiling does not go back. -/
theorem le (h : Tiles a rs b) : a ≤ b := by
  induction h with
  | nil => exact le_rfl
  | cons hstart hle _ ih => exact hstart ▸ hle.trans ih

/-- A range by itself is a tiling. -/
theorem single (h : r.start ≤ r.stop) : Tiles r.start [r] r.stop := .cons rfl h .nil

/-- A tiling may be followed by one that starts where it stops. -/
theorem append (h : Tiles a rs b) (h' : Tiles b ss c) : Tiles a (rs ++ ss) c := by
  induction h with
  | nil => exact h'
  | cons hstart hle _ ih => exact .cons hstart hle (ih h')

/-- A tiling may be cut between any two of its ranges. -/
theorem of_append (h : Tiles a (rs ++ ss) c) : ∃ b, Tiles a rs b ∧ Tiles b ss c := by
  induction rs generalizing a with
  | nil => exact ⟨a, .nil, h⟩
  | cons r rs ih =>
    cases h with
    | cons hstart hle rest =>
      obtain ⟨b, hrs, hss⟩ := ih rest
      exact ⟨b, .cons hstart hle hrs, hss⟩

/-- A range of a tiling may be tiled in turn. -/
theorem replace {new : List VertexRange} (h : Tiles a (rs ++ r :: ss) c)
    (hnew : r.start ≤ r.stop → Tiles r.start new r.stop) : Tiles a (rs ++ new ++ ss) c := by
  -- what is left of the range and right of it stays
  obtain ⟨b, hleft, hright⟩ := h.of_append
  cases hright with
  | cons hstart hle rest => exact (hleft.append (hstart ▸ hnew hle)).append rest

/-- Empty ranges may be left out. -/
theorem filter {p : VertexRange → Bool} (h : Tiles a rs b)
    (hempty : ∀ r ∈ rs, p r = false → r.stop ≤ r.start) : Tiles a (rs.filter p) b := by
  induction h with
  | nil => exact .nil
  | @cons start r rs stop hstart hle _ ih =>
    have hrest := ih fun s hs => hempty s (List.mem_cons_of_mem r hs)
    rw [List.filter_cons]
    split
    · exact .cons hstart hle hrest
    · rename_i hp
      have hstop := hempty r List.mem_cons_self (Bool.eq_false_iff.mpr hp)
      -- a range that is left out stops where it starts
      rwa [← hstart, Nat.le_antisymm hle hstop]

/-- A vertex between the ends belongs to one range, and any other vertex to none. -/
theorem countP_mem (h : Tiles a rs b) (v : Nat) :
    rs.countP (v ∈ ·.toList) = if a ≤ v ∧ v < b then 1 else 0 := by
  induction h with
  | nil =>
    rw [List.countP_nil, if_neg]
    omega
  | @cons start r rs stop hstart hle rest ih =>
    -- the vertex is in the first range or past it
    have hmem : v ∈ r.toList ↔ r.start ≤ v ∧ v < r.stop := by
      rw [VertexRange.toList, VertexRange.length, List.mem_range'_1, Nat.add_sub_cancel' hle]
    have hstop := rest.le
    rw [List.countP_cons, ih]
    simp only [decide_eq_true_eq, hmem]
    split_ifs <;> omega

end Tiles

/-! ## Nearly equal parts -/

namespace Partition

/-- Parts of any sizes that are laid out follow each other. -/
theorem tiles_layOut (start : Nat) (sizes : List Nat) :
    Tiles start ((layOut start sizes).map (·.range)) (start + sizes.sum) := by
  induction sizes generalizing start with
  | nil => exact .nil
  | cons size sizes ih =>
    rw [List.sum_cons, ← Nat.add_assoc]
    exact .cons rfl (Nat.le_add_right start size) (ih (start + size))

/-- Parts are laid out in the sizes that were asked for. -/
theorem map_count_layOut (start : Nat) (sizes : List Nat) :
    (layOut start sizes).map (·.count) = sizes := by
  induction sizes generalizing start with
  | nil => rfl
  | cons size sizes ih => rw [layOut, List.map_cons, ih]

/-- A part is empty if it stops where it starts. -/
theorem not_isEmpty_eq (p : Partition) :
    (!p.isEmpty) = decide (p.range.start < p.range.stop) := by
  change (!(p.count == 0)) = decide (p.start < p.start + p.count)
  rw [Bool.eq_iff_iff]
  simp [Nat.pos_iff_ne_zero]

/-- A share is as large as any later one, or larger by one. -/
theorem share_near (n parts : Nat) {i j : Nat} (h : i < j) :
    share n parts j ≤ share n parts i ∧ share n parts i ≤ share n parts j + 1 := by
  rw [share, share]
  split_ifs <;> omega

/-- The sum of two numbers, if it fits a machine word. -/
def addInWord? (a b : Nat) : Option Nat := if a + b < wordLimit then some (a + b) else none

/-- The `remaining` last parts, of which part `i` is the first, where every sum has to fit a machine
word: the size of a part, which is `base` or one more for the first `extras` parts, and the vertex
after the part. -/
def layOutInWords? (base extras : Nat) : (i remaining start : Nat) → Option (List Partition)
  | _, 0, _ => some []
  | i, remaining + 1, start => do
    let size ← addInWord? base (if i < extras then 1 else 0)
    let next ← addInWord? start size
    let later ← layOutInWords? base extras (i + 1) remaining next
    return ⟨start, size⟩ :: later

/-- While the last vertex fits a word, so does every sum on the way there. -/
theorem layOutInWords?_eq (n parts : Nat) (i remaining start : Nat)
    (h : start + ((List.range' i remaining).map (share n parts)).sum < wordLimit) :
    layOutInWords? (n / parts) (n % parts) i remaining start
      = some (layOut start ((List.range' i remaining).map (share n parts))) := by
  induction remaining generalizing i start with
  | zero => rfl
  | succ remaining ih =>
    rw [List.range'_succ, List.map_cons, List.sum_cons] at h
    -- the size of the part, the vertex after it, and then the parts to come
    have hsize : addInWord? (n / parts) (if i < n % parts then 1 else 0)
        = some (share n parts i) := by
      rw [addInWord?, ← share, if_pos (by omega)]
    have hnext : addInWord? start (share n parts i) = some (start + share n parts i) := by
      rw [addInWord?, if_pos (by omega)]
    have hlater := ih (i + 1) (start + share n parts i) (by omega)
    rw [layOutInWords?, hsize, Option.bind_eq_bind, Option.bind_some, hnext, Option.bind_eq_bind,
      Option.bind_some, hlater, List.range'_succ, List.map_cons, layOut]
    rfl

/-- The parts follow each other, and none is larger than one before it, or smaller by more than
one. -/
structure IsEven (n parts : Nat) (ps : List Partition) : Prop where
  length_eq : ps.length = parts
  tiles : Tiles 0 (ps.map (·.range)) n
  near : ps.Pairwise fun p q => q.count ≤ p.count ∧ p.count ≤ q.count + 1

/-- The shares of the parts make a tiling that is as even as it can be. -/
theorem isEven_layOut {n parts : Nat} (h : 0 < parts) :
    IsEven n parts (layOut 0 ((List.range parts).map (share n parts))) where
  length_eq := by
    rw [← List.length_map (·.count), map_count_layOut, List.length_map, List.length_range]
  tiles := by
    have htiles := tiles_layOut 0 ((List.range parts).map (share n parts))
    rwa [sum_map_share_all n h, Nat.zero_add] at htiles
  near := by
    -- shares never grow from one part to the next
    have hsizes : ((List.range parts).map (share n parts)).Pairwise
        fun p q => q ≤ p ∧ p ≤ q + 1 :=
      List.pairwise_map.mpr (List.pairwise_lt_range.imp fun hij => share_near n parts hij)
    rw [← map_count_layOut 0 ((List.range parts).map (share n parts))] at hsizes
    exact List.pairwise_map.mp hsizes

/-- Cutting the vertices into parts succeeds, and if their number fits a word, so does every sum. -/
theorem isEven_split {n parts : Nat} (h : 0 < parts) :
    ∃ ps, split n parts = .ok ps ∧ IsEven n parts ps ∧
      (n < wordLimit → layOutInWords? (n / parts) (n % parts) 0 parts 0 = some ps) := by
  refine ⟨_, if_neg h.ne', isEven_layOut h, fun hn => ?_⟩
  rw [List.range_eq_range']
  refine layOutInWords?_eq n parts 0 parts 0 ?_
  rwa [← List.range_eq_range', sum_map_share_all n h, Nat.zero_add]

end Partition

/-! ## Halving -/

/-- The pieces, left to right, that are left of a range when a range of more than `threshold`
vertices is replaced by its halves, and these in turn. -/
inductive Bisects (threshold : Nat) : VertexRange → List VertexRange → Prop
  | whole {r} (h : r.length ≤ threshold) : Bisects threshold r [r]
  | halved {r left right} (h : threshold < r.length) (hleft : Bisects threshold r.halves.1 left)
      (hright : Bisects threshold r.halves.2 right) : Bisects threshold r (left ++ right)

namespace Bisects

variable {threshold : Nat} {r : VertexRange} {pieces : List VertexRange}

/-- Halving ends in one way. -/
theorem unique {others : List VertexRange} (h : Bisects threshold r pieces)
    (h' : Bisects threshold r others) : pieces = others := by
  -- the length of a range decides whether it is halved
  induction h generalizing others with
  | whole hle =>
    cases h' with
    | whole => rfl
    | halved hlt => exact absurd hlt hle.not_gt
  | halved hlt _ _ ihleft ihright =>
    cases h' with
    | whole hle => exact absurd hlt hle.not_gt
    | halved _ hleft hright => rw [ihleft hleft, ihright hright]

/-- The pieces follow each other. -/
theorem tiles (h : Bisects threshold r pieces) (hr : r.start ≤ r.stop) :
    Tiles r.start pieces r.stop := by
  induction h with
  | whole => exact .single hr
  | @halved r _ _ hlt _ _ ihleft ihright =>
    -- both halves end where the other one begins, in the middle
    have hmiddle : r.start + r.length / 2 ≤ r.stop := by
      rw [VertexRange.length]
      omega
    exact (ihleft (Nat.le_add_right _ _)).append (ihright hmiddle)

/-- No piece is larger than the threshold. -/
theorem length_le (h : Bisects threshold r pieces) : ∀ p ∈ pieces, p.length ≤ threshold := by
  induction h with
  | whole hle => exact List.forall_mem_singleton.mpr hle
  | halved _ _ _ ihleft ihright => exact List.forall_mem_append.mpr ⟨ihleft, ihright⟩

/-- No piece is smaller than half the threshold, unless it is all there was. -/
theorem min_le_length (h : Bisects threshold r pieces) :
    ∀ p ∈ pieces, min r.length ((threshold + 1) / 2) ≤ p.length := by
  induction h with
  | whole => exact List.forall_mem_singleton.mpr (min_le_left _ _)
  | @halved r _ _ hlt _ _ ihleft ihright =>
    -- the smaller half of more than `threshold` vertices has at least half of them
    have hhalves : (threshold + 1) / 2 ≤ r.halves.1.length ∧
        (threshold + 1) / 2 ≤ r.halves.2.length := by
      simp only [VertexRange.length, VertexRange.halves] at hlt ⊢
      omega
    refine List.forall_mem_append.mpr ⟨fun p hp => ?_, fun p hp => ?_⟩
    · -- a piece of the left half
      have hleft := ihleft p hp
      rw [min_eq_right hhalves.1] at hleft
      exact (min_le_right _ _).trans hleft
    · -- a piece of the right half
      have hright := ihright p hp
      rw [min_eq_right hhalves.2] at hright
      exact (min_le_right _ _).trans hright

end Bisects

/-- The pieces of a fork-join computer are those that halving comes to. -/
theorem bisects_pieces {threshold : Nat} (positive : 0 < threshold) (r : VertexRange) :
    Bisects threshold r ((Computer.forkJoin threshold positive).pieces r) := by
  -- the halves are shorter, and have pieces by induction
  induction hlength : r.length using Nat.strong_induction_on generalizing r with
  | h length ih =>
    by_cases hlt : threshold < r.length
    · have hhalves : (Computer.forkJoin threshold positive).halves? r = some r.halves := if_pos hlt
      obtain ⟨hleft, hright⟩ := Computer.halves?_shorter hhalves
      rw [Computer.pieces_of_some hhalves]
      exact .halved hlt (ih _ (hlength ▸ hleft) _ rfl) (ih _ (hlength ▸ hright) _ rfl)
    · have hnone : (Computer.forkJoin threshold positive).halves? r = none := if_neg hlt
      rw [Computer.pieces_of_none hnone]
      exact .whole (Nat.le_of_not_lt hlt)

/-- Halving the vertices ends in one way, with these pieces. -/
structure IsBisection (n threshold : Nat) (pieces : List VertexRange) : Prop where
  bisects : Bisects threshold ⟨0, n⟩ pieces
  unique : ∀ others, Bisects threshold ⟨0, n⟩ others → others = pieces
  tiles : Tiles 0 pieces n
  length_le : ∀ p ∈ pieces, p.length ≤ threshold
  half_le_length : threshold < n → ∀ p ∈ pieces, (threshold + 1) / 2 ≤ p.length

/-- The pieces of a fork-join computer are what halving the vertices ends with. -/
theorem isBisection_pieces {threshold : Nat} (positive : 0 < threshold) (n : Nat) :
    IsBisection n threshold ((Computer.forkJoin threshold positive).pieces ⟨0, n⟩) := by
  have hbisects := bisects_pieces positive ⟨0, n⟩
  refine ⟨hbisects, fun _ hothers => hothers.unique hbisects, hbisects.tiles (Nat.zero_le n),
    hbisects.length_le, fun hlt p hp => ?_⟩
  -- more vertices than the threshold are more than half of it
  have hhalf : (threshold + 1) / 2 ≤ n := by omega
  exact (min_eq_right hhalf).symm.le.trans (hbisects.min_le_length p hp)

/-! ## The workers of a phase -/

/-- How a computer cuts the vertices below `n` for the workers of a phase that none of them fails
in. -/
inductive Computer.Cuts : Computer → (n : Nat) → List VertexRange → Prop
  | halving {threshold positive n pieces} (h : Bisects threshold ⟨0, n⟩ pieces) :
    Cuts (.forkJoin threshold positive) n pieces
  /-- Empty parts have no worker. -/
  | splitting {parts positive n ps} (h : Partition.split n parts = .ok ps) :
    Cuts (.partitioned parts positive) n ((ps.filter (!·.isEmpty)).map (·.range))

/-- What a computer hands out is cut as its kind says. -/
theorem Computer.cuts_handedOut (c : Computer) (n : Nat) : c.Cuts n (c.handedOut n) := by
  cases c with
  | forkJoin threshold positive =>
    rw [handedOut, ranges, List.flatMap_singleton]
    exact .halving (bisects_pieces positive ⟨0, n⟩)
  | partitioned parts positive =>
    -- parts are not cut any further
    have hpieces : (partitioned parts positive).pieces = fun r => [r] :=
      funext fun _ => pieces_of_none rfl
    rw [handedOut, hpieces, List.flatMap_singleton', ranges]
    exact .splitting (if_neg positive.ne')

/-- The ranges that a phase starts with follow each other. -/
theorem Computer.tiles_ranges (c : Computer) (n : Nat) : Tiles 0 (c.ranges n) n := by
  cases c with
  | forkJoin threshold positive => exact .cons rfl (Nat.zero_le n) .nil
  | partitioned parts positive =>
    have htiles := (Partition.isEven_layOut positive (n := n)).tiles
    -- empty parts are left out
    have hfilter := htiles.filter (p := fun r => r.start < r.stop) fun r _ hr => by simpa using hr
    rw [List.filter_map] at hfilter
    rw [ranges, List.filter_congr fun p _ => Partition.not_isEmpty_eq p]
    exact hfilter

namespace Workspace

variable {α : Type} {job : Job α} {phase : Phase} {s : Nat}

/-- The tasks of a phase follow each other, and cutting them on comes to what the workers are handed
when none of them fails. Until one has failed, no worker is done with a range that there is a
halving left for. -/
structure Tiled (job : Job α) (tasks : List Task) (ws : Workspace α) : Prop where
  laid : Laid job tasks ws
  tiles : Tiles 0 (tasks.map Task.range) job.graph.nodeCount
  pieces : tasks.flatMap (job.computer.pieces ·.range)
    = job.computer.handedOut job.graph.nodeCount
  whole : ws.aborted = false → ∀ r result, .finished r result ∈ tasks →
    job.computer.halves? r = none

/-- A step replaces a range by ranges that tile it. -/
theorem tiles_taskStep {task : Task} {moved : List Task} {ws ws' : Workspace α}
    (hstep : TaskStep job phase s task ws moved ws') (hle : task.range.start ≤ task.range.stop) :
    Tiles task.range.start (moved.map Task.range) task.range.stop := by
  cases hstep with
  | @halve r a b _ h =>
    have hhalves := Computer.halves_of_halves? (Computer.halves?_of_split? h)
    change r.start ≤ r.stop at hle
    -- the halves meet in the middle
    obtain ⟨rfl, rfl⟩ := Prod.mk.inj hhalves
    refine .cons rfl (Nat.le_add_right _ _) (.cons rfl ?_ .nil)
    change r.start + r.length / 2 ≤ r.stop
    rw [VertexRange.length]
    omega
  | _ => exact .single hle

/-- A worker that is done was handed a range that no halving is left for, unless one has failed. -/
theorem whole_taskStep {task : Task} {moved : List Task} {ws ws' : Workspace α}
    (hstep : TaskStep job phase s task ws moved ws')
    (hsound : task.IsSound job.computer ws.aborted)
    (hwhole : ∀ r result, task = .finished r result → job.computer.halves? r = none)
    (hopen : ws'.aborted = false) :
    ∀ r result, .finished r result ∈ moved → job.computer.halves? r = none := by
  intro r result hmem
  cases hstep with
  | complete h =>
    cases List.mem_singleton.mp hmem
    exact hsound.resolve_right (Bool.eq_false_iff.mp hopen)
  -- whoever gives up or fails leaves the abort mark set
  | giveUp h haborted => exact absurd haborted (Bool.eq_false_iff.mp hopen)
  | observe | fail => cases hopen
  | violate h hvisit =>
    cases List.mem_singleton.mp hmem
    exact hsound
  | rest => exact hwhole r result (List.mem_singleton.mp hmem).symm
  | _ => simp at hmem

/-- The tasks still follow each other after a move. -/
theorem Tiled.move {x y : List Task × Workspace α} {v? : Option Nat} (h : Tiled job x.1 x.2)
    (hmove : MoveStep job phase s x v? y) : Tiled job y.1 y.2 := by
  have hlaid := h.laid.move hmove
  cases hmove with
  | @work left task right moved ws ws' hstep =>
    have hsound := h.laid.sound task (by simp)
    refine ⟨hlaid, ?_, ?_, fun hopen r result hmem => ?_⟩
    · have htiles := h.tiles
      simp only [List.map_append, List.map_cons] at htiles ⊢
      exact htiles.replace (tiles_taskStep hstep)
    · have hpieces := h.pieces
      simp only [List.flatMap_append, List.flatMap_cons, ← (laid_taskStep hstep hsound).2.1,
        List.append_assoc] at hpieces ⊢
      exact hpieces
    · -- nobody had failed before either
      have hbefore : ws.aborted = false := by
        rw [← Bool.not_eq_true] at hopen ⊢
        exact fun haborted => hopen ((taskStep_mono hstep).1 haborted)
      have hold := h.whole hbefore
      -- a worker that is done was done before, or is by this step
      rcases List.mem_append.mp hmem with hmem | hright
      · rcases List.mem_append.mp hmem with hleft | hmoved
        · exact hold r result (by simp [hleft])
        · exact whole_taskStep hstep hsound (fun r result htask => hold r result (by simp [htask]))
            hopen r result hmoved
      · exact hold r result (by simp [hright])
  | raise => exact ⟨hlaid, h.tiles, h.pieces, h.whole⟩
  | idle => exact h

/-- The tasks of a phase follow each other before its first move. -/
theorem tiled_start (ws : Workspace α) :
    Tiled job (phaseStart job ws).1 (phaseStart job ws).2 where
  laid := laid_start job ws
  tiles := by
    rw [phaseStart, List.map_map]
    exact (List.map_id _).symm ▸ job.computer.tiles_ranges job.graph.nodeCount
  pieces := by
    rw [phaseStart, List.flatMap_map]
    rfl
  whole _ r result hmem := by
    obtain ⟨r', -, heq⟩ := List.mem_map.mp hmem
    cases heq

/-- The tasks follow each other after any moves. -/
theorem tiled_moves (ws : Workspace α) (moves : List Move) :
    Tiled job (moves.foldl (move job phase s) (phaseStart job ws)).1
      (moves.foldl (move job phase s) (phaseStart job ws)).2 :=
  moves_keep (P := fun x => Tiled job x.1 x.2) (fun _ _ _ h hmove => h.move hmove)
    (tiled_start ws) moves

/-- If no worker has failed, all halvings were made. -/
theorem Tiled.map_fst {results : Results} {ws : Workspace α}
    (h : Tiled job (finishedTasks results) ws) (hopen : ws.aborted = false) :
    results.map Prod.fst = job.computer.handedOut job.graph.nodeCount := by
  rw [← h.pieces, finishedTasks, List.flatMap_map, ← List.flatMap_pure_eq_map]
  refine List.flatMap_congr fun x hx => ?_
  rw [Task.range, Computer.pieces_of_none
    (h.whole hopen x.1 x.2 (mem_finishedTasks.mpr hx))]
  rfl

/-- Under every schedule, the workers of a phase have ranges that tile the vertices. If all of them
end well, these are the ranges that the computer cuts the vertices into. -/
theorem tiles_runPhase (job : Job α) (schedule : Schedule) (phase : Phase) (s : Nat)
    (ws : Workspace α) :
    ∃ (moves : List Move) (results : Results), schedule phase s <+: moves ∧
      moves.foldl (move job phase s) (phaseStart job ws)
          = (finishedTasks results, (ws.runPhase job schedule phase s).2) ∧
        Tiles 0 (results.map Prod.fst) job.graph.nodeCount ∧
        ((∀ x ∈ results, x.2 = .completed) →
          job.computer.Cuts job.graph.nodeCount (results.map Prod.fst)) := by
  obtain ⟨moves, results, hscheduled, hmoves, -⟩ := @runPhase_moves _ job phase s schedule ws
  have htiled := @tiled_moves _ job phase s ws moves
  obtain ⟨dropped, hinv⟩ := @phaseInv_moves _ job phase s ws moves
  rw [hmoves] at htiled hinv
  have htiles := htiled.tiles
  -- the ranges of the finished tasks are those of the results
  rw [finishedTasks, List.map_map] at htiles
  refine ⟨moves, results, hscheduled, hmoves, htiles, fun hcompleted => ?_⟩
  have hopen : (ws.runPhase job schedule phase s).2.aborted = false := by
    rw [← Bool.not_eq_true]
    intro haborted
    -- the mark would have been set by a worker that did not end well
    obtain ⟨task, htask, hfailed⟩ := hinv.aborted haborted
    obtain ⟨x, hx, rfl⟩ := List.mem_map.mp htask
    rw [Task.hasFailed, hcompleted x hx] at hfailed
    cases hfailed
  rw [htiled.map_fst hopen]
  exact job.computer.cuts_handedOut job.graph.nodeCount

end Workspace

/-- The vertices below `n` are tiled by `parts` parts that are as equal as they can be, and by the
pieces of at least half of `threshold` and at most `threshold` vertices that halving ends with; and
under every schedule every vertex of a phase belongs to one worker, whose range is one of these
parts or pieces if no worker fails. -/
theorem workers_tile_vertices {n parts threshold : Nat} (hparts : 0 < parts)
    (hthreshold : 0 < threshold) {α : Type} (job : Job α) (schedule : Schedule) (phase : Phase)
    (s : Nat) (ws : Workspace α) :
    (∃ ps, Partition.split n parts = .ok ps ∧ Partition.IsEven n parts ps ∧
      (n < wordLimit →
        Partition.layOutInWords? (n / parts) (n % parts) 0 parts 0 = some ps)) ∧
    (∃ pieces, IsBisection n threshold pieces) ∧
    ∃ (moves : List Move) (results : Workspace.Results), schedule phase s <+: moves ∧
      moves.foldl (Workspace.move job phase s) (Workspace.phaseStart job ws)
        = (Workspace.finishedTasks results, (ws.runPhase job schedule phase s).2) ∧
      Tiles 0 (results.map Prod.fst) job.graph.nodeCount ∧
      (∀ v, v < job.graph.nodeCount →
        (results.map Prod.fst).countP (v ∈ ·.toList) = 1) ∧
      ((∀ x ∈ results, x.2 = .completed) →
        job.computer.Cuts job.graph.nodeCount (results.map Prod.fst)) := by
  refine ⟨Partition.isEven_split hparts, ⟨_, isBisection_pieces hthreshold n⟩, ?_⟩
  obtain ⟨moves, results, hscheduled, hmoves, htiles, hcuts⟩ :=
    Workspace.tiles_runPhase job schedule phase s ws
  refine ⟨moves, results, hscheduled, hmoves, htiles, fun v hv => ?_, hcuts⟩
  rw [htiles.countP_mem v, if_pos ⟨Nat.zero_le v, hv⟩]

/-- Ten vertices in four parts, or in pieces of at most three; and a phase of two vertices that are
halved, of which the second is done first. -/
theorem workers_tile_vertices_ten :
    (∃ ps, Partition.split 10 4 = .ok ps ∧ ps = [⟨0, 3⟩, ⟨3, 3⟩, ⟨6, 2⟩, ⟨8, 2⟩] ∧
      Partition.IsEven 10 4 ps) ∧
    IsBisection 10 3 [⟨0, 2⟩, ⟨2, 5⟩, ⟨5, 7⟩, ⟨7, 10⟩] ∧
    ∃ results : Workspace.Results, Tiles 0 (results.map Prod.fst) 2 ∧
      ((∀ x ∈ results, x.2 = .completed) →
        (Computer.forkJoin 1 (by decide)).Cuts 2 (results.map Prod.fst)) := by
  -- the tree of the halvings
  have hbisects : Bisects 3 ⟨0, 10⟩ ([⟨0, 2⟩] ++ [⟨2, 5⟩] ++ ([⟨5, 7⟩] ++ [⟨7, 10⟩])) :=
    .halved (by decide) (.halved (by decide) (.whole (by decide)) (.whole (by decide)))
      (.halved (by decide) (.whole (by decide)) (.whole (by decide)))
  obtain ⟨⟨ps, hsplit, heven, -⟩, ⟨pieces, hpieces⟩, -, results, -, -, htiles, -, hcuts⟩ :=
    workers_tile_vertices (n := 10) (show 0 < 4 by decide) (show 0 < 3 by decide)
      (Relay.run none false true).job Relay.secondFirst .compute 0
      ((Relay.run none false true).opening .empty)
  have hps : ps = [⟨0, 3⟩, ⟨3, 3⟩, ⟨6, 2⟩, ⟨8, 2⟩] := by
    cases hsplit
    rfl
  refine ⟨⟨ps, hsplit, hps, heven⟩, ?_, results, htiles, hcuts⟩
  rw [← hpieces.unique _ hbisects] at hpieces
  exact hpieces

end Superstep
