import Mathlib
import Superstep.Algorithm.PageRank
import Superstep.Proofs.Exact
import Superstep.Proofs.Graph.Soundness
import Superstep.Proofs.Hook
import Superstep.Proofs.Run.Rounds

/-!
# PageRank accumulates the power iteration

The power iteration recomputes all ranks from all ranks. It is linear, so a round changes the ranks
by what the round before changed, damped and sent along the relationships. The program keeps these
changes only: the rank of a vertex is the sum of the changes that reached it, and a change that the
tolerance swallows is missing from then on. Along the relationships of a vertex no more than its
damped change leaves, so the changes of all vertices together shrink by the damping in every
superstep.

## Key results

- `PageRank.power_succ`: a round of the power iteration adds the next changes
- `PageRank.sum_inflow_le`: how much is passed on altogether
- `PageRank.Ranking.next`: what one superstep makes of ranks and changes
- `page_rank`: what ranks are after each superstep, and when a run converges
-/

namespace Superstep

namespace PageRank

/-! ## The power iteration -/

section Power

variable {α : Type} {d t : ℚ} {g : Graph α} {s : Nat} {x y : Nat → ℚ}

/-- What goes along each relationship of a vertex. -/
def share (d : ℚ) (g : Graph α) (v : Nat) (x : ℚ) : ℚ := d * x / (g.row v).length

/-- What comes in over all relationships that lead to a vertex. -/
def inflow (d : ℚ) (g : Graph α) (x : Nat → ℚ) (b : Nat) : ℚ :=
  ∑ a ∈ Finset.range g.nodeCount, (g.row a).count b * share d g a (x a)

/-- The rank that a vertex has of its own. -/
def base (d : ℚ) (g : Graph α) : ℚ := (1 - d) / g.nodeCount

/-- The ranks after `s` rounds of the power iteration. -/
def power (d : ℚ) (g : Graph α) : Nat → Nat → ℚ
  | 0, _ => base d g
  | s + 1, b => base d g + inflow d g (power d g s) b

/-- By how much each rank is changed in round `s`. -/
def change (d : ℚ) (g : Graph α) : Nat → Nat → ℚ
  | 0, _ => base d g
  | s + 1, b => inflow d g (change d g s) b

/-- A greater change has greater shares. -/
theorem share_mono (hd : 0 ≤ d) (v : Nat) : Monotone (share d g v) := fun _ _ h =>
  div_le_div_of_nonneg_right (mul_le_mul_of_nonneg_left h hd) (Nat.cast_nonneg _)

/-- The share of two changes is the sum of their shares. -/
theorem share_add (v : Nat) (x y : ℚ) : share d g v (x + y) = share d g v x + share d g v y := by
  rw [share, share, share, mul_add, add_div]

/-- Nothing is shared of no change. -/
theorem share_zero (v : Nat) : share d g v 0 = 0 := by
  rw [share, mul_zero, zero_div]

/-- What comes in depends on the vertices of the graph only. -/
theorem inflow_congr (h : ∀ a, a < g.nodeCount → x a = y a) (b : Nat) :
    inflow d g x b = inflow d g y b :=
  Finset.sum_congr rfl fun a ha => by rw [h a (Finset.mem_range.mp ha)]

/-- Where every vertex has more to pass on, more comes in. -/
theorem inflow_mono (hd : 0 ≤ d) (h : ∀ a, a < g.nodeCount → x a ≤ y a) (b : Nat) :
    inflow d g x b ≤ inflow d g y b :=
  Finset.sum_le_sum fun a ha =>
    mul_le_mul_of_nonneg_left (share_mono hd a (h a (Finset.mem_range.mp ha))) (Nat.cast_nonneg _)

/-- What comes in is linear in what is passed on. -/
theorem inflow_add (x y : Nat → ℚ) (b : Nat) :
    inflow d g (fun a => x a + y a) b = inflow d g x b + inflow d g y b := by
  rw [inflow, inflow, inflow, ← Finset.sum_add_distrib]
  exact Finset.sum_congr rfl fun a _ => by rw [share_add, mul_add]

/-- Where nothing is passed on, nothing comes in. -/
theorem inflow_zero (b : Nat) : inflow d g (fun _ => 0) b = 0 :=
  Finset.sum_eq_zero fun a _ => by rw [share_zero, mul_zero]

/-- Where no change is negative, no negative amount comes in. -/
theorem inflow_nonneg (hd : 0 ≤ d) (h : ∀ a, a < g.nodeCount → 0 ≤ x a) (b : Nat) :
    0 ≤ inflow d g x b :=
  (inflow_zero b).symm.trans_le (inflow_mono hd h b)

/-- A round of the power iteration adds the next changes. -/
theorem power_succ (s v : Nat) : power d g (s + 1) v = power d g s v + change d g (s + 1) v := by
  -- on the rounds, since a round is linear in the ranks that it starts from
  induction s generalizing v with
  | zero => rfl
  | succ s ih =>
    calc power d g (s + 1 + 1) v
        = base d g + inflow d g (fun a => power d g s a + change d g (s + 1) a) v := by
          rw [power, inflow_congr (fun a _ => ih a)]
      _ = power d g (s + 1) v + change d g (s + 1 + 1) v := by
          rw [inflow_add, ← add_assoc]
          rfl

/-- All that a vertex passes on is its damped change, or nothing if it has no relationships. -/
theorem sum_share_le (hgraph : g.IsSound) {a : Nat} (ha : a < g.nodeCount) (hd : 0 ≤ d) {x : ℚ}
    (hx : 0 ≤ x) :
    ∑ b ∈ Finset.range g.nodeCount, ((g.row a).count b : ℚ) * share d g a x ≤ d * x := by
  -- every relationship of `a` leads to one of the vertices
  have hcount : ∑ b ∈ Finset.range g.nodeCount, (g.row a).count b = (g.row a).length := by
    have hcard := Multiset.sum_count_eq_card (m := (g.row a : Multiset Nat)) fun b hb =>
      Finset.mem_range.mpr (hgraph.inside a ha b (Multiset.mem_coe.mp hb))
    simpa only [Multiset.coe_count, Multiset.coe_card] using hcard
  rw [← Finset.sum_mul, ← Nat.cast_sum, hcount, share]
  rcases Nat.eq_zero_or_pos (g.row a).length with hzero | hpos
  · -- a vertex without relationships shares nothing
    rw [hzero, Nat.cast_zero, zero_mul]
    exact mul_nonneg hd hx
  · exact (mul_div_cancel₀ _ (Nat.cast_ne_zero.mpr hpos.ne')).le

/-- How much is passed on altogether. -/
theorem sum_inflow_le (hgraph : g.IsSound) (hd : 0 ≤ d) (h : ∀ a, a < g.nodeCount → 0 ≤ x a) :
    ∑ b ∈ Finset.range g.nodeCount, inflow d g x b
      ≤ d * ∑ a ∈ Finset.range g.nodeCount, x a := by
  rw [Finset.mul_sum]
  simp only [inflow]
  -- summed by the vertex that passes on, not by the one that receives
  rw [Finset.sum_comm]
  exact Finset.sum_le_sum fun a ha =>
    sum_share_le hgraph (Finset.mem_range.mp ha) hd (h a (Finset.mem_range.mp ha))

end Power

/-! ## Ranks and changes -/

section Ranking

variable {α : Type} {d t : ℚ} {g : Graph α} {s : Nat} {due total : Nat → ℚ}

/-- In superstep `s` every vertex adds `due` to its rank, which makes it `total`. -/
structure Ranking (d t : ℚ) (g : Graph α) (s : Nat) (due total : Nat → ℚ) : Prop where
  nonneg : ∀ v, v < g.nodeCount → 0 ≤ due v
  le_change : ∀ v, v < g.nodeCount → due v ≤ change d g s v
  base_le : ∀ v, v < g.nodeCount → base d g ≤ total v
  le_power : ∀ v, v < g.nodeCount → total v ≤ power d g s v
  /-- Without tolerance nothing is missing. -/
  exact : t ≤ 0 → ∀ v, v < g.nodeCount → due v = change d g s v ∧ total v = power d g s v
  sum_due : ∑ v ∈ Finset.range g.nodeCount, due v ≤ (1 - d) * d ^ s
  sum_total : ∑ v ∈ Finset.range g.nodeCount, total v ≤ 1 - d ^ (s + 1)

namespace Ranking

/-- In superstep 0 every vertex has the rank of its own. -/
theorem first (hcount : 0 < g.nodeCount) (hd : d ≤ 1) :
    Ranking d t g 0 (fun _ => base d g) (fun _ => base d g) := by
  have hpos : (0 : ℚ) < g.nodeCount := Nat.cast_pos.mpr hcount
  have hsum : ∑ v ∈ Finset.range g.nodeCount, base d g = 1 - d := by
    rw [Finset.sum_const, Finset.card_range, nsmul_eq_mul, base, mul_div_cancel₀ _ hpos.ne']
  exact {
    nonneg := fun _ _ => div_nonneg (sub_nonneg.mpr hd) hpos.le
    le_change := fun _ _ => le_rfl
    base_le := fun _ _ => le_rfl
    le_power := fun _ _ => le_rfl
    exact := fun _ _ _ => ⟨rfl, rfl⟩
    sum_due := by rw [hsum, pow_zero, mul_one]
    sum_total := by rw [hsum, zero_add, pow_one] }

/-- What one superstep makes of ranks and changes. Vertices pass their change on, or nothing if
the tolerance swallows it. -/
theorem next (h : Ranking d t g s due total) (hgraph : g.IsSound) (hd : 0 ≤ d) {passed : Nat → ℚ}
    (hpassed : ∀ a, a < g.nodeCount → passed a = due a ∨ (passed a = 0 ∧ due a ≤ max t 0)) :
    Ranking d t g (s + 1) (inflow d g passed) (fun v => total v + inflow d g passed v) := by
  -- what is passed on lies between zero and the change
  have hnonneg (a : Nat) (ha : a < g.nodeCount) : 0 ≤ passed a := by
    rcases hpassed a ha with heq | ⟨heq, -⟩
    · exact heq ▸ h.nonneg a ha
    · exact heq.ge
  have hle (a : Nat) (ha : a < g.nodeCount) : passed a ≤ due a := by
    rcases hpassed a ha with heq | ⟨heq, -⟩
    · exact heq.le
    · exact heq ▸ h.nonneg a ha
  have hchange (v : Nat) : inflow d g passed v ≤ change d g (s + 1) v :=
    inflow_mono hd (fun a ha => (hle a ha).trans (h.le_change a ha)) v
  -- the sum of all changes shrinks by the damping
  have hsum : ∑ v ∈ Finset.range g.nodeCount, inflow d g passed v ≤ (1 - d) * d ^ (s + 1) :=
    calc ∑ v ∈ Finset.range g.nodeCount, inflow d g passed v
        ≤ d * ∑ a ∈ Finset.range g.nodeCount, passed a := sum_inflow_le hgraph hd hnonneg
      _ ≤ d * ∑ a ∈ Finset.range g.nodeCount, due a := mul_le_mul_of_nonneg_left
          (Finset.sum_le_sum fun a ha => hle a (Finset.mem_range.mp ha)) hd
      _ ≤ d * ((1 - d) * d ^ s) := mul_le_mul_of_nonneg_left h.sum_due hd
      _ = (1 - d) * d ^ (s + 1) := by ring
  -- with these bounds each part of the relation is one step of arithmetic
  exact {
    nonneg := fun v _ => inflow_nonneg hd hnonneg v
    le_change := fun v _ => hchange v
    base_le := fun v hv =>
      (h.base_le v hv).trans (le_add_of_nonneg_right (inflow_nonneg hd hnonneg v))
    le_power := fun v hv => by
      rw [power_succ]
      exact add_le_add (h.le_power v hv) (hchange v)
    exact := fun ht v hv => by
      -- without tolerance nothing is swallowed
      have hall (a : Nat) (ha : a < g.nodeCount) : passed a = change d g s a := by
        rw [← (h.exact ht a ha).1]
        rcases hpassed a ha with heq | ⟨heq, hsmall⟩
        · exact heq
        · rw [max_eq_right ht] at hsmall
          rw [heq, le_antisymm hsmall (h.nonneg a ha)]
      have hinflow : inflow d g passed v = change d g (s + 1) v := inflow_congr hall v
      exact ⟨hinflow, by rw [power_succ, (h.exact ht v hv).2, hinflow]⟩
    sum_due := hsum
    sum_total := by
      rw [Finset.sum_add_distrib]
      calc _ ≤ (1 - d ^ (s + 1)) + (1 - d) * d ^ (s + 1) := add_le_add h.sum_total hsum
        _ = 1 - d ^ (s + 1 + 1) := by ring }

/-- The change of one vertex is bounded like that of all. -/
theorem due_le (h : Ranking d t g s due total) {v : Nat} (hv : v < g.nodeCount) :
    due v ≤ (1 - d) * d ^ s :=
  (Finset.single_le_sum (f := due) (fun a ha => h.nonneg a (Finset.mem_range.mp ha))
    (Finset.mem_range.mpr hv)).trans h.sum_due

end Ranking

end Ranking

/-! ## Calls -/

section Calls

variable {α : Type}

/-- The slot of the result. -/
def slot : Element α := .plain rankKey .double .visible

/-- The result is found under its key. -/
theorem key_slot : (slot : Element α).key = rankKey := rfl

/-- What a vertex passes on of a change. -/
def offers [Scalar α] (p : PageRank α) (g : Graph α) (v : Nat) (delta : α) : List (Nat × α) :=
  if Scalar.less p.tolerance delta && 0 < (g.row v).length then
    (g.row v).map fun t => (t, p.damping * delta / Scalar.ofNat (g.row v).length)
  else []

/-- The program without its machinery. -/
def reaction [Scalar α] (p : PageRank α) (g : Graph α) : Reaction α α where
  slot := slot
  reducer := .sum
  cell := .double
  first _ := (Scalar.one - p.damping) / Scalar.ofNat g.nodeCount
  react s v x inbox :=
    if s = 0 then (x, offers p g v x)
    else (x + Scalar.sum inbox, offers p g v (Scalar.sum inbox))

variable [Scalar α] {p : PageRank α}

/-- In superstep 0 a vertex passes its own rank on. -/
theorem react_first {g : Graph α} {s v : Nat} {x : α} {inbox : List α} (hs : s = 0) :
    (p.reaction g).react s v x inbox = (x, offers p g v x) :=
  if_pos hs

/-- Later a vertex adds what it received and passes that on. -/
theorem react_later {g : Graph α} {s v : Nat} {x : α} {inbox : List α} (hs : s ≠ 0) :
    (p.reaction g).react s v x inbox
      = (x + Scalar.sum inbox, offers p g v (Scalar.sum inbox)) :=
  if_neg hs

/-- What a vertex does with a change of its rank. -/
theorem pass_apply {view : VertexView α} {s : Scratch α} (hgraph : view.graph.IsSound)
    (hv : view.vertex < view.graph.nodeCount) (delta : α) :
    (do
      let degree ← HookM.degree
      if Scalar.less p.tolerance delta && 0 < degree then
        HookM.sendToNeighbors (p.damping * delta / Scalar.ofNat degree)
      HookM.voteToHalt : HookM .compute α Unit) view s
    = .ok () ⟨s.row, .voteToHalt :: ((offers p view.graph view.vertex delta).map
        fun m => .send m.1 m.2).reverse ++ s.effects⟩ := by
  simp only [HookM.bind_apply, HookM.degree_apply (hgraph.degree _ hv), HookM.ite_apply,
    HookM.voteToHalt_apply, offers]
  split
  · rw [HookM.sendToNeighbors_apply (hgraph.targets _ hv), List.map_map]
    rfl
  · rfl

/-- What a vertex does in a superstep. -/
theorem reply_compute {view : VertexView α} (hgraph : view.graph.IsSound)
    (hv : view.vertex < view.graph.nodeCount) {x : α}
    (hrow : view.row = ⟨⟨[slot]⟩, #[.double x]⟩) :
    p.compute.reply view
      = (p.reaction view.graph).answer ((p.reaction view.graph).react view.superstep view.vertex x
          view.inbox) := by
  -- superstep 0 reads no messages, the later ones add them up
  by_cases hs : view.superstep = 0
  · rw [react_first hs]
    refine Reaction.reply_of_ok ?_
    rw [compute, HookM.bind_apply, hrow, HookM.double_single key_slot]
    dsimp only
    rw [HookM.bind_apply, HookM.isInitialSuperstep_apply]
    dsimp only
    rw [if_pos (beq_iff_eq.mpr hs), HookM.bind_apply, HookM.pure_apply]
    -- both kinds of superstep end by passing a change on
    refine (pass_apply (p := p) (s := ⟨⟨⟨[slot]⟩, #[.double x]⟩, []⟩) hgraph hv x).trans ?_
    rw [List.append_nil]
    rfl
  · rw [react_later hs]
    refine Reaction.reply_of_ok ?_
    rw [compute, HookM.bind_apply, hrow, HookM.double_single key_slot]
    dsimp only
    rw [HookM.bind_apply, HookM.isInitialSuperstep_apply]
    dsimp only
    rw [if_neg (by rwa [beq_iff_eq]), HookM.bind_apply, HookM.inbox_apply]
    dsimp only
    rw [HookM.bind_apply, HookM.setDouble_single key_slot]
    dsimp only
    rw [HookM.bind_apply, HookM.pure_apply]
    refine (pass_apply (p := p) (s := ⟨⟨⟨[slot]⟩, #[.double (x + Scalar.sum view.inbox)]⟩, []⟩)
      hgraph hv (Scalar.sum view.inbox)).trans ?_
    rw [List.append_nil]
    rfl

/-- Shares go along relationships, so to vertices of the graph. -/
theorem inside_offers {g : Graph α} (hgraph : g.IsSound) {v : Nat} (hv : v < g.nodeCount)
    {delta : α} : ∀ m ∈ offers p g v delta, m.1 < g.nodeCount := by
  rw [offers]
  split
  · intro m hm
    obtain ⟨t, ht, rfl⟩ := List.mem_map.mp hm
    exact hgraph.inside v hv t ht
  · exact List.forall_mem_nil _

/-- A call of the program is a reaction. -/
theorem runs {job : Job α} (hprogram : job.program = p.program) (hgraph : job.graph.IsSound) :
    (p.reaction job.graph).Runs job where
  schema := by
    rw [hprogram]
    rfl
  reducer := by
    rw [hprogram]
    rfl
  master := by
    rw [hprogram]
    rfl
  typed _ := rfl
  init v hv flag := by
    rw [hprogram, show p.program.init = (init p).reply from rfl]
    refine HookM.reply_of_ok (s := ⟨_, []⟩) ?_
    rw [init, HookM.bind_apply, HookM.nodeCount_apply]
    exact HookM.setDouble_single key_slot Scalar.zero _
  compute s v hv x inbox flag := by
    rw [hprogram]
    exact reply_compute hgraph hv rfl
  inside s v hv x inbox m hm := by
    rw [reaction] at hm
    dsimp only at hm
    split at hm
    · exact inside_offers hgraph hv m hm
    · exact inside_offers hgraph hv m hm

end Calls

/-! ## Exact ranks -/

section Exact

open Reaction

variable {d t : ℚ} {g : Graph Exact} {s v : Nat} {st st' : State Exact Exact}

/-- PageRank over exact numbers. -/
abbrev exactly (d t : ℚ) : PageRank Exact := ⟨.finite d, .finite t⟩

/-- What a vertex passes on of a change is the share of each relationship. -/
theorem offers_finite (d t x : ℚ) (g : Graph Exact) (v : Nat) :
    offers (exactly d t) g v (.finite x)
      = if t < x then (g.row v).map fun w => (w, .finite (share d g v x)) else [] := by
  have hless : Scalar.less (exactly d t).tolerance (.finite x) = decide (t < x) := rfl
  rw [offers, hless]
  -- a change within the tolerance is swallowed
  by_cases hpass : t < x
  · rw [decide_eq_true hpass, Bool.true_and, if_pos hpass]
    split
    · -- there are relationships
      rfl
    · rename_i hnone
      rw [decide_eq_true_eq, Nat.not_lt, Nat.le_zero] at hnone
      rw [List.eq_nil_of_length_eq_zero hnone, List.map_nil]
  · rw [decide_eq_false hpass, Bool.false_and, if_neg hpass]
    rfl

/-- The turn of a vertex that changes reached. -/
theorem turn_of_mail (hs : s ≠ 0) {x : ℚ} {changes : List ℚ} (hvalue : st.value v = .finite x)
    (hmail : st.mail v = changes.map .finite) (hsome : changes ≠ []) :
    ((exactly d t).reaction g).turn s v st = (.finite (x + changes.sum), if t < changes.sum then
      (g.row v).map fun w => (w, .finite (share d g v changes.sum)) else []) := by
  -- the reducer adds the changes up before the vertex reads them
  have hcollected : Messenger.collected (some ((exactly d t).reaction g).reducer) (st.mail v)
      = [.finite changes.sum] := by
    rw [hmail, Messenger.collected, if_neg (by simpa using hsome)]
    exact congrArg (fun x => [x]) (Exact.fold_sum changes)
  have hsum : Scalar.sum [Exact.finite changes.sum] = .finite changes.sum :=
    congrArg Exact.finite (zero_add _)
  rw [turn, if_neg (by simp [hmail, hsome]), hcollected, hvalue, react_later hs, hsum,
    offers_finite]
  rfl

/-- A vertex that is called and whose change the tolerance does not swallow passes it on. -/
noncomputable def passed (t : ℚ) (s : Nat) (st : State Exact Exact) (due : Nat → ℚ) (v : Nat) : ℚ :=
  open Classical in if (s = 0 ∨ st.mail v ≠ []) ∧ t < due v then due v else 0

/-- In superstep `s` vertices add `due` to their ranks and pass it on. -/
structure Adds (d t : ℚ) (g : Graph Exact) (s : Nat) (st : State Exact Exact)
    (due total : Nat → ℚ) : Prop where
  ranking : Ranking d t g s due total
  asleep : s ≠ 0 → ∀ v, v < g.nodeCount → st.mail v = [] → due v = 0
  turn : ∀ v, v < g.nodeCount → ((exactly d t).reaction g).turn s v st = (.finite (total v),
    open Classical in if (s = 0 ∨ st.mail v ≠ []) ∧ t < due v then
      (g.row v).map fun w => (w, .finite (share d g v (due v))) else [])

/-- A target that occurs several times in a row gets as many shares. -/
theorem mailFor_map_const (row : List Nat) (w : Nat) (x : ℚ) :
    mailFor w (row.map fun u => (u, Exact.finite x))
      = (List.replicate (row.count w) x).map .finite := by
  induction row with
  | nil => rfl
  | cons u row ih =>
    rw [List.map_cons, mailFor, List.filterMap_cons, ← mailFor, ih, List.count_cons]
    by_cases h : u = w <;> simp [h, List.replicate_succ]

/-- What arrives at a vertex is what comes in over its relationships. -/
theorem exists_mail {due total : Nat → ℚ} (h : Adds d t g s st due total)
    (hround : ((exactly d t).reaction g).Round g.nodeCount s st st') (w : Nat) :
    ∃ changes : List ℚ, st'.mail w = changes.map .finite ∧
      changes.sum = inflow d g (passed t s st due) w := by
  classical
  obtain ⟨vs, hperm, hmail⟩ := hround.mail
  -- the changes that arrive, in the order in which the senders were visited
  refine ⟨vs.flatMap fun v => if (s = 0 ∨ st.mail v ≠ []) ∧ t < due v then
    List.replicate ((g.row v).count w) (share d g v (due v)) else [], ?_, ?_⟩
  · rw [hmail, List.map_flatMap]
    refine List.flatMap_congr fun v hv => ?_
    rw [h.turn v (List.mem_range.mp (hperm.mem_iff.mp hv))]
    dsimp only
    split
    · exact mailFor_map_const _ _ _
    · rfl
  · -- the shares of one vertex for `w`, one for each relationship
    have hsum (v : Nat) : (if (s = 0 ∨ st.mail v ≠ []) ∧ t < due v then
        List.replicate ((g.row v).count w) (share d g v (due v)) else []).sum
        = (g.row v).count w * share d g v (passed t s st due v) := by
      rw [passed]
      split
      · rw [List.sum_replicate, nsmul_eq_mul]
      · rw [share_zero, mul_zero, List.sum_nil]
    calc (vs.flatMap fun v => if (s = 0 ∨ st.mail v ≠ []) ∧ t < due v then
          List.replicate ((g.row v).count w) (share d g v (due v)) else []).sum
        = (vs.map fun v => (g.row v).count w * share d g v (passed t s st due v)).sum := by
          rw [List.flatMap_def, List.sum_flatten, List.map_map]
          exact congrArg List.sum (List.map_congr_left fun v _ => hsum v)
      _ = ((List.range g.nodeCount).map fun v =>
            (g.row v).count w * share d g v (passed t s st due v)).sum := (hperm.map _).sum_eq
      _ = inflow d g (passed t s st due) w := (Multiset.sum_coe _).symm

/-- In every superstep of a run ranks and changes are related. -/
theorem exists_adds (hgraph : g.IsSound) (hcount : 0 < g.nodeCount) (hd₀ : 0 ≤ d) (hd₁ : d ≤ 1)
    (hreached : ((exactly d t).reaction g).Reached g.nodeCount s st) :
    ∃ due total, Adds d t g s st due total := by
  classical
  -- a round makes the changes of the next superstep from those of this one
  induction hreached with
  | first =>
    refine ⟨fun _ => base d g, fun _ => base d g, .first hcount hd₁, fun h => absurd rfl h,
      fun v _ => ?_⟩
    rw [turn, if_neg (by simp), Messenger.collected_nil]
    refine Prod.ext rfl ?_
    change offers (exactly d t) g v (.finite (base d g)) = _
    rw [offers_finite]
    simp
  | @next s st st' _ hround ih =>
    obtain ⟨due, total, h⟩ := ih
    -- a vertex keeps its change back if it sleeps or if the change is small
    have hpassed (a : Nat) (ha : a < g.nodeCount) : passed t s st due a = due a ∨
        (passed t s st due a = 0 ∧ due a ≤ max t 0) := by
      by_cases hpass : (s = 0 ∨ st.mail a ≠ []) ∧ t < due a
      · exact .inl (if_pos hpass)
      · refine .inr ⟨if_neg hpass, ?_⟩
        rcases not_and_or.mp hpass with hasleep | hsmall
        · obtain ⟨hs, hmail⟩ := not_or.mp hasleep
          exact (h.asleep hs a ha (Classical.not_not.mp hmail)).trans_le (le_max_right t 0)
        · exact (not_lt.mp hsmall).trans (le_max_left t 0)
    refine ⟨_, _, h.ranking.next hgraph hd₀ hpassed, fun _ v _ hmail => ?_, fun v hv => ?_⟩
    · obtain ⟨changes, hchanges, hsum⟩ := exists_mail h hround v
      rw [hchanges, List.map_eq_nil_iff] at hmail
      rw [← hsum, hmail, List.sum_nil]
    · obtain ⟨changes, hchanges, hsum⟩ := exists_mail h hround v
      have hvalue : st'.value v = .finite (total v) := by rw [hround.value v hv, h.turn v hv]
      rw [← hsum]
      -- a vertex that nothing reached sleeps, and its change is zero
      by_cases hnone : changes = []
      · have hmail : st'.mail v = [] := by rw [hchanges, hnone, List.map_nil]
        rw [turn, if_pos ⟨s.succ_ne_zero, hmail⟩, hvalue, hnone, List.sum_nil, add_zero,
          if_neg (by simp [hmail])]
      · rw [turn_of_mail s.succ_ne_zero hvalue hchanges hnone]
        simp [hchanges, hnone]

/-- Ranks after superstep `s` do not exceed those of the power iteration, and are the same without
tolerance. -/
structure AreRanks (d t : ℚ) (g : Graph Exact) (s : Nat) (rank : Nat → ℚ) : Prop where
  base_le : ∀ v, v < g.nodeCount → base d g ≤ rank v
  le_power : ∀ v, v < g.nodeCount → rank v ≤ power d g s v
  eq_power : t ≤ 0 → ∀ v, v < g.nodeCount → rank v = power d g s v
  sum_le : ∑ v ∈ Finset.range g.nodeCount, rank v ≤ 1

/-- The states after superstep `s` hold ranks. -/
theorem exists_ranks (hgraph : g.IsSound) (hcount : 0 < g.nodeCount) (hd₀ : 0 ≤ d) (hd₁ : d ≤ 1)
    (hreached : ((exactly d t).reaction g).Reached g.nodeCount (s + 1) st) :
    ∃ rank, AreRanks d t g s rank ∧ ∀ v, v < g.nodeCount → st.value v = .finite (rank v) := by
  obtain - | ⟨hbefore, hround⟩ := hreached
  obtain ⟨due, total, h⟩ := exists_adds hgraph hcount hd₀ hd₁ hbefore
  refine ⟨total, ⟨h.ranking.base_le, h.ranking.le_power, fun ht v hv => (h.ranking.exact ht v hv).2,
    h.ranking.sum_total.trans (sub_le_self 1 (pow_nonneg hd₀ _))⟩, fun v hv => ?_⟩
  rw [hround.value v hv, h.turn v hv]

/-- Nothing is passed on once all changes together are within the tolerance. -/
theorem turn_of_small (hgraph : g.IsSound) (hcount : 0 < g.nodeCount) (hd₀ : 0 ≤ d) (hd₁ : d ≤ 1)
    (hreached : ((exactly d t).reaction g).Reached g.nodeCount s st)
    (hsmall : (1 - d) * d ^ s ≤ t) (hv : v < g.nodeCount) :
    (((exactly d t).reaction g).turn s v st).2 = [] := by
  obtain ⟨due, total, h⟩ := exists_adds hgraph hcount hd₀ hd₁ hreached
  rw [h.turn v hv]
  -- no change exceeds the sum of all
  exact if_neg fun hpass => hpass.2.not_ge ((h.ranking.due_le hv).trans hsmall)

end Exact

end PageRank

open PageRank Workspace in
/-- PageRank with exact numbers, for every damping from zero to below one, every tolerance, every
sound graph with a vertex, and every computer and schedule. After superstep `s` the ranks lie
between the rank that a vertex has of its own and the power iteration after `s` rounds, which they
are equal to if the tolerance is not positive, and their sum is at most one. In a superstep `s` in
which `(1 - d) * d ^ s` is within the tolerance no vertex sends anything. So if nobody stops the
run, it converges no later than in such a superstep that the cap allows. -/
theorem page_rank {d t : ℚ} (hd₀ : 0 ≤ d) (hd₁ : d < 1) {graph : Graph Exact} {config : Config}
    {flag : Flag} {r : Run Exact}
    (hcreate : Run.create graph config (exactly d t).program flag = .ok r) (hgraph : graph.IsSound)
    (hcount : 0 < graph.nodeCount) (schedule : Schedule) :
    (∀ s control ws, Computes r.job schedule (r.opening ⟨[slot]⟩) s (.ok control) ws →
      ∃ rank, AreRanks d t graph s rank ∧
        ∀ v, v < graph.nodeCount → ws.values.double rankKey v = .ok (.finite (rank v))) ∧
    (∀ result, (r.execute schedule).1 = .ok result → ∃ rank, AreRanks d t graph
        (if result.didConverge then result.ranIterations else config.maxIterations - 1) rank ∧
      ∀ v, v < graph.nodeCount → result.values.double rankKey v = .ok (.finite (rank v))) ∧
    (∀ c ∈ (r.execute schedule).2.journal.calls .compute, (1 - d) * d ^ c.superstep ≤ t →
      ∀ target value, .send target value ∉ c.reply.effects) ∧
    ∀ k, k < config.maxIterations → (1 - d) * d ^ k ≤ t →
      (r.execute schedule).2.flag.raised = false →
      ∃ result, (r.execute schedule).1 = .ok result ∧ result.didConverge = true ∧
        result.ranIterations ≤ k := by
  obtain ⟨hg, hprogram, -⟩ := Run.job_of_create hcreate
  subst hg
  have hR : ((exactly d t).reaction r.job.graph).Runs r.job := runs hprogram hgraph
  refine ⟨fun s control ws hcomputes => ?_, fun result hresult => ?_,
    fun c hc hsmall target value hsend => ?_, fun k hcap hsmall hflag => ?_⟩
  · -- the ranks after a superstep
    obtain ⟨-, st, hreached, hshows⟩ := hR.computes hcomputes
    obtain ⟨rank, hranks, hvalue⟩ := exists_ranks hgraph hcount hd₀ hd₁.le hreached
    refine ⟨rank, hranks, fun v hv => NodeValues.double_of_row_single
      (hshows.nodeCount ▸ hv) key_slot ((hshows.rows v hv).trans ?_)⟩
    rw [hvalue v hv]
    rfl
  · -- the ranks in the result
    obtain ⟨st, hreached, -, hnodes, hrows⟩ := hR.of_result hcreate hresult
    obtain ⟨rank, hranks, hvalue⟩ := exists_ranks hgraph hcount hd₀ hd₁.le hreached
    refine ⟨rank, hranks, fun v hv => NodeValues.double_of_row_single
      (hnodes ▸ hv) key_slot ((hrows v hv).trans ?_)⟩
    rw [hvalue v hv]
    rfl
  · -- a vertex with a small change sends nothing
    obtain ⟨hv, st, hreached, hreply⟩ := hR.isTurn_of_mem_calls hcreate hc
    rw [hreply, Reaction.answer, turn_of_small hgraph hcount hd₀ hd₁.le hreached hsmall hv] at hsend
    cases List.mem_singleton.mp hsend
  · -- and where nobody sends, the run converges
    refine hR.converges hcreate hcap (fun st hreached v _ => ?_) hflag
    obtain - | ⟨hbefore, hround⟩ := hreached
    obtain ⟨vs, hperm, hmail⟩ := hround.mail
    rw [hmail, List.flatMap_eq_nil_iff]
    intro a ha
    have hlt := List.mem_range.mp (hperm.mem_iff.mp ha)
    rw [turn_of_small hgraph hcount hd₀ hd₁.le hbefore hsmall hlt]
    rfl

namespace Sink

/-- Two relationships lead from vertex 0 to vertex 1 and one to vertex 2, where rank stays. Vertex 1
keeps half of its rank and passes the other half back. -/
def edges : List (Relationship Exact) :=
  [⟨0, 1, .finite 1⟩, ⟨0, 1, .finite 1⟩, ⟨0, 2, .finite 1⟩, ⟨1, 1, .finite 1⟩, ⟨1, 0, .finite 1⟩]

def graph : Graph Exact := (CsrGraph.sortRows 3 edges false none).toGraph

/-- PageRank with a damping of one half. -/
def run : Run Exact :=
  ⟨⟨graph, (PageRank.exactly (1 / 2) (1 / 8)).program, ⟨6, 2, false, false, 1⟩,
    .partitioned 2 Nat.two_pos⟩, .fresh, .created, #[.created (.partitioned 2 Nat.two_pos) 3]⟩

/-- The rows of the sink name its vertices only. -/
theorem isSound_graph : graph.IsSound := CsrGraph.isSound_sortRows (by decide)

/-- A run over the sink is created. -/
theorem create_run : Run.create graph ⟨6, 2, false, false, 1⟩
    (PageRank.exactly (1 / 2) (1 / 8)).program .fresh = .ok run := rfl

end Sink

open PageRank in
/-- With a tolerance of one eighth the run over the sink converges in superstep 2 at the latest. -/
theorem page_rank_sink :
    ∃ result, (Sink.run.execute Relay.takingTurns).1 = .ok result ∧ result.didConverge = true ∧
      result.ranIterations ≤ 2 ∧
      (List.range 3).map (fun v => (result.values.double rankKey v).toOption)
        = [some (.finite (5 / 24)), some (.finite (19 / 72)), some (.finite (7 / 36))] ∧
      ∃ rank, AreRanks (1 / 2) (1 / 8) Sink.graph result.ranIterations rank ∧
        ∀ v, v < 3 → result.values.double rankKey v = .ok (.finite (rank v)) := by
  obtain ⟨-, hresults, -, hconverges⟩ := page_rank (by norm_num) (by norm_num) Sink.create_run
    Sink.isSound_graph (by decide +kernel) Relay.takingTurns
  have hflag : (Sink.run.execute Relay.takingTurns).2.flag.raised = false := by decide +kernel
  obtain ⟨result, hresult, hconverged, hran⟩ := hconverges 2 (by decide) (by norm_num) hflag
  have hvalues : ((Sink.run.execute Relay.takingTurns).1.map fun result => (List.range 3).map
      fun v => (result.values.double rankKey v).toOption) = .ok [some (.finite (5 / 24)),
        some (.finite (19 / 72)), some (.finite (7 / 36))] := by decide +kernel
  rw [hresult] at hvalues
  have hranks := hresults result hresult
  rw [if_pos hconverged] at hranks
  exact ⟨result, hresult, hconverged, hran, Except.ok.inj hvalues, hranks⟩

end Superstep
