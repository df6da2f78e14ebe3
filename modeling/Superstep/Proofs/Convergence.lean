import Mathlib
import Superstep.Proofs.Run.Serving

/-!
# The convergence check is exact

After a superstep a run stops if every vertex has voted to halt and no message waits. The check
counts bits and asks the messenger for a shortcut: a cursor, a scan of list heads or the bits of the
vertices that received something. The next superstep would ask every vertex for itself. Both come
down to the same: each vertex's vote stands, and nothing waits for it.

## Key results

- `isQuiet_iff`, `isEmpty_frontier_prepare_iff`: what the check and the next superstep would see
- `convergence_check_exact`: the check holds exactly if the next superstep would wake nobody
-/

namespace Superstep

variable {α : Type}

namespace Workspace

variable {job : Job α} {s : Nat}

theorem isQuiet_iff {ws : Workspace α} (h : ws.Serves job) :
    ws.isQuiet = true ↔
      ∀ v, v < job.graph.nodeCount → ws.halted.contains v = true ∧ ws.messenger.outbox v = [] := by
  rw [isQuiet, Bool.and_eq_true, BitSet.isFull_iff, Bool.not_eq_true', ← Bool.not_eq_true,
    Messenger.pending_iff h.fits.messenger, h.fits.halted]
  constructor
  · rintro ⟨hfull, hnone⟩ v hv
    exact ⟨hfull v hv, Classical.not_not.mp fun hwaits => hnone ⟨v, hwaits⟩⟩
  · intro hall
    refine ⟨fun v hv => (hall v hv).1, ?_⟩
    rintro ⟨v, hwaits⟩
    by_cases hv : v < job.graph.nodeCount
    · exact hwaits (hall v hv).2
    · exact hwaits (Messenger.outbox_of_le h.fits.messenger (by omega))

theorem isEmpty_frontier_prepare_iff {ws : Workspace α} (h : ws.Serves job)
    (hready : ws.messenger.ReadyFor s) :
    (ws.prepare s).frontier.isEmpty = true ↔
      ∀ v, v < job.graph.nodeCount → ws.halted.contains v = true ∧ ws.messenger.outbox v = [] := by
  obtain ⟨hfits, -, -, hfrontier⟩ := prepare_spec h.fits s
  -- a vertex sleeps if its vote stands and it will find no messages
  have hasleep (v : Nat) (hv : v < job.graph.nodeCount) :
      (ws.prepare s).frontier.contains v = false ↔
        ws.halted.contains v = true ∧ ws.messenger.outbox v = [] := by
    have hmail := Messenger.hasMail_iff (h.fits.messenger.prepare s) v
    have hperm := Messenger.inbox_prepare_perm h.fits.messenger hready v
    rw [hfrontier v hv, Bool.or_eq_false_iff, ← Bool.not_eq_true, hmail, Bool.not_eq_false',
      Classical.not_not, and_comm]
    refine and_congr_right fun _ => ⟨fun hnil => ?_, fun hnil => ?_⟩
    · rw [hnil] at hperm
      exact List.nil_perm.mp hperm
    · rw [hnil] at hperm
      exact List.perm_nil.mp hperm
  rw [BitSet.isEmpty_iff]
  constructor
  · intro hempty v hv
    exact (hasleep v hv).mp (hempty v)
  · intro hall v
    by_cases hv : v < job.graph.nodeCount
    · exact (hasleep v hv).mpr (hall v hv)
    · exact BitSet.contains_eq_false_of_le _ (by rw [hfits.frontier]; omega)

end Workspace

/-- At the end of every superstep of every run the convergence check holds exactly if the frontier
that the next superstep would build is empty. So no superstep but the first is ever started with
nobody awake, and a run that the program does not stop stops with nobody left to wake. -/
theorem convergence_check_exact [Scalar α] (r : Run α) (schema : Schema α) (schedule : Schedule) :
    (∀ s control ws,
      Workspace.Computes r.job schedule (r.opening schema) s (.ok control) ws →
        (ws.isQuiet = true ↔ (ws.prepare (s + 1)).frontier.isEmpty = true)) ∧
    (∀ s ws, Workspace.StandsAt r.job schedule (r.opening schema) (s + 1) ws →
      (ws.opened (s + 1)).frontier.isEmpty = false) ∧
    ∀ ending, ((r.opening schema).iterate r.job schedule).1 = .ok ending →
      ending.didConverge = true → ∃ control ws,
        Workspace.Computes r.job schedule (r.opening schema) ending.ranIterations (.ok control) ws ∧
        (control = .halt ∨ (ws.prepare (ending.ranIterations + 1)).frontier.isEmpty = true) := by
  obtain ⟨hopening, hready⟩ := r.serves_opening schema
  have hexact (s : Nat) (control : Control) (ws : Workspace α)
      (h : Workspace.Computes r.job schedule (r.opening schema) s (.ok control) ws) :
      ws.isQuiet = true ↔ (ws.prepare (s + 1)).frontier.isEmpty = true := by
    obtain ⟨hserves, hnext⟩ := h.serves hopening hready
    rw [Workspace.isQuiet_iff hserves, Workspace.isEmpty_frontier_prepare_iff hserves hnext]
  refine ⟨hexact, ?_, ?_⟩
  · intro s ws h
    obtain ⟨hserves, hnext⟩ := h.serves hopening hready
    cases h with
    | @next _ before _ hbefore hs hflag hsuperstep hquiet =>
      -- the run went on because the check did not hold
      let entered := ws.transition (.running (s + 1))
      have hentered : entered.Serves r.job := hserves.congr rfl rfl rfl
      have hnot : ¬entered.isQuiet = true := by rw [Bool.not_eq_true]; exact hquiet
      rw [Workspace.isQuiet_iff hentered,
        ← Workspace.isEmpty_frontier_prepare_iff hentered hnext, Bool.not_eq_true] at hnot
      exact hnot
  · intro ending hending hconverged
    have hends := Workspace.runEnds_iterate r.job schedule (r.opening schema)
    rw [hending] at hends
    generalize ((r.opening schema).iterate r.job schedule).2 = last at hends
    cases hends with
    | capped h => cases hconverged
    | @halted s ws h => exact ⟨.halt, ws, h, .inl rfl⟩
    | @converged s ws h hquiet => exact ⟨.continue, ws, h, .inr ((hexact s _ ws h).mp hquiet)⟩

/-- The check between the two supersteps of the relay. -/
theorem convergence_check_exact_relay :
    let r := Relay.run none false false
    ((r.opening .empty).iterate r.job Relay.takingTurns).1 = .ok ⟨true, 1⟩ ∧
      ∃ control ws,
        Workspace.Computes r.job Relay.takingTurns (r.opening .empty) 0 (.ok control) ws ∧
        (ws.isQuiet = true ↔ (ws.prepare 1).frontier.isEmpty = true) := by
  intro r
  have hok : ((r.opening .empty).iterate r.job Relay.takingTurns).1 = .ok ⟨true, 1⟩ := by
    decide +kernel
  obtain ⟨ws₀, hstands⟩ := Workspace.exists_standsAt_zero hok
  obtain ⟨control, ws, hcomputes⟩ := hstands.computes (by decide) hok
  refine ⟨hok, control, ws, hcomputes, ?_⟩
  exact (convergence_check_exact r .empty Relay.takingTurns).1 0 control ws hcomputes

end Superstep
