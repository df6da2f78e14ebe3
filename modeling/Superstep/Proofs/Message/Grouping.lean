import Mathlib
import Superstep.Proofs.Exact

/-!
# Messages combined group by group

Messages may be combined on their way in several groups, and the results of the groups once more.
For a lawful reducer that comes to the same as combining all messages one after the other, in any
order. Of the bundled reducers, sum, minimum and maximum are of this kind for numbers. Counting is
not: a count takes no notice of what its messages say, so a second count counts the groups, and
their counts have to be added up instead.

## Key results

- `Reducer.fold_append`: two parts may be combined by themselves
- `Reducer.foldGroups_eq`, `fold_perm`: so may any groups, and in any order
- `Exact.foldGroups_sum`, `foldGroups_count`: what sums and counts of groups come to
- `bundled_reducers_regroup`: all bundled reducers
-/

namespace Superstep

namespace Reducer

variable {α : Type} {r : Reducer α}

/-- The combination of what groups of messages were combined to. -/
def foldGroups (r : Reducer α) (groups : List (List α)) : α := r.fold (groups.map r.fold)

/-- What was combined before is one more message. -/
theorem foldl_reduce_eq (h : r.IsLawful) (start : α) (messages : List α) :
    messages.foldl r.reduce start = r.reduce start (r.fold messages) := by
  induction messages with
  | nil => exact ((h.comm start r.identity).trans (h.neutral start)).symm
  | cons x messages ih =>
    -- the first message is pulled out at the end, on both sides
    rw [List.foldl_cons, foldl_reduce_right h, ih, fold_cons h, h.assoc]

/-- Two groups may be combined by themselves, and then with each other. -/
theorem fold_append (h : r.IsLawful) (xs ys : List α) :
    r.fold (xs ++ ys) = r.reduce (r.fold xs) (r.fold ys) := by
  rw [fold, List.foldl_append, foldl_reduce_eq h]
  rfl

/-- Groups may be combined by themselves. -/
theorem foldGroups_eq (h : r.IsLawful) (groups : List (List α)) :
    r.foldGroups groups = r.fold groups.flatten := by
  induction groups with
  | nil => rfl
  | cons group groups ih =>
    have hrest : r.fold (groups.map r.fold) = r.fold groups.flatten := ih
    calc r.foldGroups (group :: groups)
        = r.fold ([r.fold group] ++ groups.map r.fold) := rfl
      _ = r.reduce (r.fold group) (r.fold groups.flatten) := by
          rw [fold_append h, fold_singleton h, hrest]
      _ = r.fold (group :: groups).flatten := by rw [List.flatten_cons, fold_append h]

/-- The order of the messages makes no difference. -/
theorem fold_perm (h : r.IsLawful) {xs ys : List α} (hperm : xs.Perm ys) :
    r.fold xs = r.fold ys := by
  refine hperm.foldl_eq' (fun x _ y _ start => ?_) r.identity
  rw [h.assoc, h.comm x y, ← h.assoc]

end Reducer

namespace Exact

/-- Numbers as messages, group by group. -/
def finiteGroups (groups : List (List ℚ)) : List (List Exact) := groups.map (·.map finite)

/-- The members of all groups are the numbers given. -/
theorem flatten_finiteGroups (groups : List (List ℚ)) :
    (finiteGroups groups).flatten = groups.flatten.map finite := by
  rw [finiteGroups, List.map_flatten]

/-- Sums of groups add up to the sum of all, as numbers do. Sums of infinities would not. -/
theorem foldGroups_sum (groups : List (List ℚ)) :
    (Reducer.sum : Reducer Exact).foldGroups (finiteGroups groups)
      = (Reducer.sum : Reducer Exact).fold (groups.flatten.map finite) := by
  have hsums : (finiteGroups groups).map (Reducer.sum : Reducer Exact).fold
      = (groups.map List.sum).map finite := by
    simp [finiteGroups, fold_sum]
  rw [Reducer.foldGroups, hsums, fold_sum, fold_sum, List.sum_flatten]

/-- Counts of groups, when they are counted, come to the number of groups. -/
theorem foldGroups_count (groups : List (List ℚ)) :
    (Reducer.count : Reducer Exact).foldGroups (finiteGroups groups) = finite groups.length := by
  rw [Reducer.foldGroups, fold_count]
  simp [finiteGroups]

/-- Counts of groups, when they are added up, come to the number of messages. -/
theorem fold_sum_counts (groups : List (List ℚ)) :
    (Reducer.sum : Reducer Exact).fold ((finiteGroups groups).map Reducer.count.fold)
      = finite groups.flatten.length := by
  have hcounts : (finiteGroups groups).map (Reducer.count : Reducer Exact).fold
      = (groups.map fun group => (group.length : ℚ)).map finite := by
    simp [finiteGroups, fold_count]
  have hlengths : (groups.map fun group => (group.length : ℚ)).sum = groups.flatten.length := by
    rw [List.length_flatten, Nat.cast_list_sum, List.map_map]
    rfl
  rw [hcounts, fold_sum, hlengths]

end Exact

/-- Messages combined in groups. Let numbers be cut into consecutive groups. Combining each group
and then the results of the groups by sum, by minimum or by maximum comes to the same as combining
all numbers one after the other. Counting the counts of the groups comes to the number of groups, so
to the same exactly if there are as many groups as numbers; it is the sum of the counts that always
is the count of all. By none of the four reducers does the order of the numbers make a
difference. -/
theorem bundled_reducers_regroup (groups : List (List ℚ)) :
    (∀ r ∈ [Reducer.sum, Reducer.min, Reducer.max],
      r.foldGroups (Exact.finiteGroups groups) = r.fold (groups.flatten.map Exact.finite)) ∧
    (Reducer.count.foldGroups (Exact.finiteGroups groups)
        = Reducer.count.fold (groups.flatten.map Exact.finite)
      ↔ groups.length = groups.flatten.length) ∧
    Reducer.sum.fold ((Exact.finiteGroups groups).map Reducer.count.fold)
      = Reducer.count.fold (groups.flatten.map Exact.finite) ∧
    ∀ r ∈ [Reducer.sum, Reducer.min, Reducer.max, Reducer.count], ∀ qs : List ℚ,
      qs.Perm groups.flatten →
        r.fold (qs.map Exact.finite) = r.fold (groups.flatten.map Exact.finite) := by
  have hlawful {r : Reducer Exact} (h : r.IsLawful) :
      r.foldGroups (Exact.finiteGroups groups) = r.fold (groups.flatten.map Exact.finite) := by
    rw [Reducer.foldGroups_eq h, Exact.flatten_finiteGroups]
  have hcount : Reducer.count.fold (groups.flatten.map Exact.finite)
      = .finite groups.flatten.length := by
    rw [Exact.fold_count, List.length_map]
  refine ⟨?_, ?_, ?_, ?_⟩
  · simp only [List.forall_mem_cons]
    exact ⟨Exact.foldGroups_sum groups, hlawful Exact.isLawful_min, hlawful Exact.isLawful_max,
      List.forall_mem_nil _⟩
  · rw [Exact.foldGroups_count, hcount, Exact.finite.injEq, Nat.cast_inj]
  · rw [Exact.fold_sum_counts, hcount]
  · simp only [List.forall_mem_cons]
    refine ⟨fun qs hperm => ?_, fun qs hperm => ?_, fun qs hperm => ?_, fun qs hperm => ?_,
      List.forall_mem_nil _⟩
    · -- infinities cannot be summed in any order, so the order is changed among the numbers
      rw [Exact.fold_sum, Exact.fold_sum, hperm.sum_eq]
    · exact Reducer.fold_perm Exact.isLawful_min (hperm.map _)
    · exact Reducer.fold_perm Exact.isLawful_max (hperm.map _)
    · rw [Exact.fold_count, Exact.fold_count, List.length_map, List.length_map, hperm.length_eq]

/-- Three numbers, cut into a pair, nothing and one, and in another order. -/
theorem bundled_reducers_regroup_three :
    Reducer.max.foldGroups (Exact.finiteGroups [[2, 3], [], [5]])
        = Reducer.max.fold ([[2, 3], [], [5]].flatten.map Exact.finite) ∧
      [5, 2, 3].Perm ([[2, 3], [], [5]] : List (List ℚ)).flatten ∧
      Reducer.sum.fold ([5, 2, 3].map Exact.finite)
        = Reducer.sum.fold ([[2, 3], [], [5]].flatten.map Exact.finite) := by
  obtain ⟨hgroups, -, -, horder⟩ := bundled_reducers_regroup [[2, 3], [], [5]]
  have hperm : [5, 2, 3].Perm ([[2, 3], [], [5]] : List (List ℚ)).flatten := by decide
  exact ⟨hgroups _ (by simp), hperm, horder _ (by simp) _ hperm⟩

/-- Three messages are counted in two groups, and then the groups are. -/
theorem counts_of_groups_counted :
    Reducer.count.foldGroups (Exact.finiteGroups [[2, 3], [5]]) = .finite 2 ∧
      Reducer.count.fold ([[2, 3], [5]].flatten.map Exact.finite) = .finite 3 ∧
      Reducer.count.foldGroups (Exact.finiteGroups [[2, 3], [5]])
        ≠ Reducer.count.fold ([[2, 3], [5]].flatten.map Exact.finite) := by
  have hgroups : Reducer.count.foldGroups (Exact.finiteGroups [[2, 3], [5]]) = .finite 2 := by
    rw [Exact.foldGroups_count]
    rfl
  have hall : Reducer.count.fold ([[2, 3], [5]].flatten.map Exact.finite) = .finite 3 := by
    rw [Exact.fold_count]
    rfl
  refine ⟨hgroups, hall, ?_⟩
  rw [hgroups, hall]
  decide

end Superstep
