import Mathlib
import Superstep.Proofs.Message.Condensing

/-!
# Exact scalars

Rational numbers between two infinities are scalars too. Unlike doubles they have sums that may be
regrouped, and of two of them one is always the lesser, so the bundled ways to combine them keep
what reducers promise.
-/

namespace Superstep

/-- A rational number, or an infinity. -/
inductive Exact where
  | bottom
  | finite (q : ℚ)
  | top
  deriving DecidableEq

namespace Exact

/-- Whether the first scalar is strictly less than the second. -/
def less : Exact → Exact → Bool
  | finite p, finite q => decide (p < q)
  | bottom, finite _ | bottom, top | finite _, top => true
  | top, _ | finite _, bottom | bottom, bottom => false

/-- The lesser of two scalars. -/
def min (a b : Exact) : Exact := if less b a then b else a

/-- The greater of two scalars. -/
def max (a b : Exact) : Exact := if less a b then b else a

/-- Calculates with two numbers. An infinity stays what it is, the first one of two. -/
def lift (f : ℚ → ℚ → ℚ) : Exact → Exact → Exact
  | finite p, finite q => finite (f p q)
  | finite _, b => b
  | a, _ => a

/-- Rational arithmetic. Conversion to an integer drops the fraction and clamps to the 64-bit
range. -/
instance : Scalar Exact where
  add := lift (· + ·)
  sub := lift (· - ·)
  mul := lift (· * ·)
  div := lift (· / ·)
  zero := finite 0
  one := finite 1
  top := top
  bottom := bottom
  less := less
  min := min
  max := max
  ofNat n := finite n
  ofLong i := finite i.toInt
  toLong
    | bottom => Int64.minValue
    | finite q => Int64.ofIntClamp (q.num.tdiv q.den)
    | top => Int64.maxValue

/-! ## The order -/

/-- The place of a scalar in the order of all. -/
def rank : Exact → WithBot (WithTop ℚ)
  | bottom => ⊥
  | finite q => ((q : WithTop ℚ) : WithBot (WithTop ℚ))
  | top => ((⊤ : WithTop ℚ) : WithBot (WithTop ℚ))

/-- No two scalars have one place. -/
theorem rank_injective : Function.Injective rank := by
  intro a b h
  cases a <;> cases b <;> simp_all [rank]

/-- The comparison is that of the places. -/
theorem less_iff (a b : Exact) : less a b = true ↔ a.rank < b.rank := by
  have hbelow (q : ℚ) : ((q : WithTop ℚ) : WithBot (WithTop ℚ)) < ⊤ :=
    WithBot.coe_lt_coe.mpr (WithTop.coe_lt_top q)
  cases a <;> cases b <;> simp [less, rank, hbelow]

/-- The lesser of two scalars has the lesser place. -/
theorem rank_min (a b : Exact) : (min a b).rank = Min.min a.rank b.rank := by
  rw [min]
  split
  · rename_i hless
    exact (min_eq_right ((less_iff b a).mp hless).le).symm
  · rename_i hless
    exact (min_eq_left (not_lt.mp fun hlt => hless ((less_iff b a).mpr hlt))).symm

/-- The greater of two scalars has the greater place. -/
theorem rank_max (a b : Exact) : (max a b).rank = Max.max a.rank b.rank := by
  rw [max]
  split
  · rename_i hless
    exact (max_eq_right ((less_iff a b).mp hless).le).symm
  · rename_i hless
    exact (max_eq_left (not_lt.mp fun hlt => hless ((less_iff a b).mpr hlt))).symm

instance : LinearOrder Exact := LinearOrder.lift' rank rank_injective

/-- The comparison of scalars decides the linear order. -/
theorem less_eq_decide (a b : Exact) : Scalar.less a b = decide (a < b) := by
  rw [Bool.eq_iff_iff, decide_eq_true_eq]
  exact less_iff a b

/-- The minimum of scalars is that of the linear order. -/
theorem min_eq_min (a b : Exact) : Scalar.min a b = Min.min a b := by
  change (if less b a then b else a) = Min.min a b
  split
  · rename_i h
    have hlt : b < a := (less_iff b a).mp h
    exact (min_eq_right hlt.le).symm
  · rename_i h
    have hle : a ≤ b := not_lt.mp fun hlt : b < a => h ((less_iff b a).mpr hlt)
    exact (min_eq_left hle).symm

/-- Nothing is above the upper infinity. -/
theorem le_top (a : Exact) : a ≤ top := by
  change a.rank ≤ ((⊤ : WithTop ℚ) : WithBot (WithTop ℚ))
  cases a with
  | bottom => exact bot_le
  | finite q => exact WithBot.coe_le_coe.mpr (OrderTop.le_top (q : WithTop ℚ))
  | top => exact le_rfl

/-- Numbers are ordered as they are. -/
theorem finite_le_finite {p q : ℚ} : finite p ≤ finite q ↔ p ≤ q := by
  change ((p : WithTop ℚ) : WithBot (WithTop ℚ)) ≤ ((q : WithTop ℚ) : WithBot (WithTop ℚ)) ↔ _
  rw [WithBot.coe_le_coe, WithTop.coe_le_coe]

/-- Adding a number keeps the order of scalars. -/
theorem monotone_add_finite (q : ℚ) : Monotone fun a : Exact => a + finite q := by
  intro a b hab
  change lift (· + ·) a (finite q) ≤ lift (· + ·) b (finite q)
  -- an infinity absorbs the number
  cases a with
  | bottom => exact bot_le (α := WithBot (WithTop ℚ))
  | top =>
    obtain rfl := le_antisymm (le_top b) hab
    exact le_rfl
  | finite x =>
    cases b with
    | bottom => exact absurd hab (not_le.mpr (WithBot.bot_lt_coe (x : WithTop ℚ)))
    | top => exact le_top _
    | finite y => exact finite_le_finite.mpr (add_le_add_left (finite_le_finite.mp hab) q)

/-- Adding a number that is not negative makes no scalar less. -/
theorem le_add_finite {q : ℚ} (hq : 0 ≤ q) (a : Exact) : a ≤ a + finite q := by
  change a ≤ lift (· + ·) a (finite q)
  cases a with
  | bottom | top => exact le_rfl
  | finite x => exact finite_le_finite.mpr (le_add_of_nonneg_right hq)

/-- The minimum is associative and commutative, and the upper infinity is neutral. -/
theorem isLawful_min : (Reducer.min : Reducer Exact).IsLawful where
  assoc a b c := rank_injective (by
    change (min (min a b) c).rank = (min a (min b c)).rank
    rw [rank_min, rank_min, rank_min, rank_min, min_assoc])
  comm a b := rank_injective (by
    change (min a b).rank = (min b a).rank
    rw [rank_min, rank_min, min_comm])
  neutral a := by
    change min top a = a
    cases a <;> rfl

/-- The maximum is associative and commutative, and the lower infinity is neutral. -/
theorem isLawful_max : (Reducer.max : Reducer Exact).IsLawful where
  assoc a b c := rank_injective (by
    change (max (max a b) c).rank = (max a (max b c)).rank
    rw [rank_max, rank_max, rank_max, rank_max, max_assoc])
  comm a b := rank_injective (by
    change (max a b).rank = (max b a).rank
    rw [rank_max, rank_max, max_comm])
  neutral a := by
    change max bottom a = a
    cases a <;> rfl

/-! ## What the bundled reducers come to -/

/-- Of several scalars, a reducer that always keeps the better one of two keeps the best one. -/
private theorem foldl_keeps (better : Exact → Exact → Prop) (hrefl : ∀ a, better a a)
    (htrans : ∀ a b c, better a b → better b c → better a c) {f : Exact → Exact → Exact}
    (hf : ∀ a b, (f a b = a ∨ f a b = b) ∧ better (f a b) a ∧ better (f a b) b) (x : Exact)
    (xs : List Exact) :
    xs.foldl f x ∈ x :: xs ∧ ∀ y ∈ x :: xs, better (xs.foldl f x) y := by
  induction xs generalizing x with
  | nil => exact ⟨List.mem_singleton_self x, List.forall_mem_singleton.mpr (hrefl x)⟩
  | cons z xs ih =>
    obtain ⟨hchoice, hfirst, hsecond⟩ := hf x z
    obtain ⟨hmem, hbest⟩ := ih (f x z)
    obtain ⟨hkept, hrest⟩ := List.forall_mem_cons.mp hbest
    refine ⟨?_, List.forall_mem_cons.mpr ⟨htrans _ _ _ hkept hfirst,
      List.forall_mem_cons.mpr ⟨htrans _ _ _ hkept hsecond, hrest⟩⟩⟩
    -- the best one was there before, or comes later
    rcases List.mem_cons.mp hmem with heq | hlater
    · rw [List.foldl_cons, heq]
      rcases hchoice with h | h <;> simp [h]
    · exact List.mem_cons_of_mem _ (List.mem_cons_of_mem _ hlater)

/-- The combination of messages by minimum is the least of them. -/
theorem fold_min {xs : List Exact} (hxs : xs ≠ []) :
    (Reducer.min : Reducer Exact).fold xs ∈ xs ∧
      ∀ x ∈ xs, ((Reducer.min : Reducer Exact).fold xs).rank ≤ x.rank := by
  obtain ⟨x, rest, rfl⟩ := List.exists_cons_of_ne_nil hxs
  have hfold : (Reducer.min : Reducer Exact).fold (x :: rest) = rest.foldl min x :=
    congrArg (rest.foldl min) (isLawful_min.neutral x)
  rw [hfold]
  refine foldl_keeps (fun a b => a.rank ≤ b.rank) (fun a => le_rfl) (fun a b c => le_trans)
    (fun a b => ⟨?_, ?_⟩) x rest
  · rw [min]
    split <;> simp
  · rw [rank_min]
    exact ⟨min_le_left _ _, min_le_right _ _⟩

/-- The combination of messages by maximum is the greatest of them. -/
theorem fold_max {xs : List Exact} (hxs : xs ≠ []) :
    (Reducer.max : Reducer Exact).fold xs ∈ xs ∧
      ∀ x ∈ xs, x.rank ≤ ((Reducer.max : Reducer Exact).fold xs).rank := by
  obtain ⟨x, rest, rfl⟩ := List.exists_cons_of_ne_nil hxs
  have hfold : (Reducer.max : Reducer Exact).fold (x :: rest) = rest.foldl max x :=
    congrArg (rest.foldl max) (isLawful_max.neutral x)
  rw [hfold]
  refine foldl_keeps (fun a b => b.rank ≤ a.rank) (fun a => le_rfl)
    (fun a b c hab hbc => le_trans hbc hab) (fun a b => ⟨?_, ?_⟩) x rest
  · rw [max]
    split <;> simp
  · rw [rank_max]
    exact ⟨le_max_left _ _, le_max_right _ _⟩

/-- The combination of numbers by addition is their sum. -/
theorem fold_sum (qs : List ℚ) :
    (Reducer.sum : Reducer Exact).fold (qs.map .finite) = .finite qs.sum := by
  -- from any number to start with
  have hfrom (start : ℚ) : (qs.map finite).foldl (lift (· + ·)) (finite start)
      = finite (start + qs.sum) := by
    induction qs generalizing start with
    | nil => simp
    | cons q qs ih =>
      rw [List.map_cons, List.foldl_cons, List.sum_cons, ← add_assoc]
      exact ih (start + q)
  exact (hfrom 0).trans (by rw [zero_add])

/-- The combination by counting is the number of messages. -/
theorem fold_count (xs : List Exact) :
    (Reducer.count : Reducer Exact).fold xs = .finite xs.length := by
  -- from any number to start with
  have hfrom (start : ℚ) : xs.foldl (fun current _ => lift (· + ·) current (finite 1))
      (finite start) = finite (start + xs.length) := by
    induction xs generalizing start with
    | nil => simp
    | cons x xs ih =>
      rw [List.foldl_cons, List.length_cons, Nat.cast_succ, add_comm (xs.length : ℚ), ← add_assoc]
      exact ih (start + 1)
  exact (hfrom 0).trans (by rw [zero_add])

end Exact

end Superstep
