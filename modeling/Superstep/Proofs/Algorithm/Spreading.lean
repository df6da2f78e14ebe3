import Mathlib
import Superstep.Proofs.Run.Rounds

/-!
# Labels that spread

In several vertex programs every vertex holds a label, takes over the least of the labels that are
offered to it, and offers what it makes of its label to its neighbours only when the label got less.
`Spreading` is what such a program works with, and `Spreading.After` are the labels and offers after
each superstep. An offer that a vertex does not repeat was taken into account when it was made, so
the labels are those that walks of bounded length bring about, and when no offer is left, all walks.

Along a relationship labels do not get less. So the vertices that an offer came through, one in each
superstep, have labels that lie below it and got less one after the other, and no vertex is among
them twice: there are no offers after as many supersteps as there are vertices.

## Key results

- `Spreading.After.le_of_walk`, `Spreading.After.exists_walk`: labels are the least of short walks
- `Spreading.After.le_of_walk_of_quiet`: without offers, they are the least of all walks
- `Spreading.After.lt_nodeCount`: only so many supersteps make offers
- `Realizes.computes`, `Realizes.of_ok`, `Realizes.converges`: what this means for a run
-/

namespace Superstep

/-- What is given for labels to spread. -/
structure Spreading (γ : Type) where
  nodeCount : Nat
  /-- The label of a vertex at first. -/
  first : Nat → γ
  /-- Whether a vertex offers its first label. -/
  starts : Nat → Prop
  /-- The relationships that leave a vertex: their targets, and what becomes of a label on the
  way. -/
  out : Nat → List (Nat × (γ → γ))

namespace Spreading

variable {γ : Type} {P : Spreading γ} {s : Nat} {labels labels' : Nat → γ}
  {offers offers' : Nat → List γ}

/-- What a vertex with this label offers, and to whom. -/
def passOn (P : Spreading γ) (v : Nat) (x : γ) : List (Nat × γ) :=
  (P.out v).map fun e => (e.1, e.2 x)

/-- A walk of `k` relationships brings a label to a vertex. -/
inductive Walk (P : Spreading γ) : (k v : Nat) → γ → Prop
  | start {v} (hv : v < P.nodeCount) (hstarts : P.starts v) : Walk P 0 v (P.first v)
  | step {k u t x y} (h : Walk P k u x) (hmem : (t, y) ∈ P.passOn u x) : Walk P (k + 1) t y

/-- An offer comes along a relationship. -/
theorem mem_passOn {v t : Nat} {x y : γ} :
    (t, y) ∈ P.passOn v x ↔ ∃ e ∈ P.out v, e.1 = t ∧ e.2 x = y := by
  simp only [passOn, List.mem_map, Prod.mk.injEq]

/-- A walk ends at a vertex of the graph. -/
theorem Walk.lt_nodeCount (hinside : ∀ u, u < P.nodeCount → ∀ e ∈ P.out u, e.1 < P.nodeCount)
    {k v : Nat} {x : γ} (h : P.Walk k v x) : v < P.nodeCount := by
  -- on the walk; its last relationship leads to a vertex
  induction h with
  | start hv _ => exact hv
  | step _ hmem ih =>
    obtain ⟨e, he, rfl, -⟩ := mem_passOn.mp hmem
    exact hinside _ ih e he

variable [LinearOrder γ]

/-- Along relationships labels keep their order and do not get less, and a vertex that does not
offer its first label holds the greatest. -/
structure IsInflating (P : Spreading γ) : Prop where
  inside : ∀ u, u < P.nodeCount → ∀ e ∈ P.out u, e.1 < P.nodeCount
  monotone : ∀ u, u < P.nodeCount → ∀ e ∈ P.out u, Monotone e.2
  le : ∀ u, u < P.nodeCount → ∀ e ∈ P.out u, ∀ x, x ≤ e.2 x
  greatest : ∀ v, v < P.nodeCount → ¬ P.starts v → ∀ x, x ≤ P.first v

/-- The labels after superstep `s`, and what was offered to every vertex in it. -/
inductive After (P : Spreading γ) : Nat → (Nat → γ) → (Nat → List γ) → Prop
  | zero {offers : Nat → List γ} (hoffers : ∀ t y, y ∈ offers t ↔
      ∃ u, u < P.nodeCount ∧ P.starts u ∧ (t, y) ∈ P.passOn u (P.first u)) :
      After P 0 P.first offers
  | succ {s : Nat} {labels : Nat → γ} {offers : Nat → List γ} {labels' : Nat → γ}
      {offers' : Nat → List γ} (h : After P s labels offers)
      (hlabels : ∀ v, v < P.nodeCount → IsLeast {y | y ∈ labels v :: offers v} (labels' v))
      (hoffers : ∀ t y, y ∈ offers' t ↔
        ∃ u, u < P.nodeCount ∧ labels' u < labels u ∧ (t, y) ∈ P.passOn u (labels' u)) :
      After P (s + 1) labels' offers'

namespace After

/-- An offer was brought by a walk of one relationship a superstep. -/
theorem walk_of_offer (h : P.After s labels offers) {t : Nat} {y : γ} (hy : y ∈ offers t) :
    P.Walk (s + 1) t y := by
  -- on the supersteps, each of which makes the walk longer by one
  induction h generalizing t y with
  | zero hoffers =>
    obtain ⟨u, hu, hstarts, hmem⟩ := (hoffers t y).mp hy
    exact (Walk.start hu hstarts).step hmem
  | succ _ hlabels hoffers ih =>
    obtain ⟨u, hu, hless, hmem⟩ := (hoffers t y).mp hy
    -- the label that is offered is one that was offered before
    rcases List.mem_cons.mp (hlabels u hu).1 with heq | hoffer
    · exact absurd heq hless.ne
    · exact (ih hoffer).step hmem

/-- A label was brought by a walk, unless it is the first one of a vertex that did not offer it. -/
theorem exists_walk (h : P.After s labels offers) {v : Nat} (hv : v < P.nodeCount) :
    (∃ k ≤ s, P.Walk k v (labels v)) ∨ (¬ P.starts v ∧ labels v = P.first v) := by
  induction h with
  | zero _ =>
    by_cases hstarts : P.starts v
    · exact .inl ⟨0, le_rfl, .start hv hstarts⟩
    · exact .inr ⟨hstarts, rfl⟩
  | @succ s labels _ labels' _ h hlabels _ ih =>
    -- the label was kept, or it is one of the offers
    rcases List.mem_cons.mp (hlabels v hv).1 with heq | hoffer
    · rw [heq]
      exact ih.imp_left fun ⟨k, hk, hwalk⟩ => ⟨k, hk.trans s.le_succ, hwalk⟩
    · exact .inl ⟨s + 1, le_rfl, h.walk_of_offer hoffer⟩

/-- What a vertex can offer was taken over, or is being offered. -/
theorem le_or_mem_offers (hP : P.IsInflating) (h : P.After s labels offers) {u t : Nat} {y : γ}
    (hu : u < P.nodeCount) (hmem : (t, y) ∈ P.passOn u (labels u)) :
    labels t ≤ y ∨ y ∈ offers t := by
  induction h generalizing y with
  | zero hoffers =>
    by_cases hstarts : P.starts u
    · exact .inr ((hoffers t y).mpr ⟨u, hu, hstarts, hmem⟩)
    · obtain ⟨e, he, rfl, rfl⟩ := mem_passOn.mp hmem
      exact .inl ((hP.greatest u hu hstarts _).trans (hP.le u hu e he _))
  | @succ s labels offers labels' offers' _ hlabels hoffers ih =>
    -- a label that got less is offered, and one that was kept was offered before
    rcases lt_or_eq_of_le ((hlabels u hu).2 (List.mem_cons_self)) with hless | heq
    · exact .inr ((hoffers t y).mpr ⟨u, hu, hless, hmem⟩)
    · obtain ⟨e, he, ht, -⟩ := mem_passOn.mp hmem
      have hbest := (hlabels t (ht ▸ hP.inside u hu e he)).2
      rw [heq] at hmem
      rcases ih hmem with hle | hoffer
      · exact .inl ((hbest List.mem_cons_self).trans hle)
      · exact .inl (hbest (List.mem_cons_of_mem _ hoffer))

/-- No walk of at most one relationship a superstep brings a lesser label. -/
theorem le_of_walk (hP : P.IsInflating) (h : P.After s labels offers) {k v : Nat} {x : γ}
    (hk : k ≤ s) (hwalk : P.Walk k v x) : labels v ≤ x := by
  -- on the supersteps; a shorter walk was covered before, and labels only get less
  induction h generalizing k v x with
  | zero _ =>
    obtain rfl := Nat.le_zero.mp hk
    cases hwalk
    exact le_rfl
  | @succ s labels offers labels' offers' h hlabels _ ih =>
    have hbest := (hlabels v (hwalk.lt_nodeCount hP.inside)).2
    rcases Nat.le_succ_iff.mp hk with hk | rfl
    · exact (hbest List.mem_cons_self).trans (ih hk hwalk)
    · -- the walk without its last relationship brought a label that is passed on since then
      cases hwalk with
      | @step _ u _ x' _ hwalk hmem =>
        have hu := hwalk.lt_nodeCount hP.inside
        obtain ⟨e, he, rfl, rfl⟩ := mem_passOn.mp hmem
        refine le_trans ?_ (hP.monotone u hu e he (ih le_rfl hwalk))
        rcases h.le_or_mem_offers hP hu (mem_passOn.mpr ⟨e, he, rfl, rfl⟩) with hle | hoffer
        · exact (hbest List.mem_cons_self).trans hle
        · exact hbest (List.mem_cons_of_mem _ hoffer)

/-- When nothing is offered any more, no walk brings a lesser label. -/
theorem le_of_walk_of_quiet (hP : P.IsInflating) (h : P.After s labels offers)
    (hquiet : ∀ t, t < P.nodeCount → offers t = []) {k v : Nat} {x : γ} (hwalk : P.Walk k v x) :
    labels v ≤ x := by
  -- on the walk this time, since its length has no bound
  induction hwalk with
  | start hv hstarts => exact h.le_of_walk hP s.zero_le (.start hv hstarts)
  | @step k u t x y hwalk hmem ih =>
    have hu := hwalk.lt_nodeCount hP.inside
    have ht := (hwalk.step hmem).lt_nodeCount hP.inside
    obtain ⟨e, he, rfl, rfl⟩ := mem_passOn.mp hmem
    refine le_trans ?_ (hP.monotone u hu e he ih)
    rcases h.le_or_mem_offers hP hu (mem_passOn.mpr ⟨e, he, rfl, rfl⟩) with hle | hoffer
    · exact hle
    · rw [hquiet _ ht] at hoffer
      cases hoffer

/-- An offer came through a different vertex in every superstep, and none of them has a greater
label. -/
theorem exists_trail (hP : P.IsInflating) (h : P.After s labels offers) {t : Nat} {y : γ}
    (hy : y ∈ offers t) : ∃ trail : Finset Nat, trail.card = s + 1 ∧
      ∀ u ∈ trail, u < P.nodeCount ∧ labels u ≤ y := by
  -- on the supersteps; the vertex that makes the offer joins the trail of its own offer
  induction h generalizing t y with
  | zero hoffers =>
    obtain ⟨u, hu, -, hmem⟩ := (hoffers t y).mp hy
    obtain ⟨e, he, -, rfl⟩ := mem_passOn.mp hmem
    refine ⟨{u}, Finset.card_singleton u, fun v hv => ?_⟩
    rw [Finset.mem_singleton.mp hv]
    exact ⟨hu, hP.le u hu e he _⟩
  | @succ s labels offers labels' offers' _ hlabels hoffers ih =>
    obtain ⟨u, hu, hless, hmem⟩ := (hoffers t y).mp hy
    obtain ⟨e, he, -, rfl⟩ := mem_passOn.mp hmem
    rcases List.mem_cons.mp (hlabels u hu).1 with heq | hoffer
    · exact absurd heq hless.ne
    · obtain ⟨trail, hcard, htrail⟩ := ih hoffer
      have hle := hP.le u hu e he (labels' u)
      -- the label of the vertex just got less, those on the trail were no greater before
      have hnew : u ∉ trail := fun hu => (htrail u hu).2.not_gt hless
      refine ⟨insert u trail, by rw [Finset.card_insert_of_notMem hnew, hcard], ?_⟩
      refine Finset.forall_mem_insert _ _ _ |>.mpr ⟨⟨hu, hle⟩, fun v hv => ?_⟩
      obtain ⟨hlt, hbefore⟩ := htrail v hv
      exact ⟨hlt, ((hlabels v hlt).2 List.mem_cons_self).trans (hbefore.trans hle)⟩

/-- Offers are only made in as many supersteps as there are vertices. -/
theorem lt_nodeCount (hP : P.IsInflating) (h : P.After s labels offers) {t : Nat} {y : γ}
    (hy : y ∈ offers t) : s < P.nodeCount := by
  obtain ⟨trail, hcard, htrail⟩ := h.exists_trail hP hy
  have hle : trail.card ≤ (Finset.range P.nodeCount).card :=
    Finset.card_le_card fun u hu => Finset.mem_range.mpr (htrail u hu).1
  rwa [hcard, Finset.card_range] at hle

end After

end Spreading

/-! ## Labels as scalars -/

/-- Scalars stand for the members of an ordered type and are compared as these are. -/
structure Scalar.Mirrors {α γ : Type} [Scalar α] [LinearOrder γ] (enc : γ → α) : Prop where
  less : ∀ x y, Scalar.less (enc x) (enc y) = decide (x < y)
  min : ∀ x y, Scalar.min (enc x) (enc y) = enc (Min.min x y)
  top : ∀ x, Scalar.min Scalar.top (enc x) = enc x

/-- Minimum over a list is its least member. -/
theorem isLeast_foldl_min {γ : Type} [LinearOrder γ] (x : γ) (ys : List γ) :
    IsLeast {y | y ∈ x :: ys} (ys.foldl min x) := by
  induction ys generalizing x with
  | nil => exact ⟨List.mem_singleton_self x, fun y hy => (List.mem_singleton.mp hy).ge⟩
  | cons z ys ih =>
    -- the rest is folded from the lesser of the first two
    obtain ⟨hmem, hle⟩ := ih (min x z)
    constructor
    · rcases List.mem_cons.mp hmem with heq | hlater
      · change List.foldl min (min x z) ys ∈ _
        rw [heq]
        rcases min_choice x z with h | h <;> simp [h]
      · exact List.mem_cons_of_mem _ (List.mem_cons_of_mem _ hlater)
    · have hkept : ys.foldl min (min x z) ≤ min x z := hle List.mem_cons_self
      refine List.forall_mem_cons.mpr ⟨hkept.trans (min_le_left x z),
        List.forall_mem_cons.mpr ⟨hkept.trans (min_le_right x z), fun y hy => ?_⟩⟩
      exact hle (List.mem_cons_of_mem _ hy)

/-- The combination of messages by minimum stands for the least of what they stand for. -/
theorem Scalar.Mirrors.fold_min {α γ : Type} [Scalar α] [LinearOrder γ] {enc : γ → α}
    (h : Scalar.Mirrors enc) (x : γ) (ys : List γ) :
    (Reducer.min : Reducer α).fold ((x :: ys).map enc) = enc (ys.foldl Min.min x) := by
  have hfrom (x : γ) : (ys.map enc).foldl Scalar.min (enc x) = enc (ys.foldl Min.min x) := by
    induction ys generalizing x with
    | nil => rfl
    | cons y ys ih => rw [List.map_cons, List.foldl_cons, List.foldl_cons, h.min, ih]
  rw [← hfrom x, Reducer.fold, List.map_cons, List.foldl_cons]
  exact congrArg (fun b => (ys.map enc).foldl Scalar.min b) (h.top x)

/-! ## Programs that spread labels -/

/-- The reaction spreads labels: its messages stand for labels by `enc`, its values by `lab`. -/
structure Realizes {α β γ : Type} [Scalar α] [LinearOrder γ] (R : Reaction α β) (P : Spreading γ)
    (enc : γ → α) (lab : γ → β) : Prop where
  mirrors : Scalar.Mirrors enc
  reducer : R.reducer = .min
  inflating : P.IsInflating
  first : ∀ v, v < P.nodeCount → R.first v = lab (P.first v)
  offer : ∀ v, v < P.nodeCount → P.starts v → R.react 0 v (lab (P.first v)) []
    = (lab (P.first v), (P.passOn v (P.first v)).map (Prod.map id enc))
  wait : ∀ v, v < P.nodeCount → ¬ P.starts v → R.react 0 v (lab (P.first v)) []
    = (lab (P.first v), [])
  improve : ∀ s v, s ≠ 0 → v < P.nodeCount → ∀ x y, y < x → R.react s v (lab x) [enc y]
    = (lab y, (P.passOn v y).map (Prod.map id enc))
  ignore : ∀ s v, s ≠ 0 → v < P.nodeCount → ∀ x y, x ≤ y → R.react s v (lab x) [enc y]
    = (lab x, [])

namespace Realizes

open Reaction Workspace

variable {α β γ : Type} [Scalar α] [LinearOrder γ] {R : Reaction α β} {P : Spreading γ}
  {enc : γ → α} {lab : γ → β} {s : Nat}

omit [Scalar α] [LinearOrder γ] in
/-- The messages for a vertex are found before or after they are encoded. -/
theorem mailFor_map (w : Nat) (messages : List (Nat × γ)) :
    mailFor w (messages.map (Prod.map id enc)) = (mailFor w messages).map enc := by
  rw [mailFor, List.filterMap_map, mailFor, List.map_filterMap]
  refine List.filterMap_congr fun m _ => ?_
  by_cases h : m.1 = w <;> simp [h]

omit [Scalar α] [LinearOrder γ] in
/-- The messages for a vertex are those with its number. -/
theorem mem_mailFor {w : Nat} {messages : List (Nat × γ)} {y : γ} :
    y ∈ mailFor w messages ↔ (w, y) ∈ messages := by
  simp only [mailFor, List.mem_filterMap]
  constructor
  · rintro ⟨m, hm, h⟩
    split at h
    · rename_i hw
      cases h
      exact hw ▸ hm
    · cases h
  · exact fun hm => ⟨(w, y), hm, if_pos rfl⟩

/-- What a vertex makes of the labels offered to it after superstep 0: the least one counts. -/
theorem turn_eq (h : Realizes R P enc lab) {v : Nat} (hs : s ≠ 0) (hv : v < P.nodeCount)
    {st : State α β} {x : γ} {ys : List γ} (hvalue : st.value v = lab x)
    (hmail : st.mail v = ys.map enc) :
    R.turn s v st = (lab (ys.foldl min x),
      (if ys.foldl min x < x then P.passOn v (ys.foldl min x) else []).map (Prod.map id enc)) := by
  rw [turn, hvalue, hmail]
  cases ys with
  | nil => simp [hs]
  | cons y ys =>
    rw [if_neg (by simp)]
    have hcollected : Messenger.collected (some R.reducer) ((y :: ys).map enc)
        = [enc (ys.foldl min y)] := by
      rw [← h.mirrors.fold_min, h.reducer]
      rfl
    -- the least of all is the least of the label and the offers
    have hleast : (y :: ys).foldl min x = min x (ys.foldl min y) := List.foldl_assoc
    rw [hcollected, hleast]
    -- the combined offer is less than the label, or it is ignored
    rcases lt_or_ge (ys.foldl min y) x with hless | hge
    · rw [h.improve s v hs hv x _ hless, min_eq_right hless.le, if_pos hless]
    · rw [h.ignore s v hs hv x _ hge, min_eq_left hge, if_neg (lt_irrefl x), List.map_nil]

open Classical in
/-- In superstep 0 the vertices that start pass their first label on. -/
theorem turn_zero (h : Realizes R P enc lab) {v : Nat} (hv : v < P.nodeCount) :
    R.turn 0 v ⟨R.first, fun _ => []⟩ = (lab (P.first v),
      (if P.starts v then P.passOn v (P.first v) else []).map (Prod.map id enc)) := by
  rw [turn, if_neg (by simp), Messenger.collected_nil]
  change R.react 0 v (R.first v) [] = _
  rw [h.first v hv]
  split
  · rename_i hstarts
    exact h.offer v hv hstarts
  · rename_i hstarts
    exact h.wait v hv hstarts

omit [Scalar α] [LinearOrder γ] in
/-- What a round leaves in which the vertices with `passes` pass on the label that they come to. -/
theorem exists_offers {st st' : State α β} (labels : Nat → γ) (passes : Nat → Prop)
    [DecidablePred passes] (hround : R.Round P.nodeCount s st st')
    (hturn : ∀ v, v < P.nodeCount → R.turn s v st = (lab (labels v),
      (if passes v then P.passOn v (labels v) else []).map (Prod.map id enc))) :
    ∃ offers : Nat → List γ,
      (∀ t y, y ∈ offers t ↔
        ∃ u, u < P.nodeCount ∧ passes u ∧ (t, y) ∈ P.passOn u (labels u)) ∧
      (∀ v, v < P.nodeCount → st'.value v = lab (labels v)) ∧
      ∀ t, st'.mail t = (offers t).map enc := by
  obtain ⟨vs, hperm, hmail⟩ := hround.mail
  have hlt {v : Nat} : v ∈ vs ↔ v < P.nodeCount := by rw [hperm.mem_iff, List.mem_range]
  -- offers are those that the vertices make, in the order of their visits
  refine ⟨fun w => vs.flatMap fun v => mailFor w (if passes v then P.passOn v (labels v) else []),
    fun t y => ?_, fun v hv => by rw [hround.value v hv, hturn v hv], fun t => ?_⟩
  · simp only [List.mem_flatMap, hlt, mem_mailFor]
    refine exists_congr fun u => and_congr_right fun _ => ?_
    split <;> simp_all
  · rw [hmail, List.map_flatMap]
    exact List.flatMap_congr fun v hv => by rw [hturn v (hlt.mp hv), mailFor_map]

/-- The states that the vertices come to stand for labels and offers. -/
theorem after (h : Realizes R P enc lab) {st : State α β}
    (hreached : R.Reached P.nodeCount (s + 1) st) :
    ∃ labels offers, P.After s labels offers ∧
      (∀ v, v < P.nodeCount → st.value v = lab (labels v)) ∧
      ∀ t, st.mail t = (offers t).map enc := by
  classical
  -- superstep 0 passes first labels on, every later one what got less
  induction s generalizing st with
  | zero =>
    obtain - | ⟨⟨⟩, hround⟩ := hreached
    obtain ⟨offers, hoffers, hvalue, hmail⟩ := exists_offers P.first P.starts hround
      fun v hv => h.turn_zero hv
    exact ⟨P.first, offers, .zero hoffers, hvalue, hmail⟩
  | succ s ih =>
    obtain - | ⟨hbefore, hround⟩ := hreached
    obtain ⟨labels, offers, hafter, hvalue, hmail⟩ := ih hbefore
    obtain ⟨offers', hoffers', hvalue', hmail'⟩ := exists_offers
      (fun v => (offers v).foldl min (labels v))
      (fun v => (offers v).foldl min (labels v) < labels v) hround
      fun v hv => h.turn_eq s.succ_ne_zero hv (hvalue v hv) (hmail v)
    exact ⟨_, offers', hafter.succ (fun v _ => isLeast_foldl_min _ _) hoffers', hvalue', hmail'⟩

/-! ## Runs -/

variable {r : Run α} {schedule : Schedule} {ws : Workspace α}

/-- After a superstep of the run the rows stand for the labels. -/
theorem computes (h : Realizes R P enc lab) (hR : R.Runs r.job)
    (hcount : r.job.graph.nodeCount = P.nodeCount) {control : Control}
    (hcomputes : Computes r.job schedule (r.opening ⟨[R.slot]⟩) s (.ok control) ws) :
    ∃ labels offers, P.After s labels offers ∧ ws.values.nodeCount = P.nodeCount ∧
      ∀ v, v < P.nodeCount → ws.values.row v = R.row (lab (labels v)) := by
  obtain ⟨-, st, hreached, hshows⟩ := hR.computes hcomputes
  rw [hcount] at hreached
  obtain ⟨labels, offers, hafter, hvalue, -⟩ := h.after hreached
  refine ⟨labels, offers, hafter, hshows.nodeCount.trans hcount, fun v hv => ?_⟩
  rw [hshows.rows v (hcount.symm ▸ hv), hvalue v hv]

variable {graph : Graph α} {config : Config} {program : Program α} {flag : Flag}

/-- The result of a run stands for the labels after its last superstep, and if the run converged,
nothing is offered any more. -/
theorem of_result (h : Realizes R P enc lab) (hR : R.Runs r.job)
    (hcreate : Run.create graph config program flag = .ok r)
    (hcount : graph.nodeCount = P.nodeCount)
    {result : RunResult α} (hresult : (r.execute schedule).1 = .ok result) :
    ∃ labels offers, P.After
        (if result.didConverge then result.ranIterations else config.maxIterations - 1)
        labels offers ∧
      (result.didConverge = true → ∀ v, v < P.nodeCount → offers v = []) ∧
      result.values.nodeCount = P.nodeCount ∧
      ∀ v, v < P.nodeCount → result.values.row v = R.row (lab (labels v)) := by
  obtain ⟨st, hreached, hquiet, hvalues, hrows⟩ := hR.of_result hcreate hresult
  rw [hcount] at hreached hquiet hvalues hrows
  obtain ⟨labels, offers, hafter, hvalue, hoffers⟩ := h.after hreached
  refine ⟨labels, offers, hafter, fun hconverged v hv => ?_, hvalues, fun v hv => ?_⟩
  · exact List.map_eq_nil_iff.mp ((hoffers v).symm.trans (hquiet hconverged v hv))
  · rw [hrows v hv, hvalue v hv]

/-- A run that nobody stops converges within as many further supersteps as there are vertices, if
its cap allows for them. -/
theorem converges (h : Realizes R P enc lab) (hR : R.Runs r.job)
    (hcreate : Run.create graph config program flag = .ok r)
    (hcount : graph.nodeCount = P.nodeCount)
    (hcap : graph.nodeCount < config.maxIterations)
    (hflag : (r.execute schedule).2.flag.raised = false) :
    ∃ result, (r.execute schedule).1 = .ok result ∧ result.didConverge = true ∧
      result.ranIterations ≤ graph.nodeCount := by
  -- mail in a late superstep would be an offer, and there is none
  refine hR.converges hcreate hcap (fun st hreached v _ => ?_) hflag
  rw [hcount] at hreached
  obtain ⟨labels, offers, hafter, -, hoffers⟩ := h.after hreached
  rw [hoffers v, List.map_eq_nil_iff, List.eq_nil_iff_forall_not_mem]
  exact fun y hy => lt_irrefl _ (hafter.lt_nodeCount h.inflating hy)

end Realizes

end Superstep
