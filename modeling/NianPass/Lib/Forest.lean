import Mathlib.Tactic
import Mathlib.Combinatorics.Pigeonhole

/-
  Finite graphs walked step by step, and forests given by parent pointers.

  `Steps R k x y` is a walk of `k` edges. When every node with an outgoing edge
  lies in a finite set, what can be reached at all is reached by a walk that is
  no longer than the set is large (`steps_bounded`): a longer one visits a node
  twice and can be cut. `spread` collects everything within a number of steps of
  a node, for a graph given by lists of successors.

  A forest is a partial function `parent` on an arbitrary type. `climb k x` is
  the node `k` links above `x`, `Above a x` says that `a` is `x` or an ancestor
  of `x`, and `trail n x` lists the first `n` nodes met on the way up, which is
  what a loop over parent pointers visits. A walk that is allowed one more step
  than there are nodes with a parent meets every ancestor (`mem_trail_of_above`).
  The rest says how `Above` changes when one node gets another parent, and when
  only a set of nodes closed under taking parents is kept.
-/
namespace NianPass.Forest

/-! ## Walks in a finite graph -/

section Walks
variable {ι : Type} {R : ι → ι → Prop} {x y z : ι}

/-- A walk of `k` edges from `x` to `y`. -/
def Steps (R : ι → ι → Prop) : Nat → ι → ι → Prop
  | 0, x, y => x = y
  | k + 1, x, y => ∃ z, R x z ∧ Steps R k z y

theorem steps_add {m n : Nat} : Steps R (m + n) x y ↔ ∃ z, Steps R m x z ∧ Steps R n z y := by
  induction m generalizing x with
  | zero => simp [Steps]
  | succ m ih =>
    rw [Nat.succ_add]
    constructor
    · rintro ⟨w, hw, hs⟩
      obtain ⟨z, hm, hn⟩ := ih.mp hs
      exact ⟨z, ⟨w, hw, hm⟩, hn⟩
    · rintro ⟨z, ⟨w, hw, hm⟩, hn⟩
      exact ⟨w, hw, ih.mpr ⟨z, hm, hn⟩⟩

theorem steps_mono {R' : ι → ι → Prop} (h : ∀ x y, R x y → R' x y) {k : Nat}
    (hs : Steps R k x y) : Steps R' k x y := by
  induction k generalizing x with
  | zero => exact hs
  | succ k ih =>
    obtain ⟨z, hz, hrest⟩ := hs
    exact ⟨z, h x z hz, ih hrest⟩

/-- What is reached at all is reached within as many steps as there are nodes with an edge. -/
theorem steps_bounded {s : Finset ι} (hs : ∀ z w, R z w → z ∈ s) (h : ∃ k, Steps R k x y) :
    ∃ k ≤ s.card, Steps R k x y := by
  classical
  -- The shortest walk visits no node twice, so it cannot be longer than `s`.
  obtain ⟨hk, hmin⟩ := And.intro (Nat.find_spec h) (fun m => Nat.find_min (H := h) (m := m))
  generalize Nat.find h = k at hk hmin
  refine ⟨k, ?_, hk⟩
  by_contra hlt
  have hnode : ∀ i : Fin k, ∃ z ∈ s, Steps R i x z ∧ Steps R (k - i) z y := by
    intro i
    rw [← Nat.add_sub_cancel' (show i.val ≤ k by omega)] at hk
    obtain ⟨z, hz, hrest⟩ := steps_add.mp hk
    obtain ⟨m, hm⟩ : ∃ m, k - i.val = m + 1 := ⟨k - i.val - 1, by omega⟩
    obtain ⟨w, hw, _⟩ := hm ▸ hrest
    exact ⟨z, hs z w hw, hz, hrest⟩
  choose f hf hto hfrom using hnode
  have hcard : s.card < (Finset.univ : Finset (Fin k)).card := by simpa using hlt
  obtain ⟨i, _, j, _, hij, hfe⟩ :=
    Finset.exists_ne_map_eq_of_card_lt_of_maps_to (f := f) hcard (fun i _ => hf i)
  -- Cutting the loop between the two equal nodes gives a shorter walk.
  have shorter : ∀ i j : Fin k, i < j → f i = f j → False := by
    intro i j hlt hfe
    exact hmin (i.val + (k - j.val)) (by omega) (steps_add.mpr ⟨f i, hto i, hfe ▸ hfrom j⟩)
  rcases lt_or_gt_of_ne hij with h | h
  · exact shorter i j h hfe
  · exact shorter j i h hfe.symm

/-- Everything within `n` steps of `x`, in a graph given by lists of successors. -/
def spread (succ : ι → List ι) : Nat → ι → List ι
  | 0, x => [x]
  | n + 1, x => x :: (succ x).flatMap (spread succ n)

theorem mem_spread {succ : ι → List ι} {n : Nat} :
    y ∈ spread succ n x ↔ ∃ k ≤ n, Steps (fun a b => b ∈ succ a) k x y := by
  induction n generalizing x with
  | zero => simp [spread, Steps, eq_comm]
  | succ n ih =>
    simp only [spread, List.mem_cons, List.mem_flatMap, ih]
    constructor
    · rintro (rfl | ⟨z, hz, k, hk, hs⟩)
      · exact ⟨0, by omega, rfl⟩
      · exact ⟨k + 1, by omega, z, hz, hs⟩
    · rintro ⟨k, hk, hs⟩
      cases k with
      | zero => exact Or.inl hs.symm
      | succ k =>
        obtain ⟨z, hz, hs⟩ := hs
        exact Or.inr ⟨z, hz, k, by omega, hs⟩

/-- `spread` is complete once it may take as many steps as there are nodes with a successor. -/
theorem mem_spread_of_card {succ : ι → List ι} {s : Finset ι} (hs : ∀ z w, w ∈ succ z → z ∈ s)
    {n : Nat} (hn : s.card ≤ n) :
    y ∈ spread succ n x ↔ ∃ k, Steps (fun a b => b ∈ succ a) k x y := by
  rw [mem_spread]
  constructor
  · rintro ⟨k, _, h⟩
    exact ⟨k, h⟩
  · intro h
    obtain ⟨k, hk, h⟩ := steps_bounded hs h
    exact ⟨k, by omega, h⟩

end Walks

/-! ## Forests of parent pointers -/

variable {ι : Type} {parent parent' : ι → Option ι} {a b x y id t : ι}

/-- The node `k` links above `x`. -/
def climb (parent : ι → Option ι) : Nat → ι → Option ι
  | 0, x => some x
  | k + 1, x => (parent x).bind (climb parent k)

/-- `a` is `x` or an ancestor of `x`. -/
def Above (parent : ι → Option ι) (a x : ι) : Prop := ∃ k, climb parent k x = some a

/-- The first `n` nodes on the way up from `x`, `x` included. -/
def trail (parent : ι → Option ι) : Nat → ι → List ι
  | 0, _ => []
  | n + 1, x => x :: (match parent x with
    | none => []
    | some p => trail parent n p)

theorem above_refl (x : ι) : Above parent x x := ⟨0, rfl⟩

theorem above_of_parent (h : parent x = some y) (ha : Above parent a y) : Above parent a x := by
  obtain ⟨k, hk⟩ := ha
  exact ⟨k + 1, by simp [climb, h, hk]⟩

/-- Everything above `x` is `x` itself or above its parent. -/
theorem above_iff : Above parent a x ↔ a = x ∨ ∃ p, parent x = some p ∧ Above parent a p := by
  constructor
  · rintro ⟨k, hk⟩
    cases k with
    | zero => exact Or.inl (by simpa [climb] using hk.symm)
    | succ k =>
      obtain ⟨p, hp, hk⟩ := Option.bind_eq_some_iff.mp hk
      exact Or.inr ⟨p, hp, k, hk⟩
  · rintro (rfl | ⟨p, hp, ha⟩)
    · exact above_refl a
    · exact above_of_parent hp ha

/-- `Above` is the reflexive and transitive closure of the parent link. -/
theorem above_iff_reflTransGen :
    Above parent a x ↔ Relation.ReflTransGen (fun c p => parent c = some p) x a := by
  constructor
  · rintro ⟨k, hk⟩
    induction k generalizing x with
    | zero =>
      obtain rfl : x = a := Option.some.inj hk
      exact .refl
    | succ k ih =>
      obtain ⟨p, hp, hk⟩ := Option.bind_eq_some_iff.mp hk
      exact .head hp (ih hk)
  · intro h
    induction h using Relation.ReflTransGen.head_induction_on with
    | refl => exact above_refl a
    | head hp _ ih => exact above_of_parent hp ih

theorem above_top (h : parent x = none) : Above parent a x ↔ a = x := by
  rw [above_iff]
  simp [h]

theorem climb_add (m n : Nat) (x : ι) :
    climb parent (m + n) x = (climb parent m x).bind (climb parent n) := by
  induction m generalizing x with
  | zero => simp [climb]
  | succ m ih =>
    rw [Nat.succ_add]
    cases hp : parent x with
    | none => simp [climb, hp]
    | some p => simp [climb, hp, ih]

/-- A node without a parent is met at one height only. -/
theorem climb_top_unique (htop : parent y = none) {j k : Nat} (hj : climb parent j x = some y)
    (hk : climb parent k x = some y) : j = k := by
  have hle : ∀ m n : Nat, climb parent m x = some y → climb parent n x = some y → n ≤ m := by
    intro m n hm hn
    by_contra hlt
    obtain ⟨d, rfl⟩ : ∃ d, n = m + (d + 1) := ⟨n - m - 1, by omega⟩
    rw [climb_add, hm] at hn
    simp [climb, htop] at hn
  exact Nat.le_antisymm (hle k j hk hj) (hle j k hj hk)

theorem above_trans (hab : Above parent a b) (hbx : Above parent b x) : Above parent a x := by
  obtain ⟨m, hm⟩ := hbx
  obtain ⟨n, hn⟩ := hab
  exact ⟨m + n, by simp [climb_add, hm, hn]⟩

theorem mem_trail {n : Nat} : y ∈ trail parent n x ↔ ∃ k < n, climb parent k x = some y := by
  induction n generalizing x with
  | zero => simp [trail]
  | succ n ih =>
    constructor
    · intro hy
      rcases List.mem_cons.mp hy with rfl | hy
      · exact ⟨0, by omega, rfl⟩
      · cases hp : parent x with
        | none => simp [hp] at hy
        | some p =>
          simp only [hp] at hy
          obtain ⟨k, hk, hc⟩ := ih.mp hy
          exact ⟨k + 1, by omega, by simp [climb, hp, hc]⟩
    · rintro ⟨k, hk, hc⟩
      cases k with
      | zero => simp only [climb, Option.some.injEq] at hc; simp [trail, hc]
      | succ k =>
        obtain ⟨p, hp, hc⟩ := Option.bind_eq_some_iff.mp hc
        simp only [trail, hp]
        exact List.mem_cons_of_mem _ (ih.mpr ⟨k, by omega, hc⟩)

theorem above_of_mem_trail {n : Nat} (h : y ∈ trail parent n x) : Above parent y x := by
  obtain ⟨k, _, hk⟩ := mem_trail.mp h
  exact ⟨k, hk⟩

theorem steps_of_climb {k : Nat} :
    climb parent k x = some y ↔ Steps (fun u v => parent u = some v) k x y := by
  induction k generalizing x with
  | zero => simp [climb, Steps]
  | succ k ih => simp only [climb, Option.bind_eq_some_iff, Steps, ih]

/-- A walk with one step more than there are nodes with a parent meets every ancestor. -/
theorem mem_trail_of_above {s : Finset ι} (hs : ∀ z p, parent z = some p → z ∈ s)
    {n : Nat} (hn : s.card < n) : y ∈ trail parent n x ↔ Above parent y x := by
  refine ⟨above_of_mem_trail, fun h => ?_⟩
  simp only [Above, steps_of_climb] at h
  obtain ⟨k, hk, hc⟩ := steps_bounded hs h
  exact mem_trail.mpr ⟨k, by omega, steps_of_climb.mpr hc⟩

/-- Along a way up that never meets `id`, the parent of `id` does not matter. -/
theorem climb_congr_off (hoff : ∀ z, z ≠ id → parent' z = parent z)
    (hx : ¬ Above parent id x) (k : Nat) : climb parent' k x = climb parent k x := by
  induction k generalizing x with
  | zero => rfl
  | succ k ih =>
    have hne : x ≠ id := by
      rintro rfl
      exact hx (above_refl x)
    simp only [climb, hoff x hne]
    cases hp : parent x with
    | none => rfl
    | some p =>
      simp only [Option.bind_some]
      exact ih (fun h => hx (above_of_parent hp h))

theorem above_congr_off (hoff : ∀ z, z ≠ id → parent' z = parent z) (hx : ¬ Above parent id x) :
    Above parent' a x ↔ Above parent a x := by
  simp only [Above, climb_congr_off hoff hx]

/-- The way up to the first meeting with `id` does not use the parent of `id`. -/
theorem above_self_of_off (hoff : ∀ z, z ≠ id → parent' z = parent z) (hx : Above parent id x) :
    Above parent' id x := by
  obtain ⟨k, hk⟩ := hx
  induction k generalizing x with
  | zero =>
    simp only [climb, Option.some.injEq] at hk
    exact hk ▸ above_refl _
  | succ k ih =>
    by_cases hne : x = id
    · exact hne ▸ above_refl _
    · obtain ⟨p, hp, hk⟩ := Option.bind_eq_some_iff.mp hk
      exact above_of_parent ((hoff x hne).trans hp) (ih hk)

/-- Giving `id` the parent `t` keeps everything below the root, when `t` is not below `id`. -/
theorem above_reparent (hoff : ∀ z, z ≠ id → parent' z = parent z) (hid : parent' id = some t)
    (hcycle : ¬ Above parent id t) (ht : Above parent a t) (hx : Above parent a x) :
    Above parent' a x := by
  by_cases hmeet : Above parent id x
  · have hta : Above parent' a t := (above_congr_off hoff hcycle).mpr ht
    exact above_trans (above_of_parent hid hta) (above_self_of_off hoff hmeet)
  · exact (above_congr_off hoff hmeet).mpr hx

/-- Fewer links, fewer ancestors. -/
theorem above_mono (hsub : ∀ z p, parent' z = some p → parent z = some p)
    (h : Above parent' a x) : Above parent a x := by
  obtain ⟨k, hk⟩ := h
  induction k generalizing x with
  | zero => exact ⟨0, hk⟩
  | succ k ih =>
    obtain ⟨p, hp, hk⟩ := Option.bind_eq_some_iff.mp hk
    exact above_of_parent (hsub x p hp) (ih hk)

/-- Where the parents of a set of nodes closed under taking parents are kept, so are its ancestors. -/
theorem above_of_closed {P : ι → Prop} (hkeep : ∀ z, P z → parent' z = parent z)
    (hclosed : ∀ z p, P z → parent z = some p → P p) (hx : P x) (h : Above parent a x) :
    Above parent' a x := by
  obtain ⟨k, hk⟩ := h
  induction k generalizing x with
  | zero => exact ⟨0, hk⟩
  | succ k ih =>
    obtain ⟨p, hp, hk⟩ := Option.bind_eq_some_iff.mp hk
    exact above_of_parent ((hkeep x hx).trans hp) (ih (hclosed x p hx hp) hk)

end NianPass.Forest
