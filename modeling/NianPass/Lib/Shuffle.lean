import Mathlib.Algebra.Group.End
import Mathlib.Logic.Equiv.Basic
import Mathlib.Tactic

/-
  Shuffling a list by exchanges from its end.

  At position `k`, down to 1, the element there is exchanged with one at a drawn
  position not above `k`. What this does to a list is a permutation of its
  positions (`order`), and every permutation comes from exactly one sequence of
  draws (`choices`).
-/
namespace NianPass.Shuffle

variable {α : Type} [Inhabited α]

/-- `[xs[i], xs[j]] = [xs[j], xs[i]]`; outside the list there is the default. -/
def exchange (xs : List α) (i j : ℕ) : List α :=
  (xs.set i (xs[j]?.getD default)).set j (xs[i]?.getD default)

/-- The exchanges at the positions from `k` down to 1. -/
def shuffle : ℕ → List ℕ → List α → List α
  | k + 1, i :: is, xs => shuffle k is (exchange xs (k + 1) i)
  | _, _, xs => xs

/-- A draw for position `k` is at most `k`. -/
def bounds : ℕ → List ℕ
  | 0 => []
  | k + 1 => (k + 2) :: bounds k

/-- Which position of the list an element comes from. -/
def order : ℕ → List ℕ → Equiv.Perm ℕ
  | k + 1, i :: is => Equiv.swap (k + 1) i * order k is
  | _, _ => 1

/-- The draws that bring about a permutation. -/
def choices : ℕ → Equiv.Perm ℕ → List ℕ
  | 0, _ => []
  | k + 1, ρ => ρ (k + 1) :: choices k (Equiv.swap (k + 1) (ρ (k + 1)) * ρ)

/-- The permutation leaves everything above `k` where it is. -/
def Within (k : ℕ) (ρ : Equiv.Perm ℕ) : Prop := ∀ i, k < i → ρ i = i

variable {k : ℕ} {is : List ℕ} {ρ σ : Equiv.Perm ℕ}

theorem exchange_length (xs : List α) (i j : ℕ) : (exchange xs i j).length = xs.length := by
  simp [exchange]

theorem exchange_getElem? {xs : List α} {i j : ℕ} (hi : i < xs.length) (hj : j < xs.length)
    (n : ℕ) : (exchange xs i j)[n]? = xs[Equiv.swap i j n]? := by
  simp only [exchange, List.getElem?_eq_getElem hi, List.getElem?_eq_getElem hj, Option.getD_some]
  rw [List.getElem?_set, List.getElem?_set, Equiv.swap_apply_def, List.length_set]
  by_cases hnj : j = n
  · subst hnj
    rw [if_pos rfl, if_pos hj]
    by_cases hij : j = i
    · subst hij
      simp [hj]
    · simp [hij, hi]
  · rw [if_neg hnj]
    by_cases hni : i = n
    · subst hni
      simp [hi, hj]
    · simp [hni, Ne.symm hni, Ne.symm hnj]

theorem Within.mul (hρ : Within k ρ) (hσ : Within k σ) : Within k (ρ * σ) := by
  intro i hi
  rw [Equiv.Perm.mul_apply, hσ i hi, hρ i hi]

theorem Within.le (hρ : Within k ρ) {i : ℕ} (hi : i ≤ k) : ρ i ≤ k := by
  by_contra habove
  have hfix := hρ (ρ i) (Nat.lt_of_not_le habove)
  have heq : ρ i = i := ρ.injective hfix
  omega

theorem Within.weaken (hρ : Within k ρ) : Within (k + 1) ρ := fun i hi => hρ i (by omega)

theorem within_swap {i j : ℕ} (hi : i ≤ k) (hj : j ≤ k) : Within k (Equiv.swap i j) := by
  intro n hn
  exact Equiv.swap_apply_of_ne_of_ne (by omega) (by omega)

theorem order_within : ∀ {k : ℕ} {is : List ℕ}, List.Forall₂ (· < ·) is (bounds k) →
    Within k (order k is)
  | 0, is, h => by
    cases h
    exact fun _ _ => rfl
  | k + 1, is, h => by
    cases h with
    | cons hi h =>
      exact (within_swap (Nat.le_refl _) (by omega)).mul (order_within h).weaken

/-- Shuffling moves the elements as `order` says. -/
theorem shuffle_getElem? : ∀ {k : ℕ} {is : List ℕ} {xs : List α},
    List.Forall₂ (· < ·) is (bounds k) → k < xs.length →
      ∀ n : ℕ, (shuffle k is xs)[n]? = xs[order k is n]?
  | 0, is, xs, h, _, n => by
    cases h
    rfl
  | k + 1, is, xs, h, hk, n => by
    cases h with
    | @cons i _ is _ hi h =>
      have hlength : k < (exchange xs (k + 1) i).length := by
        rw [exchange_length]
        omega
      simp only [shuffle, order]
      rw [shuffle_getElem? h hlength n, exchange_getElem? hk (by omega), Equiv.Perm.mul_apply]

theorem exchange_perm {xs : List α} {i j : ℕ} (hi : i < xs.length) (hj : j < xs.length) :
    (exchange xs i j).Perm xs := by
  simp only [exchange, List.getElem?_eq_getElem hi, List.getElem?_eq_getElem hj, Option.getD_some]
  exact List.set_set_perm hi hj

theorem shuffle_perm : ∀ {k : ℕ} {is : List ℕ} {xs : List α},
    List.Forall₂ (· < ·) is (bounds k) → k < xs.length → (shuffle k is xs).Perm xs
  | 0, is, xs, h, _ => by
    cases h
    exact .rfl
  | k + 1, is, xs, h, hk => by
    cases h with
    | @cons i _ is _ hi h =>
      have hlength : k < (exchange xs (k + 1) i).length := by
        rw [exchange_length]
        omega
      exact (shuffle_perm h hlength).trans (exchange_perm hk (by omega))

/-- Elements are moved whatever they are. -/
theorem shuffle_map {β : Type} [Inhabited β] (f : α → β) {xs : List α}
    (h : List.Forall₂ (· < ·) is (bounds k)) (hk : k < xs.length) :
    shuffle k is (xs.map f) = (shuffle k is xs).map f := by
  apply List.ext_getElem?
  intro i
  rw [shuffle_getElem? h (by rwa [List.length_map]), List.getElem?_map, List.getElem?_map,
    shuffle_getElem? h hk]

/-- The draws of a permutation are allowed and bring it about. -/
theorem order_choices : ∀ {k : ℕ} {ρ : Equiv.Perm ℕ}, Within k ρ →
    List.Forall₂ (· < ·) (choices k ρ) (bounds k) ∧ order k (choices k ρ) = ρ
  | 0, ρ, h => by
    refine ⟨.nil, ?_⟩
    ext i
    rcases Nat.eq_zero_or_pos i with rfl | hi
    · have hle := h.le (Nat.le_refl 0)
      simp only [order, Equiv.Perm.one_apply]
      omega
    · exact (h i hi).symm
  | k + 1, ρ, h => by
    have hle : ρ (k + 1) ≤ k + 1 := h.le (Nat.le_refl _)
    -- the last position is settled by the first draw
    have hrest : Within k (Equiv.swap (k + 1) (ρ (k + 1)) * ρ) := by
      intro i hi
      rcases Nat.eq_or_lt_of_le (Nat.succ_le_of_lt hi) with rfl | hi
      · exact Equiv.swap_apply_right _ _
      · rw [Equiv.Perm.mul_apply, h i hi]
        exact Equiv.swap_apply_of_ne_of_ne (by omega) (by omega)
    obtain ⟨hallowed, horder⟩ := order_choices hrest
    refine ⟨.cons (by omega) hallowed, ?_⟩
    rw [choices, order, horder, ← mul_assoc, Equiv.swap_mul_self, one_mul]

/-- No other draws bring it about. -/
theorem choices_order : ∀ {k : ℕ} {is : List ℕ}, List.Forall₂ (· < ·) is (bounds k) →
    choices k (order k is) = is
  | 0, is, h => by
    cases h
    rfl
  | k + 1, is, h => by
    cases h with
    | @cons i _ is _ hi h =>
      have hlast : order k is (k + 1) = k + 1 := order_within h (k + 1) (Nat.lt_succ_self k)
      simp only [order, choices, Equiv.Perm.mul_apply, hlast, Equiv.swap_apply_left]
      rw [← mul_assoc, Equiv.swap_mul_self, one_mul, choices_order h]

/-! ## Rearrangements -/

/-- A permutation of the tail of a list. -/
def shift (σ : Equiv.Perm ℕ) : Equiv.Perm ℕ where
  toFun
    | 0 => 0
    | i + 1 => σ i + 1
  invFun
    | 0 => 0
    | i + 1 => σ.symm i + 1
  left_inv := by
    intro i
    cases i <;> simp
  right_inv := by
    intro i
    cases i <;> simp

omit [Inhabited α] in
/-- A rearrangement of a list is a permutation of its positions. -/
theorem exists_order {xs ys : List α} (h : xs.Perm ys) :
    ∃ σ : Equiv.Perm ℕ, (∀ i, xs.length ≤ i → σ i = i) ∧ ∀ i : ℕ, ys[i]? = xs[σ i]? := by
  induction h with
  | nil => exact ⟨1, fun _ _ => rfl, fun _ => rfl⟩
  | @cons a xs ys _ ih =>
    obtain ⟨σ, hfix, hget⟩ := ih
    refine ⟨shift σ, fun i hi => ?_, fun i => ?_⟩
    · cases i with
      | zero => rfl
      | succ i =>
        rw [List.length_cons] at hi
        exact congrArg (· + 1) (hfix i (by omega))
    · cases i with
      | zero => rfl
      | succ i => simpa [shift] using hget i
  | swap a b xs =>
    refine ⟨Equiv.swap 0 1, fun i hi => ?_, fun i => ?_⟩
    · simp only [List.length_cons] at hi
      exact Equiv.swap_apply_of_ne_of_ne (by omega) (by omega)
    · match i with
      | 0 => simp
      | 1 => simp
      | i + 2 => rw [Equiv.swap_apply_of_ne_of_ne (by omega) (by omega)]; rfl
  | @trans xs ys zs hxy _ ih₁ ih₂ =>
    obtain ⟨σ, hfix, hget⟩ := ih₁
    obtain ⟨τ, hfix', hget'⟩ := ih₂
    refine ⟨σ * τ, fun i hi => ?_, fun i => ?_⟩
    · rw [Equiv.Perm.mul_apply, hfix' i (hxy.length_eq ▸ hi), hfix i hi]
    · rw [Equiv.Perm.mul_apply, hget', hget]

end NianPass.Shuffle
