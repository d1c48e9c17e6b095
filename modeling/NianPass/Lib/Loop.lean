import Mathlib.Tactic

/-
  Loops over a list that carry a state and may fail: `xs.foldlM f s` in
  `Except ε`.

  The rules are relative to a predicate `Q` that a step can lose and never
  regain (a log that is still empty, for instance): when `Q` holds at the end
  of a run it held after every step, and each rule may assume so. With `Q := fun _ =>
  True` they are the usual rules.

  `foldlM_invariant` is the invariant rule. `foldlM_visit` is for a loop that
  visits each key once, where the rounds for other keys leave alone what `view`
  shows of this one: what the run does to the view is what the one round for
  the key does to it.
-/
namespace NianPass.Loop

variable {σ ι ε : Type} {f : σ → ι → Except ε σ} {Q : σ → Prop} {xs : List ι} {s t : σ}

/-- A computation that succeeds has succeeded in its first step. -/
theorem bind_eq_ok {α β : Type} {x : Except ε α} {g : α → Except ε β} {b : β}
    (h : (x >>= g) = .ok b) : ∃ a, x = .ok a ∧ g a = .ok b := by
  cases x with
  | error e => cases h
  | ok a => exact ⟨a, rfl, h⟩

theorem foldlM_cons_ok {x : ι} :
    (x :: xs).foldlM f s = .ok t ↔ ∃ u, f s x = .ok u ∧ xs.foldlM f u = .ok t := by
  rw [List.foldlM_cons]
  cases f s x with
  | error e => exact ⟨fun h => (nomatch h), fun ⟨_, h, _⟩ => (nomatch h)⟩
  | ok u =>
    constructor
    · intro h
      exact ⟨u, rfl, h⟩
    · rintro ⟨w, hw, h⟩
      cases hw
      exact h

/-- `Q` at the end is `Q` at the start. -/
theorem foldlM_quiet (hback : ∀ s i t, f s i = .ok t → Q t → Q s)
    (h : xs.foldlM f s = .ok t) (hq : Q t) : Q s := by
  induction xs generalizing s with
  | nil =>
    cases h
    exact hq
  | cons x xs ih =>
    obtain ⟨u, hu, hrest⟩ := foldlM_cons_ok.mp h
    exact hback s x u hu (ih hrest)

theorem foldlM_invariant {P : σ → Prop} (hback : ∀ s i t, f s i = .ok t → Q t → Q s)
    (hstep : ∀ i ∈ xs, ∀ s t, Q t → P s → f s i = .ok t → P t)
    (h : xs.foldlM f s = .ok t) (hq : Q t) (hs : P s) : P t := by
  induction xs generalizing s with
  | nil =>
    cases h
    exact hs
  | cons x xs ih =>
    obtain ⟨u, hu, hrest⟩ := foldlM_cons_ok.mp h
    have hqu := foldlM_quiet hback hrest hq
    exact ih (fun i hi => hstep i (List.mem_cons_of_mem x hi)) hrest
      (hstep x List.mem_cons_self s u hqu hs hu)

/-- The invariant rule for an invariant that also speaks of the rounds still to come. -/
theorem foldlM_remaining {P : List ι → σ → Prop}
    (hback : ∀ s i t, f s i = .ok t → Q t → Q s)
    (hstep : ∀ i rest s t, Q t → P (i :: rest) s → f s i = .ok t → P rest t)
    (h : xs.foldlM f s = .ok t) (hq : Q t) (hs : P xs s) : P [] t := by
  induction xs generalizing s with
  | nil =>
    cases h
    exact hs
  | cons x xs ih =>
    obtain ⟨u, hu, hrest⟩ := foldlM_cons_ok.mp h
    exact ih hrest (hstep x xs s u (foldlM_quiet hback hrest hq) hs hu)

/-- A loop ends if no round fails, where `P` speaks of the rounds still to come. -/
theorem foldlM_total {P : List ι → σ → Prop}
    (hstep : ∀ i rest s, P (i :: rest) s → ∃ t, f s i = .ok t ∧ P rest t) (hs : P xs s) :
    ∃ t, xs.foldlM f s = .ok t := by
  induction xs generalizing s with
  | nil => exact ⟨s, rfl⟩
  | cons x xs ih =>
    obtain ⟨u, hu, hrest⟩ := hstep x xs s hs
    obtain ⟨t, ht⟩ := ih hrest
    exact ⟨t, foldlM_cons_ok.mpr ⟨u, hu, ht⟩⟩

/-- What no round changes, the run does not change. -/
theorem foldlM_keep {α : Type} (view : σ → α) (I : σ → Prop)
    (hback : ∀ s i t, f s i = .ok t → Q t → Q s)
    (hinv : ∀ i ∈ xs, ∀ s t, Q t → I s → f s i = .ok t → I t)
    (hkeep : ∀ i ∈ xs, ∀ s t, Q t → I s → f s i = .ok t → view t = view s)
    (h : xs.foldlM f s = .ok t) (hq : Q t) (hs : I s) : view t = view s := by
  have := foldlM_invariant (P := fun u => I u ∧ view u = view s) hback ?_ h hq ⟨hs, rfl⟩
  · exact this.2
  · rintro i hi u v hqv ⟨hIu, hview⟩ hv
    exact ⟨hinv i hi u v hqv hIu hv, (hkeep i hi u v hqv hIu hv).trans hview⟩

/-- The round for `k` decides what the run does to the view of `k`. -/
theorem foldlM_visit {α : Type} (view : σ → α) (I : σ → Prop) {k : ι}
    (hback : ∀ s i t, f s i = .ok t → Q t → Q s)
    (hinv : ∀ i ∈ xs, ∀ s t, Q t → I s → f s i = .ok t → I t)
    (hkeep : ∀ i ∈ xs, i ≠ k → ∀ s t, Q t → I s → f s i = .ok t → view t = view s)
    (hk : k ∈ xs) (hnodup : xs.Nodup) (h : xs.foldlM f s = .ok t) (hq : Q t) (hs : I s) :
    ∃ u v, I u ∧ f u k = .ok v ∧ Q v ∧ view u = view s ∧ view t = view v := by
  induction xs generalizing s with
  | nil => cases hk
  | cons x xs ih =>
    obtain ⟨hx, hnodup⟩ := List.nodup_cons.mp hnodup
    obtain ⟨u, hu, hrest⟩ := foldlM_cons_ok.mp h
    have hqu := foldlM_quiet hback hrest hq
    have hIu := hinv x List.mem_cons_self s u hqu hs hu
    have hinv' : ∀ i ∈ xs, ∀ s t, Q t → I s → f s i = .ok t → I t :=
      fun i hi => hinv i (List.mem_cons_of_mem x hi)
    by_cases hxk : x = k
    · -- This is the round for `k`; the rest of the run leaves the view alone.
      subst hxk
      refine ⟨s, u, hs, hu, hqu, rfl, ?_⟩
      refine foldlM_keep view I hback hinv' ?_ hrest hq hIu
      intro i hi
      exact hkeep i (List.mem_cons_of_mem x hi) (fun heq => hx (heq ▸ hi))
    · have hk' : k ∈ xs := (List.mem_cons.mp hk).resolve_left (Ne.symm hxk)
      obtain ⟨v, w, hIv, hw, hqw, hview, hend⟩ := ih hinv'
        (fun i hi => hkeep i (List.mem_cons_of_mem x hi)) hk' hnodup hrest hIu
      exact ⟨v, w, hIv, hw, hqw, hview.trans (hkeep x List.mem_cons_self hxk s u hqu hs hu), hend⟩

end NianPass.Loop
