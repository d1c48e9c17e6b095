import NianPass.Lib.Loop

/-
  A batch against the same work done one item at a time.

  A batch looks at all its items first (`plan`) and then acts on them in turn.
  One item at a time, every item is looked at when its turn comes. `Agree` says
  of two computations that they both fail, or that both succeed with related
  results; which error they fail with does not matter, because the two orders
  meet the first bad item at different moments.

  `batch_agrees` is the rule: the two agree if they agree on every single item,
  from every pair of states that is related with the items still to come in
  view.
-/
namespace NianPass

variable {ι α β γ δ σ τ ε ε' : Type}

/-- Both fail, or both succeed with results that `R` relates. -/
inductive Agree (R : α → β → Prop) : Except ε α → Except ε' β → Prop
  | ok {a : α} {b : β} (h : R a b) : Agree R (.ok a) (.ok b)
  | error (e : ε) (e' : ε') : Agree R (.error e) (.error e')

namespace Agree
variable {R : α → β → Prop} {R' : γ → δ → Prop} {x : Except ε α} {y : Except ε' β}

theorem bind {f : α → Except ε γ} {g : β → Except ε' δ} (h : Agree R x y)
    (hf : ∀ a b, R a b → Agree R' (f a) (g b)) : Agree R' (x >>= f) (y >>= g) := by
  cases h with
  | ok h => exact hf _ _ h
  | error e e' => exact .error e e'

/-- The same continuation after equal results. -/
theorem bind_eq {x : Except ε α} {y : Except ε α} (h : Agree Eq x y) (f : α → Except ε γ) :
    Agree Eq (x >>= f) (y >>= f) := by
  apply h.bind
  rintro a _ rfl
  cases f a with
  | ok c => exact .ok rfl
  | error e => exact .error e e

/-- What only the first does afterwards cannot fail. -/
theorem finish {S : γ → β → Prop} {f : α → Except ε γ} (h : Agree R x y)
    (hf : ∀ a b, R a b → ∃ c, f a = .ok c ∧ S c b) : Agree S (x >>= f) y := by
  cases h with
  | @ok a b h =>
    obtain ⟨c, hc, hS⟩ := hf a b h
    show Agree S (f a) (.ok b)
    rw [hc]
    exact .ok hS
  | error e e' => exact .error e e'

/-- Two computations that agree with a third, one from either side. -/
theorem trans {z : Except ε γ} {S : β → γ → Prop} {T : α → γ → Prop} (h : Agree R x y)
    (h' : Agree S y z) (hT : ∀ a b c, R a b → S b c → T a c) : Agree T x z := by
  cases h with
  | ok h =>
    cases h' with
    | ok h' => exact .ok (hT _ _ _ h h')
  | error e e' =>
    cases h' with
    | error _ e'' => exact .error e e''

/-- Computations that succeed with the same results. -/
theorem of_ok_iff {x y : Except ε α} (h : ∀ a, x = .ok a ↔ y = .ok a) : Agree Eq x y := by
  cases x with
  | ok a =>
    rw [(h a).mp rfl]
    exact .ok rfl
  | error e =>
    cases y with
    | ok a => cases (h a).mpr rfl
    | error e' => exact .error e e'

theorem of_error {e : ε} (h : Agree R (.error e) y) : ∃ e', y = .error e' := by
  cases h with
  | error _ e' => exact ⟨e', rfl⟩

theorem of_ok {a : α} (h : Agree R (.ok a : Except ε α) y) : ∃ b, y = .ok b ∧ R a b := by
  cases h with
  | ok h => exact ⟨_, rfl, h⟩

end Agree

namespace Batch

theorem bind_ok (a : α) (f : α → Except ε β) : (Except.ok a >>= f) = f a := rfl

theorem bind_ok_iff {x : Except ε α} {f : α → Except ε β} {b : β} :
    (x >>= f) = .ok b ↔ ∃ a, x = .ok a ∧ f a = .ok b := by
  refine ⟨Loop.bind_eq_ok, ?_⟩
  rintro ⟨a, rfl, h⟩
  exact h

theorem mapM_cons_ok {f : ι → Except ε α} {i : ι} {rest : List ι} {out : List α} :
    (i :: rest).mapM f = .ok out ↔
      ∃ a found, f i = .ok a ∧ rest.mapM f = .ok found ∧ out = a :: found := by
  rw [List.mapM_cons, bind_ok_iff]
  simp only [bind_ok_iff]
  constructor
  · rintro ⟨a, ha, found, hfound, hout⟩
    cases hout
    exact ⟨a, found, ha, hfound, rfl⟩
  · rintro ⟨a, found, ha, hfound, rfl⟩
    exact ⟨a, ha, found, hfound, rfl⟩

/-- Looking twice at all items, or twice at each item. -/
theorem mapM_agrees (f : ι → Except ε α) (g : α → Except ε β) (items : List ι) :
    Agree Eq (items.mapM f >>= fun found => found.mapM g)
      (items.mapM fun i => f i >>= g) := by
  apply Agree.of_ok_iff
  induction items with
  | nil => exact fun _ => Iff.rfl
  | cons i rest ih =>
    intro out
    simp only [bind_ok_iff, mapM_cons_ok]
    constructor
    · rintro ⟨_, ⟨a, found, ha, hfound, rfl⟩, hall⟩
      obtain ⟨b, later, hb, hlater, rfl⟩ := mapM_cons_ok.mp hall
      exact ⟨b, later, ⟨a, ha, hb⟩, (ih later).mp (bind_ok_iff.mpr ⟨found, hfound, hlater⟩), rfl⟩
    · rintro ⟨b, later, ⟨a, ha, hb⟩, hlater, rfl⟩
      obtain ⟨found, hfound, hrest⟩ := bind_ok_iff.mp ((ih later).mpr hlater)
      exact ⟨a :: found, ⟨a, found, ha, hfound, rfl⟩, mapM_cons_ok.mpr ⟨b, later, hb, hrest, rfl⟩⟩

/-- Looking at all items and keeping them. -/
theorem mapM_keep (g : α → Except ε β) (items : List α) :
    Agree Eq (items.mapM g >>= fun _ => (.ok items : Except ε (List α)))
      (items.mapM fun a => g a >>= fun _ => (.ok a : Except ε α)) := by
  apply Agree.of_ok_iff
  induction items with
  | nil => exact fun _ => Iff.rfl
  | cons a rest ih =>
    intro out
    simp only [bind_ok_iff, mapM_cons_ok]
    constructor
    · rintro ⟨_, ⟨b, found, hb, hfound, rfl⟩, hout⟩
      cases hout
      exact ⟨a, rest, ⟨b, hb, rfl⟩, (ih rest).mp (bind_ok_iff.mpr ⟨found, hfound, rfl⟩), rfl⟩
    · rintro ⟨_, later, ⟨b, hb, ha⟩, hlater, rfl⟩
      obtain ⟨found, hfound, hrest⟩ := bind_ok_iff.mp ((ih later).mpr hlater)
      cases ha
      cases hrest
      exact ⟨b :: found, ⟨b, found, hb, hfound, rfl⟩, rfl⟩

/-- Two loops over one list. -/
theorem foldlM_agrees {f : σ → ι → Except ε σ} {g : τ → ι → Except ε' τ}
    {Rel : List ι → σ → τ → Prop}
    (hround : ∀ i rest s t, Rel (i :: rest) s t → Agree (Rel rest) (f s i) (g t i))
    {items : List ι} {s : σ} {t : τ} (h : Rel items s t) :
    Agree (Rel []) (items.foldlM f s) (items.foldlM g t) := by
  induction items generalizing s t with
  | nil => exact .ok h
  | cons i rest ih =>
    rw [List.foldlM_cons, List.foldlM_cons]
    exact (hround i rest s t h).bind fun _ _ => ih

/-- Planning all items and then acting agrees with one step for each item. -/
theorem batch_agrees {plan : ι → Except ε α} {act : σ → α → Except ε σ}
    {step : τ → ι → Except ε' τ} {Rel : List ι → σ → τ → Prop}
    (hround : ∀ i rest s t, Rel (i :: rest) s t →
      Agree (Rel rest) (plan i >>= act s) (step t i))
    {items : List ι} {s : σ} {t : τ} (h : Rel items s t) :
    Agree (Rel []) (items.mapM plan >>= fun plans => plans.foldlM act s)
      (items.foldlM step t) := by
  induction items generalizing s t with
  | nil => exact .ok h
  | cons i rest ih =>
    have hitem := hround i rest s t h
    rw [List.mapM_cons, List.foldlM_cons]
    cases hplan : plan i with
    | error e =>
      rw [hplan] at hitem
      obtain ⟨e', he'⟩ := hitem.of_error
      rw [he']
      exact .error e e'
    | ok a =>
      rw [hplan] at hitem
      change Agree (Rel rest) (act s a) (step t i) at hitem
      cases hact : act s a with
      | error e =>
        -- The batch fails too, at this item or while it plans a later one.
        rw [hact] at hitem
        obtain ⟨e', he'⟩ := hitem.of_error
        rw [he']
        cases hrest : rest.mapM plan with
        | error e => exact .error e e'
        | ok plans =>
          show Agree (Rel []) (act s a >>= fun s' => plans.foldlM act s') (.error e')
          rw [hact]
          exact .error e e'
      | ok s' =>
        rw [hact] at hitem
        obtain ⟨t', ht', hnext⟩ := hitem.of_ok
        have hbatch := ih hnext
        rw [ht']
        cases hrest : rest.mapM plan with
        | error e =>
          rw [hrest] at hbatch
          exact hbatch
        | ok plans =>
          rw [hrest] at hbatch
          show Agree (Rel []) (act s a >>= fun s' => plans.foldlM act s') _
          rw [hact]
          exact hbatch

end Batch

end NianPass
