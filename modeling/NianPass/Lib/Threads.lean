import NianPass.Lib.Program
import Mathlib.Logic.Function.Basic
import Mathlib.Logic.Relation

/-
  Programs that run as threads on a state they share.

  A step is one request of one thread, or a move of something outside; the steps come in
  any order. A request for which the state has no step waits, as the taking of a held lock
  does.

  A `Contract` says what every step keeps (`inv`), what each thread may rely on from
  everybody else (`rely`), and which requests it may make where. It is `Sound` if permitted
  requests keep the first two. A thread is `Upheld` if it assumes at each of its requests
  no more than what the others cannot undo, and is permitted the request. The rule
  (`Runs.upholds`) is that under a sound contract threads that are upheld stay upheld in
  every run.

  `Locks.unblocked`: threads that take locks in the order of a rank, and hold none at
  their end, never wait for each other in a circle.
-/
namespace NianPass.Threads

variable {T E : Type} {R : E → Type} {σ α β : Type}

structure System (T E : Type) (R : E → Type) (σ : Type) where
  step : T → σ → (e : E) → R e → σ → Prop
  outside : σ → σ → Prop

structure Contract (S : System T E R σ) where
  inv : σ → Prop
  rely : T → σ → σ → Prop
  permits : T → σ → E → Prop

namespace Contract
variable {S : System T E R σ} (C : Contract S) (t : T)

structure Sound : Prop where
  own_inv : ∀ {t s e r s'}, C.inv s → C.permits t s e → S.step t s e r s' → C.inv s'
  own_rely : ∀ {t s e r s'}, C.inv s → C.permits t s e → S.step t s e r s' →
    ∀ u, u ≠ t → C.rely u s s'
  outside_inv : ∀ {s s'}, C.inv s → S.outside s s' → C.inv s'
  outside_rely : ∀ {s s'}, C.inv s → S.outside s s' → ∀ u, C.rely u s s'

/-- What the others cannot undo. -/
def Stable (A : σ → Prop) : Prop :=
  ∀ s s', C.inv s → C.inv s' → C.rely t s s' → A s → A s'

/-- From `s`, and from wherever the others take it, `p` is permitted what it requests, and returns
with `Q`. -/
def Upheld (Q : σ → α → Prop) : Program E R α → σ → Prop
  | .done a, s => ∃ A, C.Stable t A ∧ A s ∧ ∀ s', C.inv s' → A s' → Q s' a
  | .ask e k, s => ∃ A, C.Stable t A ∧ A s ∧ ∀ s', C.inv s' → A s' →
      C.permits t s' e ∧ ∀ r s'', S.step t s' e r s'' → C.inv s'' → Upheld Q (k r) s''

end Contract

section Upheld
variable {S : System T E R σ} {C : Contract S} {t : T} {Q Q' : σ → α → Prop}
variable {p : Program E R α} {s s' : σ}

theorem upheld_done {a : α} (A : σ → Prop) (hstable : C.Stable t A) (h : A s)
    (hQ : ∀ s', C.inv s' → A s' → Q s' a) : C.Upheld t Q (.done a) s :=
  ⟨A, hstable, h, hQ⟩

/-- A request is made where `A` holds, and leaves something that the rest can start from. -/
theorem upheld_request {e : E} {k : R e → Program E R α} (A : σ → Prop) (B : R e → σ → Prop)
    (hstable : C.Stable t A) (h : A s) (hpermits : ∀ s', C.inv s' → A s' → C.permits t s' e)
    (hstep : ∀ s' r s'', C.inv s' → A s' → S.step t s' e r s'' → C.inv s'' → B r s'')
    (hrest : ∀ r s'', C.inv s'' → B r s'' → C.Upheld t Q (k r) s'') :
    C.Upheld t Q ((Program.request e).bind k) s :=
  ⟨A, hstable, h, fun s' hinv hA => ⟨hpermits s' hinv hA, fun r s'' hr hinv' =>
    hrest r s'' hinv' (hstep s' r s'' hinv hA hr hinv')⟩⟩

/-- The others do not undo it. -/
theorem Contract.Upheld.rely (h : C.Upheld t Q p s) (hs : C.inv s) (hs' : C.inv s')
    (hrely : C.rely t s s') : C.Upheld t Q p s' := by
  cases p with
  | done a =>
    obtain ⟨A, hstable, hA, hQ⟩ := h
    exact ⟨A, hstable, hstable s s' hs hs' hrely hA, hQ⟩
  | ask e k =>
    obtain ⟨A, hstable, hA, hstep⟩ := h
    exact ⟨A, hstable, hstable s s' hs hs' hrely hA, hstep⟩

theorem Contract.Upheld.bind {f : α → Program E R β} {G : σ → β → Prop} (hinv : C.inv s)
    (h : C.Upheld t Q p s) (hf : ∀ s' a, C.inv s' → Q s' a → C.Upheld t G (f a) s') :
    C.Upheld t G (p.bind f) s := by
  induction p generalizing s with
  | done a =>
    obtain ⟨A, -, hA, hdone⟩ := h
    exact hf s a hinv (hdone s hinv hA)
  | ask e k ih =>
    obtain ⟨A, hstable, hA, hask⟩ := h
    refine ⟨A, hstable, hA, fun s' hinv' hA' => ⟨(hask s' hinv' hA').1, ?_⟩⟩
    intro r s'' hstep hinv''
    exact ih r hinv'' ((hask s' hinv' hA').2 r s'' hstep hinv'')

end Upheld

/-! ## Runs -/

/-- The shared state, and what each thread has left to do. -/
structure Pool (T E : Type) (R : E → Type) (σ α : Type) where
  shared : σ
  left : T → Program E R α

/-- Every thread of the pool is upheld. -/
def Contract.Upholds {S : System T E R σ} (C : Contract S) (Q : T → σ → α → Prop)
    (pool : Pool T E R σ α) : Prop :=
  C.inv pool.shared ∧ ∀ t, C.Upheld t (Q t) (pool.left t) pool.shared

section Upholds
variable {S : System T E R σ} {C : Contract S} {Q : T → σ → α → Prop} {pool : Pool T E R σ α}

/-- A thread that has returned has returned with its postcondition, which still holds. -/
theorem Contract.Upholds.returned (h : C.Upholds Q pool) {t : T} {a : α}
    (hdone : pool.left t = .done a) : Q t pool.shared a := by
  have hupheld := h.2 t
  rw [hdone] at hupheld
  obtain ⟨A, -, hA, hQ⟩ := hupheld
  exact hQ _ h.1 hA

theorem Contract.Upholds.permitted (h : C.Upholds Q pool) {t : T} {e : E}
    {k : R e → Program E R α} (hnext : pool.left t = .ask e k) : C.permits t pool.shared e := by
  have hupheld := h.2 t
  rw [hnext] at hupheld
  obtain ⟨A, -, hA, hask⟩ := hupheld
  exact (hask _ h.1 hA).1

end Upholds

section Runs
variable [DecidableEq T]

/-- The steps of a pool. -/
inductive Step (S : System T E R σ) : Pool T E R σ α → Pool T E R σ α → Prop
  | own (pool : Pool T E R σ α) (t : T) (e : E) (k : R e → Program E R α) (r : R e) (s : σ)
      (next : pool.left t = .ask e k) (moves : S.step t pool.shared e r s) :
      Step S pool ⟨s, Function.update pool.left t (k r)⟩
  | outside (pool : Pool T E R σ α) (s : σ) (moves : S.outside pool.shared s) :
      Step S pool { pool with shared := s }

def Runs (S : System T E R σ) : Pool T E R σ α → Pool T E R σ α → Prop :=
  Relation.ReflTransGen (Step S)

variable {S : System T E R σ} {C : Contract S} {Q : T → σ → α → Prop} {pool pool' : Pool T E R σ α}

theorem Step.upholds (hsound : C.Sound) (h : C.Upholds Q pool) (hstep : Step S pool pool') :
    C.Upholds Q pool' := by
  obtain ⟨hinv, hall⟩ := h
  cases hstep with
  | own t e k r s hnext hmoves =>
    have hown := hall t
    rw [hnext] at hown
    obtain ⟨A, -, hA, hask⟩ := hown
    obtain ⟨hpermits, hrest⟩ := hask pool.shared hinv hA
    have hinv' : C.inv s := hsound.own_inv hinv hpermits hmoves
    refine ⟨hinv', fun u => ?_⟩
    by_cases hu : u = t
    · subst hu
      show C.Upheld u (Q u) (Function.update pool.left u (k r) u) s
      rw [Function.update_self]
      exact hrest r s hmoves hinv'
    · show C.Upheld u (Q u) (Function.update pool.left t (k r) u) s
      rw [Function.update_of_ne hu]
      exact (hall u).rely hinv hinv' (hsound.own_rely hinv hpermits hmoves u hu)
  | outside s hmoves =>
    have hinv' : C.inv s := hsound.outside_inv hinv hmoves
    exact ⟨hinv', fun t => (hall t).rely hinv hinv' (hsound.outside_rely hinv hmoves t)⟩

theorem Runs.upholds (hsound : C.Sound) (h : C.Upholds Q pool) (hruns : Runs S pool pool') :
    C.Upholds Q pool' := by
  induction hruns with
  | refl => exact h
  | tail _ hstep ih => exact hstep.upholds hsound ih

end Runs

/-! ## Locks taken in an order -/

/-- The locks of a contract: who holds them, which request takes which, and their order. -/
structure Locks (L : Type) {S : System T E R σ} (C : Contract S) where
  holder : σ → L → Option T
  takes : E → Option L
  rank : L → ℕ
  /-- a thread takes only what comes behind all that it holds -/
  ordered : ∀ {t s e l}, C.permits t s e → takes e = some l →
    ∀ {held}, holder s held = some t → rank held < rank l
  /-- only the taking of a held lock waits -/
  moves : ∀ {t s e}, C.inv s → C.permits t s e →
    (∀ l, takes e = some l → holder s l = none) → ∃ r s', S.step t s e r s'

/-- The thread can take a step. -/
def Moves (S : System T E R σ) (pool : Pool T E R σ α) (t : T) : Prop :=
  ∃ e k r s, pool.left t = .ask e k ∧ S.step t pool.shared e r s

section Locks
variable {L : Type} {S : System T E R σ} {C : Contract S} {Q : T → σ → α → Prop}
variable {pool : Pool T E R σ α}

/-- A request that waits for no held lock is followed by a step. -/
theorem Locks.moves_of_free (locks : Locks L C) (h : C.Upholds Q pool) {t : T} {e : E}
    {k : R e → Program E R α} (hnext : pool.left t = .ask e k)
    (hfree : ∀ l, locks.takes e = some l → locks.holder pool.shared l = none) :
    Moves S pool t := by
  obtain ⟨r, s, hstep⟩ := locks.moves h.1 (h.permitted hnext) hfree
  exact ⟨e, k, r, s, hnext, hstep⟩

/-- Behind a thread that waits for a lock there is one that can take a step, or one that waits for a
lock of a higher rank. -/
theorem Locks.moves_or_waits (locks : Locks L C) (h : C.Upholds Q pool)
    (hreleased : ∀ t s a, C.inv s → Q t s a → ∀ l, locks.holder s l ≠ some t)
    {t : T} {e : E} {k : R e → Program E R α} {l : L} (hnext : pool.left t = .ask e k)
    (htakes : locks.takes e = some l) :
    (∃ u, Moves S pool u) ∨ ∃ u e' k' l', pool.left u = .ask e' k' ∧
      locks.takes e' = some l' ∧ locks.rank l < locks.rank l' := by
  cases hholder : locks.holder pool.shared l with
  | none =>
    refine .inl ⟨t, locks.moves_of_free h hnext fun l' hl' => ?_⟩
    rw [htakes] at hl'
    cases hl'
    exact hholder
  | some u =>
    cases hu : pool.left u with
    | done a => exact absurd hholder (hreleased u _ a h.1 (h.returned hu) l)
    | ask e' k' =>
      cases htakes' : locks.takes e' with
      | none =>
        refine .inl ⟨u, locks.moves_of_free h hu fun l' hl' => ?_⟩
        rw [htakes'] at hl'
        cases hl'
      | some l' =>
        exact .inr ⟨u, e', k', l', hu, htakes', locks.ordered (h.permitted hu) htakes' hholder⟩

/-- If a thread has something left to do, some thread can take a step: along the waiting the rank
grows. -/
theorem Locks.unblocked (locks : Locks L C) (h : C.Upholds Q pool) {bound : ℕ}
    (hbound : ∀ l, locks.rank l ≤ bound)
    (hreleased : ∀ t s a, C.inv s → Q t s a → ∀ l, locks.holder s l ≠ some t)
    {t : T} (hleft : ∀ a, pool.left t ≠ .done a) : ∃ u, Moves S pool u := by
  -- by how far the rank of the lock is from the bound
  have key : ∀ n t e k l, pool.left t = .ask e k → locks.takes e = some l →
      bound - locks.rank l ≤ n → ∃ u, Moves S pool u := by
    intro n
    induction n with
    | zero =>
      intro t e k l hnext htakes hn
      rcases locks.moves_or_waits h hreleased hnext htakes with hmoves | ⟨u, e', k', l', -, -, hlt⟩
      · exact hmoves
      · have hle := hbound l'
        omega
    | succ n ih =>
      intro t e k l hnext htakes hn
      rcases locks.moves_or_waits h hreleased hnext htakes with
        hmoves | ⟨u, e', k', l', hu, htakes', hlt⟩
      · exact hmoves
      · exact ih u e' k' l' hu htakes' (by omega)
  cases hnext : pool.left t with
  | done a => exact absurd hnext (hleft a)
  | ask e k =>
    cases htakes : locks.takes e with
    | none =>
      refine ⟨t, locks.moves_of_free h hnext fun l hl => ?_⟩
      rw [htakes] at hl
      cases hl
    | some l => exact key (bound - locks.rank l) t e k l hnext htakes le_rfl

end Locks

end NianPass.Threads
