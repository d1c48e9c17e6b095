import Mathlib.Tactic

/-
  Methods that change an object in place and may fail.

  A method of state `σ` reads and writes the state as it goes and stops at the
  first error. What was written before the error stays written: there is no
  rollback, so whether a failed call leaves the object as it was is a property
  of the method and not of the monad.

  `m.Yields s Q` says that the answer of `m` from the state `s` and the state it
  leaves satisfy `Q`. The rules below take a method apart one statement at a
  time; `Q` sees an error together with the state the error left behind.
-/
namespace NianPass

variable {σ ε α β : Type}

/-- A method on `&mut self` that returns a `Result`. -/
abbrev Method (σ ε α : Type) := ExceptT ε (StateM σ) α

namespace Method

/-- The answer from `s`, and the state afterwards. -/
def call (m : Method σ ε α) (s : σ) : Except ε α × σ := Id.run (StateT.run (ExceptT.run m) s)

/-- `ok_or(e)?`. -/
def okOr (e : ε) (found : Option α) : Method σ ε α :=
  match found with
  | some a => pure a
  | none => throw e

/-- `?` on the result of a pure computation. -/
def check (result : Except ε α) : Method σ ε α :=
  match result with
  | .ok a => pure a
  | .error e => throw e

def Yields (m : Method σ ε α) (s : σ) (Q : Except ε α → σ → Prop) : Prop :=
  Q (m.call s).1 (m.call s).2

variable {s : σ} {Q Q' : Except ε α → σ → Prop}

theorem call_bind (m : Method σ ε β) (f : β → Method σ ε α) (s : σ) :
    (m >>= f).call s = match m.call s with
      | (.ok b, t) => (f b).call t
      | (.error e, t) => (.error e, t) := by
  show Id.run (StateT.run (ExceptT.run (m >>= f)) s) = _
  rw [ExceptT.run_bind, StateT.run_bind]
  show Id.run (StateT.run (match (m.call s).1 with
    | .ok b => ExceptT.run (f b)
    | .error e => pure (.error e)) (m.call s).2) = _
  rcases m.call s with ⟨_ | _, t⟩ <;> rfl

/-! Running a method whose next step is known to succeed. -/

theorem call_get (f : σ → Method σ ε α) (s : σ) : (get >>= f).call s = (f s).call s :=
  call_bind get f s

theorem call_check {result : Except ε β} {b : β} (h : result = .ok b) (f : β → Method σ ε α)
    (s : σ) : (check result >>= f).call s = (f b).call s := by
  rw [h, call_bind]
  rfl

theorem call_okOr {e : ε} {found : Option β} {b : β} (h : found = some b)
    (f : β → Method σ ε α) (s : σ) : (okOr e found >>= f).call s = (f b).call s := by
  rw [h, call_bind]
  rfl

theorem yields_bind {m : Method σ ε β} {f : β → Method σ ε α}
    (h : m.Yields s fun r t => match r with
      | .ok b => (f b).Yields t Q
      | .error e => Q (.error e) t) : (m >>= f).Yields s Q := by
  unfold Yields at h ⊢
  rw [call_bind]
  rcases hm : m.call s with ⟨_ | _, t⟩ <;> rw [hm] at h <;> exact h

theorem Yields.weaken {m : Method σ ε α} (h : m.Yields s Q) (hQ : ∀ r t, Q r t → Q' r t) :
    m.Yields s Q' := hQ _ _ h

/-- Reading the state. -/
theorem yields_get {f : σ → Method σ ε α} (h : (f s).Yields s Q) : (get >>= f).Yields s Q :=
  yields_bind h

theorem yields_modify {g : σ → σ} {f : PUnit → Method σ ε α} (h : (f ⟨⟩).Yields (g s) Q) :
    (modify g >>= f).Yields s Q :=
  yields_bind h

theorem yields_okOr {e : ε} {found : Option β} {f : β → Method σ ε α}
    (hnone : found = none → Q (.error e) s) (hsome : ∀ b, found = some b → (f b).Yields s Q) :
    (okOr e found >>= f).Yields s Q := by
  apply yields_bind
  cases found with
  | none => exact hnone rfl
  | some b => exact hsome b rfl

theorem yields_check {result : Except ε β} {f : β → Method σ ε α}
    (herror : ∀ e, result = .error e → Q (.error e) s)
    (hok : ∀ b, result = .ok b → (f b).Yields s Q) : (check result >>= f).Yields s Q := by
  apply yields_bind
  cases result with
  | error e => exact herror e rfl
  | ok b => exact hok b rfl

theorem yields_ite {c : Prop} [Decidable c] {m n : Method σ ε α} (hm : c → m.Yields s Q)
    (hn : ¬ c → n.Yields s Q) : (if c then m else n).Yields s Q := by
  split
  · case isTrue h => exact hm h
  · case isFalse h => exact hn h

end Method

end NianPass
