import Mathlib.Data.List.Nodup
import Mathlib.Logic.Function.Basic
import Mathlib.Tactic

/-
  Compare-and-swap registers and their concurrent histories.

  A register holds a value or nothing. It is read, created where there is
  nothing, or replaced by whoever names the revision of what it holds. Requests
  run concurrently: of each the history says when it was invoked and, if it was,
  when and with what it was answered.

  A history is linearizable if its effects can be put into one order, which
  respects what was answered before what was invoked, such that the registers go
  through these effects one at a time (`Linearization`). A request that was not
  answered may have had its effect or not.

  The way to show it is to mark, in the run, one point for each effect between
  the invocation and the answer: `Marked.linearization`.
-/
namespace NianPass.Register

variable {K B V : Type}

/-- What a request asks of a register. -/
inductive Operation (K B V : Type) where
  | read (key : K)
  | create (key : K) (value : B)
  | replace (key : K) (expected : V) (value : B)
  deriving DecidableEq

/-- What it did. -/
inductive Effect (K B V : Type) where
  | read (key : K) (found : Option B)
  | create (key : K) (value : B)
  | replace (key : K) (expected : V) (value : B)
  deriving DecidableEq

def Effect.operation : Effect K B V → Operation K B V
  | .read key _ => .read key
  | .create key value => .create key value
  | .replace key expected value => .replace key expected value

abbrev Store (K B : Type) := K → Option B

def Effect.Legal (revision : B → V) (store : Store K B) : Effect K B V → Prop
  | .read key found => store key = found
  | .create key _ => store key = none
  | .replace key expected _ => (store key).map revision = some expected

def Effect.apply [DecidableEq K] (store : Store K B) : Effect K B V → Store K B
  | .read _ _ => store
  | .create key value => Function.update store key (some value)
  | .replace key _ value => Function.update store key (some value)

/-- The registers after these effects, one at a time. -/
def replay [DecidableEq K] (store : Store K B) (effects : List (Effect K B V)) : Store K B :=
  effects.foldl Effect.apply store

/-- Each effect is legal where it comes. -/
def Legal [DecidableEq K] (revision : B → V) : Store K B → List (Effect K B V) → Prop
  | _, [] => True
  | store, effect :: effects =>
    effect.Legal revision store ∧ Legal revision (effect.apply store) effects

instance [DecidableEq B] [DecidableEq V] (revision : B → V) (store : Store K B) :
    (effect : Effect K B V) → Decidable (effect.Legal revision store)
  | .read key found => inferInstanceAs (Decidable (store key = found))
  | .create key _ => inferInstanceAs (Decidable (store key = none))
  | .replace key expected _ => inferInstanceAs (Decidable ((store key).map revision = some expected))

instance decidableLegal [DecidableEq K] [DecidableEq B] [DecidableEq V] (revision : B → V) :
    (store : Store K B) → (effects : List (Effect K B V)) → Decidable (Legal revision store effects)
  | _, [] => .isTrue trivial
  | store, effect :: effects =>
    have := decidableLegal revision (effect.apply store) effects
    inferInstanceAs (Decidable (effect.Legal revision store ∧ Legal revision (effect.apply store) effects))

theorem replay_concat [DecidableEq K] (store : Store K B) (effects : List (Effect K B V)) (effect : Effect K B V) :
    replay store (effects ++ [effect]) = effect.apply (replay store effects) := by
  simp [replay]

theorem legal_concat [DecidableEq K] {revision : B → V} {store : Store K B} {effects : List (Effect K B V)}
    {effect : Effect K B V} (h : Legal revision store effects)
    (heffect : effect.Legal revision (replay store effects)) :
    Legal revision store (effects ++ [effect]) := by
  induction effects generalizing store with
  | nil => exact ⟨heffect, trivial⟩
  | cons first rest ih => exact ⟨h.1, ih h.2 heffect⟩

/-! ## Histories -/

variable {N : Type}

/-- An answer that reports no effect is an error or a refusal. -/
inductive Event (N K B V : Type) where
  | invoked (id : N) (operation : Operation K B V)
  | answered (id : N) (report : Option (Effect K B V))
  deriving DecidableEq

structure Linearization [DecidableEq K] (revision : B → V) (start : Store K B) (history : List (Event N K B V))
    (final : Store K B) (order : List (N × Effect K B V)) : Prop where
  /-- Every request has its effect once. -/
  nodup : (order.map Prod.fst).Nodup
  legal : Legal revision start (order.map Prod.snd)
  final : replay start (order.map Prod.snd) = final
  invoked : ∀ id effect, (id, effect) ∈ order → .invoked id effect.operation ∈ history
  reported : ∀ id effect, .answered id (some effect) ∈ history → (id, effect) ∈ order
  /-- What was answered before the other was invoked comes before it. -/
  realTime : ∀ first report second operation,
    List.Sublist [.answered first report, .invoked second operation] history →
    ∀ effect effect', (first, effect) ∈ order → (second, effect') ∈ order →
    List.Sublist [(first, effect), (second, effect')] order

/-! ## Marked points -/

/-- A run with a point for each effect. -/
inductive Mark (N K B V : Type) where
  | event (event : Event N K B V)
  | took (id : N) (effect : Effect K B V)

def Mark.id : Mark N K B V → N
  | .event (.invoked id _) => id
  | .event (.answered id _) => id
  | .took id _ => id

def Mark.event? : Mark N K B V → Option (Event N K B V)
  | .event e => some e
  | .took _ _ => none

def Mark.effect? : Mark N K B V → Option (N × Effect K B V)
  | .event _ => none
  | .took id effect => some (id, effect)

/-- The events of a trace, which has its last mark first. -/
def history (trace : List (Mark N K B V)) : List (Event N K B V) :=
  (trace.filterMap Mark.event?).reverse

def order (trace : List (Mark N K B V)) : List (N × Effect K B V) :=
  (trace.filterMap Mark.effect?).reverse

/-- Every point lies between the invocation and the answer of its request. -/
inductive Marked : List (Mark N K B V) → Prop
  | nil : Marked []
  | invoked {trace : List (Mark N K B V)} {id : N} {operation : Operation K B V} (h : Marked trace)
      (fresh : ∀ effect, .took id effect ∉ trace) : Marked (.event (.invoked id operation) :: trace)
  | took {trace : List (Mark N K B V)} {id : N} {effect : Effect K B V} (h : Marked trace)
      (invoked : .event (.invoked id effect.operation) ∈ trace)
      (once : ∀ effect', .took id effect' ∉ trace)
      (pending : ∀ report, .event (.answered id report) ∉ trace) : Marked (.took id effect :: trace)
  | answered {trace : List (Mark N K B V)} {id : N} {report : Option (Effect K B V)} (h : Marked trace)
      (reported : ∀ effect, report = some effect → .took id effect ∈ trace) :
      Marked (.event (.answered id report) :: trace)

section Marked
variable {trace : List (Mark N K B V)}

theorem mem_order {id : N} {effect : Effect K B V} :
    (id, effect) ∈ order trace ↔ .took id effect ∈ trace := by
  simp only [order, List.mem_reverse, List.mem_filterMap]
  constructor
  · rintro ⟨mark, hmark, heq⟩
    cases mark with
    | event event => cases heq
    | took id' effect' =>
      cases heq
      exact hmark
  · intro h
    exact ⟨_, h, rfl⟩

theorem mem_history {event : Event N K B V} : event ∈ history trace ↔ .event event ∈ trace := by
  simp only [history, List.mem_reverse, List.mem_filterMap]
  constructor
  · rintro ⟨mark, hmark, heq⟩
    cases mark with
    | event event' =>
      cases heq
      exact hmark
    | took id effect => cases heq
  · intro h
    exact ⟨_, h, rfl⟩

theorem Marked.nodup (h : Marked trace) : ((order trace).map Prod.fst).Nodup := by
  rw [order, List.map_reverse, List.nodup_reverse]
  induction h with
  | nil => exact List.nodup_nil
  | invoked h fresh ih => exact ih
  | @took trace id effect h invoked once pending ih =>
    refine List.nodup_cons.2 ⟨?_, ih⟩
    intro hmem
    obtain ⟨⟨id', effect'⟩, hmem, heq⟩ := List.mem_map.1 hmem
    cases heq
    exact once effect' (mem_order.1 (List.mem_reverse.2 hmem))
  | answered h reported ih => exact ih

theorem Marked.of_took {id : N} {effect : Effect K B V} (h : Marked trace)
    (hmem : .took id effect ∈ trace) : .event (.invoked id effect.operation) ∈ trace := by
  induction h with
  | nil => cases hmem
  | invoked h fresh ih =>
    obtain heq | hmem := List.mem_cons.1 hmem
    · cases heq
    · exact List.mem_cons_of_mem _ (ih hmem)
  | took h invoked once pending ih =>
    obtain heq | hmem := List.mem_cons.1 hmem
    · cases heq
      exact List.mem_cons_of_mem _ invoked
    · exact List.mem_cons_of_mem _ (ih hmem)
  | answered h reported ih =>
    obtain heq | hmem := List.mem_cons.1 hmem
    · cases heq
    · exact List.mem_cons_of_mem _ (ih hmem)

theorem Marked.of_answered {id : N} {effect : Effect K B V} (h : Marked trace)
    (hmem : .event (.answered id (some effect)) ∈ trace) : .took id effect ∈ trace := by
  induction h with
  | nil => cases hmem
  | invoked h fresh ih =>
    obtain heq | hmem := List.mem_cons.1 hmem
    · cases heq
    · exact List.mem_cons_of_mem _ (ih hmem)
  | took h invoked once pending ih =>
    obtain heq | hmem := List.mem_cons.1 hmem
    · cases heq
    · exact List.mem_cons_of_mem _ (ih hmem)
  | answered h reported ih =>
    obtain heq | hmem := List.mem_cons.1 hmem
    · cases heq
      exact List.mem_cons_of_mem _ (reported effect rfl)
    · exact List.mem_cons_of_mem _ (ih hmem)

/-- The point of a request that was answered before another was invoked comes before the point of
that one. In the trace the last comes first. -/
theorem Marked.realTime {first second : N} {report : Option (Effect K B V)}
    {operation : Operation K B V} {effect effect' : Effect K B V} (h : Marked trace)
    (hbefore : List.Sublist [.invoked second operation, .answered first report]
      (trace.filterMap Mark.event?))
    (hfirst : .took first effect ∈ trace) (hsecond : .took second effect' ∈ trace) :
    List.Sublist [(second, effect'), (first, effect)] (trace.filterMap Mark.effect?) := by
  induction h with
  | nil => cases hfirst
  | @invoked trace id operation' h fresh ih =>
    obtain heq | hfirst' := List.mem_cons.1 hfirst
    · cases heq
    obtain heq | hsecond' := List.mem_cons.1 hsecond
    · cases heq
    cases hbefore with
    | cons _ hbefore => exact ih hbefore hfirst' hsecond'
    | cons_cons _ hbefore => exact absurd hsecond' (fresh _)
  | @took trace id effect'' h invoked once pending ih =>
    have hanswered : .event (.answered first report) ∈ trace := by
      have hmem := hbefore.subset (List.mem_cons_of_mem _ (List.mem_singleton.2 rfl))
      exact mem_history.1 (List.mem_reverse.2 hmem)
    obtain heq | hfirst' := List.mem_cons.1 hfirst
    · cases heq
      exact absurd hanswered (pending report)
    obtain heq | hsecond' := List.mem_cons.1 hsecond
    · cases heq
      have hmem := mem_order.2 hfirst'
      exact List.Sublist.cons_cons _ (List.singleton_sublist.2 (List.mem_reverse.1 hmem))
    · exact List.Sublist.cons _ (ih hbefore hfirst' hsecond')
  | @answered trace id report' h reported ih =>
    obtain heq | hfirst' := List.mem_cons.1 hfirst
    · cases heq
    obtain heq | hsecond' := List.mem_cons.1 hsecond
    · cases heq
    cases hbefore with
    | cons _ hbefore => exact ih hbefore hfirst' hsecond'

/-- A run whose points are legal one after the other is linearizable. -/
theorem Marked.linearization [DecidableEq K] {revision : B → V} {start final : Store K B} (h : Marked trace)
    (hlegal : Legal revision start ((order trace).map Prod.snd))
    (hfinal : replay start ((order trace).map Prod.snd) = final) :
    Linearization revision start (history trace) final (order trace) where
  nodup := h.nodup
  legal := hlegal
  final := hfinal
  invoked id effect hmem := mem_history.2 (h.of_took (mem_order.1 hmem))
  reported id effect hmem := mem_order.2 (h.of_answered (mem_history.1 hmem))
  realTime first report second operation hbefore effect effect' hfirst hsecond := by
    have hbefore : List.Sublist [.invoked second operation, .answered first report]
        (trace.filterMap Mark.event?) := by
      have hreverse := hbefore.reverse
      rwa [history, List.reverse_reverse] at hreverse
    have hsublist := h.realTime hbefore (mem_order.1 hfirst) (mem_order.1 hsecond)
    have hreverse := hsublist.reverse
    rwa [← order] at hreverse

end Marked

end NianPass.Register
