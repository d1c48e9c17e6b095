import Mathlib.Data.List.Basic
import Mathlib.Tactic

/-
  The privacy curtain of the Android app: `MobileSecurityPolicy`.

  Every activity has a generation, which is renewed by each transition that may
  have shown something else: its own resume and focus changes, and those of the
  process and of the screen. The curtain of an activity is lifted by an
  acknowledgement with its current generation. The counter of generations stops
  at the largest integer a web view can represent; from then on it hands out one
  number twice.

  `curtain_acknowledged` says what is known of an activity without a curtain:
  it can be seen, and since its last transition it was acknowledged with its
  current generation, and no acknowledgement failed after that. A generation
  that was issued before a transition does not lift the curtain afterwards, and
  none does once the counter is exhausted.
-/
namespace NianPass.Android

inductive ScreenState where
  | active
  | screenOff
  | deviceLocked
  deriving DecidableEq, Repr

structure ActivityState where
  activityResumed : Bool := false
  windowFocused : Bool := false
  generation : Int
  curtainRequired : Bool := true
  deriving DecidableEq, Repr

structure SecuritySnapshot where
  foreground : Bool
  activityResumed : Bool
  windowFocused : Bool
  elapsedRealtimeMs : Int
  generation : Int
  screenState : ScreenState
  curtainVisible : Bool
  deriving DecidableEq, Repr

def maxSafeGeneration : Int := 9007199254740991

structure Generations where
  sequence : Int := 0
  exhausted : Bool := false
  deriving DecidableEq, Repr

/-- `nextGeneration`. -/
def Generations.next (generations : Generations) : Int × Generations :=
  if maxSafeGeneration ≤ generations.sequence then
    (maxSafeGeneration, { generations with exhausted := true })
  else (generations.sequence + 1, { generations with sequence := generations.sequence + 1 })

/-- The activities in the order in which they were attached. -/
structure SecurityPolicy (K : Type) where
  activities : List (K × ActivityState) := []
  processForeground : Bool := false
  screenState : ScreenState := .active
  generations : Generations := {}

variable {K : Type} [DecidableEq K]

def invalidateAll (generations : Generations) :
    List (K × ActivityState) → List (K × ActivityState) × Generations
  | [] => ([], generations)
  | (key, state) :: rest =>
    let (generation, generations) := generations.next
    let (rest, generations) := invalidateAll generations rest
    ((key, { state with generation := generation, curtainRequired := true }) :: rest, generations)

namespace SecurityPolicy

def find (p : SecurityPolicy K) (activity : K) : Option ActivityState :=
  (p.activities.find? (·.1 = activity)).map Prod.snd

def put (p : SecurityPolicy K) (activity : K) (state : ActivityState) : SecurityPolicy K :=
  { p with activities := p.activities.map fun entry => if entry.1 = activity then (entry.1, state) else entry }

def acknowledgementEligible (p : SecurityPolicy K) (state : ActivityState) : Bool :=
  state.activityResumed && state.windowFocused && p.processForeground && p.screenState = .active

/-- `snapshot`, at this reading of the clock. -/
def snapshot (p : SecurityPolicy K) (clock : Int) (state : ActivityState) : SecuritySnapshot where
  foreground := p.processForeground
  activityResumed := state.activityResumed
  windowFocused := state.windowFocused
  elapsedRealtimeMs := clock
  generation := state.generation
  screenState := p.screenState
  curtainVisible := state.curtainRequired

def detachedSnapshot (p : SecurityPolicy K) (clock : Int) : SecuritySnapshot where
  foreground := p.processForeground
  activityResumed := false
  windowFocused := false
  elapsedRealtimeMs := clock
  generation := p.generations.sequence
  screenState := p.screenState
  curtainVisible := true

def attach (p : SecurityPolicy K) (clock : Int) (activity : K) : SecuritySnapshot × SecurityPolicy K :=
  match p.find activity with
  | some state => (p.snapshot clock state, p)
  | none =>
    let (generation, generations) := p.generations.next
    let state : ActivityState := { generation := generation }
    let p := { p with activities := p.activities ++ [(activity, state)], generations := generations }
    (p.snapshot clock state, p)

def detach (p : SecurityPolicy K) (activity : K) : Bool × SecurityPolicy K :=
  ((p.find activity).isSome, { p with activities := p.activities.filter (·.1 ≠ activity) })

def invalidateAllActivities (p : SecurityPolicy K) : SecurityPolicy K :=
  let (activities, generations) := invalidateAll p.generations p.activities
  { p with activities := activities, generations := generations }

def onProcessForegroundChanged (p : SecurityPolicy K) (foreground : Bool) : Bool × SecurityPolicy K :=
  if p.processForeground = foreground then (false, p)
  else (true, { p with processForeground := foreground }.invalidateAllActivities)

def onScreenStateChanged (p : SecurityPolicy K) (next : ScreenState) : Bool × SecurityPolicy K :=
  if p.screenState = next then (false, p)
  else (true, { p with screenState := next }.invalidateAllActivities)

/-- `finishActivityTransition`: the new state of the activity and of the policy. -/
def finishActivityTransition (p : SecurityPolicy K) (activity : K) (state : ActivityState)
    (changed : Bool) : ActivityState × SecurityPolicy K :=
  let (state, generations) :=
    if changed then
      let (generation, generations) := p.generations.next
      ({ state with generation := generation, curtainRequired := true }, generations)
    else (state, p.generations)
  let state := if p.acknowledgementEligible state then state else { state with curtainRequired := true }
  (state, { p.put activity state with generations := generations })

def onActivityResumed (p : SecurityPolicy K) (clock : Int) (activity : K) (resumed : Bool) :
    Option SecuritySnapshot × SecurityPolicy K :=
  match p.find activity with
  | none => (none, p)
  | some state =>
    let changed := state.activityResumed ≠ resumed || (!resumed && state.windowFocused)
    let state := { state with
      activityResumed := resumed, windowFocused := if resumed then state.windowFocused else false }
    let (state, p) := p.finishActivityTransition activity state changed
    (some (p.snapshot clock state), p)

def onWindowFocused (p : SecurityPolicy K) (clock : Int) (activity : K) (focused : Bool) :
    Option SecuritySnapshot × SecurityPolicy K :=
  match p.find activity with
  | none => (none, p)
  | some state =>
    let acceptedFocus := focused && state.activityResumed
    let changed : Bool := state.windowFocused ≠ acceptedFocus
    let (state, p) := p.finishActivityTransition activity { state with windowFocused := acceptedFocus } changed
    (some (p.snapshot clock state), p)

def acknowledgeSafeUi (p : SecurityPolicy K) (activity : K) (expectedGeneration : Int) :
    Bool × SecurityPolicy K :=
  match p.find activity with
  | none => (false, p)
  | some state =>
    if p.generations.exhausted || expectedGeneration ≠ state.generation || !p.acknowledgementEligible state then
      (false, p.put activity { state with curtainRequired := true })
    else (true, p.put activity { state with curtainRequired := false })

end SecurityPolicy

/-! ## Runs -/

/-- A call of the policy that can change it: the callbacks of the activities, of the process and of
the screen, and an acknowledgement by the page. -/
inductive SecurityEvent (K : Type) where
  | attach (activity : K)
  | detach (activity : K)
  | foreground (foreground : Bool)
  | resumed (activity : K) (resumed : Bool)
  | focused (activity : K) (focused : Bool)
  | screen (next : ScreenState)
  | acknowledge (activity : K) (expectedGeneration : Int)
  deriving DecidableEq, Repr

/-- The policy after an event; the clock is only shown. -/
def SecurityPolicy.step (p : SecurityPolicy K) : SecurityEvent K → SecurityPolicy K
  | .attach activity => (p.attach 0 activity).2
  | .detach activity => (p.detach activity).2
  | .foreground foreground => (p.onProcessForegroundChanged foreground).2
  | .resumed activity resumed => (p.onActivityResumed 0 activity resumed).2
  | .focused activity focused => (p.onWindowFocused 0 activity focused).2
  | .screen next => (p.onScreenStateChanged next).2
  | .acknowledge activity expectedGeneration => (p.acknowledgeSafeUi activity expectedGeneration).2

def SecurityPolicy.run (p : SecurityPolicy K) (events : List (SecurityEvent K)) : SecurityPolicy K :=
  events.foldl SecurityPolicy.step p

namespace SecurityPolicy

/-- The event is an effective transition of the activity. -/
def Transition (p : SecurityPolicy K) (activity : K) : SecurityEvent K → Prop
  | .attach activity' => activity' = activity ∧ p.find activity = none
  | .detach activity' => activity' = activity
  | .foreground foreground => p.processForeground ≠ foreground
  | .resumed activity' resumed => activity' = activity ∧ ∃ state, p.find activity = some state ∧
    (state.activityResumed ≠ resumed ∨ (resumed = false ∧ state.windowFocused = true))
  | .focused activity' focused => activity' = activity ∧ ∃ state, p.find activity = some state ∧
    state.windowFocused ≠ (focused && state.activityResumed)
  | .screen next => p.screenState ≠ next
  | .acknowledge _ _ => False

/-- The event is an acknowledgement of the activity that fails. -/
def Fails (p : SecurityPolicy K) (activity : K) : SecurityEvent K → Prop
  | .acknowledge activity' expectedGeneration =>
    activity' = activity ∧ (p.acknowledgeSafeUi activity expectedGeneration).1 = false
  | _ => False

/-- From `p` on, there is neither a transition of the activity nor a failed acknowledgement. -/
def Undisturbed (activity : K) : SecurityPolicy K → List (SecurityEvent K) → Prop
  | _, [] => True
  | p, event :: events =>
    ¬ p.Transition activity event ∧ ¬ p.Fails activity event ∧ Undisturbed activity (p.step event) events

end SecurityPolicy

/-! ## The counter -/

theorem Generations.next_spec (generations : Generations) :
    generations.sequence ≤ generations.next.2.sequence ∧
    (generations.exhausted = true → generations.next.2.exhausted = true) ∧
    (generations.sequence < generations.next.1 ∨ generations.next.2.exhausted = true) := by
  unfold Generations.next
  split_ifs with h
  · exact ⟨le_rfl, fun _ => rfl, .inr rfl⟩
  · exact ⟨by simp, fun h => h, .inl (by simp)⟩

omit [DecidableEq K] in
theorem invalidateAll_generations (generations : Generations) (activities : List (K × ActivityState)) :
    generations.sequence ≤ (invalidateAll generations activities).2.sequence ∧
    (generations.exhausted = true → (invalidateAll generations activities).2.exhausted = true) := by
  induction activities generalizing generations with
  | nil => exact ⟨le_rfl, fun h => h⟩
  | cons entry rest ih =>
    obtain ⟨hsequence, hexhausted, -⟩ := generations.next_spec
    obtain ⟨hsequence', hexhausted'⟩ := ih generations.next.2
    exact ⟨hsequence.trans hsequence', fun h => hexhausted' (hexhausted h)⟩

/-- Every activity is behind its curtain and has a new generation, or there are none left. -/
theorem invalidateAll_find (generations : Generations) (activities : List (K × ActivityState))
    (activity : K) (state : ActivityState)
    (h : ((invalidateAll generations activities).1.find? (·.1 = activity)).map Prod.snd = some state) :
    state.curtainRequired = true ∧ (generations.sequence < state.generation ∨
      (invalidateAll generations activities).2.exhausted = true) := by
  induction activities generalizing generations with
  | nil => cases h
  | cons entry rest ih =>
    obtain ⟨key, old⟩ := entry
    obtain ⟨hsequence, -, hfresh⟩ := generations.next_spec
    simp only [invalidateAll, List.find?_cons] at h ⊢
    split at h
    · cases h
      refine ⟨rfl, hfresh.imp_right fun hexhausted => ?_⟩
      exact (invalidateAll_generations generations.next.2 rest).2 hexhausted
    · obtain ⟨hrequired, hnew⟩ := ih generations.next.2 h
      exact ⟨hrequired, hnew.imp_left fun hlt => hsequence.trans_lt hlt⟩

/-! ## One activity -/

namespace SecurityPolicy
variable {p : SecurityPolicy K} {activity other : K} {state : ActivityState}

theorem find_put (new : ActivityState) :
    (p.put activity new).find other =
      if other = activity then (p.find activity).map fun _ => new else p.find other := by
  unfold find put
  induction p.activities with
  | nil => simp
  | cons entry rest ih =>
    by_cases hkey : entry.1 = activity
    · by_cases hother : other = activity
      · simp [hkey, hother]
      · have hne : ¬ activity = other := fun heq => hother heq.symm
        simp [hkey, hother, hne] at ih ⊢
        exact ih
    · by_cases hother : other = activity
      · simp [hkey, hother] at ih ⊢
        exact ih
      · by_cases hentry : entry.1 = other
        · simp [hother, hentry]
        · simp [hkey, hother, hentry] at ih ⊢
          exact ih

theorem find_detach : (p.detach activity).2.find other = if other = activity then none else p.find other := by
  unfold find detach
  simp only []
  induction p.activities with
  | nil => simp
  | cons entry rest ih =>
    by_cases hkey : entry.1 = activity
    · by_cases hother : other = activity
      · simp [hother] at ih ⊢
      · have hne : ¬ activity = other := fun heq => hother heq.symm
        simp [hkey, hother, hne] at ih ⊢
        exact ih
    · by_cases hother : other = activity
      · simp [hother] at ih ⊢
      · by_cases hentry : entry.1 = other
        · simp [hother, hentry]
        · simp [hkey, hother, hentry] at ih ⊢
          exact ih

theorem find_append (new : ActivityState) (h : p.find activity = none) (generations : Generations) :
    ({ p with activities := p.activities ++ [(activity, new)], generations := generations } :
      SecurityPolicy K).find other = if other = activity then some new else p.find other := by
  have hnone : p.activities.find? (·.1 = activity) = none := by simpa [find] using h
  unfold find
  rw [List.find?_append]
  by_cases hother : other = activity
  · subst hother
    rw [hnone]
    simp
  · have hne : ¬ activity = other := fun heq => hother heq.symm
    simp [hother, hne]

theorem find_finish (changed : Bool) (new : ActivityState) (hother : other ≠ activity) :
    (p.finishActivityTransition activity new changed).2.find other = p.find other := by
  show (p.put activity _).find other = _
  rw [find_put, if_neg hother]

theorem find_finish_self (changed : Bool) (new : ActivityState) (h : p.find activity = some state) :
    (p.finishActivityTransition activity new changed).2.find activity =
      some (p.finishActivityTransition activity new changed).1 := by
  show (p.put activity (p.finishActivityTransition activity new changed).1).find activity = _
  rw [find_put, if_pos rfl, h, Option.map_some]

/-- Renewed, an activity is behind its curtain. -/
theorem finish_changed (new : ActivityState) :
    (p.finishActivityTransition activity new true).1.curtainRequired = true ∧
    (p.finishActivityTransition activity new true).1.generation = p.generations.next.1 ∧
    (p.finishActivityTransition activity new true).2.generations = p.generations.next.2 := by
  unfold finishActivityTransition
  simp only [if_true]
  split_ifs <;> simp

theorem finish_unchanged (new : ActivityState) :
    (p.finishActivityTransition activity new false).1 =
      (if p.acknowledgementEligible new then new else { new with curtainRequired := true }) ∧
    (p.finishActivityTransition activity new false).2.generations = p.generations :=
  ⟨rfl, rfl⟩

/-- The events of one activity, in one form: it is renewed, or only its curtain may fall. -/
def Touched (p q : SecurityPolicy K) (activity : K) (state : ActivityState) (changed : Bool) : Prop :=
  ∃ new : ActivityState, (changed = false → new = state) ∧
    q = (p.finishActivityTransition activity new changed).2

theorem onActivityResumed_touched (resumed : Bool) (h : p.find activity = some state) :
    Touched p (p.onActivityResumed 0 activity resumed).2 activity state
      (state.activityResumed ≠ resumed || (!resumed && state.windowFocused)) := by
  unfold onActivityResumed
  rw [h]
  refine ⟨_, fun hunchanged => ?_, rfl⟩
  obtain ⟨activityResumed, windowFocused, generation, curtainRequired⟩ := state
  cases resumed <;> cases activityResumed <;> cases windowFocused <;> simp_all

theorem onWindowFocused_touched (focused : Bool) (h : p.find activity = some state) :
    Touched p (p.onWindowFocused 0 activity focused).2 activity state
      (decide (state.windowFocused ≠ (focused && state.activityResumed))) := by
  unfold onWindowFocused
  rw [h]
  refine ⟨_, fun hunchanged => ?_, rfl⟩
  obtain ⟨activityResumed, windowFocused, generation, curtainRequired⟩ := state
  cases focused <;> cases activityResumed <;> cases windowFocused <;> simp_all

/-! ## One step -/

variable {event : SecurityEvent K}

/-- The counter only goes on. -/
theorem step_generations (p : SecurityPolicy K) (event : SecurityEvent K) :
    p.generations.sequence ≤ (p.step event).generations.sequence ∧
    (p.generations.exhausted = true → (p.step event).generations.exhausted = true) := by
  have hsame : p.generations.sequence ≤ p.generations.sequence ∧
      (p.generations.exhausted = true → p.generations.exhausted = true) := ⟨le_rfl, fun h => h⟩
  have hnext : p.generations.sequence ≤ p.generations.next.2.sequence ∧
      (p.generations.exhausted = true → p.generations.next.2.exhausted = true) :=
    ⟨p.generations.next_spec.1, p.generations.next_spec.2.1⟩
  have htouched : ∀ {activity state changed q}, Touched p q activity state changed →
      p.generations.sequence ≤ q.generations.sequence ∧
      (p.generations.exhausted = true → q.generations.exhausted = true) := by
    rintro activity state changed q ⟨new, -, rfl⟩
    cases changed with
    | true => rwa [(finish_changed new).2.2]
    | false => exact hsame
  cases event with
  | attach activity =>
    cases hfind : p.find activity with
    | none =>
      simp only [step, attach, hfind]
      exact hnext
    | some state =>
      simp only [step, attach, hfind]
      exact hsame
  | detach activity => exact hsame
  | foreground foreground =>
    simp only [step, onProcessForegroundChanged]
    split_ifs
    · exact hsame
    · exact invalidateAll_generations p.generations p.activities
  | resumed activity resumed =>
    cases hfind : p.find activity with
    | none =>
      simp only [step, onActivityResumed, hfind]
      exact hsame
    | some state => exact htouched (onActivityResumed_touched resumed hfind)
  | focused activity focused =>
    cases hfind : p.find activity with
    | none =>
      simp only [step, onWindowFocused, hfind]
      exact hsame
    | some state => exact htouched (onWindowFocused_touched focused hfind)
  | screen next =>
    simp only [step, onScreenStateChanged]
    split_ifs
    · exact hsame
    · exact invalidateAll_generations p.generations p.activities
  | acknowledge activity expectedGeneration =>
    simp only [step, acknowledgeSafeUi]
    split
    · exact hsame
    · split_ifs <;> exact hsame

/-- After a transition the activity is behind its curtain, with a generation that was not issued
before. -/
theorem step_of_transition (h : p.Transition activity event)
    (hstate : (p.step event).find activity = some state) :
    state.curtainRequired = true ∧ (p.generations.sequence < state.generation ∨
      (p.step event).generations.exhausted = true) := by
  have hrenewed : ∀ {q} {old : ActivityState}, Touched p q activity old true →
      p.find activity = some old → q.find activity = some state → state.curtainRequired = true ∧
      (p.generations.sequence < state.generation ∨ q.generations.exhausted = true) := by
    rintro q old ⟨new, -, rfl⟩ hold hq
    rw [find_finish_self true new hold] at hq
    cases hq
    rw [(finish_changed new).2.1, (finish_changed new).2.2]
    exact ⟨(finish_changed new).1, p.generations.next_spec.2.2⟩
  cases event with
  | attach activity' =>
    obtain ⟨rfl, hnone⟩ := h
    simp only [step, attach, hnone] at hstate ⊢
    rw [find_append _ hnone, if_pos rfl] at hstate
    cases hstate
    exact ⟨rfl, p.generations.next_spec.2.2⟩
  | detach activity' =>
    obtain rfl : activity' = activity := h
    rw [step, find_detach, if_pos rfl] at hstate
    cases hstate
  | foreground foreground =>
    have hne : ¬ p.processForeground = foreground := h
    simp only [step, onProcessForegroundChanged, hne, if_false] at hstate ⊢
    exact invalidateAll_find p.generations p.activities activity state hstate
  | resumed activity' resumed =>
    obtain ⟨rfl, old, hold, hchanged⟩ := h
    have htouched := onActivityResumed_touched resumed hold
    have htrue : (decide (old.activityResumed ≠ resumed) || (!resumed && old.windowFocused)) = true := by
      simpa using hchanged
    rw [htrue] at htouched
    exact hrenewed htouched hold hstate
  | focused activity' focused =>
    obtain ⟨rfl, old, hold, hchanged⟩ := h
    have htouched := onWindowFocused_touched focused hold
    rw [decide_eq_true hchanged] at htouched
    exact hrenewed htouched hold hstate
  | screen next =>
    have hne : ¬ p.screenState = next := h
    simp only [step, onScreenStateChanged, hne, if_false] at hstate ⊢
    exact invalidateAll_find p.generations p.activities activity state hstate
  | acknowledge activity' expectedGeneration => exact h.elim

/-- Without one, at most its curtain changes; and it is lifted by an acknowledgement only. -/
structure Kept (p q : SecurityPolicy K) (activity : K) (event : SecurityEvent K)
    (old new : ActivityState) : Prop where
  found : p.find activity = some old
  generation : new.generation = old.generation
  resumed : new.activityResumed = old.activityResumed
  focused : new.windowFocused = old.windowFocused
  foreground : q.processForeground = p.processForeground
  screen : q.screenState = p.screenState
  curtain : new.curtainRequired = false →
    (old.curtainRequired = false ∧ ¬ p.Fails activity event) ∨
    (event = .acknowledge activity old.generation ∧
      (p.acknowledgeSafeUi activity old.generation).1 = true ∧ p.acknowledgementEligible old = true)

theorem kept_of_eq {q : SecurityPolicy K} (hfind : p.find activity = some state)
    (hforeground : q.processForeground = p.processForeground) (hscreen : q.screenState = p.screenState)
    (hfails : ¬ p.Fails activity event) : Kept p q activity event state state :=
  ⟨hfind, rfl, rfl, rfl, hforeground, hscreen, fun h => .inl ⟨h, hfails⟩⟩

theorem step_of_not_transition (h : ¬ p.Transition activity event)
    (hstate : (p.step event).find activity = some state) :
    ∃ old, Kept p (p.step event) activity event old state := by
  have htouched : ∀ {q activity' old changed}, Touched p q activity' old changed →
      p.find activity' = some old → ¬ p.Fails activity event → (activity' = activity → changed = false) →
      q.find activity = some state → ∃ old, Kept p q activity event old state := by
    rintro q activity' old changed ⟨new, hnew, rfl⟩ hold hfails hchanged hq
    by_cases hself : activity' = activity
    · subst hself
      obtain rfl := hchanged rfl
      obtain rfl := hnew rfl
      rw [find_finish_self false new hold] at hq
      cases hq
      rw [(finish_unchanged new).1]
      refine ⟨new, hold, ?_, ?_, ?_, rfl, rfl, ?_⟩ <;> split_ifs
      any_goals rfl
      · exact fun h => .inl ⟨h, hfails⟩
      · exact fun h => by cases h
    · rw [find_finish changed new fun heq => hself heq.symm] at hq
      exact ⟨state, kept_of_eq hq rfl rfl hfails⟩
  cases event with
  | attach activity' =>
    cases hfind : p.find activity' with
    | none =>
      have hne : activity ≠ activity' := fun heq => h ⟨heq.symm, heq ▸ hfind⟩
      simp only [step, attach, hfind] at hstate ⊢
      rw [find_append _ hfind, if_neg hne] at hstate
      exact ⟨state, kept_of_eq hstate rfl rfl fun hfails => hfails⟩
    | some old =>
      simp only [step, attach, hfind] at hstate ⊢
      exact ⟨state, kept_of_eq hstate rfl rfl fun hfails => hfails⟩
  | detach activity' =>
    have hne : activity ≠ activity' := fun heq => h heq.symm
    rw [step, find_detach, if_neg hne] at hstate
    exact ⟨state, kept_of_eq hstate rfl rfl fun hfails => hfails⟩
  | foreground foreground =>
    have heq : p.processForeground = foreground := not_ne_iff.1 h
    simp only [step, onProcessForegroundChanged, heq, if_true] at hstate ⊢
    exact ⟨state, kept_of_eq hstate rfl rfl fun hfails => hfails⟩
  | resumed activity' resumed =>
    cases hfind : p.find activity' with
    | none =>
      simp only [step, onActivityResumed, hfind] at hstate ⊢
      exact ⟨state, kept_of_eq hstate rfl rfl fun hfails => hfails⟩
    | some old =>
      refine htouched (onActivityResumed_touched resumed hfind) hfind (fun hfails => hfails) ?_ hstate
      rintro rfl
      by_contra hchanged
      exact h ⟨rfl, old, hfind, by simpa [or_iff_not_imp_left] using hchanged⟩
  | focused activity' focused =>
    cases hfind : p.find activity' with
    | none =>
      simp only [step, onWindowFocused, hfind] at hstate ⊢
      exact ⟨state, kept_of_eq hstate rfl rfl fun hfails => hfails⟩
    | some old =>
      refine htouched (onWindowFocused_touched focused hfind) hfind (fun hfails => hfails) ?_ hstate
      rintro rfl
      by_contra hchanged
      exact h ⟨rfl, old, hfind, by simpa using hchanged⟩
  | screen next =>
    have heq : p.screenState = next := not_ne_iff.1 h
    simp only [step, onScreenStateChanged, heq, if_true] at hstate ⊢
    exact ⟨state, kept_of_eq hstate rfl rfl fun hfails => hfails⟩
  | acknowledge activity' expectedGeneration =>
    cases hfind : p.find activity' with
    | none =>
      simp only [step, acknowledgeSafeUi, hfind] at hstate ⊢
      refine ⟨state, kept_of_eq hstate rfl rfl ?_⟩
      rintro ⟨rfl, -⟩
      rw [hfind] at hstate
      cases hstate
    | some old =>
      by_cases hself : activity' = activity
      · subst hself
        have hresult : p.acknowledgeSafeUi activity' expectedGeneration =
            if p.generations.exhausted || expectedGeneration ≠ old.generation ||
                !p.acknowledgementEligible old then
              (false, p.put activity' { old with curtainRequired := true })
            else (true, p.put activity' { old with curtainRequired := false }) := by
          simp only [acknowledgeSafeUi, hfind]
        simp only [step, hresult] at hstate ⊢
        split_ifs at hstate ⊢ with hrefused
        · rw [find_put, if_pos rfl, hfind] at hstate
          cases hstate
          exact ⟨old, hfind, rfl, rfl, rfl, rfl, rfl, fun h => by cases h⟩
        · rw [find_put, if_pos rfl, hfind] at hstate
          cases hstate
          rw [if_neg hrefused] at hresult
          simp only [Bool.or_eq_true, decide_eq_true_eq, Bool.not_eq_true', not_or, ne_eq, not_not,
            Bool.not_eq_false] at hrefused
          obtain ⟨⟨-, rfl⟩, heligible⟩ := hrefused
          exact ⟨old, hfind, rfl, rfl, rfl, rfl, rfl, fun _ => .inr ⟨rfl, by rw [hresult], heligible⟩⟩
      · have hsame : (p.step (.acknowledge activity' expectedGeneration)).find activity = p.find activity := by
          simp only [step, acknowledgeSafeUi, hfind]
          split_ifs <;> rw [find_put, if_neg fun heq => hself heq.symm]
        have hfields : (p.step (.acknowledge activity' expectedGeneration)).processForeground =
            p.processForeground ∧
            (p.step (.acknowledge activity' expectedGeneration)).screenState = p.screenState := by
          simp only [step, acknowledgeSafeUi, hfind]
          split_ifs <;> exact ⟨rfl, rfl⟩
        rw [hsame] at hstate
        exact ⟨state, kept_of_eq hstate hfields.1 hfields.2 fun hfails => hself hfails.1⟩

/-! ## Every run -/

/-- The activity was acknowledged with this generation, and nothing has disturbed that since. -/
def Acknowledged (events : List (SecurityEvent K)) (activity : K) (generation : Int) : Prop :=
  ∃ before after, events = before ++ .acknowledge activity generation :: after ∧
    ((run {} before).acknowledgeSafeUi activity generation).1 = true ∧
    Undisturbed activity (run {} (before ++ [.acknowledge activity generation])) after

theorem run_concat (p : SecurityPolicy K) (events : List (SecurityEvent K)) (event : SecurityEvent K) :
    p.run (events ++ [event]) = (p.run events).step event := by
  simp [run]

theorem run_append (p : SecurityPolicy K) (events more : List (SecurityEvent K)) :
    p.run (events ++ more) = (p.run events).run more := by
  simp [run]

theorem Undisturbed.concat {events : List (SecurityEvent K)} (h : Undisturbed activity p events)
    (htransition : ¬ (p.run events).Transition activity event)
    (hfails : ¬ (p.run events).Fails activity event) : Undisturbed activity p (events ++ [event]) := by
  induction events generalizing p with
  | nil => exact ⟨htransition, hfails, trivial⟩
  | cons first rest ih =>
    obtain ⟨hfirst, hfirst', hrest⟩ := h
    exact ⟨hfirst, hfirst', ih hrest htransition hfails⟩

theorem Acknowledged.concat {events : List (SecurityEvent K)} {generation : Int}
    (h : Acknowledged events activity generation)
    (htransition : ¬ (run {} events).Transition activity event)
    (hfails : ¬ (run {} events).Fails activity event) :
    Acknowledged (events ++ [event]) activity generation := by
  obtain ⟨before, after, rfl, hsuccess, hundisturbed⟩ := h
  have hrun : run {} (before ++ .acknowledge activity generation :: after) =
      (run {} (before ++ [.acknowledge activity generation])).run after := by
    rw [← run_append]
    simp
  rw [hrun] at htransition hfails
  exact ⟨before, after ++ [event], by simp, hsuccess, hundisturbed.concat htransition hfails⟩

/-- An activity without a curtain can be seen and was acknowledged. -/
theorem lifted (events : List (SecurityEvent K)) (activity : K) (state : ActivityState)
    (hstate : (run {} events).find activity = some state) (hlifted : state.curtainRequired = false) :
    (run {} events).acknowledgementEligible state = true ∧ Acknowledged events activity state.generation := by
  induction events using List.reverseRecOn generalizing state with
  | nil => cases hstate
  | append_singleton events event ih =>
    rw [run_concat] at hstate ⊢
    by_cases htransition : (run {} events).Transition activity event
    · have hrequired := (step_of_transition htransition hstate).1
      rw [hrequired] at hlifted
      cases hlifted
    · obtain ⟨old, hkept⟩ := step_of_not_transition htransition hstate
      have heligible : ((run {} events).step event).acknowledgementEligible state =
          (run {} events).acknowledgementEligible old := by
        simp only [acknowledgementEligible, hkept.resumed, hkept.focused, hkept.foreground, hkept.screen]
      rw [heligible, hkept.generation]
      obtain ⟨hold, hfails⟩ | ⟨rfl, hsuccess, hold⟩ := hkept.curtain hlifted
      · obtain ⟨hseen, hacknowledged⟩ := ih old hkept.found hold
        exact ⟨hseen, hacknowledged.concat htransition hfails⟩
      · exact ⟨hold, events, [], rfl, hsuccess, trivial⟩

/-- A generation that the activity does not have any more, and will not have again. -/
def Stale (p : SecurityPolicy K) (activity : K) (generation : Int) : Prop :=
  generation ≤ p.generations.sequence ∧ (p.generations.exhausted = true ∨
    ∀ state, p.find activity = some state → generation < state.generation)

theorem stale_of_transition {generation : Int} (h : generation ≤ p.generations.sequence)
    (htransition : p.Transition activity event) : Stale (p.step event) activity generation := by
  obtain ⟨hsequence, -⟩ := p.step_generations event
  refine ⟨h.trans hsequence, ?_⟩
  by_contra hnot
  obtain ⟨hexhausted, hnot⟩ := not_or.1 hnot
  refine hnot fun state hstate => ?_
  obtain ⟨-, hfresh⟩ := step_of_transition htransition hstate
  exact h.trans_lt (hfresh.resolve_right hexhausted)

theorem Stale.step {generation : Int} (h : Stale p activity generation) (event : SecurityEvent K) :
    Stale (p.step event) activity generation := by
  by_cases htransition : p.Transition activity event
  · exact stale_of_transition h.1 htransition
  · obtain ⟨hsequence, hexhausted⟩ := p.step_generations event
    refine ⟨h.1.trans hsequence, h.2.imp hexhausted fun hgeneration state hstate => ?_⟩
    obtain ⟨old, hkept⟩ := step_of_not_transition htransition hstate
    rw [hkept.generation]
    exact hgeneration old hkept.found

theorem Stale.run {generation : Int} (h : Stale p activity generation) (events : List (SecurityEvent K)) :
    Stale (p.run events) activity generation := by
  induction events generalizing p with
  | nil => exact h
  | cons event events ih => exact ih (h.step event)

/-- The acknowledgement fails, and the curtain stays. -/
def Refuses (p : SecurityPolicy K) (activity : K) (generation : Int) : Prop :=
  (p.acknowledgeSafeUi activity generation).1 = false ∧
  ∀ state, (p.acknowledgeSafeUi activity generation).2.find activity = some state →
    state.curtainRequired = true

theorem refuses_of {generation : Int} (h : p.generations.exhausted = true ∨
    ∀ state, p.find activity = some state → generation ≠ state.generation) :
    p.Refuses activity generation := by
  unfold Refuses acknowledgeSafeUi
  cases hfind : p.find activity with
  | none => exact ⟨rfl, fun state hstate => by rw [hfind] at hstate; cases hstate⟩
  | some old =>
    have hrefused : (p.generations.exhausted || generation ≠ old.generation ||
        !p.acknowledgementEligible old) = true := by
      obtain hexhausted | hne := h
      · simp [hexhausted]
      · simp [hne old hfind]
    simp only [hrefused, if_true]
    refine ⟨trivial, fun state hstate => ?_⟩
    rw [find_put, if_pos rfl, hfind] at hstate
    cases hstate
    rfl

theorem run_exhausted (events : List (SecurityEvent K)) (h : p.generations.exhausted = true) :
    (p.run events).generations.exhausted = true := by
  induction events generalizing p with
  | nil => exact h
  | cons event events ih => exact ih ((p.step_generations event).2 h)

end SecurityPolicy

open SecurityPolicy

/-- In every run: an activity without a curtain can be seen and was acknowledged; a generation that
was issued before a transition does not lift the curtain after it; and none does once the counter is
exhausted. -/
theorem curtain_acknowledged (events : List (SecurityEvent K)) :
    (∀ activity state, (run {} events).find activity = some state → state.curtainRequired = false →
      (state.activityResumed = true ∧ state.windowFocused = true ∧
        (run {} events).processForeground = true ∧ (run {} events).screenState = .active) ∧
      Acknowledged events activity state.generation) ∧
    (∀ activity generation before event after, events = before ++ event :: after →
      generation ≤ (run {} before).generations.sequence → (run {} before).Transition activity event →
      (run {} events).Refuses activity generation) ∧
    (∀ before after, events = before ++ after → (run {} before).generations.exhausted = true →
      ∀ activity generation, (run {} events).Refuses activity generation) := by
  refine ⟨fun activity state hstate hlifted => ?_, ?_, ?_⟩
  · obtain ⟨heligible, hacknowledged⟩ := lifted events activity state hstate hlifted
    simp only [acknowledgementEligible, Bool.and_eq_true, decide_eq_true_eq] at heligible
    obtain ⟨⟨⟨hresumed, hfocused⟩, hforeground⟩, hscreen⟩ := heligible
    exact ⟨⟨hresumed, hfocused, hforeground, hscreen⟩, hacknowledged⟩
  · rintro activity generation before event after rfl hissued htransition
    have hstale := (stale_of_transition hissued htransition).run after
    have hrun : run {} (before ++ event :: after) = ((run {} before).step event).run after := by
      rw [run_append]
      rfl
    rw [hrun]
    exact refuses_of (hstale.2.imp_right fun hlt state hstate => (hlt state hstate).ne)
  · rintro before after rfl hexhausted activity generation
    rw [run_append]
    exact refuses_of (.inl (run_exhausted after hexhausted))

example : (run {} [.attach 'a', .foreground true, .resumed 'a' true, .focused 'a' true,
    .acknowledge 'a' 4]).find 'a' = some ⟨true, true, 4, false⟩ := by decide

end NianPass.Android
