import NianPass.Sync.Mandate
import NianPass.Sync.Script

/-
  The conflict authority over whole runs.

  A `Trace` is a run with its steps kept. Along every trace a pending conflict
  is the one installed last on its engine, its token was never drawn before and
  was not taken yet (`Tokens`). So a token is taken once, by one call, and what
  a `resolve` does to LOCAL, REMOTE and BASE it does under the token it took.
-/
namespace NianPass.Sync

open Kdbx (Bytes)
open Program (Safe transcripts)

variable {V : Type} [DecidableEq V]

/-- The steps so far, the newest first: the world each was taken in, and the event. `allowed`
says which steps are taken. -/
inductive Trace (P : Platform V) (S : SyncStore) (allowed : World V → Event V → Prop) :
    List (World V × Event V) → World V → Prop where
  | start {w} (initial : Initial w) : Trace P S allowed [] w
  | step {steps w event w'} (trace : Trace P S allowed steps w)
      (step : Step P S (w :: steps.map Prod.fst) w event w') (allows : allowed w event) :
      Trace P S allowed ((w, event) :: steps) w'

theorem Trace.run {P : Platform V} {S : SyncStore} {allowed : World V → Event V → Prop}
    {steps : List (World V × Event V)} {w : World V} (trace : Trace P S allowed steps w) :
    Run P S (w :: steps.map Prod.fst) w := by
  induction trace with
  | start initial => exact .start initial
  | step trace step allows ih => exact .step ih step

/-! ## Tokens -/

section Tokens

omit [DecidableEq V]

def TakesToken (id : Uuid) (step : World V × Event V) : Prop :=
  ∃ caller pending, step.2 = .perform caller (.takeConflict id) (.ok pending)

def InstallsToken (id : Uuid) (step : World V × Event V) : Prop :=
  ∃ caller conflict, step.2 = .perform caller (.installConflict conflict) (.ok ()) ∧
    conflict.operation.conflictOperationId = id

/-- A call of this engine installs a conflict. -/
def InstallsOn (engine : Nat) (step : World V × Event V) : Prop :=
  ∃ caller conflict running, step.2 = .perform caller (.installConflict conflict) (.ok ()) ∧
    step.1.calls caller = some running ∧ running.engine = engine

/-- The conflict was installed by a `sync` of this engine, on what that call had captured, and
no other was installed since. -/
structure IssuedLast (P : Platform V) (steps : List (World V × Event V)) (engine : Nat)
    (conflict : PendingConflict) : Prop where
  issued : ∃ since before w caller running credential,
    steps = since ++ (w, .perform caller (.installConflict conflict) (.ok ())) :: before ∧
    w.calls caller = some running ∧ running.engine = engine ∧ running.call = .sync credential ∧
    Captured running.transcript conflict.loc ∧
    Observed running.transcript ⟨conflict.remoteBytes, conflict.remoteRevision⟩ ∧
    FoundDigest P running.transcript conflict.baseDigest ∧
    ∀ step ∈ since, ¬ InstallsOn engine step

/-- The one step that took the token: it was in force then, and no other step took it. -/
def TookOnce (P : Platform V) (steps : List (World V × Event V)) (caller engine : Nat) (id : Uuid)
    (pending : PendingConflict) : Prop :=
  ∃ since before w,
    steps = since ++ (w, .perform caller (.takeConflict id) (.ok pending)) :: before ∧
    w.pending engine = some pending ∧ pending.operation.conflictOperationId = id ∧
    IssuedLast P before engine pending ∧
    (∀ step ∈ since, ¬ TakesToken id step) ∧ ∀ step ∈ before, ¬ TakesToken id step

/-- What holds of tokens along every trace. -/
structure Tokens (P : Platform V) (steps : List (World V × Event V)) (w : World V) : Prop where
  /-- A UUID just drawn is nobody else's and names no conflict yet. -/
  drawn : ∀ caller running id rest, w.calls caller = some running →
    running.transcript = (⟨.newUuid, id⟩ : Σ e, Answer e) :: rest →
    id ∈ w.issued ∧ ∀ step ∈ steps, ¬ InstallsToken id step
  apart : ∀ caller caller' running running' id rest rest', w.calls caller = some running →
    w.calls caller' = some running' →
    running.transcript = (⟨.newUuid, id⟩ : Σ e, Answer e) :: rest →
    running'.transcript = (⟨.newUuid, id⟩ : Σ e, Answer e) :: rest' → caller = caller'
  installed : ∀ step ∈ steps, ∀ id, InstallsToken id step → id ∈ w.issued
  taken : ∀ step ∈ steps, ∀ id, TakesToken id step → ∃ step' ∈ steps, InstallsToken id step'
  pending : ∀ engine conflict, w.pending engine = some conflict →
    IssuedLast P steps engine conflict ∧
      ∀ step ∈ steps, ¬ TakesToken conflict.operation.conflictOperationId step
  distinct : ∀ engine engine' conflict conflict', w.pending engine = some conflict →
    w.pending engine' = some conflict' →
    conflict.operation.conflictOperationId = conflict'.operation.conflictOperationId →
    engine = engine'
  took : ∀ caller running id conflict, w.calls caller = some running →
    (⟨.takeConflict id, .ok conflict⟩ : Σ e, Answer e) ∈ running.transcript →
    TookOnce P steps caller running.engine id conflict

end Tokens

/-! ## What a step does -/

omit [DecidableEq V] in
/-- The call that performs an effect. -/
def Event.performer : Event V → Option Nat
  | .perform caller _ _ => some caller
  | _ => none

omit [DecidableEq V] in
theorem of_update_self {calls : Nat → Option (Running V)} {caller : Nat} {new running : Running V}
    (h : Function.update calls caller (some new) caller = some running) : new = running := by
  rw [Function.update_self] at h
  exact Option.some.inj h

/-- Every call keeps to the authority from here on. -/
def AllBound (P : Platform V) (w : World V) : Prop :=
  ∀ caller running, w.calls caller = some running →
    Safe (transcripts (Bound P running.call)) (fun _ _ => True) running.program running.transcript

section Step
variable {P : Platform V} {S : SyncStore} {past : List (World V)} {w w' : World V}
variable {event : Event V} {steps : List (World V × Event V)} {id : Uuid}

/-- A call after a step: the same, just started, or one exchange further. -/
theorem Step.calls (hstep : Step P S past w event w') {caller : Nat} {running' : Running V}
    (hcall : w'.calls caller = some running') :
    (w.calls caller = some running' ∧ event.performer ≠ some caller) ∨
    (∃ engine call, running' = ⟨engine, call, (call.task P S).run, []⟩) ∨
    ∃ running effect next answer, event = .perform caller effect answer ∧
      w.calls caller = some running ∧ running.program = .ask effect next ∧
      running' = { running with
        program := next answer, transcript := ⟨effect, answer⟩ :: running.transcript } := by
  cases event with
  | start other engine call =>
    obtain ⟨hfree, rfl⟩ := hstep
    rcases of_update_eq_some hcall with hold | hnew
    · exact .inl ⟨hold, by simp [Event.performer]⟩
    · exact .inr (.inl ⟨engine, call, (Option.some.inj hnew).symm⟩)
  | perform other effect answer =>
    obtain ⟨running, next, after, hother, hprogram, hperforms, rfl⟩ := hstep
    by_cases heq : caller = other
    · subst heq
      refine .inr (.inr ⟨running, effect, next, answer, rfl, hother, hprogram, ?_⟩)
      rcases of_update_self hcall with rfl
      rfl
    · exact .inl ⟨(Function.update_of_ne heq _ _).symm.trans hcall, by
        simpa [Event.performer] using Ne.symm heq⟩
  | send other =>
    obtain ⟨running, request, next, hother, hprogram, rfl⟩ := hstep
    exact .inl ⟨hcall, by simp [Event.performer]⟩
  | deliver request revision =>
    obtain ⟨hmem, haccepted, hfits, rfl⟩ := hstep
    exact .inl ⟨hcall, by simp [Event.performer]⟩
  | drop other =>
    subst hstep
    rcases of_update_eq_some hcall with hold | hnew
    · exact .inl ⟨hold, by simp [Event.performer]⟩
    · cases hnew
  | crash =>
    subst hstep
    cases hcall
  | ownerSaves snapshot =>
    subst hstep
    exact .inl ⟨hcall, by simp [Event.performer]⟩
  | othersWrite object =>
    obtain ⟨hfits, rfl⟩ := hstep
    exact .inl ⟨hcall, by simp [Event.performer]⟩

theorem AllBound.step (hbound : AllBound P w) (hstep : Step P S past w event w') :
    AllBound P w' := by
  intro caller running' hcall
  rcases hstep.calls hcall with ⟨hold, -⟩ | ⟨engine, call, rfl⟩ |
    ⟨running, effect, next, answer, -, hold, hprogram, rfl⟩
  · exact hbound caller running' hold
  · exact call.bound
  · have hsafe := hbound caller running hold
    rw [hprogram] at hsafe
    exact hsafe.2 answer _ rfl

/-- The guard of an effect that is performed. -/
theorem AllBound.guard (hbound : AllBound P w) {caller : Nat} {effect : Effect V}
    {answer : Answer effect} (hstep : Step P S past w (.perform caller effect answer) w') :
    ∃ running, w.calls caller = some running ∧ Bound P running.call running.transcript effect := by
  obtain ⟨running, next, after, hcall, hprogram, -, -⟩ := hstep
  have hsafe := hbound caller running hcall
  rw [hprogram] at hsafe
  exact ⟨running, hcall, hsafe.1⟩

/-- A token is taken where it is in force. -/
theorem Step.takes {caller : Nat} {pending : PendingConflict}
    (hstep : Step P S past w (.perform caller (.takeConflict id) (.ok pending)) w') :
    ∃ running, w.calls caller = some running ∧ w.pending running.engine = some pending ∧
      pending.operation.conflictOperationId = id ∧ w'.pending running.engine = none := by
  obtain ⟨running, next, after, hcall, hprogram, hperforms, rfl⟩ := hstep
  obtain ⟨taken, hpending, hid, hok, rfl⟩ | ⟨-, herror, -⟩ | ⟨herror, -⟩ := hperforms
  · obtain rfl := Except.ok.inj hok
    exact ⟨running, hcall, hpending, hid, Function.update_self _ _ _⟩
  · cases herror
  · cases herror

/-- A conflict that is pending after a step was so before, or the step installed it. -/
theorem Step.pending (hstep : Step P S past w event w') {engine : Nat}
    {conflict : PendingConflict} (hpending : w'.pending engine = some conflict) :
    (w.pending engine = some conflict ∧ ¬ InstallsOn engine (w, event)) ∨
    ∃ caller running, event = .perform caller (.installConflict conflict) (.ok ()) ∧
      w.calls caller = some running ∧ running.engine = engine := by
  cases event with
  | perform caller effect answer =>
    obtain ⟨running, next, after, hcall, hprogram, hperforms, rfl⟩ := hstep
    cases effect with
    | installConflict installed =>
      obtain ⟨hok, rfl⟩ | ⟨herror, rfl⟩ := hperforms
      · by_cases heq : engine = running.engine
        · subst heq
          have hsame : installed = conflict := by simpa using hpending
          subst hok hsame
          exact .inr ⟨caller, running, rfl, hcall, rfl⟩
        · refine .inl ⟨(Function.update_of_ne heq _ _).symm.trans hpending, ?_⟩
          intro hinstalls
          obtain ⟨caller', conflict', running', hevent, hcall', hengine⟩ := hinstalls
          cases hevent
          obtain rfl := Option.some.inj (hcall.symm.trans hcall')
          exact heq hengine.symm
      · refine .inl ⟨hpending, ?_⟩
        intro hinstalls
        obtain ⟨caller', conflict', running', hevent, -, -⟩ := hinstalls
        cases hevent
        cases herror
    | invalidateConflict =>
      refine .inl ⟨?_, by rintro ⟨_, _, _, hevent, _⟩; cases hevent⟩
      rcases hperforms with ⟨-, rfl⟩ | ⟨-, rfl⟩
      · by_cases heq : engine = running.engine
        · subst heq
          simp at hpending
        · exact (Function.update_of_ne heq _ _).symm.trans hpending
      · exact hpending
    | takeConflict id =>
      refine .inl ⟨?_, by rintro ⟨_, _, _, hevent, _⟩; cases hevent⟩
      rcases hperforms with ⟨_, -, -, -, rfl⟩ | ⟨-, -, rfl⟩ | ⟨-, rfl⟩
      · by_cases heq : engine = running.engine
        · subst heq
          simp at hpending
        · exact (Function.update_of_ne heq _ _).symm.trans hpending
      · exact hpending
      · exact hpending
    | _ =>
      refine .inl ⟨?_, by rintro ⟨_, _, _, hevent, _⟩; cases hevent⟩
      rcases hperforms.changes.pending hpending with hold | hnever
      · exact hold
      · cases hnever
  | start other engine' call =>
    obtain ⟨-, rfl⟩ := hstep
    exact .inl ⟨hpending, by rintro ⟨_, _, _, hevent, _⟩; cases hevent⟩
  | send other =>
    obtain ⟨_, _, _, _, _, rfl⟩ := hstep
    exact .inl ⟨hpending, by rintro ⟨_, _, _, hevent, _⟩; cases hevent⟩
  | deliver request revision =>
    obtain ⟨_, _, _, rfl⟩ := hstep
    exact .inl ⟨hpending, by rintro ⟨_, _, _, hevent, _⟩; cases hevent⟩
  | drop other =>
    subst hstep
    exact .inl ⟨hpending, by rintro ⟨_, _, _, hevent, _⟩; cases hevent⟩
  | crash =>
    subst hstep
    cases hpending
  | ownerSaves snapshot =>
    subst hstep
    exact .inl ⟨hpending, by rintro ⟨_, _, _, hevent, _⟩; cases hevent⟩
  | othersWrite object =>
    obtain ⟨-, rfl⟩ := hstep
    exact .inl ⟨hpending, by rintro ⟨_, _, _, hevent, _⟩; cases hevent⟩

omit [DecidableEq V] in
/-- Only the three requests of the conflict authority touch what is pending. -/
def Effect.LeavesPending : Effect V → Prop
  | .invalidateConflict | .installConflict _ | .takeConflict _ => False
  | _ => True

omit [DecidableEq V] in
theorem Performs.pending_eq {engine caller : Nat} {effect : Effect V} {answer : Answer effect}
    {after : World V} (h : Performs engine caller w effect answer after)
    (hleaves : effect.LeavesPending) : after.pending = w.pending := by
  cases effect with
  | readFile file => rw [h.1]
  | writeFile file content =>
    rcases h with rfl | ⟨rfl, -⟩
    · rfl
    · rfl
  | removeFile file =>
    rcases h with rfl | ⟨rfl, -⟩
    · rfl
    · rfl
  | readDirectory => rw [show after = w from h]
  | syncDirectory => rw [show after = w from h]
  | newUuid => rw [h.2]
  | captureClean => rw [h.1]
  | replaceIfUnchanged expected ciphertext =>
    rcases h with ⟨-, token, rfl⟩ | ⟨rfl, -⟩
    · rfl
    · rfl
  | read => rw [h.1]
  | write request => rw [h.1]
  | saveToWriter document credential => rw [show after = w from h]
  | invalidateConflict => exact hleaves.elim
  | installConflict conflict => exact hleaves.elim
  | takeConflict id => exact hleaves.elim

omit [DecidableEq V] in
theorem Changes.issued {engine : Nat} {effect : Effect V} {after : World V}
    (h : Changes engine w effect after) : w.issued ⊆ after.issued := by
  cases h with
  | drew drawn => exact List.subset_cons_self _ _
  | _ => exact List.Subset.refl _

theorem Step.issued (hstep : Step P S past w event w') : w.issued ⊆ w'.issued := by
  cases event with
  | perform caller effect answer =>
    obtain ⟨_, _, after, _, _, hperforms, rfl⟩ := hstep
    exact hperforms.changes.issued
  | start other engine call =>
    obtain ⟨-, rfl⟩ := hstep
    exact List.Subset.refl _
  | send other =>
    obtain ⟨_, _, _, _, _, rfl⟩ := hstep
    exact List.Subset.refl _
  | deliver request revision =>
    obtain ⟨_, _, _, rfl⟩ := hstep
    exact List.Subset.refl _
  | drop other =>
    subst hstep
    exact List.Subset.refl _
  | crash =>
    subst hstep
    exact List.Subset.refl _
  | ownerSaves snapshot =>
    subst hstep
    exact List.Subset.refl _
  | othersWrite object =>
    obtain ⟨-, rfl⟩ := hstep
    exact List.Subset.refl _

omit [DecidableEq V] in
theorem IssuedLast.cons {engine : Nat} {conflict : PendingConflict} {step : World V × Event V}
    (h : IssuedLast P steps engine conflict) (hstep : ¬ InstallsOn engine step) :
    IssuedLast P (step :: steps) engine conflict := by
  obtain ⟨since, before, w₀, caller, running, credential, rfl, hcall, hengine, hsync, hcaptured,
    hobserved, hdigest, hnone⟩ := h.issued
  refine ⟨step :: since, before, w₀, caller, running, credential, rfl, hcall, hengine, hsync,
    hcaptured, hobserved, hdigest, ?_⟩
  intro other hmem
  rcases List.mem_cons.mp hmem with rfl | hmem
  · exact hstep
  · exact hnone other hmem

omit [DecidableEq V] in
theorem TookOnce.cons {caller engine : Nat} {pending : PendingConflict} {step : World V × Event V}
    (h : TookOnce P steps caller engine id pending) (hstep : ¬ TakesToken id step) :
    TookOnce P (step :: steps) caller engine id pending := by
  obtain ⟨since, before, w₀, rfl, hpending, hid, hissued, hsince, hbefore⟩ := h
  refine ⟨step :: since, before, w₀, rfl, hpending, hid, hissued, ?_, hbefore⟩
  intro other hmem
  rcases List.mem_cons.mp hmem with rfl | hmem
  · exact hstep
  · exact hsince other hmem

omit [DecidableEq V] in
theorem TookOnce.takes {caller engine : Nat} {pending : PendingConflict}
    (h : TookOnce P steps caller engine id pending) : ∃ step ∈ steps, TakesToken id step := by
  obtain ⟨since, before, w₀, rfl, -⟩ := h
  exact ⟨_, List.mem_append_right _ List.mem_cons_self, caller, pending, rfl⟩

/-- A token that is taken in a step was not taken before. -/
theorem Tokens.fresh_take (ht : Tokens P steps w) (hstep : Step P S past w event w')
    (htakes : TakesToken id (w, event)) :
    (∀ step ∈ steps, ¬ TakesToken id step) ∧ ∃ step ∈ steps, InstallsToken id step := by
  obtain ⟨caller, pending, hevent⟩ := htakes
  obtain rfl : event = _ := hevent
  obtain ⟨running, -, hpending, rfl, -⟩ := hstep.takes
  obtain ⟨hissued, hfresh⟩ := ht.pending _ _ hpending
  obtain ⟨since, before, w₀, caller, running, credential, rfl, -⟩ := hissued.issued
  exact ⟨hfresh, _, List.mem_append_right _ List.mem_cons_self, caller, pending, rfl, rfl⟩

/-- A conflict is installed under the UUID the call has just drawn. -/
theorem AllBound.installs (hbound : AllBound P w) {caller : Nat} {conflict : PendingConflict}
    (hstep : Step P S past w (.perform caller (.installConflict conflict) (.ok ())) w') :
    ∃ running credential rest, w.calls caller = some running ∧ running.call = .sync credential ∧
      running.transcript =
        (⟨.newUuid, conflict.operation.conflictOperationId⟩ : Σ e, Answer e) :: rest := by
  obtain ⟨running, hcall, ⟨credential, hsync⟩, rest, hdrawn⟩ := hbound.guard hstep
  exact ⟨running, credential, rest, hcall, hsync, hdrawn⟩

/-- A token that is installed in a step was not installed before, and was drawn by that call. -/
theorem Tokens.fresh_install (ht : Tokens P steps w) (hbound : AllBound P w)
    (hstep : Step P S past w event w') (hinstalls : InstallsToken id (w, event)) :
    (∀ step ∈ steps, ¬ InstallsToken id step) ∧ id ∈ w.issued ∧
      ∃ caller running rest, event.performer = some caller ∧ w.calls caller = some running ∧
        running.transcript = (⟨.newUuid, id⟩ : Σ e, Answer e) :: rest := by
  obtain ⟨caller, conflict, hevent, rfl⟩ := hinstalls
  obtain rfl : event = _ := hevent
  obtain ⟨running, credential, rest, hcall, -, hdrawn⟩ := hbound.installs hstep
  obtain ⟨hissued, hfresh⟩ := ht.drawn caller running _ rest hcall hdrawn
  exact ⟨hfresh, hissued, caller, running, rest, rfl, hcall, hdrawn⟩

/-- What is on the wire after a step was there, or was just sent. -/
theorem Step.wire (hstep : Step P S past w event w') {request : Request V}
    (hmem : request ∈ w'.wire) :
    request ∈ w.wire ∨ ∃ caller running write next, w.calls caller = some running ∧
      running.program = .ask (.write write) next ∧
      request = ⟨caller, running.call, running.transcript, write⟩ := by
  cases event with
  | perform caller effect answer =>
    obtain ⟨_, _, after, _, _, hperforms, rfl⟩ := hstep
    exact .inl (hperforms.changes.frame.2.1 ▸ hmem)
  | send caller =>
    obtain ⟨running, write, next, hcall, hprogram, rfl⟩ := hstep
    rcases List.mem_cons.mp hmem with rfl | hmem
    · exact .inr ⟨caller, running, write, next, hcall, hprogram, rfl⟩
    · exact .inl hmem
  | start other engine call =>
    obtain ⟨-, rfl⟩ := hstep
    exact .inl hmem
  | deliver delivered revision =>
    obtain ⟨_, _, _, rfl⟩ := hstep
    exact .inl hmem
  | drop other =>
    subst hstep
    exact .inl hmem
  | crash =>
    subst hstep
    exact .inl hmem
  | ownerSaves snapshot =>
    subst hstep
    exact .inl hmem
  | othersWrite object =>
    obtain ⟨-, rfl⟩ := hstep
    exact .inl hmem

/-- The head of a transcript after a step is a UUID just drawn, or was the head before. -/
theorem Step.drawn (hstep : Step P S past w event w') {caller : Nat} {running : Running V}
    {rest : Record V} (hcall : w'.calls caller = some running)
    (hhead : running.transcript = (⟨.newUuid, id⟩ : Σ e, Answer e) :: rest) :
    (w.calls caller = some running ∧ event.performer ≠ some caller) ∨
      (event = .perform caller .newUuid id ∧ id ∉ w.issued ∧ id ∈ w'.issued) := by
  rcases hstep.calls hcall with hold | ⟨engine, call, rfl⟩ |
    ⟨before, effect, next, answer, rfl, -, hprogram, rfl⟩
  · exact .inl hold
  · cases hhead
  · obtain ⟨heffect, -⟩ := List.cons.inj hhead
    cases heffect
    obtain ⟨_, _, after, _, _, hperforms, rfl⟩ := hstep
    obtain ⟨hfresh, rfl⟩ := hperforms
    exact .inr ⟨rfl, hfresh, List.mem_cons_self⟩

/-- A conflict that a step installs is the last issued on its engine. -/
theorem Sound.issuedLast (hs : Sound P past w) {caller : Nat} {conflict : PendingConflict}
    {running : Running V}
    (hstep : Step P S past w (.perform caller (.installConflict conflict) (.ok ())) w')
    (hcall : w.calls caller = some running) :
    IssuedLast P ((w, .perform caller (.installConflict conflict) (.ok ())) :: steps)
      running.engine conflict := by
  obtain ⟨running', next, after, hcall', hprogram, -, -⟩ := hstep
  obtain rfl := Option.some.inj (hcall.symm.trans hcall')
  have hsafe := (hs.calls caller running hcall).1
  rw [hprogram] at hsafe
  obtain ⟨⟨credential, hsync⟩, hcaptured, hobserved, hdigest⟩ := hsafe.1
  exact ⟨[], steps, w, caller, running, credential, rfl, hcall, rfl, hsync, hcaptured, hobserved,
    hdigest, by simp⟩

theorem Tokens.step (ht : Tokens P steps w) (hbound : AllBound P w) (hs : Sound P past w)
    (hstep : Step P S past w event w') : Tokens P ((w, event) :: steps) w' where
  drawn := by
    intro caller running id rest hcall hhead
    rcases hstep.drawn hcall hhead with ⟨hold, hother⟩ | ⟨rfl, hfresh, hissued⟩
    · obtain ⟨hissued, hfresh⟩ := ht.drawn caller running id rest hold hhead
      refine ⟨hstep.issued hissued, List.forall_mem_cons.mpr ⟨fun hinstalls => ?_, hfresh⟩⟩
      obtain ⟨-, -, caller', running', rest', hperformer, hcall', hhead'⟩ :=
        ht.fresh_install hbound hstep hinstalls
      obtain rfl := ht.apart caller caller' running running' id rest rest' hold hcall' hhead hhead'
      exact hother hperformer
    · refine ⟨hissued, List.forall_mem_cons.mpr ⟨?_, fun step hmem hinstalls => ?_⟩⟩
      · rintro ⟨_, _, hevent, _⟩
        cases hevent
      · exact hfresh (ht.installed step hmem id hinstalls)
  apart := by
    intro caller caller' running running' id rest rest' hcall hcall' hhead hhead'
    rcases hstep.drawn hcall hhead with ⟨hold, -⟩ | ⟨hevent, hfresh, -⟩
    · rcases hstep.drawn hcall' hhead' with ⟨hold', -⟩ | ⟨-, hfresh', -⟩
      · exact ht.apart caller caller' running running' id rest rest' hold hold' hhead hhead'
      · exact absurd (ht.drawn caller running id rest hold hhead).1 hfresh'
    · rcases hstep.drawn hcall' hhead' with ⟨hold', -⟩ | ⟨hevent', -, -⟩
      · exact absurd (ht.drawn caller' running' id rest' hold' hhead').1 hfresh
      · rw [hevent] at hevent'
        cases hevent'
        rfl
  installed := by
    intro step hmem id hinstalls
    rcases List.mem_cons.mp hmem with rfl | hmem
    · exact hstep.issued (ht.fresh_install hbound hstep hinstalls).2.1
    · exact hstep.issued (ht.installed step hmem id hinstalls)
  taken := by
    intro step hmem id htakes
    have hold : ∃ step' ∈ steps, InstallsToken id step' := by
      rcases List.mem_cons.mp hmem with rfl | hmem
      · exact (ht.fresh_take hstep htakes).2
      · exact ht.taken step hmem id htakes
    obtain ⟨step', hmem', hinstalls⟩ := hold
    exact ⟨step', List.mem_cons_of_mem _ hmem', hinstalls⟩
  pending := by
    intro engine conflict hpending
    rcases hstep.pending hpending with ⟨hold, hnone⟩ | ⟨caller, running, rfl, hcall, rfl⟩
    · obtain ⟨hissued, hfresh⟩ := ht.pending engine conflict hold
      refine ⟨hissued.cons hnone, List.forall_mem_cons.mpr ⟨?_, hfresh⟩⟩
      rintro ⟨caller, taken, hevent⟩
      obtain rfl : event = _ := hevent
      obtain ⟨running, -, htaken, hid, hgone⟩ := hstep.takes
      -- The token taken is this one, so it is the conflict of this engine that is gone.
      obtain rfl := ht.distinct engine running.engine conflict taken hold htaken hid.symm
      rw [hgone] at hpending
      cases hpending
    · refine ⟨hs.issuedLast hstep hcall, List.forall_mem_cons.mpr ⟨?_, ?_⟩⟩
      · rintro ⟨_, _, hevent⟩
        cases hevent
      · intro step hmem htakes
        obtain ⟨step', hmem', hinstalls⟩ := ht.taken step hmem _ htakes
        exact (ht.fresh_install hbound hstep ⟨caller, conflict, rfl, rfl⟩).1 step' hmem' hinstalls
  distinct := by
    intro engine engine' conflict conflict' hpending hpending' hsame
    have hold_new : ∀ {engine conflict conflict' caller}, w.pending engine = some conflict →
        event = .perform caller (.installConflict conflict') (.ok ()) →
        conflict.operation.conflictOperationId ≠ conflict'.operation.conflictOperationId := by
      intro engine conflict conflict' caller hold hevent hsame
      subst hevent
      obtain ⟨since, before, w₀, caller₀, running, credential, rfl, -⟩ :=
        (ht.pending engine conflict hold).1.issued
      exact (ht.fresh_install hbound hstep ⟨caller, conflict', rfl, rfl⟩).1 _
        (List.mem_append_right _ List.mem_cons_self) ⟨caller₀, conflict, rfl, hsame⟩
    rcases hstep.pending hpending with ⟨hold, -⟩ | ⟨caller, running, hevent, hcall, rfl⟩
    · rcases hstep.pending hpending' with ⟨hold', -⟩ | ⟨caller', running', hevent', -, -⟩
      · exact ht.distinct engine engine' conflict conflict' hold hold' hsame
      · exact absurd hsame (hold_new hold hevent')
    · rcases hstep.pending hpending' with ⟨hold', -⟩ | ⟨caller', running', hevent', hcall', rfl⟩
      · exact absurd hsame.symm (hold_new hold' hevent)
      · rw [hevent] at hevent'
        cases hevent'
        obtain rfl := Option.some.inj (hcall.symm.trans hcall')
        rfl
  took := by
    intro caller running id conflict hcall htook
    have hkeep : ∀ {engine}, TookOnce P steps caller engine id conflict →
        TookOnce P ((w, event) :: steps) caller engine id conflict := by
      intro engine hold
      refine hold.cons fun htakes => ?_
      obtain ⟨step, hmem, hstep'⟩ := hold.takes
      exact (ht.fresh_take hstep htakes).1 step hmem hstep'
    rcases hstep.calls hcall with ⟨hold, -⟩ | ⟨engine, call, rfl⟩ |
      ⟨before, effect, next, answer, rfl, hbefore, hprogram, rfl⟩
    · exact hkeep (ht.took caller running id conflict hold htook)
    · simp at htook
    · rcases List.mem_cons.mp htook with heq | hold
      · cases heq
        obtain ⟨running, hcall', hpending, hid, -⟩ := hstep.takes
        obtain rfl := Option.some.inj (hbefore.symm.trans hcall')
        exact ⟨[], steps, w, rfl, hpending, hid, (ht.pending _ _ hpending).1, by simp,
          hid ▸ (ht.pending _ _ hpending).2⟩
      · exact hkeep (ht.took caller before id conflict hbefore hold)

end Step

/-! ## Resolving -/

section Resolve

omit [DecidableEq V]

/-- A `resolve` that reads the journal after an uncertain answer finds its own, or none. -/
def FindsOwnJournal (w : World V) : Event V → Prop
  | .perform caller (.readFile .journal) _ =>
    ∀ (running : Running V) (newer older : Record V) (request : RemoteWrite)
      (prepared record : JournalRecord) (answer : Except StoreError Unit) (id : Uuid)
      (choice : ConflictChoice) (credential : SyncCredential),
      w.calls caller = some running → running.call = .resolve id choice credential →
      running.transcript =
        newer ++ (⟨.write request, .error .writeResultUncertain⟩ : Σ e, Answer e) :: older →
      (⟨.writeFile .journal prepared, answer⟩ : Σ e, Answer e) ∈ older →
      w.files .journal = some record → record.sameTransaction prepared
  | _ => True

/-- LOCAL, REMOTE or BASE is overwritten. -/
def Effect.Overwrites : Effect V → Prop
  | .write _ | .replaceIfUnchanged _ _ | .writeFile .base _ => True
  | _ => False

/-- What the token of a conflict allows: the revision of REMOTE it was issued for, or the
snapshot of LOCAL, and then the chosen generation as BASE. -/
def PendingConflict.allows (P : Platform V) (pending : PendingConflict) (choice : ConflictChoice) :
    Effect V → Prop
  | .write request =>
    choice = .keepLocal ∧
      request = .replaceIfRevision pending.remoteRevision pending.loc.ciphertext
  | .replaceIfUnchanged expected ciphertext =>
    choice = .keepRemote ∧ expected = pending.loc ∧ ciphertext = pending.remoteBytes
  | .writeFile .base metadata =>
    BaseMetadata.ciphertextSha256 metadata = P.digestOf (pending.chosen choice)
  | _ => True

/-- Who acts in a step, with which transcript: the call that performs an effect, or the one a
write that the server applies came from. -/
inductive Acting (w : World V) : Event V → Nat → Call → Record V → Effect V → Prop where
  | performs {caller running effect answer} (calls : w.calls caller = some running) :
      Acting w (.perform caller effect answer) caller running.call running.transcript effect
  | delivers {request revision} :
      Acting w (.deliver request revision) request.caller request.call request.transcript
        (.write request.write)

end Resolve

section Resolve
variable {P : Platform V} {S : SyncStore} {past : List (World V)} {w w' : World V}
variable {event : Event V} {steps : List (World V × Event V)}

/-- What calls and requests on the wire keep to. -/
structure Governed (P : Platform V) (steps : List (World V × Event V)) (w : World V) : Prop where
  tokens : Tokens P steps w
  bound : AllBound P w
  own : ∀ caller running id choice credential, w.calls caller = some running →
    running.call = .resolve id choice credential → OwnJournal running.transcript
  wire : ∀ request ∈ w.wire,
    Bound P request.call request.transcript (.write request.write) ∧
    ∀ id conflict, (⟨.takeConflict id, .ok conflict⟩ : Σ e, Answer e) ∈ request.transcript →
      ∃ engine, TookOnce P steps request.caller engine id conflict

omit [DecidableEq V] in
theorem OwnJournal.nil : OwnJournal ([] : Record V) := by
  intro newer older request prepared record answer heq
  simp at heq

omit [DecidableEq V] in
/-- One more exchange: if it reads the journal, it must read the own one. -/
theorem OwnJournal.cons {h : Record V} {exchange : Σ e : Effect V, Answer e} (hown : OwnJournal h)
    (hread : ∀ newer older request prepared record answer,
      h = newer ++ (⟨.write request, .error .writeResultUncertain⟩ : Σ e, Answer e) :: older →
      (⟨.writeFile .journal prepared, answer⟩ : Σ e, Answer e) ∈ older →
      exchange = ⟨.readFile .journal, .ok (some record)⟩ →
      JournalRecord.sameTransaction record prepared) : OwnJournal (exchange :: h) := by
  intro newer older request prepared record answer heq hprepared hmem
  cases newer with
  | nil => cases hmem
  | cons first newer =>
    obtain ⟨rfl, rfl⟩ := List.cons.inj heq
    rcases List.mem_cons.mp hmem with hfirst | hmem
    · exact hread newer older request prepared record answer rfl hprepared hfirst.symm
    · exact hown newer older request prepared record answer rfl hprepared hmem

theorem Governed.step (hg : Governed P steps w) (hs : Sound P past w)
    (hstep : Step P S past w event w') (hfinds : FindsOwnJournal w event) :
    Governed P ((w, event) :: steps) w' where
  tokens := hg.tokens.step hg.bound hs hstep
  bound := hg.bound.step hstep
  own := by
    intro caller running id choice credential hcall hresolve
    rcases hstep.calls hcall with ⟨hold, -⟩ | ⟨engine, call, rfl⟩ |
      ⟨before, effect, next, answer, rfl, hbefore, hprogram, rfl⟩
    · exact hg.own caller running id choice credential hold hresolve
    · exact .nil
    · refine (hg.own caller before id choice credential hbefore hresolve).cons ?_
      intro newer older request prepared record written heq hprepared hexchange
      cases hexchange
      obtain ⟨running, _, after, hcall', _, hperforms, -⟩ := hstep
      obtain rfl := Option.some.inj (hbefore.symm.trans hcall')
      exact hfinds before newer older request prepared record written id choice credential hbefore
        hresolve heq hprepared (hperforms.2 _ rfl).symm
  wire := by
    have hkeep : ∀ request : Request V, (∀ id conflict,
        (⟨.takeConflict id, .ok conflict⟩ : Σ e, Answer e) ∈ request.transcript →
        ∃ engine, TookOnce P steps request.caller engine id conflict) → ∀ id conflict,
        (⟨.takeConflict id, .ok conflict⟩ : Σ e, Answer e) ∈ request.transcript →
        ∃ engine, TookOnce P ((w, event) :: steps) request.caller engine id conflict := by
      intro request hold id conflict htook
      obtain ⟨engine, hold⟩ := hold id conflict htook
      refine ⟨engine, hold.cons fun htakes => ?_⟩
      obtain ⟨step, hmem, hstep'⟩ := hold.takes
      exact (hg.tokens.fresh_take hstep htakes).1 step hmem hstep'
    intro request hmem
    rcases hstep.wire hmem with hold | ⟨caller, running, write, next, hcall, hprogram, rfl⟩
    · obtain ⟨hbound, htook⟩ := hg.wire request hold
      exact ⟨hbound, hkeep request htook⟩
    · have hsafe := hg.bound caller running hcall
      rw [hprogram] at hsafe
      refine ⟨hsafe.1, hkeep _ fun id conflict htook => ?_⟩
      exact ⟨running.engine, hg.tokens.took caller running id conflict hcall htook⟩

omit [DecidableEq V] in
theorem Initial.governed (h : Initial w) : Governed P [] w where
  tokens :=
    { drawn := fun caller running id rest hcall => by simp [h.calls] at hcall
      apart := fun caller caller' running running' id rest rest' hcall => by simp [h.calls] at hcall
      installed := by simp
      taken := by simp
      pending := fun engine conflict hpending => by simp [h.pending] at hpending
      distinct := fun engine engine' conflict conflict' hpending => by simp [h.pending] at hpending
      took := fun caller running id conflict hcall => by simp [h.calls] at hcall }
  bound caller running hcall := by simp [h.calls] at hcall
  own caller running id choice credential hcall := by simp [h.calls] at hcall
  wire request hmem := by simp [h.wire] at hmem

theorem Trace.governed (trace : Trace P S FindsOwnJournal steps w) : Governed P steps w := by
  induction trace with
  | start initial => exact initial.governed
  | step trace step allows ih => exact ih.step trace.run.sound step allows

omit [DecidableEq V] in
/-- Under its own journal, a `resolve` overwrites what its token allows. -/
theorem Bound.allows {call : Call} {h : Record V} {effect : Effect V} {id : Uuid}
    {choice : ConflictChoice} {credential : SyncCredential} (hbound : Bound P call h effect)
    (hresolve : call = .resolve id choice credential) (hoverwrites : effect.Overwrites)
    (hown : OwnJournal h) :
    ∃ pending, Authorised P h id pending ∧ pending.allows P choice effect := by
  cases effect with
  | write request => exact hbound id choice credential hresolve
  | replaceIfUnchanged expected ciphertext =>
    obtain ⟨pending, hauthorised, hallows⟩ := hbound id choice credential hresolve
    exact ⟨pending, hauthorised, hallows hown⟩
  | writeFile file content =>
    cases file with
    | base =>
      obtain ⟨pending, hauthorised, hallows⟩ := hbound id choice credential hresolve
      exact ⟨pending, hauthorised, hallows hown⟩
    | journal => exact hoverwrites.elim
    | ciphertext name => exact hoverwrites.elim
  | _ => exact hoverwrites.elim

omit [DecidableEq V] in
theorem Authorised.took {h : Record V} {id : Uuid} {pending : PendingConflict}
    (ha : Authorised P h id pending) :
    (⟨.takeConflict id, .ok pending⟩ : Σ e, Answer e) ∈ h := by
  obtain ⟨earlier, later, object, rfl, -⟩ := ha
  exact List.mem_append_right _ List.mem_cons_self

/-- A conflict that a step of a `resolve` removes is the one whose token the call names, and the
call has opened LOCAL with its credential. -/
theorem Governed.releases (hg : Governed P steps w) {caller : Nat} {effect : Effect V}
    {answer : Answer effect} {running : Running V} {id : Uuid} {choice : ConflictChoice}
    {credential : SyncCredential} (hstep : Step P S past w (.perform caller effect answer) w')
    (hcall : w.calls caller = some running) (hresolve : running.call = .resolve id choice credential)
    {engine : Nat} {conflict : PendingConflict} (hpending : w.pending engine = some conflict) :
    w'.pending engine = some conflict ∨
      (conflict.operation.conflictOperationId = id ∧ credential.hasComponent = true ∧
        ∃ snapshot document, Captured running.transcript snapshot ∧
          openDocument P snapshot.ciphertext credential = .ok document) := by
  obtain ⟨running', hcall', hbound⟩ := hg.bound.guard hstep
  obtain rfl := Option.some.inj (hcall.symm.trans hcall')
  obtain ⟨running', next, after, hcall', hprogram, hperforms, rfl⟩ := hstep
  obtain rfl := Option.some.inj (hcall.symm.trans hcall')
  cases effect with
  | takeConflict token =>
    obtain ⟨choice', credential', hsame, hcomponent, hopens⟩ := hbound
    cases hresolve.symm.trans hsame
    rcases hperforms with ⟨taken, htaken, hid, -, rfl⟩ | ⟨-, -, rfl⟩ | ⟨-, rfl⟩
    · by_cases heq : engine = running.engine
      · subst heq
        obtain rfl := Option.some.inj (hpending.symm.trans htaken)
        exact .inr ⟨hid, hcomponent, hopens⟩
      · exact .inl ((Function.update_of_ne heq _ _).trans hpending)
    · exact .inl hpending
    · exact .inl hpending
  | invalidateConflict =>
    obtain ⟨credential', hsync⟩ := hbound
    cases hresolve.symm.trans hsync
  | installConflict installed =>
    obtain ⟨⟨credential', hsync⟩, -⟩ := hbound
    cases hresolve.symm.trans hsync
  | _ => exact .inl ((congrFun (hperforms.pending_eq trivial) engine).trans hpending)

/-- The conflict authority is single-use and bound. In every run in which no `resolve` finds
another call's journal after an uncertain answer: what a `resolve` overwrites is what its token
allows; it took that token when it was the last issued on its engine, nobody else ever took it,
and after taking it the call found BASE, LOCAL and REMOTE as they were when it was issued. A
`resolve` that names another token, or whose credential does not open LOCAL, leaves the pending
conflict in force. -/
theorem resolve_single_use (trace : Trace P S FindsOwnJournal steps w)
    (hstep : Step P S (w :: steps.map Prod.fst) w event w') :
    (∀ caller call h effect id choice credential, Acting w event caller call h effect →
      call = .resolve id choice credential → effect.Overwrites →
      ∃ pending engine, Authorised P h id pending ∧ pending.allows P choice effect ∧
        TookOnce P steps caller engine id pending) ∧
    ∀ caller running effect answer id choice credential, event = .perform caller effect answer →
      w.calls caller = some running → running.call = .resolve id choice credential →
      ∀ engine conflict, w.pending engine = some conflict →
        w'.pending engine = some conflict ∨
          (conflict.operation.conflictOperationId = id ∧ credential.hasComponent = true ∧
            ∃ snapshot document, Captured running.transcript snapshot ∧
              openDocument P snapshot.ciphertext credential = .ok document) := by
  have hg := trace.governed
  constructor
  · intro caller call h effect id choice credential hacting hresolve hoverwrites
    cases hacting with
    | @performs caller running effect answer hcall =>
      obtain ⟨running', hcall', hbound⟩ := hg.bound.guard hstep
      obtain rfl := Option.some.inj (hcall.symm.trans hcall')
      obtain ⟨pending, hauthorised, hallows⟩ := hbound.allows hresolve hoverwrites
        (hg.own caller running id choice credential hcall hresolve)
      exact ⟨pending, running.engine, hauthorised, hallows,
        hg.tokens.took caller running id pending hcall hauthorised.took⟩
    | @delivers request revision =>
      obtain ⟨hmem, -, -, -⟩ := hstep
      obtain ⟨hbound, htook⟩ := hg.wire request hmem
      obtain ⟨pending, hauthorised, hallows⟩ := hbound id choice credential hresolve
      obtain ⟨engine, htook⟩ := htook id pending hauthorised.took
      exact ⟨pending, engine, hauthorised, hallows, htook⟩
  · intro caller running effect answer id choice credential hevent hcall hresolve engine conflict
      hpending
    subst hevent
    exact hg.releases hstep hcall hresolve hpending

end Resolve

/-! ## Scripts -/

section Scripts
variable {P : Platform V} {S : SyncStore} {past past' : List (World V)} {w w' : World V}

theorem Run.trace {allowed : World V → Event V → Prop} (hrun : Run P S past w)
    (hallowed : ∀ w ∈ past, ∀ event, allowed w event) :
    ∃ steps, Trace P S allowed steps w ∧ past = w :: steps.map Prod.fst := by
  induction hrun with
  | start initial => exact ⟨[], .start initial, rfl⟩
  | @step past w event w' run step ih =>
    obtain ⟨steps, trace, rfl⟩ := ih fun w hmem => hallowed w (List.mem_cons_of_mem _ hmem)
    exact ⟨(w, event) :: steps, .step trace step (hallowed w (by simp) event), rfl⟩

omit [DecidableEq V]

/-- No call was told that its write is uncertain. -/
def Certain (w : World V) : Prop :=
  ∀ caller running request, w.calls caller = some running →
    (⟨.write request, .error .writeResultUncertain⟩ : Σ e, Answer e) ∉ running.transcript

theorem Certain.findsOwnJournal (h : Certain w) (event : Event V) : FindsOwnJournal w event := by
  unfold FindsOwnJournal
  split
  · intro running newer older request prepared record answer id choice credential hcall _ heq
    refine absurd ?_ (h _ running request hcall)
    rw [heq]
    exact List.mem_append_right _ List.mem_cons_self
  · trivial

theorem performOnce_certain {caller : Nat} (h : performOnce caller w = some w') (hw : Certain w) :
    Certain w' := by
  unfold performOnce at h
  split at h
  · cases h
  · rename_i running hcall
    split at h
    · cases h
    · rename_i effect next hprogram
      split at h
      · cases h
      · rename_i answer after hreply
        cases h
        intro other thread request hthread hmem
        rcases of_update_eq_some hthread with hold | hnew
        · exact hw other thread request hold hmem
        · obtain rfl := Option.some.inj hnew
          rcases List.mem_cons.mp hmem with heq | hmem
          · cases heq
            simp only [reply] at hreply
            split at hreply
            · cases hreply
            · cases hreply
          · exact hw caller running request hcall hmem

/-- Nobody is told that a write failed. -/
def Move.confirms : Move → Bool
  | .fail _ _ => false
  | _ => true

theorem performs_certain {caller count : Nat}
    (h : performs caller count (past, w) = some (past', w'))
    (hpast : ∀ w ∈ past, Certain w) (hw : Certain w) :
    (∀ w ∈ past', Certain w) ∧ Certain w' := by
  induction count generalizing past w with
  | zero =>
    cases h
    exact ⟨hpast, hw⟩
  | succ count ih =>
    simp only [performs] at h
    split at h
    · cases h
    · rename_i next hnext
      have hcertain := performOnce_certain hnext hw
      exact ih h (List.forall_mem_cons.mpr ⟨hcertain, hpast⟩) hcertain

variable [DecidableEq V]

theorem move_certain {next : Move} (hconfirms : next.confirms = true)
    (h : move P S (past, w) next = some (past', w')) (hpast : ∀ w ∈ past, Certain w)
    (hw : Certain w) : (∀ w ∈ past', Certain w) ∧ Certain w' := by
  have hpush : Certain w' → past' = w' :: past → (∀ w ∈ past', Certain w) ∧ Certain w' := by
    rintro hcertain rfl
    exact ⟨List.forall_mem_cons.mpr ⟨hcertain, hpast⟩, hcertain⟩
  cases next with
  | perform caller count => exact performs_certain h hpast hw
  | fail caller error => cases hconfirms
  | start caller engine call =>
    simp only [move] at h
    split at h
    · cases h
    · cases h
      refine hpush ?_ rfl
      intro other running request hcall hmem
      rcases of_update_eq_some hcall with hold | hnew
      · exact hw other running request hold hmem
      · have hempty : running.transcript = [] := (congrArg Running.transcript (Option.some.inj hnew)).symm
        rw [hempty] at hmem
        cases hmem
  | send caller =>
    obtain ⟨w₁, hsend, hpushed⟩ := Option.bind_eq_some_iff.mp h
    cases hpushed
    refine hpush ?_ rfl
    unfold sendWrite at hsend
    split at hsend
    · cases hsend
    · split at hsend
      · cases hsend
        exact hw
      · cases hsend
  | deliver revision =>
    obtain ⟨w₁, hdeliver, hpushed⟩ := Option.bind_eq_some_iff.mp h
    cases hpushed
    refine hpush ?_ rfl
    unfold deliverLast at hdeliver
    split at hdeliver
    · cases hdeliver
    · split at hdeliver
      · cases hdeliver
        exact hw
      · cases hdeliver
  | drop caller =>
    cases h
    refine hpush ?_ rfl
    intro other running request hcall
    rcases of_update_eq_some hcall with hold | hnew
    · exact hw other running request hold
    · cases hnew
  | crash =>
    cases h
    refine hpush ?_ rfl
    intro other running request hcall
    cases hcall
  | save snapshot =>
    cases h
    exact hpush hw rfl
  | others object =>
    simp only [move] at h
    split at h
    · cases h
      exact hpush hw rfl
    · cases h

theorem play_certain {moves : List Move} (hconfirms : ∀ next ∈ moves, next.confirms = true)
    (h : play P S moves (past, w) = some (past', w')) (hpast : ∀ w ∈ past, Certain w)
    (hw : Certain w) : ∀ w ∈ past', Certain w := by
  induction moves generalizing past w with
  | nil =>
    cases h
    exact hpast
  | cons next moves ih =>
    obtain ⟨⟨past₁, w₁⟩, hmove, hrest⟩ := Option.bind_eq_some_iff.mp h
    obtain ⟨hpast₁, hw₁⟩ := move_certain (hconfirms next List.mem_cons_self) hmove hpast hw
    exact ih (fun other hmem => hconfirms other (List.mem_cons_of_mem _ hmem)) hrest hpast₁ hw₁

end Scripts

/-! ## A conflict that is resolved, and one that is not -/

/-- Another device has uploaded another vault: the first synchronization is in conflict. -/
def conflictMoves : List Move :=
  [.others (some ⟨[2], ⟨"r0"⟩⟩), .start 1 0 (.sync sampleCredential), .perform 1 7]

/-- The owner keeps the local vault, and the write is about to reach the server. -/
def keepLocalMoves : List Move :=
  conflictMoves ++ [.start 0 0 (.resolve 0 .keepLocal sampleCredential), .perform 0 11, .send 0]

/-- The write sent last is that of this call. -/
def sentBy (id : Uuid) (choice : ConflictChoice) (credential : SyncCredential) (w : World Unit) :
    Bool :=
  match w.wire with
  | ⟨_, .resolve id' choice' credential', _, _⟩ :: _ =>
    id' = id ∧ choice' = choice ∧ credential' = credential
  | _ => false

theorem deliverLast_sentBy {P : Platform Unit} {S : SyncStore} {past : List (World Unit)}
    {w w' : World Unit} {revision : RemoteRevision} {id : Uuid} {choice : ConflictChoice}
    {credential : SyncCredential} (h : deliverLast revision past w = some w')
    (hsent : sentBy id choice credential w = true) :
    ∃ request, Step P S past w (.deliver request revision) w' ∧
      request.call = .resolve id choice credential := by
  unfold sentBy at hsent
  unfold deliverLast at h
  split at hsent
  · rename_i caller id' choice' credential' transcript write rest hwire
    obtain ⟨rfl, rfl, rfl⟩ := of_decide_eq_true hsent
    rw [hwire] at h
    split at h
    · cases h
    · rename_i request others heq
      obtain ⟨rfl, rfl⟩ := List.cons.inj heq
      split at h
      · rename_i hcondition
        cases h
        simp only [Bool.and_eq_true] at hcondition
        refine ⟨⟨caller, .resolve id' choice' credential', transcript, write⟩, ⟨?_,
          RemoteWrite.accepted_of_accepts hcondition.1, revisionFits_iff hcondition.2, by rw [hwire]⟩,
          rfl⟩
        rw [hwire]
        exact List.mem_cons_self
      · cases h
  · cases hsent

theorem sampleWorld_certain : Certain sampleWorld := by
  intro caller running request hcall
  cases hcall

set_option maxRecDepth 100000 in
theorem resolve_single_use_upload :
    ∃ (steps : List (World Unit × Event Unit)) (w w' : World Unit) (request : Request Unit),
      Trace samplePlatform sampleStore FindsOwnJournal steps w ∧
      Step samplePlatform sampleStore (w :: steps.map Prod.fst) w (.deliver request ⟨"r1"⟩) w' ∧
      request.call = .resolve 0 .keepLocal sampleCredential ∧
      ∃ pending engine, Authorised samplePlatform request.transcript 0 pending ∧
        pending.allows samplePlatform .keepLocal (.write request.write) ∧
        TookOnce samplePlatform steps request.caller engine 0 pending := by
  have hplays : ((play samplePlatform sampleStore keepLocalMoves ([sampleWorld], sampleWorld)).bind
      fun state => if sentBy 0 .keepLocal sampleCredential state.2 then
        deliverLast ⟨"r1"⟩ state.1 state.2 else none).isSome = true := by decide +kernel
  obtain ⟨w', hw'⟩ := Option.isSome_iff_exists.mp hplays
  obtain ⟨⟨past, w⟩, hplay, hrest⟩ := Option.bind_eq_some_iff.mp hw'
  have hcertain := play_certain (by decide) hplay
    (by simpa using sampleWorld_certain) sampleWorld_certain
  obtain ⟨steps, trace, rfl⟩ := (play_run sampleWorld_run hplay).trace
    fun w hmem event => (hcertain w hmem).findsOwnJournal event
  split at hrest
  · rename_i hsent
    obtain ⟨request, hstep, hresolve⟩ := deliverLast_sentBy hrest hsent
    exact ⟨steps, w, w', request, trace, hstep, hresolve,
      (resolve_single_use trace hstep).1 _ _ _ _ _ _ _ .delivers hresolve trivial⟩
  · cases hrest

/-- While the write of that `resolve` is in flight, another synchronization takes its journal for
the remains of a crash and removes it; the owner saves a new generation, is asked again and keeps
the remote vault; then the first call is told that its write is uncertain and recovers what it
finds, which is the journal of the second. -/
def overtakenMoves : List Move :=
  conflictMoves ++ [.start 0 0 (.resolve 0 .keepLocal sampleCredential), .perform 0 11,
    .start 2 0 (.sync sampleCredential), .perform 2 16, .save (sampleSnapshot [3]),
    .start 3 0 (.sync sampleCredential), .perform 3 7,
    .start 4 0 (.resolve 3 .keepRemote sampleCredential), .perform 4 13,
    .fail 0 .writeResultUncertain, .perform 0 5]

/-- The call keeps the local vault, and is about to replace it. -/
def aboutToReplace (caller : Nat) (expected : LocalSnapshot) (w : World Unit) : Bool :=
  match w.calls caller with
  | some ⟨_, .resolve _ .keepLocal _, .ask (.replaceIfUnchanged snapshot _) _, _⟩ =>
    snapshot = expected
  | _ => false

set_option maxRecDepth 100000 in
/-- The `resolve` that keeps the local vault `[1]` overwrites the generation `[3]`. -/
theorem resolve_overwrites_other_snapshot :
    ¬ ∀ (steps : List (World Unit × Event Unit)) (w w' : World Unit) (event : Event Unit),
      Trace samplePlatform sampleStore (fun _ _ => True) steps w →
      Step samplePlatform sampleStore (w :: steps.map Prod.fst) w event w' →
      ∀ caller call h effect id choice credential, Acting w event caller call h effect →
        call = .resolve id choice credential → effect.Overwrites →
        ∃ pending engine, Authorised samplePlatform h id pending ∧
          pending.allows samplePlatform choice effect ∧
          TookOnce samplePlatform steps caller engine id pending := by
  intro hclaim
  have hplays : ((play samplePlatform sampleStore overtakenMoves ([sampleWorld], sampleWorld)).bind
      fun state => if aboutToReplace 0 (sampleSnapshot [3]) state.2 then performOnce 0 state.2
        else none).isSome = true := by decide +kernel
  obtain ⟨w', hw'⟩ := Option.isSome_iff_exists.mp hplays
  obtain ⟨⟨past, w⟩, hplay, hrest⟩ := Option.bind_eq_some_iff.mp hw'
  have hall : ∀ w ∈ past, ∀ event : Event Unit, (fun _ _ => True : World Unit → Event Unit → Prop)
      w event := fun _ _ _ => trivial
  obtain ⟨steps, trace, rfl⟩ := (play_run sampleWorld_run hplay).trace hall
  split at hrest
  swap
  · cases hrest
  rename_i habout
  unfold aboutToReplace at habout
  split at habout
  swap
  · cases habout
  rename_i engine id credential snapshot candidate next h hcall
  unfold performOnce at hrest
  rw [hcall] at hrest
  simp only at hrest
  split at hrest
  · cases hrest
  · rename_i answer after hreply
    cases hrest
    obtain ⟨pending, _, _, hallows, _⟩ := hclaim steps w _
      (.perform 0 (.replaceIfUnchanged snapshot candidate) answer) trace
      ⟨_, next, after, hcall, rfl, reply_performs hreply, rfl⟩ 0 _ _ _ id .keepLocal credential
      (.performs hcall) rfl trivial
    cases hallows.1

end NianPass.Sync
