import NianPass.Gateway.Model

/-
  The gateway as a compare-and-swap register for each vault.

  An installation tests its condition and then renames. The lock keeps others
  out in between as long as the future that holds the guard lives. If it is
  dropped while the installation runs, another installation may start, and then
  one of the two overwrites an object it did not name
  (`gateway_loses_generation`).

  In every run in which no installation is started while one of a dropped
  request is still running on the same vault, the history is linearizable
  (`gateway_linearizable`). Reads may overlap with anything.
-/
namespace NianPass.Gateway

open Kdbx (Bytes)
open Register (Operation Effect Event Mark Store Marked Linearization)

variable {I : Type} {G : Crates I} {s t : State I} {n m : Nat} {action : Action}

/-! ## Every request for itself -/

def Untaken (trace : List (Mark Nat I Bytes String)) (n : Nat) : Prop :=
  ∀ effect, .took n effect ∉ trace

def Unanswered (trace : List (Mark Nat I Bytes String)) (n : Nat) : Prop :=
  ∀ report, .event (.answered n report) ∉ trace

def Invoked (trace : List (Mark Nat I Bytes String)) (n : Nat) (vault : I) (purpose : Purpose) : Prop :=
  .event (.invoked n (purpose.operation vault)) ∈ trace

/-- What the progress of a task says about the trace. -/
def Task.Sound (G : Crates I) (trace : List (Mark Nat I Bytes String)) (n : Nat) (task : Task I) : Prop :=
  Invoked trace n task.vault task.purpose ∧
  match task.progress with
  | .stat => Untaken trace n ∧ Unanswered trace n
  | .opening => Untaken trace n ∧ Unanswered trace n
  | .renaming => Untaken trace n ∧ Unanswered trace n
  | .syncing => .took n (task.purpose.effect task.vault none) ∈ trace
  | .finished (.error _) => True
  | .finished (.ok (.found object)) => task.purpose = .read ∧
    (∀ bytes etag, object = some (bytes, etag) → etag = revision G bytes) ∧
    .took n (.read task.vault (object.map Prod.fst)) ∈ trace
  | .finished (.ok (.installed etag)) => ∃ condition bytes, task.purpose = .install condition bytes ∧
    etag = revision G bytes ∧ .took n (task.purpose.effect task.vault none) ∈ trace

/-- What a future waits for and has done. -/
def Future.Sound (trace : List (Mark Nat I Bytes String)) (n : Nat) (task : Option (Task I))
    (future : Future I) : Prop :=
  Unanswered trace n ∧
  match future.await with
  | .body _ => Untaken trace n ∧ task = none
  | .upload condition bytes => Untaken trace n ∧ task = none ∧
    Invoked trace n future.vault (.install condition bytes)
  | .guard _ purpose => Untaken trace n ∧ task = none ∧ Invoked trace n future.vault purpose
  | .task _ purpose => ∃ progress, task = some ⟨future.vault, purpose, progress⟩

/-- What was answered with an entity tag. -/
def Answered (G : Crates I) (trace : List (Mark Nat I Bytes String)) (n : Nat) : Response → Prop
  | .object bytes etag => etag = revision G bytes ∧
    ∃ vault, .event (.answered n (some (.read vault (some bytes)))) ∈ trace
  | .emptyWithEtag status etag => ∃ vault condition bytes, etag = revision G bytes ∧
    status = (if condition = .create then .created else .noContent) ∧
    .event (.answered n (some (Purpose.effect vault none (.install condition bytes)))) ∈ trace
  | .fixed _ _ => True

structure Local (G : Crates I) (s : State I) (n : Nat) : Prop where
  future : ∀ future, s.futures n = some future → future.Sound s.trace n (s.tasks n)
  task : ∀ task, s.tasks n = some task → task.Sound G s.trace n
  response : ∀ response, s.responses n = some response → Answered G s.trace n response
  unborn : s.nextRequest ≤ n → s.futures n = none ∧ s.tasks n = none ∧
    ∀ mark ∈ s.trace, mark.id ≠ n

/-- Marks of other requests do not matter. -/
theorem Local.frame (h : Local G s m) (hfuture : t.futures m = s.futures m)
    (htask : t.tasks m = s.tasks m) (hresponse : t.responses m = s.responses m)
    (hnext : s.nextRequest ≤ t.nextRequest)
    (htrace : ∀ mark : Mark Nat I Bytes String, mark.id = m → (mark ∈ t.trace ↔ mark ∈ s.trace)) :
    Local G t m := by
  have hinvoked : ∀ vault purpose, Invoked t.trace m vault purpose ↔ Invoked s.trace m vault purpose :=
    fun vault purpose => htrace _ rfl
  have htook : ∀ effect, .took m effect ∈ t.trace ↔ .took m effect ∈ s.trace :=
    fun effect => htrace _ rfl
  have hanswered : ∀ report, .event (.answered m report) ∈ t.trace ↔
      .event (.answered m report) ∈ s.trace := fun report => htrace _ rfl
  refine ⟨fun future hf => ?_, fun task ht => ?_, fun response hr => ?_, fun hunborn => ?_⟩
  · rw [hfuture] at hf
    have hsound := h.future future hf
    rw [htask]
    unfold Future.Sound Unanswered Untaken at *
    simpa only [hinvoked, htook, hanswered] using hsound
  · rw [htask] at ht
    have hsound := h.task task ht
    unfold Task.Sound Unanswered Untaken at *
    simpa only [hinvoked, htook, hanswered] using hsound
  · rw [hresponse] at hr
    have hsound := h.response response hr
    cases response with
    | fixed status text => trivial
    | object bytes etag => simpa only [Answered, hanswered] using hsound
    | emptyWithEtag status etag => simpa only [Answered, hanswered] using hsound
  · obtain ⟨hnone, hnotask, hmarks⟩ := h.unborn (hnext.trans hunborn)
    refine ⟨hfuture.trans hnone, htask.trans hnotask, fun mark hmark hid => ?_⟩
    exact hmarks mark ((htrace mark hid).1 hmark) hid

theorem mem_cons_of_id_ne {mark new : Mark Nat I Bytes String} {trace : List (Mark Nat I Bytes String)}
    (h : mark.id ≠ new.id) : mark ∈ new :: trace ↔ mark ∈ trace := by
  simp only [List.mem_cons, or_iff_right_iff_imp]
  intro heq
  exact absurd (congrArg Mark.id heq) h

/-- The other requests see nothing of the step but its marks. -/
structure Elsewhere (s t : State I) (m : Nat) : Prop where
  futures : t.futures m = s.futures m
  tasks : t.tasks m = s.tasks m
  responses : t.responses m = s.responses m
  marks : ∀ mark : Mark Nat I Bytes String, mark.id = m → (mark ∈ t.trace ↔ mark ∈ s.trace)

section Elsewhere
variable {vault : I} {purpose : Purpose} {response : Response}

theorem Elsewhere.trans {u : State I} (h : Elsewhere s t m) (h' : Elsewhere t u m) : Elsewhere s u m where
  futures := h'.futures.trans h.futures
  tasks := h'.tasks.trans h.tasks
  responses := h'.responses.trans h.responses
  marks mark hmark := (h'.marks mark hmark).trans (h.marks mark hmark)

theorem elsewhere_future {future : Option (Future I)} (hne : m ≠ n)
    (hfutures : t.futures = Function.update s.futures n future) (htasks : t.tasks = s.tasks)
    (hresponses : t.responses = s.responses) (htrace : t.trace = s.trace) : Elsewhere s t m where
  futures := by rw [hfutures, Function.update_of_ne hne]
  tasks := by rw [htasks]
  responses := by rw [hresponses]
  marks _ _ := by rw [htrace]

theorem elsewhere_answer (hne : m ≠ n) : Elsewhere s (s.answer n response) m where
  futures := Function.update_of_ne hne _ _
  tasks := rfl
  responses := Function.update_of_ne hne _ _
  marks _ _ := Iff.rfl

theorem elsewhere_conclude (hne : m ≠ n) : Elsewhere s (s.conclude n vault purpose response) m where
  futures := Function.update_of_ne hne _ _
  tasks := rfl
  responses := Function.update_of_ne hne _ _
  marks mark hmark := mem_cons_of_id_ne (by rw [hmark]; exact hne)

theorem elsewhere_invoke {operation : Operation I Bytes String} (hne : m ≠ n) :
    Elsewhere s (s.invoke n operation) m where
  futures := rfl
  tasks := rfl
  responses := rfl
  marks mark hmark := mem_cons_of_id_ne (by rw [hmark]; exact hne)

theorem elsewhere_take {effect : Effect I Bytes String} (hne : m ≠ n) :
    Elsewhere s (s.take n effect) m where
  futures := rfl
  tasks := rfl
  responses := rfl
  marks mark hmark := mem_cons_of_id_ne (by rw [hmark]; exact hne)

theorem elsewhere_setTask {task : Task I} (hne : m ≠ n) : Elsewhere s (s.setTask n task) m where
  futures := rfl
  tasks := Function.update_of_ne hne _ _
  responses := rfl
  marks _ _ := Iff.rfl

theorem elsewhere_resume {task : Task I} {current : Option Bytes} (hne : m ≠ n) :
    Elsewhere s (resume G s n task current) m := by
  unfold resume
  split_ifs
  · exact (elsewhere_setTask hne).trans (elsewhere_take hne)
  · exact elsewhere_setTask hne

end Elsewhere

section Own
variable {trace : List (Mark Nat I Bytes String)} {vault : I} {purpose : Purpose}

theorem unanswered_of_fresh (h : ∀ mark ∈ trace, mark.id ≠ n) : Unanswered trace n :=
  fun _ hmem => h _ hmem rfl

theorem untaken_of_fresh (h : ∀ mark ∈ trace, mark.id ≠ n) : Untaken trace n :=
  fun _ hmem => h _ hmem rfl

theorem Unanswered.cons {mark : Mark Nat I Bytes String} (h : Unanswered trace n)
    (hmark : ∀ report, mark ≠ .event (.answered n report)) : Unanswered (mark :: trace) n := by
  intro report hmem
  obtain heq | hmem := List.mem_cons.1 hmem
  · exact hmark report heq.symm
  · exact h report hmem

theorem Untaken.cons {mark : Mark Nat I Bytes String} (h : Untaken trace n)
    (hmark : ∀ effect, mark ≠ .took n effect) : Untaken (mark :: trace) n := by
  intro effect hmem
  obtain heq | hmem := List.mem_cons.1 hmem
  · exact hmark effect heq.symm
  · exact h effect hmem

/-- The task has not come to its end or its point. -/
def Progress.Pending : Progress → Prop
  | .stat => True
  | .opening => True
  | .renaming => True
  | .syncing => False
  | .finished _ => False

theorem Task.Sound.pending {task : Task I} (h : task.Sound G trace n) (hpending : task.progress.Pending) :
    Untaken trace n ∧ Unanswered trace n := by
  obtain ⟨-, h⟩ := h
  cases hprogress : task.progress <;> simp only [hprogress] at h hpending
  · exact h
  · exact h
  · exact h
  · exact hpending.elim
  · exact hpending.elim

theorem Task.Sound.fail {task : Task I} {error : StorageError} (h : task.Sound G trace n) :
    (task.fail error).Sound G trace n := ⟨h.1, trivial⟩

theorem Task.resume_keeps (task : Task I) (G : Crates I) (current : Option Bytes) :
    (task.resume G current).vault = task.vault ∧ (task.resume G current).purpose = task.purpose := by
  obtain ⟨vault, purpose, progress⟩ := task
  unfold Task.resume
  cases purpose with
  | read => exact ⟨rfl, rfl⟩
  | install condition bytes =>
    simp only []
    split_ifs <;> exact ⟨rfl, rfl⟩

/-- All that `resume` does. -/
structure Resumed (s t : State I) (n : Nat) (task task' : Task I) (current : Option Bytes) : Prop where
  objects : t.objects = s.objects
  futures : t.futures = s.futures
  tasks : t.tasks = Function.update s.tasks n (some task')
  locks : t.locks = s.locks
  strong : t.strong = s.strong
  guards : t.guards = s.guards
  nextRequest : t.nextRequest = s.nextRequest
  nextLock : t.nextLock = s.nextLock
  responses : t.responses = s.responses
  trace : t.trace = if task.purpose = .read then .took n (.read task.vault current) :: s.trace else s.trace

theorem resume_keeps (s : State I) (n : Nat) (task : Task I) (current : Option Bytes) :
    Resumed s (resume G s n task current) n task (task.resume G current) current := by
  unfold resume
  split_ifs with h
  · exact ⟨rfl, rfl, rfl, rfl, rfl, rfl, rfl, rfl, rfl, (if_pos h).symm⟩
  · exact ⟨rfl, rfl, rfl, rfl, rfl, rfl, rfl, rfl, rfl, (if_neg h).symm⟩

/-- After `read_object` the task is sound in the trace that has the point of a read. -/
theorem Task.Sound.resume {task : Task I} (h : task.Sound G s.trace n) (hpending : task.progress.Pending)
    (current : Option Bytes) :
    (task.resume G current).Sound G (Gateway.resume G s n task current).trace n := by
  have hnothing := h.pending hpending
  obtain ⟨hinvoked, -⟩ := h
  obtain ⟨vault, purpose, progress⟩ := task
  cases purpose with
  | read =>
    refine ⟨List.mem_cons_of_mem _ hinvoked, rfl, fun bytes etag heq => ?_, ?_⟩
    · obtain ⟨found, -, heq⟩ := Option.map_eq_some_iff.1 heq
      cases heq
      rfl
    · have hfirst : (current.map fun bytes => (bytes, revision G bytes)).map Prod.fst = current := by
        cases current <;> rfl
      rw [hfirst]
      exact List.mem_cons_self
  | install condition bytes =>
    unfold Task.resume
    simp only []
    split_ifs
    · exact ⟨hinvoked, hnothing⟩
    · exact ⟨hinvoked, trivial⟩

/-- A task that has ended does not mind the answer. -/
theorem Task.Sound.finished {task : Task I} {result : Except StorageError Outcome}
    {mark : Mark Nat I Bytes String} (h : task.Sound G trace n)
    (hfinished : task.progress = .finished result) : task.Sound G (mark :: trace) n := by
  unfold Task.Sound at *
  obtain ⟨hinvoked, h⟩ := h
  refine ⟨List.mem_cons_of_mem _ hinvoked, ?_⟩
  rw [hfinished] at h ⊢
  cases result with
  | error error => trivial
  | ok outcome =>
    cases outcome with
    | found object => exact ⟨h.1, h.2.1, List.mem_cons_of_mem _ h.2.2⟩
    | installed etag =>
      obtain ⟨condition, bytes, hpurpose, hetag, htook⟩ := h
      exact ⟨condition, bytes, hpurpose, hetag, List.mem_cons_of_mem _ htook⟩

/-- What the answer reports is what the task did. -/
theorem Task.Sound.reported {task : Task I} {result : Except StorageError Outcome}
    {effect : Effect I Bytes String} (h : task.Sound G trace n)
    (hfinished : task.progress = .finished result)
    (hreport : task.purpose.report task.vault (respond task.purpose result) = some effect) :
    .took n effect ∈ trace := by
  obtain ⟨vault, purpose, progress⟩ := task
  obtain rfl : progress = .finished result := hfinished
  obtain ⟨-, h⟩ := h
  cases result with
  | error error => cases purpose <;> cases error <;> cases hreport
  | ok outcome =>
    cases outcome with
    | found object =>
      obtain ⟨hpurpose, -, htook⟩ := h
      obtain rfl : purpose = .read := hpurpose
      cases object with
      | none =>
        cases hreport
        exact htook
      | some found =>
        cases hreport
        exact htook
    | installed etag =>
      obtain ⟨condition, bytes, hpurpose, -, htook⟩ := h
      obtain rfl : purpose = .install condition bytes := hpurpose
      cases hreport
      exact htook

/-- And the entity tag is that of the bytes. -/
theorem Task.Sound.answered {task : Task I} {result : Except StorageError Outcome}
    (h : task.Sound G trace n) (hfinished : task.progress = .finished result) :
    Answered G (.event (.answered n (task.purpose.report task.vault (respond task.purpose result))) :: trace)
      n (respond task.purpose result) := by
  obtain ⟨vault, purpose, progress⟩ := task
  obtain rfl : progress = .finished result := hfinished
  obtain ⟨-, h⟩ := h
  cases result with
  | error error => cases purpose <;> cases error <;> trivial
  | ok outcome =>
    cases outcome with
    | found object =>
      obtain ⟨hpurpose, hetag, -⟩ := h
      obtain rfl : purpose = .read := hpurpose
      cases object with
      | none => trivial
      | some found => exact ⟨hetag _ _ rfl, vault, List.mem_cons_self⟩
    | installed etag =>
      obtain ⟨condition, bytes, hpurpose, hetag, -⟩ := h
      obtain rfl : purpose = .install condition bytes := hpurpose
      exact ⟨vault, condition, bytes, hetag, rfl, List.mem_cons_self⟩

theorem Answered.mono {trace' : List (Mark Nat I Bytes String)} {response : Response}
    (h : Answered G trace n response) (hsub : ∀ mark ∈ trace, mark ∈ trace') :
    Answered G trace' n response := by
  cases response with
  | fixed status text => trivial
  | object bytes etag =>
    obtain ⟨hetag, vault, hmem⟩ := h
    exact ⟨hetag, vault, hsub _ hmem⟩
  | emptyWithEtag status etag =>
    obtain ⟨vault, condition, bytes, hetag, hstatus, hmem⟩ := h
    exact ⟨vault, condition, bytes, hetag, hstatus, hsub _ hmem⟩

theorem Local.lt_of_future {future : Future I} (h : Local G s n) (hfuture : s.futures n = some future) :
    n < s.nextRequest := by
  by_contra hunborn
  have hnone := (h.unborn (Nat.le_of_not_lt hunborn)).1
  rw [hnone] at hfuture
  cases hfuture

theorem Local.lt_of_task {task : Task I} (h : Local G s n) (htask : s.tasks n = some task) :
    n < s.nextRequest := by
  by_contra hunborn
  have hnone := (h.unborn (Nat.le_of_not_lt hunborn)).2.1
  rw [hnone] at htask
  cases htask

/-- A future whose request has a task waits for it. -/
theorem Local.awaits {task : Task I} {future : Future I} (h : Local G s n)
    (htask : s.tasks n = some task) (hfuture : s.futures n = some future) :
    ∃ vault lock purpose, future = ⟨vault, .task lock purpose⟩ := by
  obtain ⟨-, hawait⟩ := h.future future hfuture
  obtain ⟨vault, await⟩ := future
  cases await with
  | task lock purpose => exact ⟨vault, lock, purpose, rfl⟩
  | body condition => exact absurd (htask.symm.trans hawait.2) (by simp)
  | upload condition bytes => exact absurd (htask.symm.trans hawait.2.1) (by simp)
  | guard lock purpose => exact absurd (htask.symm.trans hawait.2.1) (by simp)

/-- A request that waits for something else now. -/
theorem Local.advance {future : Future I} (hborn : n < t.nextRequest)
    (hfuture : t.futures n = some future) (hsound : future.Sound t.trace n (t.tasks n))
    (htask : ∀ task, t.tasks n = some task → task.Sound G t.trace n)
    (hresponse : ∀ response, t.responses n = some response → Answered G t.trace n response) :
    Local G t n := by
  refine ⟨fun future' hf => ?_, htask, hresponse, fun hunborn => ?_⟩
  · rw [hfuture] at hf
    cases hf
    exact hsound
  · exact absurd hborn (Nat.not_lt_of_le hunborn)

/-- A request whose future is gone. -/
theorem Local.gone (hborn : n < t.nextRequest) (hfuture : t.futures n = none)
    (htask : ∀ task, t.tasks n = some task → task.Sound G t.trace n)
    (hresponse : ∀ response, t.responses n = some response → Answered G t.trace n response) :
    Local G t n := by
  refine ⟨fun future hf => ?_, htask, hresponse, fun hunborn => ?_⟩
  · rw [hfuture] at hf
    cases hf
  · exact absurd hborn (Nat.not_lt_of_le hunborn)

/-- An answer with a fixed text, without a task. -/
theorem Local.answer {status : Status} {text : String} (hborn : n < s.nextRequest)
    (hnotask : s.tasks n = none) : Local G (s.answer n (.fixed status text)) n := by
  refine Local.gone hborn (Function.update_self _ _ _) (fun task ht => ?_) fun response hr => ?_
  · rw [show s.tasks n = some task from ht] at hnotask
    cases hnotask
  · simp only [State.answer, Function.update_self, Option.some.injEq] at hr
    subst hr
    trivial

/-- An answer to an operation of the storage. -/
theorem Local.conclude {response : Response} (hborn : n < s.nextRequest)
    (htask : ∀ task, s.tasks n = some task → task.Sound G (s.conclude n vault purpose response).trace n)
    (hanswered : Answered G (s.conclude n vault purpose response).trace n response) :
    Local G (s.conclude n vault purpose response) n := by
  refine Local.gone hborn (Function.update_self _ _ _) htask fun response' hr => ?_
  simp only [State.conclude, State.answer, Function.update_self, Option.some.injEq] at hr
  subst hr
  exact hanswered

/-- A task that goes on; its future, if it is still there, waits for it. -/
theorem Local.progress {task task' : Task I} (h : Local G s n) (htask : s.tasks n = some task)
    (hfuture : t.futures n = s.futures n) (htask' : t.tasks n = some task')
    (hvault : task'.vault = task.vault) (hpurpose : task'.purpose = task.purpose)
    (hresponse : t.responses n = s.responses n) (hnext : t.nextRequest = s.nextRequest)
    (hsub : ∀ mark ∈ s.trace, mark ∈ t.trace)
    (hanswered : ∀ report, .event (.answered n report) ∈ t.trace → .event (.answered n report) ∈ s.trace)
    (hsound : task'.Sound G t.trace n) : Local G t n := by
  refine ⟨fun future hf => ?_, fun task'' ht => ?_, fun response hr => ?_, fun hunborn => ?_⟩
  · rw [hfuture] at hf
    obtain ⟨vault, lock, purpose, rfl⟩ := h.awaits htask hf
    obtain ⟨hunanswered, progress, hrunning⟩ := h.future _ hf
    refine ⟨fun report hmem => hunanswered report (hanswered report hmem), ?_⟩
    rw [htask] at hrunning
    cases hrunning
    obtain ⟨vault', purpose', progress'⟩ := task'
    obtain rfl : vault' = vault := hvault
    obtain rfl : purpose' = purpose := hpurpose
    exact ⟨progress', htask'⟩
  · rw [htask'] at ht
    cases ht
    exact hsound
  · rw [hresponse] at hr
    exact (h.response response hr).mono hsub
  · rw [hnext] at hunborn
    exact absurd (h.lt_of_task htask) (Nat.not_lt_of_le hunborn)

/-- `read_object` returns. -/
theorem Local.resume {task : Task I} (h : Local G s n) (running : s.tasks n = some task)
    (pending : task.progress.Pending) (current : Option Bytes) :
    Local G (Gateway.resume G s n task current) n := by
  have hsound := (h.task _ running).resume pending current
  have hsame := resume_keeps (G := G) s n task current
  obtain ⟨hvault, hpurpose⟩ := task.resume_keeps G current
  refine h.progress running (by rw [hsame.futures]) (by rw [hsame.tasks, Function.update_self]) hvault
    hpurpose (by rw [hsame.responses]) hsame.nextRequest (fun mark hmem => ?_) (fun report hmem => ?_)
    hsound
  · rw [hsame.trace]
    split_ifs
    · exact List.mem_cons_of_mem _ hmem
    · exact hmem
  · rw [hsame.trace] at hmem
    split_ifs at hmem
    · exact (List.mem_cons.1 hmem).resolve_left (by simp)
    · exact hmem

end Own

variable [DecidableEq I]

/-! ## What a step can do -/

/-- The request whose future or task makes the step. -/
def Action.request (s : State I) : Action → Nat
  | .arrive _ => s.nextRequest
  | .collect n _ => n
  | .prepare n _ => n
  | .lock n => n
  | .stat n _ => n
  | .openRead n _ => n
  | .rename n _ => n
  | .syncDirectory n _ => n
  | .join n => n
  | .cancel n => n

def State.born (s : State I) : State I := { s with nextRequest := s.nextRequest + 1 }

/-- One case for each way in which a step can go. -/
inductive Transition (G : Crates I) (s : State I) : Action → State I → Prop
  | rejected {request : Request} {status : Status} {text : String} :
      Transition G s (.arrive request) (s.born.answer s.nextRequest (.fixed status text))
  | reading {request : Request} {vault : I} : Transition G s (.arrive request)
      ((s.born.invoke s.nextRequest (.read vault)).objectLock s.nextRequest vault .read)
  | admitted {request : Request} {vault : I} {condition : WriteCondition} {writers : Finset Nat} :
      Transition G s (.arrive request)
        ({ s.born with writers := writers }.await s.nextRequest vault (.body condition))
  | refused {n : Nat} {vault : I} {condition : WriteCondition} {body : Collected} {status : Status}
      {text : String} (future : s.futures n = some ⟨vault, .body condition⟩) :
      Transition G s (.collect n body) (s.answer n (.fixed status text))
  | received {n : Nat} {vault : I} {condition : WriteCondition} {bytes : Bytes}
      (future : s.futures n = some ⟨vault, .body condition⟩) :
      Transition G s (.collect n (.received bytes))
        ((s.invoke n (Purpose.operation vault (.install condition bytes))).await n vault
          (.upload condition bytes))
  | prepared {n : Nat} {vault : I} {condition : WriteCondition} {bytes : Bytes} {success : Bool}
      (future : s.futures n = some ⟨vault, .upload condition bytes⟩) :
      Transition G s (.prepare n success) (s.objectLock n vault (.install condition bytes))
  | unprepared {n : Nat} {vault : I} {condition : WriteCondition} {bytes : Bytes} {success : Bool}
      (future : s.futures n = some ⟨vault, .upload condition bytes⟩) :
      Transition G s (.prepare n success)
        (s.conclude n vault (.install condition bytes) (writeResponse condition (.error .io)))
  | spawned {n : Nat} {vault : I} {lock : Nat} {purpose : Purpose}
      (future : s.futures n = some ⟨vault, .guard lock purpose⟩) (free : s.guards lock = none) :
      Transition G s (.lock n) (spawn s n vault lock purpose)
  | failed {action : Action} {n : Nat} {task : Task I} {error : StorageError}
      (subject : action.request s = n) (running : s.tasks n = some task) (pending : task.progress.Pending) :
      Transition G s action (s.setTask n (task.fail error))
  | opening {n : Nat} {vault : I} {purpose : Purpose} {success : Bool}
      (task : s.tasks n = some ⟨vault, purpose, .stat⟩) :
      Transition G s (.stat n success) (s.setTask n ⟨vault, purpose, .opening⟩)
  | resumed {action : Action} {n : Nat} {task : Task I} (subject : action.request s = n)
      (running : s.tasks n = some task) (pending : task.progress.Pending) :
      Transition G s action (resume G s n task (s.objects task.vault))
  | renamed {n : Nat} {vault : I} {condition : WriteCondition} {bytes : Bytes} {success : Bool}
      (task : s.tasks n = some ⟨vault, .install condition bytes, .renaming⟩) :
      Transition G s (.rename n success)
        (rename s n ⟨vault, .install condition bytes, .renaming⟩ bytes true)
  | synced {n : Nat} {vault : I} {condition : WriteCondition} {bytes : Bytes} {success : Bool}
      (task : s.tasks n = some ⟨vault, .install condition bytes, .syncing⟩) :
      Transition G s (.syncDirectory n success)
        (syncDirectory G s n ⟨vault, .install condition bytes, .syncing⟩ bytes success)
  | joined {n : Nat} {vault : I} {lock : Nat} {purpose : Purpose} {task : Task I}
      {result : Except StorageError Outcome}
      (future : s.futures n = some ⟨vault, .task lock purpose⟩) (spawned : s.tasks n = some task)
      (finished : task.progress = .finished result) :
      Transition G s (.join n) (s.conclude n vault purpose (respond purpose result))
  | cancelled {n : Nat} {future : Future I} (alive : s.futures n = some future) :
      Transition G s (.cancel n) (s.drop n)

omit [DecidableEq I] in
/-- What is answered at once has a fixed text. -/
theorem route_error {request : Request} {response : Response} (h : route G request = .error response) :
    ∃ status text, response = .fixed status text := by
  have hadmit : ∀ response, admitWrite request.headers = .error response →
      ∃ status text, response = .fixed status text := by
    intro response hadmit
    unfold admitWrite at hadmit
    split_ifs at hadmit
    · cases hadmit
      exact ⟨_, _, rfl⟩
    · cases hadmit
      exact ⟨_, _, rfl⟩
    · split at hadmit
      · cases hadmit
      · cases hadmit
        exact ⟨_, _, rfl⟩
  unfold route at h
  repeat' split at h
  case h_2 hadmitted =>
    cases h
    exact hadmit _ hadmitted
  all_goals cases h
  all_goals exact ⟨_, _, rfl⟩

section Cases
variable {vault : I} {purpose : Purpose} {condition : WriteCondition} {bytes : Bytes} {success : Bool}

theorem arrive_cases (request : Request) : Transition G s (.arrive request) (arrive G s request) := by
  cases hroute : route G request with
  | error response =>
    obtain ⟨status, text, rfl⟩ := route_error hroute
    simp only [arrive, hroute]
    exact .rejected
  | ok routed =>
    cases routed with
    | read vault =>
      simp only [arrive, hroute]
      exact .reading
    | write vault condition =>
      simp only [arrive, hroute]
      split_ifs
      · exact .admitted
      · exact .rejected

theorem collect_cases (hfuture : s.futures n = some ⟨vault, .body condition⟩)
    (body : Collected) : Transition G s (.collect n body) (collect s n vault condition body) := by
  cases body with
  | received bytes =>
    simp only [collect]
    split_ifs
    · exact .received hfuture
    · exact .refused hfuture
  | failed => exact .refused hfuture
  | timedOut => exact .refused hfuture

theorem prepare_cases (hfuture : s.futures n = some ⟨vault, .upload condition bytes⟩) :
    Transition G s (.prepare n success) (prepare s n vault condition bytes success) := by
  unfold prepare
  split_ifs
  · exact .prepared hfuture
  · exact .unprepared hfuture

theorem stat_cases (htask : s.tasks n = some ⟨vault, purpose, .stat⟩) :
    Transition G s (.stat n success) (stat G s n ⟨vault, purpose, .stat⟩ success) := by
  unfold stat
  split_ifs
  · exact .failed rfl htask trivial
  · cases hobject : s.objects vault with
    | none =>
      have hresumed : Transition G s (.stat n success) _ := .resumed rfl htask trivial
      rwa [hobject] at hresumed
    | some bytes =>
      simp only []
      split_ifs
      · exact .failed rfl htask trivial
      · exact .opening htask

theorem openRead_cases (htask : s.tasks n = some ⟨vault, purpose, .opening⟩) :
    Transition G s (.openRead n success) (openRead G s n ⟨vault, purpose, .opening⟩ success) := by
  unfold openRead
  split_ifs
  · exact .failed rfl htask trivial
  · cases hobject : s.objects vault with
    | none => exact .failed rfl htask trivial
    | some bytes =>
      simp only []
      split_ifs
      · exact .failed rfl htask trivial
      · have hresumed : Transition G s (.openRead n success) _ := .resumed rfl htask trivial
        rwa [hobject] at hresumed

theorem rename_cases (htask : s.tasks n = some ⟨vault, .install condition bytes, .renaming⟩) :
    Transition G s (.rename n success)
      (rename s n ⟨vault, .install condition bytes, .renaming⟩ bytes success) := by
  cases success with
  | true => exact .renamed htask
  | false => exact .failed rfl htask trivial

end Cases

theorem step_cases (h : step G s action = some t) : Transition G s action t := by
  cases action with
  | arrive request =>
    cases h
    exact arrive_cases request
  | collect n body =>
    simp only [step] at h
    split at h
    case h_1 hfuture =>
      cases h
      exact collect_cases hfuture body
    case h_2 => cases h
  | prepare n success =>
    simp only [step] at h
    split at h
    case h_1 hfuture =>
      cases h
      exact prepare_cases hfuture
    case h_2 => cases h
  | lock n =>
    simp only [step] at h
    split at h
    case h_1 hfuture =>
      split_ifs at h with hfree
      cases h
      exact .spawned hfuture hfree
    case h_2 => cases h
  | stat n success =>
    simp only [step] at h
    split at h
    case h_1 htask =>
      cases h
      exact stat_cases htask
    case h_2 => cases h
  | openRead n success =>
    simp only [step] at h
    split at h
    case h_1 htask =>
      cases h
      exact openRead_cases htask
    case h_2 => cases h
  | rename n success =>
    simp only [step] at h
    split at h
    case h_1 htask =>
      cases h
      exact rename_cases htask
    case h_2 => cases h
  | syncDirectory n success =>
    simp only [step] at h
    split at h
    case h_1 htask =>
      cases h
      exact .synced htask
    case h_2 => cases h
  | join n =>
    simp only [step] at h
    split at h
    case h_1 hfuture htask =>
      cases h
      exact .joined hfuture htask rfl
    case h_2 => cases h
  | cancel n =>
    simp only [step, Option.map_eq_some_iff] at h
    obtain ⟨future, hfuture, rfl⟩ := h
    exact .cancelled hfuture

theorem Transition.elsewhere (h : Transition G s action t) (hne : m ≠ action.request s) :
    Elsewhere s t m := by
  have hborn : Elsewhere s s.born m := ⟨rfl, rfl, rfl, fun _ _ => Iff.rfl⟩
  cases h with
  | rejected => exact hborn.trans (elsewhere_answer hne)
  | reading =>
    exact hborn.trans ((elsewhere_invoke hne).trans (elsewhere_future hne rfl rfl rfl rfl))
  | admitted => exact hborn.trans (elsewhere_future hne rfl rfl rfl rfl)
  | refused future => exact elsewhere_answer hne
  | received future => exact (elsewhere_invoke hne).trans (elsewhere_future hne rfl rfl rfl rfl)
  | prepared future => exact elsewhere_future hne rfl rfl rfl rfl
  | unprepared future => exact elsewhere_conclude hne
  | spawned future free => exact (elsewhere_setTask hne).trans (elsewhere_future hne rfl rfl rfl rfl)
  | failed subject running pending => exact elsewhere_setTask (subject ▸ hne)
  | opening task => exact elsewhere_setTask hne
  | resumed subject running pending => exact elsewhere_resume (subject ▸ hne)
  | @renamed n vault condition bytes success task =>
    have hset : Elsewhere s (s.setTask n ⟨vault, .install condition bytes, .syncing⟩) _ := elsewhere_setTask hne
    exact hset.trans ⟨rfl, rfl, rfl, (elsewhere_take (s := s) hne).marks⟩
  | synced task => exact elsewhere_setTask hne
  | joined future spawned finished => exact elsewhere_conclude hne
  | cancelled alive => exact elsewhere_future hne rfl rfl rfl rfl

theorem Transition.nextRequest_le (h : Transition G s action t) : s.nextRequest ≤ t.nextRequest := by
  cases h with
  | rejected | reading | admitted => exact Nat.le_succ _
  | resumed subject running pending =>
    unfold resume
    split_ifs <;> exact le_rfl
  | _ => exact le_rfl

/-- A step keeps what is known of the request that makes it. -/
theorem Transition.own (h : Transition G s action t) (hlocal : Local G s (action.request s)) :
    Local G t (action.request s) := by
  cases h with
  | rejected =>
    obtain ⟨-, hnotask, -⟩ := hlocal.unborn le_rfl
    exact Local.answer (Nat.lt_succ_self _) hnotask
  | reading =>
    obtain ⟨-, hnotask, hfresh⟩ := hlocal.unborn le_rfl
    refine Local.advance (Nat.lt_succ_self _) (Function.update_self _ _ _) ⟨?_, ?_, hnotask, ?_⟩ ?_ ?_
    · exact (unanswered_of_fresh hfresh).cons (by simp)
    · exact (untaken_of_fresh hfresh).cons (by simp)
    · exact List.mem_cons_self
    · exact fun task ht => absurd (hnotask.symm.trans ht) (by simp)
    · exact fun response hr => (hlocal.response response hr).mono fun _ => List.mem_cons_of_mem _
  | admitted =>
    obtain ⟨-, hnotask, hfresh⟩ := hlocal.unborn le_rfl
    refine Local.advance (Nat.lt_succ_self _) (Function.update_self _ _ _) ⟨?_, ?_, hnotask⟩ ?_ ?_
    · exact unanswered_of_fresh hfresh
    · exact untaken_of_fresh hfresh
    · exact fun task ht => absurd (hnotask.symm.trans ht) (by simp)
    · exact hlocal.response
  | refused future =>
    obtain ⟨-, -, hnotask⟩ := hlocal.future _ future
    exact Local.answer (hlocal.lt_of_future future) hnotask
  | received future =>
    obtain ⟨hunanswered, huntaken, hnotask⟩ := hlocal.future _ future
    refine Local.advance (hlocal.lt_of_future future) (Function.update_self _ _ _)
      ⟨?_, ?_, hnotask, ?_⟩ ?_ ?_
    · exact hunanswered.cons (by simp)
    · exact huntaken.cons (by simp)
    · exact List.mem_cons_self
    · exact fun task ht => absurd (hnotask.symm.trans ht) (by simp)
    · exact fun response hr => (hlocal.response response hr).mono fun _ => List.mem_cons_of_mem _
  | prepared future =>
    obtain ⟨hunanswered, huntaken, hnotask, hinvoked⟩ := hlocal.future _ future
    refine Local.advance (hlocal.lt_of_future future) (Function.update_self _ _ _)
      ⟨hunanswered, huntaken, hnotask, hinvoked⟩ ?_ hlocal.response
    exact fun task ht => absurd (hnotask.symm.trans ht) (by simp)
  | unprepared future =>
    obtain ⟨-, -, hnotask, -⟩ := hlocal.future _ future
    refine Local.conclude (hlocal.lt_of_future future) (fun task ht => ?_) trivial
    exact absurd (hnotask.symm.trans ht) (by simp)
  | spawned future free =>
    obtain ⟨hunanswered, huntaken, hnotask, hinvoked⟩ := hlocal.future _ future
    refine Local.advance (hlocal.lt_of_future future) (Function.update_self _ _ _)
      ⟨hunanswered, .stat, Function.update_self _ _ _⟩ (fun task ht => ?_) hlocal.response
    simp only [spawn, State.await, State.setTask, Action.request, Function.update_self,
      Option.some.injEq] at ht
    subst ht
    exact ⟨hinvoked, huntaken, hunanswered⟩
  | failed subject running pending =>
    subst subject
    exact hlocal.progress running rfl (Function.update_self _ _ _) rfl rfl rfl rfl (fun _ h => h)
      (fun _ h => h) (hlocal.task _ running).fail
  | opening task =>
    obtain ⟨hinvoked, hnothing⟩ := hlocal.task _ task
    exact hlocal.progress task rfl (Function.update_self _ _ _) rfl rfl rfl rfl (fun _ h => h)
      (fun _ h => h) ⟨hinvoked, hnothing⟩
  | resumed subject running pending =>
    subst subject
    exact hlocal.resume running pending _
  | @renamed n vault condition bytes success task =>
    refine hlocal.progress task rfl (Function.update_self _ _ _) rfl rfl rfl rfl
      (fun _ => List.mem_cons_of_mem _) (fun report hmem => ?_) ?_
    · exact (List.mem_cons.1 hmem).resolve_left (by simp)
    · exact ⟨List.mem_cons_of_mem _ (hlocal.task _ task).1, List.mem_cons_self⟩
  | @synced n vault condition bytes success task =>
    refine hlocal.progress task rfl (Function.update_self _ _ _) rfl rfl rfl rfl (fun _ h => h)
      (fun _ h => h) ?_
    obtain ⟨hinvoked, htook⟩ := hlocal.task _ task
    cases success with
    | true => exact ⟨hinvoked, condition, bytes, rfl, rfl, htook⟩
    | false => exact ⟨hinvoked, trivial⟩
  | @joined n vault lock purpose task result future spawned finished =>
    obtain ⟨-, progress, hrunning⟩ := hlocal.future _ future
    have htask : s.tasks n = some ⟨vault, purpose, progress⟩ := hrunning
    rw [htask] at spawned
    cases spawned
    have hsound := hlocal.task _ htask
    refine Local.conclude (hlocal.lt_of_future future) (fun task ht => ?_) (hsound.answered finished)
    rw [htask] at ht
    cases ht
    exact hsound.finished finished
  | cancelled alive =>
    exact Local.gone (hlocal.lt_of_future alive) (Function.update_self _ _ _) hlocal.task
      hlocal.response

theorem Transition.local (h : Transition G s action t) (hlocal : ∀ n, Local G s n) (n : Nat) :
    Local G t n := by
  by_cases hn : n = action.request s
  · subst hn
    exact h.own (hlocal _)
  · have hother := h.elsewhere hn
    exact (hlocal n).frame hother.futures hother.tasks hother.responses h.nextRequest_le hother.marks

/-! ## The locks -/

/-- A future that refers to a lock finds it in the map, and the one that waits for its task has the
guard. -/
structure Locked (s : State I) : Prop where
  referred : ∀ n future lock, s.futures n = some future → future.await.lock = some lock →
    n ∈ s.strong lock
  named : ∀ n future lock, s.futures n = some future → future.await.lock = some lock →
    s.locks future.vault = some lock
  held : ∀ n vault lock purpose, s.futures n = some ⟨vault, .task lock purpose⟩ →
    s.guards lock = some n

section Locks
variable {vault : I} {purpose : Purpose}

omit [DecidableEq I] in
theorem Locked.drop (h : Locked s) : Locked (s.drop n) := by
  have hother : ∀ m future, (s.drop n).futures m = some future → m ≠ n ∧ s.futures m = some future := by
    intro m future hfuture
    by_cases hm : m = n
    · simp [State.drop, hm] at hfuture
    · exact ⟨hm, (Function.update_of_ne hm _ _).symm.trans hfuture⟩
  refine ⟨fun m future lock hfuture hlock => ?_, fun m future lock hfuture hlock => ?_,
    fun m vault lock purpose hfuture => ?_⟩
  · obtain ⟨hne, hfuture⟩ := hother m future hfuture
    exact Finset.mem_erase.2 ⟨hne, h.referred m future lock hfuture hlock⟩
  · obtain ⟨-, hfuture⟩ := hother m future hfuture
    exact h.named m future lock hfuture hlock
  · obtain ⟨hne, hfuture⟩ := hother m _ hfuture
    have hheld := h.held m vault lock purpose hfuture
    simp [State.drop, hheld, hne]

omit [DecidableEq I] in
/-- Nothing that matters here has changed. -/
theorem Locked.frame (h : Locked s) (hfutures : t.futures = s.futures) (hstrong : t.strong = s.strong)
    (hlocks : t.locks = s.locks) (hguards : t.guards = s.guards) : Locked t := by
  refine ⟨?_, ?_, ?_⟩
  · rw [hfutures, hstrong]
    exact h.referred
  · rw [hfutures, hlocks]
    exact h.named
  · rw [hfutures, hguards]
    exact h.held

omit [DecidableEq I] in
/-- A future that does not refer to a lock yet. -/
theorem Locked.await {await : Await} (h : Locked s) (hawait : await.lock = none) :
    Locked (s.await n vault await) := by
  have hother : ∀ m future lock, (s.await n vault await).futures m = some future →
      future.await.lock = some lock → s.futures m = some future := by
    intro m future lock hfuture hlock
    by_cases hm : m = n
    · subst hm
      obtain rfl : future = ⟨vault, await⟩ := by simpa [State.await] using hfuture.symm
      rw [hawait] at hlock
      cases hlock
    · exact (Function.update_of_ne hm _ _).symm.trans hfuture
  refine ⟨fun m future lock hfuture hlock => ?_, fun m future lock hfuture hlock => ?_,
    fun m vault lock purpose hfuture => ?_⟩
  · exact h.referred m future lock (hother m future lock hfuture hlock) hlock
  · exact h.named m future lock (hother m future lock hfuture hlock) hlock
  · exact h.held m vault lock purpose (hother m _ lock hfuture rfl)

/-- `object_lock` finds the lock that others refer to. -/
theorem Locked.objectLock (h : Locked s) : Locked (s.objectLock n vault purpose) := by
  have hretained : ∀ m future lock, s.futures m = some future → future.await.lock = some lock →
      s.retained future.vault = some lock := by
    intro m future lock hfuture hlock
    have hmem := h.referred m future lock hfuture hlock
    rw [State.retained, h.named m future lock hfuture hlock, Option.filter_some,
      if_pos (by simpa using ⟨m, hmem⟩)]
  have hcases : ∀ m future, (s.objectLock n vault purpose).futures m = some future →
      (m = n ∧ future = ⟨vault, .guard (s.lockFor vault) purpose⟩) ∨ s.futures m = some future := by
    intro m future hfuture
    by_cases hm : m = n
    · subst hm
      exact .inl ⟨rfl, by simpa [State.objectLock, State.await] using hfuture.symm⟩
    · exact .inr ((Function.update_of_ne hm _ _).symm.trans hfuture)
  refine ⟨fun m future lock hfuture hlock => ?_, fun m future lock hfuture hlock => ?_,
    fun m vault' lock purpose' hfuture => ?_⟩
  · obtain ⟨rfl, rfl⟩ | hfuture := hcases m future hfuture
    · cases hlock
      simp [State.objectLock, State.await]
    · have hmem := h.referred m future lock hfuture hlock
      by_cases heq : lock = s.lockFor vault
      · subst heq
        simp [State.objectLock, State.await, hmem]
      · simp [State.objectLock, State.await, heq, hmem]
  · obtain ⟨rfl, rfl⟩ | hfuture := hcases m future hfuture
    · cases hlock
      simp [State.objectLock, State.await]
    · have hfound := hretained m future lock hfuture hlock
      by_cases heq : future.vault = vault
      · have hlockFor : s.lockFor vault = lock := by simp [State.lockFor, ← heq, hfound]
        simp [State.objectLock, State.await, heq, hlockFor]
      · simp [State.objectLock, State.await, heq, hfound]
  · obtain ⟨-, hguard⟩ | hfuture := hcases m _ hfuture
    · cases hguard
    · exact h.held m vault' lock purpose' hfuture

omit [DecidableEq I] in
theorem Locked.spawn {lock : Nat} (h : Locked s)
    (hfuture : s.futures n = some ⟨vault, .guard lock purpose⟩) (hfree : s.guards lock = none) :
    Locked (spawn s n vault lock purpose) := by
  have hcases : ∀ m future, (Gateway.spawn s n vault lock purpose).futures m = some future →
      (m = n ∧ future = ⟨vault, .task lock purpose⟩) ∨ s.futures m = some future := by
    intro m future hfuture
    by_cases hm : m = n
    · subst hm
      exact .inl ⟨rfl, by simpa [Gateway.spawn, State.await] using hfuture.symm⟩
    · exact .inr ((Function.update_of_ne hm _ _).symm.trans hfuture)
  refine ⟨fun m future lock' hm hlock => ?_, fun m future lock' hm hlock => ?_,
    fun m vault' lock' purpose' hm => ?_⟩
  · obtain ⟨rfl, rfl⟩ | hm := hcases m future hm
    · exact h.referred m _ lock' hfuture hlock
    · exact h.referred m future lock' hm hlock
  · obtain ⟨rfl, rfl⟩ | hm := hcases m future hm
    · have hlock : (Await.guard lock purpose).lock = some lock' := hlock
      exact h.named m ⟨vault, .guard lock purpose⟩ lock' hfuture hlock
    · exact h.named m future lock' hm hlock
  · obtain ⟨rfl, heq⟩ | hm := hcases m _ hm
    · cases heq
      simp [Gateway.spawn, State.await, State.setTask]
    · have hheld := h.held m vault' lock' purpose' hm
      have hne : lock' ≠ lock := by
        intro heq
        rw [heq, hfree] at hheld
        cases hheld
      simp [Gateway.spawn, State.await, State.setTask, hne, hheld]

end Locks

theorem Transition.locked (h : Transition G s action t) (hlocked : Locked s) : Locked t := by
  have hborn : Locked s.born := hlocked.frame rfl rfl rfl rfl
  cases h with
  | rejected => exact (hborn.drop (n := s.nextRequest)).frame rfl rfl rfl rfl
  | reading => exact Locked.objectLock (hborn.frame rfl rfl rfl rfl)
  | admitted => exact Locked.await (hborn.frame rfl rfl rfl rfl) rfl
  | refused future => exact (hlocked.drop (n := _)).frame rfl rfl rfl rfl
  | received future => exact Locked.await (hlocked.frame rfl rfl rfl rfl) rfl
  | prepared future => exact hlocked.objectLock
  | unprepared future => exact (hlocked.drop (n := _)).frame rfl rfl rfl rfl
  | spawned future free => exact hlocked.spawn future free
  | failed subject running pending => exact hlocked.frame rfl rfl rfl rfl
  | opening task => exact hlocked.frame rfl rfl rfl rfl
  | @resumed action n task subject running pending =>
    have hsame := resume_keeps (G := G) s n task (s.objects task.vault)
    exact hlocked.frame hsame.futures hsame.strong hsame.locks hsame.guards
  | renamed task => exact hlocked.frame rfl rfl rfl rfl
  | synced task => exact hlocked.frame rfl rfl rfl rfl
  | joined future spawned finished => exact (hlocked.drop (n := _)).frame rfl rfl rfl rfl
  | cancelled alive => exact hlocked.drop

/-! ## One installation at a time -/

/-- An installation that has not renamed yet. -/
def Task.Installing (task : Task I) : Prop := task.purpose ≠ .read ∧ task.progress.Pending

/-- A step that does not start an installation while one of a dropped request may still rename onto
the same object. -/
def Undisturbed (s : State I) : Action → Prop
  | .lock n => ∀ vault lock purpose, s.futures n = some ⟨vault, .guard lock purpose⟩ → purpose ≠ .read →
    ∀ m task, s.tasks m = some task → task.Installing → task.vault = vault → s.futures m ≠ none
  | _ => True

/-- At most one installation of each vault runs, and the object is still what it has tested. -/
structure Exclusive (G : Crates I) (s : State I) : Prop where
  one : ∀ n m task task', s.tasks n = some task → s.tasks m = some task' → task.Installing →
    task'.Installing → task.vault = task'.vault → n = m
  tested : ∀ n vault condition bytes, s.tasks n = some ⟨vault, .install condition bytes, .renaming⟩ →
    condition.admits G (s.objects vault) = true

omit [DecidableEq I] in
theorem Exclusive.frame (h : Exclusive G s) (htasks : t.tasks = s.tasks) (hobjects : t.objects = s.objects) :
    Exclusive G t := by
  refine ⟨?_, ?_⟩
  · rw [htasks]
    exact h.one
  · rw [htasks, hobjects]
    exact h.tested

omit [DecidableEq I] in
/-- A task goes on. -/
theorem Exclusive.progress {task task' : Task I} (h : Exclusive G s) (htask : s.tasks n = some task)
    (htasks : t.tasks = Function.update s.tasks n (some task'))
    (hvault : task'.vault = task.vault) (hinstalling : task'.Installing → task.Installing)
    (hobjects : ∀ m, m ≠ n → ∀ vault condition bytes,
      s.tasks m = some ⟨vault, .install condition bytes, .renaming⟩ → t.objects vault = s.objects vault)
    (htested : ∀ condition bytes, task' = ⟨task.vault, .install condition bytes, .renaming⟩ →
      condition.admits G (t.objects task.vault) = true) : Exclusive G t := by
  have hcases : ∀ m task'', t.tasks m = some task'' →
      (m = n ∧ task'' = task') ∨ (m ≠ n ∧ s.tasks m = some task'') := by
    intro m task'' hm
    rw [htasks] at hm
    by_cases hmn : m = n
    · subst hmn
      exact .inl ⟨rfl, by simpa using hm.symm⟩
    · exact .inr ⟨hmn, (Function.update_of_ne hmn _ _).symm.trans hm⟩
  refine ⟨fun m m' first second hm hm' hfirst hsecond hsame => ?_,
    fun m vault condition bytes hm => ?_⟩
  · obtain ⟨rfl, rfl⟩ | ⟨-, hm⟩ := hcases m first hm
    · obtain ⟨rfl, rfl⟩ | ⟨-, hm'⟩ := hcases m' second hm'
      · rfl
      · exact h.one m m' task second htask hm' (hinstalling hfirst) hsecond (hvault.symm.trans hsame)
    · obtain ⟨rfl, rfl⟩ | ⟨-, hm'⟩ := hcases m' second hm'
      · exact h.one m m' first task hm htask hfirst (hinstalling hsecond) (hsame.trans hvault)
      · exact h.one m m' first second hm hm' hfirst hsecond hsame
  · obtain ⟨rfl, rfl⟩ | ⟨hne, hm⟩ := hcases m _ hm
    · obtain rfl : vault = task.vault := hvault
      exact htested condition bytes rfl
    · rw [hobjects m hne vault condition bytes hm]
      exact h.tested m vault condition bytes hm

/-- The future of an installation that another one could meet has the guard. -/
theorem Transition.exclusive (h : Transition G s action t) (hlocal : ∀ n, Local G s n)
    (hlocked : Locked s) (hundisturbed : Undisturbed s action) (hexclusive : Exclusive G s) :
    Exclusive G t := by
  cases h with
  | rejected | reading | admitted | refused _ | received _ | prepared _ | unprepared _ =>
    exact hexclusive.frame rfl rfl
  | @spawned n vault lock purpose future free =>
    have hcases : ∀ m task, (spawn s n vault lock purpose).tasks m = some task →
        (m = n ∧ task = ⟨vault, purpose, .stat⟩) ∨ s.tasks m = some task := by
      intro m task hm
      by_cases hmn : m = n
      · subst hmn
        exact .inl ⟨rfl, by simpa [spawn, State.await, State.setTask] using hm.symm⟩
      · exact .inr ((Function.update_of_ne hmn _ _).symm.trans hm)
    -- Whoever is installing still has its future, and so the guard of the same lock.
    have halone : ∀ m task, s.tasks m = some task → task.Installing → task.vault = vault →
        purpose ≠ .read → False := by
      intro m task hm hinstalling hvault hpurpose
      have halive := hundisturbed vault lock purpose future hpurpose m task hm hinstalling hvault
      obtain ⟨future', hfuture'⟩ := Option.ne_none_iff_exists'.1 halive
      obtain ⟨vault', lock', purpose', rfl⟩ := (hlocal m).awaits hm hfuture'
      obtain ⟨-, progress, hrunning⟩ := (hlocal m).future _ hfuture'
      rw [hm] at hrunning
      cases hrunning
      obtain rfl : vault' = vault := hvault
      have hnamed := hlocked.named m _ lock' hfuture' rfl
      rw [hlocked.named n _ lock future rfl] at hnamed
      cases hnamed
      have hheld := hlocked.held m vault' lock purpose' hfuture'
      rw [free] at hheld
      cases hheld
    refine ⟨fun m m' first second hm hm' hfirst hsecond hsame => ?_,
      fun m vault' condition bytes hm => ?_⟩
    · obtain ⟨hn, rfl⟩ | hold := hcases m first hm
      · obtain ⟨hn', -⟩ | hold' := hcases m' second hm'
        · exact hn.trans hn'.symm
        · exact (halone m' second hold' hsecond hsame.symm hfirst.1).elim
      · obtain ⟨-, rfl⟩ | hold' := hcases m' second hm'
        · exact (halone m first hold hfirst hsame hsecond.1).elim
        · exact hexclusive.one m m' first second hold hold' hfirst hsecond hsame
    · obtain ⟨-, heq⟩ | hm := hcases m _ hm
      · cases heq
      · exact hexclusive.tested m vault' condition bytes hm
  | @failed action n task error subject running pending =>
    refine hexclusive.progress running rfl rfl (fun h => h.2.elim) (fun _ _ _ _ _ _ => rfl) ?_
    intro condition bytes heq
    cases congrArg Task.progress heq
  | @opening n vault purpose success task =>
    refine hexclusive.progress task rfl rfl (fun h => ⟨h.1, trivial⟩) (fun _ _ _ _ _ _ => rfl) ?_
    intro condition bytes heq
    cases heq
  | @resumed action n task subject running pending =>
    have hsame := resume_keeps (G := G) s n task (s.objects task.vault)
    obtain ⟨hvault, hpurpose⟩ := task.resume_keeps G (s.objects task.vault)
    refine hexclusive.progress running hsame.tasks hvault (fun h => ⟨hpurpose ▸ h.1, pending⟩)
      (fun _ _ _ _ _ _ => by rw [hsame.objects]) ?_
    intro condition bytes heq
    rw [hsame.objects]
    obtain ⟨vault, purpose, progress⟩ := task
    obtain rfl : purpose = .install condition bytes := hpurpose.symm.trans (congrArg Task.purpose heq)
    by_contra hadmits
    simp [Task.resume, hadmits] at heq
  | @renamed n vault condition bytes success task =>
    refine hexclusive.progress task rfl rfl (fun h => h.2.elim) ?_ ?_
    · intro m hne vault' condition' bytes' hm
      have hother : vault' ≠ vault := by
        intro heq
        exact hne (hexclusive.one m n _ _ hm task ⟨by simp, trivial⟩ ⟨by simp, trivial⟩ heq)
      exact Function.update_of_ne hother _ _
    · intro condition' bytes' heq
      cases heq
  | @synced n vault condition bytes success task =>
    refine hexclusive.progress task rfl rfl (fun h => h.2.elim) (fun _ _ _ _ _ _ => rfl) ?_
    intro condition bytes heq
    cases heq
  | joined _ _ _ | cancelled _ => exact hexclusive.frame rfl rfl

/-! ## The points are legal -/

/-- The points explain the objects. -/
structure Explained (G : Crates I) (objects : Store I Bytes) (s : State I) : Prop where
  marked : Marked s.trace
  legal : Register.Legal (revision G) objects ((Register.order s.trace).map Prod.snd)
  replayed : Register.replay objects ((Register.order s.trace).map Prod.snd) = s.objects

variable {objects : Store I Bytes}

theorem Explained.frame (h : Explained G objects s) (htrace : t.trace = s.trace)
    (hobjects : t.objects = s.objects) : Explained G objects t := by
  refine ⟨?_, ?_, ?_⟩
  · rw [htrace]
    exact h.marked
  · rw [htrace]
    exact h.legal
  · rw [htrace, hobjects]
    exact h.replayed

theorem Explained.event {event : Event Nat I Bytes String} (h : Explained G objects s)
    (hmarked : Marked (.event event :: s.trace)) (htrace : t.trace = .event event :: s.trace)
    (hobjects : t.objects = s.objects) : Explained G objects t := by
  have horder : Register.order t.trace = Register.order s.trace := by
    rw [htrace]
    rfl
  refine ⟨?_, ?_, ?_⟩
  · rw [htrace]
    exact hmarked
  · rw [horder]
    exact h.legal
  · rw [horder, hobjects]
    exact h.replayed

theorem Explained.took {effect : Effect I Bytes String} (h : Explained G objects s)
    (hmarked : Marked (.took n effect :: s.trace)) (htrace : t.trace = .took n effect :: s.trace)
    (hlegal : effect.Legal (revision G) s.objects) (hobjects : t.objects = effect.apply s.objects) :
    Explained G objects t := by
  have horder : (Register.order t.trace).map Prod.snd =
      (Register.order s.trace).map Prod.snd ++ [effect] := by
    rw [htrace]
    simp [Register.order, Register.Mark.effect?]
  refine ⟨?_, ?_, ?_⟩
  · rw [htrace]
    exact hmarked
  · rw [horder]
    exact Register.legal_concat h.legal (by rw [h.replayed]; exact hlegal)
  · rw [horder, Register.replay_concat, h.replayed, hobjects]

omit [DecidableEq I] in
/-- A condition that admits the object makes the effect of the write legal. -/
theorem legal_of_admits {vault : I} {condition : WriteCondition} {bytes : Bytes}
    (h : condition.admits G (s.objects vault) = true) :
    (Purpose.effect vault none (.install condition bytes)).Legal (revision G) s.objects := by
  cases condition with
  | create => simpa [WriteCondition.admits, Purpose.effect, Effect.Legal] using h
  | replace expected => simpa [WriteCondition.admits, Purpose.effect, Effect.Legal] using h

omit [DecidableEq I] in
theorem operation_effect (vault : I) (found : Option Bytes) (purpose : Purpose) :
    (purpose.effect vault found).operation = purpose.operation vault := by
  cases purpose with
  | read => rfl
  | install condition bytes => cases condition <;> rfl

theorem Transition.explained (h : Transition G s action t) (hlocal : ∀ n, Local G s n)
    (hexclusive : Exclusive G s) (hexplained : Explained G objects s) : Explained G objects t := by
  cases h with
  | rejected | admitted | refused _ | prepared _ | spawned _ _ => exact hexplained.frame rfl rfl
  | failed _ _ _ | opening _ | synced _ | cancelled _ => exact hexplained.frame rfl rfl
  | reading =>
    obtain ⟨-, -, hfresh⟩ := (hlocal s.nextRequest).unborn le_rfl
    exact hexplained.event (.invoked hexplained.marked (untaken_of_fresh hfresh)) rfl rfl
  | received future =>
    obtain ⟨-, huntaken, -⟩ := (hlocal _).future _ future
    exact hexplained.event (.invoked hexplained.marked huntaken) rfl rfl
  | unprepared future =>
    refine hexplained.event (.answered hexplained.marked ?_) rfl rfl
    intro effect heq
    cases heq
  | @resumed action n task subject running pending =>
    have hsame := resume_keeps (G := G) s n task (s.objects task.vault)
    have hsound := (hlocal n).task task running
    obtain ⟨huntaken, hunanswered⟩ := hsound.pending pending
    by_cases hread : task.purpose = .read
    · have htrace := hsame.trace
      rw [if_pos hread] at htrace
      refine hexplained.took (.took hexplained.marked ?_ huntaken hunanswered) htrace rfl hsame.objects
      have hinvoked := hsound.1
      rw [hread] at hinvoked
      exact hinvoked
    · have htrace := hsame.trace
      rw [if_neg hread] at htrace
      exact hexplained.frame htrace hsame.objects
  | @renamed n vault condition bytes success task =>
    have hsound := (hlocal n).task _ task
    obtain ⟨huntaken, hunanswered⟩ := hsound.pending trivial
    refine hexplained.took (.took hexplained.marked ?_ huntaken hunanswered) rfl
      (legal_of_admits (hexclusive.tested n vault condition bytes task)) ?_
    · rw [operation_effect]
      exact hsound.1
    · cases condition <;> rfl
  | @joined n vault lock purpose task result future spawned finished =>
    obtain ⟨-, progress, hrunning⟩ := (hlocal n).future _ future
    rw [spawned] at hrunning
    cases hrunning
    have hsound := (hlocal n).task _ spawned
    exact hexplained.event (.answered hexplained.marked fun _ => hsound.reported finished) rfl rfl

/-! ## The result -/

/-- In a run whose steps are undisturbed the history is linearizable, its order explains the objects,
and every entity tag that was sent is that of the bytes. -/
theorem gateway_linearizable (G : Crates I) (objects : Store I Bytes) (s : State I)
    (h : Reachable G Undisturbed objects s) :
    (∃ order, Linearization (revision G) objects (Register.history s.trace) s.objects order) ∧
    ∀ n response, s.responses n = some response → Answered G s.trace n response := by
  have hinvariant : (∀ n, Local G s n) ∧ Locked s ∧ Exclusive G s ∧ Explained G objects s := by
    induction h with
    | start =>
      refine ⟨fun n => ⟨?_, ?_, ?_, fun _ => ⟨rfl, rfl, ?_⟩⟩, ⟨?_, ?_, ?_⟩, ⟨?_, ?_⟩, .nil, trivial, rfl⟩ <;>
        simp [State.start]
    | step before permitted taken ih =>
      obtain ⟨hlocal, hlocked, hexclusive, hexplained⟩ := ih
      have htransition := step_cases taken
      exact ⟨htransition.local hlocal, htransition.locked hlocked,
        htransition.exclusive hlocal hlocked permitted hexclusive,
        htransition.explained hlocal hexclusive hexplained⟩
  obtain ⟨hlocal, -, -, hexplained⟩ := hinvariant
  exact ⟨⟨_, hexplained.marked.linearization hexplained.legal hexplained.replayed⟩,
    fun n => (hlocal n).response⟩

/-! ## Two runs -/

def run (G : Crates I) (s : State I) : List Action → Option (State I)
  | [] => some s
  | action :: actions => (step G s action).bind fun t => run G t actions

theorem Reachable.run {allowed : State I → Action → Prop} (actions : List Action)
    (h : Reachable G allowed objects s) (hrun : run G s actions = some t)
    (hallowed : ∀ s action, action ∈ actions → allowed s action) : Reachable G allowed objects t := by
  induction actions generalizing s with
  | nil =>
    cases hrun
    exact h
  | cons action actions ih =>
    obtain ⟨u, hstep, hrun⟩ := Option.bind_eq_some_iff.1 hrun
    refine ih (.step h (hallowed s action List.mem_cons_self) hstep) hrun fun s action hmem => ?_
    exact hallowed s action (List.mem_cons_of_mem _ hmem)

def sampleUuid : String := "00000000-0000-4000-8000-000000000000"

/-- One vault; the digest of a short body is the body. -/
def sampleCrates : Crates Unit where
  parseUuid value := if value = sampleUuid then some () else none
  isRandom _ := true
  hyphenated _ := sampleUuid
  sha256 bytes := (bytes ++ List.replicate 32 0).take 32

def sampleGet : Request := { method := .get, path := "/v1/vaults/" ++ sampleUuid }

/-- A replacement of the object with these bytes. -/
def samplePut (named : Bytes) : Request :=
  { method := .put, path := "/v1/vaults/" ++ sampleUuid
    headers := { contentType := [some "application/octet-stream"]
                 ifMatch := [some (revision sampleCrates named)] } }

/-- Everything a write does up to its test. -/
def sampleTest (n : Nat) (named bytes : Bytes) : List Action :=
  [.arrive (samplePut named), .collect n (.received bytes), .prepare n true, .lock n, .stat n true,
    .openRead n true]

def sampleRead (n : Nat) : List Action :=
  [.arrive sampleGet, .lock n, .stat n true, .openRead n true, .join n]

def sampleStart : State Unit := State.start fun _ => some [0]

/-- Two writes, each before it takes its lock; the first is dropped between its rename and its
`sync_directory`. -/
def sampleWaiting : State Unit :=
  (run sampleCrates sampleStart [.arrive (samplePut [0]), .collect 0 (.received [1]),
    .prepare 0 true]).getD sampleStart

def sampleDropped : State Unit :=
  (run sampleCrates sampleWaiting [.lock 0, .stat 0 true, .openRead 0 true, .rename 0 true, .cancel 0,
    .arrive (samplePut [1]), .collect 1 (.received [2]), .prepare 1 true]).getD sampleStart

/-- The second write has been accepted; a read waits. -/
def sampleWritten : State Unit :=
  (run sampleCrates sampleDropped [.lock 1, .stat 1 true, .openRead 1 true, .syncDirectory 0 true,
    .rename 1 true, .syncDirectory 1 true, .join 1, .arrive sampleGet]).getD sampleStart

/-- The end. -/
def sampleAnswered : State Unit :=
  (run sampleCrates sampleWritten [.lock 2, .stat 2 true, .openRead 2 true, .join 2]).getD sampleStart

set_option maxRecDepth 100000 in
/-- The dropped write has nothing left to rename. -/
theorem sampleDropped_settled (m : Nat) (task : Task Unit) (h : sampleDropped.tasks m = some task) :
    ¬ task.Installing := by
  cases m with
  | zero =>
    cases h
    exact fun hinstalling => hinstalling.2
  | succ m => cases h

set_option maxRecDepth 100000 in
/-- A dropped write counts, the next one names it, and a read finds the last bytes. -/
theorem gateway_linearizable_written :
    sampleAnswered.responses 0 = none ∧
    sampleAnswered.responses 1 = some (.emptyWithEtag .noContent (revision sampleCrates [2])) ∧
    sampleAnswered.responses 2 = some (.object [2] (revision sampleCrates [2])) ∧
    ∃ order, Linearization (revision sampleCrates) (fun _ => some [0])
      (Register.history sampleAnswered.trace) sampleAnswered.objects order := by
  have hwaiting : Reachable sampleCrates Undisturbed (fun _ => some [0]) sampleWaiting := by
    refine Reachable.start.run [.arrive (samplePut [0]), .collect 0 (.received [1]), .prepare 0 true] rfl ?_
    simp [Undisturbed]
  have hfirst : Undisturbed sampleWaiting (.lock 0) := by
    intro vault lock purpose hfuture hpurpose m task htask
    cases htask
  have hdropped : Reachable sampleCrates Undisturbed (fun _ => some [0]) sampleDropped := by
    refine (Reachable.step hwaiting hfirst rfl).run [.stat 0 true, .openRead 0 true, .rename 0 true,
      .cancel 0, .arrive (samplePut [1]), .collect 1 (.received [2]), .prepare 1 true] rfl ?_
    simp [Undisturbed]
  have hsecond : Undisturbed sampleDropped (.lock 1) := by
    intro vault lock purpose hfuture hpurpose m task htask hinstalling
    exact absurd hinstalling (sampleDropped_settled m task htask)
  have hwritten : Reachable sampleCrates Undisturbed (fun _ => some [0]) sampleWritten := by
    refine (Reachable.step hdropped hsecond rfl).run [.stat 1 true, .openRead 1 true,
      .syncDirectory 0 true, .rename 1 true, .syncDirectory 1 true, .join 1, .arrive sampleGet] rfl ?_
    simp [Undisturbed]
  have hthird : Undisturbed sampleWritten (.lock 2) := by
    intro vault lock purpose hfuture hpurpose
    cases hfuture
    exact absurd rfl hpurpose
  have hanswered : Reachable sampleCrates Undisturbed (fun _ => some [0]) sampleAnswered := by
    refine (Reachable.step hwritten hthird rfl).run [.stat 2 true, .openRead 2 true, .join 2] rfl ?_
    simp [Undisturbed]
  exact ⟨by decide +kernel, by decide +kernel, by decide +kernel,
    (gateway_linearizable sampleCrates _ sampleAnswered hanswered).1⟩

/-- The first write is dropped after its test; the second, which names the same object, is accepted;
then the first renames, and a read finds its bytes. -/
def sampleInterleaving : List Action :=
  sampleTest 0 [0] [1] ++ [.cancel 0] ++ sampleTest 1 [0] [2] ++
    [.rename 1 true, .syncDirectory 1 true, .join 1, .rename 0 true] ++ sampleRead 2

def sampleLost : State Unit := (run sampleCrates sampleStart sampleInterleaving).getD sampleStart

/-- Lists over `xs` of at most this length. -/
def listsUpTo {α : Type} (xs : List α) : Nat → List (List α)
  | 0 => [[]]
  | length + 1 => [] :: xs.flatMap fun x => (listsUpTo xs length).map (x :: ·)

theorem mem_listsUpTo {α : Type} {xs list : List α} {length : Nat} (hsub : ∀ x ∈ list, x ∈ xs)
    (hlength : list.length ≤ length) : list ∈ listsUpTo xs length := by
  induction length generalizing list with
  | zero =>
    obtain rfl := List.length_eq_zero_iff.1 (Nat.le_zero.1 hlength)
    exact List.mem_singleton.2 rfl
  | succ length ih =>
    cases list with
    | nil => exact List.mem_cons_self
    | cons x list =>
      refine List.mem_cons_of_mem _ (List.mem_flatMap.2 ⟨x, hsub x List.mem_cons_self, ?_⟩)
      refine List.mem_map.2 ⟨list, ih (fun y hy => hsub y (List.mem_cons_of_mem _ hy)) ?_, rfl⟩
      exact Nat.le_of_succ_le_succ hlength

def sampleFirst : Nat × Effect Unit Bytes String := (0, .replace () (revision sampleCrates [0]) [1])
def sampleSecond : Nat × Effect Unit Bytes String := (1, .replace () (revision sampleCrates [0]) [2])
def sampleThird : Nat × Effect Unit Bytes String := (2, .read () (some [1]))

set_option maxRecDepth 100000 in
/-- The order of a generation that was lost cannot be found. -/
theorem gateway_loses_generation :
    ∃ s, Reachable sampleCrates (fun _ _ => True) (fun _ => some [0]) s ∧
      ¬ ∃ order, Linearization (revision sampleCrates) (fun _ => some [0])
        (Register.history s.trace) s.objects order := by
  refine ⟨sampleLost, Reachable.start.run sampleInterleaving rfl fun _ _ _ => trivial, ?_⟩
  rintro ⟨order, h⟩
  have hhistory : Register.history sampleLost.trace =
      [.invoked 0 sampleFirst.2.operation, .invoked 1 sampleSecond.2.operation,
        .answered 1 (some sampleSecond.2), .invoked 2 (.read ()), .answered 2 (some sampleThird.2)] := by
    decide +kernel
  have hsecond : sampleSecond ∈ order := h.reported 1 sampleSecond.2 (by simp [hhistory])
  have hthird : sampleThird ∈ order := h.reported 2 sampleThird.2 (by simp [hhistory])
  have hnodup := h.nodup
  have helements : ∀ x ∈ order, x ∈ [sampleFirst, sampleSecond, sampleThird] := by
    rintro ⟨id, effect⟩ hmem
    have hinvoked := h.invoked id effect hmem
    simp only [hhistory, List.mem_cons, Event.invoked.injEq, reduceCtorEq, List.not_mem_nil, or_false,
      false_or] at hinvoked
    obtain ⟨rfl, heffect⟩ | ⟨rfl, heffect⟩ | ⟨rfl, heffect⟩ := hinvoked
    · cases effect <;> cases heffect
      simp [sampleFirst]
    · cases effect <;> cases heffect
      simp [sampleSecond]
    · have heq := List.inj_on_of_nodup_map hnodup hmem hthird rfl
      simp [heq]
  have hlength : order.length ≤ 3 := by
    have hsub : order.map Prod.fst ⊆ [0, 1, 2] := by
      intro id hid
      obtain ⟨x, hx, rfl⟩ := List.mem_map.1 hid
      have hx := helements x hx
      simp only [List.mem_cons, List.not_mem_nil, or_false] at hx
      obtain rfl | rfl | rfl := hx <;> simp [sampleFirst, sampleSecond, sampleThird]
    simpa using (hnodup.subperm hsub).length_le
  have hnone : ∀ list ∈ listsUpTo [sampleFirst, sampleSecond, sampleThird] 3, sampleSecond ∈ list →
      sampleThird ∈ list → ¬ Register.Legal (revision sampleCrates) (fun _ => some [0])
        (list.map Prod.snd) := by
    decide +kernel
  exact hnone order (mem_listsUpTo helements hlength) hsecond hthird h.legal

end NianPass.Gateway
