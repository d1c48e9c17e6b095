import NianPass.Android.Saves

/-
  Following the plugin where the platform plays along.

  `obey` computes one of the things that `Performs` allows, the one in which
  nothing fails. Following a program effect by effect gives a run of the plugin,
  and stopping after some effects gives the state in which a process may die.
-/
namespace NianPass.Android.VaultSource

open Program (Reaches)

variable {generation : Bytes → Generation} {original : Uri → Bytes}

/-- An id that was not issued. -/
def Device.unused (d : Device) : OpaqueId := d.issued.foldr (fun id next => max (id + 1) next) 0

/-- `none` for the effect whose answer cannot be computed. -/
def Device.obey (d : Device) : (effect : Effect) → Option (Answer effect × Device)
  | .opaqueId => some (d.unused, { d with issued := d.unused :: d.issued })
  | .transactionDirectory => some (some (), d)
  | .hasTransactionDirectory => some (true, d)
  | .managedFile file mustExist =>
    some (if mustExist then (d.files file).map fun _ => () else some (), d)
  | .readFile file => some (d.files file, d)
  | .writeFile file content => some (some (), d.setFile file (some content))
  | .fileExists file => some ((d.files file).isSome, d)
  | .deleteFile file => some (true, d.setFile file none)
  | .renameFile source destination =>
    some (true, (d.setFile destination (d.files source)).setFile source none)
  | .listFiles => some ([], d)
  | .readJournal token => some (d.journals token, d)
  | .writeJournal journal =>
    some (if journal.transactionToken ∈ d.issued then (some (), d.setJournal journal)
      else (none, d))
  | .deleteJournal token => some (true, d.dropJournal token)
  | .listJournals => some (d.issued.filter fun token => (d.journals token).isSome, d)
  | .stageImport _ => some (some (), d)
  | .queryDisplayName _ => some (some (), d)
  | .readDocument uri => some (some (d.documents uri), d)
  | .openForWriting uri => some (some (), d.setDocument uri [])
  | .writeDocument uri content => some (some (), d.setDocument uri content)
  | .releaseGrant _ => some (true, d)
  | .getSource token => some (d.sources token, d)
  | .putSource token record => some ((), d.setSource token (some record))
  | .setRecoveryRequired token required => some ((), d.setSource token
      ((d.sources token).map fun record => { record with recoveryRequired := required }))
  | .removeSource token => some ((), d.setSource token none)
  | .getSave token => some (d.saves token, d)
  | .putSave save => some ((), d.setSave save.token (some save))
  | .removeSave token => some ((), d.setSave token none)
  | .putRead token source =>
    some ((), { d with reads := Function.update d.reads token (some source) })
  | .removeRead token =>
    some (d.reads token, { d with reads := Function.update d.reads token none })
  | .removeReadsOf _ => none

/-- At most `n` effects of a program. -/
def Device.follow {α : Type} : ℕ → Program Effect Answer α → Device →
    Option (Program Effect Answer α × Device)
  | n + 1, .ask effect next, d =>
    match d.obey effect with
    | some (answer, d') => follow n (next answer) d'
    | none => none
  | _, program, d => some (program, d)

/-- A program that ends within `n` effects. -/
def Device.finish {α : Type} (n : ℕ) (program : Program Effect Answer α) (d : Device) :
    Option (α × Device) :=
  match Device.follow n program d with
  | some (.done a, d') => some (a, d')
  | _ => none

/-- The calls one after the other, each to its end. -/
def Device.issue (generation : Bytes → Generation) :
    List Call → Stage → Device → Option (Stage × Device)
  | [], stage, d => some (stage, d)
  | call :: calls, stage, d =>
    match stage.command generation call with
    | none => none
    | some command =>
      match Device.finish 200 command.run d with
      | some (result, d') => issue generation calls (stage.next call result) d'
      | none => none

/-- The state in which the process is killed at the request after `n` effects of the call. -/
def Device.interrupt (generation : Bytes → Generation) (call : Call) (n : ℕ) (stage : Stage)
    (d : Device) : Option Device :=
  match stage.command generation call with
  | none => none
  | some command =>
    match Device.follow n command.run d with
    | some (.ask _ _, d') => some d'
    | _ => none

/-- Killed for the first time. -/
def Device.interrupted (generation : Bytes → Generation) (original : Uri → Bytes)
    (calls : List Call) (call : Call) (n : ℕ) : Option Device :=
  (Device.issue generation calls .starting (Device.installed original)).bind fun run =>
    run.2.interrupt generation call n run.1

/-- Journals belong to ids that were issued. -/
def Device.Indexed (d : Device) : Prop := ∀ token, (d.journals token).isSome → token ∈ d.issued

section Following
variable {d d' : Device} {stage stage' : Stage}

theorem unused_notMem (d : Device) : d.unused ∉ d.issued := by
  have key : ∀ ids : List ℕ, ∀ id ∈ ids,
      id < ids.foldr (fun id next => max (id + 1) next) 0 := by
    intro ids
    induction ids with
    | nil => simp
    | cons first rest ih =>
      intro id hid
      rcases List.mem_cons.mp hid with rfl | hid
      · simp only [List.foldr_cons]
        omega
      · have := ih id hid
        simp only [List.foldr_cons]
        omega
  exact fun h => lt_irrefl _ (key d.issued d.unused h)

theorem Device.Indexed.setJournal {journal : RecoveryJournal} (h : d.Indexed)
    (hissued : journal.transactionToken ∈ d.issued) : (d.setJournal journal).Indexed := by
  intro token htoken
  by_cases heq : token = journal.transactionToken
  · exact heq ▸ hissued
  · exact h token (by simpa [Device.setJournal, heq] using htoken)

theorem Device.Indexed.dropJournal {token : OpaqueId} (h : d.Indexed) :
    (d.dropJournal token).Indexed := by
  intro other hother
  by_cases heq : other = token
  · simp [Device.dropJournal, heq] at hother
  · exact h other (by simpa [Device.dropJournal, heq] using hother)

/-- What is obeyed is performed. -/
theorem obey_performs {effect : Effect} {answer : Answer effect} (h : d.Indexed)
    (hobey : d.obey effect = some (answer, d')) : Performs d effect answer d' ∧ d'.Indexed := by
  cases effect with
  | opaqueId =>
    cases hobey
    exact ⟨⟨unused_notMem d, rfl⟩, fun token ht => List.mem_cons_of_mem _ (h token ht)⟩
  | managedFile file mustExist =>
    cases hobey
    refine ⟨⟨rfl, fun hsome hmust => ?_⟩, h⟩
    simpa [hmust] using hsome
  | writeJournal journal =>
    by_cases hissued : journal.transactionToken ∈ d.issued
    · simp only [Device.obey, hissued, if_true, Option.some.injEq, Prod.mk.injEq] at hobey
      obtain ⟨rfl, rfl⟩ := hobey
      exact ⟨rfl, h.setJournal hissued⟩
    · simp only [Device.obey, hissued, if_false, Option.some.injEq, Prod.mk.injEq] at hobey
      obtain ⟨rfl, rfl⟩ := hobey
      exact ⟨.inl rfl, h⟩
  | listJournals =>
    cases hobey
    refine ⟨⟨rfl, fun token => ?_⟩, h⟩
    rw [List.mem_filter]
    exact ⟨fun ht => ht.2, fun ht => ⟨h token ht, ht⟩⟩
  | readFile file =>
    cases hobey
    exact ⟨⟨rfl, fun _ => id⟩, h⟩
  | readDocument uri =>
    cases hobey
    exact ⟨⟨rfl, fun _ => Option.some.inj⟩, h⟩
  | deleteJournal token =>
    cases hobey
    exact ⟨rfl, h.dropJournal⟩
  | removeReadsOf source => cases hobey
  | fileExists file => cases hobey; exact ⟨⟨rfl, rfl⟩, h⟩
  | readJournal token => cases hobey; exact ⟨⟨rfl, rfl⟩, h⟩
  | getSource token => cases hobey; exact ⟨⟨rfl, rfl⟩, h⟩
  | getSave token => cases hobey; exact ⟨⟨rfl, rfl⟩, h⟩
  | removeRead token => cases hobey; exact ⟨⟨rfl, rfl⟩, h⟩
  | _ => cases hobey; exact ⟨rfl, h⟩

theorem follow_reaches {α : Type} {n : ℕ} {p q : Program Effect Answer α} (h : d.Indexed)
    (hfollow : Device.follow n p d = some (q, d')) : Reaches Performs p d q d' ∧ d'.Indexed := by
  induction n generalizing p d with
  | zero =>
    cases p <;> cases hfollow <;> exact ⟨.here, h⟩
  | succ n ih =>
    cases p with
    | done a =>
      cases hfollow
      exact ⟨.here, h⟩
    | ask effect next =>
      rw [Device.follow] at hfollow
      cases hobey : d.obey effect with
      | none => simp [hobey] at hfollow
      | some step =>
        obtain ⟨answer, t⟩ := step
        simp only [hobey] at hfollow
        obtain ⟨hperforms, ht⟩ := obey_performs h hobey
        obtain ⟨hreaches, hd'⟩ := ih ht hfollow
        exact ⟨.later hperforms hreaches, hd'⟩

theorem finish_reaches {α : Type} {n : ℕ} {p : Program Effect Answer α} {a : α} (h : d.Indexed)
    (hfinish : Device.finish n p d = some (a, d')) :
    Reaches Performs p d (.done a) d' ∧ d'.Indexed := by
  rw [Device.finish] at hfinish
  split at hfinish
  · next hfollow =>
    cases hfinish
    exact follow_reaches h hfollow
  · cases hfinish

/-- Calls that are followed are a run. -/
theorem issue_reachable {calls : List Call} (run : Reachable generation original stage d)
    (h : d.Indexed) (hissue : Device.issue generation calls stage d = some (stage', d')) :
    Reachable generation original stage' d' ∧ d'.Indexed := by
  induction calls generalizing stage d with
  | nil =>
    cases hissue
    exact ⟨run, h⟩
  | cons call calls ih =>
    rw [Device.issue] at hissue
    split at hissue
    · cases hissue
    · next command hcommand =>
      split at hissue
      · next result t hfinish =>
        obtain ⟨hreaches, ht⟩ := finish_reaches h hfinish
        exact ih (run.call hcommand hreaches) ht hissue
      · cases hissue

/-- Nothing needs to be torn. -/
theorem torn_refl (d : Device) (effect : Effect) : Torn d effect d := by
  cases effect with
  | writeFile file content => exact .inl rfl
  | deleteFile file => exact .inl rfl
  | renameFile source destination => exact .inl rfl
  | writeJournal journal => exact .inl rfl
  | deleteJournal token => exact .inl rfl
  | openForWriting uri => exact .inl rfl
  | writeDocument uri content => exact .inl rfl
  | _ => exact rfl

theorem interrupt_moment {call : Call} {n : ℕ} (run : Reachable generation original stage d)
    (h : d.Indexed) (hinterrupt : d.interrupt generation call n stage = some d') :
    Moment generation original d' ∧ Reachable generation original .starting d'.restarted ∧
      d'.restarted.Indexed := by
  rw [Device.interrupt] at hinterrupt
  split at hinterrupt
  · cases hinterrupt
  · next command hcommand =>
    split at hinterrupt
    · next effect next t hfollow =>
      cases hinterrupt
      obtain ⟨hreaches, ht⟩ := follow_reaches h hfollow
      exact ⟨.dying run hcommand hreaches (torn_refl _ _),
        run.death hcommand hreaches (torn_refl _ _), ht⟩
    · cases hinterrupt

theorem indexed_installed : (Device.installed original).Indexed := by
  intro token htoken
  simp [Device.installed] at htoken

theorem interrupted_moment {calls : List Call} {call : Call} {n : ℕ}
    (h : Device.interrupted generation original calls call n = some d) :
    Moment generation original d ∧ Reachable generation original .starting d.restarted ∧
      d.restarted.Indexed := by
  obtain ⟨⟨stage, d'⟩, hissue, hinterrupt⟩ := Option.bind_eq_some_iff.mp h
  obtain ⟨hreachable, hindexed⟩ := issue_reachable .installed indexed_installed hissue
  exact interrupt_moment hreachable hindexed hinterrupt

end Following

end NianPass.Android.VaultSource
