import NianPass.Sync.Disk
import NianPass.Sync.Script

/-
  Crash consistency of the private sync store: whatever the calls so far and
  wherever the process dies in the last one, the BASE and the journal that are
  loaded next are those from before the call or those from after it.

  One call breaks this. `write_journal` writes a phase without looking whether
  the journal is still there, so a record that outlives its journal (the state
  was reset, another recovery removed it) brings back a `journal.json` whose
  candidate is gone.
-/
namespace NianPass.Sync

open Kdbx (Bytes)
open Program (Ensures)

variable {V : Type}

/-! ## Runs of the store -/

/-- The disks that calls and crashes lead to from an empty directory, with the
records in the hands of the process. `allowed` says which calls are made. -/
inductive StoreRun (P : Platform V) (S : SyncStore) (allowed : StoreCall → Disk → Prop) :
    Disk → List JournalRecord → Prop
  | empty : StoreRun P S allowed ⟨fun _ => none, [], []⟩ []
  | call {d known call supply} (run : StoreRun P S allowed d known) (fits : call.fits known)
      (allows : allowed call d) (supplied : Supplied supply d) :
      StoreRun P S allowed (outcome supply (call.task P S).run d).2
        (((outcome supply (call.task P S).run d).1.toOption.join).toList ++ known)
  | crash {d known call supply d'} (run : StoreRun P S allowed d known) (fits : call.fits known)
      (allows : allowed call d) (supplied : Supplied supply d)
      (stops : CrashState supply (call.task P S).run d d') : StoreRun P S allowed d' []
  | load {d known journal} (run : StoreRun P S allowed d known)
      (loaded : evalReads d.files (loadJournal P S).run = some (.ok (some journal))) :
      StoreRun P S allowed d (journal.record :: known)

/-- A phase is written on a journal that is there: `write_journal`, unlike `remove_journal`,
does not look whether it is. -/
def MarksPresent : StoreCall → Disk → Prop
  | .markRemoteCommitted _ _, d => (d.files .journal).isSome = true
  | .markLocalCommitted _, d => (d.files .journal).isSome = true
  | _, _ => True

section Runs
variable {P : Platform V} {S : SyncStore} {supply : Supply} {d d' : Disk} {call : StoreCall}
variable {known : List JournalRecord} {base : Option (BaseMetadata × Bytes)}
variable {journal : Option (JournalRecord × Bytes)}

theorem HoldsJournal.isSome {files : Directory} (h : HoldsJournal P S files journal)
    (hfile : (files .journal).isSome = true) : journal.isSome = true := by
  cases journal with
  | none =>
    have hnone : files .journal = none := h
    rw [hnone] at hfile
    cases hfile
  | some found => rfl

theorem StoreCall.moves (h : Holds P S d base journal)
    (hknown : ∀ record ∈ known, Tracked S d journal record) (hfits : call.fits known)
    (hmarks : MarksPresent call d) (hfresh : supply.id ∉ d.issued) :
    Moves P S supply d base journal (call.task P S) id := by
  have htracked : ∀ record : JournalRecord, (∃ other ∈ known, record.sameTransaction other) →
      Tracked S d journal record := by
    intro record hrecord
    obtain ⟨other, hmem, hsame⟩ := hrecord
    exact (hknown other hmem).sameTransaction hsame
  cases call with
  | writeBase ciphertext revision =>
    exact (writeBase_moves h hfresh ciphertext revision).map fun _ => rfl
  | prepareJournal loc expected candidate =>
    exact (prepareJournal_moves h hfresh loc expected candidate).map fun _ => rfl
  | markRemoteCommitted record revision =>
    have hmoved := (htracked record hfits).move .remoteCommitted (some revision)
    exact (mark_moves h hmoved (h.holdsJournal.isSome hmarks)).map fun _ => rfl
  | markLocalCommitted record =>
    have hmoved := (htracked record hfits).move .localCommitted record.committedRemoteRevision
    exact (mark_moves h hmoved (h.holdsJournal.isSome hmarks)).map fun _ => rfl
  | removeJournal record =>
    exact (removeJournal_moves h (htracked record hfits)).map fun _ => rfl
  | resetState => exact (resetState_moves h).map fun _ => rfl

theorem outcome_issued {α : Type} {p : Program (Effect V) Answer α} {id : Uuid}
    (h : id ∈ d.issued) : id ∈ (outcome supply p d).2.issued := by
  induction p generalizing d with
  | done a => exact h
  | ask effect next ih =>
    apply ih
    cases effect with
    | newUuid => exact List.mem_cons_of_mem _ h
    | _ => exact h

/-- What stays in the hands of the process stays tracked. -/
theorem Tracked.carry {journal' : Option (JournalRecord × Bytes)} {record : JournalRecord}
    (h : Tracked S d journal record) (hcarries : CarriesOn d journal journal')
    (hissued : record.operationId ∈ d'.issued) : Tracked S d' journal' record := by
  refine ⟨h.schema, h.profileId, h.source, h.target, hissued, h.named, ?_⟩
  intro current bytes heq hop
  rcases hcarries current bytes heq with hfresh | ⟨before, old, hbefore, hsame, hsha⟩
  · rw [hop] at hfresh
    exact absurd h.issued hfresh
  · rw [← hsha]
    exact h.candidate before old hbefore (hsame.trans hop)

theorem StoreRun.holds (run : StoreRun P S MarksPresent d known) :
    ∃ base journal, Holds P S d base journal ∧ ∀ record ∈ known, Tracked S d journal record := by
  induction run with
  | empty => exact ⟨none, none, ⟨rfl, rfl, nofun, nofun⟩, nofun⟩
  | @call d known call supply run fits allows supplied ih =>
    obtain ⟨base, journal, h, hknown⟩ := ih
    obtain ⟨base', journal', hcarries, hp⟩ := StoreCall.moves h hknown fits allows supplied.fresh
    have hout := outcome_of_safe hp
    have hold : ∀ record ∈ known,
        Tracked S (outcome supply (call.task P S).run d).2 journal' record :=
      fun record hmem =>
        (hknown record hmem).carry hcarries (outcome_issued (hknown record hmem).issued)
    revert hout hold
    generalize outcome supply (call.task P S).run d = out
    obtain ⟨result, t⟩ := out
    intro hout hold
    cases result with
    | error error => exact ⟨base', journal', hout, hold⟩
    | ok handed =>
      refine ⟨base', journal', hout.1, ?_⟩
      intro record hmem
      rcases List.mem_append.mp hmem with hnew | hmem
      · obtain ⟨candidate, heq⟩ := hout.2 record (by simpa [Except.toOption] using hnew)
        have hholds := hout.1
        subst heq
        exact hholds.tracked
      · exact hold record hmem
  | @crash d known call supply d' run fits allows supplied stops ih =>
    obtain ⟨base, journal, h, hknown⟩ := ih
    obtain ⟨base', journal', hcarries, hp⟩ := StoreCall.moves h hknown fits allows supplied.fresh
    obtain ⟨b, j, _, _, hholds⟩ := stops.between hp
    exact ⟨b, j, hholds, nofun⟩
  | @load d known loaded run hload ih =>
    obtain ⟨base, journal, h, hknown⟩ := ih
    refine ⟨base, journal, h, ?_⟩
    intro record hmem
    rcases List.mem_cons.mp hmem with rfl | hmem
    · have hvalue := h.holdsJournal.load.symm.trans hload
      cases journal with
      | none => cases hvalue
      | some found =>
        cases hvalue
        exact h.tracked
    · exact hknown record hmem

/-- `load` returns what it returned before the call or what it returns when the call has ended,
and no error. -/
def OldOrNew {α : Type} (load : Task V (Option α)) (complete : Directory → α → Prop)
    (before after now : Disk) : Prop :=
  ∃ value, evalReads now.files load.run = some (.ok value) ∧
    (∀ a, value = some a → complete now.files a) ∧
    (evalReads before.files load.run = some (.ok value) ∨
      evalReads after.files load.run = some (.ok value))

/-- The BASE is the one `base.json` describes, with the digest it gives. -/
def BaseComplete (P : Platform V) (S : SyncStore) (files : Directory) (base : BaseState) : Prop :=
  ∃ metadata, BaseIn P S files metadata base.ciphertext

def JournalComplete (P : Platform V) (S : SyncStore) (files : Directory) (journal : LoadedJournal) :
    Prop :=
  JournalIn P S files journal.record journal.candidate

theorem HoldsBase.complete {files : Directory} (h : HoldsBase P S files base) (state : BaseState)
    (hstate : loadedBase P base = some state) : BaseComplete P S files state := by
  cases base with
  | none => cases hstate
  | some found =>
    cases hstate
    exact ⟨found.1, h⟩

theorem HoldsJournal.complete {files : Directory} (h : HoldsJournal P S files journal)
    (loaded : LoadedJournal) (hloaded : loadedJournal journal = some loaded) :
    JournalComplete P S files loaded := by
  cases journal with
  | none => cases hloaded
  | some found =>
    cases hloaded
    exact h

/-- Crash consistency: in every run in which phases are written on journals that are there, a
crash in the last call leaves the BASE and the journal from before it or from after it. -/
theorem crash_leaves_old_or_new (run : StoreRun P S MarksPresent d known)
    (hfits : call.fits known) (hmarks : MarksPresent call d) (supplied : Supplied supply d)
    (stops : CrashState supply (call.task P S).run d d') :
    OldOrNew (loadBase P S) (BaseComplete P S) d (outcome supply (call.task P S).run d).2 d' ∧
    OldOrNew (loadJournal P S) (JournalComplete P S) d
      (outcome supply (call.task P S).run d).2 d' := by
  obtain ⟨base, journal, h, hknown⟩ := run.holds
  obtain ⟨base', journal', _, hp⟩ := StoreCall.moves h hknown hfits hmarks supplied.fresh
  obtain ⟨b, j, hb, hj, hholds⟩ := stops.between hp
  have hafter : Holds P S (outcome supply (call.task P S).run d).2 base' journal' := by
    have hout := outcome_of_safe hp
    revert hout
    generalize outcome supply (call.task P S).run d = out
    intro hout
    obtain ⟨result, t⟩ := out
    cases result with
    | ok handed => exact hout.1
    | error error => exact hout
  constructor
  · refine ⟨loadedBase P b, hholds.holdsBase.load, hholds.holdsBase.complete, ?_⟩
    rcases hb with rfl | rfl
    · exact .inl h.holdsBase.load
    · exact .inr hafter.holdsBase.load
  · refine ⟨loadedJournal j, hholds.holdsJournal.load, hholds.holdsJournal.complete, ?_⟩
    rcases hj with rfl | rfl
    · exact .inl h.holdsJournal.load
    · exact .inr hafter.holdsJournal.load

/-- A new disk, and what the first call on it is given. -/
def sampleDisk : Disk := ⟨fun _ => none, [], []⟩

def sampleSupply : Supply := ⟨0x40000000000000000001, []⟩

theorem sampleSupply_supplied : Supplied sampleSupply sampleDisk :=
  ⟨by decide, by decide, by simp [Disk.Lists, sampleSupply, sampleDisk]⟩

/-- The process dies while it writes the ciphertext of the first BASE. -/
theorem crash_leaves_old_or_new_torn :
    let call := StoreCall.writeBase [1] ⟨"r1"⟩
    let torn : Disk :=
      ⟨fun _ => none, [(.ciphertext (.base sampleSupply.id), "1")], [sampleSupply.id]⟩
    let after := (outcome sampleSupply (call.task samplePlatform sampleStore).run sampleDisk).2
    OldOrNew (loadBase samplePlatform sampleStore) (BaseComplete samplePlatform sampleStore)
      sampleDisk after torn ∧
    OldOrNew (loadJournal samplePlatform sampleStore) (JournalComplete samplePlatform sampleStore)
      sampleDisk after torn :=
  crash_leaves_old_or_new .empty trivial trivial sampleSupply_supplied (.later (.torn "1"))

/-! ## Listings -/

theorem Disk.Lists.put {listing : List DirectoryEntry} (h : d.Lists listing) {file : File}
    {content : file.Content} : (d.write file (some content)).Lists (.file file :: listing) := by
  refine ⟨fun other => ?_, fun sibling suffix => by simp [h.2]⟩
  by_cases heq : other = file
  · subst heq
    simp [Disk.write_self]
  · rw [Disk.write_of_ne heq, ← h.1]
    simp [heq]

theorem Disk.Lists.remove {listing : List DirectoryEntry} (h : d.Lists listing) {file : File} :
    (d.write file none).Lists (listing.filter (· ≠ .file file)) := by
  refine ⟨fun other => ?_, fun sibling suffix => by simp [h.2]⟩
  by_cases heq : other = file
  · subst heq
    simp [Disk.write_self]
  · rw [Disk.write_of_ne heq, ← h.1]
    simp [heq]

theorem Disk.Lists.handle {listing : List DirectoryEntry} (h : d.Lists listing)
    (effect : Effect V) : ∃ listing', (handle supply d effect).2.Lists listing' := by
  cases effect with
  | writeFile file content => exact ⟨_, h.put⟩
  | removeFile file => exact ⟨_, h.remove⟩
  | _ => exact ⟨listing, h⟩

theorem outcome_lists {α : Type} {p : Program (Effect V) Answer α}
    (h : ∃ listing, d.Lists listing) : ∃ listing, (outcome supply p d).2.Lists listing := by
  induction p generalizing d with
  | done a => exact h
  | ask effect next ih =>
    obtain ⟨listing, h⟩ := h
    exact ih _ (h.handle effect)

/-- The last prefix of a call is the whole call. -/
theorem CrashState.completed {α : Type} (p : Program (Effect V) Answer α) :
    CrashState supply p d (outcome supply p d).2 := by
  induction p generalizing d with
  | done a => exact .stopped
  | ask effect next ih => exact .later (ih _)

theorem CrashState.lists {α : Type} {p : Program (Effect V) Answer α}
    (stops : CrashState supply p d d') (h : ∃ listing, d.Lists listing) :
    ∃ listing, d'.Lists listing := by
  induction stops with
  | stopped => exact h
  | @torn file content next d suffix =>
    obtain ⟨listing, h⟩ := h
    refine ⟨.temporary file suffix :: listing, fun other => by simpa using h.1 other, ?_⟩
    intro other suffix'
    simp [h.2]
  | later rest ih =>
    obtain ⟨listing, h⟩ := h
    exact ih (h.handle _)

/-- The directory of a reachable disk can be listed. -/
theorem StoreRun.lists {allowed : StoreCall → Disk → Prop} (run : StoreRun P S allowed d known) :
    ∃ listing, d.Lists listing := by
  induction run with
  | empty => exact ⟨[], by simp [Disk.Lists]⟩
  | call run fits allows supplied ih => exact outcome_lists ih
  | crash run fits allows supplied stops ih => exact stops.lists ih
  | load run hload ih => exact ih

def sampleRecord : JournalRecord :=
  newRecord samplePlatform sampleStore sampleSupply.id (sampleSnapshot [1]) none [2]

/-- The disk with a journal prepared. -/
def preparedDisk : Disk :=
  (outcome sampleSupply ((StoreCall.prepareJournal (sampleSnapshot [1]) none [2]).task
    samplePlatform sampleStore).run sampleDisk).2

theorem preparedDisk_run :
    StoreRun samplePlatform sampleStore (fun _ _ => True) preparedDisk [sampleRecord] :=
  .call .empty trivial trivial sampleSupply_supplied

def resetSupply : Supply :=
  ⟨0x40000000000000000002, [.file .journal, .file (.ciphertext (.candidate sampleSupply.id))]⟩

theorem resetSupply_supplied : Supplied resetSupply preparedDisk :=
  ⟨by decide, by decide, sampleSupply_supplied.lists.put.put⟩

def resetDisk : Disk :=
  (outcome resetSupply (StoreCall.resetState.task samplePlatform sampleStore).run preparedDisk).2

/-- A journal is prepared and the state is reset, and then a phase is written on the journal:
`journal.json` is back and names a candidate that is gone. -/
theorem mark_after_reset_dangles :
    ¬ ∀ (d : Disk) (known : List JournalRecord) (call : StoreCall) (supply : Supply) (d' : Disk),
      StoreRun samplePlatform sampleStore (fun _ _ => True) d known → call.fits known →
      Supplied supply d → CrashState supply (call.task samplePlatform sampleStore).run d d' →
      OldOrNew (loadBase samplePlatform sampleStore) (BaseComplete samplePlatform sampleStore) d
        (outcome supply (call.task samplePlatform sampleStore).run d).2 d' ∧
      OldOrNew (loadJournal samplePlatform sampleStore)
        (JournalComplete samplePlatform sampleStore) d
        (outcome supply (call.task samplePlatform sampleStore).run d).2 d' := by
  intro hclaim
  have run : StoreRun samplePlatform sampleStore (fun _ _ => True) resetDisk [sampleRecord] :=
    .call preparedDisk_run trivial trivial resetSupply_supplied
  have supplied : Supplied ⟨0x40000000000000000002, []⟩ resetDisk := by
    refine ⟨by decide, by decide, ?_⟩
    exact (resetSupply_supplied.lists.remove.remove).remove
  obtain ⟨-, value, hvalue, -⟩ := hclaim _ _ (.markRemoteCommitted sampleRecord ⟨"r1"⟩) _ _ run
    ⟨sampleRecord, List.mem_singleton_self _, rfl⟩ supplied (.completed _)
  cases hvalue

end Runs

end NianPass.Sync
