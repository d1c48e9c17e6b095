import NianPass.Sync.Store

/-
  Crash consistency of the private sync store.

  Here the calls of the store run on a disk on which nothing fails, until the
  process dies: after any of their file effects, or inside an atomic write, which
  then leaves its temporary sibling behind. What a call finds from outside (the
  UUID it draws, the listing of the directory) is its `Supply`.

  The disk stands for an abstract state: the BASE and the journal it holds, each
  with its ciphertext (`Holds`). Every call moves from one such state to another,
  and at each of its file effects each of the two parts is the old one or the new
  one (`StoreCall.moves`).
-/
namespace NianPass.Sync

open Kdbx (Bytes)
open Program (Ensures Machine Safe)

variable {V : Type}

structure Disk where
  files : Directory
  temporaries : List (File × String)
  issued : List Uuid

/-- What a call is given from outside. -/
structure Supply where
  id : Uuid
  listing : List DirectoryEntry

def Disk.write (d : Disk) (file : File) (content : Option file.Content) : Disk :=
  { d with files := Function.update d.files file content }

section Write
variable {d : Disk} {file other : File} {content : Option file.Content}

theorem Disk.write_self : (d.write file content).files file = content :=
  Function.update_self _ _ _

theorem Disk.write_of_ne (h : other ≠ file) :
    (d.write file content).files other = d.files other :=
  Function.update_of_ne h _ _

@[simp] theorem Disk.write_issued : (d.write file content).issued = d.issued := rfl

@[simp] theorem Disk.write_temporaries : (d.write file content).temporaries = d.temporaries := rfl

end Write

/-- The answer to a file effect on a disk that works. The store has no other effects. -/
def handle (supply : Supply) (d : Disk) : (effect : Effect V) → Answer effect × Disk
  | .readFile file => (.ok (d.files file), d)
  | .writeFile file content => (.ok (), d.write file (some content))
  | .removeFile file => (.ok (), d.write file none)
  | .readDirectory => (.ok supply.listing, d)
  | .syncDirectory => (.ok (), d)
  | .newUuid => (supply.id, { d with issued := supply.id :: d.issued })
  | .captureClean => (.error .failed, d)
  | .replaceIfUnchanged _ _ => (.error .failed, d)
  | .read => (.error .transport, d)
  | .write _ => (.error .transport, d)
  | .saveToWriter _ _ => (.error (), d)
  | .invalidateConflict => (.error .internal, d)
  | .installConflict _ => (.error .internal, d)
  | .takeConflict _ => (.error .internal, d)

def outcome {α : Type} (supply : Supply) : Program (Effect V) Answer α → Disk → α × Disk
  | .done a, d => (a, d)
  | .ask effect next, d =>
    outcome supply (next (handle supply d effect).1) (handle supply d effect).2

/-- The disks a crash can leave. -/
inductive CrashState {α : Type} (supply : Supply) : Program (Effect V) Answer α → Disk → Disk → Prop
  | stopped {p d} : CrashState supply p d d
  | torn {file content next d} (suffix : String) :
      CrashState supply (.ask (.writeFile file content) next) d
        { d with temporaries := (file, suffix) :: d.temporaries }
  | later {effect next d d'}
      (rest : CrashState supply (next (handle supply d effect).1) (handle supply d effect).2 d') :
      CrashState supply (.ask effect next) d d'

/-! ## The calls of the store -/

inductive StoreCall where
  | writeBase (ciphertext : Bytes) (revision : RemoteRevision)
  | prepareJournal (loc : LocalSnapshot) (expected : Option RemoteRevision) (candidate : Bytes)
  | markRemoteCommitted (record : JournalRecord) (revision : RemoteRevision)
  | markLocalCommitted (record : JournalRecord)
  | removeJournal (record : JournalRecord)
  | resetState

/-- A call, and the journal record it hands back. -/
def StoreCall.task (P : Platform V) (S : SyncStore) : StoreCall → Task V (Option JournalRecord)
  | .writeBase ciphertext revision => do
    Sync.writeBase P S ciphertext revision
    pure none
  | .prepareJournal loc expected candidate => do
    let record ← Sync.prepareJournal P S loc expected candidate
    pure (some record)
  | .markRemoteCommitted record revision => do
    let record ← Sync.markRemoteCommitted record revision
    pure (some record)
  | .markLocalCommitted record => do
    let record ← Sync.markLocalCommitted record
    pure (some record)
  | .removeJournal record => do
    Sync.removeJournal P S record
    pure none
  | .resetState => do
    Sync.resetState
    pure none

/-- Two records of one transaction: they differ in how far it got. -/
def JournalRecord.sameTransaction (a b : JournalRecord) : Prop :=
  { a with phase := b.phase, committedRemoteRevision := b.committedRemoteRevision } = b

/-- A record is passed on only by those who were handed it; its phase may have moved on. -/
def StoreCall.fits (known : List JournalRecord) : StoreCall → Prop
  | .markRemoteCommitted record _ => ∃ other ∈ known, record.sameTransaction other
  | .markLocalCommitted record => ∃ other ∈ known, record.sameTransaction other
  | .removeJournal record => ∃ other ∈ known, record.sameTransaction other
  | _ => True

/-- The listing names exactly what stands in the directory. -/
def Disk.Lists (d : Disk) (listing : List DirectoryEntry) : Prop :=
  (∀ file, .file file ∈ listing ↔ (d.files file).isSome = true) ∧
  ∀ file suffix, .temporary file suffix ∈ listing ↔ (file, suffix) ∈ d.temporaries

/-- `Uuid::new_v4` draws a UUID that was never drawn before. -/
structure Supplied (supply : Supply) (d : Disk) : Prop where
  v4 : isV4 supply.id = true
  fresh : supply.id ∉ d.issued
  lists : d.Lists supply.listing

/-! ## The abstract state -/

def HoldsBase (P : Platform V) (S : SyncStore) (files : Directory) :
    Option (BaseMetadata × Bytes) → Prop
  | none => files .base = none
  | some (metadata, ciphertext) => BaseIn P S files metadata ciphertext

def HoldsJournal (P : Platform V) (S : SyncStore) (files : Directory) :
    Option (JournalRecord × Bytes) → Prop
  | none => files .journal = none
  | some (record, candidate) => JournalIn P S files record candidate

/-- The disk holds this BASE and this journal; the files it names were named by UUIDs drawn. -/
structure Holds (P : Platform V) (S : SyncStore) (d : Disk)
    (base : Option (BaseMetadata × Bytes)) (journal : Option (JournalRecord × Bytes)) : Prop where
  holdsBase : HoldsBase P S d.files base
  holdsJournal : HoldsJournal P S d.files journal
  baseDrawn : ∀ metadata ciphertext, base = some (metadata, ciphertext) →
    ∃ id ∈ d.issued, metadata.ciphertextFile = .base id
  candidateDrawn : ∀ record candidate, journal = some (record, candidate) →
    record.operationId ∈ d.issued ∧ record.candidateFile = .candidate record.operationId

section Holds
variable {P : Platform V} {S : SyncStore} {d : Disk} {base base' : Option (BaseMetadata × Bytes)}
variable {journal journal' : Option (JournalRecord × Bytes)}

/-- What `load_base` returns on a disk that holds this BASE. -/
def loadedBase (P : Platform V) (base : Option (BaseMetadata × Bytes)) : Option BaseState :=
  base.map fun (metadata, ciphertext) =>
    ⟨ciphertext, P.digestOf ciphertext, metadata.remoteRevision⟩

def loadedJournal (journal : Option (JournalRecord × Bytes)) : Option LoadedJournal :=
  journal.map fun (record, candidate) => ⟨record, candidate⟩

theorem HoldsBase.load {files : Directory} (h : HoldsBase P S files base) :
    evalReads files (loadBase P S).run = some (.ok (loadedBase P base)) := by
  cases base with
  | none => exact loadBase_none h
  | some found => exact loadBase_some h

theorem HoldsJournal.load {files : Directory} (h : HoldsJournal P S files journal) :
    evalReads files (loadJournal P S).run = some (.ok (loadedJournal journal)) := by
  cases journal with
  | none => exact loadJournal_none h
  | some found => exact loadJournal_some h

/-- A BASE does not notice a file it does not name. -/
theorem HoldsBase.write {files : Directory} (h : HoldsBase P S files base) {file : File}
    {content : Option file.Content} (hfile : file ≠ .base)
    (hname : ∀ metadata ciphertext, base = some (metadata, ciphertext) →
      file ≠ .ciphertext metadata.ciphertextFile) :
    HoldsBase P S (Function.update files file content) base := by
  cases base with
  | none => exact (Function.update_of_ne (Ne.symm hfile) _ _).trans h
  | some found =>
    obtain ⟨metadata, ciphertext⟩ := found
    have hbase : BaseIn P S files metadata ciphertext := h
    exact { hbase with
      written := (Function.update_of_ne (Ne.symm hfile) _ _).trans hbase.written
      held := (Function.update_of_ne (Ne.symm (hname _ _ rfl)) _ _).trans hbase.held }

theorem HoldsJournal.write {files : Directory} (h : HoldsJournal P S files journal) {file : File}
    {content : Option file.Content} (hfile : file ≠ .journal)
    (hname : ∀ record candidate, journal = some (record, candidate) →
      file ≠ .ciphertext record.candidateFile) :
    HoldsJournal P S (Function.update files file content) journal := by
  cases journal with
  | none => exact (Function.update_of_ne (Ne.symm hfile) _ _).trans h
  | some found =>
    obtain ⟨record, candidate⟩ := found
    have hjournal : JournalIn P S files record candidate := h
    exact { hjournal with
      written := (Function.update_of_ne (Ne.symm hfile) _ _).trans hjournal.written
      held := (Function.update_of_ne (Ne.symm (hname _ _ rfl)) _ _).trans hjournal.held }

end Holds

/-! ## Programs on the disk -/

section Machine
variable (supply : Supply) (Good : Disk → Prop)

/-- The working disk as a machine: every disk a program passes must be `Good`. -/
def diskMachine : Machine (Effect V) Answer Disk where
  step d effect answer d' := handle supply d effect = (answer, d')
  permits d _ := Good d

variable {supply Good} {α : Type} {d d' : Disk}

theorem outcome_of_safe {p : Program (Effect V) Answer α} {Q : Disk → α → Prop}
    (h : p.Safe (diskMachine supply Good) Q d) : Q (outcome supply p d).2 (outcome supply p d).1 := by
  induction p generalizing d with
  | done a => exact h
  | ask effect next ih => exact ih _ (h.2 _ _ rfl)

/-- A crash leaves a disk that was passed, perhaps with a temporary file more. -/
theorem CrashState.good {p : Program (Effect V) Answer α} {Q : Disk → α → Prop}
    (hcrash : CrashState supply p d d') (h : p.Safe (diskMachine supply Good) Q d)
    (hQ : ∀ t a, Q t a → Good t)
    (htorn : ∀ t temporaries, Good t → Good { t with temporaries := temporaries }) : Good d' := by
  induction hcrash with
  | @stopped p d =>
    cases p with
    | done a => exact hQ _ _ h
    | ask effect next => exact h.1
  | torn suffix => exact htorn _ _ h.1
  | later rest ih => exact ih (h.2 _ _ rfl)

section Rules
variable {F : Disk → α → Prop} {X : Disk → SyncError → Prop}

/-- A program that only reads returns what it reads and leaves the disk alone. -/
theorem disk_reads {p : Task V α} {result : Except SyncError α} (hgood : Good d)
    (h : evalReads d.files p.run = some result) :
    Ensures (diskMachine supply Good) p (fun t a => t = d ∧ result = .ok a)
      (fun t error => t = d ∧ result = .error error) d := by
  unfold Program.Ensures
  generalize p.run = q at h ⊢
  induction q with
  | done a =>
    cases h
    cases result with
    | ok a => exact ⟨rfl, rfl⟩
    | error error => exact ⟨rfl, rfl⟩
  | ask effect next ih =>
    cases effect with
    | readFile file =>
      refine ⟨hgood, fun answer t hstep => ?_⟩
      cases hstep
      exact ih _ h
    | _ => cases h

theorem disk_atomicWrite {F : Disk → Unit → Prop} {file : File} {content : file.Content}
    (hgood : Good d) (hF : F (d.write file (some content)) ()) :
    Ensures (diskMachine supply Good) (atomicWrite file content : Task V Unit) F X d := by
  refine ⟨hgood, fun answer t hstep => ?_⟩
  cases hstep
  exact hF

theorem disk_removeIfFile {F : Disk → Unit → Prop} {file : File} (hgood : Good d)
    (hF : F (d.write file none) ()) :
    Ensures (diskMachine supply Good) (removeIfFile file : Task V Unit) F X d := by
  refine ⟨hgood, fun answer t hstep => ?_⟩
  cases hstep
  exact hF

theorem disk_syncDirectory {F : Disk → Unit → Prop} (hgood : Good d) (hF : F d ()) :
    Ensures (diskMachine supply Good) (syncDirectory : Task V Unit) F X d := by
  refine ⟨hgood, fun answer t hstep => ?_⟩
  cases hstep
  exact hF

theorem disk_newUuid {F : Disk → Uuid → Prop} (hgood : Good d)
    (hF : F { d with issued := supply.id :: d.issued } supply.id) :
    Ensures (diskMachine supply Good) (ask .newUuid : Task V Uuid) F X d := by
  refine ⟨hgood, fun answer t hstep => ?_⟩
  cases hstep
  exact hF

end Rules

end Machine

/-! ## What each call does to the abstract state -/

section Moves
variable {P : Platform V} {S : SyncStore} {supply : Supply} {d : Disk}
variable {base : Option (BaseMetadata × Bytes)} {journal : Option (JournalRecord × Bytes)}

/-- Each part is the old one or the new one. -/
def Between (P : Platform V) (S : SyncStore) (base base' : Option (BaseMetadata × Bytes))
    (journal journal' : Option (JournalRecord × Bytes)) (d : Disk) : Prop :=
  ∃ b j, (b = base ∨ b = base') ∧ (j = journal ∨ j = journal') ∧ Holds P S d b j

/-- The journal is that of a transaction begun since, or of the one that was there. -/
def CarriesOn (d : Disk) (journal journal' : Option (JournalRecord × Bytes)) : Prop :=
  ∀ record' candidate', journal' = some (record', candidate') →
    record'.operationId ∉ d.issued ∨
    ∃ record candidate, journal = some (record, candidate) ∧
      record.operationId = record'.operationId ∧
      record.candidateSha256 = record'.candidateSha256

/-- `p` takes the disk from one abstract state to another, through these two only. The record
it hands back is the one on the disk. -/
def Moves {α : Type} (P : Platform V) (S : SyncStore) (supply : Supply) (d : Disk)
    (base : Option (BaseMetadata × Bytes)) (journal : Option (JournalRecord × Bytes))
    (p : Task V α) (handed : α → Option JournalRecord) : Prop :=
  ∃ base' journal', CarriesOn d journal journal' ∧
    Ensures (diskMachine supply (Between P S base base' journal journal')) p
      (fun t a => Holds P S t base' journal' ∧
        ∀ record, handed a = some record → ∃ candidate, journal' = some (record, candidate))
      (fun t _ => Holds P S t base' journal') d

theorem Holds.torn (h : Holds P S d base journal) (temporaries : List (File × String)) :
    Holds P S { d with temporaries := temporaries } base journal :=
  ⟨h.holdsBase, h.holdsJournal, h.baseDrawn, h.candidateDrawn⟩

/-- At every crash each part is the old one or the new one. -/
theorem CrashState.between {α : Type} {p : Task V α} {d' : Disk}
    {base' : Option (BaseMetadata × Bytes)} {journal' : Option (JournalRecord × Bytes)}
    {F : α → Prop} (stops : CrashState supply p.run d d')
    (hp : Ensures (diskMachine supply (Between P S base base' journal journal')) p
      (fun t a => Holds P S t base' journal' ∧ F a) (fun t _ => Holds P S t base' journal') d) :
    Between P S base base' journal journal' d' := by
  refine stops.good hp ?_ ?_
  · intro t result hresult
    have hholds : Holds P S t base' journal' := by
      cases result with
      | ok a => exact hresult.1
      | error error => exact hresult
    exact ⟨base', journal', .inr rfl, .inr rfl, hholds⟩
  · intro t temporaries hbetween
    obtain ⟨b, j, hb, hj, hholds⟩ := hbetween
    exact ⟨b, j, hb, hj, hholds.torn temporaries⟩

theorem CarriesOn.refl : CarriesOn d journal journal :=
  fun record candidate heq => .inr ⟨record, candidate, heq, rfl, rfl⟩

theorem CarriesOn.none : CarriesOn d journal none := nofun

theorem Holds.between_old {base' : Option (BaseMetadata × Bytes)}
    {journal' : Option (JournalRecord × Bytes)} (h : Holds P S d base journal) :
    Between P S base base' journal journal' d := ⟨base, journal, .inl rfl, .inl rfl, h⟩

theorem Holds.between_new {base' : Option (BaseMetadata × Bytes)}
    {journal' : Option (JournalRecord × Bytes)} (h : Holds P S d base' journal') :
    Between P S base base' journal journal' d := ⟨base', journal', .inr rfl, .inr rfl, h⟩

theorem Moves.map {α β : Type} {p : Task V α} {f : α → β} {handed : α → Option JournalRecord}
    {handed' : β → Option JournalRecord} (h : Moves P S supply d base journal p handed)
    (hf : ∀ a, handed' (f a) = handed a) :
    Moves P S supply d base journal (do let a ← p; pure (f a)) handed' := by
  obtain ⟨base', journal', hcarries, hp⟩ := h
  refine ⟨base', journal', hcarries, Ensures.bind (hp.weaken (fun t a ha => ?_) fun _ _ he => he)⟩
  refine ⟨ha.1, fun record heq => ?_⟩
  exact ha.2 record ((hf a).symm.trans heq)

theorem Holds.draw (h : Holds P S d base journal) (id : Uuid) :
    Holds P S { d with issued := id :: d.issued } base journal :=
  { h with
    baseDrawn := fun metadata ciphertext heq => by
      obtain ⟨old, hmem, hname⟩ := h.baseDrawn metadata ciphertext heq
      exact ⟨old, List.mem_cons_of_mem _ hmem, hname⟩
    candidateDrawn := fun record candidate heq => by
      obtain ⟨hmem, hname⟩ := h.candidateDrawn record candidate heq
      exact ⟨List.mem_cons_of_mem _ hmem, hname⟩ }

/-- Neither BASE nor the journal names the file. -/
theorem Holds.write (h : Holds P S d base journal) {name : CiphertextFile} (content : Option Bytes)
    (hbase : ∀ metadata ciphertext, base = some (metadata, ciphertext) →
      name ≠ metadata.ciphertextFile)
    (hjournal : ∀ record candidate, journal = some (record, candidate) →
      name ≠ record.candidateFile) :
    Holds P S (d.write (.ciphertext name) content) base journal where
  holdsBase := h.holdsBase.write nofun fun metadata ciphertext heq hname =>
    hbase metadata ciphertext heq (File.ciphertext.inj hname)
  holdsJournal := h.holdsJournal.write nofun fun record candidate heq hname =>
    hjournal record candidate heq (File.ciphertext.inj hname)
  baseDrawn := h.baseDrawn
  candidateDrawn := h.candidateDrawn

/-- A file under a UUID that was never drawn is named by nobody. -/
theorem Holds.fresh_base (h : Holds P S d base journal) {id : Uuid} (hfresh : id ∉ d.issued) :
    (∀ metadata ciphertext, base = some (metadata, ciphertext) →
      CiphertextFile.base id ≠ metadata.ciphertextFile) ∧
    ∀ record candidate, journal = some (record, candidate) →
      CiphertextFile.base id ≠ record.candidateFile := by
  refine ⟨fun metadata ciphertext heq hname => ?_, fun record candidate heq hname => ?_⟩
  · obtain ⟨old, hmem, hold⟩ := h.baseDrawn metadata ciphertext heq
    obtain rfl := CiphertextFile.base.inj (hname.trans hold)
    exact hfresh hmem
  · rw [(h.candidateDrawn record candidate heq).2] at hname
    cases hname

theorem Holds.fresh_candidate (h : Holds P S d base journal) {id : Uuid} (hfresh : id ∉ d.issued) :
    (∀ metadata ciphertext, base = some (metadata, ciphertext) →
      CiphertextFile.candidate id ≠ metadata.ciphertextFile) ∧
    ∀ record candidate, journal = some (record, candidate) →
      CiphertextFile.candidate id ≠ record.candidateFile := by
  refine ⟨fun metadata ciphertext heq hname => ?_, fun record candidate heq hname => ?_⟩
  · obtain ⟨old, hmem, hold⟩ := h.baseDrawn metadata ciphertext heq
    cases hname.trans hold
  · obtain ⟨hmem, hold⟩ := h.candidateDrawn record candidate heq
    obtain rfl := CiphertextFile.candidate.inj (hname.trans hold)
    exact hfresh hmem

/-- The metadata that `write_base` writes. -/
def newMetadata (P : Platform V) (S : SyncStore) (id : Uuid) (ciphertext : Bytes)
    (revision : RemoteRevision) : BaseMetadata :=
  { schemaVersion := schemaVersion, profileId := S.profileId, source := S.source
    target := S.target, ciphertextFile := .base id
    ciphertextSha256 := P.digestOf ciphertext, remoteRevision := revision }

theorem Holds.switch_base (h : Holds P S d base journal) {metadata : BaseMetadata}
    {ciphertext : Bytes} {id : Uuid} (hid : id ∈ d.issued)
    (hmetadata : ∃ revision, metadata = newMetadata P S id ciphertext revision)
    (hheld : d.files (.ciphertext (.base id)) = some ciphertext) :
    Holds P S (d.write .base (some metadata)) (some (metadata, ciphertext)) journal := by
  obtain ⟨revision, rfl⟩ := hmetadata
  refine ⟨?_, ?_, ?_, h.candidateDrawn⟩
  · refine ⟨Disk.write_self, rfl, rfl, rfl, rfl, ⟨id, rfl⟩, ?_, rfl⟩
    exact (Disk.write_of_ne (by simp)).trans hheld
  · exact h.holdsJournal.write nofun fun _ _ _ hname => nomatch hname
  · intro metadata bytes heq
    cases heq
    exact ⟨id, hid, rfl⟩

/-- A file of the store that the BASE does not name may go. -/
theorem Holds.remove_base (h : Holds P S d base journal) {id : Uuid}
    (hname : ∀ metadata ciphertext, base = some (metadata, ciphertext) →
      CiphertextFile.base id ≠ metadata.ciphertextFile) (content : Option Bytes) :
    Holds P S (d.write (.ciphertext (.base id)) content) base journal := by
  apply h.write content hname
  intro record candidate heq hcandidate
  rw [(h.candidateDrawn record candidate heq).2] at hcandidate
  cases hcandidate

theorem removeOldBase_keeps {Good : Disk → Prop} (h : Holds P S d base journal) (hgood : Good d)
    {current : CiphertextFile}
    (hcurrent : ∀ metadata ciphertext, base = some (metadata, ciphertext) →
      metadata.ciphertextFile = current) (old : Option BaseMetadata) :
    Ensures (diskMachine supply Good) (removeOldBase old current : Task V Unit)
      (fun t _ => Holds P S t base journal) (fun _ _ => False) d := by
  unfold removeOldBase
  split
  · apply Program.ensures_ite
    · intro hne
      apply disk_removeIfFile hgood
      apply h.remove_base
      intro metadata ciphertext heq
      rw [hcurrent metadata ciphertext heq]
      exact hne
    · intro _
      exact h
  · exact h

theorem writeBase_moves (h : Holds P S d base journal) (hfresh : supply.id ∉ d.issued)
    (ciphertext : Bytes) (revision : RemoteRevision) :
    Moves P S supply d base journal (writeBase P S ciphertext revision) fun _ => none := by
  obtain ⟨base', hbase'⟩ :
    ∃ base', base' = some (newMetadata P S supply.id ciphertext revision, ciphertext) := ⟨_, rfl⟩
  refine ⟨base', journal, .refl, ?_⟩
  refine Ensures.bind (disk_newUuid h.between_old ?_)
  have h₁ := h.draw supply.id
  refine Ensures.bind (disk_atomicWrite h₁.between_old ?_)
  -- The new ciphertext stands beside the old one.
  obtain ⟨hbase, hjournal⟩ := h.fresh_base hfresh
  have h₂ := h₁.write (some ciphertext) hbase hjournal
  refine Ensures.bind ((disk_reads h₂.between_old evalReads_readBaseMetadata).weaken ?_ ?_)
  swap
  · intro t error hnever
    cases hnever.2
  intro t old hread
  obtain ⟨rfl, hread⟩ := hread
  obtain rfl := Except.ok.inj hread
  refine Ensures.bind (disk_atomicWrite h₂.between_old ?_)
  -- `base.json` switches to it.
  have h₃ := h₂.switch_base List.mem_cons_self ⟨revision, rfl⟩ Disk.write_self
  rw [← hbase'] at h₃
  have hnamed : ∀ metadata bytes, base' = some (metadata, bytes) →
      metadata.ciphertextFile = .base supply.id := by
    intro metadata bytes heq
    rw [hbase'] at heq
    cases heq
    rfl
  refine Ensures.bind ((removeOldBase_keeps h₃ h₃.between_new hnamed _).weaken
    (fun t _ ht => ?_) nofun)
  exact disk_syncDirectory ht.between_new ⟨ht, nofun⟩

/-- A call that refuses changes nothing. -/
theorem moves_throw {α : Type} {handed : α → Option JournalRecord} {error : SyncError}
    (h : Holds P S d base journal) :
    Moves P S supply d base journal (throw error : Task V α) handed :=
  ⟨base, journal, .refl, h⟩

/-- What is read first does not move the disk. -/
theorem Moves.of_reads {α β : Type} {p : Task V α} {f : α → Task V β}
    {handed : β → Option JournalRecord} {a : α} (h : Holds P S d base journal)
    (hread : evalReads d.files p.run = some (.ok a))
    (hf : Moves P S supply d base journal (f a) handed) :
    Moves P S supply d base journal (p >>= f) handed := by
  obtain ⟨base', journal', hcarries, hf⟩ := hf
  refine ⟨base', journal', hcarries, Ensures.bind ((disk_reads h.between_old hread).weaken ?_ ?_)⟩
  · intro t a' hreads
    obtain ⟨rfl, heq⟩ := hreads
    obtain rfl := Except.ok.inj heq
    exact hf
  · intro t error hreads
    cases hreads.2

theorem HoldsJournal.schema {files : Directory} (h : HoldsJournal P S files journal) :
    evalReads files (journalSchema : Task V _).run =
      some (.ok (if journal.isSome then .current else .missing)) := by
  cases journal with
  | none =>
    have hnone : files .journal = none := h
    simp [-ExceptT.run_bind, journalSchema, evalReads_bind, hnone]
  | some found =>
    have hjournal : JournalIn P S files found.1 found.2 := h
    simp [-ExceptT.run_bind, journalSchema, evalReads_bind, hjournal.written, hjournal.schema]

theorem HoldsBase.schema {files : Directory} (h : HoldsBase P S files base) :
    evalReads files (baseSchema : Task V _).run =
      some (.ok (if base.isSome then .current else .missing)) := by
  cases base with
  | none =>
    have hnone : files .base = none := h
    simp [-ExceptT.run_bind, baseSchema, evalReads_bind, hnone]
  | some found =>
    have hbase : BaseIn P S files found.1 found.2 := h
    simp [-ExceptT.run_bind, baseSchema, evalReads_bind, hbase.written, hbase.schema]

theorem Holds.recoveryStatus (h : Holds P S d base journal) :
    evalReads d.files (recoveryStatus P S).run =
      some (.ok (if journal.isSome then .required else .none)) := by
  cases journal with
  | none =>
    cases base with
    | none =>
      simp [-ExceptT.run_bind, Sync.recoveryStatus, evalReads_bind, h.holdsJournal.schema, h.holdsBase.schema,
        validateCurrent]
    | some found =>
      simp [-ExceptT.run_bind, Sync.recoveryStatus, evalReads_bind, h.holdsJournal.schema, h.holdsBase.schema,
        validateCurrent, h.holdsBase.load]
  | some recorded =>
    cases base with
    | none =>
      simp [-ExceptT.run_bind, Sync.recoveryStatus, evalReads_bind, h.holdsJournal.schema, h.holdsBase.schema,
        validateCurrent, h.holdsJournal.load]
    | some found =>
      simp [-ExceptT.run_bind, Sync.recoveryStatus, evalReads_bind, h.holdsJournal.schema, h.holdsBase.schema,
        validateCurrent, h.holdsJournal.load, h.holdsBase.load]

/-- The record that `prepare_journal` writes. -/
def newRecord (P : Platform V) (S : SyncStore) (id : Uuid) (loc : LocalSnapshot)
    (expected : Option RemoteRevision) (candidate : Bytes) : JournalRecord :=
  { schemaVersion := schemaVersion, profileId := S.profileId, source := S.source
    target := S.target, operationId := id, phase := .prepared
    expectedLocalSha256 := P.digestOf loc.ciphertext, expectedRemoteRevision := expected
    candidateFile := .candidate id, candidateSha256 := P.digestOf candidate
    committedRemoteRevision := none }

theorem newRecord_in {id : Uuid} {loc : LocalSnapshot} {expected : Option RemoteRevision}
    {candidate : Bytes} (hheld : d.files (.ciphertext (.candidate id)) = some candidate) :
    JournalIn P S (d.write .journal (some (newRecord P S id loc expected candidate))).files
      (newRecord P S id loc expected candidate) candidate :=
  ⟨Disk.write_self, rfl, rfl, rfl, rfl, ⟨id, rfl⟩, (Disk.write_of_ne (by simp)).trans hheld, rfl⟩

/-- `journal.json` is switched to a record whose candidate is on the disk. -/
theorem Holds.switch_journal (h : Holds P S d base journal) {record : JournalRecord}
    {candidate : Bytes} (hissued : record.operationId ∈ d.issued)
    (hrecord : JournalIn P S (d.write .journal (some record)).files record candidate)
    (hname : record.candidateFile = .candidate record.operationId) :
    Holds P S (d.write .journal (some record)) base (some (record, candidate)) := by
  refine ⟨?_, hrecord, h.baseDrawn, ?_⟩
  · exact h.holdsBase.write nofun fun _ _ _ hname => nomatch hname
  · intro record candidate heq
    cases heq
    exact ⟨hissued, hname⟩

theorem prepareJournal_moves (h : Holds P S d base journal) (hfresh : supply.id ∉ d.issued)
    (loc : LocalSnapshot) (expected : Option RemoteRevision) (candidate : Bytes) :
    Moves P S supply d base journal (prepareJournal P S loc expected candidate) some := by
  apply Moves.of_reads h h.recoveryStatus
  cases journal with
  | some recorded => exact moves_throw h
  | none =>
    by_cases hsource : loc.source = S.source
    swap
    · rw [if_neg (by simp), if_pos hsource]
      exact moves_throw h
    rw [if_neg (by simp), if_neg (not_not.mpr hsource)]
    refine ⟨base, some (newRecord P S supply.id loc expected candidate, candidate), ?_, ?_⟩
    · intro record bytes heq
      cases heq
      exact .inl hfresh
    refine Ensures.bind (disk_newUuid h.between_old ?_)
    have h₁ := h.draw supply.id
    refine Ensures.bind (disk_atomicWrite h₁.between_old ?_)
    obtain ⟨hbase, hjournal⟩ := h.fresh_candidate hfresh
    have h₂ := h₁.write (some candidate) hbase hjournal
    -- No journal is there, so the record is written.
    refine Ensures.bind ?_
    refine Ensures.bind ((disk_reads h₂.between_old evalReads_readJournalRecord).weaken ?_ ?_)
    swap
    · intro t error hreads
      cases hreads.2
    intro t current hreads
    obtain ⟨rfl, heq⟩ := hreads
    have hnone := h₂.holdsJournal.symm.trans (Except.ok.inj heq)
    subst hnone
    refine disk_atomicWrite h₂.between_old ?_
    refine ⟨h₂.switch_journal List.mem_cons_self (newRecord_in Disk.write_self) rfl, ?_⟩
    intro record heq
    cases heq
    exact ⟨candidate, rfl⟩

/-- A record of this store, under a UUID that was drawn, for the candidate on the disk if the
journal there is of the same transaction. -/
structure Tracked (S : SyncStore) (d : Disk) (journal : Option (JournalRecord × Bytes))
    (record : JournalRecord) : Prop where
  schema : record.schemaVersion = schemaVersion
  profileId : record.profileId = S.profileId
  source : record.source = S.source
  target : record.target = S.target
  issued : record.operationId ∈ d.issued
  named : record.candidateFile = .candidate record.operationId
  candidate : ∀ current bytes, journal = some (current, bytes) →
    current.operationId = record.operationId → current.candidateSha256 = record.candidateSha256

theorem Tracked.sameTransaction {record other : JournalRecord} (h : Tracked S d journal other)
    (hsame : record.sameTransaction other) : Tracked S d journal record := by
  have hother : Tracked S d journal { record with
      phase := other.phase, committedRemoteRevision := other.committedRemoteRevision } := by
    rw [show _ = other from hsame]
    exact h
  exact ⟨hother.schema, hother.profileId, hother.source, hother.target, hother.issued,
    hother.named, hother.candidate⟩

/-- The record on the disk is tracked. -/
theorem Holds.tracked {record : JournalRecord} {candidate : Bytes}
    (h : Holds P S d base (some (record, candidate))) :
    Tracked S d (some (record, candidate)) record := by
  have hjournal : JournalIn P S d.files record candidate := h.holdsJournal
  obtain ⟨hissued, hname⟩ := h.candidateDrawn record candidate rfl
  refine ⟨hjournal.schema, hjournal.profileId, hjournal.source, hjournal.target, hissued, hname, ?_⟩
  intro current bytes heq _
  cases heq
  rfl

/-- Writing on the journal that is there: the phase moves, the candidate stays. -/
theorem writeJournal_moves {record : JournalRecord} (h : Holds P S d base journal)
    (hrecord : Tracked S d journal record) (hpresent : journal.isSome = true) :
    Moves P S supply d base journal (writeJournal record : Task V Unit) fun _ => some record := by
  obtain ⟨⟨current, candidate⟩, rfl⟩ := Option.isSome_iff_exists.mp hpresent
  have hjournal : JournalIn P S d.files current candidate := h.holdsJournal
  have hread : evalReads d.files (readJournalRecord : Task V _).run = some (.ok (some current)) := by
    rw [evalReads_readJournalRecord, hjournal.written]
  apply Moves.of_reads h hread
  show Moves P S supply d base _ (if current.operationId ≠ record.operationId then _ else _) _
  by_cases hop : current.operationId = record.operationId
  swap
  · rw [if_pos hop]
    exact moves_throw h
  rw [if_neg (not_not.mpr hop)]
  have hfile : record.candidateFile = current.candidateFile := by
    rw [hrecord.named, (h.candidateDrawn current candidate rfl).2, hop]
  have hsha := hrecord.candidate current candidate rfl hop
  refine ⟨base, some (record, candidate), ?_, disk_atomicWrite h.between_old ?_⟩
  · intro record' candidate' heq
    cases heq
    exact .inr ⟨current, candidate, rfl, hop, hsha⟩
  have hwritten : JournalIn P S (d.write .journal (some record)).files record candidate :=
    { written := Disk.write_self
      schema := hrecord.schema
      profileId := hrecord.profileId
      source := hrecord.source
      target := hrecord.target
      named := ⟨_, hrecord.named⟩
      held := by
        rw [Disk.write_of_ne (by simp), hfile]
        exact hjournal.held
      digest := hsha.symm.trans hjournal.digest }
  refine ⟨h.switch_journal hrecord.issued hwritten hrecord.named, ?_⟩
  intro other heq
  cases heq
  exact ⟨candidate, rfl⟩

theorem mark_moves {record : JournalRecord} (h : Holds P S d base journal)
    (hrecord : Tracked S d journal record) (hpresent : journal.isSome = true) :
    Moves P S supply d base journal (do writeJournal record; pure record : Task V JournalRecord)
      some :=
  (writeJournal_moves h hrecord hpresent).map fun _ => rfl

theorem Tracked.move {record : JournalRecord} (h : Tracked S d journal record)
    (phase : JournalPhase) (committed : Option RemoteRevision) :
    Tracked S d journal { record with phase := phase, committedRemoteRevision := committed } :=
  ⟨h.schema, h.profileId, h.source, h.target, h.issued, h.named, h.candidate⟩

theorem removeJournal_moves {record : JournalRecord} (h : Holds P S d base journal)
    (hrecord : Tracked S d journal record) :
    Moves P S supply d base journal (removeJournal P S record) fun _ => none := by
  apply Moves.of_reads h h.holdsJournal.load
  cases journal with
  | none => exact moves_throw h
  | some recorded =>
    obtain ⟨current, candidate⟩ := recorded
    show Moves P S supply d base _ (if current.operationId ≠ record.operationId then _ else _) _
    by_cases hop : current.operationId = record.operationId
    swap
    · rw [if_pos hop]
      exact moves_throw h
    rw [if_neg (not_not.mpr hop)]
    refine ⟨base, none, .none, Ensures.bind (disk_removeIfFile h.between_old ?_)⟩
    have h₁ : Holds P S (d.write .journal none) base none :=
      ⟨h.holdsBase.write nofun (fun _ _ _ hname => nomatch hname), Disk.write_self, h.baseDrawn,
        nofun⟩
    refine Ensures.bind (disk_removeIfFile h₁.between_new ?_)
    have h₂ : Holds P S ((d.write .journal none).write (.ciphertext record.candidateFile) none)
        base none := by
      apply h₁.write none _ nofun
      intro metadata ciphertext heq hname
      obtain ⟨id, _, hid⟩ := h.baseDrawn metadata ciphertext heq
      rw [hrecord.named, hid] at hname
      cases hname
    exact disk_syncDirectory h₂.between_new ⟨h₂, nofun⟩

theorem removeAll_keeps {Good : Disk → Prop} (hgood : ∀ t, Holds P S t none none → Good t)
    (names : List CiphertextFile) (h : Holds P S d none none) :
    Ensures (diskMachine supply Good) (removeAll names : Task V Unit)
      (fun t _ => Holds P S t none none) (fun _ _ => False) d := by
  induction names generalizing d with
  | nil => exact h
  | cons name rest ih =>
    refine Ensures.bind (disk_removeIfFile (hgood d h) ?_)
    exact ih (h.write none nofun nofun)

/-- What `reset_state` does with the listing it gets. -/
theorem ensures_resetState {Good : Disk → Prop} {F : Disk → Unit → Prop}
    {X : Disk → SyncError → Prop} (hgood : Good d)
    (hrest : Ensures (diskMachine supply Good) (match ciphertextFiles supply.listing with
      | none => throw (.store .invalidMetadata)
      | some names => do
        removeIfFile .journal
        removeIfFile .base
        removeAll names
        syncDirectory : Task V Unit) F X d) :
    Ensures (diskMachine supply Good) (resetState : Task V Unit) F X d := by
  refine ⟨hgood, fun answer t hstep => ?_⟩
  cases hstep
  exact hrest

theorem resetState_moves (h : Holds P S d base journal) :
    Moves P S supply d base journal (resetState : Task V Unit) fun _ => none := by
  cases hfiles : ciphertextFiles supply.listing with
  | none =>
    refine ⟨base, journal, .refl, ensures_resetState h.between_old ?_⟩
    rw [hfiles]
    exact h
  | some names =>
    refine ⟨none, none, .none, ensures_resetState h.between_old ?_⟩
    rw [hfiles]
    refine Ensures.bind (disk_removeIfFile h.between_old ?_)
    have h₁ : Holds P S (d.write .journal none) base none :=
      ⟨h.holdsBase.write nofun (fun _ _ _ hname => nomatch hname), Disk.write_self, h.baseDrawn,
        nofun⟩
    refine Ensures.bind (disk_removeIfFile ⟨base, none, .inl rfl, .inr rfl, h₁⟩ ?_)
    have h₂ : Holds P S ((d.write .journal none).write .base none) none none :=
      ⟨Disk.write_self, h₁.holdsJournal.write nofun nofun, nofun, nofun⟩
    refine Ensures.bind ((removeAll_keeps (fun t ht => ht.between_new) names h₂).weaken ?_ nofun)
    intro t _ ht
    exact disk_syncDirectory ht.between_new ⟨ht, nofun⟩

end Moves

end NianPass.Sync
