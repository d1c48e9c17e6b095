import NianPass.Sync.Crash

/-
  `reset_state` is the way out of a state that does not load. It refuses a
  directory with a file it does not know. It knows every ciphertext the store
  writes, but not the temporary file of an interrupted atomic write.
-/
namespace NianPass.Sync

open Kdbx (Bytes)
open Program (Ensures)

variable {V : Type}

/-! ## Reading -/

section Reading
variable {P : Platform V} {S : SyncStore} {α β : Type}

/-- A program with no effects but reads. -/
def OnlyReads (p : Task V α) : Prop := ∀ files, (evalReads files p.run).isSome = true

theorem OnlyReads.bind {p : Task V α} {f : α → Task V β} (hp : OnlyReads p)
    (hf : ∀ a, OnlyReads (f a)) : OnlyReads (p >>= f) := by
  intro files
  obtain ⟨result, hresult⟩ := Option.isSome_iff_exists.mp (hp files)
  rw [evalReads_bind, hresult]
  cases result with
  | ok a => exact hf a files
  | error error => rfl

theorem onlyReads_pure {a : α} : OnlyReads (pure a : Task V α) := fun _ => rfl

theorem onlyReads_throw {error : SyncError} : OnlyReads (throw error : Task V α) := fun _ => rfl

theorem onlyReads_ite {c : Prop} [Decidable c] {p q : Task V α} (hp : OnlyReads p)
    (hq : OnlyReads q) : OnlyReads (if c then p else q) := by
  split
  · exact hp
  · exact hq

theorem readBaseMetadata_onlyReads : OnlyReads (readBaseMetadata : Task V _) := fun _ => rfl

theorem readJournalRecord_onlyReads : OnlyReads (readJournalRecord : Task V _) := fun _ => rfl

theorem readPrivateFile_onlyReads {name : CiphertextFile} :
    OnlyReads (readPrivateFile name : Task V Bytes) := by
  refine OnlyReads.bind (p := readCiphertext name) (fun _ => rfl) fun content => ?_
  cases content with
  | none => exact onlyReads_throw
  | some bytes => exact onlyReads_pure

theorem validateIdentity_onlyReads {id : Uuid} {source : SourceBinding} {target : TargetBinding} :
    OnlyReads (validateIdentity S id source target : Task V Unit) :=
  onlyReads_ite onlyReads_throw <| onlyReads_ite onlyReads_throw <|
    onlyReads_ite onlyReads_throw onlyReads_pure

theorem baseSchema_onlyReads : OnlyReads (baseSchema : Task V _) := by
  refine readBaseMetadata_onlyReads.bind fun content => ?_
  cases content with
  | none => exact onlyReads_pure
  | some metadata => exact onlyReads_pure

theorem journalSchema_onlyReads : OnlyReads (journalSchema : Task V _) := by
  refine readJournalRecord_onlyReads.bind fun content => ?_
  cases content with
  | none => exact onlyReads_pure
  | some record => exact onlyReads_pure

theorem loadBase_onlyReads : OnlyReads (loadBase P S) := by
  refine baseSchema_onlyReads.bind fun schema => ?_
  cases schema with
  | missing => exact onlyReads_pure
  | unsupported => exact onlyReads_throw
  | current =>
    refine readBaseMetadata_onlyReads.bind fun content => ?_
    cases content with
    | none => exact onlyReads_pure
    | some metadata =>
      refine validateIdentity_onlyReads.bind fun _ => OnlyReads.bind ?_ fun _ => ?_
      · cases metadata.ciphertextFile with
        | base id => exact onlyReads_pure
        | candidate id => exact onlyReads_throw
      · exact readPrivateFile_onlyReads.bind fun _ => onlyReads_ite onlyReads_throw onlyReads_pure

theorem loadJournal_onlyReads : OnlyReads (loadJournal P S) := by
  refine journalSchema_onlyReads.bind fun schema => ?_
  cases schema with
  | missing => exact onlyReads_pure
  | unsupported => exact onlyReads_throw
  | current =>
    refine readJournalRecord_onlyReads.bind fun content => ?_
    cases content with
    | none => exact onlyReads_pure
    | some record =>
      refine validateIdentity_onlyReads.bind fun _ => OnlyReads.bind ?_ fun _ => ?_
      · cases record.candidateFile with
        | candidate id => exact onlyReads_pure
        | base id => exact onlyReads_throw
      · exact readPrivateFile_onlyReads.bind fun _ => onlyReads_ite onlyReads_throw onlyReads_pure

theorem recoveryStatus_onlyReads : OnlyReads (recoveryStatus P S) := by
  refine journalSchema_onlyReads.bind fun journal => baseSchema_onlyReads.bind fun base => ?_
  refine onlyReads_ite onlyReads_pure (OnlyReads.bind ?_ fun _ => OnlyReads.bind ?_ fun _ => ?_)
  · exact onlyReads_ite loadJournal_onlyReads onlyReads_pure
  · exact onlyReads_ite loadBase_onlyReads onlyReads_pure
  · exact onlyReads_pure

end Reading

/-- Every ciphertext on the disk has a name that `reset_state` knows. -/
def Disk.Named (d : Disk) : Prop :=
  ∀ name, (d.files (.ciphertext name)).isSome = true →
    isPrivateStateCiphertextFilename name = true

section Named
variable {P : Platform V} {S : SyncStore} {supply : Supply} {d d' : Disk} {α : Type}

theorem Disk.Named.write (h : d.Named) {file : File} {content : Option file.Content}
    (hname : ∀ name, file = .ciphertext name → content.isSome = true →
      isPrivateStateCiphertextFilename name = true) : (d.write file content).Named := by
  intro name hsome
  by_cases heq : File.ciphertext name = file
  · subst heq
    rw [Disk.write_self] at hsome
    exact hname name rfl hsome
  · rw [Disk.write_of_ne heq] at hsome
    exact h name hsome

theorem Disk.Named.remove (h : d.Named) (file : File) : (d.write file none).Named :=
  h.write fun _ _ hsome => nomatch hsome

/-- The names a store program gives to ciphertexts are made of version 4 UUIDs. -/
def KeepsNames (supply : Supply) (p : Task V α) : Prop :=
  ∀ d : Disk, d.Named →
    Ensures (diskMachine supply Disk.Named) p (fun t _ => t.Named) (fun t _ => t.Named) d

theorem OnlyReads.keepsNames {p : Task V α} (hp : OnlyReads p) : KeepsNames supply p := by
  intro d h
  obtain ⟨result, hresult⟩ := Option.isSome_iff_exists.mp (hp d.files)
  refine (disk_reads h hresult).weaken (fun t _ ht => ?_) fun t _ ht => ?_
  · rw [ht.1]
    exact h
  · rw [ht.1]
    exact h

theorem KeepsNames.safe {p : Task V α} (hp : KeepsNames supply p) (h : d.Named) :
    Program.Safe (diskMachine supply Disk.Named) (fun t _ => t.Named) p.run d := by
  refine Program.Safe.weaken (hp d h) fun t result ht => ?_
  cases result with
  | ok a => exact ht
  | error error => exact ht

theorem KeepsNames.bind {β : Type} {p : Task V α} {f : α → Task V β} (hp : KeepsNames supply p)
    (hf : ∀ a, KeepsNames supply (f a)) : KeepsNames supply (p >>= f) :=
  fun d h => Ensures.bind ((hp d h).weaken (fun t a ht => hf a t ht) fun _ _ ht => ht)

theorem keepsNames_ite {c : Prop} [Decidable c] {p q : Task V α} (hp : KeepsNames supply p)
    (hq : KeepsNames supply q) : KeepsNames supply (if c then p else q) := by
  split
  · exact hp
  · exact hq

theorem keepsNames_pure {a : α} : KeepsNames supply (pure a : Task V α) := fun _ h => h

theorem keepsNames_throw {error : SyncError} : KeepsNames supply (throw error : Task V α) :=
  fun _ h => h

theorem keepsNames_removeIfFile {file : File} :
    KeepsNames supply (removeIfFile file : Task V Unit) :=
  fun _ h => disk_removeIfFile h (h.remove file)

theorem keepsNames_syncDirectory : KeepsNames supply (syncDirectory : Task V Unit) :=
  fun _ h => disk_syncDirectory h h

theorem keepsNames_atomicWrite {file : File} {content : file.Content}
    (hname : ∀ name, file = .ciphertext name → isPrivateStateCiphertextFilename name = true) :
    KeepsNames supply (atomicWrite file content : Task V Unit) :=
  fun _ h => disk_atomicWrite h (h.write fun name heq _ => hname name heq)

/-- The UUID drawn is the one supplied. -/
theorem keepsNames_newUuid {f : Uuid → Task V α} (hf : KeepsNames supply (f supply.id)) :
    KeepsNames supply (ask .newUuid >>= f) := by
  intro d h
  have hdrawn : ({ d with issued := supply.id :: d.issued } : Disk).Named := h
  exact Ensures.bind (disk_newUuid h (hf _ hdrawn))

theorem writeBase_keepsNames (hv4 : isV4 supply.id = true) {ciphertext : Bytes}
    {revision : RemoteRevision} : KeepsNames supply (writeBase P S ciphertext revision) := by
  have hmetadata : ∀ metadata, KeepsNames supply (atomicWrite .base metadata : Task V Unit) :=
    fun _ => keepsNames_atomicWrite nofun
  apply keepsNames_newUuid
  refine (keepsNames_atomicWrite fun name heq => ?_).bind fun _ =>
    readBaseMetadata_onlyReads.keepsNames.bind fun old => (hmetadata _).bind fun _ =>
      KeepsNames.bind ?_ fun _ => keepsNames_syncDirectory
  · obtain rfl := File.ciphertext.inj heq
    exact hv4
  · unfold removeOldBase
    split
    · exact keepsNames_ite keepsNames_removeIfFile keepsNames_pure
    · exact keepsNames_pure

theorem writeJournal_keepsNames {record : JournalRecord} :
    KeepsNames supply (writeJournal record : Task V Unit) := by
  refine readJournalRecord_onlyReads.keepsNames.bind fun content => ?_
  cases content with
  | none => exact keepsNames_atomicWrite nofun
  | some current => exact keepsNames_ite keepsNames_throw (keepsNames_atomicWrite nofun)

theorem prepareJournal_keepsNames (hv4 : isV4 supply.id = true) {loc : LocalSnapshot}
    {expected : Option RemoteRevision} {candidate : Bytes} :
    KeepsNames supply (prepareJournal P S loc expected candidate) := by
  refine recoveryStatus_onlyReads.keepsNames.bind fun status => keepsNames_ite keepsNames_throw <|
    keepsNames_ite keepsNames_throw <| keepsNames_newUuid ?_
  refine (keepsNames_atomicWrite fun name heq => ?_).bind fun _ =>
    writeJournal_keepsNames.bind fun _ => keepsNames_pure
  obtain rfl := File.ciphertext.inj heq
  exact hv4

theorem removeJournal_keepsNames {record : JournalRecord} :
    KeepsNames supply (removeJournal P S record) := by
  refine loadJournal_onlyReads.keepsNames.bind fun loaded => ?_
  cases loaded with
  | none => exact keepsNames_throw
  | some current =>
    exact keepsNames_ite keepsNames_throw <| keepsNames_removeIfFile.bind fun _ =>
      keepsNames_removeIfFile.bind fun _ => keepsNames_syncDirectory

theorem removeAll_keepsNames (names : List CiphertextFile) :
    KeepsNames supply (removeAll names : Task V Unit) := by
  induction names with
  | nil => exact keepsNames_pure
  | cons name rest ih => exact keepsNames_removeIfFile.bind fun _ => ih

theorem resetState_keepsNames : KeepsNames supply (resetState : Task V Unit) := by
  intro d h
  apply ensures_resetState h
  cases ciphertextFiles supply.listing with
  | none => exact h
  | some names =>
    exact (keepsNames_removeIfFile.bind fun _ => keepsNames_removeIfFile.bind fun _ =>
      (removeAll_keepsNames names).bind fun _ => keepsNames_syncDirectory) d h

theorem StoreCall.keepsNames (call : StoreCall) (hv4 : isV4 supply.id = true) :
    KeepsNames supply (call.task P S) := by
  cases call with
  | writeBase ciphertext revision => exact (writeBase_keepsNames hv4).bind fun _ => keepsNames_pure
  | prepareJournal loc expected candidate =>
    exact (prepareJournal_keepsNames hv4).bind fun _ => keepsNames_pure
  | markRemoteCommitted record revision =>
    exact (writeJournal_keepsNames.bind fun _ => keepsNames_pure).bind fun _ => keepsNames_pure
  | markLocalCommitted record =>
    exact (writeJournal_keepsNames.bind fun _ => keepsNames_pure).bind fun _ => keepsNames_pure
  | removeJournal record => exact removeJournal_keepsNames.bind fun _ => keepsNames_pure
  | resetState => exact resetState_keepsNames.bind fun _ => keepsNames_pure

theorem StoreRun.named {allowed : StoreCall → Disk → Prop} {known : List JournalRecord}
    (run : StoreRun P S allowed d known) : d.Named := by
  induction run with
  | empty => exact nofun
  | @call d known call supply run fits allows supplied ih =>
    have hp : KeepsNames supply (call.task P S) := call.keepsNames supplied.v4
    exact outcome_of_safe (hp.safe ih)
  | @crash d known call supply d' run fits allows supplied stops ih =>
    have hp : KeepsNames supply (call.task P S) := call.keepsNames supplied.v4
    exact stops.good (hp.safe ih) (fun _ _ h => h) fun _ _ h => h
  | load run hload ih => exact ih

/-- A listing without temporaries is classified. -/
theorem ciphertextFiles_some {listing : List DirectoryEntry}
    (hplain : ∀ sibling suffix, .temporary sibling suffix ∉ listing)
    (hnamed : ∀ name, .file (.ciphertext name) ∈ listing →
      isPrivateStateCiphertextFilename name = true) :
    ∃ names, ciphertextFiles listing = some names ∧
      ∀ name, .file (.ciphertext name) ∈ listing → name ∈ names := by
  induction listing with
  | nil => exact ⟨[], rfl, by simp⟩
  | cons entry rest ih =>
    obtain ⟨names, hnames, hmem⟩ := ih (fun sibling suffix h => hplain sibling suffix (.tail _ h))
      fun name h => hnamed name (.tail _ h)
    cases entry with
    | temporary sibling suffix => exact absurd (List.mem_cons_self) (hplain sibling suffix)
    | file file =>
      cases file with
      | base => exact ⟨names, hnames, fun name h => hmem name (by simpa using h)⟩
      | journal => exact ⟨names, hnames, fun name h => hmem name (by simpa using h)⟩
      | ciphertext own =>
        refine ⟨own :: names, ?_, fun name h => ?_⟩
        · simp [ciphertextFiles, hnamed own List.mem_cons_self, hnames]
        · rcases List.mem_cons.mp h with heq | h
          · obtain rfl : name = own := by simpa using heq
            exact List.mem_cons_self
          · exact List.mem_cons_of_mem _ (hmem name h)

theorem ciphertextFiles_temporary {listing : List DirectoryEntry} {sibling : File}
    {suffix : String} (h : .temporary sibling suffix ∈ listing) :
    ciphertextFiles listing = none := by
  induction listing with
  | nil => cases h
  | cons entry rest ih =>
    cases entry with
    | temporary _ _ => rfl
    | file file =>
      have hrest := ih (by simpa using h)
      cases file with
      | base => exact hrest
      | journal => exact hrest
      | ciphertext name => simp [ciphertextFiles, hrest]

/-- Nothing of the store is left. -/
def Disk.Cleared (P : Platform V) (S : SyncStore) (d : Disk) : Prop :=
  evalReads d.files (loadBase P S).run = some (.ok none) ∧
  evalReads d.files (loadJournal P S).run = some (.ok none) ∧
  ∀ name, d.files (.ciphertext name) = none

/-- Removing ciphertexts one by one: what is not on the list was not there. -/
theorem removeAll_clears {Good : Disk → Prop} (hgood : ∀ t, Good t) (names : List CiphertextFile)
    (hbase : d.files .base = none) (hjournal : d.files .journal = none)
    (hlisted : ∀ name, d.files (.ciphertext name) ≠ none → name ∈ names) :
    Ensures (diskMachine supply Good) (removeAll names : Task V Unit)
      (fun t _ => t.files .base = none ∧ t.files .journal = none ∧
        ∀ name, t.files (.ciphertext name) = none) (fun _ _ => False) d := by
  induction names generalizing d with
  | nil =>
    refine ⟨hbase, hjournal, fun name => ?_⟩
    by_contra hheld
    cases hlisted name hheld
  | cons own rest ih =>
    refine Ensures.bind (disk_removeIfFile (hgood d) (ih ?_ ?_ fun name hheld => ?_))
    · rw [Disk.write_of_ne (by simp)]
      exact hbase
    · rw [Disk.write_of_ne (by simp)]
      exact hjournal
    · by_cases heq : name = own
      · subst heq
        exact absurd Disk.write_self hheld
      · rw [Disk.write_of_ne (by simpa using heq)] at hheld
        exact List.mem_of_ne_of_mem heq (hlisted name hheld)

theorem resetState_clears (hnamed : d.Named) (hlists : d.Lists supply.listing)
    (hplain : d.temporaries = []) :
    Ensures (diskMachine supply fun _ => True) (resetState : Task V Unit)
      (fun t _ => t.Cleared P S) (fun _ _ => False) d := by
  obtain ⟨names, hnames, hmem⟩ := ciphertextFiles_some
    (fun sibling suffix h => by simpa [hplain] using (hlists.2 sibling suffix).mp h)
    fun name h => hnamed name ((hlists.1 _).mp h)
  apply ensures_resetState trivial
  rw [hnames]
  refine Ensures.bind (disk_removeIfFile trivial ?_)
  refine Ensures.bind (disk_removeIfFile trivial ?_)
  -- Both metadata files are gone; the ciphertexts on the disk are those listed.
  have hlisted : ∀ name,
      ((d.write .journal none).write .base none).files (.ciphertext name) ≠ none → name ∈ names := by
    intro name hheld
    rw [Disk.write_of_ne (by simp), Disk.write_of_ne (by simp)] at hheld
    exact hmem name ((hlists.1 _).mpr (Option.isSome_iff_ne_none.mpr hheld))
  refine Ensures.bind ((removeAll_clears (fun _ => trivial) names Disk.write_self
    ((Disk.write_of_ne (by simp)).trans Disk.write_self) hlisted).weaken (fun t _ ht => ?_) nofun)
  exact disk_syncDirectory trivial ⟨loadBase_none ht.1, loadJournal_none ht.2.1, ht.2.2⟩

theorem resetState_refuses (h : ciphertextFiles supply.listing = none) :
    Ensures (diskMachine supply fun _ => True) (resetState : Task V Unit) (fun _ _ => False)
      (fun t error => t = d ∧ error = .store .invalidMetadata) d := by
  apply ensures_resetState trivial
  rw [h]
  exact ⟨rfl, rfl⟩

/-- `reset_state` clears the directory of a reachable disk exactly when no interrupted write has
left its temporary file there. -/
theorem resetState_clears_iff {known : List JournalRecord}
    (run : StoreRun P S (fun _ _ => True) d known) (supplied : Supplied supply d) :
    ((outcome supply (resetState : Task V Unit).run d).1 = .ok () ∧
      (outcome supply (resetState : Task V Unit).run d).2.Cleared P S) ↔ d.temporaries = [] := by
  constructor
  · intro h
    by_contra hleft
    obtain ⟨⟨sibling, suffix⟩, hmem⟩ := List.exists_mem_of_ne_nil _ hleft
    have hnone := ciphertextFiles_temporary ((supplied.lists.2 sibling suffix).mpr hmem)
    have hout := outcome_of_safe (resetState_refuses (V := V) (d := d) hnone)
    rw [h.1] at hout
    exact hout
  · intro hplain
    have hout := outcome_of_safe (resetState_clears (P := P) (S := S) run.named supplied.lists hplain)
    cases hresult : (outcome supply (resetState : Task V Unit).run d).1 with
    | ok done =>
      rw [hresult] at hout
      exact ⟨rfl, hout⟩
    | error error =>
      rw [hresult] at hout
      exact hout.elim

/-- With a journal and its candidate on the disk. -/
theorem resetState_clears_iff_prepared :
    (outcome resetSupply (resetState : Task Unit Unit).run preparedDisk).1 = .ok () ∧
      (outcome resetSupply (resetState : Task Unit Unit).run preparedDisk).2.Cleared
        samplePlatform sampleStore :=
  (resetState_clears_iff preparedDisk_run resetSupply_supplied).mpr rfl

/-- The first write of a BASE dies in its atomic write: from then on `reset_state` refuses. -/
theorem resetState_refuses_torn :
    ¬ ∀ (d : Disk) (known : List JournalRecord) (supply : Supply),
      StoreRun samplePlatform sampleStore (fun _ _ => True) d known → Supplied supply d →
      (outcome supply (resetState : Task Unit Unit).run d).1 = .ok () ∧
        (outcome supply (resetState : Task Unit Unit).run d).2.Cleared samplePlatform
          sampleStore := by
  intro hclaim
  let left : File × String := (.ciphertext (.base sampleSupply.id), "1")
  have fits : StoreCall.fits [] (.writeBase [1] ⟨"r1"⟩) := trivial
  have run : StoreRun samplePlatform sampleStore (fun _ _ => True)
      ⟨fun _ => none, [left], [sampleSupply.id]⟩ [] :=
    .crash .empty fits trivial sampleSupply_supplied (.later (.torn "1"))
  have supplied : Supplied ⟨0x40000000000000000002, [.temporary left.1 left.2]⟩
      ⟨fun _ => none, [left], [sampleSupply.id]⟩ :=
    ⟨by decide, by decide, by simp, by simp [left]⟩
  cases (hclaim _ _ _ run supplied).1

end Named

end NianPass.Sync
