import NianPass.Sync.Decisions
import NianPass.Sync.Disk

/-
  What a conflict token allows.

  `Bound` says which requests a call may make of the conflict authority, and
  which evidence must be in the transcript of a `resolve` when it acts on
  LOCAL, REMOTE or BASE: it took the token, and after that found BASE, LOCAL
  and REMOTE as they were when the token was issued. `Call.bound` shows it on
  every path of every call.

  A `resolve` whose write got an uncertain answer goes through recovery, and
  recovery acts on the journal it finds. The part of `Bound` about what is
  overwritten therefore stands under `OwnJournal`: the journal found is the one
  this call prepared.
-/
namespace NianPass.Sync

open Kdbx (Bytes KdbxDocument)
open Program (Along Confined confined_pure confined_throw confined_ite along_pure along_throw
  along_ite transcripts)

variable {V : Type} [DecidableEq V]

/-- The generation the user chose. -/
def PendingConflict.chosen (pending : PendingConflict) : ConflictChoice → Bytes
  | .keepLocal => pending.loc.ciphertext
  | .keepRemote => pending.remoteBytes

/-- The token was taken, and BASE, LOCAL and REMOTE were found unchanged after that. -/
def Authorised (P : Platform V) (h : Record V) (id : Uuid) (pending : PendingConflict) : Prop :=
  ∃ earlier later object,
    h = later ++ (⟨.takeConflict id, .ok pending⟩ : Σ e, Answer e) :: earlier ∧
    Revalidated P later pending object

omit [DecidableEq V] in
/-- After an uncertain answer the call finds no journal but the one it prepared. -/
def OwnJournal (h : Record V) : Prop :=
  ∀ (newer older : Record V) (request : RemoteWrite) (prepared record : JournalRecord)
    (answer : Except StoreError Unit),
    h = newer ++ (⟨.write request, .error .writeResultUncertain⟩ : Σ e, Answer e) :: older →
    (⟨.writeFile .journal prepared, answer⟩ : Σ e, Answer e) ∈ older →
    (⟨.readFile .journal, .ok (some record)⟩ : Σ e, Answer e) ∈ newer →
    record.sameTransaction prepared

/-- What a call may do under the conflict authority. -/
def Bound (P : Platform V) (call : Call) (h : Record V) : Effect V → Prop
  | .invalidateConflict => ∃ credential, call = .sync credential
  | .installConflict conflict =>
    (∃ credential, call = .sync credential) ∧
      ∃ rest, h = (⟨.newUuid, conflict.operation.conflictOperationId⟩ : Σ e, Answer e) :: rest
  | .takeConflict id =>
    ∃ choice credential, call = .resolve id choice credential ∧ credential.hasComponent = true ∧
      ∃ snapshot document, Captured h snapshot ∧
        openDocument P snapshot.ciphertext credential = .ok document
  | .write request =>
    ∀ id choice credential, call = .resolve id choice credential →
      ∃ pending, Authorised P h id pending ∧ choice = .keepLocal ∧
        request = .replaceIfRevision pending.remoteRevision pending.loc.ciphertext
  | .replaceIfUnchanged expected ciphertext =>
    ∀ id choice credential, call = .resolve id choice credential →
      ∃ pending, Authorised P h id pending ∧
        (OwnJournal h → choice = .keepRemote ∧ expected = pending.loc ∧
          ciphertext = pending.remoteBytes)
  | .writeFile .base metadata =>
    ∀ id choice credential, call = .resolve id choice credential →
      ∃ pending, Authorised P h id pending ∧
        (OwnJournal h →
          BaseMetadata.ciphertextSha256 metadata = P.digestOf (pending.chosen choice))
  | _ => True

/-! ## Requests that need no mandate -/

omit [DecidableEq V] in
def Plain : Effect V → Prop
  | .invalidateConflict | .installConflict _ | .takeConflict _ | .write _
  | .replaceIfUnchanged _ _ | .writeFile .base _ => False
  | _ => True

omit [DecidableEq V] in
theorem Plain.bound {P : Platform V} {call : Call} {h : Record V} {effect : Effect V}
    (hplain : Plain effect) : Bound P call h effect := by
  cases effect with
  | writeFile file content =>
    cases file with
    | base => exact hplain.elim
    | journal => exact trivial
    | ciphertext name => exact trivial
  | invalidateConflict => exact hplain.elim
  | installConflict conflict => exact hplain.elim
  | takeConflict id => exact hplain.elim
  | write request => exact hplain.elim
  | replaceIfUnchanged expected ciphertext => exact hplain.elim
  | _ => exact trivial

section Plain
variable {P : Platform V} {S : SyncStore} {α : Type}

omit [DecidableEq V]

theorem plain_ask {effect : Effect V} (h : Plain effect) :
    Confined Plain (ask effect : Task V (Answer effect)) :=
  Program.confined_request h

theorem plain_orThrow {ε : Type} {convert : ε → SyncError} {result : Except ε α} :
    Confined Plain (orThrow convert result : Task V α) := by
  cases result with
  | ok a => exact confined_pure
  | error error => exact confined_throw

theorem plain_readFile {file : File} : Confined Plain (readFile file : Task V _) :=
  Confined.bind (plain_ask (by trivial)) fun _ => plain_orThrow

theorem plain_writeJournalFile {record : JournalRecord} :
    Confined Plain (atomicWrite .journal record : Task V Unit) :=
  Confined.bind (plain_ask (by trivial)) fun _ => plain_orThrow

theorem plain_removeIfFile {file : File} : Confined Plain (removeIfFile file : Task V Unit) :=
  Confined.bind (plain_ask (by trivial)) fun _ => plain_orThrow

theorem plain_syncDirectory : Confined Plain (syncDirectory : Task V Unit) :=
  Confined.bind (plain_ask (by trivial)) fun _ => plain_orThrow

theorem plain_captureClean : Confined Plain (captureClean : Task V _) :=
  Confined.bind (plain_ask (by trivial)) fun _ => plain_orThrow

theorem plain_readRemote : Confined Plain (readRemote : Task V _) :=
  Confined.bind (plain_ask (by trivial)) fun _ => plain_orThrow

theorem plain_openVault {bytes : Bytes} {credential : SyncCredential} :
    Confined Plain (openVault P bytes credential) :=
  plain_orThrow

theorem plain_readPrivateFile {name : CiphertextFile} :
    Confined Plain (readPrivateFile name : Task V Bytes) := by
  refine plain_readFile.bind fun content => ?_
  cases content with
  | none => exact confined_throw
  | some bytes => exact confined_pure

theorem plain_baseSchema : Confined Plain (baseSchema : Task V _) := by
  refine plain_readFile.bind fun content => ?_
  cases content with
  | none => exact confined_pure
  | some metadata => exact confined_pure

theorem plain_journalSchema : Confined Plain (journalSchema : Task V _) := by
  refine plain_readFile.bind fun content => ?_
  cases content with
  | none => exact confined_pure
  | some record => exact confined_pure

theorem plain_validateIdentity {id : Uuid} {source : SourceBinding} {target : TargetBinding} :
    Confined Plain (validateIdentity S id source target : Task V Unit) :=
  confined_ite confined_throw <| confined_ite confined_throw <|
    confined_ite confined_throw confined_pure

theorem plain_loadBase : Confined Plain (loadBase P S) := by
  refine plain_baseSchema.bind fun schema => ?_
  cases schema with
  | missing => exact confined_pure
  | unsupported => exact confined_throw
  | current =>
    refine plain_readFile.bind fun content => ?_
    cases content with
    | none => exact confined_pure
    | some metadata =>
      refine plain_validateIdentity.bind fun _ => Confined.bind ?_ fun _ => ?_
      · cases BaseMetadata.ciphertextFile metadata with
        | base id => exact confined_pure
        | candidate id => exact confined_throw
      · exact plain_readPrivateFile.bind fun _ => confined_ite confined_throw confined_pure

theorem plain_loadJournal : Confined Plain (loadJournal P S) := by
  refine plain_journalSchema.bind fun schema => ?_
  cases schema with
  | missing => exact confined_pure
  | unsupported => exact confined_throw
  | current =>
    refine plain_readFile.bind fun content => ?_
    cases content with
    | none => exact confined_pure
    | some record =>
      refine plain_validateIdentity.bind fun _ => Confined.bind ?_ fun _ => ?_
      · cases JournalRecord.candidateFile record with
        | candidate id => exact confined_pure
        | base id => exact confined_throw
      · exact plain_readPrivateFile.bind fun _ => confined_ite confined_throw confined_pure

theorem plain_recoveryStatus : Confined Plain (recoveryStatus P S) := by
  refine plain_journalSchema.bind fun journal => plain_baseSchema.bind fun base => ?_
  refine confined_ite confined_pure (Confined.bind ?_ fun _ => Confined.bind ?_ fun _ => ?_)
  · exact confined_ite plain_loadJournal confined_pure
  · exact confined_ite plain_loadBase confined_pure
  · exact confined_pure

theorem plain_writeJournal {record : JournalRecord} :
    Confined Plain (writeJournal record : Task V Unit) := by
  refine plain_readFile.bind fun content => ?_
  cases content with
  | none => exact plain_writeJournalFile
  | some current => exact confined_ite confined_throw plain_writeJournalFile

theorem plain_markRemoteCommitted {record : JournalRecord} {revision : RemoteRevision} :
    Confined Plain (markRemoteCommitted record revision : Task V _) :=
  plain_writeJournal.bind fun _ => confined_pure

theorem plain_markLocalCommitted {record : JournalRecord} :
    Confined Plain (markLocalCommitted record : Task V _) :=
  plain_writeJournal.bind fun _ => confined_pure

theorem plain_removeJournal {record : JournalRecord} :
    Confined Plain (removeJournal P S record) := by
  refine plain_loadJournal.bind fun loaded => ?_
  cases loaded with
  | none => exact confined_throw
  | some current =>
    exact confined_ite confined_throw <| plain_removeIfFile.bind fun _ =>
      plain_removeIfFile.bind fun _ => plain_syncDirectory

theorem plain_removeOldBase {old : Option BaseMetadata} {current : CiphertextFile} :
    Confined Plain (removeOldBase old current : Task V Unit) := by
  unfold removeOldBase
  split
  · exact confined_ite plain_removeIfFile confined_pure
  · exact confined_pure

theorem plain_requireLocalUnchanged {expected : LocalSnapshot} :
    Confined Plain (requireLocalUnchanged P expected) :=
  plain_captureClean.bind fun _ => confined_ite confined_pure confined_throw

theorem plain_requireBaseUnchanged {digest : Option CiphertextDigest} :
    Confined Plain (requireBaseUnchanged P S digest) := by
  refine plain_loadBase.bind fun base => ?_
  cases digest with
  | none =>
    cases base with
    | none => exact confined_pure
    | some base => exact confined_throw
  | some expected =>
    cases base with
    | none => exact confined_throw
    | some base => exact confined_ite confined_pure confined_throw

end Plain

theorem plain_serializeVerified {P : Platform V} {document : KdbxDocument V}
    {credential : SyncCredential} : Confined Plain (serializeVerified P document credential) :=
  Confined.bind (plain_ask (by trivial)) fun _ => plain_orThrow.bind fun _ => plain_openVault.bind fun _ =>
    confined_ite confined_pure confined_throw

/-! ## Along the paths of a call -/

omit [DecidableEq V] in
theorem Authorised.mono {P : Platform V} {h h' : Record V} {id : Uuid} {pending : PendingConflict}
    (hsub : h <:+ h') (ha : Authorised P h id pending) : Authorised P h' id pending := by
  obtain ⟨earlier, later, object, rfl, hrevalidated⟩ := ha
  obtain ⟨since, rfl⟩ := hsub
  exact ⟨earlier, since ++ later, object, (List.append_assoc _ _ _).symm,
    hrevalidated.mono (List.subset_append_right _ _)⟩

/-- If the call resolves a conflict, the plan is the one its token allows. -/
def Mandated (P : Platform V) (call : Call) (h : Record V) (plan : CommitPlan)
    (candidate : Bytes) : Prop :=
  ∀ id choice credential, call = .resolve id choice credential →
    ∃ pending, Authorised P h id pending ∧ plan.localSnapshot = pending.loc ∧
      candidate = pending.chosen choice ∧
      ((choice = .keepLocal ∧ plan.remoteAction = .replace ∧
          plan.expectedRemote = some pending.remoteRevision) ∨
        (choice = .keepRemote ∧ ∃ bytes, plan.remoteAction = .alreadyCommitted bytes))

/-- What recovery does with a journal found since `h` is allowed. -/
def Recovers (P : Platform V) (call : Call) (h : Record V) : Prop :=
  ∀ newer loaded, FoundJournal P newer loaded → ∀ h', newer ++ h <:+ h' →
    (∀ current, P.digestOf current.ciphertext ≠ loaded.record.candidateSha256 →
      P.digestOf current.ciphertext = loaded.record.expectedLocalSha256 →
      Bound P call h' (.replaceIfUnchanged current loaded.candidate)) ∧
    ∀ metadata : BaseMetadata, metadata.ciphertextSha256 = P.digestOf loaded.candidate →
      Bound P call h' (.writeFile .base metadata)

section Along
variable {P : Platform V} {S : SyncStore} {call : Call} {h : Record V} {α : Type}

omit [DecidableEq V] in
theorem Mandated.mono {plan : CommitPlan} {candidate : Bytes} {h' : Record V} (hsub : h <:+ h')
    (hm : Mandated P call h plan candidate) : Mandated P call h' plan candidate := by
  intro id choice credential heq
  obtain ⟨pending, hauthorised, hplan⟩ := hm id choice credential heq
  exact ⟨pending, hauthorised.mono hsub, hplan⟩

omit [DecidableEq V] in
theorem Recovers.mono {h' : Record V} (hsub : h <:+ h') (hr : Recovers P call h) :
    Recovers P call h' := by
  obtain ⟨since, rfl⟩ := hsub
  intro newer loaded hfound h'' hsub
  refine hr (newer ++ since) loaded (hfound.mono (List.subset_append_left _ _)) h'' ?_
  rw [List.append_assoc]
  exact hsub

/-- A program that needs no mandate learns what it always learns. -/
theorem along_plain {p : Task V α} {F : Record V → α → Prop} (hp : Path P call p h F)
    (hplain : Confined Plain p) : Along (Bound P call) p h F :=
  Along.confine hp hplain fun _ _ heffect => heffect.bound

omit [DecidableEq V] in
theorem along_ask {effect : Effect V} (hguard : Bound P call h effect) :
    Along (Bound P call) (ask effect) h fun h' answer => h' = ⟨effect, answer⟩ :: h :=
  Program.along_request hguard

omit [DecidableEq V] in
theorem along_orThrow {ε : Type} {convert : ε → SyncError} {result : Except ε α} :
    Along (Bound P call) (orThrow convert result) h fun h' a => h' = h ∧ result = .ok a := by
  cases result with
  | ok a => exact along_pure ⟨rfl, rfl⟩
  | error error => exact along_throw

omit [DecidableEq V] in
theorem along_atomicWrite {file : File} {content : file.Content}
    (hguard : Bound P call h (.writeFile file content)) :
    Along (Bound P call) (atomicWrite file content) h fun h' _ =>
      (⟨.writeFile file content, .ok ()⟩ : Σ e, Answer e) ∈ h' := by
  refine Along.bind (along_ask hguard) fun h₁ answer _ hanswer => ?_
  refine along_orThrow.weaken fun h₂ _ _ heq => ?_
  rw [heq.1, hanswer, heq.2]
  exact List.mem_cons_self

omit [DecidableEq V] in
theorem along_replaceIfUnchanged {expected : LocalSnapshot} {ciphertext : Bytes}
    (hguard : Bound P call h (.replaceIfUnchanged expected ciphertext)) :
    Along (Bound P call) (replaceIfUnchanged expected ciphertext) h fun _ _ => True :=
  Along.bind (along_ask hguard) fun _ _ _ _ => along_orThrow.weaken fun _ _ _ _ => trivial

theorem along_writeBase {ciphertext : Bytes} {revision : RemoteRevision}
    (hbase : ∀ h', h <:+ h' → ∀ metadata : BaseMetadata,
      metadata.ciphertextSha256 = P.digestOf ciphertext →
      Bound P call h' (.writeFile .base metadata)) :
    Along (Bound P call) (writeBase P S ciphertext revision) h fun _ _ => True := by
  refine Along.bind (along_ask trivial) fun h₁ id hsub₁ _ => ?_
  refine Along.bind (along_atomicWrite trivial) fun h₂ _ hsub₂ _ => ?_
  refine Along.bind (along_plain path_readFile plain_readFile) fun h₃ old hsub₃ _ => ?_
  refine Along.bind (along_atomicWrite ?_) fun h₄ _ hsub₄ _ => ?_
  · exact hbase h₃ (hsub₁.trans (hsub₂.trans hsub₃)) _ rfl
  · refine Along.bind (along_plain path_removeOldBase plain_removeOldBase) fun _ _ _ _ => ?_
    exact along_plain path_syncDirectory plain_syncDirectory

/-- The record is on the disk, and says what is to be committed over which generation. -/
theorem along_prepareJournal {snapshot : LocalSnapshot} {expected : Option RemoteRevision}
    {candidate : Bytes} :
    Along (Bound P call) (prepareJournal P S snapshot expected candidate) h fun h' record =>
      (⟨.writeFile .journal record, .ok ()⟩ : Σ e, Answer e) ∈ h' ∧
      record.expectedLocalSha256 = P.digestOf snapshot.ciphertext ∧
      record.candidateSha256 = P.digestOf candidate := by
  refine Along.bind (along_plain path_recoveryStatus plain_recoveryStatus) fun _ _ _ _ => ?_
  refine along_ite (fun _ => along_throw) fun _ => ?_
  refine along_ite (fun _ => along_throw) fun _ => ?_
  refine Along.bind (along_ask trivial) fun _ _ _ _ => ?_
  refine Along.bind (along_atomicWrite trivial) fun _ _ _ _ => ?_
  refine Along.bind (F := fun h' _ => (⟨.writeFile .journal _, .ok ()⟩ : Σ e, Answer e) ∈ h') ?_
    fun _ _ _ hwritten => along_pure ⟨hwritten, rfl, rfl⟩
  refine Along.bind (along_plain path_readFile plain_readFile) fun _ content _ _ => ?_
  cases content with
  | none => exact along_atomicWrite trivial
  | some current => exact along_ite (fun _ => along_throw) fun _ => along_atomicWrite trivial

theorem along_recoverBase {record : JournalRecord} {candidate : Bytes} {remoteMatches : Bool}
    {revision : Option RemoteRevision}
    (hbase : ∀ h', h <:+ h' → ∀ metadata : BaseMetadata,
      metadata.ciphertextSha256 = P.digestOf candidate →
      Bound P call h' (.writeFile .base metadata)) :
    Along (Bound P call) (recoverBase P S record candidate remoteMatches revision) h
      fun _ _ => True := by
  refine Along.bind (along_plain path_captureClean plain_captureClean) fun h₁ _ hsub₁ _ => ?_
  refine along_ite (fun _ => along_throw) fun _ => ?_
  split
  · exact along_throw
  · refine Along.bind (along_writeBase fun h' hsub => hbase h' (hsub₁.trans hsub)) fun _ _ _ _ => ?_
    exact Along.bind (along_plain path_removeJournal plain_removeJournal)
      fun _ _ _ _ => along_pure trivial

theorem along_recoverLocal {current : LocalSnapshot} {record : JournalRecord} {candidate : Bytes}
    {remoteMatches : Bool} {revision : Option RemoteRevision}
    (hlocal : P.digestOf current.ciphertext ≠ record.candidateSha256 →
      P.digestOf current.ciphertext = record.expectedLocalSha256 →
      Bound P call h (.replaceIfUnchanged current candidate))
    (hbase : ∀ h', h <:+ h' → ∀ metadata : BaseMetadata,
      metadata.ciphertextSha256 = P.digestOf candidate →
      Bound P call h' (.writeFile .base metadata)) :
    Along (Bound P call) (recoverLocal P S current record candidate remoteMatches revision) h
      fun _ _ => True := by
  refine along_ite (fun _ => along_throw) fun _ => ?_
  have hcandidate : Along (Bound P call) (recoverCandidate P current record candidate) h
      fun _ _ => True := by
    refine along_ite (fun hdiffers => ?_) fun _ => along_pure trivial
    refine along_ite (fun _ => along_throw) fun hmatch => ?_
    simp only [localMatchesPersisted, decide_eq_true_eq, not_not] at hmatch
    exact along_replaceIfUnchanged (hlocal hdiffers hmatch.2)
  refine Along.bind hcandidate fun h₁ _ hsub₁ _ => ?_
  refine Along.bind (along_plain path_markLocalCommitted plain_markLocalCommitted)
    fun h₂ marked hsub₂ _ => ?_
  exact along_recoverBase fun h' hsub => hbase h' (hsub₁.trans (hsub₂.trans hsub))

theorem along_recoverLoaded {credential : SyncCredential} {current : LocalSnapshot}
    (hrecovers : Recovers P call h) :
    Along (Bound P call) (recoverLoaded P S credential current) h fun _ _ => True := by
  -- The journal is one found since `h`.
  refine Along.bind (along_plain path_loadJournal.frame plain_loadJournal)
    fun h₁ journal _ hjournal => ?_
  cases journal with
  | none => exact along_pure trivial
  | some loaded =>
    obtain ⟨newer, rfl, hfound⟩ := hjournal
    have hfound := hfound loaded rfl
    obtain ⟨record, candidate⟩ := loaded
    refine Along.bind (along_plain path_openVault plain_openVault) fun h₂ document hsub₂ _ => ?_
    refine Along.bind (along_plain path_readRemote plain_readRemote) fun h₃ remote hsub₃ _ => ?_
    have hsub : newer ++ h <:+ h₃ := hsub₂.trans hsub₃
    have hbase : ∀ h', h₃ <:+ h' → ∀ metadata : BaseMetadata,
        metadata.ciphertextSha256 = P.digestOf candidate →
        Bound P call h' (.writeFile .base metadata) :=
      fun h' hsub' => (hrecovers newer _ hfound h' (hsub.trans hsub')).2
    generalize observeRemote P record remote = observation
    obtain ⟨remoteMatches, remoteUnchanged, revision⟩ := observation
    dsimp only
    split
    · refine along_ite (fun _ => ?_) fun _ => ?_
      · split
        · exact along_throw
        · refine Along.bind (along_plain path_markRemoteCommitted plain_markRemoteCommitted)
            fun h₄ marked hsub₄ hmarked => ?_
          refine along_recoverLocal (fun hdiffers hexpected => ?_)
            fun h' hsub' => hbase h' (hsub₄.trans hsub')
          rw [hmarked.1] at hdiffers
          rw [hmarked.2.2] at hexpected
          exact (hrecovers newer _ hfound h₄ (hsub.trans hsub₄)).1 current hdiffers hexpected
      · refine along_ite (fun _ => ?_) fun _ => along_throw
        refine along_ite (fun _ => ?_) fun _ => along_throw
        exact Along.bind (along_plain path_removeJournal plain_removeJournal)
          fun _ _ _ _ => along_pure trivial
    · exact along_recoverLocal ((hrecovers newer _ hfound h₃ hsub).1 current) hbase
    · exact along_recoverBase hbase

omit [DecidableEq V] in
theorem JournalRecord.sameTransaction.digests {record other : JournalRecord}
    (h : record.sameTransaction other) :
    record.expectedLocalSha256 = other.expectedLocalSha256 ∧
      record.candidateSha256 = other.candidateSha256 := by
  unfold JournalRecord.sameTransaction at h
  rw [← h]
  exact ⟨rfl, rfl⟩

omit [DecidableEq V] in
/-- A `resolve` that writes keeps LOCAL, so its own journal never changes LOCAL. -/
theorem Mandated.recovers {plan : CommitPlan} {candidate : Bytes} {request : RemoteWrite}
    {prepared : JournalRecord} (hm : Mandated P call h plan candidate)
    (haction : ∀ bytes, plan.remoteAction ≠ .alreadyCommitted bytes)
    (hprepared : (⟨.writeFile .journal prepared, .ok ()⟩ : Σ e, Answer e) ∈ h)
    (hlocal : prepared.expectedLocalSha256 = P.digestOf plan.localSnapshot.ciphertext)
    (hcandidate : prepared.candidateSha256 = P.digestOf candidate) :
    Recovers P call (⟨.write request, .error .writeResultUncertain⟩ :: h) := by
  intro newer loaded hfound h' hsub
  obtain ⟨since, rfl⟩ := hsub
  have hsplit : since ++ (newer ++ (⟨.write request, .error .writeResultUncertain⟩ :: h)) =
      (since ++ newer) ++ (⟨.write request, .error .writeResultUncertain⟩ : Σ e, Answer e) :: h := by
    simp only [List.append_assoc]
  -- What follows from finding the own journal.
  have hown : OwnJournal (since ++ (newer ++ (⟨.write request, .error .writeResultUncertain⟩ :: h))) →
      loaded.record.expectedLocalSha256 = P.digestOf plan.localSnapshot.ciphertext ∧
        loaded.record.candidateSha256 = P.digestOf candidate := by
    intro hown
    have hsame := hown _ h request prepared loaded.record _ hsplit hprepared
      (List.mem_append_right _ hfound.1)
    exact ⟨hsame.digests.1.trans hlocal, hsame.digests.2.trans hcandidate⟩
  have hsub : h <:+ since ++ (newer ++ (⟨.write request, .error .writeResultUncertain⟩ :: h)) :=
    ((List.suffix_cons _ _).trans (List.suffix_append newer _)).trans (List.suffix_append since _)
  constructor
  · intro current hdiffers hexpected id choice credential heq
    obtain ⟨pending, hauthorised, hloc, hchosen, hchoice⟩ := hm id choice credential heq
    refine ⟨pending, hauthorised.mono hsub, fun howned => ?_⟩
    obtain ⟨hexpected', hcandidate'⟩ := hown howned
    rcases hchoice with ⟨rfl, -⟩ | ⟨-, bytes, hbytes⟩
    · refine absurd ?_ hdiffers
      rw [hexpected, hexpected', hcandidate', hchosen, hloc]
      rfl
    · exact absurd hbytes (haction bytes)
  · intro metadata hmetadata id choice credential heq
    obtain ⟨pending, hauthorised, -, hchosen, -⟩ := hm id choice credential heq
    refine ⟨pending, hauthorised.mono hsub, fun howned => ?_⟩
    rw [hmetadata, ← hfound.2.2, (hown howned).2, hchosen]

omit [DecidableEq V] in
/-- BASE becomes what was chosen. -/
theorem Mandated.base {plan : CommitPlan} {candidate : Bytes} {metadata : BaseMetadata}
    (hm : Mandated P call h plan candidate)
    (hmetadata : metadata.ciphertextSha256 = P.digestOf candidate) :
    Bound P call h (.writeFile .base metadata) := by
  intro id choice credential heq
  obtain ⟨pending, hauthorised, -, hchosen, -⟩ := hm id choice credential heq
  refine ⟨pending, hauthorised, fun _ => ?_⟩
  rw [hmetadata, hchosen]

theorem along_commitToLocal {plan : CommitPlan} {candidate : Bytes}
    (hm : Mandated P call h plan candidate) :
    Along (Bound P call) (commitToLocal P plan.localSnapshot candidate) h fun _ _ => True := by
  refine along_ite (fun hdiffers => ?_) fun _ => ?_
  · apply along_replaceIfUnchanged
    intro id choice credential heq
    obtain ⟨pending, hauthorised, hloc, hchosen, hchoice⟩ := hm id choice credential heq
    refine ⟨pending, hauthorised, fun _ => ?_⟩
    rcases hchoice with ⟨rfl, -⟩ | ⟨rfl, -⟩
    · rw [hchosen, hloc] at hdiffers
      exact absurd rfl hdiffers
    · exact ⟨rfl, hloc, hchosen⟩
  · exact (along_plain path_requireLocalUnchanged plain_requireLocalUnchanged).weaken
      fun _ _ _ _ => trivial

theorem along_commitAnswered {plan : CommitPlan} {candidate : Bytes} {journal : JournalRecord}
    {credential : SyncCredential} {answer : Except ProviderError RemoteRevision}
    (hm : Mandated P call h plan candidate)
    (hrecovers : answer = .error .writeResultUncertain → Recovers P call h) :
    Along (Bound P call) (commitAnswered P S credential candidate plan journal answer) h
      fun _ _ => True := by
  unfold commitAnswered
  split
  · refine Along.bind (along_plain path_captureClean plain_captureClean) fun _ _ hsub _ => ?_
    refine Along.bind (along_recoverLoaded ((hrecovers rfl).mono hsub)) fun _ recovered _ _ => ?_
    exact along_ite (fun _ => along_pure trivial) fun _ => along_throw
  · exact Along.bind (along_plain path_removeJournal plain_removeJournal) fun _ _ _ _ => along_throw
  · exact along_throw
  · refine Along.bind (along_plain path_markRemoteCommitted plain_markRemoteCommitted)
      fun h₁ _ hsub₁ _ => ?_
    refine Along.bind (along_commitToLocal (hm.mono hsub₁)) fun h₂ _ hsub₂ _ => ?_
    refine Along.bind (along_plain path_markLocalCommitted plain_markLocalCommitted)
      fun h₃ _ hsub₃ _ => ?_
    have hm₃ := ((hm.mono hsub₁).mono hsub₂).mono hsub₃
    refine Along.bind (along_writeBase fun h' hsub metadata hmetadata =>
      (hm₃.mono hsub).base hmetadata) fun _ _ _ _ => ?_
    exact Along.bind (along_plain path_removeJournal plain_removeJournal)
      fun _ _ _ _ => along_pure trivial

theorem along_commitCandidateBytes {plan : CommitPlan} {candidate : Bytes}
    {credential : SyncCredential} (hm : Mandated P call h plan candidate) :
    Along (Bound P call) (commitCandidateBytes P S credential candidate plan) h
      fun _ _ => True := by
  refine Along.bind along_prepareJournal fun h₁ journal hsub₁ hjournal => ?_
  obtain ⟨hwritten, hlocal, hcandidate⟩ := hjournal
  have hm := hm.mono hsub₁
  split
  case h_1 haction =>
    -- No `resolve` creates the object.
    have hnot : ∀ {id choice credential}, call ≠ .resolve id choice credential := by
      intro id choice credential heq
      obtain ⟨pending, -, -, -, hchoice⟩ := hm id choice credential heq
      rw [haction] at hchoice
      rcases hchoice with ⟨-, hnever, -⟩ | ⟨-, bytes, hnever⟩
      · cases hnever
      · cases hnever
    refine Along.bind (along_ask fun _ _ _ heq => absurd heq hnot) fun h₂ answer hsub₂ heq => ?_
    refine along_commitAnswered (hm.mono hsub₂) fun hanswer => ?_
    subst heq
    rw [hanswer]
    exact hm.recovers (by simp [haction]) hwritten hlocal hcandidate
  case h_2 haction =>
    split
    case h_1 => exact along_throw
    case h_2 expected hexpected =>
      have hwrite : Bound P call h₁ (.write (.replaceIfRevision expected candidate)) := by
        intro id choice credential heq
        obtain ⟨pending, hauthorised, -, hchosen, hchoice⟩ := hm id choice credential heq
        rcases hchoice with ⟨rfl, -, hrevision⟩ | ⟨-, bytes, hnever⟩
        · have hrevision := Option.some.inj (hexpected.symm.trans hrevision)
          exact ⟨pending, hauthorised, rfl, by rw [hrevision, hchosen]; rfl⟩
        · rw [haction] at hnever
          cases hnever
      refine Along.bind (along_ask hwrite) fun h₂ answer hsub₂ heq => ?_
      refine along_commitAnswered (hm.mono hsub₂) fun hanswer => ?_
      subst heq
      rw [hanswer]
      exact hm.recovers (by simp [haction]) hwritten hlocal hcandidate
  case h_3 bytes haction =>
    split
    case h_1 => exact along_throw
    case h_2 expected hexpected => exact along_commitAnswered hm nofun

theorem along_commitCandidate {plan : CommitPlan} {credential : SyncCredential}
    (hm : Mandated P call h plan plan.candidate) :
    Along (Bound P call) (commitCandidate P S credential plan) h fun _ _ => True :=
  Along.bind (along_plain path_openVault plain_openVault) fun _ _ hsub _ =>
    along_commitCandidateBytes (hm.mono hsub)

end Along

section Calls
variable {P : Platform V} {S : SyncStore} {h : Record V} {credential : SyncCredential}

omit [DecidableEq V] in
theorem mandated_sync {plan : CommitPlan} {candidate : Bytes} :
    Mandated P (.sync credential) h plan candidate := nofun

omit [DecidableEq V] in
theorem along_installConflict {loc : LocalSnapshot} {bytes : Bytes} {revision : RemoteRevision}
    {digest : Option CiphertextDigest} {initial : Bool} {conflicts : List Kdbx.SyncConflict} :
    Along (Bound P (.sync credential))
      (installConflict loc bytes revision digest initial conflicts) h fun _ _ => True := by
  refine Along.bind (along_ask trivial) fun h₁ id _ hdrawn => ?_
  refine Along.bind (along_ask ⟨⟨credential, rfl⟩, h, hdrawn⟩) fun _ _ _ _ => ?_
  exact Along.bind along_orThrow fun _ _ _ _ => along_pure trivial

theorem along_mergeExisting {snapshot : LocalSnapshot} {base : BaseState} {object : RemoteObject} :
    Along (Bound P (.sync credential)) (mergeExisting P S credential snapshot base object) h
      fun _ _ => True := by
  refine Along.bind (along_plain path_openVault plain_openVault) fun _ _ _ _ => ?_
  refine Along.bind (along_plain path_openVault plain_openVault) fun _ _ _ _ => ?_
  refine Along.bind (along_plain path_openVault plain_openVault) fun _ _ _ _ => ?_
  refine Along.bind along_orThrow fun _ outcome _ _ => ?_
  cases outcome with
  | equivalent =>
    refine Along.bind (along_plain path_requireLocalUnchanged plain_requireLocalUnchanged)
      fun _ _ _ _ => ?_
    exact Along.bind (along_writeBase fun _ _ _ _ => nofun) fun _ _ _ _ => along_pure trivial
  | fastForwardLocal => exact along_commitCandidate mandated_sync
  | fastForwardRemote => exact along_commitCandidate mandated_sync
  | merged document =>
    refine Along.bind (along_plain path_serializeVerified plain_serializeVerified)
      fun _ candidate _ _ => ?_
    exact along_commitCandidateBytes mandated_sync
  | conflicted conflicts => exact along_installConflict

theorem along_sync :
    Along (Bound P (.sync credential)) (sync P S credential) h fun _ _ => True := by
  refine Along.bind (along_ask ⟨credential, rfl⟩) fun _ _ _ _ => ?_
  refine Along.bind along_orThrow fun _ _ _ _ => ?_
  refine along_ite (fun _ => along_throw) fun _ => ?_
  refine Along.bind (along_plain path_captureClean plain_captureClean) fun _ snapshot _ _ => ?_
  refine Along.bind (along_recoverLoaded fun _ _ _ _ _ => ⟨fun _ _ _ => nofun, fun _ _ => nofun⟩)
    fun _ recovered _ _ => ?_
  refine along_ite (fun _ => along_pure trivial) fun _ => ?_
  refine Along.bind (along_plain path_loadBase plain_loadBase) fun _ base _ _ => ?_
  refine Along.bind (along_plain path_readRemote plain_readRemote) fun _ remote _ _ => ?_
  cases base with
  | none =>
    cases remote with
    | missing => exact along_commitCandidate mandated_sync
    | present object =>
      refine Along.bind (along_plain path_openVault plain_openVault) fun _ _ _ _ => ?_
      refine Along.bind (along_plain path_openVault plain_openVault) fun _ _ _ _ => ?_
      refine along_ite (fun _ => ?_) fun _ => along_installConflict
      refine Along.bind (along_plain path_requireLocalUnchanged plain_requireLocalUnchanged)
        fun _ _ _ _ => ?_
      exact Along.bind (along_writeBase fun _ _ _ _ => nofun) fun _ _ _ _ => along_pure trivial
  | some base =>
    cases remote with
    | missing => exact along_throw
    | present object => exact along_mergeExisting

theorem along_resolve {id : Uuid} {choice : ConflictChoice} :
    Along (Bound P (.resolve id choice credential)) (resolve P S id choice credential) h
      fun _ _ => True := by
  refine along_ite (fun _ => along_throw) fun hcomponent => ?_
  refine Along.bind (along_plain path_captureClean plain_captureClean)
    fun h₁ current _ hcaptured => ?_
  refine Along.bind (along_plain path_openVault plain_openVault) fun h₀ document hsub₀ hopen => ?_
  have htake : Bound P (.resolve id choice credential) h₀ (.takeConflict id) :=
    ⟨choice, credential, rfl, by simpa using hcomponent, current, document,
      hsub₀.subset hcaptured, hopen⟩
  refine Along.bind (along_ask htake) fun h₁ answer _ htook => ?_
  refine Along.bind along_orThrow fun h₂ pending _ hpending => ?_
  obtain ⟨rfl, rfl⟩ := hpending
  -- What is learned from here on was learned after the token was taken.
  refine Along.bind (along_plain path_requireBaseUnchanged.frame plain_requireBaseUnchanged)
    fun h₃ _ _ hbase => ?_
  obtain ⟨new₃, hnew₃, hbase⟩ := hbase
  refine Along.bind (along_plain path_requireLocalUnchanged.frame plain_requireLocalUnchanged)
    fun h₄ _ _ hlocal => ?_
  obtain ⟨new₄, hnew₄, found, hcaptured, hsame⟩ := hlocal
  refine Along.bind (along_plain path_readRemote.frame plain_readRemote) fun h₅ remote _ hremote => ?_
  obtain ⟨new₅, hnew₅, hread⟩ := hremote
  cases remote with
  | missing => exact along_throw
  | present object =>
    refine along_ite (fun _ => along_throw) fun hrevision => ?_
    refine along_ite (fun _ => along_throw) fun hdigest => ?_
    have hauthorised : Authorised P h₅ id pending := by
      refine ⟨h₀, new₅ ++ (new₄ ++ new₃), object, ?_, ?_⟩
      · rw [hnew₅, hnew₄, hnew₃, htook]
        simp only [List.append_assoc]
      · have hcaptured : (⟨.captureClean, .ok found⟩ : Σ e, Answer e) ∈ new₄ := hcaptured
        have hread : (⟨.read, .ok (.present object)⟩ : Σ e, Answer e) ∈ new₅ := hread
        exact
          { base := hbase.mono fun x hx => by simp [hx]
            loc := ⟨found, by simp [Captured, hcaptured], hsame⟩
            observed := by simp [Observed, hread]
            revision := not_not.mp hrevision
            digest := not_not.mp hdigest }
    cases choice with
    | keepLocal =>
      refine along_commitCandidate fun id' choice' credential' heq => ?_
      cases heq
      exact ⟨pending, hauthorised, rfl, rfl, .inl ⟨rfl, rfl, rfl⟩⟩
    | keepRemote =>
      refine along_commitCandidate fun id' choice' credential' heq => ?_
      cases heq
      exact ⟨pending, hauthorised, rfl, rfl, .inr ⟨rfl, _, rfl⟩⟩

/-- Every path of every call keeps to the conflict authority. -/
theorem Call.bound (call : Call) :
    Program.Safe (transcripts (Bound P call)) (fun _ _ => True) (call.task P S).run h := by
  have halong : Along (Bound P call) (call.task P S) h fun _ _ => True := by
    cases call with
    | sync credential => exact along_sync
    | resolve id choice credential => exact along_resolve
  exact Program.Safe.weaken halong fun _ _ _ => trivial

end Calls

end NianPass.Sync
