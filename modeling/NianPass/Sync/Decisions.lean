import NianPass.Sync.Engine

/-
  What a call of the engine knows when it acts.

  The transcript of a call holds the answers it got so far. This module says
  which evidence must be in it when the call replaces the remote object,
  replaces the local vault or writes `base.json` (`Permitted`), and shows that
  every path through `sync` and `resolve` has it (`Call.permitted`), whatever
  the answers were. The decisions are named once, in `Decided`: the plan a
  call commits and the candidate it commits it with.
-/
namespace NianPass.Sync

open Kdbx (Bytes KdbxDocument MergeOutcome mergeGenerations)
open Program (Ensures Transcript transcripts)

variable {V : Type} [DecidableEq V]

abbrev Record (V : Type) := Transcript (Answer (V := V))

/-! ## Evidence -/

section Evidence
variable (P : Platform V) (h : Record V)

omit [DecidableEq V]

def Captured (snapshot : LocalSnapshot) : Prop :=
  (⟨.captureClean, .ok snapshot⟩ : Σ e, Answer e) ∈ h

def Observed (object : RemoteObject) : Prop :=
  (⟨.read, .ok (.present object)⟩ : Σ e, Answer e) ∈ h

/-- `load_base` found this BASE: `base.json` named a file with these bytes. -/
def FoundBase (base : BaseState) : Prop :=
  ∃ metadata : BaseMetadata,
    (⟨.readFile .base, .ok (some metadata)⟩ : Σ e, Answer e) ∈ h ∧
    (⟨.readFile (.ciphertext metadata.ciphertextFile), .ok (some base.ciphertext)⟩ :
      Σ e, Answer e) ∈ h ∧
    metadata.ciphertextSha256 = P.digestOf base.ciphertext ∧
    base.digest = P.digestOf base.ciphertext

/-- `load_journal` found this journal and its candidate. -/
def FoundJournal (journal : LoadedJournal) : Prop :=
  (⟨.readFile .journal, .ok (some journal.record)⟩ : Σ e, Answer e) ∈ h ∧
  (⟨.readFile (.ciphertext journal.record.candidateFile), .ok (some journal.candidate)⟩ :
    Σ e, Answer e) ∈ h ∧
  journal.record.candidateSha256 = P.digestOf journal.candidate

/-- LOCAL has held exactly these bytes: it was seen with their digest, or they were installed. -/
def LocalHeld (bytes : Bytes) : Prop :=
  (∃ snapshot, Captured h snapshot ∧ P.digestOf snapshot.ciphertext = P.digestOf bytes) ∨
  ∃ snapshot, (⟨.replaceIfUnchanged snapshot bytes, .ok ()⟩ : Σ e, Answer e) ∈ h

def RemoteWrite.ciphertext : RemoteWrite → Bytes
  | .createIfAbsent ciphertext => ciphertext
  | .replaceIfRevision _ ciphertext => ciphertext

/-- REMOTE has held exactly these bytes: it was seen with their digest, or a write was confirmed. -/
def RemoteHeld (bytes : Bytes) : Prop :=
  (∃ object, Observed h object ∧ P.digestOf object.ciphertext = P.digestOf bytes) ∨
  ∃ (request : RemoteWrite) (revision : RemoteRevision),
    (⟨.write request, .ok revision⟩ : Σ e, Answer e) ∈ h ∧ request.ciphertext = bytes

end Evidence

omit [DecidableEq V] in
/-- `load_base` found this BASE digest, or none at all. -/
def FoundDigest (P : Platform V) (h : Record V) : Option CiphertextDigest → Prop
  | none => (⟨.readFile .base, .ok none⟩ : Σ e, Answer e) ∈ h
  | some digest => ∃ base, FoundBase P h base ∧ base.digest = digest

/-- BASE, LOCAL and REMOTE were found as they were when the conflict was installed. -/
structure Revalidated (P : Platform V) (h : Record V) (pending : PendingConflict)
    (object : RemoteObject) : Prop where
  base : FoundDigest P h pending.baseDigest
  loc : ∃ current, Captured h current ∧ current.source = pending.loc.source ∧
    P.digestOf current.ciphertext = P.digestOf pending.loc.ciphertext ∧
    current.authorityToken = pending.loc.authorityToken
  observed : Observed h object
  revision : object.revision = pending.remoteRevision
  digest : P.digestOf object.ciphertext = P.digestOf pending.remoteBytes

/-! ## Decisions -/

/-- `bytes` hold the merged document: they open to a semantically equal one. -/
def Represents (P : Platform V) (credential : SyncCredential) (bytes : Bytes)
    (document : KdbxDocument V) : Prop :=
  ∃ reopened, openDocument P bytes credential = .ok reopened ∧
    document.semanticallyEquals P.keepass reopened = true

/-- The outcome of `vault_sync::merge` on three encrypted generations. -/
def MergesTo (P : Platform V) (credential : SyncCredential) (base loc remote : Bytes)
    (outcome : MergeOutcome V) : Prop :=
  ∃ baseDocument localDocument remoteDocument,
    openDocument P base credential = .ok baseDocument ∧
    openDocument P loc credential = .ok localDocument ∧
    openDocument P remote credential = .ok remoteDocument ∧
    mergeGenerations P.keepass baseDocument localDocument remoteDocument = .ok outcome

/-- The two generations open to semantically equal documents. -/
def SameVault (P : Platform V) (credential : SyncCredential) (left right : Bytes) : Prop :=
  ∃ leftDocument rightDocument,
    openDocument P left credential = .ok leftDocument ∧
    openDocument P right credential = .ok rightDocument ∧
    leftDocument.semanticallyEquals P.keepass rightDocument = true

/-- What a call may commit, and the evidence for it: the plan and the candidate. -/
inductive Decided (P : Platform V) (h : Record V) : Call → CommitPlan → Bytes → Prop where
  | create {credential snapshot completion} (captured : Captured h snapshot)
      (missing : (⟨.read, .ok .missing⟩ : Σ e, Answer e) ∈ h) :
      Decided P h (.sync credential) ⟨snapshot, none, .create, completion⟩ snapshot.ciphertext
  | fastForwardLocal {credential snapshot base object completion} (captured : Captured h snapshot)
      (found : FoundBase P h base) (observed : Observed h object)
      (merges : MergesTo P credential base.ciphertext snapshot.ciphertext object.ciphertext
        .fastForwardLocal) :
      Decided P h (.sync credential) ⟨snapshot, some object.revision, .replace, completion⟩
        snapshot.ciphertext
  | fastForwardRemote {credential snapshot base object completion} (captured : Captured h snapshot)
      (found : FoundBase P h base) (observed : Observed h object)
      (merges : MergesTo P credential base.ciphertext snapshot.ciphertext object.ciphertext
        .fastForwardRemote) :
      Decided P h (.sync credential)
        ⟨snapshot, some object.revision, .alreadyCommitted object.ciphertext, completion⟩
        object.ciphertext
  | merged {credential snapshot base object document candidate completion}
      (captured : Captured h snapshot) (found : FoundBase P h base) (observed : Observed h object)
      (merges : MergesTo P credential base.ciphertext snapshot.ciphertext object.ciphertext
        (.merged document))
      (represents : Represents P credential candidate document) :
      Decided P h (.sync credential) ⟨snapshot, some object.revision, .replace, completion⟩
        candidate
  | keepLocal {credential id pending object completion earlier later}
      (took : h = later ++ (⟨.takeConflict id, .ok pending⟩ : Σ e, Answer e) :: earlier)
      (revalidated : Revalidated P later pending object) :
      Decided P h (.resolve id .keepLocal credential)
        ⟨pending.loc, some pending.remoteRevision, .replace, completion⟩ pending.loc.ciphertext
  | keepRemote {credential id pending object completion earlier later}
      (took : h = later ++ (⟨.takeConflict id, .ok pending⟩ : Σ e, Answer e) :: earlier)
      (revalidated : Revalidated P later pending object) :
      Decided P h (.resolve id .keepRemote credential)
        ⟨pending.loc, some pending.remoteRevision, .alreadyCommitted pending.remoteBytes,
          completion⟩ pending.remoteBytes

/-- Why `bytes` may become BASE: both sides have held them, or a semantically
equal generation of LOCAL was there when REMOTE held them. -/
inductive Agreed (P : Platform V) (h : Record V) (credential : SyncCredential) (bytes : Bytes) :
    Prop where
  | equivalent {snapshot object} (captured : Captured h snapshot) (observed : Observed h object)
      (eq : object.ciphertext = bytes)
      (same : SameVault P credential snapshot.ciphertext bytes)
  | committed {document} (opens : openDocument P bytes credential = .ok document)
      (localHeld : LocalHeld P h bytes) (remoteHeld : RemoteHeld P h bytes)

def Call.credential : Call → SyncCredential
  | .sync credential => credential
  | .resolve _ _ credential => credential

/-- The evidence that must stand in the transcript of `call` when it makes a request. -/
def Permitted (P : Platform V) (call : Call) (h : Record V) : Effect V → Prop
  | .write (.createIfAbsent candidate) =>
    ∃ plan, Decided P h call plan candidate ∧ plan.remoteAction = .create
  | .write (.replaceIfRevision expected candidate) =>
    ∃ plan, Decided P h call plan candidate ∧ plan.remoteAction = .replace ∧
      plan.expectedRemote = some expected
  | .replaceIfUnchanged expected candidate =>
    (∃ plan, Decided P h call plan candidate ∧ plan.localSnapshot = expected) ∨
    ∃ journal, FoundJournal P h journal ∧ Captured h expected ∧ journal.candidate = candidate ∧
      expected.source = journal.record.source ∧
      P.digestOf expected.ciphertext = journal.record.expectedLocalSha256
  | .installConflict conflict =>
    (∃ credential, call = .sync credential) ∧ Captured h conflict.loc ∧
      Observed h ⟨conflict.remoteBytes, conflict.remoteRevision⟩ ∧
      FoundDigest P h conflict.baseDigest
  | .writeFile .base metadata =>
    ∃ bytes, BaseMetadata.ciphertextSha256 metadata = P.digestOf bytes ∧
      Agreed P h call.credential bytes
  | _ => True

/-! ## Evidence is never lost -/

section Mono
variable {P : Platform V} {h h' : Record V}

omit [DecidableEq V] in
theorem FoundBase.mono {base : BaseState} (hsub : h ⊆ h') (hb : FoundBase P h base) :
    FoundBase P h' base := by
  obtain ⟨metadata, hmetadata, hbytes, hdigest⟩ := hb
  exact ⟨metadata, hsub hmetadata, hsub hbytes, hdigest⟩

omit [DecidableEq V] in
theorem FoundDigest.mono {digest : Option CiphertextDigest} (hsub : h ⊆ h')
    (hd : FoundDigest P h digest) : FoundDigest P h' digest := by
  cases digest with
  | none => exact hsub hd
  | some digest =>
    obtain ⟨base, hbase, heq⟩ := hd
    exact ⟨base, hbase.mono hsub, heq⟩

omit [DecidableEq V] in
theorem Revalidated.mono {pending : PendingConflict} {object : RemoteObject} (hsub : h ⊆ h')
    (hr : Revalidated P h pending object) : Revalidated P h' pending object := by
  obtain ⟨hbase, ⟨current, hcaptured, hsame⟩, hobserved, hrevision, hdigest⟩ := hr
  exact ⟨hbase.mono hsub, ⟨current, hsub hcaptured, hsame⟩, hsub hobserved,
    hrevision, hdigest⟩

omit [DecidableEq V] in
theorem FoundJournal.mono {journal : LoadedJournal} (hsub : h ⊆ h')
    (hj : FoundJournal P h journal) : FoundJournal P h' journal :=
  ⟨hsub hj.1, hsub hj.2.1, hj.2.2⟩

omit [DecidableEq V] in
theorem LocalHeld.mono {bytes : Bytes} (hsub : h ⊆ h') (hl : LocalHeld P h bytes) :
    LocalHeld P h' bytes := by
  obtain ⟨snapshot, hcaptured, hdigest⟩ | ⟨snapshot, hinstalled⟩ := hl
  · exact .inl ⟨snapshot, hsub hcaptured, hdigest⟩
  · exact .inr ⟨snapshot, hsub hinstalled⟩

omit [DecidableEq V] in
theorem RemoteHeld.mono {bytes : Bytes} (hsub : h ⊆ h') (hr : RemoteHeld P h bytes) :
    RemoteHeld P h' bytes := by
  obtain ⟨object, hobserved, hdigest⟩ | ⟨request, revision, hwritten, heq⟩ := hr
  · exact .inl ⟨object, hsub hobserved, hdigest⟩
  · exact .inr ⟨request, revision, hsub hwritten, heq⟩

theorem Decided.mono {call : Call} {plan : CommitPlan} {candidate : Bytes} (hsub : h <:+ h')
    (hd : Decided P h call plan candidate) : Decided P h' call plan candidate := by
  cases hd with
  | create captured missing => exact .create (hsub.subset captured) (hsub.subset missing)
  | fastForwardLocal captured found observed merges =>
    exact .fastForwardLocal (hsub.subset captured) (found.mono hsub.subset) (hsub.subset observed) merges
  | fastForwardRemote captured found observed merges =>
    exact .fastForwardRemote (hsub.subset captured) (found.mono hsub.subset) (hsub.subset observed) merges
  | merged captured found observed merges represents =>
    exact .merged (hsub.subset captured) (found.mono hsub.subset) (hsub.subset observed) merges represents
  | keepLocal took revalidated =>
    obtain ⟨since, rfl⟩ := hsub
    subst took
    exact .keepLocal (List.append_assoc _ _ _).symm (revalidated.mono (List.subset_append_right _ _))
  | keepRemote took revalidated =>
    obtain ⟨since, rfl⟩ := hsub
    subst took
    exact .keepRemote (List.append_assoc _ _ _).symm (revalidated.mono (List.subset_append_right _ _))

/-- Evidence stays evidence behind an older transcript. -/
theorem Decided.frame {call : Call} {plan : CommitPlan} {candidate : Bytes} (older : Record V)
    (hd : Decided P h call plan candidate) : Decided P (h ++ older) call plan candidate := by
  have hsub : h ⊆ h ++ older := List.subset_append_left h older
  cases hd with
  | create captured missing => exact .create (hsub captured) (hsub missing)
  | fastForwardLocal captured found observed merges =>
    exact .fastForwardLocal (hsub captured) (found.mono hsub) (hsub observed) merges
  | fastForwardRemote captured found observed merges =>
    exact .fastForwardRemote (hsub captured) (found.mono hsub) (hsub observed) merges
  | merged captured found observed merges represents =>
    exact .merged (hsub captured) (found.mono hsub) (hsub observed) merges represents
  | keepLocal took revalidated =>
    subst took
    exact .keepLocal (List.append_assoc _ _ _) revalidated
  | keepRemote took revalidated =>
    subst took
    exact .keepRemote (List.append_assoc _ _ _) revalidated

theorem Agreed.mono {credential : SyncCredential} {bytes : Bytes} (hsub : h ⊆ h')
    (ha : Agreed P h credential bytes) : Agreed P h' credential bytes := by
  cases ha with
  | equivalent captured observed eq same =>
    exact .equivalent (hsub captured) (hsub observed) eq same
  | committed opens localHeld remoteHeld =>
    exact .committed opens (localHeld.mono hsub) (remoteHeld.mono hsub)

theorem Permitted.frame {call : Call} {effect : Effect V} (older : Record V)
    (hp : Permitted P call h effect) : Permitted P call (h ++ older) effect := by
  have hsub : h ⊆ h ++ older := List.subset_append_left h older
  unfold Permitted at hp ⊢
  split at hp
  · obtain ⟨plan, hd, haction⟩ := hp
    exact ⟨plan, hd.frame older, haction⟩
  · obtain ⟨plan, hd, haction⟩ := hp
    exact ⟨plan, hd.frame older, haction⟩
  · obtain ⟨plan, hd, hplan⟩ | ⟨journal, hfound, hcaptured, hjournal⟩ := hp
    · exact .inl ⟨plan, hd.frame older, hplan⟩
    · exact .inr ⟨journal, hfound.mono hsub, hsub hcaptured, hjournal⟩
  · obtain ⟨hsync, hcaptured, hobserved, hdigest⟩ := hp
    exact ⟨hsync, hsub hcaptured, hsub hobserved, hdigest.mono hsub⟩
  · obtain ⟨bytes, hdigest, hagreed⟩ := hp
    exact ⟨bytes, hdigest, hagreed.mono hsub⟩
  · exact trivial

end Mono

/-! ## Paths -/

section Paths
variable (P : Platform V) (call : Call)

/-- From the transcript `h` on, `p` acts on evidence only, and where it returns a value it has
learned `F`. Nothing is said about errors: they carry no promise. -/
def Path {α : Type} (p : Task V α) (h : Record V) (F : Record V → α → Prop) : Prop :=
  Ensures (transcripts (Permitted P call)) p (fun h' a => h <:+ h' ∧ F h' a) (fun _ _ => True) h

variable {P call} {α β : Type} {h : Record V}

theorem Path.bind {p : Task V α} {f : α → Task V β} {F : Record V → α → Prop}
    {F' : Record V → β → Prop} (hp : Path P call p h F)
    (hf : ∀ h' a, h <:+ h' → F h' a → Path P call (f a) h' F') : Path P call (p >>= f) h F' := by
  apply Ensures.bind
  refine Ensures.weaken hp (fun h' a ha => ?_) (fun _ _ _ => trivial)
  refine Ensures.weaken (hf h' a ha.1 ha.2) (fun h'' b hb => ?_) (fun _ _ _ => trivial)
  exact ⟨ha.1.trans hb.1, hb.2⟩

theorem Path.weaken {p : Task V α} {F F' : Record V → α → Prop} (hp : Path P call p h F)
    (hF : ∀ h' a, h <:+ h' → F h' a → F' h' a) : Path P call p h F' :=
  Ensures.weaken hp (fun h' a ha => ⟨ha.1, hF h' a ha.1 ha.2⟩) (fun _ _ _ => trivial)

theorem path_pure {a : α} {F : Record V → α → Prop} (hF : F h a) : Path P call (pure a) h F :=
  Program.ensures_pure ⟨List.suffix_refl h, hF⟩

theorem path_throw {error : SyncError} {F : Record V → α → Prop} :
    Path P call (throw error) h F :=
  Program.ensures_throw trivial

theorem path_ask_eq {effect : Effect V} (hpermit : Permitted P call h effect) :
    Path P call (ask effect) h fun h' answer => h' = ⟨effect, answer⟩ :: h :=
  Program.paths_request hpermit fun _ => ⟨List.suffix_cons _ _, rfl⟩

theorem path_ask {effect : Effect V} (hpermit : Permitted P call h effect) :
    Path P call (ask effect) h fun h' answer => ⟨effect, answer⟩ ∈ h' :=
  (path_ask_eq hpermit).weaken fun _ _ _ heq => heq ▸ List.mem_cons_self

theorem path_orThrow {ε : Type} {convert : ε → SyncError} {result : Except ε α} :
    Path P call (orThrow convert result) h fun _ a => result = .ok a := by
  cases result with
  | ok a => exact path_pure rfl
  | error error => exact path_throw

theorem path_ite {c : Prop} [Decidable c] {p q : Task V α} {F : Record V → α → Prop}
    (hp : c → Path P call p h F) (hq : ¬ c → Path P call q h F) :
    Path P call (if c then p else q) h F :=
  Program.ensures_ite hp hq

/-- What `p` learns from an empty transcript it learns anew behind an older one. -/
theorem Path.frame {p : Task V α} {F : Record V → α → Prop} (hp : Path P call p [] F) :
    Path P call p h fun h' a => ∃ new, h' = new ++ h ∧ F new a := by
  have hframe := Program.paths_frame (fun new effect hpermit => Permitted.frame h hpermit) hp
  refine Ensures.weaken hframe (fun h' a ha => ?_) (fun _ _ _ => trivial)
  obtain ⟨new, rfl, -, hF⟩ := ha
  exact ⟨List.suffix_append new h, new, rfl, hF⟩

/-! ### Single effects -/

theorem path_readFile {file : File} :
    Path P call (readFile file) h fun h' content =>
      (⟨.readFile file, .ok content⟩ : Σ e, Answer e) ∈ h' := by
  refine Path.bind (path_ask trivial) fun h' answer _ hanswer => ?_
  refine path_orThrow.weaken fun h'' content hsub heq => ?_
  subst heq
  exact hsub.subset hanswer

theorem path_atomicWrite {file : File} {content : file.Content}
    (hpermit : Permitted P call h (.writeFile file content)) :
    Path P call (atomicWrite file content) h fun _ _ => True :=
  Path.bind (path_ask hpermit) fun _ _ _ _ => path_orThrow.weaken fun _ _ _ _ => trivial

theorem path_removeIfFile {file : File} : Path P call (removeIfFile file) h fun _ _ => True :=
  Path.bind (path_ask trivial) fun _ _ _ _ => path_orThrow.weaken fun _ _ _ _ => trivial

theorem path_syncDirectory : Path P call syncDirectory h fun _ _ => True :=
  Path.bind (path_ask trivial) fun _ _ _ _ => path_orThrow.weaken fun _ _ _ _ => trivial

theorem path_readPrivateFile {name : CiphertextFile} :
    Path P call (readPrivateFile name) h fun h' bytes =>
      (⟨.readFile (.ciphertext name), .ok (some bytes)⟩ : Σ e, Answer e) ∈ h' := by
  refine Path.bind path_readFile fun h' content _ hread => ?_
  cases content with
  | none => exact path_throw
  | some bytes => exact path_pure hread

theorem path_captureClean : Path P call captureClean h Captured := by
  refine Path.bind (path_ask trivial) fun h' answer _ hanswer => ?_
  refine path_orThrow.weaken fun h'' snapshot hsub heq => ?_
  subst heq
  exact hsub.subset hanswer

theorem path_readRemote :
    Path P call readRemote h fun h' remote => (⟨.read, .ok remote⟩ : Σ e, Answer e) ∈ h' := by
  refine Path.bind (path_ask trivial) fun h' answer _ hanswer => ?_
  refine path_orThrow.weaken fun h'' remote hsub heq => ?_
  subst heq
  exact hsub.subset hanswer

theorem path_replaceIfUnchanged {snapshot : LocalSnapshot} {bytes : Bytes}
    (hpermit : Permitted P call h (.replaceIfUnchanged snapshot bytes)) :
    Path P call (replaceIfUnchanged snapshot bytes) h fun h' _ => LocalHeld P h' bytes := by
  refine Path.bind (path_ask hpermit) fun h' answer _ hanswer => ?_
  refine path_orThrow.weaken fun h'' installed hsub heq => ?_
  subst heq
  exact .inr ⟨snapshot, hsub.subset hanswer⟩

theorem path_openVault {bytes : Bytes} {credential : SyncCredential} :
    Path P call (openVault P bytes credential) h fun _ document =>
      openDocument P bytes credential = .ok document :=
  path_orThrow

/-! ### The store -/

section Store
variable {S : SyncStore}

theorem path_baseSchema :
    Path P call baseSchema h fun h' schema => schema = .missing → FoundDigest P h' none := by
  refine Path.bind path_readFile fun h' content _ hread => ?_
  cases content with
  | none => exact path_pure fun _ => hread
  | some metadata =>
    refine path_pure fun hmissing => ?_
    split at hmissing <;> cases hmissing

theorem path_journalSchema : Path P call journalSchema h fun _ _ => True := by
  refine Path.bind path_readFile fun h' content _ _ => ?_
  cases content with
  | none => exact path_pure trivial
  | some record => exact path_pure trivial

theorem path_validateIdentity {id : Uuid} {source : SourceBinding} {target : TargetBinding} :
    Path P call (validateIdentity S id source target) h fun _ _ => source = S.source := by
  refine path_ite (fun _ => path_throw) fun _ => ?_
  refine path_ite (fun _ => path_throw) fun hsource => ?_
  exact path_ite (fun _ => path_throw) fun _ => path_pure (by simpa using hsource)

theorem path_validateBaseFilename {name : CiphertextFile} :
    Path P call (validateBaseFilename name) h fun _ _ => True := by
  cases name with
  | base id => exact path_pure trivial
  | candidate id => exact path_throw

theorem path_validateCandidateFilename {name : CiphertextFile} :
    Path P call (validateCandidateFilename name) h fun _ _ => True := by
  cases name with
  | base id => exact path_throw
  | candidate id => exact path_pure trivial

theorem path_loadBase :
    Path P call (loadBase P S) h fun h' base => (base = none → FoundDigest P h' none) ∧
      ∀ found, base = some found → FoundBase P h' found := by
  refine Path.bind path_baseSchema fun h₁ schema _ hmissing => ?_
  cases schema with
  | missing => exact path_pure ⟨fun _ => hmissing rfl, nofun⟩
  | unsupported => exact path_throw
  | current =>
    refine Path.bind path_readFile fun h₂ content _ hmetadata => ?_
    cases content with
    | none => exact path_pure ⟨fun _ => hmetadata, nofun⟩
    | some metadata =>
      refine Path.bind path_validateIdentity fun h₃ _ hsub₃ _ => ?_
      refine Path.bind path_validateBaseFilename fun h₄ _ hsub₄ _ => ?_
      refine Path.bind path_readPrivateFile fun h₅ ciphertext hsub₅ hbytes => ?_
      refine path_ite (fun _ => path_throw) fun hdigest => path_pure ⟨nofun, ?_⟩
      rintro found ⟨⟩
      exact ⟨metadata, hsub₅.subset (hsub₄.subset (hsub₃.subset hmetadata)), hbytes, (not_not.mp hdigest).symm, rfl⟩

theorem path_loadJournal :
    Path P call (loadJournal P S) h fun h' journal => ∀ found, journal = some found →
      FoundJournal P h' found := by
  refine Path.bind path_journalSchema fun h₁ schema _ _ => ?_
  cases schema with
  | missing => exact path_pure nofun
  | unsupported => exact path_throw
  | current =>
    refine Path.bind path_readFile fun h₂ content _ hrecord => ?_
    cases content with
    | none => exact path_pure nofun
    | some record =>
      refine Path.bind path_validateIdentity fun h₃ _ hsub₃ _ => ?_
      refine Path.bind path_validateCandidateFilename fun h₄ _ hsub₄ _ => ?_
      refine Path.bind path_readPrivateFile fun h₅ candidate hsub₅ hbytes => ?_
      refine path_ite (fun _ => path_throw) fun hdigest => path_pure ?_
      rintro found ⟨⟩
      exact ⟨hsub₅.subset (hsub₄.subset (hsub₃.subset hrecord)), hbytes, (not_not.mp hdigest).symm⟩

theorem path_validateCurrent {schema : MetadataSchema} {load : Task V (Option α)}
    (hload : ∀ h, Path P call load h fun _ _ => True) :
    Path P call (validateCurrent schema load) h fun _ _ => True :=
  path_ite (fun _ => hload h) fun _ => path_pure trivial

theorem path_recoveryStatus : Path P call (recoveryStatus P S) h fun _ _ => True := by
  refine Path.bind path_journalSchema fun _ journal _ _ => ?_
  refine Path.bind path_baseSchema fun _ base _ _ => ?_
  refine path_ite (fun _ => path_pure trivial) fun _ => ?_
  refine Path.bind (path_validateCurrent fun h => path_loadJournal.weaken fun _ _ _ _ => trivial)
    fun _ _ _ _ => ?_
  refine Path.bind (path_validateCurrent fun h => path_loadBase.weaken fun _ _ _ _ => trivial)
    fun _ _ _ _ => ?_
  exact path_pure trivial

theorem path_writeJournal {record : JournalRecord} :
    Path P call (writeJournal record) h fun _ _ => True := by
  refine Path.bind path_readFile fun h' content _ _ => ?_
  cases content with
  | none => exact path_atomicWrite trivial
  | some current => exact path_ite (fun _ => path_throw) fun _ => path_atomicWrite trivial

theorem path_prepareJournal {snapshot : LocalSnapshot} {expected : Option RemoteRevision}
    {candidate : Bytes} :
    Path P call (prepareJournal P S snapshot expected candidate) h fun _ _ => True := by
  refine Path.bind path_recoveryStatus fun _ _ _ _ => ?_
  refine path_ite (fun _ => path_throw) fun _ => ?_
  refine path_ite (fun _ => path_throw) fun _ => ?_
  refine Path.bind (path_ask trivial) fun _ _ _ _ => ?_
  refine Path.bind (path_atomicWrite trivial) fun _ _ _ _ => ?_
  exact Path.bind path_writeJournal fun _ _ _ _ => path_pure trivial

theorem path_markRemoteCommitted {record : JournalRecord} {revision : RemoteRevision} :
    Path P call (markRemoteCommitted record revision) h fun _ marked =>
      marked.candidateSha256 = record.candidateSha256 ∧
      marked.source = record.source ∧ marked.expectedLocalSha256 = record.expectedLocalSha256 :=
  Path.bind path_writeJournal fun _ _ _ _ => path_pure ⟨rfl, rfl, rfl⟩

theorem path_markLocalCommitted {record : JournalRecord} :
    Path P call (markLocalCommitted record) h fun _ marked =>
      marked.candidateSha256 = record.candidateSha256 :=
  Path.bind path_writeJournal fun _ _ _ _ => path_pure rfl

theorem path_removeJournal {record : JournalRecord} :
    Path P call (removeJournal P S record) h fun _ _ => True := by
  refine Path.bind path_loadJournal fun _ journal _ _ => ?_
  cases journal with
  | none => exact path_throw
  | some current =>
    refine path_ite (fun _ => path_throw) fun _ => ?_
    refine Path.bind path_removeIfFile fun _ _ _ _ => ?_
    exact Path.bind path_removeIfFile fun _ _ _ _ => path_syncDirectory

theorem path_removeOldBase {old : Option BaseMetadata} {current : CiphertextFile} :
    Path P call (removeOldBase old current) h fun _ _ => True := by
  unfold removeOldBase
  split
  · exact path_ite (fun _ => path_removeIfFile) fun _ => path_pure trivial
  · exact path_pure trivial

theorem path_writeBase {bytes : Bytes} {revision : RemoteRevision}
    (hagreed : Agreed P h call.credential bytes) :
    Path P call (writeBase P S bytes revision) h fun _ _ => True := by
  refine Path.bind (path_ask trivial) fun h₁ id hsub₁ _ => ?_
  refine Path.bind (path_atomicWrite trivial) fun h₂ _ hsub₂ _ => ?_
  refine Path.bind path_readFile fun h₃ old hsub₃ _ => ?_
  refine Path.bind (path_atomicWrite ?_) fun _ _ _ _ => ?_
  · exact ⟨bytes, rfl, hagreed.mono (hsub₁.trans (hsub₂.trans hsub₃)).subset⟩
  · exact Path.bind path_removeOldBase fun _ _ _ _ => path_syncDirectory

end Store

/-! ### The engine -/

theorem path_requireLocalUnchanged {expected : LocalSnapshot} :
    Path P call (requireLocalUnchanged P expected) h fun h' _ =>
      ∃ current, Captured h' current ∧ current.source = expected.source ∧
        P.digestOf current.ciphertext = P.digestOf expected.ciphertext ∧
        current.authorityToken = expected.authorityToken := by
  refine Path.bind path_captureClean fun h' current _ hcaptured => ?_
  exact path_ite (fun heq => path_pure ⟨current, hcaptured, heq⟩) fun _ => path_throw

theorem path_serializeVerified {document : KdbxDocument V} {credential : SyncCredential} :
    Path P call (serializeVerified P document credential) h fun _ bytes =>
      Represents P credential bytes document := by
  refine Path.bind (path_ask trivial) fun _ answer _ _ => ?_
  refine Path.bind path_orThrow fun _ bytes _ _ => ?_
  refine Path.bind path_openVault fun _ reopened _ hopen => ?_
  exact path_ite (fun heq => path_pure ⟨reopened, hopen, heq⟩) fun _ => path_throw

section
variable {S : SyncStore}

theorem path_requireBaseUnchanged {digest : Option CiphertextDigest} :
    Path P call (requireBaseUnchanged P S digest) h fun h' _ => FoundDigest P h' digest := by
  refine Path.bind path_loadBase fun h' base _ hbase => ?_
  cases digest with
  | none =>
    cases base with
    | none => exact path_pure (hbase.1 rfl)
    | some base => exact path_throw
  | some expected =>
    cases base with
    | none => exact path_throw
    | some base =>
      refine path_ite (fun heq => path_pure ?_) fun _ => path_throw
      exact ⟨base, hbase.2 base rfl, heq.symm⟩

theorem path_installConflict {snapshot : LocalSnapshot} {bytes : Bytes} {revision : RemoteRevision}
    {digest : Option CiphertextDigest} {initial : Bool} {conflicts : List Kdbx.SyncConflict}
    (hsync : ∃ credential, call = .sync credential) (hcaptured : Captured h snapshot)
    (hobserved : Observed h ⟨bytes, revision⟩) (hdigest : FoundDigest P h digest) :
    Path P call (installConflict snapshot bytes revision digest initial conflicts) h
      fun _ _ => True := by
  refine Path.bind (path_ask trivial) fun h₁ _ hsub₁ _ => ?_
  refine Path.bind (path_ask ⟨hsync, hsub₁.subset hcaptured, hsub₁.subset hobserved,
    hdigest.mono hsub₁.subset⟩) fun _ _ _ _ => ?_
  exact Path.bind path_orThrow fun _ _ _ _ => path_pure trivial

/-- Recovery writes BASE once it has seen the candidate on both sides. -/
theorem path_recoverBase {record : JournalRecord} {candidate : Bytes} {remoteMatches : Bool}
    {revision : Option RemoteRevision} {document : KdbxDocument V}
    (hdigest : record.candidateSha256 = P.digestOf candidate)
    (hopen : openDocument P candidate call.credential = .ok document)
    (hremote : remoteMatches = true → RemoteHeld P h candidate) :
    Path P call (recoverBase P S record candidate remoteMatches revision) h fun _ _ => True := by
  refine Path.bind path_captureClean fun h₁ refreshed hsub₁ hcaptured => ?_
  refine path_ite (fun _ => path_throw) fun hboth => ?_
  simp only [ne_eq, not_or, not_not] at hboth
  split
  · exact path_throw
  · have hagreed : Agreed P h₁ call.credential candidate :=
      .committed hopen (.inl ⟨refreshed, hcaptured, hboth.1.trans hdigest⟩)
        ((hremote hboth.2).mono hsub₁.subset)
    refine Path.bind (path_writeBase hagreed) fun _ _ _ _ => ?_
    exact Path.bind path_removeJournal fun _ _ _ _ => path_pure trivial

theorem path_recoverLocal {current : LocalSnapshot} {record found : JournalRecord}
    {candidate : Bytes} {remoteMatches : Bool} {revision : Option RemoteRevision}
    {document : KdbxDocument V} (hfound : FoundJournal P h ⟨found, candidate⟩)
    (hrecord : record.candidateSha256 = found.candidateSha256 ∧ record.source = found.source ∧
      record.expectedLocalSha256 = found.expectedLocalSha256)
    (hcaptured : Captured h current)
    (hopen : openDocument P candidate call.credential = .ok document)
    (hremote : remoteMatches = true → RemoteHeld P h candidate) :
    Path P call (recoverLocal P S current record candidate remoteMatches revision) h
      fun _ _ => True := by
  obtain ⟨hdigest, hsource, hlocal⟩ := hrecord
  refine path_ite (fun _ => path_throw) fun _ => ?_
  have hcandidate : Path P call (recoverCandidate P current record candidate) h
      fun _ _ => True := by
    refine path_ite (fun _ => ?_) fun _ => path_pure trivial
    refine path_ite (fun _ => path_throw) fun hmatch => ?_
    have hpermit : Permitted P call h (.replaceIfUnchanged current candidate) := by
      simp only [localMatchesPersisted, decide_eq_true_eq, not_not] at hmatch
      exact .inr ⟨⟨found, candidate⟩, hfound, hcaptured, rfl, hmatch.1.trans hsource,
        hmatch.2.trans hlocal⟩
    exact (path_replaceIfUnchanged hpermit).weaken fun _ _ _ _ => trivial
  refine Path.bind hcandidate fun h₁ _ hsub₁ _ => ?_
  refine Path.bind path_markLocalCommitted fun h₂ marked hsub₂ hmarked => ?_
  refine path_recoverBase ?_ hopen fun hmatches => ((hremote hmatches).mono hsub₁.subset).mono hsub₂.subset
  exact hmarked.trans (hdigest.trans hfound.2.2)

theorem path_recoverLoaded {current : LocalSnapshot} (hcaptured : Captured h current) :
    Path P call (recoverLoaded P S call.credential current) h fun _ _ => True := by
  refine Path.bind path_loadJournal fun h₁ journal hsub₁ hjournal => ?_
  cases journal with
  | none => exact path_pure trivial
  | some loaded =>
    obtain ⟨record, candidate⟩ := loaded
    have hfound := hjournal _ rfl
    refine Path.bind path_openVault fun h₂ document hsub₂ hopen => ?_
    refine Path.bind path_readRemote fun h₃ remote hsub₃ hread => ?_
    -- What the journal makes of the remote object is evidence that it held the candidate.
    have hremote : (observeRemote P record remote).1 = true → RemoteHeld P h₃ candidate := by
      cases remote with
      | missing => exact nofun
      | present object =>
        intro heq
        have heq := of_decide_eq_true heq
        exact .inl ⟨object, hread, heq.trans hfound.2.2⟩
    have hfound₃ : FoundJournal P h₃ ⟨record, candidate⟩ := (hfound.mono hsub₂.subset).mono hsub₃.subset
    have hcaptured₃ : Captured h₃ current := hsub₃.subset (hsub₂.subset (hsub₁.subset hcaptured))
    generalize observeRemote P record remote = observation at hremote ⊢
    obtain ⟨remoteMatches, remoteUnchanged, revision⟩ := observation
    dsimp only at hremote ⊢
    split
    · refine path_ite (fun _ => ?_) fun _ => ?_
      · split
        · exact path_throw
        · refine Path.bind path_markRemoteCommitted fun h₄ marked hsub₄ hmarked => ?_
          exact path_recoverLocal (hfound₃.mono hsub₄.subset) hmarked (hsub₄.subset hcaptured₃) hopen
            fun hmatches => (hremote hmatches).mono hsub₄.subset
      · refine path_ite (fun _ => ?_) fun _ => path_throw
        refine path_ite (fun _ => ?_) fun _ => path_throw
        exact Path.bind path_removeJournal fun _ _ _ _ => path_pure trivial
    · exact path_recoverLocal hfound₃ ⟨rfl, rfl, rfl⟩ hcaptured₃ hopen hremote
    · exact path_recoverBase hfound.2.2 hopen hremote

/-- A plan that writes nothing to REMOTE carries bytes that REMOTE was seen with. -/
theorem Decided.remoteHeld {plan : CommitPlan} {candidate bytes : Bytes}
    (hd : Decided P h call plan candidate) (haction : plan.remoteAction = .alreadyCommitted bytes) :
    RemoteHeld P h candidate := by
  cases hd with
  | create captured missing => cases haction
  | fastForwardLocal captured found observed merges => cases haction
  | merged captured found observed merges represents => cases haction
  | keepLocal took revalidated => cases haction
  | fastForwardRemote captured found observed merges => exact .inl ⟨_, observed, rfl⟩
  | keepRemote took revalidated =>
    subst took
    exact .inl ⟨_, List.mem_append_left _ revalidated.observed, revalidated.digest⟩

theorem path_commitToLocal {plan : CommitPlan} {candidate : Bytes}
    (hd : Decided P h call plan candidate) :
    Path P call (commitToLocal P plan.localSnapshot candidate) h fun h' _ =>
      LocalHeld P h' candidate := by
  refine path_ite (fun _ => path_replaceIfUnchanged (.inl ⟨plan, hd, rfl⟩)) fun heq => ?_
  refine path_requireLocalUnchanged.weaken fun h' _ _ hsame => ?_
  obtain ⟨current, hcaptured, -, hdigest, -⟩ := hsame
  rw [not_not.mp heq]
  exact .inl ⟨current, hcaptured, hdigest⟩

theorem path_commitAnswered {plan : CommitPlan} {candidate : Bytes} {journal : JournalRecord}
    {answer : Except ProviderError RemoteRevision} {document : KdbxDocument V}
    (hd : Decided P h call plan candidate)
    (hopen : openDocument P candidate call.credential = .ok document)
    (hremote : ∀ revision, answer = .ok revision → RemoteHeld P h candidate) :
    Path P call (commitAnswered P S call.credential candidate plan journal answer) h
      fun _ _ => True := by
  unfold commitAnswered
  split
  · refine Path.bind path_captureClean fun _ current _ hcaptured => ?_
    refine Path.bind (path_recoverLoaded hcaptured) fun _ recovered _ _ => ?_
    exact path_ite (fun _ => path_pure trivial) fun _ => path_throw
  · exact Path.bind path_removeJournal fun _ _ _ _ => path_throw
  · exact path_throw
  · refine Path.bind path_markRemoteCommitted fun h₁ _ hsub₁ _ => ?_
    refine Path.bind (path_commitToLocal (hd.mono hsub₁)) fun h₂ _ hsub₂ hlocal => ?_
    refine Path.bind path_markLocalCommitted fun h₃ _ hsub₃ _ => ?_
    have hagreed : Agreed P h₃ call.credential candidate :=
      .committed hopen (hlocal.mono hsub₃.subset)
        ((((hremote _ rfl).mono hsub₁.subset).mono hsub₂.subset).mono hsub₃.subset)
    refine Path.bind (path_writeBase hagreed) fun _ _ _ _ => ?_
    exact Path.bind path_removeJournal fun _ _ _ _ => path_pure trivial

theorem path_commitCandidateBytes {plan : CommitPlan} {candidate : Bytes}
    {document : KdbxDocument V} (hd : Decided P h call plan candidate)
    (hopen : openDocument P candidate call.credential = .ok document) :
    Path P call (commitCandidateBytes P S call.credential candidate plan) h fun _ _ => True := by
  refine Path.bind path_prepareJournal fun h₁ journal hsub₁ _ => ?_
  have hd := hd.mono hsub₁
  split
  case h_1 haction =>
    refine Path.bind (path_ask ⟨plan, hd, haction⟩) fun h₂ answer hsub₂ hanswer => ?_
    refine path_commitAnswered (hd.mono hsub₂) hopen fun revision heq => ?_
    subst heq
    exact .inr ⟨_, revision, hanswer, rfl⟩
  case h_2 haction =>
    split
    case h_1 => exact path_throw
    case h_2 expected hexpected =>
      refine Path.bind (path_ask ⟨plan, hd, haction, hexpected⟩) fun h₂ answer hsub₂ hanswer => ?_
      refine path_commitAnswered (hd.mono hsub₂) hopen fun revision heq => ?_
      subst heq
      exact .inr ⟨_, revision, hanswer, rfl⟩
  case h_3 bytes haction =>
    split
    case h_1 => exact path_throw
    case h_2 expected hexpected =>
      exact path_commitAnswered hd hopen fun _ _ => hd.remoteHeld haction

theorem path_commitCandidate {plan : CommitPlan} (hd : Decided P h call plan plan.candidate) :
    Path P call (commitCandidate P S call.credential plan) h fun _ _ => True :=
  Path.bind path_openVault fun _ _ hsub hopen => path_commitCandidateBytes (hd.mono hsub) hopen

end

section Calls
variable {S : SyncStore} {credential : SyncCredential}

theorem path_mergeExisting {snapshot : LocalSnapshot} {base : BaseState} {object : RemoteObject}
    (hcaptured : Captured h snapshot) (hfound : FoundBase P h base) (hobserved : Observed h object) :
    Path P (.sync credential) (mergeExisting P S credential snapshot base object) h
      fun _ _ => True := by
  refine Path.bind path_openVault fun h₁ baseDocument hsub₁ hbase => ?_
  refine Path.bind path_openVault fun h₂ localDocument hsub₂ hlocal => ?_
  refine Path.bind path_openVault fun h₃ remoteDocument hsub₃ hremote => ?_
  refine Path.bind path_orThrow fun h₄ outcome hsub₄ hmerge => ?_
  have hsub : h <:+ h₄ := hsub₁.trans (hsub₂.trans (hsub₃.trans hsub₄))
  have hcaptured := hsub.subset hcaptured
  have hfound := hfound.mono hsub.subset
  have hobserved := hsub.subset hobserved
  have hmerges : MergesTo P credential base.ciphertext snapshot.ciphertext object.ciphertext
      outcome := ⟨baseDocument, localDocument, remoteDocument, hbase, hlocal, hremote, hmerge⟩
  cases outcome with
  | equivalent =>
    have hsame : SameVault P credential snapshot.ciphertext object.ciphertext :=
      ⟨localDocument, remoteDocument, hlocal, hremote, Kdbx.mergeGenerations_equivalent hmerge⟩
    refine Path.bind path_requireLocalUnchanged fun h₅ _ hsub₅ _ => ?_
    refine Path.bind (path_writeBase ?_) fun _ _ _ _ => path_pure trivial
    exact .equivalent (hsub₅.subset hcaptured) (hsub₅.subset hobserved) rfl hsame
  | fastForwardLocal =>
    exact path_commitCandidate (.fastForwardLocal hcaptured hfound hobserved hmerges)
  | fastForwardRemote =>
    exact path_commitCandidate (.fastForwardRemote hcaptured hfound hobserved hmerges)
  | merged document =>
    refine Path.bind path_serializeVerified fun h₅ candidate hsub₅ hrepresents => ?_
    obtain ⟨reopened, hopen, -⟩ := id hrepresents
    exact path_commitCandidateBytes (.merged (hsub₅.subset hcaptured) (hfound.mono hsub₅.subset)
      (hsub₅.subset hobserved) hmerges hrepresents) hopen
  | conflicted conflicts =>
    exact path_installConflict ⟨credential, rfl⟩ hcaptured hobserved ⟨base, hfound, rfl⟩

theorem path_sync : Path P (.sync credential) (sync P S credential) h fun _ _ => True := by
  refine Path.bind (path_ask trivial) fun _ _ _ _ => ?_
  refine Path.bind path_orThrow fun _ _ _ _ => ?_
  refine path_ite (fun _ => path_throw) fun _ => ?_
  refine Path.bind path_captureClean fun h₁ snapshot hsub₁ hcaptured => ?_
  refine Path.bind (path_recoverLoaded hcaptured) fun h₂ recovered hsub₂ _ => ?_
  refine path_ite (fun _ => path_pure trivial) fun _ => ?_
  refine Path.bind path_loadBase fun h₃ base hsub₃ hbase => ?_
  refine Path.bind path_readRemote fun h₄ remote hsub₄ hread => ?_
  have hcaptured : Captured h₄ snapshot := hsub₄.subset (hsub₃.subset (hsub₂.subset hcaptured))
  cases base with
  | none =>
    cases remote with
    | missing => exact path_commitCandidate (.create hcaptured hread)
    | present object =>
      refine Path.bind path_openVault fun h₅ localDocument hsub₅ hlocal => ?_
      refine Path.bind path_openVault fun h₆ remoteDocument hsub₆ hremote => ?_
      have hsub : h₄ <:+ h₆ := hsub₅.trans hsub₆
      refine path_ite (fun heq => ?_) fun _ => path_installConflict ⟨credential, rfl⟩
        (hsub.subset hcaptured) (hsub.subset hread) (((hbase.1 rfl).mono hsub₄.subset).mono hsub.subset)
      refine Path.bind path_requireLocalUnchanged fun h₇ _ hsub₇ _ => ?_
      refine Path.bind (path_writeBase ?_) fun _ _ _ _ => path_pure trivial
      have hsub : h₄ <:+ h₇ := hsub.trans hsub₇
      exact .equivalent (hsub.subset hcaptured) (hsub.subset hread) rfl
        ⟨localDocument, remoteDocument, hlocal, hremote, heq⟩
  | some base =>
    cases remote with
    | missing => exact path_throw
    | present object => exact path_mergeExisting hcaptured ((hbase.2 _ rfl).mono hsub₄.subset) hread

theorem path_resolve {id : Uuid} {choice : ConflictChoice} :
    Path P (.resolve id choice credential) (resolve P S id choice credential) h
      fun _ _ => True := by
  refine path_ite (fun _ => path_throw) fun _ => ?_
  refine Path.bind path_captureClean fun _ current _ _ => ?_
  refine Path.bind path_openVault fun h₀ _ _ _ => ?_
  refine Path.bind (path_ask_eq trivial) fun h₁ answer _ htook => ?_
  -- From here on we keep what was learned since the token was taken apart from the rest.
  refine Path.bind path_orThrow.frame fun h₂ pending _ hpending => ?_
  obtain ⟨new₂, hnew₂, heq⟩ := hpending
  subst heq
  refine Path.bind path_requireBaseUnchanged.frame fun h₃ _ _ hbase => ?_
  obtain ⟨new₃, hnew₃, hbase⟩ := hbase
  refine Path.bind path_requireLocalUnchanged.frame fun h₄ _ _ hlocal => ?_
  obtain ⟨new₄, hnew₄, current, hcaptured, hsame⟩ := hlocal
  refine Path.bind path_readRemote.frame fun h₅ remote _ hremote => ?_
  obtain ⟨new₅, hnew₅, hread⟩ := hremote
  cases remote with
  | missing => exact path_throw
  | present object =>
    refine path_ite (fun _ => path_throw) fun hrevision => ?_
    refine path_ite (fun _ => path_throw) fun hdigest => ?_
    have hsplit : h₅ = (new₅ ++ (new₄ ++ (new₃ ++ new₂))) ++
        (⟨.takeConflict id, .ok pending⟩ : Σ e, Answer e) :: h₀ := by
      rw [hnew₅, hnew₄, hnew₃, hnew₂, htook]
      simp only [List.append_assoc]
    have hrevalidated : Revalidated P (new₅ ++ (new₄ ++ (new₃ ++ new₂))) pending object :=
      { base := hbase.mono fun x hx => by simp [hx]
        loc := ⟨current, by
          have hcaptured : (⟨.captureClean, .ok current⟩ : Σ e, Answer e) ∈ new₄ := hcaptured
          simp [Captured, hcaptured], hsame⟩
        observed := by
          have hread : (⟨.read, .ok (.present object)⟩ : Σ e, Answer e) ∈ new₅ := hread
          simp [Observed, hread]
        revision := not_not.mp hrevision
        digest := not_not.mp hdigest }
    cases choice with
    | keepLocal => exact path_commitCandidate (.keepLocal hsplit hrevalidated)
    | keepRemote => exact path_commitCandidate (.keepRemote hsplit hrevalidated)

/-- Every path of every call acts on evidence. -/
theorem Call.permitted (call : Call) : Path P call (call.task P S) h fun _ _ => True := by
  cases call with
  | sync credential => exact path_sync
  | resolve id choice credential => exact path_resolve

theorem Call.safe (call : Call) :
    Program.Safe (transcripts (Permitted P call)) (fun _ _ => True) (call.task P S).run h := by
  have hpath : Ensures (transcripts (Permitted P call)) (call.task P S)
      (fun h' _ => h <:+ h' ∧ True) (fun _ _ => True) h := call.permitted
  exact Program.Safe.weaken hpath fun _ _ _ => trivial

end Calls

end Paths

end NianPass.Sync
