import NianPass.Sync.Script
import NianPass.Sync.Store

/-
  No lost update, and BASE is a common ancestor.

  Both are read off `Run.sound`: a write on the wire and a metadata file on disk
  carry the transcript that decided them, the transcript is true of worlds of
  the run, and a revision names one content. So the object the server replaces
  is the one the decision was made about.
-/
namespace NianPass.Sync

open Kdbx (Bytes KdbxDocument MergeOutcome)

variable {V : Type} [DecidableEq V] {P : Platform V} {S : SyncStore}
variable {past : List (World V)} {w w' : World V}

/-- `base.json` has recorded these bytes as BASE. -/
def StoredBase (P : Platform V) (past : List (World V)) (bytes : Bytes) : Prop :=
  ∃ w ∈ past, ∃ metadata : BaseMetadata, w.files .base = some metadata ∧
    metadata.ciphertextSha256 = P.digestOf bytes

/-- Why a generation of REMOTE may be written over: the call has read it, and it is semantically
equal to the BASE that the call has loaded and the candidate is the snapshot of LOCAL that it has
captured; or it is the remote input of the call's merge of these three whose result is the
candidate; or the user chose to keep LOCAL over exactly this generation. -/
inductive Overwritable (P : Platform V) (request : Request V) (object : RemoteObject) : Prop where
  | unchanged {credential base snapshot} (decides : request.call = .sync credential)
      (captured : Captured request.transcript snapshot)
      (found : FoundBase P request.transcript base)
      (observed : Observed request.transcript object)
      (same : SameVault P credential object.ciphertext base.ciphertext)
      (candidate : request.write.ciphertext = snapshot.ciphertext)
  | mergeInput {credential base snapshot document} (decides : request.call = .sync credential)
      (captured : Captured request.transcript snapshot)
      (found : FoundBase P request.transcript base)
      (observed : Observed request.transcript object)
      (merges : MergesTo P credential base.ciphertext snapshot.ciphertext object.ciphertext
        (.merged document))
      (represents : Represents P credential request.write.ciphertext document)
  | kept {credential id conflict} (resolves : request.call = .resolve id .keepLocal credential)
      (took : (⟨.takeConflict id, .ok conflict⟩ : Σ e, Answer e) ∈ request.transcript)
      (bound : object = ⟨conflict.remoteBytes, conflict.remoteRevision⟩)
      (candidate : request.write.ciphertext = conflict.loc.ciphertext)

/-- Why a snapshot of LOCAL may be written over: it entered the decision whose
candidate replaces it, or the journal that the call has read expects it and holds the candidate. -/
inductive Replaceable (P : Platform V) (running : Running V) (snapshot : LocalSnapshot)
    (candidate : Bytes) : Prop where
  | decided {plan} (decided : Decided P running.transcript running.call plan candidate)
      (entered : plan.localSnapshot = snapshot)
  | journalled {journal : LoadedJournal} (found : FoundJournal P running.transcript journal)
      (captured : Captured running.transcript snapshot)
      (source : snapshot.source = journal.record.source)
      (expected : P.digestOf snapshot.ciphertext = journal.record.expectedLocalSha256)
      (candidate : journal.candidate = candidate)

/-! ## Evidence in a truthful transcript -/

theorem mem_of_eq_append_cons {α : Type} {l later earlier : List α} {a : α}
    (h : l = later ++ a :: earlier) : a ∈ l := by
  rw [h]
  exact List.mem_append_right _ List.mem_cons_self

section Evidence
variable {h : Record V}

omit [DecidableEq V]

theorem Truthful.captured (ht : Truthful past h) {snapshot : LocalSnapshot}
    (hcaptured : Captured h snapshot) : ∃ w ∈ past, w.vault = snapshot :=
  ht _ hcaptured snapshot rfl

theorem Truthful.observed (ht : Truthful past h) {object : RemoteObject}
    (hobserved : Observed h object) : ∃ w ∈ past, w.remote = some object := by
  obtain ⟨w, hmem, hread⟩ := ht _ hobserved (.present object) rfl
  refine ⟨w, hmem, ?_⟩
  cases hremote : w.remote with
  | none => rw [hremote] at hread; cases hread
  | some current => rw [hremote] at hread; cases hread; rfl

theorem Truthful.foundBase (ht : Truthful past h) {base : BaseState}
    (hfound : FoundBase P h base) : StoredBase P past base.ciphertext := by
  obtain ⟨metadata, hread, -, hdigest, -⟩ := hfound
  obtain ⟨w, hmem, hfile⟩ := ht _ hread (some metadata) rfl
  exact ⟨w, hmem, metadata, hfile, hdigest⟩

theorem Truthful.mono {past' : List (World V)} (ht : Truthful past' h) (hsub : past' <:+ past) :
    Truthful past h := by
  obtain ⟨later, rfl⟩ := hsub
  induction later with
  | nil => exact ht
  | cons w later ih => exact ih.cons

end Evidence

theorem Run.of_mem (hrun : Run P S past w) {w₀ : World V} (hmem : w₀ ∈ past) :
    ∃ past₀, past₀ <:+ past ∧ Run P S past₀ w₀ := by
  induction hrun with
  | start initial =>
    obtain rfl := List.mem_singleton.mp hmem
    exact ⟨_, List.suffix_refl _, .start initial⟩
  | step run step ih =>
    rcases List.mem_cons.mp hmem with rfl | hmem
    · exact ⟨_, List.suffix_refl _, .step run step⟩
    · obtain ⟨past₀, hsuffix, hrun₀⟩ := ih hmem
      exact ⟨past₀, hsuffix.trans (List.suffix_cons _ _), hrun₀⟩

/-- An object that some call has observed under this revision is this object. -/
theorem Run.observed_eq (hrun : Run P S past w) {h : Record V} {object seen : RemoteObject}
    (ht : Truthful past h) (hremote : w.remote = some object) (hobserved : Observed h seen)
    (hrevision : seen.revision = object.revision) : object = seen := by
  obtain ⟨w₀, hmem, hseen⟩ := ht.observed hobserved
  have hbytes := hrun.sound.revisions object hremote w₀ hmem seen hseen hrevision
  cases object
  cases seen
  simp_all

/-- The generation a pending conflict is bound to was observed when it was installed. -/
theorem Run.conflict_observed (hrun : Run P S past w) {h : Record V} {id : Uuid}
    {conflict : PendingConflict} (ht : Truthful past h)
    (htook : (⟨.takeConflict id, .ok conflict⟩ : Σ e, Answer e) ∈ h) :
    ∃ h₀, Truthful past h₀ ∧ Observed h₀ ⟨conflict.remoteBytes, conflict.remoteRevision⟩ := by
  obtain ⟨-, w₀, hmem, engine, hpending⟩ := ht _ htook conflict rfl
  obtain ⟨past₀, hsuffix, hrun₀⟩ := hrun.of_mem hmem
  obtain ⟨h₀, call, hpermit, ht₀⟩ := hrun₀.sound.pending engine conflict hpending
  exact ⟨h₀, ht₀.mono hsuffix, hpermit.2.2.1⟩

/-- What the server replaces for the engine may be replaced. -/
theorem Run.overwritable (hrun : Run P S past w) {request : Request V} {object : RemoteObject}
    {expected : RemoteRevision} {candidate : Bytes} (hmem : request ∈ w.wire)
    (hwrite : request.write = .replaceIfRevision expected candidate)
    (hremote : w.remote = some object) (hrevision : object.revision = expected) :
    Overwritable P request object := by
  obtain ⟨hpermit, ht⟩ := hrun.sound.wire request hmem
  rw [hwrite] at hpermit
  obtain ⟨plan, hdecided, haction, hexpected⟩ := hpermit
  have hcandidate : request.write.ciphertext = candidate := by rw [hwrite]; rfl
  generalize hcall : request.call = call at hdecided
  cases hdecided with
  | create captured missing => cases haction
  | fastForwardRemote captured found observed merges => cases haction
  | keepRemote took revalidated => cases haction
  | fastForwardLocal captured found observed merges =>
    have heq := hrun.observed_eq ht hremote observed
      ((Option.some.inj hexpected).trans hrevision.symm)
    subst heq
    obtain ⟨baseDocument, localDocument, remoteDocument, hbase, -, hremote, hmerge⟩ := merges
    exact .unchanged hcall captured found observed
      ⟨remoteDocument, baseDocument, hremote, hbase,
        Kdbx.mergeGenerations_fastForwardLocal hmerge⟩ hcandidate
  | merged captured found observed merges represents =>
    have heq := hrun.observed_eq ht hremote observed
      ((Option.some.inj hexpected).trans hrevision.symm)
    subst heq
    exact .mergeInput hcall captured found observed merges (hcandidate ▸ represents)
  | keepLocal took revalidated =>
    have htook := mem_of_eq_append_cons took
    obtain ⟨h₀, ht₀, hobserved₀⟩ := hrun.conflict_observed ht htook
    have heq := hrun.observed_eq ht₀ hremote hobserved₀
      ((Option.some.inj hexpected).trans hrevision.symm)
    exact .kept hcall htook heq hcandidate

/-- What a call replaces LOCAL with, and over what. -/
theorem Run.replaceable (hrun : Run P S past w) {caller : Nat} {running : Running V}
    {snapshot : LocalSnapshot} {candidate : Bytes} {next}
    (hcall : w.calls caller = some running)
    (hprogram : running.program = .ask (.replaceIfUnchanged snapshot candidate) next) :
    Replaceable P running snapshot candidate := by
  obtain ⟨hsafe, -⟩ := hrun.sound.calls caller running hcall
  rw [hprogram] at hsafe
  obtain ⟨plan, hdecided, hentered⟩ | ⟨journal, hfound, hcaptured, hcandidate, hsource, hexpected⟩ :=
    hsafe.1
  · exact .decided hdecided hentered
  · exact .journalled hfound hcaptured hsource hexpected hcandidate

/-- The vault changes only by a call that replaces it, or by its owner. -/
theorem vault_changes {event : Event V} (hstep : Step P S past w event w')
    (hvault : w'.vault ≠ w.vault) :
    (∃ snapshot, event = .ownerSaves snapshot) ∨
    ∃ caller expected candidate answer,
      event = .perform caller (.replaceIfUnchanged expected candidate) answer ∧
      w.vault = expected ∧ w'.vault.ciphertext = candidate := by
  cases event with
  | ownerSaves snapshot => exact .inl ⟨snapshot, rfl⟩
  | perform caller effect answer =>
    obtain ⟨running, next, after, -, -, hperforms, rfl⟩ := hstep
    obtain ⟨expected, candidate, rfl, hexpected, hcandidate⟩ := hperforms.changes.vault hvault
    exact .inr ⟨caller, expected, candidate, answer, rfl, hexpected, hcandidate⟩
  | start caller engine call => obtain ⟨-, rfl⟩ := hstep; exact absurd rfl hvault
  | send caller => obtain ⟨_, _, _, -, -, rfl⟩ := hstep; exact absurd rfl hvault
  | deliver request revision => obtain ⟨-, -, -, rfl⟩ := hstep; exact absurd rfl hvault
  | drop caller => cases hstep; exact absurd rfl hvault
  | crash => cases hstep; exact absurd rfl hvault
  | othersWrite object => obtain ⟨-, rfl⟩ := hstep; exact absurd rfl hvault

/-- The remote object changes only by the server applying a write of the engine, or by others. -/
theorem remote_changes {event : Event V} (hstep : Step P S past w event w')
    (hremote : w'.remote ≠ w.remote) :
    (∃ object, event = .othersWrite object) ∨
    ∃ request revision, event = .deliver request revision := by
  cases event with
  | othersWrite object => exact .inl ⟨object, rfl⟩
  | deliver request revision => exact .inr ⟨request, revision, rfl⟩
  | perform caller effect answer =>
    obtain ⟨running, next, after, -, -, hperforms, rfl⟩ := hstep
    exact absurd hperforms.changes.frame.1 hremote
  | start caller engine call => obtain ⟨-, rfl⟩ := hstep; exact absurd rfl hremote
  | send caller => obtain ⟨_, _, _, -, -, rfl⟩ := hstep; exact absurd rfl hremote
  | drop caller => cases hstep; exact absurd rfl hremote
  | crash => cases hstep; exact absurd rfl hremote
  | ownerSaves snapshot => cases hstep; exact absurd rfl hremote

/-- In every run, whatever the others do and wherever calls stop: what the
server applies for the engine is a create where there was no object, or a
replacement of a generation that may be written over, and nothing but this and
the writes of others changes REMOTE; a step that changes LOCAL is a save of its
owner, or a call's replacement of exactly the snapshot that entered the
decision or that the journal expects. What a call goes by is what it has read itself, and what it
has read was there in the run (`Truthful`). -/
theorem no_lost_update {event : Event V} (hrun : Run P S past w)
    (hstep : Step P S past w event w') :
    (∀ request revision, event = .deliver request revision →
      (∃ candidate, request.write = .createIfAbsent candidate ∧ w.remote = none) ∨
      ∃ expected candidate object, request.write = .replaceIfRevision expected candidate ∧
        w.remote = some object ∧ object.revision = expected ∧
        Truthful past request.transcript ∧ Overwritable P request object) ∧
    (w'.remote ≠ w.remote →
      (∃ object, event = .othersWrite object) ∨
      ∃ request revision, event = .deliver request revision) ∧
    (w'.vault ≠ w.vault →
      (∃ snapshot, event = .ownerSaves snapshot) ∨
      ∃ caller running answer candidate, w.calls caller = some running ∧
        event = .perform caller (.replaceIfUnchanged w.vault candidate) answer ∧
        w'.vault.ciphertext = candidate ∧ Truthful past running.transcript ∧
        Replaceable P running w.vault candidate) := by
  refine ⟨?_, remote_changes hstep, fun hvault => ?_⟩
  · rintro request revision rfl
    obtain ⟨hmem, haccepted, -, -⟩ := hstep
    cases hwrite : request.write with
    | createIfAbsent candidate =>
      rw [hwrite] at haccepted
      exact .inl ⟨candidate, rfl, haccepted⟩
    | replaceIfRevision expected candidate =>
      rw [hwrite] at haccepted
      obtain ⟨object, hobject, hrevision⟩ := haccepted
      exact .inr ⟨expected, candidate, object, rfl, hobject, hrevision,
        (hrun.sound.wire request hmem).2, hrun.overwritable hmem hwrite hobject hrevision⟩
  · rcases vault_changes hstep hvault with howner |
      ⟨caller, expected, candidate, answer, rfl, rfl, hcandidate⟩
    · exact .inl howner
    · obtain ⟨running, next, after, hcall, hprogram, -, -⟩ := hstep
      exact .inr ⟨caller, running, answer, candidate, hcall, rfl, hcandidate,
        (hrun.sound.calls caller running hcall).2, hrun.replaceable hcall hprogram⟩

set_option maxRecDepth 100000 in
/-- A local edit is uploaded over the generation it was made from. -/
theorem no_lost_update_upload :
    ∃ (past : List (World Unit)) (w w' : World Unit) (request : Request Unit),
      Run samplePlatform sampleStore past w ∧
      Step samplePlatform sampleStore past w (.deliver request ⟨"r2"⟩) w' ∧
      ((∃ candidate, request.write = .createIfAbsent candidate ∧ w.remote = none) ∨
        ∃ expected candidate object, request.write = .replaceIfRevision expected candidate ∧
          w.remote = some object ∧ object.revision = expected ∧
          Truthful past request.transcript ∧ Overwritable samplePlatform request object) := by
  have hplays : ((play samplePlatform sampleStore replaceMoves ([sampleWorld], sampleWorld)).bind
      fun state => deliverLast ⟨"r2"⟩ state.1 state.2).isSome = true := by decide +kernel
  obtain ⟨w', hw'⟩ := Option.isSome_iff_exists.mp hplays
  obtain ⟨⟨past, w⟩, hplay, hdeliver⟩ := Option.bind_eq_some_iff.mp hw'
  have hrun := play_run sampleWorld_run hplay
  obtain ⟨request, hstep⟩ := deliverLast_step (P := samplePlatform) (S := sampleStore) hdeliver
  exact ⟨past, w, w', request, hrun, hstep, (no_lost_update hrun hstep).1 request _ rfl⟩

/-! ## BASE is a common ancestor -/

/-- LOCAL and REMOTE have each held a generation semantically equal to these bytes. -/
def CommonAncestor (P : Platform V) (past : List (World V)) (bytes : Bytes) : Prop :=
  ∃ credential,
    (∃ w ∈ past, SameVault P credential w.vault.ciphertext bytes) ∧
    ∃ w ∈ past, ∃ object, w.remote = some object ∧
      SameVault P credential object.ciphertext bytes

theorem SameVault.refl {credential : SyncCredential} {bytes : Bytes} {document : KdbxDocument V}
    (h : openDocument P bytes credential = .ok document) : SameVault P credential bytes bytes :=
  ⟨document, document, h, h, document.semanticallyEquals_refl P.keepass⟩

/-- What a call has agreed on is a common ancestor. -/
theorem Agreed.commonAncestor (hinjective : Function.Injective P.digestOf) {h : Record V}
    {credential : SyncCredential} {bytes : Bytes} (ha : Agreed P h credential bytes)
    (ht : Truthful past h) : CommonAncestor P past bytes := by
  cases ha with
  | equivalent captured observed eq same =>
    subst eq
    obtain ⟨w₁, hmem₁, hvault⟩ := ht.captured captured
    obtain ⟨w₂, hmem₂, hremote⟩ := ht.observed observed
    obtain ⟨_, document, _, hopen, _⟩ := id same
    exact ⟨credential, ⟨w₁, hmem₁, hvault ▸ same⟩, w₂, hmem₂, _, hremote, SameVault.refl hopen⟩
  | committed opens localHeld remoteHeld =>
    have hlocal : ∃ w ∈ past, w.vault.ciphertext = bytes := by
      obtain ⟨snapshot, hcaptured, hdigest⟩ | ⟨snapshot, hinstalled⟩ := localHeld
      · obtain ⟨w₁, hmem, hvault⟩ := ht.captured hcaptured
        exact ⟨w₁, hmem, by rw [hvault]; exact hinjective hdigest⟩
      · exact ht _ hinstalled rfl
    have hremote : ∃ w ∈ past, ∃ object, w.remote = some object ∧ object.ciphertext = bytes := by
      obtain ⟨object, hobserved, hdigest⟩ | ⟨request, revision, hwritten, heq⟩ := remoteHeld
      · obtain ⟨w₂, hmem, hobject⟩ := ht.observed hobserved
        exact ⟨w₂, hmem, object, hobject, hinjective hdigest⟩
      · obtain ⟨w₂, hmem, hobject⟩ := ht _ hwritten revision rfl
        exact ⟨w₂, hmem, _, hobject, heq⟩
    obtain ⟨w₁, hmem₁, hvault⟩ := hlocal
    obtain ⟨w₂, hmem₂, object, hobject, hbytes⟩ := hremote
    have hsame := SameVault.refl opens
    exact ⟨credential, ⟨w₁, hmem₁, by rwa [hvault]⟩, w₂, hmem₂, object, hobject, by rwa [hbytes]⟩

/-- Whatever `base.json` has ever recorded is a common ancestor. -/
theorem Run.storedBase (hinjective : Function.Injective P.digestOf) (hrun : Run P S past w)
    {bytes : Bytes} (hstored : StoredBase P past bytes) : CommonAncestor P past bytes := by
  obtain ⟨w₀, hmem, metadata, hfile, hdigest⟩ := hstored
  obtain ⟨past₀, hsuffix, hrun₀⟩ := hrun.of_mem hmem
  obtain ⟨h, credential, recorded, hrecorded, hagreed, ht⟩ := hrun₀.sound.base metadata hfile
  have hbytes : recorded = bytes := hinjective (hrecorded.symm.trans hdigest)
  exact hbytes ▸ hagreed.commonAncestor hinjective (ht.mono hsuffix)

/-- In every run, BASE is a common ancestor whenever `load_base` returns one: in
one piece on the directory as it is, or read file by file by a call while
others go on. -/
theorem base_is_common_ancestor (hinjective : Function.Injective P.digestOf)
    (hrun : Run P S past w) :
    (∀ base, evalReads w.files (loadBase P S).run = some (.ok (some base)) →
      CommonAncestor P past base.ciphertext) ∧
    ∀ caller running base, w.calls caller = some running →
      FoundBase P running.transcript base → CommonAncestor P past base.ciphertext := by
  refine ⟨fun base hload => ?_, fun caller running base hcall hfound => ?_⟩
  · obtain ⟨metadata, hbase, -⟩ := loadBase_eq_some hload
    exact hrun.storedBase hinjective
      ⟨w, hrun.sound.current, metadata, hbase.written, hbase.digest⟩
  · exact hrun.storedBase hinjective ((hrun.sound.calls caller running hcall).2.foundBase hfound)

set_option maxRecDepth 100000 in
/-- After the first upload BASE is there, and it is a common ancestor. -/
theorem base_is_common_ancestor_uploaded :
    ∃ (past : List (World Unit)) (w : World Unit) (base : BaseState),
      Run samplePlatform sampleStore past w ∧
      evalReads w.files (loadBase samplePlatform sampleStore).run = some (.ok (some base)) ∧
      CommonAncestor samplePlatform past base.ciphertext := by
  have hplays : ((play samplePlatform sampleStore uploadMoves ([sampleWorld], sampleWorld)).bind
      fun state => (evalReads state.2.files (loadBase samplePlatform sampleStore).run).bind
        fun result => result.toOption.join).isSome = true := by decide +kernel
  obtain ⟨base, hbase⟩ := Option.isSome_iff_exists.mp hplays
  obtain ⟨⟨past, w⟩, hplay, hbase⟩ := Option.bind_eq_some_iff.mp hbase
  obtain ⟨result, hload, hresult⟩ := Option.bind_eq_some_iff.mp hbase
  have hrun := play_run sampleWorld_run hplay
  have hload : evalReads w.files (loadBase samplePlatform sampleStore).run =
      some (.ok (some base)) := by
    cases result with
    | error error => cases hresult
    | ok found =>
      obtain rfl : found = some base := hresult
      exact hload
  exact ⟨past, w, base, hrun, hload,
    (base_is_common_ancestor samplePlatform_injective hrun).1 base hload⟩

end NianPass.Sync
