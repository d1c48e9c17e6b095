import NianPass.Mobile.Service
import NianPass.Kdbx.History

/-
  The state machine of `MobileVaultService` over whole runs.

  `Moves` lists what a call can do to the service; `Call.moves` shows that the
  calls do nothing else, whatever they find in files and whichever operation
  they name. What holds over runs follows by cases:

    * an active operation is not replaced: it ends before another begins;
    * while an operation is active, only calls that name it change the session;
    * a dirty session becomes clean by a reload or by a verified save, and a
      save is verified against the candidate that `prepare_save` made under the
      operation still active;
    * a call that fails changes nothing, but for an unlock that opened the
      staged vault and could not remove the staged file (`lost`): there the
      selection is gone.
-/
namespace NianPass.Mobile

open Method Kdbx

variable {V : Type} [DecidableEq V] (lib : Editing V)

/-! ## What a call can do -/

omit [DecidableEq V] in
/-- The document is as it was, or a mutation has changed it. -/
def Advances (document next : KdbxDocument V) : Prop :=
  next = document ∨ ∃ db, next = (document.withDatabase db).markChanged

inductive Moves (before : MobileVaultService V) (call : Call V) :
    Except MobileError Answer → MobileVaultService V → Prop
  | refused (e : MobileError) (next : Nat) :
      Moves before call (.error e) { before with nextOperation := next }
  | kept (a : Answer) (ha : ∀ save, a ≠ .prepared save) : Moves before call (.ok a) before
  | prepared (operation : Nat) (files : SaveFiles V) (session : MobileVaultSession V)
      (save : PreparedMobileSave) (hcall : call = .prepareSave operation files)
      (hactive : before.activeOperation = some operation) (hsession : before.session = some session)
      (hsave : preparedSave lib session operation files = .ok save) :
      Moves before call (.ok (.prepared save)) before
  | started (hactive : before.activeOperation = none) :
      Moves before call (.ok (.operation before.nextOperation)) { before with
        activeOperation := some before.nextOperation
        nextOperation := followingOperation before.nextOperation }
  | selected (operation : Nat) (pending : PendingMobileSelection)
      (hcall : call.operation = some operation) (hactive : before.activeOperation = some operation)
      (hsession : before.session = none) (hhandle : sourceHandle pending.handle = .ok pending.handle) :
      Moves before call (.ok .done) { before with
        pending := some pending
        activeOperation := none }
  | unlocked (session : MobileVaultSession V) (hactive : before.activeOperation = none)
      (hsession : before.session = none) (hsaved : session.savedRevision = session.document.revision) :
      Moves before call (.ok .done) { before with
        pending := none
        session := some session }
  | lost (vault : StagedVault V) (pending : PendingMobileSelection)
      (session : MobileVaultSession V) (hcall : call = .unlock vault false)
      (hactive : before.activeOperation = none) (hsession : before.session = none)
      (hpending : before.pending = some pending) (hrecovery : pending.recoveryRequired = false)
      (hopened : openCandidate vault pending.handle pending.writable = .ok session) :
      Moves before call (.error .internal) { before with pending := none }
  | edited (session : MobileVaultSession V) (document : KdbxDocument V)
      (hsession : before.session = some session)
      (hactive : before.activeOperation = none ∨
        ∃ operation, before.activeOperation = some operation ∧ call.operation = some operation)
      (hdocument : Advances session.document document) :
      Moves before call (.ok .done) { before with
        session := some { session with document := document } }
  | saved (prepared : PreparedMobileSave) (readBack : Option EncryptedGeneration)
      (reopened : Option (KdbxDocument V)) (session saved : MobileVaultSession V)
      (hcall : call = .markVerifiedSaved prepared readBack reopened)
      (hactive : before.activeOperation = some prepared.operation)
      (hsession : before.session = some session)
      (hsaved : verifiedSaved lib session prepared readBack reopened = .ok saved) :
      Moves before call (.ok .done) { before with session := some saved }
  | reloaded (operation : Nat) (vault : StagedVault V) (session next : MobileVaultSession V)
      (hcall : call = .reloadCandidate operation vault)
      (hactive : before.activeOperation = some operation) (hsession : before.session = some session)
      (hreloaded : Mobile.reloaded session vault = .ok next) :
      Moves before call (.ok .done) { before with session := some next }
  | ended (operation : Nat) (hcall : call.operation = some operation)
      (hactive : before.activeOperation = some operation) :
      Moves before call (.ok .done) { before with activeOperation := none }
  | locked (operation : Nat) (hcall : call.operation = some operation)
      (hactive : before.activeOperation = some operation) :
      Moves before call (.ok .done) { before with
        session := none
        activeOperation := none }

section Rules
variable {lib} {before : MobileVaultService V} {call : Call V} {β : Type}

theorem moves_throw (e : MobileError) :
    (throw e : Service V Answer).Yields before (Moves lib before call) :=
  .refused e before.nextOperation

theorem moves_okOr {e : MobileError} {found : Option β} {f : β → Service V Answer}
    (h : ∀ b, found = some b → (f b).Yields before (Moves lib before call)) :
    (okOr e found >>= f : Service V Answer).Yields before (Moves lib before call) :=
  yields_okOr (fun _ => moves_throw e) h

theorem moves_check {result : Except MobileError β} {f : β → Service V Answer}
    (h : ∀ b, result = .ok b → (f b).Yields before (Moves lib before call)) :
    (check result >>= f : Service V Answer).Yields before (Moves lib before call) :=
  yields_check (fun e _ => moves_throw e) h

theorem moves_guard {c : Prop} [Decidable c] {e : MobileError} {m : Service V Answer}
    (h : ¬ c → m.Yields before (Moves lib before call)) :
    (if c then throw e else m : Service V Answer).Yields before (Moves lib before call) :=
  yields_ite (fun _ => moves_throw e) h

theorem moves_startOperation (h : ¬ before.activeOperation.isSome) :
    (startOperation : Service V Answer).Yields before (Moves lib before call) := by
  apply yields_get
  apply yields_modify
  exact .started (by simpa using h)

theorem moves_beginOperation (h : ¬ before.activeOperation.isSome) :
    (beginOperation : Service V Answer).Yields before (Moves lib before call) := by
  apply yields_get
  apply moves_okOr
  intro _ _
  exact moves_startOperation h

end Rules

section Calls
variable (before : MobileVaultService V) (call : Call V)

theorem beginSelection_moves : beginSelection.Yields before (Moves lib before call) := by
  apply yields_get
  apply moves_guard
  intro hactive
  apply moves_guard
  intro _
  exact moves_startOperation hactive

theorem beginSave_moves : beginSave.Yields before (Moves lib before call) := by
  apply yields_get
  apply moves_okOr
  intro session _
  apply moves_guard
  intro hactive
  apply moves_guard
  intro _
  apply moves_guard
  intro _
  exact moves_beginOperation hactive

theorem beginReload_moves : beginReload.Yields before (Moves lib before call) := by
  apply yields_get
  apply moves_guard
  intro _
  apply moves_guard
  intro hactive
  exact moves_beginOperation hactive

theorem beginLock_moves : beginLock.Yields before (Moves lib before call) := by
  apply yields_get
  apply moves_guard
  intro hactive
  apply moves_okOr
  intro session _
  apply moves_guard
  intro _
  exact moves_beginOperation hactive

theorem beginDiscardAndLock_moves : beginDiscardAndLock.Yields before (Moves lib before call) := by
  apply yields_get
  apply moves_guard
  intro hactive
  exact moves_beginOperation hactive

theorem beginAttachmentImport_moves :
    beginAttachmentImport.Yields before (Moves lib before call) := by
  apply yields_get
  apply moves_guard
  intro hactive
  apply moves_okOr
  intro session _
  apply moves_guard
  intro _
  exact moves_beginOperation hactive

theorem beginAutofillFulfillment_moves (secret : Except MobileError Unit) :
    (beginAutofillFulfillment secret).Yields before (Moves lib before call) := by
  apply yields_get
  apply moves_guard
  intro hactive
  have hnone : before.activeOperation = none := by simpa using hactive
  -- A failure clears the operation again, and none was active before.
  have hcleared : ∀ e, Moves lib before call (.error e) { before with
      activeOperation := none
      nextOperation := followingOperation before.nextOperation } := by
    intro e
    rw [← hnone]
    exact .refused e _
  apply yields_modify
  split
  · exact .started hnone
  · apply yields_modify
    exact hcleared _
  · apply yields_modify
    exact hcleared _

theorem completeSelection_moves (operation : Nat) (stagedPath fileName sourceToken : String)
    (writable recoveryRequired : Bool) (hcall : call.operation = some operation) :
    (completeSelection operation stagedPath fileName sourceToken writable recoveryRequired).Yields
      before (Moves lib before call) := by
  apply yields_get
  apply moves_guard
  intro hguard
  have hactive : before.activeOperation = some operation := by
    by_contra h
    exact hguard (Or.inl h)
  have hsession : before.session = none := by
    by_contra h
    exact hguard (Or.inr (Option.isSome_iff_ne_none.mpr h))
  apply moves_check
  intro handle hhandle
  have hsame : handle = sourceToken := by
    unfold sourceHandle at hhandle
    split at hhandle
    · cases hhandle
    · exact (Except.ok.inj hhandle).symm
  apply yields_modify
  exact .selected operation _ hcall hactive hsession (by rw [hsame] at hhandle ⊢; exact hhandle)

omit [DecidableEq V] in
/-- A session that has just been opened is clean. -/
theorem openCandidate_saved {vault : StagedVault V} {handle : String} {writable : Bool}
    {session : MobileVaultSession V} (h : openCandidate vault handle writable = .ok session) :
    session.savedRevision = session.document.revision := by
  obtain ⟨before, opened, after⟩ := vault
  rcases before with _ | before
  · cases h
  · rcases opened with e | document
    · cases h
    · rcases after with _ | after
      · cases h
      · change (if before ≠ after then Except.error _ else Except.ok _) = _ at h
        split at h
        · cases h
        · cases h
          rfl

theorem unlock_moves (vault : StagedVault V) (removed : Bool)
    (hcall : call = .unlock vault removed)
    (hhandle : ∀ pending, before.pending = some pending →
      sourceHandle pending.handle = .ok pending.handle) :
    (unlock vault removed).Yields before (Moves lib before call) := by
  apply yields_get
  apply moves_guard
  intro hactive
  apply moves_guard
  intro hsession
  apply moves_okOr
  intro pending hpending
  -- Putting the selection back gives the service as it was.
  have hback : ∀ e, Moves lib before call (.error e) { before with pending := some pending } := by
    intro e
    rw [← hpending]
    exact .refused e before.nextOperation
  apply yields_modify
  apply yields_ite
  · intro _
    apply yields_modify
    exact hback _
  intro hrecovery
  apply yields_check
  · intro e he
    rw [hhandle pending hpending] at he
    cases he
  intro handle hok
  obtain rfl : pending.handle = handle :=
    Except.ok.inj ((hhandle pending hpending).symm.trans hok)
  split
  · apply yields_modify
    exact hback _
  · case h_2 session hopened =>
    apply yields_ite
    · intro _
      apply yields_modify
      exact .unlocked session (by simpa using hactive) (by simpa using hsession)
        (openCandidate_saved hopened)
    · intro hremoved
      have hfalse : removed = false := by simpa using hremoved
      subst hfalse
      exact .lost vault pending session hcall (by simpa using hactive) (by simpa using hsession)
        hpending (by simpa using hrecovery) hopened

theorem completeAutofillFulfillment_moves (operation : Nat)
    (hcall : call.operation = some operation) :
    (completeAutofillFulfillment operation).Yields before (Moves lib before call) := by
  apply yields_get
  apply moves_guard
  intro hguard
  have hactive : before.activeOperation = some operation := by
    by_contra h
    exact hguard (Or.inl h)
  apply yields_modify
  exact .ended operation hcall hactive

theorem cancelOperation_moves (operation : Nat) (hcall : call.operation = some operation) :
    (cancelOperation operation).Yields before (Moves lib before call) := by
  apply yields_modify
  split
  · case isTrue hactive => exact .ended operation hcall hactive
  · exact .kept .done fun _ => nofun

theorem completeLockOperation_moves (operation : Nat) (hcall : call.operation = some operation) :
    (completeLockOperation operation).Yields before (Moves lib before call) := by
  apply yields_get
  apply moves_guard
  intro hguard
  have hactive : before.activeOperation = some operation := by
    by_contra h
    exact hguard (Or.inl h)
  apply yields_modify
  exact .locked operation hcall hactive

theorem prepareSave_moves (operation : Nat) (files : SaveFiles V)
    (hcall : call = .prepareSave operation files) :
    (prepareSave lib operation files).Yields before (Moves lib before call) := by
  apply yields_get
  apply moves_guard
  intro hguard
  apply moves_okOr
  intro session hsession
  apply moves_check
  intro save hsave
  exact .prepared operation files session save hcall (not_not.mp hguard) hsession hsave

theorem markVerifiedSaved_moves (prepared : PreparedMobileSave)
    (readBack : Option EncryptedGeneration) (reopened : Option (KdbxDocument V))
    (hcall : call = .markVerifiedSaved prepared readBack reopened) :
    (markVerifiedSaved lib prepared readBack reopened).Yields before (Moves lib before call) := by
  apply yields_get
  apply moves_guard
  intro hguard
  apply moves_okOr
  intro session hsession
  apply moves_check
  intro saved hsaved
  apply yields_modify
  exact .saved prepared readBack reopened session saved hcall (not_not.mp hguard) hsession hsaved

theorem reloadCandidate_moves (operation : Nat) (vault : StagedVault V)
    (hcall : call = .reloadCandidate operation vault) :
    (reloadCandidate operation vault).Yields before (Moves lib before call) := by
  apply yields_get
  apply moves_guard
  intro hguard
  apply moves_okOr
  intro session hsession
  apply moves_check
  intro next hnext
  apply yields_modify
  exact .reloaded operation vault session next hcall (not_not.mp hguard) hsession hnext

omit [DecidableEq V] in
/-- No request of the mobile service duplicates an entry. -/
theorem checked_ne_duplicate {request : MobileMutation} {document : KdbxDocument V}
    {mutation : Mutation} (h : request.checked lib document = .ok mutation) (id : String) :
    mutation ≠ .duplicateEntry id := by
  rintro rfl
  cases request with
  | updateEntry request =>
    obtain ⟨-, -, h⟩ := Loop.bind_eq_ok h
    obtain ⟨expiry, -, h⟩ := Loop.bind_eq_ok h
    obtain ⟨totp, -, h⟩ := Loop.bind_eq_ok h
    obtain ⟨icon, -, h⟩ := Loop.bind_eq_ok h
    cases h
  | setEntryTags | createEntry | deleteEntry | deleteGroup | deleteCustomField =>
    obtain ⟨-, -, h⟩ := Loop.bind_eq_ok h
    cases h
  | moveEntry | createGroup | renameGroup | moveGroup =>
    obtain ⟨-, -, h⟩ := Loop.bind_eq_ok h
    obtain ⟨-, -, h⟩ := Loop.bind_eq_ok h
    cases h
  | setCustomField entryId name value isProtected =>
    obtain ⟨-, -, h⟩ := Loop.bind_eq_ok h
    obtain ⟨listed, -, h⟩ := Loop.bind_eq_ok h
    obtain ⟨-, -, h⟩ := Loop.bind_eq_ok h
    cases h

/-- A mutation that fails leaves the document, so the session is as it was. -/
theorem mutateDocument_moves {session : MobileVaultSession V} {mutation : Mutation} (env : Ambient)
    (hmutation : ∀ id, mutation ≠ .duplicateEntry id) (hsession : before.session = some session)
    (hactive : before.activeOperation = none ∨
      ∃ operation, before.activeOperation = some operation ∧ call.operation = some operation) :
    (mutateDocument lib session mutation env).Yields before (Moves lib before call) := by
  have hcommits := mutation.commits lib env session.document hmutation
  change mutation.Commits lib env _ ((mutation.body lib env).call session.document).1
    ((mutation.body lib env).call session.document).2 at hcommits
  unfold mutateDocument
  dsimp only
  apply yields_modify
  generalize (mutation.body lib env).call session.document = outcome at hcommits
  obtain ⟨r, document⟩ := outcome
  cases hcommits with
  | refused e =>
    show Moves lib before call (.error _) { before with session := some session }
    rw [← hsession]
    exact .refused _ before.nextOperation
  | kept a _ => exact .edited session session.document hsession hactive (Or.inl rfl)
  | changed a db h => exact .edited session _ hsession hactive (Or.inr ⟨db, rfl⟩)

theorem mutate_moves (request : MobileMutation) (env : Ambient) :
    (mutate lib request env).Yields before (Moves lib before call) := by
  apply yields_get
  apply moves_guard
  intro hactive
  apply moves_okOr
  intro session hsession
  apply moves_guard
  intro _
  apply moves_check
  intro mutation hmutation
  exact mutateDocument_moves lib before call env (checked_ne_duplicate lib hmutation) hsession
    (Or.inl (by simpa using hactive))

theorem completeAttachmentImport_moves (operation : Nat) (entryId name : String)
    (staged : StagedAttachment) (env : Ambient) (hcall : call.operation = some operation) :
    (completeAttachmentImport lib operation entryId name staged env).Yields before
      (Moves lib before call) := by
  apply yields_get
  apply moves_guard
  intro hguard
  apply moves_okOr
  intro session hsession
  apply moves_guard
  intro _
  apply moves_check
  intro bytes _
  exact mutateDocument_moves lib before call env (fun _ => nofun) hsession
    (Or.inr ⟨operation, not_not.mp hguard, hcall⟩)

end Calls

/-- The handle of a selection was checked when the vault was selected. -/
def HandleChecked (service : MobileVaultService V) : Prop :=
  ∀ pending, service.pending = some pending → sourceHandle pending.handle = .ok pending.handle

/-- A call does one of the things that `Moves` lists. -/
theorem Call.moves (call : Call V) (before : MobileVaultService V) (h : HandleChecked before) :
    Moves lib before call (call.perform lib before).1 (call.perform lib before).2 := by
  cases call with
  | beginSelection => exact beginSelection_moves lib before _
  | completeSelection operation stagedPath fileName sourceToken writable recoveryRequired =>
    exact completeSelection_moves lib before _ operation stagedPath fileName sourceToken writable
      recoveryRequired rfl
  | unlock vault removed => exact unlock_moves lib before _ vault removed rfl h
  | mutate request env => exact mutate_moves lib before _ request env
  | beginSave => exact beginSave_moves lib before _
  | prepareSave operation files => exact prepareSave_moves lib before _ operation files rfl
  | markVerifiedSaved prepared readBack reopened =>
    exact markVerifiedSaved_moves lib before _ prepared readBack reopened rfl
  | beginReload => exact beginReload_moves lib before _
  | reloadCandidate operation vault => exact reloadCandidate_moves lib before _ operation vault rfl
  | cancelOperation operation => exact cancelOperation_moves lib before _ operation rfl
  | beginLock => exact beginLock_moves lib before _
  | beginDiscardAndLock => exact beginDiscardAndLock_moves lib before _
  | completeLock operation => exact completeLockOperation_moves lib before _ operation rfl
  | beginAttachmentImport => exact beginAttachmentImport_moves lib before _
  | completeAttachmentImport operation entryId name staged env =>
    exact completeAttachmentImport_moves lib before _ operation entryId name staged env rfl
  | beginAutofillFulfillment secret => exact beginAutofillFulfillment_moves lib before _ secret
  | completeAutofillFulfillment operation =>
    exact completeAutofillFulfillment_moves lib before _ operation rfl

/-! ## Identities of generations -/

theorem digitChar_injective : ∀ a b : Fin 16, Nat.digitChar a = Nat.digitChar b → a = b := by
  decide

theorem byte_eq_of_digits {a b : UInt8}
    (hhigh : Nat.digitChar (a.toNat / 16) = Nat.digitChar (b.toNat / 16))
    (hlow : Nat.digitChar (a.toNat % 16) = Nat.digitChar (b.toNat % 16)) : a = b := by
  have ha := a.toNat_lt
  have hb := b.toNat_lt
  have h1 := digitChar_injective ⟨a.toNat / 16, by omega⟩ ⟨b.toNat / 16, by omega⟩ hhigh
  have h2 := digitChar_injective ⟨a.toNat % 16, by omega⟩ ⟨b.toNat % 16, by omega⟩ hlow
  simp only [Fin.mk.injEq] at h1 h2
  apply UInt8.toNat_inj.mp
  omega

theorem hex_injective (left right : List UInt8)
    (h : (left.flatMap fun byte =>
        [Nat.digitChar (byte.toNat / 16), Nat.digitChar (byte.toNat % 16)]) =
      right.flatMap fun byte =>
        [Nat.digitChar (byte.toNat / 16), Nat.digitChar (byte.toNat % 16)]) : left = right := by
  induction left generalizing right with
  | nil =>
    cases right with
    | nil => rfl
    | cons b right => simp at h
  | cons a left ih =>
    cases right with
    | nil => simp at h
    | cons b right =>
      simp only [List.flatMap_cons, List.cons_append, List.nil_append, List.cons.injEq] at h
      obtain ⟨hhigh, hlow, hrest⟩ := h
      rw [byte_eq_of_digits hhigh hlow, ih right hrest]

/-- The identity a generation has for native code identifies it. -/
theorem nativeIdentity_injective {left right : EncryptedGeneration}
    (h : left.nativeIdentity = right.nativeIdentity) : left = right := by
  have hlist := congrArg String.toList h
  simp only [EncryptedGeneration.nativeIdentity, String.toList_append, Nat.toString_eq_ofList_toDigits,
    String.toList_ofList, List.append_assoc] at hlist
  -- Neither the decimal size nor the hexadecimal digest contains the colon.
  have hcolon : ':' ∉ Nat.toDigits 10 left.size := by
    intro hmem
    have := Nat.isDigit_of_mem_toDigits (by decide) (by decide) hmem
    revert this
    decide
  have hhex : ':' ∉ left.sha256.flatMap fun byte =>
      [Nat.digitChar (byte.toNat / 16), Nat.digitChar (byte.toNat % 16)] := by
    intro hmem
    obtain ⟨byte, -, hbyte⟩ := List.mem_flatMap.mp hmem
    have hlt := byte.toNat_lt
    have hdigit : ∀ a : Fin 16, ':' ≠ Nat.digitChar a := by decide
    rcases List.mem_pair.mp hbyte with h | h
    · exact hdigit ⟨byte.toNat / 16, by omega⟩ h
    · exact hdigit ⟨byte.toNat % 16, by omega⟩ h
  obtain ⟨hsize, -, hdigest⟩ := (List.append_cons_inj_of_notMem hcolon hhex).mp hlist
  have hn : left.size = right.size := by
    rw [← Nat.ofDigitChars_ten_toDigits (n := left.size), hsize, Nat.ofDigitChars_ten_toDigits]
  cases left
  cases right
  simp only [EncryptedGeneration.mk.injEq]
  exact ⟨hn, hex_injective _ _ hdigest⟩

/-! ## What saves were checked against -/

theorem elim_eq_ok {ε α : Type} {x : Option α} {e : ε} {a : α}
    (h : x.elim (Except.error e) Except.ok = .ok a) : x = some a := by
  cases x with
  | none => cases h
  | some b => exact congrArg some (Except.ok.inj h)

/-- A save is prepared from the revision of the document and names the candidate that was
written. -/
theorem preparedSave_eq {session : MobileVaultSession V} {operation : Nat} {files : SaveFiles V}
    {save : PreparedMobileSave} (h : preparedSave lib session operation files = .ok save) :
    save.operation = operation ∧ save.revision = session.document.revision ∧
      ∃ candidate, files.candidate = some candidate ∧
        save.candidate = candidate.nativeIdentity := by
  unfold preparedSave at h
  split at h
  · cases h
  split at h
  · cases h
  obtain ⟨current, -, h⟩ := Loop.bind_eq_ok h
  split at h
  · cases h
  obtain ⟨-, -, h⟩ := Loop.bind_eq_ok h
  split at h
  · cases h
  obtain ⟨reopened, -, h⟩ := Loop.bind_eq_ok h
  split at h
  · cases h
  obtain ⟨candidate, hcandidate, h⟩ := Loop.bind_eq_ok h
  cases h
  exact ⟨rfl, rfl, candidate, elim_eq_ok hcandidate, rfl⟩

/-- A save is verified when the revision is the one it was prepared from and the file read back is
the candidate and opens to the document. -/
theorem verifiedSaved_eq {session saved : MobileVaultSession V} {prepared : PreparedMobileSave}
    {readBack : Option EncryptedGeneration} {reopened : Option (KdbxDocument V)}
    (h : verifiedSaved lib session prepared readBack reopened = .ok saved) :
    session.document.revision = prepared.revision ∧
      (∃ final, readBack = some final ∧ final.nativeIdentity = prepared.candidate) ∧
      (∃ other, reopened = some other ∧ verifySemanticEquivalence lib session.document other) ∧
      saved.savedRevision = saved.document.revision := by
  unfold verifiedSaved at h
  split at h
  · cases h
  · case isFalse hrevision =>
    obtain ⟨final, hfinal, h⟩ := Loop.bind_eq_ok h
    split at h
    · cases h
    · case isFalse hidentity =>
      obtain ⟨other, hother, h⟩ := Loop.bind_eq_ok h
      split at h
      · cases h
      · case isFalse hequal =>
        cases h
        exact ⟨not_not.mp hrevision, ⟨final, elim_eq_ok hfinal, not_not.mp hidentity⟩,
          ⟨other, elim_eq_ok hother, not_not.mp hequal⟩, rfl⟩

omit [DecidableEq V] in
theorem reloaded_saved {session next : MobileVaultSession V} {vault : StagedVault V}
    (h : reloaded session vault = .ok next) : next.savedRevision = next.document.revision := by
  unfold reloaded at h
  obtain ⟨before, -, h⟩ := Loop.bind_eq_ok h
  obtain ⟨candidate, -, h⟩ := Loop.bind_eq_ok h
  obtain ⟨after, -, h⟩ := Loop.bind_eq_ok h
  split at h
  · cases h
  · cases h
    rfl

/-! ## The invariant -/

/-- What holds in every state: the handle of a selection was checked, and no session has a saved
revision that lies ahead of its document. -/
structure Sound (service : MobileVaultService V) : Prop where
  handle : HandleChecked service
  saved : ∀ session, service.session = some session →
    session.savedRevision ≤ session.document.revision

omit [DecidableEq V] in
theorem Advances.revision_le {document next : KdbxDocument V} (h : Advances document next) :
    document.revision ≤ next.revision := by
  obtain rfl | ⟨db, rfl⟩ := h
  · exact le_refl _
  · unfold KdbxDocument.markChanged
    split
    · exact le_refl _
    · exact Nat.le_succ _

omit [DecidableEq V] in
/-- A mutation cannot clean a document. -/
theorem Advances.dirty {document next : KdbxDocument V} {saved : Nat} (h : Advances document next)
    (hsaved : saved ≤ document.revision) (hdirty : document.hasChangesSince saved) :
    next.hasChangesSince saved := by
  obtain rfl | ⟨db, rfl⟩ := h
  · exact hdirty
  · unfold KdbxDocument.markChanged
    split
    · simp [KdbxDocument.hasChangesSince]
    · have hne : document.revision + 1 ≠ saved := by omega
      simp [KdbxDocument.hasChangesSince, KdbxDocument.withDatabase, hne]

theorem Moves.sound {before after : MobileVaultService V} {call : Call V}
    {r : Except MobileError Answer} (h : Moves lib before call r after) (hs : Sound before) :
    Sound after := by
  cases h with
  | refused e next => exact ⟨hs.handle, hs.saved⟩
  | kept => exact hs
  | prepared => exact hs
  | started => exact ⟨hs.handle, hs.saved⟩
  | selected operation pending _ _ hsession hhandle =>
    refine ⟨?_, hs.saved⟩
    rintro _ ⟨⟩
    exact hhandle
  | unlocked session _ _ hsaved =>
    refine ⟨(fun _ h => nomatch h), ?_⟩
    rintro _ ⟨⟩
    exact hsaved.le
  | lost => exact ⟨(fun _ h => nomatch h), hs.saved⟩
  | edited session document hsession _ hdocument =>
    refine ⟨hs.handle, ?_⟩
    rintro _ ⟨⟩
    exact (hs.saved session hsession).trans hdocument.revision_le
  | saved prepared readBack reopened session saved _ _ _ hsaved =>
    refine ⟨hs.handle, ?_⟩
    rintro _ ⟨⟩
    exact (verifiedSaved_eq lib hsaved).2.2.2.le
  | reloaded operation vault session next _ _ _ hreloaded =>
    refine ⟨hs.handle, ?_⟩
    rintro _ ⟨⟩
    exact (reloaded_saved hreloaded).le
  | ended => exact ⟨hs.handle, hs.saved⟩
  | locked => exact ⟨hs.handle, fun _ h => nomatch h⟩

theorem perform_sound (call : Call V) {before : MobileVaultService V} (hs : Sound before) :
    Sound (call.perform lib before).2 :=
  (call.moves lib before hs.handle).sound lib hs

/-- The service after a sequence of calls. -/
def performCalls (service : MobileVaultService V) (calls : List (Call V)) : MobileVaultService V :=
  calls.foldl (fun service call => (call.perform lib service).2) service

/-! ## Runs -/

/-- A call made, with the service before it. -/
structure Event (V : Type) where
  before : MobileVaultService V
  call : Call V

def Event.answer (event : Event V) : Except MobileError Answer :=
  (event.call.perform lib event.before).1

/-- A call that marks a save has the save from `prepare_save`, which is the only place that makes
one. -/
def Obtained (events : List (Event V)) (call : Call V) : Prop :=
  ∀ prepared readBack reopened, call = .markVerifiedSaved prepared readBack reopened →
    ∃ event ∈ events, event.answer lib = .ok (.prepared prepared)

/-- The calls made since the service was new, the last one first. -/
inductive Run : List (Event V) → MobileVaultService V → Prop
  | start : Run [] {}
  | step {events : List (Event V)} {service : MobileVaultService V} (call : Call V)
      (h : Run events service) (hcall : Obtained lib events call) :
      Run (⟨service, call⟩ :: events) (call.perform lib service).2

theorem Run.sound {events : List (Event V)} {service : MobileVaultService V}
    (h : Run lib events service) : Sound service := by
  induction h with
  | start => exact ⟨(fun _ h => nomatch h), fun _ h => nomatch h⟩
  | step call _ _ ih => exact perform_sound lib call ih

theorem Run.sound_before {events : List (Event V)} {service : MobileVaultService V}
    (h : Run lib events service) : ∀ event ∈ events, Sound event.before := by
  induction h with
  | start => exact fun _ h => nomatch h
  | step call hrun _ ih =>
    intro event hevent
    rcases List.mem_cons.mp hevent with rfl | hmem
    · exact hrun.sound
    · exact ih event hmem

/-! ## The session -/

/-- An active operation is not replaced by another. -/
theorem Moves.activeOperation {before after : MobileVaultService V} {call : Call V}
    {r : Except MobileError Answer} (h : Moves lib before call r after) {id : Nat}
    (hactive : before.activeOperation = some id) :
    after.activeOperation = some id ∨ after.activeOperation = none := by
  cases h with
  | started hnone =>
    rw [hactive] at hnone
    cases hnone
  | selected | ended | locked => exact Or.inr rfl
  | _ => exact Or.inl hactive

/-- A call that names another operation, or none, changes neither the session nor the active
operation. -/
theorem Moves.other {before after : MobileVaultService V} {call : Call V}
    {r : Except MobileError Answer} (h : Moves lib before call r after) {id : Nat}
    (hactive : before.activeOperation = some id) (hother : call.operation ≠ some id) :
    after.session = before.session ∧ after.activeOperation = some id := by
  cases h with
  | refused | kept | prepared | lost => exact ⟨rfl, hactive⟩
  | started hnone | unlocked _ hnone =>
    rw [hactive] at hnone
    cases hnone
  | selected operation _ hcall hsame | ended operation hcall hsame | locked operation hcall hsame =>
    rw [hactive] at hsame
    cases hsame
    exact absurd hcall hother
  | edited _ _ _ hown =>
    obtain hnone | ⟨operation, hsame, hcall⟩ := hown
    · rw [hactive] at hnone
      cases hnone
    · rw [hactive] at hsame
      cases hsame
      exact absurd hcall hother
  | saved prepared _ _ _ _ hcall hsame =>
    rw [hactive] at hsame
    cases hsame
    subst hcall
    exact absurd rfl hother
  | reloaded operation _ _ _ hcall hsame =>
    rw [hactive] at hsame
    cases hsame
    subst hcall
    exact absurd rfl hother

/-- The run lemma: the session waits for the calls that name its operation. -/
theorem session_unchanged {service : MobileVaultService V} (hs : Sound service) {id : Nat}
    (hactive : service.activeOperation = some id) (calls : List (Call V))
    (hother : ∀ call ∈ calls, call.operation ≠ some id) :
    (performCalls lib service calls).session = service.session ∧
      (performCalls lib service calls).activeOperation = some id := by
  induction calls generalizing service with
  | nil => exact ⟨rfl, hactive⟩
  | cons call calls ih =>
    obtain ⟨hsession, hstill⟩ := (call.moves lib service hs.handle).other lib hactive
      (hother call List.mem_cons_self)
    obtain ⟨hrest, hend⟩ := ih (perform_sound lib call hs) hstill
      fun c hc => hother c (List.mem_cons_of_mem _ hc)
    exact ⟨hrest.trans hsession, hend⟩

/-- The ways in which a dirty session becomes clean. -/
theorem Moves.cleans {before after : MobileVaultService V} {call : Call V}
    {r : Except MobileError Answer} (h : Moves lib before call r after) (hs : Sound before)
    {session next : MobileVaultSession V} (hsession : before.session = some session)
    (hdirty : session.isDirty) (hnext : after.session = some next) (hclean : ¬ next.isDirty) :
    (∃ operation vault, call = .reloadCandidate operation vault ∧
      before.activeOperation = some operation) ∨
    ∃ prepared readBack reopened saved, call = .markVerifiedSaved prepared readBack reopened ∧
      before.activeOperation = some prepared.operation ∧
      verifiedSaved lib session prepared readBack reopened = .ok saved := by
  -- Where the session stays, it stays dirty.
  have hsame : after.session = before.session → False := by
    intro heq
    rw [heq, hsession] at hnext
    cases hnext
    exact hclean hdirty
  cases h with
  | refused | kept | prepared | started | selected | lost | ended => exact (hsame rfl).elim
  | unlocked _ _ hnone =>
    rw [hsession] at hnone
    cases hnone
  | edited edited document hedited _ hdocument =>
    rw [hsession] at hedited
    cases hedited
    cases hnext
    exact (hclean (hdocument.dirty (hs.saved session hsession) hdirty)).elim
  | saved prepared readBack reopened old saved hcall hactive hold hsaved =>
    rw [hsession] at hold
    cases hold
    exact Or.inr ⟨prepared, readBack, reopened, saved, hcall, hactive, hsaved⟩
  | reloaded operation vault old _ hcall hactive _ _ => exact Or.inl ⟨operation, vault, hcall, hactive⟩
  | locked => cases hnext

/-- An unlock is not refused and opens the staged vault, and the staged file cannot be removed. -/
def RemovalFails (service : MobileVaultService V) (call : Call V) : Prop :=
  ∃ vault pending session, call = .unlock vault false ∧ service.activeOperation = none ∧
    service.session = none ∧ service.pending = some pending ∧ pending.recoveryRequired = false ∧
    openCandidate vault pending.handle pending.writable = .ok session

theorem Moves.failed {before after : MobileVaultService V} {call : Call V} {e : MobileError}
    (h : Moves lib before call (.error e) after) (hremoval : ¬ RemovalFails before call) :
    after.pending = before.pending ∧ after.session = before.session ∧
      after.activeOperation = before.activeOperation := by
  cases h with
  | refused => exact ⟨rfl, rfl, rfl⟩
  | lost vault pending session hcall hactive hsession hpending hrecovery hopened =>
    exact (hremoval ⟨vault, pending, session, hcall, hactive, hsession, hpending, hrecovery,
      hopened⟩).elim

/-- A prepared save comes from a candidate written from the document of its revision. -/
theorem Run.prepared {events : List (Event V)} {service : MobileVaultService V}
    (h : Run lib events service) {prepared : PreparedMobileSave} {event : Event V}
    (hevent : event ∈ events) (hanswer : event.answer lib = .ok (.prepared prepared)) :
    ∃ files session candidate, event.call = .prepareSave prepared.operation files ∧
      event.before.activeOperation = some prepared.operation ∧
      event.before.session = some session ∧ session.document.revision = prepared.revision ∧
      files.candidate = some candidate ∧ candidate.nativeIdentity = prepared.candidate := by
  have hmoves := event.call.moves lib event.before (h.sound_before lib event hevent).handle
  change Moves lib event.before event.call (event.answer lib) _ at hmoves
  rw [hanswer] at hmoves
  generalize (event.call.perform lib event.before).2 = after at hmoves
  cases hmoves with
  | kept _ ha => exact absurd rfl (ha prepared)
  | prepared operation files session _ hcall hactive hsession hsave =>
    obtain ⟨hoperation, hrevision, candidate, hcandidate, hidentity⟩ := preparedSave_eq lib hsave
    subst hoperation
    exact ⟨files, session, candidate, hcall, hactive, hsession, hrevision.symm, hcandidate,
      hidentity.symm⟩

/-- The state machine of the mobile session. In every run, at every call:
an active operation is not replaced by another; until a call names the active operation, the
session stays as it is; a dirty session becomes clean only by a reload under the active operation,
or when the file read back has the generation of the candidate that was written, under the
operation still active, from the revision the document has now, and opens to an equivalent
document; and an error leaves the selection, the session and the active operation alone, unless
the vault was opened and the staged file could not be removed. -/
theorem session_state_machine {events : List (Event V)} {service : MobileVaultService V}
    (hrun : Run lib events service) (call : Call V) (hcall : Obtained lib events call) :
    (∀ id, service.activeOperation = some id →
      ((call.perform lib service).2.activeOperation = some id ∨
        (call.perform lib service).2.activeOperation = none) ∧
      ∀ calls : List (Call V), (∀ c ∈ calls, c.operation ≠ some id) →
        (performCalls lib service calls).session = service.session ∧
          (performCalls lib service calls).activeOperation = some id) ∧
    (∀ session next, service.session = some session → session.isDirty →
      (call.perform lib service).2.session = some next → ¬ next.isDirty →
      (∃ operation vault, call = .reloadCandidate operation vault ∧
        service.activeOperation = some operation) ∨
      ∃ prepared candidate reopened,
        call = .markVerifiedSaved prepared (some candidate) (some reopened) ∧
        service.activeOperation = some prepared.operation ∧
        verifySemanticEquivalence lib session.document reopened ∧
        ∃ event ∈ events, ∃ files source,
          event.call = .prepareSave prepared.operation files ∧
          event.answer lib = .ok (.prepared prepared) ∧
          event.before.activeOperation = some prepared.operation ∧
          event.before.session = some source ∧
          source.document.revision = session.document.revision ∧
          files.candidate = some candidate) ∧
    (∀ e, (call.perform lib service).1 = .error e → ¬ RemovalFails service call →
      (call.perform lib service).2.pending = service.pending ∧
      (call.perform lib service).2.session = service.session ∧
      (call.perform lib service).2.activeOperation = service.activeOperation) := by
  have hsound := hrun.sound
  have hmoves := call.moves lib service hsound.handle
  refine ⟨?_, ?_, ?_⟩
  · intro id hactive
    exact ⟨hmoves.activeOperation lib hactive, session_unchanged lib hsound hactive⟩
  · intro session next hsession hdirty hnext hclean
    obtain hreload | ⟨prepared, readBack, reopened, saved, rfl, hactive, hsaved⟩ :=
      hmoves.cleans lib hsound hsession hdirty hnext hclean
    · exact Or.inl hreload
    obtain ⟨hrevision, ⟨final, rfl, hfinal⟩, ⟨other, rfl, hequal⟩, -⟩ := verifiedSaved_eq lib hsaved
    obtain ⟨event, hevent, hanswer⟩ := hcall prepared _ _ rfl
    obtain ⟨files, source, candidate, hprepare, hunder, hsource, hsame, hcandidate, hidentity⟩ :=
      hrun.prepared lib hevent hanswer
    obtain rfl : final = candidate := nativeIdentity_injective (hfinal.trans hidentity.symm)
    exact Or.inr ⟨prepared, final, other, rfl, hactive, hequal, event, hevent, files, source, hprepare,
      hanswer, hunder, hsource, hsame.trans hrevision.symm, hcandidate⟩
  · intro e he hremoval
    rw [he] at hmoves
    exact hmoves.failed lib hremoval

/-! ## Scripted runs -/

/-- The events of calls made one after the other on a new service, and the service afterwards. -/
def script (calls : List (Call V)) : List (Event V) × MobileVaultService V :=
  calls.foldr (fun call run => (⟨run.2, call⟩ :: run.1, (call.perform lib run.2).2)) ([], {})

/-- Calls that mark no save make a run, whatever they are; the last one comes first. -/
theorem script_run (calls : List (Call V))
    (h : ∀ call ∈ calls, ∀ prepared readBack reopened,
      call ≠ .markVerifiedSaved prepared readBack reopened) :
    Run lib (script lib calls).1 (script lib calls).2 := by
  induction calls with
  | nil => exact .start
  | cons call calls ih =>
    refine .step call (ih fun c hc => h c (List.mem_cons_of_mem _ hc)) ?_
    intro prepared readBack reopened hcall
    exact absurd hcall (h call List.mem_cons_self prepared readBack reopened)

/-- A staged copy of the sample vault. -/
def sampleStaged : StagedVault Unit where
  before := some ⟨3, [1]⟩
  opened := .ok sampleVault
  after := some ⟨3, [1]⟩

/-- The sample vault is selected, unlocked and edited. -/
def editedCalls : List (Call Unit) :=
  [.mutate (.setEntryTags sampleEntry ["tag"]) ⟨5, 7⟩,
   .unlock sampleStaged true,
   .completeSelection 1 "staged.kdbx" "vault.kdbx" "0123456789abcdef0123456789abcdef" true false,
   .beginSelection]

theorem editedCalls_run (call : Call Unit)
    (hcall : ∀ prepared readBack reopened, call ≠ .markVerifiedSaved prepared readBack reopened) :
    Run Editing.reference (script Editing.reference (call :: editedCalls)).1
      (script Editing.reference (call :: editedCalls)).2 := by
  apply script_run
  intro c hc
  simp only [editedCalls, List.mem_cons, List.not_mem_nil, or_false] at hc
  rcases hc with rfl | rfl | rfl | rfl | rfl
  · exact hcall
  all_goals exact fun _ _ _ => nofun

/-- While a save is under way, an attempt to lock, a reload, a mutation and a stale completion
change nothing in the session. -/
theorem session_state_machine_saving :
    Run Editing.reference (script Editing.reference (.beginSave :: editedCalls)).1
      (script Editing.reference (.beginSave :: editedCalls)).2 ∧
    Obtained Editing.reference (script Editing.reference (.beginSave :: editedCalls)).1
      (.completeLock 1) ∧
    (script Editing.reference (.beginSave :: editedCalls)).2.activeOperation = some 2 ∧
    (performCalls Editing.reference (script Editing.reference (.beginSave :: editedCalls)).2
      [.beginLock, .beginReload, .mutate (.setEntryTags sampleEntry []) ⟨6, 8⟩, .completeLock 1]).session =
        (script Editing.reference (.beginSave :: editedCalls)).2.session := by
  have hrun := editedCalls_run .beginSave fun _ _ _ => nofun
  have hobtained : Obtained Editing.reference
      (script Editing.reference (.beginSave :: editedCalls)).1 (.completeLock 1) :=
    fun _ _ _ h => nomatch h
  have hactive : (script Editing.reference (.beginSave :: editedCalls)).2.activeOperation = some 2 := by
    decide +kernel
  refine ⟨hrun, hobtained, hactive, ?_⟩
  apply (((session_state_machine Editing.reference hrun (.completeLock 1) hobtained).1 2
    hactive).2 _ ?_).1
  intro c hc
  simp only [List.mem_cons, List.not_mem_nil, or_false] at hc
  rcases hc with rfl | rfl | rfl | rfl <;> simp [Call.operation]

/-- A reload cleans a dirty session although no candidate was ever written. -/
theorem reload_cleans_without_save :
    Run Editing.reference (script Editing.reference (.beginReload :: editedCalls)).1
      (script Editing.reference (.beginReload :: editedCalls)).2 ∧
    (script Editing.reference (.beginReload :: editedCalls)).2.session.any (·.isDirty) ∧
    ((Call.reloadCandidate 2 sampleStaged).perform Editing.reference
      (script Editing.reference (.beginReload :: editedCalls)).2).2.session.any (!·.isDirty) ∧
    ∀ event ∈ (script Editing.reference (.beginReload :: editedCalls)).1,
      ∀ operation files, event.call ≠ .prepareSave operation files := by
  refine ⟨editedCalls_run .beginReload fun _ _ _ => nofun, by decide +kernel, by decide +kernel, ?_⟩
  intro event hevent
  simp only [script, editedCalls, List.foldr_cons, List.foldr_nil, List.mem_cons, List.not_mem_nil,
    or_false] at hevent
  rcases hevent with rfl | rfl | rfl | rfl | rfl <;> exact fun _ _ => nofun

end NianPass.Mobile
