import NianPass.Session.Truthful

/-
  A save while no other process writes the vault.

  Every step may still fail. Then an error of which the vault was not replaced
  leaves it as it is, and after every other result it is a file that opens under
  the target credential (`safe_persist_alone`). None of this rests on
  fingerprints: the files are what the call left there.

  In `sure` runs reading succeeds too: opening a session then fails for one
  reason only, that the file does not open under the credential.
-/
namespace NianPass.Session

open Kdbx (Bytes KdbxDocument)
open Program (Machine Ensures Within Safe Reaches)

variable {V C F : Type}

/-- A step of reading that succeeds. -/
def Request.Answered : (request : Request V C) → Answer request → Prop
  | .symlinkMetadata _, answer => ∃ metadata, answer = .ok metadata
  | .openFile _ _, answer => ∃ handle, answer = .ok handle
  | .handleMetadata _, answer => ∃ isFile, answer = .ok isFile
  | .read _, answer => ∃ bytes, answer = .ok bytes
  | .seek _, answer => answer = true
  | _, _ => True

/-- No other process writes; in `sure` runs reading succeeds. -/
def quietStep (sure : Bool) (w : World) (request : Request V C) (answer : Answer request)
    (t : World) : Prop :=
  fsStep true w request answer t ∧ (sure = true → request.Answered answer)

def quietSystem (sure : Bool) : Machine (Request V C) Answer World where
  step := quietStep sure
  permits _ _ := True

section Quiet
variable {sure : Bool} {w t : World} {α : Type}

/-- Where reading may fail, these are the runs without other processes. -/
theorem ensures_alone {p : Fs V C α} {G : World → α → Prop} {X : World → SessionError → Prop}
    (h : Ensures (quietSystem false) p G X w) :
    Ensures (fileSystem true fun _ => True) p G X w :=
  Safe.narrow h (fun _ _ _ _ hstep => ⟨hstep, nofun⟩) fun _ _ h => h

theorem quiet_serves {request : Request V C} {answer : Answer request}
    (hstep : (quietSystem sure).step w request answer t) : w.serves request answer t := by
  obtain ⟨⟨mid, -, hquiet, hserves⟩, -⟩ := hstep
  rw [hquiet (.inl rfl)] at hserves
  exact hserves

/-- The vault stays what it is. -/
theorem stable_primary {owned : List String} {reads : Path → Prop} {node : Node} :
    Stable true owned reads (fun w => w.dir .primary = node) where
  foreign _ _ _ halone := by cases halone
  spill _ _ h := h
  see _ _ _ _ _ _ h := h
  put _ _ _ _ h := World.put_primary.trans h

end Quiet

/-! ## Opening -/

section Opening
variable {sure : Bool} {node : Node} {bytes : Bytes} {w t : World} {credential : C}

/-- Where reading fails, and the vault is still `bytes`. -/
def ReadFails (sure : Bool) (bytes : Bytes) (w : World) (e : SessionError) : Prop :=
  w.dir .primary = .regular bytes ∧ sure = false ∧ e = .readSource

/-- The requests after which the vault is as before, and that only fail when reading may fail. -/
theorem ensures_ask_quiet {request : Request V C} {G : World → Answer request → Prop}
    {X : World → SessionError → Prop}
    (h : ∀ answer t, w.serves request answer t → (sure = true → request.Answered answer) → G t answer) :
    Ensures (quietSystem sure) (ask request) G X w :=
  Program.ensures_request trivial fun answer t hstep => h answer t (quiet_serves hstep) hstep.2

theorem ensures_validate_quiet (hw : w.dir .primary = node) :
    Ensures (quietSystem sure) (validateCurrentTarget .primary : Fs V C Metadata)
      (fun t _ => t.dir .primary = node ∧ ∃ bytes, node = .regular bytes)
      (fun t e => t.dir .primary = node ∧
        ((sure = false ∧ e = .readSource) ∨ (e = .unsupportedPath ∧ ∀ bytes, node ≠ .regular bytes)))
      w := by
  refine Program.Ensures.bind (ensures_ask_quiet fun answer t hserves hsure => ?_)
  obtain ⟨rfl, hshows, -⟩ := hserves
  refine Program.Ensures.bind (ensures_orError (fun metadata hmetadata => ?_) fun e he => ?_)
  · have hkind := hshows metadata hmetadata
    rw [hw] at hkind
    refine Program.ensures_ite (fun hne => Program.ensures_throw ⟨hw, .inr ⟨rfl, ?_⟩⟩) fun heq => ?_
    · rintro bytes rfl
      exact hne hkind
    · refine Program.ensures_pure ⟨hw, ?_⟩
      rw [not_not.mp heq] at hkind
      cases node with
      | regular bytes => exact ⟨bytes, rfl⟩
      | absent | symlink | special => cases hkind
  · refine ⟨hw, .inl ⟨?_, rfl⟩⟩
    cases sure with
    | false => rfl
    | true =>
      obtain ⟨metadata, hok⟩ := hsure rfl
      rw [hok] at he
      cases he

theorem ensures_open_quiet (hw : w.dir .primary = .regular bytes) :
    Ensures (quietSystem sure) (openExistingFile .primary .readSource : Fs V C Handle)
      (fun t file => t.dir .primary = .regular bytes ∧ file = ⟨true, bytes⟩)
      (ReadFails sure bytes) w := by
  refine Program.Ensures.bind (ensures_ask_quiet fun answer t hserves hsure => ?_)
  obtain ⟨handle, rfl, hopens, rfl⟩ | ⟨⟨error, rfl⟩, rfl⟩ := hserves
  · rw [hw] at hopens
    exact Program.ensures_pure ⟨hw, hopens⟩
  · refine Program.ensures_throw ⟨hw, ?_, rfl⟩
    cases sure with
    | false => rfl
    | true =>
      obtain ⟨handle, hok⟩ := hsure rfl
      cases hok

theorem ensures_handle_quiet (hw : w.dir .primary = .regular bytes) :
    Ensures (quietSystem sure) (ensureHandleRegular ⟨true, bytes⟩ : Fs V C Unit)
      (fun t _ => t.dir .primary = .regular bytes) (ReadFails sure bytes) w := by
  refine Program.Ensures.bind (ensures_ask_quiet fun answer t hserves hsure => ?_)
  obtain ⟨rfl, hmetadata⟩ := hserves
  refine Program.Ensures.bind (ensures_orError (fun isFile hisFile => ?_) fun e he => ?_)
  · rw [hmetadata isFile hisFile]
    exact Program.ensures_pure hw
  · refine ⟨hw, ?_, rfl⟩
    cases sure with
    | false => rfl
    | true =>
      obtain ⟨isFile, hok⟩ := hsure rfl
      rw [hok] at he
      cases he

theorem ensures_seek_quiet (hw : w.dir .primary = .regular bytes) {file : Handle} {α : Type}
    {p : Fs V C α} {G : World → α → Prop} {X : World → SessionError → Prop}
    (hX : ∀ t e, ReadFails sure bytes t e → X t e)
    (hp : ∀ t, t.dir .primary = .regular bytes → Ensures (quietSystem sure) p G X t) :
    Ensures (quietSystem sure) (do
      require (← ask (.seek file)) .readSource
      p) G X w := by
  refine Program.Ensures.bind (ensures_ask_quiet fun success t hserves hsure => ?_)
  cases hserves
  refine Program.Ensures.bind (ensures_require (fun _ => hp _ hw) fun hfail => hX _ _ ⟨hw, ?_, rfl⟩)
  cases sure with
  | false => rfl
  | true => cases hfail.symm.trans (hsure rfl)

theorem ensures_read_quiet (hw : w.dir .primary = .regular bytes) {file : Handle}
    {error : SessionError} {α : Type} {k : Bytes → Fs V C α} {G : World → α → Prop}
    {X : World → SessionError → Prop}
    (hX : ∀ t, t.dir .primary = .regular bytes → sure = false → X t error)
    (hk : ∀ t, t.dir .primary = .regular bytes → Ensures (quietSystem sure) (k file.bytes) G X t) :
    Ensures (quietSystem sure) (do k (← orError error (← ask (.read file)))) G X w := by
  refine Program.Ensures.bind (ensures_ask_quiet fun answer t hserves hsure => ?_)
  obtain ⟨rfl, hread⟩ := hserves
  refine Program.Ensures.bind (ensures_orError (fun found hfound => ?_) fun e he => hX _ hw ?_)
  · rw [hread found hfound]
    exact hk _ hw
  · cases sure with
    | false => rfl
    | true =>
      obtain ⟨found, hok⟩ := hsure rfl
      rw [hok] at he
      cases he

theorem ensures_fromReader_quiet (E : Codec V C F) (hw : w.dir .primary = .regular bytes) :
    Ensures (quietSystem sure) (fromReader E ⟨true, bytes⟩ .readSource)
      (fun t fingerprint => t.dir .primary = .regular bytes ∧ fingerprint = E.fingerprint bytes)
      (ReadFails sure bytes) w :=
  ensures_seek_quiet hw (fun _ _ h => h) fun _ ht =>
    ensures_read_quiet ht (fun _ ht hsure => ⟨ht, hsure, rfl⟩) fun _ ht => Program.ensures_pure ⟨ht, rfl⟩

theorem ensures_fingerprintPath_quiet (E : Codec V C F) (hw : w.dir .primary = .regular bytes) :
    Ensures (quietSystem sure) (fingerprintPath E .primary)
      (fun t fingerprint => t.dir .primary = .regular bytes ∧ fingerprint = E.fingerprint bytes)
      (ReadFails sure bytes) w := by
  refine Program.Ensures.bind (Program.Ensures.weaken (ensures_open_quiet hw) ?_ fun _ _ h => h)
  rintro t _ ⟨ht, rfl⟩
  exact Program.Ensures.bind (Program.Ensures.weaken (ensures_handle_quiet ht)
    (fun _ _ ht => ensures_fromReader_quiet E ht) fun _ _ h => h)

/-- Opening fails, and the vault is still `node`. If it is a file, then it was reading that failed
or the credential does not open it. -/
structure Refused (sure : Bool) (E : Codec V C F) (credential : C) (node : Node) (w : World)
    (e : SessionError) : Prop where
  dir : w.dir .primary = node
  reason : ∀ bytes, node = .regular bytes → (e = .readSource ∧ sure = false) ∨
    ∃ error, e = .kdbx error ∧ (sure = true → E.parse credential bytes = .error error)

/-- The vault is still `node`, a file that opens under the credential. -/
def Opens (E : Codec V C F) (credential : C) (node : Node) (document : KdbxDocument V) (w : World) :
    Prop :=
  w.dir .primary = node ∧ ∃ bytes, node = .regular bytes ∧ E.parse credential bytes = .ok document

theorem ReadFails.refused {E : Codec V C F} {e : SessionError} (h : ReadFails sure bytes w e) :
    Refused sure E credential (.regular bytes) w e :=
  ⟨h.1, fun _ _ => .inl ⟨h.2.2, h.2.1⟩⟩

theorem ensures_validated_quiet {E : Codec V C F} {α : Type} {k : Metadata → Fs V C α}
    {G : World → α → Prop} (hw : w.dir .primary = node)
    (hk : ∀ metadata bytes t, node = .regular bytes → t.dir .primary = .regular bytes →
      Ensures (quietSystem sure) (k metadata) G (Refused sure E credential node) t) :
    Ensures (quietSystem sure) (validateCurrentTarget .primary >>= k) G
      (Refused sure E credential node) w := by
  refine Program.Ensures.bind (Program.Ensures.weaken (ensures_validate_quiet hw) ?_ ?_)
  · rintro t metadata ⟨ht, bytes, rfl⟩
    exact hk metadata bytes t rfl ht
  · rintro t e ⟨ht, ⟨hsure, rfl⟩ | ⟨-, hnot⟩⟩
    · exact ⟨ht, fun _ _ => .inl ⟨rfl, hsure⟩⟩
    · exact ⟨ht, fun bytes hbytes => absurd hbytes (hnot bytes)⟩

variable [DecidableEq F]

theorem ensures_openStable_quiet (E : Codec V C F) (hw : w.dir .primary = node) :
    Ensures (quietSystem sure) (openStableDocument E .primary credential)
      (fun t found => Opens E credential node found.1 t) (Refused sure E credential node) w := by
  refine ensures_validated_quiet hw fun _ bytes t hnode ht => ?_
  subst hnode
  refine Program.Ensures.bind (Program.Ensures.weaken (ensures_open_quiet ht) ?_
    fun _ _ h => h.refused)
  rintro t _ ⟨ht, rfl⟩
  refine Program.Ensures.bind (Program.Ensures.weaken (ensures_handle_quiet ht) (fun t _ ht => ?_)
    fun _ _ h => h.refused)
  refine Program.Ensures.bind (Program.Ensures.weaken (ensures_fromReader_quiet E ht) ?_
    fun _ _ h => h.refused)
  rintro t _ ⟨ht, rfl⟩
  refine ensures_seek_quiet ht (fun _ _ h => h.refused) fun t ht => ?_
  refine ensures_read_quiet ht (fun t ht hsure => ⟨ht, fun _ _ => .inr ⟨_, rfl, fun h => ?_⟩⟩)
    fun t ht => ?_
  · rw [hsure] at h
    cases h
  dsimp only
  cases hparse : E.parse credential bytes with
  | error error =>
    refine Program.ensures_throw ⟨ht, fun other hother => .inr ⟨error, rfl, fun _ => ?_⟩⟩
    cases hother
    exact hparse
  | ok document =>
    refine ensures_seek_quiet ht (fun _ _ h => h.refused) fun t ht => ?_
    refine Program.Ensures.bind (Program.Ensures.weaken (ensures_fromReader_quiet E ht) ?_
      fun _ _ h => h.refused)
    rintro t _ ⟨ht, rfl⟩
    refine Program.ensures_ite (fun hne => absurd rfl hne) fun _ => ?_
    refine ensures_validated_quiet ht fun _ found t hfound ht => ?_
    cases hfound
    refine Program.Ensures.bind (Program.Ensures.weaken (ensures_fingerprintPath_quiet E ht) ?_
      fun _ _ h => h.refused)
    rintro t _ ⟨ht, rfl⟩
    refine Program.ensures_ite (fun hne => absurd rfl hne) fun _ => ?_
    exact Program.ensures_pure ⟨ht, bytes, rfl, hparse⟩

theorem ensures_openSession_quiet (E : Codec V C F) (hw : w.dir .primary = node) :
    Ensures (quietSystem sure) (openSession E credential)
      (fun t session => Opens E credential node session.document t)
      (Refused sure E credential node) w := by
  refine ensures_validated_quiet hw fun _ bytes t hnode ht => ?_
  subst hnode
  refine ensures_validated_quiet ht fun _ found t hfound ht => ?_
  cases hfound
  refine Program.Ensures.bind (Program.Ensures.weaken (ensures_openStable_quiet E ht) ?_
    fun _ _ h => h)
  rintro t ⟨document, fingerprint⟩ ht
  exact Program.ensures_pure ht

omit [DecidableEq F] in
/-- A credential that opens the vault is accepted, unless reading fails. -/
theorem ensures_verifySaveCredential_quiet (E : Codec V C F) {document : KdbxDocument V}
    (hw : w.dir .primary = .regular bytes) (hparse : E.parse credential bytes = .ok document) :
    Ensures (quietSystem sure) (verifySaveCredential E credential)
      (fun t _ => t.dir .primary = .regular bytes)
      (fun t e => t.dir .primary = .regular bytes ∧ sure = false ∧
        e = .credentialVerificationFailed .io) w := by
  refine Program.Ensures.bind (Program.Ensures.bind (ensures_ask_quiet fun answer t hserves hsure => ?_))
  obtain ⟨handle, rfl, hopens, rfl⟩ | ⟨⟨error, rfl⟩, rfl⟩ := hserves
  · rw [hw] at hopens
    cases hopens
    refine Program.Ensures.bind (Program.ensures_pure ?_)
    refine ensures_read_quiet (show (w.see .primary bytes).dir .primary = .regular bytes from hw)
      (fun t ht hsure => ⟨ht, hsure, rfl⟩) fun t ht => ?_
    dsimp only
    rw [hparse]
    exact Program.ensures_pure (Program.ensures_pure ht)
  · refine Program.ensures_throw ⟨hw, ?_, rfl⟩
    cases sure with
    | false => rfl
    | true =>
      obtain ⟨handle, hok⟩ := hsure rfl
      cases hok

end Opening

/-! ## Installing -/

section Installing
variable {node : Node} {w t : World} {name backup : String} {new : Bytes} {metadata : Metadata}

/-- The machine without other processes. -/
abbrev aloneSystem : Machine (Request V C) Answer World := fileSystem true fun _ => True

theorem within_mapError {α : Type} {K : Request V C → Prop} {f : SessionError → SessionError}
    {block : Fs V C α} (h : Within K (fun _ => True) block) :
    Within K (fun _ => True) (mapError f block) := by
  refine Safe.bind (Safe.weaken h fun _ result _ => ?_)
  cases result with
  | ok a => exact fun _ _ => trivial
  | error e => exact fun _ _ => trivial

/-- Removing a temporary leaves the vault alone. -/
theorem ensures_guarded_alone {α : Type} {block : Fs V C α} {G : World → α → Prop}
    {Y : SessionError → Prop}
    (h : Ensures aloneSystem block G (fun t e => t.dir .primary = node ∧ Y e) w) :
    Ensures aloneSystem (guarded name block) G (fun t e => t.dir .primary = node ∧ Y e) w :=
  ensures_guarded stable_primary (fun _ h => World.put_primary.trans h) (fun _ h _ => h)
    (fun _ _ => trivial) h

/-- The vault, and a temporary nobody writes. -/
theorem stable_ready_alone {owned : List String} {reads : Path → Prop} (hname : name ∉ owned) :
    Stable true owned reads (fun w => w.dir .primary = node ∧ w.dir (.temp name) = .regular new) :=
  stable_primary.and (stable_temp hname)

variable [DecidableEq F] {E : Codec V C F} {session : VaultSession V F}

theorem within_requireSourceUnchanged :
    Within (Request.minds [] fun _ => True) (fun _ => True)
      (requireSourceUnchanged E session : Fs V C Unit) := by
  refine (within_validateCurrentTarget trivial trivial).bind fun _ => ?_
  refine (within_fingerprintPath E trivial trivial trivial).bind fun _ => ?_
  exact Program.within_ite Program.within_pure (Program.within_throw trivial)

theorem within_fillBackup :
    Within (Request.minds [backup] fun _ => True) (fun _ => True)
      (fillBackup E session metadata backup : Fs V C Unit) := by
  refine (within_openExistingFile trivial trivial).bind fun source => ?_
  refine (within_mapError (within_ensureHandleRegular trivial trivial)).bind fun _ => ?_
  refine Within.bind (within_ask (List.mem_singleton.mpr rfl)) fun _ => ?_
  refine Within.bind (within_require trivial) fun _ => ?_
  refine Program.within_ite (Program.within_throw trivial) ?_
  refine Within.bind (within_ask (List.mem_singleton.mpr rfl)) fun _ => ?_
  refine Within.bind (within_require trivial) fun _ => ?_
  refine (within_ask trivial).bind fun _ => (within_require trivial).bind fun _ => ?_
  refine (within_restrict (fun _ => trivial) trivial).bind fun _ => ?_
  refine (within_syncPath trivial trivial).bind fun _ => ?_
  refine Within.bind ((within_openExistingFile trivial trivial).bind fun _ =>
    within_fromReader E trivial) fun prepared => ?_
  exact Program.within_ite (Program.within_throw trivial) Program.within_pure

/-- The verified temporary is there until it is renamed over the vault. -/
theorem ensures_replacePrimary_alone
    (hw : w.dir .primary = node ∧ w.dir (.temp name) = .regular new) :
    Ensures aloneSystem (replacePrimary E .unix session metadata name)
      (fun t prepared => t.dir .primary = .regular new ∧ ∃ bak, prepared = some bak)
      (fun t _ => t.dir .primary = node ∧ True) w := by
  have hready : Stable true [] (fun _ => True)
      (fun w => w.dir .primary = node ∧ w.dir (.temp name) = .regular new) :=
    stable_ready_alone (by simp)
  have hbackup : ∀ backup, Stable true [] (fun _ => True)
      (fun w => (w.dir .primary = node ∧ w.dir (.temp name) = .regular new) ∧ name ≠ backup) :=
    fun backup => hready.and stable_const
  refine Program.Ensures.bind (Program.Ensures.bind (Program.Ensures.weaken
    (ensures_rejectSymlinkIfPresent (Y := fun _ => True) hready (fun _ _ => trivial) trivial hw)
    (fun t _ ht => ?_) fun _ _ h => ⟨h.1.1, trivial⟩))
  refine Program.Ensures.bind (Program.Ensures.weaken (ensures_create hready hbackup ?_
    (fun _ _ h _ => h.1) (fun _ _ => trivial) (fun _ _ _ => trivial) ht) (fun t backup ht => ?_)
    fun _ _ h => ⟨h.1.1, trivial⟩)
  · rintro w backup ⟨hprimary, hdir⟩ habsent
    have hne : name ≠ backup := by
      rintro rfl
      rw [hdir] at habsent
      cases habsent
    exact ⟨⟨World.put_primary.trans hprimary, (World.put_of_ne hne).trans hdir⟩, hne⟩
  -- The backup is filled under a name of its own.
  have hfill : Stable true [backup] (fun _ => True)
      (fun w => w.dir .primary = node ∧ w.dir (.temp name) = .regular new) :=
    stable_ready_alone (by simpa using ht.2)
  refine Program.Ensures.bind (ensures_guarded_alone (Program.Ensures.weaken (hfill.ensures within_fillBackup
    (fun _ _ => trivial) ht.1) (fun t _ ht => ?_) fun _ _ h => ⟨h.1.1, trivial⟩))
  refine Program.ensures_pure (Program.Ensures.bind (ensures_guarded_alone ?_))
  refine Program.Ensures.bind (Program.Ensures.weaken (hready.ensures within_requireSourceUnchanged
    (fun _ _ => trivial) ht) (fun t _ ht => ?_) fun _ _ h => ⟨h.1.1, trivial⟩)
  refine Program.Ensures.bind (Program.ensures_request trivial fun success v hstep => ?_)
  obtain ⟨rfl, -, rfl⟩ | ⟨rfl, rfl⟩ := undisturbed_step rfl hstep
  · refine ensures_require (fun _ => Program.ensures_pure ⟨?_, backup, rfl⟩)
      fun hfailed => Bool.noConfusion hfailed
    simpa [World.move] using ht.2
  · exact ensures_require (fun hmoved => Bool.noConfusion hmoved) fun _ => ⟨ht.1, trivial⟩

variable [DecidableEq V] {current credential : C}

/-- What was installed opens under the credential, with the content of the document. -/
def InstalledAlone (E : Codec V C F) (credential : C) (document : KdbxDocument V) (t : World) : Prop :=
  ∃ new, Verified E credential document new ∧ t.dir .primary = .regular new

theorem ensures_writeAndReplace_alone (hw : w.dir .primary = node) :
    Ensures aloneSystem (writeAndReplace E .unix session credential metadata name)
      (fun t prepared => InstalledAlone E credential session.document t ∧ ∃ bak, prepared = some bak)
      (fun t _ => t.dir .primary = node ∧ True) w := by
  have hwrites : Stable true [name] (fun _ => False) (fun w => w.dir .primary = node ∧
      ∃ bytes, w.dir (.temp name) = .regular bytes) := stable_primary.and stable_written
  refine Program.Ensures.bind (Program.ensures_request trivial fun answer t hstep => ?_)
  have hprimary : t.dir .primary = node := stable_primary.step
    (show (Request.serialize name session.document credential : Request V C).minds [name]
      (fun _ => False) from List.mem_singleton.mpr rfl) hw hstep
  obtain ⟨mid, -, -, bytes, hput⟩ := hstep
  have ht : t.dir .primary = node ∧ ∃ bytes, t.dir (.temp name) = .regular bytes :=
    ⟨hprimary, bytes, by rw [hput, World.put_self]⟩
  cases answer with
  | error error => exact Program.ensures_throw ⟨hprimary, trivial⟩
  | ok _ =>
    refine Program.Ensures.bind (Program.ensures_request trivial fun success t hstep => ?_)
    have ht := hwrites.step (show (Request.flush name : Request V C).minds [name] _ from
      List.mem_singleton.mpr rfl) ht hstep
    refine Program.Ensures.bind (ensures_require (fun _ => ?_) fun _ => ⟨ht.1, trivial⟩)
    refine Program.Ensures.bind (Program.ensures_request trivial fun success t hstep => ?_)
    obtain ⟨hprimary, written, hdir⟩ := hwrites.step
      (show (Request.syncAll name : Request V C).minds [name] _ from trivial) ht hstep
    refine Program.Ensures.bind (ensures_require (fun _ => ?_) fun _ => ⟨hprimary, trivial⟩)
    -- From here on the temporary is only read.
    have hready : Stable true [] (fun _ => True)
        (fun w => w.dir .primary = node ∧ w.dir (.temp name) = .regular written) :=
      stable_ready_alone (by simp)
    refine Program.Ensures.bind (Program.Ensures.bind (Program.Ensures.weaken
      (ensures_openDocument E hready trivial (fun _ _ => trivial) (fun _ h => h.2)
        ⟨hprimary, hdir⟩) ?_ fun _ _ h => ⟨h.1.1, trivial⟩))
    rintro t parsed ⟨ht, hparse, -⟩
    refine ensures_verifySemanticEquivalence (fun hsame => ?_) ⟨ht.1, trivial⟩
    refine Program.Ensures.bind (Program.Ensures.weaken (hready.ensures
      within_requireSourceUnchanged (fun _ _ => trivial) ht) (fun t _ ht => ?_)
      fun _ _ h => ⟨h.1.1, trivial⟩)
    have hrestrict : Within (Request.minds [] fun _ => True) (fun _ => True)
        (restrictTemp .unix name metadata : Fs V C Unit) :=
      (within_restrict (fun _ => trivial) trivial).bind fun _ => within_syncPath trivial trivial
    refine Program.Ensures.bind (Program.Ensures.weaken (hready.ensures hrestrict
      (fun _ _ => trivial) ht) (fun t _ ht => ?_) fun _ _ h => ⟨h.1.1, trivial⟩)
    exact Program.Ensures.weaken (ensures_replacePrimary_alone ht)
      (fun t _ ht => ⟨⟨written, ⟨parsed, hparse, hsame⟩, ht.1⟩, ht.2⟩) fun _ _ h => h

theorem ensures_install_alone (hw : w.dir .primary = node) :
    Ensures aloneSystem (install E .unix session current credential)
      (fun t prepared => InstalledAlone E credential session.document t ∧ ∃ bak, prepared = some bak)
      (fun t _ => t.dir .primary = node ∧ True) w := by
  have hP : Stable true [] (fun _ => True) (fun w => w.dir .primary = node) := stable_primary
  have hverify : Within (Request.minds [] fun _ => True) (fun _ => True)
      (verifySaveCredential E current) := by
    refine Within.bind ?_ fun _ => Program.within_pure
    refine (within_ask trivial).bind fun _ => (within_orError trivial).bind fun file => ?_
    refine (within_ask trivial).bind fun _ => (within_orError trivial).bind fun bytes => ?_
    cases E.parse current bytes with
    | ok document => exact Program.within_pure
    | error error => exact Program.within_throw trivial
  refine Program.Ensures.bind (Program.Ensures.weaken (hP.ensures (within_validateCurrentTarget
    trivial trivial) (fun _ _ => trivial) hw) (fun t metadata ht => ?_) fun _ _ h => h)
  refine Program.Ensures.bind (Program.Ensures.weaken (hP.ensures within_requireSourceUnchanged
    (fun _ _ => trivial) ht) (fun t _ ht => ?_) fun _ _ h => h)
  refine Program.Ensures.bind (Program.Ensures.weaken (hP.ensures hverify
    (fun _ _ => trivial) ht) (fun t _ ht => ?_) fun _ _ h => h)
  refine Program.Ensures.bind (Program.Ensures.weaken (ensures_create hP (fun _ => hP)
    (fun _ _ h _ => World.put_primary.trans h) (fun _ _ h _ => h) (fun _ _ => trivial)
    (fun _ _ _ => trivial) ht) (fun t name ht => ?_) fun _ _ h => ⟨h.1, trivial⟩)
  exact ensures_guarded_alone (ensures_writeAndReplace_alone ht)

end Installing

/-! ## The whole call -/

/-- The errors that a call returns when it has replaced the vault. -/
def AfterInstall (e : SessionError) : Prop :=
  (∃ error, e = .finalVerificationFailed error) ∨ e = .finalReadFailed ∨ Late e

/-- The vault is as before, or it was replaced, and the result tells so. -/
def AloneReport [DecidableEq V] (E : Codec V C F) (credential : C) (document : KdbxDocument V)
    (force : Bool) (node : Node) (t : World) (result : Except SessionError SaveOutcome) : Prop :=
  (t.dir .primary = node ∧
    ((∃ e, result = .error e) ∨ (result = .ok .unchanged ∧ force = false))) ∨
  (InstalledAlone E credential document t ∧
    (result = .ok .saved ∨ ∃ e, result = .error e ∧ AfterInstall e))

section Persisting
variable {w t : World} {bak : String} {new : Bytes} {node : Node}

theorem ensures_finish_alone {durable : Bool} (hw : w.dir .primary = .regular new) :
    Ensures aloneSystem (finish (some bak) durable : Fs V C SaveOutcome)
      (fun t outcome => t.dir .primary = .regular new ∧ outcome = .saved)
      (fun t e => t.dir .primary = .regular new ∧ Late e) w := by
  have hP : Stable true [] (fun _ => True) (fun w => w.dir .primary = .regular new) := stable_primary
  refine Program.Ensures.bind (Program.Ensures.bind (ensures_guarded_alone ?_))
  refine Program.Ensures.bind (Program.Ensures.weaken (ensures_rejectSymlinkIfPresent hP
    (fun _ _ => trivial) (.inl rfl) hw) (fun t _ ht => ?_) fun _ _ h => h)
  refine Program.Ensures.bind (Program.ensures_request trivial fun success t' hstep => ?_)
  have ht' : t'.dir .primary = .regular new := by
    obtain ⟨mid, hmid, hquiet, hserves⟩ := hstep
    rw [hquiet (.inl rfl)] at hserves
    obtain ⟨-, -, rfl⟩ | ⟨-, rfl⟩ := hserves
    · simpa [World.move] using ht
    · exact ht
  refine ensures_require (fun _ => ?_) fun _ => ⟨ht', .inl rfl⟩
  refine Program.Ensures.bind (Program.ensures_request trivial fun success t hstep => ?_)
  have ht := hP.step (show (Request.syncParent : Request V C).minds [] _ from trivial) ht' hstep
  refine ensures_require (fun _ => ?_) fun _ => ⟨ht, .inr (.inl rfl)⟩
  refine Program.Ensures.bind (ensures_require (fun _ => ?_) fun _ => ⟨ht, .inr (.inr rfl)⟩)
  exact Program.ensures_pure ⟨ht, rfl⟩

variable [DecidableEq V] [DecidableEq F] {E : Codec V C F} {session : VaultSession V F}
variable {current credential : C}

theorem ensures_verifyInstalled_alone (hw : w.dir .primary = .regular new) :
    Ensures aloneSystem (withBackup (some bak) (verifyInstalled E credential session.document))
      (fun t _ => t.dir .primary = .regular new)
      (fun t e => t.dir .primary = .regular new ∧ AfterInstall e) w := by
  refine ensures_guarded_alone (Program.Ensures.bind (ensures_mapError (Program.Ensures.weaken
    (ensures_alone (ensures_openStable_quiet E hw)) ?_ ?_)))
  · rintro t ⟨found, fingerprint⟩ ⟨ht, -⟩
    refine Program.Ensures.bind (ensures_verifySemanticEquivalence (fun _ => ?_)
      ⟨ht, .inl ⟨_, rfl⟩⟩)
    exact Program.ensures_pure ht
  · rintro t e ⟨ht, hreason⟩
    obtain ⟨rfl, -⟩ | ⟨error, rfl, -⟩ := hreason new rfl
    · exact ⟨ht, .inr (.inl rfl)⟩
    · exact ⟨ht, .inl ⟨error, rfl⟩⟩

theorem safe_persist_alone {host : Host} {force : Bool} (hw : w.dir .primary = node) :
    Safe aloneSystem (fun t r => AloneReport E credential session.document force node t r.1)
      (persist E host session current credential force host.saveSupported) w := by
  unfold persist
  split
  · next hclean =>
    simp only [Bool.and_eq_true, Bool.not_eq_true'] at hclean
    exact .inl ⟨hw, .inr ⟨rfl, hclean.1⟩⟩
  cases host with
  | windows => exact .inl ⟨hw, .inl ⟨_, rfl⟩⟩
  | unix =>
    refine Safe.bind (Safe.weaken (ensures_install_alone hw) fun t result hresult => ?_)
    cases result with
    | error e => exact .inl ⟨hresult.1, .inl ⟨e, rfl⟩⟩
    | ok prepared =>
      obtain ⟨⟨new, hverified, ht⟩, bak, rfl⟩ := hresult
      have hP : Stable true [] (fun _ => True) (fun w => w.dir .primary = .regular new) :=
        stable_primary
      refine Safe.bind (p := syncParent .unix) ⟨trivial, fun durable u hstep => ?_⟩
      have hu := hP.step (show (Request.syncParent : Request V C).minds [] _ from trivial) ht hstep
      refine Safe.bind (Safe.weaken (ensures_verifyInstalled_alone hu) fun v final hfinal => ?_)
      cases final with
      | error e => exact .inr ⟨⟨new, hverified, hfinal.1⟩, .inr ⟨e, rfl, hfinal.2⟩⟩
      | ok found =>
        refine Safe.bind (Safe.weaken (ensures_finish_alone hfinal) fun x result hresult => ?_)
        cases result with
        | ok outcome =>
          obtain ⟨hx, rfl⟩ := hresult
          exact .inr ⟨⟨new, hverified, hx⟩, .inl rfl⟩
        | error e => exact .inr ⟨⟨new, hverified, hresult.1⟩, .inr ⟨e, rfl, .inr (.inr hresult.2)⟩⟩

end Persisting

end NianPass.Session
