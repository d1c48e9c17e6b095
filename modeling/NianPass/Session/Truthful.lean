import NianPass.Session.Transaction

/-
  What a save reports is true.

  Whatever fails, and whatever other processes do outside the window between the
  last source check and the installation: an early error leaves vault, backup and
  session as they were; a `Final` error says that the vault was replaced and the
  session was not brought up to date; a success and the errors after the session
  was brought up to date say that the vault holds a generation that was verified
  by re-opening it, and that the session describes exactly that one.

  Temporaries are gone after an early error unless removing them failed, which
  the code does not report (`save_leaves_temporary`).
-/
namespace NianPass.Session

open Kdbx (Bytes KdbxDocument)
open Program (Machine Ensures Within Safe Reaches)

variable {V C F : Type}

/-- What the call last read as the vault, and still stands there unless another process has
written since. -/
structure Seen (bytes : Bytes) (w : World) : Prop where
  opened : w.opened .primary = some bytes
  dir : w.disturbed .primary = false → w.dir .primary = .regular bytes

section Final
variable {E : Codec V C F} {session : VaultSession V F} {good : Bytes → Prop} {old new seen : Bytes}
variable {alone : Bool} {w : World} {bak : String}

theorem stable_seen {owned : List String} :
    Stable alone owned (fun _ => False) (Seen seen) where
  foreign w path node _ hpath h := by
    refine ⟨h.opened, fun hdisturbed => ?_⟩
    obtain rfl | rfl := hpath
    · simp [World.foreign] at hdisturbed
    · have hbefore : w.disturbed .primary = false := by simpa [World.foreign] using hdisturbed
      simpa [World.foreign] using h.dir hbefore
  spill w failed h := ⟨h.opened, h.dir⟩
  see w path nofollow handle hreads _ _ := by cases hreads
  put w name bytes _ h := ⟨h.opened, fun hdisturbed => World.put_primary.trans (h.dir hdisturbed)⟩

theorem Seen.remove {name : String} (h : Seen seen w) : Seen seen (w.put name .absent) :=
  ⟨h.opened, fun hdisturbed => World.put_primary.trans (h.dir hdisturbed)⟩

theorem Seen.rotate {name : String} (h : Seen seen w) : Seen seen (w.move (.temp name) .backup) := by
  refine ⟨h.opened, fun hdisturbed => ?_⟩
  have hbefore : w.disturbed .primary = false := by simpa [World.move] using hdisturbed
  simpa [World.move] using h.dir hbefore

/-- The backup is the generation that was replaced, unless another process has written it since. -/
def Rotated (old : Bytes) (w : World) : Prop :=
  w.disturbed .backup = false → w.dir .backup = .regular old

theorem stable_rotated {owned : List String} :
    Stable alone owned (fun _ => False) (Rotated old) where
  foreign w path node _ hpath h hdisturbed := by
    obtain rfl | rfl := hpath
    · have hbefore : w.disturbed .backup = false := by simpa [World.foreign] using hdisturbed
      simpa [World.foreign] using h hbefore
    · simp [World.foreign] at hdisturbed
  spill w failed h := h
  see w path nofollow handle hreads _ _ := by cases hreads
  put w name bytes _ h hdisturbed := World.put_backup.trans (h hdisturbed)

/-- The errors after the session was brought up to date. -/
def Late (e : SessionError) : Prop :=
  e = .savedButBackupUpdateFailed ∨ e = .savedButBackupDurabilityUncertain ∨
    e = .durabilityUncertain

theorem ensures_commitBackup (hinstalled : Installed E session good old new w)
    (hcopied : w.dir (.temp bak) = .regular old) (hseen : Seen seen w) :
    Ensures (fileSystem alone (Sound E session good)) (commitBackup bak : Fs V C Unit)
      (fun t _ => (Installed E session good old new t ∧ Seen seen t) ∧ Rotated old t)
      (fun t e => (Installed E session good old new t ∧ Seen seen t) ∧ Late e) w := by
  have hP : Stable alone [] (fun _ => False) (fun w =>
      (Installed E session good old new w ∧ Seen seen w) ∧ w.dir (.temp bak) = .regular old) :=
    (stable_installed.and stable_seen).and (stable_temp (by simp))
  have hQ : Stable alone [] (fun _ => False) (fun w =>
      Installed E session good old new w ∧ Seen seen w) := stable_installed.and stable_seen
  have hI : ∀ w, (Installed E session good old new w ∧ Seen seen w) ∧
      w.dir (.temp bak) = .regular old → Sound E session good w := fun w hw => hw.1.1.sound
  refine Program.Ensures.bind (ensures_guarded hQ (fun w hw => ⟨hw.1.remove, hw.2.remove⟩)
    (fun w hw _ => hw) (fun w hw => hw.1.sound) ?_)
  refine Program.Ensures.bind (Program.Ensures.weaken (ensures_rejectSymlinkIfPresent (Y := Late) hP hI
    (.inl rfl) ⟨⟨hinstalled, hseen⟩, hcopied⟩) (fun t _ ht => ?_) fun _ _ h => ⟨h.1.1, h.2⟩)
  refine Program.Ensures.bind (Program.ensures_request (hI t ht) fun success u hstep => ?_)
  obtain ⟨mid, hmid, hquiet, hserves⟩ := hstep
  have hm := hP.interferes (fun halone => hquiet (.inl halone)) ht hmid
  obtain ⟨rfl, -, rfl⟩ | ⟨rfl, rfl⟩ := hserves
  · obtain ⟨hinstalled, hbackup⟩ := hm.1.1.rotate hm.2
    have hrotated : Stable alone [] (fun _ => False) (fun w =>
        (Installed E session good old new w ∧ Seen seen w) ∧ Rotated old w) := hQ.and stable_rotated
    have hsync : Within (Request.minds [] fun _ => False) Late (do
        require (← ask .syncParent) .savedButBackupDurabilityUncertain : Fs V C Unit) :=
      (within_ask trivial).bind fun _ => within_require (.inr (.inl rfl))
    refine ensures_require (fun _ => ?_) nofun
    exact Program.Ensures.weaken (hrotated.ensures hsync (fun w hw => hw.1.1.sound)
      ⟨⟨hinstalled, hm.1.2.rotate⟩, fun _ => hbackup⟩) (fun _ _ h => h) fun _ _ h => ⟨h.1.1, h.2⟩
  · exact ensures_require nofun fun _ => ⟨hm.1, .inl rfl⟩

theorem mapFinalOpenError_final {e : SessionError} (h : e = .readSource ∨ e = .unsupportedPath ∨
    e = .externalModificationDetected ∨ ∃ error, e = .kdbx error) :
    (mapFinalOpenError e).final = true := by
  obtain rfl | rfl | rfl | ⟨error, rfl⟩ := h <;> rfl

variable [DecidableEq F] {credential : C}

/-- The generation that stands there is opened, or the error is final. -/
theorem ensures_openFinal {P : World → Prop} (hinj : Function.Injective E.fingerprint)
    (hP : Stable alone [] (fun _ => True) P) (hI : ∀ w, P w → Sound E session good w) (hw : P w) :
    Ensures (fileSystem alone (Sound E session good))
      (mapError mapFinalOpenError (openStableDocument E .primary credential))
      (fun t found => P t ∧ ∃ seen, Seen seen t ∧ found.2 = E.fingerprint seen ∧
        E.parse credential seen = .ok found.1)
      (fun t e => P t ∧ e.final = true) w := by
  refine ensures_mapError (Program.Ensures.weaken (ensures_openStableDocument E hP trivial hI hw) ?_
    fun t e h => ⟨h.1, mapFinalOpenError_final h.2⟩)
  rintro t found ⟨ht, bytes, parsed, hfound, hsame, hparse, hshows⟩
  have hparsed : parsed = bytes := hinj hsame
  subst hparsed
  exact ⟨ht, parsed, ⟨hshows.opened, fun _ => hshows.dir⟩, hfound, hparse⟩

variable [DecidableEq V] {document : KdbxDocument V}

/-- The vault is `seen`, with the content of the document. -/
def Accepted (E : Codec V C F) (credential : C) (document : KdbxDocument V) (seen : Bytes)
    (found : KdbxDocument V × F) : Prop :=
  found.2 = E.fingerprint seen ∧ E.parse credential seen = .ok found.1 ∧
    document.semanticallyEquals E.keepass found.1 = true

theorem ensures_verifyInstalled (hinj : Function.Injective E.fingerprint)
    (hinstalled : Installed E session good old new w) (hcopied : w.dir (.temp bak) = .regular old) :
    Ensures (fileSystem alone (Sound E session good))
      (withBackup (some bak) (verifyInstalled E credential document))
      (fun t found => (Installed E session good old new t ∧ t.dir (.temp bak) = .regular old) ∧
        ∃ seen, Seen seen t ∧ Accepted E credential document seen found)
      (fun t e => Installed E session good old new t ∧ e.final = true) w := by
  have hP : Stable alone [] (fun _ => True) (fun w => Installed E session good old new w ∧
      w.dir (.temp bak) = .regular old) := stable_installed.and (stable_temp (by simp))
  refine ensures_guarded stable_installed (fun w hw => hw.remove) (fun w hw _ => hw)
    (fun w hw => hw.sound) ?_
  refine Program.Ensures.bind (Program.Ensures.weaken (ensures_openFinal hinj hP
    (fun w hw => hw.1.sound) ⟨hinstalled, hcopied⟩) ?_ fun _ _ h => ⟨h.1.1, h.2⟩)
  rintro t found ⟨ht, seen, hseen, hfound, hparse⟩
  refine Program.Ensures.bind (ensures_verifySemanticEquivalence (fun hsame => ?_) ⟨ht.1, rfl⟩)
  exact Program.ensures_pure ⟨ht, seen, hseen, hfound, hparse, hsame⟩

theorem ensures_verifyInstalledBytes (hinj : Function.Injective E.fingerprint) {ciphertext : Bytes}
    (hinstalled : Installed E session good old new w) (hcopied : w.dir (.temp bak) = .regular old) :
    Ensures (fileSystem alone (Sound E session good))
      (withBackup (some bak) (verifyInstalledBytes E credential document ciphertext))
      (fun t found => (Installed E session good old new t ∧ t.dir (.temp bak) = .regular old) ∧
        Seen ciphertext t ∧ Accepted E credential document ciphertext found)
      (fun t e => Installed E session good old new t ∧ e.final = true) w := by
  have hP : Stable alone [] (fun _ => True) (fun w => Installed E session good old new w ∧
      w.dir (.temp bak) = .regular old) := stable_installed.and (stable_temp (by simp))
  refine ensures_guarded stable_installed (fun w hw => hw.remove) (fun w hw _ => hw)
    (fun w hw => hw.sound) ?_
  refine Program.Ensures.bind (Program.Ensures.weaken (ensures_openFinal hinj hP
    (fun w hw => hw.1.sound) ⟨hinstalled, hcopied⟩) ?_ fun _ _ h => ⟨h.1.1, h.2⟩)
  rintro t found ⟨ht, seen, hseen, hfound, hparse⟩
  refine Program.ensures_ite (fun _ => Program.ensures_throw ⟨ht.1, rfl⟩) fun hsame => ?_
  have hciphertext : seen = ciphertext := hinj (hfound.symm.trans (not_not.mp hsame))
  subst hciphertext
  refine Program.Ensures.bind (ensures_verifySemanticEquivalence (fun hsame => ?_) ⟨ht.1, rfl⟩)
  exact Program.ensures_pure ⟨ht, hseen, hfound, hparse, hsame⟩

end Final

/-! ## The reports -/

/-- The session describes exactly the generation `seen`. -/
structure UpToDate [DecidableEq V] (E : Codec V C F) (credential : C) (session : VaultSession V F)
    (seen : Bytes) : Prop where
  verified : Verified E credential session.document seen
  fingerprint : session.sourceFingerprint = E.fingerprint seen
  revision : session.savedRevision = session.document.revision

/-- What each result of a call says about the vault and the session it leaves. -/
def Report [DecidableEq V] (E : Codec V C F) (session : VaultSession V F) (good : Bytes → Prop)
    (credential : C) (calm : Prop) (w : World) :
    Except SessionError SaveOutcome × VaultSession V F → Prop
  | (.ok .unchanged, session') => session' = session ∧ session.isDirty = false ∧ Untouched [] w
  | (.ok .saved, session') => ∃ old new seen, Installed E session good old new w ∧ Seen seen w ∧
      good seen ∧ UpToDate E credential session' seen ∧ Rotated old w
  | (.error e, session') =>
    (Early calm e ∧ session' = session ∧ Untouched [] w) ∨
    (e.final = true ∧ session' = session ∧ ∃ old new, Installed E session good old new w) ∨
    (Late e ∧ ∃ old new seen, Installed E session good old new w ∧ Seen seen w ∧
      good seen ∧ UpToDate E credential session' seen)

section Reports
variable [DecidableEq V] [DecidableEq F] {E : Codec V C F} {session session' : VaultSession V F}
variable {good : Bytes → Prop} {old new seen : Bytes} {alone : Bool} {calm : Prop} {w : World}
variable {bak : String} {credential : C}

omit [DecidableEq F] in
theorem Report.sound {r : Except SessionError SaveOutcome × VaultSession V F}
    (h : Report E session good credential calm w r) : Sound E session good w := by
  obtain ⟨result, session'⟩ := r
  cases result with
  | ok outcome =>
    cases outcome with
    | unchanged => exact .inl ⟨[], h.2.2⟩
    | saved =>
      obtain ⟨old, new, seen, hinstalled, -⟩ := h
      exact hinstalled.sound
  | error e =>
    obtain ⟨-, -, huntouched⟩ | ⟨-, -, old, new, hinstalled⟩ | ⟨-, old, new, seen, hinstalled, -⟩ := h
    · exact .inl ⟨[], huntouched⟩
    · exact hinstalled.sound
    · exact hinstalled.sound

omit [DecidableEq F] in
/-- The end of both transactions. -/
theorem safe_finish {durable : Bool} (hinstalled : Installed E session good old new w)
    (hcopied : w.dir (.temp bak) = .regular old) (hseen : Seen seen w) (hgood : good seen)
    (hsession : UpToDate E credential session' seen) :
    Safe (fileSystem alone (Sound E session good)) (Report E session good credential calm)
      ((finish (some bak) durable).run >>= fun result => pure (result, session') :
        Program (Request V C) Answer _) w := by
  have hfinish : Ensures (fileSystem alone (Sound E session good))
      (finish (some bak) durable : Fs V C SaveOutcome)
      (fun t outcome => outcome = .saved ∧ (Installed E session good old new t ∧ Seen seen t) ∧
        Rotated old t)
      (fun t e => (Installed E session good old new t ∧ Seen seen t) ∧ Late e) w := by
    refine Program.Ensures.bind (Program.Ensures.weaken
      (ensures_commitBackup hinstalled hcopied hseen) (fun t _ ht => ?_) fun _ _ h => h)
    refine Program.Ensures.bind (ensures_require (fun _ => ?_) fun _ => ⟨ht.1, .inr (.inr rfl)⟩)
    exact Program.ensures_pure ⟨rfl, ht⟩
  refine Safe.bind (Safe.weaken hfinish fun t result hresult => ?_)
  cases result with
  | ok outcome =>
    obtain ⟨rfl, ⟨hinst, hsee⟩, hrot⟩ := hresult
    exact ⟨old, new, seen, hinst, hsee, hgood, hsession, hrot⟩
  | error e =>
    obtain ⟨⟨hinst, hsee⟩, hlate⟩ := hresult
    exact .inr (.inr ⟨hlate, old, new, seen, hinst, hsee, hgood, hsession⟩)

theorem safe_persist (hinj : Function.Injective E.fingerprint) {current : C} {force supported : Bool}
    (hpending : Pending E session alone calm [] w) :
    Safe (fileSystem alone (Sound E session (Verified E credential session.document)))
      (Report E session (Verified E credential session.document) credential calm)
      (persist E .unix session current credential force supported) w := by
  unfold persist
  split
  · rename_i hclean
    simp only [Bool.and_eq_true, Bool.not_eq_true'] at hclean
    exact ⟨rfl, hclean.2, hpending.toUntouched⟩
  split
  · exact .inl ⟨⟨rfl, fun _ => nofun⟩, rfl, hpending.toUntouched⟩
  refine Safe.bind (Safe.weaken (ensures_install hinj hpending) fun t result hresult => ?_)
  cases result with
  | error e => exact .inl ⟨hresult.2, rfl, hresult.1.toUntouched⟩
  | ok backup =>
    obtain ⟨bak, old, new, rfl, hinstalled, hcopied⟩ := hresult
    have hP : Stable alone [] (fun _ => False) (fun w =>
        Installed E session (Verified E credential session.document) old new w ∧
          w.dir (.temp bak) = .regular old) := stable_installed.and (stable_temp (by simp))
    refine Safe.bind (p := syncParent .unix) ⟨hinstalled.sound, fun durable u hstep => ?_⟩
    have hu := hP.step (show (Request.syncParent : Request V C).minds [] _ from trivial)
      ⟨hinstalled, hcopied⟩ hstep
    refine Safe.bind (Safe.weaken (ensures_verifyInstalled hinj hu.1 hu.2) fun v final hfinal => ?_)
    cases final with
    | error e => exact .inr (.inl ⟨hfinal.2, rfl, old, new, hfinal.1⟩)
    | ok found =>
      obtain ⟨⟨hinst, hcop⟩, seen, hseen, hfound, hparse, hsame⟩ := hfinal
      exact safe_finish hinst hcop hseen ⟨found.1, hparse, hsame⟩
        ⟨⟨found.1, hparse, hsame⟩, hfound, rfl⟩

theorem safe_replaceEncrypted (hinj : Function.Injective E.fingerprint) {expected : F}
    {ciphertext : Bytes} (hexpected : calm → expected = session.sourceFingerprint)
    (hpending : Pending E session alone calm [] w) :
    Safe (fileSystem alone (Sound E session (Delivered E credential ciphertext)))
      (Report E session (Delivered E credential ciphertext) credential calm)
      (replaceEncryptedIfUnchanged E .unix session expected ciphertext credential) w := by
  refine Safe.bind (Safe.weaken (ensures_installEncrypted hinj hexpected hpending)
    fun t result hresult => ?_)
  cases result with
  | error e => exact .inl ⟨hresult.2, rfl, hresult.1.toUntouched⟩
  | ok found =>
    obtain ⟨hcandidate, bak, old, new, hbackup, hinstalled, hcopied⟩ := hresult
    obtain ⟨candidate, backup⟩ := found
    cases hbackup
    have hP : Stable alone [] (fun _ => False) (fun w =>
        Installed E session (Delivered E credential ciphertext) old new w ∧
          w.dir (.temp bak) = .regular old) := stable_installed.and (stable_temp (by simp))
    refine Safe.bind (p := syncParent .unix) ⟨hinstalled.sound, fun durable u hstep => ?_⟩
    have hu := hP.step (show (Request.syncParent : Request V C).minds [] _ from trivial)
      ⟨hinstalled, hcopied⟩ hstep
    refine Safe.bind (Safe.weaken (ensures_verifyInstalledBytes hinj hu.1 hu.2)
      fun v final hfinal => ?_)
    cases final with
    | error e => exact .inr (.inl ⟨hfinal.2, rfl, old, new, hfinal.1⟩)
    | ok found =>
      obtain ⟨⟨hinst, hcop⟩, hseen, hfound, hparse, hsame⟩ := hfinal
      exact safe_finish hinst hcop hseen ⟨rfl, found.1, hparse⟩
        ⟨⟨found.1, hparse, Kdbx.KdbxDocument.semanticallyEquals_refl _ _⟩, hfound, rfl⟩

end Reports

/-! ## The calls -/

/-- The persistence calls of a session. -/
inductive Call (C F : Type) where
  | save (credential : C)
  | rotateCredential (current replacement : C)
  | replaceEncryptedIfUnchanged (expected : F) (ciphertext : Bytes) (credential : C)

namespace Call
variable [DecidableEq V] [DecidableEq F]

def run (E : Codec V C F) (host : Host) (session : VaultSession V F) :
    Call C F → Program (Request V C) Answer (Except SessionError SaveOutcome × VaultSession V F)
  | .save credential => Session.save E host session credential
  | .rotateCredential current replacement =>
    Session.rotateCredential E host session current replacement
  | .replaceEncryptedIfUnchanged expected ciphertext credential =>
    Session.replaceEncryptedIfUnchanged E host session expected ciphertext credential

/-- The credential of the new generation. -/
def credential : Call C F → C
  | .save credential => credential
  | .rotateCredential _ replacement => replacement
  | .replaceEncryptedIfUnchanged _ _ credential => credential

/-- What the new generation is verified to be. -/
def good (E : Codec V C F) (session : VaultSession V F) : Call C F → Bytes → Prop
  | .save credential => Verified E credential session.document
  | .rotateCredential _ replacement => Verified E replacement session.document
  | .replaceEncryptedIfUnchanged _ ciphertext credential => Delivered E credential ciphertext

/-- The fingerprint the caller expects is the session's. -/
def expects (session : VaultSession V F) : Call C F → Prop
  | .replaceEncryptedIfUnchanged expected _ _ => expected = session.sourceFingerprint
  | _ => True

theorem safe {E : Codec V C F} (hinj : Function.Injective E.fingerprint)
    {session : VaultSession V F} (call : Call C F) {alone : Bool} {calm : Prop} {w : World}
    (hexpects : calm → call.expects session) (hpending : Pending E session alone calm [] w) :
    Safe (fileSystem alone (Sound E session (call.good E session)))
      (Report E session (call.good E session) call.credential calm) (call.run E .unix session) w := by
  cases call with
  | save credential => exact safe_persist hinj hpending
  | rotateCredential current replacement =>
    unfold run good credential Session.rotateCredential
    exact safe_persist hinj hpending
  | replaceEncryptedIfUnchanged expected ciphertext credential =>
    exact safe_replaceEncrypted hinj hexpects hpending

end Call

/-- A call that ran to its end. -/
def Ends [DecidableEq V] [DecidableEq F] (E : Codec V C F) (alone : Bool) (session : VaultSession V F)
    (call : Call C F) (dir : Directory) (result : Except SessionError SaveOutcome)
    (session' : VaultSession V F) (w : World) : Prop :=
  Reaches (fsStep alone) (call.run E .unix session) (World.start dir) (.done (result, session')) w

section Ends
variable [DecidableEq V] [DecidableEq F] {E : Codec V C F} {session session' : VaultSession V F}
variable {call : Call C F} {alone : Bool} {calm : Prop} {dir : Directory} {w : World}
variable {result : Except SessionError SaveOutcome}

omit [DecidableEq V] [DecidableEq F] in
theorem pending_start (hcalm : calm → alone = true ∧ Matches E session (World.start dir)) :
    Pending E session alone calm [] (World.start dir) :=
  ⟨⟨rfl, rfl, rfl, fun _ _ h => (by cases h), fun _ _ _ => rfl⟩, hcalm⟩

theorem Ends.report (hinj : Function.Injective E.fingerprint)
    (hcalm : calm → alone = true ∧ Matches E session (World.start dir))
    (hexpects : calm → call.expects session) (h : Ends E alone session call dir result session' w) :
    Report E session (call.good E session) call.credential calm w (result, session') :=
  (call.safe hinj hexpects (pending_start hcalm)).reaches h

/-- A session that is up to date does not complain about another writer if there is none. -/
theorem Ends.no_complaint (hinj : Function.Injective E.fingerprint)
    (hmatches : Matches E session (World.start dir)) (hexpects : call.expects session)
    (h : Ends E true session call dir result session' w) :
    result ≠ .error .externalModificationDetected := by
  rintro rfl
  have hreport : Report E session (call.good E session) call.credential True w
      (.error .externalModificationDetected, session') :=
    h.report hinj (fun _ => ⟨rfl, hmatches⟩) fun _ => hexpects
  obtain ⟨hearly, -⟩ | ⟨hfinal, -⟩ | ⟨hlate, -⟩ := hreport
  · exact hearly.2 trivial rfl
  · cases hfinal
  · obtain hlate | hlate | hlate := hlate <;> cases hlate

/-- What each result of a call means. -/
theorem save_reports_truthfully (E : Codec V C F) (hinj : Function.Injective E.fingerprint)
    (session session' : VaultSession V F) (call : Call C F) (alone : Bool) (dir : Directory)
    (result : Except SessionError SaveOutcome) (w : World)
    (h : Ends E alone session call dir result session' w) :
    -- The error tells whether the vault was replaced.
    (∀ e, result = .error e → (e.early = true ↔ w.installed = none)) ∧
    -- An error raised before that.
    (∀ e, result = .error e → w.installed = none →
      w.dir .primary = w.others .primary ∧ w.dir .backup = w.others .backup ∧ session' = session ∧
      (w.spilled = false → ∀ name, w.dir (.temp name) = w.others (.temp name))) ∧
    -- A success, a saved-but-backup error or an uncertain durability.
    (result = .ok .saved ∨ (∃ e, result = .error e ∧ Late e) → w.installed.isSome = true ∧
      ∃ seen, call.good E session seen ∧ UpToDate E call.credential session' seen ∧
      w.opened .primary = some seen ∧
      (w.disturbed .primary = false → w.dir .primary = .regular seen ∧
        ∀ later : VaultSession V F, later.sourceFingerprint = session'.sourceFingerprint →
        ∀ next : Call C F, next.expects later → ∀ result' session'' w',
        Ends E true later next w.dir result' session'' w' →
        result' ≠ .error .externalModificationDetected)) ∧
    -- A final error.
    (∀ e, result = .error e → e.final = true → w.installed.isSome = true ∧ session' = session) ∧
    -- A clean session is not saved.
    (result = .ok .unchanged → session.isDirty = false ∧ session' = session ∧ w.installed = none) := by
  have hreport : Report E session (call.good E session) call.credential False w (result, session') :=
    h.report hinj (fun hfalse : False => hfalse.elim) fun hfalse => hfalse.elim
  refine ⟨?_, ?_, ?_, ?_, ?_⟩
  · rintro e rfl
    obtain ⟨hearly, -, huntouched⟩ | ⟨hfinal, -, old, new, hinstalled⟩ |
      ⟨hlate, old, new, seen, hinstalled, -⟩ := hreport
    · exact iff_of_true hearly.1 huntouched.installed
    · rw [SessionError.early_eq_false hfinal, hinstalled.installed]
      exact iff_of_false nofun nofun
    · rw [hinstalled.installed]
      refine iff_of_false (fun hearly => ?_) nofun
      obtain rfl | rfl | rfl := hlate <;> cases hearly
  · rintro e rfl hnone
    obtain ⟨-, hsession, huntouched⟩ | ⟨-, -, old, new, hinstalled⟩ |
      ⟨-, old, new, seen, hinstalled, -⟩ := hreport
    · exact ⟨huntouched.primary, huntouched.backup, hsession,
        fun hspilled name => huntouched.temps hspilled name (by simp)⟩
    · rw [hinstalled.installed] at hnone
      cases hnone
    · rw [hinstalled.installed] at hnone
      cases hnone
  · intro hresult
    have hsaved : ∃ old new seen, Installed E session (call.good E session) old new w ∧ Seen seen w ∧
        call.good E session seen ∧ UpToDate E call.credential session' seen := by
      obtain rfl | ⟨e, rfl, hlate⟩ := hresult
      · obtain ⟨old, new, seen, hinstalled, hseen, hgood, huptodate, -⟩ := hreport
        exact ⟨old, new, seen, hinstalled, hseen, hgood, huptodate⟩
      · obtain ⟨hearly, -⟩ | ⟨hfinal, -⟩ | ⟨-, hsaved⟩ := hreport
        · obtain rfl | rfl | rfl := hlate <;> cases hearly.1
        · obtain rfl | rfl | rfl := hlate <;> cases hfinal
        · exact hsaved
    obtain ⟨old, new, seen, hinstalled, hseen, hgood, huptodate⟩ := hsaved
    refine ⟨by rw [hinstalled.installed]; rfl, seen, hgood, huptodate, hseen.opened,
      fun hdisturbed => ?_⟩
    have hprimary := hseen.dir hdisturbed
    refine ⟨hprimary, fun later hlater next hexpects result' session'' w' hnext => ?_⟩
    exact hnext.no_complaint hinj ⟨seen, hprimary, by rw [hlater, huptodate.fingerprint]⟩ hexpects
  · rintro e rfl hfinal
    obtain ⟨hearly, -⟩ | ⟨-, hsession, old, new, hinstalled⟩ | ⟨hlate, -⟩ := hreport
    · rw [Early, SessionError.early_eq_false hfinal] at hearly
      cases hearly.1
    · exact ⟨by rw [hinstalled.installed]; rfl, hsession⟩
    · obtain rfl | rfl | rfl := hlate <;> cases hfinal
  · rintro rfl
    obtain ⟨hsession, hclean, huntouched⟩ := hreport
    exact ⟨hclean, hsession, huntouched.installed⟩

end Ends

/-! ## Two runs -/

/-- How the file system behaves in a run without other processes: what the encoder makes of the
document, and whether a file can be removed. Everything else succeeds. -/
structure Conduct where
  encoded : Except DocumentError Bytes
  removes : Bool

/-- The answer of such a file system, and the directory after it. -/
def World.perform (conduct : Conduct) (w : World) : (request : Request V C) → Answer request × World
  | .symlinkMetadata path =>
    (match w.dir path with
      | .absent => .error .notFound
      | .symlink => .ok ⟨.symlink, 0o600⟩
      | .special => .ok ⟨.special, 0o600⟩
      | .regular _ => .ok ⟨.file, 0o600⟩, w)
  | .pathExists path => (w.dir path ≠ .absent, w)
  | .openFile path _ =>
    (match w.dir path with
      | .regular bytes => (.ok ⟨true, bytes⟩, w.see path bytes)
      | _ => (.error .other, w))
  | .handleMetadata handle => (.ok handle.isFile, w)
  | .seek _ => (true, w)
  | .read handle => (.ok handle.bytes, w)
  | .random => (some [0], w)
  | .createNew name =>
    if w.dir (.temp name) = .absent then (.ok (), w.put name (.regular []))
    else (.error .alreadyExists, w)
  | .identity _ => (true, w.spill false)
  | .serialize name _ _ =>
    (match conduct.encoded with
      | .ok bytes => (.ok (), w.put name (.regular bytes))
      | .error error => (.error error, w.put name (.regular [])))
  | .writeAll name bytes => (true, w.put name (.regular bytes))
  | .flush _ => (true, w)
  | .syncAll _ => (true, w)
  | .setPermissions _ _ => (true, w)
  | .syncPath _ => (true, w)
  | .copy handle name => (true, w.put name (.regular handle.bytes))
  | .rename source destination =>
    if w.dir source = .absent then (false, w) else (true, w.move source destination)
  | .removeFile name => (conduct.removes, if conduct.removes then w.put name .absent else w.spill true)
  | .sameFile _ => (true, w.spill false)
  | .syncParent => (true, w)
  | .replaceFile _ => (false, w)

def perform {α : Type} (conduct : Conduct) : Program (Request V C) Answer α → World → α × World
  | .done a, w => (a, w)
  | .ask request next, w =>
    perform conduct (next (w.perform conduct request).1) (w.perform conduct request).2

theorem World.serves_perform (conduct : Conduct) (w : World) (request : Request V C) :
    w.serves request (w.perform conduct request).1 (w.perform conduct request).2 := by
  cases request with
  | symlinkMetadata path =>
    refine ⟨rfl, ?_, ?_⟩ <;> cases h : w.dir path <;> simp [World.perform, h, Node.shows]
  | pathExists path => exact ⟨rfl, fun h => by simpa [World.perform] using h⟩
  | openFile path nofollow =>
    cases h : w.dir path with
    | regular bytes =>
      refine .inl ⟨⟨true, bytes⟩, ?_, ?_, ?_⟩ <;> simp [World.perform, h, Node.opens]
    | absent | symlink | special => refine .inr ⟨⟨.other, ?_⟩, ?_⟩ <;> simp [World.perform, h]
  | handleMetadata handle => exact ⟨rfl, fun _ h => by cases h; rfl⟩
  | read handle => exact ⟨rfl, fun _ h => by cases h; rfl⟩
  | seek | random | syncAll | setPermissions | syncPath | syncParent => rfl
  | createNew name =>
    by_cases h : w.dir (.temp name) = .absent
    · exact .inl ⟨by simp [World.perform, h], h, by simp [World.perform, h]⟩
    · exact .inr ⟨⟨.alreadyExists, by simp [World.perform, h]⟩, by simp [World.perform, h]⟩
  | identity | sameFile => rfl
  | serialize name _ _ =>
    cases h : conduct.encoded with
    | ok bytes => exact ⟨bytes, by simp [World.perform, h]⟩
    | error error => exact ⟨[], by simp [World.perform, h]⟩
  | writeAll name bytes => exact ⟨bytes, rfl, fun _ => rfl⟩
  | flush name => exact .inl ⟨rfl, rfl⟩
  | copy handle name => exact ⟨handle.bytes, rfl, fun _ => rfl⟩
  | rename source destination =>
    by_cases h : w.dir source = .absent
    · exact .inr ⟨by simp [World.perform, h], by simp [World.perform, h]⟩
    · exact .inl ⟨by simp [World.perform, h], h, by simp [World.perform, h]⟩
  | removeFile name => rfl
  | replaceFile prepared => exact .inr ⟨rfl, .inl rfl⟩

theorem reaches_perform {α : Type} (conduct : Conduct) (alone : Bool)
    (p : Program (Request V C) Answer α) (w : World) :
    Reaches (fsStep alone) p w (.done (perform conduct p w).1) (perform conduct p w).2 := by
  induction p generalizing w with
  | done a => exact .here
  | ask request next ih =>
    exact .later ⟨w, .none, fun _ => rfl, w.serves_perform conduct request⟩ (ih _ _)

/-- One group. -/
def sampleDocument : KdbxDocument Unit :=
  { version := .kdbx4 1
    database := { config := (), root := ⟨1⟩, groups := Std.ExtTreeMap.empty.insert ⟨1⟩ {} } }

/-- Two generations of it; a file is its own fingerprint. -/
def sampleCodec : Codec Unit Unit Bytes where
  parse _ bytes := if bytes = [1] ∨ bytes = [2] then .ok sampleDocument else .error .invalidKdbx
  fingerprint bytes := bytes
  keepass := Kdbx.reference

def sampleDirectory : Directory
  | .primary => .regular [1]
  | _ => .absent

/-- A session with an edit. -/
def sampleSession : VaultSession Unit Bytes := ⟨{ sampleDocument with revision := 1 }, [1], 0⟩

def sampleRun (conduct : Conduct) :
    (Except SessionError SaveOutcome × VaultSession Unit Bytes) × World :=
  perform conduct (Call.run sampleCodec .unix sampleSession (.save ())) (World.start sampleDirectory)

theorem ends_sampleRun (conduct : Conduct) :
    Ends sampleCodec true sampleSession (.save ()) sampleDirectory (sampleRun conduct).1.1
      (sampleRun conduct).1.2 (sampleRun conduct).2 :=
  reaches_perform conduct true _ _

/-- The same, with another generation from sync. -/
def sampleReplacement :
    (Except SessionError SaveOutcome × VaultSession Unit Bytes) × World :=
  perform ⟨.ok [2], true⟩ (Call.run sampleCodec .unix { sampleSession with savedRevision := 1 }
    (.replaceEncryptedIfUnchanged [1] [2] ())) (World.start sampleDirectory)

set_option maxRecDepth 100000 in
theorem save_reports_truthfully_saved :
    (sampleRun ⟨.ok [2], true⟩).1.1 = .ok .saved ∧ sampleReplacement.1.1 = .ok .saved ∧
    (∃ seen, Verified sampleCodec () sampleSession.document seen ∧
      UpToDate sampleCodec () (sampleRun ⟨.ok [2], true⟩).1.2 seen ∧
      (sampleRun ⟨.ok [2], true⟩).2.opened .primary = some seen) ∧
    UpToDate sampleCodec () sampleReplacement.1.2 [2] ∧
      sampleReplacement.2.opened .primary = some [2] := by
  have hsaved : (sampleRun ⟨.ok [2], true⟩).1.1 = .ok .saved := by decide +kernel
  have hreplaced : sampleReplacement.1.1 = .ok .saved := by decide +kernel
  obtain ⟨-, -, hreport, -⟩ := save_reports_truthfully sampleCodec (fun _ _ h => h) sampleSession _
    (.save ()) true sampleDirectory _ _ (ends_sampleRun ⟨.ok [2], true⟩)
  obtain ⟨-, seen, hgood, huptodate, hopened, -⟩ := hreport (.inl hsaved)
  obtain ⟨-, -, hreport, -⟩ := save_reports_truthfully sampleCodec (fun _ _ h => h)
    { sampleSession with savedRevision := 1 } _ (.replaceEncryptedIfUnchanged [1] [2] ()) true
    sampleDirectory _ _ (reaches_perform ⟨.ok [2], true⟩ true _ _)
  obtain ⟨-, _, ⟨rfl, -⟩, hreplacement, hreplacing, -⟩ := hreport (.inl hreplaced)
  exact ⟨hsaved, hreplaced, ⟨seen, hgood, huptodate, hopened⟩, hreplacement, hreplacing⟩

set_option maxRecDepth 100000 in
/-- The encoder fails, and then the temporary cannot be removed: the error does not say so. -/
theorem save_leaves_temporary :
    ∃ result session' w, Ends sampleCodec true sampleSession (.save ()) sampleDirectory result
      session' w ∧ result = .error (.kdbx .serialization) ∧ w.installed = none ∧
      sampleDirectory (.temp ".nian-pass-save-00.tmp") = .absent ∧
      w.dir (.temp ".nian-pass-save-00.tmp") = .regular [] :=
  ⟨_, _, _, ends_sampleRun ⟨.error .serialization, false⟩, by decide +kernel, by decide +kernel, rfl,
    by decide +kernel⟩

end NianPass.Session
