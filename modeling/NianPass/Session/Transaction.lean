import NianPass.Session.Directory

/-
  The Unix transaction, step by step.

  Before the new generation is installed nothing but the temporaries of the call
  has changed (`Pending`). The renaming puts a generation in place that was
  re-opened under its temporary name, over the generation that was copied for
  the backup (`Installed`). Every spec below says in which of these a function
  leaves the world, on success and on each error.
-/
namespace NianPass.Session

open Kdbx (Bytes KdbxDocument)
open Program (Machine Ensures Within Safe)

variable {V C F : Type}

/-- The errors that say the vault was not replaced. -/
def SessionError.early : SessionError → Bool
  | .savedButBackupUpdateFailed => false
  | .savedButBackupDurabilityUncertain => false
  | .finalVerificationFailed _ => false
  | .finalReadFailed => false
  | .finalExternalModificationDetected => false
  | .durabilityUncertain => false
  | _ => true

/-- The errors that say the vault was replaced, and what stands there was not accepted. -/
def SessionError.final : SessionError → Bool
  | .finalVerificationFailed _ => true
  | .finalReadFailed => true
  | .finalExternalModificationDetected => true
  | _ => false

theorem SessionError.early_eq_false {e : SessionError} (h : e.final = true) : e.early = false := by
  cases e <;> first | rfl | cases h

/-! ## Before the installation -/

/-- Only the temporaries in `owned` have changed; those were new, unless cleaning up failed. -/
structure Untouched (owned : List String) (w : World) : Prop where
  primary : w.dir .primary = w.others .primary
  backup : w.dir .backup = w.others .backup
  installed : w.installed = none
  owns : w.spilled = false → ∀ name ∈ owned, w.others (.temp name) = .absent
  temps : w.spilled = false → ∀ name, name ∉ owned → w.dir (.temp name) = w.others (.temp name)

/-- The session's fingerprint is that of the vault. -/
def Matches (E : Codec V C F) (session : VaultSession V F) (w : World) : Prop :=
  ∃ bytes, w.dir .primary = .regular bytes ∧ E.fingerprint bytes = session.sourceFingerprint

/-- Before the installation. In a `calm` call nobody else writes, and the session is up to date. -/
structure Pending (E : Codec V C F) (session : VaultSession V F) (alone : Bool) (calm : Prop)
    (owned : List String) (w : World) : Prop extends Untouched owned w where
  calm : calm → alone = true ∧ Matches E session w

/-- A temporary whose content was read back. -/
structure Reopened (name : String) (bytes : Bytes) (w : World) : Prop where
  dir : w.dir (.temp name) = .regular bytes
  opened : w.opened (.temp name) = some bytes

section Pending
variable {E : Codec V C F} {session : VaultSession V F} {alone : Bool} {calm : Prop}
variable {owned : List String} {reads : Path → Prop} {w : World} {name other : String} {bytes : Bytes}

theorem Untouched.foreign {path : Path} {node : Node} (hpath : path = .primary ∨ path = .backup)
    (h : Untouched owned w) : Untouched owned (w.foreign path node) := by
  refine ⟨?_, ?_, h.installed, fun hspilled name hname => ?_, fun hspilled name hname => ?_⟩
  · simp only [World.foreign, Function.update_apply, h.primary]
  · simp only [World.foreign, Function.update_apply, h.backup]
  · rw [World.foreign_others_temp hpath]
    exact h.owns hspilled name hname
  · rw [World.foreign_temp hpath, World.foreign_others_temp hpath]
    exact h.temps hspilled name hname

theorem Untouched.spill {failed : Bool} (h : Untouched owned w) : Untouched owned (w.spill failed) := by
  have hbefore : (w.spill failed).spilled = false → w.spilled = false := fun hspilled =>
    (Bool.or_eq_false_iff.mp hspilled).1
  exact ⟨h.primary, h.backup, h.installed, fun hspilled => h.owns (hbefore hspilled),
    fun hspilled => h.temps (hbefore hspilled)⟩

theorem Untouched.put {node : Node} (hname : name ∈ owned) (h : Untouched owned w) :
    Untouched owned (w.put name node) := by
  refine ⟨World.put_primary.trans h.primary, World.put_backup.trans h.backup, h.installed, h.owns,
    fun hspilled other hother => ?_⟩
  have hne : other ≠ name := fun heq => hother (heq ▸ hname)
  exact (World.put_of_ne hne).trans (h.temps hspilled other hother)

/-- A file of the call's own is created. -/
theorem Untouched.create (habsent : w.dir (.temp name) = .absent) (h : Untouched owned w) :
    Untouched (name :: owned) (w.put name (.regular bytes)) := by
  have hmore : Untouched (name :: owned) w := by
    refine ⟨h.primary, h.backup, h.installed, fun hspilled other hother => ?_,
      fun hspilled other hother => ?_⟩
    · by_cases howned : other ∈ owned
      · exact h.owns hspilled other howned
      · have heq : other = name := (List.mem_cons.mp hother).resolve_right howned
        rw [heq] at howned ⊢
        exact (h.temps hspilled name howned).symm.trans habsent
    · exact h.temps hspilled other fun howned => hother (List.mem_cons_of_mem _ howned)
  exact hmore.put List.mem_cons_self

/-- It is removed again. -/
theorem Untouched.remove (h : Untouched (name :: owned) w) : Untouched owned (w.put name .absent) := by
  refine ⟨World.put_primary.trans h.primary, World.put_backup.trans h.backup, h.installed,
    fun hspilled other hother => ?_, fun hspilled other hother => ?_⟩
  · exact h.owns hspilled other (List.mem_cons_of_mem _ hother)
  · by_cases heq : other = name
    · rw [heq, World.put_self]
      exact (h.owns hspilled name List.mem_cons_self).symm
    · refine (World.put_of_ne heq).trans (h.temps hspilled other fun hmem => ?_)
      exact (List.mem_cons.mp hmem).elim heq hother

/-- It could not be removed: cleaning up failed. -/
theorem Untouched.lose (hspilled : w.spilled = true) (h : Untouched (name :: owned) w) :
    Untouched owned w := by
  refine ⟨h.primary, h.backup, h.installed, fun hnot => ?_, fun hnot => ?_⟩
  · rw [hspilled] at hnot
    cases hnot
  · rw [hspilled] at hnot
    cases hnot

theorem Matches.put {node : Node} (h : Matches E session w) : Matches E session (w.put name node) := by
  obtain ⟨bytes, hprimary, hfingerprint⟩ := h
  exact ⟨bytes, World.put_primary.trans hprimary, hfingerprint⟩

theorem Pending.create (habsent : w.dir (.temp name) = .absent)
    (h : Pending E session alone calm owned w) :
    Pending E session alone calm (name :: owned) (w.put name (.regular bytes)) :=
  ⟨h.toUntouched.create habsent, fun hcalm => ⟨(h.calm hcalm).1, (h.calm hcalm).2.put⟩⟩

theorem Pending.remove (h : Pending E session alone calm (name :: owned) w) :
    Pending E session alone calm owned (w.put name .absent) :=
  ⟨h.toUntouched.remove, fun hcalm => ⟨(h.calm hcalm).1, (h.calm hcalm).2.put⟩⟩

theorem Pending.lose (hspilled : w.spilled = true)
    (h : Pending E session alone calm (name :: owned) w) : Pending E session alone calm owned w :=
  ⟨h.toUntouched.lose hspilled, h.calm⟩

theorem stable_pending : Stable alone owned reads (Pending E session alone calm owned) where
  foreign w path node halone hpath h := by
    refine ⟨h.toUntouched.foreign hpath, fun hcalm => ?_⟩
    rw [(h.calm hcalm).1] at halone
    cases halone
  spill w failed h := ⟨h.toUntouched.spill, h.calm⟩
  see w path nofollow handle _ _ h :=
    ⟨⟨h.primary, h.backup, h.installed, h.owns, h.temps⟩, h.calm⟩
  put w name bytes hname h :=
    ⟨h.toUntouched.put hname, fun hcalm => ⟨(h.calm hcalm).1, (h.calm hcalm).2.put⟩⟩

theorem stable_reopened (hname : name ∉ owned) : Stable alone owned reads (Reopened name bytes) where
  foreign w path node _ hpath h := ⟨(World.foreign_temp hpath).trans h.dir, h.opened⟩
  spill w failed h := ⟨h.dir, h.opened⟩
  see w path nofollow handle _ hopens h := by
    refine ⟨h.dir, ?_⟩
    by_cases heq : Path.temp name = path
    · -- Read again, it still shows the same bytes.
      subst heq
      rw [h.dir] at hopens
      cases hopens
      exact Function.update_self _ _ _
    · exact (Function.update_of_ne heq _ _).trans h.opened
  put w other bytes' hother h := by
    have hne : name ≠ other := fun heq => hname (heq ▸ hother)
    exact ⟨(World.put_of_ne hne).trans h.dir, h.opened⟩

/-- What stands under the name of a temporary nobody writes. -/
theorem stable_temp {node : Node} (hname : name ∉ owned) :
    Stable alone owned reads (fun w => w.dir (.temp name) = node) where
  foreign w path new _ hpath h := (World.foreign_temp hpath).trans h
  spill w failed h := h
  see w path nofollow handle _ _ h := h
  put w other bytes' hother h := by
    have hne : name ≠ other := fun heq => hname (heq ▸ hother)
    exact (World.put_of_ne hne).trans h

end Pending

/-! ## Temporaries -/

section Temporaries
variable {alone : Bool} {I : World → Prop} {w : World} {name : String} {α : Type}
variable {P Q : World → Prop}

/-- A name that names nothing is drawn and the file created; whatever fails after that leaves it
behind. -/
theorem ensures_create {reads : Path → Prop} {P : World → Prop} {Q : String → World → Prop}
    {start : String} {failed : SessionError} (hP : Stable alone [] reads P)
    (hQ : ∀ name, Stable alone [] reads (Q name))
    (hput : ∀ w name, P w → w.dir (.temp name) = .absent → Q name (w.put name (.regular [])))
    (hlose : ∀ w name, Q name w → w.spilled = true → P w)
    (hI : ∀ w, P w → I w) (hIQ : ∀ w name, Q name w → I w) {attempts : Nat} (hw : P w) :
    Ensures (fileSystem alone I) (ManagedTemp.create start failed attempts : Fs V C String)
      (fun t name => Q name t) (fun t e => P t ∧ (e = failed ∨ e = .tempRandomFailed)) w := by
  induction attempts generalizing w with
  | zero => exact Program.ensures_throw ⟨hw, .inl rfl⟩
  | succ attempts ih =>
    have hname : Ensures (fileSystem alone I) (randomTempName start : Fs V C String)
        (fun t _ => P t) (fun t e => P t ∧ (e = failed ∨ e = .tempRandomFailed)) w := by
      refine Program.Ensures.bind (Program.ensures_request (hI w hw) fun answer t hstep => ?_)
      have ht : P t := hP.step (show (Request.random : Request V C).minds [] reads from trivial) hw hstep
      cases answer with
      | none => exact Program.ensures_throw ⟨ht, .inr rfl⟩
      | some random => exact Program.ensures_pure ht
    refine Program.Ensures.bind (Program.Ensures.weaken hname (fun t name ht => ?_) fun _ _ h => h)
    refine Program.Ensures.bind (Program.ensures_request (hI t ht) fun answer t' hstep => ?_)
    obtain ⟨mid, hmid, hquiet, hserves⟩ := hstep
    have hm := hP.interferes (fun halone => hquiet (.inl halone)) ht hmid
    obtain ⟨rfl, habsent, rfl⟩ | ⟨⟨error, rfl⟩, rfl⟩ := hserves
    · have hq := hput mid name hm habsent
      refine Program.Ensures.bind (Program.ensures_request (hIQ _ name hq) fun success t hstep => ?_)
      have ht := (hQ name).step
        (show (Request.identity name : Request V C).minds [] reads from trivial) hq hstep
      obtain ⟨after, -, -, rfl⟩ := hstep
      refine Program.Ensures.bind (ensures_require (fun _ => Program.ensures_pure ht) fun hfail => ?_)
      refine ⟨hlose _ name ht ?_, .inl rfl⟩
      simp [World.spill, hfail]
    · cases error with
      | alreadyExists => exact ih hm
      | notFound => exact Program.ensures_throw ⟨hm, .inl rfl⟩
      | other => exact Program.ensures_throw ⟨hm, .inl rfl⟩

/-- A block that fails has its temporary removed, unless that fails too. -/
theorem ensures_guarded {block : Fs V C α} {F : World → α → Prop} {Y : SessionError → Prop}
    (hQ : Stable alone [] (fun _ => False) Q) (hremove : ∀ w, Q w → P (w.put name .absent))
    (hlose : ∀ w, Q w → w.spilled = true → P w) (hI : ∀ w, Q w → I w)
    (hblock : Ensures (fileSystem alone I) block F (fun t e => Q t ∧ Y e) w) :
    Ensures (fileSystem alone I) (guarded name block) F (fun t e => P t ∧ Y e) w := by
  refine Safe.bind (Safe.weaken hblock fun t result hresult => ?_)
  cases result with
  | ok a => exact hresult
  | error error =>
    obtain ⟨ht, herror⟩ := hresult
    refine ⟨hI t ht, fun same t' hstep => ?_⟩
    have ht' : Q t' := hQ.step
      (show (Request.sameFile name : Request V C).minds [] _ from trivial) ht hstep
    obtain ⟨mid, -, -, rfl⟩ := hstep
    cases same with
    | false => exact ⟨hlose _ ht' (by simp [World.spill]), herror⟩
    | true =>
      refine ⟨hI _ ht', fun removed t hstep => ?_⟩
      obtain ⟨after, hafter, hquiet, rfl⟩ := hstep
      have hq := hQ.interferes (fun halone => hquiet (.inl halone)) ht' hafter
      cases removed with
      | true => exact ⟨hremove _ hq, herror⟩
      | false => exact ⟨hlose _ (hQ.spill _ true hq) (by simp [World.spill]), herror⟩

theorem ensures_mapError {M : Machine (Request V C) Answer World} {f : SessionError → SessionError}
    {block : Fs V C α} {F : World → α → Prop} {X : World → SessionError → Prop}
    (hblock : Ensures M block F (fun t e => X t (f e)) w) :
    Ensures M (mapError f block) F X w := by
  refine Safe.bind (Safe.weaken hblock fun t result hresult => ?_)
  cases result with
  | ok a => exact hresult
  | error error => exact hresult

end Temporaries

/-! ## The installation -/

/-- A generation was re-opened under its temporary name and renamed over the vault. The backup is
the old one, or the generation that was replaced. -/
structure Installed (E : Codec V C F) (session : VaultSession V F) (good : Bytes → Prop)
    (old new : Bytes) (w : World) : Prop where
  installed : w.installed = some (.regular old, .regular new)
  source : E.fingerprint old = session.sourceFingerprint
  good : good new
  reopened : ∃ name, w.opened (.temp name) = some new ∧ w.dir (.temp name) = .absent
  primary : w.dir .primary = .regular new ∨ w.dir .primary ∈ w.written
  backup : w.dir .backup = .regular old ∨ w.dir .backup = w.others .backup

/-- What holds wherever a call is stopped. -/
def Sound (E : Codec V C F) (session : VaultSession V F) (good : Bytes → Prop) (w : World) : Prop :=
  (∃ owned, Untouched owned w) ∨ ∃ old new, Installed E session good old new w

/-- An early error, which is no complaint about another writer if there was none. -/
def Early (calm : Prop) (e : SessionError) : Prop :=
  e.early = true ∧ (calm → e ≠ .externalModificationDetected)

section Installed
variable {E : Codec V C F} {session : VaultSession V F} {good : Bytes → Prop} {old new : Bytes}
variable {alone : Bool} {calm : Prop} {reads : Path → Prop} {owned : List String} {w : World}
variable {name : String}

theorem Pending.sound (h : Pending E session alone calm owned w) : Sound E session good w :=
  .inl ⟨owned, h.toUntouched⟩

theorem Installed.sound (h : Installed E session good old new w) : Sound E session good w :=
  .inr ⟨old, new, h⟩

theorem stable_installed : Stable alone [] reads (Installed E session good old new) where
  foreign w path node _ hpath h := by
    obtain ⟨name, hopened, hdir⟩ := h.reopened
    refine ⟨h.installed, h.source, h.good, ⟨name, hopened, (World.foreign_temp hpath).trans hdir⟩,
      ?_, ?_⟩
    · obtain rfl | rfl := hpath
      · exact .inr (by simp [World.foreign])
      · simpa [World.foreign] using h.primary
    · obtain rfl | rfl := hpath
      · simpa [World.foreign] using h.backup
      · exact .inr (by simp [World.foreign])
  spill w failed h := ⟨h.installed, h.source, h.good, h.reopened, h.primary, h.backup⟩
  see w path nofollow handle _ hopens h := by
    obtain ⟨name, hopened, hdir⟩ := h.reopened
    refine ⟨h.installed, h.source, h.good, ⟨name, ?_, hdir⟩, h.primary, h.backup⟩
    have hne : Path.temp name ≠ path := by
      rintro rfl
      rw [hdir] at hopens
      cases hopens
    exact (Function.update_of_ne hne _ _).trans hopened
  put w name bytes hname _ := by cases hname

theorem Installed.remove (h : Installed E session good old new w) :
    Installed E session good old new (w.put name .absent) := by
  obtain ⟨reopenedName, hopened, hdir⟩ := h.reopened
  refine ⟨h.installed, h.source, h.good, ⟨reopenedName, hopened, ?_⟩,
    by simpa [World.put] using h.primary, by simpa using h.backup⟩
  by_cases heq : reopenedName = name
  · rw [heq, World.put_self]
  · exact (World.put_of_ne heq).trans hdir

/-- The renaming that installs the new generation. -/
theorem Pending.install (h : Pending E session alone calm owned w) (hnew : Reopened name new w)
    (hgood : good new) (hold : w.dir .primary = .regular old)
    (hsource : E.fingerprint old = session.sourceFingerprint) :
    Installed E session good old new (w.move (.temp name) .primary) := by
  refine ⟨?_, hsource, hgood, ⟨name, hnew.opened, ?_⟩, .inl ?_, .inr ?_⟩
  · simp [World.move, hold, hnew.dir]
  · simp [World.move]
  · simp [World.move, hnew.dir]
  · simpa [World.move] using h.backup

/-- The renaming that rotates the backup. -/
theorem Installed.rotate (h : Installed E session good old new w)
    (hold : w.dir (.temp name) = .regular old) :
    Installed E session good old new (w.move (.temp name) .backup) ∧
    (w.move (.temp name) .backup).dir .backup = .regular old := by
  obtain ⟨reopenedName, hopened, hdir⟩ := h.reopened
  have hbackup : (w.move (.temp name) .backup).dir .backup = .regular old := by
    simp [World.move, hold]
  refine ⟨⟨?_, h.source, h.good, ⟨reopenedName, hopened, ?_⟩, ?_, .inl hbackup⟩, hbackup⟩
  · simpa [World.move] using h.installed
  · by_cases heq : reopenedName = name
    · simp [World.move, heq]
    · simpa [World.move, heq] using hdir
  · simpa [World.move] using h.primary

end Installed

/-! ## The functions of the transaction -/

section Functions
variable [DecidableEq F] {E : Codec V C F} {session : VaultSession V F} {good : Bytes → Prop}
variable {old new : Bytes} {alone : Bool} {calm : Prop} {owned : List String} {w : World}
variable {name backup : String} {metadata : Metadata}

omit [DecidableEq F] in
/-- A complaint about another writer shows a vault that does not match. -/
theorem early_of_external (h : Pending E session alone calm owned w) {bytes : Bytes}
    (hne : E.fingerprint bytes ≠ session.sourceFingerprint) (hdir : w.dir .primary = .regular bytes) :
    Early calm .externalModificationDetected := by
  refine ⟨rfl, fun hcalm _ => ?_⟩
  obtain ⟨-, found, hfound, hmatch⟩ := h.calm hcalm
  rw [hfound] at hdir
  cases hdir
  exact hne hmatch

theorem ensures_requireSourceUnchanged_pending {P : World → Prop} {reads : Path → Prop}
    (hP : Stable alone [] reads P) (hreads : reads .primary)
    (hpending : ∀ w, P w → Pending E session alone calm owned w) (hw : P w) :
    Ensures (fileSystem alone (Sound E session good)) (requireSourceUnchanged E session)
      (fun t _ => P t ∧ ∃ bytes, E.fingerprint bytes = session.sourceFingerprint ∧
        t.Shows .primary bytes)
      (fun t e => P t ∧ Early calm e) w := by
  refine Program.Ensures.weaken (ensures_requireSourceUnchanged E hP hreads
    (fun w hw => (hpending w hw).sound) hw) (fun _ _ ht => ht) ?_
  rintro t e ⟨ht, rfl | rfl | ⟨rfl, bytes, hne, hshows⟩⟩
  · exact ⟨ht, rfl, fun _ => nofun⟩
  · exact ⟨ht, rfl, fun _ => nofun⟩
  · exact ⟨ht, early_of_external (hpending t ht) hne hshows.dir⟩

theorem ensures_rejectSymlinkIfPresent {P : World → Prop} {reads : Path → Prop} {I : World → Prop}
    {Y : SessionError → Prop} {path : Path} {error : SessionError} (hP : Stable alone [] reads P)
    (hI : ∀ w, P w → I w) (hY : Y error) (hw : P w) :
    Ensures (fileSystem alone I) (rejectSymlinkIfPresent path error : Fs V C Unit)
      (fun t _ => P t) (fun t e => P t ∧ Y e) w := by
  refine Program.Ensures.bind (Program.ensures_request (hI w hw) fun answer t hstep => ?_)
  have ht := hP.step (show (Request.symlinkMetadata path : Request V C).minds [] reads from trivial)
    hw hstep
  cases answer with
  | ok metadata =>
    exact Program.ensures_ite (fun _ => Program.ensures_pure ht) fun _ =>
      Program.ensures_throw ⟨ht, hY⟩
  | error error =>
    cases error with
    | notFound => exact Program.ensures_pure ht
    | alreadyExists => exact Program.ensures_throw ⟨ht, hY⟩
    | other => exact Program.ensures_throw ⟨ht, hY⟩

theorem Stable.none {P : World → Prop} {reads : Path → Prop} (h : Stable alone owned reads P) :
    Stable alone [] reads P :=
  ⟨h.foreign, h.spill, h.see, fun _ _ _ hname => by cases hname⟩

theorem within_restrict {K : Request V C → Prop} {Y : SessionError → Prop} {error : SessionError}
    (hK : ∀ mode, K (.setPermissions name mode)) (hY : Y error) :
    Within K Y (applyRestrictedPermissions name metadata error) :=
  (within_ask (hK _)).bind fun _ => within_require hY

theorem within_syncPath {K : Request V C → Prop} {Y : SessionError → Prop} {error : SessionError}
    (hK : K (.syncPath name)) (hY : Y error) : Within K Y (syncPath name error) :=
  (within_ask hK).bind fun _ => within_require hY

/-- The backup is a copy of a vault that matches. -/
theorem ensures_fillBackup {P : World → Prop} (hP : Stable alone [backup] (fun _ => True) P)
    (hpending : ∀ w, P w → Pending E session alone calm owned w) (hw : P w) :
    Ensures (fileSystem alone (Sound E session good)) (fillBackup E session metadata backup)
      (fun t _ => P t ∧ ∃ old, E.fingerprint old = session.sourceFingerprint ∧
        t.dir (.temp backup) = .regular old)
      (fun t e => P t ∧ Early calm e) w := by
  have hI : ∀ w, P w → Sound E session good w := fun w hw => (hpending w hw).sound
  have hfailed : Early calm .backupFailed := ⟨rfl, fun _ => nofun⟩
  refine Program.Ensures.bind (Program.Ensures.weaken
    (ensures_openExistingFile hP trivial hI hw) (fun t source hsource => ?_) ?_)
  swap
  · rintro t e ⟨ht, rfl⟩
    exact ⟨ht, hfailed⟩
  have ht := hsource.1
  refine Program.Ensures.bind (ensures_mapError (Program.Ensures.weaken
    (ensures_ensureHandleRegular (hI t ht)) ?_ ?_))
  swap
  · rintro _ e ⟨rfl, -⟩
    exact ⟨ht, hfailed⟩
  rintro _ _ ⟨rfl, hisFile⟩
  have hshows := hsource.2 hisFile
  refine Program.Ensures.bind (Program.ensures_request (hI _ ht) fun success t' hstep => ?_)
  have ht' : P t' := hP.step
    (show (Request.copy source backup : Request V C).minds [backup] _ from List.mem_singleton.mpr rfl)
    ht hstep
  obtain ⟨mid, hmid, hquiet, written, hput, hwritten⟩ := hstep
  refine Program.Ensures.bind (ensures_require (fun hsuccess => ?_) fun _ => ⟨ht', hfailed⟩)
  have hcopied : t'.dir (.temp backup) = .regular source.bytes := by
    rw [hput, World.put_self, hwritten hsuccess]
  refine Program.ensures_ite (fun hne => ?_) fun hsame => ?_
  · -- The copy is not what the session knows: then neither was the vault.
    refine Program.ensures_throw ⟨ht', rfl, fun hcalm _ => ?_⟩
    obtain ⟨-, found, hfound, hmatch⟩ := (hpending _ ht).calm hcalm
    rw [hshows.dir] at hfound
    cases hfound
    exact hne hmatch
  · have hsame : E.fingerprint source.bytes = session.sourceFingerprint := not_not.mp hsame
    have hfilled : Stable alone [] (fun _ => True)
        (fun w => P w ∧ w.dir (.temp backup) = .regular source.bytes) :=
      hP.none.and (stable_temp (by simp))
    refine Program.Ensures.bind (Program.ensures_request (hI _ ht') fun success u hstep => ?_)
    have hu : P u := hP.step
      (show (Request.flush backup : Request V C).minds [backup] _ from List.mem_singleton.mpr rfl)
      ht' hstep
    obtain ⟨mid', hmid', hquiet', hserves⟩ := hstep
    refine Program.Ensures.bind (ensures_require (fun hsuccess => ?_) fun _ => ⟨hu, hfailed⟩)
    have hu' : P u ∧ u.dir (.temp backup) = .regular source.bytes := by
      obtain ⟨-, rfl⟩ | ⟨hfail, -⟩ := hserves
      · exact hfilled.interferes (fun halone => hquiet' (.inl halone)) ⟨ht', hcopied⟩ hmid'
      · rw [hsuccess] at hfail
        cases hfail
    refine Program.Ensures.weaken (hfilled.ensures (Y := Early calm) ?_
      (fun w hw => hI w hw.1) hu') (fun v _ hv => ⟨hv.1, source.bytes, hsame, hv.2⟩)
      fun v e hv => ⟨hv.1.1, hv.2⟩
    refine (within_ask trivial).bind fun _ => (within_require hfailed).bind fun _ => ?_
    refine (within_restrict (fun _ => trivial) hfailed).bind fun _ => ?_
    refine (within_syncPath trivial hfailed).bind fun _ => ?_
    refine Within.bind ((within_openExistingFile trivial hfailed).bind fun _ =>
      within_fromReader E hfailed) fun prepared => ?_
    exact Program.within_ite (Program.within_throw ⟨rfl, fun _ => nofun⟩) Program.within_pure

theorem stable_const {owned : List String} {reads : Path → Prop} {p : Prop} :
    Stable alone owned reads (fun _ => p) :=
  ⟨fun _ _ _ _ _ h => h, fun _ _ h => h, fun _ _ _ _ _ _ h => h, fun _ _ _ _ h => h⟩

/-- The backup is prepared under a name of its own. -/
structure Prepared (E : Codec V C F) (session : VaultSession V F) (alone : Bool) (calm : Prop)
    (owned : List String) (name : String) (old new : Bytes) (bak : String) (w : World) : Prop
    extends Pending E session alone calm (bak :: owned) w where
  reopened : Reopened name new w
  ne : name ≠ bak
  copied : w.dir (.temp bak) = .regular old

omit [DecidableEq F] in
theorem stable_prepared {reads : Path → Prop} :
    Stable alone [] reads (Prepared E session alone calm owned name old new backup) := by
  have h : Stable alone [] reads (fun w => (Pending E session alone calm (backup :: owned) w ∧
      Reopened name new w) ∧ name ≠ backup ∧ w.dir (.temp backup) = .regular old) :=
    (stable_pending.none.and (stable_reopened (by simp))).and
      (stable_const.and (stable_temp (by simp)))
  have hpack : ∀ w, Prepared E session alone calm owned name old new backup w ↔
      (Pending E session alone calm (backup :: owned) w ∧ Reopened name new w) ∧
        name ≠ backup ∧ w.dir (.temp backup) = .regular old := fun w =>
    ⟨fun h => ⟨⟨h.toPending, h.reopened⟩, h.ne, h.copied⟩, fun h => ⟨h.1.1, h.1.2, h.2.1, h.2.2⟩⟩
  simpa only [← hpack] using h

theorem ensures_prepareBackup (hpending : Pending E session alone calm owned w)
    (hreopened : Reopened name new w) :
    Ensures (fileSystem alone (Sound E session good)) (prepareBackup E session metadata)
      (fun t backup => ∃ old, E.fingerprint old = session.sourceFingerprint ∧
        Prepared E session alone calm owned name old new backup t)
      (fun t e => Pending E session alone calm owned t ∧ Early calm e) w := by
  have hP : Stable alone [] (fun _ => True)
      (fun w => Pending E session alone calm owned w ∧ Reopened name new w) :=
    stable_pending.none.and (stable_reopened (by simp))
  have hI : ∀ w, Pending E session alone calm owned w ∧ Reopened name new w →
      Sound E session good w := fun w hw => hw.1.sound
  refine Program.Ensures.bind (Program.Ensures.weaken
    (ensures_rejectSymlinkIfPresent (Y := Early calm) hP hI ⟨rfl, fun _ => nofun⟩
      ⟨hpending, hreopened⟩) (fun t _ ht => ?_) fun t e ht => ⟨ht.1.1, ht.2⟩)
  have hQ : ∀ backup, Stable alone [] (fun _ => True) (fun w =>
      (Pending E session alone calm (backup :: owned) w ∧ Reopened name new w) ∧ name ≠ backup) :=
    fun backup => (stable_pending.none.and (stable_reopened (by simp))).and stable_const
  refine Program.Ensures.bind (Program.Ensures.weaken (ensures_create hP hQ ?_ ?_ hI
    (fun w backup hw => hw.1.1.sound) ht) (fun u backup hu => ?_) ?_)
  · rintro w backup ⟨hp, hr⟩ habsent
    have hne : name ≠ backup := by
      rintro rfl
      rw [hr.dir] at habsent
      cases habsent
    exact ⟨⟨hp.create habsent, (World.put_of_ne hne).trans hr.dir, hr.opened⟩, hne⟩
  · rintro w backup ⟨⟨hp, hr⟩, -⟩ hspilled
    exact ⟨hp.lose hspilled, hr⟩
  · -- The temporary is there: fill it.
    have hfill : Stable alone [backup] (fun _ => True) (fun w =>
        (Pending E session alone calm (backup :: owned) w ∧ Reopened name new w) ∧ name ≠ backup) := by
      have hpend : Stable alone (backup :: owned) (fun _ => True)
          (Pending E session alone calm (backup :: owned)) := stable_pending
      refine (Stable.and ⟨hpend.foreign, hpend.spill, hpend.see, ?_⟩
        (stable_reopened (by simpa using hu.2))).and stable_const
      intro w other bytes hother hw
      rw [List.mem_singleton] at hother
      exact hpend.put w other bytes (hother ▸ List.mem_cons_self) hw
    refine Program.Ensures.bind (ensures_guarded (Q := Pending E session alone calm (backup :: owned))
      stable_pending.none (fun _ hw => hw.remove) (fun _ hw hspilled => hw.lose hspilled)
      (fun _ hw => hw.sound) (Program.Ensures.weaken (ensures_fillBackup hfill
        (fun w hw => hw.1.1) hu) ?_ fun t e ht => ⟨ht.1.1.1, ht.2⟩))
    rintro t _ ⟨⟨⟨hp, hr⟩, hne⟩, old, hsource, hcopied⟩
    exact Program.ensures_pure ⟨old, hsource, hp, hr, hne, hcopied⟩
  · rintro u e ⟨⟨hp, -⟩, rfl | rfl⟩
    · exact ⟨hp, rfl, fun _ => nofun⟩
    · exact ⟨hp, rfl, fun _ => nofun⟩

/-- The installation replaces the generation of which the backup is a copy. -/
theorem ensures_replacePrimary (hinj : Function.Injective E.fingerprint) (hgood : good new)
    (hpending : Pending E session alone calm owned w) (hreopened : Reopened name new w) :
    Ensures (fileSystem alone (Sound E session good))
      (replacePrimary E .unix session metadata name)
      (fun t backup => ∃ bak old, backup = some bak ∧ Installed E session good old new t ∧
        t.dir (.temp bak) = .regular old)
      (fun t e => Pending E session alone calm owned t ∧ Early calm e) w := by
  refine Program.Ensures.bind (Program.Ensures.weaken (ensures_prepareBackup hpending hreopened) ?_
    fun _ _ h => h)
  rintro t backup ⟨old, hsource, hprepared⟩
  have hstable : Stable alone [] (fun _ => True)
      (Prepared E session alone calm owned name old new backup) := stable_prepared
  refine Program.Ensures.bind (ensures_guarded (Q := Pending E session alone calm (backup :: owned))
    stable_pending.none (fun _ hw => hw.remove) (fun _ hw hspilled => hw.lose hspilled)
    (fun _ hw => hw.sound) ?_)
  refine Program.Ensures.bind (Program.Ensures.weaken (ensures_requireSourceUnchanged_pending
    hstable trivial (fun w hw => hw.toPending) hprepared) ?_
    fun t e ht => ⟨ht.1.toPending, ht.2⟩)
  rintro u _ ⟨hu, bytes, hbytes, hshows⟩
  have hbytes : bytes = old := hinj (hbytes.trans hsource.symm)
  subst hbytes
  refine Program.Ensures.bind (Program.ensures_request hu.toPending.sound fun success v hstep => ?_)
  obtain ⟨rfl, -, rfl⟩ | ⟨rfl, rfl⟩ := undisturbed_step rfl hstep
  · refine ensures_require (fun _ => Program.ensures_pure ⟨backup, bytes, rfl, ?_, ?_⟩) nofun
    · exact hu.toPending.install hu.reopened hgood hshows.dir hsource
    · have hne : backup ≠ name := fun heq => hu.ne heq.symm
      simpa [World.move, hne] using hu.copied
  · exact ensures_require nofun fun _ => ⟨hu.toPending, rfl, fun _ => nofun⟩

end Functions

/-! ## Up to the installation -/

/-- Bytes that open under the credential, with the content of the document. -/
def Verified [DecidableEq V] (E : Codec V C F) (credential : C) (document : KdbxDocument V)
    (bytes : Bytes) : Prop :=
  ∃ parsed, E.parse credential bytes = .ok parsed ∧
    document.semanticallyEquals E.keepass parsed = true

section Install
variable [DecidableEq V] [DecidableEq F] {E : Codec V C F} {session : VaultSession V F}
variable {old new : Bytes} {alone : Bool} {calm : Prop} {owned : List String} {w : World}
variable {name backup : String} {metadata : Metadata} {credential : C} {document : KdbxDocument V}
variable {good : Bytes → Prop}

/-- A temporary that exists. -/
theorem stable_written {reads : Path → Prop} {name : String} :
    Stable alone owned reads (fun w => ∃ bytes, w.dir (.temp name) = .regular bytes) where
  foreign w path node _ hpath h := by
    rw [World.foreign_temp hpath]
    exact h
  spill w failed h := h
  see w path nofollow handle _ _ h := h
  put w other bytes hother h := by
    by_cases heq : name = other
    · exact ⟨bytes, by rw [heq, World.put_self]⟩
    · rw [World.put_of_ne heq]
      exact h

omit [DecidableEq F] in
theorem ensures_verifySemanticEquivalence {σ : Type} {M : Machine (Request V C) Answer σ}
    {other : KdbxDocument V} {wrap : DocumentError → SessionError} {G : σ → Unit → Prop}
    {X : σ → SessionError → Prop} {s : σ}
    (hok : document.semanticallyEquals E.keepass other = true → G s ())
    (herror : X s (wrap .verificationFailed)) :
    Ensures M (verifySemanticEquivalence E document other wrap) G X s :=
  Program.ensures_ite (fun h => Program.ensures_pure (hok h)) fun _ => Program.ensures_throw herror

omit [DecidableEq F] in
/-- A temporary is read back and found to be what was meant. -/
theorem ensures_verifyTemp (hpending : Pending E session alone calm owned w)
    (hwritten : w.dir (.temp name) = .regular new) :
    Ensures (fileSystem alone (Sound E session good)) (verifyTemp E name credential document)
      (fun t _ => (Pending E session alone calm owned t ∧ Reopened name new t) ∧
        Verified E credential document new)
      (fun t e => Pending E session alone calm owned t ∧ Early calm e) w := by
  have hP : Stable alone [] (fun _ => True) (fun w => Pending E session alone calm owned w ∧
      w.dir (.temp name) = .regular new) := stable_pending.none.and (stable_temp (by simp))
  refine Program.Ensures.bind (Program.Ensures.weaken (ensures_openDocument E hP trivial
    (fun w hw => hw.1.sound) (fun w hw => hw.2) ⟨hpending, hwritten⟩) ?_ ?_)
  · rintro t parsed ⟨⟨ht, hdir⟩, hparse, hopened⟩
    refine ensures_verifySemanticEquivalence (fun hsame => ?_) ⟨ht, rfl, fun _ => nofun⟩
    exact ⟨⟨ht, hdir, hopened⟩, parsed, hparse, hsame⟩
  · rintro t e ⟨⟨ht, -⟩, error, rfl⟩
    exact ⟨ht, rfl, fun _ => nofun⟩

omit [DecidableEq V] [DecidableEq F] in
theorem stable_ready :
    Stable alone [] (fun _ => True)
      (fun w => Pending E session alone calm owned w ∧ Reopened name new w) :=
  stable_pending.none.and (stable_reopened (by simp))

omit [DecidableEq V] [DecidableEq F] in
theorem ensures_restrictTemp {host : Host}
    (hw : Pending E session alone calm owned w ∧ Reopened name new w) :
    Ensures (fileSystem alone (Sound E session good)) (restrictTemp host name metadata : Fs V C Unit)
      (fun t _ => Pending E session alone calm owned t ∧ Reopened name new t)
      (fun t e => Pending E session alone calm owned t ∧ Early calm e) w := by
  refine Program.Ensures.weaken (stable_ready.ensures (Y := Early calm) ?_
    (fun w hw => hw.1.sound) hw) (fun _ _ h => h) fun _ _ h => ⟨h.1.1, h.2⟩
  cases host with
  | unix =>
    exact (within_restrict (fun _ => trivial) ⟨rfl, fun _ => nofun⟩).bind fun _ =>
      within_syncPath trivial ⟨rfl, fun _ => nofun⟩
  | windows => exact Program.within_pure

/-- The vault as a call leaves it behind its installation, with the prepared backup. -/
def Done (E : Codec V C F) (session : VaultSession V F) (good : Bytes → Prop) (t : World)
    (backup : Option String) : Prop :=
  ∃ bak old new, backup = some bak ∧ Installed E session good old new t ∧
    t.dir (.temp bak) = .regular old

omit [DecidableEq V] in
theorem ensures_replace (hinj : Function.Injective E.fingerprint) (hgood : good new)
    (hw : Pending E session alone calm owned w ∧ Reopened name new w) :
    Ensures (fileSystem alone (Sound E session good)) (replacePrimary E .unix session metadata name)
      (Done E session good) (fun t e => Pending E session alone calm owned t ∧ Early calm e) w := by
  refine Program.Ensures.weaken (ensures_replacePrimary hinj hgood hw.1 hw.2) ?_ fun _ _ h => h
  rintro t backup ⟨bak, old, hbackup, hinstalled, hcopied⟩
  exact ⟨bak, old, new, hbackup, hinstalled, hcopied⟩

omit [DecidableEq V] [DecidableEq F] in
/-- Flushing and syncing a written temporary. -/
theorem ensures_flushAndSync
    (hw : Pending E session alone calm [name] w ∧ ∃ bytes, w.dir (.temp name) = .regular bytes)
    {α : Type} {p : Fs V C α} {G : World → α → Prop}
    (hp : ∀ t, Pending E session alone calm [name] t →
      (∃ bytes, t.dir (.temp name) = .regular bytes) →
      Ensures (fileSystem alone (Sound E session good)) p G
        (fun t e => Pending E session alone calm [name] t ∧ Early calm e) t) :
    Ensures (fileSystem alone (Sound E session good)) (do
        require (← ask (.flush name)) .writeTemp
        require (← ask (.syncAll name)) .syncTemp
        p) G (fun t e => Pending E session alone calm [name] t ∧ Early calm e) w := by
  have hstable : Stable alone [name] (fun _ => False) (fun w =>
      Pending E session alone calm [name] w ∧ ∃ bytes, w.dir (.temp name) = .regular bytes) :=
    stable_pending.and stable_written
  refine Program.Ensures.bind (Program.ensures_request hw.1.sound fun success t hstep => ?_)
  have ht := hstable.step (show (Request.flush name : Request V C).minds [name] _ from
    List.mem_singleton.mpr rfl) hw hstep
  refine Program.Ensures.bind (ensures_require (fun _ => ?_) fun _ => ⟨ht.1, rfl, fun _ => nofun⟩)
  refine Program.Ensures.bind (Program.ensures_request ht.1.sound fun success u hstep => ?_)
  have hu := hstable.step (show (Request.syncAll name : Request V C).minds [name] _ from trivial)
    ht hstep
  refine Program.Ensures.bind (ensures_require (fun _ => ?_) fun _ => ⟨hu.1, rfl, fun _ => nofun⟩)
  exact hp u hu.1 hu.2

theorem ensures_writeAndReplace (hinj : Function.Injective E.fingerprint)
    (hpending : Pending E session alone calm [name] w) :
    Ensures (fileSystem alone (Sound E session (Verified E credential session.document)))
      (writeAndReplace E .unix session credential metadata name)
      (Done E session (Verified E credential session.document))
      (fun t e => Pending E session alone calm [name] t ∧ Early calm e) w := by
  refine Program.Ensures.bind (Program.ensures_request hpending.sound fun answer t hstep => ?_)
  have ht : Pending E session alone calm [name] t := stable_pending.step
    (show (Request.serialize name session.document credential : Request V C).minds [name]
      (fun _ => False) from List.mem_singleton.mpr rfl) hpending hstep
  obtain ⟨mid, -, -, bytes, hput⟩ := hstep
  have hwritten : t.dir (.temp name) = .regular bytes := by
    rw [hput, World.put_self]
  cases answer with
  | error error => exact Program.ensures_throw ⟨ht, rfl, fun _ => nofun⟩
  | ok _ =>
    refine ensures_flushAndSync ⟨ht, bytes, hwritten⟩ fun u hu ⟨written, hdir⟩ => ?_
    refine Program.Ensures.bind (Program.Ensures.weaken (ensures_verifyTemp hu hdir) ?_
      fun _ _ h => h)
    rintro v _ ⟨hv, hverified⟩
    refine Program.Ensures.bind (Program.Ensures.weaken (ensures_requireSourceUnchanged_pending
      stable_ready trivial (fun _ h => h.1) hv) (fun v' _ hv' => ?_) fun _ _ h => ⟨h.1.1, h.2⟩)
    refine Program.Ensures.bind (Program.Ensures.weaken (ensures_restrictTemp hv'.1)
      (fun _ _ h => ensures_replace hinj hverified h) fun _ _ h => h)

/-- The bytes that were to be installed, which open under the credential. -/
def Delivered (E : Codec V C F) (credential : C) (ciphertext bytes : Bytes) : Prop :=
  bytes = ciphertext ∧ ∃ candidate, E.parse credential ciphertext = .ok candidate

theorem ensures_prepareAndReplace (hinj : Function.Injective E.fingerprint) {ciphertext : Bytes}
    {candidate : KdbxDocument V} (hcandidate : E.parse credential ciphertext = .ok candidate)
    (hpending : Pending E session alone calm [name] w) :
    Ensures (fileSystem alone (Sound E session (Delivered E credential ciphertext)))
      (prepareAndReplace E .unix session ciphertext credential candidate metadata name)
      (Done E session (Delivered E credential ciphertext))
      (fun t e => Pending E session alone calm [name] t ∧ Early calm e) w := by
  refine Program.Ensures.bind (Program.ensures_request hpending.sound fun success t hstep => ?_)
  have ht : Pending E session alone calm [name] t := stable_pending.step
    (show (Request.writeAll name ciphertext : Request V C).minds [name] (fun _ => False) from
      List.mem_singleton.mpr rfl) hpending hstep
  obtain ⟨mid, -, -, bytes, hput, -⟩ := hstep
  have hwritten : t.dir (.temp name) = .regular bytes := by
    rw [hput, World.put_self]
  refine Program.Ensures.bind (ensures_require (fun _ => ?_) fun _ => ⟨ht, rfl, fun _ => nofun⟩)
  refine ensures_flushAndSync ⟨ht, bytes, hwritten⟩ fun u hu ⟨written, hdir⟩ => ?_
  refine Program.Ensures.bind (Program.Ensures.weaken (ensures_verifyTemp hu hdir) ?_ fun _ _ h => h)
  rintro v _ ⟨hv, -⟩
  refine Program.Ensures.bind (Program.Ensures.weaken (ensures_fingerprintPath E stable_ready trivial
    (fun _ h => h.1.sound) hv) ?_ ?_)
  · rintro v' _ ⟨hv', found, rfl, hshows⟩
    refine Program.ensures_ite (fun _ => Program.ensures_throw ⟨hv'.1, rfl, fun _ => nofun⟩)
      fun hsame => ?_
    have hfound : found = ciphertext := hinj (not_not.mp hsame)
    have hgood : Delivered E credential ciphertext written := by
      have heq := hv'.2.dir.symm.trans hshows.dir
      cases heq
      exact ⟨hfound, candidate, hcandidate⟩
    refine Program.Ensures.bind (Program.Ensures.weaken (ensures_restrictTemp hv')
      (fun x _ hx => ?_) fun _ _ h => h)
    refine Program.Ensures.bind (Program.Ensures.weaken (ensures_requireSourceUnchanged_pending
      stable_ready trivial (fun _ h => h.1) hx) (fun _ _ h => ensures_replace hinj hgood h.1)
      fun _ _ h => ⟨h.1.1, h.2⟩)
  · rintro v' e ⟨hv', rfl | rfl⟩
    · exact ⟨hv'.1, rfl, fun _ => nofun⟩
    · exact ⟨hv'.1, rfl, fun _ => nofun⟩

omit [DecidableEq V] [DecidableEq F] in
/-- A temporary is created for a block, and removed if the block fails. -/
theorem ensures_withTemp {α : Type} {G : World → α → Prop}
    {block : String → Fs V C α} (hpending : Pending E session alone calm [] w)
    (hblock : ∀ name t, Pending E session alone calm [name] t →
      Ensures (fileSystem alone (Sound E session good)) (block name) G
        (fun t e => Pending E session alone calm [name] t ∧ Early calm e) t) :
    Ensures (fileSystem alone (Sound E session good)) (withTemp block) G
      (fun t e => Pending E session alone calm [] t ∧ Early calm e) w := by
  have hP : Stable alone [] (fun _ => False) (Pending E session alone calm []) := stable_pending
  have hQ : ∀ name, Stable alone [] (fun _ => False) (Pending E session alone calm [name]) :=
    fun name => stable_pending.none
  refine Program.Ensures.bind (Program.Ensures.weaken (ensures_create hP hQ
    (fun _ _ hw habsent => hw.create habsent) (fun _ _ hw hspilled => hw.lose hspilled)
    (fun _ hw => hw.sound) (fun _ _ hw => hw.sound) hpending) (fun t name ht => ?_) ?_)
  · exact ensures_guarded (hQ name) (fun _ hw => hw.remove) (fun _ hw hspilled => hw.lose hspilled)
      (fun _ hw => hw.sound) (hblock name t ht)
  · rintro t e ⟨ht, rfl | rfl⟩
    · exact ⟨ht, rfl, fun _ => nofun⟩
    · exact ⟨ht, rfl, fun _ => nofun⟩

omit [DecidableEq V] in
/-- The checks both transactions start with. -/
theorem ensures_checkSource {α : Type} {G : World → α → Prop} {block : Metadata → Fs V C α}
    (hpending : Pending E session alone calm [] w)
    (hblock : ∀ metadata t, Pending E session alone calm [] t →
      Ensures (fileSystem alone (Sound E session good)) (block metadata) G
        (fun t e => Pending E session alone calm [] t ∧ Early calm e) t) :
    Ensures (fileSystem alone (Sound E session good)) (do
        let metadata ← validateCurrentTarget .primary
        requireSourceUnchanged E session
        block metadata) G
      (fun t e => Pending E session alone calm [] t ∧ Early calm e) w := by
  have hP : Stable alone [] (fun _ => True) (Pending E session alone calm []) := stable_pending
  refine Program.Ensures.bind (Program.Ensures.weaken (hP.ensures (Y := Early calm)
    (within_validateCurrentTarget ⟨rfl, fun _ => nofun⟩ ⟨rfl, fun _ => nofun⟩)
    (fun _ h => h.sound) hpending) (fun t metadata ht => ?_) fun _ _ h => h)
  exact Program.Ensures.bind (Program.Ensures.weaken (ensures_requireSourceUnchanged_pending hP
    trivial (fun _ h => h) ht) (fun u _ hu => hblock metadata u hu.1) fun _ _ h => h)

theorem ensures_install (hinj : Function.Injective E.fingerprint) {current : C}
    (hpending : Pending E session alone calm [] w) :
    Ensures (fileSystem alone (Sound E session (Verified E credential session.document)))
      (install E .unix session current credential)
      (Done E session (Verified E credential session.document))
      (fun t e => Pending E session alone calm [] t ∧ Early calm e) w := by
  have hP : Stable alone [] (fun _ => True) (Pending E session alone calm []) := stable_pending
  refine ensures_checkSource hpending fun metadata t ht => ?_
  have hwithin : Within (Request.minds [] fun _ => True) (Early calm)
      (verifySaveCredential E current) := by
    have herror : ∀ error, Early calm (credentialError error) := fun error => by
      cases error <;> exact ⟨rfl, fun _ => nofun⟩
    refine Within.bind ?_ fun _ => Program.within_pure
    refine (within_ask trivial).bind fun _ => (within_orError (herror _)).bind fun file => ?_
    refine (within_ask trivial).bind fun _ => (within_orError (herror _)).bind fun bytes => ?_
    cases E.parse current bytes with
    | ok document => exact Program.within_pure
    | error error => exact Program.within_throw (herror error)
  refine Program.Ensures.bind (Program.Ensures.weaken (hP.ensures hwithin (fun _ h => h.sound) ht)
    (fun u _ hu => ?_) fun _ _ h => h)
  exact ensures_withTemp hu fun name v hv => ensures_writeAndReplace hinj hv

theorem ensures_installEncrypted (hinj : Function.Injective E.fingerprint) {expected : F}
    {ciphertext : Bytes} (hexpected : calm → expected = session.sourceFingerprint)
    (hpending : Pending E session alone calm [] w) :
    Ensures (fileSystem alone (Sound E session (Delivered E credential ciphertext)))
      (installEncrypted E .unix session expected ciphertext credential)
      (fun t found => E.parse credential ciphertext = .ok found.1 ∧
        Done E session (Delivered E credential ciphertext) t found.2)
      (fun t e => Pending E session alone calm [] t ∧ Early calm e) w := by
  refine Program.ensures_ite (fun _ => Program.ensures_throw ⟨hpending, rfl, fun _ => nofun⟩) fun _ => ?_
  refine Program.ensures_ite (fun _ => Program.ensures_throw ⟨hpending, rfl, fun _ => nofun⟩) fun _ => ?_
  refine Program.ensures_ite (fun hne => Program.ensures_throw ⟨hpending, rfl, fun hcalm => ?_⟩)
    fun _ => ?_
  · exact absurd (hexpected hcalm) hne
  refine ensures_checkSource hpending fun metadata t ht => ?_
  cases hparse : E.parse credential ciphertext with
  | error error => exact Program.ensures_throw ⟨ht, rfl, fun _ => nofun⟩
  | ok candidate =>
    refine Program.Ensures.bind (Program.Ensures.weaken
      (ensures_withTemp ht fun name v hv => ensures_prepareAndReplace hinj hparse hv)
      (fun u backup hu => ?_) fun _ _ h => h)
    exact Program.ensures_pure ⟨rfl, hu⟩

end Install

end NianPass.Session
