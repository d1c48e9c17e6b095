import NianPass.Session.Truthful

/-
  The Windows replace-with-backup transaction.

  `ReplaceFileW` succeeds, fails without a change, or fails after it moved the
  vault to the backup path. Every other step of the transaction succeeds or
  fails as `Outcomes` says; `exists()` answers `false` when it fails.

  The transaction does what it promises except where a step fails whose failure
  is taken for something else: reading the new backup fails and is reported as
  if nothing had been replaced, or `exists()` fails and a file that is there is
  taken to be absent. Moreover the callers leave the session as it was on every
  error, so that after any error that comes once the vault was replaced the
  session does not know the installed vault (`transaction_truthful_iff`).
-/
namespace NianPass.Session

open Kdbx (Bytes KdbxDocument)
open Program (Reaches)

variable {V C F : Type} [DecidableEq F]

inductive Replacement where
  | done
  | refused
  | moved
  deriving DecidableEq, Repr

/-- The outcome of each step, should it come to it. `sees…`: whether `exists()` finds a file that is
there. -/
structure Outcomes where
  stats : Bool
  seesPrior : Bool
  random : Option Bytes
  parks : Bool
  replacement : Replacement
  opens : Bool
  seeks : Bool
  reads : Bool
  removes : Bool
  seesPrimary : Bool
  seesMoved : Bool
  restores : Bool
  seesParked : Bool
  unparks : Bool

/-- Which of the three looks at the backup path comes next. -/
inductive Phase where
  | starting
  | restoring
  | undoing
  deriving DecidableEq, Repr

structure Stage where
  dir : Directory
  phase : Phase

/-- Rename, replacing what was there. -/
def Directory.rename (dir : Directory) (source destination : Path) : Directory :=
  Function.update (Function.update dir source .absent) destination (dir source)

/-- `ReplaceFileW`, when it succeeds. -/
def Directory.exchange (dir : Directory) (prepared : String) : Directory :=
  Function.update (Function.update (Function.update dir (.temp prepared) .absent)
    .backup (dir .primary)) .primary (dir (.temp prepared))

/-- The steps of the transaction. The others do not occur in it. -/
def Outcomes.answer (o : Outcomes) (s : Stage) : (request : Request V C) → Answer request × Stage
  | .symlinkMetadata path =>
    (if o.stats then
      match s.dir path with
      | .absent => .error .notFound
      | .symlink => .ok ⟨.symlink, 0⟩
      | .special => .ok ⟨.special, 0⟩
      | .regular _ => .ok ⟨.file, 0⟩
    else .error .other, s)
  | .pathExists .primary =>
    let seen := s.dir .primary ≠ .absent && o.seesPrimary
    (seen, { s with phase := if seen then .undoing else .restoring })
  | .pathExists path =>
    match s.phase with
    | .starting => (s.dir path ≠ .absent && o.seesPrior, s)
    | .restoring => (s.dir path ≠ .absent && o.seesMoved, { s with phase := .undoing })
    | .undoing => (s.dir path ≠ .absent && o.seesParked, s)
  | .openFile path _ =>
    (match s.dir path with
      | .regular bytes => if o.opens then .ok ⟨true, bytes⟩ else .error .other
      | _ => .error .other, s)
  | .handleMetadata handle => (.ok handle.isFile, s)
  | .seek _ => (o.seeks, s)
  | .read handle => (if o.reads then .ok handle.bytes else .error .other, s)
  | .random => (o.random, s)
  | .rename .backup (.temp name) =>
    if o.parks then (true, { s with dir := s.dir.rename .backup (.temp name) }) else (false, s)
  | .rename .backup .primary =>
    if o.restores then (true, { s with dir := s.dir.rename .backup .primary }) else (false, s)
  | .rename source destination =>
    if o.unparks then (true, { s with dir := s.dir.rename source destination }) else (false, s)
  | .removeFile name =>
    if o.removes then (true, { s with dir := Function.update s.dir (.temp name) .absent })
    else (false, s)
  | .replaceFile prepared =>
    match o.replacement with
    | .done => (true, { s with dir := s.dir.exchange prepared })
    | .refused => (false, s)
    | .moved => (false, { s with dir := s.dir.rename .primary .backup })
  | .createNew _ => (.error .other, s)
  | .identity _ => (false, s)
  | .serialize _ _ _ => (.error .io, s)
  | .writeAll _ _ => (false, s)
  | .flush _ => (false, s)
  | .syncAll _ => (false, s)
  | .setPermissions _ _ => (false, s)
  | .syncPath _ => (false, s)
  | .copy _ _ => (false, s)
  | .sameFile _ => (false, s)
  | .syncParent => (false, s)

def Outcomes.play {α : Type} (o : Outcomes) : Program (Request V C) Answer α → Stage → α × Stage
  | .done a, s => (a, s)
  | .ask request next, s => o.play (next (o.answer s request).1) (o.answer s request).2

/-- A vault, a prepared file and perhaps a backup. -/
structure Contents where
  old : Bytes
  new : Bytes
  prior : Option Bytes
  prepared : Bytes
  rest : String → Node

/-- The name of the prepared file, as `ManagedTemp::create` makes it. -/
def Contents.name (contents : Contents) : String := tempName saveTempPrefix contents.prepared

def Contents.dir (contents : Contents) : Directory
  | .primary => .regular contents.old
  | .backup => contents.prior.elim .absent .regular
  | .temp name => if name = contents.name then .regular contents.new else contents.rest name

/-- The transaction on these contents, with these outcomes. -/
def transact (E : Codec V C F) (contents : Contents) (expectedSource : F) (o : Outcomes) :
    Except SessionError Unit × Directory :=
  let (result, s) := o.play (replaceWindowsWithBackupTransaction E contents.name expectedSource).run
    ⟨contents.dir, .starting⟩
  (result, s.dir)

/-! ## The promise and its condition -/

/-- A prior backup was found, so that it has to be parked first. -/
def Outcomes.parked (o : Outcomes) (contents : Contents) : Bool := contents.prior.isSome && o.seesPrior

/-- The transaction gets as far as `ReplaceFileW`. -/
def Outcomes.reached (o : Outcomes) (contents : Contents) : Bool :=
  o.stats && (!o.parked contents || (o.random.isSome && o.parks))

/-- What the transaction promises. The callers leave the session as it was on an error: then its
fingerprint has to be that of what was installed. -/
structure Promise (E : Codec V C F) (contents : Contents) (expectedSource : F) (o : Outcomes) :
    Prop where
  ok : (transact E contents expectedSource o).1 = .ok () →
    (transact E contents expectedSource o).2 .primary = .regular contents.new ∧
    (transact E contents expectedSource o).2 .backup = .regular contents.old ∧
    ∀ name, (transact E contents expectedSource o).2 (.temp name) = .absent ∨
      (transact E contents expectedSource o).2 (.temp name) = contents.dir (.temp name)
  failed : (transact E contents expectedSource o).1 = .error .atomicReplaceFailed →
    o.restores = true → o.unparks = true →
    (transact E contents expectedSource o).2 .primary = contents.dir .primary ∧
    (transact E contents expectedSource o).2 .backup = contents.dir .backup
  after : o.reached contents = true → o.replacement = .done →
    ∀ e, (transact E contents expectedSource o).1 = .error e →
    (e = .savedButBackupUpdateFailed ∨ e = .savedButBackupDurabilityUncertain) ∧
      E.fingerprint contents.new = expectedSource

/-- When it keeps it. -/
structure Holds (E : Codec V C F) (contents : Contents) (expectedSource : F) (o : Outcomes) :
    Prop where
  /-- The new backup can be read; and it is the expected generation and the parked one is removed,
  or the new vault has the fingerprint of the old one. -/
  done : o.reached contents = true → o.replacement = .done →
    (o.opens = true ∧ o.seeks = true ∧ o.reads = true ∧ E.fingerprint contents.old = expectedSource ∧
      (o.parked contents = true → o.removes = true)) ∨
    (o.opens = true ∧ o.seeks = true ∧ o.reads = true ∧ E.fingerprint contents.new = expectedSource)
  /-- A vault that was moved away is seen, and a prior backup had been seen. -/
  moved : o.reached contents = true → o.replacement = .moved → o.restores = true → o.unparks = true →
    o.seesMoved = true ∧ (contents.prior.isSome = true → o.seesPrior = true)
  /-- A prior backup that was not seen is not taken for the vault. -/
  refused : o.reached contents = true → o.replacement = .refused → o.restores = true →
    o.unparks = true → contents.prior.isSome = true → o.seesPrior = false → o.seesPrimary = false →
    o.seesMoved = false

section Playing
variable {α β : Type} {o : Outcomes} {s : Stage} {contents : Contents}

omit [DecidableEq F] in
theorem play_bind (p : Program (Request V C) Answer α) (f : α → Program (Request V C) Answer β) :
    o.play (p.bind f) s = o.play (f (o.play p s).1) (o.play p s).2 := by
  induction p generalizing s with
  | done a => rfl
  | ask request next ih => exact ih _

omit [DecidableEq F] in
theorem play_run_bind (x : Fs V C α) (f : α → Fs V C β) :
    o.play (x >>= f).run s = match o.play x.run s with
      | (.ok a, s') => o.play (f a).run s'
      | (.error e, s') => (.error e, s') := by
  have h : o.play (x >>= f).run s = o.play (x.run.bind (ExceptT.bindCont f)) s := rfl
  rw [h, play_bind]
  obtain ⟨result, s'⟩ := o.play x.run s
  cases result with
  | ok a => rfl
  | error e => rfl

omit [DecidableEq F] in
theorem play_ask (request : Request V C) :
    o.play (ask request).run s = (.ok (o.answer s request).1, (o.answer s request).2) := rfl

omit [DecidableEq F] in
@[simp] theorem play_pure (a : α) : o.play (pure a : Program (Request V C) Answer α) s = (a, s) := rfl

omit [DecidableEq F] in
theorem play_require (success : Bool) (e : SessionError) :
    o.play (require success e : Fs V C Unit).run s = (if success then .ok () else .error e, s) := by
  cases success <;> rfl

/-- A prior-backup name is not the name of the prepared file. -/
theorem tempName_ne (random random' : Bytes) :
    tempName priorBackupTempPrefix random ≠ tempName saveTempPrefix random' := by
  intro h
  have h := congrArg (fun name => name.toList[11]?) h
  simp [tempName, priorBackupTempPrefix, saveTempPrefix] at h

/-! ### Before the replacement -/

/-- The name under which the prior backup is parked. -/
def Outcomes.parkedName (o : Outcomes) (contents : Contents) : Option String :=
  if o.parked contents then o.random.map (tempName priorBackupTempPrefix) else none

/-- The files when `ReplaceFileW` is called. -/
def Outcomes.parkedDir (o : Outcomes) (contents : Contents) : Directory :=
  match o.parkedName contents with
  | some name => contents.dir.rename .backup (.temp name)
  | none => contents.dir

omit [DecidableEq F] in
theorem play_rejectSymlinkIfPresent (e : SessionError) :
    o.play (rejectSymlinkIfPresent .backup e : Fs V C Unit).run ⟨contents.dir, .starting⟩ =
      (if o.stats then .ok () else .error e, ⟨contents.dir, .starting⟩) := by
  rw [rejectSymlinkIfPresent, play_run_bind, play_ask]
  cases hprior : contents.prior <;> cases hstats : o.stats <;>
    simp [Outcomes.answer, Contents.dir, hprior, hstats]

omit [DecidableEq F] in
theorem play_randomTempName (start : String) :
    o.play (randomTempName start : Fs V C String).run s =
      (match o.random with
        | none => .error .tempRandomFailed
        | some random => .ok (tempName start random), s) := by
  rw [randomTempName, play_run_bind, play_ask]
  cases hrandom : o.random <;> simp [Outcomes.answer, hrandom]

omit [DecidableEq F] in
/-- A prior backup that is seen gets a random name. -/
theorem play_parkBackup :
    o.play (parkBackup : Fs V C (Option String)).run ⟨contents.dir, .starting⟩ =
      if o.parked contents then
        match o.random with
        | none => (.error .tempRandomFailed, ⟨contents.dir, .starting⟩)
        | some random =>
          if o.parks then
            (.ok (some (tempName priorBackupTempPrefix random)),
              ⟨contents.dir.rename .backup (.temp (tempName priorBackupTempPrefix random)), .starting⟩)
          else (.error .backupFailed, ⟨contents.dir, .starting⟩)
      else (.ok none, ⟨contents.dir, .starting⟩) := by
  have hseen : (o.answer (V := V) (C := C) ⟨contents.dir, .starting⟩ (.pathExists .backup)) =
      (o.parked contents, ⟨contents.dir, .starting⟩) := by
    cases hprior : contents.prior <;> simp [Outcomes.answer, Outcomes.parked, Contents.dir, hprior]
  rw [parkBackup, play_run_bind, play_ask, hseen]
  cases hparked : o.parked contents with
  | false => simp
  | true =>
    simp only [if_true]
    rw [play_run_bind, play_randomTempName]
    cases hrandom : o.random with
    | none => rfl
    | some random =>
      simp only []
      rw [play_run_bind, play_ask]
      cases hparks : o.parks <;> simp [-ExceptT.run_bind, Outcomes.answer, hparks, play_run_bind, play_require]

/-- A transaction that does not get as far fails with an error that says so. -/
theorem transact_of_not_reached (E : Codec V C F) (expectedSource : F)
    (h : o.reached contents = false) :
    (transact E contents expectedSource o).1 = .error .backupFailed ∨
      (transact E contents expectedSource o).1 = .error .tempRandomFailed := by
  unfold transact replaceWindowsWithBackupTransaction
  rw [play_run_bind, play_rejectSymlinkIfPresent]
  cases hstats : o.stats with
  | false => exact .inl rfl
  | true =>
    simp only [Outcomes.reached, hstats, Bool.true_and, Bool.or_eq_false_iff, Bool.not_eq_false'] at h
    obtain ⟨hparked, hfails⟩ := h
    simp only [if_true]
    rw [play_run_bind, play_parkBackup, hparked]
    cases hrandom : o.random with
    | none => exact .inr rfl
    | some random =>
      have hparks : o.parks = false := by simpa [hrandom] using hfails
      simp [hparks]

/-- One that does has parked the prior backup. -/
theorem transact_of_reached (E : Codec V C F) (expectedSource : F) (h : o.reached contents = true) :
    transact E contents expectedSource o =
      let (result, s) := match o.replacement with
        | .done => o.play (verifyReplaced E expectedSource (o.parkedName contents)).run
            ⟨(o.parkedDir contents).exchange contents.name, .starting⟩
        | .refused => o.play (undoReplace (o.parkedName contents) : Fs V C Unit).run
            ⟨o.parkedDir contents, .starting⟩
        | .moved => o.play (undoReplace (o.parkedName contents) : Fs V C Unit).run
            ⟨(o.parkedDir contents).rename .primary .backup, .starting⟩
      (result, s.dir) := by
  simp only [Outcomes.reached, Bool.and_eq_true] at h
  obtain ⟨hstats, hparks⟩ := h
  have hpark : o.play (parkBackup : Fs V C (Option String)).run ⟨contents.dir, .starting⟩ =
      (.ok (o.parkedName contents), ⟨o.parkedDir contents, .starting⟩) := by
    rw [play_parkBackup, Outcomes.parkedDir, Outcomes.parkedName]
    cases hparked : o.parked contents with
    | false => rfl
    | true =>
      simp only [hparked, Bool.not_true, Bool.false_or, Bool.and_eq_true, Option.isSome_iff_exists]
        at hparks
      obtain ⟨⟨random, hrandom⟩, hparks⟩ := hparks
      simp [hrandom, hparks]
  unfold transact replaceWindowsWithBackupTransaction
  rw [play_run_bind, play_rejectSymlinkIfPresent, hstats]
  simp only [if_true]
  rw [play_run_bind, hpark]
  simp only []
  rw [play_run_bind, play_ask]
  cases hreplacement : o.replacement <;> simp [Outcomes.answer, hreplacement]

theorem parkedDir_primary : o.parkedDir contents .primary = .regular contents.old := by
  unfold Outcomes.parkedDir
  cases o.parkedName contents <;> simp [Directory.rename, Contents.dir]

theorem parkedDir_prepared : o.parkedDir contents (.temp contents.name) = .regular contents.new := by
  unfold Outcomes.parkedDir Outcomes.parkedName
  cases o.parked contents with
  | false => simp [Contents.dir]
  | true =>
    cases o.random with
    | none => simp [Contents.dir]
    | some random =>
      have hne := tempName_ne random contents.prepared
      simp [Directory.rename, Contents.dir, Contents.name, hne.symm]

/-! ### A replacement that succeeded -/

omit [DecidableEq F] in
theorem play_fingerprintPathForBackup (E : Codec V C F) {bytes : Bytes}
    (hbackup : s.dir .backup = .regular bytes) :
    o.play (fingerprintPathForBackup E .backup : Fs V C F).run s =
      (if o.opens ∧ o.seeks ∧ o.reads then .ok (E.fingerprint bytes) else .error .backupFailed, s) := by
  rw [fingerprintPathForBackup, openExistingFile, play_run_bind, play_run_bind, play_ask]
  cases hopens : o.opens with
  | false => simp [Outcomes.answer, hbackup, hopens, orError]
  | true =>
    simp only [Outcomes.answer, hbackup, hopens, orError, if_true, ExceptT.run_pure, play_pure]
    rw [fromReader, play_run_bind, play_ask]
    cases hseeks : o.seeks with
    | false => simp [-ExceptT.run_bind, Outcomes.answer, hseeks, play_run_bind, play_require]
    | true =>
      simp only [Outcomes.answer, hseeks]
      rw [play_run_bind, play_require]
      simp only [if_true]
      rw [play_run_bind, play_ask]
      cases hreads : o.reads <;> simp [-ExceptT.run_bind, Outcomes.answer, hreads, orError, play_run_bind]

/-- What becomes of the prior backup. -/
theorem play_verifyReplaced (E : Codec V C F) (expectedSource : F) (priorBackup : Option String)
    {bytes : Bytes} (hbackup : s.dir .backup = .regular bytes) :
    o.play (verifyReplaced E expectedSource priorBackup).run s =
      if o.opens ∧ o.seeks ∧ o.reads then
        if E.fingerprint bytes ≠ expectedSource then (.error .savedButBackupUpdateFailed, s)
        else match priorBackup with
          | none => (.ok (), s)
          | some name =>
            if o.removes then (.ok (), { s with dir := Function.update s.dir (.temp name) .absent })
            else (.error .savedButBackupUpdateFailed, s)
      else (.error .backupFailed, s) := by
  unfold verifyReplaced
  rw [play_run_bind, play_fingerprintPathForBackup E hbackup]
  by_cases hread : o.opens ∧ o.seeks ∧ o.reads
  · simp only [hread, and_self, if_true]
    by_cases hexpected : E.fingerprint bytes = expectedSource
    · simp only [hexpected, ne_eq, not_true_eq_false, if_false]
      cases priorBackup with
      | none => rfl
      | some name =>
        simp only []
        rw [play_run_bind, play_ask]
        cases hremoves : o.removes <;> simp [Outcomes.answer, hremoves, play_require]
    · simp [hexpected]
  · simp [hread]

theorem transact_done (E : Codec V C F) (expectedSource : F) (h : o.reached contents = true)
    (hdone : o.replacement = .done) :
    transact E contents expectedSource o =
      if o.opens ∧ o.seeks ∧ o.reads then
        if E.fingerprint contents.old ≠ expectedSource then
          (.error .savedButBackupUpdateFailed, (o.parkedDir contents).exchange contents.name)
        else match o.parkedName contents with
          | none => (.ok (), (o.parkedDir contents).exchange contents.name)
          | some name =>
            if o.removes then
              (.ok (), Function.update ((o.parkedDir contents).exchange contents.name) (.temp name) .absent)
            else (.error .savedButBackupUpdateFailed, (o.parkedDir contents).exchange contents.name)
      else (.error .backupFailed, (o.parkedDir contents).exchange contents.name) := by
  have hbackup : (o.parkedDir contents).exchange contents.name .backup = .regular contents.old := by
    simp [Directory.exchange, parkedDir_primary]
  rw [transact_of_reached E expectedSource h, hdone]
  simp only []
  rw [play_verifyReplaced E expectedSource (o.parkedName contents) hbackup]
  cases o.parkedName contents with
  | none => split_ifs <;> rfl
  | some name => split_ifs <;> rfl

/-! ### A replacement that failed -/

/-- The files after the vault was moved back, should it seem to be missing. -/
def Outcomes.restored (o : Outcomes) (dir : Directory) : Directory :=
  if dir .primary ≠ .absent ∧ o.seesPrimary then dir
  else if dir .backup ≠ .absent ∧ o.seesMoved then dir.rename .backup .primary
  else dir

/-- The files after the prior backup was moved back too. -/
def Outcomes.undone (o : Outcomes) (dir : Directory) : Option String → Directory
  | none => o.restored dir
  | some name =>
    if o.restored dir .backup ≠ .absent ∧ o.seesParked then o.restored dir
    else (o.restored dir).rename (.temp name) .backup

omit [DecidableEq F] in
theorem play_restorePrimary :
    o.play (restorePrimary : Fs V C Unit).run s = (.ok (), ⟨o.restored s.dir, .undoing⟩) ∨
      (o.restores = false ∧ (o.play (restorePrimary : Fs V C Unit).run s).1 = .error .atomicReplaceFailed) := by
  rw [restorePrimary, play_run_bind, play_ask]
  unfold Outcomes.restored
  by_cases hprimary : s.dir .primary ≠ .absent ∧ o.seesPrimary = true
  · exact .inl (by simp [Outcomes.answer, hprimary])
  · have hseen : (decide (s.dir .primary ≠ .absent) && o.seesPrimary) = false := by
      simpa using hprimary
    simp only [Outcomes.answer, hseen, hprimary, if_false, Bool.false_eq_true]
    rw [play_run_bind, play_ask]
    by_cases hbackup : s.dir .backup ≠ .absent ∧ o.seesMoved = true
    · simp only [Outcomes.answer, hbackup, ne_eq, not_false_eq_true, decide_true, Bool.and_self, if_true,
        and_self]
      rw [play_run_bind, play_ask]
      cases hrestores : o.restores with
      | true => exact .inl (by simp [Outcomes.answer, hrestores, play_require])
      | false => exact .inr (by simp [Outcomes.answer, hrestores, play_require])
    · exact .inl (by simp [Outcomes.answer, hbackup])

omit [DecidableEq F] in
/-- The error is the same in every case; the files are known when the renames succeed. -/
theorem play_undoReplace (priorBackup : Option String) :
    (o.play (undoReplace priorBackup : Fs V C Unit).run s).1 = .error .atomicReplaceFailed ∧
      (o.restores = true → o.unparks = true →
        (o.play (undoReplace priorBackup : Fs V C Unit).run s).2.dir = o.undone s.dir priorBackup) := by
  unfold undoReplace
  rw [play_run_bind]
  obtain hrestored | ⟨hrestores, hfailed⟩ := play_restorePrimary (V := V) (C := C) (o := o) (s := s)
  · rw [hrestored]
    cases priorBackup with
    | none => exact ⟨rfl, fun _ _ => rfl⟩
    | some name =>
      simp only [Outcomes.undone]
      rw [play_run_bind, play_ask]
      by_cases hbackup : o.restored s.dir .backup ≠ .absent ∧ o.seesParked = true
      · simp [Outcomes.answer, hbackup]
      · have hunseen : (decide (o.restored s.dir .backup ≠ .absent) && o.seesParked) = false := by
          simpa using hbackup
        simp only [Outcomes.answer, hunseen, hbackup, if_false, Bool.false_eq_true]
        rw [play_run_bind, play_ask]
        cases hunparks : o.unparks <;>
          simp [-ExceptT.run_bind, Outcomes.answer, hunparks, play_run_bind, play_require]
  · generalize o.play (restorePrimary : Fs V C Unit).run s = outcome at hfailed
    obtain ⟨result, s'⟩ := outcome
    subst hfailed
    exact ⟨rfl, fun h => by simp [hrestores] at h⟩

/-- The files a failed replacement leaves to be put in order. -/
def Outcomes.failedDir (o : Outcomes) (contents : Contents) : Directory :=
  if o.replacement = .moved then (o.parkedDir contents).rename .primary .backup else o.parkedDir contents

theorem transact_failed (E : Codec V C F) (expectedSource : F) (h : o.reached contents = true)
    (hfailed : o.replacement ≠ .done) :
    (transact E contents expectedSource o).1 = .error .atomicReplaceFailed ∧
      (o.restores = true → o.unparks = true →
        (transact E contents expectedSource o).2 =
          o.undone (o.failedDir contents) (o.parkedName contents)) := by
  rw [transact_of_reached E expectedSource h]
  unfold Outcomes.failedDir
  cases hreplacement : o.replacement with
  | done => exact absurd hreplacement hfailed
  | refused => exact play_undoReplace _
  | moved => exact play_undoReplace _

/-! ### The condition -/

/-- When the transaction gets to `ReplaceFileW`, a prior backup that was seen is parked. -/
theorem parked_cases (h : o.reached contents = true) :
    (o.parked contents = false ∧ o.parkedName contents = none ∧ o.parkedDir contents = contents.dir) ∨
      (o.parked contents = true ∧ ∃ name, o.parkedName contents = some name ∧
        o.parkedDir contents = contents.dir.rename .backup (.temp name)) := by
  cases hparked : o.parked contents with
  | false => exact .inl ⟨rfl, by simp [Outcomes.parkedName, hparked],
      by simp [Outcomes.parkedDir, Outcomes.parkedName, hparked]⟩
  | true =>
    simp only [Outcomes.reached, hparked, Bool.not_true, Bool.false_or, Bool.and_eq_true,
      Option.isSome_iff_exists] at h
    obtain ⟨-, ⟨random, hrandom⟩, -⟩ := h
    exact .inr ⟨rfl, tempName priorBackupTempPrefix random,
      by simp [Outcomes.parkedName, hparked, hrandom],
      by simp [Outcomes.parkedDir, Outcomes.parkedName, hparked, hrandom]⟩

theorem parked_iff : o.parked contents = true ↔ contents.prior.isSome = true ∧ o.seesPrior = true := by
  rw [Outcomes.parked, Bool.and_eq_true]

/-- A success leaves the new vault, the old one as the backup, and no temporary of its own. -/
theorem transact_ok (E : Codec V C F) (expectedSource : F)
    (hok : (transact E contents expectedSource o).1 = .ok ()) :
    (transact E contents expectedSource o).2 .primary = .regular contents.new ∧
    (transact E contents expectedSource o).2 .backup = .regular contents.old ∧
    ∀ name, (transact E contents expectedSource o).2 (.temp name) = .absent ∨
      (transact E contents expectedSource o).2 (.temp name) = contents.dir (.temp name) := by
  have hreached : o.reached contents = true := by
    by_contra h
    obtain h | h := transact_of_not_reached E expectedSource (eq_false_of_ne_true h) <;> simp [h] at hok
  have hdone : o.replacement = .done := by
    by_contra h
    simp [(transact_failed E expectedSource hreached h).1] at hok
  have hprimary : o.parkedDir contents .primary = .regular contents.old := parkedDir_primary
  have hprepared : o.parkedDir contents (.temp contents.name) = .regular contents.new := parkedDir_prepared
  rw [transact_done E expectedSource hreached hdone] at hok ⊢
  obtain ⟨hparked, hname, hdir⟩ | ⟨hparked, parked, hname, hdir⟩ := parked_cases hreached
  · simp only [hname] at hok ⊢
    split_ifs at hok ⊢ with hread hexpected
    refine ⟨by simp [Directory.exchange, hprepared], by simp [Directory.exchange, hprimary], ?_⟩
    intro name
    by_cases heq : name = contents.name
    · exact .inl (by simp [Directory.exchange, heq])
    · exact .inr (by simp [Directory.exchange, heq, hdir])
  · simp only [hname] at hok ⊢
    split_ifs at hok ⊢ with hread hexpected hremoves
    refine ⟨by simp [Directory.exchange, hprepared], by simp [Directory.exchange, hprimary], ?_⟩
    intro name
    by_cases heq : name = contents.name ∨ name = parked
    · left
      obtain rfl | rfl := heq <;> simp [Directory.exchange, Function.update_apply]
    · obtain ⟨hne, hother⟩ := not_or.1 heq
      exact .inr (by simp [Directory.exchange, Directory.rename, hne, hother, hdir])

theorem restored_of_no_backup {dir : Directory} (h : dir .backup = .absent) : o.restored dir = dir := by
  simp [Outcomes.restored, h]

theorem restored_of_no_primary {dir : Directory} (h : dir .primary = .absent)
    (hbackup : dir .backup ≠ .absent) :
    o.restored dir = if o.seesMoved then dir.rename .backup .primary else dir := by
  simp [Outcomes.restored, h, hbackup]

/-- A vault that was moved away and a prior backup are both back. -/
theorem undone_moved_iff (h : o.reached contents = true) (hmoved : o.replacement = .moved) :
    (o.undone (o.failedDir contents) (o.parkedName contents) .primary = contents.dir .primary ∧
      o.undone (o.failedDir contents) (o.parkedName contents) .backup = contents.dir .backup) ↔
    o.seesMoved = true ∧ (contents.prior.isSome = true → o.seesPrior = true) := by
  have hbackup : o.failedDir contents .backup = .regular contents.old := by
    simp [Outcomes.failedDir, hmoved, Directory.rename, parkedDir_primary]
  have hprimary : o.failedDir contents .primary = .absent := by
    simp [Outcomes.failedDir, hmoved, Directory.rename]
  have hrestored := restored_of_no_primary (o := o) hprimary (by simp [hbackup])
  cases hsees : o.seesMoved with
  | false =>
    -- The vault stays where it was moved to, whatever becomes of the parked backup.
    have hlost : o.undone (o.failedDir contents) (o.parkedName contents) .primary = .absent := by
      simp only [hsees, Bool.false_eq_true, if_false] at hrestored
      cases o.parkedName contents with
      | none => rw [Outcomes.undone, hrestored, hprimary]
      | some name =>
        rw [Outcomes.undone, hrestored]
        split_ifs <;> simp [Directory.rename, hprimary]
    simp [hlost, Contents.dir]
  | true =>
    simp only [hsees, if_true] at hrestored
    obtain ⟨hparked, hname, hdir⟩ | ⟨hparked, parked, hname, hdir⟩ := parked_cases h
    · rw [hname, Outcomes.undone, hrestored]
      cases hprior : contents.prior with
      | none => simp [Directory.rename, Contents.dir, hprior, hbackup]
      | some bytes =>
        have hunseen : o.seesPrior = false := by simpa [Outcomes.parked, hprior] using hparked
        simp [Directory.rename, Contents.dir, hprior, hunseen]
    · obtain ⟨-, hseen⟩ := parked_iff.1 hparked
      have hparkedBackup : o.failedDir contents (.temp parked) = contents.dir .backup := by
        simp [Outcomes.failedDir, hmoved, hdir, Directory.rename]
      rw [hname, Outcomes.undone, hrestored, if_neg (by simp [Directory.rename])]
      simp only [hseen, implies_true, and_self, iff_true]
      constructor
      · simp [Directory.rename, hbackup, Contents.dir]
      · simp [Directory.rename, hparkedBackup]

/-- A prior backup is at most taken for the vault when neither was seen. -/
theorem undone_refused_iff (h : o.reached contents = true) (hrefused : o.replacement = .refused) :
    (o.undone (o.failedDir contents) (o.parkedName contents) .primary = contents.dir .primary ∧
      o.undone (o.failedDir contents) (o.parkedName contents) .backup = contents.dir .backup) ↔
    (contents.prior.isSome = true → o.seesPrior = false → o.seesPrimary = false →
      o.seesMoved = false) := by
  have hfailed : o.failedDir contents = o.parkedDir contents := by
    simp [Outcomes.failedDir, hrefused]
  obtain ⟨hparked, hname, hdir⟩ | ⟨hparked, parked, hname, hdir⟩ := parked_cases h
  · rw [hname, hfailed, hdir, Outcomes.undone]
    cases hprior : contents.prior with
    | none =>
      rw [restored_of_no_backup (by simp [Contents.dir, hprior])]
      simp
    | some bytes =>
      have hunseen : o.seesPrior = false := by simpa [Outcomes.parked, hprior] using hparked
      rw [Outcomes.restored]
      cases hprimary : o.seesPrimary with
      | true => simp [Contents.dir]
      | false =>
        cases hsees : o.seesMoved <;> simp [Directory.rename, Contents.dir, hprior, hunseen]
  · obtain ⟨-, hseen⟩ := parked_iff.1 hparked
    have hgone : o.failedDir contents .backup = .absent := by
      simp [hfailed, hdir, Directory.rename]
    rw [hname, Outcomes.undone, restored_of_no_backup hgone, if_neg (by simp [hgone]), hfailed, hdir]
    refine iff_of_true ⟨?_, ?_⟩ (by simp [hseen])
    · simp [Directory.rename]
    · simp [Directory.rename]

/-- What a replacement that failed has to keep of the promise. -/
theorem promise_iff_undone (E : Codec V C F) (expectedSource : F) (h : o.reached contents = true)
    (hfailed : o.replacement ≠ .done) :
    Promise E contents expectedSource o ↔ (o.restores = true → o.unparks = true →
      o.undone (o.failedDir contents) (o.parkedName contents) .primary = contents.dir .primary ∧
      o.undone (o.failedDir contents) (o.parkedName contents) .backup = contents.dir .backup) := by
  obtain ⟨hresult, hdir⟩ := transact_failed E expectedSource h hfailed
  constructor
  · intro hpromise hrestores hunparks
    have hback := hpromise.failed hresult hrestores hunparks
    rwa [hdir hrestores hunparks] at hback
  · intro hback
    refine ⟨fun hok => by simp [hresult] at hok, ?_, fun _ hdone => absurd hdone hfailed⟩
    intro _ hrestores hunparks
    rw [hdir hrestores hunparks]
    exact hback hrestores hunparks

/-- How a replacement that succeeded is reported. -/
theorem transact_done_result (E : Codec V C F) (expectedSource : F) (h : o.reached contents = true)
    (hdone : o.replacement = .done) :
    (transact E contents expectedSource o).1 =
      if o.opens ∧ o.seeks ∧ o.reads then
        if E.fingerprint contents.old = expectedSource ∧ (o.parked contents = true → o.removes = true) then
          .ok ()
        else .error .savedButBackupUpdateFailed
      else .error .backupFailed := by
  rw [transact_done E expectedSource h hdone]
  obtain ⟨hparked, hname, -⟩ | ⟨hparked, parked, hname, -⟩ := parked_cases h
  · simp only [hname, hparked]
    split_ifs <;> simp_all
  · simp only [hname, hparked]
    split_ifs <;> simp_all

/-- What one that succeeded has to keep of it: no error but where the session would know the new
vault all the same. -/
theorem promise_iff_done (E : Codec V C F) (expectedSource : F) (h : o.reached contents = true)
    (hdone : o.replacement = .done) :
    Promise E contents expectedSource o ↔
      (o.opens = true ∧ o.seeks = true ∧ o.reads = true ∧ E.fingerprint contents.old = expectedSource ∧
        (o.parked contents = true → o.removes = true)) ∨
      (o.opens = true ∧ o.seeks = true ∧ o.reads = true ∧
        E.fingerprint contents.new = expectedSource) := by
  have hresult := transact_done_result E expectedSource h hdone
  constructor
  · intro hpromise
    split_ifs at hresult with hread hkept
    · exact .inl ⟨hread.1, hread.2.1, hread.2.2, hkept⟩
    · exact .inr ⟨hread.1, hread.2.1, hread.2.2, (hpromise.after h hdone _ hresult).2⟩
    · have hlate := (hpromise.after h hdone _ hresult).1
      simp at hlate
  · intro hcondition
    refine ⟨transact_ok E expectedSource, fun hfailed => ?_, fun _ _ e he => ?_⟩
    · rw [hresult] at hfailed
      split_ifs at hfailed <;> simp at hfailed
    · obtain ⟨hopens, hseeks, hreads, hkept⟩ | ⟨hopens, hseeks, hreads, hnew⟩ := hcondition
      · rw [hresult, if_pos ⟨hopens, hseeks, hreads⟩, if_pos hkept] at he
        cases he
      · rw [hresult, if_pos ⟨hopens, hseeks, hreads⟩] at he
        split_ifs at he
        cases he
        exact ⟨.inl rfl, hnew⟩

/-- The transaction keeps its promise exactly when no failure is taken for something else. -/
theorem promise_iff_holds (E : Codec V C F) (contents : Contents) (expectedSource : F) (o : Outcomes) :
    Promise E contents expectedSource o ↔ Holds E contents expectedSource o := by
  cases hreached : o.reached contents with
  | false =>
    have hresult := transact_of_not_reached E expectedSource hreached
    have hok : (transact E contents expectedSource o).1 ≠ .ok () := by
      obtain h | h := hresult <;> simp [h]
    have hfailed : (transact E contents expectedSource o).1 ≠ .error .atomicReplaceFailed := by
      obtain h | h := hresult <;> simp [h]
    refine iff_of_true ⟨fun h => absurd h hok, fun h => absurd h hfailed, ?_⟩ ⟨?_, ?_, ?_⟩ <;>
      (intro h; simp [hreached] at h)
  | true =>
    cases hreplacement : o.replacement with
    | done =>
      rw [promise_iff_done E expectedSource hreached hreplacement]
      refine ⟨fun h => ⟨fun _ _ => h, ?_, ?_⟩, fun h => h.done hreached hreplacement⟩ <;>
        simp [hreplacement]
    | refused =>
      rw [promise_iff_undone E expectedSource hreached (by simp [hreplacement]),
        undone_refused_iff hreached hreplacement]
      refine ⟨fun h => ⟨?_, ?_, fun _ _ => h⟩, fun h => h.refused hreached hreplacement⟩ <;>
        simp [hreplacement]
    | moved =>
      rw [promise_iff_undone E expectedSource hreached (by simp [hreplacement]),
        undone_moved_iff hreached hreplacement]
      refine ⟨fun h => ⟨?_, fun _ _ => h, ?_⟩, fun h => h.moved hreached hreplacement⟩ <;>
        simp [hreplacement]

end Playing

/-! ## The callers -/

section Callers
variable {α β : Type} {E : Codec V C F} {session session' : VaultSession V F} {e : SessionError}

/-- Any answers. -/
abbrev anything : Unit → (request : Request V C) → Answer request → Unit → Prop := fun _ _ _ _ => True

/-- With some answers the block returns this value. -/
def Returns (block : Fs V C α) (a : α) : Prop := Reaches anything block.run () (.done (.ok a)) ()

omit [DecidableEq F] in
theorem Returns.of_bind {p : Fs V C α} {f : α → Fs V C β} {b : β} (h : Returns (p >>= f) b) :
    ∃ a, Returns p a ∧ Returns (f a) b := by
  obtain ⟨result, ⟨⟩, hp, hf⟩ := Reaches.of_bind (p := p.run) (f := ExceptT.bindCont f) h
  cases result with
  | ok a => exact ⟨a, hp, hf⟩
  | error e => cases hf

omit [DecidableEq F] in
theorem Returns.of_guarded {name : String} {block : Fs V C α} {a : α}
    (h : Returns (guarded name block) a) : Returns block a := by
  obtain ⟨result, ⟨⟩, hblock, hrest⟩ := Reaches.of_bind (p := block.run) h
  cases result with
  | ok b =>
    cases hrest
    exact hblock
  | error e =>
    obtain ⟨_, ⟨⟩, -, hfailed⟩ := Reaches.of_bind (p := ManagedTemp.drop name) hrest
    cases hfailed

omit [DecidableEq F] in
theorem Returns.of_withTemp {block : String → Fs V C α} {a : α} (h : Returns (withTemp block) a) :
    ∃ name, Returns (block name) a := by
  obtain ⟨name, -, hguarded⟩ := h.of_bind
  exact ⟨name, hguarded.of_guarded⟩

/-- On Windows no backup is prepared. -/
theorem Returns.of_replacePrimary {sourceMetadata : Metadata} {name : String} {backup : Option String}
    (h : Returns (replacePrimary E .windows session sourceMetadata name) backup) : backup = none := by
  obtain ⟨_, -, h⟩ := h.of_bind
  obtain ⟨_, -, h⟩ := h.of_bind
  cases h
  rfl

theorem Returns.of_install [DecidableEq V] {current target : C} {backup : Option String}
    (h : Returns (install E .windows session current target) backup) : backup = none := by
  obtain ⟨sourceMetadata, -, h⟩ := h.of_bind
  obtain ⟨_, -, h⟩ := h.of_bind
  obtain ⟨_, -, h⟩ := h.of_bind
  obtain ⟨name, h⟩ := h.of_withTemp
  obtain ⟨serialized, -, h⟩ := h.of_bind
  cases serialized with
  | error error => cases h
  | ok _ =>
    obtain ⟨_, -, h⟩ := h.of_bind
    obtain ⟨_, -, h⟩ := h.of_bind
    obtain ⟨_, -, h⟩ := h.of_bind
    obtain ⟨_, -, h⟩ := h.of_bind
    obtain ⟨_, -, h⟩ := h.of_bind
    obtain ⟨_, -, h⟩ := h.of_bind
    obtain ⟨_, -, h⟩ := h.of_bind
    exact h.of_replacePrimary

theorem Returns.of_installEncrypted [DecidableEq V] {expected : F} {ciphertext : Bytes} {credential : C}
    {candidate : KdbxDocument V} {backup : Option String}
    (h : Returns (installEncrypted E .windows session expected ciphertext credential)
      (candidate, backup)) : backup = none := by
  unfold installEncrypted at h
  split_ifs at h
  · cases h
  · cases h
  · cases h
  · obtain ⟨sourceMetadata, -, h⟩ := h.of_bind
    obtain ⟨_, -, h⟩ := h.of_bind
    cases hparse : E.parse credential ciphertext with
    | error error =>
      rw [hparse] at h
      cases h
    | ok candidate =>
      rw [hparse] at h
      obtain ⟨backup', hbackup, h⟩ := h.of_bind
      cases h
      obtain ⟨name, h⟩ := hbackup.of_withTemp
      obtain ⟨_, -, h⟩ := h.of_bind
      obtain ⟨_, -, h⟩ := h.of_bind
      obtain ⟨_, -, h⟩ := h.of_bind
      obtain ⟨_, -, h⟩ := h.of_bind
      obtain ⟨_, -, h⟩ := h.of_bind
      obtain ⟨_, -, h⟩ := h.of_bind
      obtain ⟨_, -, h⟩ := h.of_bind
      obtain ⟨written, -, h⟩ := h.of_bind
      split_ifs at h
      · cases h
      · obtain ⟨_, -, h⟩ := h.of_bind
        obtain ⟨_, -, h⟩ := h.of_bind
        exact h.of_replacePrimary

omit [DecidableEq F] in
/-- Without a backup to commit and a directory to sync, what comes last does not fail. -/
theorem finish_windows {result : Except SessionError SaveOutcome}
    (h : Reaches anything (finish none true : Fs V C SaveOutcome).run () (.done result) ()) :
    result = .ok .saved := by
  cases h
  rfl

/-- An error leaves the session as it was: it is returned before the session is brought up to date. -/
theorem call_windows_error [DecidableEq V] (call : Call C F)
    (h : Reaches anything (call.run E .windows session) () (.done (.error e, session')) ()) :
    session' = session := by
  have hpersist : ∀ current target forceReencrypt saveSupported,
      Reaches anything (persist E .windows session current target forceReencrypt saveSupported) ()
        (.done (.error e, session')) () → session' = session := by
    intro current target forceReencrypt saveSupported h
    unfold persist at h
    split_ifs at h
    · cases h
    · cases h
      rfl
    · obtain ⟨installed, ⟨⟩, hinstall, h⟩ := Reaches.of_bind h
      cases installed with
      | error error =>
        cases h
        rfl
      | ok backup =>
        obtain rfl : backup = none := Returns.of_install hinstall
        obtain ⟨durable, ⟨⟩, hdurable, h⟩ := Reaches.of_bind h
        cases hdurable
        obtain ⟨verified, ⟨⟩, -, h⟩ := Reaches.of_bind h
        cases verified with
        | error error =>
          cases h
          rfl
        | ok final =>
          obtain ⟨result, ⟨⟩, hfinish, h⟩ := Reaches.of_bind h
          obtain rfl := finish_windows hfinish
          cases h
  cases call with
  | save credential => exact hpersist _ _ _ _ h
  | rotateCredential current replacement =>
    exact hpersist current replacement true Host.windows.saveSupported h
  | replaceEncryptedIfUnchanged expected ciphertext credential =>
    obtain ⟨installed, ⟨⟩, hinstall, h⟩ := Reaches.of_bind h
    cases installed with
    | error error =>
      cases h
      rfl
    | ok installed =>
      obtain ⟨candidate, backup⟩ := installed
      obtain rfl : backup = none := Returns.of_installEncrypted hinstall
      obtain ⟨durable, ⟨⟩, hdurable, h⟩ := Reaches.of_bind h
      cases hdurable
      obtain ⟨verified, ⟨⟩, -, h⟩ := Reaches.of_bind h
      cases verified with
      | error error =>
        cases h
        rfl
      | ok final =>
        obtain ⟨result, ⟨⟩, hfinish, h⟩ := Reaches.of_bind h
        obtain rfl := finish_windows hfinish
        cases h

end Callers

/-! ## The result -/

/-- The transaction keeps its promise exactly under `Holds`, where the fingerprint is the one of the
session: whichever call the error is returned by, the session is left as it was. -/
theorem transaction_truthful_iff [DecidableEq V] (E : Codec V C F) (session : VaultSession V F) :
    (∀ contents o, Promise E contents session.sourceFingerprint o ↔
      Holds E contents session.sourceFingerprint o) ∧
    ∀ (call : Call C F) e session',
      Reaches anything (call.run E .windows session) () (.done (.error e, session')) () →
      session' = session :=
  ⟨fun contents o => promise_iff_holds E contents session.sourceFingerprint o,
    fun call _ _ h => call_windows_error call h⟩

/-- The replacement succeeds, but the new backup cannot be opened. -/
theorem transaction_reports_backupFailed :
    let contents : Contents := ⟨[1], [2], none, [0], fun _ => .absent⟩
    let o : Outcomes := ⟨true, true, some [0], true, .done, false, true, true, true, true, true, true,
      true, true⟩
    (transact sampleCodec contents [1] o).1 = .error .backupFailed ∧
    (transact sampleCodec contents [1] o).2 .primary = .regular [2] ∧
    ¬ Promise sampleCodec contents [1] o := by
  refine ⟨by decide +kernel, by decide +kernel, fun hpromise => ?_⟩
  have hafter := hpromise.after (by decide +kernel) rfl .backupFailed (by decide +kernel)
  simp at hafter

end NianPass.Session
