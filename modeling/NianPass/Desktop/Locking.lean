import NianPass.Desktop.Clipboard

/-
  Locking the vault while secrets are copied.

  Every call keeps to the contract, wherever the others step in between. What is proved of
  every run:
    1. `locked_vault_leaves_nothing`: when the vault is locked and no lock command is still at it,
       the system's clipboard holds nothing that was copied and not abandoned; texts are
       handed to the system's clipboard only while the vault is open.
    2. `clears_are_owned`: what is cleared is the text of the lease, unless somebody wrote after
       it was looked at; a timer clears its own copy only; once a timer has returned, its copy is
       gone.
    3. `calls_progress`: the calls never wait for each other in a circle.

  A step of the service stands for all that a command does behind the service's mutex. It takes
  nothing else there and lets the mutex go, so it may be moved past the others' steps
  (`NianPass.Desktop.Clipboard`), and it closes no circle of waits.
-/
namespace NianPass.Desktop.Clipboard

open Session Kdbx Threads

variable {V F : Type}

/-! ## The other commands of the service -/

section Opens

/-- The requests of a command of the service may be answered in any way. -/
def anything : Program.Machine (DesktopRequest V) DesktopAnswer Unit where
  step _ _ _ _ := True
  permits _ _ := True

/-- However it goes, the command leaves a session open. -/
abbrev StaysOpen (p : Desk V (DesktopVaultService.Outcome V F)) : Prop :=
  p.Safe anything (fun _ r => r.2.session.isSome = true) ()

theorem safe_anything {α : Type} (p : Desk V α) : p.Safe anything (fun _ _ => True) () := by
  induction p with
  | done a => trivial
  | ask e k ih => exact ⟨trivial, fun r _ _ => ih r⟩

theorem staysOpen_bind {α : Type} {p : Desk V α} {f : α → Desk V (DesktopVaultService.Outcome V F)}
    (h : ∀ a, StaysOpen (f a)) : StaysOpen (p >>= f) :=
  Program.Safe.bind (Program.Safe.weaken (safe_anything p) fun _ a _ => h a)

section Commands
variable [DecidableEq V] [DecidableEq F] {E : Codec V KdbxCredential F} {host : Host}
variable {service : DesktopVaultService V F} {replace : KdbxCredential → KdbxCredential}

omit [DecidableEq V] [DecidableEq F] in
theorem staysOpen_requireWritable
    {block : VaultSession V F → Desk V (DesktopVaultService.Outcome V F)}
    (hopen : service.session.isSome = true) (h : ∀ session, StaysOpen (block session)) :
    StaysOpen (service.requireWritable host block) := by
  unfold DesktopVaultService.requireWritable
  split
  · exact hopen
  · refine staysOpen_bind fun restriction => ?_
    cases restriction with
    | none => exact h _
    | some error => exact hopen

omit [DecidableEq V] [DecidableEq F] in
theorem staysOpen_requireClean
    {block : VaultSession V F → Desk V (DesktopVaultService.Outcome V F)}
    (hopen : service.session.isSome = true) (h : ∀ session, StaysOpen (block session)) :
    StaysOpen (service.requireClean host block) := by
  refine staysOpen_requireWritable hopen fun session => ?_
  split
  · exact hopen
  · exact h session

omit [DecidableEq V] [DecidableEq F] in
theorem staysOpen_snapshot (hopen : service.session.isSome = true) :
    StaysOpen service.snapshot := by
  unfold DesktopVaultService.snapshot
  split
  · exact hopen
  · refine staysOpen_bind fun projected => ?_
    split <;> exact hopen

omit [DecidableEq V] [DecidableEq F] in
theorem staysOpen_replaceRetained (hopen : service.session.isSome = true) :
    (service.replaceRetained replace).2.session.isSome = true := by
  unfold DesktopVaultService.replaceRetained
  split <;> exact hopen

omit [DecidableEq V] in
theorem staysOpen_reconcileAuthority (hopen : service.session.isSome = true) :
    StaysOpen (service.reconcileAuthority E replace) := by
  unfold DesktopVaultService.reconcileAuthority
  split
  · refine staysOpen_bind fun replaced => ?_
    cases replaced with
    | error error => exact hopen
    | ok candidate =>
      refine staysOpen_bind fun current => ?_
      cases current with
      | error error =>
        have hretained : ({ service with session := some candidate } :
            DesktopVaultService V F).session.isSome = true := rfl
        exact staysOpen_replaceRetained hretained
      | ok session => exact hopen
  · exact hopen

theorem staysOpen_rotate {session : VaultSession V F} {current : KdbxCredential} :
    StaysOpen (service.rotate E host session current replace) := by
  unfold DesktopVaultService.rotate
  refine staysOpen_bind fun rotated => ?_
  obtain ⟨result, session⟩ := rotated
  have hopen : ({ service with session := some session } : DesktopVaultService V F).session.isSome =
      true := rfl
  cases result with
  | error error =>
    dsimp only
    split
    · refine Program.Safe.bind (Program.Safe.weaken (staysOpen_reconcileAuthority hopen) ?_)
      rintro - ⟨reconciled, after⟩ hafter
      cases reconciled <;> exact hafter
    · exact hopen
  | ok _ => exact staysOpen_replaceRetained hopen

omit [DecidableEq V] [DecidableEq F] in
theorem staysOpen_thenSnapshot {rotated : Desk V (DesktopVaultService.Outcome V F)}
    (h : StaysOpen rotated) : StaysOpen (DesktopVaultService.thenSnapshot rotated) := by
  refine Program.Safe.bind (Program.Safe.weaken h ?_)
  rintro - ⟨result, after⟩ hafter
  cases result with
  | error error => exact hafter
  | ok _ => exact staysOpen_snapshot hafter

/-- No command of the service but the two that lock closes the session. -/
theorem staysOpen_perform {call : CredentialCall V} (hlock : call ≠ .lock)
    (hdiscard : call ≠ .discardAndLock) (hopen : service.session.isSome = true) :
    StaysOpen (call.perform E host service) := by
  cases call with
  | lock => exact absurd rfl hlock
  | discardAndLock => exact absurd rfl hdiscard
  | selectPath =>
    show service.selectPath.2.session.isSome = true
    unfold DesktopVaultService.selectPath
    split <;> exact hopen
  | setPendingKeyfile keyfile =>
    show (service.setPendingKeyfile keyfile).2.session.isSome = true
    unfold DesktopVaultService.setPendingKeyfile
    rw [if_pos hopen]
    exact hopen
  | clearPendingKeyfile =>
    show service.clearPendingKeyfile.2.session.isSome = true
    unfold DesktopVaultService.clearPendingKeyfile
    split <;> exact hopen
  | unlock password =>
    show StaysOpen (service.unlockWithComponents E password)
    unfold DesktopVaultService.unlockWithComponents
    rw [if_pos hopen]
    exact hopen
  | edit document => exact staysOpen_requireWritable hopen fun session => rfl
  | save =>
    refine staysOpen_requireWritable hopen fun session => ?_
    split
    · exact hopen
    · refine staysOpen_bind fun saved => ?_
      obtain ⟨result, session⟩ := saved
      cases result with
      | error error => rfl
      | ok _ => exact staysOpen_snapshot rfl
  | changeMasterPassword newPassword =>
    refine staysOpen_requireClean hopen fun session => ?_
    split
    · exact hopen
    split
    · exact hopen
    · exact staysOpen_thenSnapshot staysOpen_rotate
  | removeMasterPassword =>
    refine staysOpen_requireClean hopen fun session => ?_
    split
    · exact hopen
    split
    · exact hopen
    split
    · exact hopen
    · exact staysOpen_thenSnapshot staysOpen_rotate
  | replaceKeyfile newKeyfile =>
    refine staysOpen_requireClean hopen fun session => ?_
    split
    · exact hopen
    split
    · exact hopen
    · exact staysOpen_rotate
  | removeKeyfile =>
    refine staysOpen_requireClean hopen fun session => ?_
    split
    · exact hopen
    split
    · exact hopen
    split
    · exact hopen
    split
    · exact hopen
    · exact staysOpen_rotate

/-- What a command of the service leaves is something the threads are prepared for. -/
theorem elsewhere_perform {call : CredentialCall V} (hlock : call ≠ .lock)
    (hdiscard : call ≠ .discardAndLock) (s : Shared V F) :
    (call.perform E host s.service).Safe anything
      (fun _ r => Elsewhere s { s with service := r.2 }) () := by
  by_cases hopen : s.service.session.isSome = true
  · refine Program.Safe.weaken (staysOpen_perform hlock hdiscard hopen) fun _ r hr => ?_
    exact .service r.2 fun _ => hr
  · refine Program.Safe.weaken (safe_anything _) fun _ r _ => ?_
    exact .service r.2 fun h => absurd h hopen

end Commands
end Opens

/-! ## Every call keeps to it -/

/-- What a thread holds. -/
structure Stands (t : ℕ) (gate clipboard operation : Prop) (s : Shared V F) : Prop where
  gate : s.holder .gate = some t ↔ gate
  clipboard : s.holder .clipboard = some t ↔ clipboard
  operation : s.operation = some t ↔ operation

/-- Nothing that was copied is left. -/
def Bare (s : Shared V F) : Prop := ∀ text generation, ¬ s.Holds text generation

/-- What is left of what was copied is not what a timer was for. -/
def Swept (expected : Option ℕ) (s : Shared V F) : Prop :=
  ∀ text generation, s.Holds text generation → ∃ other, expected = some other ∧ generation ≠ other

/-- Nobody can copy what is being cleared: the gate is held, or the timer's copy was made. -/
def Covers (gate : Prop) (expected : Option ℕ) (s : Shared V F) : Prop :=
  gate ∨ ∃ generation, expected = some generation ∧ generation ≤ s.clipboard.generation

section Stable
variable {fingerprint : Bytes → String → Bytes} {s s' : Shared V F} {t : ℕ}
variable {gate clipboard operation : Prop} {expected : Option ℕ}

theorem Stands.rely (h : Stands t gate clipboard operation s) (hrely : Rely t s s') :
    Stands t gate clipboard operation s' where
  gate := (hrely.holder .gate).trans h.gate
  clipboard := (hrely.holder .clipboard).trans h.clipboard
  operation := hrely.operation.trans h.operation

theorem Stands.same (h : Stands t gate clipboard operation s) (hholder : s'.holder = s.holder)
    (hoperation : s'.operation = s.operation) : Stands t gate clipboard operation s' where
  gate := by rw [hholder, h.gate]
  clipboard := by rw [hholder, h.clipboard]
  operation := by rw [hoperation, h.operation]

theorem Stands.lock_gate (h : Stands t gate clipboard operation s) :
    Stands t True clipboard operation (s.hold .gate (some t)) where
  gate := by simp
  clipboard := h.clipboard
  operation := h.operation

theorem Stands.unlock_gate (h : Stands t gate clipboard operation s) :
    Stands t False clipboard operation (s.hold .gate none) where
  gate := by simp
  clipboard := h.clipboard
  operation := h.operation

theorem Stands.lock_clipboard (h : Stands t gate clipboard operation s) :
    Stands t gate True operation (s.hold .clipboard (some t)) where
  gate := h.gate
  clipboard := by simp
  operation := h.operation

theorem Stands.unlock_clipboard (h : Stands t gate clipboard operation s) :
    Stands t gate False operation (s.hold .clipboard none) where
  gate := h.gate
  clipboard := by simp
  operation := h.operation

theorem Leased.rely (h : Leased fingerprint s) (hstands : Stands t gate True operation s)
    (hrely : Rely t s s') : Leased fingerprint s' := by
  intro text generation hholds
  have hmine : s.holder .clipboard = some t := hstands.clipboard.2 trivial
  rw [hrely.clipboard hmine]
  exact h text generation (hrely.content (.inr hmine) text generation hholds)

theorem Closed.rely (h : Closed s) (hstands : Stands t True clipboard operation s)
    (hrely : Rely t s s') : Closed s' := by
  intro hsession text generation hholds
  have hmine : s.holder .gate = some t := hstands.gate.2 trivial
  exact h (hrely.session hmine hsession) text generation
    (hrely.content (.inl hmine) text generation hholds)

theorem Bare.rely (h : Bare s) (hstands : Stands t gate True operation s)
    (hrely : Rely t s s') : Bare s' := fun text generation hholds =>
  h text generation (hrely.content (.inr (hstands.clipboard.2 trivial)) text generation hholds)

theorem isSome_rely (h : s.service.session.isSome = true)
    (hstands : Stands t True clipboard operation s) (hrely : Rely t s s') :
    s'.service.session.isSome = true := by
  cases hsession : s'.service.session with
  | some session => rfl
  | none =>
    rw [hrely.session (hstands.gate.2 trivial) hsession] at h
    cases h

theorem Covers.mono (h : Covers gate expected s)
    (hgeneration : s.clipboard.generation ≤ s'.clipboard.generation) :
    Covers gate expected s' := by
  rcases h with hgate | ⟨generation, hexpected, hle⟩
  · exact .inl hgate
  · exact .inr ⟨generation, hexpected, hle.trans hgeneration⟩

theorem Swept.rely (h : Swept expected s) (hstands : Stands t gate clipboard operation s)
    (hcovers : Covers gate expected s) (hrely : Rely t s s') : Swept expected s' := by
  intro text generation hholds
  rcases hcovers with hgate | ⟨other, hexpected, hle⟩
  · exact h text generation (hrely.content (.inl (hstands.gate.2 hgate)) text generation hholds)
  · rcases hrely.fresh text generation hholds with hbefore | hlt
    · exact h text generation hbefore
    · exact ⟨other, hexpected, by omega⟩

theorem Bare.swept (h : Bare s) : Swept expected s :=
  fun text generation hholds => absurd hholds (h text generation)

theorem Bare.leased (h : Bare s) : Leased fingerprint s :=
  fun text generation hholds => absurd hholds (h text generation)

/-- Where nobody holds the gate, a locked vault has left nothing. -/
theorem Inv.closed_of_free {calls : ℕ → Call V F} (h : Inv fingerprint calls s)
    (hfree : s.holder .gate = none) : Closed s := by
  intro hsession text generation hholds
  obtain ⟨u, discard, hgate, -⟩ := h.closed hsession text generation hholds
  rw [hfree] at hgate
  cases hgate

end Stable

section Calls
variable {fingerprint : Bytes → String → Bytes} {calls : ℕ → Call V F}
variable {s : Shared V F} {t : ℕ} {gate operation : Prop} {expected : Option ℕ}

/-- A thread that is behind the clipboard's mutex and clears. -/
structure Clearing (fingerprint : Bytes → String → Bytes) (t : ℕ) (gate operation : Prop)
    (expected : Option ℕ) (s : Shared V F) : Prop where
  stands : Stands t gate True operation s
  covers : Covers gate expected s
  leased : Leased fingerprint s

theorem Clearing.rely {s' : Shared V F} (h : Clearing fingerprint t gate operation expected s)
    (hrely : Rely t s s') : Clearing fingerprint t gate operation expected s' where
  stands := h.stands.rely hrely
  covers := h.covers.mono hrely.generation
  leased := h.leased.rely h.stands hrely

/-- And has cleared. -/
def Cleared (fingerprint : Bytes → String → Bytes) (t : ℕ) (gate operation : Prop)
    (expected : Option ℕ) (s : Shared V F) : Prop :=
  Clearing fingerprint t gate operation expected s ∧ Swept expected s

theorem upheld_cleared {status : ClipboardClearStatus}
    (h : Cleared fingerprint t gate operation expected s) :
    (contract fingerprint calls).Upheld t
      (fun s' _ => Cleared fingerprint t gate operation expected s') (.done status) s := by
  refine upheld_done (Cleared fingerprint t gate operation expected) ?_ h fun _ _ h => h
  rintro s s' - - hrely ⟨hclearing, hswept⟩
  exact ⟨hclearing.rely hrely, hswept.rely hclearing.stands hclearing.covers hrely⟩

/-- What is known once the system's clipboard was read: if it was, which copies are left. -/
def AfterRead (read : Option (Option String)) (s : Shared V F) : Prop :=
  match read with
  | none => Bare s
  | some current => (∀ text generation, s.Holds text generation → current = some text.value) ∧
    (s.touched = false → s.content.map Text.value = current)

/-- A thread that clears and has loaded the state. -/
structure Loaded (fingerprint : Bytes → String → Bytes) (t : ℕ) (gate operation : Prop)
    (expected : Option ℕ) (state : ClipboardState) (s : Shared V F) : Prop where
  clearing : Clearing fingerprint t gate operation expected s
  same : s.clipboard = state

section Loaded
variable {state : ClipboardState} {lease : ClipboardLease} {current : Option String}

theorem Loaded.mine (h : Loaded fingerprint t gate operation expected state s) :
    s.holder .clipboard = some t := h.clearing.stands.clipboard.2 trivial

theorem Loaded.rely {s' : Shared V F} (h : Loaded fingerprint t gate operation expected state s)
    (hrely : Rely t s s') : Loaded fingerprint t gate operation expected state s' where
  clearing := h.clearing.rely hrely
  same := by rw [hrely.clipboard h.mine, h.same]

/-- Every copy that is still there is the one of the lease. -/
theorem Loaded.owns {text : Text} {generation : ℕ}
    (h : Loaded fingerprint t gate operation expected state s) (hlease : state.lease = some lease)
    (hholds : s.Holds text generation) :
    lease.generation = generation ∧ lease.digest = fingerprint lease.salt text.value := by
  obtain ⟨found, hfound, hrest⟩ := h.clearing.leased text generation hholds
  rw [h.same, hlease] at hfound
  cases hfound
  exact hrest

/-- Without a lease nothing that was copied is left. -/
theorem Loaded.bare (h : Loaded fingerprint t gate operation expected state s)
    (hlease : state.lease = none) : Bare s := by
  intro text generation hholds
  obtain ⟨found, hfound, -⟩ := h.clearing.leased text generation hholds
  rw [h.same, hlease] at hfound
  cases hfound

/-- What a request leaves that took every copy and kept the rest. -/
theorem Loaded.emptied {s' : Shared V F} (h : Loaded fingerprint t gate operation expected state s)
    (hholder : s'.holder = s.holder) (hoperation : s'.operation = s.operation)
    (hclipboard : s'.clipboard = s.clipboard) (hbare : Bare s') :
    Loaded fingerprint t gate operation expected state s' where
  clearing :=
    { stands := h.clearing.stands.same hholder hoperation
      covers := h.clearing.covers.mono (by rw [hclipboard])
      leased := hbare.leased }
  same := by rw [hclipboard, h.same]

/-- The lease is given up where nothing that was copied is left. -/
theorem upheld_forget {status : ClipboardClearStatus}
    (h : Loaded fingerprint t gate operation expected state s) (hbare : Bare s) :
    (contract fingerprint calls).Upheld t
      (fun s' _ => Cleared fingerprint t gate operation expected s')
      (do ask (.store { state with lease := none })
          pure status : Running V F ClipboardClearStatus) s := by
  refine upheld_request
    (fun s => Loaded fingerprint t gate operation expected state s ∧ Bare s)
    (fun _ s => Cleared fingerprint t gate operation expected s) ?_ ⟨h, hbare⟩ ?_ ?_ ?_
  · rintro s s' - - hrely ⟨h, hbare⟩
    exact ⟨h.rely hrely, hbare.rely h.clearing.stands hrely⟩
  · rintro s - ⟨h, -⟩
    exact ⟨h.mine, h.same ▸ le_rfl, fun lease hlease => nomatch hlease⟩
  · rintro s _ s' - ⟨⟨hclearing, rfl⟩, hbare⟩ rfl -
    have hbare' : Bare ({ s with clipboard := { s.clipboard with lease := none } } : Shared V F) :=
      hbare
    exact ⟨⟨hclearing.stands.same rfl rfl, hclearing.covers.mono le_rfl, hbare'.leased⟩,
      hbare'.swept⟩
  · exact fun _ _ _ h => upheld_cleared h

theorem bare_cleared (s : Shared V F) : Bare { s with content := none } := by
  rintro text generation ⟨hcontent, -⟩
  cases hcontent

/-- The text is the one of the lease: it is cleared. -/
theorem upheld_clear (h : Loaded fingerprint t gate operation expected state s)
    (hlease : state.lease = some lease)
    (hexpected : expected = none ∨ expected = some lease.generation)
    (hshown : s.touched = false → s.content.map Text.value = current)
    (hmatch : current.map (fingerprint lease.salt) = some lease.digest) :
    (contract fingerprint calls).Upheld t
      (fun s' _ => Cleared fingerprint t gate operation expected s')
      (do if (← ask (.clear expected)) then
            ask (.store { state with lease := none })
            pure .cleared
          else
            ask (.store { state with lease := none })
            pure .clearFailed : Running V F ClipboardClearStatus) s := by
  refine upheld_request
    (fun s => Loaded fingerprint t gate operation expected state s ∧
      (s.touched = false → s.content.map Text.value = current))
    (fun _ s => Loaded fingerprint t gate operation expected state s ∧ Bare s) ?_ ⟨h, hshown⟩ ?_ ?_ ?_
  · rintro s s' - - hrely ⟨h, hshown⟩
    refine ⟨h.rely hrely, fun htouched => ?_⟩
    obtain ⟨hcontent, hbefore⟩ := hrely.touched h.mine htouched
    rw [hcontent]
    exact hshown hbefore
  · rintro s - ⟨h, hshown⟩
    refine ⟨h.mine, h.clearing.leased, lease, by rw [h.same, hlease], hexpected, fun htouched => ?_⟩
    rw [← hshown htouched, Option.map_map] at hmatch
    obtain ⟨text, hcontent, hdigest⟩ := Option.map_eq_some_iff.1 hmatch
    exact ⟨text, hcontent, hdigest⟩
  · rintro s cleared s' - ⟨h, -⟩ hmoves -
    cases cleared with
    | true =>
      dsimp only [desktop, desktopMoves] at hmoves
      rw [h.same, hlease] at hmoves
      subst hmoves
      have hbare := bare_cleared (s.note (.removed expected lease s.content s.touched))
      exact ⟨h.emptied rfl rfl rfl hbare, hbare⟩
    | false =>
      rcases hmoves with rfl | rfl
      · have hbare : Bare s.abandon := fun _ _ => not_holds_abandon
        exact ⟨h.emptied rfl rfl rfl hbare, hbare⟩
      · exact ⟨h.emptied rfl rfl rfl (bare_cleared s), bare_cleared s⟩
  · rintro cleared s - ⟨h, hbare⟩
    cases cleared with
    | true => exact upheld_forget h hbare
    | false => exact upheld_forget h hbare

/-- Reading what is on the system's clipboard. -/
theorem Loaded.read {s' : Shared V F} {read : Option (Option String)}
    (h : Loaded fingerprint t gate operation expected state s)
    (hmoves : desktopMoves t s .readText read s') :
    Loaded fingerprint t gate operation expected state s' ∧ AfterRead read s' := by
  cases read with
  | none =>
    subst hmoves
    have hbare : Bare s.abandon := fun _ _ => not_holds_abandon
    exact ⟨h.emptied rfl rfl rfl hbare, hbare⟩
  | some current =>
    obtain ⟨rfl, rfl⟩ := hmoves
    refine ⟨⟨⟨h.clearing.stands.same rfl rfl, h.clearing.covers, h.clearing.leased⟩, h.same⟩, ?_,
      fun _ => rfl⟩
    intro text generation hholds
    rw [show s.content = some text from hholds.1]
    rfl

theorem upheld_release (h : Clearing fingerprint t gate operation expected s) :
    (contract fingerprint calls).Upheld t
      (fun s' _ => Cleared fingerprint t gate operation expected s')
      (release fingerprint expected : Running V F ClipboardClearStatus) s := by
  unfold release
  refine upheld_request (Clearing fingerprint t gate operation expected)
    (fun state s => Loaded fingerprint t gate operation expected state s)
    (fun _ _ _ _ hrely h => h.rely hrely) h (fun _ _ h => h.stands.clipboard.2 trivial) ?_ ?_
  · rintro s state s' - h ⟨rfl, rfl⟩ -
    exact ⟨h, rfl⟩
  rintro state s - h
  split
  · next hnone => exact upheld_cleared ⟨h.clearing, (h.bare hnone).swept⟩
  next lease hlease =>
  split
  · next hstale =>
    refine upheld_cleared ⟨h.clearing, fun text generation hholds => ?_⟩
    obtain ⟨other, hother⟩ := Option.isSome_iff_exists.1 hstale.1
    refine ⟨other, hother, ?_⟩
    rintro rfl
    exact hstale.2 (by rw [hother, (h.owns hlease hholds).1])
  next hcurrent =>
  have hexpected : expected = none ∨ expected = some lease.generation := by
    cases expected with
    | none => exact .inl rfl
    | some generation => exact .inr (by_contra fun hne => hcurrent ⟨rfl, hne⟩)
  refine upheld_request (Loaded fingerprint t gate operation expected state)
    (fun read s => Loaded fingerprint t gate operation expected state s ∧ AfterRead read s)
    (fun _ _ _ _ hrely h => h.rely hrely) h (fun _ _ h => h.mine)
    (fun _ _ _ _ h hmoves _ => h.read hmoves) ?_
  rintro read s - ⟨h, hread⟩
  cases read with
  | none => exact upheld_forget h hread
  | some current =>
    dsimp only
    split
    · next hmatch => exact upheld_clear h hlease hexpected hread.2 hmatch
    · next hother =>
      refine upheld_forget h fun text generation hholds => hother ?_
      rw [hread.1 text generation hholds, (h.owns hlease hholds).2]
      rfl

end Loaded

/-- A thread that has cleared, and is out of the clipboard's mutex. -/
structure Left (t : ℕ) (gate operation : Prop) (expected : Option ℕ) (s : Shared V F) : Prop where
  stands : Stands t gate False operation s
  covers : Covers gate expected s
  swept : Swept expected s

theorem Left.rely {s' : Shared V F} (h : Left t gate operation expected s) (hrely : Rely t s s') :
    Left t gate operation expected s' where
  stands := h.stands.rely hrely
  covers := h.covers.mono hrely.generation
  swept := h.swept.rely h.stands h.covers hrely

theorem upheld_clearOwned (hstands : Stands t gate False operation s)
    (hcovers : Covers gate expected s) :
    (contract fingerprint calls).Upheld t (fun s' _ => Left t gate operation expected s')
      (clearOwned fingerprint expected : Running V F ClipboardClearStatus) s := by
  unfold clearOwned
  refine upheld_request (fun s => Stands t gate False operation s ∧ Covers gate expected s)
    (fun _ s => Clearing fingerprint t gate operation expected s) ?_ ⟨hstands, hcovers⟩ ?_ ?_ ?_
  · rintro s s' - - hrely ⟨hstands, hcovers⟩
    exact ⟨hstands.rely hrely, hcovers.mono hrely.generation⟩
  · exact fun _ _ h => h.1.clipboard.1
  · rintro s _ s' hinv ⟨hstands, hcovers⟩ ⟨hfree, rfl⟩ -
    exact ⟨hstands.lock_clipboard, hcovers, hinv.leased hfree⟩
  rintro _ s hinv h
  refine Contract.Upheld.bind hinv (upheld_release h) ?_
  rintro s status - h
  refine upheld_request (Cleared fingerprint t gate operation expected)
    (fun _ s => Left t gate operation expected s) ?_ h ?_ ?_ ?_
  · rintro s s' - - hrely ⟨h, hswept⟩
    exact ⟨h.rely hrely, hswept.rely h.stands h.covers hrely⟩
  · exact fun _ _ h => ⟨h.1.stands.clipboard.2 trivial, h.1.leased⟩
  · rintro s _ s' - ⟨h, hswept⟩ rfl -
    exact ⟨h.stands.unlock_clipboard, h.covers, hswept⟩
  · intro _ s _ h
    exact upheld_done (Left t gate operation expected) (fun _ _ _ _ hrely h => h.rely hrely) h
      fun _ _ h => h

/-- A thread behind the gate, while the vault is open. -/
structure Copying (t : ℕ) (clipboard operation : Prop) (s : Shared V F) : Prop where
  stands : Stands t True clipboard operation s
  unlocked : s.service.session.isSome = true

theorem Copying.rely {clipboard : Prop} {s' : Shared V F} (h : Copying t clipboard operation s)
    (hrely : Rely t s s') : Copying t clipboard operation s' where
  stands := h.stands.rely hrely
  unlocked := isSome_rely h.unlocked h.stands hrely

/-- The copy that was made, if one was, is not newer than the clipboard's state. -/
def Made (result : Except AppError ClipboardCopy) (s : Shared V F) : Prop :=
  ∀ receipt, result = .ok receipt → receipt.generation ≤ s.clipboard.generation

theorem checkedAdd_eq {generation next : ℕ} (h : checkedAdd generation = some next) :
    next = generation + 1 := by
  unfold checkedAdd at h
  split at h
  · exact (Option.some.inj h).symm
  · cases h

/-- What a copy has reached behind the clipboard's mutex. -/
structure Installed (fingerprint : Bytes → String → Bytes) (t : ℕ) (operation : Prop)
    (result : Except ClipboardFailure ClipboardCopy) (s : Shared V F) : Prop where
  copying : Copying t True operation s
  leased : Leased fingerprint s
  made : Made (result.mapError mapClipboardError) s

theorem upheld_installed {result : Except ClipboardFailure ClipboardCopy}
    (h : Installed fingerprint t operation result s) :
    (contract fingerprint calls).Upheld t
      (fun s' result => Installed fingerprint t operation result s') (.done result) s := by
  refine upheld_done (Installed fingerprint t operation result) ?_ h fun _ _ h => h
  intro s s' _ _ hrely h
  exact ⟨h.copying.rely hrely, h.leased.rely h.copying.stands hrely,
    fun receipt hok => (h.made receipt hok).trans hrely.generation⟩

/-- What is known once a text was handed to the system's clipboard, or was not. -/
def AfterWrite (fingerprint : Bytes → String → Bytes) (generation : ℕ) (value : String)
    (written : Bool) (s : Shared V F) : Prop :=
  match written with
  | false => Leased fingerprint s
  | true => (∀ text copied, s.Holds text copied → text.value = value ∧ copied = generation) ∧
    ∃ unlocked, .wrote generation value unlocked ∈ s.log

theorem upheld_install {value : String} {salt digest : Bytes}
    (hdigest : digest = fingerprint salt value) (h : Copying t True operation s)
    (hleased : Leased fingerprint s) :
    (contract fingerprint calls).Upheld t
      (fun s' result => Installed fingerprint t operation result s')
      (install value salt digest : Running V F (Except ClipboardFailure ClipboardCopy)) s := by
  unfold install
  refine upheld_request (fun s => Copying t True operation s ∧ Leased fingerprint s)
    (fun state s => (Copying t True operation s ∧ Leased fingerprint s) ∧ s.clipboard = state)
    ?_ ⟨h, hleased⟩ (fun _ _ h => h.1.stands.clipboard.2 trivial) ?_ ?_
  · rintro s s' - - hrely ⟨h, hleased⟩
    exact ⟨h.rely hrely, hleased.rely h.stands hrely⟩
  · rintro s state s' - h ⟨rfl, rfl⟩ -
    exact ⟨h, rfl⟩
  rintro state s - ⟨⟨h, hleased⟩, rfl⟩
  split
  · exact upheld_installed ⟨h, hleased, fun receipt hok => nomatch hok⟩
  next generation hadd =>
  have hgeneration : generation = s.clipboard.generation + 1 := checkedAdd_eq hadd
  refine upheld_request
    (fun s' => (Copying t True operation s' ∧ Leased fingerprint s') ∧ s'.clipboard = s.clipboard)
    (fun written s' => Copying t True operation s' ∧ s'.clipboard = s.clipboard ∧
      AfterWrite fingerprint generation value written s')
    ?_ ⟨⟨h, hleased⟩, rfl⟩ ?_ ?_ ?_
  · rintro u u' - - hrely ⟨⟨h, hleased⟩, hsame⟩
    refine ⟨⟨h.rely hrely, hleased.rely h.stands hrely⟩, ?_⟩
    rw [hrely.clipboard (h.stands.clipboard.2 trivial), hsame]
  · rintro u - ⟨⟨h, -⟩, -⟩
    exact ⟨h.stands.gate.2 trivial, h.stands.clipboard.2 trivial, h.unlocked⟩
  · rintro u written u' - ⟨⟨h, hleased⟩, hsame⟩ hmoves -
    cases written with
    | true =>
      subst hmoves
      refine ⟨⟨h.stands.same rfl rfl, h.unlocked⟩, hsame, ?_, u.service.session.isSome, ?_⟩
      · rintro text copied ⟨hcontent, horigin⟩
        cases hcontent
        cases horigin
        exact ⟨rfl, by rw [hgeneration, ← hsame]; rfl⟩
      · rw [hgeneration, ← hsame]
        exact List.mem_append_right _ (List.mem_singleton_self _)
    | false =>
      rcases hmoves with rfl | rfl
      · exact ⟨⟨h.stands.same rfl rfl, h.unlocked⟩, hsame, hleased⟩
      · refine ⟨⟨h.stands.same rfl rfl, h.unlocked⟩, hsame, ?_⟩
        rintro text copied ⟨hcontent, horigin⟩
        cases hcontent
        cases horigin
  rintro written u - ⟨h, hsame, hwritten⟩
  cases written with
  | false => exact upheld_installed ⟨h, hwritten, fun receipt hok => nomatch hok⟩
  | true =>
    obtain ⟨hheld, unlocked, hwrote⟩ := hwritten
    refine upheld_request
      (fun s' => Copying t True operation s' ∧ s'.clipboard = s.clipboard ∧
        (∀ text copied, s'.Holds text copied → text.value = value ∧ copied = generation) ∧
        ∃ unlocked, .wrote generation value unlocked ∈ s'.log)
      (fun _ s' => Installed fingerprint t operation (.ok ⟨generation, CLIPBOARD_CLEAR_MS⟩) s')
      ?_ ⟨h, hsame, hheld, unlocked, hwrote⟩ ?_ ?_ fun _ _ _ h => upheld_installed h
    · rintro w w' - - hrely ⟨h, hsame, hholds, unlocked, hwrote⟩
      have hmine := h.stands.clipboard.2 trivial
      refine ⟨h.rely hrely, by rw [hrely.clipboard hmine, hsame], ?_, unlocked, hrely.log _ hwrote⟩
      exact fun text copied h => hholds text copied (hrely.content (.inr hmine) text copied h)
    · rintro w - ⟨h, hsame, -, unlocked, hwrote⟩
      refine ⟨h.stands.clipboard.2 trivial, ?_, ?_⟩
      · rw [hsame, hgeneration]
        exact Nat.le_succ _
      · rintro lease hlease
        cases hlease
        exact ⟨value, unlocked, hwrote, hdigest⟩
    · rintro w _ w' - ⟨h, hsame, hholds, -⟩ rfl -
      refine ⟨⟨h.stands.same rfl rfl, h.unlocked⟩, ?_, ?_⟩
      · intro text copied hstill
        obtain ⟨hvalue, rfl⟩ := hholds text copied hstill
        exact ⟨_, rfl, rfl, by rw [hdigest, hvalue]⟩
      · rintro receipt hok
        cases hok
        exact le_rfl

theorem upheld_copy {value : String} (h : Copying t False operation s) :
    (contract fingerprint calls).Upheld t
      (fun s' result => Copying t False operation s' ∧ Made (result.mapError mapClipboardError) s')
      (copy fingerprint value : Running V F (Except ClipboardFailure ClipboardCopy)) s := by
  have hdone : ∀ {result : Except ClipboardFailure ClipboardCopy} {s : Shared V F},
      Copying t False operation s ∧ Made (result.mapError mapClipboardError) s →
      (contract fingerprint calls).Upheld t (fun s' result => Copying t False operation s' ∧
        Made (result.mapError mapClipboardError) s') (.done result) s := by
    intro result s h
    refine upheld_done (fun s' => Copying t False operation s' ∧
      Made (result.mapError mapClipboardError) s') ?_ h fun _ _ h => h
    rintro s s' - - hrely ⟨h, hmade⟩
    exact ⟨h.rely hrely, fun receipt hok => (hmade receipt hok).trans hrely.generation⟩
  have hstable : (contract fingerprint calls).Stable t (Copying t False operation) :=
    fun _ _ _ _ hrely h => h.rely hrely
  unfold copy
  refine upheld_request (Copying t False operation) (fun _ s => Copying t False operation s)
    hstable h (fun _ _ _ => trivial) ?_ ?_
  · rintro s salt s' - h rfl -
    exact h
  rintro (- | salt) s - h
  · exact hdone ⟨h, fun receipt hok => nomatch hok⟩
  refine upheld_request (Copying t False operation)
    (fun _ s => Copying t True operation s ∧ Leased fingerprint s) hstable h ?_ ?_ ?_
  · exact fun _ _ h => h.stands.clipboard.1
  · rintro s _ s' hinv h ⟨hfree, rfl⟩ -
    exact ⟨⟨h.stands.lock_clipboard, h.unlocked⟩, hinv.leased hfree⟩
  rintro _ s hinv ⟨h, hleased⟩
  refine Contract.Upheld.bind hinv (upheld_install rfl h hleased) ?_
  rintro s result - h
  refine upheld_request (Installed fingerprint t operation result)
    (fun _ s => Copying t False operation s ∧ Made (result.mapError mapClipboardError) s)
    ?_ h ?_ ?_ fun _ _ _ h => hdone h
  · intro s s' _ _ hrely h
    exact ⟨h.copying.rely hrely, h.leased.rely h.copying.stands hrely,
      fun receipt hok => (h.made receipt hok).trans hrely.generation⟩
  · exact fun _ _ h => ⟨h.copying.stands.clipboard.2 trivial, h.leased⟩
  · rintro s _ s' - h rfl -
    exact ⟨⟨h.copying.stands.unlock_clipboard, h.copying.unlocked⟩, h.made⟩

/-- A thread that holds nothing. -/
abbrev Free (t : ℕ) (s : Shared V F) : Prop := Stands t False False False s

/-- A thread behind the gate: a locked vault has left nothing. -/
structure Inside (t : ℕ) (operation : Prop) (s : Shared V F) : Prop where
  stands : Stands t True False operation s
  closed : Closed s

theorem Inside.rely {s' : Shared V F} (h : Inside t operation s) (hrely : Rely t s s') :
    Inside t operation s' where
  stands := h.stands.rely hrely
  closed := h.closed.rely h.stands hrely

/-- The gate is taken. -/
theorem upheld_enter {α : Type} {Q : Shared V F → α → Prop} {rest : Unit → Running V F α}
    (h : Stands t False False operation s)
    (hrest : ∀ s, Inv fingerprint calls s → Inside t operation s →
      (contract fingerprint calls).Upheld t Q (rest ()) s) :
    (contract fingerprint calls).Upheld t Q (ask (.lock .gate) >>= rest) s := by
  refine upheld_request (Stands t False False operation) (fun _ => Inside t operation)
    (fun _ _ _ _ hrely h => h.rely hrely) h (fun _ _ h => ⟨h.gate.1, h.clipboard.1⟩) ?_
    fun _ s hinv h => hrest s hinv h
  rintro s _ s' hinv h ⟨hfree, rfl⟩ -
  exact ⟨h.lock_gate, fun hsession => hinv.closed_of_free hfree hsession⟩

/-- The gate is given back; something that the others do not undo is carried along. -/
theorem upheld_leave {α : Type} {Q : Shared V F → α → Prop} {rest : Unit → Running V F α}
    {A : Shared V F → Prop} (hA : ∀ s s', Rely t s s' → A s → A s')
    (hhold : ∀ s, A s → A (s.hold .gate none)) (h : Inside t operation s) (hs : A s)
    (hrest : ∀ s, Inv fingerprint calls s → Stands t False False operation s → A s →
      (contract fingerprint calls).Upheld t Q (rest ()) s) :
    (contract fingerprint calls).Upheld t Q (ask (.unlock .gate) >>= rest) s := by
  refine upheld_request (fun s => Inside t operation s ∧ A s)
    (fun _ s => Stands t False False operation s ∧ A s) ?_ ⟨h, hs⟩ ?_ ?_
    fun _ s hinv h => hrest s hinv h.1 h.2
  · rintro s s' - - hrely ⟨h, hs⟩
    exact ⟨h.rely hrely, hA s s' hrely hs⟩
  · exact fun _ _ h => ⟨h.1.stands.gate.2 trivial, h.1.closed⟩
  · rintro s _ s' - ⟨h, hs⟩ rfl -
    exact ⟨h.stands.unlock_gate, hhold s hs⟩

/-- A secret is read behind the gate, from an open vault. -/
theorem upheld_read {α : Type} {Q : Shared V F → α → Prop} {secret : Secret V F}
    {rest : Except AppError String → Running V F α} (h : Inside t operation s)
    (hrest : ∀ result s, Inv fingerprint calls s → Inside t operation s →
      (∀ value, result = .ok value → s.service.session.isSome = true) →
      (contract fingerprint calls).Upheld t Q (rest result) s) :
    (contract fingerprint calls).Upheld t Q (ask (.read secret) >>= rest) s := by
  refine upheld_request (Inside t operation)
    (fun result s => Inside t operation s ∧
      ∀ value, result = .ok value → s.service.session.isSome = true)
    (fun _ _ _ _ hrely h => h.rely hrely) h (fun _ _ _ => trivial) ?_
    fun result s hinv h => hrest result s hinv h.1 h.2
  rintro s result s' - h ⟨hresult, rfl⟩ -
  refine ⟨h, fun value hok => ?_⟩
  cases hsession : s'.service.session with
  | some session => rfl
  | none =>
    unfold Shared.read at hresult
    rw [hsession, hok] at hresult
    cases hresult

theorem made_rely {result : Except AppError ClipboardCopy} (s s' : Shared V F)
    (hrely : Rely t s s') (h : Made result s) : Made result s' :=
  fun receipt hok => (h receipt hok).trans hrely.generation

theorem upheld_copySecretWith {secret : Secret V F} (h : Free t s) :
    (contract fingerprint calls).Upheld t (fun s' result => Free t s' ∧ Made result s')
      (copySecretWith fingerprint secret : Running V F (Except AppError ClipboardCopy)) s := by
  have hdone : ∀ {result : Except AppError ClipboardCopy} (s : Shared V F),
      Inv fingerprint calls s → Free t s → Made result s →
      (contract fingerprint calls).Upheld t (fun s' result => Free t s' ∧ Made result s')
        (.done result) s := by
    intro result s _ h hmade
    refine upheld_done (fun s => Free t s ∧ Made result s) ?_ ⟨h, hmade⟩ fun _ _ h => h
    exact fun s s' _ _ hrely h => ⟨h.1.rely hrely, made_rely s s' hrely h.2⟩
  unfold copySecretWith
  refine upheld_enter h fun s _ h => upheld_read h fun result s hinv h hopen => ?_
  cases result with
  | error error =>
    refine upheld_leave (A := Made (.error error)) made_rely (fun _ h => h) h ?_ hdone
    exact fun receipt hok => nomatch hok
  | ok value =>
    refine Contract.Upheld.bind hinv (upheld_copy ⟨h.stands, hopen value rfl⟩) ?_
    rintro s result - ⟨h, hmade⟩
    refine upheld_leave made_rely (fun _ h => h) ⟨h.stands, fun hsession => ?_⟩ hmade hdone
    have hunlocked := h.unlocked
    rw [hsession] at hunlocked
    cases hunlocked

/-- A closing that is refused changes nothing. -/
theorem close_refused {discard : Bool} {error : DesktopError}
    (h : (s.close discard).1 = .error error) : (s.close discard).2 = s.service := by
  have hdiscard : ∀ {error : DesktopError}, s.service.discardAndLock.1 = .error error →
      s.service.discardAndLock.2 = s.service := by
    intro error h
    unfold DesktopVaultService.discardAndLock at h ⊢
    split at h
    · cases h
    · next hlocked => rw [if_neg hlocked]
  cases discard with
  | true => exact hdiscard h
  | false =>
    change s.service.lock.1 = .error error at h
    show s.service.lock.2 = s.service
    unfold DesktopVaultService.lock at h ⊢
    split at h
    · rfl
    · split at h
      · next hdirty => rw [if_pos hdirty]
      · next hdirty =>
        rw [if_neg hdirty]
        exact hdiscard h

theorem upheld_end {α : Type} {Q : Shared V F → α → Prop} {rest : Unit → Running V F α}
    (h : Stands t False False True s)
    (hrest : ∀ s, Inv fingerprint calls s → Free t s →
      (contract fingerprint calls).Upheld t Q (rest ()) s) :
    (contract fingerprint calls).Upheld t Q (ask .endVaultOperation >>= rest) s := by
  refine upheld_request (Stands t False False True) (fun _ => Free t)
    (fun _ _ _ _ hrely h => h.rely hrely) h (fun _ _ h => h.operation.2 trivial) ?_
    fun _ s hinv h => hrest s hinv h
  rintro s _ s' - h rfl -
  exact ⟨h.gate, h.clipboard, by simp⟩

theorem upheld_begin {α : Type} {Q : Shared V F → α → Prop} {rest : Bool → Running V F α}
    (h : Free t s)
    (hbegun : ∀ s, Inv fingerprint calls s → Stands t False False True s →
      (contract fingerprint calls).Upheld t Q (rest true) s)
    (hbusy : ∀ s, Inv fingerprint calls s → Free t s →
      (contract fingerprint calls).Upheld t Q (rest false) s) :
    (contract fingerprint calls).Upheld t Q (ask .beginVaultOperation >>= rest) s := by
  refine upheld_request (Free t) (fun begun s => Stands t False False (begun = true) s)
    (fun _ _ _ _ hrely h => h.rely hrely) h (fun _ _ _ => trivial) ?_ ?_
  · rintro s begun s' - h hmoves -
    dsimp only [desktop, desktopMoves] at hmoves
    split at hmoves
    · obtain ⟨rfl, rfl⟩ := hmoves
      exact ⟨h.gate, h.clipboard, by simp⟩
    · obtain ⟨rfl, rfl⟩ := hmoves
      exact ⟨h.gate, h.clipboard, by simpa using h.operation⟩
  · rintro (- | -) s hinv h
    · exact hbusy s hinv ⟨h.gate, h.clipboard, by simpa using h.operation⟩
    · exact hbegun s hinv ⟨h.gate, h.clipboard, by simpa using h.operation⟩

theorem upheld_free {α : Type} {a : α} (h : Free t s) :
    (contract fingerprint calls).Upheld t (fun s' _ => Free t s') (.done a) s :=
  upheld_done (Free t) (fun _ _ _ _ hrely h => h.rely hrely) h fun _ _ h => h

/-- What is known once the vault was closed, or was not. -/
def AfterClose (t : ℕ) (result : Except AppError Unit) (s : Shared V F) : Prop :=
  match result with
  | .error _ => Inside t True s
  | .ok _ => Stands t True False True s

theorem upheld_lockWith {discard : Bool} (hcall : calls t = .lock discard) (h : Free t s) :
    (contract fingerprint calls).Upheld t (fun s' _ => Free t s')
      (lockWith fingerprint discard : Running V F (Except AppError ClipboardClearStatus)) s := by
  unfold lockWith
  refine upheld_begin h (fun s _ h => ?_) fun s _ h => upheld_free h
  refine upheld_enter h fun s _ h => ?_
  refine upheld_request (Inside t True)
    (AfterClose t)
    (fun _ _ _ _ hrely h => h.rely hrely) h (fun _ _ h => ⟨h.stands.gate.2 trivial, hcall⟩) ?_ ?_
  · rintro s result s' - h ⟨hresult, rfl⟩ -
    cases houtcome : (s.close discard).1 with
    | error error =>
      rw [houtcome] at hresult
      subst hresult
      show Inside t True { s with service := (s.close discard).2 }
      rw [close_refused houtcome]
      exact h
    | ok _ =>
      rw [houtcome] at hresult
      subst hresult
      exact h.stands.same rfl rfl
  rintro (error | _) s hinv h
  · exact upheld_leave (A := fun _ => True) (fun _ _ _ h => h) (fun _ h => h) h trivial
      fun s _ h _ => upheld_end h fun s _ h => upheld_free h
  · refine Contract.Upheld.bind hinv (upheld_clearOwned h (.inl trivial)) ?_
    rintro s status - h
    refine upheld_leave (A := fun _ => True) (fun _ _ _ h => h) (fun _ h => h)
      ⟨h.stands, fun _ text generation hholds => ?_⟩ trivial
      fun s _ h _ => upheld_end h fun s _ h => upheld_free h
    obtain ⟨other, hother, -⟩ := h.swept text generation hholds
    cases hother

/-- What a call has done when it returns: it holds nothing, and the timer of a copy has left nothing
of it. -/
def Post (t : ℕ) (s : Shared V F) (returned : Returned) : Prop :=
  Free t s ∧ ∀ receipt status, returned = .copied (.ok receipt) status →
    receipt.generation ≤ s.clipboard.generation ∧ ∀ text, ¬ s.Holds text receipt.generation

theorem upheld_returned {returned : Returned} (h : Post t s returned) :
    (contract fingerprint calls).Upheld t (Post t) (.done returned) s := by
  refine upheld_done (fun s => Post t s returned) ?_ h fun _ _ h => h
  rintro s s' - - hrely ⟨hfree, hcopied⟩
  refine ⟨hfree.rely hrely, fun receipt status heq => ?_⟩
  obtain ⟨hle, hgone⟩ := hcopied receipt status heq
  refine ⟨hle.trans hrely.generation, fun text hholds => ?_⟩
  rcases hrely.fresh text _ hholds with hbefore | hlt
  · exact hgone text hbefore
  · omega

theorem upheld_program (hinv : Inv fingerprint calls s) (h : Free t s) :
    (contract fingerprint calls).Upheld t (Post t) ((calls t).program fingerprint) s := by
  cases hcall : calls t with
  | copy secret =>
    refine Contract.Upheld.bind hinv (upheld_copySecretWith h) ?_
    rintro s (error | receipt) hinv ⟨h, hmade⟩
    · exact upheld_returned ⟨h, fun receipt status heq => nomatch heq⟩
    · have hcovers : Covers False (some receipt.generation) s :=
        .inr ⟨receipt.generation, rfl, hmade receipt rfl⟩
      refine Contract.Upheld.bind hinv (upheld_clearOwned h hcovers) ?_
      rintro s status - h
      refine upheld_returned ⟨h.stands, fun receipt' status' heq => ?_⟩
      cases heq
      refine ⟨?_, fun text hholds => ?_⟩
      · obtain hfalse | ⟨generation, hgeneration, hle⟩ := h.covers
        · exact hfalse.elim
        · cases hgeneration
          exact hle
      · obtain ⟨other, hother, hne⟩ := h.swept text _ hholds
        cases hother
        exact hne rfl
  | lock discard =>
    refine Contract.Upheld.bind hinv (upheld_lockWith hcall h) ?_
    rintro s result - h
    exact upheld_returned ⟨h, fun receipt status heq => nomatch heq⟩
  | credential secret =>
    refine upheld_enter h fun s _ h => upheld_read h fun result s _ h _ => ?_
    exact upheld_leave (A := fun _ => True) (fun _ _ _ h => h) (fun _ h => h) h trivial
      fun s _ h _ => upheld_returned ⟨h, fun receipt status heq => nomatch heq⟩
  | operation =>
    refine upheld_begin h (fun s _ h => ?_) fun s _ h =>
      upheld_returned ⟨h, fun receipt status heq => nomatch heq⟩
    exact upheld_end h fun s _ h => upheld_returned ⟨h, fun receipt status heq => nomatch heq⟩

end Calls

/-! ## Every run -/

section Runs
variable {fingerprint : Bytes → String → Bytes} {calls : ℕ → Call V F} {content : Option String}
variable {pool : Pool ℕ (Ask V F) Reply (Shared V F) Returned}

theorem inv_start : Inv fingerprint calls (start content : Shared V F) where
  leased _ text generation hholds := by
    obtain ⟨value, -, rfl⟩ := Option.map_eq_some_iff.1 hholds.1
    exact absurd hholds.2 Origin.noConfusion
  closed _ text generation hholds := by
    obtain ⟨value, -, rfl⟩ := Option.map_eq_some_iff.1 hholds.1
    exact absurd hholds.2 Origin.noConfusion
  backed _ hlease := nomatch hlease
  proper _ hact := nomatch hact

theorem run_upholds (h : Runs (desktop V F) (calling fingerprint calls content) pool) :
    (contract fingerprint calls).Upholds Post pool := by
  have hinv : Inv fingerprint calls (start content : Shared V F) := inv_start
  have hstart : (contract fingerprint calls).Upholds Post (calling fingerprint calls content) := by
    refine ⟨hinv, fun t => upheld_program hinv ?_⟩
    exact ⟨by simp [calling, start], by simp [calling, start], by simp [calling, start]⟩
  exact Runs.upholds sound hstart h

/-- When the vault is locked, the system's clipboard holds nothing that was copied and not abandoned,
unless a lock command is still at it behind the gate; and texts are handed to the system's clipboard
only while the vault is open. -/
theorem locked_vault_leaves_nothing
    (h : Runs (desktop V F) (calling fingerprint calls content) pool) :
    (pool.shared.service.session = none → ∀ text generation, pool.shared.Holds text generation →
      ∃ t discard, pool.shared.holder .gate = some t ∧ calls t = .lock discard ∧
        ∀ returned, pool.left t ≠ .done returned) ∧
    ∀ generation value unlocked, .wrote generation value unlocked ∈ pool.shared.log →
      unlocked = true := by
  have hall := run_upholds h
  constructor
  · intro hsession text generation hholds
    obtain ⟨t, discard, hgate, hcall⟩ := hall.1.closed hsession text generation hholds
    refine ⟨t, discard, hgate, hcall, fun returned hdone => ?_⟩
    exact (hall.returned hdone).1.gate.1 hgate
  · intro generation value unlocked hwrote
    exact hall.1.proper _ hwrote

/-- Whatever is cleared is the text of the lease, and what a timer clears is its own copy, unless
others wrote after the clipboard was read; once the timer of a copy has returned, nothing is left of
the copy. -/
theorem clears_are_owned (h : Runs (desktop V F) (calling fingerprint calls content) pool) :
    (∀ expected lease content touched,
      .removed expected lease content touched ∈ pool.shared.log →
      (expected = none ∨ expected = some lease.generation) ∧
      (∀ text generation, content = some text → text.origin = .copied generation →
        generation = lease.generation) ∧
      (touched = false → Shows fingerprint lease content) ∧
      ∃ value, .wrote lease.generation value true ∈ pool.shared.log ∧
        lease.digest = fingerprint lease.salt value) ∧
    ∀ t receipt status, pool.left t = .done (.copied (.ok receipt) status) →
      ∀ text, ¬ pool.shared.Holds text receipt.generation := by
  have hall := run_upholds h
  constructor
  · intro expected lease content touched hremoved
    obtain ⟨hexpected, ⟨value, unlocked, hwrote, hdigest⟩, hgeneration, hshows⟩ :=
      hall.1.proper _ hremoved
    have hunlocked : unlocked = true := hall.1.proper _ hwrote
    subst hunlocked
    exact ⟨hexpected, hgeneration, hshows, value, hwrote, hdigest⟩
  · intro t receipt status hdone
    exact ((hall.returned hdone).2 receipt status rfl).2

/-- The gate comes before the clipboard's mutex. -/
def locks (fingerprint : Bytes → String → Bytes) (calls : ℕ → Call V F) :
    Locks Mutex (contract fingerprint calls) where
  holder := Shared.holder
  takes
    | .lock mutex => some mutex
    | _ => none
  rank
    | .gate => 0
    | .clipboard => 1
  ordered := by
    intro t s request mutex hpermits htakes held hheld
    cases request with
    | lock other =>
      cases htakes
      cases mutex with
      | gate =>
        cases held with
        | gate => exact absurd hheld hpermits.1
        | clipboard => exact absurd hheld hpermits.2
      | clipboard =>
        cases held with
        | gate => exact Nat.zero_lt_one
        | clipboard => exact absurd hheld hpermits
    | _ => cases htakes
  moves := by
    intro t s request hinv hpermits hfree
    cases request with
    | lock mutex => exact ⟨(), _, hfree mutex rfl, rfl⟩
    | beginVaultOperation =>
      cases hoperation : s.operation with
      | none =>
        exact ⟨true, { s with operation := some t }, by simp [desktop, desktopMoves, hoperation]⟩
      | some u => exact ⟨false, s, by simp [desktop, desktopMoves, hoperation]⟩
    | endVaultOperation => exact ⟨(), _, rfl⟩
    | unlock mutex => exact ⟨(), _, rfl⟩
    | read secret => exact ⟨_, _, rfl, rfl⟩
    | close discard => exact ⟨_, _, rfl, rfl⟩
    | getrandom => exact ⟨none, _, rfl⟩
    | load => exact ⟨_, _, rfl, rfl⟩
    | store state => exact ⟨(), _, rfl⟩
    | writeText value => exact ⟨true, _, rfl⟩
    | readText => exact ⟨none, _, rfl⟩
    | clear expected => exact ⟨false, _, .inr rfl⟩

/-- While a call has not returned, some call can take a step. -/
theorem calls_progress (h : Runs (desktop V F) (calling fingerprint calls content) pool) {t : ℕ}
    (hleft : ∀ returned, pool.left t ≠ .done returned) : ∃ u, Moves (desktop V F) pool u := by
  have hbound : ∀ mutex, (locks fingerprint calls).rank mutex ≤ 1 := by
    rintro (- | -)
    · exact Nat.zero_le 1
    · exact le_rfl
  refine (locks fingerprint calls).unblocked (run_upholds h) hbound ?_ hleft
  rintro u s returned - ⟨hfree, -⟩ (- | -)
  · exact hfree.gate.1
  · exact hfree.clipboard.1

end Runs

/-! ## Playing a run -/

/-- What a thread is answered when no call of the system fails. -/
def respond (t : ℕ) (s : Shared V F) : (request : Ask V F) → Option (Reply request × Shared V F)
  | .beginVaultOperation =>
    some (match s.operation with
      | none => (true, { s with operation := some t })
      | some _ => (false, s))
  | .endVaultOperation => some ((), { s with operation := none })
  | .lock mutex => if s.holder mutex = none then some ((), s.hold mutex (some t)) else none
  | .unlock mutex => some ((), s.hold mutex none)
  | .read secret => some (s.read secret, s)
  | .close discard =>
    some ((s.close discard).1.mapError .service, { s with service := (s.close discard).2 })
  | .getrandom => some (some [], s)
  | .load => some (s.clipboard, s)
  | .store state => some ((), { s with clipboard := state })
  | .writeText value =>
    let s := s.note (.wrote (s.clipboard.generation + 1) value s.service.session.isSome)
    some (true, { s with content := some ⟨value, .copied (s.clipboard.generation + 1)⟩ })
  | .readText => some (some (s.content.map Text.value), { s with touched := false })
  | .clear expected =>
    match s.clipboard.lease with
    | none => some (true, { s with content := none })
    | some lease =>
      some (true, { s.note (.removed expected lease s.content s.touched) with content := none })

theorem respond_moves {t : ℕ} {s s' : Shared V F} {request : Ask V F} {reply : Reply request}
    (h : respond t s request = some (reply, s')) : desktopMoves t s request reply s' := by
  cases request with
  | beginVaultOperation =>
    dsimp only [desktopMoves]
    cases hoperation : s.operation with
    | none =>
      simp only [respond, hoperation, Option.some.injEq, Prod.mk.injEq] at h
      exact ⟨h.1.symm, h.2.symm⟩
    | some u =>
      simp only [respond, hoperation, Option.some.injEq, Prod.mk.injEq] at h
      exact ⟨h.1.symm, h.2.symm⟩
  | lock mutex =>
    simp only [respond] at h
    split at h
    · next hfree =>
      cases h
      exact ⟨hfree, rfl⟩
    · cases h
  | clear expected =>
    dsimp only [desktopMoves]
    cases hlease : s.clipboard.lease with
    | none =>
      simp only [respond, hlease] at h
      cases h
      rfl
    | some lease =>
      simp only [respond, hlease] at h
      cases h
      rfl
  | readText =>
    cases h
    exact ⟨rfl, rfl⟩
  | read secret =>
    cases h
    exact ⟨rfl, rfl⟩
  | close discard =>
    cases h
    exact ⟨rfl, rfl⟩
  | load =>
    cases h
    exact ⟨rfl, rfl⟩
  | _ =>
    cases h
    rfl

abbrev Calls (V F : Type) := Pool ℕ (Ask V F) Reply (Shared V F) Returned

inductive Turn (V F : Type) where
  | own (t : ℕ)
  | write (content : Option String)
  | unlocked (session : VaultSession V F)

def Turn.play (pool : Calls V F) : Turn V F → Option (Calls V F)
  | .own t =>
    match pool.left t with
    | .done _ => none
    | .ask request k => (respond t pool.shared request).map fun answer =>
      ⟨answer.2, Function.update pool.left t (k answer.1)⟩
  | .write content => some { pool with shared := { pool.shared with
      content := content.map fun value => ⟨value, .outside⟩, touched := true } }
  | .unlocked session => some { pool with shared := { pool.shared with
      service := { pool.shared.service with session := some session } } }

def play (pool : Calls V F) : List (Turn V F) → Option (Calls V F)
  | [] => some pool
  | turn :: turns => (turn.play pool).bind fun pool => play pool turns

theorem Turn.step {pool pool' : Calls V F} {turn : Turn V F} (h : turn.play pool = some pool') :
    Step (desktop V F) pool pool' := by
  cases turn with
  | own t =>
    simp only [Turn.play] at h
    split at h
    · cases h
    · next request k hnext =>
      obtain ⟨⟨reply, s'⟩, hanswer, rfl⟩ := Option.map_eq_some_iff.1 h
      exact .own pool t request k reply s' hnext (respond_moves hanswer)
  | write content =>
    cases h
    exact .outside pool _ (.write content)
  | unlocked session =>
    cases h
    exact .outside pool _ (.service _ fun _ => rfl)

theorem runs_play {pool pool' : Calls V F} {turns : List (Turn V F)}
    (h : play pool turns = some pool') : Runs (desktop V F) pool pool' := by
  induction turns generalizing pool with
  | nil =>
    cases h
    exact .refl
  | cons turn turns ih =>
    obtain ⟨middle, hturn, hrest⟩ := Option.bind_eq_some_iff.1 h
    exact .head (Turn.step hturn) (ih hrest)

def sampleSession : VaultSession Unit Bytes := ⟨sampleDocument, [1], 0⟩

/-- A text is its own fingerprint. -/
def plainFingerprint (salt : Bytes) (value : String) : Bytes :=
  salt ++ value.toList.map fun c => c.val.toUInt8

/-- One entry, whose field is `"Pw2!"`. -/
def sampleEntries : Entries Unit Bytes := ⟨fun _ id => some (id == "a"), fun _ _ => .ok (some "Pw2!")⟩

/-- Thread 0 copies a generated password, thread 1 locks. -/
def sampleCalls : ℕ → Call Unit Bytes
  | 0 => .copyGenerated (fun _ => true) "Pw1!"
  | 1 => .lock false
  | 2 => .copyEntry sampleEntries "a"
  | _ => .operation

/-- The vault is unlocked and the password copied; while the lock waits for the gate, the copy
returns; the lock takes the session. -/
def lockingTurns : List (Turn Unit Bytes) :=
  [.unlocked sampleSession] ++ List.replicate 5 (.own 0) ++ [.own 1] ++ List.replicate 4 (.own 0) ++
    List.replicate 2 (.own 1)

/-- And clears the clipboard; the timer comes late. -/
def sampleTurns : List (Turn Unit Bytes) :=
  lockingTurns ++ List.replicate 8 (.own 1) ++ List.replicate 3 (.own 0)

/-- What there was on the clipboard before is of no consequence. -/
def sampleStart : Calls Unit Bytes := calling plainFingerprint sampleCalls (some "x")

theorem locked_vault_leaves_nothing_locking :
    ∃ pool, Runs (desktop Unit Bytes) sampleStart pool ∧
      pool.shared.service.session = none ∧ pool.shared.content = some ⟨"Pw1!", .copied 1⟩ ∧
      ∃ t discard, pool.shared.holder .gate = some t ∧ sampleCalls t = .lock discard := by
  have hplay : (play sampleStart lockingTurns).any (fun pool =>
      pool.shared.service.session = none ∧
        pool.shared.content = some ⟨"Pw1!", .copied 1⟩) = true := by
    decide
  obtain ⟨pool, hpool, hcheck⟩ := (Option.any_eq_true _ _).mp hplay
  obtain ⟨hsession, hcontent⟩ := of_decide_eq_true hcheck
  have hruns := runs_play hpool
  obtain ⟨t, discard, hgate, hcall, -⟩ :=
    (locked_vault_leaves_nothing hruns).1 hsession _ 1 ⟨hcontent, rfl⟩
  exact ⟨pool, hruns, hsession, hcontent, t, discard, hgate, hcall⟩

theorem clears_are_owned_locked :
    ∃ pool, Runs (desktop Unit Bytes) sampleStart pool ∧
      ∃ lease text, .removed none lease (some text) false ∈ pool.shared.log ∧
        plainFingerprint lease.salt text.value = lease.digest := by
  have hplay : (play sampleStart sampleTurns).any (fun pool =>
      .removed none ⟨1, [], plainFingerprint [] "Pw1!"⟩ (some ⟨"Pw1!", .copied 1⟩) false ∈
        pool.shared.log) = true := by
    decide
  obtain ⟨pool, hpool, hcheck⟩ := (Option.any_eq_true _ _).mp hplay
  have hremoved := of_decide_eq_true hcheck
  have hruns := runs_play hpool
  obtain ⟨-, -, hshows, -⟩ := (clears_are_owned hruns).1 _ _ _ _ hremoved
  obtain ⟨text, htext, hdigest⟩ := hshows rfl
  rw [htext] at hremoved
  exact ⟨pool, hruns, _, text, hremoved, hdigest⟩

theorem calls_progress_waiting :
    ∃ pool, Runs (desktop Unit Bytes) sampleStart pool ∧ pool.shared.holder .gate = some 1 ∧
      ∃ u, Moves (desktop Unit Bytes) pool u := by
  have hplay : (play sampleStart lockingTurns).any (fun pool =>
      pool.shared.holder .gate = some 1 ∧
        (match pool.left 0 with | .done _ => false | .ask _ _ => true) = true) = true := by
    decide
  obtain ⟨pool, hpool, hcheck⟩ := (Option.any_eq_true _ _).mp hplay
  obtain ⟨hgate, hwaiting⟩ := of_decide_eq_true hcheck
  have hruns := runs_play hpool
  refine ⟨pool, hruns, hgate, calls_progress hruns (t := 0) fun returned hdone => ?_⟩
  rw [hdone] at hwaiting
  cases hwaiting

end NianPass.Desktop.Clipboard
