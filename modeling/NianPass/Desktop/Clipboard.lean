import NianPass.Desktop.Credentials
import NianPass.Lib.Threads

/-
  Copying secrets and locking the vault (`clipboard.rs`, `AppState` in `state.rs`,
  `state/generated_clipboard.rs`, `command_support.rs`).

  Each command runs as a thread of its own, and so does the timer of a copy, which starts when
  the copy has returned. They share the vault service, the gate for operations on secrets,
  the flag for vault operations and the clipboard's state behind its mutex.

  What a command does between taking and releasing the service's mutex is one step. Nothing is lost
  by that: the service is reached behind this mutex only, and whoever holds it asks for no other
  mutex, touches neither the flag nor the clipboard, and lets it go when its block ends. So what the
  others do meanwhile could as well have come before it or after it, and nobody waits for this mutex
  for ever.

  The system's clipboard belongs to everybody: other programs write it at any time, and any call
  of it can fail, a failed write with or without its effect. What the service gave up because
  of a failed call is marked `abandoned`. The marks on the text, `touched` and the log are
  remembered for the statements only.

  `contract` says what the threads promise each other, and `sound` that their steps keep it.

  The generation of a lease is a 64-bit integer.
-/
namespace NianPass.Desktop.Clipboard

open Session Kdbx Threads

variable {V F : Type}

/-- The errors of `DesktopError` that these calls return; those of the service are its own. -/
inductive AppError where
  | service (error : DesktopError)
  | entryNotFound
  | secretUnavailable
  | operationInProgress
  | clipboardFailed
  deriving DecidableEq, Repr

inductive ClipboardClearStatus where
  | cleared
  | notOwned
  | clearFailed
  deriving DecidableEq, Repr

structure ClipboardCopy where
  generation : ℕ
  expiresInMs : ℕ
  deriving DecidableEq, Repr

inductive ClipboardFailure where
  | unavailable
  | internal
  deriving DecidableEq, Repr

structure ClipboardLease where
  generation : ℕ
  salt : Bytes
  digest : Bytes
  deriving DecidableEq, Repr

structure ClipboardState where
  generation : ℕ := 0
  lease : Option ClipboardLease := none
  deriving DecidableEq, Repr

def CLIPBOARD_CLEAR_MS : ℕ := 30000

/-- `checked_add`. -/
def checkedAdd (generation : ℕ) : Option ℕ :=
  if generation + 1 < 2 ^ 64 then some (generation + 1) else none

def mapClipboardError (_ : ClipboardFailure) : AppError := .clipboardFailed

/-! ## What is copied -/

/-- What a command reads from an open session. -/
abbrev Secret (V F : Type) := VaultSession V F → Except AppError String

/-- What a session knows of its entries: the projection, which can fail, and the fields. -/
structure Entries (V F : Type) where
  finds : VaultSession V F → String → Option Bool
  field : VaultSession V F → String → Except AppError (Option String)

/-- `require_entry`, and then the field. -/
def Entries.secret (entries : Entries V F) (entryId : String) : Secret V F := fun session =>
  match entries.finds session entryId with
  | none => .error (.service .internal)
  | some false => .error .entryNotFound
  | some true =>
    match entries.field session entryId with
    | .error error => .error error
    | .ok none => .error .secretUnavailable
    | .ok (some value) => .ok value

/-- `copy_generated_password`: the snapshot can be made, and the text is printable ASCII of at most
256 bytes. -/
def generatedSecret (snapshot : VaultSession V F → Bool) (password : String) : Secret V F :=
  fun session =>
    if snapshot session = false then .error (.service .internal)
    else if password.isEmpty || 256 < password.utf8ByteSize ||
        !password.toList.all fun c => ' ' ≤ c && c ≤ '~' then .error (.service .invalidRequest)
    else .ok password

/-! ## What the threads share -/

inductive Mutex where
  /-- `secret_operation_gate` -/
  | gate
  /-- the mutex of `DesktopClipboardService` -/
  | clipboard
  deriving DecidableEq, Repr

/-- Who put a text on the system's clipboard. -/
inductive Origin where
  | outside
  | copied (generation : ℕ)
  | abandoned
  deriving DecidableEq, Repr

structure Text where
  value : String
  origin : Origin
  deriving DecidableEq, Repr

/-- A failed call gives up what was copied. -/
def Text.abandon (text : Text) : Text :=
  match text.origin with
  | .copied _ => { text with origin := .abandoned }
  | _ => text

inductive Act where
  /-- a text is handed to the system's clipboard, while the vault is open or not -/
  | wrote (generation : ℕ) (value : String) (unlocked : Bool)
  /-- the system's clipboard is cleared, for a timer or not, under a lease; it may have been written
  by others since it was read -/
  | removed (expected : Option ℕ) (lease : ClipboardLease) (content : Option Text) (touched : Bool)
  deriving DecidableEq

/-- `AppState`, and the system's clipboard. -/
structure Shared (V F : Type) where
  service : DesktopVaultService V F
  /-- `vault_operation_active`, and by whom it was set -/
  operation : Option ℕ := none
  holder : Mutex → Option ℕ := fun _ => none
  clipboard : ClipboardState := {}
  content : Option Text := none
  touched : Bool := true
  log : List Act := []

/-- The text that a copy put on the system's clipboard is still there. -/
def Shared.Holds (s : Shared V F) (text : Text) (generation : ℕ) : Prop :=
  s.content = some text ∧ text.origin = .copied generation

namespace Shared
variable (s : Shared V F)

def hold (mutex : Mutex) (holder : Option ℕ) : Shared V F :=
  { s with holder := Function.update s.holder mutex holder }

def note (act : Act) : Shared V F := { s with log := s.log ++ [act] }

def abandon : Shared V F := { s with content := s.content.map Text.abandon }

/-- `self.session.as_ref().ok_or(Locked)?`, and then the secret. -/
def read (secret : Secret V F) : Except AppError String :=
  match s.service.session with
  | none => .error (.service .locked)
  | some session => secret session

/-- `DesktopVaultService::lock` and `discard_and_lock`. -/
def close (discard : Bool) : DesktopVaultService.Outcome V F :=
  if discard then s.service.discardAndLock else s.service.lock

end Shared

/-! ## The calls -/

inductive Ask (V F : Type) where
  | beginVaultOperation
  | endVaultOperation
  | lock (mutex : Mutex)
  | unlock (mutex : Mutex)
  | read (secret : Secret V F)
  | close (discard : Bool)
  | getrandom
  | load
  | store (state : ClipboardState)
  | writeText (value : String)
  | readText
  /-- for whom it is cleared is noted only -/
  | clear (expected : Option ℕ)

abbrev Reply : Ask V F → Type
  | .beginVaultOperation => Bool
  | .read _ => Except AppError String
  | .close _ => Except AppError Unit
  | .getrandom => Option Bytes
  | .load => ClipboardState
  | .writeText _ => Bool
  | .readText => Option (Option String)
  | .clear _ => Bool
  | _ => Unit

abbrev Running (V F α : Type) := Program (Ask V F) Reply α

/-- Make one request. -/
def ask (request : Ask V F) : Running V F (Reply request) := Program.request request

section Calls
variable (fingerprint : Bytes → String → Bytes)

/-- `DesktopClipboardService::copy` behind the mutex. -/
def install (value : String) (salt digest : Bytes) :
    Running V F (Except ClipboardFailure ClipboardCopy) := do
  let state ← ask .load
  match checkedAdd state.generation with
  | none => pure (.error .internal)
  | some generation =>
    if (← ask (.writeText value)) then
      ask (.store ⟨generation, some ⟨generation, salt, digest⟩⟩)
      pure (.ok ⟨generation, CLIPBOARD_CLEAR_MS⟩)
    else pure (.error .unavailable)

/-- `DesktopClipboardService::copy`. -/
def copy (value : String) : Running V F (Except ClipboardFailure ClipboardCopy) := do
  match ← ask .getrandom with
  | none => pure (.error .internal)
  | some salt =>
    ask (.lock .clipboard)
    let result ← install value salt (fingerprint salt value)
    ask (.unlock .clipboard)
    pure result

/-- `clear_owned` behind the mutex. -/
def release (expected : Option ℕ) : Running V F ClipboardClearStatus := do
  let state ← ask .load
  match state.lease with
  | none => pure .notOwned
  | some lease =>
    if expected.isSome ∧ expected ≠ some lease.generation then pure .notOwned
    else
      match ← ask .readText with
      | none =>
        ask (.store { state with lease := none })
        pure .clearFailed
      | some current =>
        if current.map (fingerprint lease.salt) = some lease.digest then
          if (← ask (.clear expected)) then
            ask (.store { state with lease := none })
            pure .cleared
          else
            ask (.store { state with lease := none })
            pure .clearFailed
        else
          ask (.store { state with lease := none })
          pure .notOwned

def clearOwned (expected : Option ℕ) : Running V F ClipboardClearStatus := do
  ask (.lock .clipboard)
  let status ← release fingerprint expected
  ask (.unlock .clipboard)
  pure status

def expireGeneration (generation : ℕ) : Running V F ClipboardClearStatus :=
  clearOwned fingerprint (some generation)

def clearIfOwned : Running V F ClipboardClearStatus := clearOwned fingerprint none

def copySecretWith (secret : Secret V F) : Running V F (Except AppError ClipboardCopy) := do
  ask (.lock .gate)
  match ← ask (.read secret) with
  | .error error =>
    ask (.unlock .gate)
    pure (.error error)
  | .ok value =>
    let result ← copy fingerprint value
    ask (.unlock .gate)
    pure (result.mapError mapClipboardError)

def lockWith (discard : Bool) : Running V F (Except AppError ClipboardClearStatus) := do
  if (← ask .beginVaultOperation) then
    ask (.lock .gate)
    match ← ask (.close discard) with
    | .error error =>
      ask (.unlock .gate)
      ask .endVaultOperation
      pure (.error error)
    | .ok _ =>
      let status ← clearIfOwned fingerprint
      ask (.unlock .gate)
      ask .endVaultOperation
      pure (.ok status)
  else pure (.error .operationInProgress)

/-- A command. -/
inductive Call (V F : Type) where
  /-- the copy of a secret, and then its timer (`schedule_expiration`) -/
  | copy (secret : Secret V F)
  | lock (discard : Bool)
  /-- `browser_credential` -/
  | credential (secret : Secret V F)
  /-- any other command that takes the lease for vault operations -/
  | operation

/-- `copy_entry_password` and the others of its kind. -/
def Call.copyEntry (entries : Entries V F) (entryId : String) : Call V F :=
  .copy (entries.secret entryId)

def Call.copyGenerated (snapshot : VaultSession V F → Bool) (password : String) : Call V F :=
  .copy (generatedSecret snapshot password)

inductive Returned where
  | copied (result : Except AppError ClipboardCopy) (expired : Option ClipboardClearStatus)
  | locked (result : Except AppError ClipboardClearStatus)
  | credential (result : Except AppError String)
  | operation

def Call.program : Call V F → Running V F Returned
  | .copy secret => do
    match ← copySecretWith fingerprint secret with
    | .error error => pure (.copied (.error error) none)
    | .ok receipt =>
      let status ← expireGeneration fingerprint receipt.generation
      pure (.copied (.ok receipt) (some status))
  | .lock discard => do
    let result ← lockWith fingerprint discard
    pure (.locked result)
  | .credential secret => do
    ask (.lock .gate)
    let result ← ask (.read secret)
    ask (.unlock .gate)
    pure (.credential result)
  | .operation => do
    if (← ask .beginVaultOperation) then
      ask .endVaultOperation
      pure .operation
    else pure .operation

end Calls

/-! ## Their steps -/

/-- What a request of thread `t` does. -/
def desktopMoves (t : ℕ) (s : Shared V F) :
    (request : Ask V F) → Reply request → Shared V F → Prop
  | .beginVaultOperation, begun, s' =>
    match s.operation with
    | none => begun = true ∧ s' = { s with operation := some t }
    | some _ => begun = false ∧ s' = s
  | .endVaultOperation, _, s' => s' = { s with operation := none }
  | .lock mutex, _, s' => s.holder mutex = none ∧ s' = s.hold mutex (some t)
  | .unlock mutex, _, s' => s' = s.hold mutex none
  | .read secret, result, s' => result = s.read secret ∧ s' = s
  | .close discard, result, s' =>
    result = (s.close discard).1.mapError .service ∧ s' = { s with service := (s.close discard).2 }
  | .getrandom, _, s' => s' = s
  | .load, state, s' => state = s.clipboard ∧ s' = s
  | .store state, _, s' => s' = { s with clipboard := state }
  | .writeText value, written, s' =>
    let s := s.note (.wrote (s.clipboard.generation + 1) value s.service.session.isSome)
    match written with
    | true => s' = { s with content := some ⟨value, .copied (s.clipboard.generation + 1)⟩ }
    | false => s' = s ∨ s' = { s with content := some ⟨value, .abandoned⟩ }
  | .readText, result, s' =>
    match result with
    | some current => current = s.content.map Text.value ∧ s' = { s with touched := false }
    | none => s' = s.abandon
  | .clear expected, cleared, s' =>
    match cleared, s.clipboard.lease with
    | true, some lease =>
      s' = { s.note (.removed expected lease s.content s.touched) with content := none }
    | true, none => s' = { s with content := none }
    | false, _ => s' = s.abandon ∨ s' = { s with content := none }

/-- What happens outside: other programs write the clipboard, and other commands change the service
without closing its session. -/
inductive Elsewhere (s : Shared V F) : Shared V F → Prop
  | write (content : Option String) :
    Elsewhere s { s with content := content.map fun value => ⟨value, .outside⟩, touched := true }
  | service (service : DesktopVaultService V F)
      (opens : s.service.session.isSome = true → service.session.isSome = true) :
    Elsewhere s { s with service }

def desktop (V F : Type) : System ℕ (Ask V F) Reply (Shared V F) where
  step := desktopMoves
  outside := Elsewhere

/-- The app has started; something is on the system's clipboard. -/
def start (content : Option String) : Shared V F where
  service := .new
  content := content.map fun value => ⟨value, .outside⟩

/-- Any number of calls, each in a thread. -/
def calling (fingerprint : Bytes → String → Bytes) (calls : ℕ → Call V F)
    (content : Option String) : Pool ℕ (Ask V F) Reply (Shared V F) Returned where
  shared := start content
  left t := (calls t).program fingerprint

/-! ## What the threads promise each other -/

section Contract
variable (fingerprint : Bytes → String → Bytes) (calls : ℕ → Call V F)

/-- What was copied and is still there is the text of the lease. -/
def Leased (s : Shared V F) : Prop :=
  ∀ text generation, s.Holds text generation → ∃ lease, s.clipboard.lease = some lease ∧
    lease.generation = generation ∧ lease.digest = fingerprint lease.salt text.value

/-- A locked vault has left nothing. -/
def Closed (s : Shared V F) : Prop :=
  s.service.session = none → ∀ text generation, ¬ s.Holds text generation

/-- The lease stands for a text that was handed to the system's clipboard. -/
def Backed (log : List Act) (lease : ClipboardLease) : Prop :=
  ∃ value unlocked, Act.wrote lease.generation value unlocked ∈ log ∧
    lease.digest = fingerprint lease.salt value

/-- The system's clipboard shows the text of the lease. -/
def Shows (lease : ClipboardLease) (content : Option Text) : Prop :=
  ∃ text, content = some text ∧ fingerprint lease.salt text.value = lease.digest

def Proper (log : List Act) : Act → Prop
  | .wrote _ _ unlocked => unlocked = true
  | .removed expected lease content touched =>
    (expected = none ∨ expected = some lease.generation) ∧ Backed fingerprint log lease ∧
      (∀ text generation, content = some text → text.origin = .copied generation →
        generation = lease.generation) ∧
      (touched = false → Shows fingerprint lease content)

structure Inv (s : Shared V F) : Prop where
  leased : s.holder .clipboard = none → Leased fingerprint s
  closed : s.service.session = none → ∀ text generation, s.Holds text generation →
    ∃ t discard, s.holder .gate = some t ∧ calls t = .lock discard
  backed : ∀ lease, s.clipboard.lease = some lease → Backed fingerprint s.log lease
  proper : ∀ act ∈ s.log, Proper fingerprint s.log act

/-- What thread `t` relies on: what it holds stays its own; behind the gate nobody closes the
session, and behind either lock nobody copies. -/
structure Rely (t : ℕ) (s s' : Shared V F) : Prop where
  holder : ∀ mutex, s'.holder mutex = some t ↔ s.holder mutex = some t
  operation : s'.operation = some t ↔ s.operation = some t
  session : s.holder .gate = some t → s'.service.session = none → s.service.session = none
  content : s.holder .gate = some t ∨ s.holder .clipboard = some t →
    ∀ text generation, s'.Holds text generation → s.Holds text generation
  clipboard : s.holder .clipboard = some t → s'.clipboard = s.clipboard
  touched : s.holder .clipboard = some t → s'.touched = false →
    s'.content = s.content ∧ s.touched = false
  fresh : ∀ text generation, s'.Holds text generation →
    s.Holds text generation ∨ s.clipboard.generation < generation
  generation : s.clipboard.generation ≤ s'.clipboard.generation
  log : ∀ act ∈ s.log, act ∈ s'.log

/-- Where thread `t` may make a request. -/
def Permits (t : ℕ) (s : Shared V F) : Ask V F → Prop
  | .endVaultOperation => s.operation = some t
  | .lock .gate => s.holder .gate ≠ some t ∧ s.holder .clipboard ≠ some t
  | .lock .clipboard => s.holder .clipboard ≠ some t
  | .unlock .gate => s.holder .gate = some t ∧ Closed s
  | .unlock .clipboard => s.holder .clipboard = some t ∧ Leased fingerprint s
  | .close discard => s.holder .gate = some t ∧ calls t = .lock discard
  | .load => s.holder .clipboard = some t
  | .store state => s.holder .clipboard = some t ∧
    s.clipboard.generation ≤ state.generation ∧
      ∀ lease, state.lease = some lease → Backed fingerprint s.log lease
  | .writeText _ => s.holder .gate = some t ∧ s.holder .clipboard = some t ∧
    s.service.session.isSome = true
  | .readText => s.holder .clipboard = some t
  | .clear expected => s.holder .clipboard = some t ∧ Leased fingerprint s ∧
    ∃ lease, s.clipboard.lease = some lease ∧
      (expected = none ∨ expected = some lease.generation) ∧
      (s.touched = false → Shows fingerprint lease s.content)
  | _ => True

def contract : Threads.Contract (desktop V F) where
  inv := Inv fingerprint calls
  rely := Rely
  permits := Permits fingerprint calls

end Contract

section Sound
variable {fingerprint : Bytes → String → Bytes} {calls : ℕ → Call V F}
variable {s s' : Shared V F} {t u : ℕ} {text : Text} {generation : ℕ}

theorem Rely.refl (t : ℕ) (s : Shared V F) : Rely t s s where
  holder _ := Iff.rfl
  operation := Iff.rfl
  session _ h := h
  content _ _ _ h := h
  clipboard _ := rfl
  touched _ h := ⟨rfl, h⟩
  fresh _ _ h := .inl h
  generation := le_rfl
  log _ h := h

@[simp] theorem Text.abandon_origin : text.abandon.origin ≠ .copied generation := by
  unfold Text.abandon
  split
  · exact Origin.noConfusion
  · next h => exact h generation

@[simp] theorem not_holds_abandon : ¬ s.abandon.Holds text generation := by
  rintro ⟨hcontent, horigin⟩
  obtain ⟨before, -, rfl⟩ := Option.map_eq_some_iff.1 hcontent
  exact Text.abandon_origin horigin

theorem hold_holder_ne (mutex : Mutex) {other : Mutex} (h : other ≠ mutex) (holder : Option ℕ) :
    (s.hold mutex holder).holder other = s.holder other :=
  Function.update_of_ne h ..

@[simp] theorem hold_holder (mutex : Mutex) (holder : Option ℕ) :
    (s.hold mutex holder).holder mutex = holder :=
  Function.update_self ..

/-- A lock goes from one thread to nobody, or from nobody to a thread. -/
theorem Rely.hold (mutex : Mutex) (holder : Option ℕ) (hbefore : s.holder mutex ≠ some u)
    (hafter : holder ≠ some u) : Rely u s (s.hold mutex holder) := by
  refine { Rely.refl u s with holder := fun other => ?_ }
  by_cases h : other = mutex
  · subst h
    rw [hold_holder]
    exact ⟨fun heq => absurd heq hafter, fun heq => absurd heq hbefore⟩
  · rw [hold_holder_ne mutex h]

/-- What only the holder of the clipboard's mutex does. -/
theorem Rely.behind (hne : u ≠ t) (hclipboard : s.holder .clipboard = some t)
    (hholder : s'.holder = s.holder) (hoperation : s'.operation = s.operation)
    (hservice : s'.service = s.service)
    (hcontent : ∀ text generation, s'.Holds text generation → s.Holds text generation ∨
      s.holder .gate = some t ∧ s.clipboard.generation < generation)
    (hgeneration : s.clipboard.generation ≤ s'.clipboard.generation)
    (hlog : ∀ act ∈ s.log, act ∈ s'.log) : Rely u s s' where
  holder mutex := by rw [hholder]
  operation := by rw [hoperation]
  session _ h := by rw [← hservice, h]
  content h text generation hholds := by
    rcases hcontent text generation hholds with hbefore | ⟨hgate, -⟩
    · exact hbefore
    · rcases h with h | h
      · rw [hgate] at h
        exact absurd (Option.some.inj h).symm hne
      · rw [hclipboard] at h
        exact absurd (Option.some.inj h).symm hne
  clipboard h := by
    rw [hclipboard] at h
    exact absurd (Option.some.inj h).symm hne
  touched h := by
    rw [hclipboard] at h
    exact absurd (Option.some.inj h).symm hne
  fresh text generation hholds := by
    rcases hcontent text generation hholds with hbefore | ⟨-, hlt⟩
    · exact .inl hbefore
    · exact .inr hlt
  generation := hgeneration
  log := hlog

theorem mem_note {act : Act} (other : Act) (h : act ∈ s.log) : act ∈ (s.note other).log :=
  List.mem_append_left _ h

theorem own_rely {request : Ask V F} {reply : Reply request}
    (hpermits : Permits fingerprint calls t s request)
    (hmoves : desktopMoves t s request reply s') (hne : u ≠ t) : Rely u s s' := by
  have hsome : ∀ {holder : Option ℕ}, holder = some t → holder ≠ some u := by
    rintro _ rfl h
    exact hne (Option.some.inj h).symm
  cases request with
  | beginVaultOperation =>
    dsimp only [desktopMoves] at hmoves
    split at hmoves
    · next hfree =>
      obtain ⟨-, rfl⟩ := hmoves
      refine { Rely.refl u s with operation := ⟨fun h => absurd h (hsome rfl), fun h => ?_⟩ }
      rw [hfree] at h
      cases h
    · obtain ⟨-, rfl⟩ := hmoves
      exact .refl ..
  | endVaultOperation =>
    subst hmoves
    exact { Rely.refl u s with
      operation := ⟨(fun h => nomatch h), fun h => absurd h (hsome hpermits)⟩ }
  | lock mutex =>
    obtain ⟨hfree, rfl⟩ := hmoves
    refine .hold mutex _ ?_ (hsome rfl)
    rw [hfree]
    exact fun h => nomatch h
  | unlock mutex =>
    subst hmoves
    refine .hold mutex _ ?_ fun h => nomatch h
    cases mutex with
    | gate => exact hsome hpermits.1
    | clipboard => exact hsome hpermits.1
  | read secret =>
    obtain ⟨-, rfl⟩ := hmoves
    exact .refl ..
  | close discard =>
    obtain ⟨-, rfl⟩ := hmoves
    exact { Rely.refl u s with session := fun h => absurd h (hsome hpermits.1) }
  | getrandom =>
    subst hmoves
    exact .refl ..
  | load =>
    obtain ⟨-, rfl⟩ := hmoves
    exact .refl ..
  | store state =>
    subst hmoves
    exact .behind hne hpermits.1 rfl rfl rfl (fun _ _ h => .inl h) hpermits.2.1 fun _ h => h
  | writeText value =>
    obtain ⟨hgate, hclipboard, -⟩ := hpermits
    cases reply with
    | true =>
      subst hmoves
      refine .behind hne hclipboard rfl rfl rfl ?_ le_rfl fun _ h => mem_note _ h
      rintro text generation ⟨hcontent, horigin⟩
      cases hcontent
      cases horigin
      exact .inr ⟨hgate, Nat.lt_succ_self _⟩
    | false =>
      rcases hmoves with rfl | rfl
      · refine .behind hne hclipboard rfl rfl rfl ?_ le_rfl fun _ h => mem_note _ h
        exact fun _ _ h => .inl h
      · refine .behind hne hclipboard rfl rfl rfl ?_ le_rfl fun _ h => mem_note _ h
        rintro text generation ⟨hcontent, horigin⟩
        cases hcontent
        cases horigin
  | readText =>
    cases reply with
    | some current =>
      obtain ⟨-, rfl⟩ := hmoves
      exact .behind hne hpermits rfl rfl rfl (fun _ _ h => .inl h) le_rfl fun _ h => h
    | none =>
      subst hmoves
      exact .behind hne hpermits rfl rfl rfl (fun _ _ h => absurd h not_holds_abandon) le_rfl
        fun _ h => h
  | clear expected =>
    obtain ⟨hclipboard, -, lease, hlease, -⟩ := hpermits
    cases reply with
    | true =>
      dsimp only [desktopMoves] at hmoves
      rw [hlease] at hmoves
      subst hmoves
      exact .behind hne hclipboard rfl rfl rfl (fun _ _ h => nomatch h.1) le_rfl
        fun _ h => mem_note _ h
    | false =>
      rcases hmoves with rfl | rfl
      · exact .behind hne hclipboard rfl rfl rfl (fun _ _ h => absurd h not_holds_abandon) le_rfl
          fun _ h => h
      · exact .behind hne hclipboard rfl rfl rfl (fun _ _ h => nomatch h.1) le_rfl fun _ h => h

theorem outside_rely (hmoves : Elsewhere s s') (t : ℕ) : Rely t s s' := by
  have hwritten : ∀ {content : Option String} {text generation},
      content.map (fun value => (⟨value, .outside⟩ : Text)) = some text →
      text.origin ≠ .copied generation := by
    intro content text generation hcontent horigin
    obtain ⟨value, -, rfl⟩ := Option.map_eq_some_iff.1 hcontent
    cases horigin
  cases hmoves with
  | write content =>
    exact { Rely.refl t s with
      content := fun _ _ _ h => absurd h.2 (hwritten h.1)
      touched := fun _ h => nomatch h
      fresh := fun _ _ h => absurd h.2 (hwritten h.1) }
  | service service hopens =>
    refine { Rely.refl t s with session := fun _ hnone => ?_ }
    cases hsession : s.service.session with
    | none => rfl
    | some session =>
      have hopen := hopens (by rw [hsession]; rfl)
      rw [hnone] at hopen
      cases hopen

theorem Backed.mono {log log' : List Act} {lease : ClipboardLease}
    (h : Backed fingerprint log lease) (hlog : ∀ act ∈ log, act ∈ log') :
    Backed fingerprint log' lease := by
  obtain ⟨value, unlocked, hwrote, hdigest⟩ := h
  exact ⟨value, unlocked, hlog _ hwrote, hdigest⟩

theorem Proper.mono {log log' : List Act} {act : Act} (h : Proper fingerprint log act)
    (hlog : ∀ act ∈ log, act ∈ log') : Proper fingerprint log' act := by
  cases act with
  | wrote generation value unlocked => exact h
  | removed expected lease content touched =>
    obtain ⟨hexpected, hbacked, hgeneration, hshows⟩ := h
    exact ⟨hexpected, hbacked.mono hlog, hgeneration, hshows⟩

theorem Inv.note (h : Inv fingerprint calls s) {act : Act} (hact : Proper fingerprint s.log act) :
    Inv fingerprint calls (s.note act) := by
  have hlog : ∀ old ∈ s.log, old ∈ s.log ++ [act] := fun _ hold => List.mem_append_left _ hold
  refine ⟨h.leased, h.closed, fun lease hlease => (h.backed lease hlease).mono hlog, ?_⟩
  intro old hold
  rcases List.mem_append.1 hold with hbefore | hlast
  · exact (h.proper old hbefore).mono hlog
  · rw [List.mem_singleton.1 hlast]
    exact hact.mono hlog

/-- Behind the clipboard's mutex, what is there may be replaced by what nobody copied. -/
theorem Inv.replaced (h : Inv fingerprint calls s) (content : Option Text) (touched : Bool)
    (hcontent : ∀ text generation, content = some text → text.origin ≠ .copied generation) :
    Inv fingerprint calls { s with content, touched } where
  leased _ text generation hholds := absurd hholds.2 (hcontent text generation hholds.1)
  closed _ text generation hholds := absurd hholds.2 (hcontent text generation hholds.1)
  backed := h.backed
  proper := h.proper

theorem Inv.abandon (h : Inv fingerprint calls s) : Inv fingerprint calls s.abandon := by
  refine h.replaced (s.content.map Text.abandon) s.touched ?_
  intro text generation hcontent horigin
  exact not_holds_abandon ⟨hcontent, horigin⟩

theorem own_inv {request : Ask V F} {reply : Reply request} (h : Inv fingerprint calls s)
    (hpermits : Permits fingerprint calls t s request)
    (hmoves : desktopMoves t s request reply s') : Inv fingerprint calls s' := by
  cases request with
  | beginVaultOperation =>
    dsimp only [desktopMoves] at hmoves
    split at hmoves
    · obtain ⟨-, rfl⟩ := hmoves
      exact ⟨h.leased, h.closed, h.backed, h.proper⟩
    · obtain ⟨-, rfl⟩ := hmoves
      exact h
  | endVaultOperation =>
    subst hmoves
    exact ⟨h.leased, h.closed, h.backed, h.proper⟩
  | lock mutex =>
    obtain ⟨hfree, rfl⟩ := hmoves
    cases mutex with
    | gate =>
      refine ⟨fun hclipboard => h.leased hclipboard, ?_, h.backed, h.proper⟩
      intro hsession text generation hholds
      obtain ⟨v, discard, hgate, -⟩ := h.closed hsession text generation hholds
      rw [hfree] at hgate
      cases hgate
    | clipboard =>
      refine ⟨fun hclipboard => ?_, h.closed, h.backed, h.proper⟩
      rw [hold_holder] at hclipboard
      cases hclipboard
  | unlock mutex =>
    subst hmoves
    cases mutex with
    | gate =>
      refine ⟨fun hclipboard => h.leased hclipboard, ?_, h.backed, h.proper⟩
      intro hsession text generation hholds
      exact absurd hholds (hpermits.2 hsession text generation)
    | clipboard => exact ⟨fun _ => hpermits.2, h.closed, h.backed, h.proper⟩
  | read secret =>
    obtain ⟨-, rfl⟩ := hmoves
    exact h
  | close discard =>
    obtain ⟨-, rfl⟩ := hmoves
    exact ⟨h.leased, fun _ _ _ _ => ⟨t, discard, hpermits⟩, h.backed, h.proper⟩
  | getrandom =>
    subst hmoves
    exact h
  | load =>
    obtain ⟨-, rfl⟩ := hmoves
    exact h
  | store state =>
    subst hmoves
    obtain ⟨hclipboard, -, hbacked⟩ := hpermits
    refine ⟨fun hfree => ?_, h.closed, hbacked, h.proper⟩
    rw [show s.holder .clipboard = none from hfree] at hclipboard
    cases hclipboard
  | writeText value =>
    obtain ⟨-, hclipboard, hopen⟩ := hpermits
    have hnoted : Inv fingerprint calls
        (s.note (.wrote (s.clipboard.generation + 1) value s.service.session.isSome)) :=
      h.note hopen
    cases reply with
    | true =>
      subst hmoves
      refine ⟨fun hfree => ?_, fun hsession => ?_, hnoted.backed, hnoted.proper⟩
      · rw [show s.holder .clipboard = none from hfree] at hclipboard
        cases hclipboard
      · rw [show s.service.session = none from hsession] at hopen
        cases hopen
    | false =>
      rcases hmoves with rfl | rfl
      · exact hnoted
      · refine hnoted.replaced _ s.touched ?_
        intro text generation hcontent horigin
        cases hcontent
        cases horigin
  | readText =>
    cases reply with
    | some current =>
      obtain ⟨-, rfl⟩ := hmoves
      exact ⟨h.leased, h.closed, h.backed, h.proper⟩
    | none =>
      subst hmoves
      exact h.abandon
  | clear expected =>
    obtain ⟨-, hleased, lease, hlease, hexpected, hshows⟩ := hpermits
    cases reply with
    | true =>
      dsimp only [desktopMoves] at hmoves
      rw [hlease] at hmoves
      subst hmoves
      have hnoted :
          Inv fingerprint calls (s.note (.removed expected lease s.content s.touched)) := by
        refine h.note ⟨hexpected, h.backed lease hlease, ?_, hshows⟩
        intro text generation hcontent horigin
        obtain ⟨other, hother, hgeneration, -⟩ := hleased text generation ⟨hcontent, horigin⟩
        rw [hlease] at hother
        cases hother
        exact hgeneration.symm
      exact hnoted.replaced none s.touched fun _ _ hcontent => nomatch hcontent
    | false =>
      rcases hmoves with rfl | rfl
      · exact h.abandon
      · exact h.replaced none s.touched fun _ _ hcontent => nomatch hcontent

theorem outside_inv (h : Inv fingerprint calls s) (hmoves : Elsewhere s s') :
    Inv fingerprint calls s' := by
  cases hmoves with
  | write content =>
    refine h.replaced _ true ?_
    intro text generation hcontent horigin
    obtain ⟨value, -, rfl⟩ := Option.map_eq_some_iff.1 hcontent
    cases horigin
  | service service hopens =>
    refine ⟨h.leased, fun hsession => h.closed ?_, h.backed, h.proper⟩
    cases hbefore : s.service.session with
    | none => rfl
    | some session =>
      have hopen := hopens (by rw [hbefore]; rfl)
      rw [show service.session = none from hsession] at hopen
      cases hopen

theorem sound : (contract fingerprint calls).Sound where
  own_inv := own_inv
  own_rely _ hpermits hmoves _ hne := own_rely hpermits hmoves hne
  outside_inv := outside_inv
  outside_rely _ hmoves t := outside_rely hmoves t

end Sound

end NianPass.Desktop.Clipboard
