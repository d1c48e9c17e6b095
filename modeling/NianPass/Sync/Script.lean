import NianPass.Sync.System

/-
  Runs that can be computed. A script names who moves; every effect is answered
  with its success. `play_run`: what a script produces is a run.
-/
namespace NianPass.Sync

open Kdbx (Bytes KdbxDocument)

variable {V : Type} [DecidableEq V]

omit [DecidableEq V] in
/-- The answer of a world in which nothing fails. The writer, a listing and an
unconfirmed write have none. -/
def reply (engine caller : Nat) (w : World V) :
    (effect : Effect V) → Option (Answer effect × World V)
  | .readFile file => some (.ok (w.files file), w)
  | .writeFile file content =>
    some (.ok (), { w with files := Function.update w.files file (some content) })
  | .removeFile file => some (.ok (), { w with files := Function.update w.files file none })
  | .readDirectory => none
  | .syncDirectory => some (.ok (), w)
  | .newUuid =>
    let id : Uuid := BitVec.ofNat 128 w.issued.length
    if id ∈ w.issued then none else some (id, { w with issued := id :: w.issued })
  | .captureClean => some (.ok w.vault, w)
  | .replaceIfUnchanged expected ciphertext =>
    if w.vault = expected then
      some (.ok (), { w with vault := ⟨expected.source, expected.authorityToken, ciphertext⟩ })
    else some (.error .changed, w)
  | .read => some (.ok (.of w.remote), w)
  | .write request =>
    match w.confirmed.find? fun entry => entry.1 = caller ∧ entry.2.1 = request with
    | some entry => some (.ok entry.2.2, w)
    | none => none
  | .saveToWriter _ _ => none
  | .invalidateConflict =>
    some (.ok (), { w with pending := Function.update w.pending engine none })
  | .installConflict conflict =>
    some (.ok (), { w with pending := Function.update w.pending engine (some conflict) })
  | .takeConflict id =>
    match w.pending engine with
    | some conflict =>
      if conflict.operation.conflictOperationId = id then
        some (.ok conflict, { w with pending := Function.update w.pending engine none })
      else some (.error .staleConflict, w)
    | none => some (.error .staleConflict, w)

omit [DecidableEq V] in
theorem reply_performs {engine caller : Nat} {w after : World V} {effect : Effect V}
    {answer : Answer effect} (h : reply engine caller w effect = some (answer, after)) :
    Performs engine caller w effect answer after := by
  cases effect with
  | readFile file =>
    cases h
    exact ⟨rfl, fun content heq => (Except.ok.inj heq).symm⟩
  | writeFile file content => cases h; exact .inl rfl
  | removeFile file => cases h; exact .inl rfl
  | readDirectory => cases h
  | syncDirectory => cases h; rfl
  | newUuid =>
    simp only [reply] at h
    split at h
    case isTrue => cases h
    case isFalse hfresh => cases h; exact ⟨hfresh, rfl⟩
  | captureClean => cases h; exact ⟨rfl, fun snapshot heq => (Except.ok.inj heq).symm⟩
  | replaceIfUnchanged expected ciphertext =>
    simp only [reply] at h
    split at h
    case isTrue heq => cases h; exact .inl ⟨heq, _, rfl⟩
    case isFalse heq => cases h; exact .inr ⟨rfl, nofun⟩
  | read => cases h; exact ⟨rfl, fun remote heq => (Except.ok.inj heq).symm⟩
  | write request =>
    simp only [reply] at h
    split at h
    case h_1 entry hfind =>
      cases h
      refine ⟨rfl, fun revision heq => ?_⟩
      obtain rfl := Except.ok.inj heq
      have hentry := List.find?_some hfind
      obtain ⟨rfl, rfl⟩ := of_decide_eq_true hentry
      exact List.mem_of_find?_eq_some hfind
    case h_2 => cases h
  | saveToWriter document credential => cases h
  | invalidateConflict => cases h; exact .inl ⟨rfl, rfl⟩
  | installConflict conflict => cases h; exact .inl ⟨rfl, rfl⟩
  | takeConflict id =>
    simp only [reply] at h
    split at h
    case h_1 conflict hpending =>
      split at h
      case isTrue hid => cases h; exact .inl ⟨conflict, hpending, hid, rfl, rfl⟩
      case isFalse hid =>
        cases h
        refine .inr (.inl ⟨fun other hother => ?_, rfl, rfl⟩)
        rw [hpending] at hother
        cases hother
        exact hid
    case h_2 hpending =>
      cases h
      refine .inr (.inl ⟨fun other hother => ?_, rfl, rfl⟩)
      rw [hpending] at hother
      cases hother

/-- Who moves next. -/
inductive Move where
  | start (caller engine : Nat) (call : Call)
  | perform (caller count : Nat)
  | fail (caller : Nat) (error : ProviderError)
  | send (caller : Nat)
  | deliver (revision : RemoteRevision)
  | drop (caller : Nat)
  | crash
  | save (snapshot : LocalSnapshot)
  | others (object : Option RemoteObject)

omit [DecidableEq V] in
def performOnce (caller : Nat) (w : World V) : Option (World V) :=
  match w.calls caller with
  | none => none
  | some running =>
    match running.program with
    | .done _ => none
    | .ask effect next =>
      match reply running.engine caller w effect with
      | none => none
      | some (answer, after) =>
        some { after with calls := Function.update w.calls caller (some
          { running with program := next answer, transcript := ⟨effect, answer⟩ :: running.transcript }) }

omit [DecidableEq V] in
def revisionFits (past : List (World V)) (object : RemoteObject) : Bool :=
  past.all fun w =>
    match w.remote with
    | none => true
    | some earlier =>
      earlier.revision ≠ object.revision ∨ earlier.ciphertext = object.ciphertext

omit [DecidableEq V] in
theorem revisionFits_iff {past : List (World V)} {object : RemoteObject}
    (h : revisionFits past object = true) : RevisionFits past object := by
  intro w hmem earlier hremote hrevision
  have hw := List.all_eq_true.mp h w hmem
  simp only [hremote, decide_eq_true_eq] at hw
  exact hw.resolve_left (not_not.mpr hrevision)

omit [DecidableEq V] in
/-- The call is told that its write failed. -/
def failWrite (caller : Nat) (error : ProviderError) (w : World V) : Option (World V) :=
  match w.calls caller with
  | none => none
  | some running =>
    match running.program with
    | .ask (.write request) next =>
      some { w with calls := Function.update w.calls caller (some
        { running with
          program := next (.error error)
          transcript := ⟨.write request, .error error⟩ :: running.transcript }) }
    | _ => none

omit [DecidableEq V] in
def sendWrite (caller : Nat) (w : World V) : Option (World V) :=
  match w.calls caller with
  | none => none
  | some running =>
    match running.program with
    | .ask (.write request) _ =>
      some { w with wire := ⟨caller, running.call, running.transcript, request⟩ :: w.wire }
    | _ => none

def RemoteWrite.accepts : RemoteWrite → Option RemoteObject → Bool
  | .createIfAbsent _, none => true
  | .replaceIfRevision expected _, some object => object.revision = expected
  | _, _ => false

theorem RemoteWrite.accepted_of_accepts {request : RemoteWrite} {remote : Option RemoteObject}
    (h : request.accepts remote = true) : request.accepted remote := by
  cases request with
  | createIfAbsent ciphertext =>
    cases remote with
    | none => rfl
    | some object => cases h
  | replaceIfRevision expected ciphertext =>
    cases remote with
    | none => cases h
    | some object => exact ⟨object, rfl, of_decide_eq_true h⟩

omit [DecidableEq V] in
/-- The server applies the write sent last. -/
def deliverLast (revision : RemoteRevision) (past : List (World V)) (w : World V) :
    Option (World V) :=
  match w.wire with
  | [] => none
  | request :: _ =>
    if request.write.accepts w.remote && revisionFits past ⟨request.write.ciphertext, revision⟩ then
      some { w with
        remote := some ⟨request.write.ciphertext, revision⟩
        confirmed := (request.caller, request.write, revision) :: w.confirmed }
    else none

section Play
variable (P : Platform V) (S : SyncStore)

def performs (caller : Nat) : Nat → List (World V) × World V → Option (List (World V) × World V)
  | 0, state => some state
  | count + 1, (past, w) =>
    match performOnce caller w with
    | none => none
    | some w' => performs caller count (w' :: past, w')

def move (state : List (World V) × World V) : Move → Option (List (World V) × World V)
  | .perform caller count => performs caller count state
  | .start caller engine call =>
    match state.2.calls caller with
    | some _ => none
    | none =>
      push { state.2 with
        calls := Function.update state.2.calls caller (some ⟨engine, call, (call.task P S).run, []⟩) }
  | .fail caller error => (failWrite caller error state.2).bind push
  | .send caller => (sendWrite caller state.2).bind push
  | .deliver revision => (deliverLast revision state.1 state.2).bind push
  | .drop caller => push { state.2 with calls := Function.update state.2.calls caller none }
  | .crash => push { state.2 with calls := fun _ => none, pending := fun _ => none }
  | .save snapshot => push { state.2 with vault := snapshot }
  | .others object =>
    if object.all (revisionFits state.1) then push { state.2 with remote := object } else none
where
  push (w : World V) : Option (List (World V) × World V) := some (w :: state.1, w)

def play (moves : List Move) (state : List (World V) × World V) :
    Option (List (World V) × World V) :=
  moves.foldlM (move P S) state

variable {P S} {past past' : List (World V)} {w w' : World V}

theorem performOnce_step {caller : Nat} (h : performOnce caller w = some w') :
    ∃ event, Step P S past w event w' := by
  unfold performOnce at h
  split at h
  · cases h
  · rename_i running hcall
    split at h
    · cases h
    · rename_i effect next hprogram
      split at h
      · cases h
      · rename_i answer after hreply
        cases h
        exact ⟨.perform caller effect answer, running, next, after, hcall, hprogram,
          reply_performs hreply, rfl⟩

theorem performs_run {caller count : Nat} (hrun : Run P S past w)
    (h : performs caller count (past, w) = some (past', w')) : Run P S past' w' := by
  induction count generalizing past w with
  | zero =>
    cases h
    exact hrun
  | succ count ih =>
    simp only [performs] at h
    split at h
    · cases h
    · rename_i next hnext
      obtain ⟨event, hstep⟩ := performOnce_step hnext
      exact ih (.step hrun hstep) h

theorem deliverLast_step {revision : RemoteRevision} (h : deliverLast revision past w = some w') :
    ∃ request, Step P S past w (.deliver request revision) w' := by
  unfold deliverLast at h
  split at h
  · cases h
  · rename_i request rest hwire
    split at h
    · rename_i hcondition
      cases h
      simp only [Bool.and_eq_true] at hcondition
      refine ⟨request, ?_, RemoteWrite.accepted_of_accepts hcondition.1,
        revisionFits_iff hcondition.2, rfl⟩
      rw [hwire]
      exact List.mem_cons_self
    · cases h

theorem move_run {next : Move} (hrun : Run P S past w)
    (h : move P S (past, w) next = some (past', w')) : Run P S past' w' := by
  cases next with
  | perform caller count => exact performs_run hrun h
  | start caller engine call =>
    simp only [move] at h
    split at h
    · cases h
    · rename_i hfree
      cases h
      exact .step hrun (show Step P S past w (.start caller engine call) _ from ⟨hfree, rfl⟩)
  | fail caller error =>
    obtain ⟨w₁, hfail, hpush⟩ := Option.bind_eq_some_iff.mp h
    cases hpush
    unfold failWrite at hfail
    split at hfail
    · cases hfail
    · rename_i running hcall
      split at hfail
      · rename_i request next hprogram
        cases hfail
        exact .step hrun (show Step P S past w
          (.perform caller (.write request) (.error error)) _ from
          ⟨running, next, w, hcall, hprogram, ⟨rfl, nofun⟩, rfl⟩)
      · cases hfail
  | send caller =>
    obtain ⟨w₁, hsend, hpush⟩ := Option.bind_eq_some_iff.mp h
    cases hpush
    unfold sendWrite at hsend
    split at hsend
    · cases hsend
    · rename_i running hcall
      split at hsend
      · rename_i request next hprogram
        cases hsend
        exact .step hrun (show Step P S past w (.send caller) _ from
          ⟨running, request, next, hcall, hprogram, rfl⟩)
      · cases hsend
  | deliver revision =>
    obtain ⟨w₁, hdeliver, hpush⟩ := Option.bind_eq_some_iff.mp h
    cases hpush
    obtain ⟨request, hstep⟩ := deliverLast_step hdeliver
    exact .step hrun hstep
  | drop caller =>
    cases h
    exact .step hrun (show Step P S past w (.drop caller) _ from rfl)
  | crash =>
    cases h
    exact .step hrun (show Step P S past w .crash _ from rfl)
  | save snapshot =>
    cases h
    exact .step hrun (show Step P S past w (.ownerSaves snapshot) _ from rfl)
  | others object =>
    simp only [move] at h
    split at h
    · rename_i hfits
      cases h
      refine .step hrun (show Step P S past w (.othersWrite object) _ from ⟨?_, rfl⟩)
      rintro written rfl
      exact revisionFits_iff (by simpa using hfits)
    · cases h

/-- What a script produces is a run. -/
theorem play_run {moves : List Move} (hrun : Run P S past w)
    (h : play P S moves (past, w) = some (past', w')) : Run P S past' w' := by
  induction moves generalizing past w with
  | nil =>
    cases h
    exact hrun
  | cons next moves ih =>
    obtain ⟨⟨past₁, w₁⟩, hmove, hrest⟩ := Option.bind_eq_some_iff.mp h
    exact ih (move_run hrun hmove) hrest

end Play

/-! ## A small profile -/

/-- The text whose characters are the bytes. -/
def textOf (bytes : Bytes) : String := String.ofList (bytes.map Char.ofUInt8)

theorem textOf_injective : Function.Injective textOf := by
  intro a b h
  refine List.map_injective_iff.mpr ?_ (String.ofList_injective h)
  intro x y hxy
  exact UInt8.toUInt32_inj.mp (congrArg Char.val hxy)

/-- Any bytes open to a vault of one group, named after them. -/
def samplePlatform : Platform Unit where
  digestOf bytes := ⟨textOf bytes⟩
  openReader bytes _ := .ok
    { version := .kdbx4 1
      database := { config := (), root := ⟨0⟩, groups := .ofList [(⟨0⟩, { name := textOf bytes })] compare } }
  keepass := Kdbx.reference

theorem samplePlatform_injective : Function.Injective samplePlatform.digestOf := by
  intro a b h
  exact textOf_injective (congrArg CiphertextDigest.asStr h)

def sampleStore : SyncStore := ⟨7, ⟨"source"⟩, ⟨"target"⟩⟩

def sampleCredential : SyncCredential := ⟨some "password", none⟩

def sampleSnapshot (ciphertext : Bytes) : LocalSnapshot := ⟨⟨"source"⟩, "session", ciphertext⟩

/-- A profile just created over a vault that no device has uploaded. -/
def sampleWorld : World Unit where
  files := fun _ => none
  vault := sampleSnapshot [1]
  remote := none
  pending := fun _ => none
  issued := []
  wire := []
  confirmed := []
  calls := fun _ => none

theorem sampleWorld_run : Run samplePlatform sampleStore [sampleWorld] sampleWorld :=
  .start ⟨rfl, rfl, rfl, rfl, rfl, rfl⟩

/-- The first synchronization: the vault is uploaded and becomes BASE. -/
def uploadMoves : List Move :=
  [.start 0 0 (.sync sampleCredential), .perform 0 11, .send 0, .deliver ⟨"r1"⟩, .perform 0 17,
    .drop 0]

/-- The owner saves, and a second synchronization is about to replace the object. -/
def replaceMoves : List Move :=
  uploadMoves ++ [.save (sampleSnapshot [2]), .start 0 0 (.sync sampleCredential), .perform 0 16,
    .send 0]

end NianPass.Sync
