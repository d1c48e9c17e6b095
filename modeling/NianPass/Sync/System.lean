import NianPass.Sync.Decisions

/-
  The engine among others: calls that run on one profile directory, the owner
  of the local vault, other devices and the server.

  A `Step` is one action of one party. A call performs one effect; the owner
  saves; another device writes the object; the server applies a conditional
  write that has left the device; a call is dropped, or the process dies with
  all its calls. A write that left the device stays on the wire: the server may
  apply it after the call was told an error, and after the call is gone. An
  effect that fails may have happened (a write of a file, an installation of the
  vault) or not. Calls overlap freely.

  What is assumed of the others stands in `Performs` and `Step`: a conditional
  write takes effect only on its condition, a confirmed one did take effect, a
  read returns the object, `replace_if_unchanged` installs only over the
  snapshot it is given, and a revision names one content.
-/
namespace NianPass.Sync

open Kdbx (Bytes KdbxDocument MergeOutcome)
open Program (Safe transcripts)

variable {V : Type} [DecidableEq V]

/-- A call that has not returned. -/
structure Running (V : Type) where
  engine : Nat
  call : Call
  program : Program (Effect V) Answer (Except SyncError SyncOutcome)
  transcript : Record V

/-- A conditional write that has left the device, with the call it came from. -/
structure Request (V : Type) where
  caller : Nat
  call : Call
  transcript : Record V
  write : RemoteWrite

structure World (V : Type) where
  files : Directory
  vault : LocalSnapshot
  remote : Option RemoteObject
  pending : Nat → Option PendingConflict
  issued : List Uuid
  wire : List (Request V)
  confirmed : List (Nat × RemoteWrite × RemoteRevision)
  calls : Nat → Option (Running V)

/-- The server's condition on a write. -/
def RemoteWrite.accepted : RemoteWrite → Option RemoteObject → Prop
  | .createIfAbsent _, remote => remote = none
  | .replaceIfRevision expected _, remote => ∃ object, remote = some object ∧ object.revision = expected

def RemoteRead.of : Option RemoteObject → RemoteRead
  | none => .missing
  | some object => .present object

section Performs
variable (engine caller : Nat)

omit [DecidableEq V] in
/-- Which answers an effect may get in `w`, and what it does to `w`. -/
def Performs (w : World V) : (effect : Effect V) → Answer effect → World V → Prop
  | .readFile file, answer, w' => w' = w ∧ ∀ content, answer = .ok content → content = w.files file
  | .writeFile file content, answer, w' =>
    w' = { w with files := Function.update w.files file (some content) } ∨
    (w' = w ∧ answer ≠ .ok ())
  | .removeFile file, answer, w' =>
    w' = { w with files := Function.update w.files file none } ∨ (w' = w ∧ answer ≠ .ok ())
  | .readDirectory, _, w' => w' = w
  | .syncDirectory, _, w' => w' = w
  | .newUuid, id, w' => id ∉ w.issued ∧ w' = { w with issued := id :: w.issued }
  | .captureClean, answer, w' => w' = w ∧ ∀ snapshot, answer = .ok snapshot → snapshot = w.vault
  | .replaceIfUnchanged expected ciphertext, answer, w' =>
    (w.vault = expected ∧
      ∃ token, w' = { w with vault := ⟨expected.source, token, ciphertext⟩ }) ∨
    (w' = w ∧ answer ≠ .ok ())
  | .read, answer, w' => w' = w ∧ ∀ remote, answer = .ok remote → remote = .of w.remote
  | .write request, answer, w' =>
    w' = w ∧ ∀ revision, answer = .ok revision → (caller, request, revision) ∈ w.confirmed
  | .saveToWriter _ _, _, w' => w' = w
  | .invalidateConflict, answer, w' =>
    (answer = .ok () ∧ w' = { w with pending := Function.update w.pending engine none }) ∨
    (answer = .error .internal ∧ w' = w)
  | .installConflict conflict, answer, w' =>
    (answer = .ok () ∧
      w' = { w with pending := Function.update w.pending engine (some conflict) }) ∨
    (answer = .error .internal ∧ w' = w)
  | .takeConflict id, answer, w' =>
    (∃ conflict, w.pending engine = some conflict ∧
      conflict.operation.conflictOperationId = id ∧ answer = .ok conflict ∧
      w' = { w with pending := Function.update w.pending engine none }) ∨
    ((∀ conflict, w.pending engine = some conflict →
        conflict.operation.conflictOperationId ≠ id) ∧ answer = .error .staleConflict ∧ w' = w) ∨
    (answer = .error .internal ∧ w' = w)

end Performs

/-- One action of one party. -/
inductive Event (V : Type) where
  | start (caller engine : Nat) (call : Call)
  | perform (caller : Nat) (effect : Effect V) (answer : Answer effect)
  | send (caller : Nat)
  | deliver (request : Request V) (revision : RemoteRevision)
  | drop (caller : Nat)
  | crash
  | ownerSaves (snapshot : LocalSnapshot)
  | othersWrite (object : Option RemoteObject)

omit [DecidableEq V] in
/-- A revision names one content: no earlier object had this revision with other bytes. -/
def RevisionFits (past : List (World V)) (object : RemoteObject) : Prop :=
  ∀ w ∈ past, ∀ earlier, w.remote = some earlier → earlier.revision = object.revision →
    earlier.ciphertext = object.ciphertext

/-- The steps from `w`, after the worlds `past`. -/
def Step (P : Platform V) (S : SyncStore) (past : List (World V)) (w : World V) :
    Event V → World V → Prop
  | .start caller engine call, w' =>
    w.calls caller = none ∧
    w' = { w with calls :=
      Function.update w.calls caller (some ⟨engine, call, (call.task P S).run, []⟩) }
  | .perform caller effect answer, w' =>
    ∃ running next after, w.calls caller = some running ∧ running.program = .ask effect next ∧
      Performs running.engine caller w effect answer after ∧
      w' = { after with calls := Function.update w.calls caller (some
        { running with program := next answer, transcript := ⟨effect, answer⟩ :: running.transcript }) }
  | .send caller, w' =>
    ∃ running request next, w.calls caller = some running ∧
      running.program = .ask (.write request) next ∧
      w' = { w with wire := ⟨caller, running.call, running.transcript, request⟩ :: w.wire }
  | .deliver request revision, w' =>
    request ∈ w.wire ∧ request.write.accepted w.remote ∧
      RevisionFits past ⟨request.write.ciphertext, revision⟩ ∧
      w' = { w with
        remote := some ⟨request.write.ciphertext, revision⟩
        confirmed := (request.caller, request.write, revision) :: w.confirmed }
  | .drop caller, w' => w' = { w with calls := Function.update w.calls caller none }
  | .crash, w' => w' = { w with calls := fun _ => none, pending := fun _ => none }
  | .ownerSaves snapshot, w' => w' = { w with vault := snapshot }
  | .othersWrite object, w' =>
    (∀ written, object = some written → RevisionFits past written) ∧ w' = { w with remote := object }

omit [DecidableEq V] in
/-- A profile that was just created: an empty directory and no calls. -/
structure Initial (w : World V) : Prop where
  files : w.files = fun _ => none
  pending : w.pending = fun _ => none
  issued : w.issued = []
  wire : w.wire = []
  confirmed : w.confirmed = []
  calls : w.calls = fun _ => none

/-- A run: the worlds so far, the newest first, and the newest. -/
inductive Run (P : Platform V) (S : SyncStore) : List (World V) → World V → Prop where
  | start {w} (initial : Initial w) : Run P S [w] w
  | step {past w event w'} (run : Run P S past w) (step : Step P S past w event w') :
      Run P S (w' :: past) w'

/-! ## Transcripts are truthful -/

omit [DecidableEq V] in
/-- What an answer says of the worlds in which it was given. -/
def Witnessed (past : List (World V)) : (effect : Effect V) → Answer effect → Prop
  | .readFile file, answer => ∀ content, answer = .ok content → ∃ w ∈ past, w.files file = content
  | .captureClean, answer => ∀ snapshot, answer = .ok snapshot → ∃ w ∈ past, w.vault = snapshot
  | .replaceIfUnchanged _ ciphertext, answer =>
    answer = .ok () → ∃ w ∈ past, w.vault.ciphertext = ciphertext
  | .read, answer => ∀ remote, answer = .ok remote → ∃ w ∈ past, .of w.remote = remote
  | .write request, answer =>
    ∀ revision, answer = .ok revision →
      ∃ w ∈ past, w.remote = some ⟨request.ciphertext, revision⟩
  | .takeConflict id, answer =>
    ∀ conflict, answer = .ok conflict →
      conflict.operation.conflictOperationId = id ∧
      ∃ w ∈ past, ∃ engine, w.pending engine = some conflict
  | _, _ => True

omit [DecidableEq V] in
def Truthful (past : List (World V)) (h : Record V) : Prop :=
  ∀ exchange ∈ h, Witnessed past exchange.1 exchange.2

section Truthful
variable {past : List (World V)} {w : World V} {h : Record V}

omit [DecidableEq V]

theorem Witnessed.cons {effect : Effect V} {answer : Answer effect}
    (hw : Witnessed past effect answer) : Witnessed (w :: past) effect answer := by
  unfold Witnessed at hw ⊢
  split at hw
  · intro content heq
    obtain ⟨w₀, hmem, hfile⟩ := hw content heq
    exact ⟨w₀, List.mem_cons_of_mem _ hmem, hfile⟩
  · intro snapshot heq
    obtain ⟨w₀, hmem, hvault⟩ := hw snapshot heq
    exact ⟨w₀, List.mem_cons_of_mem _ hmem, hvault⟩
  · intro heq
    obtain ⟨w₀, hmem, hvault⟩ := hw heq
    exact ⟨w₀, List.mem_cons_of_mem _ hmem, hvault⟩
  · intro remote heq
    obtain ⟨w₀, hmem, hremote⟩ := hw remote heq
    exact ⟨w₀, List.mem_cons_of_mem _ hmem, hremote⟩
  · intro revision heq
    obtain ⟨w₀, hmem, hremote⟩ := hw revision heq
    exact ⟨w₀, List.mem_cons_of_mem _ hmem, hremote⟩
  · intro conflict heq
    obtain ⟨hid, w₀, hmem, hpending⟩ := hw conflict heq
    exact ⟨hid, w₀, List.mem_cons_of_mem _ hmem, hpending⟩
  · exact trivial

theorem truthful_nil : Truthful past [] := by
  intro exchange hmem
  simp at hmem

theorem Truthful.cons (ht : Truthful past h) : Truthful (w :: past) h :=
  fun exchange hmem => (ht exchange hmem).cons

end Truthful

/-! ## What an effect changes -/

omit [DecidableEq V] in
/-- All that an effect can do to the world. -/
inductive Changes (engine : Nat) (w : World V) : Effect V → World V → Prop where
  | nothing {effect} : Changes engine w effect w
  | wrote (file content) : Changes engine w (.writeFile file content)
      { w with files := Function.update w.files file (some content) }
  | removed (file) : Changes engine w (.removeFile file)
      { w with files := Function.update w.files file none }
  | drew (id) : Changes engine w .newUuid { w with issued := id :: w.issued }
  | installed (expected ciphertext token) (unchanged : w.vault = expected) :
      Changes engine w (.replaceIfUnchanged expected ciphertext)
        { w with vault := ⟨expected.source, token, ciphertext⟩ }
  | cleared {effect} : Changes engine w effect
      { w with pending := Function.update w.pending engine none }
  | conflicted (conflict) : Changes engine w (.installConflict conflict)
      { w with pending := Function.update w.pending engine (some conflict) }

section Frame
variable {engine caller : Nat} {w after : World V} {effect : Effect V} {answer : Answer effect}

omit [DecidableEq V]

theorem Performs.changes (h : Performs engine caller w effect answer after) :
    Changes engine w effect after := by
  cases effect with
  | readFile file => cases h.1; exact .nothing
  | writeFile file content =>
    rcases h with rfl | ⟨rfl, -⟩
    · exact .wrote file content
    · exact .nothing
  | removeFile file =>
    rcases h with rfl | ⟨rfl, -⟩
    · exact .removed file
    · exact .nothing
  | readDirectory => cases h; exact .nothing
  | syncDirectory => cases h; exact .nothing
  | newUuid => cases h.2; exact .drew _
  | captureClean => cases h.1; exact .nothing
  | replaceIfUnchanged expected ciphertext =>
    rcases h with ⟨heq, token, rfl⟩ | ⟨rfl, -⟩
    · exact .installed expected ciphertext token heq
    · exact .nothing
  | read => cases h.1; exact .nothing
  | write request => cases h.1; exact .nothing
  | saveToWriter document credential => cases h; exact .nothing
  | invalidateConflict =>
    rcases h with ⟨-, rfl⟩ | ⟨-, rfl⟩
    · exact .cleared
    · exact .nothing
  | installConflict conflict =>
    rcases h with ⟨-, rfl⟩ | ⟨-, rfl⟩
    · exact .conflicted conflict
    · exact .nothing
  | takeConflict id =>
    rcases h with ⟨_, -, -, -, rfl⟩ | ⟨-, -, rfl⟩ | ⟨-, rfl⟩
    · exact .cleared
    · exact .nothing
    · exact .nothing

theorem Changes.frame (h : Changes engine w effect after) :
    after.remote = w.remote ∧ after.wire = w.wire ∧ after.confirmed = w.confirmed ∧
      after.calls = w.calls := by
  cases h <;> exact ⟨rfl, rfl, rfl, rfl⟩

/-- `base.json` changes only by being written. -/
theorem Changes.base (h : Changes engine w effect after) {metadata : BaseMetadata}
    (hbase : after.files .base = some metadata) :
    w.files .base = some metadata ∨ effect = .writeFile .base metadata := by
  cases h with
  | wrote file content =>
    by_cases hfile : file = .base
    · subst hfile
      have hcontent : content = metadata := by simpa using hbase
      exact .inr (hcontent ▸ rfl)
    · exact .inl ((Function.update_of_ne (Ne.symm hfile) _ _).symm.trans hbase)
  | removed file =>
    by_cases hfile : file = .base
    · subst hfile
      simp at hbase
    · exact .inl ((Function.update_of_ne (Ne.symm hfile) _ _).symm.trans hbase)
  | nothing => exact .inl hbase
  | drew id => exact .inl hbase
  | installed expected ciphertext token unchanged => exact .inl hbase
  | cleared => exact .inl hbase
  | conflicted conflict => exact .inl hbase

/-- The vault changes only where `replace_if_unchanged` finds what it expects. -/
theorem Changes.vault (h : Changes engine w effect after) (hvault : after.vault ≠ w.vault) :
    ∃ expected ciphertext, effect = .replaceIfUnchanged expected ciphertext ∧
      w.vault = expected ∧ after.vault.ciphertext = ciphertext := by
  cases h with
  | installed expected ciphertext token unchanged =>
    exact ⟨expected, ciphertext, rfl, unchanged, rfl⟩
  | nothing => exact absurd rfl hvault
  | wrote file content => exact absurd rfl hvault
  | removed file => exact absurd rfl hvault
  | drew id => exact absurd rfl hvault
  | cleared => exact absurd rfl hvault
  | conflicted conflict => exact absurd rfl hvault

/-- A conflict is pending only by having been installed. -/
theorem Changes.pending (h : Changes engine w effect after) {other : Nat}
    {conflict : PendingConflict} (hpending : after.pending other = some conflict) :
    w.pending other = some conflict ∨ effect = .installConflict conflict := by
  cases h with
  | cleared =>
    by_cases heq : other = engine
    · subst heq
      simp at hpending
    · exact .inl ((Function.update_of_ne heq _ _).symm.trans hpending)
  | conflicted installed =>
    by_cases heq : other = engine
    · subst heq
      have hconflict : installed = conflict := by simpa using hpending
      exact .inr (hconflict ▸ rfl)
    · exact .inl ((Function.update_of_ne heq _ _).symm.trans hpending)
  | nothing => exact .inl hpending
  | wrote file content => exact .inl hpending
  | removed file => exact .inl hpending
  | drew id => exact .inl hpending
  | installed expected ciphertext token unchanged => exact .inl hpending

/-- The answer to an effect is true of the world it is performed in, or leaves. -/
theorem Performs.witnessed {past : List (World V)} {w' : World V}
    (h : Performs engine caller w effect answer after) (hw : w ∈ past)
    (hconfirmed : ∀ entry ∈ w.confirmed, ∃ w₀ ∈ past,
      w₀.remote = some ⟨entry.2.1.ciphertext, entry.2.2⟩)
    (hvault : w'.vault = after.vault) : Witnessed (w' :: past) effect answer := by
  have hw : w ∈ w' :: past := List.mem_cons_of_mem _ hw
  cases effect with
  | readFile file => exact fun content heq => ⟨w, hw, (h.2 content heq).symm⟩
  | captureClean => exact fun snapshot heq => ⟨w, hw, (h.2 snapshot heq).symm⟩
  | replaceIfUnchanged expected ciphertext =>
    intro hok
    obtain ⟨-, token, rfl⟩ | ⟨-, hnot⟩ := h
    · exact ⟨w', List.mem_cons_self, by rw [hvault]⟩
    · exact absurd hok hnot
  | read => exact fun remote heq => ⟨w, hw, (h.2 remote heq).symm⟩
  | write request =>
    intro revision heq
    obtain ⟨w₀, hmem, hremote⟩ := hconfirmed _ (h.2 revision heq)
    exact ⟨w₀, List.mem_cons_of_mem _ hmem, hremote⟩
  | takeConflict id =>
    intro conflict heq
    obtain ⟨taken, hpending, hid, hok, -⟩ | ⟨-, herror, -⟩ | ⟨herror, -⟩ := h
    · have htaken : taken = conflict := Except.ok.inj (hok.symm.trans heq)
      subst htaken
      exact ⟨hid, w, hw, engine, hpending⟩
    · cases heq.symm.trans herror
    · cases heq.symm.trans herror
  | writeFile file content => exact trivial
  | removeFile file => exact trivial
  | readDirectory => exact trivial
  | syncDirectory => exact trivial
  | newUuid => exact trivial
  | saveToWriter document credential => exact trivial
  | invalidateConflict => exact trivial
  | installConflict conflict => exact trivial

end Frame

/-! ## Every run is sound -/

/-- What holds along every run. -/
structure Sound (P : Platform V) (past : List (World V)) (w : World V) : Prop where
  current : w ∈ past
  /-- Every call has acted on evidence and goes on to do so; what it was told is true. -/
  calls : ∀ caller running, w.calls caller = some running →
    Safe (transcripts (Permitted P running.call)) (fun _ _ => True) running.program
      running.transcript ∧ Truthful past running.transcript
  wire : ∀ request ∈ w.wire,
    Permitted P request.call request.transcript (.write request.write) ∧
      Truthful past request.transcript
  confirmed : ∀ entry ∈ w.confirmed, ∃ w₀ ∈ past,
    w₀.remote = some ⟨entry.2.1.ciphertext, entry.2.2⟩
  base : ∀ metadata : BaseMetadata, w.files .base = some metadata →
    ∃ h credential bytes, metadata.ciphertextSha256 = P.digestOf bytes ∧
      Agreed P h credential bytes ∧ Truthful past h
  pending : ∀ engine conflict, w.pending engine = some conflict →
    ∃ h call, Permitted P call h (.installConflict conflict) ∧ Truthful past h
  /-- A revision names one content. -/
  revisions : ∀ object, w.remote = some object → RevisionFits past object

section Sound
variable {P : Platform V} {S : SyncStore} {past : List (World V)} {w w' : World V}

theorem Initial.sound (h : Initial w) : Sound P [w] w where
  current := List.mem_cons_self
  calls caller running hcall := by simp [h.calls] at hcall
  wire request hmem := by simp [h.wire] at hmem
  confirmed entry hmem := by simp [h.confirmed] at hmem
  base metadata hbase := by simp [h.files] at hbase
  pending engine conflict hpending := by simp [h.pending] at hpending
  revisions object hobject w₀ hmem earlier hearlier _ := by
    obtain rfl := List.mem_singleton.mp hmem
    rw [hobject] at hearlier
    cases hearlier
    rfl

omit [DecidableEq V] in
theorem of_update_eq_some {calls : Nat → Option (Running V)} {caller other : Nat}
    {new : Option (Running V)} {running : Running V}
    (h : Function.update calls caller new other = some running) :
    calls other = some running ∨ new = some running := by
  by_cases heq : other = caller
  · subst heq
    rw [Function.update_self] at h
    exact .inr h
  · rw [Function.update_of_ne heq] at h
    exact .inl h

/-- What is new after a step must be accounted for; what is old stays so. -/
theorem Sound.extend (hs : Sound P past w)
    (hcalls : ∀ caller running, w'.calls caller = some running → w.calls caller = some running ∨
      (Safe (transcripts (Permitted P running.call)) (fun _ _ => True) running.program
        running.transcript ∧ Truthful (w' :: past) running.transcript))
    (hwire : ∀ request ∈ w'.wire, request ∈ w.wire ∨
      (Permitted P request.call request.transcript (.write request.write) ∧
        Truthful past request.transcript))
    (hconfirmed : ∀ entry ∈ w'.confirmed, entry ∈ w.confirmed ∨
      w'.remote = some ⟨entry.2.1.ciphertext, entry.2.2⟩)
    (hbase : ∀ metadata : BaseMetadata, w'.files .base = some metadata →
      w.files .base = some metadata ∨
      ∃ h credential bytes, metadata.ciphertextSha256 = P.digestOf bytes ∧
        Agreed P h credential bytes ∧ Truthful past h)
    (hpending : ∀ engine conflict, w'.pending engine = some conflict →
      w.pending engine = some conflict ∨
      ∃ h call, Permitted P call h (.installConflict conflict) ∧ Truthful past h)
    (hremote : ∀ object, w'.remote = some object → RevisionFits past object) :
    Sound P (w' :: past) w' where
  current := List.mem_cons_self
  calls caller running hcall := by
    rcases hcalls caller running hcall with hold | hnew
    · obtain ⟨hsafe, htrue⟩ := hs.calls caller running hold
      exact ⟨hsafe, htrue.cons⟩
    · exact hnew
  wire request hmem := by
    rcases hwire request hmem with hold | ⟨hpermit, htrue⟩
    · obtain ⟨hpermit, htrue⟩ := hs.wire request hold
      exact ⟨hpermit, htrue.cons⟩
    · exact ⟨hpermit, htrue.cons⟩
  confirmed entry hmem := by
    rcases hconfirmed entry hmem with hold | hnew
    · obtain ⟨w₀, hmem₀, hremote₀⟩ := hs.confirmed entry hold
      exact ⟨w₀, List.mem_cons_of_mem _ hmem₀, hremote₀⟩
    · exact ⟨w', List.mem_cons_self, hnew⟩
  base metadata hwritten := by
    rcases hbase metadata hwritten with hold | ⟨h, credential, bytes, hdigest, hagreed, htrue⟩
    · obtain ⟨h, credential, bytes, hdigest, hagreed, htrue⟩ := hs.base metadata hold
      exact ⟨h, credential, bytes, hdigest, hagreed, htrue.cons⟩
    · exact ⟨h, credential, bytes, hdigest, hagreed, htrue.cons⟩
  pending engine conflict hinstalled := by
    rcases hpending engine conflict hinstalled with hold | ⟨h, call, hpermit, htrue⟩
    · obtain ⟨h, call, hpermit, htrue⟩ := hs.pending engine conflict hold
      exact ⟨h, call, hpermit, htrue.cons⟩
    · exact ⟨h, call, hpermit, htrue.cons⟩
  revisions object hobject w₀ hmem earlier hearlier hrevision := by
    rcases List.mem_cons.mp hmem with rfl | hmem
    · rw [hobject] at hearlier
      cases hearlier
      rfl
    · exact hremote object hobject w₀ hmem earlier hearlier hrevision

theorem Sound.perform (hs : Sound P past w) {caller : Nat} {effect : Effect V}
    {answer : Answer effect} (hstep : Step P S past w (.perform caller effect answer) w') :
    Sound P (w' :: past) w' := by
  obtain ⟨running, next, after, hcall, hprogram, hperforms, rfl⟩ := hstep
  obtain ⟨hsafe, htrue⟩ := hs.calls caller running hcall
  rw [hprogram] at hsafe
  obtain ⟨hpermit, hnext⟩ := hsafe
  have hchanges := hperforms.changes
  obtain ⟨hremote, hwire, hconfirmed, -⟩ := hchanges.frame
  apply hs.extend
  case hcalls =>
    intro other thread hthread
    rcases of_update_eq_some hthread with hold | hnew
    · exact .inl hold
    · obtain rfl := Option.some.inj hnew
      refine .inr ⟨hnext answer _ rfl, ?_⟩
      intro exchange hmem
      rcases List.mem_cons.mp hmem with rfl | hmem
      · exact hperforms.witnessed hs.current hs.confirmed rfl
      · exact (htrue exchange hmem).cons
  case hwire => exact fun request hmem => .inl (hwire ▸ hmem)
  case hconfirmed => exact fun entry hmem => .inl (hconfirmed ▸ hmem)
  case hbase =>
    intro metadata hbase
    rcases hchanges.base hbase with hold | rfl
    · exact .inl hold
    · obtain ⟨bytes, hdigest, hagreed⟩ := hpermit
      exact .inr ⟨running.transcript, running.call.credential, bytes, hdigest, hagreed, htrue⟩
  case hpending =>
    intro engine conflict hinstalled
    rcases hchanges.pending hinstalled with hold | rfl
    · exact .inl hold
    · exact .inr ⟨running.transcript, running.call, hpermit, htrue⟩
  case hremote => exact fun object hobject => hs.revisions object (hremote ▸ hobject)

theorem Sound.step (hs : Sound P past w) {event : Event V} (hstep : Step P S past w event w') :
    Sound P (w' :: past) w' := by
  cases event with
  | perform caller effect answer => exact hs.perform hstep
  | start caller engine call =>
    obtain ⟨-, rfl⟩ := hstep
    refine hs.extend ?_ (fun _ h => .inl h) (fun _ h => .inl h) (fun _ h => .inl h)
      (fun _ _ h => .inl h) hs.revisions
    intro other running hrunning
    rcases of_update_eq_some hrunning with hold | hnew
    · exact .inl hold
    · obtain rfl := Option.some.inj hnew
      exact .inr ⟨call.safe, truthful_nil⟩
  | send caller =>
    obtain ⟨running, request, next, hcall, hprogram, rfl⟩ := hstep
    obtain ⟨hsafe, htrue⟩ := hs.calls caller running hcall
    rw [hprogram] at hsafe
    refine hs.extend (fun _ _ h => .inl h) ?_ (fun _ h => .inl h) (fun _ h => .inl h)
      (fun _ _ h => .inl h) hs.revisions
    intro sent hmem
    rcases List.mem_cons.mp hmem with rfl | hmem
    · exact .inr ⟨hsafe.1, htrue⟩
    · exact .inl hmem
  | deliver request revision =>
    obtain ⟨hmem, haccepted, hfits, rfl⟩ := hstep
    refine hs.extend (fun _ _ h => .inl h) (fun _ h => .inl h) ?_ (fun _ h => .inl h)
      (fun _ _ h => .inl h) ?_
    · intro entry hentry
      rcases List.mem_cons.mp hentry with rfl | hentry
      · exact .inr rfl
      · exact .inl hentry
    · intro object hobject
      obtain rfl := Option.some.inj hobject
      exact hfits
  | drop caller =>
    subst hstep
    refine hs.extend ?_ (fun _ h => .inl h) (fun _ h => .inl h) (fun _ h => .inl h)
      (fun _ _ h => .inl h) hs.revisions
    intro other running hrunning
    rcases of_update_eq_some hrunning with hold | hnew
    · exact .inl hold
    · cases hnew
  | crash =>
    subst hstep
    exact hs.extend nofun (fun _ h => .inl h) (fun _ h => .inl h) (fun _ h => .inl h) nofun
      hs.revisions
  | ownerSaves snapshot =>
    subst hstep
    exact hs.extend (fun _ _ h => .inl h) (fun _ h => .inl h) (fun _ h => .inl h)
      (fun _ h => .inl h) (fun _ _ h => .inl h) hs.revisions
  | othersWrite object =>
    obtain ⟨hfits, rfl⟩ := hstep
    exact hs.extend (fun _ _ h => .inl h) (fun _ h => .inl h) (fun _ h => .inl h)
      (fun _ h => .inl h) (fun _ _ h => .inl h) hfits

/-- Every run is sound, by induction on its steps. -/
theorem Run.sound (hrun : Run P S past w) : Sound P past w := by
  induction hrun with
  | start initial => exact initial.sound
  | step run step ih => exact ih.step step

end Sound

end NianPass.Sync
