import NianPass.Session.Truthful

/-
  The generations of one vault, over any run.

  A run opens sessions, edits them, saves, rotates the credential and applies
  replacements from sync; a call may fail at every file-system step, and the
  process may die between any two of them. Other processes write the vault and
  its backup as they like, except between the last source check and the
  installation.

  The run keeps what may stand in the vault since the last installation. Wherever
  a call is stopped, the vault is one of these (`backup_generations`), and each of
  them was found there, was written by another process, or was installed by a call
  of this run, which had re-opened and verified it before. A save that reports
  success leaves the generation it replaced as the backup.
-/
namespace NianPass.Session

open Kdbx (Bytes KdbxDocument)
open Program (Machine Ensures Within Safe Reaches)

variable {V C F : Type} [DecidableEq V] [DecidableEq F]

/-- What was put in the vault, and by whom. -/
inductive Generation (V C F : Type) where
  | found (node : Node)
  | foreign (node : Node)
  | installed (session : VaultSession V F) (call : Call C F) (opened : Path → Option Bytes)
      (node : Node)

namespace Generation

def node : Generation V C F → Node
  | .found node => node
  | .foreign node => node
  | .installed _ _ _ node => node

/-- What a call installed is what it was to install, and it had re-opened it under a temporary
name. -/
def Verified (E : Codec V C F) : Generation V C F → Prop
  | .installed session call opened node =>
    ∃ bytes, node = .regular bytes ∧ call.good E session bytes ∧
      ∃ name, opened (.temp name) = some bytes
  | _ => True

end Generation

/-- What may stand in the vault after a call, or while it runs: what other processes wrote
meanwhile, and what the call installed or else what was there before. -/
def generations (session : VaultSession V F) (call : Call C F) (w : World)
    (before : List (Generation V C F)) : List (Generation V C F) :=
  w.written.map .foreign ++
    match w.installed with
    | some (_, new) => [.installed session call w.opened new]
    | none => before

/-- A run: the directory and the session it arrives at, and what may stand in the vault. -/
inductive History (E : Codec V C F) :
    Directory → Option (VaultSession V F) → List (Generation V C F) → Prop
  | start (dir : Directory) : History E dir none [.found (dir .primary)]
  | foreignVault {dir session standing} (node : Node) (before : History E dir session standing) :
      History E (Function.update dir .primary node) session [.foreign node]
  | foreignBackup {dir session standing} (node : Node) (before : History E dir session standing) :
      History E (Function.update dir .backup node) session standing
  | opened {dir session standing alone credential opened w}
      (before : History E dir session standing)
      (run : Reaches (fsStep alone) (openSession E credential).run (World.start dir)
        (.done (.ok opened)) w) : History E w.dir (some opened) (w.written.map .foreign ++ standing)
  | edited {dir standing} {session : VaultSession V F} (document : KdbxDocument V)
      (before : History E dir (some session) standing) :
      History E dir (some { session with document }) standing
  | finished {dir standing session alone call result session' w}
      (before : History E dir (some session) standing)
      (run : Ends E alone session call dir result session' w) :
      History E w.dir (some session') (generations session call w standing)
  | died {dir standing} {session : VaultSession V F} {alone} {call : Call C F} {q w}
      (before : History E dir (some session) standing)
      (run : Reaches (fsStep alone) (call.run E .unix session) (World.start dir) q w) :
      History E w.dir none (generations session call w standing)

/-! ## What stands there without the call -/

/-- The vault as it would be without the call was there at the start, or another process wrote
it. -/
def Theirs (node : Node) (w : World) : Prop :=
  w.others .primary = node ∨ w.others .primary ∈ w.written

section Theirs
variable {alone : Bool} {node : Node} {w t mid : World}

theorem Theirs.interferes (h : Theirs node w) (hmid : Interferes w mid) : Theirs node mid := by
  induction hmid with
  | none => exact h
  | write path new hpath _ ih =>
    obtain rfl | rfl := hpath
    · exact .inr (by simp [World.foreign])
    · simpa [Theirs, World.foreign] using ih

omit [DecidableEq V] in
/-- No step of the call changes what would be there without it. -/
theorem World.serves_others {request : Request V C} {answer : Answer request}
    (h : w.serves request answer t) : t.others = w.others ∧ t.written = w.written := by
  cases request with
  | symlinkMetadata | pathExists | handleMetadata | read =>
    obtain ⟨rfl, -⟩ := h
    exact ⟨rfl, rfl⟩
  | seek | random | syncAll | setPermissions | syncPath | syncParent | identity | sameFile =>
    cases h
    exact ⟨rfl, rfl⟩
  | openFile =>
    obtain ⟨handle, -, -, rfl⟩ | ⟨-, rfl⟩ := h
    · exact ⟨rfl, rfl⟩
    · exact ⟨rfl, rfl⟩
  | createNew =>
    obtain ⟨-, -, rfl⟩ | ⟨-, rfl⟩ := h
    · exact ⟨rfl, rfl⟩
    · exact ⟨rfl, rfl⟩
  | serialize =>
    obtain ⟨bytes, rfl⟩ := h
    exact ⟨rfl, rfl⟩
  | writeAll | copy =>
    obtain ⟨bytes, rfl, -⟩ := h
    exact ⟨rfl, rfl⟩
  | flush =>
    obtain ⟨-, rfl⟩ | ⟨-, bytes, rfl⟩ := h
    · exact ⟨rfl, rfl⟩
    · exact ⟨rfl, rfl⟩
  | rename =>
    obtain ⟨-, -, rfl⟩ | ⟨-, rfl⟩ := h
    · exact ⟨rfl, rfl⟩
    · exact ⟨rfl, rfl⟩
  | removeFile name =>
    cases answer with
    | true =>
      cases h
      exact ⟨rfl, rfl⟩
    | false =>
      cases h
      exact ⟨rfl, rfl⟩
  | replaceFile =>
    obtain ⟨-, -, -, rfl⟩ | ⟨-, rfl | ⟨-, rfl⟩⟩ := h
    · exact ⟨rfl, rfl⟩
    · exact ⟨rfl, rfl⟩
    · exact ⟨rfl, rfl⟩

omit [DecidableEq V] in
theorem Theirs.reaches {α : Type} {p q : Program (Request V C) Answer α} (h : Theirs node w)
    (hreaches : Reaches (fsStep alone) p w q t) : Theirs node t := by
  induction hreaches with
  | here => exact h
  | later first rest ih =>
    obtain ⟨mid, hmid, -, hserves⟩ := first
    obtain ⟨hothers, hwritten⟩ := World.serves_others hserves
    apply ih
    unfold Theirs
    rw [hothers, hwritten]
    exact h.interferes hmid

end Theirs

/-! ## Runs -/

/-- The vault is one of the generations, and those that a call installed are verified. -/
structure Legitimate (E : Codec V C F) (standing : List (Generation V C F)) (node : Node) :
    Prop where
  stands : ∃ generation ∈ standing, node = generation.node
  verified : ∀ generation ∈ standing, generation.Verified E

section Runs
variable {E : Codec V C F} {dir : Directory} {session : VaultSession V F}
variable {standing : List (Generation V C F)} {alone : Bool} {call : Call C F} {w : World}
variable {node before : Node} {written : List Node}
variable {q : Program (Request V C) Answer (Except SessionError SaveOutcome × VaultSession V F)}

omit [DecidableEq F] in
theorem Legitimate.after (h : Legitimate E standing before) (hnode : node = before ∨ node ∈ written) :
    Legitimate E (written.map .foreign ++ standing) node where
  stands := by
    obtain rfl | hwritten := hnode
    · obtain ⟨generation, hmem, hsame⟩ := h.stands
      exact ⟨generation, List.mem_append_right _ hmem, hsame⟩
    · exact ⟨.foreign node, List.mem_append_left _ (List.mem_map_of_mem hwritten), rfl⟩
  verified := by
    intro generation hmem
    obtain hforeign | hstanding := List.mem_append.mp hmem
    · obtain ⟨other, -, rfl⟩ := List.mem_map.mp hforeign
      trivial
    · exact h.verified generation hstanding

/-- One call, wherever it is stopped. -/
theorem call_legitimate (hinj : Function.Injective E.fingerprint)
    (hdir : Legitimate E standing (dir .primary))
    (hreaches : Reaches (fsStep alone) (call.run E .unix session) (World.start dir) q w) :
    Legitimate E (generations session call w standing) (w.dir .primary) := by
  have htheirs : Theirs (dir .primary) w := Theirs.reaches (.inl rfl) hreaches
  have hpending : Pending E session alone False [] (World.start dir) := pending_start False.elim
  have hsound : Sound E session (call.good E session) w :=
    (call.safe hinj False.elim hpending).always (fun _ _ h => h) (fun _ _ h => h.sound) hreaches
  unfold generations
  obtain ⟨owned, huntouched⟩ | ⟨old, new, hinstalled⟩ := hsound
  · rw [huntouched.installed, huntouched.primary]
    exact hdir.after htheirs
  · rw [hinstalled.installed]
    obtain ⟨name, hopened, -⟩ := hinstalled.reopened
    have hnew : Legitimate E [.installed session call w.opened (.regular new)] (.regular new) := by
      refine ⟨⟨_, List.mem_singleton.mpr rfl, rfl⟩, fun generation hmem => ?_⟩
      obtain rfl := List.mem_singleton.mp hmem
      exact ⟨new, rfl, hinstalled.good, name, hopened⟩
    exact hnew.after hinstalled.primary

omit [DecidableEq V] in
/-- Opening a session changes nothing. -/
theorem open_untouched {credential : C} {result : Except SessionError (VaultSession V F)}
    (h : Reaches (fsStep alone) (openSession E credential).run (World.start dir) (.done result) w) :
    w.dir .primary = w.others .primary := by
  have hP : Stable alone [] (fun _ => True) (fun w => w.dir .primary = w.others .primary) := by
    refine ⟨fun w path node _ hpath hw => ?_, fun _ _ hw => hw, fun _ _ _ _ _ _ hw => hw,
      fun _ _ _ hname => by cases hname⟩
    simp only [World.foreign, Function.update_apply, hw]
  have hI : ∀ w : World, w.dir .primary = w.others .primary → True := fun _ _ => trivial
  have hvalidate : Within (Request.minds [] fun _ => True) (fun _ => True)
      (validateCurrentTarget .primary : Fs V C Metadata) :=
    within_validateCurrentTarget trivial trivial
  have hopen : Ensures (fileSystem alone fun _ => True) (openSession E credential)
      (fun t _ => t.dir .primary = t.others .primary)
      (fun t _ => t.dir .primary = t.others .primary) (World.start dir) := by
    refine Program.Ensures.bind (Program.Ensures.weaken (hP.ensures hvalidate hI rfl)
      (fun t _ ht => ?_) fun _ _ h => h.1)
    refine Program.Ensures.bind (Program.Ensures.weaken (hP.ensures hvalidate hI ht)
      (fun t _ ht => ?_) fun _ _ h => h.1)
    refine Program.Ensures.bind (Program.Ensures.weaken
      (ensures_openStableDocument E hP trivial hI ht) (fun t _ ht => ?_) fun _ _ h => h.1)
    exact Program.ensures_pure ht.1
  have hend := Safe.reaches hopen h
  cases result with
  | ok session => exact hend
  | error e => exact hend

theorem History.legitimate (hinj : Function.Injective E.fingerprint)
    {session : Option (VaultSession V F)} (h : History E dir session standing) :
    Legitimate E standing (dir .primary) := by
  induction h with
  | start dir => exact ⟨⟨_, List.mem_singleton.mpr rfl, rfl⟩, by simp [Generation.Verified]⟩
  | foreignVault node before ih =>
    exact ⟨⟨.foreign node, List.mem_singleton.mpr rfl, by simp [Generation.node]⟩,
      by simp [Generation.Verified]⟩
  | foreignBackup node before ih => simpa using ih
  | opened before run ih =>
    rw [open_untouched run]
    exact ih.after (Theirs.reaches (.inl rfl) run)
  | edited document before ih => exact ih
  | finished before run ih => exact call_legitimate hinj ih run
  | died before run ih => exact call_legitimate hinj ih run

end Runs

/-- Wherever a call of a run is stopped, the vault is one complete generation; a save that reports
success leaves the generation it replaced as the backup, and one that failed before the
installation leaves both as they were. -/
theorem backup_generations (E : Codec V C F) (hinj : Function.Injective E.fingerprint)
    (dir : Directory) (session : VaultSession V F) (standing : List (Generation V C F))
    (hhistory : History E dir (some session) standing) (alone : Bool) (call : Call C F)
    (q : Program (Request V C) Answer (Except SessionError SaveOutcome × VaultSession V F))
    (w : World)
    (hreaches : Reaches (fsStep alone) (call.run E .unix session) (World.start dir) q w) :
    Legitimate E (generations session call w standing) (w.dir .primary) ∧
    ∀ result session', q = .done (result, session') →
      (result = .ok .saved → ∃ old new, w.installed = some (.regular old, .regular new) ∧
        (w.disturbed .backup = false → w.dir .backup = .regular old)) ∧
      (∀ e, result = .error e → w.installed = none →
        w.dir .primary = w.others .primary ∧ w.dir .backup = w.others .backup) := by
  refine ⟨call_legitimate hinj (hhistory.legitimate hinj) hreaches, ?_⟩
  rintro result session' rfl
  have hreport : Report E session (call.good E session) call.credential False w (result, session') :=
    Ends.report hinj False.elim False.elim hreaches
  refine ⟨?_, ?_⟩
  · rintro rfl
    obtain ⟨old, new, seen, hinstalled, -, -, -, hrotated⟩ := hreport
    exact ⟨old, new, hinstalled.installed, hrotated⟩
  · rintro e rfl hnone
    obtain ⟨-, -, huntouched⟩ | ⟨-, -, old, new, hinstalled⟩ |
      ⟨-, old, new, seen, hinstalled, -⟩ := hreport
    · exact ⟨huntouched.primary, huntouched.backup⟩
    · rw [hinstalled.installed] at hnone
      cases hnone
    · rw [hinstalled.installed] at hnone
      cases hnone

/-- The session is opened where nothing fails. -/
def openedRun : Except SessionError (VaultSession Unit Bytes) × World :=
  perform ⟨.ok [2], true⟩ (openSession sampleCodec ()).run (World.start sampleDirectory)

/-- A first save. -/
def savedRun : (Except SessionError SaveOutcome × VaultSession Unit Bytes) × World :=
  perform ⟨.ok [2], true⟩ (Call.run sampleCodec .unix sampleSession (.save ()))
    (World.start openedRun.2.dir)

/-- The session after it, with another edit. -/
def editedSession : VaultSession Unit Bytes :=
  { savedRun.1.2 with document := { sampleDocument with revision := 2 } }

/-- A second save, over the first. -/
def resavedRun : (Except SessionError SaveOutcome × VaultSession Unit Bytes) × World :=
  perform ⟨.ok [1], true⟩ (Call.run sampleCodec .unix editedSession (.save ()))
    (World.start savedRun.2.dir)

set_option maxRecDepth 100000 in
theorem opened_sample : openedRun.1 = .ok ⟨sampleDocument, [1], 0⟩ := by
  decide +kernel

theorem history_sample : History sampleCodec savedRun.2.dir (some editedSession)
    (generations sampleSession (.save ()) savedRun.2
      (openedRun.2.written.map .foreign ++ [.found (sampleDirectory .primary)])) := by
  have hrun := reaches_perform ⟨.ok [2], true⟩ true (openSession sampleCodec ()).run
    (World.start sampleDirectory)
  have hopened : Reaches (fsStep true) (openSession sampleCodec ()).run (World.start sampleDirectory)
      (.done (.ok ⟨sampleDocument, [1], 0⟩)) openedRun.2 := by
    rw [← opened_sample]
    exact hrun
  have hedited := History.edited { sampleDocument with revision := 1 }
    (.opened (.start sampleDirectory) hopened)
  exact .edited { sampleDocument with revision := 2 } (.finished hedited
    (reaches_perform ⟨.ok [2], true⟩ true (Call.run sampleCodec .unix sampleSession (.save ())) _))

set_option maxRecDepth 100000 in
/-- The second save leaves the generation of the first as the backup. -/
theorem backup_generations_saved :
    resavedRun.1.1 = .ok .saved ∧ resavedRun.2.dir .primary = .regular [1] ∧
    (∃ generation ∈ generations editedSession (.save ()) resavedRun.2
      (generations sampleSession (.save ()) savedRun.2
        (openedRun.2.written.map .foreign ++ [.found (sampleDirectory .primary)])),
      .regular [1] = generation.node ∧ generation.Verified sampleCodec) ∧
    resavedRun.2.dir .backup = .regular [2] := by
  have hsaved : resavedRun.1.1 = .ok .saved := by decide +kernel
  have hprimary : resavedRun.2.dir .primary = .regular [1] := by decide +kernel
  have hquiet : resavedRun.2.disturbed .backup = false := by decide +kernel
  have hinstalled : resavedRun.2.installed = some (.regular [2], .regular [1]) := by decide +kernel
  obtain ⟨hlegitimate, hend⟩ := backup_generations sampleCodec (fun _ _ h => h) _ editedSession _
    history_sample true (.save ()) _ _ (reaches_perform ⟨.ok [1], true⟩ true _ _)
  obtain ⟨old, new, hsame, hbackup⟩ := (hend resavedRun.1.1 resavedRun.1.2 rfl).1 hsaved
  obtain ⟨generation, hmem, hnode⟩ := hlegitimate.stands
  have hold : Node.regular old = .regular [2] := congrArg (·.1) (Option.some.inj
    (hsame.symm.trans hinstalled))
  exact ⟨hsaved, hprimary, ⟨generation, hmem, hprimary.symm.trans hnode,
    hlegitimate.verified generation hmem⟩, (hbackup hquiet).trans hold⟩

end NianPass.Session
