import NianPass.Session.Persist

/-
  The directory around a vault, with other processes in it.

  Every file-system step may fail. Between any two steps of a call other
  processes may replace the vault or its backup, except between the last check
  of the source and the renaming that installs the new generation. A check looks
  at the file it opens: what other processes do while it is read shows at the
  next step. They do not know the random names of the temporaries.

  A `World` also keeps what the theorems speak of: the directory as it would be
  without the call (`others`), what the call last read under each name
  (`opened`), whether another process has written there since (`disturbed`), what
  other processes wrote as the vault (`written`), whether cleaning up failed
  (`spilled`), and the generations before and after the installation
  (`installed`).
-/
namespace NianPass.Session

open Kdbx (Bytes KdbxDocument)
open Program (Machine Ensures Within)

variable {V C F : Type}

structure World where
  dir : Directory
  others : Directory
  opened : Path → Option Bytes
  disturbed : Path → Bool
  written : List Node
  spilled : Bool
  installed : Option (Node × Node)

/-- The world at the start of a call. -/
def World.start (dir : Directory) : World := ⟨dir, dir, fun _ => none, fun _ => false, [], false, none⟩

namespace World

/-- Another process writes. -/
def foreign (w : World) (path : Path) (node : Node) : World :=
  { w with
    dir := Function.update w.dir path node
    others := Function.update w.others path node
    disturbed := Function.update w.disturbed path true
    written := if path = .primary then node :: w.written else w.written }

/-- The call writes one of its temporaries. -/
def put (w : World) (name : String) (node : Node) : World :=
  { w with dir := Function.update w.dir (.temp name) node }

/-- The call reads the file under a name. -/
def see (w : World) (path : Path) (bytes : Bytes) : World :=
  { w with
    opened := Function.update w.opened path (some bytes)
    disturbed := Function.update w.disturbed path false }

def spill (w : World) (failed : Bool) : World := { w with spilled := w.spilled || failed }

/-- The call renames `source` to `destination`. -/
def move (w : World) (source destination : Path) : World :=
  { w with
    dir := Function.update (Function.update w.dir source .absent) destination (w.dir source)
    disturbed := Function.update w.disturbed destination false
    installed := if destination = .primary then some (w.dir .primary, w.dir source) else w.installed }

/-- `ReplaceFileW`, when it succeeds. -/
def exchange (w : World) (prepared : String) : World :=
  { w with
    dir := Function.update (Function.update (Function.update w.dir (.temp prepared) .absent)
      .backup (w.dir .primary)) .primary (w.dir (.temp prepared))
    installed := some (w.dir .primary, w.dir (.temp prepared)) }

section Api
variable {w : World} {name other : String} {node : Node} {path : Path}

@[simp] theorem put_primary : (w.put name node).dir .primary = w.dir .primary := by
  simp [put]

@[simp] theorem put_backup : (w.put name node).dir .backup = w.dir .backup := by
  simp [put]

@[simp] theorem put_self : (w.put name node).dir (.temp name) = node := by
  simp [put]

@[simp] theorem put_others : (w.put name node).others = w.others := rfl

theorem put_of_ne (h : other ≠ name) :
    (w.put name node).dir (.temp other) = w.dir (.temp other) := by
  simp [put, h]

/-- Other processes do not write the temporaries. -/
theorem foreign_temp (hpath : path = .primary ∨ path = .backup) :
    (w.foreign path node).dir (.temp name) = w.dir (.temp name) := by
  obtain rfl | rfl := hpath
  · simp [foreign]
  · simp [foreign]

theorem foreign_others_temp (hpath : path = .primary ∨ path = .backup) :
    (w.foreign path node).others (.temp name) = w.others (.temp name) := by
  obtain rfl | rfl := hpath
  · simp [foreign]
  · simp [foreign]

end Api

end World

def Node.shows : Node → FileType → Prop
  | .absent, _ => False
  | .symlink, fileType => fileType = .symlink
  | .special, fileType => fileType = .special
  | .regular _, fileType => fileType = .file

/-- Opening what stands under a name. A symbolic link leads anywhere. -/
def Node.opens : Node → (nofollow : Bool) → Handle → Prop
  | .absent, _, _ => False
  | .symlink, nofollow, _ => nofollow = false
  | .special, _, handle => handle.isFile = false
  | .regular bytes, _, handle => handle = ⟨true, bytes⟩

/-- What a step does, and how it may be answered. -/
def World.serves (w : World) : (request : Request V C) → Answer request → World → Prop
  | .symlinkMetadata path, answer, t => t = w ∧
    (∀ metadata, answer = .ok metadata → (w.dir path).shows metadata.fileType) ∧
    (answer = .error .notFound → w.dir path = .absent)
  | .pathExists path, answer, t => t = w ∧ (answer = true → w.dir path ≠ .absent)
  | .openFile path nofollow, answer, t =>
    (∃ handle, answer = .ok handle ∧ (w.dir path).opens nofollow handle ∧ t = w.see path handle.bytes) ∨
    ((∃ error, answer = .error error) ∧ t = w)
  | .handleMetadata handle, answer, t => t = w ∧ ∀ isFile, answer = .ok isFile → isFile = handle.isFile
  | .seek _, _, t => t = w
  | .read handle, answer, t => t = w ∧ ∀ bytes, answer = .ok bytes → bytes = handle.bytes
  | .random, _, t => t = w
  | .createNew name, answer, t =>
    (answer = .ok () ∧ w.dir (.temp name) = .absent ∧ t = w.put name (.regular [])) ∨
    ((∃ error, answer = .error error) ∧ t = w)
  | .identity _, answer, t => t = w.spill (!answer)
  | .serialize name _ _, _, t => ∃ bytes, t = w.put name (.regular bytes)
  | .writeAll name bytes, answer, t =>
    ∃ written, t = w.put name (.regular written) ∧ (answer = true → written = bytes)
  | .flush name, answer, t =>
    (answer = true ∧ t = w) ∨ (answer = false ∧ ∃ bytes, t = w.put name (.regular bytes))
  | .syncAll _, _, t => t = w
  | .setPermissions _ _, _, t => t = w
  | .syncPath _, _, t => t = w
  | .copy handle name, answer, t =>
    ∃ written, t = w.put name (.regular written) ∧ (answer = true → written = handle.bytes)
  | .rename source destination, answer, t =>
    (answer = true ∧ w.dir source ≠ .absent ∧ t = w.move source destination) ∨
    (answer = false ∧ t = w)
  | .removeFile name, answer, t => t = if answer then w.put name .absent else w.spill true
  | .sameFile _, answer, t => t = w.spill (!answer)
  | .syncParent, _, t => t = w
  | .replaceFile prepared, answer, t =>
    (answer = true ∧ w.dir .primary ≠ .absent ∧ w.dir (.temp prepared) ≠ .absent ∧
      t = w.exchange prepared) ∨
    (answer = false ∧ (t = w ∨ (w.dir .primary ≠ .absent ∧ t = w.move .primary .backup)))

/-- The steps before which no other process writes: reading on in an open file, and installing the
new generation. -/
def Request.undisturbed : Request V C → Bool
  | .handleMetadata _ => true
  | .seek _ => true
  | .read _ => true
  | .rename _ .primary => true
  | .replaceFile _ => true
  | _ => false

/-- What other processes do between two steps. -/
inductive Interferes : World → World → Prop
  | none {w} : Interferes w w
  | write {w w'} (path : Path) (node : Node) (hpath : path = .primary ∨ path = .backup)
      (before : Interferes w w') : Interferes w (w'.foreign path node)

/-- One step. In `alone` no other process writes. -/
def fsStep (alone : Bool) (w : World) (request : Request V C) (answer : Answer request) (t : World) :
    Prop :=
  ∃ mid, Interferes w mid ∧ (alone = true ∨ request.undisturbed = true → mid = w) ∧
    mid.serves request answer t

/-- The file system. `I` is asserted wherever the call can be stopped. -/
def fileSystem (alone : Bool) (I : World → Prop) : Machine (Request V C) Answer World where
  step := fsStep alone
  permits w _ := I w

/-! ## Steps that leave the files of the vault alone -/

/-- Requests that change no file but the temporaries in `owned`, and open files in `reads` only. -/
def Request.minds (owned : List String) (reads : Path → Prop) : Request V C → Prop
  | .createNew _ => False
  | .rename _ _ => False
  | .removeFile _ => False
  | .replaceFile _ => False
  | .serialize name _ _ => name ∈ owned
  | .writeAll name _ => name ∈ owned
  | .flush name => name ∈ owned
  | .copy _ name => name ∈ owned
  | .openFile path _ => reads path
  | _ => True

/-- A property that other processes, failed cleaning up, reading files in `reads` and writing
temporaries in `owned` do not take away. -/
structure Stable (alone : Bool) (owned : List String) (reads : Path → Prop) (P : World → Prop) :
    Prop where
  foreign : ∀ w path node, alone = false → path = .primary ∨ path = .backup → P w →
    P (w.foreign path node)
  spill : ∀ w failed, P w → P (w.spill failed)
  see : ∀ w path nofollow handle, reads path → (w.dir path).opens nofollow handle → P w →
    P (w.see path handle.bytes)
  put : ∀ w name bytes, name ∈ owned → P w → P (w.put name (.regular bytes))

section Stable
variable {owned : List String} {reads : Path → Prop} {P Q : World → Prop} {alone : Bool}
variable {I : World → Prop} {w t mid : World}

theorem Stable.and (h : Stable alone owned reads P) (h' : Stable alone owned reads Q) :
    Stable alone owned reads (fun w => P w ∧ Q w) where
  foreign w path node halone hpath hw :=
    ⟨h.foreign w path node halone hpath hw.1, h'.foreign w path node halone hpath hw.2⟩
  spill w failed hw := ⟨h.spill w failed hw.1, h'.spill w failed hw.2⟩
  see w path nofollow handle hreads hopens hw :=
    ⟨h.see w path nofollow handle hreads hopens hw.1, h'.see w path nofollow handle hreads hopens hw.2⟩
  put w name bytes howned hw := ⟨h.put w name bytes howned hw.1, h'.put w name bytes howned hw.2⟩

theorem Stable.interferes (h : Stable alone owned reads P) (halone : alone = true → mid = w)
    (hw : P w) (hmid : Interferes w mid) : P mid := by
  cases alone with
  | true =>
    rw [halone rfl]
    exact hw
  | false =>
    clear halone
    induction hmid with
    | none => exact hw
    | write path node hpath _ ih => exact h.foreign _ path node rfl hpath ih

theorem Stable.step (h : Stable alone owned reads P) {request : Request V C}
    {answer : Answer request} (hminds : request.minds owned reads) (hw : P w)
    (hstep : (fileSystem alone I).step w request answer t) : P t := by
  obtain ⟨mid, hmid, hquiet, hserves⟩ := hstep
  have hm := h.interferes (fun halone => hquiet (.inl halone)) hw hmid
  cases request with
  | symlinkMetadata | pathExists | handleMetadata | read =>
    obtain ⟨rfl, -⟩ := hserves
    exact hm
  | seek | random | syncAll | setPermissions | syncPath | syncParent =>
    cases hserves
    exact hm
  | openFile path nofollow =>
    obtain ⟨handle, -, hopens, rfl⟩ | ⟨-, rfl⟩ := hserves
    · exact h.see mid path nofollow handle hminds hopens hm
    · exact hm
  | identity | sameFile =>
    cases hserves
    exact h.spill mid _ hm
  | serialize name _ _ =>
    obtain ⟨bytes, rfl⟩ := hserves
    exact h.put mid name bytes hminds hm
  | writeAll name _ =>
    obtain ⟨written, rfl, -⟩ := hserves
    exact h.put mid name written hminds hm
  | copy _ name =>
    obtain ⟨written, rfl, -⟩ := hserves
    exact h.put mid name written hminds hm
  | flush name =>
    obtain ⟨-, rfl⟩ | ⟨-, bytes, rfl⟩ := hserves
    · exact hm
    · exact h.put mid name bytes hminds hm
  | createNew | rename | removeFile | replaceFile => cases hminds

/-- A program within such requests keeps a stable property. -/
theorem Stable.ensures (h : Stable alone owned reads P) {α : Type} {Y : SessionError → Prop}
    {p : Fs V C α} (hp : Within (Request.minds owned reads) Y p) (hI : ∀ w, P w → I w) (hw : P w) :
    Ensures (fileSystem alone I) p (fun t _ => P t) (fun t e => P t ∧ Y e) w :=
  hp.ensures (fun t _ _ ht => hI t ht) (fun _ _ _ _ hminds ht hstep => h.step hminds ht hstep) hw

end Stable

/-! ## What the reading functions find -/

section Reading
variable {owned : List String} {reads : Path → Prop} {Y : SessionError → Prop} {path : Path}

theorem within_orError {α ε : Type} {K : Request V C → Prop} {error : SessionError}
    {x : Except ε α} (h : Y error) : Within K Y (orError error x : Fs V C α) := by
  cases x with
  | ok a => exact Program.within_pure
  | error e => exact Program.within_throw h

theorem within_require {K : Request V C → Prop} {success : Bool} {error : SessionError}
    (h : Y error) : Within K Y (require success error : Fs V C Unit) := by
  cases success with
  | true => exact Program.within_pure
  | false => exact Program.within_throw h

theorem within_ask {K : Request V C → Prop} {request : Request V C} (h : K request) :
    Within K Y (ask request) :=
  Program.within_request h

theorem within_validateCurrentTarget (hread : Y .readSource) (hpath : Y .unsupportedPath) :
    Within (Request.minds owned reads) Y (validateCurrentTarget path : Fs V C Metadata) := by
  refine (within_ask trivial).bind fun answer => (within_orError hread).bind fun metadata => ?_
  exact Program.within_ite (Program.within_throw hpath) Program.within_pure

theorem within_ensureHandleRegular {file : Handle} (hread : Y .readSource)
    (hpath : Y .unsupportedPath) :
    Within (Request.minds owned reads) Y (ensureHandleRegular file : Fs V C Unit) := by
  refine (within_ask trivial).bind fun answer => (within_orError hread).bind fun isFile => ?_
  exact Program.within_ite Program.within_pure (Program.within_throw hpath)

theorem within_fromReader (E : Codec V C F) {file : Handle} {error : SessionError} (h : Y error) :
    Within (Request.minds owned reads) Y (fromReader E file error) := by
  refine (within_ask trivial).bind fun success => (within_require h).bind fun _ => ?_
  exact (within_ask trivial).bind fun answer => (within_orError h).bind fun _ => Program.within_pure

theorem within_openExistingFile {error : SessionError} (hreads : reads path) (h : Y error) :
    Within (Request.minds owned reads) Y (openExistingFile path error : Fs V C Handle) :=
  (within_ask hreads).bind fun _ => within_orError h

theorem within_fingerprintPath (E : Codec V C F) (hreads : reads path) (hread : Y .readSource)
    (hpath : Y .unsupportedPath) :
    Within (Request.minds owned reads) Y (fingerprintPath E path) :=
  (within_openExistingFile hreads hread).bind fun _ =>
    (within_ensureHandleRegular hread hpath).bind fun _ => within_fromReader E hread

end Reading

section Knowing
variable {owned : List String} {reads : Path → Prop} {P : World → Prop} {alone : Bool}
variable {I : World → Prop} {w t : World} {path : Path}

/-- The file under `path` is the one that was opened. -/
structure World.Shows (w : World) (path : Path) (bytes : Bytes) : Prop where
  dir : w.dir path = .regular bytes
  opened : w.opened path = some bytes
  disturbed : w.disturbed path = false

theorem ensures_orError {α ε σ : Type} {error : SessionError} {x : Except ε α} {F : σ → α → Prop}
    {X : σ → SessionError → Prop} {M : Machine (Request V C) Answer σ} {s : σ}
    (hok : ∀ a, x = .ok a → F s a) (herror : ∀ e, x = .error e → X s error) :
    Ensures M (orError error x : Fs V C α) F X s := by
  cases x with
  | ok a => exact Program.ensures_pure (hok a rfl)
  | error e => exact Program.ensures_throw (herror e rfl)

theorem ensures_require {σ : Type} {success : Bool} {error : SessionError} {F : σ → Unit → Prop}
    {X : σ → SessionError → Prop} {M : Machine (Request V C) Answer σ} {s : σ}
    (hok : success = true → F s ()) (herror : success = false → X s error) :
    Ensures M (require success error : Fs V C Unit) F X s := by
  cases success with
  | true => exact Program.ensures_pure (hok rfl)
  | false => exact Program.ensures_throw (herror rfl)

/-- Reading on in an open file is undisturbed. -/
theorem undisturbed_step {request : Request V C} {answer : Answer request}
    (hrequest : request.undisturbed = true) (hstep : (fileSystem alone I).step w request answer t) :
    w.serves request answer t := by
  obtain ⟨mid, -, hquiet, hserves⟩ := hstep
  rw [hquiet (.inr hrequest)] at hserves
  exact hserves

theorem ensures_fromReader (E : Codec V C F) {file : Handle} {error : SessionError} (hI : I w) :
    Ensures (fileSystem alone I) (fromReader E file error)
      (fun t fingerprint => t = w ∧ fingerprint = E.fingerprint file.bytes)
      (fun t e => t = w ∧ e = error) w := by
  refine Program.Ensures.bind (Program.ensures_request hI fun success t hstep => ?_)
  cases undisturbed_step rfl hstep
  refine Program.Ensures.bind (ensures_require (fun _ => ?_) fun _ => ⟨rfl, rfl⟩)
  refine Program.Ensures.bind (Program.ensures_request hI fun answer t hstep => ?_)
  obtain ⟨rfl, hread⟩ := undisturbed_step rfl hstep
  refine Program.Ensures.bind (ensures_orError (fun bytes hbytes => ?_) fun _ _ => ⟨rfl, rfl⟩)
  rw [hread bytes hbytes]
  exact Program.ensures_pure ⟨rfl, rfl⟩

theorem ensures_ensureHandleRegular {file : Handle} (hI : I w) :
    Ensures (fileSystem alone I) (ensureHandleRegular file : Fs V C Unit)
      (fun t _ => t = w ∧ file.isFile = true)
      (fun t e => t = w ∧ (e = .readSource ∨ e = .unsupportedPath)) w := by
  refine Program.Ensures.bind (Program.ensures_request hI fun answer t hstep => ?_)
  obtain ⟨rfl, hmetadata⟩ := undisturbed_step rfl hstep
  refine Program.Ensures.bind (ensures_orError (fun isFile hisFile => ?_) fun _ _ => ⟨rfl, .inl rfl⟩)
  refine Program.ensures_ite (fun htrue => ?_) fun _ => Program.ensures_throw ⟨rfl, .inr rfl⟩
  exact Program.ensures_pure ⟨rfl, (hmetadata isFile hisFile).symm.trans htrue⟩

/-- What is opened, without following a link, is what stands there. -/
theorem ensures_openExistingFile (h : Stable alone owned reads P) (hreads : reads path)
    (hI : ∀ w, P w → I w) {error : SessionError} (hw : P w) :
    Ensures (fileSystem alone I) (openExistingFile path error : Fs V C Handle)
      (fun t file => P t ∧ (file.isFile = true → t.Shows path file.bytes))
      (fun t e => P t ∧ e = error) w := by
  refine Program.Ensures.bind (Program.ensures_request (hI w hw) fun answer t hstep => ?_)
  have hminds : (Request.openFile path true : Request V C).minds owned reads := hreads
  have ht : P t := h.step hminds hw hstep
  obtain ⟨mid, -, -, hserves⟩ := hstep
  refine ensures_orError (fun file hfile => ⟨ht, fun hisFile => ?_⟩) fun _ _ => ⟨ht, rfl⟩
  obtain ⟨handle, rfl, hopens, rfl⟩ | ⟨⟨_, rfl⟩, -⟩ := hserves
  · cases hfile
    refine ⟨?_, Function.update_self _ _ _, Function.update_self _ _ _⟩
    change mid.dir path = _
    cases hnode : mid.dir path with
    | absent =>
      rw [hnode] at hopens
      cases hopens
    | symlink =>
      rw [hnode] at hopens
      cases hopens
    | special =>
      rw [hnode] at hopens
      rw [show file.isFile = false from hopens] at hisFile
      cases hisFile
    | regular bytes =>
      rw [hnode] at hopens
      rw [show file = ⟨true, bytes⟩ from hopens]
  · cases hfile

theorem ensures_fingerprintPath (E : Codec V C F) (h : Stable alone owned reads P)
    (hreads : reads path) (hI : ∀ w, P w → I w) (hw : P w) :
    Ensures (fileSystem alone I) (fingerprintPath E path)
      (fun t fingerprint => P t ∧ ∃ bytes, fingerprint = E.fingerprint bytes ∧ t.Shows path bytes)
      (fun t e => P t ∧ (e = .readSource ∨ e = .unsupportedPath)) w := by
  refine Program.Ensures.bind (Program.Ensures.weaken
    (ensures_openExistingFile h hreads hI hw) (fun t file ht => ?_) fun t e ht => ⟨ht.1, .inl ht.2⟩)
  refine Program.Ensures.bind (Program.Ensures.weaken
    (ensures_ensureHandleRegular (hI t ht.1)) ?_ ?_)
  · rintro _ _ ⟨rfl, hisFile⟩
    refine Program.Ensures.weaken (ensures_fromReader E (hI _ ht.1)) ?_ ?_
    · rintro _ fingerprint ⟨rfl, rfl⟩
      exact ⟨ht.1, file.bytes, rfl, ht.2 hisFile⟩
    · rintro _ e ⟨rfl, rfl⟩
      exact ⟨ht.1, .inl rfl⟩
  · rintro _ e ⟨rfl, he⟩
    exact ⟨ht.1, he⟩

variable [DecidableEq F]

/-- The source is unchanged, and it is what stands there. -/
theorem ensures_requireSourceUnchanged (E : Codec V C F) {session : VaultSession V F}
    (h : Stable alone owned reads P) (hreads : reads .primary) (hI : ∀ w, P w → I w) (hw : P w) :
    Ensures (fileSystem alone I) (requireSourceUnchanged E session)
      (fun t _ => P t ∧ ∃ bytes, E.fingerprint bytes = session.sourceFingerprint ∧
        t.Shows .primary bytes)
      (fun t e => P t ∧ (e = .readSource ∨ e = .unsupportedPath ∨
        (e = .externalModificationDetected ∧ ∃ bytes,
          E.fingerprint bytes ≠ session.sourceFingerprint ∧ t.Shows .primary bytes))) w := by
  have hvalidate : Ensures (fileSystem alone I) (validateCurrentTarget .primary : Fs V C Metadata)
      (fun t _ => P t) (fun t e => P t ∧ (e = .readSource ∨ e = .unsupportedPath)) w :=
    h.ensures (within_validateCurrentTarget (.inl rfl) (.inr rfl)) hI hw
  refine Program.Ensures.bind (Program.Ensures.weaken hvalidate (fun t _ ht => ?_) fun t e ht => ?_)
  · refine Program.Ensures.bind (Program.Ensures.weaken
      (ensures_fingerprintPath E h hreads hI ht) ?_ fun t e ht => ⟨ht.1, ht.2.imp id .inl⟩)
    rintro t fingerprint ⟨ht, bytes, rfl, hshows⟩
    refine Program.ensures_ite (fun heq => ?_) fun hne => ?_
    · exact Program.ensures_pure ⟨ht, bytes, heq, hshows⟩
    · exact Program.ensures_throw ⟨ht, .inr (.inr ⟨rfl, bytes, hne, hshows⟩)⟩
  · exact ⟨ht.1, ht.2.imp id .inl⟩

omit [DecidableEq F] in
/-- A document that opens, at a path where no link is followed. -/
theorem ensures_openDocument (E : Codec V C F) {credential : C} {wrap : DocumentError → SessionError}
    {bytes : Bytes} (h : Stable alone owned reads P) (hreads : reads path) (hI : ∀ w, P w → I w)
    (hpath : ∀ w, P w → w.dir path = .regular bytes) (hw : P w) :
    Ensures (fileSystem alone I) (openDocumentWithCredential E path credential wrap)
      (fun t document => P t ∧ E.parse credential bytes = .ok document ∧ t.opened path = some bytes)
      (fun t e => P t ∧ ∃ error, e = wrap error) w := by
  refine Program.Ensures.bind (Program.ensures_request (hI w hw) fun answer t hstep => ?_)
  have hminds : (Request.openFile path false : Request V C).minds owned reads := hreads
  have ht : P t := h.step hminds hw hstep
  obtain ⟨mid, hmid, hquiet, hserves⟩ := hstep
  have hm : P mid := h.interferes (fun halone => hquiet (.inl halone)) hw hmid
  refine Program.Ensures.bind (ensures_orError (fun file hfile => ?_) fun _ _ => ⟨ht, _, rfl⟩)
  refine Program.Ensures.bind (Program.ensures_request (hI t ht) fun answer' t' hstep => ?_)
  obtain ⟨rfl, hread⟩ := undisturbed_step rfl hstep
  refine Program.Ensures.bind (ensures_orError (fun found hfound => ?_) fun _ _ => ⟨ht, _, rfl⟩)
  obtain ⟨handle, rfl, hopens, rfl⟩ | ⟨⟨_, rfl⟩, -⟩ := hserves
  · cases hfile
    rw [hpath mid hm] at hopens
    cases hopens
    rw [hread found hfound]
    cases hparse : E.parse credential bytes with
    | ok document => exact Program.ensures_pure ⟨ht, rfl, Function.update_self _ _ _⟩
    | error error => exact Program.ensures_throw ⟨ht, error, rfl⟩
  · cases hfile

/-- One generation was parsed, and it is the one that stands there. -/
theorem ensures_openStableDocument (E : Codec V C F) {credential : C} (h : Stable alone owned reads P)
    (hreads : reads path) (hI : ∀ w, P w → I w) (hw : P w) :
    Ensures (fileSystem alone I) (openStableDocument E path credential)
      (fun t found => P t ∧ ∃ bytes parsed, found.2 = E.fingerprint bytes ∧
        E.fingerprint parsed = E.fingerprint bytes ∧ E.parse credential parsed = .ok found.1 ∧
        t.Shows path bytes)
      (fun t e => P t ∧ (e = .readSource ∨ e = .unsupportedPath ∨
        e = .externalModificationDetected ∨ ∃ error, e = .kdbx error)) w := by
  have hvalidate : ∀ w, P w → Ensures (fileSystem alone I)
      (validateCurrentTarget path : Fs V C Metadata) (fun t _ => P t)
      (fun t e => P t ∧ (e = .readSource ∨ e = .unsupportedPath ∨
        e = .externalModificationDetected ∨ ∃ error, e = .kdbx error)) w := fun w hw =>
    h.ensures (within_validateCurrentTarget (.inl rfl) (.inr (.inl rfl))) hI hw
  refine Program.Ensures.bind (Program.Ensures.weaken (hvalidate w hw) (fun t _ ht => ?_)
    fun _ _ ht => ht)
  refine Program.Ensures.bind (Program.Ensures.weaken
    (ensures_openExistingFile h hreads hI ht) (fun t source hsource => ?_)
    fun _ _ ht => ⟨ht.1, .inl ht.2⟩)
  have hP := hsource.1
  refine Program.Ensures.bind (Program.Ensures.weaken (ensures_ensureHandleRegular (hI t hP)) ?_ ?_)
  swap
  · rintro _ e ⟨rfl, he⟩
    exact ⟨hP, he.imp id .inl⟩
  rintro _ _ ⟨rfl, -⟩
  refine Program.Ensures.bind (Program.Ensures.weaken (ensures_fromReader E (hI _ hP)) ?_ ?_)
  swap
  · rintro _ e ⟨rfl, rfl⟩
    exact ⟨hP, .inl rfl⟩
  rintro _ _ ⟨rfl, rfl⟩
  refine Program.Ensures.bind (Program.ensures_request (hI _ hP) fun success _ hstep => ?_)
  cases undisturbed_step rfl hstep
  refine Program.Ensures.bind (ensures_require (fun _ => ?_) fun _ => ⟨hP, .inl rfl⟩)
  refine Program.Ensures.bind (Program.ensures_request (hI _ hP) fun answer _ hstep => ?_)
  obtain ⟨rfl, hread⟩ := undisturbed_step rfl hstep
  refine Program.Ensures.bind (ensures_orError (fun bytes hbytes => ?_)
    fun _ _ => ⟨hP, .inr (.inr (.inr ⟨_, rfl⟩))⟩)
  rw [hread bytes hbytes]
  cases hparse : E.parse credential source.bytes with
  | error error => exact Program.ensures_throw ⟨hP, .inr (.inr (.inr ⟨error, rfl⟩))⟩
  | ok document =>
    refine Program.Ensures.bind (Program.ensures_request (hI _ hP) fun success _ hstep => ?_)
    cases undisturbed_step rfl hstep
    refine Program.Ensures.bind (ensures_require (fun _ => ?_) fun _ => ⟨hP, .inl rfl⟩)
    refine Program.Ensures.bind (Program.Ensures.weaken (ensures_fromReader E (hI _ hP)) ?_ ?_)
    swap
    · rintro _ e ⟨rfl, rfl⟩
      exact ⟨hP, .inl rfl⟩
    rintro _ _ ⟨rfl, rfl⟩
    refine Program.ensures_ite (fun hne => absurd rfl hne) fun _ => ?_
    refine Program.Ensures.bind (Program.Ensures.weaken (hvalidate _ hP) (fun t _ ht => ?_)
      fun _ _ ht => ht)
    refine Program.Ensures.bind (Program.Ensures.weaken
      (ensures_fingerprintPath E h hreads hI ht) ?_ fun _ _ ht => ⟨ht.1, ht.2.imp id .inl⟩)
    rintro t _ ⟨ht, bytes, rfl, hshows⟩
    refine Program.ensures_ite (fun _ => ?_) fun hsame => ?_
    · exact Program.ensures_throw ⟨ht, .inr (.inr (.inl rfl))⟩
    · have hsame : E.fingerprint source.bytes = E.fingerprint bytes := not_not.mp hsame
      exact Program.ensures_pure ⟨ht, bytes, source.bytes, hsame, hsame, hparse, hshows⟩

end Knowing

end NianPass.Session
