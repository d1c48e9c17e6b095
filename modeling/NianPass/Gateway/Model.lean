import NianPass.Lib.Chars
import NianPass.Lib.Register
import NianPass.Sync.Model

/-
  The self-hosted gateway: `apps/sync-gateway`.

  A request is a future that the server drops when the connection times out or
  the client leaves. What touches files runs in a blocking task that the future
  waits for; a task that was started goes on after its future was dropped. The
  guard of the per-object lock lives in the future.

  `step` is one step of one future or of one task, so that a list of actions is
  an interleaving. Every file-system step may fail. An object is written to a
  private temporary and installed by a rename, so a file that was opened does
  not change. `trace` records for each request when it was invoked, when its
  task read the object or renamed onto it, and what was answered; no step looks
  at it.
-/
namespace NianPass.Gateway

open Kdbx (Bytes)
open Register (Operation Effect Event Mark Store)
open Sync (maxRemoteCiphertextBytes)

/-! ## Requests -/

/-- What the server uses of `uuid` and of `sha2`. -/
structure Crates (I : Type) where
  parseUuid : String → Option I
  isRandom : I → Bool
  hyphenated : I → String
  sha256 : Bytes → Bytes

inductive Status where
  | ok
  | created
  | noContent
  | badRequest
  | unauthorized
  | notFound
  | methodNotAllowed
  | requestTimeout
  | preconditionFailed
  | payloadTooLarge
  | unsupportedMediaType
  | preconditionRequired
  | internalServerError
  | serviceUnavailable
  deriving DecidableEq, Repr

inductive Response where
  | fixed (status : Status) (text : String)
  | object (bytes : Bytes) (revision : String)
  | emptyWithEtag (status : Status) (revision : String)
  deriving DecidableEq, Repr

inductive Method where
  | get
  | put
  | other
  deriving DecidableEq, Repr

/-- The headers the server looks at; a value that is not visible ASCII is `none`. -/
structure Headers where
  contentType : List (Option String) := []
  contentLength : List (Option String) := []
  ifNoneMatch : List (Option String) := []
  ifMatch : List (Option String) := []
  deriving DecidableEq, Repr

/-- A request whose body has not been read; `authenticates` is what `TokenVerifier` says. -/
structure Request where
  method : Method
  path : String
  query : Option String := none
  authenticates : Bool := true
  headers : Headers := {}
  deriving DecidableEq, Repr

def Request.uri (request : Request) : String :=
  match request.query with
  | some query => request.path ++ "?" ++ query
  | none => request.path

def maxRequestTargetBytes : Nat := 256
def maxConcurrentWrites : Nat := 4

inductive WriteCondition where
  | create
  | replace (expected : String)
  deriving DecidableEq, Repr

def singleHeader : List (Option String) → Except Status (Option String)
  | [] => .ok none
  | [some value] => .ok (some value)
  | _ => .error .badRequest

def isEtagDigit (char : Char) : Bool := char.isDigit || ('a' ≤ char && char ≤ 'f')

def validStrongEtag (value : String) : Bool :=
  value.toList.length == 66 && value.toList.head? == some '"' && value.toList.getLast? == some '"' &&
    ((value.toList.drop 1).take 64).all isEtagDigit

def condition (headers : Headers) : Except Status WriteCondition := do
  let create ← singleHeader headers.ifNoneMatch
  let replace ← singleHeader headers.ifMatch
  match create, replace with
  | some "*", none => .ok .create
  | none, some value => if validStrongEtag value then .ok (.replace value) else .error .badRequest
  | none, none => .error .preconditionRequired
  | _, _ => .error .badRequest

def statusText : Status → String
  | .preconditionRequired => "Precondition Required\n"
  | _ => "Bad Request\n"

def stripPrefix (value start : String) : Option String :=
  if start.toList.isPrefixOf value.toList then
    some (String.ofList (value.toList.drop start.toList.length))
  else none

variable {I : Type}

def vaultId (G : Crates I) (path : String) (query : Option String) : Option I :=
  if query.isSome then none
  else do
    let value ← stripPrefix path "/v1/vaults/"
    if value.toList.contains '/' then none
    else
      let id ← G.parseUuid value
      if G.isRandom id && value == G.hyphenated id then some id else none

/-- `str::parse::<u64>`. -/
def parseU64 (value : String) : Option Nat :=
  let digits := match value.toList with
    | '+' :: digits => digits
    | digits => digits
  let number := digits.foldl (fun number digit => number * 10 + (digit.toNat - '0'.toNat)) 0
  if !digits.isEmpty && digits.all Char.isDigit && number < 2 ^ 64 then some number else none

/-- The tests that `write` makes before it asks for a permit. -/
def admitWrite (headers : Headers) : Except Response WriteCondition :=
  if headers.contentType.head?.join ≠ some "application/octet-stream" then
    .error (.fixed .unsupportedMediaType "Unsupported Media Type\n")
  else if (headers.contentLength.head?.join.bind parseU64).any (maxRemoteCiphertextBytes < ·) then
    .error (.fixed .payloadTooLarge "Payload Too Large\n")
  else
    match condition headers with
    | .ok condition => .ok condition
    | .error status => .error (.fixed status (statusText status))

/-- A request that gets as far as the storage. -/
inductive Routed (I : Type) where
  | read (vault : I)
  | write (vault : I) (condition : WriteCondition)
  deriving DecidableEq, Repr

/-- `route`: the request is answered at once, or handed on. -/
def route (G : Crates I) (request : Request) : Except Response (Routed I) :=
  if request.path = "/healthz" ∧ request.query = none then
    if request.method = .get then .error (.fixed .ok "OK\n")
    else .error (.fixed .methodNotAllowed "Method Not Allowed\n")
  else if request.uri.utf8ByteSize > maxRequestTargetBytes || !request.authenticates then
    .error (.fixed .unauthorized "Unauthorized\n")
  else
    match vaultId G request.path request.query with
    | none => .error (.fixed .notFound "Not Found\n")
    | some vault =>
      match request.method with
      | .get => .ok (.read vault)
      | .put =>
        match admitWrite request.headers with
        | .ok condition => .ok (.write vault condition)
        | .error response => .error response
      | .other => .error (.fixed .methodNotAllowed "Method Not Allowed\n")

/-! ## Blocking tasks -/

inductive StorageError where
  | io
  | tooLarge
  | preconditionFailed
  deriving DecidableEq, Repr

/-- `revision`: the quoted lowercase SHA-256. -/
def revision (G : Crates I) (bytes : Bytes) : String :=
  "\"" ++ String.ofList ((G.sha256 bytes).flatMap Chars.hexByte) ++ "\""

inductive Purpose where
  | read
  | install (condition : WriteCondition) (prepared : Bytes)
  deriving DecidableEq, Repr

inductive Outcome where
  | found (object : Option (Bytes × String))
  | installed (revision : String)
  deriving DecidableEq, Repr

/-- The next step of a task: look at the object, open and read it, rename onto it, sync the
directory. -/
inductive Progress where
  | stat
  | opening
  | renaming
  | syncing
  | finished (result : Except StorageError Outcome)

structure Task (I : Type) where
  vault : I
  purpose : Purpose
  progress : Progress

/-- The `match` of `install_upload`. -/
def WriteCondition.admits (G : Crates I) (current : Option Bytes) : WriteCondition → Bool
  | .create => current.isNone
  | .replace expected => current.map (revision G) = some expected

/-- `read_object` has returned `current`: a read is done, an installation tests its condition. -/
def Task.resume (G : Crates I) (task : Task I) (current : Option Bytes) : Task I :=
  match task.purpose with
  | .read =>
    { task with progress := .finished (.ok (.found (current.map fun bytes => (bytes, revision G bytes)))) }
  | .install condition _ =>
    if condition.admits G current then { task with progress := .renaming }
    else { task with progress := .finished (.error .preconditionFailed) }

def Task.fail (task : Task I) (error : StorageError) : Task I :=
  { task with progress := .finished (.error error) }

/-! ## Futures -/

/-- What a future is waiting for. -/
inductive Await where
  | body (condition : WriteCondition)
  | upload (condition : WriteCondition) (bytes : Bytes)
  | guard (lock : Nat) (purpose : Purpose)
  | task (lock : Nat) (purpose : Purpose)

structure Future (I : Type) where
  vault : I
  await : Await

/-- The lock of which the future has a strong reference. -/
def Await.lock : Await → Option Nat
  | .body _ => none
  | .upload _ _ => none
  | .guard lock _ => some lock
  | .task lock _ => some lock

/-- The answer of `read` in `server.rs`. -/
def readResponse : Except StorageError Outcome → Response
  | .ok (.found (some (bytes, revision))) => .object bytes revision
  | .ok _ => .fixed .notFound "Not Found\n"
  | .error .tooLarge => .fixed .payloadTooLarge "Payload Too Large\n"
  | .error _ => .fixed .internalServerError "Internal Server Error\n"

/-- The answer of `write`. -/
def writeResponse (condition : WriteCondition) : Except StorageError Outcome → Response
  | .ok (.installed revision) =>
    .emptyWithEtag (if condition = .create then .created else .noContent) revision
  | .ok _ => .fixed .internalServerError "Internal Server Error\n"
  | .error .preconditionFailed => .fixed .preconditionFailed "Precondition Failed\n"
  | .error .tooLarge => .fixed .payloadTooLarge "Payload Too Large\n"
  | .error _ => .fixed .internalServerError "Internal Server Error\n"

def respond : Purpose → Except StorageError Outcome → Response
  | .read => readResponse
  | .install condition _ => writeResponse condition

/-- The operation a request turned out to be. -/
def Purpose.operation (vault : I) : Purpose → Operation I Bytes String
  | .read => .read vault
  | .install .create bytes => .create vault bytes
  | .install (.replace expected) bytes => .replace vault expected bytes

/-- The effect that a task has when it finds, or has found, this object. -/
def Purpose.effect (vault : I) (found : Option Bytes) : Purpose → Effect I Bytes String
  | .read => .read vault found
  | .install .create bytes => .create vault bytes
  | .install (.replace expected) bytes => .replace vault expected bytes

/-- The effect that an answer reports to the client. -/
def Purpose.report (vault : I) (purpose : Purpose) : Response → Option (Effect I Bytes String)
  | .object bytes _ => some (purpose.effect vault (some bytes))
  | .emptyWithEtag _ _ => some (purpose.effect vault none)
  | .fixed status _ => if purpose = .read ∧ status = .notFound then some (.read vault none) else none

/-! ## The system -/

structure State (I : Type) where
  /-- The files `<vault>.kdbx`. -/
  objects : Store I Bytes
  futures : Nat → Option (Future I)
  tasks : Nat → Option (Task I)
  /-- The weak references of `Storage::locks`, and the strong references and the guard of each
  lock. -/
  locks : I → Option Nat
  strong : Nat → Finset Nat
  guards : Nat → Option Nat
  /-- The requests with one of the write permits. -/
  writers : Finset Nat
  nextRequest : Nat
  nextLock : Nat
  responses : Nat → Option Response
  trace : List (Mark Nat I Bytes String)

def State.start (objects : Store I Bytes) : State I where
  objects := objects
  futures _ := none
  tasks _ := none
  locks _ := none
  strong _ := ∅
  guards _ := none
  writers := ∅
  nextRequest := 0
  nextLock := 0
  responses _ := none
  trace := []

namespace State

/-- The future of request `n` is dropped, and with it what it owns. -/
def drop (s : State I) (n : Nat) : State I :=
  { s with
    futures := Function.update s.futures n none
    strong := fun lock => (s.strong lock).erase n
    guards := fun lock => if s.guards lock = some n then none else s.guards lock
    writers := s.writers.erase n }

/-- It is answered. -/
def answer (s : State I) (n : Nat) (response : Response) : State I :=
  { s.drop n with responses := Function.update s.responses n (some response) }

/-- An answer to an operation of the storage. -/
def conclude (s : State I) (n : Nat) (vault : I) (purpose : Purpose) (response : Response) : State I :=
  { s.answer n response with
    trace := .event (.answered n (purpose.report vault response)) :: s.trace }

def await (s : State I) (n : Nat) (vault : I) (await : Await) : State I :=
  { s with futures := Function.update s.futures n (some ⟨vault, await⟩) }

def invoke (s : State I) (n : Nat) (operation : Operation I Bytes String) : State I :=
  { s with trace := .event (.invoked n operation) :: s.trace }

def setTask (s : State I) (n : Nat) (task : Task I) : State I :=
  { s with tasks := Function.update s.tasks n (some task) }

/-- The point at which the task of request `n` has its effect. -/
def take (s : State I) (n : Nat) (effect : Effect I Bytes String) : State I :=
  { s with trace := .took n effect :: s.trace }

/-- `locks.retain`: entries without strong references are dropped from the map. -/
def retained (s : State I) (vault : I) : Option Nat :=
  (s.locks vault).filter fun lock => (s.strong lock).Nonempty

/-- The lock of the map, or a new one. -/
def lockFor (s : State I) (vault : I) : Nat := (s.retained vault).getD s.nextLock

variable [DecidableEq I]

/-- `object_lock`; then the future waits for the guard. -/
def objectLock (s : State I) (n : Nat) (vault : I) (purpose : Purpose) : State I :=
  { s with
    locks := Function.update s.retained vault (some (s.lockFor vault))
    strong := Function.update s.strong (s.lockFor vault) (insert n (s.strong (s.lockFor vault)))
    nextLock := if (s.retained vault).isSome then s.nextLock else s.nextLock + 1 }.await n vault
      (.guard (s.lockFor vault) purpose)

end State

/-- How collecting a body ends. -/
inductive Collected where
  | received (bytes : Bytes)
  | failed
  | timedOut
  deriving DecidableEq, Repr

/-- The steps of futures and tasks, with the outcome of those that may fail. -/
inductive Action where
  | arrive (request : Request)
  | collect (n : Nat) (body : Collected)
  | prepare (n : Nat) (success : Bool)
  | lock (n : Nat)
  | stat (n : Nat) (success : Bool)
  | openRead (n : Nat) (success : Bool)
  | rename (n : Nat) (success : Bool)
  | syncDirectory (n : Nat) (success : Bool)
  | join (n : Nat)
  | cancel (n : Nat)
  deriving DecidableEq, Repr

section Steps
variable [DecidableEq I]

/-- The request is routed; a write needs a permit. -/
def arrive (G : Crates I) (s : State I) (request : Request) : State I :=
  let n := s.nextRequest
  let s := { s with nextRequest := n + 1 }
  match route G request with
  | .error response => s.answer n response
  | .ok (.read vault) => (s.invoke n (.read vault)).objectLock n vault .read
  | .ok (.write vault condition) =>
    if s.writers.card < maxConcurrentWrites then
      { s with writers := insert n s.writers }.await n vault (.body condition)
    else s.answer n (.fixed .serviceUnavailable "Service Unavailable\n")

/-- The body, limited in size and time. -/
def collect (s : State I) (n : Nat) (vault : I) (condition : WriteCondition) : Collected → State I
  | .received bytes =>
    if bytes.length ≤ maxRemoteCiphertextBytes then
      (s.invoke n (Purpose.operation vault (.install condition bytes))).await n vault
        (.upload condition bytes)
    else s.answer n (.fixed .payloadTooLarge "Payload Too Large\n")
  | .failed => s.answer n (.fixed .payloadTooLarge "Payload Too Large\n")
  | .timedOut => s.answer n (.fixed .requestTimeout "Request Timeout\n")

/-- `prepare_upload` is done; then the lock. -/
def prepare (s : State I) (n : Nat) (vault : I) (condition : WriteCondition) (bytes : Bytes)
    (success : Bool) : State I :=
  if success then s.objectLock n vault (.install condition bytes)
  else s.conclude n vault (.install condition bytes) (writeResponse condition (.error .io))

/-- The guard is free; the task is spawned. -/
def spawn (s : State I) (n : Nat) (vault : I) (lock : Nat) (purpose : Purpose) : State I :=
  { s with guards := Function.update s.guards lock (some n) }.setTask n ⟨vault, purpose, .stat⟩
    |>.await n vault (.task lock purpose)

/-- `read_object` returns: this is the point of a read. -/
def resume (G : Crates I) (s : State I) (n : Nat) (task : Task I) (current : Option Bytes) : State I :=
  let s := s.setTask n (task.resume G current)
  if task.purpose = .read then s.take n (.read task.vault current) else s

/-- `symlink_metadata`. -/
def stat (G : Crates I) (s : State I) (n : Nat) (task : Task I) (success : Bool) : State I :=
  if !success then s.setTask n (task.fail .io)
  else
    match s.objects task.vault with
    | none => resume G s n task none
    | some bytes =>
      if bytes.length > maxRemoteCiphertextBytes then s.setTask n (task.fail .tooLarge)
      else s.setTask n { task with progress := .opening }

/-- `open_existing` and `read_to_end`. -/
def openRead (G : Crates I) (s : State I) (n : Nat) (task : Task I) (success : Bool) : State I :=
  if !success then s.setTask n (task.fail .io)
  else
    match s.objects task.vault with
    | none => s.setTask n (task.fail .io)
    | some bytes =>
      if bytes.length > maxRemoteCiphertextBytes then s.setTask n (task.fail .tooLarge)
      else resume G s n task (some bytes)

/-- `fs::rename`: this is the point of a write. -/
def rename (s : State I) (n : Nat) (task : Task I) (bytes : Bytes) (success : Bool) : State I :=
  if success then
    { s with objects := Function.update s.objects task.vault (some bytes) }.setTask n
      { task with progress := .syncing } |>.take n (task.purpose.effect task.vault none)
  else s.setTask n (task.fail .io)

/-- `sync_directory`. -/
def syncDirectory (G : Crates I) (s : State I) (n : Nat) (task : Task I) (bytes : Bytes)
    (success : Bool) : State I :=
  s.setTask n { task with
    progress := .finished (if success then .ok (.installed (revision G bytes)) else .error .io) }

/-- One step. -/
def step (G : Crates I) (s : State I) : Action → Option (State I)
  | .arrive request => some (arrive G s request)
  | .collect n body =>
    match s.futures n with
    | some ⟨vault, .body condition⟩ => some (collect s n vault condition body)
    | _ => none
  | .prepare n success =>
    match s.futures n with
    | some ⟨vault, .upload condition bytes⟩ => some (prepare s n vault condition bytes success)
    | _ => none
  | .lock n =>
    match s.futures n with
    | some ⟨vault, .guard lock purpose⟩ =>
      if s.guards lock = none then some (spawn s n vault lock purpose) else none
    | _ => none
  | .stat n success =>
    match s.tasks n with
    | some ⟨vault, purpose, .stat⟩ => some (stat G s n ⟨vault, purpose, .stat⟩ success)
    | _ => none
  | .openRead n success =>
    match s.tasks n with
    | some ⟨vault, purpose, .opening⟩ => some (openRead G s n ⟨vault, purpose, .opening⟩ success)
    | _ => none
  | .rename n success =>
    match s.tasks n with
    | some ⟨vault, .install condition bytes, .renaming⟩ =>
      some (rename s n ⟨vault, .install condition bytes, .renaming⟩ bytes success)
    | _ => none
  | .syncDirectory n success =>
    match s.tasks n with
    | some ⟨vault, .install condition bytes, .syncing⟩ =>
      some (syncDirectory G s n ⟨vault, .install condition bytes, .syncing⟩ bytes success)
    | _ => none
  | .join n =>
    match s.futures n, s.tasks n with
    | some ⟨vault, .task _ purpose⟩, some ⟨_, _, .finished result⟩ =>
      some (s.conclude n vault purpose (respond purpose result))
    | _, _ => none
  | .cancel n => (s.futures n).map fun _ => s.drop n

end Steps

/-- The states that runs whose steps are all `allowed` get to. -/
inductive Reachable [DecidableEq I] (G : Crates I) (allowed : State I → Action → Prop)
    (objects : Store I Bytes) : State I → Prop
  | start : Reachable G allowed objects (State.start objects)
  | step {s t : State I} {action : Action} (before : Reachable G allowed objects s)
      (permitted : allowed s action) (taken : step G s action = some t) : Reachable G allowed objects t

end NianPass.Gateway
