import NianPass.Lib.Chars
import NianPass.Lib.Loop
import NianPass.Sync.Decisions

/-
  The three remote providers: gateway, WebDAV and S3.

  Each sends a conditional PUT and, when it is answered with a success, reads
  the object back. The engine takes `RemoteChanged` for the proof that its
  candidate was not installed, and discards its journal on it.

  The server is any that implements a conditional PUT atomically; between any
  two requests of the call other writers may replace or delete the object. What
  is proved is when `RemoteChanged` is right (`remoteChanged_truthful_iff`): an
  accepted PUT is reported as rejected exactly when another writer's generation
  is what the confirming read finds.
-/
namespace NianPass.Sync

open Kdbx (Bytes)

/-! ## Requests and responses -/

/-- A header of a response: not there, not text, or text. -/
inductive Header where
  | absent
  | binary
  | text (value : String)
  deriving DecidableEq, Repr

/-- A response: the body is a stream of chunks that may break off. The S3 client also turns a
success it cannot parse into an error (`parsed`). -/
structure Response where
  status : Nat
  parsed : Bool
  etag : Header
  contentLength : Option Int
  body : List (Except Unit Bytes)

inductive Condition where
  | ifNoneMatchAny
  | ifMatch (token : String)
  deriving DecidableEq, Repr

inductive HttpRequest where
  | get
  | put (condition : Condition) (ciphertext : Bytes)

/-- `none`: no response came back. -/
abbrev HttpAnswer : HttpRequest → Type := fun _ => Option Response

abbrev Http := ExceptT ProviderError (Program HttpRequest HttpAnswer)

def send (request : HttpRequest) : Http (Option Response) :=
  liftM (Program.request request : Program HttpRequest HttpAnswer (Option Response))

def liftExcept {α : Type} : Except ProviderError α → Http α
  | .ok a => pure a
  | .error error => throw error

def Response.isSuccess (response : Response) : Bool := 200 ≤ response.status ∧ response.status < 300

def Response.isRedirection (response : Response) : Bool :=
  300 ≤ response.status ∧ response.status < 400

/-- The length of a text in UTF-8. -/
def byteLength (text : List Char) : Nat := (text.map Char.utf8Size).sum

/-- `RemoteRevision::new`. -/
def RemoteRevision.new (token : List Char) : Except ProviderError RemoteRevision :=
  if token.isEmpty || byteLength token > 4 * 1024 || token.contains '\r' || token.contains '\n' then
    .error .unsafeProvider
  else .ok ⟨String.ofList token⟩

/-- `RemoteObject::new`. -/
def RemoteObject.new (ciphertext : Bytes) (revision : RemoteRevision) :
    Except ProviderError RemoteObject :=
  if ciphertext.length > maxRemoteCiphertextBytes then .error .objectTooLarge
  else .ok ⟨ciphertext, revision⟩

/-- `strong_etag`. -/
def strongEtag : Header → Except ProviderError RemoteRevision
  | .absent => .error .unsupportedProvider
  | .binary => .error .unsafeProvider
  | .text value =>
    let etag := Chars.trim value.toList
    if ['W', '/'].isPrefixOf etag || byteLength etag < 2 || etag.head? ≠ some '"' ||
        etag.getLast? ≠ some '"' then .error .unsupportedProvider
    else RemoteRevision.new etag

/-- The loop over the chunks of a body. -/
def readChunks : List (Except Unit Bytes) → Bytes → Except ProviderError Bytes
  | [], ciphertext => .ok ciphertext
  | .error _ :: _, _ => .error .transport
  | .ok chunk :: rest, ciphertext =>
    if ciphertext.length + chunk.length > maxRemoteCiphertextBytes then .error .objectTooLarge
    else readChunks rest (ciphertext ++ chunk)

/-- `read_success` of the gateway and of WebDAV. A length that is no `u64` is ignored. -/
def readSuccess (response : Response) : Except ProviderError RemoteRead := do
  let revision ← strongEtag response.etag
  if response.contentLength.any (fun size : Int => size > maxRemoteCiphertextBytes) then
    throw .objectTooLarge
  else
    let ciphertext ← readChunks response.body []
    let object ← RemoteObject.new ciphertext revision
    pure (.present object)

/-- `read_output` of S3. -/
def readOutput (response : Response) : Except ProviderError RemoteRead := do
  if response.contentLength.any (fun size : Int => size < 0 || size > maxRemoteCiphertextBytes) then
    throw .objectTooLarge
  else
    let revision ← (match response.etag with
      | .text etag => RemoteRevision.new etag.toList
      | _ => .error .unsupportedProvider)
    let ciphertext ← readChunks response.body []
    let object ← RemoteObject.new ciphertext revision
    pure (.present object)

/-! ## What each provider makes of a response -/

section Responses

def gatewayRead : Option Response → Except ProviderError RemoteRead
  | none => .error .transport
  | some response =>
    if response.status = 200 then readSuccess response
    else if response.status = 404 then .ok .missing
    else if response.status = 401 ∨ response.status = 403 then .error .authenticationFailed
    else if response.status = 413 then .error .objectTooLarge
    else if response.isRedirection then .error .unsafeProvider
    else .error .transport

def gatewayPut : Option Response → Except ProviderError Unit
  | none => .error .writeResultUncertain
  | some response =>
    if response.isSuccess then .ok ()
    else if response.status = 412 ∨ response.status = 409 then .error .remoteChanged
    else if response.status = 401 ∨ response.status = 403 then .error .authenticationFailed
    else if response.status = 413 then .error .objectTooLarge
    else if response.isRedirection then .error .unsafeProvider
    else .error .writeResultUncertain

def webdavRead : Option Response → Except ProviderError RemoteRead
  | none => .error .transport
  | some response =>
    if response.status = 404 then .ok .missing
    else if response.isSuccess then readSuccess response
    else if response.status = 401 ∨ response.status = 403 then .error .authenticationFailed
    else if response.isRedirection then .error .unsafeProvider
    else .error .transport

def webdavPut (condition : Condition) : Option Response → Except ProviderError Unit
  | none => .error .writeResultUncertain
  | some response =>
    if response.isSuccess then .ok ()
    else if response.status = 412 ∨ response.status = 409 then .error .remoteChanged
    else if response.status = 404 ∧ condition ≠ .ifNoneMatchAny then .error .remoteChanged
    else if response.status = 401 ∨ response.status = 403 then .error .authenticationFailed
    else if response.isRedirection then .error .unsafeProvider
    else .error .transport

def s3Read : Option Response → Except ProviderError RemoteRead
  | none => .error .transport
  | some response =>
    if response.isSuccess ∧ response.parsed then readOutput response
    else if response.status = 404 then .ok .missing
    else if response.status = 401 ∨ response.status = 403 then .error .authenticationFailed
    else .error .transport

def s3Put (condition : Condition) : Option Response → Except ProviderError Unit
  | none => .error .writeResultUncertain
  | some response =>
    if response.isSuccess ∧ response.parsed then .ok ()
    else if response.status = 409 ∨ response.status = 412 then .error .remoteChanged
    else if response.status = 404 ∧ condition ≠ .ifNoneMatchAny then .error .remoteChanged
    else if response.status = 401 ∨ response.status = 403 then .error .authenticationFailed
    else .error .transport

end Responses

/-! ## The providers -/

inductive Provider where
  | gateway
  | webdav
  | s3
  deriving DecidableEq, Repr

def Provider.readOf : Provider → Option Response → Except ProviderError RemoteRead
  | .gateway => gatewayRead
  | .webdav => webdavRead
  | .s3 => s3Read

def Provider.putOf : Provider → Condition → Option Response → Except ProviderError Unit
  | .gateway, _ => gatewayPut
  | .webdav, condition => webdavPut condition
  | .s3, condition => s3Put condition

/-- `RemoteObjectProvider::read`. -/
def Provider.read (provider : Provider) : Http RemoteRead := do
  liftExcept (provider.readOf (← send .get))

/-- What `confirm_committed` makes of the read. -/
def confirmed (expectedCiphertext : Bytes) :
    Except ProviderError RemoteRead → Except ProviderError RemoteRevision
  | .ok (.present remote) =>
    if remote.ciphertext = expectedCiphertext then .ok remote.revision else .error .remoteChanged
  | .ok .missing => .error .remoteChanged
  | .error _ => .error .writeResultUncertain

/-- `confirm_committed`, the same in all three. -/
def Provider.confirmCommitted (provider : Provider) (expectedCiphertext : Bytes) :
    Http RemoteRevision := do
  liftExcept (confirmed expectedCiphertext (provider.readOf (← send .get)))

/-- `conditional_put` (`put` in S3). -/
def Provider.conditionalPut (provider : Provider) (condition : Condition) (ciphertext : Bytes) :
    Http RemoteRevision := do
  if ciphertext.length > maxRemoteCiphertextBytes then throw .objectTooLarge
  else
    liftExcept (provider.putOf condition (← send (.put condition ciphertext)))
    provider.confirmCommitted ciphertext

def Provider.createIfAbsent (provider : Provider) (ciphertext : Bytes) : Http RemoteRevision :=
  provider.conditionalPut .ifNoneMatchAny ciphertext

def Provider.replaceIfRevision (provider : Provider) (expected : RemoteRevision)
    (ciphertext : Bytes) : Http RemoteRevision :=
  provider.conditionalPut (.ifMatch expected.token) ciphertext

/-- The engine's remote writes, by the provider. -/
def Provider.write (provider : Provider) : RemoteWrite → Http RemoteRevision
  | .createIfAbsent ciphertext => provider.createIfAbsent ciphertext
  | .replaceIfRevision expected ciphertext => provider.replaceIfRevision expected ciphertext

/-! ## The server and the other writers -/

/-- An object as the server keeps it. -/
structure Stored where
  ciphertext : Bytes
  etag : String
  deriving DecidableEq, Repr

/-- A request of the call, as it was served: the object there was, and the answer. -/
structure Served where
  object : Option Stored
  request : HttpRequest
  answer : Option Response

/-- The server, with what it did for this call, the newest first. -/
structure Server where
  object : Option Stored
  accepted : Bool
  served : List Served

def Condition.holds : Condition → Option Stored → Prop
  | .ifNoneMatchAny, object => object = none
  | .ifMatch token, object => ∃ stored, object = some stored ∧ stored.etag = token

/-- The whole body, if it did not break off. -/
def wholeBody : List (Except Unit Bytes) → Option Bytes
  | [] => some []
  | .error _ :: _ => none
  | .ok chunk :: rest => (wholeBody rest).map (chunk ++ ·)

/-- A server that implements the conditional PUT atomically: it installs the body where the
condition holds and does not then say that the condition failed, or it changes nothing and does
not report a success. A read returns the object that is there. -/
def Server.serves (server : Server) :
    (request : HttpRequest) → Option Response → Server → Prop
  | .get, answer, server' =>
    server' = { server with served := ⟨server.object, .get, answer⟩ :: server.served } ∧
    ∀ response, answer = some response →
      (response.isSuccess = true → ∃ stored, server.object = some stored ∧
        ∀ body, wholeBody response.body = some body → body = stored.ciphertext) ∧
      (response.status = 404 → server.object = none)
  | .put condition ciphertext, answer, server' =>
    (condition.holds server.object ∧
      (∃ etag, server' = ⟨some ⟨ciphertext, etag⟩, true,
        ⟨server.object, .put condition ciphertext, answer⟩ :: server.served⟩) ∧
      ∀ response, answer = some response →
        response.status ≠ 404 ∧ response.status ≠ 409 ∧ response.status ≠ 412) ∨
    (server' = { server with
        served := ⟨server.object, .put condition ciphertext, answer⟩ :: server.served } ∧
      ∀ response, answer = some response → response.isSuccess = false)

/-- An execution of a call: before each of its requests other writers may replace or delete the
object. -/
def Executes {α : Type} : Program HttpRequest HttpAnswer α → Server → α → Server → Prop
  | .done a, server, result, server' => result = a ∧ server' = server
  | .ask request next, server, result, server' =>
    ∃ object answer between,
      ({ server with object := object } : Server).serves request answer between ∧
      Executes (next answer) between result server'

/-! ## When `RemoteChanged` is the truth -/

/-- The confirming read of an accepted PUT found something else: another writer's generation, or
nothing. -/
def Overtaken (provider : Provider) (ciphertext : Bytes) (server : Server) : Prop :=
  ∃ object answer rest, server.served = ⟨object, .get, answer⟩ :: rest ∧
    object.map Stored.ciphertext ≠ some ciphertext ∧ (provider.readOf answer).isOk = true

section Responses
variable {provider : Provider} {condition : Condition} {response : Response} {answer : Option Response}

theorem readChunks_eq {chunks : List (Except Unit Bytes)} {start ciphertext : Bytes}
    (h : readChunks chunks start = .ok ciphertext) :
    ∃ body, wholeBody chunks = some body ∧ ciphertext = start ++ body := by
  induction chunks generalizing start with
  | nil =>
    cases h
    exact ⟨[], rfl, (List.append_nil _).symm⟩
  | cons chunk rest ih =>
    cases chunk with
    | error _ => cases h
    | ok chunk =>
      simp only [readChunks] at h
      split at h
      · cases h
      · obtain ⟨body, hbody, rfl⟩ := ih h
        exact ⟨chunk ++ body, by simp [wholeBody, hbody], List.append_assoc _ _ _⟩

theorem RemoteObject.new_eq {ciphertext : Bytes} {revision : RemoteRevision} {object : RemoteObject}
    (h : RemoteObject.new ciphertext revision = .ok object) : object.ciphertext = ciphertext := by
  unfold RemoteObject.new at h
  split at h
  · cases h
  · cases h
    rfl

/-- What is read is the whole body. -/
theorem readSuccess_eq {read : RemoteRead} (h : readSuccess response = .ok read) :
    ∃ remote, read = .present remote ∧ wholeBody response.body = some remote.ciphertext := by
  obtain ⟨revision, -, h⟩ := Loop.bind_eq_ok h
  split at h
  · cases h
  · obtain ⟨ciphertext, hchunks, h⟩ := Loop.bind_eq_ok h
    obtain ⟨object, hobject, h⟩ := Loop.bind_eq_ok h
    cases h
    obtain ⟨body, hbody, rfl⟩ := readChunks_eq hchunks
    exact ⟨object, rfl, by rw [hbody, RemoteObject.new_eq hobject]⟩

theorem readOutput_eq {read : RemoteRead} (h : readOutput response = .ok read) :
    ∃ remote, read = .present remote ∧ wholeBody response.body = some remote.ciphertext := by
  unfold readOutput at h
  split at h
  · cases h
  · obtain ⟨revision, -, h⟩ := Loop.bind_eq_ok h
    obtain ⟨ciphertext, hchunks, h⟩ := Loop.bind_eq_ok h
    obtain ⟨object, hobject, h⟩ := Loop.bind_eq_ok h
    cases h
    obtain ⟨body, hbody, rfl⟩ := readChunks_eq hchunks
    exact ⟨object, rfl, by rw [hbody, RemoteObject.new_eq hobject]⟩

/-- A read that succeeds was answered with the object, or with its absence. -/
theorem Provider.readOf_ok {read : RemoteRead} (h : provider.readOf answer = .ok read) :
    ∃ response, answer = some response ∧
      ((read = .missing ∧ response.status = 404) ∨
        ∃ remote, read = .present remote ∧ response.isSuccess = true ∧
          wholeBody response.body = some remote.ciphertext) := by
  cases answer with
  | none => cases provider <;> cases h
  | some response =>
    refine ⟨response, rfl, ?_⟩
    cases provider with
    | gateway =>
      simp only [Provider.readOf, gatewayRead] at h
      split at h
      · rename_i hstatus
        obtain ⟨remote, hread, hbody⟩ := readSuccess_eq h
        exact .inr ⟨remote, hread, by simp [Response.isSuccess, hstatus], hbody⟩
      · split at h
        · rename_i hstatus
          cases h
          exact .inl ⟨rfl, hstatus⟩
        · split_ifs at h
    | webdav =>
      simp only [Provider.readOf, webdavRead] at h
      split at h
      · rename_i hstatus
        cases h
        exact .inl ⟨rfl, hstatus⟩
      · split at h
        · rename_i hsuccess
          obtain ⟨remote, hread, hbody⟩ := readSuccess_eq h
          exact .inr ⟨remote, hread, hsuccess, hbody⟩
        · split_ifs at h
    | s3 =>
      simp only [Provider.readOf, s3Read] at h
      split at h
      · rename_i hsuccess
        obtain ⟨remote, hread, hbody⟩ := readOutput_eq h
        exact .inr ⟨remote, hread, hsuccess.1, hbody⟩
      · split at h
        · rename_i hstatus
          cases h
          exact .inl ⟨rfl, hstatus⟩
        · split_ifs at h

/-- A PUT counts as committed on a success only, and as rejected only on a status that says so. -/
theorem Provider.putOf_ok (h : provider.putOf condition answer = .ok ()) :
    ∃ response, answer = some response ∧ response.isSuccess = true := by
  cases answer with
  | none => cases provider <;> cases h
  | some response =>
    refine ⟨response, rfl, ?_⟩
    by_contra hnot
    cases provider with
    | gateway =>
      simp only [Provider.putOf, gatewayPut, if_neg hnot] at h
      split_ifs at h
    | webdav =>
      simp only [Provider.putOf, webdavPut, if_neg hnot] at h
      split_ifs at h
    | s3 =>
      simp only [Provider.putOf, s3Put, hnot, false_and, if_false] at h
      split_ifs at h

theorem Provider.putOf_remoteChanged (h : provider.putOf condition answer = .error .remoteChanged) :
    ∃ response, answer = some response ∧
      (response.status = 404 ∨ response.status = 409 ∨ response.status = 412) := by
  cases answer with
  | none => cases provider <;> cases h
  | some response =>
    refine ⟨response, rfl, ?_⟩
    by_contra hnot
    simp only [not_or] at hnot
    cases provider with
    | gateway =>
      simp only [Provider.putOf, gatewayPut, hnot, or_self, if_false] at h
      split_ifs at h <;> simp at h
    | webdav =>
      simp only [Provider.putOf, webdavPut, hnot, or_self, false_and, if_false] at h
      split_ifs at h <;> simp at h
    | s3 =>
      simp only [Provider.putOf, s3Put, hnot, or_self, false_and, if_false] at h
      split_ifs at h <;> simp at h

end Responses

section Executions
variable {provider : Provider} {condition : Condition} {ciphertext : Bytes} {server server' : Server}
variable {result : Except ProviderError RemoteRevision}

/-- The confirming read reports the truth unless another writer was faster. -/
theorem confirmed_iff {object : Option Stored} {answer : Option Response} {rest : List Served}
    (hserves : Server.serves ⟨object, true, rest⟩ .get answer server') :
    confirmed ciphertext (provider.readOf answer) ≠ .error .remoteChanged ↔
      ¬ Overtaken provider ciphertext server' := by
  obtain ⟨rfl, htruthful⟩ := hserves
  have hovertaken : Overtaken provider ciphertext
      ⟨object, true, ⟨object, .get, answer⟩ :: rest⟩ ↔
      object.map Stored.ciphertext ≠ some ciphertext ∧ (provider.readOf answer).isOk = true := by
    constructor
    · rintro ⟨_, _, _, hserved, hother, hok⟩
      cases hserved
      exact ⟨hother, hok⟩
    · rintro ⟨hother, hok⟩
      exact ⟨object, answer, rest, rfl, hother, hok⟩
  rw [hovertaken]
  cases hread : provider.readOf answer with
  | error error => simp [confirmed, Except.isOk, Except.toBool]
  | ok read =>
    obtain ⟨response, rfl, ⟨rfl, hstatus⟩ | ⟨remote, rfl, hsuccess, hbody⟩⟩ :=
      Provider.readOf_ok hread
    · have hnone := (htruthful response rfl).2 hstatus
      simp [confirmed, Except.isOk, Except.toBool, show object = none from hnone]
    · obtain ⟨stored, hstored, hwhole⟩ := (htruthful response rfl).1 hsuccess
      have hsame := hwhole _ hbody
      by_cases heq : remote.ciphertext = ciphertext
      · simp [confirmed, heq, show object = some stored from hstored, ← hsame]
      · simp [confirmed, heq, show object = some stored from hstored, ← hsame, Except.isOk,
          Except.toBool]

theorem executes_liftExcept {α : Type} {x result : Except ProviderError α}
    (h : Executes (liftExcept x).run server result server') : result = x ∧ server' = server := by
  cases x with
  | ok a => exact h
  | error error => exact h

/-- A call that read nothing was not overtaken. -/
theorem not_overtaken_of_put {object : Option Stored} {answer : Option Response}
    {rest : List Served} (h : server.served = ⟨object, .put condition ciphertext, answer⟩ :: rest)
    (other : Bytes) : ¬ Overtaken provider other server := by
  rintro ⟨_, _, _, hserved, _⟩
  rw [h] at hserved
  cases hserved

/-- A PUT that is answered with a rejection was not accepted. -/
theorem Server.serves_rejected {answer : Option Response} {object : Option Stored}
    (hserves : Server.serves ⟨object, false, []⟩ (.put condition ciphertext) answer server')
    (h : provider.putOf condition answer = .error .remoteChanged) : server'.accepted = false := by
  obtain ⟨response, rfl, hstatus⟩ := Provider.putOf_remoteChanged h
  obtain ⟨-, -, hnot⟩ | ⟨rfl, -⟩ := hserves
  · obtain ⟨h404, h409, h412⟩ := hnot response rfl
    omega
  · rfl

/-- A PUT that is answered with a success was accepted. -/
theorem Server.serves_accepted {answer : Option Response} {object : Option Stored}
    (hserves : Server.serves ⟨object, false, []⟩ (.put condition ciphertext) answer server')
    (h : provider.putOf condition answer = .ok ()) : server'.accepted = true := by
  obtain ⟨response, rfl, hsuccess⟩ := Provider.putOf_ok h
  obtain ⟨-, ⟨etag, rfl⟩, -⟩ | ⟨-, hfailure⟩ := hserves
  · rfl
  · rw [hfailure response rfl] at hsuccess
    cases hsuccess

theorem conditionalPut_truthful_iff {object : Option Stored}
    (hexecutes : Executes (provider.conditionalPut condition ciphertext).run ⟨object, false, []⟩
      result server') :
    (server'.accepted = true → result ≠ .error .remoteChanged) ↔
      ¬ Overtaken provider ciphertext server' := by
  unfold Provider.conditionalPut at hexecutes
  split at hexecutes
  · obtain ⟨rfl, rfl⟩ := hexecutes
    refine iff_of_true (fun haccepted => ?_) ?_
    · cases haccepted
    · rintro ⟨_, _, _, hcontra, _⟩
      cases hcontra
  · obtain ⟨there, answer, between, hserves, hrest⟩ := hexecutes
    have hnext : Executes ((liftExcept (provider.putOf condition answer) >>= fun _ =>
        provider.confirmCommitted ciphertext : Http RemoteRevision)).run between result server' := hrest
    cases hput : provider.putOf condition answer with
    | error error =>
      -- The call ends here: nothing was read.
      rw [hput] at hnext
      obtain ⟨rfl, rfl⟩ := hnext
      have hserved : ∃ rest, server'.served = ⟨there, .put condition ciphertext, answer⟩ :: rest := by
        obtain ⟨-, ⟨etag, rfl⟩, -⟩ | ⟨rfl, -⟩ := hserves
        · exact ⟨_, rfl⟩
        · exact ⟨_, rfl⟩
      obtain ⟨rest, hserved⟩ := hserved
      refine iff_of_true (fun haccepted hresult => ?_) (not_overtaken_of_put hserved _)
      cases hresult
      rw [Server.serves_rejected hserves hput] at haccepted
      cases haccepted
    | ok committed =>
      -- The PUT was accepted: what counts is what the read finds.
      rw [hput] at hnext
      obtain ⟨found, readAnswer, last, hread, hend⟩ := hnext
      obtain ⟨rfl, rfl⟩ := executes_liftExcept hend
      have haccepted := Server.serves_accepted hserves hput
      rw [haccepted] at hread
      have hlast : server'.accepted = true := by
        rw [hread.1]
      rw [← confirmed_iff hread]
      exact ⟨fun h => h hlast, fun h _ => h⟩

end Executions

/-- `RemoteChanged` means that the candidate was not installed, exactly when the confirming read
was not overtaken. -/
theorem remoteChanged_truthful_iff (provider : Provider) (write : RemoteWrite)
    (object : Option Stored) (result : Except ProviderError RemoteRevision) (server' : Server)
    (hexecutes : Executes (provider.write write).run ⟨object, false, []⟩ result server') :
    (server'.accepted = true → result ≠ .error .remoteChanged) ↔
      ¬ Overtaken provider write.ciphertext server' := by
  cases write with
  | createIfAbsent ciphertext => exact conditionalPut_truthful_iff hexecutes
  | replaceIfRevision expected ciphertext => exact conditionalPut_truthful_iff hexecutes

/-! Two runs on a gateway that holds nothing yet. -/

def created : Response := ⟨201, true, .absent, none, []⟩

def found (ciphertext : Bytes) (etag : String) : Response :=
  ⟨200, true, .text etag, some ciphertext.length, [.ok ciphertext]⟩

/-- The gateway after an accepted creation, whose confirming read finds `object`. -/
def confirmedWith (ciphertext : Bytes) (object : Stored) : Server :=
  ⟨some object, true, [⟨some object, .get, some (found object.ciphertext object.etag)⟩,
    ⟨none, .put .ifNoneMatchAny ciphertext, some created⟩]⟩

theorem executes_created (ciphertext : Bytes) (object : Stored) (hsize : ciphertext.length = 1) :
    Executes (Provider.gateway.write (.createIfAbsent ciphertext)).run ⟨none, false, []⟩
      (confirmed ciphertext (gatewayRead (some (found object.ciphertext object.etag))))
      (confirmedWith ciphertext object) := by
  have hsmall : ¬ ciphertext.length > maxRemoteCiphertextBytes := by
    rw [hsize]
    decide
  change Executes (Provider.conditionalPut .gateway .ifNoneMatchAny ciphertext).run _ _ _
  unfold Provider.conditionalPut
  rw [if_neg hsmall]
  refine ⟨none, some created, ⟨some ⟨ciphertext, "\"r0\""⟩, true, _⟩, .inl ⟨rfl, ⟨_, rfl⟩, ?_⟩, ?_⟩
  · intro response hresponse
    cases hresponse
    decide
  · refine ⟨some object, some (found object.ciphertext object.etag), _, ⟨rfl, ?_⟩, ?_⟩
    · intro response hresponse
      cases hresponse
      refine ⟨fun _ => ⟨object, rfl, fun body hbody => ?_⟩, fun hstatus => ?_⟩
      · simpa [found, wholeBody] using hbody.symm
      · simp [found] at hstatus
    · change Executes (liftExcept (confirmed ciphertext
        (gatewayRead (some (found object.ciphertext object.etag))))).run _ _ _
      cases confirmed ciphertext (gatewayRead (some (found object.ciphertext object.etag))) with
      | ok revision => exact ⟨rfl, rfl⟩
      | error error => exact ⟨rfl, rfl⟩

theorem remoteChanged_truthful_iff_undisturbed :
    ((confirmedWith [1] ⟨[1], "\"r1\""⟩).accepted = true →
      confirmed [1] (gatewayRead (some (found [1] "\"r1\""))) ≠ .error .remoteChanged) ↔
      ¬ Overtaken .gateway [1] (confirmedWith [1] ⟨[1], "\"r1\""⟩) :=
  remoteChanged_truthful_iff .gateway (.createIfAbsent [1]) none _ _
    (executes_created [1] ⟨[1], "\"r1\""⟩ rfl)

/-- The creation was accepted, another device replaced it, and the call says it was rejected. -/
theorem remoteChanged_after_accepted_put :
    ∃ result server', Executes (Provider.gateway.write (.createIfAbsent [1])).run ⟨none, false, []⟩
      result server' ∧ server'.accepted = true ∧ result = .error .remoteChanged := by
  refine ⟨_, _, executes_created [1] ⟨[2], "\"r2\""⟩ rfl, rfl, ?_⟩
  have hread : gatewayRead (some (found [2] "\"r2\"")) = .ok (.present ⟨[2], ⟨"\"r2\""⟩⟩) := by
    decide
  rw [hread]
  rfl

end NianPass.Sync
