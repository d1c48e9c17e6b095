import NianPass.Native.Messages

/-
  The crate `browser-native-protocol`: the requests and responses between the extension,
  the native host and the desktop, what makes one valid, and the frames they travel in.

  The derived serialisation is written out: an enum is an object that names its variant
  under a tag, its fields in any order, none missing, none unknown and none twice. What
  `serde_json` does between a document and its bytes is `Json.render` for writing and a
  parameter for reading.
-/
namespace NianPass.NativeProtocol

open Native (utf8Length)

def PROTOCOL_VERSION : UInt16 := 1
def MAX_FRAME_BYTES : Nat := 256 * 1024
def MAX_CANDIDATES : Nat := 100
def MAX_CANDIDATE_SUMMARY_BYTES : Nat := 128
def MAX_CREDENTIAL_FIELD_BYTES : Nat := 16 * 1024
def REQUEST_ID_LENGTH : Nat := 32
def MAX_ORIGIN_LENGTH : Nat := 2048
def MAX_IDENTIFIER_LENGTH : Nat := 256

inductive BrowserRequest where
  | connect (version : UInt16) (requestId : String)
  | candidates (version : UInt16) (requestId origin : String)
  | credential (version : UInt16) (requestId origin vaultSessionId entryId : String)
deriving DecidableEq

inductive CandidateText where
  | visible (value : String)
  | protectedText
deriving DecidableEq

structure Candidate where
  entryId : String
  title : CandidateText
  username : CandidateText
deriving DecidableEq

inductive VaultState where
  | locked
  | ready
deriving DecidableEq

inductive ErrorCode where
  | desktopUnavailable
  | approvalRequired
  | denied
  | locked
  | noMatches
  | unsupportedTarget
  | invalidRequest
  | internal
deriving DecidableEq

inductive BrowserResponse where
  | approvalPending (version : UInt16) (requestId : String)
  | connected (version : UInt16) (requestId : String) (vaultState : VaultState)
  | candidates (version : UInt16) (requestId vaultSessionId : String) (candidates : List Candidate)
      (truncated : Bool)
  | credential (version : UInt16) (requestId username password : String)
  | error (version : UInt16) (requestId : String) (code : ErrorCode)
deriving DecidableEq

inductive ProtocolError where
  | unsupportedVersion
  | invalidRequestId
  | invalidField
deriving DecidableEq

/-! ## Validity -/

def isAsciiHexdigit (char : Char) : Bool :=
  char.isDigit || ('a' ≤ char && char ≤ 'f') || ('A' ≤ char && char ≤ 'F')

def isAsciiUppercase (char : Char) : Bool := 'A' ≤ char && char ≤ 'Z'

/-- A character outside ASCII is no hexadecimal digit, and neither are its bytes. -/
def validateToken (value : String) : Except ProtocolError Unit :=
  if utf8Length value ≠ REQUEST_ID_LENGTH ∨
      ¬ value.toList.all fun char => isAsciiHexdigit char && !isAsciiUppercase char then
    .error .invalidField
  else .ok ()

def validateBounded (value : String) (maximum : Nat) : Except ProtocolError Unit :=
  if value.isEmpty ∨ maximum < utf8Length value ∨ value.toList.contains (Char.ofNat 0) then .error .invalidField
  else .ok ()

def validateCommon (version : UInt16) (requestId : String) : Except ProtocolError Unit :=
  if version ≠ PROTOCOL_VERSION then .error .unsupportedVersion
  else (validateToken requestId).mapError fun _ => .invalidRequestId

def BrowserRequest.validate : BrowserRequest → Except ProtocolError Unit
  | .connect version requestId => validateCommon version requestId
  | .candidates version requestId origin => do
    validateCommon version requestId
    validateBounded origin MAX_ORIGIN_LENGTH
  | .credential version requestId origin vaultSessionId entryId => do
    validateCommon version requestId
    validateBounded origin MAX_ORIGIN_LENGTH
    validateToken vaultSessionId
    validateBounded entryId MAX_IDENTIFIER_LENGTH

def BrowserRequest.requestId : BrowserRequest → String
  | .connect _ requestId | .candidates _ requestId _ | .credential _ requestId _ _ _ => requestId

def CandidateText.validate : CandidateText → Except ProtocolError Unit
  | .visible value => validateBounded value MAX_CANDIDATE_SUMMARY_BYTES
  | .protectedText => .ok ()

def Candidate.validate (candidate : Candidate) : Except ProtocolError Unit := do
  validateBounded candidate.entryId MAX_IDENTIFIER_LENGTH
  candidate.title.validate
  candidate.username.validate

def BrowserResponse.version : BrowserResponse → UInt16
  | .approvalPending version _ | .connected version _ _ | .candidates version _ _ _ _
  | .credential version _ _ _ | .error version _ _ => version

def BrowserResponse.requestId : BrowserResponse → String
  | .approvalPending _ requestId | .connected _ requestId _ | .candidates _ requestId _ _ _
  | .credential _ requestId _ _ | .error _ requestId _ => requestId

/-- `try_for_each` -/
def validateCandidates : List Candidate → Except ProtocolError Unit
  | [] => .ok ()
  | candidate :: candidates => do
    candidate.validate
    validateCandidates candidates

def BrowserResponse.validate (response : BrowserResponse) : Except ProtocolError Unit := do
  validateCommon response.version response.requestId
  match response with
  | .candidates _ _ vaultSessionId listed _ =>
    validateToken vaultSessionId
    if MAX_CANDIDATES < listed.length then throw .invalidField
    else validateCandidates listed
  | .credential _ _ username password =>
    validateBounded username MAX_CREDENTIAL_FIELD_BYTES
    validateBounded password MAX_CREDENTIAL_FIELD_BYTES
  | _ => pure ()

/-! ## Serialisation -/

def BrowserRequest.toJson : BrowserRequest → Json
  | .connect version requestId =>
    .object [("type", .string "connect"), ("version", .number version.toNat), ("requestId", .string requestId)]
  | .candidates version requestId origin =>
    .object [("type", .string "candidates"), ("version", .number version.toNat),
      ("requestId", .string requestId), ("origin", .string origin)]
  | .credential version requestId origin vaultSessionId entryId =>
    .object [("type", .string "credential"), ("version", .number version.toNat),
      ("requestId", .string requestId), ("origin", .string origin),
      ("vaultSessionId", .string vaultSessionId), ("entryId", .string entryId)]

def CandidateText.toJson : CandidateText → Json
  | .visible value => .object [("kind", .string "visible"), ("value", .string value)]
  | .protectedText => .object [("kind", .string "protected")]

def Candidate.toJson (candidate : Candidate) : Json :=
  .object [("entryId", .string candidate.entryId), ("title", candidate.title.toJson),
    ("username", candidate.username.toJson)]

def VaultState.name : VaultState → String
  | .locked => "locked"
  | .ready => "ready"

def ErrorCode.name : ErrorCode → String
  | .desktopUnavailable => "desktopUnavailable"
  | .approvalRequired => "approvalRequired"
  | .denied => "denied"
  | .locked => "locked"
  | .noMatches => "noMatches"
  | .unsupportedTarget => "unsupportedTarget"
  | .invalidRequest => "invalidRequest"
  | .internal => "internal"

def BrowserResponse.toJson : BrowserResponse → Json
  | .approvalPending version requestId =>
    .object [("type", .string "approvalPending"), ("version", .number version.toNat),
      ("requestId", .string requestId)]
  | .connected version requestId vaultState =>
    .object [("type", .string "connected"), ("version", .number version.toNat),
      ("requestId", .string requestId), ("vaultState", .string vaultState.name)]
  | .candidates version requestId vaultSessionId listed truncated =>
    .object [("type", .string "candidates"), ("version", .number version.toNat),
      ("requestId", .string requestId), ("vaultSessionId", .string vaultSessionId),
      ("candidates", .array (listed.map Candidate.toJson)), ("truncated", .bool truncated)]
  | .credential version requestId username password =>
    .object [("type", .string "credential"), ("version", .number version.toNat),
      ("requestId", .string requestId), ("username", .string username), ("password", .string password)]
  | .error version requestId code =>
    .object [("type", .string "error"), ("version", .number version.toNat),
      ("requestId", .string requestId), ("code", .string code.name)]

/-! ## Deserialisation -/

/-- The value of a key. -/
def lookup (fields : List (String × Json)) (key : String) : Option Json :=
  (fields.find? (·.1 = key)).map Prod.snd

/-- `deny_unknown_fields`, with no field missing and none twice. -/
def hasKeys (fields : List (String × Json)) (keys : List String) : Option Unit :=
  if (fields.map Prod.fst).Perm keys then some () else none

def stringOf (fields : List (String × Json)) (key : String) : Option String :=
  match lookup fields key with
  | some (.string text) => some text
  | _ => none

def boolOf (fields : List (String × Json)) (key : String) : Option Bool :=
  match lookup fields key with
  | some (.bool value) => some value
  | _ => none

def versionOf (fields : List (String × Json)) : Option UInt16 :=
  match lookup fields "version" with
  | some (.number value) => if value < 65536 then some (UInt16.ofNat value) else none
  | _ => none

def BrowserRequest.fromJson : Json → Option BrowserRequest
  | .object fields => do
    let type ← stringOf fields "type"
    match type with
    | "connect" => do
      hasKeys fields ["type", "version", "requestId"]
      some (.connect (← versionOf fields) (← stringOf fields "requestId"))
    | "candidates" => do
      hasKeys fields ["type", "version", "requestId", "origin"]
      some (.candidates (← versionOf fields) (← stringOf fields "requestId") (← stringOf fields "origin"))
    | "credential" => do
      hasKeys fields ["type", "version", "requestId", "origin", "vaultSessionId", "entryId"]
      some (.credential (← versionOf fields) (← stringOf fields "requestId") (← stringOf fields "origin")
        (← stringOf fields "vaultSessionId") (← stringOf fields "entryId"))
    | _ => none
  | _ => none

def CandidateText.fromJson : Json → Option CandidateText
  | .object fields => do
    let kind ← stringOf fields "kind"
    match kind with
    | "visible" => do
      hasKeys fields ["kind", "value"]
      some (.visible (← stringOf fields "value"))
    | "protected" => do
      hasKeys fields ["kind"]
      some .protectedText
    | _ => none
  | _ => none

def Candidate.fromJson : Json → Option Candidate
  | .object fields => do
    hasKeys fields ["entryId", "title", "username"]
    let entryId ← stringOf fields "entryId"
    let title ← (lookup fields "title").bind CandidateText.fromJson
    let username ← (lookup fields "username").bind CandidateText.fromJson
    some ⟨entryId, title, username⟩
  | _ => none

def VaultState.fromName (name : String) : Option VaultState :=
  [VaultState.locked, .ready].find? fun state => state.name = name

def ErrorCode.fromName (name : String) : Option ErrorCode :=
  [ErrorCode.desktopUnavailable, .approvalRequired, .denied, .locked, .noMatches, .unsupportedTarget,
    .invalidRequest, .internal].find? fun code => code.name = name

def candidatesOf (fields : List (String × Json)) : Option (List Candidate) :=
  match lookup fields "candidates" with
  | some (.array items) => items.mapM Candidate.fromJson
  | _ => none

def BrowserResponse.fromJson : Json → Option BrowserResponse
  | .object fields => do
    let type ← stringOf fields "type"
    match type with
    | "approvalPending" => do
      hasKeys fields ["type", "version", "requestId"]
      some (.approvalPending (← versionOf fields) (← stringOf fields "requestId"))
    | "connected" => do
      hasKeys fields ["type", "version", "requestId", "vaultState"]
      some (.connected (← versionOf fields) (← stringOf fields "requestId")
        (← (stringOf fields "vaultState").bind VaultState.fromName))
    | "candidates" => do
      hasKeys fields ["type", "version", "requestId", "vaultSessionId", "candidates", "truncated"]
      some (.candidates (← versionOf fields) (← stringOf fields "requestId")
        (← stringOf fields "vaultSessionId") (← candidatesOf fields) (← boolOf fields "truncated"))
    | "credential" => do
      hasKeys fields ["type", "version", "requestId", "username", "password"]
      some (.credential (← versionOf fields) (← stringOf fields "requestId") (← stringOf fields "username")
        (← stringOf fields "password"))
    | "error" => do
      hasKeys fields ["type", "version", "requestId", "code"]
      some (.error (← versionOf fields) (← stringOf fields "requestId")
        (← (stringOf fields "code").bind ErrorCode.fromName))
    | _ => none
  | _ => none

/-! ## Frames -/

inductive FrameError where
  | empty
  | oversized
  | invalidJson
  | invalidProtocol
deriving DecidableEq

/-- A length and the payload of that many bytes, as text. -/
structure Frame where
  declared : Nat
  payload : List Char

def readFrame (frame : Frame) : Except FrameError (List Char) :=
  if frame.declared = 0 then .error .empty
  else if MAX_FRAME_BYTES < frame.declared then .error .oversized
  else .ok frame.payload

def writeMessage (message : Json) : Except FrameError Frame :=
  let payload := message.render
  if payload.isEmpty then .error .empty
  else if MAX_FRAME_BYTES < Json.bytes payload then .error .oversized
  else .ok ⟨Json.bytes payload, payload⟩

/-- `parse` is what `serde_json` makes of the bytes. -/
def readMessage {α : Type} (parse : List Char → Option Json) (fromJson : Json → Option α)
    (validate : α → Except ProtocolError Unit) (frame : Frame) : Except FrameError α := do
  let payload ← readFrame frame
  match (parse payload).bind fromJson with
  | none => throw .invalidJson
  | some message =>
    match validate message with
    | .ok _ => pure message
    | .error _ => throw .invalidProtocol

def readRequest (parse : List Char → Option Json) (frame : Frame) : Except FrameError BrowserRequest :=
  readMessage parse BrowserRequest.fromJson BrowserRequest.validate frame

def readResponse (parse : List Char → Option Json) (frame : Frame) : Except FrameError BrowserResponse :=
  readMessage parse BrowserResponse.fromJson BrowserResponse.validate frame

/-! ## What is written is read -/

theorem version_lt (version : UInt16) : version.toNat < 65536 := version.toNat_lt

theorem BrowserRequest.fromJson_toJson (request : BrowserRequest) :
    BrowserRequest.fromJson request.toJson = some request := by
  cases request <;>
    simp [BrowserRequest.toJson, BrowserRequest.fromJson, stringOf, versionOf, lookup, hasKeys, version_lt]

theorem CandidateText.fromJson_toJson (text : CandidateText) :
    CandidateText.fromJson text.toJson = some text := by
  cases text <;> simp [CandidateText.toJson, CandidateText.fromJson, stringOf, lookup, hasKeys]

theorem Candidate.fromJson_toJson (candidate : Candidate) :
    Candidate.fromJson candidate.toJson = some candidate := by
  simp [Candidate.toJson, Candidate.fromJson, stringOf, lookup, hasKeys, CandidateText.fromJson_toJson]

theorem mapM_fromJson_toJson (candidates : List Candidate) :
    candidates.mapM (Candidate.fromJson ∘ Candidate.toJson) = some candidates := by
  induction candidates with
  | nil => rfl
  | cons candidate candidates ih =>
    rw [List.mapM_cons, ih, Function.comp_apply, Candidate.fromJson_toJson]
    rfl

theorem VaultState.fromName_name (state : VaultState) : VaultState.fromName state.name = some state := by
  cases state <;> decide

theorem ErrorCode.fromName_name (code : ErrorCode) : ErrorCode.fromName code.name = some code := by
  cases code <;> decide

theorem BrowserResponse.fromJson_toJson (response : BrowserResponse) :
    BrowserResponse.fromJson response.toJson = some response := by
  cases response <;>
    simp [BrowserResponse.toJson, BrowserResponse.fromJson, stringOf, boolOf, versionOf, candidatesOf, lookup,
      hasKeys, version_lt, mapM_fromJson_toJson, VaultState.fromName_name, ErrorCode.fromName_name]

/-- A response that fits a frame arrives as it was sent, or not at all if it is not valid. -/
theorem readResponse_writeMessage {parse : List Char → Option Json} {response : BrowserResponse}
    (hparse : parse response.toJson.render = some response.toJson)
    (hsize : Json.bytes response.toJson.render ≤ MAX_FRAME_BYTES) :
    (writeMessage response.toJson).bind (readResponse parse) =
      match response.validate with
      | .ok _ => .ok response
      | .error _ => .error .invalidProtocol := by
  obtain ⟨char, text, htext, -⟩ := Json.render_head response.toJson
  have hpos : 0 < Json.bytes response.toJson.render := by
    rw [htext, Json.bytes_cons]
    exact Nat.add_pos_left char.utf8Size_pos _
  have hwritten : writeMessage response.toJson =
      .ok ⟨Json.bytes response.toJson.render, response.toJson.render⟩ := by
    simp only [writeMessage]
    rw [if_neg (by simp [htext]), if_neg (by omega)]
  have hframe : readFrame ⟨Json.bytes response.toJson.render, response.toJson.render⟩ =
      .ok response.toJson.render := by
    simp only [readFrame]
    rw [if_neg (by omega), if_neg (by omega)]
  have hmessage : (parse response.toJson.render).bind BrowserResponse.fromJson = some response := by
    rw [hparse, Option.bind_some, BrowserResponse.fromJson_toJson]
  rw [hwritten]
  simp only [Except.bind, readResponse, readMessage, hframe, bind, hmessage]
  cases response.validate <;> rfl

theorem readResponse_eq_ok_iff {parse : List Char → Option Json} {response : BrowserResponse}
    (hparse : parse response.toJson.render = some response.toJson)
    (hsize : Json.bytes response.toJson.render ≤ MAX_FRAME_BYTES) :
    (writeMessage response.toJson).bind (readResponse parse) = .ok response ↔ response.validate = .ok () := by
  rw [readResponse_writeMessage hparse hsize]
  cases response.validate <;> simp

end NianPass.NativeProtocol
