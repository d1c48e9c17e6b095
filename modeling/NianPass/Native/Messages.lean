import NianPass.Browser.Protocol
import NianPass.Lib.Chars
import NianPass.Lib.Json

/-
  The extension's side of the native protocol: `native-protocol.ts` and the requests
  `background-native.ts` sends.

  A response is taken from a JavaScript value of any shape. A parser returns the value
  itself under its type; here it returns what the type says of it.
-/
namespace NianPass.Native

open Browser

/-- `text.length`: UTF-16 code units. -/
def utf16Length (text : String) : Nat :=
  (text.toList.map fun char => if char.toNat < 0x10000 then 1 else 2).sum

/-- `new TextEncoder().encode(text).length`, and `text.len()` in Rust: UTF-8 bytes. -/
def utf8Length (text : String) : Nat := Json.bytes text.toList

def MAX_CREDENTIAL_FIELD_LENGTH : Nat := 16384

inductive CandidateText where
  | visible (value : String)
  | protectedText
deriving DecidableEq

structure NativeCandidate where
  entryId : String
  title : CandidateText
  username : CandidateText
deriving DecidableEq

inductive NativeErrorCode where
  | desktopUnavailable | approvalRequired | denied | locked | noMatches | unsupportedTarget
  | invalidRequest | internal
deriving DecidableEq

inductive NativeAnswer where
  | approvalPending
  | connected (locked : Bool)
  | candidates (vaultSessionId : String) (candidates : List NativeCandidate) (truncated : Bool)
  | credential (username password : String)
  | error (code : NativeErrorCode)
deriving DecidableEq

structure NativeResponse where
  requestId : String
  answer : NativeAnswer
deriving DecidableEq

def stringField (fields : List (String × JsValue)) (key : String) : Option String :=
  match field fields key with
  | .string text => some text
  | _ => none

def errorName : NativeErrorCode → String
  | .desktopUnavailable => "desktopUnavailable"
  | .approvalRequired => "approvalRequired"
  | .denied => "denied"
  | .locked => "locked"
  | .noMatches => "noMatches"
  | .unsupportedTarget => "unsupportedTarget"
  | .invalidRequest => "invalidRequest"
  | .internal => "internal"

def nativeErrors : List NativeErrorCode :=
  [.desktopUnavailable, .approvalRequired, .denied, .locked, .noMatches, .unsupportedTarget,
    .invalidRequest, .internal]

def isCandidateText (value : JsValue) : Option CandidateText :=
  match recordWithKeys value ["kind"] with
  | some fields => if (field fields "kind").isString "protected" then some .protectedText else none
  | none => do
    let fields ← recordWithKeys value ["kind", "value"]
    if !(field fields "kind").isString "visible" then none
    else do
      let text ← stringField fields "value"
      if utf8Length text ≤ 128 then some (.visible text) else none

def isNativeCandidate (value : JsValue) : Option NativeCandidate := do
  let fields ← recordWithKeys value ["entryId", "title", "username"]
  let entryId ← stringField fields "entryId"
  if utf16Length entryId = 0 ∨ 256 < utf16Length entryId then none
  else do
    let title ← isCandidateText (field fields "title")
    let username ← isCandidateText (field fields "username")
    some ⟨entryId, title, username⟩

def validCandidatesResponse (value : JsValue) : Option NativeAnswer := do
  let fields ← recordWithKeys value
    ["version", "type", "requestId", "vaultSessionId", "candidates", "truncated"]
  let vaultSessionId ← opaqueToken (field fields "vaultSessionId")
  match field fields "candidates", field fields "truncated" with
  | .array items, .boolean truncated =>
    if 100 < items.length then none
    else do
      let candidates ← items.mapM isNativeCandidate
      some (.candidates vaultSessionId candidates truncated)
  | _, _ => none

def validCredentialResponse (value : JsValue) : Option NativeAnswer := do
  let fields ← recordWithKeys value ["version", "type", "requestId", "username", "password"]
  let username ← stringField fields "username"
  let password ← stringField fields "password"
  if utf16Length username ≤ MAX_CREDENTIAL_FIELD_LENGTH ∧
      utf16Length password ≤ MAX_CREDENTIAL_FIELD_LENGTH then
    some (.credential username password)
  else none

/-- What a response of a given type says beside its version, type and request. -/
def parseAnswer (value : JsValue) (type : String) : Option NativeAnswer :=
  match type with
  | "approvalPending" => do
    let _ ← recordWithKeys value ["version", "type", "requestId"]
    some .approvalPending
  | "connected" => do
    let fields ← recordWithKeys value ["version", "type", "requestId", "vaultState"]
    if (field fields "vaultState").isString "locked" then some (.connected true)
    else if (field fields "vaultState").isString "ready" then some (.connected false)
    else none
  | "candidates" => validCandidatesResponse value
  | "credential" => validCredentialResponse value
  | "error" => do
    let fields ← recordWithKeys value ["version", "type", "requestId", "code"]
    let code ← nativeErrors.find? fun code => (field fields "code").isString (errorName code)
    some (.error code)
  | _ => none

def parseNativeResponse (value : JsValue) : Option NativeResponse :=
  match value with
  | .object fields => do
    if !(field fields "version").isNumber 1 then none
    else do
      let requestId ← opaqueToken (field fields "requestId")
      let type ← stringField fields "type"
      let answer ← parseAnswer value type
      some ⟨requestId, answer⟩
  | _ => none

/-! ## Requests -/

inductive RequestKind where
  | connect
  | candidates
  | credential
deriving DecidableEq

inductive NativeRequest where
  | connect (requestId : String)
  | candidates (requestId origin : String)
  | credential (requestId origin vaultSessionId entryId : String)
deriving DecidableEq

/-- The object a request is. -/
def NativeRequest.toJs : NativeRequest → JsValue
  | .connect requestId =>
    .object [("version", .number (.integer 1)), ("type", .string "connect"),
      ("requestId", .string requestId)]
  | .candidates requestId origin =>
    .object [("version", .number (.integer 1)), ("type", .string "candidates"),
      ("requestId", .string requestId), ("origin", .string origin)]
  | .credential requestId origin vaultSessionId entryId =>
    .object [("version", .number (.integer 1)), ("type", .string "credential"),
      ("requestId", .string requestId), ("origin", .string origin),
      ("vaultSessionId", .string vaultSessionId), ("entryId", .string entryId)]

def randomToken (bytes : Fin 16 → UInt8) : String :=
  String.ofList ((List.ofFn bytes).flatMap Chars.hexByte)

/-- A drawn token is one of the tokens both sides take. -/
theorem isOpaqueToken_randomToken (bytes : Fin 16 → UInt8) : isOpaqueToken (randomToken bytes) = true := by
  have hlength : ((List.ofFn bytes).flatMap Chars.hexByte).length = 32 := by
    simp
  simp only [isOpaqueToken, randomToken, String.toList_ofList, hlength, decide_true, Bool.true_and,
    List.all_eq_true, List.mem_flatMap]
  rintro char ⟨byte, -, hchar⟩
  exact Chars.hex_of_mem_hexByte hchar

end NianPass.Native
