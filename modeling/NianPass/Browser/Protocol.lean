import Mathlib.Tactic

/-
  What the browser extension's parts say to each other: `protocol.ts`, `site-policy.ts`
  and the types of `runtime-port.ts`.

  A message arrives as a JavaScript value of any shape. A parser takes exactly the
  records of its own fields, under its own version and type.
-/
namespace NianPass.Browser

/-- A number; only integers are told apart. -/
inductive JsNumber where
  | integer (value : Int)
  | other
deriving DecidableEq

inductive JsValue where
  | undefined
  | null
  | boolean (value : Bool)
  | number (value : JsNumber)
  | string (value : String)
  | array (items : List JsValue)
  | object (fields : List (String × JsValue))

def PROTOCOL_VERSION : Int := 1

def JsValue.isNumber (value : JsValue) (number : Int) : Bool :=
  match value with
  | .number (.integer value) => value = number
  | _ => false

def JsValue.isString (value : JsValue) (text : String) : Bool :=
  match value with
  | .string value => value = text
  | _ => false

/-- `value["key"]` -/
def field (fields : List (String × JsValue)) (key : String) : JsValue :=
  ((fields.find? (·.1 = key)).map Prod.snd).getD .undefined

/-- The fields of a record with exactly these keys, in any order. -/
def recordWithKeys (value : JsValue) (keys : List String) : Option (List (String × JsValue)) :=
  match value with
  | .object fields =>
    if (fields.map Prod.fst).Perm keys then some fields else none
  | _ => none

def hasProtocol (fields : List (String × JsValue)) : Bool :=
  (field fields "protocolVersion").isNumber PROTOCOL_VERSION

/-- `/^[0-9a-f]{32}$/` -/
def isOpaqueToken (text : String) : Bool :=
  text.toList.length = 32 && text.toList.all fun char => char.isDigit || ('a' ≤ char && char ≤ 'f')

def opaqueToken (value : JsValue) : Option String :=
  match value with
  | .string text => if isOpaqueToken text then some text else none
  | _ => none

/-- A number of form fields; `Number.MAX_SAFE_INTEGER` bounds it. -/
def isCount (value : JsValue) : Bool :=
  match value with
  | .number (.integer value) => 0 ≤ value && value ≤ 9007199254740991
  | _ => false

structure FillTarget where
  usernameFieldHandle : Option String
  passwordFieldHandle : String
deriving DecidableEq

/-- `undefined` is not a target and not the absence of one either. -/
def fillTarget (value : JsValue) : Option (Option FillTarget) :=
  match value with
  | .null => some none
  | value => do
    let fields ← recordWithKeys value ["usernameFieldHandle", "passwordFieldHandle"]
    let usernameFieldHandle ← match field fields "usernameFieldHandle" with
      | .null => some none
      | value => (opaqueToken value).map some
    let passwordFieldHandle ← opaqueToken (field fields "passwordFieldHandle")
    some (some ⟨usernameFieldHandle, passwordFieldHandle⟩)

/-- The part of a page state that is kept. -/
structure PageStateChanged where
  documentNonce : String
  hasLoginForm : Bool
  fillTarget : Option FillTarget
deriving DecidableEq

def parsePageStateChanged (value : JsValue) : Option PageStateChanged := do
  let fields ← recordWithKeys value ["protocolVersion", "type", "documentNonce", "hasLoginForm",
    "passwordFieldCount", "usernameCandidateCount", "formCount", "fillTarget"]
  if !hasProtocol fields || !(field fields "type").isString "pageStateChanged" then none
  else do
    let documentNonce ← opaqueToken (field fields "documentNonce")
    let hasLoginForm ← match field fields "hasLoginForm" with
      | .boolean value => some value
      | _ => none
    if !isCount (field fields "passwordFieldCount") || !isCount (field fields "usernameCandidateCount") ||
        !isCount (field fields "formCount") then none
    else do
      let fillTarget ← fillTarget (field fields "fillTarget")
      some ⟨documentNonce, hasLoginForm, fillTarget⟩

/-- The nonce of a document's greeting. -/
def parseDocumentHello (value : JsValue) : Option String := do
  let fields ← recordWithKeys value ["protocolVersion", "type", "documentNonce"]
  if !hasProtocol fields || !(field fields "type").isString "documentHello" then none
  else opaqueToken (field fields "documentNonce")

/-- A URL, as the platform takes it apart. -/
structure Url where
  protocol : String
  hostname : String
  username : String
  password : String
  origin : String
deriving DecidableEq

structure SiteIdentity where
  host : String
  origin : String
  pattern : String
deriving DecidableEq

structure SenderTab where
  id : Option Int
  url : Option String
deriving DecidableEq

structure MessageSender where
  id : Option String
  url : Option String
  frameId : Option Int
  tab : Option SenderTab
deriving DecidableEq

structure RuntimePort where
  name : String
  sender : Option MessageSender
deriving DecidableEq

def CONTENT_PORT_NAME : String := "nian-pass-content-v1"

/-- What the browser answers without waiting: its URL parser and its names for the extension. -/
structure Platform where
  parseUrl : String → Option Url
  extensionId : String
  popupUrl : String

def siteIdentityFromUrl (platform : Platform) (value : String) : Option SiteIdentity := do
  let url ← platform.parseUrl value
  if ¬(url.protocol = "http:" ∨ url.protocol = "https:") ∨ url.hostname = "" ∨ url.username ≠ "" ∨
      url.password ≠ "" then none
  else some ⟨url.hostname, url.origin, url.protocol ++ "//" ++ url.hostname ++ "/*"⟩

end NianPass.Browser
