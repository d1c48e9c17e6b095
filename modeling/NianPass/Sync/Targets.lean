import Mathlib.Data.List.DropRight
import NianPass.Kdbx.Lookup
import NianPass.Lib.Chars
import NianPass.Lib.Endian

/-
  The remote object that a sync profile is bound to (`sync/profile.rs` of the desktop and the
  configurations of the three providers).

  A target is normalised by the constructor of its provider and written out as bytes, field by field;
  the hash of the bytes is what the stored BASE is bound to.

  The URL library is a parameter. `Idempotent` is what it says of itself: what it writes it reads back
  as it was, also after the path has been set. SHA-256 has 2^256 values and cannot be injective on all
  inputs, so it is asked only not to collide on the two identities that are compared.
-/
namespace NianPass.Sync.Targets

open Kdbx (Bytes)
open Chars (isBlank)

/-! ## Texts -/

/-- A string of the source, whose length is a machine number. -/
structure Text where
  text : String
  fits : text.utf8ByteSize < 2 ^ 64
  deriving DecidableEq

/-- `as_bytes`. -/
def Text.bytes (value : Text) : Bytes := value.text.toByteArray.data.toList

/-- `str::trim`. -/
def trim (value : String) : String := String.ofList (Chars.trim value.toList)

/-- `trim_end_matches('/')`. -/
def trimSlashes (value : String) : String := String.ofList (value.toList.rdropWhile (· = '/'))

theorem trim_trim (value : String) : trim (trim value) = trim value := by
  unfold trim
  rw [String.toList_ofList, Chars.trim_trim]

theorem trimSlashes_append_slash (value : String) :
    trimSlashes (trimSlashes value ++ "/") = trimSlashes value := by
  unfold trimSlashes
  rw [String.toList_append, String.toList_ofList, show "/".toList = ['/'] from rfl,
    List.rdropWhile_concat_pos _ _ _ (by decide), List.rdropWhile_idempotent]

theorem utf8ByteSize_ofList (chars : List Char) :
    (String.ofList chars).utf8ByteSize = (chars.map Char.utf8Size).sum := by
  induction chars with
  | nil => rfl
  | cons c chars ih =>
    rw [String.ofList_cons, String.utf8ByteSize_append, ih, String.utf8ByteSize_singleton,
      List.map_cons, List.sum_cons]

theorem utf8ByteSize_le (value : String) : value.utf8ByteSize ≤ 4 * value.toList.length := by
  have hsum : (value.toList.map Char.utf8Size).sum ≤ (value.toList.map Char.utf8Size).length • 4 := by
    apply List.sum_le_card_nsmul
    intro n hn
    obtain ⟨c, -, rfl⟩ := List.mem_map.mp hn
    exact Char.utf8Size_le_four c
  rw [← utf8ByteSize_ofList, String.ofList_toList, List.length_map, smul_eq_mul] at hsum
  omega

theorem utf8ByteSize_trim_le (value : String) : (trim value).utf8ByteSize ≤ value.utf8ByteSize := by
  calc (trim value).utf8ByteSize
      _ = (List.map Char.utf8Size _).sum := utf8ByteSize_ofList _
      _ ≤ (value.toList.map Char.utf8Size).sum := ((Chars.trim_sublist _).map _).sum_le_sum fun _ _ => Nat.zero_le _
      _ = value.utf8ByteSize := by rw [← utf8ByteSize_ofList, String.ofList_toList]

namespace Text

def trimmed (value : Text) : Text where
  text := trim value.text
  fits := lt_of_le_of_lt (utf8ByteSize_trim_le value.text) value.fits

theorem trimmed_trimmed (value : Text) : value.trimmed.trimmed = value.trimmed := by
  unfold trimmed
  simp only [trim_trim]

theorem length_bytes (value : Text) : value.bytes.length < 256 ^ 8 := by
  have hlength : value.bytes.length = value.text.utf8ByteSize := String.size_toByteArray
  have hfits := value.fits
  rw [hlength]
  omega

theorem bytes_injective {value other : Text} (h : value.bytes = other.bytes) : value = other := by
  have harray : value.text.toByteArray = other.text.toByteArray :=
    ByteArray.ext (Array.toList_inj.mp h)
  obtain ⟨text, fits⟩ := value
  obtain ⟨text', fits'⟩ := other
  obtain rfl : text = text' := String.toByteArray_inj.mp harray
  rfl

end Text

/-! ## Configurations -/

/-- What the configurations call of the libraries `url` and `uuid`. -/
structure Libraries where
  Url : Type
  /-- `Url::parse`. -/
  parse : Text → Option Url
  /-- `as_str`. -/
  asStr : Url → Text
  scheme : Url → String
  username : Url → String
  password : Url → Option String
  query : Url → Option String
  fragment : Url → Option String
  hostStr : Url → Option String
  cannotBeABase : Url → Bool
  path : Url → String
  setPath : Url → String → Url
  /-- `Uuid::parse_str`. -/
  parseUuid : String → Option Kdbx.Uuid

inductive DesktopError where
  | syncUnsafeProvider
  | syncFailed
  deriving DecidableEq, Repr

/-- The one error of the configurations. -/
inductive ProviderError where
  | invalidConfiguration
  deriving DecidableEq, Repr

inductive SyncProfileTargetDto where
  | webdav (resourceUrl : Text)
  | s3 (endpoint : Option Text) (region bucket objectKey : Text) (pathStyle : Bool)
  | gateway (baseUrl vaultId : Text)
  deriving DecidableEq

/-- One number of a dotted IPv4 address, as the standard library reads it. -/
def octet (digits : List Char) : Option Nat :=
  if digits = [] ∨ 3 < digits.length ∨ ¬ digits.all Char.isDigit ∨ (1 < digits.length ∧ digits.head? = some '0')
    then none
  else
    let value := digits.foldl (fun n c => 10 * n + (c.toNat - '0'.toNat)) 0
    if value ≤ 255 then some value else none

/-- `parse::<IpAddr>().is_ok_and(is_loopback)` on a host; the library writes an IPv6 address in its
shortest form. -/
def isLoopbackAddress (host : String) : Bool :=
  host = "::1" || match (host.toList.splitOn '.').map octet with
    | [some first, some _, some _, some _] => first = 127
    | _ => false

/-- The host is the machine itself. -/
def isLoopbackHost (host : String) : Bool :=
  let ipHost := String.ofList ((host.toList.dropWhile (· = '[')).rdropWhile (· = ']'))
  host.toList.map Char.toLower = "localhost".toList ∨ isLoopbackAddress ipHost

section Configurations
variable (U : Libraries)

def validateRemoteUrl (url : U.Url) : Except ProviderError Unit :=
  if U.scheme url = "https" then .ok ()
  else if U.scheme url ≠ "http" then .error .invalidConfiguration
  else match U.hostStr url with
    | none => .error .invalidConfiguration
    | some host => if isLoopbackHost host then .ok () else .error .invalidConfiguration

/-- `WebDavConfig::new`, without the user name. -/
def webDavConfig (resourceUrl : Text) : Except ProviderError U.Url :=
  match U.parse resourceUrl with
  | none => .error .invalidConfiguration
  | some url => do
    validateRemoteUrl U url
    if U.username url ≠ "" ∨ (U.password url).isSome then throw .invalidConfiguration
    else if (U.fragment url).isSome then throw .invalidConfiguration
    else pure url

def validateEndpoint (endpoint : U.Url) : Except ProviderError Unit :=
  if U.username endpoint ≠ "" ∨ (U.password endpoint).isSome ∨ (U.query endpoint).isSome ∨
      (U.fragment endpoint).isSome then .error .invalidConfiguration
  else validateRemoteUrl U endpoint

structure S3Config where
  endpoint : Option U.Url
  region : Text
  bucket : Text
  objectKey : Text
  pathStyle : Bool

/-- The endpoint of `S3Config::new`. -/
def s3Endpoint (endpoint : Option Text) : Except ProviderError (Option U.Url) :=
  match endpoint.filter fun value => ¬ isBlank value.text with
  | none => .ok none
  | some value =>
    match U.parse value with
    | none => .error .invalidConfiguration
    | some url => do
      validateEndpoint U url
      pure (some url)

def s3Config (endpoint : Option Text) (region bucket objectKey : Text) (pathStyle : Bool) :
    Except ProviderError (S3Config U) :=
  if isBlank region.text ∨ isBlank bucket.text ∨ objectKey.text = "" then .error .invalidConfiguration
  else do
    let endpoint ← s3Endpoint U endpoint
    pure ⟨endpoint, region, bucket, objectKey, pathStyle⟩

/-- `get_version() == Some(Version::Random)`. -/
def isRandom (id : Kdbx.Uuid) : Bool := id.toNat >>> 76 % 16 = 4

structure GatewayConfig where
  baseUrl : U.Url
  vaultId : Kdbx.Uuid

def gatewayConfig (baseUrl vaultId : Text) : Except ProviderError (GatewayConfig U) :=
  match U.parse baseUrl with
  | none => .error .invalidConfiguration
  | some url => do
    validateRemoteUrl U url
    if U.username url ≠ "" ∨ (U.password url).isSome ∨ (U.query url).isSome ∨ (U.fragment url).isSome ∨
        U.cannotBeABase url then throw .invalidConfiguration
    else
      let url := U.setPath url (trimSlashes (U.path url) ++ "/")
      match U.parseUuid vaultId.text with
      | none => throw .invalidConfiguration
      | some id =>
        if ¬ isRandom id ∨ vaultId.text ≠ Kdbx.Database.uuidText id then throw .invalidConfiguration
        else pure ⟨url, id⟩

/-- The hyphenated text of a UUID as a string. -/
def hyphenated (id : Kdbx.Uuid) : Text where
  text := Kdbx.Database.uuidText id
  fits := by
    have hlength := Kdbx.length_uuidText id
    have hle := utf8ByteSize_le (Kdbx.Database.uuidText id)
    omega

namespace SyncProfileTargetDto

def normalized : SyncProfileTargetDto → Except DesktopError SyncProfileTargetDto
  | .webdav resourceUrl => do
    let config ← (webDavConfig U resourceUrl).mapError fun _ => .syncUnsafeProvider
    pure (.webdav (U.asStr config))
  | .s3 endpoint region bucket objectKey pathStyle => do
    let config ← (s3Config U endpoint region.trimmed bucket.trimmed objectKey pathStyle).mapError
      fun _ => .syncUnsafeProvider
    pure (.s3 (config.endpoint.map U.asStr) config.region config.bucket config.objectKey config.pathStyle)
  | .gateway baseUrl vaultId => do
    let config ← (gatewayConfig U baseUrl vaultId).mapError fun _ => .syncUnsafeProvider
    pure (.gateway (U.asStr config.baseUrl) (hyphenated config.vaultId))

end SyncProfileTargetDto

end Configurations

/-! ## The binding -/

/-- The bytes of an ASCII literal. -/
def literal (text : String) : Bytes := text.toList.map fun c => UInt8.ofNat c.toNat

def appendIdentityField (identity : Bytes) (value : Text) : Bytes :=
  identity ++ Endian.counted 8 value.bytes

/-- What is hashed of a normalised target. -/
def identityOf : SyncProfileTargetDto → Bytes
  | .webdav resourceUrl => appendIdentityField (literal "webdav-target-v1") resourceUrl
  | .s3 endpoint region bucket objectKey pathStyle =>
    let identity := literal "s3-target-v1"
    let identity := match endpoint with
      | some endpoint => appendIdentityField (identity ++ [1]) endpoint
      | none => identity ++ [0]
    let identity := appendIdentityField identity region
    let identity := appendIdentityField identity bucket
    let identity := appendIdentityField identity objectKey
    identity ++ [if pathStyle then 1 else 0]
  | .gateway baseUrl vaultId =>
    appendIdentityField (appendIdentityField (literal "gateway-target-v1") baseUrl) vaultId

/-- `CiphertextDigest::of(..).as_str()`: a digest in lower-case hexadecimal. -/
def hexText (digest : BitVec 256) : String :=
  String.ofList ((List.range 64).map fun i => Nat.digitChar (digest.toNat >>> (4 * (63 - i)) % 16))

def isHexDigit (c : Char) : Bool := c.isDigit ∨ ('a' ≤ c ∧ c ≤ 'f')

structure TargetBinding where
  value : String
  deriving DecidableEq

/-- `TargetBinding::from_sha256`, with the check of `CiphertextDigest::parse`. -/
def TargetBinding.fromSha256 (value : String) : Option TargetBinding :=
  if value.utf8ByteSize = 64 ∧ value.toList.all isHexDigit then some ⟨value⟩ else none

def SyncProfileTargetDto.targetBinding (U : Libraries) (sha256 : Bytes → BitVec 256)
    (target : SyncProfileTargetDto) : Except DesktopError TargetBinding := do
  let normal ← target.normalized U
  match TargetBinding.fromSha256 (hexText (sha256 (identityOf normal))) with
  | none => throw .syncFailed
  | some binding => pure binding

/-! ## What the libraries promise -/

section Faithful
variable (U : Libraries)

/-- The two URLs differ in their paths at most. -/
structure SamePlace (url other : U.Url) : Prop where
  scheme : U.scheme url = U.scheme other
  username : U.username url = U.username other
  password : U.password url = U.password other
  query : U.query url = U.query other
  fragment : U.fragment url = U.fragment other
  hostStr : U.hostStr url = U.hostStr other
  cannotBeABase : U.cannotBeABase url = U.cannotBeABase other

/-- The URL library reads what it writes, also after the path of a web address has been closed with
a slash; a blank text is no URL. -/
structure Idempotent : Prop where
  serialised : ∀ text url, U.parse text = some url → U.parse (U.asStr url) = some url
  visible : ∀ text url, U.parse text = some url → isBlank text.text = false
  closed : ∀ text url, U.parse text = some url → U.scheme url = "https" ∨ U.scheme url = "http" →
    let out := U.setPath url (trimSlashes (U.path url) ++ "/")
    U.parse (U.asStr out) = some out ∧ SamePlace U out url ∧
      U.path out = trimSlashes (U.path url) ++ "/" ∧ U.setPath out (U.path out) = out

variable {U}

/-! ## Normalising -/

theorem validateRemoteUrl_scheme {url : U.Url} (h : validateRemoteUrl U url = .ok ()) :
    U.scheme url = "https" ∨ U.scheme url = "http" := by
  unfold validateRemoteUrl at h
  split at h
  · case isTrue hhttps => exact Or.inl hhttps
  · split at h
    · cases h
    · case isFalse hhttp => exact Or.inr (not_not.mp hhttp)

theorem SamePlace.validateRemoteUrl {url other : U.Url} (h : SamePlace U url other) :
    validateRemoteUrl U url = validateRemoteUrl U other := by
  unfold Targets.validateRemoteUrl
  rw [h.scheme, h.hostStr]

theorem webDavConfig_ok {text : Text} {url : U.Url} (h : webDavConfig U text = .ok url) :
    U.parse text = some url := by
  unfold webDavConfig at h
  cases hparse : U.parse text with
  | none => rw [hparse] at h; cases h
  | some parsed =>
    rw [hparse] at h
    dsimp only at h
    cases hvalid : validateRemoteUrl U parsed with
    | error e => rw [hvalid] at h; cases h
    | ok _ =>
      rw [hvalid] at h
      change (if _ then _ else if _ then _ else _) = _ at h
      split at h
      · cases h
      · split at h
        · cases h
        · rw [Except.ok.inj h]

theorem webDavConfig_asStr (hU : Idempotent U) {text : Text} {url : U.Url}
    (h : webDavConfig U text = .ok url) : webDavConfig U (U.asStr url) = .ok url := by
  have hparse := webDavConfig_ok h
  have hagain := hU.serialised text url hparse
  unfold webDavConfig at h ⊢
  rw [hparse] at h
  rw [hagain]
  exact h

theorem s3Endpoint_asStr (hU : Idempotent U) {endpoint : Option Text} {out : Option U.Url}
    (h : s3Endpoint U endpoint = .ok out) : s3Endpoint U (out.map U.asStr) = .ok out := by
  unfold s3Endpoint at h
  split at h
  · obtain rfl := Except.ok.inj h
    rfl
  · case h_2 value _ =>
    cases hparse : U.parse value with
    | none => rw [hparse] at h; cases h
    | some url =>
      rw [hparse] at h
      dsimp only at h
      cases hvalid : validateEndpoint U url with
      | error e => rw [hvalid] at h; cases h
      | ok _ =>
        rw [hvalid] at h
        obtain rfl := Except.ok.inj h
        have hagain := hU.serialised value url hparse
        have hfilter : (some (U.asStr url)).filter (fun value => ¬ isBlank value.text) =
            some (U.asStr url) := by
          simp [hU.visible _ _ hagain]
        unfold s3Endpoint
        rw [Option.map_some, hfilter]
        dsimp only
        rw [hagain]
        dsimp only
        rw [hvalid]
        rfl

theorem s3Config_ok {endpoint : Option Text} {region bucket objectKey : Text} {pathStyle : Bool}
    {config : S3Config U} (h : s3Config U endpoint region bucket objectKey pathStyle = .ok config) :
    (¬ (isBlank region.text ∨ isBlank bucket.text ∨ objectKey.text = "")) ∧
      s3Endpoint U endpoint = .ok config.endpoint ∧ config.region = region ∧ config.bucket = bucket ∧
      config.objectKey = objectKey ∧ config.pathStyle = pathStyle := by
  unfold s3Config at h
  split at h
  · cases h
  · case isFalse hvisible =>
    cases hendpoint : s3Endpoint U endpoint with
    | error e => rw [hendpoint] at h; cases h
    | ok found =>
      rw [hendpoint] at h
      obtain rfl := Except.ok.inj h
      exact ⟨hvisible, rfl, rfl, rfl, rfl, rfl⟩

theorem s3Config_asStr (hU : Idempotent U) {endpoint : Option Text} {region bucket objectKey : Text}
    {pathStyle : Bool} {config : S3Config U}
    (h : s3Config U endpoint region bucket objectKey pathStyle = .ok config) :
    s3Config U (config.endpoint.map U.asStr) region bucket objectKey pathStyle = .ok config := by
  obtain ⟨hvisible, hendpoint, hregion, hbucket, hkey, hstyle⟩ := s3Config_ok h
  unfold s3Config
  rw [if_neg hvisible, s3Endpoint_asStr hU hendpoint, ← hregion, ← hbucket, ← hkey, ← hstyle]
  rfl

theorem gatewayConfig_ok {baseUrl vaultId : Text} {config : GatewayConfig U}
    (h : gatewayConfig U baseUrl vaultId = .ok config) : ∃ url, U.parse baseUrl = some url ∧
      validateRemoteUrl U url = .ok () ∧
      (¬ (U.username url ≠ "" ∨ (U.password url).isSome ∨ (U.query url).isSome ∨
        (U.fragment url).isSome ∨ U.cannotBeABase url)) ∧
      config.baseUrl = U.setPath url (trimSlashes (U.path url) ++ "/") ∧
      U.parseUuid vaultId.text = some config.vaultId ∧ isRandom config.vaultId = true ∧
      vaultId = hyphenated config.vaultId := by
  unfold gatewayConfig at h
  cases hparse : U.parse baseUrl with
  | none => rw [hparse] at h; cases h
  | some url =>
    rw [hparse] at h
    dsimp only at h
    cases hvalid : validateRemoteUrl U url with
    | error e => rw [hvalid] at h; cases h
    | ok _ =>
      rw [hvalid] at h
      change (if _ then _ else _) = _ at h
      split at h
      · cases h
      · case isFalse hplain =>
        cases huuid : U.parseUuid vaultId.text with
        | none => simp only [huuid] at h; cases h
        | some id =>
          simp only [huuid] at h
          split at h
          · cases h
          · case isFalse hcanonical =>
            obtain rfl := Except.ok.inj h
            rw [not_or, not_not, not_not] at hcanonical
            refine ⟨url, rfl, hvalid, hplain, rfl, rfl, hcanonical.1, ?_⟩
            obtain ⟨text, fits⟩ := vaultId
            obtain rfl : text = Kdbx.Database.uuidText id := hcanonical.2
            rfl

theorem gatewayConfig_asStr (hU : Idempotent U) {baseUrl vaultId : Text} {config : GatewayConfig U}
    (h : gatewayConfig U baseUrl vaultId = .ok config) :
    gatewayConfig U (U.asStr config.baseUrl) (hyphenated config.vaultId) = .ok config := by
  obtain ⟨url, hparse, hvalid, hplain, hbase, huuid, hrandom, hcanonical⟩ := gatewayConfig_ok h
  obtain ⟨hagain, hplace, hpath, hset⟩ := hU.closed baseUrl url hparse (validateRemoteUrl_scheme hvalid)
  generalize U.setPath url (trimSlashes (U.path url) ++ "/") = out at hagain hplace hpath hset hbase
  rw [hpath] at hset
  obtain ⟨base, id⟩ := config
  obtain rfl : base = out := hbase
  dsimp only at huuid hrandom hcanonical ⊢
  have hid : ¬ (¬ isRandom id = true ∨ (hyphenated id).text ≠ Kdbx.Database.uuidText id) := by
    rw [not_or, not_not, not_not]
    exact ⟨hrandom, rfl⟩
  rw [hcanonical] at huuid
  unfold gatewayConfig
  rw [hagain]
  dsimp only
  rw [hplace.validateRemoteUrl, hvalid, hplace.username, hplace.password, hplace.query, hplace.fragment,
    hplace.cannotBeABase]
  show (if _ then _ else _) = _
  rw [if_neg hplain, hpath, trimSlashes_append_slash, hset, huuid]
  dsimp only
  rw [if_neg hid]
  rfl

/-- Normalising a normalised target changes nothing. -/
theorem normalized_normalized (hU : Idempotent U) {target normal : SyncProfileTargetDto}
    (h : target.normalized U = .ok normal) : normal.normalized U = .ok normal := by
  cases target with
  | webdav resourceUrl =>
    rw [SyncProfileTargetDto.normalized] at h
    cases hconfig : webDavConfig U resourceUrl with
    | error e => rw [hconfig] at h; cases h
    | ok url =>
      rw [hconfig] at h
      obtain rfl := Except.ok.inj h
      rw [SyncProfileTargetDto.normalized, webDavConfig_asStr hU hconfig]
      rfl
  | s3 endpoint region bucket objectKey pathStyle =>
    rw [SyncProfileTargetDto.normalized] at h
    cases hconfig : s3Config U endpoint region.trimmed bucket.trimmed objectKey pathStyle with
    | error e => rw [hconfig] at h; cases h
    | ok config =>
      rw [hconfig] at h
      obtain rfl := Except.ok.inj h
      have hagain := s3Config_asStr hU hconfig
      obtain ⟨-, -, hregion, hbucket, hkey, hstyle⟩ := s3Config_ok hconfig
      rw [SyncProfileTargetDto.normalized, hregion, hbucket, hkey, hstyle, Text.trimmed_trimmed, Text.trimmed_trimmed, hagain]
      dsimp only [Except.mapError]
      rw [← hregion, ← hbucket, ← hkey, ← hstyle]
      rfl
  | gateway baseUrl vaultId =>
    rw [SyncProfileTargetDto.normalized] at h
    cases hconfig : gatewayConfig U baseUrl vaultId with
    | error e => rw [hconfig] at h; cases h
    | ok config =>
      rw [hconfig] at h
      obtain rfl := Except.ok.inj h
      rw [SyncProfileTargetDto.normalized, gatewayConfig_asStr hU hconfig]
      rfl

/-! ## Telling targets apart -/

/-- A field ends where its length says. -/
theorem field_append_inj {value other : Text} {rest rest' : Bytes} :
    Endian.counted 8 value.bytes ++ rest = Endian.counted 8 other.bytes ++ rest' ↔
      value = other ∧ rest = rest' := by
  rw [Endian.counted_append_inj value.length_bytes other.length_bytes]
  exact and_congr_left fun _ => ⟨Text.bytes_injective, congrArg Text.bytes⟩

theorem field_inj {value other : Text} :
    Endian.counted 8 value.bytes = Endian.counted 8 other.bytes ↔ value = other := by
  have h := @field_append_inj value other [] []
  rwa [List.append_nil, List.append_nil, and_iff_left rfl] at h

/-- The first byte of an identity tells the provider. -/
def SyncProfileTargetDto.firstByte : SyncProfileTargetDto → UInt8
  | .webdav _ => 119
  | .s3 .. => 115
  | .gateway .. => 103

theorem head?_identityOf (target : SyncProfileTargetDto) :
    (identityOf target).head? = some target.firstByte := by
  cases target with
  | webdav resourceUrl => rfl
  | s3 endpoint region bucket objectKey pathStyle => cases endpoint <;> rfl
  | gateway baseUrl vaultId => rfl

/-- The fields of an S3 target behind its endpoint. -/
def s3Tail (region bucket objectKey : Text) (pathStyle : Bool) : Bytes :=
  Endian.counted 8 region.bytes ++ (Endian.counted 8 bucket.bytes ++
    (Endian.counted 8 objectKey.bytes ++ [if pathStyle then 1 else 0]))

theorem s3Tail_inj {region bucket objectKey region' bucket' objectKey' : Text} {style style' : Bool}
    (h : s3Tail region bucket objectKey style = s3Tail region' bucket' objectKey' style') :
    region = region' ∧ bucket = bucket' ∧ objectKey = objectKey' ∧ style = style' := by
  unfold s3Tail at h
  rw [field_append_inj, field_append_inj, field_append_inj] at h
  obtain ⟨hregion, hbucket, hkey, hstyle⟩ := h
  refine ⟨hregion, hbucket, hkey, ?_⟩
  cases style <;> cases style' <;> simp at hstyle ⊢

theorem identityOf_s3 (endpoint : Option Text) (region bucket objectKey : Text) (pathStyle : Bool) :
    identityOf (.s3 endpoint region bucket objectKey pathStyle) = literal "s3-target-v1" ++
      match endpoint with
      | some endpoint => 1 :: (Endian.counted 8 endpoint.bytes ++ s3Tail region bucket objectKey pathStyle)
      | none => 0 :: s3Tail region bucket objectKey pathStyle := by
  cases endpoint with
  | none => simp [identityOf, appendIdentityField, s3Tail]
  | some endpoint => simp [identityOf, appendIdentityField, s3Tail]

/-- The identity of a target is that target's only. -/
theorem identityOf_injective {target other : SyncProfileTargetDto}
    (h : identityOf target = identityOf other) : target = other := by
  have hfirst : target.firstByte = other.firstByte := by
    have hhead := congrArg List.head? h
    rw [head?_identityOf, head?_identityOf] at hhead
    exact Option.some.inj hhead
  cases target with
  | webdav resourceUrl =>
    cases other with
    | webdav otherUrl =>
      rw [identityOf, identityOf, appendIdentityField, appendIdentityField, List.append_cancel_left_eq,
        field_inj] at h
      rw [h]
    | s3 endpoint region bucket objectKey pathStyle => simp [SyncProfileTargetDto.firstByte] at hfirst
    | gateway baseUrl vaultId => simp [SyncProfileTargetDto.firstByte] at hfirst
  | s3 endpoint region bucket objectKey pathStyle =>
    cases other with
    | webdav otherUrl => simp [SyncProfileTargetDto.firstByte] at hfirst
    | s3 endpoint' region' bucket' objectKey' pathStyle' =>
      rw [identityOf_s3, identityOf_s3, List.append_cancel_left_eq] at h
      cases endpoint with
      | none =>
        cases endpoint' with
        | none =>
          obtain ⟨rfl, rfl, rfl, rfl⟩ := s3Tail_inj (List.cons.inj h).2
          rfl
        | some value => exact absurd (List.cons.inj h).1 (by decide)
      | some value =>
        cases endpoint' with
        | none => exact absurd (List.cons.inj h).1 (by decide)
        | some value' =>
          obtain ⟨rfl, htail⟩ := field_append_inj.mp (List.cons.inj h).2
          obtain ⟨rfl, rfl, rfl, rfl⟩ := s3Tail_inj htail
          rfl
    | gateway baseUrl vaultId => simp [SyncProfileTargetDto.firstByte] at hfirst
  | gateway baseUrl vaultId =>
    cases other with
    | webdav otherUrl => simp [SyncProfileTargetDto.firstByte] at hfirst
    | s3 endpoint region bucket objectKey pathStyle => simp [SyncProfileTargetDto.firstByte] at hfirst
    | gateway baseUrl' vaultId' =>
      rw [identityOf, identityOf, appendIdentityField, appendIdentityField, appendIdentityField,
        appendIdentityField, List.append_assoc, List.append_assoc, List.append_cancel_left_eq,
        field_append_inj, field_inj] at h
      obtain ⟨rfl, rfl⟩ := h
      rfl

/-! ## The text of a digest -/

theorem fromSha256_hexText (digest : BitVec 256) :
    TargetBinding.fromSha256 (hexText digest) = some ⟨hexText digest⟩ := by
  have hdigit : ∀ n < 16, (Nat.digitChar n).utf8Size = 1 ∧ isHexDigit (Nat.digitChar n) = true := by
    decide
  have hsize : (hexText digest).utf8ByteSize = 64 := by
    have hones : ((List.range 64).map fun i => Nat.digitChar (digest.toNat >>> (4 * (63 - i)) % 16)).map
        Char.utf8Size = (List.range 64).map fun _ => 1 := by
      rw [List.map_map]
      exact List.map_congr_left fun i _ => (hdigit _ (Nat.mod_lt _ (by decide))).1
    rw [hexText, utf8ByteSize_ofList, hones]
    rfl
  have hhex : (hexText digest).toList.all isHexDigit = true := by
    rw [hexText, String.toList_ofList, List.all_map, List.all_eq_true]
    intro i _
    exact (hdigit _ (Nat.mod_lt _ (by decide))).2
  rw [TargetBinding.fromSha256, if_pos ⟨hsize, hhex⟩]

theorem hexText_injective {digest other : BitVec 256} (h : hexText digest = hexText other) :
    digest = other := by
  have hchars := String.ofList_injective h
  rw [List.map_inj_left] at hchars
  have hdigits : ∀ i < 64, digest.toNat >>> (4 * i) % 16 = other.toNat >>> (4 * i) % 16 := by
    intro i hi
    have hchar := hchars (63 - i) (List.mem_range.mpr (by omega))
    rw [show 63 - (63 - i) = i by omega] at hchar
    exact Kdbx.digitChar_lt_inj (Nat.mod_lt _ (by decide)) (Nat.mod_lt _ (by decide)) hchar
  have hmod := Kdbx.mod_eq_of_digits hdigits
  rw [show 16 ^ 64 = 2 ^ 256 by norm_num, Nat.mod_eq_of_lt digest.isLt,
    Nat.mod_eq_of_lt other.isLt] at hmod
  exact BitVec.eq_of_toNat_eq hmod

/-- Two inputs of a hash with the same output. -/
def Collide (sha256 : Bytes → BitVec 256) (first second : Bytes) : Prop :=
  first ≠ second ∧ sha256 first = sha256 second

/-- Normalising an accepted target again changes nothing, and unless the hash collides on their
identities, two accepted targets have the same binding exactly if they are normalised to the same
target. -/
theorem targetBinding_faithful (hU : Idempotent U) (sha256 : Bytes → BitVec 256)
    {target normal : SyncProfileTargetDto} (h : target.normalized U = .ok normal) :
    normal.normalized U = .ok normal ∧
      ∀ other otherNormal, SyncProfileTargetDto.normalized U other = .ok otherNormal →
        ¬ Collide sha256 (identityOf normal) (identityOf otherNormal) →
        ∃ binding otherBinding, target.targetBinding U sha256 = .ok binding ∧
          other.targetBinding U sha256 = .ok otherBinding ∧
          (binding = otherBinding ↔ normal = otherNormal) := by
  have hbinding : ∀ {target normal : SyncProfileTargetDto}, target.normalized U = .ok normal →
      target.targetBinding U sha256 = .ok ⟨hexText (sha256 (identityOf normal))⟩ := by
    intro target normal h
    rw [SyncProfileTargetDto.targetBinding, h]
    show (match TargetBinding.fromSha256 (hexText (sha256 (identityOf normal))) with
      | none => _
      | some binding => _ : Except DesktopError TargetBinding) = _
    rw [fromSha256_hexText]
    rfl
  refine ⟨normalized_normalized hU h, ?_⟩
  intro other otherNormal hother hcollide
  refine ⟨_, _, hbinding h, hbinding hother, ?_⟩
  constructor
  · intro hsame
    have hdigest := hexText_injective (TargetBinding.mk.inj hsame)
    apply identityOf_injective
    by_contra hne
    exact hcollide ⟨hne, hdigest⟩
  · rintro rfl
    rfl

end Faithful

/-! ## Two addresses -/

/-- A file and a directory, and both with their paths closed. -/
inductive KnownUrl where
  | file
  | closedFile
  | directory
  | closedDirectory
  deriving DecidableEq

namespace KnownUrl

def asStr : KnownUrl → Text
  | file => ⟨"https://dav.example/vault.kdbx", by decide⟩
  | closedFile => ⟨"https://dav.example/vault.kdbx/", by decide⟩
  | directory => ⟨"https://gate.example/sync", by decide⟩
  | closedDirectory => ⟨"https://gate.example/sync/", by decide⟩

def path : KnownUrl → String
  | file => "/vault.kdbx"
  | closedFile => "/vault.kdbx/"
  | directory => "/sync"
  | closedDirectory => "/sync/"

def spellings : List (String × KnownUrl) :=
  [("https://dav.example/vault.kdbx", file), ("https://dav.example/vault.kdbx/", closedFile),
   ("https://gate.example/sync", directory), ("https://gate.example/sync/", closedDirectory),
   ("HTTPS://Gate.example:443/sync", directory)]

def read (text : Text) : Option KnownUrl :=
  (spellings.find? (·.1 = text.text)).map (·.2)

def setPath (url : KnownUrl) (path : String) : KnownUrl :=
  if path = "/vault.kdbx/" then closedFile else if path = "/sync/" then closedDirectory else url

end KnownUrl

def knownLibraries : Libraries where
  Url := KnownUrl
  parse := KnownUrl.read
  asStr := KnownUrl.asStr
  scheme _ := "https"
  username _ := ""
  password _ := none
  query _ := none
  fragment _ := none
  hostStr
    | .file | .closedFile => some "dav.example"
    | .directory | .closedDirectory => some "gate.example"
  cannotBeABase _ := false
  path := KnownUrl.path
  setPath := KnownUrl.setPath
  parseUuid text :=
    if text = "00112233-4455-4677-8899-aabbccddeeff" then some 0x00112233445546778899aabbccddeeff else none

instance : DecidableEq knownLibraries.Url :=
  inferInstanceAs (DecidableEq KnownUrl)

theorem known_idempotent : Idempotent knownLibraries := by
  have hfound : ∀ text url, knownLibraries.parse text = some url →
      ∃ item ∈ KnownUrl.spellings, item.1 = text.text ∧ item.2 = url := by
    intro text url h
    obtain ⟨item, hitem, hurl⟩ := Option.map_eq_some_iff.mp h
    have htext := List.find?_some hitem
    exact ⟨item, List.mem_of_find?_eq_some hitem, of_decide_eq_true htext, hurl⟩
  have hread : ∀ url : KnownUrl, KnownUrl.read url.asStr = some url := by
    intro url
    cases url <;> decide +kernel
  have hvisible : ∀ item ∈ KnownUrl.spellings, isBlank item.1 = false := by decide +kernel
  constructor
  · exact fun _ url _ => hread url
  · intro text url h
    obtain ⟨item, hitem, htext, -⟩ := hfound text url h
    rw [← htext]
    exact hvisible item hitem
  · intro text url _ _
    refine ⟨hread _, ?_, ?_, ?_⟩
    · constructor <;> cases url <;> decide +kernel
    · cases url <;> decide +kernel
    · cases url <;> decide +kernel

/-- The digests of the identities of the directory and of the file. -/
def knownDigest (identity : Bytes) : BitVec 256 :=
  if identity.head? = some 103 then
    0x8f16756c8e3ba087ab0618fa6db4d30dbe0287d95bf1f574317103c9e8e58cbd
  else
    0xeb004b816ffb23ba24819f932cca22e2cba3a230888580371a346ca04a73d9a7

/-- The directory, spelled in two ways, and the file. -/
def gatewayTarget (baseUrl : Text) : SyncProfileTargetDto :=
  .gateway baseUrl ⟨"00112233-4455-4677-8899-aabbccddeeff", by decide⟩

set_option maxRecDepth 100000 in
theorem targetBinding_faithful_known :
    let spelled := gatewayTarget ⟨"HTTPS://Gate.example:443/sync", by decide⟩
    let plain := gatewayTarget ⟨"https://gate.example/sync/", by decide⟩
    let file := SyncProfileTargetDto.webdav ⟨"https://dav.example/vault.kdbx", by decide⟩
    spelled.targetBinding knownLibraries knownDigest = plain.targetBinding knownLibraries knownDigest ∧
      spelled.targetBinding knownLibraries knownDigest ≠ file.targetBinding knownLibraries knownDigest := by
  intro spelled plain file
  have hspelled : spelled.normalized knownLibraries = .ok plain := by decide +kernel
  have hplain : plain.normalized knownLibraries = .ok plain := by decide +kernel
  have hfile : file.normalized knownLibraries = .ok file := by decide +kernel
  obtain ⟨-, hfaithful⟩ := targetBinding_faithful known_idempotent knownDigest hspelled
  constructor
  · obtain ⟨binding, other, hbinding, hother, hsame⟩ := hfaithful plain plain hplain fun h => h.1 rfl
    rw [hbinding, hother, hsame.mpr rfl]
  · have hdigests : knownDigest (identityOf plain) ≠ knownDigest (identityOf file) := by decide +kernel
    obtain ⟨binding, other, hbinding, hother, hsame⟩ := hfaithful file file hfile fun h => hdigests h.2
    rw [hbinding, hother]
    intro heq
    have hne : plain ≠ file := by decide
    exact hne (hsame.mp (Except.ok.inj heq))

end NianPass.Sync.Targets
