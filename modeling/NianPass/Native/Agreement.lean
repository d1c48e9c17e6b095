import NianPass.Native.Client
import NianPass.Native.Protocol

/-
  The two ends of the browser protocol: what the Rust side takes for valid the extension
  takes as well, and the other way round for the requests of `NativeClient`.

  Rust counts bytes where TypeScript counts UTF-16 code units, of which there are never
  more. The extension says nothing about NUL and little about empty texts: it never sends
  one, since an origin has a host and the identifiers come from valid responses.
-/
namespace NianPass.Native

open Browser NativeProtocol

/-! ## Documents as JavaScript values -/

mutual
/-- The value `JSON.parse` makes of a document. -/
def ofJson : Json → JsValue
  | .null => .null
  | .bool value => .boolean value
  | .number value => .number (.integer value)
  | .string value => .string value
  | .array items => .array (ofItems items)
  | .object fields => .object (ofFields fields)
termination_by structural value => value
def ofItems : List Json → List JsValue
  | [] => []
  | item :: items => ofJson item :: ofItems items
termination_by structural items => items
def ofFields : List (String × Json) → List (String × JsValue)
  | [] => []
  | field :: fields => ofField field :: ofFields fields
termination_by structural fields => fields
def ofField : String × Json → String × JsValue
  | (key, value) => (key, ofJson value)
termination_by structural field => field
end

/-- The document of a request. -/
def NativeRequest.document : NativeRequest → Json
  | .connect requestId =>
    .object [("version", .number 1), ("type", .string "connect"), ("requestId", .string requestId)]
  | .candidates requestId origin =>
    .object [("version", .number 1), ("type", .string "candidates"), ("requestId", .string requestId),
      ("origin", .string origin)]
  | .credential requestId origin vaultSessionId entryId =>
    .object [("version", .number 1), ("type", .string "credential"), ("requestId", .string requestId),
      ("origin", .string origin), ("vaultSessionId", .string vaultSessionId), ("entryId", .string entryId)]

/-! ## The same content -/

def candidateText : NativeProtocol.CandidateText → CandidateText
  | .visible value => .visible value
  | .protectedText => .protectedText

def candidate (candidate : Candidate) : NativeCandidate :=
  ⟨candidate.entryId, candidateText candidate.title, candidateText candidate.username⟩

def errorCode : ErrorCode → NativeErrorCode
  | .desktopUnavailable => .desktopUnavailable
  | .approvalRequired => .approvalRequired
  | .denied => .denied
  | .locked => .locked
  | .noMatches => .noMatches
  | .unsupportedTarget => .unsupportedTarget
  | .invalidRequest => .invalidRequest
  | .internal => .internal

/-- A response as the extension has it. -/
def response : BrowserResponse → NativeResponse
  | .approvalPending _ requestId => ⟨requestId, .approvalPending⟩
  | .connected _ requestId vaultState => ⟨requestId, .connected (vaultState = .locked)⟩
  | .candidates _ requestId vaultSessionId listed truncated =>
    ⟨requestId, .candidates vaultSessionId (listed.map candidate) truncated⟩
  | .credential _ requestId username password => ⟨requestId, .credential username password⟩
  | .error _ requestId code => ⟨requestId, .error (errorCode code)⟩

/-- A request as Rust has it. -/
def request : NativeRequest → BrowserRequest
  | .connect requestId => .connect NativeProtocol.PROTOCOL_VERSION requestId
  | .candidates requestId origin => .candidates NativeProtocol.PROTOCOL_VERSION requestId origin
  | .credential requestId origin vaultSessionId entryId =>
    .credential NativeProtocol.PROTOCOL_VERSION requestId origin vaultSessionId entryId

/-! ## Lengths -/

theorem utf8Size_eq (char : Char) : char.utf8Size =
    if char.toNat ≤ 127 then 1 else if char.toNat ≤ 2047 then 2 else if char.toNat ≤ 65535 then 3 else 4 := by
  simp only [Char.utf8Size, UInt32.le_iff_toNat_le]
  rfl

theorem utf16Length_le (text : String) : utf16Length text ≤ utf8Length text := by
  have hchar : ∀ char : Char, (if char.toNat < 0x10000 then 1 else 2) ≤ char.utf8Size := by
    intro char
    rw [utf8Size_eq]
    split_ifs <;> omega
  exact List.sum_le_sum fun char _ => hchar char

theorem utf16Length_pos {text : String} (h : text ≠ "") : 0 < utf16Length text := by
  cases htext : text.toList with
  | nil => exact absurd (String.toList_eq_nil_iff.1 htext) h
  | cons char rest =>
    simp only [utf16Length, htext, List.map_cons, List.sum_cons]
    split_ifs <;> omega

/-! ## Tokens and bounded texts -/

theorem le_iff_toNat (low high : Char) : low ≤ high ↔ low.toNat ≤ high.toNat := Iff.rfl

/-- The two tests of a digit are one. -/
theorem hexdigit_iff (char : Char) : (isAsciiHexdigit char && !isAsciiUppercase char) = true ↔
    (char.isDigit || ('a' ≤ char && char ≤ 'f')) = true := by
  have hdigit : char.isDigit = true ↔ 48 ≤ char.toNat ∧ char.toNat ≤ 57 := by
    simp only [Char.isDigit, Bool.and_eq_true, decide_eq_true_eq]
    exact Iff.rfl
  simp only [isAsciiHexdigit, isAsciiUppercase, Bool.and_eq_true, Bool.or_eq_true, Bool.not_eq_true',
    decide_eq_true_eq, Bool.and_eq_false_iff, decide_eq_false_iff_not, hdigit, le_iff_toNat]
  simp only [show 'a'.toNat = 97 from rfl, show 'f'.toNat = 102 from rfl, show 'A'.toNat = 65 from rfl,
    show 'F'.toNat = 70 from rfl, show 'Z'.toNat = 90 from rfl]
  omega

theorem hexdigit_size {char : Char} (h : (char.isDigit || ('a' ≤ char && char ≤ 'f')) = true) :
    char.utf8Size = 1 := by
  have hcode : char.toNat ≤ 127 := by
    rw [Bool.or_eq_true, Bool.and_eq_true, decide_eq_true_eq, decide_eq_true_eq] at h
    rcases h with hdigit | hlower
    · rw [Char.isDigit, Bool.and_eq_true, decide_eq_true_eq, decide_eq_true_eq] at hdigit
      have : char.toNat ≤ 57 := hdigit.2
      omega
    · have : char.toNat ≤ 102 := hlower.2
      omega
  rw [utf8Size_eq, if_pos hcode]

theorem utf8Length_eq {value : String}
    (h : ∀ char ∈ value.toList, (char.isDigit || ('a' ≤ char && char ≤ 'f')) = true) :
    utf8Length value = value.toList.length := by
  unfold utf8Length Json.bytes
  rw [List.map_congr_left fun char hchar => hexdigit_size (h char hchar)]
  simp

/-- Both sides take the same tokens. -/
theorem validateToken_eq_ok_iff (value : String) : validateToken value = .ok () ↔ isOpaqueToken value = true := by
  have hsame : (value.toList.all fun char => isAsciiHexdigit char && !isAsciiUppercase char) =
      value.toList.all fun char => char.isDigit || ('a' ≤ char && char ≤ 'f') := by
    rw [Bool.eq_iff_iff, List.all_eq_true, List.all_eq_true]
    exact forall₂_congr fun char _ => hexdigit_iff char
  unfold validateToken isOpaqueToken
  rw [hsame]
  by_cases hdigits : (value.toList.all fun char => char.isDigit || ('a' ≤ char && char ≤ 'f')) = true
  · rw [utf8Length_eq (List.all_eq_true.1 hdigits), hdigits]
    by_cases hlength : value.toList.length = 32 <;> simp [hlength, REQUEST_ID_LENGTH]
  · simp [hdigits]

theorem validateBounded_eq_ok_iff {value : String} {maximum : Nat} : validateBounded value maximum = .ok () ↔
    value ≠ "" ∧ utf8Length value ≤ maximum ∧ Char.ofNat 0 ∉ value.toList := by
  unfold validateBounded
  split_ifs with h
  · simp only [false_iff]
    rintro ⟨hnonempty, hlength, hnul⟩
    rcases h with h | h | h
    · exact hnonempty (by simpa using h)
    · omega
    · exact hnul (by simpa using h)
  · simp only [not_or] at h
    obtain ⟨hnonempty, hlength, hnul⟩ := h
    exact iff_of_true rfl ⟨by simpa using hnonempty, by omega, by simpa using hnul⟩

/-! ## Responses -/

@[simp] theorem bind_ok_iff {first : Except ProtocolError Unit} {next : Unit → Except ProtocolError Unit} :
    (first >>= next) = .ok () ↔ first = .ok () ∧ next () = .ok () := by
  cases first <;> simp [bind, Except.bind]

theorem validateCommon_eq_ok {version : UInt16} {requestId : String}
    (h : validateCommon version requestId = .ok ()) : version = 1 ∧ validateToken requestId = .ok () := by
  unfold validateCommon at h
  split_ifs at h with hversion
  refine ⟨not_not.1 hversion, ?_⟩
  cases htoken : validateToken requestId with
  | ok _ => rfl
  | error error => simp [htoken, Except.mapError] at h

theorem opaqueToken_eq {value : String} (h : validateToken value = .ok ()) :
    opaqueToken (.string value) = some value := by
  rw [opaqueToken, if_pos ((validateToken_eq_ok_iff value).1 h)]

theorem isCandidateText_of_valid {text : NativeProtocol.CandidateText} (h : text.validate = .ok ()) :
    isCandidateText (ofJson text.toJson) = some (candidateText text) := by
  cases text with
  | visible value =>
    have hlength := (validateBounded_eq_ok_iff.1 h).2.1
    have hshown : utf8Length value ≤ 128 := hlength
    simp [CandidateText.toJson, ofJson, ofFields, ofField, isCandidateText, recordWithKeys, field,
      JsValue.isString, stringField, candidateText, hshown]
  | protectedText =>
    simp [CandidateText.toJson, ofJson, ofFields, ofField, isCandidateText, recordWithKeys, field,
      JsValue.isString, candidateText]

theorem isNativeCandidate_of_valid {source : Candidate} (h : source.validate = .ok ()) :
    isNativeCandidate (ofJson source.toJson) = some (candidate source) := by
  unfold Candidate.validate at h
  rw [bind_ok_iff, bind_ok_iff] at h
  obtain ⟨hid, htitle, husername⟩ := h
  obtain ⟨hnonempty, hlength, -⟩ := validateBounded_eq_ok_iff.1 hid
  have hpos := utf16Length_pos hnonempty
  have hle : utf16Length source.entryId ≤ 256 := (utf16Length_le _).trans hlength
  have hbounds : ¬(utf16Length source.entryId = 0 ∨ 256 < utf16Length source.entryId) := by omega
  simp [Candidate.toJson, ofJson, ofFields, ofField, isNativeCandidate, recordWithKeys, field, stringField,
    candidate, isCandidateText_of_valid htitle, isCandidateText_of_valid husername]
  omega

theorem mapM_isNativeCandidate {listed : List Candidate} (h : validateCandidates listed = .ok ()) :
    (ofItems (listed.map Candidate.toJson)).mapM isNativeCandidate = some (listed.map candidate) := by
  induction listed with
  | nil => rfl
  | cons source listed ih =>
    rw [validateCandidates, bind_ok_iff] at h
    rw [List.map_cons, ofItems, List.mapM_cons, isNativeCandidate_of_valid h.1, ih h.2]
    rfl

theorem length_ofItems (items : List Json) : (ofItems items).length = items.length := by
  induction items with
  | nil => rfl
  | cons item items ih => rw [ofItems, List.length_cons, List.length_cons, ih]

theorem find_errorName (code : ErrorCode) :
    (nativeErrors.find? fun other => (JsValue.string code.name).isString (errorName other)) =
      some (errorCode code) := by
  cases code <;> decide

/-- The fields all responses have, and those of one. -/
def fieldsOf (type requestId : String) (rest : List (String × JsValue)) : List (String × JsValue) :=
  ("type", .string type) :: ("version", .number (.integer 1)) :: ("requestId", .string requestId) :: rest

section fields
variable (type requestId : String) (rest : List (String × JsValue))

theorem recordWithKeys_fieldsOf :
    recordWithKeys (.object (fieldsOf type requestId rest))
      ("version" :: "type" :: "requestId" :: rest.map Prod.fst) = some (fieldsOf type requestId rest) :=
  if_pos (List.Perm.swap "version" "type" _)

theorem field_fieldsOf {key : String} (h : key ∉ ["type", "version", "requestId"]) :
    field (fieldsOf type requestId rest) key = field rest key := by
  simp only [List.mem_cons, List.not_mem_nil, or_false, not_or] at h
  have hother : ∀ name : String, key ≠ name → (name = key) = False := fun name hne => eq_false (Ne.symm hne)
  simp [field, fieldsOf, hother _ h.1, hother _ h.2.1, hother _ h.2.2]

theorem parseNativeResponse_fieldsOf {answer : NativeAnswer} (htoken : validateToken requestId = .ok ())
    (hanswer : parseAnswer (.object (fieldsOf type requestId rest)) type = some answer) :
    parseNativeResponse (.object (fieldsOf type requestId rest)) = some ⟨requestId, answer⟩ := by
  have hversion : field (fieldsOf type requestId rest) "version" = .number (.integer 1) := by
    simp [field, fieldsOf]
  have hid : field (fieldsOf type requestId rest) "requestId" = .string requestId := by
    simp [field, fieldsOf]
  have htype : stringField (fieldsOf type requestId rest) "type" = some type := by
    simp [stringField, field, fieldsOf]
  simp [parseNativeResponse, hversion, hid, htype, JsValue.isNumber, opaqueToken_eq htoken, hanswer]

end fields

/-- What Rust takes for a valid response the extension accepts. -/
theorem parseNativeResponse_of_valid {source : BrowserResponse} (h : source.validate = .ok ()) :
    parseNativeResponse (ofJson source.toJson) = some (response source) := by
  unfold BrowserResponse.validate at h
  rw [bind_ok_iff] at h
  obtain ⟨hcommon, hanswer⟩ := h
  obtain ⟨hversion, htoken⟩ := validateCommon_eq_ok hcommon
  cases source with
  | approvalPending version requestId =>
    obtain rfl : version = 1 := hversion
    refine parseNativeResponse_fieldsOf _ _ [] htoken ?_
    have hrecord : recordWithKeys (.object (fieldsOf "approvalPending" requestId []))
        ["version", "type", "requestId"] = some _ := recordWithKeys_fieldsOf _ _ _
    simp only [parseAnswer, hrecord, bind, Option.bind_some]
  | connected version requestId vaultState =>
    obtain rfl : version = 1 := hversion
    refine parseNativeResponse_fieldsOf _ _ [("vaultState", .string vaultState.name)] htoken ?_
    have hrecord : recordWithKeys
        (.object (fieldsOf "connected" requestId [("vaultState", .string vaultState.name)]))
        ["version", "type", "requestId", "vaultState"] = some _ := recordWithKeys_fieldsOf _ _ _
    have hstate := field_fieldsOf "connected" requestId [("vaultState", .string vaultState.name)]
      (by decide : "vaultState" ∉ _)
    simp only [parseAnswer, hrecord, bind, Option.bind_some, hstate]
    cases vaultState <;> decide
  | candidates version requestId vaultSessionId listed truncated =>
    obtain rfl : version = 1 := hversion
    rw [bind_ok_iff] at hanswer
    obtain ⟨hsession, hlisted⟩ := hanswer
    have hcount : ¬ 100 < listed.length := by
      intro hlong
      rw [if_pos (show MAX_CANDIDATES < listed.length from hlong)] at hlisted
      cases hlisted
    rw [if_neg (show ¬ MAX_CANDIDATES < listed.length from hcount)] at hlisted
    refine parseNativeResponse_fieldsOf _ _ [("vaultSessionId", .string vaultSessionId),
      ("candidates", .array (ofItems (listed.map Candidate.toJson))), ("truncated", .boolean truncated)]
      htoken ?_
    have hrecord : recordWithKeys (.object (fieldsOf "candidates" requestId
          [("vaultSessionId", .string vaultSessionId),
            ("candidates", .array (ofItems (listed.map Candidate.toJson))), ("truncated", .boolean truncated)]))
        ["version", "type", "requestId", "vaultSessionId", "candidates", "truncated"] = some _ :=
      recordWithKeys_fieldsOf _ _ _
    simp only [parseAnswer, validCandidatesResponse, hrecord, bind, Option.bind_some]
    simp [field, fieldsOf, opaqueToken_eq hsession, length_ofItems, hcount, mapM_isNativeCandidate hlisted]
  | credential version requestId username password =>
    obtain rfl : version = 1 := hversion
    rw [bind_ok_iff] at hanswer
    have husername := (utf16Length_le username).trans (validateBounded_eq_ok_iff.1 hanswer.1).2.1
    have hpassword := (utf16Length_le password).trans (validateBounded_eq_ok_iff.1 hanswer.2).2.1
    refine parseNativeResponse_fieldsOf _ _ [("username", .string username), ("password", .string password)]
      htoken ?_
    have hrecord : recordWithKeys (.object (fieldsOf "credential" requestId
          [("username", .string username), ("password", .string password)]))
        ["version", "type", "requestId", "username", "password"] = some _ := recordWithKeys_fieldsOf _ _ _
    have hbounds : utf16Length username ≤ MAX_CREDENTIAL_FIELD_LENGTH ∧
        utf16Length password ≤ MAX_CREDENTIAL_FIELD_LENGTH := ⟨husername, hpassword⟩
    simp only [parseAnswer, validCredentialResponse, hrecord, bind, Option.bind_some]
    simp [stringField, field, fieldsOf, hbounds]
  | error version requestId code =>
    obtain rfl : version = 1 := hversion
    refine parseNativeResponse_fieldsOf _ _ [("code", .string code.name)] htoken ?_
    have hrecord : recordWithKeys (.object (fieldsOf "error" requestId [("code", .string code.name)]))
        ["version", "type", "requestId", "code"] = some _ := recordWithKeys_fieldsOf _ _ _
    have hcode := field_fieldsOf "error" requestId [("code", .string code.name)] (by decide : "code" ∉ _)
    simp only [parseAnswer, hrecord, bind, Option.bind_some, hcode]
    rw [show field [("code", .string code.name)] "code" = .string code.name from rfl, find_errorName]
    rfl

/-! ## Requests -/

def NativeRequest.requestId : NativeRequest → String
  | .connect requestId | .candidates requestId _ | .credential requestId _ _ _ => requestId

/-- Every request that was posted has a drawn identifier. -/
def Tokens (s : NativeClient) : Prop := ∀ sent ∈ s.posted, isOpaqueToken sent.2.requestId = true

section tokens
variable {random : Random} {s : NativeClient}

theorem tokens_of_eq {s' : NativeClient} (h : Tokens s) (heq : s'.posted = s.posted) : Tokens s' := by
  intro sent hsent
  exact h sent (heq ▸ hsent)

theorem settle_posted (pending : PendingRequest) (answer : Option NativeResponse) :
    (s.settle pending answer).posted = s.posted := by
  obtain ⟨state, heq⟩ := s.settle_eq pending answer
  rw [heq]

theorem settleAll_posted (owed : List PendingRequest) : (s.settleAll owed).posted = s.posted := by
  induction owed generalizing s with
  | nil => rfl
  | cons pending owed ih => exact ih.trans (settle_posted pending none)

theorem tokens_request (h : Tokens s) {kind : RequestKind} {create : String → NativeRequest} {posts : Bool}
    (hcreate : ∀ requestId, (create requestId).requestId = requestId) :
    Tokens (s.request random kind create posts) := by
  unfold NativeClient.request
  split
  · dsimp only
    split
    · intro sent hsent
      rcases List.mem_append.1 hsent with hold | hnew
      · exact h sent hold
      · rw [List.mem_singleton.1 hnew, hcreate]
        exact isOpaqueToken_randomToken _
    · exact tokens_of_eq h (settle_posted _ _)
  · exact h

theorem tokens_step (h : Tokens s) (event : Event) : Tokens (s.step random event) := by
  cases event with
  | connect connects posts =>
    show Tokens (s.connect random connects posts)
    unfold NativeClient.connect
    split_ifs
    · exact h
    · have hid : ∀ requestId, (NativeRequest.connect requestId).requestId = requestId := fun _ => rfl
      refine tokens_request ?_ hid
      exact fun sent hsent => h sent hsent
    · exact fun sent hsent => h sent hsent
  | candidates origin posts =>
    show Tokens (s.candidates random origin posts)
    exact tokens_request h fun _ => rfl
  | credential origin vaultSessionId entryId posts =>
    show Tokens (s.credential random origin vaultSessionId entryId posts)
    exact tokens_request h fun _ => rfl
  | message port message =>
    refine tokens_of_eq h ?_
    unfold NativeClient.step
    dsimp only
    split
    · split
      · rfl
      · unfold NativeClient.receive
        repeat' split
        all_goals first | rfl | exact settle_posted _ _
    · rfl
  | hostLeft port =>
    refine tokens_of_eq h ?_
    unfold NativeClient.step
    dsimp only
    split
    · split
      · rfl
      · unfold NativeClient.disconnected
        split
        · rfl
        · exact settleAll_posted _
    · rfl
  | timeout timer =>
    refine tokens_of_eq h ?_
    show (s.timeout timer).posted = s.posted
    unfold NativeClient.timeout
    split
    · rfl
    · dsimp only
      split
      · split
        · exact settle_posted _ _
        · rfl
      · rfl

theorem tokens_run (random : Random) (events : List Event) : Tokens (NativeClient.run random events) := by
  induction events using List.reverseRecOn with
  | nil => exact fun sent hsent => absurd hsent List.not_mem_nil
  | append_singleton events event ih =>
    rw [NativeClient.run_append]
    exact tokens_step ih event

end tokens

/-- A response Rust takes for valid, as the extension has accepted it. -/
def Accepted (accepted : NativeResponse) : Prop :=
  ∃ source : BrowserResponse, source.validate = .ok () ∧ parseNativeResponse (ofJson source.toJson) = some accepted

/-- The origin of a site, short enough to be asked for. -/
def SiteOrigin (platform : Platform) (origin : String) : Prop :=
  utf8Length origin ≤ 2048 ∧ ∃ url site, siteIdentityFromUrl platform url = some site ∧ site.origin = origin

/-- A request about a site, with the identifiers of accepted responses. -/
def FromResponses (platform : Platform) : NativeRequest → Prop
  | .connect _ => True
  | .candidates _ origin => SiteOrigin platform origin
  | .credential _ origin vaultSessionId entryId =>
    SiteOrigin platform origin ∧
      (∃ requestId listed truncated, Accepted ⟨requestId, .candidates vaultSessionId listed truncated⟩) ∧
      ∃ requestId session listed truncated, Accepted ⟨requestId, .candidates session listed truncated⟩ ∧
        ∃ candidate ∈ listed, candidate.entryId = entryId

/-- The origin of a web address names its host: it is not empty and holds no NUL. -/
def OriginsNameHosts (platform : Platform) : Prop :=
  ∀ text url, platform.parseUrl text = some url → url.hostname ≠ "" →
    url.origin ≠ "" ∧ Char.ofNat 0 ∉ url.origin.toList

theorem validateCandidates_mem {listed : List Candidate} (h : validateCandidates listed = .ok ())
    {source : Candidate} (hmem : source ∈ listed) : source.validate = .ok () := by
  induction listed with
  | nil => exact absurd hmem List.not_mem_nil
  | cons first listed ih =>
    rw [validateCandidates, bind_ok_iff] at h
    rcases List.mem_cons.1 hmem with rfl | hmem
    · exact h.1
    · exact ih h.2 hmem

/-- What an accepted list of candidates names is valid for Rust again. -/
theorem valid_of_accepted {requestId session : String} {listed : List NativeCandidate} {truncated : Bool}
    (h : Accepted ⟨requestId, .candidates session listed truncated⟩) :
    validateToken session = .ok () ∧ ∀ candidate ∈ listed, validateBounded candidate.entryId 256 = .ok () := by
  obtain ⟨source, hvalid, hparse⟩ := h
  rw [parseNativeResponse_of_valid hvalid, Option.some.injEq] at hparse
  unfold BrowserResponse.validate at hvalid
  rw [bind_ok_iff] at hvalid
  cases source with
  | candidates version id vaultSessionId sources more =>
    simp only [response, NativeResponse.mk.injEq, NativeAnswer.candidates.injEq] at hparse
    obtain ⟨-, rfl, rfl, -⟩ := hparse
    have hvalid := hvalid.2
    rw [bind_ok_iff] at hvalid
    refine ⟨hvalid.1, fun named hnamed => ?_⟩
    obtain ⟨source, hsource, rfl⟩ := List.mem_map.1 hnamed
    have hlisted : validateCandidates sources = .ok () := by
      have := hvalid.2
      split_ifs at this
      exact this
    have hsourcevalid := validateCandidates_mem hlisted hsource
    unfold Candidate.validate at hsourcevalid
    rw [bind_ok_iff] at hsourcevalid
    exact hsourcevalid.1
  | approvalPending | connected | credential | error => simp [response] at hparse

theorem validateBounded_origin {platform : Platform} (hurl : OriginsNameHosts platform) {origin : String}
    (h : SiteOrigin platform origin) : validateBounded origin MAX_ORIGIN_LENGTH = .ok () := by
  obtain ⟨hlength, text, site, hsite, rfl⟩ := h
  unfold siteIdentityFromUrl at hsite
  rw [Option.bind_eq_bind, Option.bind_eq_some_iff] at hsite
  obtain ⟨url, hparse, hsite⟩ := hsite
  split_ifs at hsite with hrefused
  have hhost : url.hostname ≠ "" := fun hempty => hrefused (Or.inr (Or.inl hempty))
  obtain rfl := Option.some.inj hsite
  obtain ⟨hnonempty, hnul⟩ := hurl text url hparse hhost
  exact validateBounded_eq_ok_iff.2 ⟨hnonempty, hlength, hnul⟩

theorem validate_request {platform : Platform} (hurl : OriginsNameHosts platform) {sent : NativeRequest}
    (htoken : isOpaqueToken sent.requestId = true) (h : FromResponses platform sent) :
    (request sent).validate = .ok () := by
  have hcommon : validateCommon NativeProtocol.PROTOCOL_VERSION sent.requestId = .ok () := by
    rw [validateCommon, if_neg (by simp), (validateToken_eq_ok_iff _).2 htoken]
    rfl
  cases sent with
  | connect requestId => exact hcommon
  | candidates requestId origin =>
    show (validateCommon NativeProtocol.PROTOCOL_VERSION requestId >>= fun _ => validateBounded origin MAX_ORIGIN_LENGTH) = _
    exact bind_ok_iff.2 ⟨hcommon, validateBounded_origin hurl h⟩
  | credential requestId origin vaultSessionId entryId =>
    obtain ⟨horigin, ⟨_, _, _, hsession⟩, ⟨_, _, listed, _, hentries, named, hnamed, rfl⟩⟩ := h
    unfold request BrowserRequest.validate
    refine bind_ok_iff.2 ⟨hcommon, bind_ok_iff.2 ⟨validateBounded_origin hurl horigin, bind_ok_iff.2 ⟨?_, ?_⟩⟩⟩
    · exact (valid_of_accepted hsession).1
    · exact (valid_of_accepted hentries).2 named hnamed

theorem fromJson_document (sent : NativeRequest) :
    BrowserRequest.fromJson sent.document = some (request sent) := by
  cases sent <;>
    simp [NativeRequest.document, BrowserRequest.fromJson, stringOf, versionOf, lookup, hasKeys, request,
      NativeProtocol.PROTOCOL_VERSION, List.Perm.swap]

/-- **The ends agree.** With readers and writers that implement JSON for the messages at hand, the
extension accepts every valid response with its content, and every request of `NativeClient` about
a site, with identifiers of accepted responses, arrives in Rust as valid with its content. -/
theorem ends_agree (platform : Platform) (jsonParse : List Char → Option JsValue)
    (stringify : JsValue → List Char) (fromSlice : List Char → Option Json)
    (hurl : OriginsNameHosts platform)
    (hjsonParse : ∀ source : BrowserResponse, jsonParse source.toJson.render = some (ofJson source.toJson))
    (hfromSlice : ∀ sent : NativeRequest, fromSlice (stringify sent.toJs) = some sent.document) :
    (∀ source : BrowserResponse, source.validate = .ok () →
      (jsonParse source.toJson.render).bind parseNativeResponse = some (response source)) ∧
    ∀ random events port sent, (port, sent) ∈ (NativeClient.run random events).posted →
      FromResponses platform sent →
        (fromSlice (stringify sent.toJs)).bind BrowserRequest.fromJson = some (request sent) ∧
          (request sent).validate = .ok () := by
  refine ⟨fun source hvalid => ?_, fun random events port sent hsent hfrom => ⟨?_, ?_⟩⟩
  · rw [hjsonParse, Option.bind_some, parseNativeResponse_of_valid hvalid]
  · rw [hfromSlice, Option.bind_some, fromJson_document]
  · exact validate_request hurl (tokens_run random events (port, sent) hsent) hfrom

/-- A platform that knows one address. -/
def oneAddressPlatform : Platform where
  parseUrl text := if text = "https://a.example/" then
    some ⟨"https:", "a.example", "", "", "https://a.example"⟩ else none
  extensionId := "extension"
  popupUrl := "popup"

/-- What `JSON.stringify` writes of a record of texts and numbers. -/
def stringifyRecord : JsValue → List Char
  | .object fields => (Json.object (fields.map fun field => (field.1, match field.2 with
      | .string text => .string text
      | .number (.integer value) => .number value.toNat
      | _ => .null))).render
  | _ => Json.null.render

def sampleResponse : BrowserResponse :=
  .candidates 1 (randomToken fun _ => 1) (randomToken fun _ => 2)
    [⟨"an-entry", .visible "A title", .protectedText⟩] false

def sampleEvents : List Event :=
  [.connect true true, .credential "https://a.example" (randomToken fun _ => 2) "an-entry" true]

theorem ends_agree_sample :
    ((Json.read sampleResponse.toJson.render).map ofJson).bind parseNativeResponse =
        some (response sampleResponse) ∧
      ∃ sent, (0, sent) ∈ (NativeClient.run (fun n _ => UInt8.ofNat n) sampleEvents).posted ∧
        (Json.read (stringifyRecord sent.toJs)).bind BrowserRequest.fromJson = some (request sent) ∧
        (request sent).validate = .ok () := by
  have hurl : OriginsNameHosts oneAddressPlatform := by
    intro text url hparse _
    simp only [oneAddressPlatform] at hparse
    split_ifs at hparse
    obtain rfl := Option.some.inj hparse
    exact ⟨by decide, by decide⟩
  have hagree := ends_agree oneAddressPlatform (fun text => (Json.read text).map ofJson) stringifyRecord Json.read
    hurl (fun source => by rw [Json.read_render]; rfl)
    (fun sent => by cases sent <;> exact Json.read_render _)
  have haccepted : Accepted (response sampleResponse) :=
    ⟨sampleResponse, by decide +kernel, parseNativeResponse_of_valid (by decide +kernel)⟩
  have hposted : (0, NativeRequest.credential (randomToken fun _ => 2) "https://a.example"
      (randomToken fun _ => 2) "an-entry") ∈
        (NativeClient.run (fun n _ => UInt8.ofNat n) sampleEvents).posted := by
    decide +kernel
  refine ⟨hagree.1 sampleResponse (by decide +kernel), _, hposted, ?_⟩
  refine hagree.2 _ _ 0 _ hposted ⟨⟨by decide, "https://a.example/", _, rfl, rfl⟩, ?_, ?_⟩
  · exact ⟨_, _, _, haccepted⟩
  · exact ⟨_, _, _, _, haccepted, _, List.mem_singleton_self _, rfl⟩

end NianPass.Native
