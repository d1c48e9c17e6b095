import NianPass.Native.Agreement
import NianPass.Provider.Credentials

/-
  What the desktop answers an authorised browser request (`browser_bridge.rs` and
  `state/browser.rs`).

  The answer names the entries of the vault that belong to a site, with a shortened title
  and user name each, or holds one entry's user name and password. Which these are is for
  `NianPass.Provider` to say.

  What is proved: the answer always fits a frame (`bytes_reply_le`), and the native host
  takes it exactly if no text it shows is empty or holds a NUL (`reply_acceptable_iff`).
-/
namespace NianPass.Desktop.Bridge

open Kdbx NativeProtocol
open Kdbx.Projection (SummaryText)
open Native (utf8Length)
open Provider (Credential CredentialCandidate CredentialTarget ProviderError UrlParser candidates
  credential)

variable {V : Type}

/-! ## The service -/

inductive DesktopError where
  | locked
  | entryNotFound
  | invalidRequest
  | secretUnavailable
  | internal
deriving DecidableEq

def mapProviderError : ProviderError → DesktopError
  | .invalidTarget => .invalidRequest
  | .credentialUnavailable => .secretUnavailable
  | .internal => .internal

/-- A session identifier is one that `random_process_token` has drawn. -/
structure DesktopVaultService (V : Type) where
  session : Option (Database V)
  browserSessionId : Option String
  drawn : ∀ id, browserSessionId = some id → ∃ bytes, id = Native.randomToken bytes

/-- `AppState`; a lock is poisoned once a thread has panicked with it. -/
structure AppState (V : Type) where
  service : DesktopVaultService V
  servicePoisoned : Bool
  gatePoisoned : Bool

section Service
variable (lib : Editing V) (U : UrlParser)

def DesktopVaultService.browserCandidates (service : DesktopVaultService V)
    (target : CredentialTarget) : Except DesktopError (String × List CredentialCandidate) :=
  match service.session, service.browserSessionId with
  | some db, some sessionId =>
    match candidates lib U db target with
    | .ok listed => .ok (sessionId, listed)
    | .error error => .error (mapProviderError error)
  | _, _ => .error .locked

def DesktopVaultService.browserCredential (service : DesktopVaultService V)
    (expectedSessionId entryId : String) (target : CredentialTarget) :
    Except DesktopError Credential :=
  match service.session with
  | none => .error .locked
  | some db =>
    if service.browserSessionId ≠ some expectedSessionId then .error .secretUnavailable
    else (credential lib U db entryId target).mapError mapProviderError

def AppState.browserCredential (app : AppState V) (expectedSessionId entryId : String)
    (target : CredentialTarget) : Except DesktopError Credential :=
  if app.gatePoisoned ∨ app.servicePoisoned then .error .internal
  else app.service.browserCredential lib U expectedSessionId entryId target

end Service

/-! ## The answer -/

/-- `is_char_boundary` -/
def isCharBoundary : List Char → Nat → Bool
  | _, 0 => true
  | [], _ + 1 => false
  | char :: rest, index => char.utf8Size ≤ index && isCharBoundary rest (index - char.utf8Size)

/-- The loop that goes back to a boundary. -/
def charBoundary (text : List Char) : Nat → Nat
  | 0 => 0
  | boundary + 1 => if isCharBoundary text (boundary + 1) then boundary + 1 else charBoundary text boundary

/-- `&value[..boundary]` -/
def sliceTo : List Char → Nat → List Char
  | _, 0 => []
  | [], _ + 1 => []
  | char :: rest, boundary => char :: sliceTo rest (boundary - char.utf8Size)

def boundedSummary (value : String) : String :=
  if utf8Length value ≤ MAX_CANDIDATE_SUMMARY_BYTES then value
  else String.ofList (sliceTo value.toList (charBoundary value.toList MAX_CANDIDATE_SUMMARY_BYTES))

def summary : SummaryText → CandidateText
  | .visible value => .visible (boundedSummary value)
  | .missing | .protectedText => .protectedText

def error (requestId : String) (code : ErrorCode) : BrowserResponse := .error PROTOCOL_VERSION requestId code

def candidateOf (candidate : CredentialCandidate) : Candidate :=
  ⟨candidate.entryId, summary candidate.title, summary candidate.username⟩

variable (lib : Editing V) (U : UrlParser) (app : AppState V)

def candidateResponse (requestId origin : String) : BrowserResponse :=
  match CredentialTarget.browserOrigin U origin with
  | .error _ => error requestId .unsupportedTarget
  | .ok target =>
    if app.servicePoisoned then error requestId .internal
    else
      match app.service.browserCandidates lib U target with
      | .error .locked => error requestId .locked
      | .error _ => error requestId .internal
      | .ok (sessionId, source) =>
        .candidates PROTOCOL_VERSION requestId sessionId ((source.take MAX_CANDIDATES).map candidateOf)
          (MAX_CANDIDATES < source.length)

def credentialResponse (requestId origin vaultSessionId entryId : String) : BrowserResponse :=
  match CredentialTarget.browserOrigin U origin with
  | .error _ => error requestId .unsupportedTarget
  | .ok target =>
    match app.browserCredential lib U vaultSessionId entryId target with
    | .error .locked => error requestId .locked
    | .error .secretUnavailable | .error .entryNotFound => error requestId .noMatches
    | .error _ => error requestId .internal
    | .ok ⟨username, password⟩ =>
      if MAX_CREDENTIAL_FIELD_BYTES < utf8Length username ∨ MAX_CREDENTIAL_FIELD_BYTES < utf8Length password then
        error requestId .internal
      else .credential PROTOCOL_VERSION requestId username password

def handleAuthorizedRequest : BrowserRequest → BrowserResponse
  | .connect _ requestId => error requestId .invalidRequest
  | .candidates _ requestId origin => candidateResponse lib U app requestId origin
  | .credential _ requestId origin vaultSessionId entryId =>
    credentialResponse lib U app requestId origin vaultSessionId entryId

/-! ## Shortened texts -/

/-- The characters that lie wholly in the first bytes of a text. -/
def firstBytes : Nat → List Char → List Char
  | _, [] => []
  | limit, char :: rest => if char.utf8Size ≤ limit then char :: firstBytes (limit - char.utf8Size) rest else []

theorem bytes_firstBytes_le (text : List Char) (limit : Nat) : Json.bytes (firstBytes limit text) ≤ limit := by
  induction text generalizing limit with
  | nil => exact Nat.zero_le _
  | cons char rest ih =>
    rw [firstBytes]
    split
    · have := ih (limit - char.utf8Size)
      rw [Json.bytes_cons]
      omega
    · exact Nat.zero_le _

theorem firstBytes_eq_self {text : List Char} {limit : Nat} (h : Json.bytes text ≤ limit) :
    firstBytes limit text = text := by
  induction text generalizing limit with
  | nil => rfl
  | cons char rest ih =>
    rw [Json.bytes_cons] at h
    rw [firstBytes, if_pos (by omega), ih (by omega)]

theorem firstBytes_eq_nil_iff {text : List Char} {limit : Nat} (h : 4 ≤ limit) :
    firstBytes limit text = [] ↔ text = [] := by
  cases text with
  | nil => simp [firstBytes]
  | cons char rest =>
    have hsize : char.utf8Size ≤ 4 := char.utf8Size_le_four
    simp [firstBytes, show char.utf8Size ≤ limit by omega]

theorem isCharBoundary_cons {char : Char} {rest : List Char} {index : Nat} (h : 0 < index) :
    isCharBoundary (char :: rest) index =
      (char.utf8Size ≤ index && isCharBoundary rest (index - char.utf8Size)) := by
  obtain ⟨before, rfl⟩ := Nat.exists_eq_succ_of_ne_zero h.ne'
  rfl

theorem sliceTo_cons {char : Char} {rest : List Char} {boundary : Nat} (h : 0 < boundary) :
    sliceTo (char :: rest) boundary = char :: sliceTo rest (boundary - char.utf8Size) := by
  obtain ⟨before, rfl⟩ := Nat.exists_eq_succ_of_ne_zero h.ne'
  rfl

/-- The end of the first characters is a boundary, and what stands before it are they. -/
theorem boundary_firstBytes (text : List Char) (limit : Nat) :
    isCharBoundary text (Json.bytes (firstBytes limit text)) = true ∧
      sliceTo text (Json.bytes (firstBytes limit text)) = firstBytes limit text := by
  induction text generalizing limit with
  | nil => exact ⟨rfl, rfl⟩
  | cons char rest ih =>
    have hpos : 0 < char.utf8Size := char.utf8Size_pos
    obtain ⟨hboundary, hslice⟩ := ih (limit - char.utf8Size)
    rw [firstBytes]
    split
    · rw [Json.bytes_cons, isCharBoundary_cons (by omega), sliceTo_cons (by omega), Nat.add_sub_cancel_left,
        hboundary, hslice]
      exact ⟨by simp, rfl⟩
    · exact ⟨rfl, rfl⟩

/-- No boundary lies between the end of the first characters and the limit. -/
theorem boundary_le {text : List Char} {limit boundary : Nat} (h : isCharBoundary text boundary = true)
    (hle : boundary ≤ limit) : boundary ≤ Json.bytes (firstBytes limit text) := by
  induction text generalizing limit boundary with
  | nil =>
    cases boundary with
    | zero => exact Nat.zero_le _
    | succ boundary => exact absurd h (by simp [isCharBoundary])
  | cons char rest ih =>
    cases boundary with
    | zero => exact Nat.zero_le _
    | succ boundary =>
      rw [isCharBoundary_cons (Nat.succ_pos boundary), Bool.and_eq_true, decide_eq_true_eq] at h
      have hrest : boundary + 1 - char.utf8Size ≤ Json.bytes (firstBytes (limit - char.utf8Size) rest) :=
        ih h.2 (by omega)
      rw [firstBytes, if_pos (by omega), Json.bytes_cons]
      omega

theorem charBoundary_eq (text : List Char) (limit start : Nat) (hstart : start ≤ limit)
    (h : Json.bytes (firstBytes limit text) ≤ start) :
    charBoundary text start = Json.bytes (firstBytes limit text) := by
  induction start with
  | zero => exact (Nat.le_zero.1 h).symm
  | succ start ih =>
    rw [charBoundary]
    split
    · rename_i hboundary
      exact Nat.le_antisymm (boundary_le hboundary hstart) h
    · rename_i hboundary
      have hne : Json.bytes (firstBytes limit text) ≠ start + 1 := by
        intro heq
        exact hboundary (heq ▸ (boundary_firstBytes text limit).1)
      exact ih (by omega) (by omega)

/-- The loop finds the characters that lie wholly in the first 128 bytes. -/
theorem boundedSummary_eq (value : String) : boundedSummary value = String.ofList (firstBytes 128 value.toList) := by
  unfold boundedSummary
  split
  · rename_i hshort
    have hshort : Json.bytes value.toList ≤ 128 := hshort
    rw [firstBytes_eq_self hshort, String.ofList_toList]
  · have hloop : charBoundary value.toList MAX_CANDIDATE_SUMMARY_BYTES = _ :=
      charBoundary_eq value.toList 128 128 le_rfl (bytes_firstBytes_le _ _)
    rw [hloop, (boundary_firstBytes _ _).2]

/-- What is shown of a text is neither empty nor holds a NUL. -/
def Shown : SummaryText → Prop
  | .visible value => value ≠ "" ∧ Char.ofNat 0 ∉ firstBytes 128 value.toList
  | .missing | .protectedText => True

theorem validate_summary_iff (text : SummaryText) : (summary text).validate = .ok () ↔ Shown text := by
  cases text with
  | visible value =>
    show validateBounded (boundedSummary value) 128 = .ok () ↔ _
    rw [Native.validateBounded_eq_ok_iff, boundedSummary_eq]
    have hlength : utf8Length (String.ofList (firstBytes 128 value.toList)) ≤ 128 := by
      rw [utf8Length, String.toList_ofList]
      exact bytes_firstBytes_le _ _
    have hempty : String.ofList (firstBytes 128 value.toList) ≠ "" ↔ value ≠ "" := by
      rw [not_iff_not, ← String.toList_eq_nil_iff, String.toList_ofList, firstBytes_eq_nil_iff (by omega),
        String.toList_eq_nil_iff]
    rw [hempty, String.toList_ofList]
    exact ⟨fun h => ⟨h.1, h.2.2⟩, fun h => ⟨h.1, hlength, h.2⟩⟩
  | missing => exact iff_of_true rfl trivial
  | protectedText => exact iff_of_true rfl trivial

/-! ## Identifiers -/

theorem mem_uuidText {uuid : Uuid} {char : Char} (h : char ∈ (Database.uuidText uuid).toList) :
    char.utf8Size = 1 ∧ char ≠ Char.ofNat 0 := by
  have hdigit : ∀ digit, digit < 16 → (Nat.digitChar digit).utf8Size = 1 ∧ Nat.digitChar digit ≠ Char.ofNat 0 := by
    intro digit hdigit
    interval_cases digit <;> decide
  simp only [Database.uuidText, String.toList_ofList, List.mem_append, List.mem_map, List.mem_singleton] at h
  have hblock : ∀ start count, (∃ index ∈ List.range count,
      Nat.digitChar (uuid.toNat >>> (4 * (31 - (start + index))) % 16) = char) →
      char.utf8Size = 1 ∧ char ≠ Char.ofNat 0 := by
    rintro start count ⟨index, -, rfl⟩
    exact hdigit _ (Nat.mod_lt _ (by omega))
  rcases h with (((((((h | rfl) | h) | rfl) | h) | rfl) | h) | rfl) | h
  · exact hblock _ _ h
  · decide
  · exact hblock _ _ h
  · decide
  · exact hblock _ _ h
  · decide
  · exact hblock _ _ h
  · decide
  · exact hblock _ _ h

theorem utf8Length_uuidText (uuid : Uuid) : utf8Length (Database.uuidText uuid) = 36 := by
  unfold utf8Length Json.bytes
  rw [List.map_congr_left fun char hchar => (mem_uuidText hchar).1]
  simp [length_uuidText]

theorem validateBounded_uuidText (uuid : Uuid) :
    validateBounded (Database.uuidText uuid) MAX_IDENTIFIER_LENGTH = .ok () := by
  refine Native.validateBounded_eq_ok_iff.2 ⟨?_, ?_, fun hnul => (mem_uuidText hnul).2 rfl⟩
  · intro hempty
    have := length_uuidText uuid
    rw [hempty] at this
    cases this
  · rw [utf8Length_uuidText]
    decide

/-- The identifiers of a list of candidates are texts of UUIDs. -/
def Named (listed : List CredentialCandidate) : Prop :=
  ∀ candidate ∈ listed, ∃ uuid, candidate.entryId = Database.uuidText uuid

variable {lib U app}

theorem named_candidates {db : Database V} {target : CredentialTarget}
    {listed : List CredentialCandidate} (h : candidates lib U db target = .ok listed) :
    Named listed := by
  intro candidate hcandidate
  have hoffered := (Provider.candidatesAmong_eq_ok h candidate.entryId).mp
    (List.mem_map_of_mem hcandidate)
  obtain ⟨summary, hsummary, hid, -⟩ := hoffered
  obtain ⟨id, entry, -, rfl⟩ := Projection.exists_of_mem_projection hsummary
  exact ⟨id.uuid, hid.symm⟩

theorem browserCandidates_ok {service : DesktopVaultService V} {target : CredentialTarget}
    {sessionId : String} {source : List CredentialCandidate}
    (h : service.browserCandidates lib U target = .ok (sessionId, source)) :
    validateToken sessionId = .ok () ∧ Named source := by
  unfold DesktopVaultService.browserCandidates at h
  split at h
  · rename_i db id hsession hid
    split at h
    · rename_i listed hlisted
      obtain ⟨rfl, rfl⟩ := Prod.mk.inj (Except.ok.inj h)
      obtain ⟨bytes, rfl⟩ := service.drawn id hid
      refine ⟨(Native.validateToken_eq_ok_iff _).2 (Native.isOpaqueToken_randomToken bytes), ?_⟩
      exact named_candidates hlisted
    · cases h
  · cases h

/-! ## When the answer is valid -/

/-- What may be filled in: a text that is neither empty nor holds a NUL. -/
def Fillable (text : String) : Prop := text ≠ "" ∧ Char.ofNat 0 ∉ text.toList

variable (lib U app) in
/-- What the vault shows for a request: of the first hundred entries of the site the titles and user
names, or of one entry the user name and the password. -/
def Acceptable : BrowserRequest → Prop
  | .connect _ _ => True
  | .candidates _ _ origin =>
    ∀ target sessionId source, CredentialTarget.browserOrigin U origin = .ok target → app.servicePoisoned = false →
      app.service.browserCandidates lib U target = .ok (sessionId, source) →
        ∀ entry ∈ source.take MAX_CANDIDATES, Shown entry.title ∧ Shown entry.username
  | .credential _ _ origin vaultSessionId entryId =>
    ∀ target username password, CredentialTarget.browserOrigin U origin = .ok target →
      app.browserCredential lib U vaultSessionId entryId target = .ok ⟨username, password⟩ →
        utf8Length username ≤ MAX_CREDENTIAL_FIELD_BYTES → utf8Length password ≤ MAX_CREDENTIAL_FIELD_BYTES →
          Fillable username ∧ Fillable password

theorem validate_error {requestId : String} (htoken : validateToken requestId = .ok ()) (code : ErrorCode) :
    (error requestId code).validate = .ok () := by
  have hcommon : validateCommon PROTOCOL_VERSION requestId = .ok () := by
    rw [validateCommon, if_neg (by simp), htoken]
    rfl
  exact Native.bind_ok_iff.2 ⟨hcommon, rfl⟩

theorem validateCandidates_eq_ok_iff {listed : List CredentialCandidate} (h : Named listed) :
    validateCandidates (listed.map candidateOf) = .ok () ↔
      ∀ entry ∈ listed, Shown entry.title ∧ Shown entry.username := by
  induction listed with
  | nil => exact iff_of_true rfl fun entry hentry => absurd hentry List.not_mem_nil
  | cons entry listed ih =>
    obtain ⟨uuid, hid⟩ := h entry List.mem_cons_self
    have hcandidate : (candidateOf entry).validate = .ok () ↔ Shown entry.title ∧ Shown entry.username := by
      unfold Candidate.validate
      rw [Native.bind_ok_iff, Native.bind_ok_iff]
      simp only [candidateOf, hid, validateBounded_uuidText, validate_summary_iff, true_and]
    rw [List.map_cons, validateCandidates, Native.bind_ok_iff, hcandidate,
      ih fun other hother => h other (List.mem_cons_of_mem _ hother), List.forall_mem_cons]

theorem validate_candidates_iff {requestId sessionId : String} {source : List CredentialCandidate}
    (htoken : validateToken requestId = .ok ()) (hsession : validateToken sessionId = .ok ())
    (hnamed : Named source) {truncated : Bool} :
    (BrowserResponse.candidates PROTOCOL_VERSION requestId sessionId
        ((source.take MAX_CANDIDATES).map candidateOf) truncated).validate = .ok () ↔
      ∀ entry ∈ source.take MAX_CANDIDATES, Shown entry.title ∧ Shown entry.username := by
  have hcommon : validateCommon PROTOCOL_VERSION requestId = .ok () := by
    rw [validateCommon, if_neg (by simp), htoken]
    rfl
  have hcount : ¬ MAX_CANDIDATES < ((source.take MAX_CANDIDATES).map candidateOf).length := by
    rw [List.length_map, List.length_take]
    omega
  have htaken : Named (source.take MAX_CANDIDATES) := fun entry hentry =>
    hnamed entry (List.mem_of_mem_take hentry)
  unfold BrowserResponse.validate
  rw [Native.bind_ok_iff]
  simp only [BrowserResponse.version, BrowserResponse.requestId, hcommon, true_and]
  rw [Native.bind_ok_iff, if_neg hcount, validateCandidates_eq_ok_iff htaken]
  simp [hsession]

theorem validate_credential_iff {requestId username password : String}
    (htoken : validateToken requestId = .ok ()) (husername : utf8Length username ≤ MAX_CREDENTIAL_FIELD_BYTES)
    (hpassword : utf8Length password ≤ MAX_CREDENTIAL_FIELD_BYTES) :
    (BrowserResponse.credential PROTOCOL_VERSION requestId username password).validate = .ok () ↔
      Fillable username ∧ Fillable password := by
  have hcommon : validateCommon PROTOCOL_VERSION requestId = .ok () := by
    rw [validateCommon, if_neg (by simp), htoken]
    rfl
  unfold BrowserResponse.validate
  rw [Native.bind_ok_iff]
  simp only [BrowserResponse.version, BrowserResponse.requestId, hcommon, true_and]
  rw [Native.bind_ok_iff, Native.validateBounded_eq_ok_iff, Native.validateBounded_eq_ok_iff]
  simp only [husername, hpassword, true_and, Fillable]

theorem validate_candidateResponse_iff {version : UInt16} {requestId origin : String}
    (htoken : validateToken requestId = .ok ()) :
    (candidateResponse lib U app requestId origin).validate = .ok () ↔
      Acceptable lib U app (.candidates version requestId origin) := by
  unfold candidateResponse Acceptable
  cases horigin : CredentialTarget.browserOrigin U origin with
  | error _ => exact iff_of_true (validate_error htoken _) fun _ _ _ hother => nomatch horigin.symm.trans hother
  | ok target =>
    dsimp only
    by_cases hpoisoned : app.servicePoisoned = true
    · rw [if_pos hpoisoned]
      refine iff_of_true (validate_error htoken _) fun _ _ _ _ hunpoisoned => ?_
      rw [hpoisoned] at hunpoisoned
      cases hunpoisoned
    · rw [if_neg hpoisoned]
      cases hlisted : app.service.browserCandidates lib U target with
      | error failure =>
        have hvalid : (match (Except.error failure : Except DesktopError (String × List CredentialCandidate)) with
            | .error .locked => error requestId .locked
            | .error _ => error requestId .internal
            | .ok (sessionId, source) => .candidates PROTOCOL_VERSION requestId sessionId
                ((source.take MAX_CANDIDATES).map candidateOf)
                (MAX_CANDIDATES < source.length)).validate = .ok () := by
          cases failure <;> exact validate_error htoken _
        refine iff_of_true hvalid fun other sessionId source hother _ hok => ?_
        obtain rfl := Except.ok.inj (horigin.symm.trans hother)
        rw [hlisted] at hok
        cases hok
      | ok answer =>
        obtain ⟨sessionId, source⟩ := answer
        obtain ⟨hsession, hnamed⟩ := browserCandidates_ok hlisted
        dsimp only
        rw [validate_candidates_iff htoken hsession hnamed]
        constructor
        · intro hshown other otherId otherSource hother _ hok
          obtain rfl := Except.ok.inj (horigin.symm.trans hother)
          obtain ⟨rfl, rfl⟩ := Prod.mk.inj (Except.ok.inj (hlisted.symm.trans hok))
          exact hshown
        · intro hall
          exact hall target sessionId source horigin (by simpa using hpoisoned) hlisted

theorem validate_credentialResponse_iff {version : UInt16} {requestId origin vaultSessionId entryId : String}
    (htoken : validateToken requestId = .ok ()) :
    (credentialResponse lib U app requestId origin vaultSessionId entryId).validate = .ok () ↔
      Acceptable lib U app (.credential version requestId origin vaultSessionId entryId) := by
  unfold credentialResponse Acceptable
  cases horigin : CredentialTarget.browserOrigin U origin with
  | error _ => exact iff_of_true (validate_error htoken _) fun _ _ _ hother => nomatch horigin.symm.trans hother
  | ok target =>
    dsimp only
    cases hanswer : app.browserCredential lib U vaultSessionId entryId target with
    | error failure =>
      refine iff_of_true ?_ fun other username password hother hok => ?_
      · cases failure <;> exact validate_error htoken _
      · obtain rfl := Except.ok.inj (horigin.symm.trans hother)
        rw [hanswer] at hok
        cases hok
    | ok found =>
      obtain ⟨username, password⟩ := found
      have hsame : ∀ {other name secret}, CredentialTarget.browserOrigin U origin = .ok other →
          app.browserCredential lib U vaultSessionId entryId other = .ok ⟨name, secret⟩ →
            username = name ∧ password = secret := by
        intro other name secret hother hok
        obtain rfl := Except.ok.inj (horigin.symm.trans hother)
        rw [hanswer] at hok
        exact Credential.mk.inj (Except.ok.inj hok)
      dsimp only
      split
      · rename_i hlong
        refine iff_of_true (validate_error htoken _) fun other name secret hother hok hname hsecret => ?_
        obtain ⟨rfl, rfl⟩ := hsame hother hok
        omega
      · rename_i hshort
        rw [validate_credential_iff htoken (by omega) (by omega)]
        constructor
        · intro hfill other name secret hother hok _ _
          obtain ⟨rfl, rfl⟩ := hsame hother hok
          exact hfill
        · intro hall
          exact hall target username password horigin hanswer (by omega) (by omega)

theorem validate_reply_iff {request : BrowserRequest} (hrequest : request.validate = .ok ()) :
    (handleAuthorizedRequest lib U app request).validate = .ok () ↔ Acceptable lib U app request := by
  cases request with
  | connect version requestId =>
    have htoken := (Native.validateCommon_eq_ok hrequest).2
    exact iff_of_true (validate_error htoken _) trivial
  | candidates version requestId origin =>
    have htoken := (Native.validateCommon_eq_ok (Native.bind_ok_iff.1 hrequest).1).2
    exact validate_candidateResponse_iff htoken
  | credential version requestId origin vaultSessionId entryId =>
    have htoken := (Native.validateCommon_eq_ok (Native.bind_ok_iff.1 hrequest).1).2
    exact validate_credentialResponse_iff htoken

/-! ## How long the answer is -/

theorem bytes_summary_lt (text : SummaryText) : Json.bytes (summary text).toJson.render < 900 := by
  cases text with
  | visible value =>
    have hlength : Json.bytes (boundedSummary value).toList ≤ 128 := by
      rw [boundedSummary_eq, String.toList_ofList]
      exact bytes_firstBytes_le _ _
    have hvalue := Json.bytes_string_le (boundedSummary value)
    have hobject := Json.bytes_object_le
      [("kind", .string "visible"), ("value", .string (boundedSummary value))]
    have hkeys : Json.bytes "kind".toList = 4 ∧ Json.bytes "value".toList = 5 ∧
        Json.bytes (Json.string "visible").render = 9 := by decide
    simp only [List.map_cons, List.map_nil, List.sum_cons, List.sum_nil, Json.fieldBound, hkeys] at hobject
    exact Nat.lt_of_le_of_lt hobject (by omega)
  | missing => decide
  | protectedText => decide

theorem bytes_candidate_lt {candidate : CredentialCandidate} (h : ∃ uuid, candidate.entryId = Database.uuidText uuid) :
    Json.bytes (candidateOf candidate).toJson.render < 2200 := by
  obtain ⟨uuid, hid⟩ := h
  have hlength : Json.bytes candidate.entryId.toList = 36 := hid ▸ utf8Length_uuidText uuid
  have hvalue := Json.bytes_string_le candidate.entryId
  have htitle := bytes_summary_lt candidate.title
  have husername := bytes_summary_lt candidate.username
  have hobject := Json.bytes_object_le [("entryId", .string candidate.entryId), ("title", (summary candidate.title).toJson),
    ("username", (summary candidate.username).toJson)]
  have hkeys : Json.bytes "entryId".toList = 7 ∧ Json.bytes "title".toList = 5 ∧
      Json.bytes "username".toList = 8 := by decide
  simp only [List.map_cons, List.map_nil, List.sum_cons, List.sum_nil, Json.fieldBound, hkeys] at hobject
  exact Nat.lt_of_le_of_lt hobject (by omega)

theorem bytes_token {token : String} (h : validateToken token = .ok ()) : Json.bytes token.toList = 32 := by
  unfold validateToken at h
  split_ifs at h with hbad
  exact not_not.1 (not_or.1 hbad).1

/-- What the three fields take that every answer has. -/
theorem bytes_common (type : String) {requestId : String} (htoken : validateToken requestId = .ok ())
    (htype : Json.bytes type.toList ≤ 20) :
    ([("type", Json.string type), ("version", .number PROTOCOL_VERSION.toNat),
      ("requestId", .string requestId)].map Json.fieldBound).sum ≤ 500 := by
  have htypeText := Json.bytes_string_le type
  have hid := Json.bytes_string_le requestId
  have hlength := bytes_token htoken
  have hkeys : Json.bytes "type".toList = 4 ∧ Json.bytes "version".toList = 7 ∧
      Json.bytes "requestId".toList = 9 ∧ Json.bytes (Json.number PROTOCOL_VERSION.toNat).render = 1 := by decide
  simp only [List.map_cons, List.map_nil, List.sum_cons, List.sum_nil, Json.fieldBound, hkeys]
  omega

theorem bytes_error_le {requestId : String} (htoken : validateToken requestId = .ok ()) (code : ErrorCode) :
    Json.bytes (error requestId code).toJson.render ≤ MAX_FRAME_BYTES := by
  have hcommon := bytes_common "error" htoken (by decide)
  have hobject := Json.bytes_object_le ([("type", .string "error"), ("version", .number PROTOCOL_VERSION.toNat),
    ("requestId", .string requestId)] ++ [("code", .string code.name)])
  have hcode : Json.fieldBound ("code", .string code.name) ≤ 60 := by cases code <;> decide
  rw [List.map_append, List.sum_append, List.map_singleton, List.sum_singleton] at hobject
  exact Nat.le_trans hobject (by unfold MAX_FRAME_BYTES; omega)

theorem bytes_candidates_le {requestId sessionId : String} {source : List CredentialCandidate} {truncated : Bool}
    (htoken : validateToken requestId = .ok ()) (hsession : validateToken sessionId = .ok ())
    (hnamed : Named source) :
    Json.bytes (BrowserResponse.candidates PROTOCOL_VERSION requestId sessionId
        ((source.take MAX_CANDIDATES).map candidateOf) truncated).toJson.render ≤ MAX_FRAME_BYTES := by
  have hcommon := bytes_common "candidates" htoken (by decide)
  have hsessionText := Json.bytes_string_le sessionId
  have hsessionLength := bytes_token hsession
  have hitems : Json.bytes (Json.array (((source.take MAX_CANDIDATES).map candidateOf).map
      Candidate.toJson)).render ≤ 220002 := by
    have hbound : ∀ item ∈ ((source.take MAX_CANDIDATES).map candidateOf).map Candidate.toJson,
        Json.bytes item.render < 2200 := by
      intro item hitem
      obtain ⟨listed, hlisted, rfl⟩ := List.mem_map.1 hitem
      obtain ⟨entry, hentry, rfl⟩ := List.mem_map.1 hlisted
      exact bytes_candidate_lt (hnamed entry (List.mem_of_mem_take hentry))
    have harray := Json.bytes_array_le hbound
    rw [List.length_map, List.length_map, List.length_take] at harray
    have hcount : min MAX_CANDIDATES source.length ≤ 100 := Nat.min_le_left _ _
    omega
  have hrest : ([("vaultSessionId", Json.string sessionId),
      ("candidates", .array (((source.take MAX_CANDIDATES).map candidateOf).map Candidate.toJson)),
      ("truncated", .bool truncated)].map Json.fieldBound).sum ≤ 221000 := by
    have hkeys : Json.bytes "vaultSessionId".toList = 14 ∧ Json.bytes "candidates".toList = 10 := by decide
    have htruncated : Json.fieldBound ("truncated", .bool truncated) ≤ 70 := by cases truncated <;> decide
    simp only [List.map_cons, List.map_nil, List.sum_cons, List.sum_nil]
    simp only [Json.fieldBound, hkeys] at htruncated ⊢
    omega
  have hobject := Json.bytes_object_le ([("type", .string "candidates"),
    ("version", .number PROTOCOL_VERSION.toNat), ("requestId", .string requestId)] ++
    [("vaultSessionId", .string sessionId),
      ("candidates", .array (((source.take MAX_CANDIDATES).map candidateOf).map Candidate.toJson)),
      ("truncated", .bool truncated)])
  rw [List.map_append, List.sum_append] at hobject
  exact Nat.le_trans hobject (by unfold MAX_FRAME_BYTES; omega)

theorem bytes_credential_le {requestId username password : String} (htoken : validateToken requestId = .ok ())
    (husername : utf8Length username ≤ MAX_CREDENTIAL_FIELD_BYTES)
    (hpassword : utf8Length password ≤ MAX_CREDENTIAL_FIELD_BYTES) :
    Json.bytes (BrowserResponse.credential PROTOCOL_VERSION requestId username password).toJson.render ≤
      MAX_FRAME_BYTES := by
  have hcommon := bytes_common "credential" htoken (by decide)
  have husernameText := Json.bytes_string_le username
  have hpasswordText := Json.bytes_string_le password
  have hrest : ([("username", Json.string username), ("password", .string password)].map
      Json.fieldBound).sum ≤ 200000 := by
    have hkeys : Json.bytes "username".toList = 8 ∧ Json.bytes "password".toList = 8 := by decide
    unfold utf8Length MAX_CREDENTIAL_FIELD_BYTES at husername hpassword
    simp only [List.map_cons, List.map_nil, List.sum_cons, List.sum_nil, Json.fieldBound, hkeys]
    omega
  have hobject := Json.bytes_object_le ([("type", .string "credential"),
    ("version", .number PROTOCOL_VERSION.toNat), ("requestId", .string requestId)] ++
    [("username", .string username), ("password", .string password)])
  rw [List.map_append, List.sum_append] at hobject
  exact Nat.le_trans hobject (by unfold MAX_FRAME_BYTES; omega)

/-- Every answer fits a frame. -/
theorem bytes_reply_le {request : BrowserRequest} (hrequest : request.validate = .ok ()) :
    Json.bytes (handleAuthorizedRequest lib U app request).toJson.render ≤ MAX_FRAME_BYTES := by
  cases request with
  | connect version requestId => exact bytes_error_le (Native.validateCommon_eq_ok hrequest).2 _
  | candidates version requestId origin =>
    have htoken : validateToken requestId = .ok () :=
      (Native.validateCommon_eq_ok (Native.bind_ok_iff.1 hrequest).1).2
    show Json.bytes (candidateResponse lib U app requestId origin).toJson.render ≤ _
    unfold candidateResponse
    split
    · exact bytes_error_le htoken _
    split
    · exact bytes_error_le htoken _
    split
    · exact bytes_error_le htoken _
    · exact bytes_error_le htoken _
    · rename_i sessionId source hlisted
      obtain ⟨hsession, hnamed⟩ := browserCandidates_ok hlisted
      exact bytes_candidates_le htoken hsession hnamed
  | credential version requestId origin vaultSessionId entryId =>
    have htoken : validateToken requestId = .ok () :=
      (Native.validateCommon_eq_ok (Native.bind_ok_iff.1 hrequest).1).2
    show Json.bytes (credentialResponse lib U app requestId origin vaultSessionId entryId).toJson.render ≤ _
    unfold credentialResponse
    split
    · exact bytes_error_le htoken _
    split
    · exact bytes_error_le htoken _
    · exact bytes_error_le htoken _
    · exact bytes_error_le htoken _
    · exact bytes_error_le htoken _
    · split
      · exact bytes_error_le htoken _
      · exact bytes_credential_le htoken (by omega) (by omega)

/-- **The host takes an answer exactly if every text it shows is neither empty nor holds a NUL.** The
size never stands in the way. -/
theorem reply_acceptable_iff (lib : Editing V) (U : UrlParser) (fromSlice : List Char → Option Json)
    (hfromSlice : ∀ response : BrowserResponse, fromSlice response.toJson.render = some response.toJson)
    (app : AppState V) (request : BrowserRequest) (hrequest : request.validate = .ok ()) :
    Json.bytes (handleAuthorizedRequest lib U app request).toJson.render ≤ MAX_FRAME_BYTES ∧
    ((handleAuthorizedRequest lib U app request).validate = .ok () ∧
        (writeMessage (handleAuthorizedRequest lib U app request).toJson).bind (readResponse fromSlice) =
          .ok (handleAuthorizedRequest lib U app request) ↔
      Acceptable lib U app request) := by
  have hsize : Json.bytes (handleAuthorizedRequest lib U app request).toJson.render ≤ MAX_FRAME_BYTES :=
    bytes_reply_le hrequest
  refine ⟨hsize, ?_⟩
  rw [readResponse_eq_ok_iff (hfromSlice _) hsize, and_self]
  exact validate_reply_iff hrequest

/-! ## An entry without a user name -/

def sampleUrl : UrlParser where
  parse text :=
    if text = "https://a.example" then
      some ⟨false, "", none, "/", none, none, "https", some (.domain "a.example"), some 443⟩
    else none
  asStr _ := "https://a.example/"

/-- A vault with one entry, whose user name is given. -/
def sampleDatabase (username : String) : Database Unit where
  config := ()
  root := ⟨1⟩
  groups := (∅ : Map GroupId (Kdbx.Group Unit)).insert ⟨1⟩ { entries := [⟨2⟩] }
  entries := (∅ : Map EntryId (Entry Unit)).insert ⟨2⟩ {
    parent := ⟨1⟩
    fields := (((∅ : Map String (Value String)).insert "Title" ⟨false, "A"⟩).insert "UserName"
      ⟨false, username⟩).insert "URL" ⟨false, "https://a.example"⟩ }

def sampleApp (username : String) : AppState Unit where
  service := {
    session := some (sampleDatabase username)
    browserSessionId := some (Native.randomToken fun _ => 7)
    drawn := fun _ h => ⟨_, (Option.some.inj h).symm⟩ }
  servicePoisoned := false
  gatePoisoned := false

def sampleRequest : BrowserRequest := .candidates 1 (Native.randomToken fun _ => 9) "https://a.example"

theorem reply_acceptable_iff_sample :
    Json.bytes (handleAuthorizedRequest Editing.reference sampleUrl (sampleApp "me") sampleRequest).toJson.render ≤
        MAX_FRAME_BYTES ∧
      ((handleAuthorizedRequest Editing.reference sampleUrl (sampleApp "me") sampleRequest).validate = .ok () ∧
          (writeMessage (handleAuthorizedRequest Editing.reference sampleUrl (sampleApp "me") sampleRequest).toJson).bind
              (readResponse Json.read) =
            .ok (handleAuthorizedRequest Editing.reference sampleUrl (sampleApp "me") sampleRequest) ↔
        Acceptable Editing.reference sampleUrl (sampleApp "me") sampleRequest) :=
  reply_acceptable_iff Editing.reference sampleUrl Json.read (fun _ => Json.read_render _) (sampleApp "me") sampleRequest
    (by decide +kernel)

/-- The candidates of a site whose one entry has an empty user name are refused by the host. -/
theorem empty_username_refused :
    sampleRequest.validate = .ok () ∧
      (handleAuthorizedRequest Editing.reference sampleUrl (sampleApp "") sampleRequest).validate = .error .invalidField ∧
      (writeMessage (handleAuthorizedRequest Editing.reference sampleUrl (sampleApp "") sampleRequest).toJson).bind
        (readResponse Json.read) = .error .invalidProtocol := by
  decide +kernel

end NianPass.Desktop.Bridge
