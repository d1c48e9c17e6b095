import NianPass.Kdbx.Changes
import NianPass.Kdbx.Lookup

/-
  TOTP configurations: what `set_entry_totp_uri` accepts and `entry_totp_code_at` makes of it.

  Acceptance parses the text as a URL (`validateTotpUri`). Generation looks at the raw text first: a
  field that does not start with `otpauth://` is taken for the query text of an older format
  (`normalizeOtpField`). A URL parser ignores blanks around the text and the case of the scheme, so
  a text can be accepted that is then read as a query.

  `Totps` extends the contract of the libraries by what generation calls. What a text stands for is
  the TOTP of `keepass-rs`, of which only the codes are looked at.
-/
namespace NianPass.Kdbx

open Method

variable {V : Type}

/-! ## The libraries -/

/-- `OTPCode`, with its durations in seconds. -/
structure OtpCode where
  code : String
  validFor : Nat
  period : Nat
  deriving DecidableEq, Repr

/-- What generation calls of `keepass-rs` and `url`. -/
structure Totps (V : Type) extends Editing V where
  Totp : Type
  period : Totp → Nat
  digits : Totp → Nat
  /-- `TOTP::from_str`. -/
  fromStr : String → Option Totp
  /-- `TOTP::value_at`. -/
  valueAt : Totp → UInt64 → OtpCode
  /-- `form_urlencoded::parse`. -/
  formPairs : String → List (String × String)
  /-- The text of `otpauth://totp/NianPass` with these pairs appended to its query. -/
  totpAddress : List (String × String) → String
  parseTotp_eq : ∀ raw, parseTotp raw = (fromStr raw).map fun totp => (period totp, digits totp)

/-! ## Reading -/

/-- The errors of reading a code. -/
inductive TotpError where
  | edit (error : EditError)
  | unsupportedTotpFormat
  | totpNotConfigured
  deriving DecidableEq, Repr

structure EntryTotpCode where
  code : String
  validForSeconds : Nat
  periodSeconds : Nat
  deriving DecidableEq, Repr

def normalizeKeepass2Algorithm (raw : String) : Except TotpError String :=
  if raw = "HMAC-SHA1" ∨ raw = "SHA1" then .ok "SHA1"
  else if raw = "HMAC-SHA256" ∨ raw = "SHA256" then .ok "SHA256"
  else if raw = "HMAC-SHA512" ∨ raw = "SHA512" then .ok "SHA512"
  else .error .unsupportedTotpFormat

namespace Totps

variable (L : Totps V)

/-- `validate_totp_uri`, with the TOTP it returns. -/
def validateTotpUri (raw : String) : Except EditError L.Totp :=
  match L.parseUrl raw with
  | none => .error .invalidTotp
  | some (scheme, host) =>
    if scheme ≠ "otpauth" ∨ host ≠ some "totp" then .error .invalidTotp
    else match L.fromStr raw with
      | none => .error .invalidTotp
      | some totp =>
        if L.period totp = 0 ∨ ¬ (6 ≤ L.digits totp ∧ L.digits totp ≤ 10) then .error .invalidTotp
        else .ok totp

def buildTotpUri (secret period digits : String) (algorithm : Option String) :
    Except TotpError String :=
  if secret = "" then .error (.edit .invalidTotp)
  else do
    let raw := L.totpAddress ([("secret", secret), ("period", period), ("digits", digits)] ++
      algorithm.toList.map fun algorithm => ("algorithm", algorithm))
    let _ ← (L.validateTotpUri raw).mapError .edit
    pure raw

/-- The second half of `normalize_otp_field`: the text is a query of the older format. -/
def readOldQuery (raw : String) : Except TotpError String :=
  let pairs := L.formPairs raw
  let find (key : String) : Option String := (pairs.find? (·.1 = key)).map (·.2)
  match find "key" with
  | none => .error .unsupportedTotpFormat
  | some secret => L.buildTotpUri secret ((find "step").getD "30") ((find "size").getD "6") none

def normalizeOtpField (raw : String) : Except TotpError String :=
  if "otpauth://".toList <+: raw.toList then .ok raw else L.readOldQuery raw

def totpUriForEntry (entry : EntryData V) : Except TotpError String :=
  match entry.text Fields.otp with
  | some raw => L.normalizeOtpField raw
  | none =>
    match entry.text Fields.keepass2TotpSecretBase32 with
    | some seed => do
      let period := (entry.text Fields.keepass2TotpPeriod).getD "30"
      let digits := (entry.text Fields.keepass2TotpLength).getD "6"
      let algorithm ← match entry.text Fields.keepass2TotpAlgorithm with
        | some raw => normalizeKeepass2Algorithm raw
        | none => .ok "SHA1"
      L.buildTotpUri seed period digits (some algorithm)
    | none =>
      match entry.text Fields.keepassTotpSeed with
      | some seed =>
        let settings := (entry.text Fields.keepassTotpSettings).getD "30;6"
        let parts := (settings.toList.splitOn ';').map String.ofList
        let period := (parts[0]?.filter (· ≠ "")).getD "30"
        let digits := (parts[1]?.filter (· ≠ "")).getD "6"
        if digits = "S" then .error .unsupportedTotpFormat
        else L.buildTotpUri seed period digits none
      | none =>
        if entry.hasTotp then .error .unsupportedTotpFormat else .error .totpNotConfigured

/-- The code of `totp` at `timestamp`, as it is returned. -/
def codeAt (totp : L.Totp) (timestamp : UInt64) : EntryTotpCode :=
  let value := L.valueAt totp timestamp
  ⟨value.code, value.validFor, value.period⟩

/-- The TOTP of an entry, which is all of `entry_totp_code_at` but the last step. -/
def entryTotp (doc : KdbxDocument V) (id : String) : Except TotpError L.Totp := do
  let entryId ← (doc.database.findEntryId id).mapError .edit
  match doc.database.entries[entryId]? with
  | none => .error (.edit .entryNotFound)
  | some entry =>
    let raw ← L.totpUriForEntry entry.toEntryData
    (L.validateTotpUri raw).mapError .edit

def entryTotpCodeAt (doc : KdbxDocument V) (id : String) (timestamp : UInt64) :
    Except TotpError EntryTotpCode := do
  let totp ← L.entryTotp doc id
  pure (L.codeAt totp timestamp)

end Totps

/-! ## What is stored, and what is read -/

section Usable
variable (L : Totps V)

/-- The mutation asks for nothing but that a TOTP can be read. -/
theorem validateTotpUri_map (raw : String) :
    (L.validateTotpUri raw).map (fun _ => ()) = Kdbx.validateTotpUri L.toEditing raw := by
  unfold Totps.validateTotpUri Kdbx.validateTotpUri
  rw [L.parseTotp_eq]
  cases L.parseUrl raw with
  | none => rfl
  | some url =>
    dsimp only
    split
    · rfl
    · cases L.fromStr raw with
      | none => rfl
      | some totp =>
        dsimp only [Option.map]
        split <;> rfl

/-- What `set_entry_totp_uri` answers and leaves behind. -/
theorem setEntryTotpUri_yields (env : Ambient) (doc : KdbxDocument V) (id uri : String) :
    (KdbxDocument.setEntryTotpUri L.toEditing env id uri).Yields doc fun r out =>
      (∃ e, r = .error e ∧ out = doc) ∨
      (r = .ok ⟨⟩ ∧ (∃ totp, L.validateTotpUri uri = .ok totp) ∧ ∃ entryId entry,
        out.database.findEntryId id = .ok entryId ∧
        out.database.entries[entryId]? = some entry ∧
        entry.text Fields.otp = some uri) := by
  apply yields_get
  apply yields_check
  · exact fun e _ => Or.inl ⟨e, rfl, rfl⟩
  intro _ hvalid
  have htotp : ∃ totp, L.validateTotpUri uri = .ok totp := by
    rw [← validateTotpUri_map] at hvalid
    cases h : L.validateTotpUri uri with
    | error e => rw [h] at hvalid; cases hvalid
    | ok totp => exact ⟨totp, rfl⟩
  apply yields_check
  · exact fun e _ => Or.inl ⟨e, rfl, rfl⟩
  intro entryId hid
  apply yields_okOr
  · exact fun _ => Or.inl ⟨_, rfl, rfl⟩
  intro current hfound
  apply yields_ite
  · rintro ⟨hstored, -⟩
    refine Or.inr ⟨rfl, htotp, entryId, current, hid, hfound, ?_⟩
    obtain ⟨value, hvalue, hget⟩ := (Option.any_eq_true _ _).mp hstored
    unfold EntryData.text
    rw [hvalue, Option.map_some, of_decide_eq_true hget]
  · intro _
    have hpending := pending_track L.toEditing env (·.removeTotp.setField Fields.otp true uri) hfound
      (fun _ => rfl) (fun _ => rfl) fun _ h => h
    apply Yields.weaken (commitTracked_exact hpending)
    rintro _ _ ⟨rfl, out, hout, -, -, rfl⟩
    rw [markChanged_withDatabase]
    refine Or.inr ⟨rfl, htotp, entryId, _, ?_, hout.found_after, ?_⟩
    · obtain ⟨-, htext⟩ := Database.findEntryId_eq_ok.mp hid
      exact Database.findEntryId_eq_ok.mpr ⟨mem_iff_exists.mpr ⟨_, hout.found_after⟩, htext⟩
    · unfold EntryData.text
      show (Std.ExtTreeMap.insert _ Fields.otp _)[Fields.otp]?.map _ = _
      rw [Std.ExtTreeMap.getElem?_insert_self]
      rfl

/-- Reading an entry whose `otp` field holds `uri`. -/
theorem entryTotp_eq_ok {doc : KdbxDocument V} {id uri : String} {entryId : EntryId}
    {entry : Entry V} (hid : doc.database.findEntryId id = .ok entryId)
    (hfound : doc.database.entries[entryId]? = some entry)
    (htext : entry.text Fields.otp = some uri) {totp : L.Totp} :
    L.entryTotp doc id = .ok totp ↔
      ∃ raw, L.normalizeOtpField uri = .ok raw ∧ L.validateTotpUri raw = .ok totp := by
  have hread : L.entryTotp doc id = (do
      let raw ← L.normalizeOtpField uri
      (L.validateTotpUri raw).mapError .edit) := by
    unfold Totps.entryTotp Totps.totpUriForEntry
    rw [hid]
    show (match doc.database.entries[entryId]? with
      | none => _
      | some entry => _ : Except TotpError L.Totp) = _
    rw [hfound]
    dsimp only
    rw [htext]
  rw [hread]
  cases hraw : L.normalizeOtpField uri with
  | error e => simp [bind, Except.bind]
  | ok raw =>
    show (L.validateTotpUri raw).mapError TotpError.edit = _ ↔ _
    cases htotp : L.validateTotpUri raw with
    | error e => simp [Except.mapError, htotp]
    | ok other => simp [Except.mapError, htotp]

theorem entryTotpCodeAt_eq_ok {doc : KdbxDocument V} {id : String} {timestamp : UInt64}
    {code : EntryTotpCode} : L.entryTotpCodeAt doc id timestamp = .ok code ↔
      ∃ totp, L.entryTotp doc id = .ok totp ∧ L.codeAt totp timestamp = code := by
  unfold Totps.entryTotpCodeAt
  cases L.entryTotp doc id with
  | error e => simp [bind, Except.bind]
  | ok totp => simp [bind, Except.bind, pure, Except.pure]

/-- The first pair with this key in the text, taken for a query. -/
def Totps.pair (uri key : String) : Option String :=
  ((L.formPairs uri).find? (·.1 = key)).map (·.2)

/-- The text has a pair `key`, and the TOTP with this secret, the period `step` and as many digits as
`size` says (30 and 6 without these pairs) shows the codes of `totp`. -/
def Totps.QueryShows (uri : String) (totp : L.Totp) : Prop :=
  ∃ secret other, L.pair uri "key" = some secret ∧ secret ≠ "" ∧
    L.validateTotpUri (L.totpAddress [("secret", secret), ("period", (L.pair uri "step").getD "30"),
      ("digits", (L.pair uri "size").getD "6")]) = .ok other ∧
    ∀ timestamp, L.codeAt other timestamp = L.codeAt totp timestamp

theorem buildTotpUri_eq_ok {secret period digits raw : String} :
    L.buildTotpUri secret period digits none = .ok raw ↔
      secret ≠ "" ∧
      raw = L.totpAddress [("secret", secret), ("period", period), ("digits", digits)] ∧
      ∃ totp, L.validateTotpUri raw = .ok totp := by
  unfold Totps.buildTotpUri
  split_ifs with hsecret
  · simp [hsecret]
  simp only [Option.toList_none, List.map_nil, List.append_nil]
  cases hvalid : L.validateTotpUri
      (L.totpAddress [("secret", secret), ("period", period), ("digits", digits)]) with
  | error e =>
    refine iff_of_false (by simp [Except.mapError, bind, Except.bind]) ?_
    rintro ⟨-, rfl, totp, htotp⟩
    cases hvalid.symm.trans htotp
  | ok totp =>
    constructor
    · intro hraw
      cases hraw
      exact ⟨hsecret, rfl, totp, hvalid⟩
    · rintro ⟨-, rfl, -⟩
      rfl

theorem readOldQuery_eq_ok {uri raw : String} :
    L.readOldQuery uri = .ok raw ↔ ∃ secret, L.pair uri "key" = some secret ∧
      L.buildTotpUri secret ((L.pair uri "step").getD "30") ((L.pair uri "size").getD "6") none =
        .ok raw := by
  unfold Totps.readOldQuery
  cases hkey : L.pair uri "key" with
  | none =>
    have hkey : ((L.formPairs uri).find? (·.1 = "key")).map (·.2) = none := hkey
    simp [hkey]
  | some secret =>
    have hkey : ((L.formPairs uri).find? (·.1 = "key")).map (·.2) = some secret := hkey
    simp only [hkey, Option.some.injEq, exists_eq_left']
    rfl

/-- Reading the text as a query and validating what is built shows the codes of `totp`. -/
theorem queryShows_iff {uri : String} {totp : L.Totp} :
    L.QueryShows uri totp ↔ ∃ raw other, L.readOldQuery uri = .ok raw ∧
      L.validateTotpUri raw = .ok other ∧
      ∀ timestamp, L.codeAt other timestamp = L.codeAt totp timestamp := by
  simp only [readOldQuery_eq_ok, buildTotpUri_eq_ok]
  constructor
  · rintro ⟨secret, other, hkey, hsecret, hvalid, hcodes⟩
    exact ⟨_, other, ⟨secret, hkey, hsecret, rfl, other, hvalid⟩, hvalid, hcodes⟩
  · rintro ⟨raw, other, ⟨secret, hkey, hsecret, rfl, -⟩, hvalid, hcodes⟩
    exact ⟨secret, other, hkey, hsecret, hvalid, hcodes⟩

/-- A configuration that is refused changes nothing. One that is accepted shows the codes of the TOTP
that was read from it exactly if the text starts with `otpauth://`, or is at the same time a query of
the older format for the same codes. -/
theorem acceptedTotp_usable_iff (env : Ambient) (doc : KdbxDocument V) (id uri : String) :
    let set := (KdbxDocument.setEntryTotpUri L.toEditing env id uri).call doc
    (∀ e, set.1 = .error e → set.2 = doc) ∧
      (set.1 = .ok ⟨⟩ → ∃ totp, L.validateTotpUri uri = .ok totp ∧
        ((∀ timestamp, L.entryTotpCodeAt set.2 id timestamp = .ok (L.codeAt totp timestamp)) ↔
          "otpauth://".toList <+: uri.toList ∨ L.QueryShows uri totp)) := by
  intro set
  have h : (∃ e, set.1 = .error e ∧ set.2 = doc) ∨ _ := setEntryTotpUri_yields L env doc id uri
  constructor
  · intro e he
    rcases h with ⟨_, -, hsame⟩ | ⟨hok, -⟩
    · exact hsame
    · rw [he] at hok
      cases hok
  · intro hok
    rcases h with ⟨e, he, -⟩ | ⟨-, ⟨totp, htotp⟩, entryId, entry, hid, hfound, htext⟩
    · rw [he] at hok
      cases hok
    refine ⟨totp, htotp, ?_⟩
    have hread : ∀ other, L.entryTotp set.2 id = .ok other ↔ _ :=
      fun other => entryTotp_eq_ok L hid hfound htext
    simp only [entryTotpCodeAt_eq_ok, hread, queryShows_iff]
    unfold Totps.normalizeOtpField
    by_cases hstart : "otpauth://".toList <+: uri.toList
    · simp only [if_pos hstart]
      exact iff_of_true (fun timestamp => ⟨totp, ⟨uri, rfl, htotp⟩, rfl⟩) (Or.inl hstart)
    · simp only [if_neg hstart]
      constructor
      · intro hcodes
        obtain ⟨other, ⟨raw, hraw, hother⟩, -⟩ := hcodes 0
        refine Or.inr ⟨raw, other, hraw, hother, ?_⟩
        intro timestamp
        -- the text is read as the same TOTP at every timestamp
        obtain ⟨other', ⟨raw', hraw', hother'⟩, hsame⟩ := hcodes timestamp
        obtain rfl := Except.ok.inj (hraw.symm.trans hraw')
        obtain rfl := Except.ok.inj (hother.symm.trans hother')
        exact hsame
      · rintro (hfalse | ⟨raw, other, hraw, hother, hsame⟩)
        · exact absurd hfalse hstart
        · exact fun timestamp => ⟨other, ⟨raw, hraw, hother⟩, hsame timestamp⟩

end Usable

/-! ## Plain addresses -/

/-- `Url::parse` on addresses without special schemes, credentials, ports and escapes: the scheme, the
host and the query. Blanks around the text and line breaks in it do not count. -/
def plainUrl (raw : String) : Option (String × String × String) :=
  let text := raw.toList.filter fun c => c ∉ ['\t', '\n', '\r']
  let text := ((text.dropWhile (· ≤ ' ')).reverse.dropWhile (· ≤ ' ')).reverse
  match text.dropWhile (· ≠ ':') with
  | ':' :: '/' :: '/' :: rest =>
    let path := rest.dropWhile fun c => c ∉ ['/', '?', '#']
    some (String.ofList ((text.takeWhile (· ≠ ':')).map Char.toLower),
      String.ofList (rest.takeWhile fun c => c ∉ ['/', '?', '#']),
      String.ofList (((path.takeWhile (· ≠ '#')).dropWhile (· ≠ '?')).drop 1))
  | _ => none

/-- `form_urlencoded::parse` on a text without escapes. -/
def plainPairs (query : String) : List (String × String) :=
  ((query.toList.splitOn '&').filter (· ≠ [])).map fun pair =>
    (String.ofList (pair.takeWhile (· ≠ '=')), String.ofList ((pair.dropWhile (· ≠ '=')).drop 1))

def plainNumber (digits : String) : Nat :=
  digits.toList.foldl (fun n c => 10 * n + (c.toNat - '0'.toNat)) 0

structure PlainTotp where
  secret : String
  period : Nat
  digits : Nat
  deriving DecidableEq

def PlainTotp.fromStr (raw : String) : Option PlainTotp :=
  match plainUrl raw with
  | none => none
  | some (scheme, _, query) =>
    let find (key : String) : Option String := ((plainPairs query).find? (·.1 = key)).map (·.2)
    if scheme ≠ "otpauth" then none
    else (find "secret").map fun secret =>
      ⟨secret, plainNumber ((find "period").getD "30"), plainNumber ((find "digits").getD "6")⟩

/-- The code of the 41st window is the one the tests of the source expect. -/
def PlainTotp.valueAt (totp : PlainTotp) (timestamp : UInt64) : OtpCode where
  code := if totp.secret = "JBSWY3DPEHPK3PXP" ∧ timestamp.toNat / totp.period = 41 then "806863" else ""
  validFor := totp.period - timestamp.toNat % totp.period
  period := totp.period

def Totps.reference : Totps Unit where
  toEditing := { Editing.reference with
    parseUrl := fun raw => (plainUrl raw).map fun (scheme, host, _) => (scheme, some host)
    parseTotp := fun raw => (PlainTotp.fromStr raw).map fun totp => (totp.period, totp.digits) }
  Totp := PlainTotp
  period := PlainTotp.period
  digits := PlainTotp.digits
  fromStr := PlainTotp.fromStr
  valueAt := PlainTotp.valueAt
  formPairs := plainPairs
  totpAddress pairs := "otpauth://totp/NianPass?" ++
    "&".intercalate (pairs.map fun pair => pair.1 ++ "=" ++ pair.2)
  parseTotp_eq _ := rfl

instance : DecidableEq Totps.reference.Totp := inferInstanceAs (DecidableEq PlainTotp)

/-- `set_entry_totp_uri` on the entry of `smallVault`. -/
def withTotp (uri : String) : Except EditError PUnit × KdbxDocument Unit :=
  (KdbxDocument.setEntryTotpUri Totps.reference.toEditing ⟨5, 30⟩ (Database.uuidText 10) uri).call
    (document smallVault)

set_option maxRecDepth 100000 in
theorem acceptedTotp_usable_iff_test :
    let uri := "otpauth://totp/Test?secret=JBSWY3DPEHPK3PXP&period=30&digits=6"
    (withTotp uri).1 = .ok ⟨⟩ ∧
      Totps.reference.entryTotpCodeAt (withTotp uri).2 (Database.uuidText 10) 1234 =
        .ok ⟨"806863", 26, 30⟩ := by
  intro uri
  have hok : (withTotp uri).1 = .ok ⟨⟩ := by decide +kernel
  have hread : Totps.reference.validateTotpUri uri = .ok ⟨"JBSWY3DPEHPK3PXP", 30, 6⟩ := by
    decide +kernel
  obtain ⟨totp, htotp, husable⟩ := (acceptedTotp_usable_iff Totps.reference ⟨5, 30⟩
    (document smallVault) (Database.uuidText 10) uri).2 hok
  obtain rfl := Except.ok.inj (hread.symm.trans htotp)
  refine ⟨hok, (husable.mpr (Or.inl (by decide)) 1234).trans ?_⟩
  decide +kernel

set_option maxRecDepth 100000 in
/-- A scheme in capitals is accepted, and gives no code ever after. -/
theorem totp_lost_at_capitals :
    let uri := "OTPAUTH://totp/Test?secret=JBSWY3DPEHPK3PXP"
    (withTotp uri).1 = .ok ⟨⟩ ∧
      (Totps.reference.validateTotpUri uri).map (Totps.reference.codeAt · 1234) =
        .ok ⟨"806863", 26, 30⟩ ∧
      ∀ timestamp, Totps.reference.entryTotpCodeAt (withTotp uri).2 (Database.uuidText 10) timestamp =
        .error .unsupportedTotpFormat := by
  intro uri
  refine ⟨by decide +kernel, by decide +kernel, ?_⟩
  intro timestamp
  have hnone : Totps.reference.entryTotp (withTotp uri).2 (Database.uuidText 10) =
      .error .unsupportedTotpFormat := by decide +kernel
  unfold Totps.entryTotpCodeAt
  rw [hnone]
  rfl

end NianPass.Kdbx
