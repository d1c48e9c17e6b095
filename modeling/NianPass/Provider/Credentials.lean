import NianPass.Kdbx.Projection
import NianPass.Kdbx.RecycleBin

/-
  Which credentials a platform is offered, and which it gets (`credential-provider-core`).

  `candidates` walks the projection of the vault and lists what matches a target. `credential` takes an
  identifier from outside, looks the entry up and checks everything once more. Both read the entry by
  the text of its identifier; URLs are taken apart by a library, which is a parameter.

  What is proved:
    1. `candidatesAmong_eq_ok`: what is offered.
    2. `credential_iff_offered`: a credential is released exactly for the identifiers that were offered
       and have a user name and a password, and never from below the bin or for another target.
-/
namespace NianPass.Provider

open Kdbx
open Kdbx.Projection (SummaryText EntrySummary projection exists_of_mem_projection findEntry_eq_find?)

variable {V : Type}

/-! ## Targets -/

/-- `Host` of the URL library; an address stands as its text. -/
inductive Host where
  | domain (name : String)
  | ipv4 (address : String)
  | ipv6 (address : String)
  deriving DecidableEq

structure Url where
  cannotBeABase : Bool
  username : String
  password : Option String
  path : String
  query : Option String
  fragment : Option String
  scheme : String
  host : Option Host
  portOrKnownDefault : Option Nat
  deriving DecidableEq

/-- What is used of the URL library. -/
structure UrlParser where
  /-- `Url::parse`. -/
  parse : String → Option Url
  /-- `as_str`. -/
  asStr : Url → String

/-- `trim_end_matches('.').to_ascii_lowercase()` -/
def trimmedLower (name : String) : String :=
  String.ofList ((name.toList.reverse.dropWhile (· = '.')).reverse.map Char.toLower)

inductive CredentialTarget where
  | androidApp (packageName : String)
  | webHost (host : String)
  | webOrigin (origin : String)
  deriving DecidableEq

/-- The text of a host in a target. -/
def hostText : Host → String
  | .domain name => trimmedLower name
  | .ipv4 address => address
  | .ipv6 address => address

def canonicalUrlHost (U : UrlParser) (value : String) : Option String := do
  let parsed ← U.parse value
  let host ← parsed.host
  some (hostText host)

def isLoopbackHost : Host → Bool
  | .domain name => trimmedLower name = "localhost"
  | .ipv4 address => address = "127.0.0.1"
  | .ipv6 address => address = "::1"

def canonicalBrowserOrigin (U : UrlParser) (value : String) (originOnly : Bool) : Option String := do
  let parsed ← U.parse value
  if parsed.cannotBeABase ∨ parsed.username ≠ "" ∨ parsed.password.isSome ∨
      (originOnly ∧ (parsed.path ≠ "/" ∨ parsed.query.isSome ∨ parsed.fragment.isSome)) then none
  else do
    let host ← parsed.host
    if parsed.scheme ≠ "https" ∧ ¬(parsed.scheme = "http" ∧ isLoopbackHost host) then none
    else do
      let hostText := match host with
        | .domain name => trimmedLower name
        | .ipv4 address => address
        | .ipv6 address => "[" ++ address ++ "]"
      let port ← parsed.portOrKnownDefault
      let defaultPort := if parsed.scheme = "https" then 443 else 80
      if port = defaultPort then some (parsed.scheme ++ "://" ++ hostText)
      else some (parsed.scheme ++ "://" ++ hostText ++ ":" ++ toString port)

inductive ProviderError where
  | invalidTarget
  | credentialUnavailable
  | internal
  deriving DecidableEq

/-- `CredentialTarget::browser_origin`. -/
def CredentialTarget.browserOrigin (U : UrlParser) (origin : String) :
    Except ProviderError CredentialTarget :=
  match canonicalBrowserOrigin U origin true with
  | none => .error .invalidTarget
  | some origin => .ok (.webOrigin origin)

/-- `ANDROID_APP_FIELD`. -/
def androidAppField := "AndroidApp"

/-! ## Candidates and credentials -/

def entryIsRecycled (db : Database V) (id : String) : Except EditError Bool := do
  let entryId ← db.findEntryId id
  match recycleBinId db with
  | none => pure false
  | some recycle =>
    match db.entries[entryId]? with
    | none => throw .entryNotFound
    | some entry => pure (groupIsInRecycleBin db entry.parent recycle)

def entrySecret (db : Database V) (id field : String) : Except EditError (Option String) := do
  let entryId ← db.findEntryId id
  match db.entries[entryId]? with
  | none => throw .entryNotFound
  | some entry => pure (entry.text field)

/-- `CredentialCandidate`. -/
structure CredentialCandidate where
  entryId : String
  title : SummaryText
  username : SummaryText
  deriving DecidableEq

structure Credential where
  username : String
  password : String
  deriving DecidableEq

section Provider
variable (lib : Editing V) (U : UrlParser) (db : Database V)

def entryCustomField (entry name : String) : Except EditError (Option String) := do
  rejectReservedField lib name
  entrySecret db entry name

def entryMatchesTarget (id : String) : CredentialTarget → Except ProviderError Bool
  | .androidApp packageName =>
    match entryCustomField lib db id androidAppField with
    | .error _ => .error .internal
    | .ok value => .ok (value.any (· = packageName))
  | .webHost webHost =>
    match entrySecret db id Fields.url with
    | .error _ => .error .internal
    | .ok value => .ok (value.any fun value => canonicalUrlHost U value = some webHost)
  | .webOrigin webOrigin =>
    match entrySecret db id Fields.url with
    | .error _ => .error .internal
    | .ok value => .ok (value.any fun value => canonicalBrowserOrigin U value false = some webOrigin)

/-- The loop of `candidates`. -/
def candidatesAmong (target : CredentialTarget) :
    List EntrySummary → Except ProviderError (List CredentialCandidate)
  | [] => .ok []
  | entry :: entries =>
    match entryIsRecycled db entry.id with
    | .error _ => .error .internal
    | .ok true => candidatesAmong target entries
    | .ok false =>
      match entryMatchesTarget lib U db entry.id target with
      | .error e => .error e
      | .ok false => candidatesAmong target entries
      | .ok true => do
        let rest ← candidatesAmong target entries
        pure (⟨entry.id, entry.title, entry.username⟩ :: rest)

def candidates (target : CredentialTarget) : Except ProviderError (List CredentialCandidate) :=
  candidatesAmong lib U db target (projection db).collectEntries

def credential (entryId : String) (target : CredentialTarget) : Except ProviderError Credential :=
  if entryId = "" then .error .credentialUnavailable
  else
    match entryIsRecycled db entryId with
    | .error _ | .ok true => .error .credentialUnavailable
    | .ok false =>
      if ((projection db).findEntry entryId).isNone then .error .credentialUnavailable
      else
        match entryMatchesTarget lib U db entryId target with
        | .error e => .error e
        | .ok false => .error .credentialUnavailable
        | .ok true =>
          match entrySecret db entryId Fields.username, entrySecret db entryId Fields.password with
          | .ok (some username), .ok (some password) => .ok ⟨username, password⟩
          | _, _ => .error .credentialUnavailable

end Provider

/-! ## Reading an entry -/

/-- The entry that the text `id` names. -/
def Names (db : Database V) (id : String) (entry : Entry V) : Prop :=
  ∃ entryId, db.findEntryId id = .ok entryId ∧ db.entries[entryId]? = some entry

/-- The entry is for the target. -/
def Matches (U : UrlParser) (entry : Entry V) : CredentialTarget → Prop
  | .androidApp packageName => entry.text androidAppField = some packageName
  | .webHost webHost => ∃ url, entry.text Fields.url = some url ∧ canonicalUrlHost U url = some webHost
  | .webOrigin webOrigin => ∃ url, entry.text Fields.url = some url ∧
    canonicalBrowserOrigin U url false = some webOrigin

section Reading
variable {lib : Editing V} {U : UrlParser} {db : Database V} {id field : String}

theorem Names.unique {entry other : Entry V} (h : Names db id entry) (h' : Names db id other) :
    entry = other := by
  obtain ⟨entryId, hid, hentry⟩ := h
  obtain ⟨otherId, hid', hother⟩ := h'
  obtain rfl := Except.ok.inj (hid.symm.trans hid')
  exact Option.some.inj (hentry.symm.trans hother)

theorem entrySecret_eq_ok {value : Option String} :
    entrySecret db id field = .ok value ↔ ∃ entry, Names db id entry ∧ entry.text field = value := by
  unfold entrySecret Names EntryData.text
  cases db.findEntryId id with
  | error e => simp [bind, Except.bind]
  | ok entryId =>
    dsimp only [bind, Except.bind]
    cases hentry : db.entries[entryId]? with
    | none => simp [throw, throwThe, MonadExceptOf.throw, hentry]
    | some entry => simp [pure, Except.pure, hentry]

/-- An entry is recycled if its group is the bin or below it. -/
theorem entryIsRecycled_eq_ok_false : entryIsRecycled db id = .ok false ↔
    ∃ entryId, db.findEntryId id = .ok entryId ∧ ∀ recycle, recycleBinId db = some recycle →
      ∃ entry, db.entries[entryId]? = some entry ∧ ¬ Forest.Above db.parentOf recycle entry.parent := by
  unfold entryIsRecycled
  cases db.findEntryId id with
  | error e => simp [bind, Except.bind]
  | ok entryId =>
    dsimp only [bind, Except.bind]
    cases recycleBinId db with
    | none => simp [pure, Except.pure]
    | some recycle =>
      dsimp only
      cases hentry : db.entries[entryId]? with
      | none => simp [throw, throwThe, MonadExceptOf.throw, hentry]
      | some entry =>
        simp [pure, Except.pure, hentry, ← groupIsInRecycleBin_iff]

theorem matches_of_entryMatchesTarget {target : CredentialTarget}
    (h : entryMatchesTarget lib U db id target = .ok true) :
    ∃ entry, Names db id entry ∧ Matches U entry target := by
  cases target with
  | androidApp packageName =>
    rw [entryMatchesTarget] at h
    cases hfield : entryCustomField lib db id androidAppField with
    | error e => rw [hfield] at h; cases h
    | ok value =>
      rw [hfield] at h
      have hsecret : entrySecret db id androidAppField = .ok value := by
        unfold entryCustomField at hfield
        cases hreserved : rejectReservedField lib androidAppField with
        | error e => rw [hreserved] at hfield; cases hfield
        | ok _ => rwa [hreserved] at hfield
      obtain ⟨entry, hnames, htext⟩ := entrySecret_eq_ok.mp hsecret
      refine ⟨entry, hnames, ?_⟩
      obtain ⟨name, rfl, hname⟩ := (Option.any_eq_true _ _).mp (Except.ok.inj h)
      rw [of_decide_eq_true hname] at htext
      exact htext
  | webHost webHost =>
    rw [entryMatchesTarget] at h
    cases hsecret : entrySecret db id Fields.url with
    | error e => rw [hsecret] at h; cases h
    | ok value =>
      rw [hsecret] at h
      obtain ⟨entry, hnames, htext⟩ := entrySecret_eq_ok.mp hsecret
      obtain ⟨url, rfl, hurl⟩ := (Option.any_eq_true _ _).mp (Except.ok.inj h)
      exact ⟨entry, hnames, url, htext, of_decide_eq_true hurl⟩
  | webOrigin webOrigin =>
    rw [entryMatchesTarget] at h
    cases hsecret : entrySecret db id Fields.url with
    | error e => rw [hsecret] at h; cases h
    | ok value =>
      rw [hsecret] at h
      obtain ⟨entry, hnames, htext⟩ := entrySecret_eq_ok.mp hsecret
      obtain ⟨url, rfl, hurl⟩ := (Option.any_eq_true _ _).mp (Except.ok.inj h)
      exact ⟨entry, hnames, url, htext, of_decide_eq_true hurl⟩

end Reading

/-! ## What is offered, and what is released -/

section Offered
variable {lib : Editing V} {U : UrlParser} {db : Database V} {target : CredentialTarget}

variable (lib U db target) in
/-- The entry that `id` names is outside the bin and for the target. -/
def Offered (id : String) : Prop :=
  entryIsRecycled db id = .ok false ∧ entryMatchesTarget lib U db id target = .ok true

theorem candidatesAmong_eq_ok {entries : List EntrySummary} {offered : List CredentialCandidate}
    (h : candidatesAmong lib U db target entries = .ok offered) (id : String) :
    id ∈ offered.map (·.entryId) ↔ ∃ entry ∈ entries, entry.id = id ∧ Offered lib U db target id := by
  induction entries generalizing offered with
  | nil =>
    obtain rfl := Except.ok.inj h
    simp
  | cons entry entries ih =>
    -- an entry that is passed over is not offered
    have hskip : ∀ {offered}, ¬ Offered lib U db target entry.id →
        candidatesAmong lib U db target entries = .ok offered →
        (id ∈ offered.map (·.entryId) ↔
          ∃ other ∈ entry :: entries, other.id = id ∧ Offered lib U db target id) := by
      intro offered hnot hrest
      rw [ih hrest]
      constructor
      · rintro ⟨other, hmem, hid, hoffered⟩
        exact ⟨other, List.mem_cons_of_mem entry hmem, hid, hoffered⟩
      · rintro ⟨other, hmem, rfl, hoffered⟩
        rcases List.mem_cons.mp hmem with rfl | hmem
        · exact absurd hoffered hnot
        · exact ⟨other, hmem, rfl, hoffered⟩
    rw [candidatesAmong] at h
    split at h
    · cases h
    · case h_2 hrecycled =>
      apply hskip _ h
      rintro ⟨hfalse, -⟩
      rw [hrecycled] at hfalse
      cases hfalse
    · case h_3 hrecycled =>
      split at h
      · cases h
      · case h_2 hmatch =>
        apply hskip _ h
        rintro ⟨-, htrue⟩
        rw [hmatch] at htrue
        cases htrue
      · case h_3 hmatch =>
        cases hrest : candidatesAmong lib U db target entries with
        | error e => rw [hrest] at h; cases h
        | ok rest =>
          rw [hrest] at h
          obtain rfl := Except.ok.inj h
          rw [List.map_cons, List.mem_cons, ih hrest]
          constructor
          · rintro (rfl | ⟨other, hmem, hid, hoffered⟩)
            · exact ⟨entry, List.mem_cons_self, rfl, hrecycled, hmatch⟩
            · exact ⟨other, List.mem_cons_of_mem entry hmem, hid, hoffered⟩
          · rintro ⟨other, hmem, rfl, hoffered⟩
            rcases List.mem_cons.mp hmem with rfl | hmem
            · exact Or.inl rfl
            · exact Or.inr ⟨other, hmem, rfl, hoffered⟩

theorem credential_eq_ok {id : String} {released : Credential} :
    credential lib U db id target = .ok released ↔
      id ≠ "" ∧ (∃ entry ∈ (projection db).collectEntries, entry.id = id) ∧ Offered lib U db target id ∧
        entrySecret db id Fields.username = .ok (some released.username) ∧
        entrySecret db id Fields.password = .ok (some released.password) := by
  have hfound : (∃ entry ∈ (projection db).collectEntries, entry.id = id) ↔
      ((projection db).findEntry id).isSome = true := by
    rw [findEntry_eq_find?, List.find?_isSome]
    simp
  rw [hfound, credential, Offered]
  split
  · simp [*]
  · split
    · simp [*]
    · simp [*]
    · split
      · simp_all
      · case isFalse hfind =>
        have hsome : ((projection db).findEntry id).isSome = true := by
          rwa [Option.isNone_iff_eq_none, ← ne_eq, ← Option.isSome_iff_ne_none] at hfind
        split
        · simp [*]
        · simp [*]
        · obtain ⟨username, password⟩ := released
          rcases entrySecret db id Fields.username with _ | _ | _ <;>
            rcases entrySecret db id Fields.password with _ | _ | _ <;> simp [*]

/-- On a target for which candidates are listed, a credential is released exactly for an identifier
that was offered and whose entry has a user name and a password. What is released is that entry's; it
is neither in the bin nor below it, and it is for the target. -/
theorem credential_iff_offered {offered : List CredentialCandidate}
    (h : candidates lib U db target = .ok offered) (id : String) :
    ((∃ released, credential lib U db id target = .ok released) ↔
      id ∈ offered.map (·.entryId) ∧ ∃ entry, Names db id entry ∧
        Fields.username ∈ entry.fields ∧ Fields.password ∈ entry.fields) ∧
    ∀ released, credential lib U db id target = .ok released → ∃ entry, Names db id entry ∧
      entry.text Fields.username = some released.username ∧
      entry.text Fields.password = some released.password ∧
      (∀ recycle, recycleBinId db = some recycle →
        ¬ Forest.Above db.parentOf recycle entry.parent) ∧
      Matches U entry target := by
  have htext : ∀ (entry : Entry V) field, field ∈ entry.fields ↔ ∃ text, entry.text field = some text := by
    intro entry field
    simp [EntryData.text, mem_iff_exists]
  constructor
  · rw [candidatesAmong_eq_ok h]
    constructor
    · rintro ⟨released, hreleased⟩
      obtain ⟨-, ⟨summary, hsummary, hid⟩, hoffered, husername, hpassword⟩ :=
        credential_eq_ok.mp hreleased
      obtain ⟨entry, hnames, husername⟩ := entrySecret_eq_ok.mp husername
      obtain ⟨other, hother, hpassword⟩ := entrySecret_eq_ok.mp hpassword
      obtain rfl := hnames.unique hother
      refine ⟨⟨summary, hsummary, hid, hoffered⟩, entry, hnames, ?_, ?_⟩
      · exact (htext entry _).mpr ⟨_, husername⟩
      · exact (htext entry _).mpr ⟨_, hpassword⟩
    · rintro ⟨⟨summary, hsummary, rfl, hoffered⟩, entry, hnames, husername, hpassword⟩
      obtain ⟨username, husername⟩ := (htext entry _).mp husername
      obtain ⟨password, hpassword⟩ := (htext entry _).mp hpassword
      refine ⟨⟨username, password⟩, credential_eq_ok.mpr ⟨?_, ⟨summary, hsummary, rfl⟩, hoffered,
        entrySecret_eq_ok.mpr ⟨entry, hnames, husername⟩,
        entrySecret_eq_ok.mpr ⟨entry, hnames, hpassword⟩⟩⟩
      -- the projection names entries by the text of a UUID, which is not empty
      obtain ⟨entryId, stored, -, rfl⟩ := exists_of_mem_projection hsummary
      intro hempty
      have hlength := length_uuidText entryId.uuid
      rw [show Database.uuidText entryId.uuid = "" from hempty] at hlength
      cases hlength
  · intro released hreleased
    obtain ⟨-, -, ⟨hrecycled, hmatch⟩, husername, hpassword⟩ := credential_eq_ok.mp hreleased
    obtain ⟨entry, hnames, husername⟩ := entrySecret_eq_ok.mp husername
    obtain ⟨other, hother, hpassword⟩ := entrySecret_eq_ok.mp hpassword
    obtain rfl := hnames.unique hother
    obtain ⟨other, hother, hmatches⟩ := matches_of_entryMatchesTarget hmatch
    obtain rfl := hnames.unique hother
    refine ⟨entry, hnames, husername, hpassword, ?_, hmatches⟩
    intro recycle hbin
    obtain ⟨entryId, hid, hoff⟩ := entryIsRecycled_eq_ok_false.mp hrecycled
    obtain ⟨other, hother, hnot⟩ := hoff recycle hbin
    obtain rfl := hnames.unique ⟨entryId, hid, hother⟩
    exact hnot

end Offered

/-! ## A vault with a bin -/

def site (host : Host) (path : String) : Url where
  cannotBeABase := false
  username := ""
  password := none
  path := path
  query := none
  fragment := none
  scheme := "https"
  host := some host
  portOrKnownDefault := some 443

/-- Some addresses and what they are parsed to. -/
def knownUrls : List (String × Url) :=
  [("https://Mail.example./inbox", site (.domain "mail.example.") "/inbox"),
   ("https://mail.example./inbox", site (.domain "mail.example.") "/inbox"),
   ("https://mail.example", site (.domain "mail.example") "/"),
   ("https://mail.example/", site (.domain "mail.example") "/"),
   ("https://[::1]/", site (.ipv6 "::1") "/")]

/-- A parser of these addresses and no others. -/
def UrlParser.known : UrlParser where
  parse text := (knownUrls.find? (·.1 = text)).map (·.2)
  asStr url :=
    let host := match url.host with
      | some (.domain name) => name
      | some (.ipv4 address) => address
      | some (.ipv6 address) => "[" ++ address ++ "]"
      | none => ""
    "https://" ++ host ++ url.path

/-- An entry for a site. -/
def siteEntry (parent : GroupId) (url : String) : Entry Unit where
  parent := parent
  fields := mapOf [("UserName", ⟨false, "me"⟩), ("Password", ⟨true, "secret"⟩), ("URL", ⟨false, url⟩)]

/-- One entry in a group, the same one in a group below the bin. -/
def providerVault : Database Unit where
  config := ()
  root := ⟨1⟩
  metadata := { recyclebinUuid := some 3 }
  groups := mapOf [(⟨1⟩, { groups := [⟨2⟩, ⟨3⟩] }), (⟨2⟩, { parent := some ⟨1⟩, entries := [⟨10⟩] }),
    (⟨3⟩, { parent := some ⟨1⟩, groups := [⟨4⟩] }), (⟨4⟩, { parent := some ⟨3⟩, entries := [⟨11⟩] })]
  entries := mapOf [(⟨10⟩, siteEntry ⟨2⟩ "https://Mail.example./inbox"),
    (⟨11⟩, siteEntry ⟨4⟩ "https://Mail.example./inbox")]

set_option maxRecDepth 100000 in
theorem credential_iff_offered_bin :
    let release (id : Uuid) := credential Editing.reference .known providerVault
      (Database.uuidText id) (.webHost "mail.example")
    (∃ released, release 10 = .ok released) ∧ ¬ ∃ released, release 11 = .ok released := by
  intro release
  have hlisted : candidates Editing.reference .known providerVault (.webHost "mail.example") =
      .ok [⟨Database.uuidText 10, .missing, .visible "me"⟩] := by decide +kernel
  have hentry : Names providerVault (Database.uuidText 10) (siteEntry ⟨2⟩ "https://Mail.example./inbox") :=
    ⟨⟨10⟩, by decide +kernel, by decide +kernel⟩
  constructor
  · apply (credential_iff_offered hlisted _).1.mpr
    exact ⟨by simp, _, hentry, by decide +kernel, by decide +kernel⟩
  · rw [(credential_iff_offered hlisted _).1]
    rintro ⟨hmem, -⟩
    exact absurd hmem (by decide +kernel)

end NianPass.Provider
