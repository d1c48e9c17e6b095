import NianPass.Provider.Credentials

/-
  Whether a published identity finds its entry again.

  `password_identities` publishes the host of an entry's URL as a service identifier. The platform hands
  it back as a domain, and `CredentialTarget::web_domain` reads it as the host of an `https` address
  (`service_target` in the iOS boundary). `ReadsBack` is the host for which this leads back.

  What the URL standard says about hosts is `Whatwg`: serialising is stable, a host contains no
  forbidden code point, an IPv6 address contains a colon, the text of an IPv4 address is read as that
  address, and what stands between `https://` and the end is read by the host parser of special
  schemes.
-/
namespace NianPass.Provider

open Kdbx
open Kdbx.Projection (SummaryText EntrySummary projectSummaryText projectEntrySummary projection
  exists_of_mem_projection)

variable {V : Type}

/-! ## Identities -/

structure PasswordIdentity where
  recordIdentifier : String
  serviceIdentifier : String
  username : String
  deriving DecidableEq

/-- `SummaryText::visible`. -/
def visible : SummaryText → Option String
  | .visible value => some value
  | .missing | .protectedText => none

section Identities
variable (U : UrlParser)

def passwordIdentity (entry : EntrySummary) : Option PasswordIdentity :=
  if ¬ entry.hasPassword then none
  else do
    let username ← (visible entry.username).filter (· ≠ "")
    let url ← visible entry.url
    let serviceIdentifier ← canonicalUrlHost U url
    some ⟨entry.id, serviceIdentifier, username⟩

/-- The loop of `password_identities`. -/
def passwordIdentitiesAmong (db : Database V) :
    List EntrySummary → Except ProviderError (List PasswordIdentity)
  | [] => .ok []
  | entry :: entries =>
    match entryIsRecycled db entry.id with
    | .error _ => .error .internal
    | .ok true => passwordIdentitiesAmong db entries
    | .ok false => do
      let rest ← passwordIdentitiesAmong db entries
      pure ((passwordIdentity U entry).toList ++ rest)

def passwordIdentities (db : Database V) : Except ProviderError (List PasswordIdentity) :=
  passwordIdentitiesAmong U db (projection db).collectEntries

def canonicalDomain (value : String) : Except ProviderError String :=
  if value = "" ∨ '/' ∈ value.toList ∨ '@' ∈ value.toList ∨ ':' ∈ value.toList then .error .invalidTarget
  else match U.parse ("https://" ++ value) with
    | none => .error .invalidTarget
    | some parsed =>
      match canonicalUrlHost U (U.asStr parsed) with
      | none => .error .invalidTarget
      | some host => .ok host

namespace CredentialTarget

def webDomain (domain : String) : Except ProviderError CredentialTarget :=
  (canonicalDomain U domain).map .webHost

def iosUrl (url : String) : Except ProviderError CredentialTarget :=
  match canonicalUrlHost U url with
  | none => .error .invalidTarget
  | some host => .ok (.webHost host)

end CredentialTarget

/-- `SessionError`, as far as `service_target` returns it. -/
inductive SessionError where
  | invalidRequest
  deriving DecidableEq

def serviceTarget (kind : UInt32) (value : String) : Except SessionError CredentialTarget :=
  if kind = 1 then (CredentialTarget.webDomain U value).mapError fun _ => .invalidRequest
  else if kind = 2 then (CredentialTarget.iosUrl U value).mapError fun _ => .invalidRequest
  else .error .invalidRequest

/-! ## The URL standard -/

/-- Printable ASCII without the forbidden host code points. -/
def isHostCharacter (c : Char) : Bool :=
  '!' ≤ c ∧ c ≤ '~' ∧ c ∉ ['#', '/', ':', '<', '>', '?', '@', '[', '\\', ']', '^', '|']

/-- A text that can stand for a host. -/
def HostText (text : String) : Prop := text ≠ "" ∧ ∀ c ∈ text.toList, isHostCharacter c = true

/-- What the standard says about the hosts of parsed URLs; `hostOf` is its host parser for special
schemes. -/
structure Whatwg (hostOf : String → Option Host) : Prop where
  stable : ∀ text url, U.parse text = some url → U.parse (U.asStr url) = some url
  https : ∀ text, HostText text →
    (U.parse ("https://" ++ text)).map (·.host) = (hostOf text).map some
  domain : ∀ text url name, U.parse text = some url → url.host = some (.domain name) →
    ∀ c ∈ name.toList, isHostCharacter c = true
  ipv4 : ∀ text url address, U.parse text = some url → url.host = some (.ipv4 address) →
    HostText address ∧ hostOf address = some (.ipv4 address)
  ipv6 : ∀ text url address, U.parse text = some url → url.host = some (.ipv6 address) →
    ':' ∈ address.toList

/-- The text of the host is read as a host of that text. -/
def ReadsBack (hostOf : String → Option Host) : Host → Prop
  | .domain name => trimmedLower name ≠ "" ∧
    (hostOf (trimmedLower name)).map hostText = some (trimmedLower name)
  | .ipv4 _ => True
  | .ipv6 _ => False

end Identities

section Domains
variable {U : UrlParser} {hostOf : String → Option Host}

theorem isHostCharacter_toLower {c : Char} (h : isHostCharacter c = true) :
    isHostCharacter c.toLower = true := by
  have hall : ∀ n < 127, isHostCharacter (Char.ofNat n) = true →
      isHostCharacter (Char.ofNat n).toLower = true := by decide +kernel
  have hlt : c.toNat < 127 := by
    have hle : c ≤ '~' := (of_decide_eq_true h).2.1
    exact Nat.lt_succ_of_le (Char.le_def.mp hle)
  have hc := hall c.toNat hlt
  rw [Char.ofNat_toNat] at hc
  exact hc h

/-- No character of a host makes `canonical_domain` refuse. -/
theorem not_separator {c : Char} (h : isHostCharacter c = true) : c ≠ '/' ∧ c ≠ '@' ∧ c ≠ ':' := by
  refine ⟨?_, ?_, ?_⟩ <;>
  · rintro rfl
    exact absurd h (by decide)

theorem isHostCharacter_trimmedLower {name : String} (h : ∀ c ∈ name.toList, isHostCharacter c = true) :
    ∀ c ∈ (trimmedLower name).toList, isHostCharacter c = true := by
  intro c hc
  rw [trimmedLower, String.toList_ofList] at hc
  obtain ⟨upper, hupper, rfl⟩ := List.mem_map.mp hc
  have hmem : upper ∈ name.toList :=
    List.mem_reverse.mp ((List.dropWhile_suffix _).mem (List.mem_reverse.mp hupper))
  exact isHostCharacter_toLower (h upper hmem)

/-- A text made of host characters is read by the host parser. -/
theorem canonicalDomain_eq_ok (hU : Whatwg U hostOf) {text host : String} (htext : HostText text) :
    canonicalDomain U text = .ok host ↔ (hostOf text).map hostText = some host := by
  obtain ⟨hne, hchars⟩ := htext
  have haccept : ¬ (text = "" ∨ '/' ∈ text.toList ∨ '@' ∈ text.toList ∨ ':' ∈ text.toList) := by
    rintro (hempty | hslash | hat | hcolon)
    · exact hne hempty
    · exact (not_separator (hchars _ hslash)).1 rfl
    · exact (not_separator (hchars _ hat)).2.1 rfl
    · exact (not_separator (hchars _ hcolon)).2.2 rfl
  have hhttps := hU.https text ⟨hne, hchars⟩
  rw [canonicalDomain, if_neg haccept]
  cases hparse : U.parse ("https://" ++ text) with
  | none =>
    rw [hparse, Option.map_none, eq_comm, Option.map_eq_none_iff] at hhttps
    simp [hhttps]
  | some parsed =>
    rw [hparse, Option.map_some, eq_comm, Option.map_eq_some_iff] at hhttps
    obtain ⟨found, hfound, hsome⟩ := hhttps
    have hstable : canonicalUrlHost U (U.asStr parsed) = some (hostText found) := by
      rw [canonicalUrlHost, hU.stable _ _ hparse]
      show (parsed.host >>= _) = _
      rw [← hsome]
      rfl
    simp [hstable, hfound]

/-- What is published is read as the target it was made for exactly if the host reads back. -/
theorem canonicalDomain_hostText_iff (hU : Whatwg U hostOf) {text : String} {url : Url} {host : Host}
    (hparse : U.parse text = some url) (hhost : url.host = some host) :
    canonicalDomain U (hostText host) = .ok (hostText host) ↔ ReadsBack hostOf host := by
  cases host with
  | domain name =>
    show canonicalDomain U (trimmedLower name) = .ok (trimmedLower name) ↔ _
    by_cases hempty : trimmedLower name = ""
    · simp [hempty, canonicalDomain, ReadsBack]
    · have hchars := isHostCharacter_trimmedLower (hU.domain text url name hparse hhost)
      rw [canonicalDomain_eq_ok hU ⟨hempty, hchars⟩]
      simp [ReadsBack, hempty]
  | ipv4 address =>
    obtain ⟨htext, hread⟩ := hU.ipv4 text url address hparse hhost
    show canonicalDomain U address = .ok address ↔ True
    rw [canonicalDomain_eq_ok hU htext, hread]
    simp [hostText]
  | ipv6 address =>
    -- the colons look like a port
    have hcolon := hU.ipv6 text url address hparse hhost
    simp [canonicalDomain, hostText, ReadsBack, hcolon]

end Domains

/-! ## What is published -/

section Published
variable {U : UrlParser} {hostOf : String → Option Host} {db : Database V}

theorem mem_passwordIdentitiesAmong {entries : List EntrySummary} {identities : List PasswordIdentity}
    (h : passwordIdentitiesAmong U db entries = .ok identities) {identity : PasswordIdentity}
    (hmem : identity ∈ identities) : ∃ entry ∈ entries,
      entryIsRecycled db entry.id = .ok false ∧ passwordIdentity U entry = some identity := by
  induction entries generalizing identities with
  | nil =>
    obtain rfl := Except.ok.inj h
    exact absurd hmem List.not_mem_nil
  | cons entry entries ih =>
    rw [passwordIdentitiesAmong] at h
    split at h
    · cases h
    · obtain ⟨other, hother, hfound⟩ := ih h hmem
      exact ⟨other, List.mem_cons_of_mem entry hother, hfound⟩
    · case h_3 hrecycled =>
      cases hrest : passwordIdentitiesAmong U db entries with
      | error e => rw [hrest] at h; cases h
      | ok rest =>
        rw [hrest] at h
        obtain rfl := Except.ok.inj h
        rcases List.mem_append.mp hmem with hown | hbelow
        · exact ⟨entry, List.mem_cons_self, hrecycled, Option.mem_toList.mp hown⟩
        · obtain ⟨other, hother, hfound⟩ := ih hrest hbelow
          exact ⟨other, List.mem_cons_of_mem entry hother, hfound⟩

theorem text_of_visible {entry : Entry V} {field text : String}
    (h : visible (projectSummaryText entry.fields[field]?) = some text) :
    entry.text field = some text := by
  unfold EntryData.text
  cases hfield : entry.fields[field]? with
  | none => rw [hfield] at h; cases h
  | some value =>
    rw [hfield, projectSummaryText] at h
    split at h
    · cases h
    · exact h

/-- An identity is the entry's, with the host of its URL. -/
theorem passwordIdentity_eq_some {id : EntryId} {entry : Entry V} {identity : PasswordIdentity}
    (h : passwordIdentity U (projectEntrySummary id entry) = some identity) :
    identity.recordIdentifier = Database.uuidText id.uuid ∧
      entry.text Fields.username = some identity.username ∧ Fields.password ∈ entry.fields ∧
      ∃ text url host, entry.text Fields.url = some text ∧ U.parse text = some url ∧
        url.host = some host ∧ identity.serviceIdentifier = hostText host := by
  unfold passwordIdentity at h
  split at h
  · cases h
  · case isFalse hpassword =>
    simp only [Option.bind_eq_bind, Option.bind_eq_some_iff, canonicalUrlHost, Option.filter_eq_some_iff] at h
    obtain ⟨username, ⟨husername, -⟩, text, htext, service, ⟨url, hurl, host, hhost, hservice⟩, hsome⟩ := h
    obtain rfl := Option.some.inj hsome
    refine ⟨rfl, text_of_visible husername, ?_, text, url, host, text_of_visible htext, hurl,
      hhost, (Option.some.inj hservice).symm⟩
    simpa [projectEntrySummary] using hpassword

/-- Of an entry that is listed and not in the bin, the credential for a host is the one of its URL. -/
theorem credential_webHost_iff {lib : Editing V} {id host username password text : String}
    {entry : Entry V} (hnames : Names db id entry) (hid : id ≠ "")
    (hlisted : ∃ summary ∈ (projection db).collectEntries, summary.id = id)
    (hrecycled : entryIsRecycled db id = .ok false)
    (husername : entry.text Fields.username = some username)
    (hpassword : entry.text Fields.password = some password)
    (hurl : entry.text Fields.url = some text) :
    credential lib U db id (.webHost host) = .ok ⟨username, password⟩ ↔
      canonicalUrlHost U text = some host := by
  have hread : ∀ {field value}, entry.text field = some value →
      entrySecret db id field = .ok (some value) :=
    fun h => entrySecret_eq_ok.mpr ⟨entry, hnames, h⟩
  have hmatch : entryMatchesTarget lib U db id (.webHost host) =
      .ok (decide (canonicalUrlHost U text = some host)) := by
    rw [entryMatchesTarget, hread hurl]
    rfl
  rw [credential_eq_ok, Offered, hmatch, hread husername, hread hpassword]
  constructor
  · rintro ⟨-, -, ⟨-, htrue⟩, -, -⟩
    exact of_decide_eq_true (Except.ok.inj htrue)
  · intro h
    exact ⟨hid, hlisted, ⟨hrecycled, congrArg Except.ok (decide_eq_true h)⟩, rfl, rfl⟩

/-- A published identity leads back to the user name and the password of its entry exactly if the host
of the entry's URL reads back. -/
theorem publishedIdentity_usable_iff (lib : Editing V) (hU : Whatwg U hostOf)
    {identities : List PasswordIdentity} (h : passwordIdentities U db = .ok identities)
    {identity : PasswordIdentity} (hmem : identity ∈ identities) :
    ∃ entry username password text url host, Names db identity.recordIdentifier entry ∧
      entry.text Fields.username = some username ∧
      entry.text Fields.password = some password ∧
      entry.text Fields.url = some text ∧ U.parse text = some url ∧ url.host = some host ∧
      ((∃ target, serviceTarget U 1 identity.serviceIdentifier = .ok target ∧
          credential lib U db identity.recordIdentifier target = .ok ⟨username, password⟩) ↔
        ReadsBack hostOf host) := by
  obtain ⟨summary, hsummary, hrecycled, hidentity⟩ := mem_passwordIdentitiesAmong h hmem
  obtain ⟨id, entry, hentry, rfl⟩ := exists_of_mem_projection hsummary
  obtain ⟨hrecord, husername, hpassword, text, url, host, htext, hparse, hhost, hservice⟩ :=
    passwordIdentity_eq_some hidentity
  obtain ⟨value, hvalue⟩ := mem_iff_exists.mp hpassword
  have hpassword : entry.text Fields.password = some value.get := by
    rw [EntryData.text, hvalue, Option.map_some]
  have hnames : Names db identity.recordIdentifier entry := by
    rw [hrecord]
    exact ⟨id, Database.findEntryId_eq_ok.mpr ⟨mem_iff_exists.mpr ⟨entry, hentry⟩, rfl⟩, hentry⟩
  have hid : identity.recordIdentifier ≠ "" := by
    intro hempty
    have hlength := length_uuidText id.uuid
    rw [← hrecord, hempty] at hlength
    cases hlength
  have hcredential : ∀ target, credential lib U db identity.recordIdentifier (.webHost target) =
      .ok ⟨identity.username, value.get⟩ ↔ hostText host = target := by
    intro target
    have hlisted : ∃ summary ∈ (projection db).collectEntries,
        summary.id = identity.recordIdentifier := ⟨_, hsummary, hrecord.symm⟩
    have hoff : entryIsRecycled db identity.recordIdentifier = .ok false := by
      rw [hrecord]
      exact hrecycled
    rw [credential_webHost_iff hnames hid hlisted hoff husername hpassword htext, canonicalUrlHost, hparse]
    show (url.host >>= _) = _ ↔ _
    rw [hhost]
    exact Option.some_inj
  refine ⟨entry, identity.username, value.get, text, url, host, hnames, husername, hpassword, htext,
    hparse, hhost, ?_⟩
  rw [← canonicalDomain_hostText_iff hU hparse hhost, hservice, serviceTarget, if_pos rfl,
    CredentialTarget.webDomain]
  constructor
  · rintro ⟨target, htarget, hreleased⟩
    cases hdomain : canonicalDomain U (hostText host) with
    | error e => rw [hdomain] at htarget; cases htarget
    | ok read =>
      rw [hdomain] at htarget
      obtain rfl := Except.ok.inj htarget
      rw [(hcredential read).mp hreleased]
  · intro hdomain
    rw [hdomain]
    exact ⟨.webHost (hostText host), rfl, (hcredential _).mpr rfl⟩

end Published

/-! ## The vault with a bin, and an address -/

/-- What the standard says about the host of one URL. -/
def wellHosted : Option Host → Bool
  | some (.domain name) => name.toList.all isHostCharacter
  | some (.ipv6 address) => ':' ∈ address.toList
  | _ => false

theorem known_whatwg : Whatwg .known fun text =>
    (UrlParser.known.parse ("https://" ++ text)).bind (·.host) := by
  have hknown : ∀ text url, UrlParser.known.parse text = some url → ∃ item ∈ knownUrls, item.2 = url := by
    intro text url h
    obtain ⟨item, hitem, hurl⟩ := Option.map_eq_some_iff.mp h
    exact ⟨item, List.mem_of_find?_eq_some hitem, hurl⟩
  have hstable : ∀ item ∈ knownUrls,
      UrlParser.known.parse (UrlParser.known.asStr item.2) = some item.2 := by decide +kernel
  have hhosts : ∀ item ∈ knownUrls, wellHosted item.2.host = true := by decide +kernel
  constructor
  · intro text url h
    obtain ⟨item, hitem, rfl⟩ := hknown text url h
    exact hstable item hitem
  · intro text _
    cases hparse : UrlParser.known.parse ("https://" ++ text) with
    | none => rfl
    | some url =>
      obtain ⟨item, hitem, rfl⟩ := hknown _ url hparse
      have hhost := hhosts item hitem
      cases hsome : item.2.host with
      | none => rw [hsome] at hhost; cases hhost
      | some host => simp [hsome]
  · intro text url name h hsome
    obtain ⟨item, hitem, rfl⟩ := hknown text url h
    have hhost := hhosts item hitem
    rw [hsome] at hhost
    exact List.all_eq_true.mp hhost
  · intro text url address h hsome
    obtain ⟨item, hitem, rfl⟩ := hknown text url h
    have hhost := hhosts item hitem
    rw [hsome] at hhost
    cases hhost
  · intro text url address h hsome
    obtain ⟨item, hitem, rfl⟩ := hknown text url h
    have hhost := hhosts item hitem
    rw [hsome] at hhost
    exact of_decide_eq_true hhost

set_option maxRecDepth 100000 in
theorem publishedIdentity_usable_iff_bin :
    ∃ target, serviceTarget .known 1 "mail.example" = .ok target ∧
      credential Editing.reference .known providerVault (Database.uuidText 10) target =
        .ok ⟨"me", "secret"⟩ := by
  have hpublished : passwordIdentities .known providerVault =
      .ok [⟨Database.uuidText 10, "mail.example", "me"⟩] := by decide +kernel
  obtain ⟨entry, username, password, text, url, host, hnames, husername, hpassword, htext, hparse, hhost,
    husable⟩ := publishedIdentity_usable_iff Editing.reference known_whatwg hpublished List.mem_cons_self
  have hentry : Names providerVault (Database.uuidText 10) (siteEntry ⟨2⟩ "https://Mail.example./inbox") :=
    ⟨⟨10⟩, by decide +kernel, by decide +kernel⟩
  obtain rfl := hnames.unique hentry
  have hfields : (siteEntry ⟨2⟩ "https://Mail.example./inbox").text Fields.username = some "me" ∧
      (siteEntry ⟨2⟩ "https://Mail.example./inbox").text Fields.password = some "secret" ∧
      (siteEntry ⟨2⟩ "https://Mail.example./inbox").text Fields.url =
        some "https://Mail.example./inbox" := by decide +kernel
  obtain rfl := Option.some.inj (hfields.1.symm.trans husername)
  obtain rfl := Option.some.inj (hfields.2.1.symm.trans hpassword)
  obtain rfl := Option.some.inj (hfields.2.2.symm.trans htext)
  have hknown : UrlParser.known.parse "https://Mail.example./inbox" =
      some (site (.domain "mail.example.") "/inbox") := by decide +kernel
  obtain rfl := Option.some.inj (hknown.symm.trans hparse)
  obtain rfl := Option.some.inj hhost
  refine husable.mpr ⟨by decide +kernel, by decide +kernel⟩

/-- A vault with one entry, for a loopback address. -/
def loopbackVault : Database Unit where
  config := ()
  root := ⟨1⟩
  groups := mapOf [(⟨1⟩, { entries := [⟨10⟩] })]
  entries := mapOf [(⟨10⟩, siteEntry ⟨1⟩ "https://[::1]/")]

set_option maxRecDepth 100000 in
/-- The identity of an entry for an IPv6 address is published, and no target can be made from it. -/
theorem identity_lost_at_ipv6 :
    Whatwg .known (fun text => (UrlParser.known.parse ("https://" ++ text)).bind (·.host)) ∧
      passwordIdentities .known loopbackVault = .ok [⟨Database.uuidText 10, "::1", "me"⟩] ∧
      CredentialTarget.webDomain .known "::1" = .error .invalidTarget :=
  ⟨known_whatwg, by decide +kernel, by decide +kernel⟩

end NianPass.Provider
