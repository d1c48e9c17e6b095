import Mathlib.Data.List.AList
import NianPass.Browser.Protocol

/-
  `BackgroundChannelRegistry`: the ports of the pages' content scripts.

  A port is bound to its document once the browser has confirmed the permission for
  its origin and its first message has arrived, in either order. Disconnecting a port
  is heard at its other end only.

  A second message on a port closes it. On a port that is bound this leaves the
  authority behind: the registry answers with a port it has disconnected itself.
  `registry_sound_iff` says that this is the only way to get there.
-/
namespace NianPass.Browser

structure DocumentPortAuthority where
  tabId : Int
  frameId : Int
  origin : String
  documentNonce : String
  port : Nat
deriving DecidableEq

structure SenderAuthority where
  tabId : Int
  frameId : Int
  origin : String
  permissionPattern : String
deriving DecidableEq

/-- A port that was accepted, with the variables its listeners share. The last four fields are
what has happened to it. -/
structure Channel where
  port : RuntimePort
  sender : SenderAuthority
  /-- `containsOrigin` has not answered yet -/
  asking : Bool
  permissionResolved : Bool
  firstMessage : Option JsValue
  closed : Bool
  /-- the registry has disconnected it -/
  disconnected : Bool
  /-- the page has disconnected it -/
  left : Bool
  /-- the browser has confirmed the sender's pattern -/
  granted : Bool
  received : List JsValue

structure Registry where
  documents : AList fun _ : String => DocumentPortAuthority
  channels : Nat → Option Channel
  nextPort : Nat
  /-- the tabs `onAuthorityChanged` was called for -/
  changes : List Int

namespace Registry

def key (tabId frameId : Int) : String := tabId.repr ++ (":" ++ frameId.repr)

def senderAuthority (platform : Platform) (port : RuntimePort) : Option SenderAuthority := do
  let sender ← port.sender
  let tab ← sender.tab
  let tabId ← tab.id
  let frameId ← sender.frameId
  let url ← sender.url
  if port.name ≠ CONTENT_PORT_NAME ∨ sender.id ≠ some platform.extensionId ∨ frameId ≠ 0 then none
  else do
    let site ← siteIdentityFromUrl platform url
    some ⟨tabId, frameId, site.origin, site.pattern⟩

def put (r : Registry) (n : Nat) (channel : Channel) : Registry :=
  { r with channels := Function.update r.channels n (some channel) }

/-- `port.disconnect()` -/
def disconnect (r : Registry) (n : Nat) : Registry :=
  match r.channels n with
  | some channel => r.put n { channel with disconnected := true }
  | none => r

/-- The authority is dropped if it is still this port's. -/
def drop (r : Registry) (tabId frameId : Int) (n : Nat) : Registry :=
  if (r.documents.lookup (key tabId frameId)).map (·.port) = some n then
    { r with documents := r.documents.erase (key tabId frameId) }
  else r

def changed (r : Registry) (tabId : Int) : Registry := { r with changes := r.changes ++ [tabId] }

def remove (r : Registry) (n : Nat) (sender : SenderAuthority) : Registry :=
  (r.drop sender.tabId sender.frameId n).changed sender.tabId

def retire (r : Registry) (authority : DocumentPortAuthority) : Registry :=
  ((r.drop authority.tabId authority.frameId authority.port).disconnect authority.port).changed authority.tabId

def bind (r : Registry) (n : Nat) (sender : SenderAuthority) (message : JsValue) : Registry :=
  match parseDocumentHello message with
  | none => r.disconnect n
  | some documentNonce =>
    let previous := r.documents.lookup (key sender.tabId sender.frameId)
    if previous.map (·.port) = some n then r
    else
      let r := match previous with
        | some previous => r.retire previous
        | none => r
      { r with documents := r.documents.insert (key sender.tabId sender.frameId)
                 ⟨sender.tabId, sender.frameId, sender.origin, documentNonce, n⟩ }.changed sender.tabId

def accept (platform : Platform) (r : Registry) (port : RuntimePort) : Registry :=
  match senderAuthority platform port with
  -- the port is disconnected, and nobody listens to it
  | none => { r with nextPort := r.nextPort + 1 }
  | some sender =>
    { r.put r.nextPort ⟨port, sender, true, false, none, false, false, false, false, []⟩ with
      nextPort := r.nextPort + 1 }

def message (r : Registry) (n : Nat) (value : JsValue) : Registry :=
  match r.channels n with
  | none => r
  | some channel =>
    let channel := { channel with received := channel.received ++ [value] }
    if channel.closed then r.put n channel
    else
      match channel.firstMessage with
      | some _ => r.put n { channel with closed := true, disconnected := true }
      | none =>
        let r := r.put n { channel with firstMessage := some value }
        if channel.permissionResolved then r.bind n channel.sender value else r

/-- `onDisconnect` -/
def pageLeft (r : Registry) (n : Nat) : Registry :=
  match r.channels n with
  | none => r
  | some channel => (r.put n { channel with closed := true, left := true }).remove n channel.sender

/-- The answer of `containsOrigin`, or its failure. -/
def permission (r : Registry) (n : Nat) (answer : Option Bool) : Registry :=
  match r.channels n with
  | none => r
  | some channel =>
    if channel.asking then
      let channel := { channel with asking := false, granted := answer = some true }
      match answer with
      | none => (r.put n channel).disconnect n
      | some permitted =>
        if channel.closed then r.put n channel
        else if permitted then
          let r := r.put n { channel with permissionResolved := true }
          match channel.firstMessage with
          | some message => r.bind n channel.sender message
          | none => r
        else (r.put n channel).disconnect n
    else r

def authorityFor (r : Registry) (tabId frameId : Int) (documentNonce : String) :
    Option DocumentPortAuthority :=
  match r.documents.lookup (key tabId frameId) with
  | some authority => if authority.documentNonce = documentNonce then some authority else none
  | none => none

def values (r : Registry) : List DocumentPortAuthority := r.documents.entries.map Sigma.snd

def clearTab (r : Registry) (tabId : Int) : Registry :=
  (r.values.filter (·.tabId = tabId)).foldl retire r

def clearAll (r : Registry) : Registry := r.values.foldl retire r

end Registry

inductive ChannelEvent where
  | connected (port : RuntimePort)
  | message (n : Nat) (value : JsValue)
  | left (n : Nat)
  | permission (n : Nat) (answer : Option Bool)
  | clearTab (tabId : Int)
  | clearAll

def Registry.step (platform : Platform) (r : Registry) : ChannelEvent → Registry
  | .connected port => r.accept platform port
  | .message n value => r.message n value
  | .left n => r.pageLeft n
  | .permission n answer => r.permission n answer
  | .clearTab tabId => r.clearTab tabId
  | .clearAll => r.clearAll

def Registry.empty : Registry := ⟨∅, fun _ => none, 0, []⟩

def Registry.run (platform : Platform) (events : List ChannelEvent) : Registry :=
  events.foldl (Registry.step platform) Registry.empty

/-! ## The claim -/

/-- The sender of a port is this extension's content script in the top frame of the tab. -/
structure FromContentScript (platform : Platform) (port : RuntimePort) (a : DocumentPortAuthority) : Prop where
  name : port.name = CONTENT_PORT_NAME
  sender : ∃ sender url site, port.sender = some sender ∧ sender.id = some platform.extensionId ∧
    sender.tab.bind (·.id) = some a.tabId ∧ sender.frameId = some 0 ∧ sender.url = some url ∧
    siteIdentityFromUrl platform url = some site ∧ site.origin = a.origin
  frameId : a.frameId = 0

/-- What an authority vouches for. -/
def Authentic (platform : Platform) (r : Registry) (a : DocumentPortAuthority) : Prop :=
  ∃ channel, r.channels a.port = some channel ∧ channel.disconnected = false ∧ channel.left = false ∧
    FromContentScript platform channel.port a ∧ channel.granted = true ∧
    ∃ message, channel.received = [message] ∧ parseDocumentHello message = some a.documentNonce

structure Sound (platform : Platform) (r : Registry) : Prop where
  unique : ∀ k k' a b, r.documents.lookup k = some a → r.documents.lookup k' = some b →
    a.tabId = b.tabId → a.frameId = b.frameId → k = k' ∧ a = b
  authentic : ∀ tabId frameId documentNonce a, r.authorityFor tabId frameId documentNonce = some a →
    a.tabId = tabId ∧ a.frameId = frameId ∧ a.documentNonce = documentNonce ∧ Authentic platform r a

/-- No message arrives on a port that is bound. -/
def Proper (r : Registry) : ChannelEvent → Prop
  | .message n _ => ∀ k a, r.documents.lookup k = some a → a.port ≠ n
  | _ => True

/-! ## The invariant -/

theorem isDigit_of_mem_repr {n : Nat} {c : Char} (h : c ∈ n.repr.toList) : c.isDigit := by
  rw [Nat.toList_repr] at h
  exact Nat.isDigit_of_mem_toDigits (by omega) (by omega) h

theorem colon_notMem_repr (number : Int) : ':' ∉ number.repr.toList := by
  intro hmem
  cases number with
  | ofNat n => exact absurd (isDigit_of_mem_repr hmem) (by decide)
  | negSucc n =>
    rw [Int.repr, String.toList_append] at hmem
    rcases List.mem_append.1 hmem with h | h
    · exact absurd h (by decide)
    · exact absurd (isDigit_of_mem_repr h) (by decide)

theorem natRepr_inj {m n : Nat} (h : m.repr.toList = n.repr.toList) : m = n := by
  rw [Nat.toList_repr, Nat.toList_repr] at h
  rw [← Nat.ofDigitChars_toDigits (b := 10) (n := m) (by omega) (by omega), h,
    Nat.ofDigitChars_toDigits (by omega) (by omega)]

/-- A sign is no digit. -/
theorem repr_ne_neg (m n : Nat) : m.repr.toList ≠ (Int.negSucc n).repr.toList := by
  intro h
  have hmem : '-' ∈ m.repr.toList := by
    rw [h, Int.repr, String.toList_append]
    exact List.mem_append_left _ (by decide)
  exact absurd (isDigit_of_mem_repr hmem) (by decide)

theorem intRepr_inj : ∀ {a b : Int}, a.repr.toList = b.repr.toList → a = b
  | .ofNat _, .ofNat _, h => congrArg Int.ofNat (natRepr_inj h)
  | .ofNat m, .negSucc n, h => absurd h (repr_ne_neg m n)
  | .negSucc n, .ofNat m, h => absurd h.symm (repr_ne_neg m n)
  | .negSucc m, .negSucc n, h => by
    rw [Int.repr, Int.repr, String.toList_append, String.toList_append] at h
    have hsucc : m + 1 = n + 1 := natRepr_inj (List.append_cancel_left h)
    rw [Nat.succ.inj hsucc]

theorem key_inj {tabId tabId' frameId frameId' : Int}
    (h : Registry.key tabId frameId = Registry.key tabId' frameId') : tabId = tabId' ∧ frameId = frameId' := by
  have hlist : tabId.repr.toList ++ ':' :: frameId.repr.toList =
      tabId'.repr.toList ++ ':' :: frameId'.repr.toList := by
    simpa [Registry.key] using congrArg String.toList h
  obtain ⟨htab, -, hframe⟩ := (List.append_cons_inj_of_notMem (colon_notMem_repr tabId)
    (colon_notMem_repr frameId)).1 hlist
  exact ⟨intRepr_inj htab, intRepr_inj hframe⟩

/-- A port that may still be bound. -/
def Channel.Waiting (channel : Channel) : Prop :=
  channel.closed = false ∧
    (channel.asking = true ∨ channel.permissionResolved = true ∧ channel.firstMessage = none)

/-- A port that is bound. -/
structure Channel.Bound (channel : Channel) (a : DocumentPortAuthority) : Prop where
  closed : channel.closed = false
  asking : channel.asking = false
  disconnected : channel.disconnected = false
  left : channel.left = false
  granted : channel.granted = true
  received : ∃ message, channel.firstMessage = some message ∧ channel.received = [message] ∧
    parseDocumentHello message = some a.documentNonce
  tabId : a.tabId = channel.sender.tabId
  frameId : a.frameId = channel.sender.frameId
  origin : a.origin = channel.sender.origin

structure Inv (platform : Platform) (r : Registry) : Prop where
  keyed : ∀ k a, r.documents.lookup k = some a → k = Registry.key a.tabId a.frameId
  bound : ∀ k a, r.documents.lookup k = some a → ∃ channel, r.channels a.port = some channel ∧ channel.Bound a
  waiting : ∀ n channel, r.channels n = some channel → channel.Waiting →
    channel.disconnected = false ∧ channel.left = false ∧ channel.received = channel.firstMessage.toList ∧
      ∀ k a, r.documents.lookup k = some a → a.port ≠ n
  channel : ∀ n channel, r.channels n = some channel → n < r.nextPort ∧
    Registry.senderAuthority platform channel.port = some channel.sender ∧
    (channel.asking = true → channel.permissionResolved = false) ∧
    (channel.permissionResolved = true → channel.granted = true)

section Registry
variable {platform : Platform} {r : Registry} {n : Nat} {a : DocumentPortAuthority}

theorem fromContentScript_of_senderAuthority {port : RuntimePort} {sender : SenderAuthority}
    (h : Registry.senderAuthority platform port = some sender) (htab : a.tabId = sender.tabId)
    (hframe : a.frameId = sender.frameId) (horigin : a.origin = sender.origin) :
    FromContentScript platform port a := by
  simp only [Registry.senderAuthority, Option.bind_eq_bind, Option.bind_eq_some_iff] at h
  obtain ⟨from', hfrom, tab, htab', tabId, htabId, frameId, hframeId, url, hurl, h⟩ := h
  split_ifs at h with hrefused
  simp only [not_or, not_ne_iff] at hrefused
  obtain ⟨hname, hid, rfl⟩ := hrefused
  obtain ⟨site, hsite, heq⟩ := Option.bind_eq_some_iff.1 h
  obtain rfl := Option.some.inj heq
  refine ⟨hname, ⟨from', url, site, hfrom, hid, ?_, hframeId, hurl, hsite, horigin.symm⟩, hframe⟩
  rw [htab', htab]
  exact htabId

theorem Inv.sound (h : Inv platform r) : Sound platform r where
  unique := by
    intro k k' a b ha hb htab hframe
    have hkeys : k = k' := by rw [h.keyed k a ha, h.keyed k' b hb, htab, hframe]
    subst hkeys
    exact ⟨rfl, Option.some.inj (ha.symm.trans hb)⟩
  authentic := by
    intro tabId frameId documentNonce a ha
    unfold Registry.authorityFor at ha
    split at ha
    case h_2 => cases ha
    case h_1 authority hlookup =>
      split_ifs at ha with hnonce
      obtain rfl := Option.some.inj ha
      obtain ⟨htab, hframe⟩ := key_inj (h.keyed _ _ hlookup)
      obtain ⟨channel, hchannel, hbound⟩ := h.bound _ _ hlookup
      obtain ⟨message, -, hreceived, hparse⟩ := hbound.received
      refine ⟨htab.symm, hframe.symm, hnonce, channel, hchannel, hbound.disconnected, hbound.left, ?_,
        hbound.granted, message, hreceived, hparse⟩
      exact fromContentScript_of_senderAuthority (h.channel _ _ hchannel).2.1 hbound.tabId hbound.frameId
        hbound.origin

/-- The only port a registered authority shares is its own. -/
def Belongs (r : Registry) (a : DocumentPortAuthority) : Prop :=
  ∃ channel, r.channels a.port = some channel ∧ a.tabId = channel.sender.tabId ∧
    a.frameId = channel.sender.frameId

/-- What was registered and is still there. -/
theorem lookup_drop {tabId frameId : Int} {k : String} {b : DocumentPortAuthority}
    (h : (r.drop tabId frameId n).documents.lookup k = some b) : r.documents.lookup k = some b := by
  unfold Registry.drop at h
  split_ifs at h
  · by_cases hk : k = Registry.key tabId frameId
    · rw [hk, AList.lookup_erase] at h
      cases h
    · rwa [AList.lookup_erase_ne hk] at h
  · exact h

/-- A port that is dropped under its own key is registered no more. -/
theorem Inv.port_ne_of_drop (h : Inv platform r) (ha : Belongs r a) {k : String} {b : DocumentPortAuthority}
    (hb : (r.drop a.tabId a.frameId a.port).documents.lookup k = some b) : b.port ≠ a.port := by
  intro hport
  have hlookup := lookup_drop hb
  obtain ⟨channel, hchannel, htab, hframe⟩ := ha
  obtain ⟨channel', hchannel', hbound⟩ := h.bound k b hlookup
  rw [hport, hchannel] at hchannel'
  obtain rfl := Option.some.inj hchannel'
  have hk : k = Registry.key a.tabId a.frameId := by
    rw [h.keyed k b hlookup, hbound.tabId, hbound.frameId, htab, hframe]
  unfold Registry.drop at hb
  rw [← hk, hlookup, Option.map_some, hport, if_pos rfl, AList.lookup_erase] at hb
  cases hb

@[simp] theorem drop_channels {tabId frameId : Int} : (r.drop tabId frameId n).channels = r.channels := by
  unfold Registry.drop
  split_ifs <;> rfl

@[simp] theorem drop_nextPort {tabId frameId : Int} : (r.drop tabId frameId n).nextPort = r.nextPort := by
  unfold Registry.drop
  split_ifs <;> rfl

theorem drop_put {tabId frameId : Int} {m : Nat} {channel : Channel} :
    (r.put n channel).drop tabId frameId m = (r.drop tabId frameId m).put n channel := by
  unfold Registry.drop Registry.put
  dsimp only
  split_ifs <;> rfl

theorem put_channels_self {channel : Channel} : (r.put n channel).channels n = some channel :=
  Function.update_self ..

theorem Inv.changed (h : Inv platform r) (tabId : Int) : Inv platform (r.changed tabId) :=
  ⟨h.keyed, h.bound, h.waiting, h.channel⟩

theorem Inv.drop (h : Inv platform r) (tabId frameId : Int) (n : Nat) :
    Inv platform (r.drop tabId frameId n) where
  keyed k b hb := h.keyed k b (lookup_drop hb)
  bound k b hb := by
    rw [drop_channels]
    exact h.bound k b (lookup_drop hb)
  waiting m channel hchannel hwaits := by
    rw [drop_channels] at hchannel
    obtain ⟨hdisconnected, hleft, hreceived, hports⟩ := h.waiting m channel hchannel hwaits
    exact ⟨hdisconnected, hleft, hreceived, fun k b hb => hports k b (lookup_drop hb)⟩
  channel m channel hchannel := by
    rw [drop_channels] at hchannel
    rw [drop_nextPort]
    exact h.channel m channel hchannel

/-- Nothing is registered for the port. -/
def Unbound (r : Registry) (n : Nat) : Prop := ∀ k a, r.documents.lookup k = some a → a.port ≠ n

/-- The variables of a port that is not bound. -/
structure Consistent (platform : Platform) (channel : Channel) : Prop where
  sender : Registry.senderAuthority platform channel.port = some channel.sender
  asking : channel.asking = true → channel.permissionResolved = false
  granted : channel.permissionResolved = true → channel.granted = true
  waiting : channel.Waiting →
    channel.disconnected = false ∧ channel.left = false ∧ channel.received = channel.firstMessage.toList

theorem Inv.put (h : Inv platform r) (hunbound : Unbound r n) (hlt : n < r.nextPort) {channel : Channel}
    (hchannel : Consistent platform channel) : Inv platform (r.put n channel) where
  keyed := h.keyed
  bound := by
    intro k b hb
    obtain ⟨channel', hchannel', hbound⟩ := h.bound k b hb
    refine ⟨channel', ?_, hbound⟩
    show Function.update _ n _ b.port = _
    rw [Function.update_of_ne (hunbound k b hb), hchannel']
  waiting := by
    intro m channel' hchannel' hwaits
    by_cases hm : m = n
    · subst hm
      simp only [Registry.put, Function.update_self, Option.some.injEq] at hchannel'
      subst hchannel'
      obtain ⟨hdisconnected, hleft, hreceived⟩ := hchannel.waiting hwaits
      exact ⟨hdisconnected, hleft, hreceived, hunbound⟩
    · simp only [Registry.put, Function.update_of_ne hm] at hchannel'
      exact h.waiting m channel' hchannel' hwaits
  channel := by
    intro m channel' hchannel'
    by_cases hm : m = n
    · subst hm
      simp only [Registry.put, Function.update_self, Option.some.injEq] at hchannel'
      subst hchannel'
      exact ⟨hlt, hchannel.sender, hchannel.asking, hchannel.granted⟩
    · simp only [Registry.put, Function.update_of_ne hm] at hchannel'
      exact h.channel m channel' hchannel'

theorem Inv.disconnect (h : Inv platform r) (hunbound : Unbound r n)
    (hwaiting : ∀ channel, r.channels n = some channel → ¬ channel.Waiting) :
    Inv platform (r.disconnect n) := by
  unfold Registry.disconnect
  cases hchannel : r.channels n with
  | none => exact h
  | some channel =>
    obtain ⟨hlt, hsender, hasking, hgranted⟩ := h.channel n channel hchannel
    exact h.put hunbound hlt ⟨hsender, hasking, hgranted, fun hwaits => absurd hwaits (hwaiting channel hchannel)⟩

/-- A port that waits for nothing, under the key it was accepted with. -/
def Settled (r : Registry) (a : DocumentPortAuthority) : Prop :=
  ∃ channel, r.channels a.port = some channel ∧ a.tabId = channel.sender.tabId ∧
    a.frameId = channel.sender.frameId ∧ ¬ channel.Waiting

theorem Channel.Bound.not_waiting {channel : Channel} (h : channel.Bound a) : ¬ channel.Waiting := by
  rintro ⟨-, hasking | ⟨-, hfirst⟩⟩
  · exact absurd (hasking.symm.trans h.asking) (by decide)
  · obtain ⟨message, hmessage, -⟩ := h.received
    exact absurd (hmessage.symm.trans hfirst) (by simp)

theorem Inv.settled (h : Inv platform r) {k : String} (ha : r.documents.lookup k = some a) : Settled r a := by
  obtain ⟨channel, hchannel, hbound⟩ := h.bound k a ha
  exact ⟨channel, hchannel, hbound.tabId, hbound.frameId, hbound.not_waiting⟩

theorem Settled.belongs (h : Settled r a) : Belongs r a := by
  obtain ⟨channel, hchannel, htab, hframe, -⟩ := h
  exact ⟨channel, hchannel, htab, hframe⟩

theorem Inv.retire (h : Inv platform r) (ha : Settled r a) : Inv platform (r.retire a) := by
  refine ((h.drop a.tabId a.frameId a.port).disconnect (fun k b hb => h.port_ne_of_drop ha.belongs hb) ?_).changed _
  intro channel hchannel
  obtain ⟨channel', hchannel', -, -, hwaiting⟩ := ha
  rw [drop_channels, hchannel'] at hchannel
  exact Option.some.inj hchannel ▸ hwaiting

/-- Retiring closes one port and leaves the others as they are. -/
theorem retire_channels (m : Nat) :
    (r.retire a).channels m = if m = a.port then (r.channels m).map fun channel =>
      { channel with disconnected := true } else r.channels m := by
  show ((r.drop a.tabId a.frameId a.port).disconnect a.port).channels m = _
  unfold Registry.disconnect
  rw [drop_channels]
  cases hchannel : r.channels a.port with
  | none =>
    by_cases hm : m = a.port
    · rw [if_pos hm, drop_channels, hm, hchannel, Option.map_none]
    · rw [if_neg hm, drop_channels]
  | some channel =>
    by_cases hm : m = a.port
    · rw [if_pos hm, hm, hchannel]
      simp [Registry.put]
    · rw [if_neg hm]
      simp [Registry.put, Function.update_of_ne hm]

theorem lookup_retire {k : String} {b : DocumentPortAuthority}
    (h : (r.retire a).documents.lookup k = some b) : r.documents.lookup k = some b := by
  have hsame : (r.retire a).documents = (r.drop a.tabId a.frameId a.port).documents := by
    show ((r.drop a.tabId a.frameId a.port).disconnect a.port).documents = _
    unfold Registry.disconnect
    split <;> rfl
  rw [hsame] at h
  exact lookup_drop h

theorem Settled.retire {b : DocumentPortAuthority} (h : Settled r b) : Settled (r.retire a) b := by
  obtain ⟨channel, hchannel, htab, hframe, hwaiting⟩ := h
  by_cases hport : b.port = a.port
  · refine ⟨{ channel with disconnected := true }, ?_, htab, hframe, hwaiting⟩
    rw [retire_channels, if_pos hport, hchannel, Option.map_some]
  · refine ⟨channel, ?_, htab, hframe, hwaiting⟩
    rw [retire_channels, if_neg hport, hchannel]

theorem Inv.retire_all (h : Inv platform r) {list : List DocumentPortAuthority}
    (hlist : ∀ a ∈ list, Settled r a) : Inv platform (list.foldl Registry.retire r) := by
  induction list generalizing r with
  | nil => exact h
  | cons a list ih =>
    refine ih (h.retire (hlist a List.mem_cons_self)) fun b hb => ?_
    exact (hlist b (List.mem_cons_of_mem _ hb)).retire

theorem Inv.settled_values (h : Inv platform r) (ha : a ∈ r.values) : Settled r a := by
  obtain ⟨⟨k, a⟩, hmem, rfl⟩ := List.mem_map.1 ha
  exact h.settled (AList.mem_lookup_iff.2 hmem)

/-- A port with its permission and its first message, about to be bound. -/
structure Ready (r : Registry) (n : Nat) (channel : Channel) (message : JsValue) : Prop where
  channels : r.channels n = some channel
  unbound : Unbound r n
  closed : channel.closed = false
  asking : channel.asking = false
  disconnected : channel.disconnected = false
  left : channel.left = false
  granted : channel.granted = true
  firstMessage : channel.firstMessage = some message
  received : channel.received = [message]

theorem Ready.retire {channel : Channel} {message : JsValue} (h : Ready r n channel message)
    (ha : a.port ≠ n) : Ready (r.retire a) n channel message where
  channels := by rw [retire_channels, if_neg (Ne.symm ha), h.channels]
  unbound := fun k b hb => h.unbound k b (lookup_retire hb)
  closed := h.closed
  asking := h.asking
  disconnected := h.disconnected
  left := h.left
  granted := h.granted
  firstMessage := h.firstMessage
  received := h.received

theorem Ready.not_waiting {channel : Channel} {message : JsValue} (h : Ready r n channel message) :
    ¬ channel.Waiting := by
  rintro ⟨-, hasking | ⟨-, hfirst⟩⟩
  · exact absurd (hasking.symm.trans h.asking) (by decide)
  · exact absurd (h.firstMessage.symm.trans hfirst) (by simp)

theorem Inv.insert (h : Inv platform r) {channel : Channel} {message : JsValue} {documentNonce : String}
    (hready : Ready r n channel message) (hparse : parseDocumentHello message = some documentNonce) :
    Inv platform
      { r with documents := (r.documents.insert (Registry.key channel.sender.tabId channel.sender.frameId)
          ⟨channel.sender.tabId, channel.sender.frameId, channel.sender.origin, documentNonce, n⟩) } := by
  have hlookup : ∀ k b, (r.documents.insert (Registry.key channel.sender.tabId channel.sender.frameId)
      ⟨channel.sender.tabId, channel.sender.frameId, channel.sender.origin, documentNonce, n⟩).lookup k =
        some b →
      k = Registry.key channel.sender.tabId channel.sender.frameId ∧
          b = ⟨channel.sender.tabId, channel.sender.frameId, channel.sender.origin, documentNonce, n⟩ ∨
        r.documents.lookup k = some b := by
    intro k b hb
    by_cases hk : k = Registry.key channel.sender.tabId channel.sender.frameId
    · subst hk
      rw [AList.lookup_insert] at hb
      exact .inl ⟨rfl, (Option.some.inj hb).symm⟩
    · rw [AList.lookup_insert_ne hk] at hb
      exact .inr hb
  constructor
  case keyed =>
    intro k b hb
    obtain ⟨rfl, rfl⟩ | hb := hlookup k b hb
    · rfl
    · exact h.keyed k b hb
  case bound =>
    intro k b hb
    obtain ⟨rfl, rfl⟩ | hb := hlookup k b hb
    · exact ⟨channel, hready.channels, hready.closed, hready.asking, hready.disconnected, hready.left,
        hready.granted, ⟨message, hready.firstMessage, hready.received, hparse⟩, rfl, rfl, rfl⟩
    · exact h.bound k b hb
  case waiting =>
    intro m channel' hchannel' hwaits
    obtain ⟨hdisconnected, hleft, hreceived, hports⟩ := h.waiting m channel' hchannel' hwaits
    refine ⟨hdisconnected, hleft, hreceived, fun k b hb => ?_⟩
    obtain ⟨rfl, rfl⟩ | hb := hlookup k b hb
    · -- the port that is bound waits for nothing
      intro hn
      have hn : n = m := hn
      subst hn
      exact hready.not_waiting (Option.some.inj (hready.channels.symm.trans hchannel') ▸ hwaits)
    · exact hports k b hb
  case channel => exact h.channel

theorem Inv.bind (h : Inv platform r) {channel : Channel} {message : JsValue}
    (hready : Ready r n channel message) : Inv platform (r.bind n channel.sender message) := by
  unfold Registry.bind
  cases hparse : parseDocumentHello message with
  | none =>
    refine h.disconnect hready.unbound fun channel' hchannel' => ?_
    exact Option.some.inj (hready.channels.symm.trans hchannel') ▸ hready.not_waiting
  | some documentNonce =>
    cases hprevious : r.documents.lookup (Registry.key channel.sender.tabId channel.sender.frameId) with
    | none => exact (h.insert hready hparse).changed _
    | some previous =>
      have hother := hready.unbound _ _ hprevious
      have hne : ¬ (some previous).map (·.port) = some n := fun heq => hother (Option.some.inj heq)
      simp only [if_neg hne]
      exact ((h.retire (h.settled hprevious)).insert (hready.retire hother) hparse).changed _

theorem Inv.unbound_of {channel : Channel} (h : Inv platform r) (hchannel : r.channels n = some channel)
    (hnot : ∀ a, ¬ channel.Bound a) : Unbound r n := by
  intro k b hb hport
  obtain ⟨channel', hchannel', hbound⟩ := h.bound k b hb
  rw [hport, hchannel] at hchannel'
  exact hnot b (Option.some.inj hchannel' ▸ hbound)

theorem Inv.accept (h : Inv platform r) (port : RuntimePort) : Inv platform (r.accept platform port) := by
  have hnext : Inv platform { r with nextPort := r.nextPort + 1 } :=
    ⟨h.keyed, h.bound, h.waiting, fun m channel hchannel =>
      ⟨Nat.lt_succ_of_lt (h.channel m channel hchannel).1, (h.channel m channel hchannel).2⟩⟩
  unfold Registry.accept
  cases hsender : Registry.senderAuthority platform port with
  | none => exact hnext
  | some sender =>
    refine hnext.put (fun k b hb hport => ?_) (Nat.lt_succ_self _)
      ⟨hsender, fun _ => rfl, fun hresolved => absurd hresolved (by simp), fun _ => ⟨rfl, rfl, rfl⟩⟩
    obtain ⟨channel, hchannel, -⟩ := h.bound k b hb
    rw [hport] at hchannel
    exact Nat.lt_irrefl _ (h.channel _ _ hchannel).1

theorem Inv.message (h : Inv platform r) {value : JsValue} (hproper : Unbound r n) :
    Inv platform (r.message n value) := by
  unfold Registry.message
  cases hchannel : r.channels n with
  | none => exact h
  | some channel =>
    obtain ⟨hlt, hsender, hasking, hgranted⟩ := h.channel n channel hchannel
    dsimp only
    split
    case isTrue hclosed =>
      exact h.put hproper hlt ⟨hsender, hasking, hgranted, fun hwaits => absurd hwaits.1 (by simp [hclosed])⟩
    case isFalse hclosed =>
      have hclosed : channel.closed = false := eq_false_of_ne_true hclosed
      split
      case h_1 first hfirst =>
        exact h.put hproper hlt ⟨hsender, hasking, hgranted, fun hwaits => absurd hwaits.1 (by simp)⟩
      case h_2 hfirst =>
        have hput : Consistent platform { channel with
            received := channel.received ++ [value], firstMessage := some value } := by
          refine ⟨hsender, hasking, hgranted, ?_⟩
          rintro ⟨-, hasks | ⟨-, hnone⟩⟩
          · obtain ⟨hdisconnected, hleft, hreceived, -⟩ := h.waiting n channel hchannel ⟨hclosed, .inl hasks⟩
            rw [hfirst] at hreceived
            exact ⟨hdisconnected, hleft, by simp [hreceived]⟩
          · cases hnone
        split
        case isFalse => exact h.put hproper hlt hput
        case isTrue hresolved =>
          obtain ⟨hdisconnected, hleft, hreceived, -⟩ :=
            h.waiting n channel hchannel ⟨hclosed, .inr ⟨hresolved, hfirst⟩⟩
          have hnotAsking : channel.asking = false := by
            apply eq_false_of_ne_true
            intro hasks
            exact absurd ((hasking hasks).symm.trans hresolved) (by decide)
          rw [hfirst] at hreceived
          have hready : Ready (r.put n { channel with
              received := channel.received ++ [value], firstMessage := some value }) n _ value :=
            ⟨put_channels_self, hproper, hclosed, hnotAsking, hdisconnected, hleft, hgranted hresolved,
              rfl, by simp [hreceived]⟩
          have hbound := (h.put hproper hlt hput).bind hready
          exact hbound

theorem Inv.pageLeft (h : Inv platform r) : Inv platform (r.pageLeft n) := by
  unfold Registry.pageLeft
  cases hchannel : r.channels n with
  | none => exact h
  | some channel =>
    obtain ⟨hlt, hsender, hasking, hgranted⟩ := h.channel n channel hchannel
    have hbelongs : Belongs r ⟨channel.sender.tabId, channel.sender.frameId, "", "", n⟩ :=
      ⟨channel, hchannel, rfl, rfl⟩
    show Inv platform (((r.put n _).drop _ _ n).changed _)
    rw [drop_put]
    refine ((h.drop _ _ n).put (fun k b hb => h.port_ne_of_drop hbelongs hb) ?_ ?_).changed _
    · rw [drop_nextPort]
      exact hlt
    · exact ⟨hsender, hasking, hgranted, fun hwaits => absurd hwaits.1 (by simp)⟩

theorem Inv.permission (h : Inv platform r) {answer : Option Bool} :
    Inv platform (r.permission n answer) := by
  unfold Registry.permission
  cases hchannel : r.channels n with
  | none => exact h
  | some channel =>
    obtain ⟨hlt, hsender, hasking, hgranted⟩ := h.channel n channel hchannel
    dsimp only
    split
    case isFalse => exact h
    case isTrue hasks =>
      have hunbound : Unbound r n := by
        refine h.unbound_of hchannel fun a hbound => ?_
        exact absurd (hasks.symm.trans hbound.asking) (by decide)
      -- without the permission the port waits for nothing more
      have hrefused : ∀ granted, ¬ Channel.Waiting { channel with asking := false, granted := granted } := by
        rintro granted ⟨-, hasks' | ⟨hresolved, -⟩⟩
        · cases hasks'
        · exact absurd ((hasking hasks).symm.trans hresolved) (by decide)
      have hput : ∀ granted, Inv platform (r.put n { channel with asking := false, granted := granted }) := by
        intro granted
        refine h.put hunbound hlt ⟨hsender, fun hasks => (by cases hasks), ?_, fun hwaits =>
          absurd hwaits (hrefused granted)⟩
        intro hresolved
        exact absurd ((hasking hasks).symm.trans hresolved) (by decide)
      have hdisconnect : ∀ granted,
          Inv platform ((r.put n { channel with asking := false, granted := granted }).disconnect n) := by
        intro granted
        refine (hput granted).disconnect hunbound fun channel' hchannel' => ?_
        simp only [Registry.put, Function.update_self, Option.some.injEq] at hchannel'
        exact hchannel' ▸ hrefused granted
      split
      case h_1 => exact hdisconnect _
      case h_2 permitted =>
        split
        case isTrue => exact hput _
        case isFalse hclosed =>
          have hclosed : channel.closed = false := eq_false_of_ne_true hclosed
          split
          case isFalse => exact hdisconnect _
          case isTrue hpermitted =>
            obtain ⟨hdisconnected, hleft, hreceived, -⟩ := h.waiting n channel hchannel ⟨hclosed, .inl hasks⟩
            have hgrant : Inv platform (r.put n { channel with
                asking := false, granted := some permitted = some true, permissionResolved := true }) := by
              refine h.put hunbound hlt ⟨hsender, fun hasks => (by cases hasks), fun _ => ?_, fun _ =>
                ⟨hdisconnected, hleft, hreceived⟩⟩
              simp [hpermitted]
            split
            case h_2 => exact hgrant
            case h_1 message hfirst =>
              have hfirst : channel.firstMessage = some message := hfirst
              rw [hfirst] at hreceived
              have hready : Ready (r.put n { channel with
                  asking := false, granted := some permitted = some true, permissionResolved := true }) n _
                  message :=
                ⟨put_channels_self, hunbound, hclosed, rfl, hdisconnected, hleft, by simp [hpermitted],
                  hfirst, hreceived⟩
              have hbound := hgrant.bind hready
              exact hbound

/-- A step keeps the invariant unless a message arrives where none should. -/
theorem Inv.step (h : Inv platform r) {event : ChannelEvent} (hproper : Proper r event) :
    Inv platform (r.step platform event) := by
  cases event with
  | connected port => exact h.accept port
  | message n value => exact h.message hproper
  | left n => exact h.pageLeft
  | permission n answer => exact h.permission
  | clearTab tabId =>
    refine h.retire_all fun a ha => ?_
    exact h.settled_values (List.mem_filter.1 ha).1
  | clearAll => exact h.retire_all fun a ha => h.settled_values ha

/-- A second message on a bound port leaves an authority without a port. -/
theorem Inv.not_sound (h : Inv platform r) {event : ChannelEvent} (hproper : ¬ Proper r event) :
    ¬ Sound platform (r.step platform event) := by
  cases event with
  | message n value =>
    simp only [Proper, not_forall, not_not] at hproper
    obtain ⟨k, a, ha, rfl⟩ := hproper
    obtain ⟨channel, hchannel, hbound⟩ := h.bound k a ha
    obtain ⟨first, hfirst, -⟩ := hbound.received
    have hstep : r.step platform (.message a.port value) = r.put a.port { channel with
        received := channel.received ++ [value], closed := true, disconnected := true } := by
      simp [Registry.step, Registry.message, hchannel, hbound.closed, hfirst]
    have hfound : (r.step platform (.message a.port value)).authorityFor a.tabId a.frameId a.documentNonce =
        some a := by
      rw [hstep, Registry.authorityFor]
      show (match r.documents.lookup _ with | some authority => _ | none => _) = _
      rw [← h.keyed k a ha, ha]
      simp
    intro hsound
    obtain ⟨channel', hchannel', hdisconnected, -⟩ := (hsound.authentic _ _ _ _ hfound).2.2.2
    rw [hstep] at hchannel'
    simp only [Registry.put, Function.update_self, Option.some.injEq] at hchannel'
    subst hchannel'
    cases hdisconnected
  | _ => exact absurd trivial hproper

/-- The events before every step are proper. -/
def ProperRun (platform : Platform) (events : List ChannelEvent) : Prop :=
  ∀ before event, before ++ [event] <+: events → Proper (Registry.run platform before) event

theorem run_concat (before : List ChannelEvent) (event : ChannelEvent) :
    Registry.run platform (before ++ [event]) = (Registry.run platform before).step platform event := by
  rw [Registry.run, List.foldl_append]
  rfl

theorem inv_empty : Inv platform Registry.empty where
  keyed k a h := by cases h
  bound k a h := by cases h
  waiting n channel h := by cases h
  channel n channel h := by cases h

theorem inv_run {events : List ChannelEvent} (h : ProperRun platform events) :
    Inv platform (Registry.run platform events) := by
  induction events using List.reverseRecOn with
  | nil => exact inv_empty
  | append_singleton before event ih =>
    rw [run_concat]
    refine (ih fun before' event' hpre => ?_).step (h before event List.prefix_rfl)
    exact h before' event' (hpre.trans (List.prefix_append _ _))

/-- A run along which every authority is sound. -/
theorem properRun_of_sound {events : List ChannelEvent}
    (h : ∀ before, before <+: events → Sound platform (Registry.run platform before)) :
    ProperRun platform events := by
  induction events using List.reverseRecOn with
  | nil =>
    intro before event hpre
    simp at hpre
  | append_singleton events last ih =>
    have hbefore := ih fun before hpre => h before (hpre.trans (List.prefix_append _ _))
    intro before event hpre
    rcases List.prefix_concat_iff.1 hpre with heq | hpre
    · obtain ⟨rfl, hevent⟩ := List.append_inj heq (by simpa using congrArg List.length heq)
      obtain rfl := List.singleton_inj.1 hevent
      by_contra hproper
      refine (inv_run hbefore).not_sound hproper ?_
      rw [← run_concat]
      exact h _ List.prefix_rfl
    · exact hbefore before event hpre

/-- Through a whole run every authority is sound exactly if no port that is bound gets a second
message. -/
theorem registry_sound_iff (platform : Platform) (events : List ChannelEvent) :
    (∀ before, before <+: events → Sound platform (Registry.run platform before)) ↔
      ∀ before event, before ++ [event] <+: events → Proper (Registry.run platform before) event := by
  constructor
  · exact properRun_of_sound
  · intro hproper before hpre
    refine (inv_run fun before' event' hpre' => ?_).sound
    exact hproper before' event' (hpre'.trans hpre)

/-- Every address belongs to one site. -/
def oneSitePlatform : Platform where
  parseUrl := fun _ => some ⟨"https:", "example.com", "", "", "https://example.com"⟩
  extensionId := "nian-pass-test"
  popupUrl := "popup.html"

def samplePort : RuntimePort :=
  ⟨CONTENT_PORT_NAME, some ⟨some "nian-pass-test", some "https://example.com/login", some 0, some ⟨some 7, none⟩⟩⟩

def sampleNonce : String := "aaaaaaaaaaaaaaaaaaaaaaaaaaaaaaaa"

def sampleHello : JsValue :=
  .object [("protocolVersion", .number (.integer 1)), ("type", .string "documentHello"),
    ("documentNonce", .string sampleNonce)]

/-- A page that says hello twice. -/
def sampleTwice : List ChannelEvent :=
  [.connected samplePort, .message 0 sampleHello, .permission 0 (some true), .message 0 sampleHello]

/-- The registry has closed the port and still vouches for it. -/
theorem registry_vouches_for_closed :
    (Registry.run oneSitePlatform sampleTwice).authorityFor 7 0 sampleNonce =
        some ⟨7, 0, "https://example.com", sampleNonce, 0⟩ ∧
      ((Registry.run oneSitePlatform sampleTwice).channels 0).map (·.disconnected) = some true ∧
      ¬ Sound oneSitePlatform (Registry.run oneSitePlatform sampleTwice) := by
  have hfound : (Registry.run oneSitePlatform sampleTwice).authorityFor 7 0 sampleNonce =
      some ⟨7, 0, "https://example.com", sampleNonce, 0⟩ := by decide +kernel
  have hclosed : ((Registry.run oneSitePlatform sampleTwice).channels 0).map (·.disconnected) = some true := by
    decide +kernel
  refine ⟨hfound, hclosed, fun hsound => ?_⟩
  obtain ⟨channel, hchannel, hdisconnected, -⟩ := (hsound.authentic _ _ _ _ hfound).2.2.2
  rw [hchannel, Option.map_some, hdisconnected] at hclosed
  cases hclosed

end Registry

end NianPass.Browser
