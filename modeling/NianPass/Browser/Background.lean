import NianPass.Browser.Channel
import NianPass.Native.Client

/-
  The background page of the extension: `background.ts` with `BackgroundAuthority`,
  `NativeClient`, `CandidateAuthorityStore` and `BrowserIntegration`.

  Everything runs to completion between two answers of the browser, so a step is one
  event together with all that follows from it without waiting: a function that awaits
  is a flow that stands at its next question. Any number of flows stand at theirs at a
  time, and their answers come in any order, or never.

  Tokens are drawn from a stream. What was issued and what was posted, and the state of
  the page at these two moments, is recorded.
-/
namespace NianPass.Browser

open Native (NativeCandidate NativeAnswer NativeResponse DesktopConnectionState)

structure StoredPageState where
  documentNonce : String
  origin : String
  detected : Bool
  fillTarget : Option FillTarget
deriving DecidableEq

/-- A tab and the site it shows. -/
structure Site where
  tabId : Int
  origin : String
  pattern : String
deriving DecidableEq

structure ActiveCredentialContext where
  tabId : Int
  origin : String
  permissionPattern : String
  documentNonce : String
  fillTarget : FillTarget
deriving DecidableEq

structure CurrentCredentialContext where
  page : ActiveCredentialContext
  channel : DocumentPortAuthority
  nativeGeneration : String
deriving DecidableEq

structure CandidateAuthority where
  entryId : String
  vaultSessionId : String
  tabId : Int
  origin : String
  documentNonce : String
  usernameFieldHandle : Option String
  passwordFieldHandle : String
  contentPort : Nat
  nativeGeneration : String
deriving DecidableEq

def candidateMatches (candidate : CandidateAuthority) (current : CurrentCredentialContext) : Bool :=
  candidate.tabId = current.page.tabId && candidate.origin = current.page.origin &&
    candidate.documentNonce = current.page.documentNonce &&
    candidate.usernameFieldHandle = current.page.fillTarget.usernameFieldHandle &&
    candidate.passwordFieldHandle = current.page.fillTarget.passwordFieldHandle &&
    candidate.contentPort = current.channel.port && candidate.nativeGeneration = current.nativeGeneration

/-- The comparison of `#matchesCurrent`. -/
def matchesCurrent (expected current : CurrentCredentialContext) : Bool :=
  current.page.tabId = expected.page.tabId && current.page.origin = expected.page.origin &&
    current.page.documentNonce = expected.page.documentNonce &&
    current.page.fillTarget.usernameFieldHandle = expected.page.fillTarget.usernameFieldHandle &&
    current.page.fillTarget.passwordFieldHandle = expected.page.fillTarget.passwordFieldHandle &&
    current.channel.port = expected.channel.port && current.nativeGeneration = expected.nativeGeneration

/-- The kind of a request, with what it asks for. -/
inductive RequestKind where
  | connect
  | candidates (origin : String)
  | credential (origin vaultSessionId entryId : String)
deriving DecidableEq

def RequestKind.plain : RequestKind → Native.RequestKind
  | .connect => .connect
  | .candidates _ => .candidates
  | .credential _ _ _ => .credential

structure PendingRequest where
  generation : String
  kind : RequestKind
  flow : Nat
deriving DecidableEq

structure NativeClient where
  port : Option Nat
  generation : Option String
  state : DesktopConnectionState
  pending : AList fun _ : String => PendingRequest
  /-- the generation each native port was opened with -/
  opened : Nat → Option String
  nextPort : Nat

/-- What a flow waits for. -/
inductive Question where
  | activeTab
  | containsOrigin (site : Site)
  | native (requestId : String)
deriving DecidableEq

/-- What a flow does with the answer. -/
inductive Task where
  | page (message : PageStateChanged)
  | connect
  | list
  | listed (context : CurrentCredentialContext) (listing : String)
  | confirm (context : CurrentCredentialContext) (answer : NativeAnswer)
  | fill (handle : String) (candidate : CandidateAuthority)
  | requested (handle : String) (candidate : CandidateAuthority)
  | deliver (handle : String) (candidate : CandidateAuthority) (requestId username password : String)
deriving DecidableEq

structure Flow where
  task : Task
  question : Question
deriving DecidableEq

structure ApplyCredential where
  documentNonce : String
  usernameFieldHandle : Option String
  passwordFieldHandle : String
  username : String
  password : String
deriving DecidableEq

/-- A candidate handed out, with what was bound to its tab at that moment. -/
structure Issue where
  handle : String
  vaultSessionId : String
  entryId : String
  bound : Option DocumentPortAuthority
  page : Option StoredPageState
  generation : Option String
  /-- how often the native connection had changed -/
  epoch : Nat
deriving DecidableEq

/-- A credential sent to a page. -/
structure Post where
  handle : String
  port : Nat
  message : ApplyCredential
  requestId : String
  bound : Option DocumentPortAuthority
  generation : Option String
  epoch : Nat
deriving DecidableEq

/-- A request sent to the desktop. -/
structure Request where
  requestId : String
  generation : String
  kind : RequestKind
deriving DecidableEq

structure Background where
  registry : Registry
  pages : Int → Option StoredPageState
  native : NativeClient
  candidates : String → Option CandidateAuthority
  listings : Int → Option String
  vaultSessionId : Option String
  flows : Nat → Option Flow
  nextFlow : Nat
  drawn : Nat
  epoch : Nat
  issued : List Issue
  posted : List Post
  requests : List Request
  received : List (String × NativeResponse)

/-- The environment of a background page: the platform and its random source. -/
structure Env where
  platform : Platform
  token : Nat → String

namespace Background
variable (env : Env) (s : Background)

def randomToken : String × Background := (env.token s.drawn, { s with drawn := s.drawn + 1 })

def setFlow (n : Nat) (flow : Option Flow) : Background := { s with flows := Function.update s.flows n flow }

/-- A new flow and its first question. -/
def start (task : Task) (question : Question) : Background :=
  { s.setFlow s.nextFlow (some ⟨task, question⟩) with nextFlow := s.nextFlow + 1 }

/-! ## Candidates -/

def clearCandidates (tabId : Int) : Background :=
  { s with candidates := fun handle => (s.candidates handle).filter (·.tabId ≠ tabId),
           listings := Function.update s.listings tabId none }

def clearAllCandidates : Background :=
  { s with candidates := fun _ => none, listings := fun _ => none, vaultSessionId := none }

def replaceVaultSession (vaultSessionId : String) : Background :=
  if s.vaultSessionId ≠ none ∧ s.vaultSessionId ≠ some vaultSessionId then
    { s with candidates := fun _ => none, vaultSessionId := some vaultSessionId }
  else { s with vaultSessionId := some vaultSessionId }

/-- Draws until the handle is free. -/
def freeHandle : Nat → Background → Option (String × Background)
  | 0, _ => none
  | fuel + 1, s =>
    let (handle, s) := s.randomToken env
    if (s.candidates handle).isSome then freeHandle fuel s else some (handle, s)

def authorize (vaultSessionId : String) (context : CurrentCredentialContext) (native : NativeCandidate) :
    Background :=
  -- a stream without repetition gives a free handle at once
  match freeHandle env (s.drawn + 1) s with
  | none => s
  | some (handle, s) =>
    { s with
      candidates := (Function.update s.candidates handle (some {
        entryId := native.entryId
        vaultSessionId := vaultSessionId
        tabId := context.page.tabId
        origin := context.page.origin
        documentNonce := context.page.documentNonce
        usernameFieldHandle := context.page.fillTarget.usernameFieldHandle
        passwordFieldHandle := context.page.fillTarget.passwordFieldHandle
        contentPort := context.channel.port
        nativeGeneration := context.nativeGeneration }))
      issued := s.issued ++ [{
        handle
        vaultSessionId
        entryId := native.entryId
        bound := s.registry.documents.lookup (Registry.key context.page.tabId 0)
        page := s.pages context.page.tabId
        generation := s.native.generation
        epoch := s.epoch }] }

/-! ## Flows -/

/-- The end of `#currentContext`: what the page, the connection and the channel are now. -/
def currentContext (site : Site) : Option CurrentCredentialContext := do
  let page ← (s.pages site.tabId).filter (·.origin = site.origin)
  let fillTarget ← page.fillTarget
  let nativeGeneration ← s.native.generation
  let channel ← s.registry.authorityFor site.tabId 0 page.documentNonce
  if channel.origin = site.origin then
    some ⟨⟨site.tabId, site.origin, site.pattern, page.documentNonce, fillTarget⟩, channel, nativeGeneration⟩
  else none

/-- What follows a request the desktop does not answer. -/
def giveUp (n : Nat) (task : Task) : Background :=
  let s := s.setFlow n none
  match task with
  | .connect => { s with native := { s.native with state := .disconnected } }
  | _ => s

def unanswered (n : Nat) : Background :=
  match s.flows n with
  | some flow => s.giveUp n flow.task
  | none => s

/-- `#request`, for the flow that will wait. `posts` is false if the native port refuses the message. -/
def request (n : Nat) (task : Task) (kind : RequestKind) (posts : Bool) : Background :=
  match s.native.port, s.native.generation with
  | some _, some generation =>
    let (requestId, s) := s.randomToken env
    if posts then
      { s.setFlow n (some ⟨task, .native requestId⟩) with
        native := { s.native with pending := s.native.pending.insert requestId ⟨generation, kind, n⟩ }
        requests := s.requests ++ [⟨requestId, generation, kind⟩] }
    else s.giveUp n task
  | _, _ => s.giveUp n task

/-- `connect`: `connects` is false if the browser refuses the native port. -/
def connect (connects posts : Bool) : Background :=
  if s.native.port.isSome then s
  else if connects then
    let (generation, s) := s.randomToken env
    let s := { s with
      native := { s.native with
        port := some s.native.nextPort, generation := some generation, state := .waiting
        opened := Function.update s.native.opened s.native.nextPort (some generation)
        nextPort := s.native.nextPort + 1 }
      epoch := s.epoch + 1, nextFlow := s.nextFlow + 1 }
    s.request env (s.nextFlow - 1) .connect .connect posts
  else { s with native := { s.native with state := .disconnected } }

/-- The flow goes on with the context it has asked for. -/
def resume (n : Nat) (task : Task) (context : Option CurrentCredentialContext) (posts : Bool) : Background :=
  match task, context with
  | .list, some context =>
    let s := s.clearCandidates context.page.tabId
    let (listing, s) := s.randomToken env
    let s := { s with listings := Function.update s.listings context.page.tabId (some listing) }
    s.request env n (.listed context listing) (.candidates context.page.origin) posts
  | .confirm expected answer, some context =>
    let s := s.setFlow n none
    if matchesCurrent expected context then
      match answer with
      | .error .locked => s.clearAllCandidates
      | .candidates vaultSessionId candidates _ =>
        candidates.foldl (fun s native => s.authorize env vaultSessionId expected native)
          (s.replaceVaultSession vaultSessionId)
      | _ => s
    else s
  | .fill handle candidate, some context =>
    if candidateMatches candidate context && decide (s.native.generation = some candidate.nativeGeneration) then
      s.request env n (.requested handle candidate)
        (.credential candidate.origin candidate.vaultSessionId candidate.entryId) posts
    else s.setFlow n none
  | .deliver handle candidate requestId username password, some context =>
    let s := s.setFlow n none
    if candidateMatches candidate context then
      -- a port that is disconnected refuses the message
      if (s.registry.channels context.channel.port).any (fun channel => !channel.disconnected) then
        { s with posted := s.posted ++ [{
            handle
            port := context.channel.port
            message := ⟨candidate.documentNonce, candidate.usernameFieldHandle, candidate.passwordFieldHandle,
              username, password⟩
            requestId
            bound := s.registry.documents.lookup (Registry.key candidate.tabId 0)
            generation := s.native.generation
            epoch := s.epoch }] }
      else s
    else s
  | _, _ => s.setFlow n none

/-- The flow goes on with the answer of the desktop. -/
def resolve (n : Nat) (requestId : String) (answer : NativeAnswer) : Background :=
  match s.flows n with
  | some ⟨.connect, _⟩ =>
    let s := s.setFlow n none
    match answer with
    | .connected locked => { s with native := { s.native with state := if locked then .locked else .ready } }
    | _ => { s with native := { s.native with state := .disconnected } }
  | some ⟨.listed context listing, _⟩ =>
    if s.native.generation = some context.nativeGeneration ∧ s.listings context.page.tabId = some listing then
      s.setFlow n (some ⟨.confirm context answer, .activeTab⟩)
    else s.setFlow n none
  | some ⟨.requested handle candidate, _⟩ =>
    match answer with
    | .credential username password =>
      if s.native.generation = some candidate.nativeGeneration then
        s.setFlow n (some ⟨.deliver handle candidate requestId username password, .activeTab⟩)
      else s.setFlow n none
    | _ => s.setFlow n none
  | _ => s

/-! ## Events -/

/-- The registry tells which tabs have changed, and their candidates go. -/
def channelStep (event : ChannelEvent) : Background :=
  let registry := s.registry.step env.platform event
  registry.changes.foldl clearCandidates { s with registry := { registry with changes := [] } }

structure ActiveTab where
  id : Option Int
  url : Option String
deriving DecidableEq

def siteOf (tab : Option ActiveTab) : Option Site := do
  let tab ← tab
  let id ← tab.id
  let url ← tab.url
  let site ← siteIdentityFromUrl env.platform url
  some ⟨id, site.origin, site.pattern⟩

/-- `queryActiveTab` answers, or fails. -/
def tabAnswer (n : Nat) (answer : Option (Option ActiveTab)) (posts : Bool) : Background :=
  match s.flows n with
  | some ⟨task, .activeTab⟩ =>
    match answer with
    | none => s.setFlow n none
    | some tab =>
      match siteOf env tab with
      | none => s.resume env n task none posts
      | some site => s.setFlow n (some ⟨task, .containsOrigin site⟩)
  | _ => s

/-- `containsOrigin` answers, or fails. -/
def permissionAnswer (n : Nat) (answer : Option Bool) (posts : Bool) : Background :=
  match s.flows n with
  | some ⟨task, .containsOrigin site⟩ =>
    match answer with
    | none => s.setFlow n none
    | some permitted =>
      match task with
      | .page message =>
        let s := s.setFlow n none
        if permitted then
          { s with pages := Function.update s.pages site.tabId
                     (some ⟨message.documentNonce, site.origin, message.hasLoginForm, message.fillTarget⟩) }
        else s
      | task => s.resume env n task (if permitted then s.currentContext site else none) posts
  | _ => s

/-- `#acceptPageState`, up to its question. -/
def pageState (message : JsValue) (sender : MessageSender) : Background :=
  match parsePageStateChanged message with
  | none => s
  | some message =>
    let site := do
      let tabId ← sender.tab.bind (·.id)
      let url ← sender.url <|> sender.tab.bind (·.url)
      if sender.id ≠ some env.platform.extensionId ∨ sender.frameId ≠ some 0 then none
      else do
        let site ← siteIdentityFromUrl env.platform url
        some (Site.mk tabId site.origin site.pattern)
    match site with
    | some site => s.start (.page message) (.containsOrigin site)
    | none => s

def listCandidates : Background :=
  if s.native.generation = none then s else s.start .list .activeTab

/-- `#fill`, up to its first question: the handle is gone whatever follows. -/
def fill (handle : String) : Background :=
  match s.candidates handle with
  | none => s
  | some candidate =>
    { s with candidates := Function.update s.candidates handle none }.start (.fill handle candidate) .activeTab

/-- A message of a native port; `none` does not parse. -/
def nativeMessage (port : Nat) (message : Option NativeResponse) : Background :=
  if s.native.port ≠ some port ∨ s.native.generation ≠ s.native.opened port then s
  else
    match message, s.native.opened port with
    | some response, some generation =>
      let s := { s with received := s.received ++ [(generation, response)] }
      match s.native.pending.lookup response.requestId with
      | some pending =>
        if pending.generation = generation ∧ response.answer ≠ .approvalPending ∧
            pending.kind.plain.expects response.answer then
          { s with native := { s.native with pending := s.native.pending.erase response.requestId } }.resolve
            pending.flow response.requestId response.answer
        else s
      | none => s
    | _, _ => s

/-- The end of a native port. -/
def nativeLeft (port : Nat) : Background :=
  if s.native.port ≠ some port ∨ s.native.generation ≠ s.native.opened port then s
  else
    let abandoned := s.native.pending.entries.filter (fun entry => some entry.2.generation = s.native.generation)
    let s' := { s with
      native := { s.native with
        port := none, generation := none, state := .disconnected
        pending := (abandoned.map Sigma.fst).foldl (fun pending requestId => pending.erase requestId) s.native.pending }
      epoch := s.epoch + 1 }
    -- the flows hear of it after the candidates are gone
    (abandoned.map (·.2.flow)).foldl unanswered s'.clearAllCandidates

def timeout (requestId generation : String) : Background :=
  match s.native.pending.lookup requestId with
  | some pending =>
    if pending.generation = generation then
      { s with native := { s.native with pending := s.native.pending.erase requestId } }.unanswered pending.flow
    else s
  | none => s

/-- `tabs.onRemoved`, and `tabs.onUpdated` for a tab that loads. -/
def tabGone (tabId : Int) : Background :=
  let s := { s with pages := Function.update s.pages tabId none }
  (s.channelStep env (.clearTab tabId)).clearCandidates tabId

/-- `permissions.onRemoved` -/
def permissionsRemoved : Background :=
  let s := { s with pages := fun _ => none }
  (s.channelStep env .clearAll).clearAllCandidates

end Background

inductive Event where
  | channel (event : ChannelEvent)
  | pageState (message : JsValue) (sender : MessageSender)
  | connect (connects posts : Bool)
  | listCandidates
  | fill (handle : String)
  | tabAnswer (n : Nat) (answer : Option (Option Background.ActiveTab)) (posts : Bool)
  | permissionAnswer (n : Nat) (answer : Option Bool) (posts : Bool)
  | nativeMessage (port : Nat) (message : Option NativeResponse)
  | nativeLeft (port : Nat)
  | timeout (requestId generation : String)
  | tabGone (tabId : Int)
  | permissionsRemoved

namespace Background

def step (env : Env) (s : Background) : Event → Background
  | .channel event => s.channelStep env event
  | .pageState message sender => s.pageState env message sender
  | .connect connects posts => s.connect env connects posts
  | .listCandidates => s.listCandidates
  | .fill handle => s.fill handle
  | .tabAnswer n answer posts => s.tabAnswer env n answer posts
  | .permissionAnswer n answer posts => s.permissionAnswer env n answer posts
  | .nativeMessage port message => s.nativeMessage port message
  | .nativeLeft port => s.nativeLeft port
  | .timeout requestId generation => s.timeout requestId generation
  | .tabGone tabId => s.tabGone env tabId
  | .permissionsRemoved => s.permissionsRemoved env

def initial : Background where
  registry := Registry.empty
  pages := fun _ => none
  native := ⟨none, none, .disconnected, ∅, fun _ => none, 0⟩
  candidates := fun _ => none
  listings := fun _ => none
  vaultSessionId := none
  flows := fun _ => none
  nextFlow := 0
  drawn := 0
  epoch := 0
  issued := []
  posted := []
  requests := []
  received := []

def run (env : Env) (events : List Event) : Background := events.foldl (step env) initial

end Background

end NianPass.Browser
