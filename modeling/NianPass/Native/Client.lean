import NianPass.Native.Messages

/-
  `NativeClient` of `background-native.ts`: one connection to the native host at a time,
  with the requests that wait for an answer on it.

  Everything runs to completion between two events, so an event carries with it what
  follows of the promises it settles: only `connect` goes on after its promise. A browser
  delivers nothing more on a port either end has disconnected, refuses to post on it, and
  tells the disconnection to the other end only.

  What is proved:
    1. `connection_recovers_iff`: the connection recovers from every close of its port
       exactly in the runs in which the client never closes a port that is still its own.
    2. `connection_stuck`: a run with one denied connection, where nothing helps any more.
-/
namespace NianPass.Native

open Browser

/-- An entry of `#pending`, with what its closures hold: the port and the promise. -/
structure PendingRequest where
  requestId : String
  generation : String
  kind : RequestKind
  timer : Nat
  port : Nat
  promise : Nat
deriving DecidableEq

/-- A promise that was resolved; `none` is the `null` of a rejection. -/
structure Settlement where
  promise : Nat
  response : Option NativeResponse
deriving DecidableEq

inductive DesktopConnectionState where
  | disconnected | waiting | locked | ready
deriving DecidableEq

structure NativeClient where
  port : Option Nat := none
  generation : Option String := none
  state : DesktopConnectionState := .disconnected
  pending : List PendingRequest := []
  /-- the ports that were opened, with the generation their listeners hold -/
  opened : List String := []
  /-- the ports the client has called `disconnect` on -/
  closed : List Nat := []
  /-- the ports that are disconnected, by either end -/
  gone : List Nat := []
  /-- the timers that are set, with what they hold -/
  timers : Nat → Option (String × String) := fun _ => none
  nextTimer : Nat := 0
  promises : Nat := 0
  settled : List Settlement := []
  posted : List (Nat × NativeRequest) := []
  drawn : Nat := 0

/-- The random source. -/
abbrev Random := Nat → Fin 16 → UInt8

/-- The answers that fit a request, an error among them. -/
def RequestKind.expects : RequestKind → NativeAnswer → Bool
  | _, .error _ => true
  | .connect, .connected _ => true
  | .candidates, .candidates _ _ _ => true
  | .credential, .credential _ _ => true
  | _, _ => false

namespace NativeClient
variable (random : Random) (s : NativeClient)

def get (requestId : String) : Option PendingRequest := s.pending.find? (·.requestId = requestId)

def delete (requestId : String) : NativeClient :=
  { s with pending := s.pending.filter (·.requestId ≠ requestId) }

def set (pending : PendingRequest) : NativeClient :=
  { s with pending := s.pending.filter (·.requestId ≠ pending.requestId) ++ [pending] }

def clearTimeout (timer : Nat) : NativeClient := { s with timers := Function.update s.timers timer none }

/-- `port.disconnect()` -/
def disconnect (port : Nat) : NativeClient :=
  { s with closed := s.closed ++ [port], gone := s.gone ++ [port] }

/-- What `connect` does with the answer to its request. -/
def connectAnswered (port : Nat) (response : Option NativeResponse) : NativeClient :=
  match response.map NativeResponse.answer with
  | some (.connected locked) => { s with state := if locked then .locked else .ready }
  | _ => { s with state := .disconnected }.disconnect port

/-- `resolve` and `reject` of a request. -/
def settle (pending : PendingRequest) (response : Option NativeResponse) : NativeClient :=
  let s := { s with settled := s.settled ++ [⟨pending.promise, response⟩] }
  match pending.kind with
  | .connect => s.connectAnswered pending.port response
  | _ => s

/-- `#request`: `posts` is false if the browser refuses the message. -/
def request (kind : RequestKind) (create : String → NativeRequest) (posts : Bool) : NativeClient :=
  match s.port, s.generation with
  | some port, some generation =>
    let requestId := randomToken (random s.drawn)
    let pending : PendingRequest := ⟨requestId, generation, kind, s.nextTimer, port, s.promises⟩
    let s := { s with
      drawn := s.drawn + 1
      timers := Function.update s.timers s.nextTimer (some (requestId, generation))
      nextTimer := s.nextTimer + 1
      promises := s.promises + 1 }.set pending
    if posts ∧ port ∉ s.gone then { s with posted := s.posted ++ [(port, create requestId)] }
    else ((s.clearTimeout pending.timer).delete requestId).settle pending none
  | _, _ => s

/-- `connect`: `connects` is false if the browser refuses the port. -/
def connect (connects posts : Bool) : NativeClient :=
  if s.port.isSome then s
  else if connects then
    let generation := randomToken (random s.drawn)
    { s with
      drawn := s.drawn + 1
      port := some s.opened.length
      generation := some generation
      state := .waiting
      opened := s.opened ++ [generation] }.request random .connect .connect posts
  else { s with state := .disconnected }

def candidates (origin : String) (posts : Bool) : NativeClient :=
  s.request random .candidates (.candidates · origin) posts

def credential (origin vaultSessionId entryId : String) (posts : Bool) : NativeClient :=
  s.request random .credential (.credential · origin vaultSessionId entryId) posts

/-- `#receive` -/
def receive (port : Nat) (generation : String) (message : JsValue) : NativeClient :=
  if s.port ≠ some port ∨ s.generation ≠ some generation then s
  else
    match parseNativeResponse message with
    | none => s.disconnect port
    | some response =>
      match s.get response.requestId with
      | none => s
      | some pending =>
        if pending.generation ≠ generation then s
        else if response.answer = .approvalPending then
          if pending.kind ≠ .connect then s.disconnect port else s
        else if pending.kind.expects response.answer then
          ((s.delete response.requestId).clearTimeout pending.timer).settle pending (some response)
        else s.disconnect port

/-- `#disconnected` -/
def disconnected (port : Nat) (generation : String) : NativeClient :=
  if s.port ≠ some port ∨ s.generation ≠ some generation then s
  else
    let rejected := s.pending.filter (·.generation = generation)
    let s := { s with
      port := none
      generation := none
      state := .disconnected
      pending := s.pending.filter (·.generation ≠ generation) }
    rejected.foldl (fun s pending => (s.clearTimeout pending.timer).settle pending none) s

/-- A timer runs off. -/
def timeout (timer : Nat) : NativeClient :=
  match s.timers timer with
  | none => s
  | some (requestId, generation) =>
    let s := s.clearTimeout timer
    match s.get requestId with
    | some pending =>
      if pending.generation = generation then (s.delete requestId).settle pending none else s
    | none => s

end NativeClient

inductive Event where
  | connect (connects posts : Bool)
  | candidates (origin : String) (posts : Bool)
  | credential (origin vaultSessionId entryId : String) (posts : Bool)
  | message (port : Nat) (message : JsValue)
  | hostLeft (port : Nat)
  | timeout (timer : Nat)

namespace NativeClient

def step (random : Random) (s : NativeClient) : Event → NativeClient
  | .connect connects posts => s.connect random connects posts
  | .candidates origin posts => s.candidates random origin posts
  | .credential origin vaultSessionId entryId posts =>
    s.credential random origin vaultSessionId entryId posts
  | .message port message =>
    match s.opened[port]? with
    | some generation => if port ∈ s.gone then s else s.receive port generation message
    | none => s
  | .hostLeft port =>
    match s.opened[port]? with
    | some generation =>
      if port ∈ s.gone then s else { s with gone := s.gone ++ [port] }.disconnected port generation
    | none => s
  | .timeout timer => s.timeout timer

def run (random : Random) (events : List Event) : NativeClient := events.foldl (step random) {}

end NativeClient

/-- The answers after which the connection goes on. -/
def RequestKind.welcomes : RequestKind → NativeAnswer → Bool
  | .connect, .approvalPending => true
  | .connect, .connected _ => true
  | .candidates, .candidates _ _ _ => true
  | .candidates, .error _ => true
  | .credential, .credential _ _ => true
  | .credential, .error _ => true
  | _, _ => false

namespace NativeClient

/-- The events at which the client closes the port it holds: its `connect` is not posted, denied or
timed out, or a message is malformed or unexpected. -/
def breaksOff (s : NativeClient) : Event → Prop
  | .connect connects posts => s.port = none ∧ connects = true ∧ posts = false
  | .message port message =>
    s.port = some port ∧ port ∉ s.gone ∧
      ∀ response, parseNativeResponse message = some response →
        ∃ pending, s.get response.requestId = some pending ∧ ¬ pending.kind.welcomes response.answer
  | .timeout timer =>
    ∃ requestId generation pending, s.timers timer = some (requestId, generation) ∧
      s.get requestId = some pending ∧ pending.generation = generation ∧ pending.kind = .connect
  | _ => False

/-- After the client has closed its port, nothing waits on it, and the next `connect` opens another. -/
def Recovered (random : Random) (s : NativeClient) : Prop :=
  ∀ port ∈ s.closed, port + 1 = s.opened.length →
    s.pending = [] ∧ s.generation = none ∧
      ∀ posts, (s.connect random true posts).opened.length = s.opened.length + 1

/-- A step in which the client closes a port rejects what was pending. -/
def Rejects (s s' : NativeClient) : Prop :=
  s'.closed ≠ s.closed → ∀ pending ∈ s.pending, ⟨pending.promise, none⟩ ∈ s'.settled

/-- A response settles the request of its own id, on its own port, that takes such an answer. -/
def Correlates (s : NativeClient) (event : Event) (s' : NativeClient) : Prop :=
  ∀ settlement ∈ s'.settled, settlement ∉ s.settled → ∀ response, settlement.response = some response →
    ∃ port message pending, event = .message port message ∧
      parseNativeResponse message = some response ∧ s.get response.requestId = some pending ∧
      pending.port = port ∧ pending.kind.expects response.answer ∧ settlement.promise = pending.promise

/-! ## What a settlement changes -/

variable {random : Random} (s : NativeClient)

/-- The ports `connect` closes when its request is settled so. -/
def closes (pending : PendingRequest) (response : Option NativeResponse) : List Nat :=
  match pending.kind, response.map NativeResponse.answer with
  | .connect, some (.connected _) => []
  | .connect, _ => [pending.port]
  | _, _ => []

/-- A settlement is recorded, and closes a port at most; nothing else the proofs read changes. -/
theorem settle_eq (pending : PendingRequest) (response : Option NativeResponse) :
    ∃ state, s.settle pending response = { s with
      settled := s.settled ++ [⟨pending.promise, response⟩]
      closed := s.closed ++ closes pending response
      gone := s.gone ++ closes pending response
      state := state } := by
  cases hkind : pending.kind
  case connect =>
    cases hresponse : response.map NativeResponse.answer with
    | none => exact ⟨.disconnected, by simp [settle, closes, connectAnswered, disconnect, hkind, hresponse]⟩
    | some answer =>
      cases answer
      case connected locked =>
        exact ⟨if locked then .locked else .ready, by simp [settle, closes, connectAnswered, hkind, hresponse]⟩
      all_goals exact ⟨.disconnected, by simp [settle, closes, connectAnswered, disconnect, hkind, hresponse]⟩
  all_goals exact ⟨s.state, by simp [settle, closes, hkind]⟩

section settle
variable (pending : PendingRequest) (response : Option NativeResponse)

@[simp] theorem settle_port : (s.settle pending response).port = s.port := by
  obtain ⟨state, h⟩ := s.settle_eq pending response
  rw [h]

@[simp] theorem settle_generation : (s.settle pending response).generation = s.generation := by
  obtain ⟨state, h⟩ := s.settle_eq pending response
  rw [h]

@[simp] theorem settle_pending : (s.settle pending response).pending = s.pending := by
  obtain ⟨state, h⟩ := s.settle_eq pending response
  rw [h]

@[simp] theorem settle_opened : (s.settle pending response).opened = s.opened := by
  obtain ⟨state, h⟩ := s.settle_eq pending response
  rw [h]

@[simp] theorem settle_promises : (s.settle pending response).promises = s.promises := by
  obtain ⟨state, h⟩ := s.settle_eq pending response
  rw [h]

@[simp] theorem settle_settled :
    (s.settle pending response).settled = s.settled ++ [⟨pending.promise, response⟩] := by
  obtain ⟨state, h⟩ := s.settle_eq pending response
  rw [h]

@[simp] theorem settle_closed : (s.settle pending response).closed = s.closed ++ closes pending response := by
  obtain ⟨state, h⟩ := s.settle_eq pending response
  rw [h]

@[simp] theorem settle_gone : (s.settle pending response).gone = s.gone ++ closes pending response := by
  obtain ⟨state, h⟩ := s.settle_eq pending response
  rw [h]

end settle

theorem mem_closes {pending : PendingRequest} {response : Option NativeResponse} {port : Nat}
    (h : port ∈ closes pending response) : port = pending.port ∧ pending.kind = .connect := by
  unfold closes at h
  split at h
  · exact absurd h List.not_mem_nil
  · rename_i hkind _
    exact ⟨List.mem_singleton.1 h, hkind⟩
  · exact absurd h List.not_mem_nil

/-! ## The invariant -/

/-- Where a client stands that has taken the requests `owed` out of its table and has still to
settle them. -/
structure Inv (owed : List PendingRequest) (s : NativeClient) : Prop where
  connected : ∀ port, s.port = some port → port + 1 = s.opened.length ∧ s.generation = s.opened[port]?
  idle : s.port = none → s.generation = none ∧ s.pending = []
  belongs : ∀ pending ∈ s.pending, s.port = some pending.port ∧ s.generation = some pending.generation
  opened : ∀ pending ∈ owed, pending.port < s.opened.length
  distinct : ((owed ++ s.pending).map PendingRequest.promise).Nodup
  waits : ∀ pending ∈ owed ++ s.pending,
    pending.promise < s.promises ∧ pending.promise ∉ s.settled.map Settlement.promise
  made : ∀ settlement ∈ s.settled, settlement.promise < s.promises
  once : (s.settled.map Settlement.promise).Nodup
  closed : ∀ port ∈ s.closed, port < s.opened.length
  gone : ∀ port ∈ s.gone, port < s.opened.length

variable {s} {owed : List PendingRequest} {pending : PendingRequest} {response : Option NativeResponse}

theorem inv_initial : Inv [] {} := by
  constructor <;> simp

theorem Inv.settle (h : Inv (pending :: owed) s) : Inv owed (s.settle pending response) := by
  have hport : ∀ port ∈ closes pending response, port < s.opened.length := by
    intro port hmem
    rw [(mem_closes hmem).1]
    exact h.opened pending List.mem_cons_self
  have hdistinct := h.distinct
  simp only [List.cons_append, List.map_cons, List.nodup_cons] at hdistinct
  have hhead := h.waits pending List.mem_cons_self
  constructor
  case connected => simpa using h.connected
  case idle => simpa using h.idle
  case belongs => simpa using h.belongs
  case opened =>
    intro other hmem
    simpa using h.opened other (List.mem_cons_of_mem _ hmem)
  case distinct => simpa using hdistinct.2
  case waits =>
    intro other hmem
    rw [settle_pending] at hmem
    have hother := h.waits other (List.mem_cons_of_mem _ hmem)
    have hne : other.promise ≠ pending.promise := by
      intro heq
      exact hdistinct.1 (heq ▸ List.mem_map_of_mem hmem)
    simp only [settle_promises, settle_settled, List.map_append, List.map_cons, List.map_nil, List.mem_append,
      List.mem_singleton, not_or]
    exact ⟨hother.1, hother.2, hne⟩
  case made =>
    intro settlement hmem
    rw [settle_settled, List.mem_append, List.mem_singleton] at hmem
    rw [settle_promises]
    rcases hmem with hmem | rfl
    · exact h.made settlement hmem
    · exact hhead.1
  case once =>
    rw [settle_settled, List.map_append, List.nodup_append]
    refine ⟨h.once, by simp, ?_⟩
    intro promise hmem other hother heq
    rw [List.map_singleton, List.mem_singleton] at hother
    rw [heq, hother] at hmem
    exact hhead.2 hmem
  case closed =>
    intro port hmem
    rw [settle_closed, List.mem_append] at hmem
    rw [settle_opened]
    exact hmem.elim (h.closed port) (hport port)
  case gone =>
    intro port hmem
    rw [settle_gone, List.mem_append] at hmem
    rw [settle_opened]
    exact hmem.elim (h.gone port) (hport port)

/-- All that is owed, one after the other. -/
def settleAll (s : NativeClient) (owed : List PendingRequest) : NativeClient :=
  owed.foldl (fun s pending => (s.clearTimeout pending.timer).settle pending none) s

theorem Inv.clearTimeout (h : Inv owed s) (timer : Nat) : Inv owed (s.clearTimeout timer) :=
  ⟨h.connected, h.idle, h.belongs, h.opened, h.distinct, h.waits, h.made, h.once, h.closed, h.gone⟩

theorem Inv.settleAll (h : Inv owed s) : Inv [] (s.settleAll owed) := by
  induction owed generalizing s with
  | nil => exact h
  | cons pending owed ih => exact ih (h.clearTimeout pending.timer).settle

theorem settleAll_frame (owed : List PendingRequest) :
    (s.settleAll owed).port = s.port ∧ (s.settleAll owed).generation = s.generation ∧
      (s.settleAll owed).settled = s.settled ++ owed.map (⟨·.promise, none⟩) := by
  induction owed generalizing s with
  | nil => simp [NativeClient.settleAll]
  | cons pending owed ih =>
    obtain ⟨hport, hgeneration, hsettled⟩ := ih (s := (s.clearTimeout pending.timer).settle pending none)
    refine ⟨hport.trans ?_, hgeneration.trans ?_, hsettled.trans ?_⟩
    · rw [settle_port]
      rfl
    · rw [settle_generation]
      rfl
    · rw [settle_settled]
      simp [NativeClient.clearTimeout]

theorem mem_of_get {requestId : String} (h : s.get requestId = some pending) :
    pending ∈ s.pending ∧ pending.requestId = requestId :=
  ⟨List.mem_of_find?_eq_some h, by simpa using List.find?_some h⟩

/-- An entry is taken out of the table. -/
theorem Inv.delete (h : Inv [] s) {requestId : String} (hget : s.get requestId = some pending) :
    Inv [pending] (s.delete requestId) := by
  obtain ⟨hmem, hid⟩ := mem_of_get hget
  have hsub : ∀ other ∈ (s.delete requestId).pending, other ∈ s.pending := fun other hother =>
    List.mem_of_mem_filter hother
  have hwaits : ∀ other ∈ s.pending, _ := h.waits
  constructor
  case connected => exact h.connected
  case idle =>
    intro hport
    refine ⟨(h.idle hport).1, ?_⟩
    simp [NativeClient.delete, (h.idle hport).2]
  case belongs => exact fun other hother => h.belongs other (hsub other hother)
  case opened =>
    intro other hother
    rw [List.mem_singleton] at hother
    have hport := (h.connected _ (h.belongs pending hmem).1).1
    show other.port < s.opened.length
    rw [hother]
    omega
  case distinct =>
    have hnodup : (s.pending.map PendingRequest.promise).Nodup := h.distinct
    rw [List.map_append, List.map_singleton, List.singleton_append, List.nodup_cons]
    refine ⟨?_, hnodup.sublist (List.filter_sublist.map _)⟩
    intro hpromise
    obtain ⟨other, hother, heq⟩ := List.mem_map.1 hpromise
    -- two entries with one promise are one entry, and this one was deleted
    have hsame : other = pending := List.inj_on_of_nodup_map hnodup (hsub other hother) hmem heq
    have hne := (List.mem_filter.1 hother).2
    rw [hsame, hid] at hne
    simp at hne
  case waits =>
    intro other hother
    rcases List.mem_append.1 hother with hother | hother
    · rw [List.mem_singleton] at hother
      exact hother ▸ hwaits pending hmem
    · exact hwaits other (hsub other hother)
  case made => exact h.made
  case once => exact h.once
  case closed => exact h.closed
  case gone => exact h.gone

/-- A new entry, for a promise that was not made before. -/
theorem Inv.set (h : Inv [] s) (timers : Nat → Option (String × String)) (drawn nextTimer : Nat)
    (pending : PendingRequest) (hport : s.port = some pending.port) (hgeneration : s.generation = some pending.generation)
    (hpromise : pending.promise = s.promises) :
    Inv [] ({ s with
      drawn := drawn, timers := timers, nextTimer := nextTimer, promises := s.promises + 1 }.set pending) := by
  have hmem : ∀ other ∈ s.pending.filter (·.requestId ≠ pending.requestId) ++ [pending],
      other ∈ s.pending ∨ other = pending := by
    intro other hother
    rcases List.mem_append.1 hother with hother | hother
    · exact Or.inl (List.mem_of_mem_filter hother)
    · exact Or.inr (List.mem_singleton.1 hother)
  have hwaits : ∀ other ∈ s.pending, _ := h.waits
  constructor
  case connected => exact h.connected
  case idle =>
    intro hnone
    rw [show s.port = none from hnone] at hport
    cases hport
  case belongs =>
    intro other hother
    rcases hmem other hother with hother | rfl
    · exact h.belongs other hother
    · exact ⟨hport, hgeneration⟩
  case opened => exact fun other hother => absurd hother List.not_mem_nil
  case distinct =>
    show (((s.pending.filter _) ++ [pending]).map PendingRequest.promise).Nodup
    have hnodup : (s.pending.map PendingRequest.promise).Nodup := h.distinct
    rw [List.map_append, List.nodup_append]
    refine ⟨hnodup.sublist (List.filter_sublist.map _), by simp, ?_⟩
    intro promise hold other hnew heq
    obtain ⟨old, hold, hold_eq⟩ := List.mem_map.1 hold
    rw [List.map_singleton, List.mem_singleton] at hnew
    have hlt := (hwaits old (List.mem_of_mem_filter hold)).1
    omega
  case waits =>
    intro other hother
    rcases hmem other hother with hother | rfl
    · have hold := hwaits other hother
      exact ⟨Nat.lt_succ_of_lt hold.1, hold.2⟩
    · refine ⟨?_, ?_⟩
      · show other.promise < s.promises + 1
        omega
      · intro hsettled
        obtain ⟨settlement, hsettlement, heq⟩ := List.mem_map.1 hsettled
        have hlt := h.made settlement hsettlement
        omega
  case made => exact fun settlement hsettlement => Nat.lt_succ_of_lt (h.made settlement hsettlement)
  case once => exact h.once
  case closed => exact h.closed
  case gone => exact h.gone

theorem Inv.disconnect (h : Inv [] s) {port : Nat} (hport : s.port = some port) : Inv [] (s.disconnect port) := by
  have hlt : ∀ {ports : List Nat}, (∀ other ∈ ports, other < s.opened.length) →
      ∀ other ∈ ports ++ [port], other < s.opened.length := by
    intro ports hports other hother
    rcases List.mem_append.1 hother with hother | hother
    · exact hports other hother
    · have := (h.connected port hport).1
      rw [List.mem_singleton] at hother
      omega
  exact ⟨h.connected, h.idle, h.belongs, h.opened, h.distinct, h.waits, h.made, h.once, hlt h.closed, hlt h.gone⟩

theorem get_set : (s.set pending).get pending.requestId = some pending := by
  have hold : (s.pending.filter (·.requestId ≠ pending.requestId)).find? (·.requestId = pending.requestId) = none := by
    rw [List.find?_eq_none]
    intro other hother
    simpa using (List.mem_filter.1 hother).2
  show (s.pending.filter (·.requestId ≠ pending.requestId) ++ [pending]).find? _ = _
  rw [List.find?_append, hold]
  simp

theorem Inv.request (h : Inv [] s) {kind : RequestKind} {create : String → NativeRequest} {posts : Bool} :
    Inv [] (s.request random kind create posts) := by
  unfold NativeClient.request
  split
  · rename_i port generation hport hgeneration
    have hset := h.set (Function.update s.timers s.nextTimer
        (some (randomToken (random s.drawn), generation))) (s.drawn + 1) (s.nextTimer + 1)
      (⟨randomToken (random s.drawn), generation, kind, s.nextTimer, port, s.promises⟩)
      hport hgeneration rfl
    dsimp only
    split
    · exact ⟨hset.connected, hset.idle, hset.belongs, hset.opened, hset.distinct, hset.waits, hset.made,
        hset.once, hset.closed, hset.gone⟩
    · exact ((hset.clearTimeout _).delete get_set).settle
  · exact h

/-- A fresh port. -/
theorem Inv.open (h : Inv [] s) (hport : s.port = none) {drawn : Nat} {generation : String}
    {state : DesktopConnectionState} :
    Inv [] { s with
      drawn := drawn, port := some s.opened.length, generation := some generation
      state := state, opened := s.opened ++ [generation] } := by
  obtain ⟨-, hpending⟩ := h.idle hport
  have hlength : (s.opened ++ [generation]).length = s.opened.length + 1 := by simp
  constructor
  case connected =>
    intro port heq
    obtain rfl : s.opened.length = port := Option.some.inj heq
    exact ⟨hlength.symm, by simp⟩
  case idle => exact nofun
  case belongs =>
    intro pending hmem
    rw [show _ = [] from hpending] at hmem
    exact absurd hmem List.not_mem_nil
  case opened => exact fun other hother => absurd hother List.not_mem_nil
  case distinct => exact h.distinct
  case waits => exact h.waits
  case made => exact h.made
  case once => exact h.once
  case closed =>
    intro port hmem
    have := h.closed port hmem
    show port < (s.opened ++ [generation]).length
    omega
  case gone =>
    intro port hmem
    have := h.gone port hmem
    show port < (s.opened ++ [generation]).length
    omega

theorem Inv.connect (h : Inv [] s) {connects posts : Bool} : Inv [] (s.connect random connects posts) := by
  unfold NativeClient.connect
  split
  · exact h
  split
  · rename_i hport _
    exact (h.open (by simpa using hport)).request
  · exact ⟨h.connected, h.idle, h.belongs, h.opened, h.distinct, h.waits, h.made, h.once, h.closed, h.gone⟩

theorem Inv.receive (h : Inv [] s) {port : Nat} {generation : String} {message : JsValue} :
    Inv [] (s.receive port generation message) := by
  unfold NativeClient.receive
  split
  · exact h
  rename_i hown
  have hport : s.port = some port := by
    by_contra hne
    exact hown (Or.inl hne)
  split
  · exact h.disconnect hport
  split
  · exact h
  rename_i pending hget
  split
  · exact h
  split
  · split
    · exact h.disconnect hport
    · exact h
  split
  · exact ((h.delete hget).clearTimeout _).settle
  · exact h.disconnect hport

/-- What is left of a client whose port has gone. -/
theorem disconnected_eq (h : Inv [] s) {port : Nat} {generation : String} (hport : s.port = some port)
    (hgeneration : s.generation = some generation) :
    s.disconnected port generation =
      { s with port := none, generation := none, state := .disconnected, pending := [] }.settleAll s.pending := by
  have hall : ∀ pending ∈ s.pending, pending.generation = generation := by
    intro pending hmem
    have := (h.belongs pending hmem).2
    rw [hgeneration] at this
    exact (Option.some.inj this).symm
  have hrejected : s.pending.filter (·.generation = generation) = s.pending := by
    rw [List.filter_eq_self]
    intro pending hmem
    simpa using hall pending hmem
  have hrest : s.pending.filter (·.generation ≠ generation) = [] := by
    rw [List.filter_eq_nil_iff]
    intro pending hmem
    simpa using hall pending hmem
  rw [NativeClient.disconnected, if_neg (by simp [hport, hgeneration])]
  simp only [hrejected, hrest]
  rfl

theorem Inv.left (h : Inv [] s) :
    Inv s.pending { s with port := none, generation := none, state := .disconnected, pending := [] } := by
  constructor
  case connected => exact nofun
  case idle => exact fun _ => ⟨rfl, rfl⟩
  case belongs => exact fun other hother => absurd hother List.not_mem_nil
  case opened =>
    intro pending hmem
    have := (h.connected _ (h.belongs pending hmem).1).1
    show pending.port < s.opened.length
    omega
  case distinct =>
    rw [List.append_nil]
    exact h.distinct
  case waits =>
    rw [List.append_nil]
    exact h.waits
  case made => exact h.made
  case once => exact h.once
  case closed => exact h.closed
  case gone => exact h.gone

theorem Inv.disconnected (h : Inv [] s) {port : Nat} {generation : String} :
    Inv [] (s.disconnected port generation) := by
  by_cases hown : s.port = some port ∧ s.generation = some generation
  · rw [disconnected_eq h hown.1 hown.2]
    exact h.left.settleAll
  · rw [NativeClient.disconnected, if_pos (by tauto)]
    exact h

theorem Inv.timeout (h : Inv [] s) {timer : Nat} : Inv [] (s.timeout timer) := by
  unfold NativeClient.timeout
  split
  · exact h
  dsimp only
  split
  · rename_i pending hget
    split
    · exact ((h.clearTimeout timer).delete hget).settle
    · exact h.clearTimeout timer
  · exact h.clearTimeout timer

/-- The host leaves a port. -/
theorem Inv.leave (h : Inv [] s) {port : Nat} (hport : port < s.opened.length) :
    Inv [] { s with gone := s.gone ++ [port] } := by
  refine ⟨h.connected, h.idle, h.belongs, h.opened, h.distinct, h.waits, h.made, h.once, h.closed, ?_⟩
  intro other hother
  rcases List.mem_append.1 hother with hother | hother
  · exact h.gone other hother
  · rw [List.mem_singleton] at hother
    exact hother ▸ hport

theorem Inv.step (h : Inv [] s) (event : Event) : Inv [] (s.step random event) := by
  cases event with
  | connect connects posts => exact h.connect
  | candidates origin posts =>
    show Inv [] (s.request random .candidates (.candidates · origin) posts)
    exact h.request
  | credential origin vaultSessionId entryId posts =>
    show Inv [] (s.request random .credential (.credential · origin vaultSessionId entryId) posts)
    exact h.request
  | message port message =>
    unfold NativeClient.step
    dsimp only
    split
    · split
      · exact h
      · exact h.receive
    · exact h
  | hostLeft port =>
    unfold NativeClient.step
    dsimp only
    split
    · rename_i generation hopened
      split
      · exact h
      · exact (h.leave (List.getElem?_eq_some_iff.1 hopened).1).disconnected
    · exact h
  | timeout timer => exact h.timeout

theorem run_append (random : Random) (before : List Event) (event : Event) :
    run random (before ++ [event]) = (run random before).step random event := by
  simp [run]

theorem inv_run (random : Random) (events : List Event) : Inv [] (run random events) := by
  induction events using List.reverseRecOn with
  | nil => exact inv_initial
  | append_singleton events event ih =>
    rw [run_append]
    exact ih.step event

/-! ## Closing the port -/

/-- The client has not closed the port it holds. -/
def Quiet (s : NativeClient) : Prop := ∀ port, s.port = some port → port ∉ s.closed

/-- A step that neither opens nor closes a port nor answers a request. -/
structure Calm (s s' : NativeClient) : Prop where
  port : s'.port = s.port
  closed : s'.closed = s.closed
  settled : ∀ settlement ∈ s'.settled, settlement ∈ s.settled ∨ settlement.response = none

theorem Calm.refl : Calm s s := ⟨rfl, rfl, fun _ h => Or.inl h⟩

theorem Calm.quiet {s' : NativeClient} (h : Calm s s') (hquiet : Quiet s) : Quiet s' := by
  intro port hport
  rw [h.closed]
  exact hquiet port (h.port ▸ hport)

theorem Calm.rejects {s' : NativeClient} (h : Calm s s') : Rejects s s' := fun hne => absurd h.closed hne

theorem correlates_of {s' : NativeClient} {event : Event}
    (h : ∀ settlement ∈ s'.settled, settlement ∈ s.settled ∨ settlement.response = none) :
    Correlates s event s' := by
  intro settlement hmem hnew response hresponse
  rcases h settlement hmem with hold | hnone
  · exact absurd hold hnew
  · rw [hnone] at hresponse
    cases hresponse

/-- A request other than `connect` leaves the port alone, whether it is posted or not. -/
theorem calm_request {kind : RequestKind} (hkind : kind ≠ .connect) {create : String → NativeRequest}
    {posts : Bool} : Calm s (s.request random kind create posts) := by
  unfold NativeClient.request
  split
  · dsimp only
    split
    · exact ⟨rfl, rfl, fun _ h => Or.inl h⟩
    · constructor
      case port => simp [NativeClient.delete, NativeClient.clearTimeout, NativeClient.set]
      case closed =>
        cases kind
        · exact absurd rfl hkind
        all_goals simp [NativeClient.delete, NativeClient.clearTimeout, NativeClient.set, closes]
      case settled =>
        intro settlement hmem
        rw [settle_settled, List.mem_append, List.mem_singleton] at hmem
        rcases hmem with hmem | rfl
        · exact Or.inl hmem
        · exact Or.inr rfl
  · exact Calm.refl

variable (random) in
/-- `connect` on a client without a port. -/
theorem connect_open (h : Inv [] s) (hport : s.port = none) (posts : Bool) :
    (s.connect random true posts).port = some s.opened.length ∧
      (s.connect random true posts).opened.length = s.opened.length + 1 ∧
      (s.connect random true posts).closed = s.closed ++ (if posts then [] else [s.opened.length]) ∧
      ∀ settlement ∈ (s.connect random true posts).settled,
        settlement ∈ s.settled ∨ settlement.response = none := by
  have hfresh : s.opened.length ∉ s.gone := fun hmem => absurd (h.gone _ hmem) (by omega)
  rw [NativeClient.connect, if_neg (by simp [hport]), if_pos rfl]
  cases posts
  case true => simp +contextual [NativeClient.request, NativeClient.set, hfresh]
  case false =>
    simp [NativeClient.request, NativeClient.set, NativeClient.delete, NativeClient.clearTimeout, closes]
    intro settlement hmem
    rcases hmem with hmem | rfl
    · exact Or.inl hmem
    · exact Or.inr rfl

theorem connect_calm {connects posts : Bool} (h : ¬(s.port = none ∧ connects = true)) :
    Calm s (s.connect random connects posts) := by
  unfold NativeClient.connect
  split
  · exact Calm.refl
  split
  · rename_i hport hconnects
    simp_all
  · exact ⟨rfl, rfl, fun _ h => Or.inl h⟩

/-- What a message does that arrives on the port the client holds. -/
theorem receive_cases {port : Nat} {generation : String} (h : Inv [] s) (hport : s.port = some port)
    (hgeneration : s.generation = some generation) (message : JsValue) :
    (∃ response pending, parseNativeResponse message = some response ∧
        s.get response.requestId = some pending ∧ pending.kind.expects response.answer ∧
        s.receive port generation message =
          ((s.delete response.requestId).clearTimeout pending.timer).settle pending (some response)) ∨
      (s.receive port generation message = s ∧ ∃ response, parseNativeResponse message = some response ∧
        ∀ pending, s.get response.requestId = some pending → pending.kind.welcomes response.answer) ∨
      (s.receive port generation message = s.disconnect port ∧
        ∀ response, parseNativeResponse message = some response →
          ∃ pending, s.get response.requestId = some pending ∧ ¬ pending.kind.welcomes response.answer) := by
  rw [NativeClient.receive, if_neg (by simp [hport, hgeneration])]
  cases hparse : parseNativeResponse message with
  | none => exact Or.inr (Or.inr ⟨rfl, nofun⟩)
  | some response =>
    dsimp only
    cases hget : s.get response.requestId with
    | none => exact Or.inr (Or.inl ⟨rfl, response, rfl, by simp [hget]⟩)
    | some pending =>
      have hown : pending.generation = generation := by
        have := (h.belongs pending (mem_of_get hget).1).2
        rw [hgeneration] at this
        exact (Option.some.inj this).symm
      dsimp only
      rw [if_neg (by simp [hown])]
      -- the requests and the answers, one against the other
      cases hkind : pending.kind <;> cases hanswer : response.answer <;>
        simp [RequestKind.expects, RequestKind.welcomes, hkind, hanswer, hget]

/-- An expected answer that is welcome closes nothing. -/
theorem closes_of_welcome {response : NativeResponse} (hexpects : pending.kind.expects response.answer)
    (h : pending.kind.welcomes response.answer) : closes pending (some response) = [] := by
  cases hkind : pending.kind <;> cases hanswer : response.answer <;>
    simp_all [closes, RequestKind.welcomes, RequestKind.expects]

/-- An expected answer that is not welcome is a denial, and closes the port of the request. -/
theorem closes_of_denial {response : NativeResponse} (hexpects : pending.kind.expects response.answer)
    (h : ¬ pending.kind.welcomes response.answer) : closes pending (some response) = [pending.port] := by
  cases hkind : pending.kind <;> cases hanswer : response.answer <;>
    simp_all [closes, RequestKind.welcomes, RequestKind.expects]

theorem closes_none : closes pending none = if pending.kind = .connect then [pending.port] else [] := by
  cases hkind : pending.kind <;> simp [closes, hkind]

/-- What a timer does. -/
theorem timeout_cases (timer : Nat) :
    Calm s (s.timeout timer) ∧ ¬ s.breaksOff (.timeout timer) ∨
      ∃ pending, pending ∈ s.pending ∧ pending.kind = .connect ∧ s.breaksOff (.timeout timer) ∧
        (s.timeout timer).port = s.port ∧ (s.timeout timer).closed = s.closed ++ [pending.port] ∧
        ∀ settlement ∈ (s.timeout timer).settled, settlement ∈ s.settled ∨ settlement.response = none := by
  unfold NativeClient.timeout
  cases htimer : s.timers timer with
  | none => exact Or.inl ⟨Calm.refl, by simp [breaksOff, htimer]⟩
  | some held =>
    obtain ⟨requestId, generation⟩ := held
    have hget_eq : (s.clearTimeout timer).get requestId = s.get requestId := rfl
    dsimp only
    rw [hget_eq]
    cases hget : s.get requestId with
    | none => exact Or.inl ⟨⟨rfl, rfl, fun _ h => Or.inl h⟩, by simp [breaksOff, htimer, hget]⟩
    | some pending =>
      dsimp only
      split
      · rename_i hown
        have hsettled : ∀ settlement ∈
            (((s.clearTimeout timer).delete requestId).settle pending none).settled,
            settlement ∈ s.settled ∨ settlement.response = none := by
          intro settlement hmem
          rw [settle_settled, List.mem_append, List.mem_singleton] at hmem
          rcases hmem with hmem | rfl
          · exact Or.inl hmem
          · exact Or.inr rfl
        by_cases hkind : pending.kind = .connect
        · refine Or.inr ⟨pending, (mem_of_get hget).1, hkind, ⟨requestId, generation, pending, htimer, hget,
            hown, hkind⟩, ?_, ?_, hsettled⟩
          · rw [settle_port]
            rfl
          · rw [settle_closed, closes_none, if_pos hkind]
            rfl
        · refine Or.inl ⟨⟨?_, ?_, hsettled⟩, by simp [breaksOff, htimer, hget, hkind]⟩
          · rw [settle_port]
            rfl
          · rw [settle_closed, closes_none, if_neg hkind, List.append_nil]
            rfl
      · rename_i hother
        refine Or.inl ⟨⟨rfl, rfl, fun _ h => Or.inl h⟩, ?_⟩
        rintro ⟨requestId', generation', pending', htimer', hget', hown, -⟩
        rw [htimer] at htimer'
        cases htimer'
        rw [hget] at hget'
        cases hget'
        exact hother hown

variable (random) in
/-- What the end of a port does. -/
theorem hostLeft_cases (h : Inv [] s) (port : Nat) :
    Calm s (s.step random (.hostLeft port)) ∨
      (s.step random (.hostLeft port)).port = none ∧
        (s.step random (.hostLeft port)).settled = s.settled ++ s.pending.map (⟨·.promise, none⟩) := by
  unfold NativeClient.step
  dsimp only
  split
  · rename_i generation hopened
    have hleave := h.leave (List.getElem?_eq_some_iff.1 hopened).1
    split
    · exact Or.inl Calm.refl
    by_cases hown : s.port = some port ∧ s.generation = some generation
    · rw [disconnected_eq hleave hown.1 hown.2]
      obtain ⟨hport, -, hsettled⟩ := settleAll_frame (s := { s with
        gone := s.gone ++ [port], port := none, generation := none, state := .disconnected, pending := [] })
        s.pending
      exact Or.inr ⟨hport, hsettled⟩
    · rw [NativeClient.disconnected, if_pos (by simp only; tauto)]
      exact Or.inl ⟨rfl, rfl, fun _ h => Or.inl h⟩
  · exact Or.inl Calm.refl

variable (random) in
theorem message_eq (h : Inv [] s) (port : Nat) (message : JsValue) :
    s.step random (.message port message) = s ∧ ¬ s.breaksOff (.message port message) ∨
      ∃ generation, s.port = some port ∧ s.generation = some generation ∧ port ∉ s.gone ∧
        s.step random (.message port message) = s.receive port generation message := by
  unfold NativeClient.step
  dsimp only
  by_cases hport : s.port = some port
  · obtain ⟨hlast, hgeneration⟩ := h.connected port hport
    rw [List.getElem?_eq_getElem (by omega)] at hgeneration
    rw [List.getElem?_eq_getElem (show port < s.opened.length by omega)]
    dsimp only
    by_cases hgone : port ∈ s.gone
    · rw [if_pos hgone]
      exact Or.inl ⟨rfl, fun hbreaks => hbreaks.2.1 hgone⟩
    · rw [if_neg hgone]
      exact Or.inr ⟨_, hport, hgeneration, hgone, rfl⟩
  · refine Or.inl ⟨?_, fun hbreaks => hport hbreaks.1⟩
    split
    · split
      · rfl
      · rw [NativeClient.receive, if_pos (Or.inl hport)]
    · rfl

theorem correlates_step (h : Inv [] s) (event : Event) : Correlates s event (s.step random event) := by
  cases event with
  | connect connects posts =>
    by_cases hopen : s.port = none ∧ connects = true
    · obtain ⟨hport, rfl⟩ := hopen
      exact correlates_of (connect_open random h hport posts).2.2.2
    · exact correlates_of (connect_calm hopen).settled
  | candidates origin posts => exact correlates_of (calm_request (by decide)).settled
  | credential origin vaultSessionId entryId posts =>
    exact correlates_of (calm_request (by decide)).settled
  | message port message =>
    rcases message_eq random h port message with
      ⟨heq, -⟩ | ⟨generation, hport, hgeneration, -, heq⟩
    · rw [heq]
      exact correlates_of fun _ hmem => Or.inl hmem
    rw [heq]
    rcases receive_cases h hport hgeneration message with
      ⟨response, pending, hparse, hget, hexpects, heq⟩ | ⟨heq, -⟩ | ⟨heq, -⟩
    · intro settlement hmem hnew answer hanswer
      rw [heq, settle_settled, List.mem_append, List.mem_singleton] at hmem
      obtain rfl := hmem.resolve_left hnew
      obtain rfl : response = answer := Option.some.inj hanswer
      have hown := (h.belongs pending (mem_of_get hget).1).1
      rw [hport] at hown
      exact ⟨port, message, pending, rfl, hparse, hget, (Option.some.inj hown).symm, hexpects, rfl⟩
    · rw [heq]
      exact correlates_of fun _ hmem => Or.inl hmem
    · rw [heq]
      exact correlates_of fun _ hmem => Or.inl hmem
  | hostLeft port =>
    rcases hostLeft_cases random h port with hcalm | ⟨-, hsettled⟩
    · exact correlates_of hcalm.settled
    · refine correlates_of fun settlement hmem => ?_
      rw [hsettled, List.mem_append] at hmem
      refine hmem.imp_right fun hmem => ?_
      obtain ⟨pending, -, rfl⟩ := List.mem_map.1 hmem
      rfl
  | timeout timer =>
    rcases timeout_cases (s := s) timer with ⟨hcalm, -⟩ | ⟨pending, -, -, -, -, -, hsettled⟩
    · exact correlates_of hcalm.settled
    · exact correlates_of hsettled

/-- A step that does not break off the connection leaves the port open, and rejects what it must. -/
theorem quiet_step (h : Inv [] s) (hquiet : Quiet s) {event : Event} (hgoes : ¬ s.breaksOff event) :
    Quiet (s.step random event) ∧ Rejects s (s.step random event) := by
  cases event with
  | connect connects posts =>
    by_cases hopen : s.port = none ∧ connects = true
    · obtain ⟨hport, rfl⟩ := hopen
      have hposts : posts = true := by
        by_contra hne
        exact hgoes ⟨hport, rfl, by simpa using hne⟩
      obtain ⟨hnew, -, hclosed, -⟩ := connect_open random h hport posts
      rw [if_pos hposts, List.append_nil] at hclosed
      refine ⟨fun port heq hmem => ?_, fun hne => absurd hclosed hne⟩
      have hlt := h.closed port (hclosed ▸ hmem)
      obtain rfl : s.opened.length = port := Option.some.inj (hnew.symm.trans heq)
      omega
    · have hcalm : Calm s (s.connect random connects posts) := connect_calm hopen
      exact ⟨hcalm.quiet hquiet, hcalm.rejects⟩
  | candidates origin posts =>
    have hcalm : Calm s (s.candidates random origin posts) := calm_request (by decide)
    exact ⟨hcalm.quiet hquiet, hcalm.rejects⟩
  | credential origin vaultSessionId entryId posts =>
    have hcalm : Calm s (s.credential random origin vaultSessionId entryId posts) :=
      calm_request (by decide)
    exact ⟨hcalm.quiet hquiet, hcalm.rejects⟩
  | message port message =>
    rcases message_eq random h port message with
      ⟨heq, -⟩ | ⟨generation, hport, hgeneration, hgone, heq⟩
    · rw [heq]
      exact ⟨hquiet, Calm.refl.rejects⟩
    rw [heq]
    have hwelcome : ∃ response, parseNativeResponse message = some response ∧
        ∀ pending, s.get response.requestId = some pending → pending.kind.welcomes response.answer := by
      by_contra hnone
      refine hgoes ⟨hport, hgone, fun response hparse => ?_⟩
      by_contra hall
      refine hnone ⟨response, hparse, fun pending hget => ?_⟩
      by_contra hne
      exact hall ⟨pending, hget, hne⟩
    obtain ⟨response, hparse, hall⟩ := hwelcome
    rcases receive_cases h hport hgeneration message with
      ⟨response', pending, hparse', hget, hexpects, heq⟩ | ⟨heq, -⟩ | ⟨-, hbreaks⟩
    · obtain rfl : response = response' := Option.some.inj (hparse.symm.trans hparse')
      have hclosed : (s.receive port generation message).closed = s.closed := by
        rw [heq, settle_closed, closes_of_welcome hexpects (hall pending hget), List.append_nil]
        rfl
      have hsame : (s.receive port generation message).port = s.port := by
        rw [heq, settle_port]
        rfl
      refine ⟨fun other hother => ?_, fun hne => absurd hclosed hne⟩
      rw [hclosed]
      exact hquiet other (hsame ▸ hother)
    · rw [heq]
      exact ⟨hquiet, Calm.refl.rejects⟩
    · obtain ⟨pending, hget, hne⟩ := hbreaks response hparse
      exact absurd (hall pending hget) hne
  | hostLeft port =>
    rcases hostLeft_cases random h port with hcalm | ⟨hport, hsettled⟩
    · exact ⟨hcalm.quiet hquiet, hcalm.rejects⟩
    · refine ⟨fun other hother => ?_, fun _ pending hmem => ?_⟩
      · rw [hport] at hother
        cases hother
      · rw [hsettled]
        exact List.mem_append_right _ (List.mem_map_of_mem hmem)
  | timeout timer =>
    rcases timeout_cases (s := s) timer with ⟨hcalm, -⟩ | ⟨pending, -, -, hbreaks, -⟩
    · exact ⟨hcalm.quiet hquiet, hcalm.rejects⟩
    · exact absurd hbreaks hgoes

/-- A step that breaks off the connection leaves the client with a port it has closed. -/
theorem not_quiet_step (h : Inv [] s) {event : Event} (hbreaks : s.breaksOff event) :
    ¬ Quiet (s.step random event) := by
  cases event with
  | connect connects posts =>
    obtain ⟨hport, rfl, rfl⟩ := hbreaks
    obtain ⟨hnew, -, hclosed, -⟩ := connect_open random h hport false
    intro hquiet
    refine hquiet s.opened.length hnew ?_
    show s.opened.length ∈ (s.connect random true false).closed
    rw [hclosed]
    simp
  | candidates origin posts => exact hbreaks.elim
  | credential origin vaultSessionId entryId posts => exact hbreaks.elim
  | message port message =>
    rcases message_eq random h port message with
      ⟨-, hgoes⟩ | ⟨generation, hport, hgeneration, hgone, heq⟩
    · exact absurd hbreaks hgoes
    intro hquiet
    rw [heq] at hquiet
    rcases receive_cases h hport hgeneration message with
      ⟨response, pending, hparse, hget, hexpects, heq⟩ | ⟨-, response, hparse, hall⟩ | ⟨heq, -⟩
    · obtain ⟨pending', hget', hne⟩ := hbreaks.2.2 response hparse
      obtain rfl : pending = pending' := Option.some.inj (hget.symm.trans hget')
      have hown := (h.belongs pending (mem_of_get hget).1).1
      rw [heq] at hquiet
      refine hquiet pending.port ?_ ?_
      · rw [settle_port]
        exact hown
      · rw [settle_closed, closes_of_denial hexpects hne]
        exact List.mem_append_right _ (List.mem_singleton_self _)
    · obtain ⟨pending, hget, hne⟩ := hbreaks.2.2 response hparse
      exact hne (hall pending hget)
    · rw [heq] at hquiet
      exact hquiet port hport (List.mem_append_right _ (List.mem_singleton_self _))
  | hostLeft port => exact hbreaks.elim
  | timeout timer =>
    rcases timeout_cases (s := s) timer with ⟨-, hgoes⟩ | ⟨pending, hmem, -, -, hport, hclosed, -⟩
    · exact absurd hbreaks hgoes
    · intro hquiet
      refine hquiet pending.port (hport.trans (h.belongs pending hmem).1) ?_
      show pending.port ∈ (s.timeout timer).closed
      rw [hclosed]
      exact List.mem_append_right _ (List.mem_singleton_self _)

/-- With the last port closed the client has recovered just when it no longer holds it. -/
theorem recovered_iff (h : Inv [] s) : Recovered random s ↔ Quiet s := by
  constructor
  · intro hrecovered port hport hmem
    obtain ⟨hlast, hgeneration⟩ := h.connected port hport
    have hnone := (hrecovered port hmem hlast).2.1
    rw [hnone, List.getElem?_eq_getElem (by omega)] at hgeneration
    cases hgeneration
  · intro hquiet port hmem hlast
    have hport : s.port = none := by
      by_contra hne
      obtain ⟨own, hown⟩ := Option.ne_none_iff_exists'.1 hne
      have := (h.connected own hown).1
      obtain rfl : own = port := by omega
      exact hquiet own hown hmem
    exact ⟨(h.idle hport).2, (h.idle hport).1, fun posts => (connect_open random h hport posts).2.1⟩

theorem quiet_run (random : Random) {events : List Event}
    (hgoes : ∀ before event, before ++ [event] <+: events → ¬ (run random before).breaksOff event) :
    Quiet (run random events) := by
  induction events using List.reverseRecOn with
  | nil => exact fun port hport => nomatch hport
  | append_singleton events event ih =>
    rw [run_append]
    refine (quiet_step (inv_run random events) (ih fun before other hpre => ?_) ?_).1
    · exact hgoes before other (List.IsPrefix.trans hpre (List.prefix_append _ _))
    · exact hgoes events event List.prefix_rfl

/-- **The connection recovers from every close exactly when the client never closes the port it
holds.** In every run a response settles only its own request, and no request is settled twice. -/
theorem connection_recovers_iff (random : Random) (events : List Event) :
    ((∀ before event, before ++ [event] <+: events →
        Correlates (run random before) event (run random (before ++ [event]))) ∧
      ((run random events).settled.map Settlement.promise).Nodup) ∧
    (((∀ before, before <+: events → Recovered random (run random before)) ∧
        ∀ before event, before ++ [event] <+: events →
          Rejects (run random before) (run random (before ++ [event]))) ↔
      ∀ before event, before ++ [event] <+: events → ¬ (run random before).breaksOff event) := by
  refine ⟨⟨fun before event _ => ?_, (inv_run random events).once⟩, ?_, ?_⟩
  · rw [run_append]
    exact correlates_step (inv_run random before) event
  · rintro ⟨hrecovered, -⟩ before event hpre hbreaks
    have hquiet := (recovered_iff (inv_run random _)).1 (hrecovered _ hpre)
    rw [run_append] at hquiet
    exact not_quiet_step (inv_run random before) hbreaks hquiet
  · intro hgoes
    have hquiet : ∀ before, before <+: events → Quiet (run random before) := fun before hpre =>
      quiet_run random fun earlier event hearlier => hgoes earlier event (List.IsPrefix.trans hearlier hpre)
    refine ⟨fun before hpre => ?_, fun before event hpre => ?_⟩
    · exact (recovered_iff (inv_run random before)).2 (hquiet before hpre)
    · rw [run_append]
      have hbefore := hquiet before (List.IsPrefix.trans (List.prefix_append _ _) hpre)
      exact (quiet_step (inv_run random before) hbefore (hgoes before event hpre)).2

/-- The user denies the connection. -/
def denial : JsValue :=
  .object [("version", .number (.integer 1)), ("type", .string "error"),
    ("requestId", .string (randomToken fun _ => 0)), ("code", .string "denied")]

def deniedRun : NativeClient := run (fun _ _ => 0) [.connect true true, .message 0 denial]

/-- After a denied connection the client holds on to the port it has closed: `connect` opens no
other, and `generation` stays. -/
theorem connection_stuck :
    ¬ ∀ random events, Recovered random (run random events) := by
  intro hall
  have hrecovered : Recovered (fun _ _ => 0) deniedRun := hall _ _
  have hheld : deniedRun.generation ≠ none ∧ 0 ∈ deniedRun.closed ∧ deniedRun.opened.length = 1 := by
    decide +kernel
  exact hheld.1 (hrecovered 0 hheld.2.1 hheld.2.2.symm).2.1

end NativeClient

end NianPass.Native
