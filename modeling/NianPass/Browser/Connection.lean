import NianPass.Browser.Authority

/-
  The native connection of the background page is a `NativeClient`.

  The page's model holds of its connection what a credential depends on: the open port
  and its generation, and which flow waits for which request. Here the page runs beside
  the client of `background-native.ts` itself: an event of the page says what it is to the
  client, and the tokens the client draws are those the page has drawn last.

  What is proved:
    1. `connection_is_client`: after every such run the two agree on the port, the
       generation, the state shown and the requests that wait.

  A page runs more freely than a browser lets it: it also takes messages on a port its
  client has closed. Such an event has no counterpart, and what is proved of every run
  of the page does not need one.
-/
namespace NianPass.Browser

open Native (NativeAnswer NativeResponse DesktopConnectionState)

/-- What both models know of the connection. -/
structure Mirrors (b : NativeClient) (c : Native.NativeClient) : Prop where
  port : b.port = c.port
  generation : b.generation = c.generation
  state : b.state = c.state
  opened : ∀ port, b.opened port = c.opened[port]?
  nextPort : b.nextPort = c.opened.length
  pending : ∀ requestId, (b.pending.lookup requestId).map (fun p => (p.generation, p.kind.plain)) =
    (c.get requestId).map fun p => (p.generation, p.kind)

/-- An event of the client's request. -/
def RequestKind.event : RequestKind → Bool → Native.Event
  | .connect, posts => .connect true posts
  | .candidates origin, posts => .candidates origin posts
  | .credential origin vaultSessionId entryId, posts => .credential origin vaultSessionId entryId posts

/-- The state the popup shows once a request to connect is settled so. -/
def shownState : Option NativeAnswer → DesktopConnectionState
  | some (.connected locked) => if locked then .locked else .ready
  | _ => .disconnected

/-! ## The client -/

section client
variable {random : Native.Random} {c : Native.NativeClient} {pending : Native.PendingRequest}
  {response : Option NativeResponse}

theorem get_delete (requestId other : String) :
    (c.delete requestId).get other = if other = requestId then none else c.get other := by
  show (c.pending.filter _).find? _ = ite _ _ (c.pending.find? _)
  rw [List.find?_filter]
  split
  · case isTrue heq =>
    rw [List.find?_eq_none]
    simp [heq]
  · case isFalse hne =>
    congr 1
    funext p
    by_cases hp : p.requestId = other
    · simp [hp, hne]
    · simp [hp]

theorem get_set_eq (requestId : String) : (c.set pending).get requestId =
    if requestId = pending.requestId then some pending else c.get requestId := by
  split
  · case isTrue heq =>
    rw [heq]
    exact Native.NativeClient.get_set
  · case isFalse hne =>
    have hdelete := get_delete (c := c) pending.requestId requestId
    rw [if_neg hne] at hdelete
    rw [← hdelete]
    show (c.pending.filter _ ++ [pending]).find? _ = (c.pending.filter _).find? _
    rw [List.find?_append]
    simp [Ne.symm hne]

@[simp] theorem get_settle (requestId : String) :
    (c.settle pending response).get requestId = c.get requestId := by
  unfold Native.NativeClient.get
  rw [Native.NativeClient.settle_pending]

theorem settle_drawn : (c.settle pending response).drawn = c.drawn := by
  obtain ⟨state, h⟩ := c.settle_eq pending response
  rw [h]

theorem settle_state : (c.settle pending response).state =
    if pending.kind = .connect then shownState (response.map NativeResponse.answer) else c.state := by
  cases hkind : pending.kind
  case connect =>
    rw [if_pos rfl]
    cases hresponse : response.map NativeResponse.answer with
    | none => simp [Native.NativeClient.settle, Native.NativeClient.connectAnswered, hkind, hresponse, shownState,
        Native.NativeClient.disconnect]
    | some answer =>
      cases answer <;> simp [Native.NativeClient.settle, Native.NativeClient.connectAnswered, hkind, hresponse,
        shownState, Native.NativeClient.disconnect]
  all_goals simp [Native.NativeClient.settle, hkind]

end client

/-! ## One request -/

section Mirrors
variable {env : Env} {s : Background} {n : Nat} {random : Native.Random} {b : NativeClient}
  {c : Native.NativeClient}

theorem Mirrors.disconnect (h : Mirrors b c) (port : Nat) : Mirrors b (c.disconnect port) :=
  ⟨h.port, h.generation, h.state, h.opened, h.nextPort, h.pending⟩

theorem Mirrors.clearTimeout (h : Mirrors b c) (timer : Nat) : Mirrors b (c.clearTimeout timer) :=
  ⟨h.port, h.generation, h.state, h.opened, h.nextPort, h.pending⟩

theorem Mirrors.erase (h : Mirrors b c) (requestId : String) :
    Mirrors { b with pending := b.pending.erase requestId } (c.delete requestId) := by
  refine ⟨h.port, h.generation, h.state, h.opened, h.nextPort, ?_⟩
  intro other
  rw [get_delete]
  split
  · case isTrue heq =>
    subst heq
    simp
  · case isFalse hne =>
    rw [AList.lookup_erase_ne hne]
    exact h.pending other

theorem Mirrors.settle (h : Mirrors b c) (pending : Native.PendingRequest) (response : Option NativeResponse) :
    Mirrors { b with
      state := if pending.kind = .connect then shownState (response.map NativeResponse.answer) else b.state }
      (c.settle pending response) := by
  constructor
  case port => simpa using h.port
  case generation => simpa using h.generation
  case state =>
    rw [settle_state]
    dsimp only
    rw [h.state]
  case opened => simpa using h.opened
  case nextPort => simpa using h.nextPort
  case pending => simpa using h.pending

theorem giveUp_native (task : Task) : (s.giveUp n task).native =
    { s.native with state := if task = .connect then .disconnected else s.native.state } := by
  cases task <;> rfl

theorem Serves.connect_iff {pending : PendingRequest} {task : Task} (h : Serves pending task) :
    pending.kind.plain = .connect ↔ task = .connect := by
  cases task with
  | connect => simp [show pending.kind = _ from h, RequestKind.plain]
  | listed context listing => simp [show pending.kind = _ from h, RequestKind.plain]
  | requested handle candidate => simp [show pending.kind = _ from h.1, RequestKind.plain]
  | page message => exact absurd h id
  | list => exact absurd h id
  | confirm context answer => exact absurd h id
  | fill handle candidate => exact absurd h id
  | deliver handle candidate requestId username password => exact absurd h id

/-- A flow hears that its request is not answered. -/
theorem unanswered_native {flow : Flow} {pending : PendingRequest} (hflow : s.flows n = some flow)
    (hserves : Serves pending flow.task) : (s.unanswered n).native = { s.native with
      state := if pending.kind.plain = .connect then .disconnected else s.native.state } := by
  unfold Background.unanswered
  rw [hflow]
  dsimp only
  rw [giveUp_native]
  simp only [hserves.connect_iff]

/-- A flow goes on with its answer. -/
theorem resolve_native {flow : Flow} {pending : PendingRequest} (hflow : s.flows n = some flow)
    (hserves : Serves pending flow.task) (requestId : String) (answer : NativeAnswer) :
    (s.resolve n requestId answer).native = { s.native with
      state := if pending.kind.plain = .connect then shownState (some answer) else s.native.state } := by
  obtain ⟨task, question⟩ := flow
  simp only [hserves.connect_iff]
  unfold Background.resolve
  rw [hflow]
  cases task with
  | connect => cases answer <;> rfl
  | listed context listing =>
    dsimp only
    split <;> rfl
  | requested handle candidate =>
    cases answer with
    | credential username password =>
      dsimp only
      split <;> rfl
    | _ => rfl
  | page message => exact absurd hserves id
  | list => exact absurd hserves id
  | confirm context answer => exact absurd hserves id
  | fill handle candidate => exact absurd hserves id
  | deliver handle candidate requestId username password => exact absurd hserves id

section request
variable {task : Task} {kind : RequestKind} {create : String → Native.NativeRequest} {posts : Bool}
  {port : Nat} {generation : String}

/-- What a request leaves of the page's connection. -/
theorem request_native (hport : s.native.port = some port)
    (hgeneration : s.native.generation = some generation) :
    (s.request env n task kind posts).native =
      if posts then { s.native with
        pending := s.native.pending.insert (env.token s.drawn) ⟨generation, kind, n⟩ }
      else { s.native with state := if task = .connect then .disconnected else s.native.state } := by
  unfold Background.request
  rw [hport, hgeneration]
  cases posts with
  | true => rfl
  | false => exact giveUp_native task

theorem client_request_drawn (plain : Native.RequestKind) (hport : c.port = some port)
    (hgeneration : c.generation = some generation) :
    (c.request random plain create posts).drawn = c.drawn + 1 := by
  unfold Native.NativeClient.request
  rw [hport, hgeneration]
  dsimp only
  split
  · rfl
  · rw [settle_drawn]
    rfl

/-- Without a port nothing is asked. -/
theorem Mirrors.request_idle (h : Mirrors s.native c) (hport : c.port = none) (htask : task ≠ .connect) :
    Mirrors (s.request env n task kind posts).native (c.request random kind.plain create posts) := by
  have hclient : c.request random kind.plain create posts = c := by
    simp [Native.NativeClient.request, hport]
  have hpage : (s.request env n task kind posts).native = s.native := by
    unfold Background.request
    rw [h.port, hport]
    dsimp only
    rw [giveUp_native, if_neg htask]
  rw [hclient, hpage]
  exact h

/-- A request is made under the same token on both sides, and waits on both or on neither. -/
theorem Mirrors.request (kind : RequestKind) (h : Mirrors s.native c) (hport : c.port = some port)
    (hgeneration : c.generation = some generation)
    (htask : kind.plain = .connect ↔ task = .connect) (hopen : posts = true → port ∉ c.gone)
    (hnew : s.native.pending.lookup (env.token s.drawn) = none)
    (hdraw : Native.randomToken (random c.drawn) = env.token s.drawn) :
    Mirrors (s.request env n task kind posts).native (c.request random kind.plain create posts) := by
  unfold Native.NativeClient.request
  split
  case h_2 hnone => exact (hnone port generation hport hgeneration).elim
  case h_1 port' generation' hport' hgeneration' =>
  obtain rfl := Option.some.inj (hport.symm.trans hport')
  obtain rfl := Option.some.inj (hgeneration.symm.trans hgeneration')
  rw [request_native (h.port.trans hport) (h.generation.trans hgeneration), hdraw]
  dsimp only
  generalize hpending : Native.PendingRequest.mk (env.token s.drawn) generation kind.plain c.nextTimer port
    c.promises = pending
  have hid : pending.requestId = env.token s.drawn := by rw [← hpending]
  have hset : ∀ requestId, (c.set pending).get requestId =
      if requestId = env.token s.drawn then some pending else c.get requestId := hid ▸ get_set_eq
  cases posts with
  | true =>
    rw [if_pos rfl, if_pos ⟨rfl, hopen rfl⟩]
    refine ⟨h.port, h.generation, h.state, h.opened, h.nextPort, ?_⟩
    intro requestId
    refine Eq.trans ?_ (congrArg (Option.map _) (hset requestId)).symm
    split
    · case isTrue heq =>
      subst heq
      refine (congrArg _ (AList.lookup_insert _)).trans ?_
      rw [← hpending]
      rfl
    · case isFalse hne => exact (congrArg _ (AList.lookup_insert_ne hne)).trans (h.pending requestId)
  | false =>
    -- the refused request is taken out again, and had displaced none
    have hkind : task = .connect ↔ pending.kind = .connect := by
      rw [← hpending]
      exact htask.symm
    simp only [Bool.false_eq_true, false_and, if_false, hkind]
    refine Mirrors.settle (b := s.native) ?_ pending none
    refine ⟨h.port, h.generation, h.state, h.opened, h.nextPort, ?_⟩
    intro requestId
    rw [get_delete]
    split
    · case isTrue heq =>
      rw [heq, hnew]
      rfl
    · case isFalse hne =>
      refine (h.pending requestId).trans (congrArg (Option.map _) ?_)
      exact ((hset requestId).trans (if_neg hne)).symm

end request

/-! ## What the connection delivers -/

/-- A request waits on both sides or on neither. -/
theorem Mirrors.lookup_cases (h : Mirrors b c) (requestId : String) :
    (b.pending.lookup requestId = none ∧ c.get requestId = none) ∨
      ∃ pending other, b.pending.lookup requestId = some pending ∧ c.get requestId = some other ∧
        other.generation = pending.generation ∧ other.kind = pending.kind.plain := by
  have hsame := h.pending requestId
  cases hlookup : b.pending.lookup requestId with
  | none =>
    rw [hlookup, Option.map_none] at hsame
    exact .inl ⟨rfl, Option.map_eq_none_iff.1 hsame.symm⟩
  | some pending =>
    rw [hlookup, Option.map_some] at hsame
    obtain ⟨other, hget, heq⟩ := Option.map_eq_some_iff.1 hsame.symm
    exact .inr ⟨pending, other, rfl, hget, congrArg Prod.fst heq, congrArg Prod.snd heq⟩

/-- The client's port has its generation. -/
theorem open_generation (hinv : c.Inv []) {port : Nat} (hport : c.port = some port) :
    ∃ generation, c.generation = some generation ∧ c.opened[port]? = some generation := by
  obtain ⟨hlast, hgeneration⟩ := hinv.connected port hport
  have hopened : c.opened[port]? = some c.opened[port] := List.getElem?_eq_getElem (by omega)
  exact ⟨c.opened[port], hgeneration.trans hopened, hopened⟩

theorem Mirrors.nativeMessage (h : Mirrors s.native c) (hguarded : Guarded env s) (hinv : c.Inv []) {port : Nat}
    (hopen : port ∉ c.gone) (value : JsValue) :
    Mirrors (s.nativeMessage port (Native.parseNativeResponse value)).native
      (c.step random (.message port value)) := by
  by_cases hport : c.port = some port
  case neg =>
    have hstay : c.step random (.message port value) = c := by
      obtain ⟨hstay, -⟩ | ⟨generation, hport', -⟩ := Native.NativeClient.message_eq random hinv port value
      · exact hstay
      · exact absurd hport' hport
    unfold Background.nativeMessage
    rw [hstay, if_pos (Or.inl (h.port ▸ hport))]
    exact h
  obtain ⟨generation, hgeneration, hopened⟩ := open_generation hinv hport
  have hreceive : c.step random (.message port value) = c.receive port generation value := by
    unfold Native.NativeClient.step
    dsimp only
    rw [hopened]
    exact if_neg hopen
  have hgenerations : s.native.opened port = some generation := (h.opened port).trans hopened
  have hown : ¬ (s.native.port ≠ some port ∨ s.native.generation ≠ s.native.opened port) := by
    simp [h.port, hport, h.generation, hgeneration, hgenerations]
  rw [hreceive]
  unfold Background.nativeMessage Native.NativeClient.receive
  rw [if_neg hown, if_neg (by simp [hport, hgeneration]), hgenerations]
  cases Native.parseNativeResponse value with
  | none => exact h.disconnect port
  | some response =>
    dsimp only
    obtain ⟨hnone, hget⟩ | ⟨pending, other, hlookup, hget, hgeneration, hkind⟩ := h.lookup_cases response.requestId
    · rw [hnone, hget]
      exact h
    rw [hlookup, hget]
    dsimp only
    rw [hgeneration, hkind]
    by_cases hsame : pending.generation = generation
    case neg =>
      rw [if_neg (fun hall => hsame hall.1), if_pos hsame]
      exact h
    rw [if_neg (not_not_intro hsame)]
    by_cases hpending : response.answer = .approvalPending
    · rw [if_neg (fun hall => hall.2.1 hpending), if_pos hpending]
      split
      · exact h.disconnect port
      · exact h
    rw [if_neg hpending]
    by_cases hexpects : pending.kind.plain.expects response.answer
    · rw [if_pos ⟨hsame, hpending, hexpects⟩, if_pos hexpects]
      obtain ⟨flow, hflow, -, hserves, -⟩ := hguarded.pending response.requestId pending hlookup
      have hnative := resolve_native (s := { s with
          received := s.received ++ [(generation, response)]
          native := { s.native with pending := s.native.pending.erase response.requestId } })
        hflow hserves response.requestId response.answer
      rw [hnative, ← hkind]
      exact ((h.erase response.requestId).clearTimeout other.timer).settle other (some response)
    · rw [if_neg (fun hall => hexpects hall.2.2), if_neg hexpects]
      exact h.disconnect port

theorem Mirrors.timeout (h : Mirrors s.native c) (hguarded : Guarded env s) {timer : Nat}
    {requestId generation : String} (htimer : c.timers timer = some (requestId, generation)) :
    Mirrors (s.timeout requestId generation).native (c.timeout timer) := by
  unfold Background.timeout Native.NativeClient.timeout
  rw [htimer]
  dsimp only
  obtain ⟨hnone, hget⟩ | ⟨pending, other, hlookup, hget, hgeneration, hkind⟩ := h.lookup_cases requestId
  · rw [hnone, show (c.clearTimeout timer).get requestId = none from hget]
    exact h.clearTimeout timer
  rw [hlookup, show (c.clearTimeout timer).get requestId = some other from hget]
  dsimp only
  rw [hgeneration]
  split
  · obtain ⟨flow, hflow, -, hserves, -⟩ := hguarded.pending requestId pending hlookup
    have hnative := unanswered_native
      (s := { s with native := { s.native with pending := s.native.pending.erase requestId } }) hflow hserves
    rw [hnative, ← hkind]
    exact ((h.clearTimeout timer).erase requestId).settle other none
  · exact h.clearTimeout timer

/-- The settlements of a lost connection change nothing that is mirrored. -/
theorem mirrors_settleAll (h : Mirrors b c) (hstate : b.state = .disconnected)
    (owed : List Native.PendingRequest) : Mirrors b (c.settleAll owed) := by
  induction owed generalizing c with
  | nil => exact h
  | cons pending owed ih =>
    refine ih (c := (c.clearTimeout pending.timer).settle pending none) ?_
    have hsettled := (h.clearTimeout pending.timer).settle pending none
    have hsame : (if pending.kind = .connect then shownState none else b.state) = b.state := by
      rw [hstate]
      split <;> rfl
    rwa [Option.map_none, hsame] at hsettled

theorem unanswered_all_native (hstate : s.native.state = .disconnected) (list : List Nat) :
    (list.foldl Background.unanswered s).native = s.native := by
  induction list generalizing s with
  | nil => rfl
  | cons n list ih =>
    have hstep : (s.unanswered n).native = s.native := by
      unfold Background.unanswered
      split
      · rw [giveUp_native, hstate, ite_self, ← hstate]
      · rfl
    exact (ih (hstep ▸ hstate)).trans hstep

theorem Mirrors.nativeLeft (h : Mirrors s.native c) (hinv : c.Inv []) {port : Nat} (hopen : port ∉ c.gone) :
    Mirrors (s.nativeLeft port).native (c.step random (.hostLeft port)) := by
  by_cases hport : c.port = some port
  case neg =>
    have hstay : Mirrors s.native (c.step random (.hostLeft port)) := by
      unfold Native.NativeClient.step
      dsimp only
      split
      · rw [if_neg hopen, Native.NativeClient.disconnected, if_pos (Or.inl hport)]
        exact ⟨h.port, h.generation, h.state, h.opened, h.nextPort, h.pending⟩
      · exact h
    unfold Background.nativeLeft
    rw [if_pos (Or.inl (h.port ▸ hport))]
    exact hstay
  obtain ⟨generation, hgeneration, hopened⟩ := open_generation hinv hport
  have hgenerations : s.native.opened port = some generation := (h.opened port).trans hopened
  have hown : ¬ (s.native.port ≠ some port ∨ s.native.generation ≠ s.native.opened port) := by
    simp [h.port, hport, h.generation, hgeneration, hgenerations]
  have hleft : c.step random (.hostLeft port) = Native.NativeClient.settleAll { c with
      gone := c.gone ++ [port], port := none, generation := none, state := .disconnected, pending := [] }
      c.pending := by
    unfold Native.NativeClient.step
    dsimp only
    rw [hopened]
    dsimp only
    rw [if_neg hopen]
    exact Native.NativeClient.disconnected_eq (hinv.leave (List.getElem?_eq_some_iff.1 hopened).1) hport hgeneration
  rw [hleft]
  unfold Background.nativeLeft
  rw [if_neg hown]
  dsimp only
  rw [unanswered_all_native (by rfl)]
  refine mirrors_settleAll ?_ rfl _
  refine ⟨rfl, rfl, rfl, h.opened, h.nextPort, ?_⟩
  intro requestId
  refine (Option.map_eq_none_iff.2 ?_).trans (Option.map_none _).symm
  rw [Option.eq_none_iff_forall_ne_some]
  intro pending hleftover
  obtain ⟨hkept, hlookup⟩ := lookup_erase_all hleftover
  refine hkept (List.mem_map.2 ⟨⟨requestId, pending⟩, List.mem_filter.2 ⟨AList.mem_lookup_iff.1 hlookup, ?_⟩, rfl⟩)
  -- all that waits belongs to the connection that is lost
  obtain ⟨hnone, -⟩ | ⟨pending', other, hlookup', hget, hown', -⟩ := h.lookup_cases requestId
  · cases hnone.symm.trans hlookup
  obtain rfl := Option.some.inj (hlookup'.symm.trans hlookup)
  have hbelongs := (hinv.belongs other (Native.NativeClient.mem_of_get hget).1).2
  simp [h.generation, hbelongs, hown']

/-- What the client draws in a step is what the page draws last. -/
def SameDraws (env : Env) (random : Native.Random) (c c' : Native.NativeClient) (s' : Background) : Prop :=
  ∀ i, c.drawn + i < c'.drawn →
    Native.randomToken (random (c'.drawn - (i + 1))) = env.token (s'.drawn - (i + 1))

/-- A fresh port on both sides. -/
theorem Mirrors.opens (h : Mirrors b c) (generation : String) (drawn : Nat) :
    Mirrors { b with
      port := some b.nextPort, generation := some generation, state := .waiting
      opened := Function.update b.opened b.nextPort (some generation), nextPort := b.nextPort + 1 }
      { c with
        drawn := drawn, port := some c.opened.length, generation := some generation
        state := .waiting, opened := c.opened ++ [generation] } := by
  constructor
  case port => exact congrArg some h.nextPort
  case generation => rfl
  case state => rfl
  case opened =>
    intro port
    dsimp only
    rw [h.nextPort]
    by_cases heq : port = c.opened.length
    · subst heq
      simp
    · rw [Function.update_of_ne heq, h.opened, List.getElem?_append]
      split
      · rfl
      · rw [List.getElem?_eq_none (by omega), List.getElem?_eq_none (by simp; omega)]
  case nextPort => simp [h.nextPort]
  case pending => exact h.pending

theorem Mirrors.connect (h : Mirrors s.native c) (hinv : c.Inv []) {connects posts : Bool}
    (hdraws : SameDraws env random c (c.connect random connects posts) (s.connect env connects posts)) :
    Mirrors (s.connect env connects posts).native (c.connect random connects posts) := by
  by_cases hport : c.port.isSome
  case pos =>
    unfold Background.connect Native.NativeClient.connect
    rw [h.port, if_pos hport, if_pos hport]
    exact h
  cases connects with
  | false =>
    unfold Background.connect Native.NativeClient.connect
    rw [h.port, if_neg hport, if_neg hport]
    exact ⟨h.port, h.generation, rfl, h.opened, h.nextPort, h.pending⟩
  | true =>
    have hclient : c.connect random true posts = Native.NativeClient.request random { c with
        drawn := c.drawn + 1
        port := some c.opened.length
        generation := some (Native.randomToken (random c.drawn))
        state := .waiting
        opened := c.opened ++ [Native.randomToken (random c.drawn)] } .connect .connect posts := by
      unfold Native.NativeClient.connect
      rw [if_neg hport, if_pos rfl]
    have hpage : s.connect env true posts = Background.request env { s with
        drawn := s.drawn + 1
        native := { s.native with
          port := some s.native.nextPort, generation := some (env.token s.drawn), state := .waiting
          opened := Function.update s.native.opened s.native.nextPort (some (env.token s.drawn))
          nextPort := s.native.nextPort + 1 }
        epoch := s.epoch + 1
        nextFlow := s.nextFlow + 1 } s.nextFlow .connect .connect posts := by
      unfold Background.connect
      rw [h.port, if_neg hport, if_pos rfl]
      rfl
    rw [hclient, hpage] at hdraws ⊢
    unfold SameDraws at hdraws
    rw [client_request_drawn .connect rfl rfl, request_drawn posts rfl rfl] at hdraws
    have hgeneration : Native.randomToken (random c.drawn) = env.token s.drawn := by
      have := hdraws 1 (by simp)
      simpa using this
    have hidle : c.pending = [] := (hinv.idle (by simpa using hport)).2
    refine Mirrors.request .connect ?_ rfl rfl (by simp [RequestKind.plain]) ?_ ?_ ?_
    · rw [← hgeneration]
      exact h.opens _ _
    · intro _ hgone
      exact absurd (hinv.gone _ hgone) (by omega)
    · obtain ⟨hnone, -⟩ | ⟨pending, other, -, hget, -⟩ := h.lookup_cases (env.token (s.drawn + 1))
      · exact hnone
      · rw [Native.NativeClient.get, hidle] at hget
        cases hget
    · have := hdraws 0 (by simp)
      simpa using this

/-! ## What the page asks for -/

end Mirrors

namespace Background
variable (s : Background)

/-- The request a flow makes when it goes on. -/
def asks : Task → Option CurrentCredentialContext → Option RequestKind
  | .list, some context => some (.candidates context.page.origin)
  | .fill _ candidate, some context =>
    if candidateMatches candidate context && decide (s.native.generation = some candidate.nativeGeneration) then
      some (.credential candidate.origin candidate.vaultSessionId candidate.entryId)
    else none
  | _, _ => none

/-- The request that follows an event at once, `connect` apart. -/
def requestOf : Event → Option RequestKind
  | .permissionAnswer n (some true) _ =>
    match s.flows n with
    | some ⟨task, .containsOrigin site⟩ => s.asks task (s.currentContext site)
    | _ => none
  | _ => none

end Background

/-- Events of the native connection. -/
def Event.isNative : Event → Bool
  | .connect _ _ => true
  | .nativeMessage _ _ => true
  | .nativeLeft _ => true
  | .timeout _ _ => true
  | _ => false

section steps
variable {env : Env} {s : Background} {n : Nat} {random : Native.Random} {c : Native.NativeClient}

theorem authorize_all_native (vaultSessionId : String) (context : CurrentCredentialContext)
    (list : List Native.NativeCandidate) :
    (list.foldl (fun s native => s.authorize env vaultSessionId context native) s).native = s.native := by
  induction list generalizing s with
  | nil => rfl
  | cons native list ih => exact ih.trans (authorize_frame env s vaultSessionId context native).2.2.1

theorem replaceVaultSession_native (vaultSessionId : String) :
    (s.replaceVaultSession vaultSessionId).native = s.native := by
  unfold Background.replaceVaultSession
  split <;> rfl

theorem clearCandidates_all_native (tabs : List Int) :
    (tabs.foldl Background.clearCandidates s).native = s.native := by
  induction tabs generalizing s with
  | nil => rfl
  | cons tabId tabs ih => exact ih

/-- A flow that asks the desktop nothing leaves the connection alone. -/
theorem resume_native {task : Task} {context : Option CurrentCredentialContext} {posts : Bool}
    (hasks : s.asks task context = none) : (s.resume env n task context posts).native = s.native := by
  unfold Background.resume
  cases context with
  | none => cases task <;> rfl
  | some context =>
    cases task with
    | list => cases hasks
    | fill handle candidate =>
      dsimp only [Background.asks] at hasks
      dsimp only
      split
      · case isTrue hmatches =>
        rw [if_pos hmatches] at hasks
        cases hasks
      · rfl
    | confirm expected answer =>
      dsimp only
      split
      · cases answer with
        | candidates vaultSessionId candidates truncated =>
          exact (authorize_all_native vaultSessionId expected candidates).trans (replaceVaultSession_native _)
        | error code => cases code <;> rfl
        | _ => rfl
      · rfl
    | deliver handle candidate requestId username password =>
      dsimp only
      split
      · split <;> rfl
      · rfl
    | _ => rfl

theorem channelStep_native (event : ChannelEvent) : (s.channelStep env event).native = s.native :=
  clearCandidates_all_native _

theorem step_native {event : Event} (hlocal : event.isNative = false) (hasks : s.requestOf event = none) :
    (s.step env event).native = s.native := by
  cases event with
  | channel event => exact channelStep_native event
  | pageState message sender =>
    show (s.pageState env message sender).native = _
    unfold Background.pageState
    split
    · rfl
    · dsimp only
      split <;> rfl
  | connect connects posts => cases hlocal
  | listCandidates =>
    show s.listCandidates.native = _
    unfold Background.listCandidates
    split <;> rfl
  | fill handle =>
    show (s.fill handle).native = _
    unfold Background.fill
    split <;> rfl
  | tabAnswer n answer posts =>
    show (s.tabAnswer env n answer posts).native = _
    unfold Background.tabAnswer
    split
    · split
      · rfl
      · split
        · exact resume_native (by cases ‹Task› <;> rfl)
        · rfl
    · rfl
  | permissionAnswer n answer posts =>
    show (s.permissionAnswer env n answer posts).native = _
    unfold Background.permissionAnswer
    split
    case h_2 => rfl
    case h_1 task site hflow =>
    cases answer with
    | none => rfl
    | some permitted =>
      have hnone : s.asks task (if permitted then s.currentContext site else none) = none := by
        cases permitted with
        | true => simpa [Background.requestOf, hflow] using hasks
        | false => cases task <;> rfl
      cases task with
      | page message =>
        dsimp only
        split <;> rfl
      | _ => exact resume_native hnone
  | nativeMessage port message => cases hlocal
  | nativeLeft port => cases hlocal
  | timeout requestId generation => cases hlocal
  | tabGone tabId => exact channelStep_native _
  | permissionsRemoved => exact channelStep_native _

variable (env n) in
/-- A flow that asks makes one request, under the next token or the one after it. -/
theorem resume_request {task : Task} {context : Option CurrentCredentialContext} {kind : RequestKind}
    (hasks : s.asks task context = some kind) (posts : Bool) :
    ∃ (t : Background) (task' : Task),
      s.resume env n task context posts = t.request env n task' kind posts ∧ t.native = s.native ∧
        s.drawn ≤ t.drawn ∧ task' ≠ .connect ∧ kind.plain ≠ .connect := by
  cases context with
  | none => cases task <;> cases hasks
  | some context =>
    cases task with
    | list =>
      obtain rfl := Option.some.inj hasks
      exact ⟨_, _, rfl, rfl, Nat.le_succ _, nofun, nofun⟩
    | fill handle candidate =>
      dsimp only [Background.asks] at hasks
      split at hasks
      · case isTrue hmatches =>
        obtain rfl := Option.some.inj hasks
        refine ⟨s, .requested handle candidate, ?_, rfl, le_rfl, nofun, nofun⟩
        unfold Background.resume
        dsimp only
        rw [if_pos hmatches]
      · cases hasks
    | _ => cases hasks

variable (random c) in
theorem RequestKind.event_step {kind : RequestKind} (hkind : kind.plain ≠ .connect) (posts : Bool) :
    ∃ create, c.step random (kind.event posts) = c.request random kind.plain create posts := by
  cases kind with
  | connect => exact absurd rfl hkind
  | candidates origin => exact ⟨(.candidates · origin), rfl⟩
  | credential origin vaultSessionId entryId => exact ⟨(.credential · origin vaultSessionId entryId), rfl⟩

theorem Mirrors.permissionAnswer (h : Mirrors s.native c) (hguarded : Guarded env s) (hinv : c.Inv [])
    {kind : RequestKind} {posts : Bool} (hasks : s.requestOf (.permissionAnswer n (some true) posts) = some kind)
    (hopen : posts = true → ∀ port, c.port = some port → port ∉ c.gone)
    (hrepeat : NoRepeat env (s.step env (.permissionAnswer n (some true) posts)).drawn)
    (hdraws : SameDraws env random c (c.step random (kind.event posts))
      (s.step env (.permissionAnswer n (some true) posts))) :
    Mirrors (s.step env (.permissionAnswer n (some true) posts)).native (c.step random (kind.event posts)) := by
  dsimp only [Background.requestOf] at hasks
  split at hasks
  case h_2 => cases hasks
  case h_1 task site hflow =>
  obtain ⟨t, task', hresume, hnative, hle, htask, hkind⟩ := resume_request env n hasks posts
  have hstep : s.step env (.permissionAnswer n (some true) posts) = t.request env n task' kind posts := by
    rw [← hresume]
    show s.permissionAnswer env n (some true) posts = _
    unfold Background.permissionAnswer
    rw [hflow]
    cases task with
    | page message => cases hasks
    | _ => rfl
  obtain ⟨create, hclient⟩ := RequestKind.event_step random c hkind posts
  rw [hstep] at hrepeat hdraws ⊢
  rw [hclient] at hdraws ⊢
  rw [← hnative] at h
  cases hport : c.port with
  | none => exact h.request_idle hport htask
  | some port =>
    obtain ⟨generation, hgeneration, -⟩ := open_generation hinv hport
    unfold SameDraws at hdraws
    rw [client_request_drawn kind.plain hport hgeneration,
      request_drawn posts (h.port.trans hport) (h.generation.trans hgeneration)] at hdraws
    rw [request_drawn posts (h.port.trans hport) (h.generation.trans hgeneration)] at hrepeat
    refine h.request kind hport hgeneration ⟨fun heq => absurd heq hkind, fun heq => absurd heq htask⟩
      (fun hposts => hopen hposts port hport) ?_ ?_
    · rw [Option.eq_none_iff_forall_ne_some, hnative]
      intro pending hlookup
      obtain ⟨-, -, -, -, hrequest⟩ := hguarded.pending _ pending hlookup
      exact (hguarded.requestIds _ hrequest).ne_token hle (Nat.lt_succ_self _) hrepeat rfl
    · have := hdraws 0 (by simp)
      simpa using this

end steps

/-! ## Side by side -/

/-- What an event of the page is to its client, if a browser delivers it: a port that is
disconnected takes and brings no message, and a timer runs off that is set. -/
inductive Counterpart (s : Background) (c : Native.NativeClient) : Event → Option Native.Event → Prop
  | connect (connects posts : Bool) : Counterpart s c (.connect connects posts) (some (.connect connects posts))
  | asks {n : Nat} {posts : Bool} {kind : RequestKind}
      (asked : s.requestOf (.permissionAnswer n (some true) posts) = some kind)
      (live : posts = true → ∀ port, c.port = some port → port ∉ c.gone) :
      Counterpart s c (.permissionAnswer n (some true) posts) (some (kind.event posts))
  | message {port : Nat} (live : port ∉ c.gone) (value : JsValue) :
      Counterpart s c (.nativeMessage port (Native.parseNativeResponse value)) (some (.message port value))
  | left {port : Nat} (live : port ∉ c.gone) : Counterpart s c (.nativeLeft port) (some (.hostLeft port))
  | timeout {timer : Nat} {requestId generation : String} (set : c.timers timer = some (requestId, generation)) :
      Counterpart s c (.timeout requestId generation) (some (.timeout timer))
  | silent {event : Event} (unrelated : event.isNative = false) (asked : s.requestOf event = none) :
      Counterpart s c event none

/-- A run of the page and the run of its client. -/
inductive Beside (env : Env) (random : Native.Random) : List Event → List Native.Event → Prop
  | start : Beside env random [] []
  | step {events : List Event} {calls : List Native.Event} {event : Event} {call : Option Native.Event}
      (before : Beside env random events calls)
      (counterpart : Counterpart (Background.run env events) (Native.NativeClient.run random calls) event call)
      (draws : SameDraws env random (Native.NativeClient.run random calls)
        (Native.NativeClient.run random (calls ++ call.toList)) (Background.run env (events ++ [event]))) :
      Beside env random (events ++ [event]) (calls ++ call.toList)

section Beside
variable {env : Env} {random : Native.Random} {events : List Event} {calls : List Native.Event}

theorem mirrors_initial : Mirrors Background.initial.native {} :=
  ⟨rfl, rfl, rfl, fun _ => rfl, rfl, fun _ => rfl⟩

theorem Mirrors.step {s : Background} {c : Native.NativeClient} (h : Mirrors s.native c) (hguarded : Guarded env s)
    (hinv : c.Inv []) {event : Event} {call : Option Native.Event} (hcounterpart : Counterpart s c event call)
    (hrepeat : NoRepeat env (s.step env event).drawn)
    (hdraws : SameDraws env random c (call.toList.foldl (Native.NativeClient.step random) c) (s.step env event)) :
    Mirrors (s.step env event).native (call.toList.foldl (Native.NativeClient.step random) c) := by
  cases hcounterpart with
  | connect connects posts => exact h.connect hinv hdraws
  | asks asked live => exact h.permissionAnswer hguarded hinv asked live hrepeat hdraws
  | @message port live value =>
    show Mirrors _ (c.step random (.message port value))
    exact h.nativeMessage hguarded hinv live value
  | @left port live =>
    show Mirrors _ (c.step random (.hostLeft port))
    exact h.nativeLeft hinv live
  | timeout set => exact h.timeout hguarded set
  | silent unrelated asked =>
    rw [step_native unrelated asked]
    exact h

/-- The page's connection is its client's, after every run. -/
theorem connection_is_client (h : Beside env random events calls)
    (hrepeat : NoRepeat env (Background.run env events).drawn) :
    Mirrors (Background.run env events).native (Native.NativeClient.run random calls) := by
  induction h with
  | start => exact mirrors_initial
  | @step events calls event call before counterpart draws ih =>
    have hpage : Background.run env (events ++ [event]) = (Background.run env events).step env event := by
      simp [Background.run]
    have hclient : Native.NativeClient.run random (calls ++ call.toList) =
        call.toList.foldl (Native.NativeClient.step random) (Native.NativeClient.run random calls) := by
      simp [Native.NativeClient.run]
    rw [hpage] at hrepeat draws ⊢
    rw [hclient] at draws ⊢
    have hbefore := hrepeat.mono (drawn_le_step _ event)
    exact (ih hbefore).step (guarded_run hbefore) (Native.NativeClient.inv_run random calls) counterpart hrepeat draws

/-- The bytes of `sampleToken`. -/
def sampleRandom : Native.Random := fun draw index =>
  if index = 15 then UInt8.ofNat (240 + draw % 16) else UInt8.ofNat (15 * (index + 1))

example : Beside sampleEnv sampleRandom [.connect true true] [.connect true true] := by
  refine .step .start (.connect true true) ?_
  have hdraws : ∀ i < 2, Native.randomToken (sampleRandom (2 - (i + 1))) = sampleToken (2 - (i + 1)) := by
    decide +kernel
  intro i hi
  have hlt : 0 + i < 2 := hi
  exact hdraws i (by omega)

end Beside

end NianPass.Browser
