import NianPass.Desktop.Bridge

/-
  The approval of browser connections (`browser_bridge.rs`): `ApprovalBroker` and the
  connection threads of `handle_connection`.

  Each connection has a thread, and all share the table of pending approvals, as does the
  command by which the user decides. A step is what one of them does between two locks or
  waits; the steps of all come in any order. Whether a write succeeds, the window can be
  shown or a random source answers is part of the event. Identifiers may repeat.

  A deadline is an event that may happen at any time while a thread waits.

  What is proved (`no_data_before_approval`): candidates and credentials go only to a
  connection whose own approval the user granted and which was let through for it; a
  decision reaches only the connection that created its identifier, once; an approval that
  expired or was not shown lets nothing through, even when a decision comes in between the
  end of the wait and the removal from the table.
-/
namespace NianPass.Desktop.Bridge

open Kdbx NativeProtocol
open Provider (UrlParser)

/-- What is remembered of a run. -/
inductive Act where
  /-- the thread of a connection puts an approval into the table -/
  | created (connection : Nat) (id : String)
  /-- the user's decision on an identifier reaches the approval of a connection: `resolve` answers
  that it did -/
  | delivered (id : String) (allow : Bool) (connection : Nat)
  /-- the wait ends without a decision -/
  | expired (connection : Nat)
  /-- the approval is not shown to the user -/
  | cancelled (connection : Nat)
  /-- the approval resolves positively: `request` returns that the connection is allowed -/
  | released (connection : Nat)
  /-- `request` returns that the connection is not allowed -/
  | refused (connection : Nat)
  | sent (connection : Nat) (response : BrowserResponse)
deriving DecidableEq

/-- Where the thread of a connection stands. -/
inductive Phase where
  | reading
  | asking (requestId : String)
  | notifying (requestId token : String) (inserted : Bool)
  | waiting (requestId token : String)
  | removing (requestId token : String) (allowed : Bool)
  | leaving (requestId : String) (allowed : Bool)
  | decided (requestId : String) (allowed : Bool)
  | authorised
  | closed
deriving DecidableEq

/-- The receiver of a connection's channel is still there. -/
def Phase.listens : Phase → Bool
  | .notifying _ _ _ | .waiting _ _ | .removing _ _ _ | .leaving _ _ => true
  | _ => false

/-- A decision whose sender was taken out of the table and has not been used yet. -/
structure Decision where
  id : String
  allow : Bool
  connection : Nat
deriving DecidableEq

structure Broker where
  accepted : Nat := 0
  phases : Nat → Phase := fun _ => .closed
  /-- whose sender stands under an identifier -/
  pending : String → Option Nat := fun _ => none
  /-- what a connection's channel holds -/
  mailbox : Nat → Option Bool := fun _ => none
  decisions : List Decision := []
  log : List Act := []

inductive BrokerEvent (V : Type) where
  | accept
  /-- the first request is read, or none is -/
  | first (connection : Nat) (request : Option BrowserRequest) (written : Bool)
  | draw (connection : Nat) (token : Option String)
  | notify (connection : Nat) (notified : Bool)
  | receive (connection : Nat)
  | expire (connection : Nat)
  | remove (connection : Nat)
  | leave (connection : Nat)
  | reply (connection : Nat) (unlocked written : Bool)
  | serve (connection : Nat) (request : Option BrowserRequest) (app : AppState V) (written : Bool)
  /-- the user decides: the sender is taken -/
  | resolve (id : String) (allow : Bool)
  /-- and used -/
  | send (index : Nat)

namespace Broker
variable {V : Type} (lib : Editing V) (U : UrlParser) (s : Broker)

def enter (connection : Nat) (phase : Phase) : Broker :=
  { s with phases := Function.update s.phases connection phase }

def note (act : Act) : Broker := { s with log := s.log ++ [act] }

/-- A response is written, and the thread goes on if that succeeds. -/
def write (connection : Nat) (response : BrowserResponse) (next : Phase) (written : Bool) : Broker :=
  (s.note (.sent connection response)).enter connection (if written then next else .closed)

def step : BrokerEvent V → Broker
  | .accept => { s.enter s.accepted .reading with accepted := s.accepted + 1 }
  | .first connection request written =>
    match s.phases connection, request with
    | .reading, some (.connect _ requestId) =>
      s.write connection (.approvalPending PROTOCOL_VERSION requestId) (.asking requestId) written
    | .reading, some request =>
      s.write connection (error request.requestId .approvalRequired) .closed written
    | .reading, none => s.enter connection .closed
    | _, _ => s
  | .draw connection token =>
    match s.phases connection, token with
    | .asking requestId, some token =>
      { (s.note (.created connection token)).enter connection
          (.notifying requestId token (s.pending token).isNone) with
        pending := Function.update s.pending token (some connection) }
    | .asking requestId, none =>
      (s.note (.refused connection)).enter connection (.decided requestId false)
    | _, _ => s
  | .notify connection notified =>
    match s.phases connection with
    | .notifying requestId token inserted =>
      if inserted && notified then s.enter connection (.waiting requestId token)
      else (s.note (.cancelled connection)).enter connection (.removing requestId token false)
    | _ => s
  | .receive connection =>
    match s.phases connection, s.mailbox connection with
    | .waiting requestId token, some allow =>
      { s.enter connection (.removing requestId token allow) with
        mailbox := Function.update s.mailbox connection none }
    | _, _ => s
  | .expire connection =>
    match s.phases connection with
    | .waiting requestId token =>
      (s.note (.expired connection)).enter connection (.removing requestId token false)
    | _ => s
  | .remove connection =>
    match s.phases connection with
    | .removing requestId token allowed =>
      { s.enter connection (.leaving requestId allowed) with
        pending := Function.update s.pending token none }
    | _ => s
  | .leave connection =>
    match s.phases connection with
    | .leaving requestId true =>
      (s.note (.released connection)).enter connection (.decided requestId true)
    | .leaving requestId false =>
      (s.note (.refused connection)).enter connection (.decided requestId false)
    | _ => s
  | .reply connection unlocked written =>
    match s.phases connection with
    | .decided requestId true =>
      s.write connection (.connected PROTOCOL_VERSION requestId (if unlocked then .ready else .locked))
        .authorised written
    | .decided requestId false => s.write connection (error requestId .denied) .closed written
    | _ => s
  | .serve connection request app written =>
    match s.phases connection, request with
    | .authorised, some request =>
      s.write connection (handleAuthorizedRequest lib U app request) .authorised written
    | .authorised, none => s.enter connection .closed
    | _, _ => s
  | .resolve id allow =>
    match s.pending id with
    | some connection =>
      { s with
        pending := Function.update s.pending id none
        decisions := s.decisions ++ [⟨id, allow, connection⟩] }
    | none => s
  | .send index =>
    match s.decisions[index]? with
    | some decision =>
      let s := { s with decisions := s.decisions.eraseIdx index }
      if (s.phases decision.connection).listens ∧ s.mailbox decision.connection = none then
        { s.note (.delivered decision.id decision.allow decision.connection) with
          mailbox := Function.update s.mailbox decision.connection (some decision.allow) }
      else s
    | none => s

def run (events : List (BrokerEvent V)) : Broker := events.foldl (step lib U) {}

end Broker

/-! ## Orderly runs -/

/-- A response that carries data of the vault. -/
def isData : BrowserResponse → Bool
  | .candidates _ _ _ _ _ | .credential _ _ _ _ => true
  | _ => false

/-- The approval of a connection was delivered positively. -/
def Approved (before : List Act) (connection : Nat) : Prop :=
  ∃ id, .created connection id ∈ before ∧ .delivered id true connection ∈ before

/-- The approval of a connection has neither expired nor been cancelled. -/
def Alive (before : List Act) (connection : Nat) : Prop :=
  .expired connection ∉ before ∧ .cancelled connection ∉ before

/-- `request` has not returned for a connection. -/
def Open (before : List Act) (connection : Nat) : Prop :=
  .released connection ∉ before ∧ .refused connection ∉ before

/-- What must have come before an act. -/
def Justified (before : List Act) : Act → Prop
  | .sent connection response =>
    isData response = true →
      .released connection ∈ before ∧ Approved before connection ∧ Alive before connection
  | .released connection => Approved before connection ∧ Alive before connection
  | .delivered id _ connection =>
    .created connection id ∈ before ∧ (∀ other allow, .delivered other allow connection ∉ before) ∧
      Open before connection
  | .created connection _ => ∀ id, .created connection id ∉ before
  | .expired _ | .cancelled _ | .refused _ => True

def Ordered (log : List Act) : Prop :=
  ∀ before act after, log = before ++ act :: after → Justified before act

theorem ordered_nil : Ordered [] := by
  intro before act after h
  simp at h

theorem ordered_append {log : List Act} {act : Act} (h : Ordered log) (hact : Justified log act) :
    Ordered (log ++ [act]) := by
  intro before other after heq
  rcases List.append_eq_append_iff.1 heq with ⟨middle, hbefore, hafter⟩ | ⟨middle, hlog, hafter⟩
  · -- the act itself, or nothing is left of it
    cases middle with
    | nil =>
      obtain ⟨rfl, -⟩ := List.cons.inj hafter
      rw [List.append_nil] at hbefore
      exact hbefore ▸ hact
    | cons head middle => simp at hafter
  · cases middle with
    | nil =>
      obtain ⟨rfl, -⟩ := List.cons.inj hafter
      rw [List.append_nil] at hlog
      exact hlog ▸ hact
    | cons head middle =>
      obtain ⟨rfl, -⟩ := List.cons.inj hafter
      exact h before other middle hlog

/-- An approval is created once for a connection. -/
theorem Ordered.created_unique {log : List Act} (h : Ordered log) {connection : Nat} {id other : String}
    (hid : .created connection id ∈ log) (hother : .created connection other ∈ log) : id = other := by
  obtain ⟨before, after, rfl⟩ := List.append_of_mem hid
  have hfresh : ∀ text, Act.created connection text ∉ before := h before _ after rfl
  rcases List.mem_append.1 hother with hbefore | hafter
  · exact absurd hbefore (hfresh other)
  · rcases List.mem_cons.1 hafter with heq | hlater
    · exact (Act.created.inj heq).2.symm
    · -- the later one comes after the first
      obtain ⟨middle, last, rfl⟩ := List.append_of_mem hlater
      have hnone := h (before ++ .created connection id :: middle) (.created connection other) last
        (by simp)
      exact absurd (by simp) (hnone id)

theorem Ordered.delivered_created {log : List Act} (h : Ordered log) {connection : Nat} {id : String}
    {allow : Bool} (hacts : .delivered id allow connection ∈ log) : .created connection id ∈ log := by
  obtain ⟨before, after, rfl⟩ := List.append_of_mem hacts
  exact List.mem_append_left _ (h before _ after rfl).1

/-! ## What holds in every state -/

/-- The connection whose standing an act changes. -/
def Act.limits : Act → Option Nat
  | .created connection _ | .expired connection | .cancelled connection => some connection
  | _ => none

/-- The connection for which an act has `request` return. -/
def Act.returns : Act → Option Nat
  | .released connection | .refused connection => some connection
  | _ => none

def Act.isDelivery : Act → Bool
  | .delivered _ _ _ => true
  | _ => false

/-- What the place of a thread says about the run so far. -/
def PhaseHolds (log : List Act) (connection : Nat) : Phase → Prop
  | .reading | .asking _ =>
    (∀ id, .created connection id ∉ log) ∧ Alive log connection ∧ Open log connection
  | .notifying _ _ _ | .waiting _ _ => Alive log connection ∧ Open log connection
  | .removing _ _ allowed | .leaving _ allowed =>
    (allowed = true → Approved log connection ∧ Alive log connection) ∧ Open log connection
  | .decided _ allowed =>
    allowed = true → .released connection ∈ log ∧ Approved log connection ∧ Alive log connection
  | .authorised => .released connection ∈ log ∧ Approved log connection ∧ Alive log connection
  | .closed => True

section Log

variable {log : List Act} {connection : Nat} {act : Act}

theorem Approved.append (h : Approved log connection) : Approved (log ++ [act]) connection := by
  obtain ⟨id, hcreated, hdelivered⟩ := h
  exact ⟨id, List.mem_append_left _ hcreated, List.mem_append_left _ hdelivered⟩

theorem Alive.append (h : Alive log connection) (hact : act.limits ≠ some connection) :
    Alive (log ++ [act]) connection := by
  obtain ⟨hexpired, hcancelled⟩ := h
  constructor
  · intro hmem
    rcases List.mem_append.1 hmem with hlog | hlast
    · exact hexpired hlog
    · exact hact (by rw [← List.mem_singleton.1 hlast]; rfl)
  · intro hmem
    rcases List.mem_append.1 hmem with hlog | hlast
    · exact hcancelled hlog
    · exact hact (by rw [← List.mem_singleton.1 hlast]; rfl)

theorem Open.append (h : Open log connection) (hact : act.returns ≠ some connection) :
    Open (log ++ [act]) connection := by
  obtain ⟨hreleased, hrefused⟩ := h
  constructor
  · intro hmem
    rcases List.mem_append.1 hmem with hlog | hlast
    · exact hreleased hlog
    · exact hact (by rw [← List.mem_singleton.1 hlast]; rfl)
  · intro hmem
    rcases List.mem_append.1 hmem with hlog | hlast
    · exact hrefused hlog
    · exact hact (by rw [← List.mem_singleton.1 hlast]; rfl)

theorem not_created_append (h : ∀ id, .created connection id ∉ log) (hact : act.limits ≠ some connection)
    (id : String) : .created connection id ∉ log ++ [act] := by
  intro hmem
  rcases List.mem_append.1 hmem with hlog | hlast
  · exact h id hlog
  · exact hact (by rw [← List.mem_singleton.1 hlast]; rfl)

/-- An act that is about another connection, or about none. -/
theorem PhaseHolds.append {phase : Phase} (h : PhaseHolds log connection phase)
    (hact : act.limits ≠ some connection) (hreturns : act.returns ≠ some connection) :
    PhaseHolds (log ++ [act]) connection phase := by
  cases phase with
  | reading => exact ⟨not_created_append h.1 hact, h.2.1.append hact, h.2.2.append hreturns⟩
  | asking requestId => exact ⟨not_created_append h.1 hact, h.2.1.append hact, h.2.2.append hreturns⟩
  | notifying requestId token inserted => exact ⟨Alive.append h.1 hact, h.2.append hreturns⟩
  | waiting requestId token => exact ⟨Alive.append h.1 hact, h.2.append hreturns⟩
  | removing requestId token allowed =>
    exact ⟨fun hallowed => ⟨(h.1 hallowed).1.append, (h.1 hallowed).2.append hact⟩, h.2.append hreturns⟩
  | leaving requestId allowed =>
    exact ⟨fun hallowed => ⟨(h.1 hallowed).1.append, (h.1 hallowed).2.append hact⟩, h.2.append hreturns⟩
  | decided requestId allowed =>
    intro hallowed
    obtain ⟨hreleased, happroved, halive⟩ := h hallowed
    exact ⟨List.mem_append_left _ hreleased, happroved.append, halive.append hact⟩
  | authorised =>
    obtain ⟨hreleased, happroved, halive⟩ := h
    exact ⟨List.mem_append_left _ hreleased, happroved.append, halive.append hact⟩
  | closed => trivial

/-- While the receiver is there, `request` has not returned. -/
theorem PhaseHolds.listening {phase : Phase} (h : PhaseHolds log connection phase)
    (hlistens : phase.listens = true) : Open log connection := by
  cases phase with
  | notifying | waiting | removing | leaving => exact h.2
  | reading | asking | decided | authorised | closed => cases hlistens

end Log

/-- A sender is in one place, and its approval has had no decision yet: under the identifier
that was created for its connection, or taken with it. -/
structure Inv (s : Broker) : Prop where
  ordered : Ordered s.log
  phases : ∀ connection, PhaseHolds s.log connection (s.phases connection)
  table : ∀ id connection, s.pending id = some connection →
    .created connection id ∈ s.log ∧ (∀ other allow, .delivered other allow connection ∉ s.log) ∧
      ∀ decision ∈ s.decisions, decision.connection ≠ connection
  taken : ∀ decision ∈ s.decisions, .created decision.connection decision.id ∈ s.log ∧
    ∀ other allow, .delivered other allow decision.connection ∉ s.log
  once : (s.decisions.map Decision.connection).Nodup
  mail : ∀ connection allow, s.mailbox connection = some allow →
    ∃ id, .created connection id ∈ s.log ∧ .delivered id allow connection ∈ s.log
  known : ∀ act ∈ s.log, ∀ connection,
    act.limits = some connection ∨ act.returns = some connection → connection < s.accepted
  started : ∀ connection, s.phases connection ≠ .closed → connection < s.accepted

theorem inv_initial : Inv {} where
  ordered := ordered_nil
  phases := fun _ => trivial
  table := by intro id connection h; cases h
  taken := by intro decision h; cases h
  once := List.nodup_nil
  mail := by intro connection allow h; cases h
  known := by intro act h; cases h
  started := fun _ h => absurd rfl h

namespace Inv

variable {s : Broker} {connection : Nat} {act : Act}

theorem enter (h : Inv s) (phase : Phase) (hstarted : s.phases connection ≠ .closed)
    (hphase : PhaseHolds s.log connection phase) : Inv (s.enter connection phase) := by
  refine ⟨h.ordered, ?_, h.table, h.taken, h.once, h.mail, h.known, ?_⟩
  · intro other
    show PhaseHolds s.log other (Function.update s.phases connection phase other)
    by_cases heq : other = connection
    · subst heq
      rw [Function.update_self]
      exact hphase
    · rw [Function.update_of_ne heq]
      exact h.phases other
  · intro other hother
    by_cases heq : other = connection
    · exact heq ▸ h.started connection hstarted
    · exact h.started other (by simpa [Broker.enter, heq] using hother)

/-- A thread notes an act that is not a decision, and goes on. -/
theorem note_enter (h : Inv s) (phase : Phase) (hact : Justified s.log act) (hdelivery : act.isDelivery = false)
    (hlimits : ∀ other, act.limits = some other → other = connection)
    (hreturns : ∀ other, act.returns = some other → other = connection)
    (hstarted : s.phases connection ≠ .closed)
    (hphase : PhaseHolds (s.log ++ [act]) connection phase) : Inv ((s.note act).enter connection phase) := by
  have hnone : ∀ {other}, (∀ id allow, .delivered id allow other ∉ s.log) →
      ∀ id allow, .delivered id allow other ∉ s.log ++ [act] := by
    intro other hlog id allow hmem
    rcases List.mem_append.1 hmem with hold | hlast
    · exact hlog id allow hold
    · rw [← List.mem_singleton.1 hlast] at hdelivery
      exact Bool.noConfusion hdelivery
  refine ⟨ordered_append h.ordered hact, ?_, ?_, ?_, h.once, ?_, ?_, ?_⟩
  · intro other
    show PhaseHolds (s.log ++ [act]) other (Function.update s.phases connection phase other)
    by_cases heq : other = connection
    · subst heq
      rw [Function.update_self]
      exact hphase
    · rw [Function.update_of_ne heq]
      exact (h.phases other).append (fun hlimit => heq (hlimits other hlimit))
        fun hreturn => heq (hreturns other hreturn)
  · intro id other hpending
    obtain ⟨hcreated, hdelivered, hdecisions⟩ := h.table id other hpending
    exact ⟨List.mem_append_left _ hcreated, hnone hdelivered, hdecisions⟩
  · intro decision hmem
    obtain ⟨hcreated, hdelivered⟩ := h.taken decision hmem
    exact ⟨List.mem_append_left _ hcreated, hnone hdelivered⟩
  · intro other allow hmail
    obtain ⟨id, hcreated, hdelivered⟩ := h.mail other allow hmail
    exact ⟨id, List.mem_append_left _ hcreated, List.mem_append_left _ hdelivered⟩
  · intro other hmem limited hlimited
    rcases List.mem_append.1 hmem with hold | hlast
    · exact h.known other hold limited hlimited
    · rw [List.mem_singleton.1 hlast] at hlimited
      rw [hlimited.elim (hlimits limited) (hreturns limited)]
      exact h.started connection hstarted
  · intro other hother
    by_cases heq : other = connection
    · exact heq ▸ h.started connection hstarted
    · exact h.started other (by simpa [Broker.enter, Broker.note, heq] using hother)

theorem forget (h : Inv s) (id : String) : Inv { s with pending := Function.update s.pending id none } := by
  refine ⟨h.ordered, h.phases, ?_, h.taken, h.once, h.mail, h.known, h.started⟩
  intro other limited hpending
  by_cases heq : other = id
  · subst heq
    simp at hpending
  · exact h.table other limited (by simpa [heq] using hpending)

theorem insert (h : Inv s) {id : String} (hcreated : .created connection id ∈ s.log)
    (hdelivered : ∀ other allow, .delivered other allow connection ∉ s.log)
    (hdecisions : ∀ decision ∈ s.decisions, decision.connection ≠ connection) :
    Inv { s with pending := Function.update s.pending id (some connection) } := by
  refine ⟨h.ordered, h.phases, ?_, h.taken, h.once, h.mail, h.known, h.started⟩
  intro other limited hpending
  by_cases heq : other = id
  · subst heq
    have hsame : connection = limited := by simpa using hpending
    subst hsame
    exact ⟨hcreated, hdelivered, hdecisions⟩
  · exact h.table other limited (by simpa [heq] using hpending)

theorem received (h : Inv s) : Inv { s with mailbox := Function.update s.mailbox connection none } := by
  refine ⟨h.ordered, h.phases, h.table, h.taken, h.once, ?_, h.known, h.started⟩
  intro other allow hmail
  by_cases heq : other = connection
  · subst heq
    simp at hmail
  · exact h.mail other allow (by simpa [heq] using hmail)

/-- The decision on an identifier takes the sender that stands under it. -/
theorem take (h : Inv s) {id : String} (hpending : s.pending id = some connection) (allow : Bool) :
    Inv { s with
      pending := Function.update s.pending id none
      decisions := s.decisions ++ [⟨id, allow, connection⟩] } := by
  obtain ⟨hcreated, hdelivered, hdecisions⟩ := h.table id connection hpending
  refine ⟨h.ordered, h.phases, ?_, ?_, ?_, h.mail, h.known, h.started⟩
  · intro other limited hother
    by_cases heq : other = id
    · subst heq
      simp at hother
    · have hold : s.pending other = some limited := by simpa [heq] using hother
      obtain ⟨hotherCreated, hotherDelivered, hotherDecisions⟩ := h.table other limited hold
      refine ⟨hotherCreated, hotherDelivered, ?_⟩
      intro decision hmem hsame
      rcases List.mem_append.1 hmem with hbefore | hlast
      · exact hotherDecisions decision hbefore hsame
      · -- one connection has one identifier
        rw [List.mem_singleton.1 hlast] at hsame
        have hsame : connection = limited := hsame
        subst hsame
        exact heq (h.ordered.created_unique hotherCreated hcreated)
  · intro decision hmem
    rcases List.mem_append.1 hmem with hbefore | hlast
    · exact h.taken decision hbefore
    · rw [List.mem_singleton.1 hlast]
      exact ⟨hcreated, hdelivered⟩
  · rw [List.map_append]
    refine List.Nodup.append h.once (List.nodup_singleton _) ?_
    intro other hbefore hlast
    obtain ⟨decision, hmem, rfl⟩ := List.mem_map.1 hbefore
    exact hdecisions decision hmem (List.mem_singleton.1 hlast)

theorem drop (h : Inv s) (index : Nat) : Inv { s with decisions := s.decisions.eraseIdx index } := by
  have hsub : List.Sublist (s.decisions.eraseIdx index) s.decisions := List.eraseIdx_sublist ..
  refine ⟨h.ordered, h.phases, ?_, ?_, h.once.sublist (hsub.map _), h.mail, h.known, h.started⟩
  · intro id other hpending
    obtain ⟨hcreated, hdelivered, hdecisions⟩ := h.table id other hpending
    exact ⟨hcreated, hdelivered, fun decision hmem => hdecisions decision (hsub.subset hmem)⟩
  · exact fun decision hmem => h.taken decision (hsub.subset hmem)

/-- A decision reaches the connection whose sender was taken for it. -/
theorem decide (h : Inv s) {index : Nat} {decision : Decision} (hget : s.decisions[index]? = some decision)
    (hlistens : (s.phases decision.connection).listens = true) :
    Inv { ({ s with decisions := s.decisions.eraseIdx index } : Broker).note
        (.delivered decision.id decision.allow decision.connection) with
      mailbox := Function.update s.mailbox decision.connection (some decision.allow) } := by
  have hmem : decision ∈ s.decisions := List.mem_of_getElem? hget
  obtain ⟨hcreated, hdelivered⟩ := h.taken decision hmem
  have hdropped := h.drop index
  -- no other decision is for this connection
  have hgone : ∀ other ∈ s.decisions.eraseIdx index, other.connection ≠ decision.connection := by
    intro other hother heq
    obtain ⟨hbound, hvalue⟩ := List.getElem?_eq_some_iff.1 hget
    obtain ⟨position, hposition, hne⟩ := List.mem_eraseIdx_iff_getElem?.1 hother
    obtain ⟨hotherBound, hotherValue⟩ := List.getElem?_eq_some_iff.1 hne
    have hfirst : position < (s.decisions.map Decision.connection).length := by simpa using hotherBound
    have hsecond : index < (s.decisions.map Decision.connection).length := by simpa using hbound
    have hsame : (s.decisions.map Decision.connection)[position] = (s.decisions.map Decision.connection)[index] := by
      rw [List.getElem_map, List.getElem_map, hotherValue, hvalue, heq]
    exact hposition (h.once.getElem_inj_iff.1 hsame)
  have hnone : ∀ {connection}, connection ≠ decision.connection →
      (∀ id allow, .delivered id allow connection ∉ s.log) →
      ∀ id allow, .delivered id allow connection ∉
        s.log ++ [.delivered decision.id decision.allow decision.connection] := by
    intro connection hne hlog id allow hacts
    rcases List.mem_append.1 hacts with hold | hlast
    · exact hlog id allow hold
    · exact hne (Act.delivered.inj (List.mem_singleton.1 hlast)).2.2
  have hopen : Open s.log decision.connection := (h.phases decision.connection).listening hlistens
  refine ⟨ordered_append h.ordered ⟨hcreated, hdelivered, hopen⟩, ?_, ?_, ?_, hdropped.once, ?_, ?_,
    h.started⟩
  · exact fun connection => (h.phases connection).append (by intro hlimit; cases hlimit)
      (by intro hreturn; cases hreturn)
  · intro id connection hpending
    obtain ⟨hother, hotherDelivered, hdecisions⟩ := h.table id connection hpending
    exact ⟨List.mem_append_left _ hother, hnone (hdecisions decision hmem).symm hotherDelivered,
      (hdropped.table id connection hpending).2.2⟩
  · intro other hother
    obtain ⟨hotherCreated, hotherDelivered⟩ := hdropped.taken other hother
    exact ⟨List.mem_append_left _ hotherCreated, hnone (hgone other hother) hotherDelivered⟩
  · intro connection allow hmail
    by_cases heq : connection = decision.connection
    · subst heq
      have hallow : decision.allow = allow := by simpa using hmail
      subst hallow
      exact ⟨decision.id, List.mem_append_left _ hcreated, by simp [Broker.note]⟩
    · obtain ⟨id, hother, hotherDelivered⟩ := h.mail connection allow (by simpa [heq] using hmail)
      exact ⟨id, List.mem_append_left _ hother, List.mem_append_left _ hotherDelivered⟩
  · intro act hacts connection hlimit
    rcases List.mem_append.1 hacts with hold | hlast
    · exact h.known act hold connection hlimit
    · rw [List.mem_singleton.1 hlast] at hlimit
      rcases hlimit with hlimit | hlimit <;> cases hlimit

/-- A response is justified, and the thread goes on or ends. -/
theorem write (h : Inv s) (phase : Phase) (written : Bool) {response : BrowserResponse}
    (hjustified : Justified s.log (.sent connection response)) (hstarted : s.phases connection ≠ .closed)
    (hphase : PhaseHolds s.log connection phase) :
    Inv (s.write connection response phase written) := by
  refine h.note_enter _ hjustified rfl (fun other hlimit => by cases hlimit)
    (fun other hreturn => by cases hreturn) hstarted ?_
  cases written with
  | true => exact hphase.append (fun hlimit => by cases hlimit) (fun hreturn => by cases hreturn)
  | false => trivial

theorem accept (h : Inv s) : Inv { s.enter s.accepted .reading with accepted := s.accepted + 1 } := by
  have hfresh : ∀ act ∈ s.log, act.limits ≠ some s.accepted := by
    intro act hmem hlimit
    exact Nat.lt_irrefl _ (h.known act hmem _ (.inl hlimit))
  have hreturned : ∀ act ∈ s.log, act.returns ≠ some s.accepted := by
    intro act hmem hreturn
    exact Nat.lt_irrefl _ (h.known act hmem _ (.inr hreturn))
  refine ⟨h.ordered, ?_, h.table, h.taken, h.once, h.mail, ?_, ?_⟩
  · intro other
    show PhaseHolds s.log other (Function.update s.phases s.accepted .reading other)
    by_cases heq : other = s.accepted
    · subst heq
      rw [Function.update_self]
      exact ⟨fun id hmem => hfresh _ hmem rfl,
        ⟨fun hmem => hfresh _ hmem rfl, fun hmem => hfresh _ hmem rfl⟩,
        fun hmem => hreturned _ hmem rfl, fun hmem => hreturned _ hmem rfl⟩
    · rw [Function.update_of_ne heq]
      exact h.phases other
  · exact fun act hmem other hlimit => Nat.lt_succ_of_lt (h.known act hmem other hlimit)
  · intro other hother
    show other < s.accepted + 1
    by_cases heq : other = s.accepted
    · omega
    · have := h.started other (by simpa [Broker.enter, heq] using hother)
      omega

/-- A thread puts its sender into the table. -/
theorem create (h : Inv s) {requestId : String} (hphase : s.phases connection = .asking requestId)
    (token : String) (inserted : Bool) :
    Inv { (s.note (.created connection token)).enter connection (.notifying requestId token inserted) with
      pending := Function.update s.pending token (some connection) } := by
  have hasking := h.phases connection
  rw [hphase] at hasking
  obtain ⟨hfresh, halive, hopen⟩ := hasking
  have hnoted : Inv ((s.note (.created connection token)).enter connection (.notifying requestId token inserted)) := by
    refine h.note_enter _ hfresh rfl (fun other hlimit => (Option.some.inj hlimit).symm)
      (fun other hreturn => by cases hreturn) (by rw [hphase]; exact Phase.noConfusion)
      ⟨?_, hopen.append (fun hreturn => by cases hreturn)⟩
    obtain ⟨hexpired, hcancelled⟩ := halive
    constructor
    · intro hmem
      rcases List.mem_append.1 hmem with hold | hlast
      · exact hexpired hold
      · cases List.mem_singleton.1 hlast
    · intro hmem
      rcases List.mem_append.1 hmem with hold | hlast
      · exact hcancelled hold
      · cases List.mem_singleton.1 hlast
  refine hnoted.insert (List.mem_append_right _ (List.mem_singleton_self _)) ?_ ?_
  · intro other allow hmem
    rcases List.mem_append.1 hmem with hold | hlast
    · exact hfresh other (h.ordered.delivered_created hold)
    · cases List.mem_singleton.1 hlast
  · rintro decision hmem rfl
    exact hfresh _ (h.taken decision hmem).1

/-- A thread gives up waiting, or never waits. -/
theorem giveUp (h : Inv s) (hact : act = .expired connection ∨ act = .cancelled connection)
    (hstarted : s.phases connection ≠ .closed) (hopen : Open s.log connection)
    (requestId token : String) :
    Inv ((s.note act).enter connection (.removing requestId token false)) := by
  rcases hact with rfl | rfl
  · exact h.note_enter _ trivial rfl (fun other hlimit => (Option.some.inj hlimit).symm)
      (fun other hreturn => by cases hreturn) hstarted
      ⟨Bool.noConfusion, hopen.append (fun hreturn => by cases hreturn)⟩
  · exact h.note_enter _ trivial rfl (fun other hlimit => (Option.some.inj hlimit).symm)
      (fun other hreturn => by cases hreturn) hstarted
      ⟨Bool.noConfusion, hopen.append (fun hreturn => by cases hreturn)⟩

/-- `request` returns that the connection is not allowed. -/
theorem refuse (h : Inv s) (hstarted : s.phases connection ≠ .closed) (requestId : String) :
    Inv ((s.note (.refused connection)).enter connection (.decided requestId false)) :=
  h.note_enter _ trivial rfl (fun other hlimit => by cases hlimit)
    (fun other hreturn => (Option.some.inj hreturn).symm) hstarted Bool.noConfusion

end Inv

theorem step_inv {V : Type} (lib : Editing V) (U : UrlParser) {s : Broker} (h : Inv s) (event : BrokerEvent V) :
    Inv (s.step lib U event) := by
  cases event with
  | accept => exact h.accept
  | first connection request written =>
    dsimp only [Broker.step]
    have hphases := h.phases connection
    split
    · next hphase =>
      rw [hphase] at hphases
      exact h.write (.asking _) written (fun hdata => absurd hdata Bool.false_ne_true)
        (by rw [hphase]; exact Phase.noConfusion) hphases
    · next hphase =>
      exact h.write .closed written (fun hdata => absurd hdata Bool.false_ne_true)
        (by rw [hphase]; exact Phase.noConfusion) trivial
    · next hphase => exact h.enter _ (by rw [hphase]; exact Phase.noConfusion) trivial
    · exact h
  | draw connection token =>
    dsimp only [Broker.step]
    split
    · next hphase => exact h.create hphase _ _
    · next hphase => exact h.refuse (by rw [hphase]; exact Phase.noConfusion) _
    · exact h
  | notify connection notified =>
    dsimp only [Broker.step]
    split
    · next hphase =>
      have hphases := h.phases connection
      rw [hphase] at hphases
      split
      · exact h.enter _ (by rw [hphase]; exact Phase.noConfusion) hphases
      · exact h.giveUp (.inr rfl) (by rw [hphase]; exact Phase.noConfusion) hphases.2 _ _
    · exact h
  | receive connection =>
    dsimp only [Broker.step]
    split
    · next hphase hmail =>
      have hphases := h.phases connection
      rw [hphase] at hphases
      refine (h.enter (.removing _ _ _) (by rw [hphase]; exact Phase.noConfusion)
        ⟨?_, hphases.2⟩).received
      rintro rfl
      exact ⟨h.mail connection true hmail, hphases.1⟩
    · exact h
  | expire connection =>
    dsimp only [Broker.step]
    split
    · next hphase =>
      have hphases := h.phases connection
      rw [hphase] at hphases
      exact h.giveUp (.inl rfl) (by rw [hphase]; exact Phase.noConfusion) hphases.2 _ _
    · exact h
  | remove connection =>
    dsimp only [Broker.step]
    split
    · next hphase =>
      have hphases := h.phases connection
      rw [hphase] at hphases
      exact (h.enter (.leaving _ _) (by rw [hphase]; exact Phase.noConfusion) hphases).forget _
    · exact h
  | leave connection =>
    dsimp only [Broker.step]
    have hphases := h.phases connection
    split
    · next requestId hphase =>
      rw [hphase] at hphases
      obtain ⟨happroved, halive⟩ := hphases.1 rfl
      refine h.note_enter _ ⟨happroved, halive⟩ rfl (fun other hlimit => by cases hlimit)
        (fun other hreturn => (Option.some.inj hreturn).symm) (by rw [hphase]; exact Phase.noConfusion)
        (fun _ => ⟨?_, happroved.append, ?_⟩)
      · exact List.mem_append_right _ (List.mem_singleton_self _)
      · exact halive.append (fun hlimit => by cases hlimit)
    · next hphase => exact h.refuse (by rw [hphase]; exact Phase.noConfusion) _
    · exact h
  | reply connection unlocked written =>
    dsimp only [Broker.step]
    have hphases := h.phases connection
    split
    · next hphase =>
      rw [hphase] at hphases
      exact h.write .authorised written (fun hdata => absurd hdata Bool.false_ne_true)
        (by rw [hphase]; exact Phase.noConfusion) (hphases rfl)
    · next hphase =>
      exact h.write .closed written (fun hdata => absurd hdata Bool.false_ne_true)
        (by rw [hphase]; exact Phase.noConfusion) trivial
    · exact h
  | serve connection request app written =>
    dsimp only [Broker.step]
    have hphases := h.phases connection
    split
    · next hphase =>
      rw [hphase] at hphases
      exact h.write .authorised written (fun _ => hphases) (by rw [hphase]; exact Phase.noConfusion) hphases
    · next hphase => exact h.enter _ (by rw [hphase]; exact Phase.noConfusion) trivial
    · exact h
  | resolve id allow =>
    dsimp only [Broker.step]
    split
    · next hpending => exact h.take hpending allow
    · exact h
  | send index =>
    dsimp only [Broker.step]
    split
    · next hget =>
      split
      · next hsent => exact h.decide hget hsent.1
      · exact h.drop index
    · exact h

theorem run_inv {V : Type} (lib : Editing V) (U : UrlParser) (events : List (BrokerEvent V)) :
    Inv (Broker.run lib U events) := by
  induction events using List.reverseRecOn with
  | nil => exact inv_initial
  | append_singleton events event ih =>
    rw [Broker.run, List.foldl_append]
    exact step_inv lib U ih event

/-! ## No data before approval -/

/-- The connection for which an act decides on an identifier. -/
def Act.decides (id : String) : Act → Option Nat
  | .delivered other _ connection => if other = id then some connection else none
  | _ => none

/-- The connection for which an act creates an identifier. -/
def Act.creates (id : String) : Act → Option Nat
  | .created connection other => if other = id then some connection else none
  | _ => none

def deliveries (log : List Act) (id : String) : List Nat := log.filterMap (Act.decides id)

def creations (log : List Act) (id : String) : List Nat := log.filterMap (Act.creates id)

theorem mem_deliveries {log : List Act} {id : String} {connection : Nat} :
    connection ∈ deliveries log id ↔ ∃ allow, .delivered id allow connection ∈ log := by
  rw [deliveries, List.mem_filterMap]
  constructor
  · rintro ⟨act, hmem, hact⟩
    cases act with
    | delivered other allow delivered =>
      dsimp only [Act.decides] at hact
      split at hact
      · next heq =>
        cases hact
        exact ⟨allow, heq ▸ hmem⟩
      · cases hact
    | _ => cases hact
  · rintro ⟨allow, hmem⟩
    exact ⟨_, hmem, if_pos rfl⟩

theorem mem_creations {log : List Act} {id : String} {connection : Nat}
    (h : .created connection id ∈ log) : connection ∈ creations log id :=
  List.mem_filterMap.2 ⟨_, h, if_pos rfl⟩

/-- A connection has one decision at most, so each comes from another creation. -/
theorem Ordered.deliveries_nodup {log : List Act} (h : Ordered log) (id : String) :
    (deliveries log id).Nodup := by
  induction log using List.reverseRecOn with
  | nil => exact List.nodup_nil
  | append_singleton log act ih =>
    have hbefore : Ordered log := by
      intro before other after heq
      exact h before other (after ++ [act]) (by rw [heq]; simp)
    have hlast : Justified log act := h log act [] rfl
    rw [deliveries, List.filterMap_append]
    cases act with
    | delivered other allow connection =>
      by_cases heq : other = id
      · have hone : [Act.delivered other allow connection].filterMap (Act.decides id) = [connection] :=
          List.filterMap_cons_some (if_pos heq)
        rw [hone]
        refine List.Nodup.append (ih hbefore) (List.nodup_singleton _) ?_
        intro repeated hold hnew
        obtain rfl : repeated = connection := List.mem_singleton.1 hnew
        obtain ⟨allow', hmem⟩ := mem_deliveries.1 hold
        exact hlast.2.1 id allow' hmem
      · have hnone : [Act.delivered other allow connection].filterMap (Act.decides id) = [] :=
          List.filterMap_cons_none (if_neg heq)
        rw [hnone, List.append_nil]
        exact ih hbefore
    | _ => exact (List.append_nil _).symm ▸ ih hbefore

theorem Ordered.deliveries_le {log : List Act} (h : Ordered log) (id : String) :
    (deliveries log id).length ≤ (creations log id).length := by
  have hsub : deliveries log id ⊆ creations log id := by
    intro connection hmem
    obtain ⟨allow, hdelivered⟩ := mem_deliveries.1 hmem
    exact mem_creations (h.delivered_created hdelivered)
  exact (List.subperm_of_subset (h.deliveries_nodup id) hsub).length_le

theorem no_data_before_approval {V : Type} (lib : Editing V) (U : UrlParser) (events : List (BrokerEvent V)) :
    let log := (Broker.run lib U events).log
    -- data is sent only where the connection's own approval was granted, and came back in time
    (∀ before connection response after, log = before ++ .sent connection response :: after →
      isData response = true → ∃ id, .created connection id ∈ before ∧
        .delivered id true connection ∈ before ∧ .released connection ∈ before ∧
        .expired connection ∉ before ∧ .cancelled connection ∉ before) ∧
    -- a decision counts for the connection that created the identifier, and is its only one
    (∀ before id allow connection after, log = before ++ .delivered id allow connection :: after →
      .created connection id ∈ before ∧ ∀ other allow', .delivered other allow' connection ∉ before) ∧
    -- an identifier is decided no more often than it was created
    (∀ id, (deliveries log id).length ≤ (creations log id).length) ∧
    -- a connection is let through by a positive decision on its own identifier, and never
    -- after its approval expired or was cancelled
    (∀ before connection after, log = before ++ .released connection :: after →
      (∃ id, .created connection id ∈ before ∧ .delivered id true connection ∈ before) ∧
        .expired connection ∉ before ∧ .cancelled connection ∉ before) ∧
    -- once `request` has returned, either way, no decision for its identifier succeeds
    (∀ before id allow connection after, log = before ++ .delivered id allow connection :: after →
      .released connection ∉ before ∧ .refused connection ∉ before) := by
  intro log
  have hordered : Ordered log := (run_inv lib U events).ordered
  refine ⟨?_, ?_, hordered.deliveries_le, ?_, ?_⟩
  · intro before connection response after heq hdata
    obtain ⟨hreleased, ⟨id, hcreated, hdelivered⟩, hexpired, hcancelled⟩ := hordered _ _ _ heq hdata
    exact ⟨id, hcreated, hdelivered, hreleased, hexpired, hcancelled⟩
  · intro before id allow connection after heq
    obtain ⟨hcreated, honly, -⟩ := hordered _ _ _ heq
    exact ⟨hcreated, honly⟩
  · intro before connection after heq
    obtain ⟨happroved, halive⟩ := hordered _ _ _ heq
    exact ⟨happroved, halive⟩
  · intro before id allow connection after heq
    obtain ⟨-, -, hopen⟩ := hordered _ _ _ heq
    exact hopen

/-- Two connections, one of them approved: it alone is served. -/
def approvedRun : List (BrokerEvent Unit) :=
  [.accept, .accept, .first 0 (some (.connect 1 "p")) true, .first 1 (some (.connect 1 "q")) true,
    .draw 0 (some "a"), .draw 1 (some "b"), .notify 0 true, .notify 1 true, .resolve "b" true, .send 0,
    .receive 1, .remove 1, .leave 1, .reply 1 true true, .serve 1 (some sampleRequest) (sampleApp "me") true,
    .serve 0 (some sampleRequest) (sampleApp "me") true]

example : (Broker.run Editing.reference sampleUrl approvedRun).log.filter (fun act => match act with
    | .sent _ response => isData response
    | _ => false) = [.sent 1 (handleAuthorizedRequest Editing.reference sampleUrl (sampleApp "me") sampleRequest)] := by
  decide +kernel

/-- The wait ends, then the user decides, then the approval is removed and the connection denied. -/
def lateRun : List (BrokerEvent Unit) :=
  [.accept, .first 0 (some (.connect 1 "p")) true, .draw 0 (some "a"), .notify 0 true, .expire 0,
    .resolve "a" true, .send 0, .receive 0, .remove 0, .leave 0, .reply 0 true true,
    .serve 0 (some sampleRequest) (sampleApp "me") true]

/-- Between the end of the wait and the removal from the table a decision still reaches the
channel, and `resolve` says so; nobody reads it, and the connection is denied. -/
theorem expired_resolved_later : ∃ before after,
    (Broker.run Editing.reference sampleUrl lateRun).log = before ++ .delivered "a" true 0 :: after ∧
      .expired 0 ∈ before ∧ .refused 0 ∈ after := by
  refine ⟨[.sent 0 (.approvalPending 1 "p"), .created 0 "a", .expired 0],
    [.refused 0, .sent 0 (error "p" .denied)], ?_⟩
  decide +kernel

end NianPass.Desktop.Bridge
