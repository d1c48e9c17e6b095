import NianPass.Browser.Background

/-
  A credential goes only where it was offered.

  The context of a candidate is compared once more in the same breath in which the
  credential is posted, and a handle is gone with the first attempt to use it. So
  whatever happens while a fill waits for the tab and for the desktop, the document, its
  origin and the native connection are those of the moment the candidate was issued
  (`credential_posted_where_offered`).
-/
namespace NianPass.Browser

open Native (NativeCandidate NativeAnswer NativeResponse)

/-! ## The registry's keys -/

/-- An authority is stored under its own tab and frame. -/
def Keyed (r : Registry) : Prop :=
  ∀ k a, r.documents.lookup k = some a → k = Registry.key a.tabId a.frameId

section Keyed
variable {r : Registry} {n : Nat}

theorem Keyed.of_lookup {r' : Registry} (h : Keyed r)
    (hlookup : ∀ k a, r'.documents.lookup k = some a → r.documents.lookup k = some a) : Keyed r' :=
  fun k a ha => h k a (hlookup k a ha)

theorem disconnect_documents : (r.disconnect n).documents = r.documents := by
  unfold Registry.disconnect
  split <;> rfl

theorem Keyed.put (h : Keyed r) (channel : Channel) : Keyed (r.put n channel) := h

theorem Keyed.retire (h : Keyed r) (a : DocumentPortAuthority) : Keyed (r.retire a) :=
  h.of_lookup fun _ _ => lookup_retire

theorem Keyed.retire_all (h : Keyed r) (list : List DocumentPortAuthority) :
    Keyed (list.foldl Registry.retire r) := by
  induction list generalizing r with
  | nil => exact h
  | cons a list ih => exact ih (h.retire a)

theorem Keyed.bind (h : Keyed r) (sender : SenderAuthority) (message : JsValue) :
    Keyed (r.bind n sender message) := by
  unfold Registry.bind
  split
  case h_1 =>
    intro k a ha
    rw [disconnect_documents] at ha
    exact h k a ha
  case h_2 documentNonce hparse =>
    dsimp only
    split_ifs
    · exact h
    · -- whatever was there is retired first
      have hinsert : ∀ r' : Registry, Keyed r' → Keyed (Registry.changed
          { r' with documents := (r'.documents.insert (Registry.key sender.tabId sender.frameId)
              ⟨sender.tabId, sender.frameId, sender.origin, documentNonce, n⟩) } sender.tabId) := by
        intro r' h' k a ha
        have ha : (r'.documents.insert _ _).lookup k = some a := ha
        by_cases hk : k = Registry.key sender.tabId sender.frameId
        · subst hk
          rw [AList.lookup_insert] at ha
          obtain rfl := Option.some.inj ha
          rfl
        · rw [AList.lookup_insert_ne hk] at ha
          exact h' k a ha
      split
      · exact hinsert _ (h.retire _)
      · exact hinsert _ h

theorem Keyed.step (h : Keyed r) (platform : Platform) (event : ChannelEvent) :
    Keyed (r.step platform event) := by
  cases event with
  | connected port =>
    show Keyed (r.accept platform port)
    unfold Registry.accept
    split <;> exact h
  | message n value =>
    show Keyed (r.message n value)
    unfold Registry.message
    dsimp only
    split
    · exact h
    · split
      · exact h
      · split
        · exact h
        · split
          · exact (h.put _).bind _ _
          · exact h
  | left n =>
    show Keyed (r.pageLeft n)
    unfold Registry.pageLeft
    split
    · exact h
    · exact h.of_lookup fun k a ha => lookup_drop (r := r.put n _) ha
  | permission n answer =>
    show Keyed (r.permission n answer)
    have hdisconnect : ∀ channel, Keyed ((r.put n channel).disconnect n) := by
      intro channel k a ha
      rw [disconnect_documents] at ha
      exact h k a ha
    unfold Registry.permission
    dsimp only
    split
    · exact h
    · split
      · split
        · exact hdisconnect _
        · split
          · exact h
          · split
            · split
              · exact (h.put _).bind _ _
              · exact h
            · exact hdisconnect _
      · exact h
  | clearTab tabId => exact h.retire_all _
  | clearAll => exact h.retire_all _

end Keyed

/-! ## The claim -/

/-- The stream has not repeated a token so far. -/
def NoRepeat (env : Env) (drawn : Nat) : Prop :=
  ∀ i j, i < drawn → j < drawn → env.token i = env.token j → i = j

/-- The credential of a post is the desktop's answer to the request for what was issued, and the
document, its fill target and the native connection are still those of the issue. -/
def Faithful (requests : List Request) (received : List (String × NativeResponse)) (issue : Issue)
    (post : Post) : Prop :=
  ∃ authority page generation,
    issue.bound = some authority ∧ post.bound = some authority ∧ post.port = authority.port ∧
    post.message.documentNonce = authority.documentNonce ∧
    issue.page = some page ∧ page.documentNonce = authority.documentNonce ∧ page.origin = authority.origin ∧
    page.fillTarget = some ⟨post.message.usernameFieldHandle, post.message.passwordFieldHandle⟩ ∧
    issue.generation = some generation ∧ post.generation = some generation ∧ post.epoch = issue.epoch ∧
    ⟨post.requestId, generation, .credential authority.origin issue.vaultSessionId issue.entryId⟩ ∈ requests ∧
    (generation, ⟨post.requestId, .credential post.message.username post.message.password⟩) ∈ received

/-! ## The invariant -/

/-- What was issued as this candidate. -/
structure Offers (issue : Issue) (c : CandidateAuthority) : Prop where
  vaultSessionId : issue.vaultSessionId = c.vaultSessionId
  entryId : issue.entryId = c.entryId
  generation : issue.generation = some c.nativeGeneration
  bound : issue.bound = some ⟨c.tabId, 0, c.origin, c.documentNonce, c.contentPort⟩
  page : ∃ page, issue.page = some page ∧ page.documentNonce = c.documentNonce ∧ page.origin = c.origin ∧
    page.fillTarget = some ⟨c.usernameFieldHandle, c.passwordFieldHandle⟩

def Offered (issued : List Issue) (handle : String) (c : CandidateAuthority) : Prop :=
  ∃ issue ∈ issued, issue.handle = handle ∧ Offers issue c

/-- The candidate a flow works for. -/
def Task.holds : Task → Option (String × CandidateAuthority)
  | .fill handle candidate => some (handle, candidate)
  | .requested handle candidate => some (handle, candidate)
  | .deliver handle candidate _ _ _ => some (handle, candidate)
  | _ => none

/-- The credential was asked for with the candidate's data and answered. -/
def Obtained (requests : List Request) (received : List (String × NativeResponse)) (c : CandidateAuthority)
    (requestId username password : String) : Prop :=
  ⟨requestId, c.nativeGeneration, .credential c.origin c.vaultSessionId c.entryId⟩ ∈ requests ∧
    (c.nativeGeneration, ⟨requestId, .credential username password⟩) ∈ received

/-- The flow that waits for the answer to a request. -/
def Serves (pending : PendingRequest) : Task → Prop
  | .connect => pending.kind = .connect
  | .listed context _ => pending.kind = .candidates context.page.origin
  | .requested _ c => pending.kind = .credential c.origin c.vaultSessionId c.entryId ∧
      pending.generation = c.nativeGeneration
  | _ => False

def Drawn (env : Env) (drawn : Nat) (token : String) : Prop := ∃ i, i < drawn ∧ env.token i = token

/-- What holds of every state. The last four fields say that a handle is in one place. -/
structure Guarded (env : Env) (s : Background) : Prop where
  keyed : Keyed s.registry
  candidates : ∀ h c, s.candidates h = some c → Offered s.issued h c
  flows : ∀ n flow h c, s.flows n = some flow → flow.task.holds = some (h, c) → Offered s.issued h c
  delivers : ∀ n h c requestId username password question,
    s.flows n = some ⟨.deliver h c requestId username password, question⟩ →
      Obtained s.requests s.received c requestId username password
  started : ∀ n flow, s.flows n = some flow → n < s.nextFlow
  pending : ∀ requestId pending, s.native.pending.lookup requestId = some pending →
    ∃ flow, s.flows pending.flow = some flow ∧ flow.question = .native requestId ∧ Serves pending flow.task ∧
      ⟨requestId, pending.generation, pending.kind⟩ ∈ s.requests
  posted : ∀ post ∈ s.posted, ∃ issue ∈ s.issued, issue.handle = post.handle ∧
    Faithful s.requests s.received issue post
  handles : ∀ issue ∈ s.issued, Drawn env s.drawn issue.handle
  generations : ∀ issue ∈ s.issued, ∃ generation, issue.generation = some generation ∧
    Drawn env s.drawn generation
  generation : ∀ generation, s.native.generation = some generation → Drawn env s.drawn generation
  requestIds : ∀ request ∈ s.requests, Drawn env s.drawn request.requestId
  epoch : ∀ issue ∈ s.issued, s.native.generation = issue.generation → s.epoch = issue.epoch
  requests : (s.requests.map (·.requestId)).Nodup
  kept : ∀ h c, s.candidates h = some c →
    (∀ n flow c', s.flows n = some flow → flow.task.holds ≠ some (h, c')) ∧ ∀ post ∈ s.posted, post.handle ≠ h
  alone : ∀ n m flow flow' h c c', s.flows n = some flow → s.flows m = some flow' →
    flow.task.holds = some (h, c) → flow'.task.holds = some (h, c') → n = m
  unposted : ∀ n flow h c, s.flows n = some flow → flow.task.holds = some (h, c) →
    ∀ post ∈ s.posted, post.handle ≠ h
  once : (s.posted.map (·.handle)).Nodup

theorem Drawn.mono {env : Env} {drawn drawn' : Nat} {token : String} (h : Drawn env drawn token)
    (hle : drawn ≤ drawn') : Drawn env drawn' token := by
  obtain ⟨i, hi, heq⟩ := h
  exact ⟨i, Nat.lt_of_lt_of_le hi hle, heq⟩

/-- A token that is drawn now is new. -/
theorem Drawn.ne_token {env : Env} {drawn drawn' k : Nat} {token : String} (h : Drawn env drawn token)
    (hk : drawn ≤ k) (hk' : k < drawn') (hrepeat : NoRepeat env drawn') : token ≠ env.token k := by
  obtain ⟨i, hi, rfl⟩ := h
  intro heq
  have hsame := hrepeat i k (by omega) hk' heq
  omega

/-- A step after which there is less to vouch for. -/
structure Less (s t : Background) : Prop where
  keyed : Keyed s.registry → Keyed t.registry
  candidates : ∀ h c, t.candidates h = some c → s.candidates h = some c
  flows : ∀ n flow, t.flows n = some flow → s.flows n = some flow
  pending : ∀ requestId pending, t.native.pending.lookup requestId = some pending →
    s.native.pending.lookup requestId = some pending ∧ t.flows pending.flow = s.flows pending.flow
  nextFlow : s.nextFlow ≤ t.nextFlow
  drawn : s.drawn ≤ t.drawn
  issued : t.issued = s.issued
  posted : t.posted = s.posted
  requests : t.requests = s.requests
  received : ∀ response ∈ s.received, response ∈ t.received
  generation : t.native.generation = none ∨ t.native.generation = s.native.generation ∧ t.epoch = s.epoch

section Guarded
variable {env : Env} {s t : Background} {n : Nat}

theorem Faithful.mono {requests requests' : List Request} {received received' : List (String × NativeResponse)}
    {issue : Issue} {post : Post} (h : Faithful requests received issue post)
    (hrequests : ∀ request ∈ requests, request ∈ requests')
    (hreceived : ∀ response ∈ received, response ∈ received') : Faithful requests' received' issue post := by
  obtain ⟨authority, page, generation, h1, h2, h3, h4, h5, h6, h7, h8, h9, h10, h11, hrequest, hresponse⟩ := h
  exact ⟨authority, page, generation, h1, h2, h3, h4, h5, h6, h7, h8, h9, h10, h11, hrequests _ hrequest,
    hreceived _ hresponse⟩

theorem Guarded.less (h : Guarded env s) (hless : Less s t) : Guarded env t where
  keyed := hless.keyed h.keyed
  candidates handle c hc := by
    rw [hless.issued]
    exact h.candidates handle c (hless.candidates handle c hc)
  flows n flow handle c hflow hholds := by
    rw [hless.issued]
    exact h.flows n flow handle c (hless.flows n flow hflow) hholds
  delivers n handle c requestId username password question hflow := by
    obtain ⟨hrequest, hresponse⟩ := h.delivers n handle c requestId username password question (hless.flows _ _ hflow)
    exact ⟨hless.requests ▸ hrequest, hless.received _ hresponse⟩
  started n flow hflow := Nat.lt_of_lt_of_le (h.started n flow (hless.flows n flow hflow)) hless.nextFlow
  pending requestId pending hpending := by
    obtain ⟨hbefore, hflow⟩ := hless.pending requestId pending hpending
    rw [hflow, hless.requests]
    exact h.pending requestId pending hbefore
  posted post hpost := by
    rw [hless.posted] at hpost
    obtain ⟨issue, hissue, hhandle, hfaithful⟩ := h.posted post hpost
    exact ⟨issue, hless.issued ▸ hissue, hhandle, hfaithful.mono (fun _ hr => hless.requests ▸ hr) hless.received⟩
  handles issue hissue := (h.handles issue (hless.issued ▸ hissue)).mono hless.drawn
  generations issue hissue := by
    obtain ⟨generation, hgeneration, hdrawn⟩ := h.generations issue (hless.issued ▸ hissue)
    exact ⟨generation, hgeneration, hdrawn.mono hless.drawn⟩
  generation generation hgeneration := by
    rcases hless.generation with hnone | ⟨hsame, -⟩
    · rw [hnone] at hgeneration
      cases hgeneration
    · exact (h.generation generation (hsame ▸ hgeneration)).mono hless.drawn
  requestIds request hrequest := (h.requestIds request (hless.requests ▸ hrequest)).mono hless.drawn
  epoch issue hissue hgeneration := by
    have hissue : issue ∈ s.issued := hless.issued ▸ hissue
    rcases hless.generation with hnone | ⟨hsame, hepoch⟩
    · -- the connection a candidate was issued on is not this one
      obtain ⟨generation, hsome, -⟩ := h.generations issue hissue
      rw [hnone, hsome] at hgeneration
      cases hgeneration
    · rw [hepoch]
      exact h.epoch issue hissue (hsame ▸ hgeneration)
  requests := hless.requests ▸ h.requests
  kept handle c hc := by
    obtain ⟨hflows, hposted⟩ := h.kept handle c (hless.candidates handle c hc)
    exact ⟨fun n flow c' hflow => hflows n flow c' (hless.flows n flow hflow), hless.posted ▸ hposted⟩
  alone n m flow flow' handle c c' hflow hflow' :=
    h.alone n m flow flow' handle c c' (hless.flows n flow hflow) (hless.flows m flow' hflow')
  unposted n flow handle c hflow hholds :=
    hless.posted ▸ h.unposted n flow handle c (hless.flows n flow hflow) hholds
  once := hless.posted ▸ h.once

theorem Less.refl (s : Background) : Less s s where
  keyed := id
  candidates _ _ := id
  flows _ _ := id
  pending _ _ h := ⟨h, rfl⟩
  nextFlow := le_rfl
  drawn := le_rfl
  issued := rfl
  posted := rfl
  requests := rfl
  received _ := id
  generation := .inr ⟨rfl, rfl⟩

theorem Less.trans {u : Background} (h : Less s t) (h' : Less t u) : Less s u where
  keyed hs := h'.keyed (h.keyed hs)
  candidates handle c hc := h.candidates handle c (h'.candidates handle c hc)
  flows n flow hflow := h.flows n flow (h'.flows n flow hflow)
  pending requestId pending hpending := by
    obtain ⟨hbefore, hsame⟩ := h'.pending requestId pending hpending
    exact ⟨(h.pending requestId pending hbefore).1, hsame.trans (h.pending requestId pending hbefore).2⟩
  nextFlow := h.nextFlow.trans h'.nextFlow
  drawn := h.drawn.trans h'.drawn
  issued := h'.issued.trans h.issued
  posted := h'.posted.trans h.posted
  requests := h'.requests.trans h.requests
  received response hresponse := h'.received response (h.received response hresponse)
  generation := by
    rcases h'.generation with hnone | ⟨hgeneration, hepoch⟩
    · exact .inl hnone
    · rw [hgeneration, hepoch]
      exact h.generation

theorem less_clearCandidates (tabId : Int) : Less s (s.clearCandidates tabId) :=
  { Less.refl s with candidates := fun _ _ hc => (Option.filter_eq_some_iff.1 hc).1 }

theorem less_clearAllCandidates : Less s s.clearAllCandidates :=
  { Less.refl s with candidates := fun _ _ hc => nomatch hc }

theorem less_replaceVaultSession (vaultSessionId : String) : Less s (s.replaceVaultSession vaultSessionId) := by
  unfold Background.replaceVaultSession
  split_ifs
  · exact { Less.refl s with candidates := fun _ _ hc => nomatch hc }
  · exact { Less.refl s with }

theorem less_channelStep (event : ChannelEvent) : Less s (s.channelStep env event) := by
  have hclear : ∀ (tabs : List Int) (t : Background), Less s t → Less s (tabs.foldl Background.clearCandidates t) := by
    intro tabs
    induction tabs with
    | nil => exact fun _ h => h
    | cons tabId tabs ih => exact fun t h => ih _ (h.trans (less_clearCandidates tabId))
  exact hclear _ _ { Less.refl s with keyed := fun h => h.step env.platform event }

/-- No request of the flow is open. -/
def Idle (s : Background) (n : Nat) : Prop :=
  ∀ requestId pending, s.native.pending.lookup requestId = some pending → pending.flow ≠ n

theorem less_setFlow_none (hidle : Idle s n) : Less s (s.setFlow n none) :=
  { Less.refl s with
    flows := by
      intro m flow hflow
      by_cases hm : m = n
      · subst hm
        simp [Background.setFlow] at hflow
      · simpa [Background.setFlow, Function.update_of_ne hm] using hflow
    pending := fun requestId pending hpending =>
      ⟨hpending, Function.update_of_ne (hidle requestId pending hpending) _ _⟩ }

theorem less_giveUp (hidle : Idle s n) (task : Task) : Less s (s.giveUp n task) := by
  unfold Background.giveUp
  split
  · exact (less_setFlow_none hidle).trans { Less.refl _ with }
  · exact less_setFlow_none hidle

theorem less_unanswered (hidle : Idle s n) : Less s (s.unanswered n) := by
  unfold Background.unanswered
  split
  · exact less_giveUp hidle _
  · exact Less.refl s

theorem unanswered_pending : (s.unanswered n).native.pending = s.native.pending := by
  unfold Background.unanswered Background.giveUp
  split
  · dsimp only
    split <;> rfl
  · rfl

theorem less_unanswered_all {list : List Nat} (hidle : ∀ n ∈ list, Idle s n) :
    Less s (list.foldl Background.unanswered s) := by
  induction list generalizing s with
  | nil => exact Less.refl s
  | cons n list ih =>
    refine (less_unanswered (hidle n List.mem_cons_self)).trans (ih fun m hm => ?_)
    intro requestId pending hpending
    rw [unanswered_pending] at hpending
    exact hidle m (List.mem_cons_of_mem _ hm) requestId pending hpending

theorem Guarded.idle (h : Guarded env s) (hflow : ∀ flow, s.flows n = some flow → ∀ requestId,
    flow.question ≠ .native requestId) : Idle s n := by
  intro requestId pending hpending hn
  obtain ⟨flow, hflow', hquestion, -⟩ := h.pending requestId pending hpending
  exact hflow flow (hn ▸ hflow') requestId hquestion

/-- A flow waits for one request. -/
theorem Guarded.pending_inj (h : Guarded env s) {requestId requestId' : String} {p p' : PendingRequest}
    (hp : s.native.pending.lookup requestId = some p) (hp' : s.native.pending.lookup requestId' = some p')
    (hflow : p.flow = p'.flow) : requestId = requestId' := by
  obtain ⟨flow, hflows, hquestion, -⟩ := h.pending requestId p hp
  obtain ⟨flow', hflows', hquestion', -⟩ := h.pending requestId' p' hp'
  rw [hflow, hflows'] at hflows
  obtain rfl := Option.some.inj hflows
  exact Question.native.inj (hquestion.symm.trans hquestion')

theorem lookup_erase_of_some {pending : AList fun _ : String => PendingRequest} {k k' : String}
    {p : PendingRequest} (h : (pending.erase k).lookup k' = some p) : k' ≠ k ∧ pending.lookup k' = some p := by
  by_cases hk : k' = k
  · rw [hk, AList.lookup_erase] at h
    cases h
  · rw [AList.lookup_erase_ne hk] at h
    exact ⟨hk, h⟩

theorem lookup_erase_all {keys : List String} {pending : AList fun _ : String => PendingRequest} {k : String}
    {p : PendingRequest} (h : (keys.foldl (fun pending key => pending.erase key) pending).lookup k = some p) :
    k ∉ keys ∧ pending.lookup k = some p := by
  induction keys generalizing pending with
  | nil => exact ⟨List.not_mem_nil, h⟩
  | cons key keys ih =>
    obtain ⟨hkeys, hlookup⟩ := ih h
    obtain ⟨hne, hlookup⟩ := lookup_erase_of_some hlookup
    exact ⟨fun hmem => (List.mem_cons.1 hmem).elim hne hkeys, hlookup⟩

theorem less_timeout (h : Guarded env s) (requestId generation : String) : Less s (s.timeout requestId generation) := by
  unfold Background.timeout
  split
  case h_2 => exact Less.refl s
  case h_1 pending hpending =>
    split_ifs
    · refine Less.trans (t := { s with
        native := { s.native with pending := s.native.pending.erase requestId } }) ?_ (less_unanswered ?_)
      · exact { Less.refl s with pending := fun _ _ hp => ⟨(lookup_erase_of_some hp).2, rfl⟩ }
      · intro requestId' pending' hpending' hflow
        obtain ⟨hne, hbefore⟩ := lookup_erase_of_some hpending'
        exact hne (h.pending_inj hbefore hpending hflow)
    · exact Less.refl s

theorem less_nativeLeft (h : Guarded env s) (port : Nat) : Less s (s.nativeLeft port) := by
  unfold Background.nativeLeft
  split_ifs
  · exact Less.refl s
  · dsimp only
    refine Less.trans ?_ (less_clearAllCandidates.trans (less_unanswered_all ?_))
    · exact { Less.refl s with
        pending := fun _ _ hp => ⟨(lookup_erase_all hp).2, rfl⟩, generation := .inl rfl }
    · intro n hn requestId pending hpending hflow
      obtain ⟨⟨requestId', pending'⟩, hentry, rfl⟩ := List.mem_map.1 hn
      obtain ⟨hkept, hbefore⟩ := lookup_erase_all hpending
      have hbefore' : s.native.pending.lookup requestId' = some pending' :=
        AList.mem_lookup_iff.2 (List.mem_filter.1 hentry).1
      obtain rfl := h.pending_inj hbefore hbefore' hflow
      exact hkept (List.mem_map.2 ⟨_, hentry, rfl⟩)

/-! ## Flows that go on -/

theorem setFlow_eq {flow flow' : Flow} {m : Nat} (h : (s.setFlow n (some flow)).flows m = some flow') :
    m = n ∧ flow' = flow ∨ m ≠ n ∧ s.flows m = some flow' := by
  by_cases hm : m = n
  · subst hm
    simp only [Background.setFlow, Function.update_self, Option.some.injEq] at h
    exact .inl ⟨rfl, h.symm⟩
  · simp only [Background.setFlow, Function.update_of_ne hm] at h
    exact .inr ⟨hm, h⟩

/-- The candidate of a flow is its own. -/
structure Owns (s : Background) (n : Nat) (task : Task) : Prop where
  offered : ∀ h c, task.holds = some (h, c) → Offered s.issued h c
  kept : ∀ h c c', task.holds = some (h, c) → s.candidates h ≠ some c'
  alone : ∀ m flow h c c', task.holds = some (h, c) → s.flows m = some flow → flow.task.holds = some (h, c') → m = n
  unposted : ∀ h c, task.holds = some (h, c) → ∀ post ∈ s.posted, post.handle ≠ h

theorem Guarded.owns (h : Guarded env s) {flow : Flow} (hflow : s.flows n = some flow) : Owns s n flow.task where
  offered handle c hholds := h.flows n flow handle c hflow hholds
  kept handle c c' hholds hc := (h.kept handle c' hc).1 n flow c hflow hholds
  alone m flow' handle c c' hholds hflow' hholds' := h.alone m n flow' flow handle c' c hflow' hflow hholds' hholds
  unposted handle c hholds := h.unposted n flow handle c hflow hholds

theorem Owns.of_holds {task task' : Task} (h : Owns s n task) (heq : task'.holds = task.holds) : Owns s n task' :=
  ⟨heq ▸ h.offered, heq ▸ h.kept, heq ▸ h.alone, heq ▸ h.unposted⟩

theorem owns_of_none {task : Task} (h : task.holds = none) : Owns s n task where
  offered _ _ hholds := by simp [h] at hholds
  kept _ _ _ hholds := by simp [h] at hholds
  alone _ _ _ _ _ hholds := by simp [h] at hholds
  unposted _ _ hholds := by simp [h] at hholds

/-- A flow without an open request moves on. -/
theorem Guarded.setFlow (h : Guarded env s) {flow : Flow} (hidle : Idle s n) (hn : n < s.nextFlow)
    (howns : Owns s n flow.task)
    (hdelivers : ∀ handle c requestId username password, flow.task = .deliver handle c requestId username password →
      Obtained s.requests s.received c requestId username password) :
    Guarded env (s.setFlow n (some flow)) :=
  { h with
    flows := by
      intro m flow' handle c hflow hholds
      obtain ⟨rfl, rfl⟩ | ⟨-, hflow⟩ := setFlow_eq hflow
      · exact howns.offered handle c hholds
      · exact h.flows m flow' handle c hflow hholds
    delivers := by
      intro m handle c requestId username password question hflow
      obtain ⟨rfl, rfl⟩ | ⟨-, hflow⟩ := setFlow_eq hflow
      · exact hdelivers handle c requestId username password rfl
      · exact h.delivers m handle c requestId username password question hflow
    started := by
      intro m flow' hflow
      obtain ⟨rfl, rfl⟩ | ⟨-, hflow⟩ := setFlow_eq hflow
      · exact hn
      · exact h.started m flow' hflow
    pending := by
      intro requestId pending hpending
      obtain ⟨flow', hflow', hrest⟩ := h.pending requestId pending hpending
      refine ⟨flow', ?_, hrest⟩
      show Function.update _ n _ pending.flow = _
      rw [Function.update_of_ne (hidle requestId pending hpending), hflow']
    kept := by
      intro handle c hc
      refine ⟨fun m flow' c' hflow hholds => ?_, (h.kept handle c hc).2⟩
      obtain ⟨rfl, rfl⟩ | ⟨-, hflow⟩ := setFlow_eq hflow
      · exact howns.kept handle c' c hholds hc
      · exact (h.kept handle c hc).1 m flow' c' hflow hholds
    alone := by
      intro m m' flow' flow'' handle c c' hflow hflow' hholds hholds'
      obtain ⟨hm, heq⟩ | ⟨-, hbefore⟩ := setFlow_eq hflow
      · subst hm heq
        obtain ⟨hm', -⟩ | ⟨-, hbefore'⟩ := setFlow_eq hflow'
        · exact hm'.symm
        · exact (howns.alone m' flow'' handle c c' hholds hbefore' hholds').symm
      · obtain ⟨hm', heq⟩ | ⟨-, hbefore'⟩ := setFlow_eq hflow'
        · subst hm' heq
          exact howns.alone m flow' handle c' c hholds' hbefore hholds
        · exact h.alone m m' flow' flow'' handle c c' hbefore hbefore' hholds hholds'
    unposted := by
      intro m flow' handle c hflow hholds
      obtain ⟨rfl, rfl⟩ | ⟨-, hflow⟩ := setFlow_eq hflow
      · exact howns.unposted handle c hholds
      · exact h.unposted m flow' handle c hflow hholds }

theorem request_drawn {port : Nat} {generation : String} {task : Task} {kind : RequestKind} (posts : Bool)
    (hport : s.native.port = some port) (hgeneration : s.native.generation = some generation) :
    (s.request env n task kind posts).drawn = s.drawn + 1 := by
  unfold Background.request
  rw [hport, hgeneration]
  cases posts with
  | true => rfl
  | false =>
    show (Background.giveUp _ n task).drawn = _
    unfold Background.giveUp
    dsimp only
    split <;> rfl

/-- A request is sent, and the flow waits for its answer. -/
theorem Guarded.request (h : Guarded env s) {task : Task} {kind : RequestKind} {posts : Bool}
    (hidle : Idle s n) (hn : n < s.nextFlow) (howns : Owns s n task)
    (hserves : ∀ generation, s.native.generation = some generation → Serves ⟨generation, kind, n⟩ task)
    (hrepeat : NoRepeat env (s.request env n task kind posts).drawn) :
    Guarded env (s.request env n task kind posts) := by
  unfold Background.request
  split
  case h_2 => exact h.less (less_giveUp hidle task)
  case h_1 port generation hport hgeneration =>
    rw [request_drawn posts hport hgeneration] at hrepeat
    dsimp only [Background.randomToken]
    have hidle' : Idle { s with drawn := s.drawn + 1 } n := hidle
    have hdrawn : Guarded env { s with drawn := s.drawn + 1 } :=
      h.less { Less.refl s with drawn := Nat.le_succ _ }
    split
    case isFalse => exact hdrawn.less (less_giveUp hidle' task)
    case isTrue hposts =>
      have hnew : ∀ request ∈ s.requests, request.requestId ≠ env.token s.drawn := by
        intro request hrequest
        exact (h.requestIds request hrequest).ne_token le_rfl (Nat.lt_succ_self _) hrepeat
      have hset : Guarded env (Background.setFlow { s with drawn := s.drawn + 1 } n
          (some ⟨task, .native (env.token s.drawn)⟩)) := by
        refine hdrawn.setFlow hidle' hn ⟨howns.offered, howns.kept, howns.alone, howns.unposted⟩ ?_
        intro handle c requestId username password htask
        have htask : task = _ := htask
        have := hserves generation hgeneration
        rw [htask] at this
        exact this.elim
      exact {
        hset with
        delivers := fun m handle c requestId username password question hflow =>
          ⟨List.mem_append_left _ (hset.delivers m handle c requestId username password question hflow).1,
            (hset.delivers m handle c requestId username password question hflow).2⟩
        pending := by
          intro requestId pending hpending
          have hpending : (s.native.pending.insert _ _).lookup requestId = some pending := hpending
          by_cases hid : requestId = env.token s.drawn
          · rw [hid, AList.lookup_insert] at hpending
            obtain rfl := Option.some.inj hpending
            refine ⟨⟨task, .native (env.token s.drawn)⟩, ?_, ?_, hserves generation hgeneration, ?_⟩
            · show Function.update _ n _ n = _
              rw [Function.update_self]
            · rw [hid]
            · rw [hid]
              exact List.mem_append_right _ List.mem_cons_self
          · rw [AList.lookup_insert_ne hid] at hpending
            obtain ⟨flow, hflow, hquestion, hserve, hrequest⟩ := hset.pending requestId pending hpending
            exact ⟨flow, hflow, hquestion, hserve, List.mem_append_left _ hrequest⟩
        posted := by
          intro post hpost
          obtain ⟨issue, hissue, hhandle, hfaithful⟩ := hset.posted post hpost
          exact ⟨issue, hissue, hhandle, hfaithful.mono (fun _ hr => List.mem_append_left _ hr) fun _ hr => hr⟩
        requestIds := by
          intro request hrequest
          rcases List.mem_append.1 hrequest with hrequest | hrequest
          · exact hset.requestIds request hrequest
          · obtain rfl := List.mem_singleton.1 hrequest
            exact ⟨s.drawn, Nat.lt_succ_self _, rfl⟩
        requests := by
          show ((s.requests ++ [_]).map Request.requestId).Nodup
          rw [List.map_append, List.nodup_append]
          refine ⟨h.requests, List.nodup_singleton _, ?_⟩
          intro requestId hmem requestId' hmem' heq
          obtain ⟨request, hrequest, rfl⟩ := List.mem_map.1 hmem
          simp only [List.map_cons, List.map_nil, List.mem_singleton] at hmem'
          exact hnew request hrequest (heq.trans hmem') }

/-- The desktop answers the request of a flow. -/
theorem Guarded.resolve (h : Guarded env s) {requestId : String} {pending : PendingRequest} {answer : NativeAnswer}
    (hpending : s.native.pending.lookup requestId = some pending)
    (hreceived : (pending.generation, ⟨requestId, answer⟩) ∈ s.received) :
    Guarded env (Background.resolve { s with
      native := { s.native with pending := s.native.pending.erase requestId } } pending.flow requestId answer) := by
  obtain ⟨flow, hflow, -, hserves, hrequest⟩ := h.pending requestId pending hpending
  have hn := h.started _ _ hflow
  generalize ht : { s with native := { s.native with pending := s.native.pending.erase requestId } } = t
  have hless : Less s t := by
    subst ht
    exact { Less.refl s with pending := fun _ _ hp => ⟨(lookup_erase_of_some hp).2, rfl⟩ }
  have hidle : Idle t pending.flow := by
    subst ht
    intro requestId' pending' hpending' hsame
    obtain ⟨hne, hbefore⟩ := lookup_erase_of_some hpending'
    exact hne (h.pending_inj hbefore hpending hsame)
  have hrequests : t.requests = s.requests := hless.requests
  have hflow' : t.flows pending.flow = some flow := by
    subst ht
    exact hflow
  have ht' : Guarded env t := h.less hless
  have hn' : pending.flow < t.nextFlow := Nat.lt_of_lt_of_le hn hless.nextFlow
  have hend : Guarded env (t.setFlow pending.flow none) := ht'.less (less_setFlow_none hidle)
  have howns := ht'.owns hflow'
  obtain ⟨task, question⟩ := flow
  unfold Background.resolve
  rw [hflow']
  cases task with
  | connect =>
    dsimp only
    split <;> exact hend.less { Less.refl _ with }
  | listed context listing =>
    dsimp only
    split_ifs
    · exact ht'.setFlow hidle hn' (owns_of_none rfl) fun _ _ _ _ _ htask => by cases htask
    · exact hend
  | requested handle candidate =>
    dsimp only
    split
    case h_2 => exact hend
    case h_1 username password =>
      split_ifs
      · refine ht'.setFlow hidle hn' (howns.of_holds rfl) ?_
        intro handle' c' requestId' username' password' htask
        cases htask
        -- the request was made with the candidate's own data
        obtain ⟨hkind, hgeneration⟩ := hserves
        rw [hkind, hgeneration] at hrequest
        rw [hgeneration] at hreceived
        exact ⟨hrequests ▸ hrequest, hless.received _ hreceived⟩
      · exact hend
  | page message => exact hserves.elim
  | list => exact hserves.elim
  | confirm context answer => exact hserves.elim
  | fill handle candidate => exact hserves.elim
  | deliver handle candidate requestId' username password => exact hserves.elim

theorem Guarded.nativeMessage (h : Guarded env s) (port : Nat) (message : Option NativeResponse) :
    Guarded env (s.nativeMessage port message) := by
  unfold Background.nativeMessage
  split_ifs
  · exact h
  · split
    case h_2 => exact h
    case h_1 response generation hopened =>
      have hreceived : Guarded env { s with received := s.received ++ [(generation, response)] } :=
        h.less { Less.refl s with received := fun _ hr => List.mem_append_left _ hr }
      dsimp only
      split
      case h_2 => exact hreceived
      case h_1 pending hpending =>
        split_ifs with hanswers
        · obtain ⟨hgeneration, -, -⟩ := hanswers
          refine hreceived.resolve hpending ?_
          rw [hgeneration]
          exact List.mem_append_right _ List.mem_cons_self
        · exact hreceived

/-- A new flow. -/
theorem Guarded.start (h : Guarded env s) {task : Task} {question : Question} (howns : Owns s s.nextFlow task)
    (hdelivers : ∀ handle c requestId username password,
      task ≠ .deliver handle c requestId username password) : Guarded env (s.start task question) := by
  have hnext : Guarded env { s with nextFlow := s.nextFlow + 1 } :=
    h.less { Less.refl s with nextFlow := Nat.le_succ _ }
  have hidle : Idle s s.nextFlow := h.idle fun flow hflow => absurd (h.started _ _ hflow) (Nat.lt_irrefl _)
  exact hnext.setFlow hidle (Nat.lt_succ_self _) ⟨howns.offered, howns.kept, howns.alone, howns.unposted⟩
    fun handle c requestId username password htask => absurd htask (hdelivers _ _ _ _ _)

/-- The handle goes from the store to the flow. -/
theorem Guarded.fill (h : Guarded env s) (handle : String) : Guarded env (s.fill handle) := by
  unfold Background.fill
  split
  case h_1 => exact h
  case h_2 candidate hcandidate =>
    obtain ⟨hflows, hposted⟩ := h.kept handle candidate hcandidate
    have htaken : Guarded env { s with candidates := Function.update s.candidates handle none } := by
      refine h.less { Less.refl s with candidates := ?_ }
      intro handle' c hc
      by_cases hhandle : handle' = handle
      · subst hhandle
        simp at hc
      · simpa [Function.update_of_ne hhandle] using hc
    refine htaken.start ⟨?_, ?_, ?_, ?_⟩ fun _ _ _ _ _ htask => by cases htask
    · intro handle' c hholds
      cases hholds
      exact h.candidates handle candidate hcandidate
    · intro handle' c c' hholds hc
      cases hholds
      simp at hc
    · intro m flow handle' c c' hholds hflow hholds'
      cases hholds
      exact absurd hholds' (hflows m flow c' hflow)
    · intro handle' c hholds
      cases hholds
      exact hposted

theorem NoRepeat.mono {drawn drawn' : Nat} (h : NoRepeat env drawn') (hle : drawn ≤ drawn') : NoRepeat env drawn :=
  fun i j hi hj => h i j (Nat.lt_of_lt_of_le hi hle) (Nat.lt_of_lt_of_le hj hle)

/-- No candidate was issued on a connection that is new. -/
theorem Guarded.connect (h : Guarded env s) {connects posts : Bool}
    (hrepeat : NoRepeat env (s.connect env connects posts).drawn) : Guarded env (s.connect env connects posts) := by
  unfold Background.connect at hrepeat ⊢
  split_ifs at hrepeat ⊢
  · exact h
  · dsimp only [Background.randomToken] at hrepeat ⊢
    rw [request_drawn posts rfl rfl] at hrepeat
    have hnew : NoRepeat env (s.drawn + 1) := hrepeat.mono (Nat.le_succ _)
    refine Guarded.request ?_ ?_ (Nat.lt_succ_self _) (owns_of_none rfl) (fun _ _ => rfl) ?_
    · exact {
        h with
        started := fun n flow hflow => Nat.lt_succ_of_lt (h.started n flow hflow)
        handles := fun issue hissue => (h.handles issue hissue).mono (Nat.le_succ _)
        generations := by
          intro issue hissue
          obtain ⟨generation, hgeneration, hdrawn⟩ := h.generations issue hissue
          exact ⟨generation, hgeneration, hdrawn.mono (Nat.le_succ _)⟩
        generation := by
          intro generation hgeneration
          obtain rfl := Option.some.inj hgeneration
          exact ⟨s.drawn, Nat.lt_succ_self _, rfl⟩
        requestIds := fun request hrequest => (h.requestIds request hrequest).mono (Nat.le_succ _)
        epoch := by
          intro issue hissue hgeneration
          obtain ⟨generation, hsome, hdrawn⟩ := h.generations issue hissue
          have heq : some (env.token s.drawn) = some generation := hgeneration.trans hsome
          exact absurd (Option.some.inj heq).symm (hdrawn.ne_token le_rfl (Nat.lt_succ_self _) hnew) }
    · refine h.idle fun flow hflow => absurd (h.started _ _ hflow) ?_
      simp
    · rw [request_drawn posts rfl rfl]
      exact hrepeat
  · exact h.less { Less.refl s with }

/-! ## The context -/

/-- The context is that of the state. -/
structure Current (s : Background) (context : CurrentCredentialContext) : Prop where
  bound : s.registry.documents.lookup (Registry.key context.page.tabId 0) =
    some ⟨context.page.tabId, 0, context.page.origin, context.page.documentNonce, context.channel.port⟩
  page : ∃ page, s.pages context.page.tabId = some page ∧ page.documentNonce = context.page.documentNonce ∧
    page.origin = context.page.origin ∧ page.fillTarget = some context.page.fillTarget
  generation : s.native.generation = some context.nativeGeneration

theorem current_of_currentContext (hkeyed : Keyed s.registry) {site : Site} {context : CurrentCredentialContext}
    (h : s.currentContext site = some context) : Current s context := by
  simp only [Background.currentContext, Option.bind_eq_bind, Option.bind_eq_some_iff,
    Option.filter_eq_some_iff] at h
  obtain ⟨page, ⟨hpage, horigin⟩, fillTarget, htarget, generation, hgeneration, channel, hchannel, h⟩ := h
  split_ifs at h with hsite
  obtain rfl := Option.some.inj h
  refine ⟨?_, ⟨page, hpage, rfl, of_decide_eq_true horigin, htarget⟩, hgeneration⟩
  unfold Registry.authorityFor at hchannel
  split at hchannel
  case h_2 => cases hchannel
  case h_1 authority hlookup =>
    split_ifs at hchannel with hnonce
    obtain rfl := Option.some.inj hchannel
    obtain ⟨htab, hframe⟩ := key_inj (hkeyed _ _ hlookup)
    show s.registry.documents.lookup (Registry.key site.tabId 0) = _
    rw [hlookup]
    obtain ⟨tabId, frameId, origin, documentNonce, port⟩ := authority
    simp only at htab hframe hnonce hsite ⊢
    rw [← htab, ← hframe, hsite, hnonce]

theorem Current.of_matchesCurrent {expected context : CurrentCredentialContext} (h : Current s context)
    (hmatches : matchesCurrent expected context = true) : Current s expected := by
  simp only [matchesCurrent, Bool.and_eq_true, decide_eq_true_eq] at hmatches
  obtain ⟨⟨⟨⟨⟨⟨htab, horigin⟩, hnonce⟩, husername⟩, hpassword⟩, hport⟩, hgeneration⟩ := hmatches
  have htarget : context.page.fillTarget = expected.page.fillTarget := by
    cases hcontext : context.page.fillTarget
    cases hexpected : expected.page.fillTarget
    simp only [hcontext, hexpected] at husername hpassword
    rw [husername, hpassword]
  refine ⟨?_, ?_, hgeneration ▸ h.generation⟩
  · rw [← htab, ← horigin, ← hnonce, ← hport]
    exact h.bound
  · rw [← htab, ← horigin, ← hnonce, ← htarget]
    exact h.page

/-- What `candidateMatches` has compared. -/
structure StillCurrent (s : Background) (c : CandidateAuthority) : Prop where
  bound : s.registry.documents.lookup (Registry.key c.tabId 0) =
    some ⟨c.tabId, 0, c.origin, c.documentNonce, c.contentPort⟩
  generation : s.native.generation = some c.nativeGeneration

theorem Current.of_candidateMatches {c : CandidateAuthority} {context : CurrentCredentialContext}
    (h : Current s context) (hmatches : candidateMatches c context = true) :
    StillCurrent s c ∧ context.channel.port = c.contentPort := by
  simp only [candidateMatches, Bool.and_eq_true, decide_eq_true_eq] at hmatches
  obtain ⟨⟨⟨⟨⟨⟨htab, horigin⟩, hnonce⟩, -⟩, -⟩, hport⟩, hgeneration⟩ := hmatches
  refine ⟨⟨?_, hgeneration ▸ h.generation⟩, hport.symm⟩
  rw [htab, horigin, hnonce, hport]
  exact h.bound

/-! ## Issuing -/

theorem freeHandle_eq {fuel : Nat} {handle : String} (h : Background.freeHandle env fuel s = some (handle, t)) :
    ∃ k, s.drawn ≤ k ∧ handle = env.token k ∧ t = { s with drawn := k + 1 } := by
  induction fuel generalizing s with
  | zero => cases h
  | succ fuel ih =>
    rw [Background.freeHandle] at h
    dsimp only [Background.randomToken] at h
    split_ifs at h
    · obtain ⟨k, hk, hhandle, ht⟩ := ih h
      exact ⟨k, Nat.le_of_succ_le hk, hhandle, ht⟩
    · obtain ⟨rfl, rfl⟩ := Prod.mk.inj (Option.some.inj h)
      exact ⟨s.drawn, le_rfl, rfl, rfl⟩

theorem Offered.mono {issued issued' : List Issue} {handle : String} {c : CandidateAuthority}
    (h : Offered issued handle c) (hle : ∀ issue ∈ issued, issue ∈ issued') : Offered issued' handle c := by
  obtain ⟨issue, hissue, hrest⟩ := h
  exact ⟨issue, hle issue hissue, hrest⟩

/-- A handle that was never issued is nowhere. -/
theorem Guarded.unused (h : Guarded env s) {handle : String} (hnew : ∀ issue ∈ s.issued, issue.handle ≠ handle) :
    (∀ n flow c, s.flows n = some flow → flow.task.holds ≠ some (handle, c)) ∧
      ∀ post ∈ s.posted, post.handle ≠ handle := by
  refine ⟨fun n flow c hflow hholds => ?_, fun post hpost heq => ?_⟩
  · obtain ⟨issue, hissue, hhandle, -⟩ := h.flows n flow handle c hflow hholds
    exact hnew issue hissue hhandle
  · obtain ⟨issue, hissue, hhandle, -⟩ := h.posted post hpost
    exact hnew issue hissue (hhandle.trans heq)

theorem Guarded.authorize (h : Guarded env s) {context : CurrentCredentialContext} (hcurrent : Current s context)
    {vaultSessionId : String} {native : NativeCandidate}
    (hrepeat : NoRepeat env (s.authorize env vaultSessionId context native).drawn) :
    Guarded env (s.authorize env vaultSessionId context native) := by
  unfold Background.authorize at hrepeat ⊢
  split
  case h_1 => exact h
  case h_2 handle t hfree =>
    obtain ⟨k, hk, rfl, rfl⟩ := freeHandle_eq hfree
    rw [hfree] at hrepeat
    have hle : s.drawn ≤ k + 1 := Nat.le_succ_of_le hk
    have hnew : ∀ issue ∈ s.issued, issue.handle ≠ env.token k := fun issue hissue =>
      (h.handles issue hissue).ne_token hk (Nat.lt_succ_self k) hrepeat
    obtain ⟨hflows, hposted⟩ := h.unused hnew
    have hdrawn : Guarded env { s with drawn := k + 1 } := h.less { Less.refl s with drawn := hle }
    have hlast : ∀ {issue issued}, issue ∈ s.issued → issue ∈ s.issued ++ issued := fun hissue =>
      List.mem_append_left _ hissue
    exact {
      hdrawn with
      candidates := by
        intro handle c hc
        by_cases hhandle : handle = env.token k
        · subst hhandle
          simp only [Function.update_self, Option.some.injEq] at hc
          subst hc
          refine ⟨_, List.mem_append_right _ List.mem_cons_self, rfl, rfl, rfl, hcurrent.generation, hcurrent.bound, ?_⟩
          obtain ⟨page, hpage, hnonce, horigin, htarget⟩ := hcurrent.page
          exact ⟨page, hpage, hnonce, horigin, htarget⟩
        · simp only [Function.update_of_ne hhandle] at hc
          exact (h.candidates handle c hc).mono fun _ => hlast
      flows := fun n flow handle c hflow hholds => (h.flows n flow handle c hflow hholds).mono fun _ => hlast
      posted := by
        intro post hpost
        obtain ⟨issue, hissue, hrest⟩ := h.posted post hpost
        exact ⟨issue, hlast hissue, hrest⟩
      handles := by
        intro issue hissue
        rcases List.mem_append.1 hissue with hissue | hissue
        · exact hdrawn.handles issue hissue
        · obtain rfl := List.mem_singleton.1 hissue
          exact ⟨k, Nat.lt_succ_self k, rfl⟩
      generations := by
        intro issue hissue
        rcases List.mem_append.1 hissue with hissue | hissue
        · exact hdrawn.generations issue hissue
        · obtain rfl := List.mem_singleton.1 hissue
          exact ⟨_, hcurrent.generation, hdrawn.generation _ hcurrent.generation⟩
      epoch := by
        intro issue hissue hgeneration
        rcases List.mem_append.1 hissue with hissue | hissue
        · exact h.epoch issue hissue hgeneration
        · obtain rfl := List.mem_singleton.1 hissue
          rfl
      kept := by
        intro handle c hc
        by_cases hhandle : handle = env.token k
        · subst hhandle
          exact ⟨hflows, hposted⟩
        · simp only [Function.update_of_ne hhandle] at hc
          exact h.kept handle c hc }

theorem authorize_frame (env : Env) (s : Background) (vaultSessionId : String)
    (context : CurrentCredentialContext) (native : NativeCandidate) :
    (s.authorize env vaultSessionId context native).registry = s.registry ∧
      (s.authorize env vaultSessionId context native).pages = s.pages ∧
      (s.authorize env vaultSessionId context native).native = s.native ∧
      s.drawn ≤ (s.authorize env vaultSessionId context native).drawn := by
  unfold Background.authorize
  split
  case h_1 => exact ⟨rfl, rfl, rfl, le_rfl⟩
  case h_2 handle t hfree =>
    obtain ⟨k, hk, -, rfl⟩ := freeHandle_eq hfree
    exact ⟨rfl, rfl, rfl, Nat.le_succ_of_le hk⟩

theorem Current.frame {context : CurrentCredentialContext} (h : Current s context)
    (hregistry : t.registry = s.registry) (hpages : t.pages = s.pages) (hnative : t.native = s.native) :
    Current t context :=
  ⟨hregistry ▸ h.bound, hpages ▸ h.page, hnative ▸ h.generation⟩

theorem authorize_all_drawn (vaultSessionId : String) (context : CurrentCredentialContext)
    (list : List NativeCandidate) :
    s.drawn ≤ (list.foldl (fun s native => s.authorize env vaultSessionId context native) s).drawn := by
  induction list generalizing s with
  | nil => exact le_rfl
  | cons native list ih => exact (authorize_frame env s vaultSessionId context native).2.2.2.trans ih

theorem Guarded.authorize_all (h : Guarded env s) {context : CurrentCredentialContext}
    (hcurrent : Current s context) {vaultSessionId : String} {list : List NativeCandidate}
    (hrepeat : NoRepeat env (list.foldl (fun s native => s.authorize env vaultSessionId context native) s).drawn) :
    Guarded env (list.foldl (fun s native => s.authorize env vaultSessionId context native) s) := by
  induction list generalizing s with
  | nil => exact h
  | cons native list ih =>
    obtain ⟨hregistry, hpages, hnative, -⟩ := authorize_frame env s vaultSessionId context native
    refine ih ?_ (hcurrent.frame hregistry hpages hnative) hrepeat
    exact h.authorize hcurrent (hrepeat.mono (authorize_all_drawn vaultSessionId context list))

/-! ## Posting -/

/-- A credential is posted, and its handle is used up. -/
theorem Guarded.post (h : Guarded env s) {handle requestId username password : String} {c : CandidateAuthority}
    {question : Question} (hflow : s.flows n = some ⟨.deliver handle c requestId username password, question⟩)
    (hidle : Idle s n) (hcurrent : StillCurrent s c) {port : Nat} (hport : port = c.contentPort) :
    Guarded env { s.setFlow n none with posted := s.posted ++ [{
      handle
      port
      message := ⟨c.documentNonce, c.usernameFieldHandle, c.passwordFieldHandle, username, password⟩
      requestId
      bound := s.registry.documents.lookup (Registry.key c.tabId 0)
      generation := s.native.generation
      epoch := s.epoch }] } := by
  subst hport
  have hend : Guarded env (s.setFlow n none) := h.less (less_setFlow_none hidle)
  have howns := h.owns hflow
  obtain ⟨issue, hissue, hhandle, hoffers⟩ := howns.offered handle c rfl
  obtain ⟨hrequest, hresponse⟩ := h.delivers n handle c requestId username password question hflow
  exact {
    hend with
    posted := by
      intro post hpost
      rcases List.mem_append.1 hpost with hpost | hpost
      · exact hend.posted post hpost
      · obtain rfl := List.mem_singleton.1 hpost
        obtain ⟨page, hpage, hnonce, horigin, htarget⟩ := hoffers.page
        refine ⟨issue, hissue, hhandle, _, page, c.nativeGeneration, hoffers.bound, hcurrent.bound, rfl, rfl, hpage,
          hnonce, horigin, htarget, hoffers.generation, hcurrent.generation, ?_, ?_, hresponse⟩
        · exact h.epoch issue hissue (hcurrent.generation.trans hoffers.generation.symm)
        · rw [hoffers.vaultSessionId, hoffers.entryId]
          exact hrequest
    kept := by
      intro handle' c' hc
      obtain ⟨hflows, hposted⟩ := hend.kept handle' c' hc
      refine ⟨hflows, fun post hpost => ?_⟩
      rcases List.mem_append.1 hpost with hpost | hpost
      · exact hposted post hpost
      · obtain rfl := List.mem_singleton.1 hpost
        rintro rfl
        exact howns.kept handle c c' rfl hc
    unposted := by
      intro m flow handle' c' hflow' hholds post hpost
      rcases List.mem_append.1 hpost with hpost | hpost
      · exact hend.unposted m flow handle' c' hflow' hholds post hpost
      · obtain rfl := List.mem_singleton.1 hpost
        rintro rfl
        have hbefore := (less_setFlow_none hidle).flows m flow hflow'
        have hm := howns.alone m flow handle c c' rfl hbefore hholds
        subst hm
        simp [Background.setFlow] at hflow'
    once := by
      show ((s.posted ++ [_]).map Post.handle).Nodup
      rw [List.map_append, List.nodup_append]
      refine ⟨h.once, List.nodup_singleton _, ?_⟩
      intro handle' hmem handle'' hmem' heq
      obtain ⟨post, hpost, rfl⟩ := List.mem_map.1 hmem
      simp only [List.map_cons, List.map_nil, List.mem_singleton] at hmem'
      exact howns.unposted handle c rfl post hpost (heq.trans hmem') }

/-! ## Runs -/

theorem Guarded.resume (h : Guarded env s) {task : Task} {question : Question} {posts : Bool}
    {context : Option CurrentCredentialContext} (hflow : s.flows n = some ⟨task, question⟩) (hidle : Idle s n)
    (hcurrent : ∀ current, context = some current → Current s current)
    (hrepeat : NoRepeat env (s.resume env n task context posts).drawn) :
    Guarded env (s.resume env n task context posts) := by
  have hn := h.started n _ hflow
  have howns := h.owns hflow
  have hend : Guarded env (s.setFlow n none) := h.less (less_setFlow_none hidle)
  cases context with
  | none => cases task <;> exact hend
  | some context =>
    have hcurrent := hcurrent context rfl
    cases task with
    | list =>
      refine Guarded.request (h.less ((less_clearCandidates context.page.tabId).trans ?_)) ?_ ?_ (owns_of_none rfl)
        (fun _ _ => rfl) hrepeat
      · exact { Less.refl _ with drawn := Nat.le_succ _ }
      · exact hidle
      · exact hn
    | confirm expected answer =>
      unfold Background.resume at hrepeat ⊢
      dsimp only at hrepeat ⊢
      split_ifs at hrepeat ⊢ with hmatches
      · have hexpected : Current (s.setFlow n none) expected :=
          (hcurrent.of_matchesCurrent hmatches).frame rfl rfl rfl
        cases answer with
        | error code =>
          cases code with
          | locked => exact hend.less less_clearAllCandidates
          | _ => exact hend
        | candidates vaultSessionId candidates =>
          refine (hend.less (less_replaceVaultSession vaultSessionId)).authorize_all ?_ hrepeat
          unfold Background.replaceVaultSession
          split_ifs <;> exact hexpected.frame rfl rfl rfl
        | _ => exact hend
      · exact hend
    | fill handle candidate =>
      unfold Background.resume at hrepeat ⊢
      dsimp only at hrepeat ⊢
      split_ifs at hrepeat ⊢ with hmatches
      · simp only [Bool.and_eq_true, decide_eq_true_eq] at hmatches
        refine h.request hidle hn (howns.of_holds rfl) (fun generation hgeneration => ⟨rfl, ?_⟩) hrepeat
        exact Option.some.inj (hgeneration.symm.trans hmatches.2)
      · exact hend
    | deliver handle candidate requestId username password =>
      unfold Background.resume at hrepeat ⊢
      dsimp only at hrepeat ⊢
      split_ifs with hmatches hposts
      · obtain ⟨hstill, hport⟩ := hcurrent.of_candidateMatches hmatches
        exact h.post hflow hidle hstill hport
      · exact hend
      · exact hend
    | _ => exact hend

theorem Guarded.tabAnswer (h : Guarded env s) {answer : Option (Option Background.ActiveTab)} {posts : Bool}
    (hrepeat : NoRepeat env (s.tabAnswer env n answer posts).drawn) :
    Guarded env (s.tabAnswer env n answer posts) := by
  unfold Background.tabAnswer at hrepeat ⊢
  split at hrepeat
  case h_2 => exact h
  case h_1 task hflow =>
    have hidle : Idle s n := h.idle fun flow hflow' requestId => by
      obtain rfl := Option.some.inj (hflow.symm.trans hflow')
      exact nofun
    cases answer with
    | none => exact h.less (less_setFlow_none hidle)
    | some tab =>
      dsimp only at hrepeat ⊢
      split at hrepeat
      case h_1 => exact h.resume hflow hidle nofun hrepeat
      case h_2 site hsite =>
        have howns := h.owns hflow
        refine h.setFlow hidle (h.started n _ hflow) howns ?_
        rintro handle c requestId username password rfl
        exact h.delivers n handle c requestId username password _ hflow

theorem Guarded.permissionAnswer (h : Guarded env s) {answer : Option Bool} {posts : Bool}
    (hrepeat : NoRepeat env (s.permissionAnswer env n answer posts).drawn) :
    Guarded env (s.permissionAnswer env n answer posts) := by
  unfold Background.permissionAnswer at hrepeat ⊢
  split at hrepeat
  case h_2 => exact h
  case h_1 task site hflow =>
    have hidle : Idle s n := h.idle fun flow hflow' requestId => by
      obtain rfl := Option.some.inj (hflow.symm.trans hflow')
      exact nofun
    have hcurrent : ∀ permitted current, (if permitted = true then s.currentContext site else none) = some current →
        Current s current := by
      intro permitted current hcontext
      split_ifs at hcontext
      exact current_of_currentContext h.keyed hcontext
    cases answer with
    | none => exact h.less (less_setFlow_none hidle)
    | some permitted =>
      have hend : Guarded env (s.setFlow n none) := h.less (less_setFlow_none hidle)
      cases task with
      | page message =>
        dsimp only
        split_ifs
        · exact hend.less { Less.refl _ with }
        · exact hend
      | _ => exact h.resume hflow hidle (hcurrent permitted) hrepeat

/-- A step keeps the guard as long as no token comes twice. -/
theorem Guarded.step (h : Guarded env s) (event : Event) (hrepeat : NoRepeat env (s.step env event).drawn) :
    Guarded env (s.step env event) := by
  cases event with
  | channel event => exact h.less (less_channelStep event)
  | pageState message sender =>
    show Guarded env (s.pageState env message sender)
    unfold Background.pageState
    split
    · exact h
    · dsimp only
      split
      · exact h.start (owns_of_none rfl) nofun
      · exact h
  | connect connects posts => exact h.connect hrepeat
  | listCandidates =>
    show Guarded env s.listCandidates
    unfold Background.listCandidates
    split_ifs
    · exact h
    · exact h.start (owns_of_none rfl) nofun
  | fill handle => exact h.fill handle
  | tabAnswer n answer posts => exact h.tabAnswer hrepeat
  | permissionAnswer n answer posts => exact h.permissionAnswer hrepeat
  | nativeMessage port message => exact h.nativeMessage port message
  | nativeLeft port => exact h.less (less_nativeLeft h port)
  | timeout requestId generation => exact h.less (less_timeout h requestId generation)
  | tabGone tabId =>
    refine h.less (Less.trans (t := { s with pages := Function.update s.pages tabId none }) { Less.refl s with } ?_)
    exact (less_channelStep _).trans (less_clearCandidates tabId)
  | permissionsRemoved =>
    refine h.less (Less.trans (t := { s with pages := fun _ => none }) { Less.refl s with } ?_)
    exact (less_channelStep _).trans less_clearAllCandidates

theorem giveUp_drawn (task : Task) : (s.giveUp n task).drawn = s.drawn := by
  unfold Background.giveUp
  dsimp only
  split <;> rfl

theorem unanswered_drawn : (s.unanswered n).drawn = s.drawn := by
  unfold Background.unanswered
  split
  · exact giveUp_drawn _
  · rfl

theorem unanswered_all_drawn (list : List Nat) : (list.foldl Background.unanswered s).drawn = s.drawn := by
  induction list generalizing s with
  | nil => rfl
  | cons n list ih => exact ih.trans unanswered_drawn

theorem clearCandidates_all_drawn (tabs : List Int) :
    (tabs.foldl Background.clearCandidates s).drawn = s.drawn := by
  induction tabs generalizing s with
  | nil => rfl
  | cons tabId tabs ih => exact ih

theorem channelStep_drawn (event : ChannelEvent) : (s.channelStep env event).drawn = s.drawn :=
  clearCandidates_all_drawn _

theorem drawn_le_request (task : Task) (kind : RequestKind) (posts : Bool) :
    s.drawn ≤ (s.request env n task kind posts).drawn := by
  unfold Background.request
  split
  · dsimp only [Background.randomToken]
    split_ifs
    · exact Nat.le_succ _
    · rw [giveUp_drawn]
      exact Nat.le_succ _
  · rw [giveUp_drawn]

theorem drawn_le_resume (task : Task) (context : Option CurrentCredentialContext) (posts : Bool) :
    s.drawn ≤ (s.resume env n task context posts).drawn := by
  unfold Background.resume
  split
  · refine le_trans ?_ (drawn_le_request _ _ _)
    exact Nat.le_succ _
  · dsimp only
    split_ifs
    · split
      · exact le_rfl
      · refine le_trans ?_ (authorize_all_drawn _ _ _)
        unfold Background.replaceVaultSession
        split_ifs <;> exact le_rfl
      · exact le_rfl
    · exact le_rfl
  · split_ifs
    · exact drawn_le_request _ _ _
    · exact le_rfl
  · dsimp only
    split_ifs <;> exact le_rfl
  · exact le_rfl

theorem resolve_drawn (requestId : String) (answer : NativeAnswer) :
    (s.resolve n requestId answer).drawn = s.drawn := by
  unfold Background.resolve
  split
  · dsimp only
    split <;> rfl
  · split_ifs <;> rfl
  · split
    · split_ifs <;> rfl
    · rfl
  · rfl

theorem drawn_le_step (s : Background) (event : Event) : s.drawn ≤ (s.step env event).drawn := by
  cases event with
  | channel event => exact (channelStep_drawn event).ge
  | pageState message sender =>
    show _ ≤ (s.pageState env message sender).drawn
    unfold Background.pageState
    split
    · exact le_rfl
    · dsimp only
      split <;> exact le_rfl
  | connect connects posts =>
    show _ ≤ (s.connect env connects posts).drawn
    unfold Background.connect
    split_ifs
    · exact le_rfl
    · refine le_trans ?_ (drawn_le_request _ _ _)
      exact Nat.le_succ _
    · exact le_rfl
  | listCandidates =>
    show _ ≤ s.listCandidates.drawn
    unfold Background.listCandidates
    split_ifs <;> exact le_rfl
  | fill handle =>
    show _ ≤ (s.fill handle).drawn
    unfold Background.fill
    split <;> exact le_rfl
  | tabAnswer n answer posts =>
    show _ ≤ (s.tabAnswer env n answer posts).drawn
    unfold Background.tabAnswer
    split
    · split
      · exact le_rfl
      · split
        · exact drawn_le_resume _ _ _
        · exact le_rfl
    · exact le_rfl
  | permissionAnswer n answer posts =>
    show _ ≤ (s.permissionAnswer env n answer posts).drawn
    unfold Background.permissionAnswer
    split
    · split
      · exact le_rfl
      · split
        · dsimp only
          split_ifs <;> exact le_rfl
        · exact drawn_le_resume _ _ _
    · exact le_rfl
  | nativeMessage port message =>
    show _ ≤ (s.nativeMessage port message).drawn
    unfold Background.nativeMessage
    split_ifs
    · exact le_rfl
    · split
      · dsimp only
        split
        · split_ifs
          · rw [resolve_drawn]
          · exact le_rfl
        · exact le_rfl
      · exact le_rfl
  | nativeLeft port =>
    show _ ≤ (s.nativeLeft port).drawn
    unfold Background.nativeLeft
    split_ifs
    · exact le_rfl
    · dsimp only
      rw [unanswered_all_drawn]
      exact le_rfl
  | timeout requestId generation =>
    show _ ≤ (s.timeout requestId generation).drawn
    unfold Background.timeout
    split
    · split_ifs
      · rw [unanswered_drawn]
      · exact le_rfl
    · exact le_rfl
  | tabGone tabId =>
    exact (channelStep_drawn (s := { s with pages := Function.update s.pages tabId none }) (.clearTab tabId)).ge
  | permissionsRemoved => exact (channelStep_drawn (s := { s with pages := fun _ => none }) .clearAll).ge

theorem guarded_initial : Guarded env Background.initial where
  keyed _ _ h := by cases h
  candidates _ _ h := by cases h
  flows _ _ _ _ h := by cases h
  delivers _ _ _ _ _ _ _ h := by cases h
  started _ _ h := by cases h
  pending _ _ h := by cases h
  posted _ h := by cases h
  handles _ h := by cases h
  generations _ h := by cases h
  generation _ h := by cases h
  requestIds _ h := by cases h
  epoch _ h := by cases h
  requests := List.nodup_nil
  kept _ _ h := by cases h
  alone _ _ _ _ _ _ _ h := by cases h
  unposted _ _ _ _ h := by cases h
  once := List.nodup_nil

theorem guarded_run {events : List Event} (hrepeat : NoRepeat env (Background.run env events).drawn) :
    Guarded env (Background.run env events) := by
  induction events using List.reverseRecOn with
  | nil => exact guarded_initial
  | append_singleton before event ih =>
    have hstep : Background.run env (before ++ [event]) = (Background.run env before).step env event := by
      rw [Background.run, List.foldl_append]
      rfl
    rw [hstep] at hrepeat ⊢
    exact (ih (hrepeat.mono (drawn_le_step _ event))).step event hrepeat

/-- Whatever the popups, the pages and the desktop do: a credential is posted to the document that
was bound when its handle was issued, on the same connection, and answers the request for what the
handle stands for. A handle leads to one post at most. -/
theorem credential_posted_where_offered (env : Env) (events : List Event)
    (hrepeat : NoRepeat env (Background.run env events).drawn) :
    (∀ post ∈ (Background.run env events).posted, ∃ issue ∈ (Background.run env events).issued,
      issue.handle = post.handle ∧
      Faithful (Background.run env events).requests (Background.run env events).received issue post) ∧
    ((Background.run env events).requests.map (·.requestId)).Nodup ∧
    ((Background.run env events).posted.map (·.handle)).Nodup :=
  ⟨(guarded_run hrepeat).posted, (guarded_run hrepeat).requests, (guarded_run hrepeat).once⟩

/-- 32 hexadecimal digits, which differ in the first sixteen draws. -/
def sampleToken (draw : Nat) : String :=
  "0f1e2d3c4b5a69788796a5b4c3d2e1f".push (Nat.digitChar (draw % 16))

theorem sampleToken_injective :
    ∀ i < 16, ∀ j < 16, sampleToken i = sampleToken j → i = j := by
  decide +kernel

def sampleEnv : Env := ⟨oneSitePlatform, sampleToken⟩

def samplePage : JsValue :=
  .object [("protocolVersion", .number (.integer 1)), ("type", .string "pageStateChanged"),
    ("documentNonce", .string sampleNonce), ("hasLoginForm", .boolean true),
    ("passwordFieldCount", .number (.integer 1)), ("usernameCandidateCount", .number (.integer 1)),
    ("formCount", .number (.integer 1)),
    ("fillTarget", .object [("usernameFieldHandle", .null), ("passwordFieldHandle", .string sampleNonce)])]

def sampleSender : MessageSender :=
  ⟨some "nian-pass-test", some "https://example.com/login", some 0, some ⟨some 7, none⟩⟩

def sampleTab : Option (Option Background.ActiveTab) := some (some ⟨some 7, some "https://example.com/login"⟩)

/-- A page connects, the desktop offers an entry, and the popup fills it in. -/
def sampleFill : List Event :=
  [.channel (.connected samplePort), .channel (.message 0 sampleHello), .channel (.permission 0 (some true)),
    .pageState samplePage sampleSender, .permissionAnswer 0 (some true) true,
    .connect true true, .nativeMessage 0 (some ⟨sampleToken 1, .connected false⟩),
    .listCandidates, .tabAnswer 2 sampleTab true, .permissionAnswer 2 (some true) true,
    .nativeMessage 0
      (some ⟨sampleToken 3, .candidates "session" [⟨"entry", .protectedText, .protectedText⟩] false⟩),
    .tabAnswer 2 sampleTab true,
    .permissionAnswer 2 (some true) true,
    .fill (sampleToken 4), .tabAnswer 3 sampleTab true, .permissionAnswer 3 (some true) true,
    .nativeMessage 0 (some ⟨sampleToken 5, .credential "user" "secret"⟩), .tabAnswer 3 sampleTab true,
    .permissionAnswer 3 (some true) true]

theorem credential_posted_sample :
    (Background.run sampleEnv sampleFill).posted.map (fun post => (post.handle, post.port, post.message.password)) =
        [("0f1e2d3c4b5a69788796a5b4c3d2e1f4", 0, "secret")] ∧
      (∀ post ∈ (Background.run sampleEnv sampleFill).posted,
        ∃ issue ∈ (Background.run sampleEnv sampleFill).issued, issue.handle = post.handle ∧
        Faithful (Background.run sampleEnv sampleFill).requests (Background.run sampleEnv sampleFill).received
          issue post) ∧
      ((Background.run sampleEnv sampleFill).requests.map (·.requestId)).Nodup ∧
      ((Background.run sampleEnv sampleFill).posted.map (·.handle)).Nodup := by
  have hdrawn : (Background.run sampleEnv sampleFill).drawn ≤ 16 := by decide +kernel
  have hrepeat : NoRepeat sampleEnv (Background.run sampleEnv sampleFill).drawn := fun i j hi hj =>
    sampleToken_injective i (hi.trans_le hdrawn) j (hj.trans_le hdrawn)
  exact ⟨by decide +kernel, credential_posted_where_offered sampleEnv sampleFill hrepeat⟩

end Guarded

end NianPass.Browser
