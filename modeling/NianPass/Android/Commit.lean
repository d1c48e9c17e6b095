import NianPass.Android.Commands

/-
  Committing a candidate.

  Up to the announcement a commit stays in its own transaction. `Announced` is the
  state right after it: the document is the baseline, the backup too, and the
  journal says that writing starts. From there on the document may hold anything,
  and no file that is needed is touched until it is known again. `Committed` lists
  the ways in which a commit ends.
-/
namespace NianPass.Android.VaultSource

open Program (Framed Ensures Reaches framed_pure framed_throw framed_ite)

variable {generation : Bytes → Generation} {original : Uri → Bytes}

/-! ## Committing -/

section Commit
variable {α : Type} {d t u : Device} {save : SaveRecord} {baseline candidate : Generation}

theorem not_needed_of_new {token : OpaqueId}
    (h : ∀ uri journal known, d.announced uri = some (journal, known) →
      journal.transactionToken ≠ token) : ¬ Needed generation d token := by
  rintro ⟨uri, journal, known, hann, htoken, -⟩
  exact h uri journal known hann htoken

theorem ready_transaction {token : OpaqueId} (hsound : Sound generation original d)
    (hneeded : ¬ Needed generation d token) :
    Ready generation original (.transaction token) d :=
  (ready_spare hsound).mono (transaction_le_spare hneeded)

/-- The document is the baseline, and so is the backup. -/
structure Checked (generation : Bytes → Generation) (save : SaveRecord) (baseline : Generation)
    (d : Device) : Prop where
  document : generation (d.documents save.uri) = baseline
  backup : ∃ content, d.files save.backup = some content ∧ generation content = baseline

theorem inside_copyFileVerified {R : Region} {source destination : TransactionFile}
    {expected : Generation} (h : R.files destination) :
    Inside generation original R (copyFileVerified generation source destination expected) d
      fun t _ => ∃ content, t.files destination = some content ∧ generation content = expected := by
  refine (inside_perform_any (.deleteFile _) h).bind fun t _ _ _ _ => ?_
  refine inside_attempt (inside_perform (.readFile source) trivial) fun u content _ _ _ => ?_
  refine inside_attempt (inside_perform_any (.writeFile destination content) h) fun v _ _ _ _ => ?_
  refine (inside_fingerprint destination).bind fun w found _ _ hfound => ?_
  obtain ⟨rfl, content, hcontent, rfl⟩ := hfound
  refine framed_ite (fun _ => framed_throw) fun hsame => framed_pure ⟨content, hcontent, ?_⟩
  exact not_not.mp hsame

theorem inside_checkCandidate (hproper : save.Proper) :
    Inside generation original (.transaction save.token)
      (checkCandidate generation save baseline candidate) d fun t early =>
        match early with
        | none => Checked generation save baseline t
        | some status => status = .saveFailed ∨ status = .externalChange := by
  obtain ⟨hcurrent, hcandidate, hbackup, hreadBack⟩ := hproper
  have hself : ∀ phase,
      (save.journal baseline candidate phase).isSelfConsistent save.token = true := fun phase =>
    isSelfConsistent_iff.mpr ⟨rfl, hbackup, hcandidate, hreadBack⟩
  refine inside_transactionDirectory.bind fun t _ _ _ _ => ?_
  refine (inside_managedTransactionFile _ _).bind fun t file _ _ _ => ?_
  refine (inside_fingerprint save.candidate).bind fun t found _ _ _ => ?_
  refine framed_ite (fun _ => ?_) fun _ => ?_
  · exact (inside_cleanupSave ⟨hcurrent, hcandidate, hbackup, hreadBack⟩ true).bind
      fun _ _ _ _ _ => framed_pure (.inl rfl)
  refine (inside_fingerprint save.current).bind fun t found _ _ _ => ?_
  refine framed_ite (fun _ => ?_) fun _ => ?_
  · exact (inside_cleanupSave ⟨hcurrent, hcandidate, hbackup, hreadBack⟩ true).bind
      fun _ _ _ _ _ => framed_pure (.inr rfl)
  have hfile : (Region.transaction save.token).files save.backup := by rw [hbackup]; rfl
  refine (inside_copyFileVerified hfile).bind fun t _ _ _ hcopied => ?_
  obtain ⟨content, hcontent, hgen⟩ := hcopied
  refine inside_attempt (inside_perform (.writeJournal _) ⟨rfl, rfl, hself .prepared⟩)
    fun u _ _ _ hu => ?_
  have hkept : u.files save.backup = some content := by
    have hwritten : u = t.setJournal (save.journal baseline candidate .prepared) := hu
    rw [hwritten]
    exact hcontent
  refine ((inside_stageProvider (by simp) save.uri false).widen staging_le).bind
    fun v finalCheck _ _ hcheck => ?_
  obtain ⟨hframe, rfl, hstaged⟩ := hcheck
  refine (inside_fingerprint _).bind fun w finalFound _ _ hfound => ?_
  obtain ⟨rfl, final, hfinal, rfl⟩ := hfound
  have hremoved : (Region.transaction save.token).files ⟨save.token, .check⟩ := rfl
  refine (inside_perform (.deleteFile _) hremoved).bind fun x deleted _ _ hx => ?_
  refine framed_ite (fun _ => ?_) fun hsame => framed_pure ?_
  · exact (inside_cleanupSave ⟨hcurrent, hcandidate, hbackup, hreadBack⟩ true).bind
      fun _ _ _ _ _ => framed_pure (.inr rfl)
  -- neither staging nor deleting the check touches the backup
  have hdelete : Frame (.staging save.token .check) w x :=
    @performs_frame _ _ _ (.deleteFile ⟨save.token, .check⟩) _ (.inl rfl) hx
  have htotal := hframe.trans hdelete
  refine ⟨?_, content, ?_, hgen⟩
  · rw [htotal.documents _ id, ← not_not.mp hsame]
    rw [hstaged] at hfinal
    rw [Option.some.inj hfinal]
  · rw [htotal.files, hkept]
    rw [hbackup]
    simp [Region.staging]

/-- Checked in the transaction, and then announced. -/
def Announced (generation : Bytes → Generation) (save : SaveRecord)
    (baseline candidate : Generation) (d t : Device) : Prop :=
  ∃ u, Frame (.transaction save.token) d u ∧ Checked generation save baseline u ∧
    t = u.setJournal (save.journal baseline candidate .writeStarted)

/-- What writing the document may touch. -/
def Region.writing (uri : Uri) : Region where
  documents := (· = uri)
  files file := file.suffix ≠ .backup

/-- A save that may be announced: it is in order, and never was. -/
structure SaveRecord.New (save : SaveRecord) (d : Device) : Prop where
  proper : save.Proper
  issued : save.token ∈ d.issued
  new : ∀ uri journal known, d.announced uri = some (journal, known) →
    journal.transactionToken ≠ save.token

theorem setJournal_announced (hnew : save.New d)
    (hframe : Frame (.transaction save.token) d u) {uri : Uri} {journal : RecoveryJournal} {known : List OpaqueId}
    (h : (u.setJournal (save.journal baseline candidate .writeStarted)).announced uri =
      some (journal, known)) :
    uri = save.uri ∧ journal = save.journal baseline candidate .writeStarted ∧ known = u.issued ∨
      uri ≠ save.uri ∧ d.announced uri = some (journal, known) ∧
        journal.transactionToken ≠ save.token := by
  by_cases huri : uri = save.uri
  · subst huri
    simp only [Device.setJournal, SaveRecord.journal, if_true, Function.update_self,
      Option.some.injEq, Prod.mk.injEq] at h
    exact .inl ⟨rfl, h.1.symm, h.2.symm⟩
  · simp only [Device.setJournal, SaveRecord.journal, if_true, ne_eq, huri, not_false_eq_true,
      Function.update_of_ne, hframe.announced] at h
    exact .inr ⟨huri, h, hnew.new uri journal known h⟩

theorem sound_setJournal (hnew : save.New d) (hsound : Sound generation original d)
    (hframe : Frame (.transaction save.token) d u)
    (hchecked : Checked generation save baseline u) :
    Sound generation original (u.setJournal (save.journal baseline candidate .writeStarted)) := by
  have hu : Sound generation original u :=
    hsound.frame (ready_transaction hsound (not_needed_of_new hnew.new)).clear hframe
  have hself : (save.journal baseline candidate .writeStarted).isSelfConsistent save.token = true :=
    isSelfConsistent_iff.mpr ⟨rfl, hnew.proper.2.2.1, hnew.proper.2.1, hnew.proper.2.2.2⟩
  constructor
  · intro uri hnone
    by_cases huri : uri = save.uri
    · simp [Device.setJournal, SaveRecord.journal, huri] at hnone
    · simp only [Device.setJournal, SaveRecord.journal, if_true, ne_eq, huri, not_false_eq_true,
        Function.update_of_ne] at hnone
      exact hu.untouched uri hnone
  · intro uri journal known hann hunknown
    rcases setJournal_announced hnew hframe hann with ⟨rfl, rfl, -⟩ | ⟨-, hann, hother⟩
    · exact absurd (.inl hchecked.document) hunknown
    · obtain ⟨hjournal, hbackup⟩ := hu.kept uri journal known (hframe.announced ▸ hann) hunknown
      exact ⟨(Function.update_of_ne hother _ _).trans hjournal, hbackup⟩
  · intro uri journal known hann
    rcases setJournal_announced hnew hframe hann with ⟨rfl, rfl, -⟩ | ⟨-, hann, -⟩
    · exact ⟨rfl, rfl, hself, hframe.issued _ hnew.issued⟩
    · exact hu.announced uri journal known (hframe.announced ▸ hann)
  · intro token journal hjournal
    by_cases htoken : token = save.token
    · subst htoken
      simp only [Device.setJournal, SaveRecord.journal, Function.update_self,
        Option.some.injEq] at hjournal
      exact hjournal ▸ hself
    · exact hu.consistent token journal ((Function.update_of_ne htoken _ _).symm.trans hjournal)

theorem Announced.sound (hnew : save.New d) (hsound : Sound generation original d)
    (h : Announced generation save baseline candidate d t) :
    Sound generation original t := by
  obtain ⟨u, hframe, hchecked, rfl⟩ := h
  exact sound_setJournal hnew hsound hframe hchecked

/-- Once announced, the document may be written. -/
theorem Announced.ready (hnew : save.New d) (hsound : Sound generation original d)
    (h : Announced generation save baseline candidate d t) :
    Ready generation original (.writing save.uri) t := by
  have ht := Announced.sound hnew hsound h
  obtain ⟨u, hframe, hchecked, rfl⟩ := h
  refine ⟨ht, ?_, ?_⟩
  · rintro uri rfl
    refine ⟨save.journal baseline candidate .writeStarted, u.issued, ?_, ?_, hchecked.backup⟩
    · simp [Device.setJournal, SaveRecord.journal]
    · simp [Device.setJournal, SaveRecord.journal]
  · intro uri journal known _ _
    simp [Region.writing]

theorem ensures_announceWrite (hnew : save.New d) (hsound : Sound generation original d) :
    Ensures (machine generation original) (announceWrite generation save baseline candidate)
      (fun t early => match early with
        | none => Announced generation save baseline candidate d t
        | some status => Frame (.transaction save.token) d t ∧
            (status = .saveFailed ∨ status = .externalChange))
      (fun t _ => Frame (.transaction save.token) d t ∨
        Announced generation save baseline candidate d t) d := by
  have hready := ready_transaction hsound (not_needed_of_new hnew.new)
  refine Framed.andThen (inside_checkCandidate hnew.proper) hready (fun _ _ h => .inl h)
    fun u early hu hframe hearly => ?_
  cases early with
  | some status => exact Program.ensures_pure ⟨hframe, hearly⟩
  | none =>
    have hannounced : Announced generation save baseline candidate d
        (u.setJournal (save.journal baseline candidate .writeStarted)) := ⟨u, hframe, hearly, rfl⟩
    have hafter := hannounced.sound hnew hsound
    refine Ensures.bind (Program.ensures_request ⟨hu.sound, ?_⟩ ?_)
    · rintro t (rfl | rfl)
      · exact hu.sound
      · exact hafter
    intro written t hstep
    cases written with
    | some _ =>
      cases hstep
      exact Ensures.bind (Program.ensures_pure (Program.ensures_pure hannounced))
    | none =>
      refine Ensures.bind (Program.ensures_throw ?_)
      rcases hstep with rfl | rfl
      · exact .inl hframe
      · exact .inr hannounced

theorem inside_writeProvider {R : Region} {uri : Uri} (h : R.documents uri)
    (file : TransactionFile) :
    Inside generation original R (writeProvider uri file) d fun _ _ => True :=
  inside_attempt (inside_perform_any (.openForWriting uri) h) fun _ _ _ _ _ =>
    inside_attempt (inside_perform_any (.readFile file) trivial) fun _ content _ _ _ =>
      inside_attempt_last (inside_perform_any (.writeDocument uri content) h) fun _ _ _ _ => trivial

theorem staging_le_writing {uri : Uri} {token : OpaqueId} {suffix : Suffix}
    (h : suffix ≠ .backup) : (Region.staging token suffix).Le (.writing uri) where
  documents _ := False.elim
  files := by
    rintro file (rfl | rfl)
    · exact h
    · simp [Region.writing]
  journals _ := id
  sources _ _ := id
  saves _ := id

/-- What is read back after writing is the document. -/
theorem inside_readBack (hproper : save.Proper) {uri : Uri} {k : Generation → Command α}
    {F : Device → α → Prop}
    (hk : ∀ t found, found = generation (t.documents save.uri) →
      Inside generation original (.writing uri) (k found) t F) :
    Inside generation original (.writing uri) (do
      let _ ← stageProvider save.uri .readback save.token true
      let found ← fingerprint generation save.readBack
      k found) d F := by
  refine ((inside_stageProvider (by simp) save.uri true).widen (staging_le_writing (by simp))).bind
    fun t _ _ _ hstaged => ?_
  obtain ⟨hframe, -, hfile⟩ := hstaged
  refine (inside_fingerprint save.readBack).bind fun u found _ _ hfound => ?_
  obtain ⟨rfl, content, hcontent, rfl⟩ := hfound
  refine hk u _ ?_
  rw [hproper.2.2.2, hfile] at hcontent
  rw [hframe.documents _ id, Option.some.inj hcontent]

/-- A rollback that is verified has put the baseline back. It throws no exception. -/
theorem ensures_rollbackVerified (hproper : save.Proper) {X : Device → Failure → Prop}
    (hready : Ready generation original (.writing save.uri) d) :
    Ensures (machine generation original) (rollbackVerified generation save baseline)
      (fun t verified => Frame (.writing save.uri) d t ∧
        (verified = true → generation (t.documents save.uri) = baseline)) X d := by
  refine Program.framed_rescue (D := Region.discipline generation original (.writing save.uri)) ?_
    hready fun _ _ => by simp
  refine (inside_writeProvider rfl save.backup).bind fun t _ _ _ _ => ?_
  refine inside_transactionDirectory.bind fun u _ _ _ _ => ?_
  exact inside_readBack hproper fun v found hfound => framed_pure fun htrue => by
    rw [← hfound, of_decide_eq_true htrue]

/-- An answer after which nothing of the save remains. -/
def Refused (result : Except Failure Status) : Prop :=
  result = .ok .saveFailed ∨ result = .ok .externalChange ∨ ∃ e, result = .error e

def Flagged (d : Device) (token : OpaqueId) : Prop :=
  ∀ record, d.sources token = some record → record.recoveryRequired = true

/-- The ways in which a commit ends. -/
inductive Committed (generation : Bytes → Generation) (save : SaveRecord)
    (baseline candidate : Generation) (d t : Device) : Except Failure Status → Prop
  | early {result} (refused : Refused result) (frame : Frame (.transaction save.token) d t) :
      Committed generation save baseline candidate d t result
  | restored {a v result} (refused : Refused result)
      (announced : Announced generation save baseline candidate d a)
      (written : Frame (.writing save.uri) a v)
      (document : generation (v.documents save.uri) = baseline)
      (cleaned : Frame (.transaction save.token) v t) :
      Committed generation save baseline candidate d t result
  | verified {a file} (announced : Announced generation save baseline candidate d a)
      (written : Frame (.writing save.uri) a t)
      (document : generation (t.documents save.uri) = candidate) :
      Committed generation save baseline candidate d t (.ok (.verified file))
  | uncertain {a} (announced : Announced generation save baseline candidate d a)
      (written : Frame (.writing save.uri) a t) (flagged : Flagged t save.source) :
      Committed generation save baseline candidate d t (.ok .saveUncertain)

theorem refused_error {e : Failure} : Refused (.error e) := .inr (.inr ⟨e, rfl⟩)

/-- With the baseline or the candidate in the document, the transaction is not needed. -/
theorem Announced.not_needed (hnew : save.New d)
    (h : Announced generation save baseline candidate d t) (hframe : Frame (.writing save.uri) t u)
    (hknown : generation (u.documents save.uri) = baseline ∨
      generation (u.documents save.uri) = candidate) : ¬ Needed generation u save.token := by
  obtain ⟨a, hbefore, -, rfl⟩ := h
  rintro ⟨uri, journal, known, hann, htoken, hunknown⟩
  rw [hframe.announced] at hann
  rcases setJournal_announced hnew hbefore hann with ⟨rfl, rfl, -⟩ | ⟨-, -, hother⟩
  · exact hunknown hknown
  · exact hother htoken

theorem ensures_flag {R : Region} {token : OpaqueId} {status : Status}
    {X : Device → Failure → Prop} (hready : Ready generation original R d) :
    Ensures (machine generation original) (do
      perform (.setRecoveryRequired token true)
      return status) (fun t found => Frame R d t ∧ found = status ∧ Flagged t token) X d := by
  have hinside : (Effect.setRecoveryRequired token true).inside R d := rfl
  refine Ensures.bind (Program.ensures_request
    ⟨hready.sound, fun _ ht => hready.sound.frame hready.clear (torn_frame hinside ht)⟩
    fun answer t ht => Program.ensures_pure ⟨@performs_frame _ _ _ _ answer hinside ht, rfl, ?_⟩)
  intro record hrecord
  cases ht
  simp only [Device.setSource, Function.update_self] at hrecord
  obtain ⟨old, -, rfl⟩ := Option.map_eq_some_iff.mp hrecord
  rfl

theorem ensures_writeCandidate (hnew : save.New d) (hsound : Sound generation original d)
    (hannounced : Announced generation save baseline candidate d t) :
    Ensures (machine generation original) (writeCandidate generation save baseline candidate)
      (fun u status => Committed generation save baseline candidate d u (.ok status))
      (fun u e => Committed generation save baseline candidate d u (.error e)) t := by
  have hready := hannounced.ready hnew hsound
  refine Ensures.tryCatch ?_
  have hwrite : Inside generation original (.writing save.uri) (do
      writeProvider save.uri save.candidate
      let _ ← stageProvider save.uri .readback save.token true
      let found ← fingerprint generation save.readBack
      if found = candidate then return Status.verified save.readBack
      else do
        perform (.setRecoveryRequired save.source true)
        return Status.saveUncertain) t fun u status =>
          status = Status.verified save.readBack ∧ generation (u.documents save.uri) = candidate ∨
            status = Status.saveUncertain ∧ Flagged u save.source := by
    refine (inside_writeProvider rfl save.candidate).bind fun u _ _ _ _ => ?_
    refine inside_readBack hnew.proper fun v found hfound =>
      framed_ite (fun hsame => ?_) fun _ => ?_
    · exact framed_pure (.inl ⟨rfl, hfound ▸ hsame⟩)
    · exact fun hv => Ensures.weaken (ensures_flag hv) (fun _ _ h => ⟨h.1, .inr h.2⟩) fun _ _ h => h
  refine Ensures.weaken (hwrite hready) ?_ fun u e hframe => ?_
  · rintro u status ⟨hframe, ⟨rfl, hdocument⟩ | ⟨rfl, hflagged⟩⟩
    · exact .verified hannounced hframe hdocument
    · exact .uncertain hannounced hframe hflagged
  have hu : Ready generation original (.writing save.uri) u := hready.frame hframe
  refine Ensures.bind (Ensures.weaken (ensures_rollbackVerified hnew.proper hu)
    (fun v rollback hrollback => ?_) fun _ _ h => h)
  have hwritten := hframe.trans hrollback.1
  have hv : Ready generation original (.writing save.uri) v := hready.frame hwritten
  refine Program.ensures_ite (fun htrue => ?_) fun _ => ?_
  · have hdocument := hrollback.2 htrue
    have hneeded := hannounced.not_needed hnew hwritten (.inl hdocument)
    refine Framed.andThen (inside_cleanupSave hnew.proper true)
      (ready_transaction hv.sound hneeded) (fun w e' hw => ?_) fun w _ _ hw _ => ?_
    · exact .restored refused_error hannounced hwritten hdocument hw
    · exact Program.ensures_pure (.restored (.inl rfl) hannounced hwritten hdocument hw)
  · refine Ensures.weaken (ensures_flag hv) (fun w status hw => ?_) fun _ _ h => h
    obtain ⟨hframe', rfl, hflagged⟩ := hw
    exact .uncertain hannounced (hwritten.trans hframe') hflagged

/-- How a call of `commitCandidate` ends: before it starts, or as `Committed` says. -/
def CommitEnd (generation : Bytes → Generation) (token source : OpaqueId)
    (baseline candidate : Generation) (d t : Device) (result : Except Failure Status) : Prop :=
  t = d ∧ result = .ok .saveFailed ∨ ∃ save, d.saves token = some save ∧ save.source = source ∧
    (∃ record, d.sources source = some record) ∧
      Committed generation save baseline candidate d t result

theorem ensures_commitCandidate {token source : OpaqueId} (hsound : Sound generation original d)
    (hnew : ∀ save, d.saves token = some save → save.New d) :
    Ensures (machine generation original)
      (commitCandidate generation token source baseline candidate)
      (fun t status => CommitEnd generation token source baseline candidate d t (.ok status))
      (fun t e => CommitEnd generation token source baseline candidate d t (.error e)) d := by
  have hpermits : ∀ {effect : Effect}, effect.inside {} d →
      (machine generation original).permits d effect := fun hinside =>
    ⟨hsound, fun t ht => hsound.frame ⟨fun _ => False.elim, fun _ _ _ _ _ => ⟨id, id⟩⟩
      (torn_frame hinside ht)⟩
  refine Ensures.bind (Program.ensures_request (hpermits trivial) fun found t hfound => ?_)
  obtain ⟨rfl, rfl⟩ := hfound
  refine Ensures.bind (Program.ensures_request (hpermits trivial) fun record t hrecord => ?_)
  obtain ⟨rfl, rfl⟩ := hrecord
  cases hsave : t.saves token with
  | none => exact Program.ensures_pure (.inl ⟨rfl, rfl⟩)
  | some save =>
    refine Program.ensures_ite (fun _ => Program.ensures_pure (.inl ⟨rfl, rfl⟩)) fun hvalid => ?_
    simp only [not_or, Option.isNone_iff_eq_none, not_not] at hvalid
    obtain ⟨hsome, hsource, -⟩ := hvalid
    have hrecord := Option.ne_none_iff_exists'.mp hsome
    have hend : ∀ {u result}, Committed generation save baseline candidate t u result →
        CommitEnd generation token source baseline candidate t u result :=
      fun h => .inr ⟨save, hsave, hsource, hrecord, h⟩
    have hnew := hnew save hsave
    have hfirst : Ensures (machine generation original)
        (tryCatch (announceWrite generation save baseline candidate) fun _ => do
          let _ ← cleanupSave save true
          return some .saveFailed)
        (fun u early => match early with
          | none => Announced generation save baseline candidate t u
          | some status => Committed generation save baseline candidate t u (.ok status))
        (fun u e => Committed generation save baseline candidate t u (.error e)) t := by
      refine Ensures.tryCatch (Ensures.weaken (ensures_announceWrite hnew hsound)
        (fun u early hearly => ?_) fun u e hu => ?_)
      · cases early with
        | none => exact hearly
        | some status =>
          obtain ⟨hframe, rfl | rfl⟩ := hearly
          · exact .early (.inl rfl) hframe
          · exact .early (.inr (.inl rfl)) hframe
      rcases hu with hframe | hannounced
      · have hready := ready_transaction hsound (not_needed_of_new hnew.new)
        have hu : Ready generation original (.transaction save.token) u := hready.frame hframe
        refine Framed.andThen (inside_cleanupSave hnew.proper true) hu (fun v e' hv => ?_)
          fun v _ _ hv _ => ?_
        · exact .early refused_error (hframe.trans hv)
        · exact Program.ensures_pure (.early (.inl rfl) (hframe.trans hv))
      · have hdocument : generation (u.documents save.uri) = baseline := by
          obtain ⟨a, -, hchecked, rfl⟩ := hannounced
          exact hchecked.document
        have hneeded := hannounced.not_needed hnew .rfl (.inl hdocument)
        have hu := ready_transaction (hannounced.sound hnew hsound) hneeded
        refine Framed.andThen (inside_cleanupSave hnew.proper true) hu (fun v e' hv => ?_)
          fun v _ _ hv _ => ?_
        · exact .restored refused_error hannounced .rfl hdocument hv
        · exact Program.ensures_pure (.restored (.inl rfl) hannounced .rfl hdocument hv)
    refine Ensures.bind (Ensures.weaken hfirst (fun u early hearly => ?_) fun _ _ h => hend h)
    cases early with
    | none =>
      exact Ensures.weaken (ensures_writeCandidate hnew hsound hearly) (fun _ _ h => hend h)
        fun _ _ h => hend h
    | some status => exact Program.ensures_pure (hend hearly)

end Commit

end NianPass.Android.VaultSource
