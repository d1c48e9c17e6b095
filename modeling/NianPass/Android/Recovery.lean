import NianPass.Android.Commit
import NianPass.Android.Following

/-
  Saves into an Android document can be recovered from every interruption.

  `Inv` holds between two commands of a run. Every command keeps it, and makes
  each of its requests in a sound state that the death of the process in it leaves
  sound; from that, what holds at every moment of every run.
-/
namespace NianPass.Android.VaultSource

open Program (Framed Ensures Reaches framed_pure framed_throw framed_ite)

variable {generation : Bytes → Generation} {original : Uri → Bytes}

/-! ## Between two commands -/

/-- What is in memory: tokens were issued, saves are in order, and the records of an unsettled
document are flagged, but for those that others had selected before the write. -/
structure Orderly (generation : Bytes → Generation) (d : Device) : Prop where
  sources : ∀ token record, d.sources token = some record → token ∈ d.issued
  saves : ∀ token save, d.saves token = some save → save.token = token ∧ token ∈ d.issued ∧
    save.Proper ∧ save.source ∈ d.issued ∧
      ∀ record, d.sources save.source = some record → record.uri = save.uri
  flagged : ∀ uri journal known, d.announced uri = some (journal, known) →
    ¬ Known generation d uri journal → ∀ token record, d.sources token = some record →
      record.uri = uri → (token ∉ known ∨
        ∃ save, d.saves journal.transactionToken = some save ∧ save.source = token) →
          record.recoveryRequired = true

/-- What the coordinator relies on in the middle of a save. -/
def Stage.Facts (generation : Bytes → Generation) (d : Device) : Stage → Prop
  | .preparing token _ file => token ∈ d.issued ∧ file = ⟨token, .candidate⟩ ∧
      ∀ uri journal known, d.announced uri = some (journal, known) →
        journal.transactionToken ≠ token
  | .verified token source => ¬ Needed generation d token ∧ source ∈ d.issued ∧
      ∀ record, d.sources source = some record → Settled generation d record.uri
  | _ => True

structure Inv (generation : Bytes → Generation) (original : Uri → Bytes) (stage : Stage)
    (d : Device) : Prop where
  sound : Sound generation original d
  orderly : Orderly generation d
  facts : stage.Facts generation d

section Between
variable {d t : Device} {stage : Stage}

theorem Frame.needed_iff (h : Frame (.spare generation d) d t) {token : OpaqueId} :
    Needed generation t token ↔ Needed generation d token := by
  simp only [Needed, h.announced, h.known_iff (R := .spare generation d) id]

theorem Orderly.frame (horderly : Orderly generation d) (hsound : Sound generation original d)
    (h : Frame (.spare generation d) d t) : Orderly generation t where
  sources := by
    intro token record hrecord
    obtain ⟨old, -, hold | ⟨hissued, -⟩⟩ := h.sources token record hrecord
    · exact h.issued token (horderly.sources token old hold)
    · exact hissued
  saves := by
    intro token save hsave
    rcases h.saves token save hsave with hsave | ⟨htoken, hissued, -, hproper, old, hold, huri⟩
    · obtain ⟨htoken, hissued, hproper, hsource, hagree⟩ := horderly.saves token save hsave
      refine ⟨htoken, h.issued token hissued, hproper, h.issued _ hsource, fun record hrecord => ?_⟩
      obtain ⟨old, hle, hold | ⟨-, hfresh, -⟩⟩ := h.sources _ record hrecord
      · rw [hle.uri, hagree old hold]
      · exact absurd hsource hfresh
    · have hsource := horderly.sources _ old hold
      refine ⟨htoken, hissued, hproper, h.issued _ hsource, fun record hrecord => ?_⟩
      obtain ⟨old', hle, hold' | ⟨-, hfresh, -⟩⟩ := h.sources _ record hrecord
      · rw [hold] at hold'
        rw [hle.uri, ← Option.some.inj hold', huri]
      · exact absurd hsource hfresh
  flagged := by
    intro uri journal known hann hunknown token record hrecord huri hwho
    rw [h.announced] at hann
    rw [h.known_iff (R := .spare generation d) id] at hunknown
    obtain ⟨old, hle, hold | ⟨-, -, hflag⟩⟩ := h.sources token record hrecord
    · refine hle.required (horderly.flagged uri journal known hann hunknown token old hold
        (hle.uri.symm.trans huri) (hwho.imp_right ?_))
      rintro ⟨save, hsave, hsource⟩
      rcases h.saves _ save hsave with hsave | ⟨htoken, -, hfresh, -⟩
      · exact ⟨save, hsave, hsource⟩
      · have hissued := (hsound.announced uri journal known hann).2.2.2
        exact absurd (htoken ▸ hissued) hfresh
    · refine hle.required (hflag fun hsettled => hunknown ?_)
      have hold : old.uri = uri := hle.uri.symm.trans huri
      rw [hold] at hsettled
      exact hsettled journal known hann

theorem Stage.Facts.frame (hfacts : stage.Facts generation d)
    (h : Frame (.spare generation d) d t) : stage.Facts generation t := by
  cases stage with
  | preparing token source file =>
    obtain ⟨hissued, hfile, hnew⟩ := hfacts
    exact ⟨h.issued token hissued, hfile, h.announced ▸ hnew⟩
  | verified token source =>
    obtain ⟨hneeded, hissued, hsettled⟩ := hfacts
    refine ⟨h.needed_iff.not.mpr hneeded, h.issued source hissued, fun record hrecord => ?_⟩
    obtain ⟨old, hle, hold | ⟨-, hfresh, -⟩⟩ := h.sources source record hrecord
    · rw [h.settled_iff, hle.uri]
      exact hsettled old hold
    · exact absurd hissued hfresh
  | _ => trivial

end Between

/-! ## After a commit -/

/-- What is in memory has only been lost, or flagged. -/
structure Recalls (d t : Device) : Prop where
  sources : ∀ token record', t.sources token = some record' →
    ∃ record, record.Le record' ∧ d.sources token = some record
  saves : ∀ token save, t.saves token = some save → d.saves token = some save
  issued : ∀ token ∈ d.issued, token ∈ t.issued

section After
variable {d t u : Device} {save : SaveRecord} {baseline candidate : Generation}
  {result : Except Failure Status}

theorem Recalls.trans (h : Recalls d t) (h' : Recalls t u) : Recalls d u where
  sources := fun token record'' hr => by
    obtain ⟨record', hle', hr'⟩ := h'.sources token record'' hr
    obtain ⟨record, hle, hr⟩ := h.sources token record' hr'
    exact ⟨record, hle.trans hle', hr⟩
  saves := fun token save hs => h.saves token save (h'.saves token save hs)
  issued := fun token ht => h'.issued token (h.issued token ht)

/-- A region in which no record is new. -/
theorem Frame.recalls {R : Region} (h : Frame R d t)
    (hsources : ∀ token record, ¬ R.sources token record) (hsaves : ∀ save, ¬ R.saves save) :
    Recalls d t where
  sources := fun token record' hr => by
    obtain ⟨record, hle, hr | ⟨-, hnew⟩⟩ := h.sources token record' hr
    · exact ⟨record, hle, hr⟩
    · exact absurd hnew (hsources token record)
  saves := fun token save hs => by
    rcases h.saves token save hs with hs | ⟨-, -, hnew⟩
    · exact hs
    · exact absurd hnew (hsaves save)
  issued := h.issued

theorem Announced.recalls (h : Announced generation save baseline candidate d t) : Recalls d t := by
  obtain ⟨u, hframe, -, rfl⟩ := h
  have hrecalls : Recalls d u := hframe.recalls (fun _ _ => id) fun _ => id
  exact ⟨hrecalls.sources, hrecalls.saves, hrecalls.issued⟩

theorem Committed.recalls (h : Committed generation save baseline candidate d t result) :
    Recalls d t := by
  cases h with
  | early refused frame => exact frame.recalls (fun _ _ => id) fun _ => id
  | restored refused announced written document cleaned =>
    exact (announced.recalls.trans (written.recalls (fun _ _ => id) fun _ => id)).trans
      (cleaned.recalls (fun _ _ => id) fun _ => id)
  | verified announced written document =>
    exact announced.recalls.trans (written.recalls (fun _ _ => id) fun _ => id)
  | uncertain announced written flagged =>
    exact announced.recalls.trans (written.recalls (fun _ _ => id) fun _ => id)

theorem Committed.sound (hnew : save.New d) (hsound : Sound generation original d)
    (h : Committed generation save baseline candidate d t result) :
    Sound generation original t := by
  cases h with
  | early refused frame =>
    exact hsound.frame (ready_transaction hsound (not_needed_of_new hnew.new)).clear frame
  | restored refused announced written document cleaned =>
    have hv := (announced.ready hnew hsound).frame written
    have hneeded := announced.not_needed hnew written (.inl document)
    exact hv.sound.frame (ready_transaction hv.sound hneeded).clear cleaned
  | verified announced written document => exact ((announced.ready hnew hsound).frame written).sound
  | uncertain announced written flagged => exact ((announced.ready hnew hsound).frame written).sound

theorem Announced.elsewhere (h : Announced generation save baseline candidate d t) {uri : Uri}
    (huri : uri ≠ save.uri) :
    t.documents uri = d.documents uri ∧ t.announced uri = d.announced uri := by
  obtain ⟨u, hframe, -, rfl⟩ := h
  refine ⟨hframe.documents uri id, ?_⟩
  simp [Device.setJournal, SaveRecord.journal, huri, hframe.announced]

theorem Announced.here (h : Announced generation save baseline candidate d t) :
    t.documents save.uri = d.documents save.uri ∧ generation (d.documents save.uri) = baseline ∧
      ∃ known, t.announced save.uri = some (save.journal baseline candidate .writeStarted, known) ∧
        ∀ token ∈ d.issued, token ∈ known := by
  obtain ⟨u, hframe, hchecked, rfl⟩ := h
  have hdocument : u.documents save.uri = d.documents save.uri := hframe.documents save.uri id
  refine ⟨hdocument, hdocument ▸ hchecked.document, u.issued, ?_, hframe.issued⟩
  simp [Device.setJournal, SaveRecord.journal]

/-- A commit concerns one document. -/
theorem Committed.elsewhere (h : Committed generation save baseline candidate d t result)
    {uri : Uri} (huri : uri ≠ save.uri) :
    t.documents uri = d.documents uri ∧ t.announced uri = d.announced uri := by
  cases h with
  | early refused frame => exact ⟨frame.documents uri id, by rw [frame.announced]⟩
  | restored refused announced written document cleaned =>
    obtain ⟨hdocument, hannounced⟩ := announced.elsewhere huri
    rw [cleaned.documents uri id, written.documents uri huri, cleaned.announced, written.announced]
    exact ⟨hdocument, hannounced⟩
  | verified announced written document =>
    rw [written.documents uri huri, written.announced]
    exact announced.elsewhere huri
  | uncertain announced written flagged =>
    rw [written.documents uri huri, written.announced]
    exact announced.elsewhere huri

/-- The document is as it was, or it is known, or the writer is flagged. -/
theorem Committed.here (h : Committed generation save baseline candidate d t result) :
    t.documents save.uri = d.documents save.uri ∧ t.announced save.uri = d.announced save.uri ∨
      ∃ known, t.announced save.uri = some (save.journal baseline candidate .writeStarted, known) ∧
        (∀ token ∈ d.issued, token ∈ known) ∧
          (Known generation t save.uri (save.journal baseline candidate .writeStarted) ∨
            Flagged t save.source) := by
  cases h with
  | early refused frame => exact .inl ⟨frame.documents save.uri id, by rw [frame.announced]⟩
  | restored refused announced written document cleaned =>
    obtain ⟨-, -, known, hann, hknown⟩ := announced.here
    refine .inr ⟨known, by rw [cleaned.announced, written.announced, hann], hknown, .inl (.inl ?_)⟩
    rw [cleaned.documents save.uri id]
    exact document
  | verified announced written document =>
    obtain ⟨-, -, known, hann, hknown⟩ := announced.here
    exact .inr ⟨known, by rw [written.announced, hann], hknown, .inl (.inr document)⟩
  | uncertain announced written flagged =>
    obtain ⟨-, -, known, hann, hknown⟩ := announced.here
    exact .inr ⟨known, by rw [written.announced, hann], hknown, .inr flagged⟩

theorem Orderly.recalls (horderly : Orderly generation d) (h : Recalls d t)
    (hflagged : ∀ uri journal known, t.announced uri = some (journal, known) →
      ¬ Known generation t uri journal →
        d.announced uri = some (journal, known) ∧ ¬ Known generation d uri journal ∨
          (∀ token ∈ d.issued, token ∈ known) ∧
            ∀ save, d.saves journal.transactionToken = some save → Flagged t save.source) :
    Orderly generation t where
  sources := by
    intro token record hrecord
    obtain ⟨old, -, hold⟩ := h.sources token record hrecord
    exact h.issued token (horderly.sources token old hold)
  saves := by
    intro token save hsave
    obtain ⟨htoken, hissued, hproper, hsource, hagree⟩ :=
      horderly.saves token save (h.saves token save hsave)
    refine ⟨htoken, h.issued token hissued, hproper, h.issued _ hsource, fun record hrecord => ?_⟩
    obtain ⟨old, hle, hold⟩ := h.sources _ record hrecord
    rw [hle.uri, hagree old hold]
  flagged := by
    intro uri journal known hann hunknown token record hrecord huri hwho
    obtain ⟨old, hle, hold⟩ := h.sources token record hrecord
    rcases hflagged uri journal known hann hunknown with ⟨hann, hunknown⟩ | ⟨hknown, hwriter⟩
    · refine hle.required (horderly.flagged uri journal known hann hunknown token old hold
        (hle.uri.symm.trans huri) (hwho.imp_right ?_))
      rintro ⟨save, hsave, hsource⟩
      exact ⟨save, h.saves _ save hsave, hsource⟩
    · rcases hwho with hfresh | ⟨save, hsave, rfl⟩
      · exact absurd (hknown token (horderly.sources token old hold)) hfresh
      · exact hwriter save (h.saves _ save hsave) record hrecord

theorem Committed.orderly (horderly : Orderly generation d) (hsave : d.saves save.token = some save)
    (h : Committed generation save baseline candidate d t result) : Orderly generation t := by
  refine horderly.recalls h.recalls fun uri journal known hann hunknown => ?_
  by_cases huri : uri = save.uri
  · subst huri
    rcases h.here with ⟨hdocument, hannounced⟩ | ⟨known', hann', hissued, hend⟩
    · left
      rw [Known, hdocument] at hunknown
      exact ⟨hannounced ▸ hann, hunknown⟩
    · right
      cases hann.symm.trans hann'
      refine ⟨hissued, fun other hother => ?_⟩
      cases hsave.symm.trans hother
      exact hend.resolve_left hunknown
  · left
    obtain ⟨hdocument, hannounced⟩ := h.elsewhere huri
    rw [Known, hdocument] at hunknown
    exact ⟨hannounced ▸ hann, hunknown⟩

/-- A verified commit leaves the document settled. -/
theorem Committed.verified_facts (hnew : save.New d) (horderly : Orderly generation d)
    (hsave : d.saves save.token = some save) {record : SourceRecord}
    (hrecord : d.sources save.source = some record) {file : TransactionFile}
    (h : Committed generation save baseline candidate d t (.ok (.verified file))) :
    (Stage.verified save.token save.source).Facts generation t := by
  have hrecalls := h.recalls
  cases h with
  | early refused frame => simp [Refused] at refused
  | restored refused announced written document cleaned => simp [Refused] at refused
  | verified announced written document =>
    refine ⟨announced.not_needed hnew written (.inr document), ?_, fun record' hrecord' => ?_⟩
    · exact hrecalls.issued _ (horderly.sources _ record hrecord)
    · obtain ⟨old, hle, hold⟩ := hrecalls.sources _ record' hrecord'
      rw [hle.uri, (horderly.saves _ save hsave).2.2.2.2 old hold]
      obtain ⟨-, -, known, hann, -⟩ := announced.here
      intro journal known' hann'
      rw [written.announced, hann] at hann'
      cases hann'
      exact .inr document

end After

/-! ## Runs -/

section Runs
variable {stage : Stage} {d t : Device} {call : Call} {command : Command Status}

theorem Inv.ensures_inside {F : Device → Status → Prop} (hinv : Inv generation original stage d)
    (h : Inside generation original (.spare generation d) command d F)
    (next : Except Failure Status → Stage)
    (hok : ∀ t status, Frame (.spare generation d) d t → F t status →
      (next (.ok status)).Facts generation t)
    (herror : ∀ t e, Frame (.spare generation d) d t → (next (.error e)).Facts generation t) :
    Ensures (machine generation original) command
      (fun t status => Inv generation original (next (.ok status)) t)
      (fun t e => Inv generation original (next (.error e)) t) d := by
  have hready := ready_spare hinv.sound
  refine Ensures.weaken (h hready) (fun t status ht => ?_) fun t e ht => ?_
  · exact ⟨(hready.frame ht.1).sound, hinv.orderly.frame hinv.sound ht.1, hok t status ht.1 ht.2⟩
  · exact ⟨(hready.frame ht).sound, hinv.orderly.frame hinv.sound ht, herror t e ht⟩

/-- The flag of a settled document may be cleared. -/
theorem Orderly.setSource {token : OpaqueId} {required : Bool} (h : Orderly generation d)
    (hsettled : ∀ record, d.sources token = some record → Settled generation d record.uri) :
    Orderly generation (d.setSource token
      ((d.sources token).map fun record => { record with recoveryRequired := required })) := by
  have hrecord : ∀ {other record'}, (d.setSource token ((d.sources token).map
      fun record => { record with recoveryRequired := required })).sources other = some record' →
        ∃ record, d.sources other = some record ∧ record'.uri = record.uri ∧
          (other ≠ token → record' = record) := by
    intro other record' h'
    by_cases heq : other = token
    · subst heq
      simp only [Device.setSource, Function.update_self] at h'
      obtain ⟨record, hrecord, rfl⟩ := Option.map_eq_some_iff.mp h'
      exact ⟨record, hrecord, rfl, fun hne => absurd rfl hne⟩
    · exact ⟨record', (Function.update_of_ne heq _ _).symm.trans h', rfl, fun _ => rfl⟩
  constructor
  · intro other record' h'
    obtain ⟨record, hold, -⟩ := hrecord h'
    exact h.sources other record hold
  · intro other save hsave
    obtain ⟨htoken, hissued, hproper, hsource, hagree⟩ := h.saves other save hsave
    refine ⟨htoken, hissued, hproper, hsource, fun record' h' => ?_⟩
    obtain ⟨record, hold, huri, -⟩ := hrecord h'
    rw [huri, hagree record hold]
  · intro uri journal known hann hunknown other record' h' huri hwho
    obtain ⟨record, hold, hsame, hrest⟩ := hrecord h'
    by_cases heq : other = token
    · subst heq
      have := hsettled record hold
      rw [← hsame, huri] at this
      exact absurd (this journal known hann) hunknown
    · rw [hrest heq] at huri ⊢
      exact h.flagged uri journal known hann hunknown other record hold huri hwho

theorem ensures_finalizeSave {token source : OpaqueId}
    (hinv : Inv generation original (.verified token source) d) :
    Ensures (machine generation original) (finalizeSave token source)
      (fun t _ => Inv generation original .idle t)
      (fun t _ => Inv generation original .idle t) d := by
  obtain ⟨hsound, horderly, hfacts⟩ := hinv
  have hpermits : ∀ {t : Device} {effect : Effect}, Sound generation original t →
      (∀ t', Torn t effect t' → t' = t) → (machine generation original).permits t effect :=
    fun ht htorn => ⟨ht, fun t' ht' => htorn t' ht' ▸ ht⟩
  refine Ensures.bind (Program.ensures_request (hpermits hsound fun _ => id)
    fun found t hfound => ?_)
  obtain ⟨rfl, rfl⟩ := hfound
  refine Ensures.bind (Program.ensures_request (hpermits hsound fun _ => id)
    fun record t hrecord => ?_)
  obtain ⟨rfl, -⟩ := hrecord
  cases hsave : t.saves token with
  | none => exact Program.ensures_pure ⟨hsound, horderly, trivial⟩
  | some save =>
    refine Program.ensures_ite (fun _ => Program.ensures_pure ⟨hsound, horderly, trivial⟩)
      fun _ => ?_
    obtain ⟨rfl, -, hproper, -⟩ := horderly.saves token save hsave
    have hle : (Region.transaction save.token).Le (.spare generation t) :=
      transaction_le_spare hfacts.1
    have hready := ready_transaction hsound hfacts.1
    refine Framed.andThen (inside_cleanupSave hproper true) hready (fun u e hu => ?_)
      fun u complete hu hframe _ => ?_
    · exact ⟨(hready.frame hu).sound, horderly.frame hsound (Frame.widen hu hle), trivial⟩
    have hspare : Frame (.spare generation t) t u := Frame.widen hframe hle
    have horderly' := horderly.frame hsound hspare
    have hsettled := (hfacts.frame hspare).2.2
    refine Ensures.bind (Program.ensures_request (hpermits hu.sound fun _ => id) fun _ v hv => ?_)
    cases hv
    refine Program.ensures_pure ⟨?_, horderly'.setSource hsettled, trivial⟩
    obtain ⟨huntouched, hkept, hannounced, hconsistent⟩ := hu.sound
    exact ⟨huntouched, hkept, hannounced, hconsistent⟩

/-- What the coordinator knows of a save that is open is in memory. -/
theorem Inv.new {token source : OpaqueId} {file : TransactionFile}
    (hinv : Inv generation original (.preparing token source file) d) {save : SaveRecord}
    (hsave : d.saves token = some save) : save.New d := by
  obtain ⟨rfl, hissued, hproper, -⟩ := hinv.orderly.saves token save hsave
  exact ⟨hproper, hissued, hinv.facts.2.2⟩

theorem Inv.commitEnd {token source : OpaqueId} {file : TransactionFile}
    {baseline candidate : Generation} {result : Except Failure Status}
    (hinv : Inv generation original (.preparing token source file) d)
    (h : CommitEnd generation token source baseline candidate d t result) :
    Inv generation original
      ((Stage.preparing token source file).next (.commitCandidate baseline candidate) result)
      t := by
  obtain ⟨rfl, rfl⟩ | ⟨save, hsave, rfl, ⟨record, hrecord⟩, hcommitted⟩ := h
  · exact ⟨hinv.sound, hinv.orderly, trivial⟩
  have hnew := hinv.new hsave
  obtain ⟨rfl, -⟩ := hinv.orderly.saves token save hsave
  refine ⟨hcommitted.sound hnew hinv.sound, hcommitted.orderly hinv.orderly hsave, ?_⟩
  cases result with
  | error e => trivial
  | ok status =>
    cases status with
    | verified path => exact hcommitted.verified_facts hnew hinv.orderly hsave hrecord
    | _ => trivial

/-- A command that belongs to no save leaves the stage as it is. -/
theorem ensures_aside {F : Device → Status → Prop} (hinv : Inv generation original stage d)
    (h : Inside generation original (.spare generation d) command d F)
    (hnext : ∀ result, stage.next call result = stage) :
    Ensures (machine generation original) command
      (fun t status => Inv generation original (stage.next call (.ok status)) t)
      (fun t e => Inv generation original (stage.next call (.error e)) t) d :=
  hinv.ensures_inside h (stage.next call)
    (fun _ _ hframe _ => by rw [hnext]; exact hinv.facts.frame hframe)
    fun _ _ hframe => by rw [hnext]; exact hinv.facts.frame hframe

theorem ensures_abortSave {token source : OpaqueId} (hinv : Inv generation original stage d) :
    Ensures (machine generation original) (abortSave token source)
      (fun t _ => Inv generation original .idle t) (fun t _ => Inv generation original .idle t) d :=
  hinv.ensures_inside
    (inside_abortSave fun save hsave => (hinv.orderly.saves token save hsave).2.2.1)
    (fun _ => .idle) (fun _ _ _ _ => trivial) fun _ _ _ => trivial

/-- Every command keeps the invariant, and permits the process to die at each of its effects. -/
theorem call_ensures (hinv : Inv generation original stage d)
    (hissued : stage.command generation call = some command) :
    Ensures (machine generation original) command
      (fun t status => Inv generation original (stage.next call (.ok status)) t)
      (fun t e => Inv generation original (stage.next call (.error e)) t) d := by
  cases call with
  | load =>
    cases stage <;> cases hissued
    exact hinv.ensures_inside (F := fun _ _ => True)
      (inside_cleanupUnownedTransactionFiles.bind fun _ _ _ _ _ => framed_pure trivial)
      (fun _ => .idle) (fun _ _ _ _ => trivial) fun _ _ _ => trivial
  | selectionResult uri writable =>
    cases stage <;> cases hissued <;>
      exact ensures_aside hinv (inside_selectionResult uri writable) fun _ => rfl
  | prepareSave source =>
    cases stage <;> cases hissued
    refine hinv.ensures_inside (inside_prepareSave source) (Stage.idle.next (.prepareSave source))
      (fun t status hframe hstatus => ?_) fun _ _ _ => trivial
    cases status with
    | prepared token current candidate =>
      obtain ⟨hissued, hfresh, rfl⟩ := hstatus.1 token current candidate rfl
      refine ⟨hissued, rfl, fun uri journal known hann heq => hfresh ?_⟩
      rw [hframe.announced] at hann
      exact heq ▸ (hinv.sound.announced uri journal known hann).2.2.2
    | _ => trivial
  | placeCandidate content =>
    cases stage <;> cases hissued
    obtain ⟨-, rfl, -⟩ := hinv.facts
    have hfile : ∀ token, (Region.spare generation d).files ⟨token, .candidate⟩ :=
      fun _ => .inl (by simp)
    exact ensures_aside hinv (inside_placeCandidate (hfile _) content) fun _ => rfl
  | commitCandidate baseline candidate =>
    cases stage <;> cases hissued
    exact Ensures.weaken (ensures_commitCandidate hinv.sound fun save hsave => hinv.new hsave)
      (fun _ _ h => hinv.commitEnd h) fun _ _ h => hinv.commitEnd h
  | finalizeSave =>
    cases stage <;> cases hissued
    exact ensures_finalizeSave hinv
  | abortSave => cases stage <;> cases hissued <;> exact ensures_abortSave hinv
  | stageCurrent source =>
    cases stage <;> cases hissued <;>
      exact ensures_aside hinv (inside_stageCurrent source) fun _ => rfl
  | finishRead source read =>
    cases stage <;> cases hissued <;>
      exact ensures_aside hinv (inside_finishRead source read) fun _ => rfl
  | releaseSource source preserve =>
    cases stage <;> cases hissued <;>
      exact ensures_aside hinv (inside_releaseSource source preserve) fun _ => rfl

theorem inv_installed : Inv generation original .starting (Device.installed original) where
  sound := {
    untouched := fun _ _ => rfl
    kept := by simp [Device.installed]
    announced := by simp [Device.installed]
    consistent := by simp [Device.installed] }
  orderly := {
    sources := by simp [Device.installed]
    saves := by simp [Device.installed]
    flagged := by simp [Device.installed] }
  facts := trivial

theorem Sound.inv_restarted (h : Sound generation original d) :
    Inv generation original .starting d.restarted where
  sound := by
    obtain ⟨huntouched, hkept, hannounced, hconsistent⟩ := h
    exact ⟨huntouched, hkept, hannounced, hconsistent⟩
  orderly := {
    sources := by simp [Device.restarted]
    saves := by simp [Device.restarted]
    flagged := by simp [Device.restarted] }
  facts := trivial

theorem Reachable.inv (h : Reachable generation original stage d) :
    Inv generation original stage d := by
  induction h with
  | installed => exact inv_installed
  | call run issued performed ih =>
    rename_i stage d call command result d'
    have hend := Program.Safe.reaches (call_ensures ih issued) performed
    cases result with
    | ok status => exact hend
    | error e => exact hend
  | death run issued performed torn ih =>
    have hask := Program.Safe.reaches (call_ensures ih issued) performed
    exact (hask.1.2 _ torn).inv_restarted

theorem Moment.sound (h : Moment generation original d) : Sound generation original d := by
  cases h with
  | rest run => exact run.inv.sound
  | within run issued performed =>
    refine Program.Safe.always (call_ensures run.inv issued) (fun _ _ h => h.1) (fun t r h => ?_)
      performed
    cases r with
    | ok status => exact h.sound
    | error e => exact h.sound
  | dying run issued performed torn =>
    have hask := Program.Safe.reaches (call_ensures run.inv issued) performed
    exact hask.1.2 _ torn

end Runs

/-! ## A save that is interrupted -/

/-- SHA-256 of the contents that the runs below meet. -/
def digest (content : Bytes) : Generation :=
  if content = [] then "0:e3b0c44298fc1c149afbf4c8996fb92427ae41e4649b934ca495991b7852b855"
  else if content = [1] then "1:4bf5122f344554c53bde2ebb8cd2b7e3d1600ad631c385a5d7cce23c7785459a"
  else if content = [2] then "1:dbc1b4c900ffe48d575b5da5c638040125f65db0fe3e24494b76ea986457d986"
  else ""

/-- A document is selected, a save is prepared and its candidate written. -/
def opened : List Call :=
  [.load, .selectionResult "vault" true, .prepareSave 0, .placeCandidate [2]]

/-- Killed in the write to the document. -/
def killed : Option Device :=
  Device.interrupted digest (fun _ => [1]) opened (.commitCandidate (digest [1]) (digest [2])) 22

def announcement : RecoveryJournal :=
  ⟨1, "vault", digest [1], digest [2], ⟨1, .backup⟩, ⟨1, .candidate⟩, ⟨1, .readback⟩, .writeStarted⟩

theorem killed_writing : ∃ d, killed = some d ∧ d.documents "vault" = [] ∧
    d.announced "vault" = some (announcement, [1, 0]) := by
  have hdocument : killed.map (·.documents "vault") = some [] := by decide
  have hann : killed.bind (·.announced "vault") = some (announcement, [1, 0]) := by decide
  obtain ⟨d, hd, hdocument⟩ := Option.map_eq_some_iff.mp hdocument
  rw [hd, Option.bind_some] at hann
  exact ⟨d, hd, hdocument, hann⟩

/-- Restarted after that, and the document selected again. -/
def resumed : Option (Stage × Device) :=
  killed.bind fun d =>
    Device.issue digest [.load, .selectionResult "vault" true] .starting d.restarted

/-! ## Results -/

section Results
variable {stage : Stage} {d t : Device} {command : Command Status}
  {result : Except Failure Status}

/-- A save can be recovered from at every moment: a document is as it was before the first write
that was announced, or has one of the contents of the last, or the journal and the backup of that
write are there. -/
theorem recoverable (h : Moment generation original d) (uri : Uri) :
    match d.announced uri with
    | none => d.documents uri = original uri
    | some (journal, _) => journal.sourceUri = uri ∧ journal.phase = .writeStarted ∧
        (generation (d.documents uri) = journal.baseline ∨
          generation (d.documents uri) = journal.candidate ∨
          d.journals journal.transactionToken = some journal ∧
            ∃ content, d.files ⟨journal.transactionToken, .backup⟩ = some content ∧
              generation content = journal.baseline) := by
  have hsound := h.sound
  cases hann : d.announced uri with
  | none => exact hsound.untouched uri hann
  | some last =>
    obtain ⟨journal, known⟩ := last
    obtain ⟨huri, hphase, hself, -⟩ := hsound.announced uri journal known hann
    refine ⟨huri, hphase, ?_⟩
    by_cases hknown : Known generation d uri journal
    · exact hknown.imp_right .inl
    · obtain ⟨hjournal, content, hcontent, hgen⟩ := hsound.kept uri journal known hann hknown
      rw [(isSelfConsistent_iff.mp hself).2.1] at hcontent
      exact .inr (.inr ⟨hjournal, content, hcontent, hgen⟩)

theorem recoverable_killed : ∃ d, Moment digest (fun _ => [1]) d ∧ d.documents "vault" = [] ∧
    (d.journals 1).isSome ∧ ∃ content, d.files ⟨1, .backup⟩ = some content ∧
      digest content = digest [1] := by
  obtain ⟨d, hd, hdocument, hann⟩ := killed_writing
  have hmoment := (interrupted_moment hd).1
  have hrecoverable := recoverable hmoment "vault"
  simp only [hann, hdocument] at hrecoverable
  obtain ⟨-, -, hknown | hknown | ⟨hjournal, hbackup⟩⟩ := hrecoverable
  · exact absurd hknown (by decide)
  · exact absurd hknown (by decide)
  · have hfound : (d.journals announcement.transactionToken).isSome := by rw [hjournal]; rfl
    exact ⟨d, hmoment, hdocument, hfound, hbackup⟩

/-- A command in its region, from a state between two commands. -/
theorem Reachable.inside {F : Device → Status → Prop} (run : Reachable generation original stage d)
    (h : Inside generation original (.spare generation d) command d F)
    (performed : Program.Reaches Performs command.run d (.done result) t) {status : Status}
    (hstatus : result = .ok status) : F t status := by
  have hend := Program.Safe.reaches (h (ready_spare run.inv.sound)) performed
  subst hstatus
  exact hend.2

/-- While a document has neither content of the last write, selecting it reports that a recovery is
required, staging it is refused, and so is a save from the record that wrote it or from one that
was selected since the write. -/
theorem unsettled_refused (run : Reachable generation original stage d) {uri : Uri}
    {journal : RecoveryJournal} {known : List OpaqueId}
    (announced : d.announced uri = some (journal, known))
    (unsettled : ¬ Known generation d uri journal) :
    (∀ writable t token granted required, Program.Reaches Performs
      (selectionResult generation uri writable).run d
      (.done (.ok (.selected token granted required))) t → required = true) ∧
    ∀ source record, d.sources source = some record → record.uri = uri →
      (∀ t token file, ¬ Program.Reaches Performs (stageCurrent generation source).run d
        (.done (.ok (.staged token file))) t) ∧
      ((source ∉ known ∨ ∃ save, d.saves journal.transactionToken = some save ∧
          save.source = source) → record.recoveryRequired = true ∧
        ∀ t status, Program.Reaches Performs (prepareSave source).run d
          (.done (.ok status)) t → status = .recoveryRequired ∨ status = .failed) := by
  have hnot : ¬ Settled generation d uri := fun h => unsettled (h journal known announced)
  constructor
  · intro writable t token granted required hperformed
    have h := run.inside (inside_selectionResult uri writable) hperformed rfl
    cases required with
    | false => exact absurd (h token granted rfl) hnot
    | true => rfl
  intro source record hrecord huri
  constructor
  · intro t token file hperformed
    have h := run.inside (inside_stageCurrent source) hperformed rfl
    obtain ⟨record', hrecord', hsettled, -⟩ := h token file rfl
    rw [hrecord] at hrecord'
    cases hrecord'
    exact hnot (huri ▸ hsettled)
  · intro hwho
    have hflagged := run.inv.orderly.flagged uri journal known announced unsettled source record
      hrecord huri hwho
    refine ⟨hflagged, fun t status hperformed => ?_⟩
    exact (run.inside (inside_prepareSave source) hperformed rfl).2 record hrecord hflagged

theorem unsettled_refused_resumed : ∃ d, Reachable digest (fun _ => [1]) .idle d ∧
    d.documents "vault" = [] ∧ (d.sources 2).isSome ∧ ∀ t status, Reaches Performs
      (prepareSave 2).run d (.done (.ok status)) t →
        status = .recoveryRequired ∨ status = .failed := by
  have hstage : resumed.map (fun run => (run.1, run.2.documents "vault")) = some (.idle, []) := by
    decide
  have hann : resumed.bind (·.2.announced "vault") = some (announcement, [1, 0]) := by decide
  have hsource : resumed.bind (·.2.sources 2) = some ⟨"vault", true, true⟩ := by decide
  obtain ⟨⟨stage, d⟩, hd, hstage⟩ := Option.map_eq_some_iff.mp hstage
  obtain ⟨rfl, hdocument⟩ := Prod.mk.inj hstage
  rw [hd, Option.bind_some] at hann hsource
  obtain ⟨before, hbefore, hresumed⟩ := Option.bind_eq_some_iff.mp hd
  obtain ⟨-, hrestarted, hindexed⟩ := interrupted_moment hbefore
  have hrun := (issue_reachable hrestarted hindexed hresumed).1
  have hunknown : ¬ Known digest d "vault" announcement := by
    rw [Known, hdocument]
    decide
  have hrefused := (unsettled_refused hrun hann hunknown).2 2 _ hsource rfl
  exact ⟨d, hrun, hdocument, by rw [hsource]; rfl, (hrefused.2 (.inl (by decide))).2⟩

/-- `commitCandidate` answers truthfully, and concerns the document of its save only: verified, the
document has the candidate; refused, it has the content it had. -/
theorem commitCandidate_truthful {token source : OpaqueId} {file : TransactionFile}
    {baseline candidate : Generation} {save : SaveRecord} {status : Status}
    (run : Reachable generation original (.preparing token source file) d)
    (saved : d.saves token = some save)
    (performed : Program.Reaches Performs
      (commitCandidate generation token source baseline candidate).run d (.done (.ok status)) t) :
    (∀ uri, uri ≠ save.uri → t.documents uri = d.documents uri) ∧
      match status with
      | .verified _ => generation (d.documents save.uri) = baseline ∧
          generation (t.documents save.uri) = candidate
      | .saveUncertain => ∀ record, t.sources source = some record → record.recoveryRequired = true
      | _ => generation (t.documents save.uri) = generation (d.documents save.uri) := by
  have hinv := run.inv
  have hend := Program.Safe.reaches
    (ensures_commitCandidate hinv.sound fun save hsave => hinv.new hsave) performed
  obtain ⟨rfl, hstatus⟩ | ⟨other, hother, rfl, -, hcommitted⟩ := hend
  · cases hstatus
    exact ⟨fun _ _ => rfl, rfl⟩
  cases saved.symm.trans hother
  refine ⟨fun uri huri => (hcommitted.elsewhere huri).1, ?_⟩
  cases hcommitted with
  | early refused frame =>
    have hdocument : t.documents save.uri = d.documents save.uri := frame.documents save.uri id
    rcases refused with hstatus | hstatus | ⟨e, he⟩
    · cases hstatus
      exact congrArg generation hdocument
    · cases hstatus
      exact congrArg generation hdocument
    · cases he
  | restored refused announced written document cleaned =>
    have hbefore := announced.here.2.1
    have hdocument : generation (t.documents save.uri) = generation (d.documents save.uri) := by
      rw [cleaned.documents save.uri id, document, hbefore]
    rcases refused with hstatus | hstatus | ⟨e, he⟩
    · cases hstatus
      exact hdocument
    · cases hstatus
      exact hdocument
    · cases he
  | verified announced written document => exact ⟨announced.here.2.1, document⟩
  | uncertain announced written flagged => exact flagged

theorem commitCandidate_truthful_verified : ∃ d t file,
    Reachable digest (fun _ => [1]) (.preparing 1 0 file) d ∧ d.documents "vault" = [1] ∧
      digest (t.documents "vault") = digest [2] ∧ Reaches Performs
        (commitCandidate digest 1 0 (digest [1]) (digest [2])).run d
          (.done (.ok (.verified ⟨1, .readback⟩))) t := by
  have hopened : (Device.issue digest opened .starting (Device.installed fun _ => [1])).map
      (fun run => (run.1, run.2.documents "vault")) =
        some (.preparing 1 0 ⟨1, .candidate⟩, [1]) := by
    decide
  have hsave : (Device.issue digest opened .starting (Device.installed fun _ => [1])).bind
      (·.2.saves 1) = some ⟨1, 0, "vault", ⟨1, .current⟩, ⟨1, .candidate⟩, ⟨1, .backup⟩,
        ⟨1, .readback⟩⟩ := by
    decide
  have hcommit : (Device.issue digest opened .starting (Device.installed fun _ => [1])).bind
      (fun run => (Device.finish 200 (commitCandidate digest 1 0 (digest [1]) (digest [2])).run
        run.2).bind fun done => done.1.toOption) = some (.verified ⟨1, .readback⟩) := by
    decide
  obtain ⟨⟨stage, d⟩, hd, hopened⟩ := Option.map_eq_some_iff.mp hopened
  obtain ⟨rfl, hdocument⟩ := Prod.mk.inj hopened
  rw [hd, Option.bind_some] at hsave hcommit
  obtain ⟨⟨result, t⟩, hfinish, hresult⟩ := Option.bind_eq_some_iff.mp hcommit
  obtain ⟨hrun, hindexed⟩ := issue_reachable .installed indexed_installed hd
  have hperformed := (finish_reaches hindexed hfinish).1
  cases result with
  | error e => cases hresult
  | ok status =>
    cases hresult
    have htruthful := commitCandidate_truthful hrun hsave hperformed
    exact ⟨d, t, _, hrun, hdocument, htruthful.2.2, hperformed⟩

end Results

end NianPass.Android.VaultSource
