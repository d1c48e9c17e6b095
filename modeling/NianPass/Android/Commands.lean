import NianPass.Android.Regions

/-
  The commands that write no document, in their regions.

  Each of them touches only what is spare: no backup and no journal that a
  document has to be recovered from. Reconciling deletes the files of a
  transaction only after it has read a known content, the cleanup at the start
  retains what the journals name, and an abort leaves a transaction alone if its
  journal says that writing has started.
-/
namespace NianPass.Android.VaultSource

open Program (Framed Ensures Reaches framed_pure framed_throw framed_ite)

variable {generation : Bytes → Generation} {original : Uri → Bytes}

/-! ## Subroutines -/

section Subroutines
variable {R : Region} {d : Device}

theorem inside_transactionDirectory :
    Inside generation original R transactionDirectory d fun t _ => t = d :=
  inside_attempt_last (inside_perform .transactionDirectory trivial) fun _ _ _ ht => ht

theorem inside_managedTransactionFile (file : TransactionFile) (mustExist : Bool) :
    Inside generation original R (managedTransactionFile file mustExist) d
      fun t found => t = d ∧ found = file :=
  inside_attempt (inside_perform (.managedFile file mustExist) trivial) fun _ _ _ _ ht =>
    framed_pure ⟨ht.1, rfl⟩

theorem inside_fingerprint (file : TransactionFile) :
    Inside generation original R (fingerprint generation file) d fun t found =>
      t = d ∧ ∃ content, d.files file = some content ∧ found = generation content :=
  inside_attempt (inside_perform (.readFile file) trivial) fun _ content _ _ ht =>
    framed_pure ⟨ht.1, content, ht.2 content rfl, rfl⟩

/-- The files that staging a document goes through. -/
def Region.staging (token : OpaqueId) (suffix : Suffix) : Region where
  files file := file = ⟨token, suffix⟩ ∨ file = ⟨token, .unfinished⟩

/-- What is staged is the document. -/
theorem inside_stageProvider {token : OpaqueId} {suffix : Suffix} (hsuffix : suffix ≠ .unfinished)
    (uri : Uri) (replace : Bool) :
    Inside generation original (.staging token suffix) (stageProvider uri suffix token replace) d
      fun t file => file = ⟨token, suffix⟩ ∧ t.files ⟨token, suffix⟩ = some (d.documents uri) := by
  have hcompleted : (Region.staging token suffix).files ⟨token, suffix⟩ := .inl rfl
  have hunfinished : (Region.staging token suffix).files ⟨token, .unfinished⟩ := .inr rfl
  refine (inside_managedTransactionFile _ _).bind fun t file _ hframe₁ hfile => ?_
  obtain ⟨-, rfl⟩ := hfile
  refine (inside_managedTransactionFile _ _).bind fun t file _ hframe₂ hfile => ?_
  obtain ⟨-, rfl⟩ := hfile
  refine Framed.bind (F := fun _ _ => True) (framed_ite (fun _ => inside_perform_any _ hcompleted)
    fun _ => framed_pure trivial) fun t _ _ hframe₃ _ => ?_
  refine (inside_perform_any (.deleteFile _) hunfinished).bind fun t _ _ hframe₄ _ => ?_
  have hdocument : t.documents uri = d.documents uri :=
    (((hframe₁.trans hframe₂).trans hframe₃).trans hframe₄).documents uri id
  refine Framed.tryCatch ?_ fun t e _ _ => ?_
  · refine inside_attempt (inside_perform (.readDocument uri) trivial)
      fun u content _ _ hread => ?_
    obtain ⟨rfl, hcontent⟩ := hread
    refine inside_attempt (inside_perform (.writeFile _ content) hunfinished)
      fun v _ _ _ hwritten => ?_
    refine (inside_perform (.renameFile _ _) ⟨hunfinished, hcompleted⟩).bind
      fun w renamed _ _ hrenamed => framed_ite (fun htrue => framed_pure ⟨rfl, ?_⟩)
        fun _ => framed_throw
    have hfiles : w = (v.setFile ⟨token, suffix⟩ (v.files ⟨token, .unfinished⟩)).setFile
        ⟨token, .unfinished⟩ none := by
      have h : w = if renamed = true then _ else _ := hrenamed
      rwa [if_pos htrue] at h
    have hv : v = u.setFile ⟨token, .unfinished⟩ (some content) := hwritten
    have hne : (⟨token, suffix⟩ : TransactionFile) ≠ ⟨token, .unfinished⟩ := by simp [hsuffix]
    rw [← hdocument]
    calc w.files ⟨token, suffix⟩
      _ = v.files ⟨token, .unfinished⟩ := by simp [hfiles, Device.setFile, hne]
      _ = some content := by simp [hv, Device.setFile]
      _ = some (u.documents uri) := by rw [hcontent content rfl]
  · exact (inside_perform_any (.deleteFile _) hunfinished).bind fun t _ _ _ _ =>
      (inside_perform_any (.deleteFile _) hcompleted).bind fun _ _ _ _ _ => framed_throw

/-- What belongs to one transaction. -/
def Region.transaction (token : OpaqueId) : Region where
  files file := file.token = token
  journals t := t = token

theorem staging_le {token : OpaqueId} {suffix : Suffix} :
    (Region.staging token suffix).Le (.transaction token) where
  documents _ := id
  files := by
    rintro file (rfl | rfl) <;> rfl
  journals _ := False.elim
  sources _ _ := id
  saves _ := id

theorem inside_deleteAll : ∀ {files : List TransactionFile} {complete : Bool}
    {d : Device}, (∀ file ∈ files, R.files file) →
      Inside generation original R (deleteAll files complete) d fun _ _ => True
  | [], _, _, _ => framed_pure trivial
  | file :: files, _, _, hfiles => by
    refine (inside_perform_any (.fileExists file) trivial).bind fun t found _ _ _ => ?_
    have hdelete : Inside generation original R
        (if found then perform (.deleteFile file) else pure true : Command Bool) t
          fun _ _ => True :=
      framed_ite (fun _ => inside_perform_any _ (hfiles file List.mem_cons_self))
        fun _ => framed_pure trivial
    exact hdelete.bind fun u gone _ _ _ =>
      inside_deleteAll fun f hf => hfiles f (List.mem_cons_of_mem file hf)

/-- The record of a save names the files of its transaction. -/
def SaveRecord.Proper (save : SaveRecord) : Prop :=
  save.current = ⟨save.token, .current⟩ ∧ save.candidate = ⟨save.token, .candidate⟩ ∧
    save.backup = ⟨save.token, .backup⟩ ∧ save.readBack = ⟨save.token, .readback⟩

theorem inside_cleanupSave {save : SaveRecord} (hproper : save.Proper) (deleteJournal : Bool) :
    Inside generation original (.transaction save.token) (cleanupSave save deleteJournal) d
      fun _ _ => True := by
  obtain ⟨hcurrent, hcandidate, hbackup, hreadBack⟩ := hproper
  refine (inside_deleteAll ?_).bind fun t complete _ _ _ => ?_
  · intro file hfile
    simp only [List.mem_cons, List.not_mem_nil, or_false] at hfile
    rcases hfile with rfl | rfl | rfl | rfl
    · rw [hcurrent]; rfl
    · rw [hcandidate]; rfl
    · rw [hbackup]; rfl
    · rw [hreadBack]; rfl
  have hgone : Inside generation original (.transaction save.token)
      (if deleteJournal then do
        transactionDirectory
        perform (.deleteJournal save.token)
      else pure true : Command Bool) t fun _ _ => True :=
    framed_ite (fun _ => inside_transactionDirectory.bind fun u _ _ _ _ =>
      inside_perform_any _ rfl) fun _ => framed_pure trivial
  refine hgone.bind fun u gone _ _ _ => ?_
  exact (inside_perform_any (R := .transaction save.token) (.removeSave save.token) trivial).bind
    fun _ _ _ _ _ => framed_pure trivial

/-- A document that was never announced, or of which the last announcement is known. -/
def Settled (generation : Bytes → Generation) (d : Device) (uri : Uri) : Prop :=
  ∀ journal known, d.announced uri = some (journal, known) → Known generation d uri journal

/-- What a command that writes no document may touch: nothing that is needed. A record that it
adds is flagged if its document is unsettled, a save that it adds names its own files. -/
def Region.spare (generation : Bytes → Generation) (d : Device) : Region where
  files file := file.suffix ≠ .backup ∨ ¬ Needed generation d file.token
  journals token := ¬ Needed generation d token
  sources token record := token ∉ d.issued ∧
    (¬ Settled generation d record.uri → record.recoveryRequired = true)
  saves save := save.token ∉ d.issued ∧ save.Proper ∧
    ∃ record, d.sources save.source = some record ∧ record.uri = save.uri

section Spare
variable {b : Device}

theorem ready_spare (h : Sound generation original b) :
    Ready generation original (.spare generation b) b where
  sound := h
  clear := {
    armed := fun _ huri => huri.elim
    spared := fun uri journal known hann hneeded => by
      have hneeds : Needed generation b journal.transactionToken :=
        ⟨uri, journal, known, hann, rfl, hneeded.resolve_left id⟩
      simp [Region.spare, hneeds] }

theorem staging_le_spare {token : OpaqueId} {suffix : Suffix} (hsuffix : suffix ≠ .backup) :
    (Region.staging token suffix).Le (.spare generation b) where
  documents _ := id
  files := by
    rintro file (rfl | rfl)
    · exact .inl hsuffix
    · exact .inl (by simp)
  journals _ := False.elim
  sources _ _ := False.elim
  saves _ := False.elim

theorem transaction_le_spare {token : OpaqueId} (h : ¬ Needed generation b token) :
    (Region.transaction token).Le (.spare generation b) where
  documents _ := id
  files := by
    rintro file rfl
    exact .inr h
  journals := by
    rintro t rfl
    exact h
  sources _ _ := False.elim
  saves _ := False.elim

end Spare

end Subroutines

/-! ## Reconciling -/

section Reconcile
variable {R : Region} {d : Device}

theorem inside_readJournal (token : OpaqueId) :
    Inside generation original R (readJournal token) d fun t found =>
      t = d ∧ found = (d.journals token).filter (·.isSelfConsistent token) :=
  (inside_perform (.readJournal token) trivial).bind fun t stored _ _ ht =>
    framed_pure ⟨ht.1, by rw [ht.2]⟩

theorem inside_readEach : ∀ (names : List OpaqueId) {d : Device},
    Inside generation original R (readEach names) d fun t journals => t = d ∧
      journals = names.map fun token =>
        (token, (d.journals token).filter (·.isSelfConsistent token))
  | [], _ => framed_pure ⟨rfl, rfl⟩
  | token :: names, d => by
    refine (inside_readJournal token).bind fun t journal _ _ hjournal => ?_
    obtain ⟨rfl, rfl⟩ := hjournal
    refine (inside_readEach names).bind fun u rest _ _ hrest => ?_
    obtain ⟨rfl, rfl⟩ := hrest
    exact framed_pure ⟨rfl, rfl⟩

/-- Every journal is listed, and what is listed is a journal or cannot be read. -/
theorem inside_listJournals :
    Inside generation original R listJournals d fun t journals => t = d ∧
      (∀ token journal, (token, some journal) ∈ journals → d.journals token = some journal) ∧
      ∀ token journal, d.journals token = some journal →
        journal.isSelfConsistent token = true → (token, some journal) ∈ journals := by
  refine (inside_perform .listJournals trivial).bind fun t names _ _ hnames => ?_
  obtain ⟨rfl, hmem⟩ := hnames
  refine (inside_readEach names).weaken fun u journals _ _ hjournals => ?_
  obtain ⟨rfl, rfl⟩ := hjournals
  refine ⟨rfl, ?_, ?_⟩
  · intro token journal hin
    obtain ⟨name, -, heq⟩ := List.mem_map.mp hin
    obtain ⟨rfl, hfound⟩ := Prod.mk.inj heq
    exact (Option.filter_eq_some_iff.mp hfound).1
  · intro token journal hfound hconsistent
    refine List.mem_map.mpr ⟨token, (hmem token).mpr (by simp [hfound]), ?_⟩
    simp [hfound, Option.filter, hconsistent]

theorem inside_deleteManaged : ∀ {paths : List TransactionFile} {d : Device},
    (∀ path ∈ paths, R.files path) →
      Inside generation original R (deleteManaged paths) d fun _ _ => True
  | [], _, _ => framed_pure trivial
  | path :: paths, d, hpaths => by
    have hone : Inside generation original R (tryCatch
        (do
          transactionDirectory
          let file ← managedTransactionFile path false
          let _ ← perform (.deleteFile file)
          return)
        fun _ => return) d fun _ _ => True := by
      refine Framed.tryCatch ?_ fun _ _ _ _ => framed_pure trivial
      refine inside_transactionDirectory.bind fun t _ _ _ _ => ?_
      refine (inside_managedTransactionFile path false).bind fun u file _ _ hfile => ?_
      obtain ⟨-, rfl⟩ := hfile
      exact (inside_perform_any (.deleteFile _) (hpaths file List.mem_cons_self)).bind
        fun _ _ _ _ _ => framed_pure trivial
    exact hone.bind fun t _ _ _ _ =>
      inside_deleteManaged fun p hp => hpaths p (List.mem_cons_of_mem path hp)

theorem inside_cleanupJournalFiles {journal : RecoveryJournal} {token : OpaqueId}
    (hconsistent : journal.isSelfConsistent token = true)
    (hfiles : ∀ file : TransactionFile, file.token = token → R.files file) :
    Inside generation original R (cleanupJournalFiles journal) d fun _ _ => True := by
  obtain ⟨rfl, hbackup, hcandidate, hreadBack⟩ := isSelfConsistent_iff.mp hconsistent
  refine (inside_deleteManaged fun path hpath => hfiles path ?_).bind fun t _ _ _ _ => ?_
  · simp only [List.mem_cons, List.not_mem_nil, or_false] at hpath
    rcases hpath with rfl | rfl | rfl
    · rw [hbackup]
    · rw [hcandidate]
    · rw [hreadBack]
  refine inside_transactionDirectory.bind fun u _ _ _ _ => ?_
  refine (inside_managedTransactionFile _ _).bind fun v file _ _ hfile => ?_
  obtain ⟨-, rfl⟩ := hfile
  exact (inside_perform_any (.deleteFile _) (hfiles _ rfl)).bind fun _ _ _ _ _ =>
    framed_pure trivial

/-- If the transaction is needed, it is needed by this journal's document, for this journal. -/
def Faithful (generation : Bytes → Generation) (d : Device) (journal : RecoveryJournal) : Prop :=
  ∀ uri other known, d.announced uri = some (other, known) → ¬ Known generation d uri other →
    other.transactionToken = journal.transactionToken → other = journal ∧ uri = journal.sourceUri

theorem Sound.faithful (hsound : Sound generation original d) {token : OpaqueId}
    {journal : RecoveryJournal} (h : d.journals token = some journal) :
    Faithful generation d journal := by
  intro uri other known hann hunknown htoken
  obtain ⟨htoken', -⟩ := isSelfConsistent_iff.mp (hsound.consistent token journal h)
  have hkept := (hsound.kept uri other known hann hunknown).1
  rw [htoken, htoken', h] at hkept
  have hsame := (Option.some.inj hkept).symm
  exact ⟨hsame, hsame ▸ (hsound.announced uri other known hann).1.symm⟩

section Spare
variable {b : Device}

/-- Reading the document, or failing to. -/
theorem inside_reading (uri : Uri) :
    Inside generation original (.spare generation b)
      (tryCatch
        (do
          let id ← perform .opaqueId
          let check ← stageProvider uri .check id false
          let identity ← fingerprint generation check
          let _ ← perform (.deleteFile check)
          return some identity)
        fun _ => return none)
      d fun _ current => ∀ identity, current = some identity →
        identity = generation (d.documents uri) := by
  refine Framed.tryCatch ?_ fun _ _ _ _ => framed_pure (by simp)
  refine (inside_perform .opaqueId trivial).bind fun t token _ hframe _ => ?_
  refine ((inside_stageProvider (by simp) uri false).widen (staging_le_spare (by simp))).bind
    fun u check _ _ hcheck => ?_
  obtain ⟨-, rfl, hfile⟩ := hcheck
  refine (inside_fingerprint _).bind fun v identity _ _ hidentity => ?_
  obtain ⟨rfl, content, hcontent, rfl⟩ := hidentity
  have hcheck : (Region.spare generation b).files ⟨token, .check⟩ := .inl (by simp)
  refine (inside_perform_any (.deleteFile _) hcheck).bind fun w _ _ _ _ => framed_pure ?_
  rintro identity ⟨⟩
  rw [hfile] at hcontent
  have hdocument : t.documents uri = d.documents uri := hframe.documents uri id
  rw [← hdocument, Option.some.inj hcontent]

theorem known_of_decision {uri : Uri} {journal : RecoveryJournal}
    (h : recoveryDecision (generation (b.documents uri)) journal.baseline journal.candidate ≠
      .requiresReconciliation) : Known generation b uri journal := by
  by_contra hunknown
  rw [Known, not_or] at hunknown
  exact h (by simp [recoveryDecision, hunknown.1, hunknown.2])

/-- Only the files of known documents are cleaned up. -/
theorem inside_reconcileAll (uri : Uri) : ∀ {journals : List (OpaqueId × Option RecoveryJournal)}
    {d : Device}, Frame (.spare generation b) b d →
      (∀ token journal, (token, some journal) ∈ journals →
        journal.isSelfConsistent token = true ∧ Faithful generation b journal) →
      Inside generation original (.spare generation b) (reconcileAll generation uri journals) d
        fun _ unsettled => unsettled = false → ∀ token journal, (token, some journal) ∈ journals →
          journal.sourceUri = uri → Known generation b uri journal
  | [], _, _, _ => framed_pure (by simp)
  | (_, none) :: _, _, _, _ => framed_pure (by simp)
  | (token, some journal) :: journals, d, hframe, hlisted => by
    have hrest : ∀ token' journal', (token', some journal') ∈ journals →
        journal'.isSelfConsistent token' = true ∧ Faithful generation b journal' :=
      fun token' journal' hin => hlisted token' journal' (List.mem_cons_of_mem _ hin)
    obtain ⟨hconsistent, hfaithful⟩ := hlisted token journal List.mem_cons_self
    obtain ⟨htoken, -⟩ := isSelfConsistent_iff.mp hconsistent
    refine framed_ite (fun hother => ?_) fun huri => ?_
    · refine (inside_reconcileAll uri hframe hrest).weaken fun t unsettled _ _ hF hfalse => ?_
      intro token' journal' hin heq
      rcases List.mem_cons.mp hin with heq' | hin
      · cases heq'
        exact absurd heq hother
      · exact hF hfalse token' journal' hin heq
    · refine (inside_reading uri).bind fun t current _ hframe' hcurrent => ?_
      cases current with
      | none => exact framed_pure (by simp)
      | some current =>
        have hdocument : d.documents uri = b.documents uri := hframe.documents uri id
        have hreading : current = generation (b.documents uri) := by
          rw [hcurrent current rfl, hdocument]
        refine framed_ite (fun _ => framed_pure (by simp)) fun hdecided => ?_
        have hknown : Known generation b uri journal := by
          rw [hreading] at hdecided
          exact known_of_decision hdecided
        have hneeded : ¬ Needed generation b token := by
          rintro ⟨uri', other, known, hann, hother, hunknown⟩
          obtain ⟨rfl, rfl⟩ := hfaithful uri' other known hann hunknown (hother.trans htoken.symm)
          rw [not_not.mp huri] at hunknown
          exact hunknown hknown
        have hfiles : ∀ file : TransactionFile, file.token = token →
            (Region.spare generation b).files file := fun file hfile => .inr (hfile ▸ hneeded)
        have hjournals : (Region.spare generation b).journals token := hneeded
        refine (inside_cleanupJournalFiles hconsistent hfiles).bind fun u _ _ hframe'' _ => ?_
        refine (inside_perform_any (.deleteJournal _) (htoken.symm ▸ hjournals)).bind
          fun v _ _ hframe₃ _ => ?_
        refine (inside_perform_any (.deleteJournal _) hjournals).bind fun w _ _ hframe₄ _ => ?_
        have hframe' := (((hframe.trans hframe').trans hframe'').trans hframe₃).trans hframe₄
        refine (inside_reconcileAll uri hframe' hrest).weaken fun x unsettled _ _ hF hfalse => ?_
        intro token' journal' hin heq
        rcases List.mem_cons.mp hin with heq' | hin
        · cases heq'
          exact hknown
        · exact hF hfalse token' journal' hin heq

theorem Frame.settled_iff (h : Frame (.spare generation b) b d) {uri : Uri} :
    Settled generation d uri ↔ Settled generation b uri := by
  simp only [Settled, h.announced, h.known_iff (R := .spare generation b) id]

theorem Frame.faithful (h : Frame (.spare generation b) b d) {journal : RecoveryJournal}
    (hfaithful : Faithful generation d journal) : Faithful generation b journal := by
  intro uri other known hann hunknown
  exact hfaithful uri other known (h.announced ▸ hann)
    ((h.known_iff (R := .spare generation b) id).not.mpr hunknown)

/-- A document is settled if no recovery is reported. -/
theorem inside_reconcileKnownTransactions (uri : Uri) (hframe : Frame (.spare generation b) b d) :
    Inside generation original (.spare generation b) (reconcileKnownTransactions generation uri) d
      fun _ unsettled => unsettled = false → Settled generation b uri := by
  refine inside_transactionDirectory.bind fun t _ hready _ ht => ?_
  subst ht
  refine inside_listJournals.bind fun t journals _ _ hjournals => ?_
  obtain ⟨rfl, hread, hlisted⟩ := hjournals
  have hsound : Sound generation original t := hready.sound
  have hconsistent : ∀ token journal, (token, some journal) ∈ journals →
      journal.isSelfConsistent token = true ∧ Faithful generation b journal := by
    intro token journal hin
    have hjournal := hread token journal hin
    exact ⟨hsound.consistent token journal hjournal, hframe.faithful (hsound.faithful hjournal)⟩
  refine (inside_reconcileAll uri hframe hconsistent).weaken fun u unsettled _ _ hF hfalse => ?_
  rw [← hframe.settled_iff]
  intro journal known hann
  by_contra hunknown
  obtain ⟨huri, -, hself, -⟩ := hsound.announced uri journal known hann
  have hin := hlisted _ journal (hsound.kept uri journal known hann hunknown).1 hself
  have hknown := hF hfalse _ journal hin huri
  exact hunknown ((hframe.known_iff (R := .spare generation b) id).mpr hknown)

theorem inside_deleteUnowned {retained : List TransactionFile} :
    ∀ {candidates : List TransactionFile} {d : Device},
      (∀ file ∉ retained, R.files file) →
        Inside generation original R (deleteUnowned retained candidates) d fun _ _ => True
  | [], _, _ => framed_pure trivial
  | candidate :: candidates, d, hfiles => by
    have hone : Inside generation original R (if candidate ∈ retained then pure false
        else perform (.deleteFile candidate) : Command Bool) d fun _ _ => True :=
      framed_ite (fun _ => framed_pure trivial) fun hnot =>
        inside_perform_any (.deleteFile candidate) (hfiles candidate hnot)
    exact hone.bind fun t _ _ _ _ => inside_deleteUnowned hfiles

/-- A backup that is needed is retained, as its journal is listed. -/
theorem inside_cleanupUnownedTransactionFiles :
    Inside generation original (.spare generation d) cleanupUnownedTransactionFiles d
      fun _ _ => True := by
  refine (inside_perform .hasTransactionDirectory trivial).bind fun t found hready _ ht => ?_
  cases ht
  refine framed_ite (fun _ => framed_pure trivial) fun _ => ?_
  refine inside_listJournals.bind fun t journals _ _ hjournals => ?_
  obtain ⟨rfl, -, hlisted⟩ := hjournals
  refine framed_ite (fun _ => framed_pure trivial) fun _ => ?_
  refine (inside_perform_any .listFiles trivial).bind fun u candidates _ _ _ => ?_
  refine inside_deleteUnowned fun file hnot => ?_
  show file.suffix ≠ .backup ∨ ¬ Needed generation t file.token
  rw [or_iff_not_imp_left, not_not]
  rintro hsuffix ⟨uri, journal, known, hann, htoken, hunknown⟩
  have hsound : Sound generation original t := hready.sound
  obtain ⟨-, -, hself, -⟩ := hsound.announced uri journal known hann
  have hin := hlisted _ journal (hsound.kept uri journal known hann hunknown).1 hself
  refine hnot (List.mem_flatMap.mpr ⟨journal, ?_, ?_⟩)
  · exact List.mem_filterMap.mpr ⟨_, hin, rfl⟩
  · have hfile : file = journal.backupPath := by
      rw [(isSelfConsistent_iff.mp hself).2.1, htoken, ← hsuffix]
    rw [hfile]
    exact List.mem_cons_self

end Spare

end Reconcile

/-! ## Commands that write no document -/

section Commands
variable {R : Region} {d : Device}

theorem inside_requireSource (token : OpaqueId) :
    Inside generation original R (requireSource token) d fun t record =>
      t = d ∧ d.sources token = some record :=
  inside_attempt_last (inside_perform (.getSource token) trivial) fun _ _ _ ht =>
    ⟨ht.1, ht.2.symm⟩

/-- A selection that reports no recovery is of a settled document. -/
theorem inside_selectionResult (uri : Uri) (writable : Bool) :
    Inside generation original (.spare generation d) (selectionResult generation uri writable) d
      fun _ status => ∀ token granted, status = .selected token granted false →
        Settled generation d uri := by
  refine Framed.tryCatch ?_ fun _ _ _ _ => framed_pure (by simp)
  refine inside_attempt (inside_perform_any (.stageImport uri) trivial) fun t _ _ hframe₁ _ => ?_
  refine (inside_perform .opaqueId trivial).bind fun u token _ hframe₂ htoken => ?_
  obtain ⟨hfresh, rfl⟩ := htoken
  have hframe := hframe₁.trans hframe₂
  refine (inside_reconcileKnownTransactions uri hframe).bind
    fun v unsettled _ hframe₃ hsettled => ?_
  refine inside_attempt (inside_perform_any (.queryDisplayName uri) trivial)
    fun w _ _ hframe₄ _ => ?_
  have hissued : token ∈ w.issued :=
    hframe₄.issued token (hframe₃.issued token List.mem_cons_self)
  have hnew : (Region.spare generation d).sources token ⟨uri, writable, unsettled⟩ := by
    refine ⟨fun hin => hfresh (hframe₁.issued token hin), fun hunsettled => ?_⟩
    cases unsettled with
    | false => exact absurd (hsettled rfl) hunsettled
    | true => rfl
  refine (inside_perform_any (.putSource token _) ⟨hissued, hnew⟩).bind fun x _ _ _ _ => ?_
  refine inside_attempt (inside_perform_any (.queryDisplayName uri) trivial) fun y _ _ _ _ => ?_
  refine framed_pure fun token' granted hstatus => ?_
  obtain ⟨-, -, rfl⟩ := Status.selected.inj hstatus
  exact hsettled rfl

/-- A save that is prepared is a new one. -/
theorem inside_prepareSave (sourceToken : OpaqueId) :
    Inside generation original (.spare generation d) (prepareSave sourceToken) d
      fun t status => (∀ token current candidate, status = .prepared token current candidate →
          token ∈ t.issued ∧ token ∉ d.issued ∧ candidate = ⟨token, .candidate⟩) ∧
        ∀ record, d.sources sourceToken = some record → record.recoveryRequired = true →
          status = .recoveryRequired ∨ status = .failed := by
  refine Framed.tryCatch ?_ fun _ _ _ _ => framed_pure (by simp)
  refine (inside_requireSource sourceToken).bind fun t source _ _ hsource => ?_
  obtain ⟨rfl, hsource⟩ := hsource
  refine framed_ite (fun _ => framed_pure (by simp)) fun hrequired => ?_
  have hunflagged : ∀ {status : Status} record, t.sources sourceToken = some record →
      record.recoveryRequired = true → status = .recoveryRequired ∨ status = .failed :=
    fun record hrecord hflag => by
      rw [hsource] at hrecord
      exact absurd (Option.some.inj hrecord ▸ hflag) hrequired
  refine framed_ite (fun _ => framed_pure ⟨by simp, hunflagged⟩) fun _ => ?_
  refine inside_transactionDirectory.bind fun u _ _ _ hu => ?_
  subst hu
  refine (inside_perform .opaqueId trivial).bind fun u token _ _ htoken => ?_
  obtain ⟨hfresh, rfl⟩ := htoken
  refine ((inside_stageProvider (by simp) source.uri false).widen (staging_le_spare (by simp))).bind
    fun v current _ hframe hcurrent => ?_
  obtain ⟨-, rfl, -⟩ := hcurrent
  refine (inside_managedTransactionFile _ false).bind fun w candidate _ _ hcandidate => ?_
  obtain ⟨rfl, rfl⟩ := hcandidate
  refine (inside_managedTransactionFile _ false).bind fun w backup _ _ hbackup => ?_
  obtain ⟨rfl, rfl⟩ := hbackup
  refine (inside_managedTransactionFile _ false).bind fun w readBack _ _ hreadBack => ?_
  obtain ⟨rfl, rfl⟩ := hreadBack
  have hissued : token ∈ w.issued := hframe.issued token List.mem_cons_self
  have hnew : (Region.spare generation u).saves ⟨token, sourceToken, source.uri, ⟨token, .current⟩,
      ⟨token, .candidate⟩, ⟨token, .backup⟩, ⟨token, .readback⟩⟩ :=
    ⟨hfresh, ⟨rfl, rfl, rfl, rfl⟩, source, hsource, rfl⟩
  refine (inside_perform_any (.putSave _) ⟨hissued, hnew⟩).bind fun x _ _ hframe' _ =>
    framed_pure ⟨?_, hunflagged⟩
  intro token' current candidate hstatus
  obtain ⟨rfl, -, rfl⟩ := Status.prepared.inj hstatus
  exact ⟨hframe'.issued token hissued, hfresh, rfl⟩

theorem inside_placeCandidate {file : TransactionFile} (hfile : R.files file) (content : Bytes) :
    Inside generation original R (placeCandidate file content) d fun _ _ => True :=
  (inside_perform_any (.writeFile file content) hfile).bind fun _ _ _ _ _ => framed_pure trivial

/-- What is staged for reading is a settled document. -/
theorem inside_stageCurrent (sourceToken : OpaqueId) :
    Inside generation original (.spare generation d) (stageCurrent generation sourceToken) d
      fun t status => (∀ token file, status = .staged token file →
        ∃ record, d.sources sourceToken = some record ∧ Settled generation d record.uri ∧
          t.files file = some (d.documents record.uri)) := by
  refine Framed.tryCatch ?_ fun _ _ _ _ => framed_pure (by simp)
  refine (inside_requireSource sourceToken).bind fun t source _ _ hsource => ?_
  obtain ⟨rfl, hsource⟩ := hsource
  have hrequired : Inside generation original (.spare generation t)
      (if source.recoveryRequired then pure true
        else reconcileKnownTransactions generation source.uri : Command Bool) t
      fun _ required => required = false → Settled generation t source.uri :=
    framed_ite (fun _ => framed_pure (by simp)) fun _ =>
      inside_reconcileKnownTransactions source.uri .rfl
  refine hrequired.bind fun u required _ hframe₁ hsettled => ?_
  refine framed_ite (fun _ => ?_) fun hnot => ?_
  · exact (inside_perform_any (.setRecoveryRequired sourceToken true) rfl).bind fun _ _ _ _ _ =>
      framed_pure (by simp)
  refine (inside_perform_any .opaqueId trivial).bind fun v token _ hframe₂ _ => ?_
  refine inside_transactionDirectory.bind fun w _ _ _ hw => ?_
  subst hw
  refine ((inside_stageProvider (by simp) source.uri false).widen (staging_le_spare (by simp))).bind
    fun x file _ _ hfile => ?_
  obtain ⟨-, rfl, hstaged⟩ := hfile
  refine (inside_perform (.putRead token sourceToken) trivial).bind fun y _ _ _ hy => framed_pure ?_
  intro token' file' hstatus
  obtain ⟨-, rfl⟩ := Status.staged.inj hstatus
  refine ⟨source, hsource, hsettled (Bool.eq_false_iff.mpr hnot), ?_⟩
  have hdocument := (hframe₁.trans hframe₂).documents source.uri id
  cases hy
  rw [← hdocument]
  exact hstaged

theorem inside_finishRead (sourceToken readToken : OpaqueId) :
    Inside generation original (.spare generation d) (finishRead sourceToken readToken) d
      fun _ _ => True := by
  refine (inside_perform_any (.getSource sourceToken) trivial).bind fun t source _ _ _ => ?_
  refine (inside_perform_any (.removeRead readToken) trivial).bind fun u read _ _ _ => ?_
  have hfile : (Region.spare generation d).files ⟨readToken, .read⟩ := .inl (by simp)
  exact framed_ite (fun _ => (inside_perform_any (.deleteFile _) hfile).bind fun _ _ _ _ _ =>
    framed_pure trivial) fun _ => framed_pure trivial

theorem inside_deleteReads : ∀ {tokens : List OpaqueId} {d : Device},
    (∀ token, R.files ⟨token, .read⟩) →
      Inside generation original R (deleteReads tokens) d fun _ _ => True
  | [], _, _ => framed_pure trivial
  | token :: _, _, hfiles =>
    (inside_perform_any (.deleteFile _) (hfiles token)).bind fun _ _ _ _ _ =>
      inside_deleteReads hfiles

theorem inside_releaseSource (token : OpaqueId) (preserveRecovery : Bool) :
    Inside generation original (.spare generation d) (releaseSource token preserveRecovery) d
      fun _ _ => True := by
  refine (inside_perform_any (.getSource token) trivial).bind fun t found _ _ _ => ?_
  cases found with
  | none => exact framed_pure trivial
  | some source =>
    refine framed_ite (fun _ => framed_pure trivial) fun _ => ?_
    refine (inside_perform_any (.removeReadsOf token) trivial).bind fun u reads _ _ _ => ?_
    have hfiles : ∀ token, (Region.spare generation d).files ⟨token, .read⟩ :=
      fun _ => .inl (by simp)
    refine (inside_deleteReads hfiles).bind fun v _ _ _ _ => ?_
    have htransition : Inside generation original (.spare generation d)
        (if preserveRecovery then pure true else perform (.releaseGrant source.uri) : Command Bool)
        v fun _ _ => True :=
      framed_ite (fun _ => framed_pure trivial) fun _ =>
        inside_perform_any (.releaseGrant _) trivial
    refine htransition.bind fun w transitioned _ _ _ => ?_
    exact framed_ite (fun _ => (inside_perform_any (.removeSource token) trivial).bind
      fun _ _ _ _ _ => framed_pure trivial) fun _ => framed_pure trivial

/-- A journal that is needed says that writing has started, so that its transaction is not cleaned
up. -/
theorem inside_abortSave {token sourceToken : OpaqueId}
    (hsaves : ∀ save, d.saves token = some save → save.Proper) :
    Inside generation original (.spare generation d) (abortSave token sourceToken) d
      fun _ _ => True := by
  refine (inside_perform (.getSave token) trivial).bind fun t found _ _ hfound => ?_
  obtain ⟨rfl, rfl⟩ := hfound
  refine (inside_perform (.getSource sourceToken) trivial).bind fun u source _ _ hsource => ?_
  obtain ⟨rfl, -⟩ := hsource
  cases hsave : u.saves token with
  | none => exact framed_pure trivial
  | some save =>
    refine framed_ite (fun _ => framed_pure trivial) fun _ => ?_
    refine inside_transactionDirectory.bind fun v _ hready _ hv => ?_
    subst hv
    refine (inside_readJournal save.token).bind fun w journal _ _ hjournal => ?_
    obtain ⟨rfl, rfl⟩ := hjournal
    refine framed_ite (fun _ => ?_) fun hphase => ?_
    · exact (inside_perform_any (.setRecoveryRequired sourceToken true) rfl).bind fun _ _ _ _ _ =>
        framed_pure trivial
    · have hspare : ¬ Needed generation w save.token := by
        rintro ⟨uri, journal, known, hann, htoken, hunknown⟩
        have hsound : Sound generation original w := hready.sound
        obtain ⟨-, hstarted, hself, -⟩ := hsound.announced uri journal known hann
        have hkept := (hsound.kept uri journal known hann hunknown).1
        rw [htoken] at hkept hself
        exact hphase (by simp [hkept, Option.filter, hself, hstarted])
      exact ((inside_cleanupSave (hsaves save hsave) true).widen (transaction_le_spare hspare)).bind
        fun _ _ _ _ _ => framed_pure trivial

end Commands

end NianPass.Android.VaultSource
