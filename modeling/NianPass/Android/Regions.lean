import NianPass.Android.Saves
import NianPass.Lib.Frames

/-
  What the commands of the plugin may touch.

  `Sound` is what holds in every state: a document that the plugin has not
  announced to write is as it was, and one that it has is the baseline or the
  candidate of the last announcement, or the journal of that announcement and a
  backup with the baseline are still there. A command works in a `Region` of the
  device. Nothing else changes (`Frame`), and a device stays sound if nothing in
  the region is needed for a recovery (`Clear`). A region with a document in it is
  clear only while the document can be recovered, whatever it holds.
-/
namespace NianPass.Android.VaultSource

open Program (Framed Discipline Ensures)

variable {generation : Bytes → Generation} {original : Uri → Bytes}

/-! ## Soundness -/

/-- The document is one of the two contents that the journal names. -/
def Known (generation : Bytes → Generation) (d : Device) (uri : Uri) (journal : RecoveryJournal) :
    Prop :=
  generation (d.documents uri) = journal.baseline ∨ generation (d.documents uri) = journal.candidate

/-- The journal is there, and so is a backup with the baseline. -/
def Kept (generation : Bytes → Generation) (d : Device) (journal : RecoveryJournal) : Prop :=
  d.journals journal.transactionToken = some journal ∧
    ∃ content, d.files journal.backupPath = some content ∧ generation content = journal.baseline

structure Sound (generation : Bytes → Generation) (original : Uri → Bytes) (d : Device) : Prop where
  untouched : ∀ uri, d.announced uri = none → d.documents uri = original uri
  kept : ∀ uri journal known, d.announced uri = some (journal, known) →
    ¬ Known generation d uri journal → Kept generation d journal
  announced : ∀ uri journal known, d.announced uri = some (journal, known) →
    journal.sourceUri = uri ∧ journal.phase = .writeStarted ∧
      journal.isSelfConsistent journal.transactionToken = true ∧
      journal.transactionToken ∈ d.issued
  consistent : ∀ token journal, d.journals token = some journal →
    journal.isSelfConsistent token = true

/-- The transaction that a document has to be recovered from. -/
def Needed (generation : Bytes → Generation) (d : Device) (token : OpaqueId) : Prop :=
  ∃ uri journal known, d.announced uri = some (journal, known) ∧
    journal.transactionToken = token ∧ ¬ Known generation d uri journal

theorem isSelfConsistent_iff {token : OpaqueId} {journal : RecoveryJournal} :
    journal.isSelfConsistent token = true ↔ journal.transactionToken = token ∧
      journal.backupPath = ⟨token, .backup⟩ ∧ journal.candidatePath = ⟨token, .candidate⟩ ∧
      journal.readBackPath = ⟨token, .readback⟩ := by
  simp [RecoveryJournal.isSelfConsistent, and_assoc]

/-! ## Regions -/

/-- What a record may become: it keeps its document, and a recovery stays required. -/
structure SourceRecord.Le (record record' : SourceRecord) : Prop where
  uri : record'.uri = record.uri
  required : record.recoveryRequired = true → record'.recoveryRequired = true

/-- What may change, and which records may be new. -/
structure Region where
  documents : Uri → Prop := fun _ => False
  files : TransactionFile → Prop := fun _ => False
  journals : OpaqueId → Prop := fun _ => False
  sources : OpaqueId → SourceRecord → Prop := fun _ _ => False
  saves : SaveRecord → Prop := fun _ => False

/-- Nothing outside the region has changed, no write has been announced, and what is in memory has
only been lost, or flagged. -/
structure Frame (R : Region) (d d' : Device) : Prop where
  documents : ∀ uri, ¬ R.documents uri → d'.documents uri = d.documents uri
  announced : d'.announced = d.announced
  issued : ∀ token ∈ d.issued, token ∈ d'.issued
  files : ∀ file, ¬ R.files file → d'.files file = d.files file
  journals : ∀ token, ¬ R.journals token → d'.journals token = d.journals token
  sources : ∀ token record', d'.sources token = some record' → ∃ record,
    record.Le record' ∧ (d.sources token = some record ∨ token ∈ d'.issued ∧ R.sources token record)
  saves : ∀ token save, d'.saves token = some save →
    d.saves token = some save ∨ save.token = token ∧ token ∈ d'.issued ∧ R.saves save
  consistent : ∀ token journal, d'.journals token = some journal →
    d.journals token = some journal ∨ journal.isSelfConsistent token = true

def Effect.inside (R : Region) (d : Device) : Effect → Prop
  | .writeFile file _ => R.files file
  | .deleteFile file => R.files file
  | .renameFile source destination => R.files source ∧ R.files destination
  | .writeJournal journal => R.journals journal.transactionToken ∧ journal.phase = .prepared ∧
      journal.isSelfConsistent journal.transactionToken = true
  | .deleteJournal token => R.journals token
  | .openForWriting uri => R.documents uri
  | .writeDocument uri _ => R.documents uri
  | .putSource token record => token ∈ d.issued ∧ R.sources token record
  | .setRecoveryRequired _ required => required = true
  | .putSave save => save.token ∈ d.issued ∧ R.saves save
  | _ => True

structure Clear (generation : Bytes → Generation) (R : Region) (d : Device) : Prop where
  armed : ∀ uri, R.documents uri →
    ∃ journal known, d.announced uri = some (journal, known) ∧ Kept generation d journal
  spared : ∀ uri journal known, d.announced uri = some (journal, known) →
    R.documents uri ∨ ¬ Known generation d uri journal →
      ¬ R.files ⟨journal.transactionToken, .backup⟩ ∧ ¬ R.journals journal.transactionToken

/-- A state from which a command may work in the region. -/
structure Ready (generation : Bytes → Generation) (original : Uri → Bytes) (R : Region)
    (d : Device) : Prop where
  sound : Sound generation original d
  clear : Clear generation R d

/-- One region within another. -/
structure Region.Le (R R' : Region) : Prop where
  documents : ∀ uri, R.documents uri → R'.documents uri
  files : ∀ file, R.files file → R'.files file
  journals : ∀ token, R.journals token → R'.journals token
  sources : ∀ token record, R.sources token record → R'.sources token record
  saves : ∀ save, R.saves save → R'.saves save

theorem SourceRecord.Le.rfl {record : SourceRecord} : record.Le record :=
  ⟨by rfl, id⟩

theorem SourceRecord.Le.trans {r r' r'' : SourceRecord} (h : r.Le r') (h' : r'.Le r'') : r.Le r'' :=
  ⟨h'.uri.trans h.uri, fun hr => h'.required (h.required hr)⟩

section Frames
variable {R R' : Region} {d d' d'' : Device}

theorem Frame.rfl : Frame R d d where
  documents := fun _ _ => by rfl
  announced := by rfl
  issued := fun _ h => h
  files := fun _ _ => by rfl
  journals := fun _ _ => by rfl
  sources := fun _ record h => ⟨record, .rfl, .inl h⟩
  saves := fun _ _ h => .inl h
  consistent := fun _ _ h => .inl h

theorem Frame.trans (h : Frame R d d') (h' : Frame R d' d'') : Frame R d d'' where
  documents := fun uri hu => (h'.documents uri hu).trans (h.documents uri hu)
  announced := h'.announced.trans h.announced
  issued := fun token ht => h'.issued token (h.issued token ht)
  files := fun file hf => (h'.files file hf).trans (h.files file hf)
  journals := fun token ht => (h'.journals token ht).trans (h.journals token ht)
  sources := fun token record'' hr => by
    obtain ⟨record', hle', hr' | ⟨hissued, hnew⟩⟩ := h'.sources token record'' hr
    · obtain ⟨record, hle, hr | ⟨hissued, hnew⟩⟩ := h.sources token record' hr'
      · exact ⟨record, hle.trans hle', .inl hr⟩
      · exact ⟨record, hle.trans hle', .inr ⟨h'.issued token hissued, hnew⟩⟩
    · exact ⟨record', hle', .inr ⟨hissued, hnew⟩⟩
  saves := fun token save hs => by
    rcases h'.saves token save hs with hs | hs
    · rcases h.saves token save hs with hs | ⟨htoken, hissued, hnew⟩
      · exact .inl hs
      · exact .inr ⟨htoken, h'.issued token hissued, hnew⟩
    · exact .inr hs
  consistent := fun token journal hj => by
    rcases h'.consistent token journal hj with hj | hj
    · exact h.consistent token journal hj
    · exact .inr hj

theorem Frame.widen (h : Frame R d d') (hle : R.Le R') : Frame R' d d' where
  documents := fun uri hu => h.documents uri fun hr => hu (hle.documents uri hr)
  announced := h.announced
  issued := h.issued
  files := fun file hf => h.files file fun hr => hf (hle.files file hr)
  journals := fun token ht => h.journals token fun hr => ht (hle.journals token hr)
  sources := fun token record' hr => by
    obtain ⟨record, hrecord, hr | ⟨hissued, hnew⟩⟩ := h.sources token record' hr
    · exact ⟨record, hrecord, .inl hr⟩
    · exact ⟨record, hrecord, .inr ⟨hissued, hle.sources token record hnew⟩⟩
  saves := fun token save hs => by
    rcases h.saves token save hs with hs | ⟨htoken, hissued, hnew⟩
    · exact .inl hs
    · exact .inr ⟨htoken, hissued, hle.saves save hnew⟩
  consistent := h.consistent

theorem Frame.known_iff (h : Frame R d d') {uri : Uri} (huri : ¬ R.documents uri)
    {journal : RecoveryJournal} :
    Known generation d' uri journal ↔ Known generation d uri journal := by
  rw [Known, Known, h.documents uri huri]

theorem Kept.frame {uri : Uri} {journal : RecoveryJournal} {known : List OpaqueId}
    (hkept : Kept generation d journal) (hsound : Sound generation original d)
    (hann : d.announced uri = some (journal, known))
    (hspared : ¬ R.files ⟨journal.transactionToken, .backup⟩ ∧
      ¬ R.journals journal.transactionToken) (h : Frame R d d') : Kept generation d' journal := by
  obtain ⟨-, -, hconsistent, -⟩ := hsound.announced uri journal known hann
  obtain ⟨hjournal, content, hcontent, hgen⟩ := hkept
  refine ⟨(h.journals _ hspared.2).trans hjournal, content, ?_, hgen⟩
  rw [h.files _ ((isSelfConsistent_iff.mp hconsistent).2.1 ▸ hspared.1), hcontent]

theorem Sound.frame (hsound : Sound generation original d) (hclear : Clear generation R d)
    (h : Frame R d d') : Sound generation original d' where
  untouched := by
    intro uri hann
    rw [h.announced] at hann
    have huri : ¬ R.documents uri := fun hin => by
      obtain ⟨journal, known, hsome, -⟩ := hclear.armed uri hin
      simp [hann] at hsome
    rw [h.documents uri huri, hsound.untouched uri hann]
  kept := by
    intro uri journal known hann hunknown
    rw [h.announced] at hann
    by_cases huri : R.documents uri
    · obtain ⟨journal', known', hann', hkept⟩ := hclear.armed uri huri
      cases hann.symm.trans hann'
      exact hkept.frame hsound hann (hclear.spared uri journal known hann (.inl huri)) h
    · rw [h.known_iff huri] at hunknown
      have hkept := hsound.kept uri journal known hann hunknown
      exact hkept.frame hsound hann (hclear.spared uri journal known hann (.inr hunknown)) h
  announced := by
    intro uri journal known hann
    rw [h.announced] at hann
    obtain ⟨huri, hphase, hconsistent, hissued⟩ := hsound.announced uri journal known hann
    exact ⟨huri, hphase, hconsistent, h.issued _ hissued⟩
  consistent := by
    intro token journal hj
    rcases h.consistent token journal hj with hj | hj
    · exact hsound.consistent token journal hj
    · exact hj

theorem Clear.frame (hclear : Clear generation R d) (hsound : Sound generation original d)
    (h : Frame R d d') : Clear generation R d' where
  armed := by
    intro uri huri
    obtain ⟨journal, known, hann, hkept⟩ := hclear.armed uri huri
    refine ⟨journal, known, h.announced ▸ hann, ?_⟩
    exact hkept.frame hsound hann (hclear.spared uri journal known hann (.inl huri)) h
  spared := by
    intro uri journal known hann hneeded
    rw [h.announced] at hann
    refine hclear.spared uri journal known hann ?_
    by_cases huri : R.documents uri
    · exact .inl huri
    · exact .inr ((h.known_iff huri).not.mp (hneeded.resolve_left huri))

theorem Clear.mono (h : Clear generation R' d) (hle : R.Le R') : Clear generation R d where
  armed := fun uri huri => h.armed uri (hle.documents uri huri)
  spared := fun uri journal known hann hneeded => by
    obtain ⟨hfiles, hjournals⟩ := h.spared uri journal known hann
      (hneeded.imp_left (hle.documents uri))
    exact ⟨fun hin => hfiles (hle.files _ hin), fun hin => hjournals (hle.journals _ hin)⟩

theorem Ready.frame (h : Ready generation original R d) (hframe : Frame R d d') :
    Ready generation original R d' :=
  ⟨h.sound.frame h.clear hframe, h.clear.frame h.sound hframe⟩

theorem Ready.mono (h : Ready generation original R' d) (hle : R.Le R') :
    Ready generation original R d :=
  ⟨h.sound, h.clear.mono hle⟩

theorem frame_setFile {file : TransactionFile} {content : Option Bytes} (h : R.files file) :
    Frame R d (d.setFile file content) :=
  { (Frame.rfl : Frame R d d) with
    files := fun other hother => Function.update_of_ne (fun heq => hother (by rwa [heq])) _ _ }

theorem frame_setDocument {uri : Uri} {content : Bytes} (h : R.documents uri) :
    Frame R d (d.setDocument uri content) :=
  { (Frame.rfl : Frame R d d) with
    documents := fun other hother => Function.update_of_ne (fun heq => hother (by rwa [heq])) _ _ }

theorem frame_setJournal {journal : RecoveryJournal} (h : R.journals journal.transactionToken)
    (hphase : journal.phase = .prepared)
    (hconsistent : journal.isSelfConsistent journal.transactionToken = true) :
    Frame R d (d.setJournal journal) :=
  { (Frame.rfl : Frame R d d) with
    announced := by simp [Device.setJournal, hphase]
    journals := fun token ht => Function.update_of_ne (fun heq => ht (by rwa [heq])) _ _
    consistent := fun token found hfound => by
      by_cases heq : token = journal.transactionToken
      · subst heq
        simp only [Device.setJournal, Function.update_self, Option.some.injEq] at hfound
        exact .inr (hfound ▸ hconsistent)
      · exact .inl ((Function.update_of_ne heq _ _).symm.trans hfound) }

theorem frame_dropJournal {token : OpaqueId} (h : R.journals token) :
    Frame R d (d.dropJournal token) :=
  { (Frame.rfl : Frame R d d) with
    journals := fun other hother => Function.update_of_ne (fun heq => hother (by rwa [heq])) _ _
    consistent := fun other found hfound => by
      by_cases heq : other = token
      · simp [Device.dropJournal, heq] at hfound
      · exact .inl ((Function.update_of_ne heq _ _).symm.trans hfound) }

theorem frame_putSource {token : OpaqueId} {record : SourceRecord} (hissued : token ∈ d.issued)
    (h : R.sources token record) : Frame R d (d.setSource token (some record)) :=
  { (Frame.rfl : Frame R d d) with
    sources := fun other found hfound => by
      by_cases heq : other = token
      · subst heq
        simp only [Device.setSource, Function.update_self, Option.some.injEq] at hfound
        exact ⟨record, hfound ▸ .rfl, .inr ⟨hissued, h⟩⟩
      · exact ⟨found, .rfl, .inl ((Function.update_of_ne heq _ _).symm.trans hfound)⟩ }

/-- A record that is changed only as records may be, or removed. -/
theorem frame_setSource {token : OpaqueId} {record : Option SourceRecord}
    (h : ∀ record' ∈ record, ∃ old, old.Le record' ∧ d.sources token = some old) :
    Frame R d (d.setSource token record) :=
  { (Frame.rfl : Frame R d d) with
    sources := fun other found hfound => by
      by_cases heq : other = token
      · subst heq
        simp only [Device.setSource, Function.update_self] at hfound
        obtain ⟨old, hle, hold⟩ := h found hfound
        exact ⟨old, hle, .inl hold⟩
      · exact ⟨found, .rfl, .inl ((Function.update_of_ne heq _ _).symm.trans hfound)⟩ }

theorem frame_putSave {save : SaveRecord} (hissued : save.token ∈ d.issued) (h : R.saves save) :
    Frame R d (d.setSave save.token (some save)) :=
  { (Frame.rfl : Frame R d d) with
    saves := fun other found hfound => by
      by_cases heq : other = save.token
      · subst heq
        simp only [Device.setSave, Function.update_self, Option.some.injEq] at hfound
        exact hfound ▸ .inr ⟨by rfl, hissued, h⟩
      · exact .inl ((Function.update_of_ne heq _ _).symm.trans hfound) }

theorem frame_removeSave {token : OpaqueId} : Frame R d (d.setSave token none) :=
  { (Frame.rfl : Frame R d d) with
    saves := fun other found hfound => by
      by_cases heq : other = token
      · simp [Device.setSave, heq] at hfound
      · exact .inl ((Function.update_of_ne heq _ _).symm.trans hfound) }

/-- What an effect inside a region may have done when it throws. -/
theorem torn_frame {effect : Effect} (hinside : effect.inside R d) (h : Torn d effect d') :
    Frame R d d' := by
  cases effect with
  | writeFile file content =>
    rcases h with rfl | ⟨part, -, rfl⟩
    · exact .rfl
    · exact frame_setFile hinside
  | deleteFile file =>
    rcases h with rfl | rfl
    · exact .rfl
    · exact frame_setFile hinside
  | renameFile source destination =>
    rcases h with rfl | rfl
    · exact .rfl
    · exact (frame_setFile hinside.2).trans (frame_setFile hinside.1)
  | writeJournal journal =>
    rcases h with rfl | rfl
    · exact .rfl
    · exact frame_setJournal hinside.1 hinside.2.1 hinside.2.2
  | deleteJournal token =>
    rcases h with rfl | rfl
    · exact .rfl
    · exact frame_dropJournal hinside
  | openForWriting uri =>
    rcases h with rfl | rfl
    · exact .rfl
    · exact frame_setDocument hinside
  | writeDocument uri content =>
    rcases h with rfl | ⟨part, -, rfl⟩
    · exact .rfl
    · exact frame_setDocument hinside
  | _ =>
    cases h
    exact .rfl

theorem performs_frame {effect : Effect} {answer : Answer effect} (hinside : effect.inside R d)
    (h : Performs d effect answer d') : Frame R d d' := by
  cases effect with
  | opaqueId =>
    obtain ⟨-, rfl⟩ := h
    exact { (Frame.rfl : Frame R d d) with
      issued := fun token ht => List.mem_cons_of_mem _ ht
      sources := fun _ record h => ⟨record, .rfl, .inl h⟩
      saves := fun _ _ h => .inl h }
  | writeFile file content =>
    cases answer with
    | none => exact torn_frame hinside h
    | some _ =>
      cases h
      exact frame_setFile hinside
  | deleteFile file =>
    cases answer <;> cases h
    · exact .rfl
    · exact frame_setFile hinside
  | renameFile source destination =>
    cases answer <;> cases h
    · exact .rfl
    · exact (frame_setFile hinside.2).trans (frame_setFile hinside.1)
  | writeJournal journal =>
    cases answer with
    | none => exact torn_frame hinside h
    | some _ =>
      cases h
      exact frame_setJournal hinside.1 hinside.2.1 hinside.2.2
  | deleteJournal token =>
    cases answer <;> cases h
    · exact .rfl
    · exact frame_dropJournal hinside
  | openForWriting uri =>
    cases answer with
    | none => exact torn_frame hinside h
    | some _ =>
      cases h
      exact frame_setDocument hinside
  | writeDocument uri content =>
    cases answer with
    | none => exact torn_frame hinside h
    | some _ =>
      cases h
      exact frame_setDocument hinside
  | putSource token record => cases h; exact frame_putSource hinside.1 hinside.2
  | setRecoveryRequired token required =>
    cases h
    cases hinside
    refine frame_setSource fun record' hrecord' => ?_
    obtain ⟨old, hold, rfl⟩ := Option.map_eq_some_iff.mp hrecord'
    exact ⟨old, ⟨by rfl, fun _ => by rfl⟩, hold⟩
  | removeSource token => cases h; exact frame_setSource (by simp)
  | putSave save => cases h; exact frame_putSave hinside.1 hinside.2
  | removeSave token => cases h; exact frame_removeSave
  | putRead token source => cases h; exact { (Frame.rfl : Frame R d d) with }
  | removeRead token => obtain ⟨-, rfl⟩ := h; exact { (Frame.rfl : Frame R d d) with }
  | removeReadsOf source => obtain ⟨-, rfl⟩ := h; exact { (Frame.rfl : Frame R d d) with }
  | managedFile file mustExist => obtain ⟨rfl, -⟩ := h; exact .rfl
  | readFile file => obtain ⟨rfl, -⟩ := h; exact .rfl
  | fileExists file => obtain ⟨rfl, -⟩ := h; exact .rfl
  | readJournal token => obtain ⟨rfl, -⟩ := h; exact .rfl
  | listJournals => obtain ⟨rfl, -⟩ := h; exact .rfl
  | readDocument uri => obtain ⟨rfl, -⟩ := h; exact .rfl
  | getSource token => obtain ⟨rfl, -⟩ := h; exact .rfl
  | getSave token => obtain ⟨rfl, -⟩ := h; exact .rfl
  | transactionDirectory => cases h; exact .rfl
  | hasTransactionDirectory => cases h; exact .rfl
  | listFiles => cases h; exact .rfl
  | stageImport uri => cases h; exact .rfl
  | queryDisplayName uri => cases h; exact .rfl
  | releaseGrant uri => cases h; exact .rfl

end Frames

/-! ## Commands in a region -/

/-- Requests are made in sound states, and leave one even if the process dies in them. -/
def machine (generation : Bytes → Generation) (original : Uri → Bytes) :
    Program.Machine Effect Answer Device where
  step := Performs
  permits d effect := Sound generation original d ∧
    ∀ d', Torn d effect d' → Sound generation original d'

def Region.discipline (generation : Bytes → Generation) (original : Uri → Bytes) (R : Region) :
    Discipline Device where
  frame := Frame R
  ready := Ready generation original R
  frame_refl _ := .rfl
  frame_trans := Frame.trans
  ready_frame := Ready.frame

/-- The command stays in the region, and what it returns satisfies `F`. -/
abbrev Inside (generation : Bytes → Generation) (original : Uri → Bytes) {α : Type} (R : Region)
    (p : Command α) (d : Device) (F : Device → α → Prop) : Prop :=
  Framed (machine generation original) (R.discipline generation original) p d F

section Inside
variable {R R' : Region} {d d' : Device} {α β : Type} {F : Device → α → Prop}

theorem inside_perform (effect : Effect) (hinside : effect.inside R d) :
    Inside generation original R (perform effect) d fun t answer => Performs d effect answer t :=
  Program.framed_request
    (fun hready => ⟨hready.sound, fun _ ht =>
      hready.sound.frame hready.clear (torn_frame hinside ht)⟩)
    fun _ _ ht => ⟨performs_frame hinside ht, ht⟩

theorem inside_perform_any (effect : Effect) (hinside : effect.inside R d) :
    Inside generation original R (perform effect) d fun _ _ => True :=
  (inside_perform effect hinside).weaken fun _ _ _ _ _ => trivial

theorem inside_orThrow {found : Option α} (h : ∀ a, found = some a → F d a) :
    Inside generation original R (orThrow found) d F := by
  cases found with
  | none => exact Program.framed_throw
  | some a => exact Program.framed_pure (h a rfl)

/-- What may throw ends the command. -/
theorem inside_attempt {p : Command (Option α)} {F : Device → Option α → Prop}
    {k : α → Command β} {G : Device → β → Prop} (h : Inside generation original R p d F)
    (hk : ∀ t a, Ready generation original R t → Frame R d t → F t (some a) →
      Inside generation original R (k a) t G) :
    Inside generation original R (p >>= fun found => orThrow found >>= k) d G := by
  refine h.bind fun t found ht hframe hF => ?_
  refine (inside_orThrow (F := fun u a => u = t ∧ found = some a) fun a ha => ⟨rfl, ha⟩).bind
    fun u a _ _ hu => ?_
  obtain ⟨rfl, rfl⟩ := hu
  exact hk u a ht hframe hF

theorem inside_attempt_last {p : Command (Option α)} {F : Device → Option α → Prop}
    {G : Device → α → Prop} (h : Inside generation original R p d F)
    (hG : ∀ t a, Frame R d t → F t (some a) → G t a) :
    Inside generation original R (p >>= fun found => orThrow found) d G :=
  h.bind fun t _ _ hframe hF => inside_orThrow fun a ha => hG t a hframe (ha ▸ hF)

theorem Inside.widen {p : Command α} (h : Inside generation original R p d F) (hle : R.Le R') :
    Inside generation original R' p d fun t a => Frame R d t ∧ F t a :=
  Framed.widen h (fun hready => hready.mono hle) fun _ hframe => hframe.widen hle

end Inside

end NianPass.Android.VaultSource
