import NianPass.Lib.Program

/-
  Saving a vault into an Android document.

  The plugin keeps four private files and a journal for each save and writes the
  document in place. Its commands are programs over the effects below, with an
  exception wherever the platform may throw; `Performs` says what an effect does
  to the device and `Torn` what it leaves when the process dies in it. The
  coordinator issues the commands of one save after the other, other commands
  come in between, and the process may die anywhere and start again.

  Assumed of the platform: a journal is replaced as a whole, and the private
  directory can be read (the journals in it are listed and a journal that is
  there is read back). Everything else may fail: a deletion, a rename, a private
  write that leaves a part, a write to the document that stops after any prefix.

  `announced` and `issued` belong to nobody; they record, for each document, the
  last journal that said that writing it has started, with the ids issued until
  then, and every id issued so far.
-/
namespace NianPass.Android.VaultSource

abbrev Bytes := List UInt8
abbrev Uri := String

/-- An id from `VaultSourcePolicy.opaqueId`. -/
abbrev OpaqueId := ℕ

/-- The size and the digest of a content, as one string. -/
abbrev Generation := String

inductive Suffix where
  | current
  | candidate
  | backup
  | readback
  | check
  | read
  | unfinished
  deriving DecidableEq, Repr

/-- `$token.$suffix` in the transaction directory. -/
structure TransactionFile where
  token : OpaqueId
  suffix : Suffix
  deriving DecidableEq, Repr

inductive SavePhase where
  | prepared
  | writeStarted
  deriving DecidableEq, Repr

structure RecoveryJournal where
  transactionToken : OpaqueId
  sourceUri : Uri
  baseline : Generation
  candidate : Generation
  backupPath : TransactionFile
  candidatePath : TransactionFile
  readBackPath : TransactionFile
  phase : SavePhase
  deriving DecidableEq, Repr

def RecoveryJournal.isSelfConsistent (token : OpaqueId) (journal : RecoveryJournal) : Bool :=
  journal.transactionToken = token && journal.backupPath = ⟨token, .backup⟩ &&
    journal.candidatePath = ⟨token, .candidate⟩ && journal.readBackPath = ⟨token, .readback⟩

/-- A selected document. The record is known by the token under which it was selected. -/
structure SourceRecord where
  uri : Uri
  writable : Bool
  recoveryRequired : Bool
  deriving DecidableEq, Repr

/-- A save that was prepared: `source` is the record it was prepared for, `uri` its document. -/
structure SaveRecord where
  token : OpaqueId
  source : OpaqueId
  uri : Uri
  current : TransactionFile
  candidate : TransactionFile
  backup : TransactionFile
  readBack : TransactionFile
  deriving DecidableEq, Repr

/-! ## Effects -/

inductive Effect where
  | opaqueId
  | transactionDirectory
  | hasTransactionDirectory
  | managedFile (file : TransactionFile) (mustExist : Bool)
  | readFile (file : TransactionFile)
  | writeFile (file : TransactionFile) (content : Bytes)
  | fileExists (file : TransactionFile)
  | deleteFile (file : TransactionFile)
  | renameFile (source destination : TransactionFile)
  | listFiles
  | readJournal (token : OpaqueId)
  | writeJournal (journal : RecoveryJournal)
  | deleteJournal (token : OpaqueId)
  | listJournals
  | stageImport (uri : Uri)
  | queryDisplayName (uri : Uri)
  | readDocument (uri : Uri)
  | openForWriting (uri : Uri)
  | writeDocument (uri : Uri) (content : Bytes)
  | releaseGrant (uri : Uri)
  | getSource (token : OpaqueId)
  | putSource (token : OpaqueId) (record : SourceRecord)
  | setRecoveryRequired (token : OpaqueId) (required : Bool)
  | removeSource (token : OpaqueId)
  | getSave (token : OpaqueId)
  | putSave (save : SaveRecord)
  | removeSave (token : OpaqueId)
  | putRead (token source : OpaqueId)
  | removeRead (token : OpaqueId)
  | removeReadsOf (source : OpaqueId)

/-- What an effect answers; where it may throw, `none` is the exception. -/
abbrev Answer : Effect → Type
  | .opaqueId => OpaqueId
  | .transactionDirectory => Option Unit
  | .hasTransactionDirectory => Bool
  | .managedFile _ _ => Option Unit
  | .readFile _ => Option Bytes
  | .writeFile _ _ => Option Unit
  | .fileExists _ => Bool
  | .deleteFile _ => Bool
  | .renameFile _ _ => Bool
  | .listFiles => List TransactionFile
  | .readJournal _ => Option RecoveryJournal
  | .writeJournal _ => Option Unit
  | .deleteJournal _ => Bool
  | .listJournals => List OpaqueId
  | .stageImport _ => Option Unit
  | .queryDisplayName _ => Option Unit
  | .readDocument _ => Option Bytes
  | .openForWriting _ => Option Unit
  | .writeDocument _ _ => Option Unit
  | .releaseGrant _ => Bool
  | .getSource _ => Option SourceRecord
  | .putSource _ _ => Unit
  | .setRecoveryRequired _ _ => Unit
  | .removeSource _ => Unit
  | .getSave _ => Option SaveRecord
  | .putSave _ => Unit
  | .removeSave _ => Unit
  | .putRead _ _ => Unit
  | .removeRead _ => Option OpaqueId
  | .removeReadsOf _ => List OpaqueId

inductive Failure where
  | exception
  deriving DecidableEq, Repr

abbrev Command (α : Type) := ExceptT Failure (Program Effect Answer) α

def perform (effect : Effect) : Command (Answer effect) :=
  liftM (Program.request (R := Answer) effect)

def orThrow {α : Type} : Option α → Command α
  | some a => pure a
  | none => throw .exception

/-! ## Private files -/

def transactionDirectory : Command Unit := do
  orThrow (← perform .transactionDirectory)

def managedTransactionFile (file : TransactionFile) (mustExist : Bool) :
    Command TransactionFile := do
  let _ ← orThrow (← perform (.managedFile file mustExist))
  return file

variable (generation : Bytes → Generation)

def fingerprint (file : TransactionFile) : Command Generation := do
  let content ← orThrow (← perform (.readFile file))
  return generation content

def stageProvider (uri : Uri) (suffix : Suffix) (opaqueId : OpaqueId) (replace : Bool) :
    Command TransactionFile := do
  let completed ← managedTransactionFile ⟨opaqueId, suffix⟩ false
  let unfinished ← managedTransactionFile ⟨opaqueId, .unfinished⟩ false
  let _ ← (if replace then perform (.deleteFile completed) else pure false : Command Bool)
  let _ ← perform (.deleteFile unfinished)
  tryCatch
    (do
      let content ← orThrow (← perform (.readDocument uri))
      orThrow (← perform (.writeFile unfinished content))
      let renamed ← perform (.renameFile unfinished completed)
      if renamed then return completed else throw .exception)
    fun error => do
      let _ ← perform (.deleteFile unfinished)
      let _ ← perform (.deleteFile completed)
      throw error

def writeProvider (uri : Uri) (candidate : TransactionFile) : Command Unit := do
  orThrow (← perform (.openForWriting uri))
  let content ← orThrow (← perform (.readFile candidate))
  orThrow (← perform (.writeDocument uri content))

def copyFileVerified (source destination : TransactionFile) (expected : Generation) :
    Command Unit := do
  let _ ← perform (.deleteFile destination)
  let content ← orThrow (← perform (.readFile source))
  orThrow (← perform (.writeFile destination content))
  let found ← fingerprint generation destination
  if found ≠ expected then throw .exception else return

/-! ## The journal -/

def readJournal (token : OpaqueId) : Command (Option RecoveryJournal) := do
  let stored ← perform (.readJournal token)
  return stored.filter (·.isSelfConsistent token)

def readEach : List OpaqueId → Command (List (OpaqueId × Option RecoveryJournal))
  | [] => return []
  | token :: names => do
    let journal ← readJournal token
    let rest ← readEach names
    return (token, journal) :: rest

def listJournals : Command (List (OpaqueId × Option RecoveryJournal)) := do
  let names ← perform .listJournals
  readEach names

inductive RecoveryDecision where
  | originalKnown
  | candidateKnown
  | requiresReconciliation
  deriving DecidableEq, Repr

def recoveryDecision (current baseline candidate : Generation) : RecoveryDecision :=
  if current = baseline then .originalKnown
  else if current = candidate then .candidateKnown
  else .requiresReconciliation

/-! ## Cleaning up -/

def deleteAll : List TransactionFile → Bool → Command Bool
  | [], complete => return complete
  | file :: files, complete => do
    let found ← perform (.fileExists file)
    let gone ← (if found then perform (.deleteFile file) else pure true : Command Bool)
    deleteAll files (complete && gone)

def cleanupSave (save : SaveRecord) (deleteJournal : Bool) : Command Bool := do
  let complete ← deleteAll [save.current, save.candidate, save.backup, save.readBack] true
  let gone ← (if deleteJournal then do
      transactionDirectory
      perform (.deleteJournal save.token)
    else pure true : Command Bool)
  perform (.removeSave save.token)
  return complete && gone

/-- The loop whose body swallows its exceptions. -/
def deleteManaged : List TransactionFile → Command Unit
  | [] => return
  | path :: paths => do
    tryCatch
      (do
        transactionDirectory
        let file ← managedTransactionFile path false
        let _ ← perform (.deleteFile file)
        return)
      fun _ => return
    deleteManaged paths

def cleanupJournalFiles (journal : RecoveryJournal) : Command Unit := do
  deleteManaged [journal.backupPath, journal.candidatePath, journal.readBackPath]
  transactionDirectory
  let current ← managedTransactionFile ⟨journal.transactionToken, .current⟩ false
  let _ ← perform (.deleteFile current)
  return

/-- The loop of `reconcileKnownTransactions`. -/
def reconcileAll (uri : Uri) : List (OpaqueId × Option RecoveryJournal) → Command Bool
  | [] => return false
  | (_, none) :: _ => return true
  | (token, some journal) :: journals =>
    if journal.sourceUri ≠ uri then reconcileAll uri journals
    else do
      let current ← tryCatch
        (do
          let id ← perform .opaqueId
          let check ← stageProvider uri .check id false
          let identity ← fingerprint generation check
          let _ ← perform (.deleteFile check)
          return some identity)
        fun _ => return none
      match current with
      | none => return true
      | some current =>
        if recoveryDecision current journal.baseline journal.candidate =
            .requiresReconciliation then
          return true
        else do
          cleanupJournalFiles journal
          let _ ← perform (.deleteJournal journal.transactionToken)
          -- `journalFile.delete()`, for the file that was listed
          let _ ← perform (.deleteJournal token)
          reconcileAll uri journals

def reconcileKnownTransactions (uri : Uri) : Command Bool := do
  transactionDirectory
  let journals ← listJournals
  reconcileAll generation uri journals

def RecoveryJournal.retained (journal : RecoveryJournal) : List TransactionFile :=
  [journal.backupPath, journal.candidatePath, journal.readBackPath,
    ⟨journal.transactionToken, .current⟩]

def deleteUnowned (retained : List TransactionFile) : List TransactionFile → Command Unit
  | [] => return
  | candidate :: candidates => do
    let _ ← (if candidate ∈ retained then pure false
      else perform (.deleteFile candidate) : Command Bool)
    deleteUnowned retained candidates

/-- What `load` does in the transaction directory. -/
def cleanupUnownedTransactionFiles : Command Unit := do
  let found ← perform .hasTransactionDirectory
  if !found then return
  else do
    let journals ← listJournals
    if journals.any (·.2.isNone) then return
    else do
      let candidates ← perform .listFiles
      deleteUnowned ((journals.filterMap (·.2)).flatMap (·.retained)) candidates

/-! ## The commands of the plugin -/

/-- `^(0|[1-9][0-9]*):[0-9a-f]{64}$`. -/
def isGeneration (value : Generation) : Bool :=
  match value.toList.splitOn ':' with
  | [size, digest] =>
    (size == ['0'] ||
      match size with
      | first :: rest => '1' ≤ first && first ≤ '9' && rest.all Char.isDigit
      | [] => false) &&
    digest.length == 64 && digest.all fun c => c.isDigit || ('a' ≤ c && c ≤ 'f')
  | _ => false

inductive Status where
  | ok
  | failed
  | recoveryRequired
  | persistenceUnsupported
  | pickerFailed
  | externalChange
  | saveFailed
  | saveUncertain
  | selected (sourceToken : OpaqueId) (writable recoveryRequired : Bool)
  | prepared (transactionToken : OpaqueId) (currentPath candidatePath : TransactionFile)
  | staged (readToken : OpaqueId) (stagedPath : TransactionFile)
  | verified (readBackPath : TransactionFile)
  deriving DecidableEq, Repr

def requireSource (token : OpaqueId) : Command SourceRecord := do
  orThrow (← perform (.getSource token))

/-- `writable` is what the grants of the selection come to. -/
def selectionResult (uri : Uri) (writable : Bool) : Command Status :=
  tryCatch
    (do
      orThrow (← perform (.stageImport uri))
      let token ← perform .opaqueId
      let recoveryRequired ← reconcileKnownTransactions generation uri
      orThrow (← perform (.queryDisplayName uri))
      perform (.putSource token ⟨uri, writable, recoveryRequired⟩)
      orThrow (← perform (.queryDisplayName uri))
      return .selected token writable recoveryRequired)
    fun _ => return .pickerFailed

def prepareSave (sourceToken : OpaqueId) : Command Status :=
  tryCatch
    (do
      let source ← requireSource sourceToken
      if source.recoveryRequired then return .recoveryRequired
      else if !source.writable then return .persistenceUnsupported
      else do
        transactionDirectory
        let token ← perform .opaqueId
        let current ← stageProvider source.uri .current token false
        let candidate ← managedTransactionFile ⟨token, .candidate⟩ false
        let backup ← managedTransactionFile ⟨token, .backup⟩ false
        let readBack ← managedTransactionFile ⟨token, .readback⟩ false
        perform (.putSave ⟨token, sourceToken, source.uri, current, candidate, backup, readBack⟩)
        return .prepared token current candidate)
    fun _ => return .failed

/-- The journal of a save. -/
def SaveRecord.journal (save : SaveRecord) (baseline candidateIdentity : Generation)
    (phase : SavePhase) : RecoveryJournal where
  transactionToken := save.token
  sourceUri := save.uri
  baseline := baseline
  candidate := candidateIdentity
  backupPath := save.backup
  candidatePath := save.candidate
  readBackPath := save.readBack
  phase := phase

/-- `commitCandidate` up to its final check; a status is an early end. -/
def checkCandidate (save : SaveRecord) (baseline candidateIdentity : Generation) :
    Command (Option Status) := do
  transactionDirectory
  let _ ← managedTransactionFile save.candidate true
  let candidateFound ← fingerprint generation save.candidate
  if candidateFound ≠ candidateIdentity then do
    let _ ← cleanupSave save true
    return some .saveFailed
  else do
    let currentFound ← fingerprint generation save.current
    if currentFound ≠ baseline then do
      let _ ← cleanupSave save true
      return some .externalChange
    else do
      copyFileVerified generation save.current save.backup baseline
      orThrow (← perform (.writeJournal (save.journal baseline candidateIdentity .prepared)))
      let finalCheck ← stageProvider save.uri .check save.token false
      let finalFound ← fingerprint generation finalCheck
      let _ ← perform (.deleteFile finalCheck)
      if finalFound ≠ baseline then do
        let _ ← cleanupSave save true
        return some .externalChange
      else return none

/-- Up to the announcement in the journal that writing starts. -/
def announceWrite (save : SaveRecord) (baseline candidateIdentity : Generation) :
    Command (Option Status) := do
  let early ← checkCandidate generation save baseline candidateIdentity
  match early with
  | some status => return some status
  | none => do
    orThrow (← perform (.writeJournal (save.journal baseline candidateIdentity .writeStarted)))
    return none

def rollbackVerified (save : SaveRecord) (baseline : Generation) : Command Bool :=
  tryCatch
    (do
      writeProvider save.uri save.backup
      transactionDirectory
      let _ ← stageProvider save.uri .readback save.token true
      let found ← fingerprint generation save.readBack
      return found = baseline)
    fun _ => return false

/-- `commitCandidate` from there on. -/
def writeCandidate (save : SaveRecord) (baseline candidateIdentity : Generation) :
    Command Status :=
  tryCatch
    (do
      writeProvider save.uri save.candidate
      let _ ← stageProvider save.uri .readback save.token true
      let found ← fingerprint generation save.readBack
      if found = candidateIdentity then return .verified save.readBack
      else do
        perform (.setRecoveryRequired save.source true)
        return .saveUncertain)
    fun _ => do
      let rollback ← rollbackVerified generation save baseline
      if rollback then do
        let _ ← cleanupSave save true
        return .saveFailed
      else do
        perform (.setRecoveryRequired save.source true)
        return .saveUncertain

def commitCandidate (token sourceToken : OpaqueId) (baseline candidateIdentity : Generation) :
    Command Status := do
  let found ← perform (.getSave token)
  let source ← perform (.getSource sourceToken)
  match found with
  | none => return .saveFailed
  | some save =>
    if source.isNone ∨ save.source ≠ sourceToken ∨ !isGeneration baseline ∨
        !isGeneration candidateIdentity then
      return .saveFailed
    else do
      let early ← tryCatch (announceWrite generation save baseline candidateIdentity) fun _ => do
        let _ ← cleanupSave save true
        return some .saveFailed
      match early with
      | some status => return status
      | none => writeCandidate generation save baseline candidateIdentity

def finalizeSave (token sourceToken : OpaqueId) : Command Status := do
  let found ← perform (.getSave token)
  let source ← perform (.getSource sourceToken)
  match found with
  | none => return .saveUncertain
  | some save =>
    if source.isNone ∨ save.source ≠ sourceToken then return .saveUncertain
    else do
      let complete ← cleanupSave save true
      perform (.setRecoveryRequired sourceToken (!complete))
      return if complete then .ok else .saveUncertain

def abortSave (token sourceToken : OpaqueId) : Command Status := do
  let found ← perform (.getSave token)
  let source ← perform (.getSource sourceToken)
  match found with
  | none => return .failed
  | some save =>
    if source.isNone ∨ save.source ≠ sourceToken then return .failed
    else do
      transactionDirectory
      let journal ← readJournal save.token
      if journal.map (·.phase) = some .writeStarted then do
        perform (.setRecoveryRequired sourceToken true)
        return .saveUncertain
      else do
        let _ ← cleanupSave save true
        return .ok

def stageCurrent (sourceToken : OpaqueId) : Command Status :=
  tryCatch
    (do
      let source ← requireSource sourceToken
      let required ← (if source.recoveryRequired then pure true
        else reconcileKnownTransactions generation source.uri : Command Bool)
      if required then do
        perform (.setRecoveryRequired sourceToken true)
        return .recoveryRequired
      else do
        let token ← perform .opaqueId
        transactionDirectory
        let file ← stageProvider source.uri .read token false
        perform (.putRead token sourceToken)
        return .staged token file)
    fun _ => return .failed

def finishRead (sourceToken readToken : OpaqueId) : Command Status := do
  let source ← perform (.getSource sourceToken)
  let read ← perform (.removeRead readToken)
  if source.isSome ∧ read = some sourceToken then do
    let deleted ← perform (.deleteFile ⟨readToken, .read⟩)
    return if deleted then .ok else .failed
  else return .failed

def deleteReads : List OpaqueId → Command Unit
  | [] => return
  | token :: tokens => do
    let _ ← perform (.deleteFile ⟨token, .read⟩)
    deleteReads tokens

def releaseSource (token : OpaqueId) (preserveRecovery : Bool) : Command Status := do
  let found ← perform (.getSource token)
  match found with
  | none => return .failed
  | some source =>
    if source.recoveryRequired && !preserveRecovery then return .failed
    else do
      let reads ← perform (.removeReadsOf token)
      deleteReads reads
      let transitioned ← (if preserveRecovery then pure true
        else perform (.releaseGrant source.uri) : Command Bool)
      if transitioned then do
        perform (.removeSource token)
        return .ok
      else return .failed

/-- What the coordinator does between `prepareSave` and `commitCandidate`: the candidate is
written. -/
def placeCandidate (file : TransactionFile) (content : Bytes) : Command Status := do
  let written ← perform (.writeFile file content)
  return if written.isSome then .ok else .failed

/-! ## The device -/

structure Device where
  documents : Uri → Bytes
  files : TransactionFile → Option Bytes
  journals : OpaqueId → Option RecoveryJournal
  sources : OpaqueId → Option SourceRecord
  saves : OpaqueId → Option SaveRecord
  reads : OpaqueId → Option OpaqueId
  announced : Uri → Option (RecoveryJournal × List OpaqueId)
  issued : List OpaqueId

namespace Device

/-- A device on which the plugin has not run. -/
def installed (documents : Uri → Bytes) : Device where
  documents := documents
  files := fun _ => none
  journals := fun _ => none
  sources := fun _ => none
  saves := fun _ => none
  reads := fun _ => none
  announced := fun _ => none
  issued := []

def setFile (d : Device) (file : TransactionFile) (content : Option Bytes) : Device :=
  { d with files := Function.update d.files file content }

def setDocument (d : Device) (uri : Uri) (content : Bytes) : Device :=
  { d with documents := Function.update d.documents uri content }

/-- A journal replaces the one of its transaction. If it says that writing starts, this is
recorded. -/
def setJournal (d : Device) (journal : RecoveryJournal) : Device :=
  { d with
    journals := Function.update d.journals journal.transactionToken (some journal)
    announced :=
      if journal.phase = .writeStarted then
        Function.update d.announced journal.sourceUri (some (journal, d.issued))
      else d.announced }

def dropJournal (d : Device) (token : OpaqueId) : Device :=
  { d with journals := Function.update d.journals token none }

def setSource (d : Device) (token : OpaqueId) (record : Option SourceRecord) : Device :=
  { d with sources := Function.update d.sources token record }

def setSave (d : Device) (token : OpaqueId) (save : Option SaveRecord) : Device :=
  { d with saves := Function.update d.saves token save }

/-- The process died: what was in memory is gone. -/
def restarted (d : Device) : Device :=
  { d with sources := fun _ => none, saves := fun _ => none, reads := fun _ => none }

end Device

/-- What an effect that throws, or in which the process dies, may have done. -/
def Torn (d : Device) : Effect → Device → Prop
  | .writeFile file content, d' =>
    d' = d ∨ ∃ part, part <+: content ∧ d' = d.setFile file (some part)
  | .deleteFile file, d' => d' = d ∨ d' = d.setFile file none
  | .renameFile source destination, d' =>
    d' = d ∨ d' = (d.setFile destination (d.files source)).setFile source none
  | .writeJournal journal, d' => d' = d ∨ d' = d.setJournal journal
  | .deleteJournal token, d' => d' = d ∨ d' = d.dropJournal token
  | .openForWriting uri, d' => d' = d ∨ d' = d.setDocument uri []
  | .writeDocument uri content, d' =>
    d' = d ∨ ∃ part, part <+: content ∧ d' = d.setDocument uri part
  | _, d' => d' = d

def Performs (d : Device) : (effect : Effect) → Answer effect → Device → Prop
  | .opaqueId, id, d' => id ∉ d.issued ∧ d' = { d with issued := id :: d.issued }
  | .transactionDirectory, _, d' => d' = d
  | .hasTransactionDirectory, _, d' => d' = d
  | .managedFile file mustExist, answer, d' =>
    d' = d ∧ (answer.isSome → mustExist = true → (d.files file).isSome)
  | .readFile file, answer, d' =>
    d' = d ∧ ∀ content, answer = some content → d.files file = some content
  | .writeFile file content, answer, d' =>
    match answer with
    | some _ => d' = d.setFile file (some content)
    | none => Torn d (.writeFile file content) d'
  | .fileExists file, answer, d' => d' = d ∧ answer = (d.files file).isSome
  | .deleteFile file, deleted, d' => d' = if deleted then d.setFile file none else d
  | .renameFile source destination, renamed, d' =>
    d' = if renamed then (d.setFile destination (d.files source)).setFile source none else d
  | .listFiles, _, d' => d' = d
  | .readJournal token, answer, d' => d' = d ∧ answer = d.journals token
  | .writeJournal journal, answer, d' =>
    match answer with
    | some _ => d' = d.setJournal journal
    | none => Torn d (.writeJournal journal) d'
  | .deleteJournal token, deleted, d' =>
    d' = if deleted then d.dropJournal token else d
  | .listJournals, names, d' => d' = d ∧ ∀ token, token ∈ names ↔ (d.journals token).isSome
  | .stageImport _, _, d' => d' = d
  | .queryDisplayName _, _, d' => d' = d
  | .readDocument uri, answer, d' =>
    d' = d ∧ ∀ content, answer = some content → d.documents uri = content
  | .openForWriting uri, answer, d' =>
    match answer with
    | some _ => d' = d.setDocument uri []
    | none => Torn d (.openForWriting uri) d'
  | .writeDocument uri content, answer, d' =>
    match answer with
    | some _ => d' = d.setDocument uri content
    | none => Torn d (.writeDocument uri content) d'
  | .releaseGrant _, _, d' => d' = d
  | .getSource token, answer, d' => d' = d ∧ answer = d.sources token
  | .putSource token record, _, d' => d' = d.setSource token (some record)
  | .setRecoveryRequired token required, _, d' =>
    d' = d.setSource token
      ((d.sources token).map fun record => { record with recoveryRequired := required })
  | .removeSource token, _, d' => d' = d.setSource token none
  | .getSave token, answer, d' => d' = d ∧ answer = d.saves token
  | .putSave save, _, d' => d' = d.setSave save.token (some save)
  | .removeSave token, _, d' => d' = d.setSave token none
  | .putRead token source, _, d' =>
    d' = { d with reads := Function.update d.reads token (some source) }
  | .removeRead token, answer, d' =>
    answer = d.reads token ∧ d' = { d with reads := Function.update d.reads token none }
  | .removeReadsOf source, tokens, d' =>
    (∀ token, token ∈ tokens ↔ d.reads token = some source) ∧
      d' = { d with
        reads := fun token => if d.reads token = some source then none else d.reads token }

/-! ## Runs -/

/-- What the coordinator has open: nothing before the plugin is loaded, and at most one save. -/
inductive Stage where
  | starting
  | idle
  | preparing (token source : OpaqueId) (candidate : TransactionFile)
  | verified (token source : OpaqueId)
  | uncertain (token source : OpaqueId)
  deriving DecidableEq, Repr

inductive Call where
  | load
  | selectionResult (uri : Uri) (writable : Bool)
  | prepareSave (source : OpaqueId)
  | placeCandidate (content : Bytes)
  | commitCandidate (baseline candidate : Generation)
  | finalizeSave
  | abortSave
  | stageCurrent (source : OpaqueId)
  | finishRead (source read : OpaqueId)
  | releaseSource (source : OpaqueId) (preserveRecovery : Bool)
  deriving DecidableEq, Repr

/-- The command that a call is, where `run_save_transaction` may issue it. Commands that belong to
no save may come at any time. -/
def Stage.command (generation : Bytes → Generation) : Stage → Call → Option (Command Status)
  | .starting, .load => some do
    cleanupUnownedTransactionFiles
    return .ok
  | .starting, _ => none
  | _, .selectionResult uri writable => some (VaultSource.selectionResult generation uri writable)
  | _, .stageCurrent source => some (VaultSource.stageCurrent generation source)
  | _, .finishRead source read => some (VaultSource.finishRead source read)
  | _, .releaseSource source preserve => some (VaultSource.releaseSource source preserve)
  | .idle, .prepareSave source => some (VaultSource.prepareSave source)
  | .preparing _ _ file, .placeCandidate content => some (VaultSource.placeCandidate file content)
  | .preparing token source _, .commitCandidate baseline candidate =>
    some (VaultSource.commitCandidate generation token source baseline candidate)
  | .preparing token source _, .abortSave => some (VaultSource.abortSave token source)
  | .verified token source, .finalizeSave => some (VaultSource.finalizeSave token source)
  | .verified token source, .abortSave => some (VaultSource.abortSave token source)
  | .uncertain token source, .abortSave => some (VaultSource.abortSave token source)
  | _, _ => none

/-- What `run_save_transaction` makes of an answer. -/
def Stage.next : Stage → Call → Except Failure Status → Stage
  | _, .load, _ => .idle
  | .idle, .prepareSave source, .ok (.prepared token _ candidate) =>
    .preparing token source candidate
  | .preparing token source _, .commitCandidate _ _, .ok (.verified _) => .verified token source
  | .preparing token source _, .commitCandidate _ _, .ok .saveUncertain => .uncertain token source
  -- `source.rs` maps a call that threw to `SaveUncertain`
  | .preparing token source _, .commitCandidate _ _, .error _ => .uncertain token source
  | .preparing _ _ _, .commitCandidate _ _, _ => .idle
  | _, .finalizeSave, _ => .idle
  | _, .abortSave, _ => .idle
  | stage, _, _ => stage

/-- The states between two commands, from a device on which the plugin has not run. -/
inductive Reachable (generation : Bytes → Generation) (original : Uri → Bytes) :
    Stage → Device → Prop
  | installed : Reachable generation original .starting (Device.installed original)
  | call {stage d call command result d'} (run : Reachable generation original stage d)
      (issued : stage.command generation call = some command)
      (performed : Program.Reaches Performs command.run d (.done result) d') :
      Reachable generation original (stage.next call result) d'
  | death {stage d call command effect next d' d''} (run : Reachable generation original stage d)
      (issued : stage.command generation call = some command)
      (performed : Program.Reaches Performs command.run d (.ask effect next) d')
      (torn : Torn d' effect d'') : Reachable generation original .starting d''.restarted

/-- Every state, also those in a command and those in which the process dies. -/
inductive Moment (generation : Bytes → Generation) (original : Uri → Bytes) : Device → Prop
  | rest {stage d} (run : Reachable generation original stage d) : Moment generation original d
  | within {stage d call command rest d'} (run : Reachable generation original stage d)
      (issued : stage.command generation call = some command)
      (performed : Program.Reaches Performs command.run d rest d') : Moment generation original d'
  | dying {stage d call command effect next d' d''} (run : Reachable generation original stage d)
      (issued : stage.command generation call = some command)
      (performed : Program.Reaches Performs command.run d (.ask effect next) d')
      (torn : Torn d' effect d'') : Moment generation original d''

end NianPass.Android.VaultSource
