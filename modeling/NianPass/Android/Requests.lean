import NianPass.Kdbx.Model
import NianPass.Lib.Chars
import Mathlib.Tactic

/-
  The authority of autofill requests on Android: `AutofillRequestRegistry`.

  A request is registered under a random token, and candidates, again under
  random tokens, are registered for it. Completing a request takes it out, with
  all its candidates. Every call first drops what has expired; it reads the clock
  for that, and once more for what it registers.

  A completion with the candidate of another request is refused, and the request
  is put back; the candidate is not. So a refused completion may take a candidate
  from another request (`complete_takes_candidate`): exactly when it was
  misdirected in this way (`registry_authority`).
-/
namespace NianPass.Android

open Kdbx (Bytes)

inductive TargetKind where
  | app
  | web
  deriving DecidableEq, Repr

structure CredentialTarget where
  kind : TargetKind
  packageName : String
  signingIdentity : String
  webDomain : Option String := none
  deriving DecidableEq, Repr

/-- What a request asks for; `O` and `L` stand for the framework's option and fields. -/
inductive Wanted (O L : Type) where
  | credential (option : Option O)
  | autofill (fields : L)
  deriving DecidableEq, Repr

structure RequestRecord (O L : Type) where
  token : String
  target : CredentialTarget
  createdAt : Int
  wanted : Wanted O L
  deriving DecidableEq, Repr

structure CandidateAuthority where
  token : String
  requestToken : String
  entryId : String
  createdAt : Int
  deriving DecidableEq, Repr

/-- A record is stored under its token. -/
structure Registry (O L : Type) where
  requests : String → Option (RequestRecord O L) := fun _ => none
  candidates : String → Option CandidateAuthority := fun _ => none

def ttlMillis : Int := 120000

/-- `opaqueToken`. -/
def opaqueToken (random : Bytes) : String := String.ofList (random.flatMap Chars.hexByte)

variable {O L : Type}

namespace Registry

def expired (s : Registry O L) (oldest : Int) (token : String) : Bool :=
  (s.requests token).any (·.createdAt < oldest)

def cleanupExpired (s : Registry O L) (clock : Int) : Registry O L where
  requests token := if s.expired (clock - ttlMillis) token then none else s.requests token
  candidates token := (s.candidates token).filter fun candidate =>
    !(candidate.createdAt < clock - ttlMillis || s.expired (clock - ttlMillis) candidate.requestToken)

/-- `registerCredential`, `registerCredentialFulfillment` and `registerAutofill` differ in what is
wanted. -/
def register (s : Registry O L) (target : CredentialTarget) (wanted : Wanted O L) (random : Bytes)
    (clock created : Int) : String × Registry O L :=
  let s := s.cleanupExpired clock
  let token := opaqueToken random
  (token, { s with requests := Function.update s.requests token (some ⟨token, target, created, wanted⟩) })

def registerCredential (s : Registry O L) (target : CredentialTarget) (option : O) (random : Bytes)
    (clock created : Int) : String × Registry O L :=
  s.register target (.credential (some option)) random clock created

def registerCredentialFulfillment (s : Registry O L) (target : CredentialTarget) (random : Bytes)
    (clock created : Int) : String × Registry O L :=
  s.register target (.credential none) random clock created

def registerAutofill (s : Registry O L) (target : CredentialTarget) (fields : L) (random : Bytes)
    (clock created : Int) : String × Registry O L :=
  s.register target (.autofill fields) random clock created

def request (s : Registry O L) (token : String) (clock : Int) : Option (RequestRecord O L) × Registry O L :=
  let s := s.cleanupExpired clock
  (s.requests token, s)

/-- The token, or nothing where `require` throws. -/
def registerCandidate (s : Registry O L) (requestToken entryId : String) (random : Bytes)
    (clock created : Int) : Option String × Registry O L :=
  let (found, s) := s.request requestToken clock
  if found.isNone then (none, s)
  else
    let token := opaqueToken random
    (some token, { s with
      candidates := Function.update s.candidates token (some ⟨token, requestToken, entryId, created⟩) })

def candidate (s : Registry O L) (token requestToken : String) (clock : Int) :
    Option CandidateAuthority × Registry O L :=
  let s := s.cleanupExpired clock
  ((s.candidates token).filter (·.requestToken = requestToken), s)

def removeRequest (s : Registry O L) (token : String) : Registry O L :=
  { s with requests := Function.update s.requests token none }

def removeCandidate (s : Registry O L) (token : String) : Registry O L :=
  { s with candidates := Function.update s.candidates token none }

def removeCandidatesOf (s : Registry O L) (requestToken : String) : Registry O L :=
  { s with candidates := fun token => (s.candidates token).filter (·.requestToken ≠ requestToken) }

def complete (s : Registry O L) (requestToken : String) (candidateToken : Option String) (clock : Int) :
    Option (RequestRecord O L) × Registry O L :=
  let s := s.cleanupExpired clock
  match s.requests requestToken with
  | none => (none, s)
  | some record =>
    let s := s.removeRequest requestToken
    match candidateToken with
    | none => (some record, s.removeCandidatesOf requestToken)
    | some candidateToken =>
      let removed := s.candidates candidateToken
      let s := s.removeCandidate candidateToken
      if removed.map (·.requestToken) ≠ some requestToken then
        (none, { s with requests := Function.update s.requests requestToken (some record) })
      else (some record, s.removeCandidatesOf requestToken)

def cancel (s : Registry O L) (requestToken : String) : Registry O L :=
  (s.removeRequest requestToken).removeCandidatesOf requestToken

def clear : Registry O L := {}

end Registry

/-! ## Runs -/

inductive RegistryCall (O L : Type) where
  | registerCredential (target : CredentialTarget) (option : O) (random : Bytes) (clock created : Int)
  | registerCredentialFulfillment (target : CredentialTarget) (random : Bytes) (clock created : Int)
  | registerAutofill (target : CredentialTarget) (fields : L) (random : Bytes) (clock created : Int)
  | request (token : String) (clock : Int)
  | registerCandidate (requestToken entryId : String) (random : Bytes) (clock created : Int)
  | candidate (token requestToken : String) (clock : Int)
  | complete (requestToken : String) (candidateToken : Option String) (clock : Int)
  | cancel (requestToken : String)
  | clear

namespace Registry

def step (s : Registry O L) : RegistryCall O L → Registry O L
  | .registerCredential target option random clock created =>
    (s.registerCredential target option random clock created).2
  | .registerCredentialFulfillment target random clock created =>
    (s.registerCredentialFulfillment target random clock created).2
  | .registerAutofill target fields random clock created =>
    (s.registerAutofill target fields random clock created).2
  | .request token clock => (s.request token clock).2
  | .registerCandidate requestToken entryId random clock created =>
    (s.registerCandidate requestToken entryId random clock created).2
  | .candidate token requestToken clock => (s.candidate token requestToken clock).2
  | .complete requestToken candidateToken clock => (s.complete requestToken candidateToken clock).2
  | .cancel requestToken => s.cancel requestToken
  | .clear => clear

def run (s : Registry O L) (calls : List (RegistryCall O L)) : Registry O L := calls.foldl step s

/-- The call registers a request under this token. -/
def registers (token : String) : RegistryCall O L → Bool
  | .registerCredential _ _ random _ _ => opaqueToken random = token
  | .registerCredentialFulfillment _ random _ _ => opaqueToken random = token
  | .registerAutofill _ _ random _ _ => opaqueToken random = token
  | _ => false

/-- The call completes the request with this token. -/
def completes (s : Registry O L) (token : String) : RegistryCall O L → Bool
  | .complete requestToken candidateToken clock =>
    requestToken = token && (s.complete requestToken candidateToken clock).1.isSome
  | _ => false

def completions (token : String) : Registry O L → List (RegistryCall O L) → Nat
  | _, [] => 0
  | s, call :: calls => (s.completes token call).toNat + completions token (s.step call) calls

/-- The candidate token belongs to another request. -/
def Misdirected (s : Registry O L) (requestToken : String) (candidateToken : Option String) (clock : Int) :
    Prop :=
  ((s.cleanupExpired clock).requests requestToken).isSome = true ∧
  ∃ token candidate, candidateToken = some token ∧
    (s.cleanupExpired clock).candidates token = some candidate ∧ candidate.requestToken ≠ requestToken

/-! ## Candidates belong to requests -/

/-- Every candidate belongs to a request that is there. -/
def Owned (s : Registry O L) : Prop :=
  ∀ token candidate, s.candidates token = some candidate →
    (s.requests candidate.requestToken).isSome = true

variable {s : Registry O L}

theorem Owned.cleanupExpired (h : Owned s) (clock : Int) : Owned (s.cleanupExpired clock) := by
  intro token candidate hfound
  simp only [Registry.cleanupExpired, Option.filter_eq_some_iff, Bool.not_eq_true',
    Bool.or_eq_false_iff] at hfound
  obtain ⟨hfound, -, hlive⟩ := hfound
  simp only [Registry.cleanupExpired, hlive, Bool.false_eq_true, if_false]
  exact h token candidate hfound

theorem Owned.register (h : Owned s) (target : CredentialTarget) (wanted : Wanted O L) (random : Bytes)
    (clock created : Int) : Owned (s.register target wanted random clock created).2 := by
  intro token candidate hfound
  have howned := h.cleanupExpired clock token candidate hfound
  by_cases heq : candidate.requestToken = opaqueToken random
  · simp [Registry.register, heq]
  · simpa [Registry.register, heq] using howned

theorem Owned.registerCandidate (h : Owned s) (requestToken entryId : String) (random : Bytes)
    (clock created : Int) : Owned (s.registerCandidate requestToken entryId random clock created).2 := by
  have hclean := h.cleanupExpired clock
  unfold Registry.registerCandidate Registry.request
  simp only []
  split_ifs with hnone
  · exact hclean
  · intro token candidate hfound
    by_cases heq : token = opaqueToken random
    · subst heq
      obtain rfl : (⟨opaqueToken random, requestToken, entryId, created⟩ : CandidateAuthority) = candidate := by
        simpa using hfound
      simpa [Option.isSome_iff_ne_none] using hnone
    · have hold : (s.cleanupExpired clock).candidates token = some candidate := by
        simpa [heq] using hfound
      exact hclean token candidate hold

/-- Without a request, and without its candidates. -/
theorem Owned.cancel (h : Owned s) (requestToken : String) : Owned (s.cancel requestToken) := by
  intro token candidate hfound
  simp only [Registry.cancel, removeRequest, removeCandidatesOf, Option.filter_eq_some_iff,
    decide_eq_true_eq] at hfound
  obtain ⟨hfound, hother⟩ := hfound
  have howned := h token candidate hfound
  simpa [Registry.cancel, removeRequest, removeCandidatesOf, hother] using howned

theorem Owned.removeCandidate (h : Owned s) (token : String) : Owned (s.removeCandidate token) := by
  intro token' candidate hfound
  by_cases heq : token' = token
  · simp [Registry.removeCandidate, heq] at hfound
  · simp only [Registry.removeCandidate, Function.update_of_ne heq] at hfound
    exact h token' candidate hfound

/-! ## Completing -/

/-- The ways in which a completion can go, after what has expired is gone. -/
inductive Completion (clean : Registry O L) (requestToken : String) (candidateToken : Option String) :
    Option (RequestRecord O L) × Registry O L → Prop
  | unknown (gone : clean.requests requestToken = none) :
      Completion clean requestToken candidateToken (none, clean)
  | refused {record : RequestRecord O L} {token : String} (live : clean.requests requestToken = some record)
      (named : candidateToken = some token)
      (other : (clean.candidates token).map (·.requestToken) ≠ some requestToken) :
      Completion clean requestToken candidateToken (none, clean.removeCandidate token)
  | done {record : RequestRecord O L} (live : clean.requests requestToken = some record)
      (named : ∀ token, candidateToken = some token → ∃ candidate,
        clean.candidates token = some candidate ∧ candidate.requestToken = requestToken) :
      Completion clean requestToken candidateToken (some record, clean.cancel requestToken)

theorem complete_cases (s : Registry O L) (requestToken : String) (candidateToken : Option String)
    (clock : Int) :
    Completion (s.cleanupExpired clock) requestToken candidateToken
      (s.complete requestToken candidateToken clock) := by
  unfold complete
  simp only []
  generalize s.cleanupExpired clock = clean
  cases hrequest : clean.requests requestToken with
  | none => exact .unknown hrequest
  | some record =>
    cases candidateToken with
    | none => exact .done hrequest fun token h => by cases h
    | some token =>
      by_cases hother : (clean.candidates token).map (·.requestToken) = some requestToken
      · obtain ⟨candidate, hfound, hsame⟩ := Option.map_eq_some_iff.1 hother
        -- The candidate itself is one of those removed with the request.
        have hremoved : ((clean.removeRequest requestToken).removeCandidate token).removeCandidatesOf
            requestToken = clean.cancel requestToken := by
          simp only [cancel, removeCandidatesOf, removeCandidate, removeRequest, Registry.mk.injEq, true_and]
          funext token'
          by_cases heq : token' = token
          · subst heq
            simp [hfound, hsame, Option.filter_some]
          · rw [Function.update_of_ne heq]
        have hdone : Completion clean requestToken (some token)
            (some record, clean.cancel requestToken) := by
          refine .done hrequest fun token' h => ?_
          cases h
          exact ⟨candidate, hfound, hsame⟩
        rw [← hremoved] at hdone
        simp only [removeRequest, hother, ne_eq, not_true_eq_false, if_false] at hdone ⊢
        exact hdone
      · have hback : Function.update (Function.update clean.requests requestToken none) requestToken
            (some record) = clean.requests := by
          rw [Function.update_idem, ← hrequest, Function.update_eq_self]
        have hrefused : Completion clean requestToken (some token) _ := .refused hrequest rfl hother
        simp only [removeRequest, removeCandidate, hother, ne_eq, not_false_eq_true, if_true, hback] at hrefused ⊢
        exact hrefused

theorem Owned.complete (h : Owned s) (requestToken : String) (candidateToken : Option String) (clock : Int) :
    Owned (s.complete requestToken candidateToken clock).2 := by
  have hclean := h.cleanupExpired clock
  have hcases := complete_cases s requestToken candidateToken clock
  generalize s.complete requestToken candidateToken clock = result at hcases
  cases hcases with
  | unknown gone => exact hclean
  | refused live named other => exact hclean.removeCandidate _
  | done live named => exact hclean.cancel requestToken

theorem Owned.step (h : Owned s) (call : RegistryCall O L) : Owned (s.step call) := by
  cases call with
  | registerCredential target option random clock created => exact h.register _ _ _ _ _
  | registerCredentialFulfillment target random clock created => exact h.register _ _ _ _ _
  | registerAutofill target fields random clock created => exact h.register _ _ _ _ _
  | request token clock => exact h.cleanupExpired clock
  | registerCandidate requestToken entryId random clock created => exact h.registerCandidate _ _ _ _ _
  | candidate token requestToken clock => exact h.cleanupExpired clock
  | complete requestToken candidateToken clock => exact h.complete _ _ _
  | cancel requestToken => exact h.cancel requestToken
  | clear => exact fun token candidate hfound => by cases hfound

theorem Owned.run (h : Owned s) (calls : List (RegistryCall O L)) : Owned (s.run calls) := by
  induction calls generalizing s with
  | nil => exact h
  | cons call calls ih => exact ih (h.step call)

/-! ## At most once -/

theorem cleanupExpired_requests (s : Registry O L) (clock : Int) (token : String) :
    ((s.cleanupExpired clock).requests token).isSome.toNat ≤ (s.requests token).isSome.toNat := by
  simp only [cleanupExpired]
  split_ifs
  · exact Nat.zero_le _
  · exact le_rfl

/-- A request that is there was registered, or was there before; one that is completed is gone. -/
theorem step_completes (s : Registry O L) (token : String) (call : RegistryCall O L) :
    (s.completes token call).toNat + ((s.step call).requests token).isSome.toNat ≤
      (registers token call).toNat + (s.requests token).isSome.toNat := by
  have hregister : ∀ target wanted random clock created,
      ((s.register target wanted random clock created).2.requests token).isSome.toNat ≤
        (decide (opaqueToken random = token)).toNat + (s.requests token).isSome.toNat := by
    intro target wanted random clock created
    by_cases heq : opaqueToken random = token
    · simp [register, heq]
    · have hclean := cleanupExpired_requests s clock token
      have hne : token ≠ opaqueToken random := fun h => heq h.symm
      simpa [register, heq, hne] using hclean
  cases call with
  | registerCredential target option random clock created =>
    simpa [completes, registers, step, registerCredential] using hregister target _ random clock created
  | registerCredentialFulfillment target random clock created =>
    simpa [completes, registers, step, registerCredentialFulfillment] using
      hregister target _ random clock created
  | registerAutofill target fields random clock created =>
    simpa [completes, registers, step, registerAutofill] using hregister target _ random clock created
  | request token' clock =>
    simpa [completes, registers, step, request] using cleanupExpired_requests s clock token
  | registerCandidate requestToken entryId random clock created =>
    have hclean := cleanupExpired_requests s clock token
    have hsame : (s.registerCandidate requestToken entryId random clock created).2.requests =
        (s.cleanupExpired clock).requests := by
      unfold registerCandidate request
      simp only []
      split_ifs <;> rfl
    simpa [completes, registers, step, hsame] using hclean
  | candidate token' requestToken clock =>
    simpa [completes, registers, step, candidate] using cleanupExpired_requests s clock token
  | complete requestToken candidateToken clock =>
    have hclean := cleanupExpired_requests s clock token
    have hcases := complete_cases s requestToken candidateToken clock
    simp only [completes, registers, step]
    generalize s.complete requestToken candidateToken clock = result at hcases ⊢
    cases hcases with
    | unknown gone => simpa using hclean
    | refused live named other => simpa [removeCandidate] using hclean
    | done live named =>
      by_cases heq : requestToken = token
      · subst heq
        simpa [cancel, removeRequest, removeCandidatesOf, live] using hclean
      · have hne : token ≠ requestToken := fun h => heq h.symm
        simpa [cancel, removeRequest, removeCandidatesOf, heq, hne] using hclean
  | cancel requestToken =>
    by_cases heq : token = requestToken
    · simp [completes, registers, step, cancel, removeRequest, removeCandidatesOf, heq]
    · simp [completes, registers, step, cancel, removeRequest, removeCandidatesOf, heq]
  | clear => simp [completes, registers, step, clear]

theorem completions_le (token : String) (s : Registry O L) (calls : List (RegistryCall O L)) :
    completions token s calls ≤ calls.countP (registers token) + (s.requests token).isSome.toNat := by
  induction calls generalizing s with
  | nil => exact Nat.zero_le _
  | cons call calls ih =>
    have hstep := step_completes s token call
    have hrest := ih (s.step call)
    rw [completions, List.countP_cons]
    cases hregisters : registers token call <;> simp [hregisters] at hstep ⊢ <;> omega

/-- A refused completion removes what has expired, and a candidate if it was misdirected. -/
theorem complete_refused_iff (s : Registry O L) (requestToken : String) (candidateToken : Option String)
    (clock : Int) (h : (s.complete requestToken candidateToken clock).1 = none) :
    (s.complete requestToken candidateToken clock).2 = s.cleanupExpired clock ↔
      ¬ s.Misdirected requestToken candidateToken clock := by
  have hcases := complete_cases s requestToken candidateToken clock
  unfold Misdirected
  generalize s.complete requestToken candidateToken clock = result at hcases h ⊢
  cases hcases with
  | unknown gone => simp [gone]
  | @refused record token live named other =>
    subst named
    cases hfound : (s.cleanupExpired clock).candidates token with
    | none =>
      have hsame : (s.cleanupExpired clock).removeCandidate token = s.cleanupExpired clock := by
        rw [removeCandidate, ← hfound, Function.update_eq_self]
      simp [hsame, hfound]
    | some candidate =>
      have hother : candidate.requestToken ≠ requestToken := by
        intro heq
        exact other (by rw [hfound, ← heq]; rfl)
      have hgone : (s.cleanupExpired clock).removeCandidate token ≠ s.cleanupExpired clock := by
        intro heq
        have hnone := congrArg (fun t : Registry O L => t.candidates token) heq
        simp [removeCandidate, hfound] at hnone
      simp [hgone, live, hfound, hother]
  | done live named => cases h

end Registry

open Registry

/-- In every run from the empty registry: no token is completed more often than a request was
registered under it; a completion with a candidate takes one that is live and belongs to that
request; every candidate belongs to a request that is there. And a completion that returns nothing
removes nothing but what has expired, exactly if it is not misdirected. -/
theorem registry_authority (calls : List (RegistryCall O L)) :
    (∀ token, completions token {} calls ≤ calls.countP (registers token)) ∧
    (∀ requestToken candidateToken clock record,
      ((run {} calls).complete requestToken (some candidateToken) clock).1 = some record →
      ((run {} calls).cleanupExpired clock).requests requestToken = some record ∧
      ∃ candidate, ((run {} calls).cleanupExpired clock).candidates candidateToken = some candidate ∧
        candidate.requestToken = requestToken) ∧
    Owned (run {} calls) ∧
    (∀ requestToken candidateToken clock,
      ((run {} calls).complete requestToken candidateToken clock).1 = none →
      (((run {} calls).complete requestToken candidateToken clock).2 =
        (run {} calls).cleanupExpired clock ↔
        ¬ (run {} calls).Misdirected requestToken candidateToken clock)) := by
  refine ⟨fun token => ?_, fun requestToken candidateToken clock record hdone => ?_, ?_,
    fun requestToken candidateToken clock => complete_refused_iff _ _ _ _⟩
  · simpa using completions_le token {} calls
  · have hcases := complete_cases (run {} calls) requestToken (some candidateToken) clock
    generalize (run {} calls).complete requestToken (some candidateToken) clock = result at hcases hdone
    cases hcases with
    | unknown gone => cases hdone
    | refused live named other => cases hdone
    | done live named =>
      cases hdone
      exact ⟨live, named candidateToken rfl⟩
  · exact Owned.run (fun token candidate hfound => by cases hfound) calls

/-- Two requests, and a candidate of the second. -/
def sampleCalls : List (RegistryCall Unit Unit) :=
  [.registerAutofill ⟨.app, "dev.first", "pin", none⟩ () [1] 0 0,
    .registerAutofill ⟨.app, "dev.second", "pin", none⟩ () [2] 0 0,
    .registerCandidate (opaqueToken [2]) "entry" [3] 0 0]

set_option maxRecDepth 100000 in
/-- Completing the first request with the candidate of the second returns nothing, and the second has
lost its candidate. -/
theorem complete_takes_candidate :
    ((run {} sampleCalls).complete (opaqueToken [1]) (some (opaqueToken [3])) 0).1 = none ∧
    ((run {} sampleCalls).cleanupExpired 0).candidates (opaqueToken [3]) =
      some ⟨opaqueToken [3], opaqueToken [2], "entry", 0⟩ ∧
    ((run {} sampleCalls).complete (opaqueToken [1]) (some (opaqueToken [3])) 0).2.candidates
      (opaqueToken [3]) = none := by
  decide +kernel

end NianPass.Android
