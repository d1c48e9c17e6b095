import Mathlib.Control.Lawful
import Mathlib.Tactic

/-
  Programs that act on a world they do not own.

  A `Program` is a finite tree: it ends with a value, or makes a request and
  goes on from whatever answer it gets. What requests and answers mean is not
  part of it. A `Machine` gives them a meaning on a state: which answers a
  request may get there, what it does to the state, and which requests are
  permitted. Interference by others is part of the meaning, for a machine whose
  step first lets the others move.

  `Safe` is the rule of pre- and postconditions: from this state, every request
  the program makes is permitted where it is made, and what it returns
  satisfies the postcondition. `Ensures` is the same for programs that may stop
  with an error. A machine whose state is the transcript so far reasons about
  the paths of a program alone: see `transcripts`.
-/
namespace NianPass

inductive Program (E : Type) (R : E → Type) (α : Type) where
  | done (a : α)
  | ask (e : E) (k : R e → Program E R α)

namespace Program

variable {E : Type} {R : E → Type} {α β σ ε : Type}

def bind : Program E R α → (α → Program E R β) → Program E R β
  | .done a, f => f a
  | .ask e k, f => .ask e fun r => (k r).bind f

instance : Monad (Program E R) where
  pure := .done
  bind := bind

/-- Make one request and return its answer. -/
def request (e : E) : Program E R (R e) := .ask e .done

/-- The meaning of requests on a state. -/
structure Machine (E : Type) (R : E → Type) (σ : Type) where
  step : σ → (e : E) → R e → σ → Prop
  permits : σ → E → Prop

def Safe (M : Machine E R σ) (Q : σ → α → Prop) : Program E R α → σ → Prop
  | .done a, s => Q s a
  | .ask e k, s => M.permits s e ∧ ∀ r t, M.step s e r t → (k r).Safe M Q t

section Safe
variable {M : Machine E R σ} {Q Q' : σ → α → Prop} {p : Program E R α} {s : σ}

theorem Safe.weaken (h : p.Safe M Q s) (hQ : ∀ t a, Q t a → Q' t a) : p.Safe M Q' s := by
  induction p generalizing s with
  | done a => exact hQ s a h
  | ask e k ih => exact ⟨h.1, fun r t hstep => ih r (h.2 r t hstep)⟩

theorem Safe.bind {f : α → Program E R β} {Q' : σ → β → Prop}
    (h : p.Safe M (fun t a => (f a).Safe M Q' t) s) : (p.bind f).Safe M Q' s := by
  induction p generalizing s with
  | done a => exact h
  | ask e k ih => exact ⟨h.1, fun r t hstep => ih r (h.2 r t hstep)⟩

/-- A machine with fewer steps that permits as much. -/
theorem Safe.narrow {M' : Machine E R σ} (h : p.Safe M Q s)
    (hstep : ∀ s e r t, M'.step s e r t → M.step s e r t)
    (hpermits : ∀ s e, M.permits s e → M'.permits s e) : p.Safe M' Q s := by
  induction p generalizing s with
  | done a => exact h
  | ask e k ih => exact ⟨hpermits s e h.1, fun r t ht => ih r (h.2 r t (hstep s e r t ht))⟩

end Safe

/-! ## Programs that may stop with an error -/

/-- From `s`, `p` makes permitted requests only, returns values with `F` and
stops with errors with `X`. -/
def Ensures (M : Machine E R σ) (p : ExceptT ε (Program E R) α) (F : σ → α → Prop)
    (X : σ → ε → Prop) (s : σ) : Prop :=
  Safe M (fun t r => match r with | .ok a => F t a | .error e => X t e) p.run s

section Ensures
variable {M : Machine E R σ} {F F' : σ → α → Prop} {X X' : σ → ε → Prop} {s : σ}

theorem ensures_pure {a : α} (h : F s a) :
    Ensures M (pure a : ExceptT ε (Program E R) α) F X s := h

theorem ensures_throw {e : ε} (h : X s e) :
    Ensures M (throw e : ExceptT ε (Program E R) α) F X s := h

theorem Ensures.weaken {p : ExceptT ε (Program E R) α} (h : Ensures M p F X s)
    (hF : ∀ t a, F t a → F' t a) (hX : ∀ t e, X t e → X' t e) : Ensures M p F' X' s := by
  apply Safe.weaken h
  intro t r hr
  cases r with
  | ok a => exact hF t a hr
  | error e => exact hX t e hr

theorem Ensures.bind {p : ExceptT ε (Program E R) α} {f : α → ExceptT ε (Program E R) β}
    {F' : σ → β → Prop} (h : Ensures M p (fun t a => Ensures M (f a) F' X t) X s) :
    Ensures M (p >>= f) F' X s := by
  apply Safe.bind
  apply Safe.weaken h
  intro t r hr
  cases r with
  | ok a => exact hr
  | error e => exact hr

/-- However the program ends, `P` holds. -/
theorem Ensures.safe {P : σ → Prop} {p : ExceptT ε (Program E R) α}
    (h : Ensures M p (fun t _ => P t) (fun t _ => P t) s) : p.run.Safe M (fun t _ => P t) s := by
  refine Safe.weaken h fun t r hr => ?_
  cases r with
  | ok a => exact hr
  | error e => exact hr

/-- A request whose answer is looked at. -/
theorem ensures_request {e : E} {F : σ → R e → Prop} (hpermit : M.permits s e)
    (h : ∀ r t, M.step s e r t → F t r) :
    Ensures M (liftM (request e : Program E R (R e)) : ExceptT ε (Program E R) (R e)) F X s :=
  ⟨hpermit, h⟩

/-- What a handler is given is an error that the program stopped with. -/
theorem Ensures.tryCatch {p : ExceptT ε (Program E R) α} {handler : ε → ExceptT ε (Program E R) α}
    {X' : σ → ε → Prop} (h : Ensures M p F (fun t e => Ensures M (handler e) F X' t) s) :
    Ensures M (tryCatch p handler) F X' s := by
  apply Safe.bind
  apply Safe.weaken h
  intro t r hr
  cases r with
  | ok a => exact hr
  | error e => exact hr

theorem ensures_ite {c : Prop} [Decidable c] {p q : ExceptT ε (Program E R) α}
    (hp : c → Ensures M p F X s) (hq : ¬ c → Ensures M q F X s) :
    Ensures M (if c then p else q) F X s := by
  by_cases h : c
  · rw [if_pos h]
    exact hp h
  · rw [if_neg h]
    exact hq h

end Ensures

/-! ## Paths -/

/-- The requests a program has made and the answers it got, the newest first. -/
abbrev Transcript (R : E → Type) := List (Σ e, R e)

/-- The machine on which any answer may come back: its state is the transcript. -/
def transcripts (G : Transcript R → E → Prop) : Machine E R (Transcript R) where
  step h e r t := t = ⟨e, r⟩ :: h
  permits := G

section Paths
variable {G : Transcript R → E → Prop} {h : Transcript R}

/-- A request extends the transcript by its answer, whichever it is. -/
theorem paths_request {e : E} {F : Transcript R → R e → Prop} {X : Transcript R → ε → Prop}
    (hpermit : G h e) (hF : ∀ r, F (⟨e, r⟩ :: h) r) :
    Ensures (transcripts G)
      (liftM (request e : Program E R (R e)) : ExceptT ε (Program E R) (R e)) F X h := by
  apply ensures_request hpermit
  rintro r t rfl
  exact hF r

/-- A program that is permitted from the empty transcript is permitted behind any other, if
permission is never lost there, and what it appends is what it would have written. -/
theorem paths_frame {p : ExceptT ε (Program E R) α} {F : Transcript R → α → Prop}
    {X : Transcript R → ε → Prop} (hG : ∀ new e, G new e → G (new ++ h) e)
    (hp : Ensures (transcripts G) p F X []) :
    Ensures (transcripts G) p (fun h' a => ∃ new, h' = new ++ h ∧ F new a)
      (fun h' e => ∃ new, h' = new ++ h ∧ X new e) h := by
  have key : ∀ (q : Program E R (Except ε α)) new,
      q.Safe (transcripts G) (fun t r => match r with | .ok a => F t a | .error e => X t e) new →
      q.Safe (transcripts G) (fun t r => match r with
        | .ok a => ∃ new, t = new ++ h ∧ F new a
        | .error e => ∃ new, t = new ++ h ∧ X new e) (new ++ h) := by
    intro q
    induction q with
    | done result =>
      intro new hq
      cases result with
      | ok a => exact ⟨new, rfl, hq⟩
      | error e => exact ⟨new, rfl, hq⟩
    | ask e k ih =>
      intro new hq
      refine ⟨hG new e hq.1, ?_⟩
      rintro r t rfl
      exact ih r (⟨e, r⟩ :: new) (hq.2 r _ rfl)
  exact key p.run [] hp

end Paths

/-! ## Requests of a kind -/

/-- Whatever the answers are, the program makes requests of kind `K` only. -/
def Makes (K : E → Prop) : Program E R α → Prop
  | .done _ => True
  | .ask e k => K e ∧ ∀ r, (k r).Makes K

/-- The same for programs that may stop with an error. -/
def Confined (K : E → Prop) (p : ExceptT ε (Program E R) α) : Prop := p.run.Makes K

section Confined
variable {K K' : E → Prop}

theorem confined_pure {a : α} : Confined K (pure a : ExceptT ε (Program E R) α) := trivial

theorem confined_throw {e : ε} : Confined K (throw e : ExceptT ε (Program E R) α) := trivial

theorem confined_request {e : E} (h : K e) :
    Confined K (liftM (request e : Program E R (R e)) : ExceptT ε (Program E R) (R e)) :=
  ⟨h, fun _ => trivial⟩

theorem Confined.bind {p : ExceptT ε (Program E R) α} {f : α → ExceptT ε (Program E R) β}
    (hp : Confined K p) (hf : ∀ a, Confined K (f a)) : Confined K (p >>= f) := by
  have key : ∀ q : Program E R (Except ε α), q.Makes K →
      (q.bind (ExceptT.bindCont f)).Makes K := by
    intro q hq
    induction q with
    | done result =>
      cases result with
      | ok a => exact hf a
      | error e => trivial
    | ask e k ih => exact ⟨hq.1, fun r => ih r (hq.2 r)⟩
  exact key p.run hp

theorem confined_ite {c : Prop} [Decidable c] {p q : ExceptT ε (Program E R) α}
    (hp : Confined K p) (hq : Confined K q) : Confined K (if c then p else q) := by
  split
  · exact hp
  · exact hq

end Confined

/-- Whatever the answers are, the program makes requests of kind `K` only, and its errors are of
kind `Y`. -/
def Within (K : E → Prop) (Y : ε → Prop) (p : ExceptT ε (Program E R) α) : Prop :=
  Safe ⟨fun _ _ _ _ => True, fun _ => K⟩ (fun _ r => ∀ e, r = .error e → Y e) p.run ()

section Within
variable {K K' : E → Prop} {Y Y' : ε → Prop}

theorem within_pure {a : α} : Within K Y (pure a : ExceptT ε (Program E R) α) :=
  fun _ h => by cases h

theorem within_throw {e : ε} (h : Y e) : Within K Y (throw e : ExceptT ε (Program E R) α) := by
  intro e' he
  cases he
  exact h

theorem within_request {e : E} (h : K e) :
    Within K Y (liftM (request e : Program E R (R e)) : ExceptT ε (Program E R) (R e)) :=
  ⟨h, fun _ _ _ _ he => by cases he⟩

theorem Within.bind {p : ExceptT ε (Program E R) α} {f : α → ExceptT ε (Program E R) β}
    (hp : Within K Y p) (hf : ∀ a, Within K Y (f a)) : Within K Y (p >>= f) := by
  apply Safe.bind
  refine Safe.weaken hp fun t r hr => ?_
  cases r with
  | ok a => exact hf a
  | error e =>
    intro e' he
    cases he
    exact hr e rfl

theorem within_ite {c : Prop} [Decidable c] {p q : ExceptT ε (Program E R) α}
    (hp : Within K Y p) (hq : Within K Y q) : Within K Y (if c then p else q) := by
  split
  · exact hp
  · exact hq

/-- What every request of a kind keeps, a program within that kind keeps. -/
theorem Within.ensures {M : Machine E R σ} {P : σ → Prop} {p : ExceptT ε (Program E R) α} {s : σ}
    (hp : Within K Y p) (hpermits : ∀ t e, K e → P t → M.permits t e)
    (hkeeps : ∀ t e r t', K e → P t → M.step t e r t' → P t') (hs : P s) :
    Ensures M p (fun t _ => P t) (fun t e => P t ∧ Y e) s := by
  have key : ∀ (q : Program E R (Except ε α)) t,
      q.Safe ⟨fun (_ : Unit) _ _ _ => True, fun _ => K⟩ (fun _ r => ∀ e, r = .error e → Y e) () →
      P t → q.Safe M (fun t r => match r with | .ok _ => P t | .error e => P t ∧ Y e) t := by
    intro q
    induction q with
    | done result =>
      intro t hq ht
      cases result with
      | ok a => exact ht
      | error e => exact ⟨ht, hq e rfl⟩
    | ask e k ih =>
      intro t hq ht
      refine ⟨hpermits t e hq.1 ht, fun r t' hstep => ?_⟩
      exact ih r t' (hq.2 r () trivial) (hkeeps t e r t' hq.1 ht hstep)
  exact key p.run s hp hs

end Within

/-! ## Where a program can be stopped -/

/-- From `(p, s)` the program gets to `(q, t)` by making requests. -/
inductive Reaches (step : σ → (e : E) → R e → σ → Prop) :
    Program E R α → σ → Program E R α → σ → Prop
  | here {p : Program E R α} {s : σ} : Reaches step p s p s
  | later {e : E} {k : R e → Program E R α} {s t u : σ} {r : R e} {q : Program E R α}
      (first : step s e r t) (rest : Reaches step (k r) t q u) : Reaches step (.ask e k) s q u

section Reaches
variable {M : Machine E R σ} {Q : σ → α → Prop} {p q : Program E R α} {s t : σ}

theorem Safe.reaches (h : p.Safe M Q s) (hreaches : Reaches M.step p s q t) : q.Safe M Q t := by
  induction hreaches with
  | here => exact h
  | later first rest ih => exact ih (h.2 _ _ first)

/-- What is permitted to be the state at a request, and is the state at the end, is the state
wherever the program is stopped. -/
theorem Safe.always {I : σ → Prop} (h : p.Safe M Q s) (hpermits : ∀ t e, M.permits t e → I t)
    (hQ : ∀ t a, Q t a → I t) (hreaches : Reaches M.step p s q t) : I t := by
  have hq := h.reaches hreaches
  cases q with
  | done a => exact hQ t a hq
  | ask e k => exact hpermits t e hq.1

/-- A run of a sequence is a run of its parts. -/
theorem Reaches.of_bind {step : σ → (e : E) → R e → σ → Prop} {f : α → Program E R β} {b : β}
    (h : Reaches step (p.bind f) s (.done b) t) :
    ∃ a u, Reaches step p s (.done a) u ∧ Reaches step (f a) u (.done b) t := by
  induction p generalizing s with
  | done a => exact ⟨a, s, .here, h⟩
  | ask e k ih =>
    cases h with
    | later first rest =>
      obtain ⟨a, u, hp, hf⟩ := ih _ rest
      exact ⟨a, u, .later first hp, hf⟩

end Reaches

/-! ## A larger language of requests -/

section Embed
variable {E' : Type} {R' : E' → Type} (f : E → E') (g : ∀ e, R' (f e) → R e)

/-- A program of one language as a program of a larger one. -/
def embed : Program E R α → Program E' R' α
  | .done a => .done a
  | .ask e k => .ask (f e) fun r => (k (g e r)).embed

/-- What the larger language means for the requests of the smaller one. -/
def Machine.restrict (M : Machine E' R' σ) : Machine E R σ where
  step s e r t := ∃ r', g e r' = r ∧ M.step s (f e) r' t
  permits s e := M.permits s (f e)

theorem safe_embed {M : Machine E' R' σ} {Q : σ → α → Prop} {p : Program E R α} {s : σ}
    (h : p.Safe (M.restrict f g) Q s) : (p.embed f g).Safe M Q s := by
  induction p generalizing s with
  | done a => exact h
  | ask e k ih => exact ⟨h.1, fun r t hstep => ih (g e r) (h.2 (g e r) t ⟨r, rfl, hstep⟩)⟩

end Embed

/-! ## Along every path -/

/-- From the transcript `h` on, `p` makes guarded requests only, and where it returns a value it
has learned `F`. -/
def Along (G : Transcript R → E → Prop) (p : ExceptT ε (Program E R) α) (h : Transcript R)
    (F : Transcript R → α → Prop) : Prop :=
  Ensures (transcripts G) p (fun h' a => h <:+ h' ∧ F h' a) (fun _ _ => True) h

section Along
variable {G : Transcript R → E → Prop} {h : Transcript R}

theorem Along.bind {p : ExceptT ε (Program E R) α} {f : α → ExceptT ε (Program E R) β}
    {F : Transcript R → α → Prop} {F' : Transcript R → β → Prop} (hp : Along G p h F)
    (hf : ∀ h' a, h <:+ h' → F h' a → Along G (f a) h' F') : Along G (p >>= f) h F' := by
  apply Ensures.bind
  refine Ensures.weaken hp (fun h' a ha => ?_) (fun _ _ _ => trivial)
  refine Ensures.weaken (hf h' a ha.1 ha.2) (fun h'' b hb => ?_) (fun _ _ _ => trivial)
  exact ⟨ha.1.trans hb.1, hb.2⟩

theorem Along.weaken {p : ExceptT ε (Program E R) α} {F F' : Transcript R → α → Prop}
    (hp : Along G p h F) (hF : ∀ h' a, h <:+ h' → F h' a → F' h' a) : Along G p h F' :=
  Ensures.weaken hp (fun h' a ha => ⟨ha.1, hF h' a ha.1 ha.2⟩) (fun _ _ _ => trivial)

theorem along_pure {a : α} {F : Transcript R → α → Prop} (hF : F h a) :
    Along G (pure a : ExceptT ε (Program E R) α) h F :=
  ensures_pure ⟨List.suffix_refl h, hF⟩

theorem along_throw {e : ε} {F : Transcript R → α → Prop} :
    Along G (throw e : ExceptT ε (Program E R) α) h F :=
  ensures_throw trivial

theorem along_request {e : E} (hguard : G h e) :
    Along G (liftM (request e : Program E R (R e)) : ExceptT ε (Program E R) (R e)) h
      fun h' r => h' = ⟨e, r⟩ :: h :=
  paths_request hguard fun _ => ⟨List.suffix_cons _ _, rfl⟩

theorem along_ite {c : Prop} [Decidable c] {p q : ExceptT ε (Program E R) α}
    {F : Transcript R → α → Prop} (hp : c → Along G p h F) (hq : ¬ c → Along G q h F) :
    Along G (if c then p else q) h F :=
  ensures_ite hp hq

/-- What a program learns does not depend on the guard; a program confined to requests that
another guard lets through learns the same under it. -/
theorem Along.confine {G' : Transcript R → E → Prop} {K : E → Prop}
    {p : ExceptT ε (Program E R) α} {F : Transcript R → α → Prop} (hp : Along G p h F)
    (hK : Confined K p) (hG : ∀ t e, K e → G' t e) : Along G' p h F := by
  have key : ∀ (q : Program E R (Except ε α)) (Q : Transcript R → Except ε α → Prop) t,
      q.Safe (transcripts G) Q t → q.Makes K → q.Safe (transcripts G') Q t := by
    intro q
    induction q with
    | done result => exact fun Q t hq _ => hq
    | ask e k ih =>
      intro Q t hq hmakes
      refine ⟨hG t e hmakes.1, ?_⟩
      intro r t' hstep
      exact ih r Q t' (hq.2 r t' hstep) (hmakes.2 r)
  exact key p.run _ h hp hK

end Along

end Program

end NianPass
