import NianPass.Lib.Program

/-
  Programs that stay within a frame.

  A `Discipline` is a relation between states that composes, and the states in
  which a program may be started. `Framed` says that a program started in such a
  state relates it to every state in which it stops, with a value or with an
  error, and what it ensures of its value. Being ready is part of the triple, so
  a proof passes it on without mentioning it.
-/
namespace NianPass.Program

structure Discipline (σ : Type) where
  frame : σ → σ → Prop
  ready : σ → Prop
  frame_refl : ∀ s, frame s s
  frame_trans : ∀ {s t u}, frame s t → frame t u → frame s u
  ready_frame : ∀ {s t}, ready s → frame s t → ready t

variable {E : Type} {R : E → Type} {α β σ ε : Type}

def Framed (M : Machine E R σ) (D : Discipline σ) (p : ExceptT ε (Program E R) α) (s : σ)
    (F : σ → α → Prop) : Prop :=
  D.ready s → Ensures M p (fun t a => D.frame s t ∧ F t a) (fun t _ => D.frame s t) s

section Framed
variable {M : Machine E R σ} {D : Discipline σ} {F F' : σ → α → Prop} {s : σ}

theorem framed_pure {a : α} (h : F s a) :
    Framed M D (pure a : ExceptT ε (Program E R) α) s F :=
  fun _ => ensures_pure ⟨D.frame_refl s, h⟩

theorem framed_throw {e : ε} : Framed M D (throw e : ExceptT ε (Program E R) α) s F :=
  fun _ => ensures_throw (D.frame_refl s)

theorem framed_request {e : E} {F : σ → R e → Prop} (hpermits : D.ready s → M.permits s e)
    (hstep : ∀ r t, M.step s e r t → D.frame s t ∧ F t r) :
    Framed M D (liftM (request e : Program E R (R e)) : ExceptT ε (Program E R) (R e)) s F :=
  fun hready => ensures_request (hpermits hready) hstep

theorem framed_ite {c : Prop} [Decidable c] {p q : ExceptT ε (Program E R) α}
    (hp : c → Framed M D p s F) (hq : ¬ c → Framed M D q s F) :
    Framed M D (if c then p else q) s F :=
  fun hready => ensures_ite (fun hc => hp hc hready) fun hc => hq hc hready

theorem Framed.weaken {p : ExceptT ε (Program E R) α} (h : Framed M D p s F)
    (hF : ∀ t a, D.ready t → D.frame s t → F t a → F' t a) : Framed M D p s F' :=
  fun hready => Ensures.weaken (h hready)
    (fun t a ha => ⟨ha.1, hF t a (D.ready_frame hready ha.1) ha.1 ha.2⟩) fun _ _ he => he

theorem Framed.bind {p : ExceptT ε (Program E R) α} {f : α → ExceptT ε (Program E R) β}
    {G : σ → β → Prop} (h : Framed M D p s F)
    (hf : ∀ t a, D.ready t → D.frame s t → F t a → Framed M D (f a) t G) :
    Framed M D (p >>= f) s G := by
  intro hready
  refine Ensures.bind (Ensures.weaken (h hready) (fun t a ha => ?_) fun _ _ he => he)
  have ht := D.ready_frame hready ha.1
  refine Ensures.weaken (hf t a ht ha.1 ha.2 ht) (fun u b hb => ?_) fun u _ he => ?_
  · exact ⟨D.frame_trans ha.1 hb.1, hb.2⟩
  · exact D.frame_trans ha.1 he

/-- A framed part of a program that as a whole is not. -/
theorem Framed.andThen {p : ExceptT ε (Program E R) α} {f : α → ExceptT ε (Program E R) β}
    {G : σ → β → Prop} {X : σ → ε → Prop} (h : Framed M D p s F) (hready : D.ready s)
    (hX : ∀ t e, D.frame s t → X t e)
    (hf : ∀ t a, D.ready t → D.frame s t → F t a → Ensures M (f a) G X t) :
    Ensures M (p >>= f) G X s :=
  Ensures.bind (Ensures.weaken (h hready)
    (fun t a ha => hf t a (D.ready_frame hready ha.1) ha.1 ha.2) hX)

/-- With a handler that only returns a value, no error is left. -/
theorem framed_rescue {p : ExceptT ε (Program E R) α} {b : α} {X : σ → ε → Prop}
    (h : Framed M D p s F) (hready : D.ready s) (hb : ∀ t, D.frame s t → F t b) :
    Ensures M (tryCatch p fun _ => pure b) (fun t a => D.frame s t ∧ F t a) X s :=
  Ensures.tryCatch (Ensures.weaken (h hready) (fun _ _ ha => ha)
    fun t _ he => ensures_pure ⟨he, hb t he⟩)

/-- Where the handler starts, only the frame is known. -/
theorem Framed.tryCatch {p : ExceptT ε (Program E R) α}
    {handler : ε → ExceptT ε (Program E R) α} (h : Framed M D p s F)
    (hhandler : ∀ t e, D.ready t → D.frame s t → Framed M D (handler e) t F) :
    Framed M D (tryCatch p handler) s F := by
  intro hready
  refine Ensures.tryCatch (Ensures.weaken (h hready) (fun _ _ ha => ha) fun t e he => ?_)
  have ht := D.ready_frame hready he
  refine Ensures.weaken (hhandler t e ht he ht) (fun u b hb => ?_) fun u _ hu => ?_
  · exact ⟨D.frame_trans he hb.1, hb.2⟩
  · exact D.frame_trans he hu

/-- A program that stays within a smaller frame stays within the larger one, and what it ensures
may mention the smaller. -/
theorem Framed.widen {D' : Discipline σ} {p : ExceptT ε (Program E R) α} (h : Framed M D p s F)
    (hready : D'.ready s → D.ready s) (hframe : ∀ t, D.frame s t → D'.frame s t) :
    Framed M D' p s fun t a => D.frame s t ∧ F t a :=
  fun hs => Ensures.weaken (h (hready hs)) (fun t _ ha => ⟨hframe t ha.1, ha⟩)
    fun t _ he => hframe t he

end Framed

end NianPass.Program
