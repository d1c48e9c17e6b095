import Mathlib.Data.Finset.Card
import Mathlib.Data.Finset.NAry
import Mathlib.Tactic

/-
  Numbers drawn from a source of words by rejection.

  A word below `M` is turned into an index below `n` by its remainder; words
  from the last, incomplete block of `n` on are thrown away. A tape is a list of
  words, and a draw takes as many words off it as it needs, or does not end on it.

  Every sequence of indices is drawn on as many tapes as any other: the accepted
  words of a tape can be replaced, each within its block, so that the draws come
  out as another sequence, and this is undone the same way (`retune`). Hence
  whatever is computed from the draws is reached on equally many tapes by two
  sets of sequences that are in bijection (`card_draws_eq`).
-/
namespace NianPass.Rejection

/-! ## Draws -/

/-- The first word that is not in the incomplete block, as an index below `n`. -/
def draw (M n : ℕ) : List ℕ → Option (ℕ × List ℕ)
  | [] => none
  | word :: tape => if word ≥ M - M % n then draw M n tape else some (word % n, tape)

/-- One index below each bound. -/
def draws (M : ℕ) : List ℕ → List ℕ → Option (List ℕ × List ℕ)
  | [], tape => some ([], tape)
  | n :: bounds, tape => do
    let (i, tape) ← draw M n tape
    let (is, tape) ← draws M bounds tape
    return (i :: is, tape)

/-- The sequences of indices that the bounds allow. -/
def Allowed (is bounds : List ℕ) : Prop := List.Forall₂ (· < ·) is bounds

/-- The bounds that a word can be turned into an index below. -/
def Drawable (M : ℕ) (bounds : List ℕ) : Prop := ∀ n ∈ bounds, 0 < n ∧ n ≤ M

variable {M n : ℕ} {bounds is js tape rest : List ℕ}

theorem Drawable.tail (h : Drawable M (n :: bounds)) : Drawable M bounds :=
  fun m hm => h m (List.mem_cons_of_mem n hm)

theorem draw_allowed : ∀ {tape : List ℕ} {i : ℕ}, 0 < n → draw M n tape = some (i, rest) → i < n
  | [], _, _, h => by cases h
  | word :: tape, i, hn, h => by
    simp only [draw] at h
    split at h
    · exact draw_allowed hn h
    · cases h
      exact Nat.mod_lt _ hn

theorem draws_allowed (hb : Drawable M bounds) (h : draws M bounds tape = some (is, rest)) :
    Allowed is bounds := by
  induction bounds generalizing tape is with
  | nil =>
    cases h
    exact .nil
  | cons n bounds ih =>
    simp only [draws, Option.bind_eq_bind, Option.bind_eq_some_iff, Prod.exists] at h
    obtain ⟨i, middle, hi, is', rest', his, heq⟩ := h
    cases heq
    exact .cons (draw_allowed (hb n List.mem_cons_self).1 hi) (ih hb.tail his)

/-- A word below half of `M` is never thrown away. -/
theorem draw_isSome : ∀ {tape : List ℕ}, 0 < n → n ≤ M → (∃ word ∈ tape, 2 * word < M) →
    ∃ i rest, draw M n tape = some (i, rest) ∧
      (tape.filter (2 * · < M)).length ≤ (rest.filter (2 * · < M)).length + 1
  | [], _, _, h => by simp at h
  | word :: tape, hn, hM, h => by
    simp only [draw]
    split
    case isTrue hreject =>
      have hsmall : ¬ 2 * word < M := by
        have hdiv : 1 ≤ M / n := (Nat.one_le_div_iff hn).mpr hM
        have hsplit : n * (M / n) + M % n = M := Nat.div_add_mod M n
        have hmod : M % n < n := Nat.mod_lt M hn
        have hblock : n ≤ n * (M / n) := Nat.le_mul_of_pos_right n hdiv
        omega
      have hword : ∃ w ∈ tape, 2 * w < M := by
        obtain ⟨w, hw, hlt⟩ := h
        rcases List.mem_cons.mp hw with rfl | hw
        · exact absurd hlt hsmall
        · exact ⟨w, hw, hlt⟩
      obtain ⟨i, rest, hi, hle⟩ := draw_isSome hn hM hword
      exact ⟨i, rest, hi, by simpa [hsmall] using hle⟩
    case isFalse =>
      refine ⟨word % n, tape, rfl, ?_⟩
      by_cases hsmall : 2 * word < M <;> simp [hsmall]

/-- With as many small words on the tape as there are bounds, the draws end. -/
theorem draws_isSome (hb : Drawable M bounds)
    (h : bounds.length ≤ (tape.filter (2 * · < M)).length) :
    ∃ is rest, draws M bounds tape = some (is, rest) := by
  induction bounds generalizing tape with
  | nil => exact ⟨[], tape, rfl⟩
  | cons n bounds ih =>
    obtain ⟨hn, hM⟩ := hb n List.mem_cons_self
    have hword : ∃ word ∈ tape, 2 * word < M := by
      have hne : tape.filter (2 * · < M) ≠ [] := by
        intro hnil
        simp [hnil] at h
      obtain ⟨word, hword⟩ := List.exists_mem_of_ne_nil _ hne
      obtain ⟨hmem, hlt⟩ := List.mem_filter.mp hword
      exact ⟨word, hmem, of_decide_eq_true hlt⟩
    obtain ⟨i, middle, hi, hle⟩ := draw_isSome hn hM hword
    have henough : bounds.length ≤ (middle.filter (2 * · < M)).length := by
      simp only [List.length_cons] at h
      omega
    obtain ⟨is, rest, his⟩ := ih hb.tail henough
    refine ⟨i :: is, rest, ?_⟩
    simp only [draws, hi, his, Option.bind_eq_bind, Option.bind_some]
    rfl

theorem Allowed.length (h : Allowed is bounds) : is.length = bounds.length := h.length_eq

theorem draws_append (bounds₁ bounds₂ tape : List ℕ) :
    draws M (bounds₁ ++ bounds₂) tape = (draws M bounds₁ tape).bind fun (is, tape) =>
      (draws M bounds₂ tape).map fun (js, tape) => (is ++ js, tape) := by
  induction bounds₁ generalizing tape with
  | nil => simp [draws]
  | cons n bounds₁ ih =>
    simp only [List.cons_append, draws, Option.bind_eq_bind]
    cases draw M n tape with
    | none => rfl
    | some found =>
      obtain ⟨i, middle⟩ := found
      simp only [Option.bind_some, ih]
      cases draws M bounds₁ middle with
      | none => rfl
      | some found =>
        obtain ⟨is, middle'⟩ := found
        show _ = (draws M bounds₂ middle').map fun drawn => (i :: is ++ drawn.1, drawn.2)
        simp only [Option.bind_some]
        cases draws M bounds₂ middle' with
        | none => rfl
        | some found => rfl

/-! ## Computations that draw -/

/-- A computation that takes words off a tape. It may throw, and it may not end on its tape. -/
abbrev Source (ε α : Type) := StateT (List ℕ) (ExceptT ε Option) α

section Source
variable {ε α β : Type} {m : Source ε α} {k : α → Source ε β}
variable {f f' : List ℕ → α} {bounds₁ bounds₂ : List ℕ}

/-- `m` draws an index below each bound and makes its result of them. -/
def Samples (M : ℕ) (m : Source ε α) (bounds : List ℕ) (f : List ℕ → α) : Prop :=
  ∀ tape, m tape = (draws M bounds tape).map fun drawn => .ok (f drawn.1, drawn.2)

theorem samples_pure (a : α) : Samples M (pure a : Source ε α) [] fun _ => a := fun _ => rfl

theorem Samples.congr (h : Samples M m bounds f) (hb : Drawable M bounds)
    (hf : ∀ is, Allowed is bounds → f is = f' is) : Samples M m bounds f' := by
  intro tape
  rw [h tape]
  cases hdrawn : draws M bounds tape with
  | none => rfl
  | some drawn =>
    obtain ⟨is, rest⟩ := drawn
    simp only [Option.map_some, hf is (draws_allowed hb hdrawn)]

theorem Samples.bind {g : List ℕ → List ℕ → β} (h : Samples M m bounds₁ f)
    (hb : Drawable M bounds₁)
    (hk : ∀ is, Allowed is bounds₁ → Samples M (k (f is)) bounds₂ (g is)) :
    Samples M (m >>= k) (bounds₁ ++ bounds₂) fun is =>
      g (is.take bounds₁.length) (is.drop bounds₁.length) := by
  intro tape
  have hrun : (m >>= k) tape = Option.bind (m tape) fun (r : Except ε (α × List ℕ)) =>
      match r with
      | .ok (a, rest) => k a rest
      | .error e => some (.error e) := by
    show Option.bind (m tape) _ = _
    congr 1
    funext r
    cases r <;> rfl
  rw [hrun, h tape, draws_append]
  cases hdrawn : draws M bounds₁ tape with
  | none => rfl
  | some drawn =>
    obtain ⟨is, rest⟩ := drawn
    have hallowed := draws_allowed hb hdrawn
    simp only [Option.map_some, Option.bind_some, hk is hallowed rest]
    cases draws M bounds₂ rest with
    | none => rfl
    | some drawn =>
      obtain ⟨js, rest'⟩ := drawn
      simp only [Option.map_some]
      rw [← hallowed.length, List.take_left, List.drop_left]

theorem Samples.map {g : α → β} (h : Samples M m bounds f) :
    Samples M (g <$> m) bounds fun is => g (f is) := by
  intro tape
  have hrun : (g <$> m) tape =
      Option.map (fun (r : Except ε (α × List ℕ)) => r.map fun a => (g a.1, a.2)) (m tape) := by
    show Option.bind (m tape) _ = _
    rw [Option.map_eq_bind]
    congr 1
    funext r
    cases r <;> rfl
  rw [hrun, h tape, Option.map_map]
  rfl

end Source

/-! ## Retuning a tape -/

/-- The tape with its accepted words replaced, each within its block, so that `is` is drawn. -/
def retune (M : ℕ) : List ℕ → List ℕ → List ℕ → List ℕ
  | [], _, _ => []
  | word :: tape, n :: bounds, i :: is =>
    if word ≥ M - M % n then word :: retune M tape (n :: bounds) (i :: is)
    else (word / n * n + i) :: retune M tape bounds is
  | tape, _, _ => tape

theorem retune_length : ∀ tape bounds is, (retune M tape bounds is).length = tape.length
  | [], _, _ => rfl
  | _ :: _, [], _ => rfl
  | _ :: _, _ :: _, [] => rfl
  | word :: tape, n :: bounds, i :: is => by
    simp only [retune]
    split
    · simp [retune_length tape]
    · simp [retune_length tape]

/-- A word stays on its side of the cutoff when it moves within its block. -/
theorem kept {word i : ℕ} (hword : word < M - M % n) (hi : i < n) :
    word / n * n + i < M - M % n := by
  have hsplit : M - M % n = M / n * n := by
    have h := Nat.div_add_mod' M n
    omega
  rw [hsplit] at hword ⊢
  have hq : word / n < M / n := Nat.div_lt_of_lt_mul (by rwa [Nat.mul_comm] at hword)
  calc word / n * n + i
    _ < word / n * n + n := by omega
    _ = (word / n + 1) * n := by rw [Nat.add_mul, Nat.one_mul]
    _ ≤ M / n * n := Nat.mul_le_mul_right n hq

theorem retune_below (hb : Drawable M bounds) (ha : Allowed is bounds)
    (ht : ∀ word ∈ tape, word < M) : ∀ word ∈ retune M tape bounds is, word < M := by
  induction tape generalizing bounds is with
  | nil => exact ht
  | cons word tape ih =>
    have htape : ∀ w ∈ tape, w < M := fun w hw => ht w (List.mem_cons_of_mem word hw)
    cases ha with
    | nil => exact ht
    | @cons i n is bounds hi ha =>
      simp only [retune]
      split
      case isTrue =>
        intro w hw
        rcases List.mem_cons.mp hw with rfl | hw
        · exact ht w List.mem_cons_self
        · exact ih hb (.cons hi ha) htape w hw
      case isFalse hkeep =>
        intro w hw
        rcases List.mem_cons.mp hw with rfl | hw
        · have hlt := kept (Nat.lt_of_not_le hkeep) hi
          omega
        · exact ih hb.tail ha htape w hw

/-- The indices that a retuned tape gives, and that nothing is left of it if nothing was. -/
theorem draws_retune (hb : Drawable M bounds) (ha : Allowed js bounds)
    (h : draws M bounds tape = some (is, [])) :
    draws M bounds (retune M tape bounds js) = some (js, []) := by
  induction tape generalizing bounds is js with
  | nil =>
    cases bounds with
    | nil =>
      cases ha
      rfl
    | cons n bounds => cases h
  | cons word tape ih =>
    cases ha with
    | nil => cases h
    | @cons j n js bounds hj ha =>
      have hn := (hb n List.mem_cons_self).1
      simp only [draws, draw, Option.bind_eq_bind] at h
      simp only [retune]
      split at h
      case isTrue hreject =>
        have hwhole := @ih (n :: bounds) _ _ hb (.cons hj ha) h
        rw [if_pos hreject]
        simpa only [draws, draw, if_pos hreject] using hwhole
      case isFalse hkeep =>
        simp only [Option.bind_some, Option.bind_eq_some_iff, Prod.exists] at h
        obtain ⟨is', rest', his, heq⟩ := h
        cases heq
        have hlt := kept (Nat.lt_of_not_le hkeep) hj
        have hmod : (word / n * n + j) % n = j := by
          rw [Nat.mul_add_mod', Nat.mod_eq_of_lt hj]
        rw [if_neg hkeep]
        simp only [draws, draw, if_neg (Nat.not_le.mpr hlt), hmod, ih hb.tail ha his,
          Option.bind_eq_bind, Option.bind_some]
        rfl

/-- Retuning is undone by retuning to what was drawn before. -/
theorem retune_retune (hb : Drawable M bounds) (ha : Allowed js bounds)
    (h : draws M bounds tape = some (is, [])) :
    retune M (retune M tape bounds js) bounds is = tape := by
  induction tape generalizing bounds is js with
  | nil => rfl
  | cons word tape ih =>
    cases ha with
    | nil => cases h
    | @cons j n js bounds hj ha =>
      have hn := (hb n List.mem_cons_self).1
      simp only [draws, draw, Option.bind_eq_bind] at h
      split at h
      case isTrue hreject =>
        have hwhole := @ih (n :: bounds) _ _ hb (.cons hj ha) h
        have hne : Allowed is (n :: bounds) := draws_allowed hb h
        cases hne with
        | cons hi his =>
          simp only [retune, if_pos hreject]
          rw [hwhole]
      case isFalse hkeep =>
        simp only [Option.bind_some, Option.bind_eq_some_iff, Prod.exists] at h
        obtain ⟨is', rest', his, heq⟩ := h
        cases heq
        have hlt := kept (Nat.lt_of_not_le hkeep) hj
        have hdiv : (word / n * n + j) / n = word / n := by
          rw [Nat.mul_comm, Nat.mul_add_div hn, Nat.div_eq_of_lt hj, Nat.add_zero]
        simp only [retune, if_neg hkeep, if_neg (Nat.not_le.mpr hlt), hdiv, ih hb.tail ha his,
          Nat.div_add_mod']

/-! ## Counting tapes -/

/-- The tapes of `N` words. -/
def tapes (M : ℕ) : ℕ → Finset (List ℕ)
  | 0 => {[]}
  | N + 1 => Finset.image₂ List.cons (Finset.range M) (tapes M N)

theorem mem_tapes : ∀ {N : ℕ} {tape : List ℕ},
    tape ∈ tapes M N ↔ tape.length = N ∧ ∀ word ∈ tape, word < M
  | 0, tape => by
    simp only [tapes, Finset.mem_singleton, List.length_eq_zero_iff]
    constructor
    · rintro rfl
      simp
    · exact fun h => h.1
  | N + 1, tape => by
    simp only [tapes, Finset.mem_image₂, Finset.mem_range, mem_tapes]
    constructor
    · rintro ⟨word, hword, rest, ⟨hlength, hrest⟩, rfl⟩
      simpa [hlength, hword] using hrest
    · rintro ⟨hlength, hbelow⟩
      cases tape with
      | nil => simp at hlength
      | cons word rest =>
        simp only [List.length_cons, Nat.add_right_cancel_iff] at hlength
        simp only [List.mem_cons, forall_eq_or_imp] at hbelow
        exact ⟨word, hbelow.1, rest, ⟨hlength, hbelow.2⟩, rfl⟩

/-- Two sets of sequences in bijection are drawn on equally many tapes that are used to the end. -/
theorem card_draws_eq {A B P Q : List ℕ → Prop} [DecidablePred A] [DecidablePred B]
    (hb : Drawable M bounds)
    (hA : ∀ tape, A tape ↔ ∃ is, draws M bounds tape = some (is, []) ∧ P is)
    (hB : ∀ tape, B tape ↔ ∃ is, draws M bounds tape = some (is, []) ∧ Q is)
    (f g : List ℕ → List ℕ)
    (hf : ∀ is, Allowed is bounds → P is → Allowed (f is) bounds ∧ Q (f is) ∧ g (f is) = is)
    (hg : ∀ is, Allowed is bounds → Q is → Allowed (g is) bounds ∧ P (g is) ∧ f (g is) = is)
    (N : ℕ) : ((tapes M N).filter A).card = ((tapes M N).filter B).card := by
  -- the tape is retuned to the image of what it gives
  let along (f : List ℕ → List ℕ) (tape : List ℕ) : List ℕ :=
    match draws M bounds tape with
    | some (is, _) => retune M tape bounds (f is)
    | none => tape
  have key : ∀ {C D R S : List ℕ → Prop} {f g : List ℕ → List ℕ} {tape : List ℕ},
      (∀ tape, C tape ↔ ∃ is, draws M bounds tape = some (is, []) ∧ R is) →
      (∀ tape, D tape ↔ ∃ is, draws M bounds tape = some (is, []) ∧ S is) →
      (∀ is, Allowed is bounds → R is → Allowed (f is) bounds ∧ S (f is) ∧ g (f is) = is) →
      tape ∈ tapes M N → C tape →
        along f tape ∈ tapes M N ∧ D (along f tape) ∧ along g (along f tape) = tape := by
    intro C D R S f g tape hC hD hf htape htrue
    obtain ⟨is, his, hR⟩ := (hC tape).mp htrue
    have ha := draws_allowed hb his
    obtain ⟨hallowed, hS, hback⟩ := hf is ha hR
    obtain ⟨hlength, hbelow⟩ := mem_tapes.mp htape
    have hdrawn := draws_retune hb hallowed his
    have halong : along f tape = retune M tape bounds (f is) := by simp only [along, his]
    rw [halong]
    refine ⟨mem_tapes.mpr ⟨?_, retune_below hb hallowed hbelow⟩,
      (hD _).mpr ⟨f is, hdrawn, hS⟩, ?_⟩
    · rw [retune_length, hlength]
    · simp only [along, hdrawn, hback]
      exact retune_retune hb hallowed his
  apply Finset.card_nbij' (along f) (along g)
  · intro tape htape
    simp only [Finset.coe_filter, Set.mem_ofPred_eq] at htape ⊢
    obtain ⟨hmem, hB', -⟩ := key hA hB hf htape.1 htape.2
    exact ⟨hmem, hB'⟩
  · intro tape htape
    simp only [Finset.coe_filter, Set.mem_ofPred_eq] at htape ⊢
    obtain ⟨hmem, hA', -⟩ := key hB hA hg htape.1 htape.2
    exact ⟨hmem, hA'⟩
  · intro tape htape
    simp only [Finset.coe_filter, Set.mem_ofPred_eq] at htape
    exact (key hA hB hf htape.1 htape.2).2.2
  · intro tape htape
    simp only [Finset.coe_filter, Set.mem_ofPred_eq] at htape
    exact (key hB hA hg htape.1 htape.2).2.2

section Ways
variable {ε α : Type} [DecidableEq α] {m : Source ε α} {a b : α} {result : List ℕ → α}

/-- What a computation makes of a tape that it uses up. -/
def made (m : Source ε α) (tape : List ℕ) : Option α :=
  match (m tape : Option (Except ε (α × List ℕ))) with
  | some (.ok (a, [])) => some a
  | _ => none

/-- On how many tapes of `N` words a computation ends at the end of the tape with `a`. -/
def ways (M N : ℕ) (m : Source ε α) (a : α) : ℕ :=
  ((tapes M N).filter fun tape => made m tape = some a).card

omit [DecidableEq α] in
theorem Samples.made_iff (h : Samples M m bounds result) :
    made m tape = some a ↔ ∃ is, draws M bounds tape = some (is, []) ∧ result is = a := by
  rw [made, h tape]
  cases draws M bounds tape with
  | none => simp
  | some drawn =>
    obtain ⟨is, rest⟩ := drawn
    cases rest <;> simp

/-- Two results come about in as many ways, if the draws for one and for the other are in
bijection. -/
theorem Samples.ways_eq (h : Samples M m bounds result) (hb : Drawable M bounds)
    (f g : List ℕ → List ℕ)
    (hf : ∀ is, Allowed is bounds → result is = a →
      Allowed (f is) bounds ∧ result (f is) = b ∧ g (f is) = is)
    (hg : ∀ is, Allowed is bounds → result is = b →
      Allowed (g is) bounds ∧ result (g is) = a ∧ f (g is) = is)
    (N : ℕ) : ways M N m a = ways M N m b :=
  card_draws_eq hb (fun _ => h.made_iff) (fun _ => h.made_iff) f g hf hg N

/-- What a computation never makes it makes in no way. -/
theorem ways_eq_zero (h : ∀ tape, made m tape ≠ some a) (N : ℕ) : ways M N m a = 0 := by
  rw [ways, Finset.card_eq_zero, Finset.filter_eq_empty_iff]
  exact fun tape _ => h tape

end Ways

end NianPass.Rejection
