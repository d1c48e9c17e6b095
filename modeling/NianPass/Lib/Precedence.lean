import NianPass.Lib.Loop

/-
  The order in which a list names its elements.

  `Precedes l a b` says that `a` stands before `b`. In a list without
  repetition a sublist orders its elements as the list does
  (`precedes_sublist`), and two such lists with the same elements in the same
  order are equal (`eq_of_precedes`).

  The last part is about lists that grow at the end. `foldlM_grows` bounds the
  list a loop leaves behind by the list it found and the keys it may have
  appended; `sublist_append_split` then tells the two parts of it from each
  other.
-/
namespace NianPass

variable {α : Type} {l s : List α} {a b : α}

/-- `a` stands before `b`. -/
def Precedes (l : List α) (a b : α) : Prop := [a, b].Sublist l

namespace Precedence

theorem precedes_mono (h : s.Sublist l) (hab : Precedes s a b) : Precedes l a b :=
  List.Sublist.trans hab h

theorem precedes_or (ha : a ∈ l) (hb : b ∈ l) (hne : a ≠ b) : Precedes l a b ∨ Precedes l b a := by
  induction l with
  | nil => cases ha
  | cons x rest ih =>
    rcases List.mem_cons.mp ha with rfl | ha'
    · have hb' : b ∈ rest := (List.mem_cons.mp hb).resolve_left (Ne.symm hne)
      exact Or.inl ((List.singleton_sublist.mpr hb').cons_cons a)
    · rcases List.mem_cons.mp hb with rfl | hb'
      · exact Or.inr ((List.singleton_sublist.mpr ha').cons_cons b)
      · exact (ih ha' hb').imp (List.Sublist.cons x) (List.Sublist.cons x)

theorem precedes_asymm (hl : l.Nodup) (h : Precedes l a b) : ¬ Precedes l b a := by
  induction l with
  | nil => cases h
  | cons x rest ih =>
    obtain ⟨hx, hrest⟩ := List.nodup_cons.mp hl
    intro h'
    -- Whoever stands first stands nowhere else.
    cases h with
    | cons _ h =>
      cases h' with
      | cons _ h' => exact ih hrest h h'
      | cons_cons _ _ => exact hx (h.subset (List.mem_cons_of_mem a List.mem_cons_self))
    | cons_cons _ h =>
      cases h' with
      | cons _ h' => exact hx (h'.subset (List.mem_cons_of_mem b List.mem_cons_self))
      | cons_cons _ _ => exact hx (h.subset List.mem_cons_self)

theorem precedes_sublist (h : s.Sublist l) (hl : l.Nodup) (ha : a ∈ s) (hb : b ∈ s) (hne : a ≠ b) :
    Precedes s a b ↔ Precedes l a b := by
  refine ⟨precedes_mono h, fun hab => ?_⟩
  rcases precedes_or ha hb hne with hs | hs
  · exact hs
  · exact absurd (precedes_mono h hs) (precedes_asymm hl hab)

/-- Two lists that name the same elements in the same order. -/
theorem eq_of_precedes (hs : s.Nodup) (hl : l.Nodup) (hmem : ∀ x, x ∈ s ↔ x ∈ l)
    (h : ∀ x ∈ s, ∀ y ∈ s, x ≠ y → Precedes s x y → Precedes l x y) : s = l := by
  have hperm : s.Perm l := (List.perm_ext_iff_of_nodup hs hl).mpr hmem
  have hself : l.Pairwise (Precedes l) := List.pairwise_iff_forall_sublist.mpr fun h => h
  have hother : s.Pairwise (Precedes l) := by
    rw [List.pairwise_iff_forall_sublist]
    intro x y hxy
    have hne : x ≠ y := by
      rintro rfl
      exact absurd (hxy.nodup hs) (by simp)
    exact h x (hxy.subset List.mem_cons_self) y
      (hxy.subset (List.mem_cons_of_mem x List.mem_cons_self)) hne hxy
  exact hperm.eq_of_pairwise (fun x y _ _ hxy hyx => absurd hyx (precedes_asymm hl hxy)) hother hself

/-! ## Lists that grow at the end -/

/-- A sublist of a list without repetition is a selection from it. -/
theorem sublist_eq_filter [DecidableEq α] (h : s.Sublist l) (hl : l.Nodup) :
    s = l.filter (· ∈ s) := by
  refine eq_of_precedes (h.nodup hl) (hl.filter _) (fun x => ?_) (fun x hx y hy hne hxy => ?_)
  · simp only [List.mem_filter, decide_eq_true_eq]
    exact ⟨fun hx => ⟨h.subset hx, hx⟩, And.right⟩
  · have hmem : ∀ z ∈ s, z ∈ l.filter (· ∈ s) := fun z hz =>
      List.mem_filter.mpr ⟨h.subset hz, decide_eq_true hz⟩
    exact (precedes_sublist List.filter_sublist hl (hmem x hx) (hmem y hy) hne).mpr
      (precedes_mono h hxy)

/-- What comes from an old list and what has been appended to it since. -/
theorem sublist_append_split [DecidableEq α] {old new : List α} (h : l.Sublist (old ++ new))
    (hold : old.Nodup) (hnew : ∀ x ∈ new, x ∉ old) :
    ∃ appended, appended.Sublist new ∧ l = old.filter (· ∈ l) ++ appended ∧
      ∀ x, x ∈ appended ↔ x ∈ l ∧ x ∉ old := by
  obtain ⟨kept, appended, rfl, hkept, happended⟩ := List.sublist_append_iff.mp h
  have hnot : ∀ x ∈ appended, x ∉ old := fun x hx => hnew x (happended.subset hx)
  refine ⟨appended, happended, ?_, fun x => ⟨fun hx => ?_, ?_⟩⟩
  · have hfilter : old.filter (· ∈ kept ++ appended) = old.filter (· ∈ kept) := by
      refine List.filter_congr fun x hx => ?_
      have : x ∉ appended := fun hx' => hnot x hx' hx
      simp [this]
    rw [hfilter, ← sublist_eq_filter hkept hold]
  · exact ⟨List.mem_append_right kept hx, hnot x hx⟩
  · rintro ⟨hx, hout⟩
    exact (List.mem_append.mp hx).resolve_left fun hx' => hout (hkept.subset hx')

section Loop
variable {σ ι ε : Type} {f : σ → ι → Except ε σ} {xs : List ι} {start done : σ}

/-- A loop each of whose rounds takes elements out of a list and may append its own key. -/
theorem foldlM_grows (view : σ → List ι) (p : ι → Bool) (I : σ → Prop)
    (hinv : ∀ i ∈ xs, ∀ s t, I s → f s i = .ok t → I t)
    (hstep : ∀ i ∈ xs, ∀ s t, I s → f s i = .ok t →
      (view t).Sublist (view s ++ [i].filter p))
    (h : xs.foldlM f start = .ok done) (hs : I start) :
    (view done).Sublist (view start ++ xs.filter p) := by
  induction xs generalizing start with
  | nil =>
    cases h
    simp
  | cons x xs ih =>
    obtain ⟨u, hu, hrest⟩ := Loop.foldlM_cons_ok.mp h
    have hround := hstep x List.mem_cons_self start u hs hu
    have hrun := ih (fun i hi => hinv i (List.mem_cons_of_mem x hi))
      (fun i hi => hstep i (List.mem_cons_of_mem x hi)) hrest
      (hinv x List.mem_cons_self start u hs hu)
    have hfilter : (x :: xs).filter p = [x].filter p ++ xs.filter p := by
      rw [← List.filter_append]
      rfl
    rw [hfilter, ← List.append_assoc]
    exact hrun.trans (hround.append_right _)

end Loop

end Precedence

end NianPass
