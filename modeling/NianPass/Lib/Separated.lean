import Mathlib.Tactic

/-
  Lists written one after the other with a separator between them, and read back by splitting.

  The reader may split at more than the one separator that is written. What comes back is every
  list cut at the separators it contained itself, so a list of lists survives exactly if none of
  them contains one (`splitOnP_intercalate_iff`).
-/
namespace NianPass.Separated

variable {α : Type} {p : α → Bool} {sep : α}

theorem splitOnP_intercalate (hsep : p sep = true) {lists : List (List α)} (hne : lists ≠ []) :
    ([sep].intercalate lists).splitOnP p = lists.flatMap (·.splitOnP p) := by
  induction lists with
  | nil => exact absurd rfl hne
  | cons first rest ih =>
    cases rest with
    | nil => simp
    | cons second rest =>
      rw [List.intercalate_cons_cons, List.append_assoc, List.singleton_append,
        List.splitOnP_append_cons _ _ hsep, ih (List.cons_ne_nil _ _)]
      rfl

/-- A piece of what was split contains no separator. -/
theorem clean_of_mem_splitOnP {text piece : List α} (h : piece ∈ text.splitOnP p) :
    ∀ a ∈ piece, p a = false := by
  induction text generalizing piece with
  | nil =>
    rw [List.splitOnP_nil, List.mem_singleton] at h
    simp [h]
  | cons a text ih =>
    rw [List.splitOnP_cons_eq_if_modifyHead] at h
    split at h
    · rcases List.mem_cons.mp h with rfl | h
      · simp
      · exact ih h
    · case isFalse hclean =>
      obtain ⟨first, rest, hsplit⟩ := List.exists_cons_of_ne_nil (List.splitOnP_ne_nil p text)
      rw [hsplit, List.modifyHead_cons] at h
      rcases List.mem_cons.mp h with rfl | h
      · intro b hb
        rcases List.mem_cons.mp hb with rfl | hb
        · exact Bool.eq_false_iff.mpr hclean
        · exact ih (hsplit ▸ List.mem_cons_self) b hb
      · exact ih (hsplit ▸ List.mem_cons_of_mem _ h)

theorem splitOnP_intercalate_iff (hsep : p sep = true) {lists : List (List α)} (hne : lists ≠ []) :
    ([sep].intercalate lists).splitOnP p = lists ↔ ∀ l ∈ lists, ∀ a ∈ l, p a = false := by
  rw [splitOnP_intercalate hsep hne]
  constructor
  · intro hread l hl
    rw [← hread] at hl
    obtain ⟨whole, -, hpiece⟩ := List.mem_flatMap.mp hl
    exact clean_of_mem_splitOnP hpiece
  · intro hclean
    calc lists.flatMap (·.splitOnP p)
      _ = lists.flatMap fun l => [l] :=
        List.flatMap_congr fun l hl => List.splitOnP_eq_singleton (hclean l hl)
      _ = lists := by rw [List.flatMap_singleton']

end NianPass.Separated
