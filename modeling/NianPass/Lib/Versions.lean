import Mathlib.Tactic

/-
  Two records of versions, each the newest first, and their union.

  A version is recognised by what it looks like (`view`). The union keeps the first record as it
  is and appends from the second what is `fresh`: what looks like nothing in the first and like
  nothing earlier in the second.

  A record that may keep `k` versions keeps the first `k`. For a union those are the newest `k`
  exactly if the first version that is dropped from the second record is not newer than the last
  one that is kept of the first (`newest_kept_iff`).
-/
namespace NianPass.Versions

section Fresh

variable {α γ : Type} [DecidableEq γ] {view : α → γ} {seen : List γ}

/-- The versions that look neither like something in `seen` nor like an earlier one. -/
def fresh (view : α → γ) : List γ → List α → List α
  | _, [] => []
  | seen, version :: rest =>
    if view version ∈ seen then fresh view seen rest else version :: fresh view (view version :: seen) rest

theorem fresh_congr {seen other : List γ} (h : ∀ look, look ∈ seen ↔ look ∈ other) (versions : List α) :
    fresh view seen versions = fresh view other versions := by
  induction versions generalizing seen other with
  | nil => rfl
  | cons version rest ih =>
    unfold fresh
    by_cases hseen : view version ∈ seen
    · rw [if_pos hseen, if_pos ((h _).1 hseen), ih h]
    · rw [if_neg hseen, if_neg (fun hother => hseen ((h _).2 hother)), ih]
      intro look
      rw [List.mem_cons, List.mem_cons, h]

/-- Whether a version has been seen makes no difference to what comes after it. -/
theorem fresh_cons (version : α) (rest : List α) :
    fresh view seen (version :: rest) =
      (if view version ∈ seen then [] else [version]) ++ fresh view (view version :: seen) rest := by
  rw [fresh]
  by_cases hseen : view version ∈ seen
  · rw [if_pos hseen, if_pos hseen, List.nil_append]
    refine fresh_congr (fun look => ?_) rest
    rw [List.mem_cons]
    exact ⟨Or.inr, fun h => h.elim (fun heq => heq ▸ hseen) id⟩
  · rw [if_neg hseen, if_neg hseen, List.singleton_append]

theorem fresh_sublist (versions : List α) : (fresh view seen versions).Sublist versions := by
  induction versions generalizing seen with
  | nil => exact List.Sublist.refl []
  | cons version rest ih =>
    unfold fresh
    split
    · exact ih.cons version
    · exact ih.cons_cons version

theorem view_not_mem_of_mem_fresh {versions : List α} {version : α} (h : version ∈ fresh view seen versions) :
    view version ∉ seen := by
  induction versions generalizing seen with
  | nil => cases h
  | cons first rest ih =>
    unfold fresh at h
    split at h
    · exact ih h
    · next hseen =>
      rcases List.mem_cons.1 h with rfl | hrest
      · exact hseen
      · exact fun hmem => ih hrest (List.mem_cons_of_mem _ hmem)

/-- No two of them look the same. -/
theorem fresh_views_nodup (versions : List α) : ((fresh view seen versions).map view).Nodup := by
  induction versions generalizing seen with
  | nil => exact List.nodup_nil
  | cons version rest ih =>
    unfold fresh
    split
    · exact ih
    · rw [List.map_cons, List.nodup_cons]
      refine ⟨fun hmem => ?_, ih⟩
      obtain ⟨other, hother, heq⟩ := List.mem_map.1 hmem
      exact view_not_mem_of_mem_fresh hother (heq ▸ List.mem_cons_self)

/-- Every version is represented. -/
theorem seen_or_fresh {versions : List α} {version : α} (h : version ∈ versions) :
    view version ∈ seen ∨ ∃ other ∈ fresh view seen versions, view other = view version := by
  induction versions generalizing seen with
  | nil => cases h
  | cons first rest ih =>
    unfold fresh
    split
    · next hseen =>
      rcases List.mem_cons.1 h with rfl | hrest
      · exact Or.inl hseen
      · exact ih hrest
    · rcases List.mem_cons.1 h with rfl | hrest
      · exact Or.inr ⟨_, List.mem_cons_self, rfl⟩
      · rcases ih hrest with hseen | ⟨other, hother, heq⟩
        · rcases List.mem_cons.1 hseen with hfirst | hold
          · exact Or.inr ⟨first, List.mem_cons_self, hfirst.symm⟩
          · exact Or.inl hold
        · exact Or.inr ⟨other, List.mem_cons_of_mem _ hother, heq⟩

theorem fresh_eq_nil_iff {versions : List α} :
    fresh view seen versions = [] ↔ ∀ version ∈ versions, view version ∈ seen := by
  constructor
  · intro h version hmem
    have hcases : view version ∈ seen ∨ ∃ other ∈ fresh view seen versions, view other = view version :=
      seen_or_fresh hmem
    rcases hcases with hseen | ⟨other, hother, -⟩
    · exact hseen
    · rw [h] at hother
      cases hother
  · intro h
    refine List.eq_nil_iff_forall_not_mem.2 (fun version hmem => ?_)
    exact view_not_mem_of_mem_fresh hmem (h version ((fresh_sublist versions).subset hmem))

/-- What the first versions look like has been seen. -/
theorem fresh_eq_drop {versions : List α} (count : Nat) (h : ∀ version ∈ versions.take count, view version ∈ seen) :
    fresh view seen versions = fresh view seen (versions.drop count) := by
  induction count generalizing versions with
  | zero => rfl
  | succ count ih =>
    cases versions with
    | nil => rfl
    | cons version rest =>
      rw [List.take_succ_cons, List.forall_mem_cons] at h
      rw [fresh, if_pos h.1, List.drop_succ_cons]
      exact ih h.2

/-- The same by positions. -/
theorem fresh_eq_filter (versions : List α) : fresh view seen versions =
    (versions.zipIdx.filter fun item : α × Nat => decide (view item.1 ∉ seen ∧
      ∀ earlier ∈ versions.take item.2, view earlier ≠ view item.1)).map Prod.fst := by
  induction versions generalizing seen with
  | nil => rfl
  | cons version rest ih =>
    have htail : ∀ item : α × Nat, (view item.1 ∉ seen ∧
          ∀ earlier ∈ (version :: rest).take (item.2 + 1), view earlier ≠ view item.1) ↔
        view item.1 ∉ view version :: seen ∧ ∀ earlier ∈ rest.take item.2, view earlier ≠ view item.1 := by
      intro item
      rw [List.take_succ_cons, List.forall_mem_cons, List.mem_cons, not_or]
      constructor
      · rintro ⟨hseen, hne, hrest⟩
        exact ⟨⟨fun heq => hne heq.symm, hseen⟩, hrest⟩
      · rintro ⟨⟨hne, hseen⟩, hrest⟩
        exact ⟨hseen, fun heq => hne heq.symm, hrest⟩
    have hrest : ((rest.zipIdx 1).filter fun item : α × Nat => decide (view item.1 ∉ seen ∧
          ∀ earlier ∈ (version :: rest).take item.2, view earlier ≠ view item.1)).map Prod.fst =
        fresh view (view version :: seen) rest := by
      rw [ih, List.zipIdx_succ, List.filter_map, List.map_map]
      congr 1
      refine List.filter_congr (fun item _ => ?_)
      exact decide_eq_decide.2 (htail item)
    rw [fresh_cons, ← hrest, List.zipIdx_cons, List.filter_cons]
    by_cases hseen : view version ∈ seen
    · simp [hseen]
    · simp [hseen]

end Fresh

section Newest

variable {α τ : Type} [LinearOrder τ] {time : α → τ} {first second : List α}

/-- Of a record that is the newest first, nothing kept is older than something dropped. -/
theorem dropped_le_kept (h : first.Pairwise fun newer older => time older ≤ time newer) (limit : Nat)
    {dropped kept : α} (hdropped : dropped ∈ first.drop limit) (hkept : kept ∈ first.take limit) :
    time dropped ≤ time kept := by
  rw [← List.take_append_drop limit first] at h
  exact (List.pairwise_append.1 h).2.2 kept hkept dropped hdropped

theorem getLast?_le {last : α} (h : first.Pairwise fun newer older => time older ≤ time newer)
    (hlast : last ∈ first.getLast?) {version : α} (hmem : version ∈ first) : time last ≤ time version := by
  obtain ⟨init, rfl⟩ := List.getLast?_eq_some_iff.1 hlast
  rcases List.mem_append.1 hmem with hinit | hsame
  · exact (List.pairwise_append.1 h).2.2 version hinit last (List.mem_singleton_self last)
  · rw [List.mem_singleton.1 hsame]

theorem le_head? {head : α} (h : first.Pairwise fun newer older => time older ≤ time newer)
    (hhead : head ∈ first.head?) {version : α} (hmem : version ∈ first) : time version ≤ time head := by
  cases first with
  | nil => cases hmem
  | cons version' rest =>
    obtain rfl : version' = head := Option.some.inj hhead
    rcases List.mem_cons.1 hmem with rfl | hrest
    · exact le_refl _
    · exact (List.pairwise_cons.1 h).1 version hrest

theorem newest_kept_iff (hfirst : first.Pairwise fun newer older => time older ≤ time newer)
    (hsecond : second.Pairwise fun newer older => time older ≤ time newer) (limit : Nat) :
    (∀ dropped ∈ (first ++ second).drop limit, ∀ kept ∈ (first ++ second).take limit,
        time dropped ≤ time kept) ↔
      ∀ dropped ∈ (second.drop (limit - first.length)).head?, ∀ kept ∈ (first.take limit).getLast?,
        time dropped ≤ time kept := by
  rw [List.drop_append, List.take_append]
  constructor
  · intro h dropped hdropped kept hkept
    exact h dropped (List.mem_append_right _ (List.mem_of_mem_head? hdropped)) kept
      (List.mem_append_left _ (List.mem_of_mem_getLast? hkept))
  · intro h dropped hdropped kept hkept
    have hrest : (second.drop (limit - first.length)).Pairwise fun newer older => time older ≤ time newer :=
      hsecond.sublist (List.drop_sublist _ _)
    have htaken : (first.take limit).Pairwise fun newer older => time older ≤ time newer :=
      hfirst.sublist (List.take_sublist _ _)
    rcases List.mem_append.1 hdropped with hdroppedFirst | hdroppedSecond
    · rcases List.mem_append.1 hkept with hkeptFirst | hkeptSecond
      · exact dropped_le_kept hfirst limit hdroppedFirst hkeptFirst
      · -- the limit is either below the length of the first record or above it
        have hshort : limit < first.length := by
          by_contra hlong
          rw [List.drop_eq_nil_of_le (by omega)] at hdroppedFirst
          cases hdroppedFirst
        rw [Nat.sub_eq_zero_of_le (Nat.le_of_lt hshort)] at hkeptSecond
        cases hkeptSecond
    · rcases List.mem_append.1 hkept with hkeptFirst | hkeptSecond
      · obtain ⟨head, hhead⟩ : ∃ head, head ∈ (second.drop (limit - first.length)).head? :=
          Option.isSome_iff_exists.1 (List.isSome_head?.2 (List.ne_nil_of_mem hdroppedSecond))
        obtain ⟨last, hlast⟩ : ∃ last, last ∈ (first.take limit).getLast? :=
          Option.isSome_iff_exists.1 (List.getLast?_isSome.2 (List.ne_nil_of_mem hkeptFirst))
        calc time dropped ≤ time head := le_head? hrest hhead hdroppedSecond
          _ ≤ time last := h head hhead last hlast
          _ ≤ time kept := getLast?_le htaken hlast hkeptFirst
      · exact dropped_le_kept hsecond _ hdroppedSecond hkeptSecond

end Newest

end NianPass.Versions
