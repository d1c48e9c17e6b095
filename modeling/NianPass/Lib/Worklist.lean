import NianPass.Lib.Forest

/-
  A worklist that goes down a forest.

  `Collects children result pending out` is the loop that pops a node, pushes its
  children and records the node, with no bound on its rounds: from the nodes
  recorded so far and the nodes still to come it ends with the records `out`.
  `children x` is `none` for a node that does not exist, where the loop fails.

  In a forest whose lists of children agree with the parent pointers the loop
  ends, and it records every node below the one it starts from once
  (`collects_below`). `Pending` is the invariant: a node that waits has its
  parent on record, so its own children are new.
-/
namespace NianPass.Forest

variable {ι : Type} {children : ι → Option (List ι)} {parent : ι → Option ι}
  {result pending out : List ι} {top x : ι}

/-- From `result` on record and `pending` to come, the loop ends with `out` on record. -/
inductive Collects (children : ι → Option (List ι)) : List ι → List ι → List ι → Prop where
  | done (result : List ι) : Collects children result [] result
  | visit {result pending out next : List ι} {x : ι} (hnext : children x = some next)
      (hrest : Collects children (result ++ [x]) (next.reverse ++ pending) out) :
      Collects children result (x :: pending) out

/-- Nothing on record and nothing that waits is lost. -/
theorem Collects.length_le (h : Collects children result pending out) :
    result.length + pending.length ≤ out.length := by
  induction h with
  | done result => simp
  | visit hnext _ ih =>
    simp only [List.length_append, List.length_reverse, List.length_cons, List.length_nil] at ih ⊢
    omega

/-- What is on record and what waits are distinct nodes below `top`; each but `top` has its parent
on record, and so is every child of a node on record or it waits. -/
structure Pending (children : ι → Option (List ι)) (parent : ι → Option ι) (top : ι)
    (result pending : List ι) : Prop where
  nodup : (result ++ pending).Nodup
  start : top ∈ result ++ pending
  below : ∀ x ∈ result ++ pending, Above parent top x
  hung : ∀ x ∈ result ++ pending, x = top ∨ ∃ p ∈ result, parent x = some p
  closed : ∀ p ∈ result, ∀ c, parent c = some p → c ∈ result ++ pending

theorem Pending.init (htop : Above parent top top) : Pending children parent top [] [top] where
  nodup := List.nodup_singleton top
  start := List.mem_singleton_self top
  below := by simpa using htop
  hung := by simp
  closed := by simp

/-- A round keeps the invariant: no child of the node that is popped is known yet. -/
theorem Pending.visit {next : List ι} (h : Pending children parent top result (x :: pending))
    (hlist : ∀ c, c ∈ next ↔ parent c = some x) (hnext : next.Nodup)
    (hacyclic : ∀ p, parent top = some p → ¬ Above parent top p) :
    Pending children parent top (result ++ [x]) (next.reverse ++ pending) := by
  have hbelow : Above parent top x := h.below x (by simp)
  have hxnew : x ∉ result := by
    intro hx
    exact (List.nodup_append.mp h.nodup).2.2 x hx x List.mem_cons_self rfl
  have hnew : ∀ c ∈ next, c ∉ result ++ x :: pending := by
    intro c hc hknown
    have hparent := (hlist c).mp hc
    rcases h.hung c hknown with rfl | ⟨p, hp, hother⟩
    · exact hacyclic x hparent hbelow
    · obtain rfl := Option.some.inj (hparent.symm.trans hother)
      exact hxnew hp
  have hmem : ∀ y, y ∈ (result ++ [x]) ++ (next.reverse ++ pending) ↔
      y ∈ result ++ x :: pending ∨ y ∈ next := by
    intro y
    simp only [List.mem_append, List.mem_cons, List.mem_reverse, List.not_mem_nil, or_false]
    tauto
  constructor
  case nodup =>
    have hperm : ((result ++ [x]) ++ (next.reverse ++ pending)).Perm
        (next ++ (result ++ x :: pending)) := by
      rw [List.append_assoc, List.singleton_append]
      have hmiddle : (x :: (next.reverse ++ pending)).Perm (next ++ x :: pending) :=
        (List.Perm.cons x ((List.reverse_perm next).append_right pending)).trans
          List.perm_middle.symm
      refine (hmiddle.append_left result).trans ?_
      rw [← List.append_assoc, ← List.append_assoc]
      exact List.perm_append_comm.append_right (x :: pending)
    refine hperm.nodup_iff.mpr (List.nodup_append.mpr ⟨hnext, h.nodup, ?_⟩)
    rintro c hc _ hknown rfl
    exact hnew c hc hknown
  case start => exact (hmem top).mpr (Or.inl h.start)
  case below =>
    intro y hy
    rcases (hmem y).mp hy with hy | hy
    · exact h.below y hy
    · exact above_of_parent ((hlist y).mp hy) hbelow
  case hung =>
    intro y hy
    rcases (hmem y).mp hy with hy | hy
    · rcases h.hung y hy with heq | ⟨p, hp, hparent⟩
      · exact Or.inl heq
      · exact Or.inr ⟨p, List.mem_append_left _ hp, hparent⟩
    · exact Or.inr ⟨x, by simp, (hlist y).mp hy⟩
  case closed =>
    intro p hp c hc
    apply (hmem c).mpr
    rcases List.mem_append.mp hp with hp | hp
    · exact Or.inl (h.closed p hp c hc)
    · obtain rfl := List.mem_singleton.mp hp
      exact Or.inr ((hlist c).mpr hc)

/-- Where nothing waits any more, everything below `top` is on record. -/
theorem Pending.complete (h : Pending children parent top result []) :
    x ∈ result ↔ Above parent top x := by
  constructor
  · intro hx
    exact h.below x (List.mem_append_left _ hx)
  · rintro ⟨k, hk⟩
    induction k generalizing x with
    | zero =>
      obtain rfl : x = top := Option.some.inj hk
      simpa using h.start
    | succ k ih =>
      obtain ⟨p, hp, hk⟩ := Option.bind_eq_some_iff.mp hk
      simpa using h.closed p (ih hk) x hp

/-- From a state of the invariant the loop ends, and every node below `top` is recorded once. -/
theorem Pending.collects {nodes : List ι} (h : Pending children parent top result pending)
    (hfinite : ∀ x, Above parent top x → x ∈ nodes)
    (hlist : ∀ x, Above parent top x →
      ∃ next, children x = some next ∧ next.Nodup ∧ ∀ c, c ∈ next ↔ parent c = some x)
    (hacyclic : ∀ p, parent top = some p → ¬ Above parent top p) :
    ∃ out, Collects children result pending out ∧ Pending children parent top out [] := by
  -- Each round records one node more, and there are only so many.
  induction hleft : nodes.length - result.length generalizing result pending with
  | zero =>
    cases pending with
    | nil => exact ⟨result, .done result, h⟩
    | cons x pending =>
      have hle := (h.nodup.subperm fun y hy => hfinite y (h.below y hy)).length_le
      simp only [List.length_append, List.length_cons] at hle
      omega
  | succ left ih =>
    cases pending with
    | nil => exact ⟨result, .done result, h⟩
    | cons x pending =>
      obtain ⟨next, hnext, hnodup, hmem⟩ := hlist x (h.below x (by simp))
      have hround := h.visit hmem hnodup hacyclic
      obtain ⟨out, hout, hdone⟩ := ih hround (by rw [List.length_append, List.length_singleton]; omega)
      exact ⟨out, .visit hnext hout, hdone⟩

/-- The loop that starts from `top` records every node below it, each once. -/
theorem collects_below {nodes : List ι} (hfinite : ∀ x, Above parent top x → x ∈ nodes)
    (hlist : ∀ x, Above parent top x →
      ∃ next, children x = some next ∧ next.Nodup ∧ ∀ c, c ∈ next ↔ parent c = some x)
    (hacyclic : ∀ p, parent top = some p → ¬ Above parent top p) :
    ∃ out, Collects children [] [top] out ∧ out.Nodup ∧ ∀ x, x ∈ out ↔ Above parent top x := by
  have hstart : Pending children parent top [] [top] := .init (above_refl top)
  obtain ⟨out, hout, hdone⟩ := hstart.collects hfinite hlist hacyclic
  exact ⟨out, hout, by simpa using hdone.nodup, fun x => hdone.complete⟩

end NianPass.Forest
