import NianPass.Lib.Forest
import Mathlib.Data.List.Perm.Subperm
import Mathlib.Logic.Relation

/-
  Walking a graph of child lists from a root.

  `visit` goes to a node once, refuses one that it has met before or does not know, and
  then goes to its children in order. Where it is never refused, what it has met is
  `Forest.spread`, which lists a node once for each walk that leads to it
  (`visit_eq_some_iff`). So a walk that meets as many nodes as there are has met each of them
  exactly once (`visit_covers_iff`).

  `nodup_spread`: if the child lists belong to parent pointers, there is one walk to each node
  at most.
-/
namespace NianPass.Forest

variable {ι : Type}

/-- The children of a node, none of one that is not known. -/
def kids (children : ι → Option (List ι)) (x : ι) : List ι := (children x).getD []

section Visit
variable [DecidableEq ι] (children : ι → Option (List ι))

/-- The nodes met so far are taken along, the latest first. -/
def visit : ℕ → ι → List ι → Option (List ι)
  | 0, _, _ => none
  | fuel + 1, x, met =>
    if x ∈ met then none
    else (children x).bind fun found => found.foldlM (fun met child => visit fuel child met) (x :: met)

variable {children} {x : ι} {met after : List ι}

/-- What a walk may find: nodes that are known, each once, and none that was met before. -/
def Clear (children : ι → Option (List ι)) (nodes met : List ι) : Prop :=
  nodes.Nodup ∧ ∀ y ∈ nodes, (children y).isSome = true ∧ y ∉ met

omit [DecidableEq ι] in
theorem clear_append {nodes later met : List ι} :
    Clear children (nodes ++ later) met ↔
      Clear children nodes met ∧ Clear children later (nodes.reverse ++ met) := by
  unfold Clear
  constructor
  · rintro ⟨hnodup, hall⟩
    obtain ⟨hnodes, hlater, hdisjoint⟩ := List.nodup_append.1 hnodup
    refine ⟨⟨hnodes, fun y hy => hall y (List.mem_append_left _ hy)⟩, hlater, fun y hy => ?_⟩
    obtain ⟨hknown, hfresh⟩ := hall y (List.mem_append_right _ hy)
    refine ⟨hknown, fun hmem => ?_⟩
    rcases List.mem_append.1 hmem with hbefore | hmet
    · exact hdisjoint y (List.mem_reverse.1 hbefore) y hy rfl
    · exact hfresh hmet
  · rintro ⟨⟨hnodes, hfirst⟩, hlater, hrest⟩
    refine ⟨List.nodup_append.2 ⟨hnodes, hlater, ?_⟩, fun y hy => ?_⟩
    · rintro y hy z hz rfl
      exact (hrest y hz).2 (List.mem_append_left _ (List.mem_reverse.2 hy))
    · rcases List.mem_append.1 hy with hy | hy
      · exact hfirst y hy
      · exact ⟨(hrest y hy).1, fun hmet => (hrest y hy).2 (List.mem_append_right _ hmet)⟩

omit [DecidableEq ι] in
theorem clear_cons {later : List ι} : Clear children (x :: later) met ↔
    ((children x).isSome = true ∧ x ∉ met) ∧ Clear children later (x :: met) := by
  rw [← List.singleton_append, clear_append]
  simp [Clear]

/-- The children are walked one after the other. -/
theorem visitAll_eq_some_iff {fuel : ℕ} {nodes : List ι}
    (h : ∀ x met after, visit children (fuel + 1) x met = some after ↔
      Clear children (spread (kids children) fuel x) met ∧
        (∀ y, Steps (fun a b => b ∈ kids children a) fuel x y → kids children y = []) ∧
        after = (spread (kids children) fuel x).reverse ++ met) :
    nodes.foldlM (fun met child => visit children (fuel + 1) child met) met = some after ↔
      Clear children (nodes.flatMap (spread (kids children) fuel)) met ∧
        (∀ x ∈ nodes, ∀ y, Steps (fun a b => b ∈ kids children a) fuel x y → kids children y = []) ∧
        after = (nodes.flatMap (spread (kids children) fuel)).reverse ++ met := by
  induction nodes generalizing met with
  | nil =>
    have hclear : Clear children [] met := ⟨List.nodup_nil, fun y hy => nomatch hy⟩
    constructor
    · intro hfold
      exact ⟨hclear, (fun x hx => nomatch hx), (Option.some.inj hfold).symm⟩
    · rintro ⟨-, -, rfl⟩
      rfl
  | cons node nodes ih =>
    rw [List.foldlM_cons, List.flatMap_cons, clear_append]
    constructor
    · intro hfold
      obtain ⟨middle, hnode, hrest⟩ := Option.bind_eq_some_iff.1 hfold
      obtain ⟨hclear, hleaf, rfl⟩ := (h node met middle).1 hnode
      obtain ⟨hclear', hleaf', rfl⟩ := ih.1 hrest
      refine ⟨⟨hclear, hclear'⟩, ?_, by simp⟩
      exact List.forall_mem_cons.2 ⟨hleaf, hleaf'⟩
    · rintro ⟨⟨hclear, hclear'⟩, hleaf, rfl⟩
      obtain ⟨hleaf, hleaf'⟩ := List.forall_mem_cons.1 hleaf
      refine Option.bind_eq_some_iff.2 ⟨_, (h node met _).2 ⟨hclear, hleaf, rfl⟩, ?_⟩
      exact ih.2 ⟨hclear', hleaf', by simp⟩

/-- A walk is not refused if what is spread out before it is clear, and ends within the fuel. -/
theorem visit_eq_some_iff (fuel : ℕ) : ∀ x met after,
    visit children (fuel + 1) x met = some after ↔
      Clear children (spread (kids children) fuel x) met ∧
        (∀ y, Steps (fun a b => b ∈ kids children a) fuel x y → kids children y = []) ∧
        after = (spread (kids children) fuel x).reverse ++ met := by
  induction fuel with
  | zero =>
    intro x met after
    unfold visit
    by_cases hmet : x ∈ met
    · rw [if_pos hmet]
      simp [Clear, spread, hmet]
    · rw [if_neg hmet]
      cases hchildren : children x with
      | none => simp [Clear, spread, hchildren]
      | some found =>
        cases found with
        | nil =>
          have hclear : Clear children [x] met := by simp [Clear, hchildren, hmet]
          constructor
          · intro hvisit
            refine ⟨hclear, ?_, (Option.some.inj hvisit).symm⟩
            rintro y rfl
            simp [kids, hchildren]
          · rintro ⟨-, -, rfl⟩
            rfl
        | cons child found =>
          simp [spread, hchildren, kids, Steps, visit]
  | succ fuel ih =>
    intro x met after
    rw [visit]
    by_cases hmet : x ∈ met
    · rw [if_pos hmet]
      simp [Clear, spread, hmet]
    · rw [if_neg hmet]
      cases hchildren : children x with
      | none =>
        simp only [Option.bind_none, reduceCtorEq, false_iff]
        rintro ⟨⟨-, hall⟩, -⟩
        have hknown := (hall x (by simp [spread])).1
        rw [hchildren] at hknown
        cases hknown
      | some found =>
        have hkids : kids children x = found := by rw [kids, hchildren, Option.getD_some]
        rw [Option.bind_some, visitAll_eq_some_iff ih, spread, hkids, clear_cons, hchildren]
        constructor
        · rintro ⟨hclear, hleaf, rfl⟩
          refine ⟨⟨⟨rfl, hmet⟩, hclear⟩, ?_, by simp⟩
          rintro y ⟨z, hz, hsteps⟩
          exact hleaf z (hkids ▸ hz) y hsteps
        · rintro ⟨⟨-, hclear⟩, hleaf, rfl⟩
          refine ⟨hclear, fun z hz y hsteps => hleaf y ⟨z, ?_, hsteps⟩, by simp⟩
          show z ∈ kids children x
          rw [hkids]
          exact hz

end Visit

/-! ## Meeting every node -/

theorem exists_steps_iff {R : ι → ι → Prop} {x y : ι} :
    (∃ k, Steps R k x y) ↔ Relation.ReflTransGen R x y := by
  constructor
  · rintro ⟨k, hsteps⟩
    induction k generalizing x with
    | zero => exact hsteps ▸ .refl
    | succ k ih =>
      obtain ⟨z, hz, hrest⟩ := hsteps
      exact .head hz (ih hrest)
  · intro h
    induction h using Relation.ReflTransGen.head_induction_on with
    | refl => exact ⟨0, rfl⟩
    | head hz _ ih =>
      obtain ⟨k, hrest⟩ := ih
      exact ⟨k + 1, _, hz, hrest⟩

/-- Each step of a walk is a node of what is spread out. -/
theorem lt_length_spread {succ : ι → List ι} {n : ℕ} {x y : ι}
    (h : Steps (fun a b => b ∈ succ a) n x y) : n < (spread succ n x).length := by
  induction n generalizing x with
  | zero => simp [spread]
  | succ n ih =>
    obtain ⟨z, hz, hsteps⟩ := h
    have hpart : (spread succ n z).length ≤ ((succ x).flatMap (spread succ n)).length :=
      (List.sublist_flatten_of_mem (List.mem_map_of_mem hz)).length_le
    have hlt := ih hsteps
    rw [spread, List.length_cons]
    omega

/-- A walk that is not refused meets as many nodes as there are exactly if every node is spread out
once. -/
theorem visit_covers_iff [DecidableEq ι] {children : ι → Option (List ι)} {nodes : List ι}
    (hnodes : nodes.Nodup) (hknown : ∀ x, (children x).isSome = true ↔ x ∈ nodes) (root : ι) :
    (∃ met, visit children (nodes.length + 1) root [] = some met ∧ met.length = nodes.length) ↔
      (spread (kids children) nodes.length root).Perm nodes := by
  constructor
  · rintro ⟨met, hvisit, hlength⟩
    obtain ⟨⟨hnodup, hall⟩, -, rfl⟩ := (visit_eq_some_iff _ _ _ _).1 hvisit
    have hsub : spread (kids children) nodes.length root ⊆ nodes :=
      fun y hy => (hknown y).1 (hall y hy).1
    refine (hnodup.subperm hsub).perm_of_length_le ?_
    simp only [List.append_nil, List.length_reverse] at hlength
    exact hlength.ge
  · intro hperm
    have hnodup := hperm.nodup_iff.2 hnodes
    refine ⟨_, (visit_eq_some_iff _ _ _ _).2 ⟨⟨hnodup, fun y hy => ?_⟩, ?_, rfl⟩, ?_⟩
    · exact ⟨(hknown y).2 (hperm.mem_iff.1 hy), List.not_mem_nil⟩
    · -- a walk as long as there are nodes would meet one more
      intro y hsteps
      have hlt := lt_length_spread hsteps
      rw [hperm.length_eq] at hlt
      exact absurd hlt (Nat.lt_irrefl _)
    · rw [List.append_nil, List.length_reverse, hperm.length_eq]

/-! ## Child lists that belong to parent pointers -/

section Parents
variable {succ : ι → List ι} {parent : ι → Option ι} {root x y : ι}

theorem climb_of_steps (hparent : ∀ p c, c ∈ succ p → parent c = some p) {k : ℕ}
    (h : Steps (fun a b => b ∈ succ a) k x y) : climb parent k y = some x := by
  induction k generalizing x with
  | zero => exact congrArg some h.symm
  | succ k ih =>
    obtain ⟨z, hz, hsteps⟩ := h
    rw [climb_add, ih hsteps]
    simp [climb, hparent x z hz]

/-- Below a node under the root there is one walk to each node at most. -/
theorem nodup_spread (hparent : ∀ p c, c ∈ succ p → parent c = some p)
    (hsucc : ∀ p, (succ p).Nodup) (htop : parent root = none) (n : ℕ) :
    ∀ {k x}, climb parent k x = some root → (spread succ n x).Nodup := by
  induction n with
  | zero => exact fun _ => List.nodup_singleton _
  | succ n ih =>
    intro k x hx
    -- where a walk from `x` ends, the root is so many links above
    have hclimb : ∀ {j y}, Steps (fun a b => b ∈ succ a) j x y →
        climb parent (j + k) y = some root := by
      intro j y hsteps
      rw [climb_add, climb_of_steps hparent hsteps]
      exact hx
    have hdepth : ∀ {j j' y}, Steps (fun a b => b ∈ succ a) j x y →
        Steps (fun a b => b ∈ succ a) j' x y → j = j' := by
      intro j j' y hj hj'
      have := climb_top_unique htop (hclimb hj) (hclimb hj')
      omega
    refine List.nodup_cons.2 ⟨fun hmem => ?_, ?_⟩
    · obtain ⟨z, hz, hspread⟩ := List.mem_flatMap.1 hmem
      obtain ⟨j, -, hsteps⟩ := mem_spread.1 hspread
      have hloop : Steps (fun a b => b ∈ succ a) (j + 1) x x := ⟨z, hz, hsteps⟩
      exact Nat.succ_ne_zero j (hdepth hloop rfl)
    · refine List.nodup_flatMap.2 ⟨fun z hz => ?_, ?_⟩
      · have hzx : climb parent (k + 1) z = some root := by
          rw [Nat.add_comm]
          exact hclimb ⟨z, hz, rfl⟩
        exact ih hzx
      · refine (hsucc x).imp_of_mem fun {a b} ha hb hne => ?_
        intro y hya hyb
        obtain ⟨j, -, hj⟩ := mem_spread.1 hya
        obtain ⟨j', -, hj'⟩ := mem_spread.1 hyb
        have hsame : j + 1 = j' + 1 := hdepth ⟨a, ha, hj⟩ ⟨b, hb, hj'⟩
        obtain rfl := Nat.succ_injective hsame
        have hboth := (climb_of_steps hparent hj).symm.trans (climb_of_steps hparent hj')
        exact hne (Option.some.inj hboth)

end Parents

end NianPass.Forest
