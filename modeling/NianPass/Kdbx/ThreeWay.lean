import NianPass.Kdbx.Model

/-
  The three-way choice, for one value (`choose_three_way`) and for a map of
  named values (`merge_named_map`).

  `IsThreeWay base loc remote merged` says what the choice is for: the common
  value where the branches agree, and otherwise the value of the branch that
  changed it, which exists only if the other branch left it alone.
  `chooseThreeWay_eq_some` and `mergeNamedMap_spec` connect the code to it.
-/
namespace NianPass.Kdbx

/-! ## One value -/

section Choice
variable {α : Type} {base loc remote merged : α}

/-- `merged` keeps the change of the branch that made one, and at most one did. -/
structure IsThreeWay (base loc remote merged : α) : Prop where
  agreed : loc = remote → merged = loc
  remoteChange : loc = base → merged = remote
  localChange : remote = base → merged = loc
  decided : loc = remote ∨ loc = base ∨ remote = base

/-- Every choice is one of the two branches. -/
theorem IsThreeWay.eq_or (h : IsThreeWay base loc remote merged) :
    merged = loc ∨ merged = remote := by
  rcases h.decided with heq | heq | heq
  · exact Or.inl (h.agreed heq)
  · exact Or.inr (h.remoteChange heq)
  · exact Or.inl (h.localChange heq)

theorem IsThreeWay.unique {other : α} (h : IsThreeWay base loc remote merged)
    (h' : IsThreeWay base loc remote other) : merged = other := by
  rcases h.decided with heq | heq | heq
  · rw [h.agreed heq, h'.agreed heq]
  · rw [h.remoteChange heq, h'.remoteChange heq]
  · rw [h.localChange heq, h'.localChange heq]

variable [DecidableEq α]

def chooseThreeWay (base loc remote : α) : Option α :=
  if loc = remote then some loc
  else if loc = base then some remote
  else if remote = base then some loc
  else none

theorem chooseThreeWay_eq_some :
    chooseThreeWay base loc remote = some merged ↔ IsThreeWay base loc remote merged := by
  unfold chooseThreeWay
  by_cases hagree : loc = remote
  · subst hagree
    simp only [if_true, Option.some.injEq]
    exact ⟨fun h => ⟨fun _ => h.symm, fun _ => h.symm, fun _ => h.symm, Or.inl rfl⟩,
      fun h => (h.agreed rfl).symm⟩
  by_cases hlocal : loc = base
  · subst hlocal
    simp only [hagree, if_true, if_false, Option.some.injEq]
    exact ⟨fun h => ⟨fun e => absurd e hagree, fun _ => h.symm, fun e => absurd e.symm hagree,
      Or.inr (Or.inl rfl)⟩, fun h => (h.remoteChange rfl).symm⟩
  by_cases hremote : remote = base
  · subst hremote
    simp only [hlocal, if_true, if_false, Option.some.injEq]
    exact ⟨fun h => ⟨fun e => absurd e hlocal, fun e => absurd e hlocal, fun _ => h.symm,
      Or.inr (Or.inr rfl)⟩, fun h => (h.localChange rfl).symm⟩
  · simp only [hagree, hlocal, hremote, if_false, reduceCtorEq, false_iff]
    intro h
    simpa [hagree, hlocal, hremote] using h.decided

end Choice

/-! ## Keys -/

section Keys
variable {κ ν : Type} [Ord κ] [Std.TransOrd κ] [Std.LawfulEqOrd κ]

/-- The keys of three maps, sorted and without repetition. -/
def allKeys3 (base loc remote : Map κ ν) : List κ :=
  (Std.ExtTreeSet.ofList (base.keys ++ loc.keys ++ remote.keys) compare).toList

theorem mem_allKeys3 [BEq κ] [LawfulBEq κ] {base loc remote : Map κ ν} {key : κ} :
    key ∈ allKeys3 base loc remote ↔ key ∈ base ∨ key ∈ loc ∨ key ∈ remote := by
  simp [allKeys3, Std.ExtTreeSet.mem_ofList]

theorem nodup_allKeys3 (base loc remote : Map κ ν) : (allKeys3 base loc remote).Nodup := by
  refine List.Pairwise.imp ?_ Std.ExtTreeSet.distinct_toList
  rintro a b hne rfl
  exact hne Std.ReflOrd.compare_self

end Keys

/-! ## Named values -/

section NamedMap
variable {ν : Type} [DecidableEq ν]

/-- One round of the loop: the merged map so far and the names in conflict. -/
def mergeName (base loc remote : Map String ν) (acc : Map String ν × List String)
    (key : String) : Map String ν × List String :=
  let put : Option ν → Map String ν := fun selected =>
    match selected with
    | some value => acc.1.insert key value
    | none => acc.1
  match chooseThreeWay base[key]? loc[key]? remote[key]? with
  | some selected => (put selected, acc.2)
  | none => (put loc[key]?, acc.2 ++ [key])

/-- The merged map, with the names on which `conflict` is called. -/
def mergeNamedMap (base loc remote : Map String ν) : Map String ν × List String :=
  (allKeys3 base loc remote).foldl (mergeName base loc remote) (∅, [])

variable {base loc remote : Map String ν}

theorem mergeName_conflicts_eq_nil {acc : Map String ν × List String} {key : String}
    (h : (mergeName base loc remote acc key).2 = []) :
    acc.2 = [] ∧ ∃ selected, chooseThreeWay base[key]? loc[key]? remote[key]? = some selected := by
  unfold mergeName at h
  cases hchoice : chooseThreeWay base[key]? loc[key]? remote[key]? with
  | none => simp [hchoice] at h
  | some selected => exact ⟨by simpa [hchoice] using h, selected, rfl⟩

theorem mergeName_getElem? {acc : Map String ν × List String} {key name : String} :
    (mergeName base loc remote acc key).1[name]? =
      if key = name then ((chooseThreeWay base[key]? loc[key]? remote[key]?).getD loc[key]?).or
        acc.1[name]? else acc.1[name]? := by
  unfold mergeName
  cases chooseThreeWay base[key]? loc[key]? remote[key]? with
  | none =>
    cases loc[key]? with
    | none => simp
    | some value => by_cases h : key = name <;> simp [h, Std.ExtTreeMap.getElem?_insert]
  | some selected =>
    cases selected with
    | none => simp
    | some value => by_cases h : key = name <;> simp [h, Std.ExtTreeMap.getElem?_insert]

theorem foldl_mergeName_getElem? {keys : List String} (hkeys : keys.Nodup)
    (acc : Map String ν × List String) (name : String) (hacc : name ∈ keys → acc.1[name]? = none) :
    (keys.foldl (mergeName base loc remote) acc).1[name]? =
      if name ∈ keys then (chooseThreeWay base[name]? loc[name]? remote[name]?).getD loc[name]?
      else acc.1[name]? := by
  induction keys generalizing acc with
  | nil => simp
  | cons key rest ih =>
    obtain ⟨hnotin, hrest⟩ := List.nodup_cons.mp hkeys
    rw [List.foldl_cons, ih hrest _]
    · by_cases hname : name = key
      · subst hname
        simp [hnotin, mergeName_getElem?, hacc]
      · simp [hname, mergeName_getElem?, Ne.symm hname]
    · intro hmem
      have hne : key ≠ name := fun h => hnotin (h ▸ hmem)
      simp [mergeName_getElem?, hne, hacc (List.mem_cons_of_mem _ hmem)]

theorem foldl_mergeName_conflicts {keys : List String} {acc : Map String ν × List String}
    (h : (keys.foldl (mergeName base loc remote) acc).2 = []) :
    acc.2 = [] ∧ ∀ key ∈ keys, ∃ selected,
      chooseThreeWay base[key]? loc[key]? remote[key]? = some selected := by
  induction keys generalizing acc with
  | nil => simpa using h
  | cons key rest ih =>
    obtain ⟨hstep, hrest⟩ := ih h
    obtain ⟨hacc, hkey⟩ := mergeName_conflicts_eq_nil hstep
    exact ⟨hacc, List.forall_mem_cons.mpr ⟨hkey, hrest⟩⟩

/-- Where no name is in conflict, every name holds its three-way choice, absence included. -/
theorem mergeNamedMap_spec (h : (mergeNamedMap base loc remote).2 = []) (name : String) :
    IsThreeWay base[name]? loc[name]? remote[name]? (mergeNamedMap base loc remote).1[name]? := by
  have hget : (mergeNamedMap base loc remote).1[name]? = _ :=
    foldl_mergeName_getElem? (nodup_allKeys3 base loc remote) (∅, []) name (by simp)
  rw [hget]
  by_cases hmem : name ∈ allKeys3 base loc remote
  · obtain ⟨selected, hselected⟩ := (foldl_mergeName_conflicts h).2 name hmem
    simpa [hmem, hselected] using chooseThreeWay_eq_some.mp hselected
  · -- A name in none of the three maps is absent from the result.
    simp only [mem_allKeys3, not_or] at hmem
    simp only [mem_allKeys3, hmem, Std.ExtTreeMap.getElem?_eq_none, not_false_eq_true]
    exact ⟨by simp, by simp, by simp, by simp⟩

end NamedMap

end NianPass.Kdbx
