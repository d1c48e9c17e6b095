import NianPass.Kdbx.History
import NianPass.Kdbx.Restore
import NianPass.Lib.Versions

/-
  What `merge_history` makes of the histories of an entry.

  Two snapshots are the same if they look the same, each in its own database
  (`snapshotView`): the comparison resolves a previous parent among the groups of the database
  the snapshot is in. Where both branches diverged from base the result is a union, local's
  snapshots first.

  What is proved:
    1. `historyLaw_iff`: the law of the merge. All of it holds on every input but for the last
       part, that a second merge leaves the union alone. This needs the snapshots that came from
       remote to look the same in local's database, and the union not to be base's history.
    2. `newest_survive_iff`: with a finite limit, the snapshots that are dropped are the oldest
       exactly if the newest one that is dropped from remote is not newer than the oldest one
       that is kept from local.
-/
namespace NianPass.Kdbx

open Versions

variable {V : Type}

/-! ## What a snapshot looks like -/

/-- A snapshot without what depends on its database. -/
def EntryData.bare (snapshot : EntryData V) : EntryData V :=
  { snapshot with parent := ⟨0⟩, previousParent := none, attachments := ∅ }

/-- What two snapshots are compared by. -/
def snapshotView (K : Keepass V) (db : Database V) (snapshot : EntryData V) :
    Option GroupId × EntryData V × Map String (Value Bytes) :=
  (K.previousParent db snapshot.previousParent, snapshot.bare, namedAttachments db snapshot)

section Views

variable [DecidableEq V] {K : Keepass V} {base loc remote : Database V} {id : EntryId}

theorem historyEntrySemanticallyEq_iff {left right : Database V} {a b : EntryData V} :
    historyEntrySemanticallyEq K left right a b = true ↔ snapshotView K left a = snapshotView K right b := by
  unfold historyEntrySemanticallyEq snapshotView EntryData.bare
  rw [decide_eq_true_iff, Prod.mk.injEq, Prod.mk.injEq, EntryData.mk.injEq]
  constructor
  · rintro ⟨hprevious, hfields, hautotype, htags, htimes, hdata, hicon, hforeground, hbackground, hurl,
      hquality, hattachments⟩
    exact ⟨hprevious, ⟨hfields, hautotype, htags, htimes, hdata, hicon, rfl, hforeground, hbackground, hurl,
      hquality, rfl, rfl⟩, hattachments⟩
  · rintro ⟨hprevious, ⟨hfields, hautotype, htags, htimes, hdata, hicon, -, hforeground, hbackground, hurl,
      hquality, -, -⟩, hattachments⟩
    exact ⟨hprevious, hfields, hautotype, htags, htimes, hdata, hicon, hforeground, hbackground, hurl,
      hquality, hattachments⟩

/-- Two histories compared snapshot by snapshot. -/
theorem zip_semanticallyEq_iff {left right : Database V} {first second : List (EntryData V)} :
    (first.length = second.length ∧ ((first.zip second).all fun pair =>
        historyEntrySemanticallyEq K left right pair.1 pair.2) = true) ↔
      first.map (snapshotView K left) = second.map (snapshotView K right) := by
  induction first generalizing second with
  | nil =>
    cases second with
    | nil => simp
    | cons b second => simp
  | cons a first ih =>
    cases second with
    | nil => simp
    | cons b second =>
      rw [List.map_cons, List.map_cons, List.cons.injEq, ← ih, ← historyEntrySemanticallyEq_iff (K := K),
        List.zip_cons_cons, List.all_cons, Bool.and_eq_true, List.length_cons, List.length_cons,
        Nat.add_right_cancel_iff]
      tauto

theorem historiesSemanticallyEq_iff {left right : Database V} :
    historiesSemanticallyEq K left right id = true ↔
      (historyOf left id).map (snapshotView K left) = (historyOf right id).map (snapshotView K right) := by
  unfold historiesSemanticallyEq
  dsimp only
  rw [decide_eq_true_iff]
  exact zip_semanticallyEq_iff

/-- The code's loop is the general union. -/
theorem newSnapshots_eq_fresh (snapshots prior rest : List (EntryData V)) :
    newSnapshots K loc remote snapshots prior rest =
      fresh (snapshotView K remote)
        (prior.map (snapshotView K remote) ++ snapshots.map (snapshotView K loc)) rest := by
  induction rest generalizing prior with
  | nil => rfl
  | cons snapshot rest ih =>
    have hlocal : snapshots.any (historyEntrySemanticallyEq K loc remote · snapshot) = true ↔
        snapshotView K remote snapshot ∈ snapshots.map (snapshotView K loc) := by
      simp only [List.any_eq_true, historyEntrySemanticallyEq_iff, List.mem_map]
    have hprior : prior.any (historyEntrySemanticallyEq K remote remote · snapshot) = true ↔
        snapshotView K remote snapshot ∈ prior.map (snapshotView K remote) := by
      simp only [List.any_eq_true, historyEntrySemanticallyEq_iff, List.mem_map]
    have hrest : newSnapshots K loc remote snapshots (prior ++ [snapshot]) rest =
        fresh (snapshotView K remote) (snapshotView K remote snapshot ::
          (prior.map (snapshotView K remote) ++ snapshots.map (snapshotView K loc))) rest := by
      rw [ih]
      refine fresh_congr (fun look => ?_) rest
      simp only [List.map_append, List.mem_append, List.map_cons, List.map_nil, List.mem_cons, List.not_mem_nil]
      tauto
    rw [newSnapshots, hrest, fresh_cons]
    by_cases hseen : snapshotView K remote snapshot ∈
        prior.map (snapshotView K remote) ++ snapshots.map (snapshotView K loc)
    · rw [if_pos hseen, if_pos, List.nil_append]
      rw [Bool.or_eq_true, hlocal, hprior]
      exact (List.mem_append.1 hseen).symm
    · rw [if_neg hseen, if_neg, List.singleton_append]
      rw [Bool.or_eq_true, hlocal, hprior]
      exact fun h => hseen (List.mem_append.2 h.symm)

end Views

/-! ## The law -/

/-- The remote snapshots that are the same as no local one and as no earlier remote one. -/
def remoteOnly [DecidableEq V] (K : Keepass V) (loc remote : Database V) (id : EntryId) : List (EntryData V) :=
  ((historyOf remote id).zipIdx.filter fun item : EntryData V × Nat => decide (
    (∀ snapshot ∈ historyOf loc id, historyEntrySemanticallyEq K loc remote snapshot item.1 = false) ∧
    ∀ earlier ∈ (historyOf remote id).take item.2,
      historyEntrySemanticallyEq K remote remote earlier item.1 = false)).map Prod.fst

/-- No two of the three histories are the same. -/
structure HistoriesDiverge [DecidableEq V] (K : Keepass V) (base loc remote : Database V) (id : EntryId) :
    Prop where
  sides : historiesSemanticallyEq K loc remote id = false
  loc : historiesSemanticallyEq K loc base id = false
  remote : historiesSemanticallyEq K remote base id = false

/-- Local's database with another history of the entry. -/
def withHistory (loc : Database V) (id : EntryId) (history : Option (List (EntryData V))) : Database V :=
  loc.editEntry id fun entry => { entry with history := history }

structure HistoryLaw [DecidableEq V] (K : Keepass V) (base loc remote : Database V) (id : EntryId)
    (merged : Option (List (EntryData V))) : Prop where
  keepsLocal : historiesSemanticallyEq K loc remote id = true ∨ historiesSemanticallyEq K remote base id = true →
    merged = loc.entries[id]?.bind (·.history)
  takesRemote : historiesSemanticallyEq K loc base id = true → historiesSemanticallyEq K loc remote id = false →
    merged = remote.entries[id]?.bind (·.history)
  union : HistoriesDiverge K base loc remote id →
    merged = some (historyOf loc id ++ remoteOnly K loc remote id)
  represents : HistoriesDiverge K base loc remote id →
    (∀ snapshot ∈ historyOf loc id, snapshot ∈ merged.getD []) ∧
    ∀ snapshot ∈ historyOf remote id,
      (∃ same ∈ historyOf loc id, same ∈ merged.getD [] ∧
        historyEntrySemanticallyEq K loc remote same snapshot = true) ∨
      ∃ same ∈ historyOf remote id, same ∈ merged.getD [] ∧
        historyEntrySemanticallyEq K remote remote same snapshot = true
  /-- Merged with the same base and remote once more, the union stays. -/
  again : HistoriesDiverge K base loc remote id →
    mergeHistory K base (withHistory loc id merged) remote id = (merged, [])

/-- Where the histories diverge, the snapshots taken over from remote look in local's database as they
look in remote's. Where the union is base's history (and not remote's), the second merge takes
remote's history instead, so that has to be the union. -/
def UnionStable [DecidableEq V] (K : Keepass V) (base loc remote : Database V) (id : EntryId) : Prop :=
  HistoriesDiverge K base loc remote id →
    let union := historyOf loc id ++ remoteOnly K loc remote id
    let again := withHistory loc id (some union)
    if historiesSemanticallyEq K again base id = true ∧ historiesSemanticallyEq K again remote id = false then
      remote.entries[id]?.bind (·.history) = some union
    else ∀ snapshot ∈ remoteOnly K loc remote id,
      historyEntrySemanticallyEq K loc remote snapshot snapshot = true

section Law

variable [DecidableEq V] {K : Keepass V} {base loc remote : Database V} {id : EntryId}

theorem remoteOnly_eq_fresh : remoteOnly K loc remote id =
    fresh (snapshotView K remote) ((historyOf loc id).map (snapshotView K loc)) (historyOf remote id) := by
  rw [remoteOnly, fresh_eq_filter]
  congr 1
  refine List.filter_congr (fun item _ => decide_eq_decide.2 (and_congr ?_ ?_))
  · simp only [List.mem_map, not_exists, not_and, ← Bool.not_eq_true, historyEntrySemanticallyEq_iff]
  · simp only [← Bool.not_eq_true, historyEntrySemanticallyEq_iff, ne_eq]

theorem mem_historyOf_of_remoteOnly {snapshot : EntryData V} (h : snapshot ∈ remoteOnly K loc remote id) :
    snapshot ∈ historyOf remote id := by
  rw [remoteOnly_eq_fresh] at h
  exact (fresh_sublist _).subset h

theorem mergeHistory_diverged (h : HistoriesDiverge K base loc remote id) :
    mergeHistory K base loc remote id =
      if historyHasAttachments loc id || historyHasAttachments remote id then
        (loc.entries[id]?.bind (·.history), [historyConflict id])
      else (some (historyOf loc id ++ remoteOnly K loc remote id), []) := by
  rw [mergeHistory, h.sides, h.loc, h.remote, remoteOnly_eq_fresh, newSnapshots_eq_fresh]
  rfl

/-- A union is only made where no snapshot has attachments. -/
theorem no_attachments_of_diverged (h : HistoriesDiverge K base loc remote id)
    (hquiet : (mergeHistory K base loc remote id).2 = []) :
    historyHasAttachments loc id = false ∧ historyHasAttachments remote id = false := by
  rw [mergeHistory_diverged h] at hquiet
  split at hquiet
  · cases hquiet
  · next hnone => simpa using hnone

theorem mergeHistory_union (h : HistoriesDiverge K base loc remote id)
    (hquiet : (mergeHistory K base loc remote id).2 = []) :
    (mergeHistory K base loc remote id).1 = some (historyOf loc id ++ remoteOnly K loc remote id) := by
  obtain ⟨hloc, hremote⟩ := no_attachments_of_diverged h hquiet
  rw [mergeHistory_diverged h, hloc, hremote]
  rfl

theorem mergeHistory_keepsLocal
    (h : historiesSemanticallyEq K loc remote id = true ∨ historiesSemanticallyEq K remote base id = true) :
    (mergeHistory K base loc remote id).1 = loc.entries[id]?.bind (·.history) := by
  by_cases hsides : historiesSemanticallyEq K loc remote id = true
  · rw [mergeHistory, if_pos hsides]
  · have hremote := h.resolve_left hsides
    have hlocal : ¬ historiesSemanticallyEq K loc base id = true := by
      rw [historiesSemanticallyEq_iff] at hsides hremote ⊢
      exact fun hlocal => hsides (hlocal.trans hremote.symm)
    rw [mergeHistory, if_neg hsides, if_neg hlocal, if_pos hremote]

theorem mergeHistory_takesRemote (hquiet : (mergeHistory K base loc remote id).2 = [])
    (hlocal : historiesSemanticallyEq K loc base id = true)
    (hsides : historiesSemanticallyEq K loc remote id = false) :
    (mergeHistory K base loc remote id).1 = remote.entries[id]?.bind (·.history) := by
  have hsides : ¬ historiesSemanticallyEq K loc remote id = true := by rw [hsides]; exact Bool.false_ne_true
  rw [mergeHistory, if_neg hsides, if_pos hlocal] at hquiet ⊢
  split at hquiet
  · cases hquiet
  · next hnone => rw [if_neg hnone]

theorem same_local_or_remoteOnly {snapshot : EntryData V} (h : snapshot ∈ historyOf remote id) :
    snapshotView K remote snapshot ∈ (historyOf loc id).map (snapshotView K loc) ∨
      ∃ same ∈ remoteOnly K loc remote id, snapshotView K remote same = snapshotView K remote snapshot := by
  rw [remoteOnly_eq_fresh]
  exact seen_or_fresh h

theorem union_represents :
    (∀ snapshot ∈ historyOf loc id, snapshot ∈ historyOf loc id ++ remoteOnly K loc remote id) ∧
    ∀ snapshot ∈ historyOf remote id,
      (∃ same ∈ historyOf loc id, same ∈ historyOf loc id ++ remoteOnly K loc remote id ∧
        historyEntrySemanticallyEq K loc remote same snapshot = true) ∨
      ∃ same ∈ historyOf remote id, same ∈ historyOf loc id ++ remoteOnly K loc remote id ∧
        historyEntrySemanticallyEq K remote remote same snapshot = true := by
  refine ⟨fun snapshot hmem => List.mem_append_left _ hmem, fun snapshot hmem => ?_⟩
  rcases same_local_or_remoteOnly hmem with hseen | ⟨same, hsame, heq⟩
  · obtain ⟨same, hsame, heq⟩ := List.mem_map.1 hseen
    exact Or.inl ⟨same, hsame, List.mem_append_left _ hsame, historyEntrySemanticallyEq_iff.2 heq⟩
  · exact Or.inr ⟨same, mem_historyOf_of_remoteOnly hsame, List.mem_append_right _ hsame,
      historyEntrySemanticallyEq_iff.2 heq⟩

/-! ## The second merge -/

section Again

variable {history : Option (List (EntryData V))}

omit [DecidableEq V] in
theorem getElem?_withHistory (hid : id ∈ loc.entries) :
    (withHistory loc id history).entries[id]?.bind (·.history) = history := by
  obtain ⟨entry, hentry⟩ := mem_iff_exists.mp hid
  rw [withHistory, getElem?_editEntry, if_pos rfl, hentry]
  rfl

omit [DecidableEq V] in
theorem historyOf_withHistory (hid : id ∈ loc.entries) :
    Kdbx.historyOf (withHistory loc id history) id = history.getD [] := by
  rw [Kdbx.historyOf, getElem?_withHistory hid]

omit [DecidableEq V] in
theorem snapshotView_withHistory (hlookup : LooksUp K) :
    snapshotView K (withHistory loc id history) = snapshotView K loc := by
  funext snapshot
  rw [snapshotView, snapshotView, hlookup.eq_filter, hlookup.eq_filter]
  rfl

omit [DecidableEq V] in
/-- Snapshots that look in one database as others look in another one look the same in both, as long
as no two of them look the same in the second and none has attachments. -/
theorem looks_same_of_subset (hlookup : LooksUp K) {snapshots : List (EntryData V)}
    (hloc : ∀ snapshot ∈ snapshots, namedAttachments loc snapshot = ∅)
    (hremote : ∀ snapshot ∈ snapshots, namedAttachments remote snapshot = ∅)
    (hdistinct : (snapshots.map (snapshotView K remote)).Nodup)
    (h : ∀ snapshot ∈ snapshots, ∃ other ∈ snapshots, snapshotView K loc other = snapshotView K remote snapshot)
    {snapshot : EntryData V} (hmem : snapshot ∈ snapshots) :
    snapshotView K loc snapshot = snapshotView K remote snapshot := by
  -- a previous parent that is found in remote is a group of local's too
  have hfound : ∀ {snapshot}, snapshot ∈ snapshots → ∀ {group},
      K.previousParent remote snapshot.previousParent = some group → group ∈ loc.groups := by
    intro snapshot hmem group hgroup
    obtain ⟨other, -, hlook⟩ := h snapshot hmem
    have hother : K.previousParent loc other.previousParent = some group :=
      (congrArg Prod.fst hlook).trans hgroup
    rw [hlookup.eq_filter, Option.filter_eq_some_iff] at hother
    exact of_decide_eq_true hother.2
  have hprevious : K.previousParent loc snapshot.previousParent = K.previousParent remote snapshot.previousParent := by
    cases hgroup : K.previousParent remote snapshot.previousParent with
    | some group =>
      have hstored : snapshot.previousParent = some group := by
        rw [hlookup.eq_filter, Option.filter_eq_some_iff] at hgroup
        exact hgroup.1
      rw [hstored]
      exact K.previousParent_live loc group (hfound hmem hgroup)
    | none =>
      obtain ⟨other, hother, hlook⟩ := h snapshot hmem
      have hnone : K.previousParent loc other.previousParent = none := (congrArg Prod.fst hlook).trans hgroup
      -- the other one is not found in remote either, so the two are one
      have hremoteNone : K.previousParent remote other.previousParent = none := by
        cases hfar : K.previousParent remote other.previousParent with
        | none => rfl
        | some group =>
          have hstored : other.previousParent = some group := by
            rw [hlookup.eq_filter, Option.filter_eq_some_iff] at hfar
            exact hfar.1
          rw [hstored, K.previousParent_live loc group (hfound hother hfar)] at hnone
          cases hnone
      have hbare : other.bare = snapshot.bare := congrArg (fun look => look.2.1) hlook
      have hsame : other = snapshot := by
        refine List.inj_on_of_nodup_map hdistinct hother hmem ?_
        rw [snapshotView, snapshotView, hremoteNone, hgroup, hbare, hremote other hother, hremote snapshot hmem]
      rw [← hsame]
      exact hnone
  rw [snapshotView, snapshotView, hprevious, hloc snapshot hmem, hremote snapshot hmem]

/-- No snapshot taken over from remote is the same as one of local. -/
theorem remoteOnly_new {snapshot : EntryData V} (h : snapshot ∈ remoteOnly K loc remote id) :
    snapshotView K remote snapshot ∉ (historyOf loc id).map (snapshotView K loc) := by
  rw [remoteOnly_eq_fresh] at h
  exact view_not_mem_of_mem_fresh h

omit [DecidableEq V] in
theorem historyHasAttachments_eq_false {db : Database V} :
    historyHasAttachments db id = false ↔ ∀ snapshot ∈ historyOf db id, namedAttachments db snapshot = ∅ := by
  rw [historyHasAttachments, List.any_eq_false]
  refine forall₂_congr (fun snapshot _ => ?_)
  rw [Bool.not_eq_true', Bool.not_eq_false, Std.ExtTreeMap.isEmpty_iff]

/-- If the union is remote's history, remote's begins with local's and ends with the rest. -/
theorem remoteOnly_same_of_eq
    (h : (historyOf loc id ++ remoteOnly K loc remote id).map (snapshotView K loc) =
      (historyOf remote id).map (snapshotView K remote)) :
    (remoteOnly K loc remote id).map (snapshotView K loc) =
      (remoteOnly K loc remote id).map (snapshotView K remote) := by
  have hparts : (historyOf loc id).map (snapshotView K loc) ++
      (remoteOnly K loc remote id).map (snapshotView K loc) =
      ((historyOf remote id).take (historyOf loc id).length).map (snapshotView K remote) ++
        ((historyOf remote id).drop (historyOf loc id).length).map (snapshotView K remote) := by
    rw [← List.map_append, ← List.map_append, List.take_append_drop, h]
  have hlength : (historyOf loc id).length + (remoteOnly K loc remote id).length = (historyOf remote id).length := by
    simpa using congrArg List.length h
  obtain ⟨hfirst, hsecond⟩ := List.append_inj hparts (by simp; omega)
  have hrest : remoteOnly K loc remote id = (historyOf remote id).drop (historyOf loc id).length := by
    have hsublist : (remoteOnly K loc remote id).Sublist ((historyOf remote id).drop (historyOf loc id).length) := by
      rw [remoteOnly_eq_fresh, fresh_eq_drop (historyOf loc id).length]
      · exact fresh_sublist _
      · intro snapshot hmem
        rw [hfirst]
        exact List.mem_map_of_mem hmem
    exact hsublist.eq_of_length (by rw [List.length_drop]; omega)
  rw [hsecond, ← hrest]

theorem mergeHistory_again_iff (hlookup : LooksUp K) (hid : id ∈ loc.entries)
    (h : HistoriesDiverge K base loc remote id) (hquiet : (mergeHistory K base loc remote id).2 = []) :
    let union := historyOf loc id ++ remoteOnly K loc remote id
    mergeHistory K base (withHistory loc id (some union)) remote id = (some union, []) ↔
      if historiesSemanticallyEq K (withHistory loc id (some union)) base id = true ∧
          historiesSemanticallyEq K (withHistory loc id (some union)) remote id = false then
        remote.entries[id]?.bind (·.history) = some union
      else ∀ snapshot ∈ remoteOnly K loc remote id,
        historyEntrySemanticallyEq K loc remote snapshot snapshot = true := by
  intro union
  obtain ⟨hlocPlain, hremotePlain⟩ := no_attachments_of_diverged h hquiet
  have hhistory : Kdbx.historyOf (withHistory loc id (some union)) id = union := historyOf_withHistory hid
  have hview : snapshotView K (withHistory loc id (some union)) = snapshotView K loc :=
    snapshotView_withHistory hlookup
  have hsame : (∀ snapshot ∈ remoteOnly K loc remote id,
      historyEntrySemanticallyEq K loc remote snapshot snapshot = true) ↔
      (remoteOnly K loc remote id).map (snapshotView K loc) =
        (remoteOnly K loc remote id).map (snapshotView K remote) := by
    simp only [historyEntrySemanticallyEq_iff, List.map_inj_left]
  rw [mergeHistory, getElem?_withHistory hid]
  by_cases hsides : historiesSemanticallyEq K (withHistory loc id (some union)) remote id = true
  · -- the union is remote's history already
    have hcondition : ¬ (historiesSemanticallyEq K (withHistory loc id (some union)) base id = true ∧
        historiesSemanticallyEq K (withHistory loc id (some union)) remote id = false) := by
      rw [hsides]
      exact fun hboth => Bool.noConfusion hboth.2
    rw [if_pos hsides, if_neg hcondition, hsame]
    refine iff_of_true rfl (remoteOnly_same_of_eq ?_)
    rw [historiesSemanticallyEq_iff, hhistory, hview] at hsides
    exact hsides
  rw [if_neg hsides]
  by_cases hbase : historiesSemanticallyEq K (withHistory loc id (some union)) base id = true
  · -- the second merge sees no change of local's and takes remote's history
    have hcondition : historiesSemanticallyEq K (withHistory loc id (some union)) base id = true ∧
        historiesSemanticallyEq K (withHistory loc id (some union)) remote id = false :=
      ⟨hbase, by simpa using hsides⟩
    have hplain : ¬ historyHasAttachments remote id = true := by simp [hremotePlain]
    rw [if_pos hbase, if_pos hcondition, if_neg hplain, Prod.mk.injEq]
    exact and_iff_left rfl
  have hcondition : ¬ (historiesSemanticallyEq K (withHistory loc id (some union)) base id = true ∧
      historiesSemanticallyEq K (withHistory loc id (some union)) remote id = false) :=
    fun hboth => hbase hboth.1
  have hremote : ¬ historiesSemanticallyEq K remote base id = true := by simp [h.remote]
  rw [if_neg hbase, if_neg hcondition, if_neg hremote, hremotePlain, Bool.or_false, hhistory, hsame]
  have hnew : newSnapshots K (withHistory loc id (some union)) remote union [] (historyOf remote id) =
      fresh (snapshotView K remote) (union.map (snapshotView K loc)) (historyOf remote id) := by
    rw [newSnapshots_eq_fresh, hview]
    rfl
  rw [hnew]
  by_cases hplain : historyHasAttachments (withHistory loc id (some union)) id = true
  · -- a snapshot of remote's names an attachment that only local has
    rw [if_pos hplain]
    refine iff_of_false (fun heq => by cases (Prod.mk.inj heq).2) (fun heq => ?_)
    have hnone : historyHasAttachments (withHistory loc id (some union)) id = false := by
      rw [historyHasAttachments_eq_false, hhistory]
      intro snapshot hmem
      show namedAttachments loc snapshot = ∅
      rcases List.mem_append.1 hmem with hlocal | htaken
      · exact historyHasAttachments_eq_false.1 hlocPlain snapshot hlocal
      · have hlook := List.map_inj_left.1 heq snapshot htaken
        exact (congrArg (fun look => look.2.2) hlook).trans
          (historyHasAttachments_eq_false.1 hremotePlain snapshot (mem_historyOf_of_remoteOnly htaken))
    rw [hnone] at hplain
    exact Bool.false_ne_true hplain
  rw [if_neg hplain, Prod.mk.injEq, and_iff_left rfl, Option.some.injEq, List.append_right_eq_self, fresh_eq_nil_iff]
  rw [Bool.not_eq_true, historyHasAttachments_eq_false, hhistory] at hplain
  constructor
  · intro hall
    refine List.map_inj_left.2 (fun snapshot hmem => looks_same_of_subset hlookup ?_ ?_ ?_ ?_ hmem)
    · exact fun snapshot hmem => hplain snapshot (List.mem_append_right _ hmem)
    · exact fun snapshot hmem =>
        historyHasAttachments_eq_false.1 hremotePlain snapshot (mem_historyOf_of_remoteOnly hmem)
    · rw [remoteOnly_eq_fresh]
      exact fresh_views_nodup _
    · intro snapshot hmem
      have hlook := hall snapshot (mem_historyOf_of_remoteOnly hmem)
      rw [List.map_append, List.mem_append] at hlook
      exact List.mem_map.1 (hlook.resolve_left (remoteOnly_new hmem))
  · intro heq snapshot hmem
    rw [List.map_append, heq, List.mem_append]
    rcases same_local_or_remoteOnly hmem with hseen | ⟨same, hsame, hlook⟩
    · exact Or.inl hseen
    · exact Or.inr (List.mem_map.2 ⟨same, hsame, hlook⟩)

end Again

theorem historyLaw_iff (hlookup : LooksUp K) (hid : id ∈ loc.entries)
    (hquiet : (mergeHistory K base loc remote id).2 = []) :
    HistoryLaw K base loc remote id (mergeHistory K base loc remote id).1 ↔ UnionStable K base loc remote id := by
  constructor
  · intro hlaw hdiverge
    have hagain := hlaw.again hdiverge
    rw [hlaw.union hdiverge] at hagain
    exact (mergeHistory_again_iff hlookup hid hdiverge hquiet).1 hagain
  · intro hstable
    refine ⟨mergeHistory_keepsLocal, mergeHistory_takesRemote hquiet,
      fun hdiverge => mergeHistory_union hdiverge hquiet, fun hdiverge => ?_, fun hdiverge => ?_⟩
    · rw [mergeHistory_union hdiverge hquiet]
      exact union_represents
    · rw [mergeHistory_union hdiverge hquiet]
      exact (mergeHistory_again_iff hlookup hid hdiverge hquiet).2 (hstable hdiverge)

end Law

/-- An entry that was in the group "Mail" before it came to the root. -/
def pointingVault : Database Unit :=
  smallVault.editEntry ⟨10⟩ fun entry => { entry with previousParent := some ⟨2⟩ }

/-- What an edit of that entry puts into its history. -/
def pointingSnapshot : EntryData Unit := { parent := ⟨1⟩, fields := titled "old", previousParent := some ⟨2⟩ }

/-- Local edits the entry and deletes the group. -/
def groupDeleted : Database Unit :=
  let edited := pointingVault.editEntry ⟨10⟩ fun entry =>
    { entry with fields := titled "new", history := some [pointingSnapshot] }
  { edited.eraseGroup ⟨2⟩ with deletedObjects := mapOf [(2, none)] }

/-- Remote edits the entry, too. -/
def groupKept : Database Unit :=
  pointingVault.editEntry ⟨10⟩ fun entry =>
    { entry with fields := entry.fields.insert "UserName" ⟨false, "me"⟩, history := some [pointingSnapshot] }

set_option maxRecDepth 100000 in
theorem historyLaw_iff_deleted :
    (mergeHistory reference pointingVault groupDeleted groupKept ⟨10⟩).2 = [] ∧
    (HistoryLaw reference pointingVault groupDeleted groupKept ⟨10⟩
        (mergeHistory reference pointingVault groupDeleted groupKept ⟨10⟩).1 ↔
      UnionStable reference pointingVault groupDeleted groupKept ⟨10⟩) :=
  have h : (mergeHistory reference pointingVault groupDeleted groupKept ⟨10⟩).2 = [] := by decide +kernel
  ⟨h, historyLaw_iff looksUp_reference (by decide +kernel) h⟩

/-- The document the merge ends with, and local if it does not merge. -/
def pointingMerge : KdbxDocument Unit :=
  match mergeDivergent reference (document pointingVault) (document groupDeleted) (document groupKept) with
  | .ok (.merged m) => m
  | _ => document groupDeleted

set_option maxRecDepth 100000 in
/-- The snapshot that both sides took of the entry is in the union twice, since only remote still finds
the group it came from, and each further merge adds it once more. -/
theorem union_grows :
    databaseValidForSync pointingVault = true ∧ databaseValidForSync groupDeleted = true ∧
    databaseValidForSync groupKept = true ∧
    mergeDivergent reference (document pointingVault) (document groupDeleted) (document groupKept) =
      .ok (.merged pointingMerge) ∧
    (mergeHistory reference pointingVault groupDeleted groupKept ⟨10⟩).2 = [] ∧
    historyOf pointingMerge.database ⟨10⟩ = [pointingSnapshot, pointingSnapshot] ∧
    (mergeHistory reference pointingVault pointingMerge.database groupKept ⟨10⟩).1 =
      some [pointingSnapshot, pointingSnapshot, pointingSnapshot] ∧
    ¬ HistoryLaw reference pointingVault groupDeleted groupKept ⟨10⟩
      (mergeHistory reference pointingVault groupDeleted groupKept ⟨10⟩).1 := by
  refine ⟨by decide +kernel, by decide +kernel, by decide +kernel, by decide +kernel, by decide +kernel,
    by decide +kernel, by decide +kernel, fun hlaw => ?_⟩
  have hagain := hlaw.again ⟨by decide +kernel, by decide +kernel, by decide +kernel⟩
  exact absurd hagain (by decide +kernel)

/-! ## The newest snapshots -/

section Written

variable [DecidableEq V] {K : Keepass V} {base loc remote : Database V} {id : EntryId} {st st' : MergeState V}

omit [DecidableEq V] in
theorem writeEntry_history {merged : Entry V} {icon : Option (Option Icon)} (hid : id ∈ st.candidate.entries) :
    (writeEntry id merged icon st).candidate.entries[id]?.map (·.history) = some merged.history := by
  obtain ⟨entry, hentry⟩ := mem_iff_exists.mp hid
  have hwritten : (st.candidate.editEntry id fun _ => merged).entries[id]? = some merged := by
    rw [getElem?_editEntry, if_pos rfl, hentry]
    rfl
  unfold writeEntry setEntryIcon
  cases icon with
  | none => exact congrArg (Option.map (·.history)) hwritten
  | some icon =>
    by_cases hicon : (st.candidate.editEntry id fun _ => merged).iconAvailable icon = true
    · simp only [candidate_edit, hicon, if_true]
      rw [getElem?_editEntry, if_pos rfl, hwritten]
      rfl
    · simp only [candidate_edit, hicon]
      exact congrArg (Option.map (·.history)) hwritten

/-- The round for an entry of all three inputs writes the merged history, and nothing after it in the
round touches it. -/
theorem mergeExistingEntry_history {b l r : EntryState V}
    (h : mergeExistingEntry K base loc remote id b l r st = .ok st') :
    st'.candidate.entries[id]?.map (·.history) = some (mergeHistory K base loc remote id).1 := by
  obtain ⟨hid, mid, hmove, hmid, hcases⟩ := mergeExistingEntry_cases h
  have hwritten : (writeEntry id (mergedEntry K base loc remote id b l r)
      (chooseThreeWay b.entry.icon l.entry.icon r.entry.icon)
      (st.report (existingEntryConflicts K base loc remote id b l r))).candidate.entries[id]?.map (·.history) =
      some (mergeHistory K base loc remote id).1 := writeEntry_history (by simpa using hid)
  have hmoved : mid.candidate.entries[id]?.map (·.history) = some (mergeHistory K base loc remote id).1 := by
    rcases moveEntry_cases (writeEntry_mem (by simpa using hid)) hmove with ⟨-, rfl⟩ | ⟨kind, rfl⟩ | ⟨-, -, rfl⟩
    · exact hwritten
    · rw [candidate_report]
      exact hwritten
    · rw [candidate_edit, getElem?_editEntry, if_pos rfl, getElem?_relocateEntry, if_pos rfl, Option.map_map,
        Option.map_map]
      exact hwritten
  rcases hcases with ⟨-, rfl⟩ | ⟨-, rfl⟩
  · exact hmoved
  · have hdata := (replaceAttachments_sets (K := K) hmid (mergeNamedMap b.attachments l.attachments r.attachments).1).data
    rw [candidate_edit]
    calc _ = ((replaceAttachments K id _ mid.candidate).entries[id]?.map Entry.sansAttachments).map (·.history) := by
          rw [Option.map_map]
          rfl
      _ = (mid.candidate.entries[id]?.map Entry.sansAttachments).map (·.history) := by rw [hdata]
      _ = _ := by
          rw [Option.map_map]
          exact hmoved

/-- In a quiet run the entry ends with its merged history. -/
theorem mergeEntries_history {b l r : Entry V} (hbase : base.entries[id]? = some b)
    (hlocal : loc.entries[id]? = some l) (hremote : remote.entries[id]? = some r)
    (h : mergeEntries K base loc remote st = .ok st') (hq : Quiet st') :
    st'.candidate.entries[id]?.map (·.history) = some (mergeHistory K base loc remote id).1 ∧
      (mergeHistory K base loc remote id).2 = [] := by
  obtain ⟨u, v, -, hround, hqv, -, hafter⟩ :=
    mergeEntries_visit h hq (Or.inl (mem_iff_exists.mpr ⟨b, hbase⟩))
  have hclass : classifyEntry K base loc remote id =
      .existing (entryState K base b) (entryState K loc l) (entryState K remote r) :=
    classify_existing.mpr (by simp [hbase, hlocal, hremote])
  rw [mergeEntry, hclass] at hround
  have hconflicts := (quiet_of_mergeExistingEntry hround hqv).2
  refine ⟨?_, (List.append_eq_nil_iff.1 hconflicts).2⟩
  have hdata : ∀ db : Database V, db.entries[id]? = (entryView db id).map Prod.fst := by
    intro db
    rw [entryView, Option.map_map]
    exact Option.map_id'.symm
  rw [hdata, hafter, ← hdata]
  exact mergeExistingEntry_history hround

end Written

/-- The time of the last change; no time is before every time. -/
def EntryData.modified (snapshot : EntryData V) : WithBot Time := snapshot.times.lastModification

def NewestFirst (snapshots : List (EntryData V)) : Prop :=
  snapshots.Pairwise fun newer older => older.modified ≤ newer.modified

/-- What is kept of the union is its beginning, and nothing that is dropped is newer. -/
def NewestSurvive (union kept : List (EntryData V)) : Prop :=
  ∃ dropped, union = kept ++ dropped ∧ ∀ lost ∈ dropped, ∀ snapshot ∈ kept, lost.modified ≤ snapshot.modified

/-- The newest snapshot that is dropped from what remote adds is not newer than the oldest one that is
kept from local. -/
def RemoteNotNewer [DecidableEq V] (K : Keepass V) (loc remote : Database V) (id : EntryId) (limit : Nat) : Prop :=
  ∀ lost ∈ ((remoteOnly K loc remote id).drop (limit - (historyOf loc id).length)).head?,
    ∀ snapshot ∈ ((historyOf loc id).take limit).getLast?, lost.modified ≤ snapshot.modified

theorem newestSurvive_take_iff {first second : List (EntryData V)} (hfirst : NewestFirst first)
    (hsecond : NewestFirst second) (limit : Nat) :
    NewestSurvive (first ++ second) ((first ++ second).take limit) ↔
      ∀ lost ∈ (second.drop (limit - first.length)).head?, ∀ snapshot ∈ (first.take limit).getLast?,
        lost.modified ≤ snapshot.modified := by
  rw [← newest_kept_iff hfirst hsecond limit]
  constructor
  · rintro ⟨dropped, hparts, hle⟩ lost hlost
    have hdropped : dropped = (first ++ second).drop limit :=
      List.append_cancel_left (hparts.symm.trans (List.take_append_drop limit _).symm)
    exact hle lost (hdropped ▸ hlost)
  · exact fun hle => ⟨_, (List.take_append_drop limit _).symm, hle⟩

section Merged

variable [DecidableEq V] {K : Keepass V} {base loc remote m : KdbxDocument V} {id : EntryId} {b l r : Entry V}

/-- Where remote has the history of local, it adds nothing. -/
theorem remoteOnly_eq_nil {loc remote : Database V} (h : historiesSemanticallyEq K loc remote id = true) :
    remoteOnly K loc remote id = [] := by
  rw [historiesSemanticallyEq_iff] at h
  rw [remoteOnly_eq_fresh, fresh_eq_nil_iff]
  intro snapshot hmem
  rw [h]
  exact List.mem_map_of_mem hmem

/-- Where both sides changed the history, the merged one is the union. -/
theorem mergeHistory_changed {base loc remote : Database V} (hquiet : (mergeHistory K base loc remote id).2 = [])
    (hloc : historiesSemanticallyEq K loc base id = false)
    (hremote : historiesSemanticallyEq K remote base id = false) :
    (mergeHistory K base loc remote id).1.getD [] = historyOf loc id ++ remoteOnly K loc remote id := by
  by_cases hsides : historiesSemanticallyEq K loc remote id = true
  · rw [mergeHistory_keepsLocal (Or.inl hsides), remoteOnly_eq_nil hsides, List.append_nil]
    rfl
  · rw [mergeHistory_union ⟨by simpa using hsides, hloc, hremote⟩ hquiet]
    rfl

/-- Every history of the merged document is within its limit. -/
theorem merged_historyBounded (h : mergeDivergent K base loc remote = .ok (.merged m)) :
    m.database.HistoryBounded := by
  obtain ⟨st, run, -, hend, -⟩ := mergeDivergent_merged h
  intro limit hlimit id snapshots hsnapshots
  have hpruned := hend.histories limit hlimit id
  obtain ⟨entry, hentry, rfl⟩ := Option.map_eq_some_iff.1 hsnapshots
  rw [hentry, Option.map_some] at hpruned
  obtain ⟨last, -, hlast⟩ := Option.map_eq_some_iff.1 hpruned.symm
  rw [← hlast]
  cases last.history with
  | none => exact Nat.zero_le limit
  | some history => exact List.length_take_le limit history

theorem newest_survive_iff {limit : Nat} (h : mergeDivergent K base loc remote = .ok (.merged m))
    (hlimit : finiteHistoryLimit m.database = some limit) (hbase : base.database.entries[id]? = some b)
    (hlocal : loc.database.entries[id]? = some l) (hremote : remote.database.entries[id]? = some r)
    (hlocalChanged : historiesSemanticallyEq K loc.database base.database id = false)
    (hremoteChanged : historiesSemanticallyEq K remote.database base.database id = false)
    (hlocalOrder : NewestFirst (historyOf loc.database id))
    (hremoteOrder : NewestFirst (historyOf remote.database id)) :
    m.database.HistoryBounded ∧
    (NewestSurvive (historyOf loc.database id ++ remoteOnly K loc.database remote.database id)
        (historyOf m.database id) ↔
      RemoteNotNewer K loc.database remote.database id limit) := by
  refine ⟨merged_historyBounded h, ?_⟩
  obtain ⟨st, run, hq, hend, -⟩ := mergeDivergent_merged h
  obtain ⟨hhistory, hquiet⟩ := mergeEntries_history hbase hlocal hremote run.merged_eq hq
  have hkept : historyOf m.database id =
      (historyOf loc.database id ++ remoteOnly K loc.database remote.database id).take limit := by
    have hpruned := hend.histories limit hlimit id
    obtain ⟨last, hlast, hlastHistory⟩ := Option.map_eq_some_iff.1 hhistory
    rw [hlast, Option.map_some, hlastHistory] at hpruned
    obtain ⟨entry, hentry, hentryHistory⟩ := Option.map_eq_some_iff.1 hpruned
    rw [← mergeHistory_changed hquiet hlocalChanged hremoteChanged, historyOf, hentry]
    show entry.history.getD [] = _
    rw [hentryHistory]
    cases (mergeHistory K base.database loc.database remote.database id).1 with
    | none => rw [Option.map_none, Option.getD_none, List.take_nil]
    | some history => rfl
  have honlyOrder : NewestFirst (remoteOnly K loc.database remote.database id) := by
    rw [remoteOnly_eq_fresh]
    exact hremoteOrder.sublist (fresh_sublist _)
  rw [hkept]
  exact newestSurvive_take_iff hlocalOrder honlyOrder limit

end Merged

/-- A snapshot of the entry of the small vault. -/
def snapshotAt (time : Time) (title : String) : EntryData Unit :=
  { parent := ⟨1⟩, fields := titled title, times := { lastModification := some time } }

/-- The small vault, which keeps two snapshots. -/
def limitedVault : Database Unit := { smallVault with metadata := { historyMaxItems := some 2 } }

/-- Local edited the entry twice, first. -/
def editedEarly : Database Unit :=
  limitedVault.editEntry ⟨10⟩ fun entry =>
    { entry with fields := titled "new", history := some [snapshotAt 5 "early", snapshotAt 0 "old"] }

/-- Remote edited it twice, later. -/
def editedLate : Database Unit :=
  limitedVault.editEntry ⟨10⟩ fun entry =>
    { entry with
      fields := entry.fields.insert "UserName" ⟨false, "me"⟩
      history := some [snapshotAt 9 "late", snapshotAt 0 "old"] }

/-- The document the merge ends with, and local if it does not merge. -/
def limitedMerge : KdbxDocument Unit :=
  match mergeDivergent reference (document limitedVault) (document editedEarly) (document editedLate) with
  | .ok (.merged m) => m
  | _ => document editedEarly

theorem newestFirst_early : NewestFirst (historyOf editedEarly ⟨10⟩) := by
  have h : historyOf editedEarly ⟨10⟩ = [snapshotAt 5 "early", snapshotAt 0 "old"] := by decide +kernel
  rw [h]
  exact List.pairwise_pair.2 (WithBot.coe_le_coe.2 (by decide))

theorem newestFirst_late : NewestFirst (historyOf editedLate ⟨10⟩) := by
  have h : historyOf editedLate ⟨10⟩ = [snapshotAt 9 "late", snapshotAt 0 "old"] := by decide +kernel
  rw [h]
  exact List.pairwise_pair.2 (WithBot.coe_le_coe.2 (by decide))

set_option maxRecDepth 100000 in
theorem newest_survive_iff_limited :
    ∃ b l r : Entry Unit, limitedVault.entries[(⟨10⟩ : EntryId)]? = some b ∧
      editedEarly.entries[(⟨10⟩ : EntryId)]? = some l ∧ editedLate.entries[(⟨10⟩ : EntryId)]? = some r ∧
      limitedMerge.database.HistoryBounded ∧
      (NewestSurvive (historyOf editedEarly ⟨10⟩ ++ remoteOnly reference editedEarly editedLate ⟨10⟩)
          (historyOf limitedMerge.database ⟨10⟩) ↔
        RemoteNotNewer reference editedEarly editedLate ⟨10⟩ 2) := by
  have h : mergeDivergent reference (document limitedVault) (document editedEarly) (document editedLate) =
      .ok (.merged limitedMerge) := by decide +kernel
  obtain ⟨b, hbase⟩ := mem_iff_exists.mp (by decide +kernel : (⟨10⟩ : EntryId) ∈ limitedVault.entries)
  obtain ⟨l, hlocal⟩ := mem_iff_exists.mp (by decide +kernel : (⟨10⟩ : EntryId) ∈ editedEarly.entries)
  obtain ⟨r, hremote⟩ := mem_iff_exists.mp (by decide +kernel : (⟨10⟩ : EntryId) ∈ editedLate.entries)
  exact ⟨b, l, r, hbase, hlocal, hremote, newest_survive_iff h (by decide +kernel) hbase hlocal hremote
    (by decide +kernel) (by decide +kernel) newestFirst_early newestFirst_late⟩

set_option maxRecDepth 100000 in
/-- The oldest snapshot is kept, and the latest one of remote is dropped. -/
theorem newest_dropped :
    mergeDivergent reference (document limitedVault) (document editedEarly) (document editedLate) =
      .ok (.merged limitedMerge) ∧
    finiteHistoryLimit limitedMerge.database = some 2 ∧
    historiesSemanticallyEq reference editedEarly limitedVault ⟨10⟩ = false ∧
    historiesSemanticallyEq reference editedLate limitedVault ⟨10⟩ = false ∧
    NewestFirst (historyOf editedEarly ⟨10⟩) ∧ NewestFirst (historyOf editedLate ⟨10⟩) ∧
    historyOf limitedMerge.database ⟨10⟩ = [snapshotAt 5 "early", snapshotAt 0 "old"] ∧
    ¬ NewestSurvive (historyOf editedEarly ⟨10⟩ ++ remoteOnly reference editedEarly editedLate ⟨10⟩)
      (historyOf limitedMerge.database ⟨10⟩) := by
  refine ⟨by decide +kernel, by decide +kernel, by decide +kernel, by decide +kernel, newestFirst_early,
    newestFirst_late, by decide +kernel, ?_⟩
  have hkept : historyOf limitedMerge.database ⟨10⟩ = [snapshotAt 5 "early", snapshotAt 0 "old"] := by
    decide +kernel
  have hunion : historyOf editedEarly ⟨10⟩ ++ remoteOnly reference editedEarly editedLate ⟨10⟩ =
      [snapshotAt 5 "early", snapshotAt 0 "old"] ++ [snapshotAt 9 "late"] := by decide +kernel
  rintro ⟨dropped, hparts, hle⟩
  rw [hkept, hunion] at hparts
  rw [hkept, ← List.append_cancel_left hparts] at hle
  have hlater : (9 : WithBot Time) ≤ 5 := hle (snapshotAt 9 "late") (by simp) (snapshotAt 5 "early") (by simp)
  exact absurd (WithBot.coe_le_coe.1 hlater) (by decide)

end NianPass.Kdbx
