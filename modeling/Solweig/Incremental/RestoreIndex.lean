import Solweig.Incremental.Indexed
import Solweig.Lib.Ordered
import Solweig.Lib.Overlay

/-!
# The index from a saved scenario

A saved scenario lists the entries of the store. Restoring publishes them again, one batch for
each revision and job. The index comes back whole exactly when no key has entries of two jobs at
one revision; a job with several write windows publishes each under a name of its own.
-/

namespace Solweig.Incremental

open Solweig.Lib Solweig.Planner

/-- The entries that a snapshot lists, key by key. -/
def storeEntries (store : TemporalResultStore) : List TemporalResultEntry :=
  store.entries.toList.flatMap Prod.snd

/-- A revision and the job that published at it. -/
abbrev BatchKey := Int × String

def batchKey (item : TemporalResultEntry) : BatchKey := (item.sceneRevision, item.jobId)

/-- `str` of a path that is not there is a text too. -/
def itemContent (item : TemporalResultEntry) : String × Int × RasterWindow × String × String :=
  (item.nodeId, item.timeIndex, item.writeWindow, item.patchPath.getD "None", item.mode)

abbrev Groups := Dict BatchKey (List ((String × Int × RasterWindow × String × String) ×
  TemporalResultEntry))

def addItem (groups : Groups) (item : TemporalResultEntry) : Groups :=
  groups.insert (batchKey item)
    (Ordered.assign (groups.getD (batchKey item) []) (itemContent item, item))

def publicationGroups (items : List TemporalResultEntry) : Groups := items.foldl addItem ∅

/-- The entry that is built from an item. An empty path counts as none. -/
def restoredEntry (item : TemporalResultEntry) : TemporalResultEntry :=
  { item with patchPath := item.patchPath.filter fun path => path ≠ "" }

def restoreStoreIndex (store : TemporalResultStore) (writer : String)
    (items : List TemporalResultEntry) : Except StoreError TemporalResultStore :=
  (publicationGroups items).toList.foldlM (fun store group =>
    (publish store (group.2.map fun entry => restoredEntry entry.2) (some writer)).map Prod.fst) store

/-! ## The groups -/

section Groups

variable {items : List TemporalResultEntry}

/-- The entries of one publication. -/
def groupOf (items : List TemporalResultEntry) (group : BatchKey) : List TemporalResultEntry :=
  items.filter fun item => batchKey item = group

theorem groups_getElem? (items : List TemporalResultEntry) (group : BatchKey) :
    (publicationGroups items)[group]? = if groupOf items group = [] then none else
      some (Ordered.assignAll ((groupOf items group).map fun item => (itemContent item, item))) := by
  unfold publicationGroups groupOf
  induction items using List.reverseRecOn with
  | nil => simp
  | append_singleton items last ih =>
    rw [List.foldl_append, List.foldl_cons, List.foldl_nil, addItem, List.filter_append]
    by_cases hlast : batchKey last = group
    · rw [hlast, Std.ExtTreeMap.getElem?_insert_self, Std.ExtTreeMap.getD_eq_getD_getElem?, ih]
      simp only [hlast, decide_true, List.filter_cons_of_pos, List.filter_nil, List.append_eq_nil_iff,
        List.cons_ne_self, and_false, if_false, List.map_append, List.map_cons, List.map_nil]
      rw [Ordered.assignAll_concat]
      split
      · next hnone => rw [hnone]; rfl
      · rfl
    · rw [Dict.getElem?_insert_of_ne _ _ hlast, ih]
      simp [hlast]

end Groups

/-! ## What a store lists -/

section Listed

variable {s : TracedStore} {key : TemporalResultKey} {group : BatchKey} {e : TemporalResultEntry}

theorem mem_entriesAt {store : TemporalResultStore} :
    e ∈ store.entriesAt key ↔ ∃ entries, store.entries[key]? = some entries ∧ e ∈ entries := by
  unfold TemporalResultStore.entriesAt
  rw [Std.ExtTreeMap.getD_eq_getD_getElem?]
  cases store.entries[key]? <;> simp

theorem StoreIndexed.listed (hs : StoreIndexed s) (key : TemporalResultKey) :
    (storeEntries s.store).filter (·.key = key) = s.store.entriesAt key := by
  unfold storeEntries
  have hnodup : s.store.entries.toList.Nodup :=
    (Std.ExtTreeMap.distinct_keys_toList (t := s.store.entries)).imp fun h heq => by simp [heq] at h
  have hkeyed : ∀ pair ∈ s.store.entries.toList, ∀ e ∈ pair.2, e.key = pair.1 := by
    rintro ⟨at_, entries⟩ hpair e he
    rw [Std.ExtTreeMap.mem_toList_iff_getElem?_eq_some] at hpair
    exact (hs.indexed at_).keyed e (mem_entriesAt.mpr ⟨entries, hpair, he⟩)
  have hother : ∀ pair ∈ s.store.entries.toList, pair ≠ (key, s.store.entriesAt key) →
      pair.2.filter (·.key = key) = [] := by
    rintro ⟨at_, entries⟩ hpair hne
    rw [List.filter_eq_nil_iff]
    intro e he hkey
    obtain rfl : at_ = key := (hkeyed _ hpair e he).symm.trans (of_decide_eq_true hkey)
    rw [Std.ExtTreeMap.mem_toList_iff_getElem?_eq_some] at hpair
    exact hne (by rw [TemporalResultStore.entriesAt, Dict.getD_of_some hpair])
  rw [List.filter_flatMap, flatMap_single hnodup hother]
  have hall : (s.store.entriesAt key).filter (·.key = key) = s.store.entriesAt key := by
    rw [List.filter_eq_self]
    intro e he
    simpa using (hs.indexed key).keyed e he
  split
  · exact hall
  · next habsent =>
    unfold TemporalResultStore.entriesAt
    rw [Std.ExtTreeMap.getD_eq_getD_getElem?]
    cases hget : s.store.entries[key]? with
    | none => rfl
    | some entries =>
      exact absurd (Std.ExtTreeMap.mem_toList_iff_getElem?_eq_some.mpr
        (by rw [hget, TemporalResultStore.entriesAt, Dict.getD_of_some hget])) habsent

theorem StoreIndexed.mem_listed (hs : StoreIndexed s) :
    e ∈ storeEntries s.store ↔ e ∈ s.store.entriesAt e.key := by
  rw [← hs.listed e.key]
  simp

theorem StoreIndexed.windows (hs : StoreIndexed s) (key : TemporalResultKey) :
    ((s.store.entriesAt key).map (·.writeWindow)).Nodup :=
  windows_nodup (hs.traced key).tiles (hs.indexed key).empties

theorem StoreIndexed.distinct (hs : StoreIndexed s) : DistinctWindows (storeEntries s.store) := by
  unfold DistinctWindows
  rw [List.pairwise_iff_forall_sublist]
  intro a b hsub hkey hwindow
  have hpair := hsub.filter (·.key = b.key)
  rw [hs.listed] at hpair
  simp only [hkey, decide_true, List.filter_cons_of_pos, List.filter_nil] at hpair
  have hwindows := (hs.windows b.key).sublist (hpair.map _)
  simp [hwindow] at hwindows

theorem StoreIndexed.contents (hs : StoreIndexed s) :
    ((storeEntries s.store).map itemContent).Nodup := by
  unfold List.Nodup
  rw [List.pairwise_map]
  refine hs.distinct.imp fun hne hsame => ?_
  simp only [itemContent, Prod.mk.injEq] at hsame
  exact hne (Prod.ext hsame.1 hsame.2.1) hsame.2.2.1

theorem StoreIndexed.restored (hs : StoreIndexed s) (h : e ∈ storeEntries s.store) :
    restoredEntry e = e := by
  have hnamed := (hs.indexed e.key).named e (hs.mem_listed.mp h)
  have hkept : e.patchPath.filter (fun path => path ≠ "") = e.patchPath := by
    cases hpath : e.patchPath with
    | none => rfl
    | some path =>
      rw [hpath, ne_eq, Option.some.injEq] at hnamed
      exact Option.filter_some_pos (by simpa using hnamed)
  rw [restoredEntry, hkept]

theorem StoreIndexed.group_at (hs : StoreIndexed s) (group : BatchKey) (key : TemporalResultKey) :
    (groupOf (storeEntries s.store) group).filter (·.key = key) =
      (s.store.entriesAt key).filter fun e => batchKey e = group := by
  rw [← hs.listed key, groupOf, List.filter_filter, List.filter_filter]
  congr 1
  funext e
  exact Bool.and_comm _ _

/-- One group is published. -/
def republish (saved : TemporalResultStore) (writer : String) (store : TemporalResultStore)
    (group : BatchKey) : Except StoreError TemporalResultStore :=
  (publish store (groupOf (storeEntries saved) group) (some writer)).map Prod.fst

def savedGroups (saved : TemporalResultStore) : List BatchKey :=
  (publicationGroups (storeEntries saved)).keys

theorem mem_savedGroups {saved : TemporalResultStore} :
    group ∈ savedGroups saved ↔ ∃ e ∈ storeEntries saved, batchKey e = group := by
  unfold savedGroups
  rw [Std.ExtTreeMap.mem_keys, Std.ExtTreeMap.mem_iff_isSome_getElem?, groups_getElem?]
  by_cases hnone : groupOf (storeEntries saved) group = []
  · rw [if_pos hnone]
    simp only [groupOf, List.filter_eq_nil_iff, decide_eq_true_eq] at hnone
    simpa using hnone
  · rw [if_neg hnone]
    obtain ⟨e, he⟩ := List.exists_mem_of_ne_nil _ hnone
    rw [groupOf, List.mem_filter, decide_eq_true_eq] at he
    exact iff_of_true rfl ⟨e, he⟩

theorem StoreIndexed.restore_eq (hs : StoreIndexed s) (store : TemporalResultStore)
    (writer : String) : restoreStoreIndex store writer (storeEntries s.store) =
      (savedGroups s.store).foldlM (republish s.store writer) store := by
  have htoList : (publicationGroups (storeEntries s.store)).toList =
      (savedGroups s.store).map fun group => (group,
        (groupOf (storeEntries s.store) group).map fun item => (itemContent item, item)) := by
    unfold savedGroups
    rw [← Std.ExtTreeMap.map_fst_toList_eq_keys, List.map_map]
    conv_lhs => rw [← List.map_id (publicationGroups (storeEntries s.store)).toList]
    apply List.map_congr_left
    rintro ⟨group, contents⟩ hmem
    rw [Std.ExtTreeMap.mem_toList_iff_getElem?_eq_some, groups_getElem?] at hmem
    split at hmem
    · cases hmem
    · rw [← Option.some.inj hmem, Ordered.assignAll_of_nodup]
      · rfl
      · rw [List.map_map]
        exact (hs.contents.sublist ((List.filter_sublist).map itemContent))
  unfold restoreStoreIndex
  rw [htoList, List.foldlM_map]
  congr 1
  funext store group
  have hsame : (groupOf (storeEntries s.store) group).map restoredEntry =
      groupOf (storeEntries s.store) group := by
    conv_rhs => rw [← List.map_id (groupOf (storeEntries s.store) group)]
    apply List.map_congr_left
    intro e he
    exact hs.restored (List.mem_filter.mp he).1
  rw [republish, List.map_map]
  conv_rhs => rw [← hsame]
  rfl

end Listed

/-! ## One group -/

section Published

variable {s : TracedStore} {key : TemporalResultKey} {group : BatchKey} {store store' : TemporalResultStore}
  {batch part old : List TemporalResultEntry} {writer : String} {keys : List TemporalResultKey}

theorem publish_accepts (g : TemporalResultKey → List TemporalResultEntry →
      List TemporalResultEntry) (hsome : batch ≠ []) (hwriter : store.writer = some writer)
    (hchecked : (checkBatch store.grid batch).1 = [])
    (hsettled : ∀ key, batch.filter (·.key = key) ≠ [] →
      settleKey store.entries[key]? key (batch.filter (·.key = key)) =
        .ok (g key (batch.filter (·.key = key)))) :
    ∃ store' keys, publish store batch (some writer) = .ok (store', keys) := by
  have hall : settleAll store.entries (checkBatch store.grid batch).2 =
      .ok ((checkBatch store.grid batch).2.toList.map fun entry => (entry.1, g entry.1 entry.2)) := by
    apply mapM_ok_of_forall
    rintro ⟨key, group⟩ hgroup
    have hpart := checkBatch_byKey key hchecked
    rw [Std.ExtTreeMap.mem_toList_iff_getElem?_eq_some.mp hgroup] at hpart
    split at hpart
    · cases hpart
    · next hne =>
      obtain rfl := Option.some.inj hpart
      rw [hsettled key hne]
      rfl
  unfold publish
  rw [refuseIf_false hsome, hwriter, except_ok_bind]
  dsimp only
  rw [refuseIf_false (by simp), except_ok_bind, hchecked, refuseIf_false (by simp), except_ok_bind,
    hall, except_ok_bind]
  exact ⟨_, _, rfl⟩

theorem publish_writer {writer : Option String} (h : publish store batch writer = .ok (store', keys)) :
    store'.writer = store.writer.or writer := by
  unfold publish at h
  simp only [except_bind_ok, refuseIf_ok] at h
  obtain ⟨-, -, h⟩ := h
  split at h
  all_goals
    simp only [except_bind_ok, refuseIf_ok] at h
  · next hbound =>
    obtain ⟨-, -, -, -, settled, -, hpure⟩ := h
    obtain ⟨rfl, -⟩ := Prod.mk.inj (Except.ok.inj hpure)
    rfl
  · obtain ⟨-, -, settled, -, hpure⟩ := h
    obtain ⟨rfl, -⟩ := Prod.mk.inj (Except.ok.inj hpure)
    rfl

theorem maxRevision_le {revision : Int} (hsome : old ≠ [])
    (h : ∀ e ∈ old, e.sceneRevision ≤ revision) : maxRevision old ≤ revision := by
  have hfold : ∀ (entries : List TemporalResultEntry) (start : Int), start ≤ revision →
      (∀ e ∈ entries, e.sceneRevision ≤ revision) →
      entries.foldl (fun newest e => max newest e.sceneRevision) start ≤ revision := by
    intro entries
    induction entries with
    | nil => exact fun _ hstart _ => hstart
    | cons e entries ih =>
      intro start hstart hall
      rw [List.forall_mem_cons] at hall
      exact ih _ (max_le hstart hall.1) hall.2
  cases old with
  | nil => exact absurd rfl hsome
  | cons first old =>
    rw [List.forall_mem_cons] at h
    exact hfold old _ h.1 h.2

/-- The entries of a key at a group. -/
structure GroupPart (group : BatchKey) (part : List TemporalResultEntry) : Prop where
  nonempty : part ≠ []
  group : ∀ e ∈ part, batchKey e = group

theorem GroupPart.revision (h : GroupPart group part) : batchRevision part = group.1 := by
  obtain ⟨e, he⟩ := List.exists_mem_of_ne_nil part h.nonempty
  have hall : ∀ e ∈ part, e.sceneRevision = group.1 := fun e he => congrArg Prod.fst (h.group e he)
  rw [batchRevision_eq (fun a ha b hb => (hall a ha).trans (hall b hb).symm) he, hall e he]

theorem GroupPart.refused (h : GroupPart group part) (hle : ∀ e ∈ old, e.sceneRevision ≤ group.1)
    (hother : ∀ e ∈ old, batchKey e ≠ group) (hclash : ∃ e ∈ old, e.sceneRevision = group.1) :
    settleKey (some old) key part = .error (.revisionConflict key group.1) := by
  obtain ⟨e, he, hrevision⟩ := hclash
  have hnewest : maxRevision old = group.1 :=
    le_antisymm (maxRevision_le (List.ne_nil_of_mem he) hle) (hrevision ▸ le_maxRevision he)
  have hjobs : jobsOf part ≠ jobsOf (old.filter fun e => e.sceneRevision = group.1) := by
    intro hsame
    have hjob : e.jobId ∈ jobsOf part := by
      rw [hsame]
      simp only [jobsOf, List.mem_toFinset]
      exact List.mem_map_of_mem (List.mem_filter.mpr ⟨he, by simpa using hrevision⟩)
    simp only [jobsOf, List.mem_toFinset] at hjob
    obtain ⟨b, hb, hjob⟩ := List.mem_map.mp hjob
    have hgroup := h.group b hb
    exact hother e he (Prod.ext hrevision (hjob.symm.trans (congrArg Prod.snd hgroup)))
  unfold settleKey
  dsimp only
  rw [h.revision, hnewest, if_neg (lt_irrefl _), if_neg (lt_irrefl _), if_pos hjobs]

theorem GroupPart.accepted (h : GroupPart group part)
    (hlt : ∀ e ∈ old, e.sceneRevision < group.1) :
    settleKey (if old = [] then none else some old) key part = .ok part := by
  by_cases hnone : old = []
  · rw [if_pos hnone]
    rfl
  · have hnewest : maxRevision old ≤ group.1 - 1 :=
      maxRevision_le hnone fun e he => by
        have := hlt e he
        omega
    rw [if_neg hnone]
    unfold settleKey
    dsimp only
    rw [h.revision, if_neg (by omega), if_pos (by omega)]

end Published

/-! ## Into a store of its own -/

section Fresh

variable {s : TracedStore} {key : TemporalResultKey} {group : BatchKey} {writer : String}
  {done : List BatchKey} {store store' : TemporalResultStore}

/-- The entries of a key from some groups. -/
def partOf (s : TracedStore) (groups : List BatchKey) (key : TemporalResultKey) :
    List TemporalResultEntry :=
  (s.store.entriesAt key).filter fun e => batchKey e ∈ groups

/-- The store has what some of the groups recorded. -/
structure Restored (s : TracedStore) (writer : String) (done : List BatchKey)
    (store : TemporalResultStore) : Prop where
  grid : store.grid = s.store.grid
  writer : store.writer = some writer
  entries : ∀ key, store.entries[key]? =
    if partOf s done key = [] then none else some (partOf s done key)

/-- No two jobs have a revision of the key between them. -/
def JobsApart (entries : List TemporalResultEntry) : Prop :=
  ∀ a ∈ entries, ∀ b ∈ entries, a.sceneRevision = b.sceneRevision → a.jobId = b.jobId

/-- The groups that are left come after those that are done. -/
def Follows (done : List BatchKey) (group : BatchKey) : Prop :=
  group ∉ done ∧ ∀ other ∈ done, other.1 ≤ group.1

theorem mem_partOf {e : TemporalResultEntry} :
    e ∈ partOf s done key ↔ e ∈ s.store.entriesAt key ∧ batchKey e ∈ done := by
  simp [partOf]

theorem partOf_sorted (hs : StoreIndexed s) (done : List BatchKey) (key : TemporalResultKey) :
    byWindow (partOf s done key) = partOf s done key := by
  have hsorted := byWindow_sorted (s.store.entriesAt key)
  rw [(hs.indexed key).sorted] at hsorted
  exact (hsorted.filter _).insertionSort_eq

theorem groupPart (hne : (s.store.entriesAt key).filter (fun e => batchKey e = group) ≠ []) :
    GroupPart group ((s.store.entriesAt key).filter fun e => batchKey e = group) where
  nonempty := hne
  group e he := by simpa using (List.mem_filter.mp he).2

theorem commit_group (hs : StoreIndexed s) (hfollows : Follows done group)
    (hne : (s.store.entriesAt key).filter (fun e => batchKey e = group) ≠ [])
    (hlt : ∀ e ∈ partOf s done key, e.sceneRevision < group.1) :
    commitKey (if partOf s done key = [] then none else some (partOf s done key))
        ((s.store.entriesAt key).filter fun e => batchKey e = group) =
      partOf s (done ++ [group]) key := by
  have hpart := groupPart hne
  generalize hgroup : (s.store.entriesAt key).filter (fun e => batchKey e = group) = part at hne hpart
  have hmem : ∀ e, e ∈ part ↔ e ∈ s.store.entriesAt key ∧ batchKey e = group := by
    intro e
    rw [← hgroup, List.mem_filter, decide_eq_true_eq]
  have hnodup : (s.store.entriesAt key).Nodup := (hs.windows key).of_map
  have hboth : ∀ e, e ∈ partOf s (done ++ [group]) key ↔ e ∈ partOf s done key ∨ e ∈ part := by
    intro e
    rw [mem_partOf, mem_partOf, hmem, List.mem_append, List.mem_singleton, and_or_left]
  have hapart : ∀ e ∈ partOf s done key, ∀ b ∈ part, e ≠ b := by
    rintro e he b hb rfl
    exact hfollows.1 ((hmem e).mp hb |>.2 ▸ (mem_partOf.mp he).2)
  have hperm : (partOf s done key ++ byWindow part).Perm (partOf s (done ++ [group]) key) := by
    rw [List.perm_ext_iff_of_nodup]
    · intro e
      rw [List.mem_append, (byWindow_perm part).mem_iff, hboth]
    · rw [List.nodup_append, (byWindow_perm part).nodup_iff, ← hgroup]
      refine ⟨hnodup.filter _, hnodup.filter _, fun e he b hb => hapart e he b ?_⟩
      rw [(byWindow_perm _).mem_iff, hgroup] at hb
      exact hb
    · exact hnodup.filter _
  have hwindows : ((partOf s (done ++ [group]) key).map (·.writeWindow)).Nodup :=
    (hs.windows key).sublist (List.filter_sublist.map _)
  have hwhole : (partOf s done key).flatMap (remainders ((byWindow part).map (·.writeWindow))) =
      partOf s done key := by
    rw [List.flatMap_congr (g := fun e => [e])]
    · exact List.flatMap_singleton' _
    · intro e he
      have heIn := (mem_partOf.mp he).1
      have hcut : ∀ cut ∈ (byWindow part).map (·.writeWindow),
          ∃ b ∈ part, b.writeWindow = cut := by
        intro cut hcut
        obtain ⟨b, hb, rfl⟩ := List.mem_map.mp hcut
        exact ⟨b, (byWindow_perm part).mem_iff.mp hb, rfl⟩
      apply remainders_whole
      · intro hempty cut hmemCut
        obtain ⟨b, hb, rfl⟩ := hcut cut hmemCut
        have hrevision : b.sceneRevision = group.1 := congrArg Prod.fst ((hmem b).mp hb).2
        exact (hs.indexed key).kept e heIn b ((hmem b).mp hb).1 (hrevision ▸ hlt e he) hempty
      · intro cut hmemCut cell hcell
        obtain ⟨b, hb, rfl⟩ := hcut cut hmemCut
        rw [Bool.eq_false_iff]
        intro hhit
        exact hapart e he b hb
          ((hs.traced key).tiles.unique heIn ((hmem b).mp hb).1 hcell hhit)
  have hsorted := (byWindow_eq_of_perm ((hperm.map _).nodup_iff.mpr hwindows) hperm).trans
    (partOf_sorted hs (done ++ [group]) key)
  have hrevision : batchRevision (byWindow part) = group.1 := by
    rw [batchRevision_byWindow, hpart.revision]
    intro a ha b hb
    exact (congrArg Prod.fst (hpart.group a ha)).trans (congrArg Prod.fst (hpart.group b hb)).symm
  unfold commitKey
  dsimp only
  by_cases hnone : partOf s done key = []
  · rw [if_pos hnone]
    rw [hnone, List.nil_append, byWindow_byWindow] at hsorted
    exact hsorted
  · have hnewest : maxRevision (partOf s done key) ≤ group.1 - 1 :=
      maxRevision_le hnone fun e he => by
        have := hlt e he
        omega
    rw [if_neg hnone]
    dsimp only
    rw [hrevision, if_neg (by omega), hwhole, hsorted]

theorem group_checked (hs : StoreIndexed s) (group : BatchKey) :
    (checkBatch s.store.grid (groupOf (storeEntries s.store) group)).1 = [] := by
  have hmem : ∀ e ∈ groupOf (storeEntries s.store) group,
      e ∈ s.store.entriesAt e.key ∧ batchKey e = group := by
    intro e he
    rw [groupOf, List.mem_filter, decide_eq_true_eq] at he
    exact ⟨hs.mem_listed.mp he.1, he.2⟩
  rw [checkBatch_iff]
  refine ⟨fun e he => (hs.indexed e.key).valid e (hmem e he).1, hs.distinct.filter _, ?_⟩
  intro a ha b hb hkey
  have hrevision : a.sceneRevision = b.sceneRevision :=
    congrArg Prod.fst ((hmem a ha).2.trans (hmem b hb).2.symm)
  exact ⟨hrevision, (hs.indexed b.key).modes a (hkey ▸ (hmem a ha).1) b (hmem b hb).1 hrevision⟩

/-- What the key of a group has by then is older. -/
def Clear (s : TracedStore) (done : List BatchKey) (group : BatchKey) : Prop :=
  ∀ key, (s.store.entriesAt key).filter (fun e => batchKey e = group) ≠ [] →
    ∀ e ∈ partOf s done key, e.sceneRevision < group.1

theorem partOf_le (hfollows : Follows done group) :
    ∀ e ∈ partOf s done key, e.sceneRevision ≤ group.1 := fun e he =>
  hfollows.2 (batchKey e) (mem_partOf.mp he).2

theorem republish_clear (hs : StoreIndexed s) (hr : Restored s writer done store)
    (hfollows : Follows done group) (h : republish s.store writer store group = .ok store') :
    Clear s done group := by
  obtain ⟨⟨store'', keys⟩, hpublish, -⟩ := except_map_ok.mp h
  intro key hne e he
  by_contra hnot
  have hrevision := le_antisymm (partOf_le hfollows e he) (le_of_not_gt hnot)
  have hsome := (publish_getElem? key hpublish).1
  rw [hs.group_at] at hsome
  obtain ⟨settled, hsettled, -⟩ := hsome hne
  rw [hr.entries, if_neg (List.ne_nil_of_mem he),
    (groupPart hne).refused (partOf_le hfollows) _ ⟨e, he, hrevision⟩] at hsettled
  · cases hsettled
  · rintro old hold rfl
    exact hfollows.1 (mem_partOf.mp hold).2

theorem republish_restored (hs : StoreIndexed s) (hr : Restored s writer done store)
    (hfollows : Follows done group) (h : republish s.store writer store group = .ok store') :
    Restored s writer (done ++ [group]) store' := by
  have hclear := republish_clear hs hr hfollows h
  obtain ⟨⟨store'', keys⟩, hpublish, rfl⟩ := except_map_ok.mp h
  refine ⟨(publish_checked hpublish).2.1.trans hr.grid, ?_, fun key => ?_⟩
  · rw [publish_writer hpublish, hr.writer]
    rfl
  · obtain ⟨hsome, hnone⟩ := publish_getElem? key hpublish
    rw [hs.group_at] at hsome hnone
    by_cases hne : (s.store.entriesAt key).filter (fun e => batchKey e = group) = []
    · have hsame : partOf s (done ++ [group]) key = partOf s done key := by
        apply List.filter_congr
        intro e he
        rw [List.filter_eq_nil_iff] at hne
        have hother : batchKey e ≠ group := by simpa using hne e he
        simp [hother]
      rw [hnone hne, hr.entries, hsame]
    · obtain ⟨settled, hsettled, hentries⟩ := hsome hne
      rw [hr.entries, (groupPart hne).accepted (hclear key hne)] at hsettled
      obtain rfl := Except.ok.inj hsettled
      have hsomePart : partOf s (done ++ [group]) key ≠ [] := by
        obtain ⟨e, he⟩ := List.exists_mem_of_ne_nil _ hne
        rw [List.mem_filter, decide_eq_true_eq] at he
        exact List.ne_nil_of_mem (mem_partOf.mpr ⟨he.1, by simp [he.2]⟩)
      rw [hentries, hr.entries, commit_group hs hfollows hne (hclear key hne), if_neg hsomePart]

theorem republish_ok (hs : StoreIndexed s) (hr : Restored s writer done store)
    (hclear : Clear s done group) (hsaved : group ∈ savedGroups s.store) :
    ∃ store', republish s.store writer store group = .ok store' := by
  have hsome : groupOf (storeEntries s.store) group ≠ [] := by
    obtain ⟨e, he, hgroup⟩ := mem_savedGroups.mp hsaved
    exact List.ne_nil_of_mem (List.mem_filter.mpr ⟨he, by simpa using hgroup⟩)
  have hchecked := group_checked hs group
  rw [← hr.grid] at hchecked
  obtain ⟨store', keys, hpublish⟩ :=
    publish_accepts (fun _ part => part) hsome hr.writer hchecked fun key hne => by
      rw [hs.group_at] at hne ⊢
      rw [hr.entries]
      exact (groupPart hne).accepted (hclear key hne)
  exact ⟨store', by rw [republish, hpublish]; rfl⟩

theorem savedGroups_follow {saved : TemporalResultStore} {rest : List BatchKey}
    (h : savedGroups saved = done ++ group :: rest) : Follows done group := by
  have hordered := Std.ExtTreeMap.ordered_keys (t := publicationGroups (storeEntries saved))
  rw [← savedGroups, h, List.pairwise_append] at hordered
  have hlt : ∀ other ∈ done, compare other group = .lt := fun other hother =>
    hordered.2.2 other hother group List.mem_cons_self
  refine ⟨fun hmem => ?_, fun other hother => ?_⟩
  · have hself := hlt group hmem
    have hrefl : compare group group = .eq := Std.ReflCmp.compare_self
    rw [hrefl] at hself
    cases hself
  · have hfirst : (compare other.1 group.1).then (compare other.2 group.2) = .lt := hlt other hother
    rw [Ordering.then_eq_lt, Std.compare_eq_lt, Std.compare_eq_iff_eq] at hfirst
    omega

theorem JobsApart.clear (hjobs : ∀ key, JobsApart (s.store.entriesAt key))
    (hfollows : Follows done group) : Clear s done group := by
  intro key hne e he
  rcases lt_or_eq_of_le (partOf_le hfollows e he) with hlt | hrevision
  · exact hlt
  · obtain ⟨b, hb⟩ := List.exists_mem_of_ne_nil _ hne
    rw [List.mem_filter, decide_eq_true_eq] at hb
    have hjob := hjobs key e (mem_partOf.mp he).1 b hb.1
      (hrevision.trans (congrArg Prod.fst hb.2).symm)
    have hsame : batchKey e = group := Prod.ext hrevision (hjob.trans (congrArg Prod.snd hb.2))
    exact absurd (hsame ▸ (mem_partOf.mp he).2) hfollows.1

theorem Clear.jobsApart (hclear : Clear s done group)
    (hjobs : ∀ key, JobsApart (partOf s done key)) (key : TemporalResultKey) :
    JobsApart (partOf s (done ++ [group]) key) := by
  have hnewer : ∀ a ∈ partOf s done key, ∀ b ∈ s.store.entriesAt key, batchKey b = group →
      a.sceneRevision < b.sceneRevision := by
    rintro a ha b hb rfl
    exact hclear key (List.ne_nil_of_mem (List.mem_filter.mpr ⟨hb, by simp⟩)) a ha
  have hmem : ∀ e ∈ partOf s (done ++ [group]) key,
      e ∈ partOf s done key ∨ e ∈ s.store.entriesAt key ∧ batchKey e = group := by
    intro e he
    rw [mem_partOf, List.mem_append, List.mem_singleton] at he
    rw [mem_partOf]
    exact he.2.imp (And.intro he.1) (And.intro he.1)
  intro a ha b hb hrevision
  rcases hmem a ha with ha | ha <;> rcases hmem b hb with hb | hb
  · exact hjobs key a ha b hb hrevision
  · exact absurd hrevision (ne_of_lt (hnewer a ha b hb.1 hb.2))
  · exact absurd hrevision (ne_of_gt (hnewer b hb a ha.1 ha.2))
  · exact congrArg Prod.snd (ha.2.trans hb.2.symm)

theorem partOf_saved (hs : StoreIndexed s) (key : TemporalResultKey) :
    partOf s (savedGroups s.store) key = s.store.entriesAt key := by
  unfold partOf
  rw [List.filter_eq_self]
  intro e he
  rw [decide_eq_true_eq, mem_savedGroups]
  exact ⟨e, hs.mem_listed.mpr ((hs.indexed key).keyed e he ▸ he), rfl⟩

theorem Restored.entries_eq (hs : StoreIndexed s)
    (h : Restored s writer (savedGroups s.store) store) : store.entries = s.store.entries := by
  apply Std.ExtTreeMap.ext_getElem?
  intro key
  have hnonempty := hs.nonempty key
  rw [h.entries, partOf_saved hs, TemporalResultStore.entriesAt, Std.ExtTreeMap.getD_eq_getD_getElem?]
  cases hget : s.store.entries[key]? with
  | none => rfl
  | some entries =>
    rw [hget, ne_eq, Option.some.injEq] at hnonempty
    rw [Option.getD_some, if_neg hnonempty]

/-- The store of an executor that is built. -/
def boundStore (grid : Option RasterGrid) (writer : String) : TemporalResultStore where
  grid := grid
  entries := ∅
  writer := some writer

theorem boundStore_restored (s : TracedStore) (writer : String) :
    Restored s writer [] (boundStore s.store.grid writer) where
  grid := rfl
  writer := rfl
  entries key := by simp [boundStore, partOf]

end Fresh

/-! ## Into the store it came from -/

section Again

variable {s : TracedStore} {key : TemporalResultKey} {group : BatchKey} {writer : String}
  {store : TemporalResultStore} {part entries : List TemporalResultEntry}

/-- The entries of a key are of one group. -/
def OneGroup (entries : List TemporalResultEntry) : Prop :=
  ∀ a ∈ entries, ∀ b ∈ entries, batchKey a = batchKey b

theorem some_entriesAt {e : TemporalResultEntry} (h : e ∈ s.store.entriesAt key) :
    s.store.entries[key]? = some (s.store.entriesAt key) := by
  obtain ⟨entries, hget, -⟩ := mem_entriesAt.mp h
  rw [hget, TemporalResultStore.entriesAt, Dict.getD_of_some hget]

theorem GroupPart.replayed (h : GroupPart group part) (hin : ∀ e ∈ part, e ∈ entries)
    {settled : List TemporalResultEntry} (hok : settleKey (some entries) key part = .ok settled) :
    settled = entries ∧ maxRevision entries = group.1 ∧
      ∀ e ∈ entries, e.sceneRevision = group.1 → e.jobId = group.2 := by
  obtain ⟨first, hfirst⟩ := List.exists_mem_of_ne_nil part h.nonempty
  have hle : group.1 ≤ maxRevision entries := by
    rw [← congrArg Prod.fst (h.group first hfirst)]
    exact le_maxRevision (hin first hfirst)
  unfold settleKey at hok
  dsimp only at hok
  rw [h.revision] at hok
  split at hok
  · cases hok
  · next hnotStale =>
    rw [if_neg (by omega)] at hok
    split at hok
    · cases hok
    · next hjobs =>
      split at hok
      · cases hok
      · refine ⟨(Except.ok.inj hok).symm, by omega, fun e he hrevision => ?_⟩
        have hjob : e.jobId ∈ jobsOf part := by
          rw [not_not.mp hjobs]
          simp only [jobsOf, List.mem_toFinset]
          exact List.mem_map_of_mem (List.mem_filter.mpr ⟨he, by simpa using hrevision⟩)
        simp only [jobsOf, List.mem_toFinset] at hjob
        obtain ⟨b, hb, hsame⟩ := List.mem_map.mp hjob
        exact hsame.symm.trans (congrArg Prod.snd (h.group b hb))

theorem settleKey_self (hone : OneGroup entries) (hsome : entries ≠ []) :
    settleKey (some entries) key entries = .ok entries := by
  obtain ⟨first, hfirst⟩ := List.exists_mem_of_ne_nil entries hsome
  have hrevision : ∀ e ∈ entries, e.sceneRevision = first.sceneRevision := fun e he =>
    congrArg Prod.fst (hone e he first hfirst)
  have hbatch : batchRevision entries = first.sceneRevision :=
    batchRevision_eq (fun a ha b hb => (hrevision a ha).trans (hrevision b hb).symm) hfirst
  have hnewest : maxRevision entries = first.sceneRevision :=
    le_antisymm (maxRevision_le hsome fun e he => le_of_eq (hrevision e he)) (le_maxRevision hfirst)
  have hat : entries.filter (fun e => e.sceneRevision = first.sceneRevision) = entries := by
    rw [List.filter_eq_self]
    intro e he
    simpa using hrevision e he
  unfold settleKey
  dsimp only
  rw [hbatch, hnewest, hat]
  simp

theorem republish_again (hs : StoreIndexed s) (hwriter : s.store.writer = some writer)
    (h : republish s.store writer s.store group = .ok store) :
    store = s.store ∧ ∀ key, ∀ e ∈ s.store.entriesAt key, batchKey e = group →
      maxRevision (s.store.entriesAt key) = group.1 ∧
        ∀ e ∈ s.store.entriesAt key, e.sceneRevision = group.1 → e.jobId = group.2 := by
  obtain ⟨⟨store', keys⟩, hpublish, rfl⟩ := except_map_ok.mp h
  have hkey : ∀ key, (s.store.entriesAt key).filter (fun e => batchKey e = group) ≠ [] →
      (store'.entries[key]? = s.store.entries[key]? ∧
        maxRevision (s.store.entriesAt key) = group.1 ∧
          ∀ e ∈ s.store.entriesAt key, e.sceneRevision = group.1 → e.jobId = group.2) := by
    intro key hne
    obtain ⟨first, hfirst⟩ := List.exists_mem_of_ne_nil _ hne
    have hget := some_entriesAt (List.mem_filter.mp hfirst).1
    have hsome := (publish_getElem? key hpublish).1
    rw [hs.group_at, hget] at hsome
    obtain ⟨settled, hsettled, hentries⟩ := hsome hne
    obtain ⟨rfl, hnewest⟩ :=
      (groupPart hne).replayed (fun e he => (List.mem_filter.mp he).1) hsettled
    refine ⟨?_, hnewest⟩
    rw [hentries, hget, commitKey, if_pos (batchRevision_le _), (hs.indexed key).sorted]
  have hentries : store'.entries = s.store.entries := by
    apply Std.ExtTreeMap.ext_getElem?
    intro key
    by_cases hne : (s.store.entriesAt key).filter (fun e => batchKey e = group) = []
    · have hnone := (publish_getElem? key hpublish).2
      rw [hs.group_at] at hnone
      exact hnone hne
    · exact (hkey key hne).1
  have hbound := publish_writer hpublish
  have hgrid := (publish_checked hpublish).2.1
  rw [hwriter, Option.or_some] at hbound
  refine ⟨?_, fun key e he hgroup => ?_⟩
  · cases hsaved : s.store
    cases store'
    simp_all
  · exact (hkey key (List.ne_nil_of_mem (List.mem_filter.mpr ⟨he, by simpa using hgroup⟩))).2

theorem republish_again_ok (hs : StoreIndexed s) (hwriter : s.store.writer = some writer)
    (hone : ∀ key, OneGroup (s.store.entriesAt key)) (hsaved : group ∈ savedGroups s.store) :
    republish s.store writer s.store group = .ok s.store := by
  have hsome : groupOf (storeEntries s.store) group ≠ [] := by
    obtain ⟨e, he, hgroup⟩ := mem_savedGroups.mp hsaved
    exact List.ne_nil_of_mem (List.mem_filter.mpr ⟨he, by simpa using hgroup⟩)
  obtain ⟨store, keys, hpublish⟩ :=
    publish_accepts (fun _ part => part) hsome hwriter (group_checked hs group) fun key hne => by
      rw [hs.group_at] at hne ⊢
      obtain ⟨first, hfirst⟩ := List.exists_mem_of_ne_nil _ hne
      rw [List.mem_filter, decide_eq_true_eq] at hfirst
      have hall : (s.store.entriesAt key).filter (fun e => batchKey e = group) =
          s.store.entriesAt key := by
        rw [List.filter_eq_self]
        intro e he
        simpa [hfirst.2] using hone key e he first hfirst.1
      rw [hall, some_entriesAt hfirst.1]
      exact settleKey_self (hone key) (List.ne_nil_of_mem hfirst.1)
  have hok : republish s.store writer s.store group = .ok store := by
    rw [republish, hpublish]
    rfl
  rw [hok, (republish_again hs hwriter hok).1]

end Again

/-- In every run: a saved index is restored exactly when no key has two jobs at one revision, and
then it is what was saved. -/
theorem index_restored_iff {grid : Option RasterGrid} {events : List StoreEvent} {s : TracedStore}
    (hnamed : EachStep storeStep (fun _ => PathsNamed) (emptyStore grid) events)
    (hrun : run storeStep (emptyStore grid) events = some s) (writer : String) :
    ((restoreStoreIndex (boundStore s.store.grid writer) writer (storeEntries s.store)).isOk ↔
      ∀ key, JobsApart (s.store.entriesAt key)) ∧
    ∀ t, restoreStoreIndex (boundStore s.store.grid writer) writer (storeEntries s.store) = .ok t →
      t.entries = s.store.entries := by
  have hs := run_indexed hnamed hrun
  rw [hs.restore_eq]
  have hok : ∀ t, (savedGroups s.store).foldlM (republish s.store writer)
      (boundStore s.store.grid writer) = .ok t →
        Restored s writer (savedGroups s.store) t ∧
          ∀ key, JobsApart (partOf s (savedGroups s.store) key) := by
    intro t ht
    refine foldlM_invariant (I := fun done t => Restored s writer done t ∧
      ∀ key, JobsApart (partOf s done key)) ?_ ⟨boundStore_restored s writer, ?_⟩ ht
    · rintro done group rest store store' hgroups ⟨hr, hjobs⟩ hstep
      have hfollows := savedGroups_follow hgroups
      exact ⟨republish_restored hs hr hfollows hstep,
        (republish_clear hs hr hfollows hstep).jobsApart hjobs⟩
    · intro key a ha
      simp [mem_partOf] at ha
  refine ⟨⟨fun h key => ?_, fun hjobs => ?_⟩, fun t ht => (hok t ht).1.entries_eq hs⟩
  · obtain ⟨t, ht⟩ := except_of_isOk h
    rw [← partOf_saved hs]
    exact (hok t ht).2 key
  · have hstep : ∀ done group rest store, savedGroups s.store = done ++ group :: rest →
        Restored s writer done store → ∃ store', republish s.store writer store group = .ok store' ∧
          Restored s writer (done ++ [group]) store' := by
      intro done group rest store hgroups hr
      have hfollows := savedGroups_follow hgroups
      obtain ⟨store', hstep⟩ :=
        republish_ok hs hr (JobsApart.clear hjobs hfollows) (by simp [hgroups])
      exact ⟨store', hstep, republish_restored hs hr hfollows hstep⟩
    obtain ⟨t, ht, -⟩ := foldlM_progress hstep (boundStore_restored s writer)
    rw [ht]
    rfl

/-- A job with two write windows cannot be restored. -/
theorem index_restored_two_windows : ∃ s,
    run storeStep (emptyStore none) [.publish (cellPair "job-w0" "job-w1") none] = some s ∧
      ¬ (restoreStoreIndex (boundStore s.store.grid "executor") "executor"
        (storeEntries s.store)).isOk := by
  obtain ⟨s, hrun⟩ :=
    storeRun_total (emptyStore none) [.publish (cellPair "job-w0" "job-w1") none]
  have hnamed : EachStep storeStep (fun _ => PathsNamed) (emptyStore none)
      [.publish (cellPair "job-w0" "job-w1") none] := by
    refine ⟨fun e he => ?_, fun _ _ => trivial⟩
    simp only [cellPair, List.mem_cons, List.not_mem_nil, or_false] at he
    rcases he with rfl | rfl <;> simp [cellEntry]
  have htwo : ((run storeStep (emptyStore none)
      [.publish (cellPair "job-w0" "job-w1") none]).any fun s =>
        (s.store.entriesAt ("svf", 0)).any fun a => (s.store.entriesAt ("svf", 0)).any fun b =>
          a.sceneRevision = b.sceneRevision ∧ a.jobId ≠ b.jobId) = true := by
    decide
  refine ⟨s, hrun, fun hok => ?_⟩
  have hjobs := (index_restored_iff hnamed hrun "executor").1.mp hok ("svf", 0)
  rw [hrun, Option.any_some, List.any_eq_true] at htwo
  obtain ⟨a, ha, htwo⟩ := htwo
  obtain ⟨b, hb, htwo⟩ := List.any_eq_true.mp htwo
  rw [decide_eq_true_eq] at htwo
  exact htwo.2 (hjobs a ha b hb htwo.1)

/-- In every run: a saved index goes back into the store it came from exactly when each key has
entries of one revision and job, and then nothing changes. -/
theorem index_restored_again_iff {grid : Option RasterGrid} {events : List StoreEvent}
    {s : TracedStore} {writer : String}
    (hnamed : EachStep storeStep (fun _ => PathsNamed) (emptyStore grid) events)
    (hrun : run storeStep (emptyStore grid) events = some s)
    (hwriter : s.store.writer = some writer) :
    ((restoreStoreIndex s.store writer (storeEntries s.store)).isOk ↔
      ∀ key, OneGroup (s.store.entriesAt key)) ∧
    ∀ t, restoreStoreIndex s.store writer (storeEntries s.store) = .ok t → t = s.store := by
  have hs := run_indexed hnamed hrun
  rw [hs.restore_eq]
  have hok : ∀ t, (savedGroups s.store).foldlM (republish s.store writer) s.store = .ok t →
      t = s.store ∧ ∀ group ∈ savedGroups s.store,
        republish s.store writer s.store group = .ok s.store := by
    intro t ht
    refine foldlM_invariant (I := fun done t => t = s.store ∧ ∀ group ∈ done,
      republish s.store writer s.store group = .ok s.store) ?_ ⟨rfl, fun _ h => by cases h⟩ ht
    rintro done group rest store store' - ⟨rfl, hdone⟩ hstep
    obtain rfl := (republish_again hs hwriter hstep).1
    refine ⟨rfl, fun other hother => ?_⟩
    rcases List.mem_append.mp hother with hother | hother
    · exact hdone other hother
    · rw [List.mem_singleton.mp hother]
      exact hstep
  refine ⟨⟨fun h key a ha b hb => ?_, fun hone => ?_⟩, fun t ht => (hok t ht).1⟩
  · obtain ⟨t, ht⟩ := except_of_isOk h
    have hnewest : ∀ e ∈ s.store.entriesAt key,
        maxRevision (s.store.entriesAt key) = e.sceneRevision ∧
          ∀ other ∈ s.store.entriesAt key, other.sceneRevision = e.sceneRevision →
            other.jobId = e.jobId := by
      intro e he
      have hlisted := hs.mem_listed.mpr ((hs.indexed key).keyed e he ▸ he)
      have hagain := (hok t ht).2 (batchKey e) (mem_savedGroups.mpr ⟨e, hlisted, rfl⟩)
      exact (republish_again hs hwriter hagain).2 key e he rfl
    obtain ⟨hrevision, hjob⟩ := hnewest b hb
    have hsame : a.sceneRevision = b.sceneRevision := (hnewest a ha).1.symm.trans hrevision
    exact Prod.ext hsame (hjob a ha hsame)
  · have hstep : ∀ done group rest store, savedGroups s.store = done ++ group :: rest →
        store = s.store → ∃ store', republish s.store writer store group = .ok store' ∧
          store' = s.store := by
      rintro done group rest store hgroups rfl
      exact ⟨s.store, republish_again_ok hs hwriter hone (by simp [hgroups]), rfl⟩
    obtain ⟨t, ht, -⟩ := foldlM_progress (I := fun _ store => store = s.store) hstep rfl
    rw [ht]
    rfl

/-- The first cell of the pair, published again at the next revision. -/
def laterCell : DisjointBatch where
  entries := [{ cellEntry 0 "b" with sceneRevision := 2 }]
  apart := List.pairwise_singleton _ _

/-- With one cell superseded the other keeps the older revision, and the index does not go back. -/
theorem index_restored_again_stale : ∃ s,
    run storeStep (emptyStore none)
        [.publish (cellPair "a" "a") (some "executor"),
          .publish laterCell (some "executor")] = some s ∧
      ¬ (restoreStoreIndex s.store "executor" (storeEntries s.store)).isOk := by
  obtain ⟨s, hrun⟩ := storeRun_total (emptyStore none)
    [.publish (cellPair "a" "a") (some "executor"), .publish laterCell (some "executor")]
  have hnamed : EachStep storeStep (fun _ => PathsNamed) (emptyStore none)
      [.publish (cellPair "a" "a") (some "executor"), .publish laterCell (some "executor")] := by
    refine ⟨fun e he => ?_, fun _ _ => ⟨fun e he => ?_, fun _ _ => trivial⟩⟩
    · simp only [cellPair, List.mem_cons, List.not_mem_nil, or_false] at he
      rcases he with rfl | rfl <;> simp [cellEntry]
    · rw [List.mem_singleton.mp he]
      simp [cellEntry]
  have hmixed : ((run storeStep (emptyStore none)
      [.publish (cellPair "a" "a") (some "executor"), .publish laterCell (some "executor")]).any
        fun s => s.store.writer = some "executor" ∧
          (s.store.entriesAt ("svf", 0)).any fun a => (s.store.entriesAt ("svf", 0)).any fun b =>
            batchKey a ≠ batchKey b) = true := by
    decide
  rw [hrun, Option.any_some, decide_eq_true_eq] at hmixed
  obtain ⟨hwriter, hmixed⟩ := hmixed
  refine ⟨s, hrun, fun hok => ?_⟩
  have hone := (index_restored_again_iff hnamed hrun hwriter).1.mp hok ("svf", 0)
  obtain ⟨a, ha, hmixed⟩ := List.any_eq_true.mp hmixed
  obtain ⟨b, hb, hmixed⟩ := List.any_eq_true.mp hmixed
  exact of_decide_eq_true hmixed (hone a ha b hb)

end Solweig.Incremental
