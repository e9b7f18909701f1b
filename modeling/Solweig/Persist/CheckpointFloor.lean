import Mathlib.Data.List.Sort
import Solweig.Lib.Run
import Solweig.Persist.CheckpointStore

/-!
# The floor of the checkpoint store

What a write leaves when it ends, raises or is killed: the staged record loads, the rename puts it
in place whole, and the rotation deletes only revisions that newer ones replace.
-/

namespace Solweig.Persist

open Solweig.Lib Solweig.Lib.Disk

variable {M T D : Type} {format : CheckpointFormat M T D}
  {record : CheckpointRecord M T} {fate : FileOp → Fate}

/-! ## What a staged record loads -/

def tensorFiles (record : CheckpointRecord M T) : Dict String (CheckpointFile M T D) :=
  record.tensors.toList.foldl (fun files entry =>
    Std.ExtTreeMap.insert files (tensorFile entry.1) (.tensor entry.2)) ∅

/-- The files of a record. -/
def recordFiles (format : CheckpointFormat M T D) (record : CheckpointRecord M T) :
    Dict String (CheckpointFile M T D) :=
  (tensorFiles record).insert metadataFile (metadataOf format record)

theorem tensorFile_inj {name other : String} : tensorFile name = tensorFile other ↔ name = other := by
  unfold tensorFile
  rw [String.append_left_inj, String.append_right_inj]

theorem tensorFile_ne_metadata (name : String) : tensorFile name ≠ metadataFile := by
  intro h
  have hlists := congrArg String.toList h
  simp [tensorFile, metadataFile] at hlists

theorem getElem?_tensorFile {name : String} {plane : T} (h : record.tensors[name]? = some plane) :
    (recordFiles format record)[tensorFile name]? = some (.tensor plane) := by
  rw [recordFiles, Dict.getElem?_insert_of_ne _ _ (tensorFile_ne_metadata name).symm, tensorFiles,
    Dict.getElem?_foldl_insert (v := .tensor plane), if_pos]
  · exact ⟨(name, plane), Std.ExtTreeMap.mem_toList_iff_getElem?_eq_some.mpr h, rfl⟩
  · intro entry hentry hname
    have hentry' := Std.ExtTreeMap.mem_toList_iff_getElem?_eq_some.mp hentry
    rw [tensorFile_inj.mp hname, h, Option.some.injEq] at hentry'
    rw [hentry']

theorem loadCheckpoint_recordFiles [DecidableEq D]
    (hvalid : format.valid record.body record.tensors = true) :
    loadCheckpoint format (recordFiles format record) = .ok record := by
  have hmetadata : (recordFiles format record)[metadataFile]? = some (metadataOf format record) :=
    Std.ExtTreeMap.getElem?_insert_self ..
  have hentries : (payloadOf format record).tensorChecksums.toList.mapM
      (loadTensor format (recordFiles format record)) = .ok record.tensors.toList := by
    have hlist : (payloadOf format record).tensorChecksums.toList =
        record.tensors.toList.map fun entry => (entry.1, format.tensorChecksum entry.2) :=
      Std.ExtTreeMap.toList_map
    rw [hlist, List.mapM_map, mapM_ok_of_forall (g := id), List.map_id]
    rintro ⟨name, plane⟩ hentry
    have hplane := Std.ExtTreeMap.mem_toList_iff_getElem?_eq_some.mp hentry
    simp [loadTensor, getElem?_tensorFile hplane, refuseIf]
  have hback := Dict.ofEntries_toList record.tensors
  simp only [loadCheckpoint, hmetadata, metadataOf, hentries, except_bind_ok, refuseIf_ok]
  refine ⟨(), by decide, (), by simp, _, rfl, (), ?_, ?_⟩
  · rw [hback]
    exact not_not.mpr hvalid
  · rw [hback]
    rfl

/-! ## The phases of a write -/

variable {disk disk' : Directories (CheckpointFile M T D)} {name staging final : String}

theorem keeps_prepareStaging : Txn.Keeps
    (fun disk : Directories (CheckpointFile M T D) => disk.erase staging)
    (prepareStaging fate staging) := by
  unfold prepareStaging
  refine (keeps_operation ?_).bind fun _ => keeps_removeIfThere.bind fun _ => keeps_operation ?_
  · intro s t h
    rw [Option.some.inj h]
  · exact fun s t => makeDir_erase

theorem prepareStaging_ok (h : prepareStaging fate staging disk = (.ok (), disk')) :
    disk'[staging]? = some ∅ := by
  unfold prepareStaging at h
  iterate 2 obtain ⟨_, _, -, h⟩ := Txn.bind_ok.mp h
  obtain ⟨-, h⟩ := operation_ok.mp h
  unfold makeDir at h
  split at h
  · cases h
  · rw [← Option.some.inj h, Std.ExtTreeMap.getElem?_insert_self]

theorem keeps_saveRecord : Txn.Keeps
    (fun disk : Directories (CheckpointFile M T D) => disk.erase staging)
    (saveRecord format fate staging record) := by
  unfold saveRecord
  refine (keeps_operation ?_).bind fun _ => (Txn.keeps_forM fun entry => ?_).bind fun _ => ?_
  · intro s t h
    rw [Option.some.inj h]
  · exact keeps_operation fun s t => writeFile_erase
  · exact keeps_operation fun s t => writeFile_erase

theorem saveRecord_ok (hempty : disk[staging]? = some ∅)
    (h : saveRecord format fate staging record disk = (.ok (), disk')) :
    disk'[staging]? = some (recordFiles format record) := by
  unfold saveRecord at h
  obtain ⟨_, started, hstart, h⟩ := Txn.bind_ok.mp h
  obtain ⟨-, hstart⟩ := operation_ok.mp hstart
  obtain rfl := Option.some.inj hstart
  obtain ⟨_, saved, hsave, h⟩ := Txn.bind_ok.mp h
  have htensors := forM_writeFile hempty hsave
  obtain ⟨-, h⟩ := operation_ok.mp h
  rw [writeFile, htensors, Std.ExtTreeMap.getElem?_insert_self, Option.map_some,
    Option.some.injEq] at h
  rw [← h, Std.ExtTreeMap.getElem?_insert_self]
  rfl

/-- A predecessor is removed and replaced without a cut, or its removal does not begin. -/
def Replaces (fate : FileOp → Fate) (final : String)
    (disk : Directories (CheckpointFile M T D)) : Prop :=
  disk[final]?.isSome →
    ((∀ file, fate (.removeOld file) = .runs) ∧ fate .rename = .runs) ∨
      fate (.removeOld (fileNames disk final).head?) ≠ .runs

theorem rename_ok {files : Dict String (CheckpointFile M T D)} (hfiles : disk[staging]? = some files)
    (hfree : disk[final]? = none) :
    rename staging final disk = some ((disk.erase staging).insert final files) := by
  rw [rename, hfiles, hfree]
  rfl

theorem erase_renamed {base : Directories (CheckpointFile M T D)}
    {files : Dict String (CheckpointFile M T D)} (hne : final ≠ staging)
    (hbase : ∀ other, other ≠ final → base[other]? = disk[other]?) :
    ((base.erase staging).insert final files).erase staging =
      (disk.erase staging).insert final files := by
  apply Std.ExtTreeMap.ext_getElem?
  intro other
  by_cases hstaging : other = staging
  · rw [hstaging, Dict.getElem?_insert_of_ne _ _ hne]
    simp
  · rw [Dict.getElem?_erase_of_ne _ (Ne.symm hstaging)]
    by_cases hfinal : other = final
    · rw [hfinal, Std.ExtTreeMap.getElem?_insert_self, Std.ExtTreeMap.getElem?_insert_self]
    · rw [Dict.getElem?_insert_of_ne _ _ (Ne.symm hfinal),
        Dict.getElem?_insert_of_ne _ _ (Ne.symm hfinal),
        Dict.getElem?_erase_of_ne _ (Ne.symm hstaging),
        Dict.getElem?_erase_of_ne _ (Ne.symm hstaging), hbase other hfinal]

theorem replaceRevision_cases {files : Dict String (CheckpointFile M T D)} (hne : final ≠ staging)
    (hfiles : disk[staging]? = some files) (hreplaces : Replaces fate final disk) :
    (∃ disk', replaceRevision fate staging final disk = (.ok (), disk') ∧
      disk'.erase staging = (disk.erase staging).insert final files) ∨
      ∃ stop, replaceRevision fate staging final disk = (.error stop, disk) := by
  unfold replaceRevision
  rcases hfinal : disk[final]? with _ | old
  · have hskip : removeIfThere (fun file => fate (.removeOld file)) final disk = (.ok (), disk) := by
      rw [removeIfThere, hfinal]
      rfl
    by_cases hrename : fate .rename = .runs
    · refine Or.inl ⟨_, (Txn.bind_of_ok hskip).trans
        (operation_ok.mpr ⟨hrename, rename_ok hfiles hfinal⟩), ?_⟩
      exact erase_renamed hne fun _ _ => rfl
    · obtain ⟨stop, hstop⟩ := operation_cut hrename (rename staging final) disk
      exact Or.inr ⟨stop, (Txn.bind_of_ok hskip).trans hstop⟩
  · have hthere : removeIfThere (fun file => fate (.removeOld file)) final disk =
        removeTree (fun file => fate (.removeOld file)) final disk := by
      rw [removeIfThere, hfinal]
      rfl
    rcases hreplaces (by rw [hfinal]; rfl) with ⟨hremove, hrename⟩ | hcut
    · have hremoved := hthere.trans (removeTree_runs hremove hfinal)
      have hstaged : (disk.erase final)[staging]? = some files := by
        rw [Dict.getElem?_erase_of_ne _ hne, hfiles]
      refine Or.inl ⟨_, (Txn.bind_of_ok hremoved).trans
        (operation_ok.mpr ⟨hrename, rename_ok hstaged (by simp)⟩), ?_⟩
      exact erase_renamed hne fun other hother => Dict.getElem?_erase_of_ne _ hother.symm
    · obtain ⟨stop, hstop⟩ := removeTree_cut (fun file => fate (.removeOld file)) hcut
      exact Or.inr ⟨stop, Txn.bind_of_error (hthere.trans hstop)⟩

/-! ## Rotation -/

variable {keep revision : Nat}

/-- Fewer than `keep` numbers of the set are greater. -/
def Newest (keep : Nat) (present : Nat → Prop) (revision : Nat) : Prop :=
  ∀ later : List Nat, later.Nodup → (∀ r ∈ later, present r ∧ revision < r) → later.length < keep

theorem mem_drop_iff_newest {revisions : List Nat} (hsorted : revisions.Pairwise (· < ·))
    (hkeep : 1 ≤ keep) (hmem : revision ∈ revisions) :
    revision ∈ revisions.drop (revisions.length - keep) ↔ Newest keep (· ∈ revisions) revision := by
  have hsplit := List.take_append_drop (revisions.length - keep) revisions
  generalize htake : revisions.take (revisions.length - keep) = older at hsplit
  generalize hdrop : revisions.drop (revisions.length - keep) = newer at hsplit
  have hnewer : newer.length ≤ keep := by
    rw [← hdrop, List.length_drop]
    omega
  rw [← hsplit] at hsorted
  obtain ⟨-, hsortedNewer, hbetween⟩ := List.pairwise_append.mp hsorted
  constructor
  · intro hrevision later hnodup hlater
    -- what is greater is in the end of the list too, and the revision is not among it
    have hsub : revision :: later ⊆ newer := by
      intro r hr
      rcases List.mem_cons.mp hr with rfl | hr
      · exact hrevision
      · obtain ⟨hr, hlt⟩ := hlater r hr
        rw [← hsplit] at hr
        rcases List.mem_append.mp hr with hold | hnew
        · have := hbetween r hold revision hrevision
          omega
        · exact hnew
    have hcons : (revision :: later).Nodup := by
      refine List.nodup_cons.mpr ⟨fun h => ?_, hnodup⟩
      have := (hlater revision h).2
      omega
    have hlength := (List.subperm_of_subset hcons hsub).length_le
    rw [List.length_cons] at hlength
    omega
  · intro hnewest
    by_contra hnot
    have hold : revision ∈ older := by
      rw [← hsplit] at hmem
      exact (List.mem_append.mp hmem).resolve_right hnot
    have hlength : newer.length = keep := by
      have : older ≠ [] := List.ne_nil_of_mem hold
      have hpos : 0 < older.length := List.length_pos_iff.mpr this
      rw [← htake, List.length_take] at hpos
      rw [← hdrop, List.length_drop]
      omega
    have hlt := hnewest newer (hsortedNewer.imp (fun h => Nat.ne_of_lt h)) fun r hr => by
      refine ⟨?_, hbetween revision hold r hr⟩
      rw [← hsplit]
      exact List.mem_append_right _ hr
    omega

/-- A directory of the revision is there. -/
def Present (disk : Directories (CheckpointFile M T D)) (revision : Nat) : Prop :=
  disk[revName revision]?.isSome

theorem mem_listCheckpoints :
    revision ∈ listCheckpoints disk ↔ revision < 10 ^ 6 ∧ Present disk revision := by
  unfold listCheckpoints Present
  rw [List.mem_insertionSort, List.mem_filterMap]
  constructor
  · rintro ⟨name, hname, hrevision⟩
    obtain ⟨rfl, hlt⟩ := revisionDir?_some hrevision
    rw [Std.ExtTreeMap.mem_keys, Std.ExtTreeMap.mem_iff_isSome_getElem?] at hname
    exact ⟨hlt, hname⟩
  · rintro ⟨hlt, hpresent⟩
    refine ⟨revName revision, ?_, revisionDir?_revName hlt⟩
    rwa [Std.ExtTreeMap.mem_keys, Std.ExtTreeMap.mem_iff_isSome_getElem?]

theorem listCheckpoints_sorted (disk : Directories (CheckpointFile M T D)) :
    (listCheckpoints disk).Pairwise (· < ·) := by
  have hsorted : (listCheckpoints disk).Pairwise (· ≤ ·) := List.pairwise_insertionSort ..
  have hnodup : (listCheckpoints disk).Nodup := by
    refine (List.perm_insertionSort _ _).nodup_iff.mpr ?_
    refine List.Nodup.filterMap ?_ Std.ExtTreeMap.nodup_keys
    intro name other r hname hother
    rw [(revisionDir?_some hname).1, (revisionDir?_some hother).1]
  exact (hsorted.and hnodup).imp fun h => Nat.lt_of_le_of_ne h.1 h.2

theorem mem_staleRevisions (hkeep : 1 ≤ keep) : revision ∈ staleRevisions keep disk ↔
    revision ∈ listCheckpoints disk ∧ revision ≠ 0 ∧
      ¬ Newest keep (· ∈ listCheckpoints disk) revision := by
  unfold staleRevisions
  simp only [List.mem_filter, List.mem_cons, not_or, decide_eq_true_eq]
  refine and_congr_right fun hmem => and_congr_right fun _ => not_congr ?_
  exact mem_drop_iff_newest (listCheckpoints_sorted disk) hkeep hmem

theorem staleRevisions_sorted (keep : Nat) (disk : Directories (CheckpointFile M T D)) :
    (staleRevisions keep disk).Pairwise (· < ·) :=
  (listCheckpoints_sorted disk).filter _

theorem forM_removeTreeIgnoring {remove : Nat → Option String → Fate}
    (hruns : ∀ revision file, remove revision file = .runs) {revisions : List Nat}
    (hnodup : revisions.Nodup) (hpresent : ∀ r ∈ revisions, Present disk r) :
    (revisions.forM fun revision => removeTreeIgnoring (remove revision) (revName revision)) disk =
      (.ok (), eraseAll disk (revisions.map revName)) := by
  induction revisions generalizing disk with
  | nil => rfl
  | cons revision revisions ih =>
    obtain ⟨hfirst, hrest⟩ := List.forall_mem_cons.mp hpresent
    obtain ⟨hnew, hnodup⟩ := List.nodup_cons.mp hnodup
    obtain ⟨files, hfiles⟩ := Option.isSome_iff_exists.mp hfirst
    refine (Txn.bind_of_ok (removeTreeIgnoring_runs (hruns revision) hfiles)).trans ?_
    refine ih hnodup fun r hr => ?_
    have hne : revName revision ≠ revName r := fun h => hnew (revName_inj.mp h ▸ hr)
    unfold Present
    rw [Dict.getElem?_erase_of_ne _ hne]
    exact hrest r hr

theorem pruneCheckpoints_cases (hkeep : 1 ≤ keep)
    (hrotates : (∀ r file, fate (.removeStale r file) = .runs) ∨
      ∀ r ∈ (staleRevisions keep disk).head?,
        fate (.removeStale r (fileNames disk (revName r)).head?) = .killed) :
    pruneCheckpoints fate keep disk =
        (.ok (), eraseAll disk ((staleRevisions keep disk).map revName)) ∨
      pruneCheckpoints fate keep disk = (.error .killed, disk) := by
  unfold pruneCheckpoints
  rcases hrotates with hruns | hkilled
  · refine Or.inl ((Txn.bind_of_ok rfl).trans (forM_removeTreeIgnoring hruns ?_ ?_))
    · exact (staleRevisions_sorted keep disk).imp fun h => Nat.ne_of_lt h
    · exact fun r hr => (mem_listCheckpoints.mp ((mem_staleRevisions hkeep).mp hr).1).2
  · rcases hstale : staleRevisions keep disk with _ | ⟨first, rest⟩ <;> rw [hstale] at hkilled
    · refine Or.inl ((Txn.bind_of_ok rfl).trans ?_)
      rw [hstale]
      rfl
    · refine Or.inr ((Txn.bind_of_ok rfl).trans ?_)
      rw [hstale]
      exact Txn.bind_of_error (removeTreeIgnoring_killed
        (fun file => fate (.removeStale first file)) (hkilled first rfl))

/-! ## One write -/

/-- One call, with what becomes of its file operations. -/
structure WriteCall (M T : Type) where
  record : CheckpointRecord M T
  keep : Nat
  fate : FileOp → Fate

abbrev WriteCall.sceneRevision (call : WriteCall M T) : Nat := call.record.sceneRevision

/-- What is there once the record is in place. -/
def WriteCall.placed (call : WriteCall M T) (disk : Directories (CheckpointFile M T D))
    (revision : Nat) : Prop := Present disk revision ∨ revision = call.sceneRevision

/-- What the rotation of the call deletes. -/
def WriteCall.Stale (call : WriteCall M T) (disk : Directories (CheckpointFile M T D))
    (revision : Nat) : Prop :=
  call.placed disk revision ∧ revision ≠ 0 ∧ ¬ Newest call.keep (call.placed disk) revision

/-- A revision that its name can hold, that the rotation keeps, and no cut between the begin of a
removal and its end. -/
structure WriteCall.Safe (call : WriteCall M T) (disk : Directories (CheckpointFile M T D)) : Prop where
  named : call.sceneRevision < 10 ^ 6
  kept : ¬ call.Stale disk call.sceneRevision
  replaces : Replaces call.fate (revName call.sceneRevision) disk
  rotates : (∀ r file, call.fate (.removeStale r file) = .runs) ∨
    ∀ r, call.Stale disk r → (∀ other, call.Stale disk other → r ≤ other) →
      call.fate (.removeStale r (fileNames disk (revName r)).head?) = .killed

variable [DecidableEq D]

/-- What a call must leave. -/
def Floor (format : CheckpointFormat M T D) (disk : Directories (CheckpointFile M T D))
    (call : WriteCall M T)
    (result : Except Stop String × Directories (CheckpointFile M T D)) : Prop :=
  match result.1 with
  | .error _ => ∀ revision record, loadAt format disk revision = some record →
      loadAt format result.2 revision = some record ∨
        revision = call.sceneRevision ∧ loadAt format result.2 revision = some call.record
  | .ok path => path = revName call.sceneRevision ∧
      loadAt format result.2 call.sceneRevision = some call.record ∧
      (∀ revision, Present result.2 revision ↔ call.placed disk revision ∧
        (revision = call.sceneRevision ∨ revision = 0 ∨
          Newest call.keep (call.placed disk) revision)) ∧
      ∀ revision, Present result.2 revision → (∀ other, Present result.2 other → other ≤ revision) →
        ∃ record, loadAt format result.2 revision = some record ∧
          loadLatestCheckpoint format result.2 = some record

/-- Every revision that is there loads, and its name holds it. -/
def Intact (format : CheckpointFormat M T D) (disk : Directories (CheckpointFile M T D)) : Prop :=
  ∀ revision, Present disk revision →
    revision < 10 ^ 6 ∧ (loadAt format disk revision).isSome

omit [DecidableEq D] in
theorem place_cases (format : CheckpointFormat M T D) (record : CheckpointRecord M T)
    (hne : final ≠ staging) (hempty : disk[staging]? = some ∅)
    (hreplaces : Replaces fate final disk) :
    let place := onRaise
      (saveRecord format fate staging record >>= fun _ => replaceRevision fate staging final)
      (removeTreeIgnoring (fun file => fate (.discardStaging file)) staging)
    (∃ disk', place disk = (.ok (), disk') ∧
      disk'.erase staging = (disk.erase staging).insert final (recordFiles format record)) ∨
    ∃ stop disk', place disk = (.error stop, disk') ∧ disk'.erase staging = disk.erase staging := by
  intro place
  -- an error of the body goes on, after the cleanup if it was a raise
  have hfails : ∀ stop u, (saveRecord format fate staging record >>= fun _ =>
      replaceRevision fate staging final) disk = (.error stop, u) →
      u.erase staging = disk.erase staging →
      ∃ stop disk', place disk = (.error stop, disk') ∧
        disk'.erase staging = disk.erase staging := by
    intro stop u hbody hkept
    have hcleanup : (removeTreeIgnoring (fun file => fate (.discardStaging file)) staging u).2.erase
        staging = u.erase staging := keeps_removeTreeIgnoring u
    unfold place onRaise
    rw [hbody]
    cases stop with
    | killed => exact ⟨.killed, u, rfl, hkept⟩
    | raised =>
      rcases hclean : removeTreeIgnoring (fun file => fate (.discardStaging file)) staging u with
        ⟨stop | ⟨⟩, cleaned⟩
      all_goals rw [hclean] at hcleanup
      · exact ⟨stop, cleaned, Txn.bind_of_error hclean, hcleanup.trans hkept⟩
      · exact ⟨.raised, cleaned, Txn.bind_of_ok hclean, hcleanup.trans hkept⟩
  have hkept : (saveRecord format fate staging record disk).2.erase staging = disk.erase staging :=
    keeps_saveRecord disk
  rcases hsave : saveRecord format fate staging record disk with ⟨stop | ⟨⟩, saved⟩
  all_goals rw [hsave] at hkept
  · exact Or.inr (hfails stop saved (Txn.bind_of_error hsave) hkept)
  have hsavedFinal : saved[final]? = disk[final]? := getElem?_of_erase hkept hne
  have hreplacesSaved : Replaces fate final saved := by
    unfold Replaces fileNames at *
    rwa [hsavedFinal]
  rcases replaceRevision_cases hne (saveRecord_ok hempty hsave) hreplacesSaved with
    ⟨placed, hreplace, herase⟩ | ⟨stop, hreplace⟩
  · refine Or.inl ⟨placed, ?_, ?_⟩
    · unfold place onRaise
      rw [Txn.bind_of_ok hsave, hreplace]
    · rw [herase, show saved.erase staging = disk.erase staging from hkept]
  · exact Or.inr (hfails stop saved ((Txn.bind_of_ok hsave).trans hreplace) hkept)

/-- The write of a call. -/
def WriteCall.write (call : WriteCall M T) (format : CheckpointFormat M T D) :
    Crash (Directories (CheckpointFile M T D)) String :=
  writeCheckpoint format call.fate call.record call.keep

omit [DecidableEq D] in
theorem getElem?_eraseAll_revName (revisions : List Nat) :
    (eraseAll disk (revisions.map revName))[revName revision]? =
      if revision ∈ revisions then none else disk[revName revision]? := by
  rw [getElem?_eraseAll]
  have hmem : revName revision ∈ revisions.map revName ↔ revision ∈ revisions := by
    rw [List.mem_map]
    constructor
    · rintro ⟨r, hr, hname⟩
      exact revName_inj.mp hname ▸ hr
    · exact fun h => ⟨revision, h, rfl⟩
  simp only [hmem]

section Placed

variable {call : WriteCall M T} {placed : Directories (CheckpointFile M T D)}

theorem mem_stale_placed (hintact : Intact format disk) (hsafe : call.Safe disk)
    (hkeep : 1 ≤ call.keep)
    (hlookup : ∀ r, placed[revName r]? = if r = call.sceneRevision then
      some (recordFiles format call.record) else disk[revName r]?) (r : Nat) :
    r ∈ staleRevisions call.keep placed ↔ call.Stale disk r := by
  have hpresent : ∀ r, Present placed r ↔ call.placed disk r := by
    intro r
    unfold Present WriteCall.placed
    rw [hlookup]
    by_cases h : r = call.sceneRevision <;> simp [h, Present]
  have hlisted : ∀ r, r ∈ listCheckpoints placed ↔ call.placed disk r := by
    intro r
    rw [mem_listCheckpoints, hpresent, and_iff_right_iff_imp]
    rintro (hthere | rfl)
    · exact (hintact r hthere).1
    · exact hsafe.named
  rw [mem_staleRevisions hkeep, hlisted, WriteCall.Stale]
  simp only [hlisted]

/-- The rotation of a safe call runs to its end, or it is killed before it removes anything. -/
theorem pruneCheckpoints_placed (hintact : Intact format disk) (hsafe : call.Safe disk)
    (hkeep : 1 ≤ call.keep)
    (hlookup : ∀ r, placed[revName r]? = if r = call.sceneRevision then
      some (recordFiles format call.record) else disk[revName r]?) :
    pruneCheckpoints call.fate call.keep placed =
        (.ok (), eraseAll placed ((staleRevisions call.keep placed).map revName)) ∨
      pruneCheckpoints call.fate call.keep placed = (.error .killed, placed) := by
  have hstale := mem_stale_placed hintact hsafe hkeep hlookup
  refine pruneCheckpoints_cases hkeep (hsafe.rotates.imp_right fun hkilled r hhead => ?_)
  obtain ⟨rest, hrest⟩ := List.head?_eq_some_iff.mp hhead
  have hfirst := (hstale r).mp (by rw [hrest]; exact List.mem_cons_self ..)
  have hleast : ∀ other, call.Stale disk other → r ≤ other := by
    intro other hother
    have hsorted := staleRevisions_sorted call.keep placed
    have hmem := (hstale other).mpr hother
    rw [hrest] at hsorted hmem
    rcases List.mem_cons.mp hmem with rfl | hlater
    · exact Nat.le_refl _
    · exact Nat.le_of_lt ((List.pairwise_cons.mp hsorted).1 other hlater)
  have hkill := hkilled r hfirst hleast
  have hother : r ≠ call.sceneRevision := fun h => hsafe.kept (h ▸ hfirst)
  unfold fileNames at *
  rwa [hlookup, if_neg hother]

end Placed

/-- How a safe call ends: before the record is in place, with the record in place, or with the
stale revisions gone too. -/
theorem write_cases {call : WriteCall M T} (hintact : Intact format disk) (hsafe : call.Safe disk) :
    (∃ stop disk', call.write format disk = (.error stop, disk') ∧
      ∀ r, disk'[revName r]? = disk[revName r]?) ∨
    format.valid call.record.body call.record.tensors = true ∧
    ((∃ stop disk', call.write format disk = (.error stop, disk') ∧
      ∀ r, disk'[revName r]? = if r = call.sceneRevision then some (recordFiles format call.record)
        else disk[revName r]?) ∨
    ∃ disk', ∃ stale : List Nat, call.write format disk = (.ok (revName call.sceneRevision), disk') ∧
      (∀ r, r ∈ stale ↔ call.Stale disk r) ∧
      ∀ r, disk'[revName r]? = if r ∈ stale then none
        else if r = call.sceneRevision then some (recordFiles format call.record)
        else disk[revName r]?) := by
  have hne : revName call.sceneRevision ≠ stagingName call.sceneRevision :=
    (stagingName_ne_revName _ _).symm
  have hstaging : ∀ r, revName r ≠ stagingName call.sceneRevision := fun r =>
    (stagingName_ne_revName _ _).symm
  unfold WriteCall.write writeCheckpoint
  by_cases hinvalid : call.keep < 1 ∨ ¬ format.valid call.record.body call.record.tensors = true
  · refine Or.inl ⟨.raised, disk, Txn.bind_of_error ?_, fun _ => rfl⟩
    rw [Txn.refuseIf, if_pos hinvalid]
    rfl
  have hstart : (Txn.refuseIf (call.keep < 1 ∨ ¬ format.valid call.record.body
      call.record.tensors = true) .raised :
        Crash (Directories (CheckpointFile M T D)) Unit) disk = (.ok (), disk) :=
    Txn.refuseIf_ok.mpr ⟨hinvalid, rfl⟩
  obtain ⟨hkeep, hvalid⟩ := not_or.mp hinvalid
  rw [Txn.bind_of_ok hstart]
  have hprepared : (prepareStaging (M := M) (T := T) (D := D) call.fate
      (stagingName call.sceneRevision) disk).2.erase (stagingName call.sceneRevision) =
        disk.erase (stagingName call.sceneRevision) := keeps_prepareStaging disk
  rcases hprepare : prepareStaging (M := M) (T := T) (D := D) call.fate
    (stagingName call.sceneRevision) disk with ⟨stop | ⟨⟩, staged⟩
  all_goals rw [hprepare] at hprepared
  · exact Or.inl ⟨stop, staged, Txn.bind_of_error hprepare, fun r =>
      getElem?_of_erase hprepared (hstaging r)⟩
  rw [Txn.bind_of_ok hprepare]
  have hstagedFinal : staged[revName call.sceneRevision]? = disk[revName call.sceneRevision]? :=
    getElem?_of_erase hprepared hne
  have hreplaces : Replaces call.fate (revName call.sceneRevision) staged := by
    have := hsafe.replaces
    unfold Replaces fileNames at *
    rwa [hstagedFinal]
  rcases place_cases format call.record hne (prepareStaging_ok hprepare)
    hreplaces with ⟨placed, hplace, herase⟩ | ⟨stop, failed, hplace, herase⟩
  rotate_left
  · exact Or.inl ⟨stop, failed, Txn.bind_of_error hplace, fun r =>
      getElem?_of_erase (herase.trans hprepared) (hstaging r)⟩
  refine Or.inr ⟨not_not.mp hvalid, ?_⟩
  rw [Txn.bind_of_ok hplace]
  have hlookup : ∀ r, placed[revName r]? = if r = call.sceneRevision then
      some (recordFiles format call.record) else disk[revName r]? := by
    intro r
    rw [← Dict.getElem?_erase_of_ne placed (hstaging r).symm, herase,
      show staged.erase (stagingName call.sceneRevision) =
        disk.erase (stagingName call.sceneRevision) from hprepared]
    split
    · next h => rw [h, Std.ExtTreeMap.getElem?_insert_self]
    · next h =>
      rw [Dict.getElem?_insert_of_ne _ _ (fun hname => h (revName_inj.mp hname).symm),
        Dict.getElem?_erase_of_ne _ (hstaging r).symm]
  have hkept : 1 ≤ call.keep := by omega
  rcases pruneCheckpoints_placed hintact hsafe hkept hlookup with hprune | hprune
  · refine Or.inr ⟨_, staleRevisions call.keep placed, Txn.bind_of_ok hprune,
      mem_stale_placed hintact hsafe hkept hlookup, fun r => ?_⟩
    rw [getElem?_eraseAll_revName, hlookup]
  · exact Or.inl ⟨.killed, placed, Txn.bind_of_error hprune, hlookup⟩

theorem loadAt_of_files {files : Dict String (CheckpointFile M T D)}
    (h : disk[revName revision]? = some files) :
    loadAt format disk revision = (loadCheckpoint format files).toOption := by
  rw [loadAt, h, Option.bind_some]

theorem loadAt_congr (h : disk'[revName revision]? = disk[revName revision]?) :
    loadAt format disk' revision = loadAt format disk revision := by
  rw [loadAt, h, loadAt]

theorem loadAt_recordFiles (hvalid : format.valid record.body record.tensors = true)
    (h : disk[revName revision]? = some (recordFiles format record)) :
    loadAt format disk revision = some record := by
  rw [loadAt_of_files h, loadCheckpoint_recordFiles hvalid]
  rfl

theorem loadLatestCheckpoint_greatest (hintact : Intact format disk) (hthere : Present disk revision)
    (hgreatest : ∀ other, Present disk other → other ≤ revision) :
    ∃ record, loadAt format disk revision = some record ∧
      loadLatestCheckpoint format disk = some record := by
  obtain ⟨hnamed, hloads⟩ := hintact revision hthere
  obtain ⟨record, hrecord⟩ := Option.isSome_iff_exists.mp hloads
  refine ⟨record, hrecord, ?_⟩
  unfold loadLatestCheckpoint
  have hmem : revision ∈ listCheckpoints disk := mem_listCheckpoints.mpr ⟨hnamed, hthere⟩
  rcases List.eq_nil_or_concat (listCheckpoints disk) with hnil | ⟨older, last, hlast⟩
  · rw [hnil] at hmem
    cases hmem
  · have hsorted := listCheckpoints_sorted disk
    have hlastThere : Present disk last :=
      (mem_listCheckpoints.mp (by rw [hlast]; simp)).2
    rw [List.concat_eq_append] at hlast
    rw [hlast] at hsorted hmem ⊢
    have heq : last = revision := by
      rcases List.mem_append.mp hmem with hold | hnew
      · have hlt := (List.pairwise_append.mp hsorted).2.2 revision hold last (by simp)
        have := hgreatest last hlastThere
        omega
      · exact (List.mem_singleton.mp hnew).symm
    rw [heq, List.reverse_append, List.reverse_singleton, List.singleton_append,
      List.findSome?_cons, hrecord]

theorem write_floor {call : WriteCall M T} (hintact : Intact format disk) (hsafe : call.Safe disk) :
    Intact format (call.write format disk).2 ∧ Floor format disk call (call.write format disk) := by
  have hrevision : ∀ r, r ≠ call.sceneRevision → ∀ disk' : Directories (CheckpointFile M T D),
      disk'[revName r]? = disk[revName r]? → Present disk' r →
        r < 10 ^ 6 ∧ (loadAt format disk' r).isSome := by
    intro r _ disk' hsame hthere
    rw [loadAt_congr hsame]
    unfold Present at hthere
    rw [hsame] at hthere
    exact hintact r hthere
  rcases write_cases hintact hsafe with ⟨stop, disk', hwrite, hsame⟩ |
    ⟨hvalid, ⟨stop, disk', hwrite, hplaced⟩ | ⟨disk', stale, hwrite, hstale, hplaced⟩⟩
  all_goals rw [hwrite]
  · refine ⟨fun r hthere => ?_, fun r record hload => Or.inl ?_⟩
    · rw [loadAt_congr (hsame r)]
      unfold Present at hthere
      rw [hsame] at hthere
      exact hintact r hthere
    · rw [loadAt_congr (hsame r), hload]
  · have hnew : loadAt format disk' call.sceneRevision = some call.record :=
      loadAt_recordFiles hvalid (by rw [hplaced, if_pos rfl])
    constructor
    · intro r hthere
      by_cases h : r = call.sceneRevision
      · rw [h, hnew]
        exact ⟨hsafe.named, rfl⟩
      · exact hrevision r h disk' (by rw [hplaced, if_neg h]) hthere
    · intro r record hload
      by_cases h : r = call.sceneRevision
      · exact Or.inr ⟨h, by rw [h, hnew]⟩
      · exact Or.inl ((loadAt_congr (by rw [hplaced, if_neg h])).trans hload)
  · have hkept : call.sceneRevision ∉ stale := fun h => hsafe.kept ((hstale _).mp h)
    have hnew : loadAt format disk' call.sceneRevision = some call.record :=
      loadAt_recordFiles hvalid (by rw [hplaced, if_neg hkept, if_pos rfl])
    have hintact' : Intact format disk' := by
      intro r hthere
      by_cases h : r = call.sceneRevision
      · rw [h, hnew]
        exact ⟨hsafe.named, rfl⟩
      · have hgone : r ∉ stale := fun hmem => by
          unfold Present at hthere
          rw [hplaced, if_pos hmem] at hthere
          cases hthere
        exact hrevision r h disk' (by rw [hplaced, if_neg hgone, if_neg h]) hthere
    refine ⟨hintact', rfl, hnew, fun r => ?_, fun r hthere hgreatest =>
      loadLatestCheckpoint_greatest hintact' hthere hgreatest⟩
    unfold Present
    rw [hplaced]
    by_cases hmem : r ∈ stale
    · obtain ⟨-, hbase, hold⟩ := (hstale r).mp hmem
      have hother : r ≠ call.sceneRevision := fun h => hkept (h ▸ hmem)
      simp [hmem, hbase, hold, hother]
    · rw [if_neg hmem]
      have hsurvives : call.placed disk r → r = 0 ∨ Newest call.keep (call.placed disk) r := by
        intro hplace
        by_contra hnot
        obtain ⟨hbase, hold⟩ := not_or.mp hnot
        exact hmem ((hstale r).mpr ⟨hplace, hbase, hold⟩)
      by_cases h : r = call.sceneRevision
      · simp [h, WriteCall.placed]
      · have hplace : call.placed disk r ↔ disk[revName r]?.isSome := by
          simp [WriteCall.placed, Present, h]
        rw [if_neg h, ← hplace]
        exact ⟨fun hthere => ⟨hthere, Or.inr (hsurvives hthere)⟩, And.left⟩

/-! ## Runs -/

/-- One call after another, each whatever becomes of it. -/
def writeStep (format : CheckpointFormat M T D) (disk : Directories (CheckpointFile M T D))
    (call : WriteCall M T) : Option (Directories (CheckpointFile M T D)) :=
  some (call.write format disk).2

/-- In every run of safe calls, each call leaves the floor. -/
theorem runs_keep_floor (format : CheckpointFormat M T D) {before after : List (WriteCall M T)}
    {call : WriteCall M T} {disk : Directories (CheckpointFile M T D)}
    (hsafe : EachStep (writeStep format) (fun disk call => call.Safe disk) ∅
      (before ++ call :: after))
    (hrun : run (writeStep format) ∅ before = some disk) :
    Floor format disk call (call.write format disk) := by
  obtain ⟨hbefore, hcall, -⟩ := eachStep_append hsafe hrun
  have hintact : Intact format disk := by
    refine run_invariant (I := Intact format) ?_ ?_ hbefore hrun
    · intro disk call disk' hintact hsafe hstep
      rw [← Option.some.inj hstep]
      exact (write_floor hintact hsafe).1
    · intro revision hthere
      simp [Present] at hthere
  exact (write_floor hintact hcall).2

/-! ## A store with crashes -/

/-- Records with a number, which all digest alike. -/
def numberFormat : CheckpointFormat Nat Unit Unit := ⟨fun _ => (), fun _ => (), fun _ _ => true⟩

/-- A record of one plane. The newest revision alone is kept. -/
def numberedCall (revision number : Nat) (fate : FileOp → Fate) : WriteCall Nat Unit :=
  ⟨⟨revision, Dict.ofEntries [("ta", ())], number⟩, 1, fate⟩

def completes : FileOp → Fate := fun _ => .runs

def killedAtRemoval : FileOp → Fate
  | .removeOld _ => .killed
  | _ => .runs

def raisesAtPlane : FileOp → Fate
  | .saveTensor _ => .raises
  | _ => .runs

def killedAtMetadata : FileOp → Fate
  | .saveMetadata => .killed
  | _ => .runs

/-- Revision 1 is rewritten, once in vain, and revision 2 takes its place at the third attempt. -/
def stormyCalls : List (WriteCall Nat Unit) :=
  [numberedCall 0 0 completes, numberedCall 1 1 completes, numberedCall 1 2 killedAtRemoval,
    numberedCall 1 3 completes, numberedCall 2 4 raisesAtPlane, numberedCall 2 5 killedAtMetadata,
    numberedCall 2 6 completes]

def diskAfter (n : Nat) : Directories (CheckpointFile Nat Unit Unit) :=
  (run (writeStep numberFormat) ∅ (stormyCalls.take n)).getD ∅

/-- The numbers of the revisions that load. -/
def loads (disk : Directories (CheckpointFile Nat Unit Unit)) : List (Nat × Nat) :=
  (listCheckpoints disk).filterMap fun revision =>
    (loadAt numberFormat disk revision).map fun record => (revision, record.body)

omit [DecidableEq D] in
/-- No cut between the begin of a removal and its end, whichever revision is written. -/
structure WriteCall.Careful (call : WriteCall M T) : Prop where
  keep : 1 ≤ call.keep
  named : call.sceneRevision < 10 ^ 6
  replaces : ((∀ file, call.fate (.removeOld file) = .runs) ∧ call.fate .rename = .runs) ∨
    ∀ file, call.fate (.removeOld file) ≠ .runs
  rotates : ∀ r file, call.fate (.removeStale r file) = .runs

omit [DecidableEq D] in
theorem WriteCall.Careful.safe {call : WriteCall M T} (h : call.Careful)
    (hlast : ∀ r, Present disk r → r ≤ call.sceneRevision) : call.Safe disk where
  named := h.named
  replaces := fun _ => h.replaces.imp_right fun hcut => hcut _
  rotates := Or.inl h.rotates
  kept := by
    rintro ⟨-, -, hold⟩
    refine hold fun later _ hlater => ?_
    rcases later with _ | ⟨r, later⟩
    · exact h.keep
    · obtain ⟨hpresent | rfl, hlt⟩ := hlater r (List.mem_cons_self ..)
      · exact absurd (hlast r hpresent) (Nat.not_le.mpr hlt)
      · exact absurd hlt (Nat.lt_irrefl _)

theorem present_of_write {call : WriteCall M T} (hintact : Intact format disk)
    (hsafe : call.Safe disk) (hpresent : Present (call.write format disk).2 revision) :
    Present disk revision ∨ revision = call.sceneRevision := by
  unfold Present at hpresent ⊢
  rcases write_cases hintact hsafe with ⟨stop, disk', hwrite, hsame⟩ |
    ⟨-, ⟨stop, disk', hwrite, hplaced⟩ | ⟨disk', stale, hwrite, -, hplaced⟩⟩
  all_goals rw [hwrite] at hpresent
  · exact Or.inl (hsame revision ▸ hpresent)
  · rw [hplaced] at hpresent
    split at hpresent
    · next heq => exact Or.inr heq
    · exact Or.inl hpresent
  · rw [hplaced] at hpresent
    split at hpresent
    · cases hpresent
    · split at hpresent
      · next heq => exact Or.inr heq
      · exact Or.inl hpresent

theorem eachStep_careful {calls : List (WriteCall M T)} (hcalls : ∀ call ∈ calls, call.Careful)
    (hascending : calls.Pairwise fun a b => a.sceneRevision ≤ b.sceneRevision)
    (hintact : Intact format disk)
    (hlast : ∀ call ∈ calls, ∀ r, Present disk r → r ≤ call.sceneRevision) :
    EachStep (writeStep format) (fun disk call => call.Safe disk) disk calls := by
  induction calls generalizing disk with
  | nil => trivial
  | cons call calls ih =>
    obtain ⟨hcall, hcalls⟩ := List.forall_mem_cons.mp hcalls
    obtain ⟨hfirst, hascending⟩ := List.pairwise_cons.mp hascending
    obtain ⟨hlastCall, hlast⟩ := List.forall_mem_cons.mp hlast
    have hsafe := hcall.safe hlastCall
    refine eachStep_cons rfl hsafe (ih hcalls hascending (write_floor hintact hsafe).1 ?_)
    intro later hlater r hpresent
    rcases present_of_write hintact hsafe hpresent with hold | rfl
    · exact hlast later hlater r hold
    · exact hfirst later hlater

theorem stormyCalls_careful : ∀ call ∈ stormyCalls, call.Careful := by
  have hcareful (revision number : Nat) (fate : FileOp → Fate) (hnamed : revision < 10 ^ 6)
      (hreplaces : ((∀ file, fate (.removeOld file) = .runs) ∧ fate .rename = .runs) ∨
        ∀ file, fate (.removeOld file) ≠ .runs)
      (hrotates : ∀ r file, fate (.removeStale r file) = .runs) :
      (numberedCall revision number fate).Careful := ⟨le_refl 1, hnamed, hreplaces, hrotates⟩
  simp only [stormyCalls, List.forall_mem_cons]
  refine ⟨?_, ?_, ?_, ?_, ?_, ?_, ?_, by simp⟩
  · exact hcareful _ _ _ (by decide) (Or.inl ⟨fun _ => rfl, rfl⟩) fun _ _ => rfl
  · exact hcareful _ _ _ (by decide) (Or.inl ⟨fun _ => rfl, rfl⟩) fun _ _ => rfl
  · exact hcareful _ _ _ (by decide) (Or.inr fun _ h => by cases h) fun _ _ => rfl
  · exact hcareful _ _ _ (by decide) (Or.inl ⟨fun _ => rfl, rfl⟩) fun _ _ => rfl
  · exact hcareful _ _ _ (by decide) (Or.inl ⟨fun _ => rfl, rfl⟩) fun _ _ => rfl
  · exact hcareful _ _ _ (by decide) (Or.inl ⟨fun _ => rfl, rfl⟩) fun _ _ => rfl
  · exact hcareful _ _ _ (by decide) (Or.inl ⟨fun _ => rfl, rfl⟩) fun _ _ => rfl

theorem stormyCalls_safe :
    EachStep (writeStep numberFormat) (fun disk call => call.Safe disk) ∅ stormyCalls := by
  refine eachStep_careful stormyCalls_careful (by decide) (fun revision hthere => ?_)
    fun _ _ r hthere => ?_
  · simp [Present] at hthere
  · simp [Present] at hthere

theorem run_diskAfter (n : Nat) :
    run (writeStep numberFormat) ∅ (stormyCalls.take n) = some (diskAfter n) := by
  have htotal (disk : Directories (CheckpointFile Nat Unit Unit))
      (calls : List (WriteCall Nat Unit)) :
      ∃ disk', run (writeStep numberFormat) disk calls = some disk' := by
    induction calls generalizing disk with
    | nil => exact ⟨disk, rfl⟩
    | cons call calls ih => exact ih (call.write numberFormat disk).2
  obtain ⟨disk, hdisk⟩ := htotal ∅ (stormyCalls.take n)
  rw [diskAfter, hdisk, Option.getD_some]

/-- The call at `n` leaves the floor of the disk before it. -/
def FloorAt (n : Nat) : Prop :=
  ∀ call ∈ stormyCalls[n]?,
    Floor numberFormat (diskAfter n) call (call.write numberFormat (diskAfter n))

/-- A kill and a raise leave what was there, a rewrite replaces it, and the rotation leaves the
base and the newest. -/
theorem stormy_calls_keep_floor :
    FloorAt 2 ∧ FloorAt 3 ∧ FloorAt 4 ∧ FloorAt 6 ∧
      [2, 3, 4, 6, 7].map (fun n => loads (diskAfter n)) =
        [[(0, 0), (1, 1)], [(0, 0), (1, 1)], [(0, 0), (1, 3)], [(0, 0), (1, 3)],
          [(0, 0), (2, 6)]] := by
  have hfloor (n : Nat) : FloorAt n := by
    intro call hcall
    obtain ⟨hn, rfl⟩ := List.getElem?_eq_some_iff.mp hcall
    have hsplit := List.take_append_drop n stormyCalls
    rw [List.drop_eq_getElem_cons hn] at hsplit
    have hsafe := stormyCalls_safe
    rw [← hsplit] at hsafe
    exact runs_keep_floor numberFormat hsafe (run_diskAfter n)
  exact ⟨hfloor 2, hfloor 3, hfloor 4, hfloor 6, by decide +kernel⟩

def killedAtRename : FileOp → Fate
  | .rename => .killed
  | _ => .runs

/-- A write of a revision that is there already, killed before its rename: the revision is lost. -/
theorem killed_rewrite_loses_revision :
    ¬ ∀ (format : CheckpointFormat Nat Unit Unit) (before : List (WriteCall Nat Unit))
      (call : WriteCall Nat Unit) (disk : Directories (CheckpointFile Nat Unit Unit)),
      1 ≤ call.keep → run (writeStep format) ∅ before = some disk →
        Floor format disk call (call.write format disk) := by
  intro hall
  have hfloor := hall numberFormat [numberedCall 1 1 completes] (numberedCall 1 1 killedAtRename) _
    (Nat.le_refl 1) rfl
  have hloads : (loadAt numberFormat
      ((numberedCall 1 1 completes).write numberFormat ∅).2 1).isSome := by
    decide
  have hlost : (loadAt numberFormat ((numberedCall 1 1 killedAtRename).write numberFormat
      ((numberedCall 1 1 completes).write numberFormat ∅).2).2 1).isSome = false := by
    decide
  obtain ⟨record, hrecord⟩ := Option.isSome_iff_exists.mp hloads
  unfold Floor at hfloor
  split at hfloor
  · rcases hfloor 1 record hrecord with hload | ⟨-, hload⟩ <;>
    · rw [hload] at hlost
      cases hlost
  · have hload : loadAt numberFormat ((numberedCall 1 1 killedAtRename).write numberFormat
        ((numberedCall 1 1 completes).write numberFormat ∅).2).2 1 = _ := hfloor.2.1
    rw [hload] at hlost
    cases hlost

end Solweig.Persist
