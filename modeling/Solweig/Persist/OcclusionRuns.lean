import Solweig.Lib.Run
import Solweig.Persist.OcclusionLoad

/-!
# Runs of the occlusion store

What a commit leaves when it ends or is cut, and what a load returns after any run of commits.
-/

namespace Solweig.Persist

open Solweig.Lib Solweig.Lib.Disk

variable {site : OcclusionSite} {disk disk' : OcclusionDisk} {fate : PersistOp → Fate}
  {revision : Nat} {state : VegOcclusionState}

/-! ## Staging -/

/-- The files of a state, as a directory. -/
def wholeFiles (state : VegOcclusionState) : Dict String OcclusionFile :=
  Dict.ofEntries (stateFiles state)

theorem partOf_written {entries rest : List (String × OcclusionFile)}
    (h : stateFiles state = entries ++ rest) : PartOf state (Dict.ofEntries entries) := by
  intro name file hfile
  rw [h]
  exact List.mem_append_left _ (Dict.mem_of_getElem?_ofEntries hfile)

theorem partOf_wholeFiles (state : VegOcclusionState) : PartOf state (wholeFiles state) :=
  partOf_written (List.append_nil _).symm

theorem mem_readingOrder {entry : String × OcclusionFile} (h : entry ∈ stateFiles state) :
    entry.1 ∈ readingOrder := by
  have hname := List.mem_map_of_mem (f := Prod.fst) h
  simp only [stateFiles, List.map_cons, List.map_nil, List.mem_cons] at hname
  simp only [readingOrder, List.mem_cons]
  tauto

theorem exists_stateFile {name : String} (state : VegOcclusionState) (h : name ∈ readingOrder) :
    ∃ entry ∈ stateFiles state, entry.1 = name := by
  simp only [readingOrder, List.mem_cons, List.not_mem_nil, or_false] at h
  simp only [stateFiles, List.mem_cons, List.not_mem_nil, or_false, exists_eq_or_imp,
    exists_eq_left]
  tauto

theorem complete_wholeFiles (state : VegOcclusionState) : Complete (wholeFiles state) := by
  intro name hname
  obtain ⟨entry, hentry, rfl⟩ := exists_stateFile state hname
  rw [wholeFiles, Dict.getElem?_ofEntries_of_mem (stateFiles_nodup state) hentry]
  rfl

theorem incomplete_written {before after : List (String × OcclusionFile)}
    {entry : String × OcclusionFile} (h : stateFiles state = before ++ entry :: after) :
    ¬ Complete (Dict.ofEntries before) := by
  intro hcomplete
  have hmem : entry ∈ stateFiles state := by
    rw [h]
    exact List.mem_append_right _ (List.mem_cons_self ..)
  obtain ⟨file, hfile⟩ := Option.isSome_iff_exists.mp (hcomplete entry.1 (mem_readingOrder hmem))
  have hnodup := stateFiles_nodup state
  rw [h, List.map_append, List.nodup_append] at hnodup
  have hwritten := Dict.mem_of_getElem?_ofEntries hfile
  exact hnodup.2.2 _ (List.mem_map_of_mem (f := Prod.fst) hwritten) _ (List.mem_cons_self ..) rfl

/-- The operations of a commit up to its rename. -/
def stagingOps (disk : OcclusionDisk) (revision : Nat) : List PersistOp :=
  (removals disk (revName revision)).map .removeOld ++
    (removals disk (stagingName revision)).map .clearStaging ++
    .makeStaging :: readingOrder.map .write

theorem stageState_ok (h : stageState fate revision state disk = (.ok (), disk')) :
    disk' = (disk.erase (revName revision)).insert (stagingName revision) (wholeFiles state) ∧
      ∀ op ∈ stagingOps disk revision, fate op = .runs := by
  have hne := stagingName_ne_revName revision revision
  unfold stageState at h
  obtain ⟨_, removed, hremoved, h⟩ := Txn.bind_ok.mp h
  obtain ⟨rfl, hold⟩ := removeIfThere_ok hremoved
  obtain ⟨_, cleared, hcleared, h⟩ := Txn.bind_ok.mp h
  obtain ⟨rfl, hstaging⟩ := removeIfThere_ok hcleared
  obtain ⟨_, made, hmade, h⟩ := Txn.bind_ok.mp h
  obtain ⟨hmake, hmade⟩ := operation_ok.mp hmade
  have hempty : made = (disk.erase (revName revision)).insert (stagingName revision) ∅ := by
    rw [makeDir, Std.ExtTreeMap.getElem?_erase_self, if_neg (by simp)] at hmade
    rw [← Option.some.inj hmade, insert_erase]
  have hwritten := forM_writeFile (by rw [hempty, Std.ExtTreeMap.getElem?_insert_self]) h
  constructor
  · rw [hwritten, hempty, insert_insert]
    rfl
  · rw [removals_congr (Dict.getElem?_erase_of_ne _ hne.symm)] at hstaging
    simp only [stagingOps, List.forall_mem_append, List.forall_mem_cons, List.forall_mem_map]
    refine ⟨⟨hold, hstaging⟩, hmake, fun name hname => ?_⟩
    obtain ⟨entry, hentry, rfl⟩ := exists_stateFile state hname
    obtain ⟨_, _, hwrite⟩ := Txn.forM_ok_each h hentry
    exact (operation_ok.mp hwrite).1

/-- What staging leaves where it stops. -/
structure Unstaged (revision : Nat) (state : VegOcclusionState) (disk disk' : OcclusionDisk) :
    Prop where
  elsewhere : ∀ name, name ≠ revName revision → name ≠ stagingName revision →
    disk'[name]? = disk[name]?
  final : ∀ files', disk'[revName revision]? = some files' →
    ∃ files, disk[revName revision]? = some files ∧ Within files' files
  staging : ∀ files', disk'[stagingName revision]? = some files' →
    (∃ files, disk[stagingName revision]? = some files ∧ Within files' files) ∨
      PartOf state files' ∧ ¬ Complete files'

theorem unstaged_of_shrinks (hshrinks : Shrinks disk disk')
    (helsewhere : ∀ name, name ≠ revName revision → name ≠ stagingName revision →
      disk'[name]? = disk[name]?) : Unstaged revision state disk disk' :=
  ⟨helsewhere, fun files' h => hshrinks _ files' h, fun files' h => Or.inl (hshrinks _ files' h)⟩

theorem stageState_error {stop : Stop}
    (h : stageState fate revision state disk = (.error stop, disk')) :
    Unstaged revision state disk disk' := by
  have hne := stagingName_ne_revName revision revision
  have hremoves : ∀ {cut : Option String → Fate} {name : String} (disk : OcclusionDisk)
      {result : Except Stop Unit} {disk' : OcclusionDisk},
      removeIfThere cut name disk = (result, disk') → Shrinks disk disk' ∧
        ∀ other, other ≠ name → disk'[other]? = disk[other]? := by
    intro cut name disk result disk' hrun
    constructor
    · have hshrinks : Shrinks disk (removeIfThere cut name disk).2 := removeIfThere_shrinks disk
      rwa [hrun] at hshrinks
    · exact fun other hother => getElem?_of_erase (keeps_removeIfThere.ended hrun) hother
  unfold stageState at h
  rcases Txn.bind_error.mp h with hold | ⟨_, removed, hremoved, h⟩
  · obtain ⟨hshrinks, helse⟩ := hremoves disk hold
    exact unstaged_of_shrinks hshrinks fun name hfinal _ => helse name hfinal
  · obtain ⟨hshrinks, helse⟩ := hremoves disk hremoved
    rcases Txn.bind_error.mp h with hclear | ⟨_, cleared, hcleared, h⟩
    · obtain ⟨hnext, helse'⟩ := hremoves removed hclear
      exact unstaged_of_shrinks (hshrinks.trans hnext) fun name hfinal hstaging =>
        (helse' name hstaging).trans (helse name hfinal)
    · obtain ⟨hnext, helse'⟩ := hremoves removed hcleared
      rcases Txn.bind_error.mp h with hmake | ⟨_, made, hmade, h⟩
      · rw [operation_error hmake]
        exact unstaged_of_shrinks (hshrinks.trans hnext) fun name hfinal hstaging =>
          (helse' name hstaging).trans (helse name hfinal)
      · obtain ⟨-, hmade⟩ := operation_ok.mp hmade
        have hempty : made = cleared.insert (stagingName revision) ∅ := by
          unfold makeDir at hmade
          split at hmade
          · cases hmade
          · exact (Option.some.inj hmade).symm
        obtain ⟨before, entry, after, hentries, hwritten⟩ :=
          forM_writeFile_error (by rw [hempty, Std.ExtTreeMap.getElem?_insert_self]) h
        rw [hempty, insert_insert] at hwritten
        have hlookup : ∀ name, name ≠ stagingName revision → disk'[name]? = cleared[name]? := by
          intro name hname
          rw [hwritten, Dict.getElem?_insert_of_ne _ _ hname.symm]
        refine ⟨fun name hfinal hstaging => ?_, fun files' h' => ?_, fun files' h' => Or.inr ?_⟩
        · rw [hlookup name hstaging, helse' name hstaging, helse name hfinal]
        · rw [hlookup _ hne.symm] at h'
          exact hshrinks.trans hnext _ files' h'
        · rw [hwritten, Std.ExtTreeMap.getElem?_insert_self] at h'
          rw [← Option.some.inj h']
          exact ⟨partOf_written hentries, incomplete_written hentries⟩

/-! ## The rename and the prune -/

theorem rename_staged (disk : OcclusionDisk) (revision : Nat) (files : Dict String OcclusionFile) :
    rename (stagingName revision) (revName revision)
        ((disk.erase (revName revision)).insert (stagingName revision) files) =
      some (((disk.erase (revName revision)).erase (stagingName revision)).insert
        (revName revision) files) := by
  have hne := stagingName_ne_revName revision revision
  rw [rename, Std.ExtTreeMap.getElem?_insert_self]
  dsimp only
  rw [Dict.getElem?_insert_of_ne _ _ hne, Std.ExtTreeMap.getElem?_erase_self, erase_insert]
  rfl

/-- The disk of a commit as its prune begins. -/
def placedOf (revision : Nat) (state : VegOcclusionState) (disk : OcclusionDisk) : OcclusionDisk :=
  ((disk.erase (revName revision)).erase (stagingName revision)).insert (revName revision)
    (wholeFiles state)

theorem getElem?_placedOf (revision : Nat) (state : VegOcclusionState) (disk : OcclusionDisk)
    (name : String) : (placedOf revision state disk)[name]? =
      if name = revName revision then some (wholeFiles state)
      else if name = stagingName revision then none else disk[name]? := by
  unfold placedOf
  split
  · next hname => rw [hname, Std.ExtTreeMap.getElem?_insert_self]
  · next hname =>
    rw [Dict.getElem?_insert_of_ne _ _ (Ne.symm hname)]
    split
    · next hstaging => rw [hstaging, Std.ExtTreeMap.getElem?_erase_self]
    · next hstaging =>
      rw [Dict.getElem?_erase_of_ne _ (Ne.symm hstaging),
        Dict.getElem?_erase_of_ne _ (Ne.symm hname)]

theorem persist_cases {result : Except Stop Unit}
    (h : persist fate revision state disk = (result, disk')) :
    (∃ stop, result = .error stop ∧ stageState fate revision state disk = (.error stop, disk')) ∨
      (∀ op ∈ stagingOps disk revision, fate op = .runs) ∧
        (((∃ stop, result = .error stop) ∧ fate .rename ≠ .runs ∧
            disk' = (disk.erase (revName revision)).insert (stagingName revision)
              (wholeFiles state)) ∨
          fate .rename = .runs ∧
            prune fate 2 (placedOf revision state disk) = (result, disk')) := by
  unfold persist at h
  rcases hstage : stageState fate revision state disk with ⟨stop | ⟨⟩, staged⟩
  · rw [Txn.bind_of_error hstage] at h
    obtain ⟨rfl, rfl⟩ := Prod.mk.inj h
    exact Or.inl ⟨stop, rfl, rfl⟩
  · rw [Txn.bind_of_ok hstage] at h
    obtain ⟨rfl, hops⟩ := stageState_ok hstage
    refine Or.inr ⟨hops, ?_⟩
    by_cases hrename : fate .rename = .runs
    · rw [hrename, Txn.bind_of_ok (operation_runs (rename_staged disk revision _))] at h
      exact Or.inr ⟨hrename, h⟩
    · obtain ⟨stop, hstop⟩ := operation_cut hrename
        (rename (stagingName revision) (revName revision))
        ((disk.erase (revName revision)).insert (stagingName revision) (wholeFiles state))
      rw [Txn.bind_of_error hstop] at h
      obtain ⟨rfl, rfl⟩ := Prod.mk.inj h
      exact Or.inl ⟨⟨stop, rfl⟩, hrename, rfl⟩

theorem prune_spec {keep : Nat} {result : Except Stop Unit}
    (h : prune fate keep disk = (result, disk')) : Shrinks disk disk' ∧
      ∀ name ∉ (revGlob disk).take ((revGlob disk).length - keep), disk'[name]? = disk[name]? := by
  have hrun : ((revGlob disk).take ((revGlob disk).length - keep)).forM (fun name =>
      removeTreeIgnoring (fun file => fate (.removeStale name file)) name) disk = (result, disk') := h
  constructor
  · have hpreserves : Txn.Preserves (Shrinks disk)
        (((revGlob disk).take ((revGlob disk).length - keep)).forM fun name =>
          removeTreeIgnoring (fun file => fate (.removeStale name file)) name) :=
      Txn.preserves_forM fun name => preserves_removeTreeIgnoring
    simpa [hrun] using hpreserves disk (shrinks_refl disk)
  · intro name hname
    have hkeeps : Txn.Keeps (fun disk : OcclusionDisk => disk[name]?)
        (((revGlob disk).take ((revGlob disk).length - keep)).forM fun name =>
          removeTreeIgnoring (fun file => fate (.removeStale name file)) name) := by
      refine Txn.keeps_forM_mem fun stale hstale disk => ?_
      have hne : name ≠ stale := fun heq => hname (heq ▸ hstale)
      exact getElem?_of_erase (keeps_removeTreeIgnoring disk) hne
    exact hkeeps.ended hrun

/-! ## Every directory is part of a committed state -/

variable {committed : LiveState site → Prop}

def Parts (committed : LiveState site → Prop) (disk : OcclusionDisk) : Prop :=
  ∀ (name : String) (files : Dict String OcclusionFile), disk[name]? = some files →
    ∃ live, committed live ∧ PartOf live.state files

theorem PartOf.within {files files' : Dict String OcclusionFile} (h : PartOf state files)
    (hwithin : Within files' files) : PartOf state files' :=
  fun name file hfile => h name file (hwithin name file hfile)

theorem Parts.shrinks (h : Parts committed disk) (hshrinks : Shrinks disk disk') :
    Parts committed disk' := by
  intro name files' h'
  obtain ⟨files, hfiles, hwithin⟩ := hshrinks name files' h'
  obtain ⟨live, hlive, hpart⟩ := h name files hfiles
  exact ⟨live, hlive, hpart.within hwithin⟩

theorem parts_placed {live : LiveState site} (hlive : committed live) (h : Parts committed disk) :
    Parts committed (placedOf live.revision live.state disk) := by
  intro name files hfiles
  rw [getElem?_placedOf] at hfiles
  split at hfiles
  · rw [← Option.some.inj hfiles]
    exact ⟨live, hlive, partOf_wholeFiles live.state⟩
  · split at hfiles
    · cases hfiles
    · exact h name files hfiles

theorem parts_unstaged {live : LiveState site} (hlive : committed live) (h : Parts committed disk)
    (hunstaged : Unstaged live.revision live.state disk disk') : Parts committed disk' := by
  intro name files' h'
  by_cases hfinal : name = revName live.revision
  · obtain ⟨files, hfiles, hwithin⟩ := hunstaged.final files' (hfinal ▸ h')
    obtain ⟨other, hother, hpart⟩ := h _ files hfiles
    exact ⟨other, hother, hpart.within hwithin⟩
  by_cases hstaging : name = stagingName live.revision
  · rcases hunstaged.staging files' (hstaging ▸ h') with ⟨files, hfiles, hwithin⟩ | ⟨hpart, -⟩
    · obtain ⟨other, hother, hpart⟩ := h _ files hfiles
      exact ⟨other, hother, hpart.within hwithin⟩
    · exact ⟨live, hlive, hpart⟩
  · rw [hunstaged.elsewhere name hfinal hstaging] at h'
    exact h name files' h'

theorem parts_persist {live : LiveState site} {result : Except Stop Unit} (hlive : committed live)
    (h : Parts committed disk)
    (hrun : persist fate live.revision live.state disk = (result, disk')) :
    Parts committed disk' := by
  rcases persist_cases hrun with ⟨_, -, hstaging⟩ | ⟨-, ⟨-, -, rfl⟩ | ⟨-, hprune⟩⟩
  · exact parts_unstaged hlive h (stageState_error hstaging)
  · intro name files hfiles
    rcases Dict.of_getElem?_insert hfiles with ⟨-, rfl⟩ | hold
    · exact ⟨live, hlive, partOf_wholeFiles live.state⟩
    · exact h name files (Dict.of_getElem?_erase hold)
  · exact (parts_placed hlive h).shrinks (prune_spec hprune).1

/-! ## Runs -/

/-- One commit, with what becomes of its file operations. -/
structure Commit (site : OcclusionSite) where
  live : LiveState site
  fate : PersistOp → Fate

/-- The disk, with the states that were given to a commit and the highest whose commit completed. -/
structure StoreRun (site : OcclusionSite) where
  disk : OcclusionDisk
  committed : List (LiveState site)
  completed : Option (LiveState site)

def emptyStore (site : OcclusionSite) : StoreRun site := ⟨∅, [], none⟩

/-- Of two commits of one revision the later one replaces the earlier. -/
def highest (completed : Option (LiveState site)) (live : LiveState site) : LiveState site :=
  match completed with
  | some top => if live.revision < top.revision then top else live
  | none => live

def Commit.persist (commit : Commit site) (disk : OcclusionDisk) : Except Stop Unit × OcclusionDisk :=
  Persist.persist commit.fate commit.live.revision commit.live.state disk

def commitStep (s : StoreRun site) (commit : Commit site) : Option (StoreRun site) :=
  some
    { disk := (commit.persist s.disk).2
      committed := commit.live :: s.committed
      completed :=
        match (commit.persist s.disk).1 with
        | .ok () => some (highest s.completed commit.live)
        | .error _ => s.completed }

/-- A revision below the highest that completed. -/
def StoreRun.Below (s : StoreRun site) (revision : Nat) : Prop :=
  ∃ top, s.completed = some top ∧ revision < top.revision

/-- A staging directory that is left of another revision, and sorts after the commit's and after
the highest that completed. -/
def StoreRun.Leftover (s : StoreRun site) (revision leftover : Nat) : Prop :=
  s.disk[stagingName leftover]?.isSome ∧ leftover ≠ revision ∧ revision ≤ leftover ∧
    ¬ s.Below leftover

def PersistOp.InPrune : PersistOp → Prop
  | .removeStale _ _ => True
  | _ => False

/-- The commits after which the highest completed one is loaded. -/
structure Commit.Safe (s : StoreRun site) (commit : Commit site) : Prop where
  named : commit.live.revision < 10 ^ 6
  /-- Cut between the last write and the rename only below the highest. -/
  renames : (∀ op ∈ stagingOps s.disk commit.live.revision, commit.fate op = .runs) →
    commit.fate .rename ≠ .runs → s.Below commit.live.revision
  /-- The highest is replaced without a cut, or its removal does not begin. -/
  replaces : (∃ top, s.completed = some top ∧ top.revision = commit.live.revision) →
    (∀ op : PersistOp, ¬ op.InPrune → commit.fate op = .runs) ∨
      commit.fate (.removeOld (fileNames s.disk (revName commit.live.revision)).head?) ≠ .runs
  /-- Killed in its prune only below the highest. -/
  prunes : (∀ op ∈ stagingOps s.disk commit.live.revision, commit.fate op = .runs) →
    commit.fate .rename = .runs →
      (∀ name file, commit.fate (.removeStale name file) ≠ .killed) ∨ s.Below commit.live.revision
  /-- At most one leftover when the prune is reached. -/
  leftovers : (∀ op ∈ stagingOps s.disk commit.live.revision, commit.fate op = .runs) →
    commit.fate .rename = .runs → ∀ leftover other, s.Leftover commit.live.revision leftover →
      s.Leftover commit.live.revision other → leftover = other

/-- Every directory is of a revision, the highest completed one is whole, and no directory that
sorts after it is. -/
structure HighestWhole (s : StoreRun site) : Prop where
  named : ∀ name, s.disk[name]?.isSome →
    ∃ r, r < 10 ^ 6 ∧ (name = revName r ∨ name = stagingName r)
  bounded : ∀ r, s.disk[revName r]?.isSome → ∃ top, s.completed = some top ∧ r ≤ top.revision
  staged : ∀ r files, s.disk[stagingName r]? = some files → s.Below r ∨ ¬ Complete files
  whole : ∀ top, s.completed = some top → top.revision < 10 ^ 6 ∧
    ∃ files, s.disk[revName top.revision]? = some files ∧ PartOf top.state files ∧ Complete files

theorem Complete.of_within {files files' : Dict String OcclusionFile} (h : Complete files')
    (hwithin : Within files' files) : Complete files := by
  intro name hname
  obtain ⟨file, hfile⟩ := Option.isSome_iff_exists.mp (h name hname)
  rw [hwithin name file hfile]
  rfl

theorem highest_empty : HighestWhole (emptyStore site) := by
  constructor
  · intro name h
    simp [emptyStore] at h
  · intro r h
    simp [emptyStore] at h
  · intro r files h
    simp [emptyStore] at h
  · intro top h
    cases h

/-! ## One commit keeps the floor -/

variable {s : StoreRun site} {commit : Commit site}

theorem highest_unplaced (hwhole : HighestWhole s) (hnamed : commit.live.revision < 10 ^ 6)
    (helsewhere : ∀ name, name ≠ revName commit.live.revision →
      name ≠ stagingName commit.live.revision → disk'[name]? = s.disk[name]?)
    (hfinal : disk'[revName commit.live.revision]?.isSome →
      s.disk[revName commit.live.revision]?.isSome)
    (hstaging : ∀ files', disk'[stagingName commit.live.revision]? = some files' →
      (∃ files, s.disk[stagingName commit.live.revision]? = some files ∧ Within files' files) ∨
        ¬ Complete files' ∨ s.Below commit.live.revision)
    (hother : ∀ top, s.completed = some top → top.revision ≠ commit.live.revision)
    (lives : List (LiveState site)) : HighestWhole ⟨disk', lives, s.completed⟩ := by
  have helse : ∀ {r : Nat}, r ≠ commit.live.revision → disk'[revName r]? = s.disk[revName r]? ∧
      disk'[stagingName r]? = s.disk[stagingName r]? := by
    intro r hr
    constructor
    · exact helsewhere _ (fun h => hr (revName_inj.mp h)) (stagingName_ne_revName _ _).symm
    · exact helsewhere _ (stagingName_ne_revName _ _) (fun h => hr (stagingName_inj.mp h))
  constructor
  · intro name hname
    by_cases hrev : name = revName commit.live.revision
    · exact ⟨_, hnamed, Or.inl hrev⟩
    by_cases hstage : name = stagingName commit.live.revision
    · exact ⟨_, hnamed, Or.inr hstage⟩
    · refine hwhole.named name ?_
      rwa [← helsewhere name hrev hstage]
  · intro r hr
    refine hwhole.bounded r ?_
    by_cases hrev : r = commit.live.revision
    · rw [hrev]
      exact hfinal (hrev ▸ hr)
    · rwa [← (helse hrev).1]
  · intro r files' h'
    by_cases hrev : r = commit.live.revision
    · rcases hstaging files' (hrev ▸ h') with ⟨files, hfiles, hwithin⟩ | hpart | hbelow
      · exact (hwhole.staged r files (hrev ▸ hfiles)).imp_right fun hold hcomplete =>
          hold (hcomplete.of_within hwithin)
      · exact Or.inr hpart
      · exact Or.inl (hrev ▸ hbelow)
    · exact hwhole.staged r files' ((helse hrev).2 ▸ h')
  · intro top htop
    obtain ⟨htopNamed, files, hfiles, hwhole⟩ := hwhole.whole top htop
    exact ⟨htopNamed, files, (helse (hother top htop)).1.trans hfiles, hwhole⟩

theorem not_mem_take_of_crowd {names : List String} (hsorted : names.Pairwise (· < ·))
    {name : String} (hcrowd : ∀ later ∈ names, ∀ other ∈ names, name < later → name < other →
      later = other) : name ∉ names.take (names.length - 2) := by
  intro hmem
  have hsplit := List.take_append_drop (names.length - 2) names
  have hdrop : (names.drop (names.length - 2)).length = 2 := by
    have hpos := List.length_pos_of_mem hmem
    rw [List.length_take] at hpos
    rw [List.length_drop]
    omega
  obtain ⟨later, other, hlast⟩ := List.length_eq_two.mp hdrop
  rw [hlast] at hsplit
  rw [← hsplit] at hsorted hcrowd
  obtain ⟨-, hpair, hbefore⟩ := List.pairwise_append.mp hsorted
  have heq := hcrowd later (by simp) other (by simp) (hbefore name hmem later (by simp))
    (hbefore name hmem other (by simp))
  exact absurd heq (ne_of_lt ((List.pairwise_cons.mp hpair).1 other (by simp)))

theorem highest_cases (completed : Option (LiveState site)) (live : LiveState site) :
    (highest completed live = live ∧ ∀ top, completed = some top → top.revision ≤ live.revision) ∨
      (completed = some (highest completed live) ∧
        live.revision < (highest completed live).revision) := by
  unfold highest
  rcases completed with _ | top
  · exact Or.inl ⟨rfl, fun top h => by cases h⟩
  · dsimp only
    split
    · next hlt => exact Or.inr ⟨rfl, hlt⟩
    · next hle =>
      refine Or.inl ⟨rfl, fun other hother => ?_⟩
      rw [← Option.some.inj hother]
      exact Nat.le_of_not_lt hle

theorem highest_of_below {live : LiveState site} (h : s.Below live.revision) :
    s.completed = some (highest s.completed live) := by
  obtain ⟨top, htop, hlt⟩ := h
  rw [htop, highest, if_pos hlt]

theorem le_highest (s : StoreRun site) (live : LiveState site) :
    live.revision ≤ (highest s.completed live).revision ∧
      ∀ top, s.completed = some top → top.revision ≤ (highest s.completed live).revision := by
  rcases highest_cases s.completed live with ⟨heq, hle⟩ | ⟨heq, hlt⟩
  · rw [heq]
    exact ⟨Nat.le_refl _, hle⟩
  · refine ⟨Nat.le_of_lt hlt, fun top htop => ?_⟩
    rw [Option.some.inj (htop.symm.trans heq)]

theorem highest_placed (hwhole : HighestWhole s) (hnamed : commit.live.revision < 10 ^ 6) :
    (highest s.completed commit.live).revision < 10 ^ 6 ∧ ∃ files,
      (placedOf commit.live.revision commit.live.state s.disk)[revName
        (highest s.completed commit.live).revision]? = some files ∧
      PartOf (highest s.completed commit.live).state files ∧ Complete files := by
  rcases highest_cases s.completed commit.live with ⟨heq, -⟩ | ⟨heq, hlt⟩
  · rw [heq, getElem?_placedOf, if_pos rfl]
    exact ⟨hnamed, _, rfl, partOf_wholeFiles _, complete_wholeFiles _⟩
  · obtain ⟨hnamed', files, hfiles, hwhole⟩ := hwhole.whole _ heq
    refine ⟨hnamed', files, ?_, hwhole⟩
    rw [getElem?_placedOf, if_neg (fun h => absurd (revName_inj.mp h) (by omega)),
      if_neg (stagingName_ne_revName _ _).symm, hfiles]

theorem leftover_of_later (hwhole : HighestWhole s) (hnamed : commit.live.revision < 10 ^ 6)
    {name : String}
    (hmem : (placedOf commit.live.revision commit.live.state s.disk)[name]?.isSome)
    (hlater : revName (highest s.completed commit.live).revision < name) :
    ∃ r, name = stagingName r ∧ s.Leftover commit.live.revision r := by
  have hbound := le_highest s commit.live
  have htop := (highest_placed hwhole hnamed).1
  rw [getElem?_placedOf] at hmem
  split at hmem
  · next heq =>
    rw [heq, revName_lt htop hnamed] at hlater
    omega
  · split at hmem
    · cases hmem
    · next hfinal hstaging =>
      obtain ⟨r, hr, rfl | rfl⟩ := hwhole.named name hmem
      · obtain ⟨top, htop', hle⟩ := hwhole.bounded r hmem
        rw [revName_lt htop hr] at hlater
        have := hbound.2 top htop'
        omega
      · rw [revName_lt_stagingName htop hr] at hlater
        refine ⟨r, rfl, hmem, fun h => hstaging (by rw [h]), by omega, ?_⟩
        rintro ⟨top, htop', hlt⟩
        have := hbound.2 top htop'
        omega

theorem highest_pruned {result : Except Stop Unit} (hwhole : HighestWhole s)
    (hnamed : commit.live.revision < 10 ^ 6)
    (hcrowd : ∀ leftover other, s.Leftover commit.live.revision leftover →
      s.Leftover commit.live.revision other → leftover = other)
    (hprune : prune commit.fate 2 (placedOf commit.live.revision commit.live.state s.disk) =
      (result, disk')) (lives : List (LiveState site)) :
    HighestWhole ⟨disk', lives, some (highest s.completed commit.live)⟩ := by
  obtain ⟨hshrinks, hkept⟩ := prune_spec hprune
  have hbound := le_highest s commit.live
  have hthere : ∀ name : String, disk'[name]?.isSome →
      (placedOf commit.live.revision commit.live.state s.disk)[name]?.isSome := by
    intro name hname
    obtain ⟨files', h'⟩ := Option.isSome_iff_exists.mp hname
    obtain ⟨files, hfiles, -⟩ := hshrinks name files' h'
    rw [hfiles]
    rfl
  have hold : ∀ name : String, name ≠ revName commit.live.revision → disk'[name]?.isSome →
      s.disk[name]?.isSome ∧ name ≠ stagingName commit.live.revision := by
    intro name hfinal hname
    have hplaced := hthere name hname
    rw [getElem?_placedOf, if_neg hfinal] at hplaced
    split at hplaced
    · cases hplaced
    · next hstaging => exact ⟨hplaced, hstaging⟩
  constructor
  · intro name hname
    by_cases hfinal : name = revName commit.live.revision
    · exact ⟨_, hnamed, Or.inl hfinal⟩
    · exact hwhole.named name (hold name hfinal hname).1
  · intro r hr
    refine ⟨_, rfl, ?_⟩
    by_cases hrev : r = commit.live.revision
    · rw [hrev]
      exact hbound.1
    · have hne : revName r ≠ revName commit.live.revision := fun h => hrev (revName_inj.mp h)
      obtain ⟨top, htop, hle⟩ := hwhole.bounded r (hold _ hne hr).1
      exact Nat.le_trans hle (hbound.2 top htop)
  · intro r files' h'
    obtain ⟨files, hfiles, hwithin⟩ := hshrinks _ files' h'
    have hne := stagingName_ne_revName r commit.live.revision
    rw [getElem?_placedOf, if_neg hne] at hfiles
    split at hfiles
    · cases hfiles
    · rcases hwhole.staged r files hfiles with ⟨top, htop, hlt⟩ | hpart
      · exact Or.inl ⟨_, rfl, Nat.lt_of_lt_of_le hlt (hbound.2 top htop)⟩
      · exact Or.inr fun hcomplete => hpart (hcomplete.of_within hwithin)
  · intro top htop
    obtain rfl := Option.some.inj htop
    obtain ⟨htopNamed, files, hfiles, htopWhole⟩ := highest_placed hwhole hnamed
    refine ⟨htopNamed, files, (hkept _ ?_).trans hfiles, htopWhole⟩
    refine not_mem_take_of_crowd (revGlob_sorted _) fun later hlater other hother hlt hlt' => ?_
    obtain ⟨r, rfl, hr⟩ := leftover_of_later hwhole hnamed (mem_revGlob.mp hlater).1 hlt
    obtain ⟨r', rfl, hr'⟩ := leftover_of_later hwhole hnamed (mem_revGlob.mp hother).1 hlt'
    rw [hcrowd r r' hr hr']

theorem stageState_runs (hruns : ∀ op : PersistOp, ¬ op.InPrune → fate op = .runs)
    (revision : Nat) (state : VegOcclusionState) (disk : OcclusionDisk) : Txn.Succeeds (stageState fate revision state) disk := by
  have hold := removeIfThere_runs (fun file => fate (.removeOld file)) (fun _ => hruns _ id) disk
    (revName revision)
  have hclear := removeIfThere_runs (fun file => fate (.clearStaging file)) (fun _ => hruns _ id)
    (disk.erase (revName revision)) (stagingName revision)
  have hmake : operation (fate .makeStaging) (makeDir (stagingName revision))
      ((disk.erase (revName revision)).erase (stagingName revision)) =
        (.ok (), ((disk.erase (revName revision)).erase (stagingName revision)).insert
          (stagingName revision) ∅) := by
    rw [hruns _ id]
    refine operation_runs ?_
    rw [makeDir, Std.ExtTreeMap.getElem?_erase_self, if_neg (by simp)]
  unfold stageState
  refine Txn.succeeds_bind hold (Txn.succeeds_bind hclear (Txn.succeeds_bind hmake ?_))
  exact forM_writeFile_runs (fun entry _ => hruns _ id) (Std.ExtTreeMap.getElem?_insert_self ..)

theorem persist_cut (state : VegOcclusionState) (hthere : disk[revName revision]?.isSome)
    (hcut : fate (.removeOld (fileNames disk (revName revision)).head?) ≠ .runs) :
    ∃ stop, persist fate revision state disk = (.error stop, disk) := by
  obtain ⟨stop, hstop⟩ := removeTree_cut (fun file => fate (.removeOld file)) hcut
  have hremove : removeIfThere (fun file => fate (.removeOld file)) (revName revision) disk =
      (.error stop, disk) := by
    rw [removeIfThere, if_pos hthere, hstop]
  exact ⟨stop, Txn.bind_of_error (Txn.bind_of_error hremove)⟩

theorem prune_succeeds (hfate : ∀ name file, fate (.removeStale name file) ≠ .killed) (keep : Nat)
    (disk : OcclusionDisk) : Txn.Succeeds (prune fate keep) disk := by
  unfold prune
  exact Txn.succeeds_bind rfl (Txn.succeeds_forM
    (fun name disk => removeTreeIgnoring_succeeds (hfate name) disk) disk)

/-- A commit that is cut before its revision is in place leaves the disk as it was, or is of
another revision than the highest. -/
theorem unchanged_of_cut (hwhole : HighestWhole s) (hsafe : commit.Safe s) {stop : Stop}
    (hrun : commit.persist s.disk = (.error stop, disk'))
    (hcut : ¬ ∀ op : PersistOp, ¬ op.InPrune → commit.fate op = .runs) :
    disk' = s.disk ∨ ∀ top, s.completed = some top → top.revision ≠ commit.live.revision := by
  by_cases hsame : ∃ top, s.completed = some top ∧ top.revision = commit.live.revision
  · refine Or.inl ?_
    have hremoval := (hsafe.replaces hsame).resolve_left hcut
    obtain ⟨top, htop, heq⟩ := hsame
    obtain ⟨-, files, hfiles, -⟩ := hwhole.whole top htop
    have hthere : s.disk[revName commit.live.revision]?.isSome := by
      rw [← heq, hfiles]
      rfl
    obtain ⟨stop', hpersist⟩ := persist_cut commit.live.state hthere hremoval
    exact (Prod.mk.inj (hrun.symm.trans hpersist)).2
  · exact Or.inr fun top htop heq => hsame ⟨top, htop, heq⟩

theorem highest_commit {s' : StoreRun site} (hwhole : HighestWhole s) (hsafe : commit.Safe s)
    (hstep : commitStep s commit = some s') : HighestWhole s' := by
  obtain rfl := Option.some.inj hstep
  rcases hrun : commit.persist s.disk with ⟨result, disk'⟩
  rcases persist_cases hrun with ⟨stop, rfl, hstaging⟩ | ⟨hops, ⟨⟨stop, rfl⟩, hrename, rfl⟩ |
    ⟨hrename, hprune⟩⟩
  · have hcut : ¬ ∀ op : PersistOp, ¬ op.InPrune → commit.fate op = .runs := by
      intro hruns
      obtain ⟨_, _, hended⟩ := stageState_runs hruns commit.live.revision
        commit.live.state s.disk
      rw [hended] at hstaging
      cases hstaging
    have hunstaged := stageState_error hstaging
    rcases unchanged_of_cut hwhole hsafe hrun hcut with rfl | hother
    · exact ⟨hwhole.named, hwhole.bounded, hwhole.staged, hwhole.whole⟩
    · refine highest_unplaced hwhole hsafe.named hunstaged.elsewhere ?_ ?_ hother _
      · intro hthere
        obtain ⟨files', h'⟩ := Option.isSome_iff_exists.mp hthere
        obtain ⟨files, hfiles, -⟩ := hunstaged.final files' h'
        rw [hfiles]
        rfl
      · exact fun files' h' => (hunstaged.staging files' h').imp_right fun h => Or.inl h.2
  · have hbelow := hsafe.renames hops hrename
    refine highest_unplaced hwhole hsafe.named ?_ ?_ ?_ ?_ _
    · intro name hfinal hstaging
      rw [Dict.getElem?_insert_of_ne _ _ hstaging.symm, Dict.getElem?_erase_of_ne _ hfinal.symm]
    · rw [Dict.getElem?_insert_of_ne _ _ (stagingName_ne_revName _ _),
        Std.ExtTreeMap.getElem?_erase_self]
      exact fun h => by cases h
    · exact fun _ _ => Or.inr (Or.inr hbelow)
    · rintro top htop heq
      obtain ⟨other, hother, hlt⟩ := hbelow
      rw [htop, Option.some.injEq] at hother
      rw [← hother, heq] at hlt
      exact lt_irrefl _ hlt
  · have hkept := highest_pruned hwhole hsafe.named (hsafe.leftovers hops hrename) hprune
      (commit.live :: s.committed)
    rcases result with stop | ⟨⟩
    · rcases hsafe.prunes hops hrename with hfate | hbelow
      · obtain ⟨_, _, hended⟩ := prune_succeeds hfate 2
          (placedOf commit.live.revision commit.live.state s.disk)
        rw [hended] at hprune
        cases hprune
      · rw [← highest_of_below hbelow] at hkept
        exact hkept
    · exact hkept

/-! ## What a load returns -/

theorem parts_commit {s' : StoreRun site} (h : Parts (· ∈ s.committed) s.disk)
    (hstep : commitStep s commit = some s') : Parts (· ∈ s'.committed) s'.disk := by
  obtain rfl := Option.some.inj hstep
  have hmore : Parts (· ∈ commit.live :: s.committed) s.disk := by
    intro name files hfiles
    obtain ⟨live, hlive, hpart⟩ := h name files hfiles
    exact ⟨live, List.mem_cons_of_mem _ hlive, hpart⟩
  rcases hrun : commit.persist s.disk with ⟨result, disk'⟩
  exact parts_persist (List.mem_cons_self ..) hmore hrun

theorem loadLatest_highest (hparts : Parts committed disk) (hwhole : HighestWhole s)
    (hdisk : s.disk = disk) {top : LiveState site} (htop : s.completed = some top) :
    loadLatest site disk = .ok (some top.state) := by
  subst hdisk
  obtain ⟨htopNamed, files, hfiles, hpart, hcomplete⟩ := hwhole.whole top htop
  have hat : filesAt s.disk (revName top.revision) = files := by
    rw [filesAt, hfiles, Option.getD_some]
  have hmem : revName top.revision ∈ revGlob s.disk := by
    refine mem_revGlob.mpr ⟨by rw [hfiles]; rfl, ?_⟩
    have hfront := rev_prefix top.revision ""
    rwa [String.append_empty] at hfront
  unfold loadLatest
  refine loadFirst_newest (List.pairwise_reverse.mpr (revGlob_sorted _)) (List.mem_reverse.mpr hmem)
    (hat ▸ hpart) (hat ▸ hcomplete) fun newer hnewer hlt => ?_
  have hthere := (mem_revGlob.mp (List.mem_reverse.mp hnewer)).1
  obtain ⟨files', h'⟩ := Option.isSome_iff_exists.mp hthere
  obtain ⟨live, -, hpart'⟩ := hparts newer files' h'
  rw [filesAt, h', Option.getD_some]
  refine torn_of_incomplete hpart' ?_
  obtain ⟨r, hr, rfl | rfl⟩ := hwhole.named newer hthere
  · obtain ⟨other, hother, hle⟩ := hwhole.bounded r hthere
    rw [htop, Option.some.injEq] at hother
    rw [revName_lt htopNamed hr, hother] at hlt
    omega
  · rcases hwhole.staged r files' h' with ⟨other, hother, hbelow⟩ | hincomplete
    · rw [htop, Option.some.injEq] at hother
      rw [revName_lt_stagingName htopNamed hr, hother] at hlt
      omega
    · exact hincomplete

/-- Each directory is as the run left it, is torn or was altered without harm, or sorts before a
whole one that is as the run left it. -/
def SafelyAltered (s : StoreRun site) (altered : OcclusionDisk) : Prop :=
  ∀ name ∈ revGlob altered, altered[name]? = s.disk[name]? ∨
    SafeFiles (· ∈ s.committed) (filesAt altered name) ∨
      ∃ newer ∈ revGlob altered, name < newer ∧ altered[newer]? = s.disk[newer]? ∧
        Complete (filesAt altered newer)

theorem loadLatest_serves (hsha : Function.Injective site.sha256)
    (hparts : Parts (· ∈ s.committed) s.disk) {altered : OcclusionDisk}
    (haltered : SafelyAltered s altered) : Serves (· ∈ s.committed) (loadLatest site altered) := by
  have hkept : ∀ name ∈ revGlob altered, altered[name]? = s.disk[name]? →
      ∃ live ∈ s.committed, PartOf live.state (filesAt altered name) := by
    intro name hname hsame
    obtain ⟨files, hfiles⟩ := Option.isSome_iff_exists.mp (mem_revGlob.mp hname).1
    rw [filesAt, hfiles, Option.getD_some]
    exact hparts name files (hsame ▸ hfiles)
  unfold loadLatest
  refine loadFirst_serves hsha (List.pairwise_reverse.mpr (revGlob_sorted _)) fun name hname => ?_
  rw [List.mem_reverse] at hname
  rcases haltered name hname with hsame | hsafe | ⟨newer, hnewer, hlt, hsame, hcomplete⟩
  · obtain ⟨live, hlive, hpart⟩ := hkept name hname hsame
    have hsafe : SafeFiles (· ∈ s.committed) (filesAt altered name) :=
      safeFiles_of_partOf hlive hpart
    exact Or.inl hsafe
  · exact Or.inl hsafe
  · obtain ⟨live, hlive, hpart⟩ := hkept newer hnewer hsame
    exact Or.inr ⟨newer, List.mem_reverse.mpr hnewer, hlt, live, hlive, hpart, hcomplete⟩

/-- A run of commits, whatever becomes of them, leaves files that serve a committed state or
nothing under every safe alteration, and a run of safe commits serves the highest that completed. -/
theorem runs_serve_committed (hsha : Function.Injective site.sha256)
    {commits : List (Commit site)} {s : StoreRun site}
    (hrun : run commitStep (emptyStore site) commits = some s) :
    (∀ altered, SafelyAltered s altered → Serves (· ∈ s.committed) (loadLatest site altered)) ∧
      (EachStep commitStep (fun s commit => commit.Safe s) (emptyStore site) commits →
        ∀ top, s.completed = some top → loadLatest site s.disk = .ok (some top.state)) := by
  have hparts : Parts (· ∈ s.committed) s.disk := by
    refine run_invariant (I := fun s : StoreRun site => Parts (· ∈ s.committed) s.disk)
      (C := fun _ _ => True) (fun _ _ _ h _ hstep => parts_commit h hstep) ?_
      (eachStep_of_forall (fun _ _ => trivial) _ _) hrun
    intro name files hfiles
    simp [emptyStore] at hfiles
  refine ⟨fun altered haltered => loadLatest_serves hsha hparts haltered, fun hsafe top htop => ?_⟩
  have hwhole := run_invariant (I := HighestWhole) (fun _ _ _ h hC hstep => highest_commit h hC hstep)
    highest_empty hsafe hrun
  exact loadLatest_highest hparts hwhole rfl htop

/-! ## A store of one cell -/

/-- The digest of the one block that is hashed here, other bytes by themselves. -/
def cellDigest (bytes : List UInt8) : String :=
  if bytes = [0] then "6e340b9cffb37a989ca544e6bb780a2c78901d3fb33738768511a30617afa01d"
  else "#" ++ String.ofList (bytes.map Char.ofUInt8)

theorem cellDigest_injective : Function.Injective cellDigest := by
  have hmark : ∀ text : String, "6e340b9cffb37a989ca544e6bb780a2c78901d3fb33738768511a30617afa01d" ≠
      "#" ++ text := by
    intro text h
    have hlists := congrArg String.toList h
    simp at hlists
  have hchars : Function.Injective Char.ofUInt8 :=
    fun a b h => UInt8.toUInt32_inj.mp (congrArg Char.val h)
  intro a b h
  unfold cellDigest at h
  split at h <;> split at h
  · next ha hb => rw [ha, hb]
  · exact absurd h (hmark _)
  · exact absurd h.symm (hmark _)
  · rw [String.append_right_inj] at h
    have hlists := congrArg String.toList h
    simp only [String.toList_ofList] at hlists
    exact List.map_injective_iff.mpr hchars hlists

def cellSite : OcclusionSite where
  siteId := "site"
  tileKey := "0_0"
  manifestSha256 := "manifest"
  patchGeometryId := "one-patch"
  sha256 := cellDigest
  textOf := fun _ => ""
  castFloat32 := fun _ => none

def cellBits : NpArray := ⟨uint8, [1, 1, 1], [0], rfl⟩

def cellFloat (bytes : List UInt8) (h : bytes.length = 4) : NpArray := ⟨float32, [1, 1], bytes, h⟩

def cellState (revision : Nat) : VegOcclusionState where
  key := stateKeyFor cellSite revision
  vegshPacked := cellBits
  vbshPacked := cellBits
  patchCount := 1
  canopyScene := cellFloat [0, 0, 0, 0] rfl
  chunkVersions := cellFloat [0, 0, 0, 0] rfl
  chunkChecksums := chunkChecksumsOf cellSite cellBits cellBits
  rows := 1
  cols := 1

def cellLive (revision : Nat) : LiveState cellSite where
  revision
  state := cellState revision
  key := rfl
  patches := Int.one_pos
  vegsh := ⟨rfl, rfl⟩
  vbsh := ⟨rfl, rfl⟩
  canopy := rfl
  checksums := rfl

def completeCommit : Commit cellSite := ⟨cellLive 1, fun _ => .runs⟩

def oneCommit : StoreRun cellSite :=
  ⟨(completeCommit.persist ∅).2, [cellLive 1], some (cellLive 1)⟩

/-! ### A store with crashes and altered bits -/

def killedAtCanopy : PersistOp → Fate
  | .write file => if file = canopyFile then .killed else .runs
  | _ => .runs

def stopsAtRemoval : PersistOp → Fate
  | .removeOld _ => .killed
  | _ => .runs

def secondCommit : Commit cellSite := ⟨cellLive 2, fun _ => .runs⟩

/-- Half of its files are left in its staging directory. -/
def tornCommit : Commit cellSite := ⟨cellLive 3, killedAtCanopy⟩

/-- Killed before its predecessor goes. -/
def vainCommit : Commit cellSite := ⟨cellLive 2, stopsAtRemoval⟩

def twoCommits : StoreRun cellSite :=
  ⟨(secondCommit.persist oneCommit.disk).2, [cellLive 2, cellLive 1], some (cellLive 2)⟩

def tornRun : StoreRun cellSite :=
  ⟨(tornCommit.persist twoCommits.disk).2, [cellLive 3, cellLive 2, cellLive 1],
    some (cellLive 2)⟩

def stormyRun : StoreRun cellSite :=
  ⟨(vainCommit.persist tornRun.disk).2, [cellLive 2, cellLive 3, cellLive 2, cellLive 1],
    some (cellLive 2)⟩

def otherBits : NpArray := ⟨uint8, [1, 1, 1], [1], rfl⟩

/-- The bits of the first stack of revision 2 are others. -/
def alteredRun : OcclusionDisk :=
  stormyRun.disk.insert (revName 2)
    ((wholeFiles (cellState 2)).insert vegshFile (arrayFile otherBits))

/-- Only these directories are there. -/
def Holds (disk : OcclusionDisk) (names : List String) : Prop := disk.keys = names

instance (disk : OcclusionDisk) (names : List String) : Decidable (Holds disk names) :=
  inferInstanceAs (Decidable (disk.keys = names))

theorem Holds.mem {names : List String} {name : String} (h : Holds disk names)
    (hname : disk[name]?.isSome) : name ∈ names := by
  rw [← Std.ExtTreeMap.mem_iff_isSome_getElem?, ← Std.ExtTreeMap.mem_keys] at hname
  exact h ▸ hname

/-- The directories that the second and the last commit find, how the commits after the first one
end, and what is read once the bits are others. -/
theorem stormy_commits_end :
    (Holds oneCommit.disk [revName 1] ∧
        Holds tornRun.disk [revName 1, revName 2, stagingName 3]) ∧
      ((secondCommit.persist oneCommit.disk).1 = .ok () ∧
        (tornCommit.persist twoCommits.disk).1 = .error .killed ∧
        (vainCommit.persist tornRun.disk).1 = .error .killed) ∧
      loadLatest cellSite alteredRun = .ok (some (cellLive 1).state) := by
  decide +kernel

theorem commitStep_ok {s : StoreRun site} {commit : Commit site}
    (h : (commit.persist s.disk).1 = .ok ()) :
    commitStep s commit = some ⟨(commit.persist s.disk).2, commit.live :: s.committed,
      some (highest s.completed commit.live)⟩ := by
  unfold commitStep
  rw [h]

theorem commitStep_error {s : StoreRun site} {commit : Commit site} {stop : Stop}
    (h : (commit.persist s.disk).1 = .error stop) :
    commitStep s commit =
      some ⟨(commit.persist s.disk).2, commit.live :: s.committed, s.completed⟩ := by
  unfold commitStep
  rw [h]

theorem oneCommit_step : commitStep (emptyStore cellSite) completeCommit = some oneCommit :=
  commitStep_ok rfl

theorem twoCommits_step : commitStep oneCommit secondCommit = some twoCommits :=
  commitStep_ok stormy_commits_end.2.1.1

theorem tornRun_step : commitStep twoCommits tornCommit = some tornRun :=
  commitStep_error stormy_commits_end.2.1.2.1

theorem stormyRun_step : commitStep tornRun vainCommit = some stormyRun :=
  commitStep_error stormy_commits_end.2.1.2.2

theorem completeCommit_safe : completeCommit.Safe (emptyStore cellSite) where
  named := by decide
  renames := fun _ h => absurd rfl h
  replaces := by
    rintro ⟨_, h, -⟩
    cases h
  prunes := fun _ _ => Or.inl fun _ _ h => by cases h
  leftovers := by
    rintro _ _ _ _ ⟨h, -⟩
    simp [emptyStore] at h

theorem secondCommit_safe : secondCommit.Safe oneCommit where
  named := by decide
  renames := fun _ h => absurd rfl h
  replaces := fun _ => Or.inl fun _ _ => rfl
  prunes := fun _ _ => Or.inl fun _ _ h => by cases h
  leftovers := by
    rintro _ _ leftover _ ⟨h, -⟩
    exact absurd (List.mem_singleton.mp (stormy_commits_end.1.1.mem h)) (stagingName_ne_revName _ _)

theorem tornCommit_safe : tornCommit.Safe twoCommits := by
  -- the write of the canopy is where the commit is killed
  have hcut : ¬ ∀ op ∈ stagingOps twoCommits.disk 3, killedAtCanopy op = .runs := fun h => by
    have hwrite := h (.write canopyFile) (by simp [stagingOps, readingOrder])
    cases hwrite
  constructor
  · decide
  · exact fun h => absurd h hcut
  · rintro ⟨top, htop, heq⟩
    cases htop
    cases heq
  · exact fun h => absurd h hcut
  · exact fun h => absurd h hcut

theorem vainCommit_safe : vainCommit.Safe tornRun where
  named := by decide
  renames := fun _ h => absurd rfl h
  replaces := fun _ => Or.inr fun h => by cases h
  prunes := fun _ _ => Or.inl fun _ _ h => by cases h
  leftovers := by
    have honly {r : Nat} (h : tornRun.disk[stagingName r]?.isSome) : stagingName r = stagingName 3 := by
      have hmem := stormy_commits_end.1.2.mem h
      simp only [List.mem_cons, List.not_mem_nil, or_false] at hmem
      rcases hmem with h | h | h
      · exact absurd h (stagingName_ne_revName _ _)
      · exact absurd h (stagingName_ne_revName _ _)
      · exact h
    rintro - - leftover other ⟨h, -⟩ ⟨h', -⟩
    exact stagingName_inj.mp ((honly h).trans (honly h').symm)

theorem alteredRun_safe : SafelyAltered stormyRun alteredRun := by
  intro name hname
  by_cases hrev : name = revName 2
  · subst hrev
    refine Or.inr (Or.inl (Or.inr ⟨cellLive 2, ⟨.obj (stateFields (cellState 2)),
      otherBits, cellBits, (cellState 2).canopyScene,
      (cellState 2).chunkVersions⟩, by simp [stormyRun], ?_, ?_⟩))
    · have hvegsh : (filesAt alteredRun (revName 2))[vegshFile]? =
          some (arrayFile otherBits) := by
        simp [filesAt, alteredRun]
      have hother (entry : String × OcclusionFile) (hentry : entry ∈ stateFiles (cellState 2))
          (hne : vegshFile ≠ entry.1) :
          (filesAt alteredRun (revName 2))[entry.1]? = some entry.2 := by
        rw [filesAt, alteredRun, Std.ExtTreeMap.getElem?_insert_self, Option.getD_some,
          Dict.getElem?_insert_of_ne _ _ hne]
        exact Dict.getElem?_ofEntries_of_mem (stateFiles_nodup _) hentry
      have hvbsh := hother (vbshFile, arrayFile cellBits) (by simp [stateFiles, cellState])
        (by decide)
      have hcanopy := hother (canopyFile, arrayFile (cellState 2).canopyScene) (by simp [stateFiles])
        (by decide)
      have hversions := hother (versionsFile, arrayFile (cellState 2).chunkVersions)
        (by simp [stateFiles]) (by decide)
      have hmeta := hother (stateFile, jsonFile (.obj (stateFields (cellState 2))))
        (by simp [stateFiles]) (by decide)
      unfold readRevision readJson readArray
      simp only [hvegsh, hvbsh, hcanopy, hversions, hmeta]
      rfl
    · exact .digests _ (metaOf (cellState 2)) rfl (describesAll_stateFields _).toDescribes
        ⟨by decide, rfl, rfl, by decide, by decide, rfl, by decide⟩
        (Or.inl ⟨rfl, rfl, rfl, Or.inl (by decide)⟩)
  · left
    rw [alteredRun, Dict.getElem?_insert_of_ne _ _ (Ne.symm hrev)]

/-- After two commits, a torn one and a vain one the second is served, and the first once bits of
the second are altered. -/
theorem stormy_commits_served :
    loadLatest cellSite stormyRun.disk = .ok (some (cellLive 2).state) ∧
      Serves (· ∈ stormyRun.committed) (loadLatest cellSite alteredRun) ∧
      loadLatest cellSite alteredRun = .ok (some (cellLive 1).state) := by
  have hrun : run commitStep (emptyStore cellSite)
      [completeCommit, secondCommit, tornCommit, vainCommit] = some stormyRun := by
    rw [run, oneCommit_step, Option.bind_some, run, twoCommits_step, Option.bind_some, run,
      tornRun_step, Option.bind_some, run, stormyRun_step, Option.bind_some, run]
  have hsafe : EachStep commitStep (fun s commit => commit.Safe s) (emptyStore cellSite)
      [completeCommit, secondCommit, tornCommit, vainCommit] :=
    eachStep_cons oneCommit_step completeCommit_safe <|
      eachStep_cons twoCommits_step secondCommit_safe <|
        eachStep_cons tornRun_step tornCommit_safe <|
          eachStep_cons stormyRun_step vainCommit_safe trivial
  obtain ⟨hserves, hhighest⟩ := runs_serve_committed cellDigest_injective hrun
  exact ⟨hhighest hsafe _ rfl, hserves alteredRun alteredRun_safe, stormy_commits_end.2.2⟩

/-- The same directories, with the same files. -/
def SameNames (disk altered : OcclusionDisk) : Prop :=
  ∀ name : String, altered[name]?.map (·.keys) = disk[name]?.map (·.keys)

def otherCanopy (file : String) (content : OcclusionFile) : OcclusionFile :=
  if file = canopyFile then arrayFile (cellFloat [0, 0, 128, 63] rfl) else content

def loadsCanopy (loaded : Except LoadFailure (Option VegOcclusionState)) (bytes : List UInt8) : Bool :=
  match loaded with
  | .ok (some state) => state.canopyScene.bytes = bytes
  | _ => true

/-- The canopy snapshot of the only commit is altered, and is served. -/
theorem altered_canopy_served :
    ¬ ∀ (site : OcclusionSite) (commits : List (Commit site)) (s : StoreRun site),
      Function.Injective site.sha256 →
      (∀ commit ∈ commits, ∀ op, commit.fate op ≠ .raises) →
      run commitStep (emptyStore site) commits = some s →
        (∀ altered, SameNames s.disk altered → Serves (· ∈ s.committed) (loadLatest site altered)) ∧
          ∀ top, s.completed = some top → loadLatest site s.disk = .ok (some top.state) := by
  intro hall
  have hserves := (hall cellSite [completeCommit] oneCommit cellDigest_injective
    (fun commit hcommit op => by
      rw [List.mem_singleton.mp hcommit]
      exact fun h => by cases h) (by rw [run, oneCommit_step, Option.bind_some, run])).1
      (oneCommit.disk.map fun _ files => files.map otherCanopy) (fun name => by
        rw [Std.ExtTreeMap.getElem?_map, Option.map_map]
        refine congrArg (fun f => Option.map f _) (funext fun files => ?_)
        exact Std.ExtTreeMap.keys_map)
  have hloaded : loadsCanopy (loadLatest cellSite
      (oneCommit.disk.map fun _ files => files.map otherCanopy)) [0, 0, 0, 0] = false := by
    decide
  rcases hserves with hnone | ⟨live, hlive, hsome⟩
  · rw [hnone] at hloaded
    cases hloaded
  · rw [hsome, List.mem_singleton.mp hlive] at hloaded
    cases hloaded

end Solweig.Persist
