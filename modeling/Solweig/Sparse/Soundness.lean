import Solweig.Lib.Cut
import Solweig.Sparse.SparseWork

/-!
# Soundness of sparse work

Where the marches outside the work of a build come out as they did before the edit, and the one
way in which they do not: past the shorter table a step leaves the raster, and its zero shades a
cell that lies below zero.
-/

namespace Solweig.Sparse

open Solweig.Lib

/-! ## Two tables of one sequence -/

/-- A cell below zero that no common step shades, and some step past their end reads off the
raster. -/
def ZeroShaded (scene : MarchInputs) (common extra : List Step) (cell : Cell) : Prop :=
  scene.a cell < 0 ∧ (∃ step ∈ extra, ¬ inGrid scene.rows scene.cols (sourceOf cell step)) ∧
    ∀ step ∈ common, (readsAt scene cell step).ta ≤ scene.a cell

/-- The scenes read alike at a cell. -/
def AgreeAt (scene other : MarchInputs) (cell : Cell) : Prop :=
  scene.a cell = other.a cell ∧ scene.vegdsm cell = other.vegdsm cell ∧
    scene.vegdsm2 cell = other.vegdsm2 cell

theorem AgreeAt.symm {scene other : MarchInputs} {cell : Cell} (h : AgreeAt scene other cell) :
    AgreeAt other scene cell :=
  ⟨h.1.symm, h.2.1.symm, h.2.2.symm⟩

theorem readsAt_congr {scene other : MarchInputs} {cell : Cell} {step : Step}
    (hshape : scene.shape = other.shape)
    (h : inGrid scene.rows scene.cols (sourceOf cell step) →
      AgreeAt scene other (sourceOf cell step)) :
    readsAt scene cell step = readsAt other cell step := by
  obtain ⟨hrows, hcols⟩ := Prod.mk.inj hshape
  unfold readsAt
  rw [← hrows, ← hcols]
  dsimp only
  split_ifs with hin
  · obtain ⟨ha, hveg, hveg2⟩ := h hin
    rw [ha, hveg, hveg2]
  · rfl

theorem readsAt_inside {scene : MarchInputs} {cell : Cell} {step : Step}
    (hcell : inGrid scene.rows scene.cols cell)
    (h : inGrid scene.rows scene.cols (sourceOf cell step))
    (hdz : sceneRelativeBound scene < step.dz) :
    (readsAt scene cell step).ta < scene.a cell ∧ (readsAt scene cell step).tv < scene.a cell ∧
      (readsAt scene cell step).tv2 < scene.a cell := by
  unfold readsAt
  rw [if_pos h]
  exact read_lt hcell h hdz

section TwoScenes

variable {short long : MarchInputs} {sequence : Nat → Step} {stepsShort stepsLong : List Step}
  {cell : Cell}

theorem bound_lt_extra (hshape : short.shape = long.shape)
    (hclamp : effectiveAmplitude short < effectiveAmplitude long →
      sceneRelativeBound short ≤ short.amaxvalue)
    (hmono : StrictMono fun k => (sequence k).dz)
    (hshort : IsCut (StopsMarch short.rows short.cols (effectiveAmplitude short)) sequence
      stepsShort)
    (hlong : IsCut (StopsMarch long.rows long.cols (effectiveAmplitude long)) sequence stepsLong)
    {step : Step} (hstep : step ∈ stepsLong.drop stepsShort.length) :
    sceneRelativeBound short < step.dz := by
  obtain ⟨hrows, hcols⟩ := Prod.mk.inj hshape
  obtain ⟨last, k, -, hlt, rfl, hstop, hgo⟩ := hlong.mem_drop hshort hstep
  have hlater := hmono hlt
  unfold StopsMarch at hstop hgo
  rw [← hrows, ← hcols] at hgo
  push Not at hgo
  have hamp : effectiveAmplitude short < (sequence last).dz := by
    rcases hstop with hstop | hstop | hstop
    · exact hstop
    · exact absurd hstop (not_le.mpr hgo.2.1)
    · exact absurd hstop (not_le.mpr hgo.2.2)
  have hbound := hclamp (hamp.trans_le hgo.1)
  rw [effectiveAmplitude_eq, min_eq_left hbound] at hamp
  exact hamp.trans hlater

/-- The steps past the end bring no vegetation, and their surface shades exactly the cells below
zero that one of them leaves the raster from. -/
theorem extra_reads {extra : List Step} (hcell : inGrid short.rows short.cols cell)
    (hextra : ∀ step ∈ extra, sceneRelativeBound short < step.dz) :
    (∀ step ∈ extra, (readsAt short cell step).tv > short.a cell ↔
      (readsAt short cell step).tv2 > short.a cell) ∧
    ((∃ step ∈ extra, (readsAt short cell step).ta > short.a cell) ↔ short.a cell < 0 ∧
      ∃ step ∈ extra, ¬ inGrid short.rows short.cols (sourceOf cell step)) := by
  refine ⟨fun step hstep => ?_, ?_, ?_⟩
  · by_cases hin : inGrid short.rows short.cols (sourceOf cell step)
    · obtain ⟨-, htv, htv2⟩ := readsAt_inside hcell hin (hextra step hstep)
      exact iff_of_false htv.not_gt htv2.not_gt
    · rw [readsAt_outside hin]
  · rintro ⟨step, hstep, hta⟩
    have hout : ¬ inGrid short.rows short.cols (sourceOf cell step) := fun hin =>
      (readsAt_inside hcell hin (hextra step hstep)).1.not_gt hta
    rw [readsAt_outside hout] at hta
    exact ⟨hta, step, hstep, hout⟩
  · rintro ⟨hneg, step, hstep, hout⟩
    refine ⟨step, hstep, ?_⟩
    rw [readsAt_outside hout]
    exact hneg

theorem kernel_append_eq_iff {extra : List Step} (hlength : 2 ≤ stepsShort.length)
    (hcell : inGrid short.rows short.cols cell) (hat : AgreeAt short long cell)
    (hreads : ∀ step ∈ stepsShort ++ extra, readsAt short cell step = readsAt long cell step)
    (hextra : ∀ step ∈ extra, sceneRelativeBound short < step.dz) (exitShort exitLong : Bool) :
    svfShadowKernel exitLong long (stepsShort ++ extra) cell =
        svfShadowKernel exitShort short stepsShort cell ↔
      ¬ ZeroShaded short stepsShort extra cell := by
  obtain ⟨hneutral, hshades⟩ := extra_reads hcell hextra
  have hstart : startMarch long cell = startMarch short cell := by
    unfold startMarch
    rw [hat.1]
  have hcommon : marchLoop false long cell 0 (stepsShort ++ extra) (startMarch long cell) =
      marchLoop false short cell 0 (stepsShort ++ extra) (startMarch short cell) := by
    rw [hstart]
    exact (marchLoop_congr hat.1 hat.2.2 hreads).symm
  have hfirst : (marchLoop false short cell 0 stepsShort (startMarch short cell)).f > short.a cell ↔
      ∃ step ∈ stepsShort, (readsAt short cell step).ta > short.a cell := by
    rw [marchLoop_f]
    exact or_iff_right (lt_irrefl _)
  unfold svfShadowKernel
  rw [finishMarch_exit exitLong startMarch_marching, finishMarch_exit exitShort startMarch_marching,
    hcommon, marchLoop_append, finishMarch_neutral (by omega) (march_settled hlength) hneutral,
    hshades, hfirst]
  unfold ZeroShaded
  constructor
  · rintro h ⟨hneg, hout, hnone⟩
    obtain ⟨step, hstep, hta⟩ := h ⟨hneg, hout⟩
    exact (hnone step hstep).not_gt hta
  · rintro h ⟨hneg, hout⟩
    by_contra hnone
    exact h ⟨hneg, hout, fun step hstep => not_lt.mp fun hta => hnone ⟨step, hstep, hta⟩⟩

/-- Marches of two scenes that read alike come out alike, unless a zero off the raster is the
first to shade the cell. -/
theorem kernel_eq_iff (hshape : short.shape = long.shape)
    (hamp : effectiveAmplitude short ≤ effectiveAmplitude long)
    (hclamp : effectiveAmplitude short < effectiveAmplitude long →
      sceneRelativeBound short ≤ short.amaxvalue)
    (hmono : StrictMono fun k => (sequence k).dz)
    (hshort : IsCut (StopsMarch short.rows short.cols (effectiveAmplitude short)) sequence
      stepsShort)
    (hlong : IsCut (StopsMarch long.rows long.cols (effectiveAmplitude long)) sequence stepsLong)
    (hlength : 2 ≤ stepsShort.length) (hcell : inGrid short.rows short.cols cell)
    (hat : AgreeAt short long cell)
    (hsources : ∀ step ∈ stepsLong, inGrid short.rows short.cols (sourceOf cell step) →
      AgreeAt short long (sourceOf cell step)) (exitShort exitLong : Bool) :
    svfShadowKernel exitLong long stepsLong cell = svfShadowKernel exitShort short stepsShort cell ↔
      ¬ ZeroShaded short stepsShort (stepsLong.drop stepsShort.length) cell := by
  obtain ⟨hrows, hcols⟩ := Prod.mk.inj hshape
  have happend : stepsLong = stepsShort ++ stepsLong.drop stepsShort.length :=
    hlong.append hshort fun step hstep => by
      unfold StopsMarch at hstep ⊢
      rw [hrows, hcols]
      exact hstep.imp_left hamp.trans_lt
  have hextra : ∀ step ∈ stepsLong.drop stepsShort.length, sceneRelativeBound short < step.dz :=
    fun step hstep => bound_lt_extra hshape hclamp hmono hshort hlong hstep
  have hreads : ∀ step ∈ stepsLong, readsAt short cell step = readsAt long cell step :=
    fun step hstep => readsAt_congr hshape (hsources step hstep)
  rw [happend] at hreads
  have hiff := kernel_append_eq_iff hlength hcell hat hreads hextra exitShort exitLong
  rwa [← happend] at hiff

end TwoScenes

/-! ## What the guards let through -/

/-- Each table is a sequence of steps cut where the amplitude of the scene, or the size of its
raster, ends the march. -/
def TablesOf (scene : MarchInputs) (sequence : Int → Nat → Step) (tables : Dict Int StepTable) :
    Prop :=
  ∀ (idx : Int) table, tables[idx]? = some table →
    IsCut (StopsMarch scene.rows scene.cols (effectiveAmplitude scene)) (sequence idx) table.steps

theorem fallBack_ok {reason : Option FallbackReason} {u : Unit} :
    fallBack reason = .ok u ↔ reason = none := by
  unfold fallBack
  cases reason <;> simp

section Guards

variable {pre post : MarchInputs} {tablesPre tablesPost : Dict Int StepTable}

theorem clampedAmplitudeChangeGuard_none (h : clampedAmplitudeChangeGuard pre post = none) :
    (effectiveAmplitude pre < effectiveAmplitude post →
      sceneRelativeBound pre ≤ pre.amaxvalue) ∧
    (effectiveAmplitude post < effectiveAmplitude pre →
      sceneRelativeBound post ≤ post.amaxvalue) := by
  unfold clampedAmplitudeChangeGuard at h
  refine ⟨fun hlt => ?_, fun hlt => ?_⟩
  · simpa [hlt.ne, hlt] using h
  · simpa [hlt.ne', hlt.not_gt] using h

theorem oneStepOf_none {label : Side} {tables : Dict Int StepTable} (h : oneStepOf label tables = none)
    {idx : Int} {table : StepTable} (htable : tables[idx]? = some table) :
    2 ≤ table.steps.length := by
  unfold oneStepOf at h
  rw [Option.map_eq_none_iff, List.find?_eq_none] at h
  have hcount := h _ (Std.ExtTreeMap.mem_toList_iff_getElem?_eq_some.mpr htable)
  rw [decide_eq_true_eq, not_le] at hcount
  exact hcount

theorem oneStepRegimeGuard_none (h : oneStepRegimeGuard tablesPre tablesPost = none) :
    oneStepOf .pre tablesPre = none ∧ oneStepOf .post tablesPost = none := by
  unfold oneStepRegimeGuard at h
  rwa [Option.or_eq_none_iff] at h

theorem effectiveAmplitude_eq_of_unchanged (hshape : pre.shape = post.shape) (hrows : 0 < pre.rows)
    (hcols : 0 < pre.cols)
    (hsame : ∀ cell, inGrid pre.rows pre.cols cell → AgreeAt pre post cell)
    (hguard : clampedAmplitudeChangeGuard pre post = none) :
    effectiveAmplitude pre = effectiveAmplitude post := by
  obtain ⟨hr, hc⟩ := Prod.mk.inj hshape
  have hbound : sceneRelativeBound pre = sceneRelativeBound post := by
    unfold sceneRelativeBound MarchInputs.top
    rw [← hr, ← hc, planeMax_congr _ hrows hcols fun cell hcell => (hsame cell hcell).1,
      planeMax_congr _ hrows hcols fun cell hcell => (hsame cell hcell).2.1,
      planeMax_congr _ hrows hcols fun cell hcell => (hsame cell hcell).2.2,
      planeMin_congr hrows hcols fun cell hcell => (hsame cell hcell).1]
  obtain ⟨hpre, hpost⟩ := clampedAmplitudeChangeGuard_none hguard
  rw [effectiveAmplitude_eq, effectiveAmplitude_eq] at *
  rcases lt_trichotomy (min (sceneRelativeBound pre) pre.amaxvalue)
    (min (sceneRelativeBound post) post.amaxvalue) with hlt | heq | hlt
  · rw [min_eq_left (hpre hlt), hbound] at hlt
    exact absurd hlt (min_le_left _ _).not_gt
  · exact heq
  · rw [min_eq_left (hpost hlt), ← hbound] at hlt
    exact absurd hlt (min_le_left _ _).not_gt

end Guards

/-! ## Builds -/

/-- Every cell outside the work of a patch marches after the edit as before it. -/
def SpliceSound {D : Type} (pre post : MarchInputs) (tablesPre tablesPost : Dict Int StepTable)
    (build : SparseWorkBuild D) : Prop :=
  ∀ (idx : Int) tablePre tablePost,
    tablesPre[idx]? = some tablePre → tablesPost[idx]? = some tablePost →
    ∀ cell, inGrid pre.rows pre.cols cell → workSet build idx cell = false →
      ∀ exitPre exitPost, svfShadowKernel exitPost post tablePost.steps cell =
        svfShadowKernel exitPre pre tablePre.steps cell

/-- No patch has a cell outside its closure that only a zero off the raster shades, at a step
past the end of the shorter table. -/
def NoneZeroShaded (pre post : MarchInputs) (tablesPre tablesPost : Dict Int StepTable) : Prop :=
  ∀ (idx : Int) tablePre tablePost,
    tablesPre[idx]? = some tablePre → tablesPost[idx]? = some tablePost →
    ∀ cell, inGrid pre.rows pre.cols cell →
      closureMask pre.rows pre.cols (inputsDiffer pre post) (tableOffsets tablePre)
        (tableOffsets tablePost) cell = false →
      ¬ ZeroShaded pre (tablePre.steps.take tablePost.count)
        (tablePre.steps.drop tablePost.count ++ tablePost.steps.drop tablePre.count) cell

theorem ZeroShaded.congr {scene other : MarchInputs} {common extra : List Step} {cell : Cell}
    (hshape : scene.shape = other.shape) (ha : scene.a cell = other.a cell)
    (hreads : ∀ step ∈ common, readsAt scene cell step = readsAt other cell step) :
    ZeroShaded scene common extra cell ↔ ZeroShaded other common extra cell := by
  obtain ⟨hrows, hcols⟩ := Prod.mk.inj hshape
  unfold ZeroShaded
  rw [ha, hrows, hcols]
  refine and_congr_right fun _ => and_congr_right fun _ => forall₂_congr fun step hstep => ?_
  rw [hreads step hstep]

section Patch

variable {pre post : MarchInputs} {sequence : Nat → Step} {tablePre tablePost : StepTable}
  {cell : Cell}

theorem agreeAt_of_unchanged (h : inputsDiffer pre post cell = false) : AgreeAt pre post cell := by
  obtain ⟨ha, hveg, hveg2, -⟩ := inputsDiffer_eq_false.mp h
  exact ⟨ha, hveg, hveg2⟩

theorem agree_outside_closure (hcell : inGrid pre.rows pre.cols cell)
    (h : closureMask pre.rows pre.cols (inputsDiffer pre post) (tableOffsets tablePre)
      (tableOffsets tablePost) cell = false) :
    AgreeAt pre post cell ∧ ∀ step ∈ tablePre.steps ++ tablePost.steps,
      inGrid pre.rows pre.cols (sourceOf cell step) → AgreeAt pre post (sourceOf cell step) := by
  unfold closureMask at h
  simp only [Bool.or_eq_false_iff] at h
  obtain ⟨⟨hC, hpre⟩, hpost⟩ := h
  refine ⟨agreeAt_of_unchanged hC, fun step hstep hin => agreeAt_of_unchanged ?_⟩
  by_contra hchanged
  rw [Bool.not_eq_false] at hchanged
  rcases List.mem_append.mp hstep with hstep | hstep
  · exact Bool.eq_false_iff.mp hpre ((corridorMask_iff hcell).mpr ⟨step, hstep, hin, hchanged⟩)
  · exact Bool.eq_false_iff.mp hpost ((corridorMask_iff hcell).mpr ⟨step, hstep, hin, hchanged⟩)

theorem patch_eq_iff (hshape : pre.shape = post.shape)
    (hguard : clampedAmplitudeChangeGuard pre post = none)
    (hmono : StrictMono fun k => (sequence k).dz)
    (hcutPre : IsCut (StopsMarch pre.rows pre.cols (effectiveAmplitude pre)) sequence
      tablePre.steps)
    (hcutPost : IsCut (StopsMarch post.rows post.cols (effectiveAmplitude post)) sequence
      tablePost.steps)
    (hlengthPre : 2 ≤ tablePre.steps.length) (hlengthPost : 2 ≤ tablePost.steps.length)
    (hcell : inGrid pre.rows pre.cols cell)
    (hclosure : closureMask pre.rows pre.cols (inputsDiffer pre post) (tableOffsets tablePre)
      (tableOffsets tablePost) cell = false) (exitPre exitPost : Bool) :
    svfShadowKernel exitPost post tablePost.steps cell =
        svfShadowKernel exitPre pre tablePre.steps cell ↔
      ¬ ZeroShaded pre (tablePre.steps.take tablePost.count)
        (tablePre.steps.drop tablePost.count ++ tablePost.steps.drop tablePre.count) cell := by
  obtain ⟨hrows, hcols⟩ := Prod.mk.inj hshape
  obtain ⟨hat, hsources⟩ := agree_outside_closure hcell hclosure
  obtain ⟨hclampPre, hclampPost⟩ := clampedAmplitudeChangeGuard_none hguard
  unfold StepTable.count
  rcases le_total (effectiveAmplitude pre) (effectiveAmplitude post) with hamp | hamp
  · have happend := hcutPost.append hcutPre fun step hstep => by
      unfold StopsMarch at hstep ⊢
      rw [hrows, hcols]
      exact hstep.imp_left hamp.trans_lt
    have hle : tablePre.steps.length ≤ tablePost.steps.length := by
      have hlength := congrArg List.length happend
      rw [List.length_append] at hlength
      omega
    rw [List.take_of_length_le hle, List.drop_eq_nil_of_le hle, List.nil_append]
    exact kernel_eq_iff hshape hamp hclampPre hmono hcutPre hcutPost hlengthPre hcell hat
      (fun step hstep => hsources step (List.mem_append_right _ hstep)) exitPre exitPost
  · have happend := hcutPre.append hcutPost fun step hstep => by
      unfold StopsMarch at hstep ⊢
      rw [← hrows, ← hcols]
      exact hstep.imp_left hamp.trans_lt
    have hle : tablePost.steps.length ≤ tablePre.steps.length := by
      have hlength := congrArg List.length happend
      rw [List.length_append] at hlength
      omega
    have htake : tablePre.steps.take tablePost.steps.length = tablePost.steps := by
      rw [happend, List.take_left]
    rw [htake, List.drop_eq_nil_of_le hle, List.append_nil, eq_comm,
      ZeroShaded.congr hshape hat.1 fun step hstep => readsAt_congr hshape
        (hsources step (List.mem_append_right _ hstep))]
    rw [hrows, hcols] at hcell hsources
    exact kernel_eq_iff hshape.symm hamp hclampPost hmono hcutPost hcutPre hlengthPost hcell hat.symm
      (fun step hstep hin => (hsources step (List.mem_append_left _ hstep) hin).symm) exitPost exitPre

end Patch

section Build

variable {D : Type} [DecidableEq D] {digest : List Step → D} {pre post : MarchInputs}
  {tablesPre tablesPost : Dict Int StepTable} {identityPre identityPost : Option (Dict String Json)}
  {verifyCandidate keepMasks : Bool} {build : SparseWorkBuild D}

theorem buildSparseWork_ok (h : buildSparseWork digest pre post tablesPre tablesPost identityPre
    identityPost none verifyCandidate keepMasks = .ok build) :
    post.shape = pre.shape ∧ validateTables tablesPre tablesPost pre.shape = .ok () ∧
      bushGuard pre post = none ∧ clampedAmplitudeChangeGuard pre post = none ∧
      oneStepRegimeGuard tablesPre tablesPost = none ∧
      build = assemble digest pre.rows pre.cols (inputsDiffer pre post) tablesPre tablesPost
        keepMasks := by
  unfold buildSparseWork composedChangeMask at h
  simp only [except_bind_ok, refuseIf_ok, fallBack_ok, not_not] at h
  obtain ⟨_, hshape, _, hvalid, _, -, _, -, _, hbush, _, hclamp, _, hstep, C, hC, h⟩ := h
  cases hC
  cases h
  exact ⟨hshape, hvalid, hbush, hclamp, hstep, rfl⟩

/-- What a build lists for a patch, cell by cell: nothing where nothing changed, the whole tile
where only a table did, else the closure. -/
theorem workSet_assemble {C : Mask} {rows cols : Nat} {idx : Int} {tablePre tablePost : StepTable}
    {cell : Cell} (hpre : tablesPre[idx]? = some tablePre)
    (hpost : tablesPost[idx]? = some tablePost) (hcell : inGrid rows cols cell)
    (hC : (gridCells rows cols).any C = true) :
    workSet (assemble digest rows cols C tablesPre tablesPost keepMasks) idx cell =
      closureMask rows cols C (tableOffsets tablePre) (tableOffsets tablePost) cell := by
  have hruns : (assemble digest rows cols C tablesPre tablesPost keepMasks).rowRuns =
      Dict.ofEntries ((patchWorks rows cols C false tablesPre tablesPost).map fun work =>
        (work.idx, work.runs rows cols)) := by
    unfold assemble
    simp only [hC, Bool.not_true, Bool.false_and, Bool.false_eq_true, if_false]
  unfold workSet
  rw [hruns, rowRuns_patchWorks hpre hpost]
  unfold workMask
  simp only [Bool.false_eq_true, if_false]
  split_ifs with hany
  · rw [Option.map_some, Option.any_some, rowRunsFromMask_holds _ hcell]
  · rw [Option.map_none, Option.any_none]
    have hnone := List.any_eq_false.mp (Bool.not_eq_true _ ▸ hany) cell (mem_gridCells.mpr hcell)
    exact (Bool.not_eq_true _ ▸ hnone).symm

theorem closure_of_unchanged {rows cols : Nat} {C : Mask} (hC : (gridCells rows cols).any C = false)
    {tablePre tablePost : StepTable} {cell : Cell} (hcell : inGrid rows cols cell) :
    closureMask rows cols C (tableOffsets tablePre) (tableOffsets tablePost) cell = false := by
  have hnone : ∀ cell, inGrid rows cols cell → ¬ C cell = true := fun cell hcell =>
    List.any_eq_false.mp hC cell (mem_gridCells.mpr hcell)
  unfold closureMask
  rw [Bool.or_eq_false_iff, Bool.or_eq_false_iff, ← Bool.not_eq_true, ← Bool.not_eq_true,
    ← Bool.not_eq_true, corridorMask_iff hcell, corridorMask_iff hcell]
  exact ⟨⟨hnone cell hcell, fun ⟨_, _, hin, hread⟩ => hnone _ hin hread⟩,
    fun ⟨_, _, hin, hread⟩ => hnone _ hin hread⟩

/-- The splice of a build is sound exactly where no zero off the raster shades a cell past the
end of the shorter table. -/
theorem spliceSound_iff {a dem canopy : Plane} {sequence : Int → Nat → Step}
    (hpre : composeMarchInputs a dem canopy = .ok pre)
    (hmono : ∀ idx, StrictMono fun k => (sequence idx k).dz)
    (htablesPre : TablesOf pre sequence tablesPre)
    (htablesPost : TablesOf post sequence tablesPost)
    (hbuild : buildSparseWork digest pre post tablesPre tablesPost identityPre identityPost none
      verifyCandidate keepMasks = .ok build) :
    SpliceSound pre post tablesPre tablesPost build ↔
      NoneZeroShaded pre post tablesPre tablesPost := by
  obtain ⟨hshape, -, -, hclamp, honeStep, rfl⟩ := buildSparseWork_ok hbuild
  obtain ⟨hrows, hcols⟩ := composeMarchInputs_pos hpre
  obtain ⟨honePre, honePost⟩ := oneStepRegimeGuard_none honeStep
  have hpatch : ∀ (idx : Int) tablePre tablePost, tablesPre[idx]? = some tablePre →
      tablesPost[idx]? = some tablePost → ∀ cell, inGrid pre.rows pre.cols cell →
      closureMask pre.rows pre.cols (inputsDiffer pre post) (tableOffsets tablePre)
        (tableOffsets tablePost) cell = false → ∀ exitPre exitPost : Bool, _ :=
    fun idx tablePre tablePost hlookPre hlookPost cell hcell hclosure =>
      patch_eq_iff hshape.symm hclamp (hmono idx) (htablesPre _ _ hlookPre)
        (htablesPost _ _ hlookPost) (oneStepOf_none honePre hlookPre)
        (oneStepOf_none honePost hlookPost) hcell hclosure
  cases hC : (gridCells pre.rows pre.cols).any (inputsDiffer pre post) with
  | true =>
    refine ⟨fun hsound idx tablePre tablePost hlookPre hlookPost cell hcell hclosure => ?_,
      fun hnone idx tablePre tablePost hlookPre hlookPost cell hcell hwork exitPre exitPost => ?_⟩
    · rw [← hpatch _ _ _ hlookPre hlookPost cell hcell hclosure true true]
      apply hsound _ _ _ hlookPre hlookPost cell hcell
      rw [workSet_assemble hlookPre hlookPost hcell hC, hclosure]
    · rw [workSet_assemble hlookPre hlookPost hcell hC] at hwork
      rw [hpatch _ _ _ hlookPre hlookPost cell hcell hwork exitPre exitPost]
      exact hnone _ _ _ hlookPre hlookPost cell hcell hwork
  | false =>
    -- nothing changed, so the amplitudes are equal and so are the tables
    have hnone : NoneZeroShaded pre post tablesPre tablesPost := by
      rintro idx tablePre tablePost hlookPre hlookPost cell hcell - ⟨-, ⟨step, hstep, -⟩, -⟩
      have hamp := effectiveAmplitude_eq_of_unchanged hshape.symm hrows hcols
        (fun cell hcell => agreeAt_of_unchanged
          (Bool.not_eq_true _ ▸ List.any_eq_false.mp hC cell (mem_gridCells.mpr hcell))) hclamp
      obtain ⟨hr, hc⟩ := Prod.mk.inj hshape
      have hcutPost := htablesPost _ _ hlookPost
      rw [hr, hc, ← hamp] at hcutPost
      have hsteps := (htablesPre _ _ hlookPre).unique hcutPost
      unfold StepTable.count at hstep
      rw [hsteps, List.drop_length, List.append_nil] at hstep
      exact List.not_mem_nil hstep
    refine ⟨fun _ => hnone, fun _ idx tablePre tablePost hlookPre hlookPost cell hcell _ => ?_⟩
    have hclosure : closureMask pre.rows pre.cols (inputsDiffer pre post) (tableOffsets tablePre)
      (tableOffsets tablePost) cell = false := closure_of_unchanged hC hcell
    intro exitPre exitPost
    rw [hpatch _ _ _ hlookPre hlookPost cell hcell hclosure exitPre exitPost]
    exact hnone _ _ _ hlookPre hlookPost cell hcell hclosure

end Build

/-! ## A plain below zero, under a terrain above it -/

namespace LowPlain

def surface : Plane := ⟨2, 3, fun _ => -1⟩

/-- One cell is built up. -/
def surfaceBuilt : Plane := ⟨2, 3, fun cell => if cell = (1, 0) then 5 else -1⟩

def terrain : Plane := ⟨2, 3, fun _ => 100⟩

def bare : Plane := ⟨2, 3, fun _ => 0⟩

/-- The steps go along the rows, one cell each. -/
def along (k : Nat) : Step := ⟨0, k + 1, k + 1⟩

def table (count : Nat) : StepTable :=
  ⟨⟨.svfShadow, 2, 3⟩, (List.range count).map along⟩

def tables (count : Nat) : Dict Int StepTable := Dict.ofEntries [(0, table count)]

def scene (a : Plane) : MarchInputs :=
  ((composeMarchInputs a terrain bare).toOption).getD ⟨0, 0, surface.value, surface.value,
    surface.value, surface.value, surface.value, surface.value, surface.value, surface.value, 0⟩

theorem along_mono : StrictMono fun k => (along k).dz := fun k l hlt => by
  unfold along
  dsimp only
  have hcast : (k : Rat) < l := Nat.cast_lt.mpr hlt
  linarith

theorem tables_lookup {count : Nat} {idx : Int} {found : StepTable}
    (h : (tables count)[idx]? = some found) : found = table count := by
  unfold tables Dict.ofEntries at h
  rw [List.foldl_cons, List.foldl_nil] at h
  rcases Dict.of_getElem?_insert h with ⟨-, h⟩ | h
  · exact h.symm
  · simp at h

theorem tables_of {a : Plane} {last : Nat}
    (hcut : StopsMarch (scene a).rows (scene a).cols (effectiveAmplitude (scene a)) (along last) ∧
      ∀ k < last,
        ¬ StopsMarch (scene a).rows (scene a).cols (effectiveAmplitude (scene a)) (along k)) :
    TablesOf (scene a) (fun _ => along) (tables (last + 1)) :=
  fun _ _ hfound => tables_lookup hfound ▸ ⟨last, rfl, hcut⟩

end LowPlain

open LowPlain in
theorem spliceSound_fails : (composeMarchInputs surface terrain bare = .ok (scene surface) ∧
    composeMarchInputs surfaceBuilt terrain bare = .ok (scene surfaceBuilt)) ∧
    (StrictMono fun k => (along k).dz) ∧
    TablesOf (scene surface) (fun _ => along) (tables 2) ∧
    TablesOf (scene surfaceBuilt) (fun _ => along) (tables 3) ∧
    ∃ build, buildSparseWork id (scene surface) (scene surfaceBuilt) (tables 2) (tables 3) none none
      none false false = .ok build ∧
      ¬ SpliceSound (scene surface) (scene surfaceBuilt) (tables 2) (tables 3) build := by
  have hok : (buildSparseWork id (scene surface) (scene surfaceBuilt) (tables 2) (tables 3) none none
      none false false).isOk = true := by decide +kernel
  obtain ⟨build, hbuild⟩ := except_of_isOk hok
  refine ⟨⟨rfl, rfl⟩, along_mono, tables_of (by decide +kernel), tables_of (by decide +kernel),
    build, hbuild, fun hsound => ?_⟩
  obtain ⟨-, -, -, -, -, rfl⟩ := buildSparseWork_ok hbuild
  have heq := hsound 0 (table 2) (table 3) (by decide +kernel) (by decide +kernel) (0, 0)
    (by decide) (by decide +kernel) true true
  exact absurd heq (by decide +kernel)

/-! ## A cell below zero that its neighbour shades -/

namespace LowPlain

def dell : Plane := ⟨2, 3, fun cell => if cell = (0, 0) then -1 else 1 / 2⟩

/-- One cell is built up. -/
def dellBuilt : Plane :=
  ⟨2, 3, fun cell => if cell = (1, 0) then 5 else if cell = (0, 0) then -1 else 1 / 2⟩

theorem dell_shaded : NoneZeroShaded (scene dell) (scene dellBuilt) (tables 2) (tables 3) := by
  rintro idx tablePre tablePost hpre hpost cell - - ⟨hbelow, -, hreads⟩
  obtain rfl := tables_lookup hpre
  obtain rfl := tables_lookup hpost
  have hcell : cell = (0, 0) := by
    by_contra hne
    have hvalue : (if cell = (0, 0) then -1 else 1 / 2 : Rat) < 0 := hbelow
    rw [if_neg hne] at hvalue
    exact absurd hvalue (by decide +kernel)
  subst hcell
  exact absurd (hreads (along 0) (by decide +kernel)) (by decide +kernel)

end LowPlain

open LowPlain in
theorem spliceSound_iff_dell : ∃ build, buildSparseWork id (scene dell) (scene dellBuilt)
    (tables 2) (tables 3) none none none false false = .ok build ∧
    SpliceSound (scene dell) (scene dellBuilt) (tables 2) (tables 3) build := by
  have hok : (buildSparseWork id (scene dell) (scene dellBuilt) (tables 2) (tables 3) none none
      none false false).isOk = true := by decide +kernel
  obtain ⟨build, hbuild⟩ := except_of_isOk hok
  have hpre : composeMarchInputs dell terrain bare = .ok (scene dell) := rfl
  exact ⟨build, hbuild, (spliceSound_iff hpre (fun _ => along_mono) (tables_of (by decide +kernel))
    (tables_of (by decide +kernel)) hbuild).mpr dell_shaded⟩

end Solweig.Sparse
