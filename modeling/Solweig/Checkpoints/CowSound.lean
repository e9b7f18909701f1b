import Solweig.Checkpoints.ChunkCow

/-!
# Chunk copy-on-write is sound

What a clean chunk says of the scene, and where each cell of a composed plane comes from.
-/

namespace Solweig.Checkpoints

open Solweig.Lib Solweig.Lib.Chunks

/-! ## Digests -/

theorem F32.bytes_injective : Function.Injective F32.bytes := by
  intro a b h
  cases a
  cases b
  simpa [F32.bytes] using h

theorem sliceBytes_length (raster other : Raster) (block : Block) :
    (sliceBytes raster block).length = (sliceBytes other block).length := by
  unfold sliceBytes
  simp [List.length_flatMap, F32.bytes]

theorem sliceBytes_inj {raster other : Raster} {block : Block} {cell : Nat × Nat}
    (h : sliceBytes raster block = sliceBytes other block) (hcell : block.holds cell) :
    raster.cell cell.1 cell.2 = other.cell cell.1 cell.2 := by
  unfold sliceBytes at h
  obtain ⟨⟨hrow, hrow'⟩, hcol, hcol'⟩ := hcell
  have hin : ∀ (span : Span) {i : Nat}, span.start ≤ i → i < span.stop →
      i ∈ List.range' span.start span.length := by
    intro span i hi hi'
    rw [List.mem_range'_1]
    unfold Span.length
    omega
  have hline := flatMap_inj (fun row _ => by simp [List.length_flatMap, F32.bytes]) h cell.1
    (hin block.rows hrow hrow')
  have hvalue := flatMap_inj
    (f := fun col => (raster.cell cell.1 col).bytes) (g := fun col => (other.cell cell.1 col).bytes)
    (fun col _ => rfl) hline cell.2 (hin block.cols hcol hcol')
  exact F32.bytes_injective hvalue

section Digests

variable {D : Type} {digest : List UInt8 → D}

theorem sceneDigest_inj (hdigest : Function.Injective digest) {old now : ComposedScene}
    {block : Block} {cell : Nat × Nat} (h : sceneDigest digest old block = sceneDigest digest now block)
    (hcell : block.holds cell) :
    old.buildingDsm.cell cell.1 cell.2 = now.buildingDsm.cell cell.1 cell.2 ∧
      old.canopy.cell cell.1 cell.2 = now.canopy.cell cell.1 cell.2 ∧
      old.dem.cell cell.1 cell.2 = now.dem.cell cell.1 cell.2 := by
  unfold sceneDigest at h
  have hbytes := hdigest h
  rw [List.append_assoc, List.append_assoc] at hbytes
  obtain ⟨hbuilding, hrest⟩ := List.append_inj hbytes (sliceBytes_length _ _ _)
  obtain ⟨hcanopy, hdem⟩ := List.append_inj hrest (sliceBytes_length _ _ _)
  exact ⟨sliceBytes_inj hbuilding hcell, sliceBytes_inj hcanopy hcell, sliceBytes_inj hdem hcell⟩

/-- What is digested, for each chunk of the grid. -/
structure Digested (digest : List UInt8 → D) (source : ComposedScene) (chunkCells : Nat)
    (digests : ChunkDigests D) : Prop where
  positive : 0 < chunkCells
  cells : digests.chunkCells = chunkCells
  rows : digests.rows = source.buildingDsm.rows
  cols : digests.cols = source.buildingDsm.cols
  chunkRows : digests.chunkRows = chunkCount digests.rows chunkCells
  chunkCols : digests.chunkCols = chunkCount digests.cols chunkCells
  scene : ∀ key ∈ chunkKeys digests.rows digests.cols chunkCells, digests.scene[key]? =
    some (sceneDigest digest source (chunkBlock digests.rows digests.cols chunkCells key))
  landcover : ∀ key ∈ chunkKeys digests.rows digests.cols chunkCells,
    digests.landcover.bind (fun digests => digests[key]?) = source.resolvedLandcover.map fun landcover =>
      digest (sliceBytes landcover (chunkBlock digests.rows digests.cols chunkCells key))

theorem chunkSceneDigests_digested {scene : ComposedScene} {chunkCells : Nat}
    {digests : ChunkDigests D} (h : chunkSceneDigests digest scene chunkCells = .ok digests) :
    Digested digest scene chunkCells digests := by
  unfold chunkSceneDigests at h
  simp only [except_bind_ok, refuseIf_ok] at h
  obtain ⟨-, hcells, -, -, -, -, h⟩ := h
  obtain rfl := Except.ok.inj h
  refine ⟨by omega, rfl, rfl, rfl, rfl, rfl, fun key hkey => ?_, fun key hkey => ?_⟩
  · dsimp only at hkey ⊢
    rw [Dict.getElem?_ofEntries_map, if_pos hkey]
  · dsimp only at hkey ⊢
    cases scene.resolvedLandcover with
    | none => rfl
    | some landcover =>
      rw [Option.map_some, Option.bind_some, Dict.getElem?_ofEntries_map, if_pos hkey]
      rfl

end Digests

/-! ## Dirty chunks -/

section Dirty

variable {D : Type} [DecidableEq D] {stored current : ChunkDigests D}

/-- The chunk is within the dilation of a changed one. -/
def nearChanged (current : ChunkDigests D) (dilation : Nat) (changed key : Nat × Nat) : Prop :=
  changed.1 - dilation ≤ key.1 ∧ key.1 < min current.chunkRows (changed.1 + dilation + 1) ∧
    changed.2 - dilation ≤ key.2 ∧ key.2 < min current.chunkCols (changed.2 + dilation + 1)

theorem dirtyMask_iff (keys : List (Nat × Nat)) (dilation : Nat) (key : Nat × Nat) :
    dirtyMask stored current keys dilation key = true ↔ landcoverChanged stored current key = true ∨
      ∃ changed ∈ keys, sceneChanged stored current changed = true ∧
        nearChanged current dilation changed key := by
  unfold dirtyMask
  induction keys using List.reverseRecOn with
  | nil => simp
  | append_singleton keys last ih =>
    rw [List.foldl_append, List.foldl_cons, List.foldl_nil]
    by_cases hchanged : sceneChanged stored current last = true
    · rw [if_pos hchanged, dilate, Bool.or_eq_true, ih, decide_eq_true_eq, or_assoc]
      apply or_congr_right
      constructor
      · rintro (⟨changed, hmem, hrest⟩ | hnear)
        · exact ⟨changed, List.mem_append_left _ hmem, hrest⟩
        · exact ⟨last, by simp, hchanged, hnear⟩
      · rintro ⟨changed, hmem, hrest⟩
        rcases List.mem_append.mp hmem with hmem | hmem
        · exact Or.inl ⟨changed, hmem, hrest⟩
        · rw [List.mem_singleton.mp hmem] at hrest
          exact Or.inr hrest.2
    · rw [if_neg hchanged, ih]
      apply or_congr_right
      constructor
      · rintro ⟨changed, hmem, hrest⟩
        exact ⟨changed, List.mem_append_left _ hmem, hrest⟩
      · rintro ⟨changed, hmem, hrest⟩
        rcases List.mem_append.mp hmem with hmem | hmem
        · exact ⟨changed, hmem, hrest⟩
        · rw [List.mem_singleton.mp hmem] at hrest
          exact absurd hrest.1 hchanged

theorem foldl_min_le (keys : List (Nat × Nat)) (axis : Nat × Nat → Nat) (start : Nat) :
    keys.foldl (fun low key => min low (axis key)) start ≤ start ∧
      ∀ key ∈ keys, keys.foldl (fun low key => min low (axis key)) start ≤ axis key := by
  induction keys generalizing start with
  | nil => exact ⟨le_refl start, fun key hkey => by cases hkey⟩
  | cons first keys ih =>
    obtain ⟨hstart, hrest⟩ := ih (min start (axis first))
    rw [List.foldl_cons, List.forall_mem_cons]
    exact ⟨hstart.trans (min_le_left _ _), hstart.trans (min_le_right _ _), hrest⟩

theorem le_foldl_max (keys : List (Nat × Nat)) (axis : Nat × Nat → Nat) (start : Nat) :
    start ≤ keys.foldl (fun high key => max high (axis key)) start ∧
      ∀ key ∈ keys, axis key ≤ keys.foldl (fun high key => max high (axis key)) start := by
  induction keys generalizing start with
  | nil => exact ⟨le_refl start, fun key hkey => by cases hkey⟩
  | cons first keys ih =>
    obtain ⟨hstart, hrest⟩ := ih (max start (axis first))
    rw [List.foldl_cons, List.forall_mem_cons]
    exact ⟨(le_max_left _ _).trans hstart, (le_max_right _ _).trans hstart, hrest⟩

/-- The block lies in the window. -/
structure InWindow (window : DirtyWindow) (block : Block) : Prop where
  rowStart : window.rowStart ≤ block.rows.start
  rowStop : block.rows.stop ≤ window.rowStop
  colStart : window.colStart ≤ block.cols.start
  colStop : block.cols.stop ≤ window.colStop

theorem windowOf_contains (rows cols chunkCells : Nat) {dirtyChunks : List (Nat × Nat)}
    {key : Nat × Nat} (hkey : key ∈ dirtyChunks) :
    ∃ window, windowOf rows cols chunkCells dirtyChunks = some window ∧
      InWindow window (chunkBlock rows cols chunkCells key) := by
  cases dirtyChunks with
  | nil => cases hkey
  | cons first rest =>
    refine ⟨_, rfl, ?_⟩
    have hlow : ∀ axis : Nat × Nat → Nat,
        rest.foldl (fun low key => min low (axis key)) (axis first) ≤ axis key := by
      intro axis
      obtain ⟨hfirst, hrest⟩ := foldl_min_le rest axis (axis first)
      rcases List.mem_cons.mp hkey with rfl | hmem
      · exact hfirst
      · exact hrest key hmem
    have hhigh : ∀ axis : Nat × Nat → Nat,
        axis key ≤ rest.foldl (fun high key => max high (axis key)) (axis first) := by
      intro axis
      obtain ⟨hfirst, hrest⟩ := le_foldl_max rest axis (axis first)
      rcases List.mem_cons.mp hkey with rfl | hmem
      · exact hfirst
      · exact hrest key hmem
    have hstop : ∀ (n high k : Nat), k ≤ high →
        min (k * chunkCells + chunkCells) n ≤ min n ((high + 1) * chunkCells) := by
      intro n high k hk
      have hmul : k * chunkCells + chunkCells ≤ (high + 1) * chunkCells := by
        rw [← Nat.succ_mul]
        exact Nat.mul_le_mul_right _ (Nat.succ_le_succ hk)
      omega
    exact ⟨Nat.mul_le_mul_right _ (hlow Prod.fst), hstop _ _ _ (hhigh Prod.fst),
      Nat.mul_le_mul_right _ (hlow Prod.snd), hstop _ _ _ (hhigh Prod.snd)⟩

end Dirty

/-! ## The plan -/

section Plan

variable {D : Type} [DecidableEq D] {digest : List UInt8 → D} {record : CheckpointRecord D}
  {inputs : CowInputs} {chunkCells : Nat} {plan : ChunkCowPlan} {old : ComposedScene}
  {bits : MarchBits} {oldCells : Nat} {stored : SpatialCow D}

theorem planChunkCow_inv (h : planChunkCow digest record inputs chunkCells = .ok plan)
    (happlicable : plan.applicable = true) :
    ∃ stored current first, record.spatialCow = some stored ∧
      record.thermalTensors.head? = some first ∧
      chunkSceneDigests digest inputs.scene chunkCells = .ok current ∧
      (current.rows, current.cols) = first.2.shape ∧ stored.digests.chunkCells = chunkCells ∧
      planChunks record stored.digests current chunkCells inputs.reachPixels = .ok plan := by
  have hrefused : ∀ reason, Except.ok (allDirty record chunkCells reason) =
      (Except.ok plan : Except CheckpointError ChunkCowPlan) → False := by
    intro reason heq
    rw [← Except.ok.inj heq] at happlicable
    cases happlicable
  unfold planChunkCow at h
  dsimp only at h
  split at h
  · exact (hrefused _ h).elim
  · exact (hrefused _ h).elim
  · next stored first hstored hfirst =>
    obtain ⟨current, hcurrent, h⟩ := except_bind_ok.mp h
    split at h
    · exact (hrefused _ h).elim
    · next hshape =>
      split at h
      · exact (hrefused _ h).elim
      · next hcells =>
        have hplanned : planChunks record stored.digests current chunkCells inputs.reachPixels =
            .ok plan := by
          split at h
          · exact (hrefused _ h).elim
          split at h
          · exact (hrefused _ h).elim
          split at h
          · exact (hrefused _ h).elim
          split at h
          · exact (hrefused _ h).elim
          split at h
          · exact (hrefused _ h).elim
          split at h
          · exact (hrefused _ h).elim
          exact h
        exact ⟨stored, current, first, hstored, hfirst, hcurrent, not_not.mp hshape,
          not_not.mp hcells, hplanned⟩

/-- A plan over the digests of a checkpoint and of the current scene. -/
structure Planned (digest : List UInt8 → D) (record : CheckpointRecord D) (old now : ComposedScene)
    (chunkCells reachPixels : Nat) (plan : ChunkCowPlan) : Prop where
  positive : 0 < chunkCells
  planned : ∃ stored current, Digested digest old chunkCells stored ∧
    Digested digest now chunkCells current ∧ stored.rows = current.rows ∧
    stored.cols = current.cols ∧ current.rows = now.buildingDsm.rows ∧
    current.cols = now.buildingDsm.cols ∧
    planChunks record stored current chunkCells reachPixels = .ok plan
  planes : record.thermalTensors ≠ []
  shapes : ∀ entry ∈ record.thermalTensors,
    entry.2.shape = (now.buildingDsm.rows, now.buildingDsm.cols)

theorem mem_dedup_singleton {α : Type} [DecidableEq α] {l : List α} {a b : α}
    (h : l.dedup.length ≤ 1) (hhead : l.dedup.head? = some a) (hb : b ∈ l) : b = a := by
  have hmem := List.mem_dedup.mpr hb
  cases hlist : l.dedup with
  | nil =>
    rw [hlist] at hmem
    cases hmem
  | cons first rest =>
    rw [hlist] at h hhead hmem
    have hrest : rest = [] := by
      cases rest with
      | nil => rfl
      | cons _ _ => simp at h
    subst hrest
    rw [List.mem_singleton.mp hmem]
    exact Option.some.inj hhead

theorem planChunkCow_planned (hcapture : captureSpatialCow digest old bits oldCells = .ok stored)
    (hrecord : record.spatialCow = some stored) (hvalid : validateRecord record = .ok ())
    (h : planChunkCow digest record inputs chunkCells = .ok plan)
    (happlicable : plan.applicable = true) :
    Planned digest record old inputs.scene chunkCells inputs.reachPixels plan := by
  obtain ⟨stored', current, first, hstored, hfirst, hcurrent, hshape, hcells, hplan⟩ :=
    planChunkCow_inv h happlicable
  rw [hrecord, Option.some.injEq] at hstored
  subst hstored
  unfold captureSpatialCow at hcapture
  obtain ⟨digests, hdigests, hcapture⟩ := except_bind_ok.mp hcapture
  obtain rfl := Except.ok.inj hcapture
  have hold := chunkSceneDigests_digested hdigests
  have hnow := chunkSceneDigests_digested hcurrent
  have hsame : oldCells = chunkCells := hold.cells.symm.trans hcells
  subst hsame
  unfold validateRecord at hvalid
  simp only [hrecord, except_bind_ok, refuseIf_ok] at hvalid
  obtain ⟨-, hone, hvalid⟩ := hvalid
  unfold validateSpatialCow at hvalid
  simp only [except_bind_ok, refuseIf_ok] at hvalid
  obtain ⟨-, -, -, -, -, hspatial, -⟩ := hvalid
  have hhead := not_not.mp hspatial
  have hall : ∀ entry ∈ record.thermalTensors, entry.2.shape = (digests.rows, digests.cols) :=
    fun entry hentry => mem_dedup_singleton (Nat.le_of_not_lt hone) hhead
      (List.mem_map_of_mem (f := fun entry : String × Raster => entry.2.shape) hentry)
  have hmem := List.mem_of_mem_head? hfirst
  have hgrid := hshape.trans (hall first hmem)
  obtain ⟨hrows, hcols⟩ := Prod.mk.inj hgrid
  refine ⟨hold.positive, ⟨digests, current, hold, hnow, hrows.symm, hcols.symm, hnow.rows, hnow.cols,
    hplan⟩, List.ne_nil_of_mem hmem, fun entry hentry => ?_⟩
  rw [hall entry hentry, ← hrows, ← hcols, hnow.rows, hnow.cols]

end Plan

/-! ## Clean chunks -/

section Clean

variable {D : Type} [DecidableEq D] {digest : List UInt8 → D} {old now : ComposedScene}
  {chunkCells reach : Nat} {stored current : ChunkDigests D} {key cell near : Nat × Nat}

/-- The rasters of the scene agree at a cell. -/
structure SameScene (old now : ComposedScene) (cell : Nat × Nat) : Prop where
  buildingDsm : old.buildingDsm.cell cell.1 cell.2 = now.buildingDsm.cell cell.1 cell.2
  canopy : old.canopy.cell cell.1 cell.2 = now.canopy.cell cell.1 cell.2
  dem : old.dem.cell cell.1 cell.2 = now.dem.cell cell.1 cell.2

/-- Land cover is absent in both, or has one value at the cell. -/
def SameLandcover (old now : ComposedScene) (cell : Nat × Nat) : Prop :=
  old.resolvedLandcover.map (fun raster => raster.cell cell.1 cell.2) =
    now.resolvedLandcover.map fun raster => raster.cell cell.1 cell.2

/-- The cells are at most the reach apart on each axis. -/
def withinReach (reach : Nat) (a b : Nat × Nat) : Prop :=
  a.1 ≤ b.1 + reach ∧ b.1 ≤ a.1 + reach ∧ a.2 ≤ b.2 + reach ∧ b.2 ≤ a.2 + reach

theorem dirty_of_changed (hnow : Digested digest now chunkCells current)
    (hcell : cell.1 < current.rows ∧ cell.2 < current.cols)
    (hnear : near.1 < current.rows ∧ near.2 < current.cols) (hreach : withinReach reach cell near)
    (hchanged : sceneChanged stored current (chunkOf chunkCells near) = true) :
    dirtyMask stored current (chunkKeys current.rows current.cols chunkCells)
      (reach / chunkCells + 1) (chunkOf chunkCells cell) = true := by
  have hcells := hnow.positive
  obtain ⟨hrow, hrow', hcol, hcol'⟩ := hreach
  rw [dirtyMask_iff]
  refine Or.inr ⟨chunkOf chunkCells near, chunkOf_mem hcells hnear.1 hnear.2, hchanged, ?_⟩
  have hgrid := mem_chunkKeys.mp (chunkOf_mem hcells hcell.1 hcell.2)
  rw [← hnow.chunkRows, ← hnow.chunkCols] at hgrid
  have hup := div_le_of_near hcells hrow
  have hdown := div_le_of_near hcells hrow'
  have hright := div_le_of_near hcells hcol
  have hleft := div_le_of_near hcells hcol'
  simp only [chunkOf] at hgrid
  unfold nearChanged chunkOf
  dsimp only
  generalize cell.1 / chunkCells = row at *
  generalize cell.2 / chunkCells = col at *
  generalize near.1 / chunkCells = nearRow at *
  generalize near.2 / chunkCells = nearCol at *
  generalize reach / chunkCells = dilation at *
  omega

theorem clean_unchanged (hdigest : Function.Injective digest)
    (hold : Digested digest old chunkCells stored) (hnow : Digested digest now chunkCells current)
    (hrows : stored.rows = current.rows) (hcols : stored.cols = current.cols)
    (hclean : dirtyMask stored current (chunkKeys current.rows current.cols chunkCells)
      (reach / chunkCells + 1) key = false)
    (hcell : (chunkBlock current.rows current.cols chunkCells key).holds cell) :
    SameLandcover old now cell ∧ ∀ near, near.1 < current.rows → near.2 < current.cols →
      withinReach reach cell near → SameScene old now near := by
  have hcells := hnow.positive
  obtain ⟨hrow, hcol, hkey⟩ := (chunkBlock_holds hcells).mp hcell
  have hscene : ∀ near, near.1 < current.rows → near.2 < current.cols →
      withinReach reach cell near →
        sceneChanged stored current (chunkOf chunkCells near) = false := by
    intro near hnearRow hnearCol hreach
    apply Bool.eq_false_iff.mpr
    intro hchanged
    have hdirty := dirty_of_changed hnow ⟨hrow, hcol⟩ ⟨hnearRow, hnearCol⟩ hreach hchanged
    rw [hkey, hclean] at hdirty
    cases hdirty
  constructor
  · have hself := hscene cell hrow hcol ⟨by omega, by omega, by omega, by omega⟩
    rw [hkey] at hself
    have hlandcover : ¬ landcoverChanged stored current key = true := fun hchanged => by
      rw [(dirtyMask_iff _ _ _).mpr (Or.inl hchanged)] at hclean
      cases hclean
    have hmem := hkey ▸ chunkOf_mem hcells hrow hcol
    unfold landcoverChanged at hlandcover
    rw [decide_eq_true_eq, hself] at hlandcover
    have hsame := not_not.mp fun hne => hlandcover ⟨Bool.false_ne_true, hne⟩
    rw [hold.landcover key (by rwa [hrows, hcols]), hnow.landcover key hmem, hrows, hcols] at hsame
    unfold SameLandcover
    cases hbefore : old.resolvedLandcover with
    | none =>
      cases hafter : now.resolvedLandcover with
      | none => rfl
      | some after =>
        rw [hbefore, hafter] at hsame
        cases hsame
    | some before =>
      cases hafter : now.resolvedLandcover with
      | none =>
        rw [hbefore, hafter] at hsame
        cases hsame
      | some after =>
        rw [hbefore, hafter, Option.map_some, Option.map_some, Option.some.injEq] at hsame
        rw [Option.map_some, Option.map_some, sliceBytes_inj (hdigest hsame) hcell]
  · intro near hnearRow hnearCol hreach
    have hunchanged := hscene near hnearRow hnearCol hreach
    have hmem := chunkOf_mem hcells hnearRow hnearCol
    unfold sceneChanged at hunchanged
    rw [decide_eq_false_iff_not, not_not, hold.scene _ (by rwa [hrows, hcols]), hnow.scene _ hmem,
      Option.some.injEq, hrows, hcols] at hunchanged
    obtain ⟨hbuilding, hcanopy, hdem⟩ := sceneDigest_inj hdigest hunchanged
      ((chunkBlock_holds hcells).mpr ⟨hnearRow, hnearCol, rfl⟩)
    exact ⟨hbuilding, hcanopy, hdem⟩

end Clean

/-! ## Composition -/

section Compose

variable {plan : ChunkCowPlan} {rows cols : Nat} (source : Raster)
  {replay : Option (Dict String Raster)} {name : String}

/-- The replay has the plane of each name, of the extent of the dirty window. -/
structure ReplayFits (plan : ChunkCowPlan) (names : List String)
    (replay : Option (Dict String Raster)) : Prop where
  given : plan.dirtyChunks ≠ [] → replay.isSome
  window : replay.isSome → plan.dirtyWindow.isSome
  extent : ∀ planes window, replay = some planes → plan.dirtyWindow = some window →
    ∀ name ∈ names, ∃ plane, planes[name]? = some plane ∧
      plane.shape = (window.rowStop - window.rowStart, window.colStop - window.colStart)

/-- Where a cell of a composed plane comes from. -/
def expectedCell (plan : ChunkCowPlan) (source : Raster) (replay : Option (Dict String Raster))
    (name : String) (cell : Nat × Nat) : Option F32 :=
  if plan.clean (chunkOf plan.chunkCells cell) then some (source.cell cell.1 cell.2)
  else plan.dirtyWindow.bind fun window => (replay.bind fun planes => planes[name]?).map fun plane =>
    plane.cell (cell.1 - window.rowStart) (cell.2 - window.colStart)

theorem composeChunk_writes {key : Nat × Nat} {names : List String}
    (hcells : 0 < plan.chunkCells) (hfits : ReplayFits plan names replay) (hname : name ∈ names)
    (hdirty : plan.clean key = false → key ∈ plan.dirtyChunks ∧
      ∃ window, plan.dirtyWindow = some window ∧
        InWindow window (chunkBlock rows cols plan.chunkCells key)) (plane : ComposedPlane) :
    ∃ values, composeChunk plan rows cols source (replay.bind fun planes => planes[name]?) plane key =
        .ok (plane.write (chunkBlock rows cols plan.chunkCells key) values) ∧
      ∀ cell, (chunkBlock rows cols plan.chunkCells key).holds cell →
        expectedCell plan source replay name cell = some (values cell.1 cell.2) := by
  have hkey : ∀ cell, (chunkBlock rows cols plan.chunkCells key).holds cell →
      chunkOf plan.chunkCells cell = key := fun cell hcell => ((chunkBlock_holds hcells).mp hcell).2.2
  unfold composeChunk
  cases hclean : plan.clean key with
  | true =>
    refine ⟨source.cell, by simp, fun cell hcell => ?_⟩
    unfold expectedCell
    rw [hkey cell hcell, hclean, if_pos rfl]
  | false =>
    obtain ⟨hmem, window, hwindow, hin⟩ := hdirty hclean
    obtain ⟨planes, hplanes⟩ := Option.isSome_iff_exists.mp (hfits.given (List.ne_nil_of_mem hmem))
    obtain ⟨given, hgiven, hshape⟩ := hfits.extent planes window hplanes hwindow name hname
    obtain ⟨hrows, hcols⟩ := Prod.mk.inj hshape
    have hbind : (replay.bind fun planes => planes[name]?) = some given := by
      rw [hplanes, Option.bind_some, hgiven]
    refine ⟨fun row col => given.cell (row - window.rowStart) (col - window.colStart), ?_,
      fun cell hcell => ?_⟩
    · have hfit : inReplay window given (chunkBlock rows cols plan.chunkCells key) := by
        have h1 := hin.rowStart
        have h2 := hin.rowStop
        have h3 := hin.colStart
        have h4 := hin.colStop
        unfold inReplay
        omega
      simp only [hwindow, hbind, Bool.false_eq_true, if_false, if_pos hfit]
    · unfold expectedCell
      rw [hkey cell hcell, hclean, hwindow, hbind]
      rfl

theorem composeChunks_writes {keys : List (Nat × Nat)} {names : List String}
    (hcells : 0 < plan.chunkCells) (hfits : ReplayFits plan names replay) (hname : name ∈ names)
    (hnodup : keys.Nodup)
    (hdirty : ∀ key ∈ keys, plan.clean key = false → key ∈ plan.dirtyChunks ∧
      ∃ window, plan.dirtyWindow = some window ∧
        InWindow window (chunkBlock rows cols plan.chunkCells key)) (plane : ComposedPlane) :
    ∃ composed, keys.foldlM
        (composeChunk plan rows cols source (replay.bind fun planes => planes[name]?)) plane =
          .ok composed ∧
      ∀ cell, cell.1 < rows → cell.2 < cols →
        if chunkOf plan.chunkCells cell ∈ keys then
          composed.writes cell.1 cell.2 = plane.writes cell.1 cell.2 + 1 ∧
            composed.cell cell.1 cell.2 = expectedCell plan source replay name cell
        else composed.writes cell.1 cell.2 = plane.writes cell.1 cell.2 ∧
          composed.cell cell.1 cell.2 = plane.cell cell.1 cell.2 := by
  induction keys generalizing plane with
  | nil => exact ⟨plane, rfl, fun cell _ _ => by simp⟩
  | cons key keys ih =>
    rw [List.nodup_cons] at hnodup
    rw [List.forall_mem_cons] at hdirty
    obtain ⟨values, hwrite, hvalues⟩ := composeChunk_writes source hcells hfits hname hdirty.1 plane
    obtain ⟨composed, hcomposed, hrest⟩ := ih hnodup.2 hdirty.2
      (plane.write (chunkBlock rows cols plan.chunkCells key) values)
    refine ⟨composed, foldlM_cons_ok.mpr ⟨_, hwrite, hcomposed⟩, fun cell hrow hcol => ?_⟩
    have hcell := hrest cell hrow hcol
    have hholds : (chunkBlock rows cols plan.chunkCells key).holds cell ↔
        cell.1 < rows ∧ cell.2 < cols ∧ chunkOf plan.chunkCells cell = key :=
      chunkBlock_holds hcells
    by_cases hkey : chunkOf plan.chunkCells cell = key
    · have hin : (chunkBlock rows cols plan.chunkCells key).holds cell :=
        hholds.mpr ⟨hrow, hcol, hkey⟩
      rw [hkey, if_neg hnodup.1] at hcell
      rw [hkey, if_pos List.mem_cons_self, hcell.1, hcell.2, hvalues cell hin]
      simp [ComposedPlane.write, hin]
    · have hout : ¬ (chunkBlock rows cols plan.chunkCells key).holds cell :=
        fun hin => hkey (hholds.mp hin).2.2
      simpa [ComposedPlane.write, hout, hkey] using hcell

end Compose

/-! ## The warm start -/

section WarmStart

variable {D : Type} {record : CheckpointRecord D} {old now : ComposedScene} {chunkCells reach : Nat}
  {plan : ChunkCowPlan}

/-- The cells of a raster. -/
def rasterCells (raster : Raster) : Finset (Nat × Nat) :=
  Finset.range raster.rows ×ˢ Finset.range raster.cols

/-- Each cell of the composed plane is written once: from the checkpoint in a clean chunk, from the
replay at the offset of the window in a dirty one. -/
def ComposedFrom (plan : ChunkCowPlan) (replay : Option (Dict String Raster)) (name : String)
    (source : Raster) (composed : ComposedPlane) : Prop :=
  ∀ row < source.rows, ∀ col < source.cols, composed.writes row col = 1 ∧
    (plan.clean (chunkOf plan.chunkCells (row, col)) = true →
      composed.cell row col = some (source.cell row col)) ∧
    (plan.clean (chunkOf plan.chunkCells (row, col)) = false →
      ∃ window planes plane, plan.dirtyWindow = some window ∧ replay = some planes ∧
        planes[name]? = some plane ∧ window.rowStart ≤ row ∧ row - window.rowStart < plane.rows ∧
        window.colStart ≤ col ∧ col - window.colStart < plane.cols ∧
        composed.cell row col = some (plane.cell (row - window.rowStart) (col - window.colStart)))

/-- What an applicable plan promises. -/
structure WarmStartSound (record : CheckpointRecord D) (old now : ComposedScene) (reach : Nat)
    (plan : ChunkCowPlan) : Prop where
  clean : ∀ key, plan.clean key = true → ∀ cell ∈ rasterCells now.buildingDsm,
    chunkOf plan.chunkCells cell = key → SameLandcover old now cell ∧
      ∀ near ∈ rasterCells now.buildingDsm, withinReach reach cell near → SameScene old now near
  dirty : ∀ key ∈ chunkKeys now.buildingDsm.rows now.buildingDsm.cols plan.chunkCells,
    plan.clean key = false → key ∈ plan.dirtyChunks ∧ ∃ window, plan.dirtyWindow = some window ∧
      InWindow window (chunkBlock now.buildingDsm.rows now.buildingDsm.cols plan.chunkCells key)
  chunks : plan.chunksCowReused + plan.chunksReplayed = plan.chunksTotal ∧
    plan.chunksTotal =
      (chunkKeys now.buildingDsm.rows now.buildingDsm.cols plan.chunkCells).length ∧
    plan.chunksReplayed = (chunkKeys now.buildingDsm.rows now.buildingDsm.cols
      plan.chunkCells).countP fun key => !plan.clean key
  cells : plan.cellsTotal = (rasterCells now.buildingDsm).card ∧
    plan.cellsReplayed = ((rasterCells now.buildingDsm).filter fun cell =>
      !plan.clean (chunkOf plan.chunkCells cell)).card ∧
    plan.planeBytesCowReused = ((rasterCells now.buildingDsm).filter fun cell =>
      plan.clean (chunkOf plan.chunkCells cell)).card * 4 * record.thermalTensors.length
  compose : ∀ replay scalars, ReplayFits plan (record.thermalTensors.map Prod.fst) replay →
    checkScalars record.thermalScalars scalars = .ok () →
      ∃ planes, composeChunkCowState record plan replay scalars =
          .ok (planes, record.thermalScalars) ∧
        planes.map Prod.fst = (record.thermalTensors.insertionSort fun a b => a.1 ≤ b.1).map Prod.fst ∧
        ∀ entry ∈ record.thermalTensors, ∃ composed, (entry.1, composed) ∈ planes ∧
          ComposedFrom plan replay entry.1 entry.2 composed

theorem checkReplay_ok {names : List String} {replay : Option (Dict String Raster)}
    (h : ReplayFits plan names replay) : checkReplay plan names replay = .ok () := by
  unfold checkReplay
  cases hreplay : replay with
  | none => rfl
  | some planes =>
    obtain ⟨window, hwindow⟩ := Option.isSome_iff_exists.mp (h.window (by rw [hreplay]; rfl))
    simp only [hwindow]
    rw [forM_ok]
    intro name hname
    obtain ⟨plane, hplane, hshape⟩ := h.extent planes window hreplay hwindow name hname
    simp only [hplane]
    rw [refuseIf_ok]
    exact not_not.mpr hshape

theorem composePlane_ok {rows cols : Nat} {names : List String}
    {replay : Option (Dict String Raster)} {entry : String × Raster}
    (hcells : 0 < plan.chunkCells) (hfits : ReplayFits plan names replay) (hname : entry.1 ∈ names)
    (hshape : entry.2.shape = (rows, cols))
    (hdirty : ∀ key ∈ chunkKeys rows cols plan.chunkCells, plan.clean key = false →
      key ∈ plan.dirtyChunks ∧ ∃ window, plan.dirtyWindow = some window ∧
        InWindow window (chunkBlock rows cols plan.chunkCells key)) :
    ∃ composed, composePlane plan rows cols replay entry = .ok (entry.1, composed) ∧
      ComposedFrom plan replay entry.1 entry.2 composed := by
  obtain ⟨composed, hcomposed, hwritten⟩ := composeChunks_writes entry.2 hcells hfits hname
    (chunkKeys_nodup rows cols plan.chunkCells) hdirty .empty
  refine ⟨composed, ?_, fun row hrow col hcol => ?_⟩
  · unfold composePlane
    rw [except_bind_ok]
    refine ⟨(), refuseIf_ok.mpr (not_not.mpr hshape), ?_⟩
    rw [except_bind_ok]
    exact ⟨composed, hcomposed, rfl⟩
  · obtain ⟨hrows, hcols⟩ := Prod.mk.inj hshape
    rw [hrows] at hrow
    rw [hcols] at hcol
    have hmem : chunkOf plan.chunkCells (row, col) ∈ chunkKeys rows cols plan.chunkCells :=
      chunkOf_mem hcells hrow hcol
    have hcell := hwritten (row, col) hrow hcol
    rw [if_pos hmem] at hcell
    refine ⟨hcell.1, fun hclean => ?_, fun hclean => ?_⟩
    · rw [hcell.2, expectedCell, if_pos hclean]
    · obtain ⟨hin, window, hwindow, hblock⟩ := hdirty _ hmem hclean
      obtain ⟨planes, hplanes⟩ := Option.isSome_iff_exists.mp (hfits.given (List.ne_nil_of_mem hin))
      obtain ⟨plane, hplane, hextent⟩ := hfits.extent planes window hplanes hwindow entry.1 hname
      obtain ⟨hplaneRows, hplaneCols⟩ := Prod.mk.inj hextent
      have hholds : (chunkBlock rows cols plan.chunkCells
          (chunkOf plan.chunkCells (row, col))).holds (row, col) :=
        (chunkBlock_holds hcells).mpr ⟨hrow, hcol, rfl⟩
      obtain ⟨⟨hrowStart, hrowStop⟩, hcolStart, hcolStop⟩ := hholds
      have h1 := hblock.rowStart
      have h2 := hblock.rowStop
      have h3 := hblock.colStart
      have h4 := hblock.colStop
      dsimp only at hrowStart hrowStop hcolStart hcolStop
      refine ⟨window, planes, plane, hwindow, hplanes, hplane, by omega, by omega, by omega,
        by omega, ?_⟩
      rw [hcell.2, expectedCell, hclean, hwindow, hplanes]
      simp [hplane]

/-- The plan that a mask of dirty chunks makes. -/
structure MadeFrom (mask : Nat × Nat → Bool) (rows cols size planes : Nat)
    (plan : ChunkCowPlan) : Prop where
  applicable : plan.applicable = true
  chunkCells : plan.chunkCells = size
  clean : ∀ key, plan.clean key = !mask key
  dirtyChunks : plan.dirtyChunks = (chunkKeys rows cols size).filter mask
  dirtyWindow : plan.dirtyWindow = windowOf rows cols size plan.dirtyChunks
  chunksTotal : plan.chunksTotal = chunkCount rows size * chunkCount cols size
  chunksCowReused : plan.chunksCowReused =
    ((chunkKeys rows cols size).filter fun key => !mask key).length
  chunksReplayed : plan.chunksReplayed = ((chunkKeys rows cols size).filter mask).length
  cellsTotal : plan.cellsTotal = rows * cols
  cellsReplayed : plan.cellsReplayed = (((chunkKeys rows cols size).filter mask).map fun key =>
    (chunkBlock rows cols size key).area).sum
  planeBytes : plan.planeBytesCowReused = (plan.cellsTotal - plan.cellsReplayed) * 4 * planes

theorem compose_ok {rows cols : Nat} {replay : Option (Dict String Raster)}
    {scalars : Option (Dict String Rat)} (happlicable : plan.applicable = true)
    (hcells : 0 < plan.chunkCells) (hplanes : record.thermalTensors ≠ [])
    (hshapes : ∀ entry ∈ record.thermalTensors, entry.2.shape = (rows, cols))
    (hdirty : ∀ key ∈ chunkKeys rows cols plan.chunkCells, plan.clean key = false →
      key ∈ plan.dirtyChunks ∧ ∃ window, plan.dirtyWindow = some window ∧
        InWindow window (chunkBlock rows cols plan.chunkCells key))
    (hfits : ReplayFits plan (record.thermalTensors.map Prod.fst) replay)
    (hscalars : checkScalars record.thermalScalars scalars = .ok ()) :
    ∃ planes, composeChunkCowState record plan replay scalars = .ok (planes, record.thermalScalars) ∧
      planes.map Prod.fst = (record.thermalTensors.insertionSort fun a b => a.1 ≤ b.1).map Prod.fst ∧
      ∀ entry ∈ record.thermalTensors, ∃ composed, (entry.1, composed) ∈ planes ∧
        ComposedFrom plan replay entry.1 entry.2 composed := by
  have hperm := List.perm_insertionSort (fun a b : String × Raster => a.1 ≤ b.1)
    record.thermalTensors
  generalize htensors : (record.thermalTensors.insertionSort fun a b => a.1 ≤ b.1) = tensors at hperm ⊢
  have hsorted : ReplayFits plan (tensors.map Prod.fst) replay :=
    ⟨hfits.given, hfits.window, fun planes window hplanes hwindow name hname =>
      hfits.extent planes window hplanes hwindow name ((hperm.map _).mem_iff.mp hname)⟩
  have hone : ∀ entry ∈ tensors, ∃ named, composePlane plan rows cols replay entry = .ok named ∧
      named.1 = entry.1 := by
    intro entry hentry
    obtain ⟨composed, hcomposed, -⟩ := composePlane_ok hcells hsorted (List.mem_map_of_mem hentry)
      (hshapes entry (hperm.mem_iff.mp hentry)) hdirty
    exact ⟨_, hcomposed, rfl⟩
  obtain ⟨planes, hmap, hnames⟩ := mapM_ok_map hone
  refine ⟨planes, ?_, hnames, fun entry hentry => ?_⟩
  · unfold composeChunkCowState
    rw [except_bind_ok]
    refine ⟨(), refuseIf_ok.mpr (by simp [happlicable]), ?_⟩
    dsimp only
    rw [htensors]
    cases hhead : tensors.head? with
    | none =>
      rw [List.head?_eq_none_iff] at hhead
      rw [hhead] at hperm
      exact absurd hperm.symm.eq_nil hplanes
    | some first =>
      have hfirst := hperm.mem_iff.mp (List.mem_of_mem_head? hhead)
      obtain ⟨hrows, hcols⟩ := Prod.mk.inj (hshapes first hfirst)
      have hgiven : ¬ (plan.dirtyChunks ≠ [] ∧ replay.isNone) := by
        rintro ⟨hne, hnone⟩
        rw [Option.isNone_iff_eq_none] at hnone
        have hsome := hfits.given hne
        rw [hnone] at hsome
        cases hsome
      dsimp only
      rw [hrows, hcols]
      refine except_bind_ok.mpr ⟨(), refuseIf_ok.mpr hgiven, ?_⟩
      refine except_bind_ok.mpr ⟨(), checkReplay_ok hsorted, ?_⟩
      refine except_bind_ok.mpr ⟨planes, hmap, ?_⟩
      exact except_bind_ok.mpr ⟨(), hscalars, rfl⟩
  · have hmem := hperm.mem_iff.mpr hentry
    obtain ⟨composed, hcomposed, hfrom⟩ := composePlane_ok hcells hsorted (List.mem_map_of_mem hmem)
      (hshapes entry hentry) hdirty
    obtain ⟨named, hnamed, hok⟩ := mapM_ok_mem hmap hmem
    rw [hcomposed] at hok
    exact ⟨composed, Except.ok.inj hok ▸ hnamed, hfrom⟩

variable [DecidableEq D] {digest : List UInt8 → D}

theorem planChunks_madeFrom {stored current : ChunkDigests D}
    (hnow : Digested digest now chunkCells current)
    (h : planChunks record stored current chunkCells reach = .ok plan) :
    MadeFrom (dirtyMask stored current (chunkKeys current.rows current.cols chunkCells)
      (reach / chunkCells + 1)) current.rows current.cols chunkCells record.thermalTensors.length
      plan := by
  unfold planChunks at h
  obtain ⟨-, -, h⟩ := except_bind_ok.mp h
  obtain rfl := Except.ok.inj h
  exact ⟨rfl, rfl, fun _ => rfl, rfl, rfl, by rw [← hnow.chunkRows, ← hnow.chunkCols], rfl, rfl, rfl,
    rfl, rfl⟩

section MadeFrom

variable {mask : Nat × Nat → Bool} {rows cols planes : Nat}
  (h : MadeFrom mask rows cols chunkCells planes plan)

include h

theorem MadeFrom.dirty {key : Nat × Nat} (hkey : key ∈ chunkKeys rows cols chunkCells)
    (hclean : plan.clean key = false) : key ∈ plan.dirtyChunks ∧ ∃ window,
      plan.dirtyWindow = some window ∧ InWindow window (chunkBlock rows cols chunkCells key) := by
  rw [h.clean, Bool.not_eq_false'] at hclean
  have hmem : key ∈ plan.dirtyChunks := by
    rw [h.dirtyChunks, List.mem_filter]
    exact ⟨hkey, hclean⟩
  refine ⟨hmem, ?_⟩
  rw [h.dirtyWindow]
  exact windowOf_contains rows cols chunkCells hmem

theorem MadeFrom.chunks : plan.chunksCowReused + plan.chunksReplayed = plan.chunksTotal ∧
    plan.chunksTotal = (chunkKeys rows cols chunkCells).length ∧
    plan.chunksReplayed = (chunkKeys rows cols chunkCells).countP fun key => !plan.clean key := by
  have hsplit := List.length_eq_countP_add_countP mask (l := chunkKeys rows cols chunkCells)
  have hreplayed : plan.chunksReplayed = (chunkKeys rows cols chunkCells).countP mask := by
    rw [h.chunksReplayed, List.countP_eq_length_filter]
  have hreused : plan.chunksCowReused =
      (chunkKeys rows cols chunkCells).countP fun key => !mask key := by
    rw [h.chunksCowReused, List.countP_eq_length_filter]
  have hlength := chunkKeys_length rows cols chunkCells
  refine ⟨?_, by rw [h.chunksTotal, hlength], ?_⟩
  · simp only [Bool.not_eq_true, Bool.decide_eq_false] at hsplit
    rw [hreused, hreplayed, h.chunksTotal, ← hlength, hsplit, Nat.add_comm]
  · rw [hreplayed]
    congr 1
    funext key
    rw [h.clean, Bool.not_not]

theorem MadeFrom.cells (hcells : 0 < chunkCells) :
    plan.cellsTotal = (Finset.range rows ×ˢ Finset.range cols).card ∧
    plan.cellsReplayed = ((Finset.range rows ×ˢ Finset.range cols).filter fun cell =>
      !plan.clean (chunkOf chunkCells cell)).card ∧
    plan.planeBytesCowReused = ((Finset.range rows ×ˢ Finset.range cols).filter fun cell =>
      plan.clean (chunkOf chunkCells cell)).card * 4 * planes := by
  have htotal : plan.cellsTotal = (Finset.range rows ×ˢ Finset.range cols).card := by
    rw [h.cellsTotal, Finset.card_product, Finset.card_range, Finset.card_range]
  have hreplayed : plan.cellsReplayed = ((Finset.range rows ×ˢ Finset.range cols).filter fun cell =>
      !plan.clean (chunkOf chunkCells cell)).card := by
    rw [h.cellsReplayed, sum_area hcells]
    simp only [h.clean, Bool.not_not]
  refine ⟨htotal, hreplayed, ?_⟩
  have hsplit := Finset.card_filter_add_card_filter_not (s := Finset.range rows ×ˢ Finset.range cols)
    (fun cell => plan.clean (chunkOf chunkCells cell) = true)
  rw [h.planeBytes, hreplayed, htotal, ← hsplit]
  simp

end MadeFrom

/-- An applicable plan over a stored checkpoint reuses only what the scene has not touched, and the
planes compose of it and of the replay. -/
theorem chunk_cow_warm_start_sound {inputs : CowInputs} {bits : MarchBits} {oldCells : Nat}
    {stored : SpatialCow D} (hdigest : Function.Injective digest)
    (hcapture : captureSpatialCow digest old bits oldCells = .ok stored)
    (hrecord : record.spatialCow = some stored) (hvalid : validateRecord record = .ok ())
    (hplan : planChunkCow digest record inputs chunkCells = .ok plan)
    (happlicable : plan.applicable = true) :
    WarmStartSound record old inputs.scene inputs.reachPixels plan := by
  obtain ⟨hcells, ⟨stored, current, hold, hnow, hrows, hcols, hrow, hcol, hchunks⟩, hplanes,
    hshapes⟩ := planChunkCow_planned hcapture hrecord hvalid hplan happlicable
  have hmade := planChunks_madeFrom hnow hchunks
  have hcell := hmade.chunkCells
  have hdirty : ∀ key ∈ chunkKeys inputs.scene.buildingDsm.rows inputs.scene.buildingDsm.cols
      plan.chunkCells, plan.clean key = false → key ∈ plan.dirtyChunks ∧ ∃ window,
        plan.dirtyWindow = some window ∧ InWindow window (chunkBlock inputs.scene.buildingDsm.rows
          inputs.scene.buildingDsm.cols plan.chunkCells key) := by
    rw [← hrow, ← hcol, hcell]
    exact fun key hkey hclean => hmade.dirty hkey hclean
  refine ⟨fun key hclean cell hin hof => ?_, hdirty, ?_, ?_, fun replay scalars hfits hscalars => ?_⟩
  · rw [rasterCells, Finset.mem_product, Finset.mem_range, Finset.mem_range, ← hrow, ← hcol] at hin
    rw [hcell] at hof
    rw [hmade.clean, Bool.not_eq_true'] at hclean
    obtain ⟨hlandcover, hscene⟩ := clean_unchanged hdigest hold hnow hrows hcols hclean
      ((chunkBlock_holds hcells).mpr ⟨hin.1, hin.2, hof⟩)
    refine ⟨hlandcover, fun near hnear hreach => ?_⟩
    rw [rasterCells, Finset.mem_product, Finset.mem_range, Finset.mem_range, ← hrow, ← hcol] at hnear
    exact hscene near hnear.1 hnear.2 hreach
  · rw [← hrow, ← hcol, hcell]
    exact hmade.chunks
  · unfold rasterCells
    rw [← hrow, ← hcol, hcell]
    exact hmade.cells hcells
  · exact compose_ok hmade.applicable (hcell ▸ hcells) hplanes hshapes hdirty hfits hscalars

end WarmStart

/-- A raster of one value but for its first cell. -/
def cornerRaster (rows cols : Nat) (corner : UInt8) : Raster :=
  ⟨rows, cols, fun row col => if row = 0 ∧ col = 0 then ⟨0, 0, 0, corner⟩ else ⟨0, 0, 0, 64⟩⟩

def cornerScene (corner : UInt8) : ComposedScene :=
  ⟨cornerRaster 3 5 corner, cornerRaster 3 5 0, cornerRaster 3 5 0, none⟩

def zeroBits : MarchBits := ⟨⟨0, 0, 0, 0⟩, ⟨0, 0, 0, 0⟩, ⟨0, 0, 0, 0⟩⟩

def cornerInputs : CowInputs := ⟨cornerScene 7, [], [], zeroBits, 0⟩

def cornerRecord (stored : SpatialCow (List UInt8)) : CheckpointRecord (List UInt8) where
  thermalTensors := [("Tgmap1", cornerRaster 3 5 1)]
  thermalScalars := []
  inputFingerprint := some (Dict.ofEntries [("model_parameters", []), ("met_prefix", [])])
  spatialCow := some stored

/-- One cell of a scene of six chunks moved: the chunks of the last column stay clean. -/
theorem corner_warm_start_sound : ∃ stored plan,
    captureSpatialCow id (cornerScene 0) zeroBits 2 = .ok stored ∧
      planChunkCow id (cornerRecord stored) cornerInputs 2 = .ok plan ∧ plan.applicable = true ∧
      plan.chunksCowReused = 2 ∧
      WarmStartSound (cornerRecord stored) (cornerScene 0) (cornerScene 7) 0 plan := by
  obtain ⟨stored, hstored⟩ := except_of_isOk
    (x := captureSpatialCow id (cornerScene 0) zeroBits 2) (by decide)
  have hchecked : ((captureSpatialCow id (cornerScene 0) zeroBits 2).bind fun stored =>
      (validateRecord (cornerRecord stored)).bind fun _ =>
        (planChunkCow id (cornerRecord stored) cornerInputs 2).map fun plan =>
          (plan.applicable, plan.chunksCowReused)).toOption = some (true, 2) := by
    decide
  rw [hstored] at hchecked
  cases hvalid : validateRecord (cornerRecord stored) with
  | error error =>
    change ((validateRecord (cornerRecord stored)).bind _).toOption = _ at hchecked
    rw [hvalid] at hchecked
    cases hchecked
  | ok _ =>
    change ((validateRecord (cornerRecord stored)).bind _).toOption = _ at hchecked
    rw [hvalid] at hchecked
    change ((planChunkCow id (cornerRecord stored) cornerInputs 2).map _).toOption = _ at hchecked
    cases hplan : planChunkCow id (cornerRecord stored) cornerInputs 2 with
    | error error =>
      rw [hplan] at hchecked
      cases hchecked
    | ok plan =>
      rw [hplan] at hchecked
      obtain ⟨happlicable, hreused⟩ := Prod.mk.inj (Option.some.inj hchecked)
      exact ⟨stored, plan, hstored, hplan, happlicable, hreused,
        chunk_cow_warm_start_sound Function.injective_id hstored rfl hvalid hplan happlicable⟩

end Solweig.Checkpoints
