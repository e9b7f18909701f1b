import Solweig.Sparse.PatchWindow

/-!
# Exactness of the march windows

The march of a patch on its own window gives each accumulate cell what the march on the whole read
window gives it, but for a negative reach, which leaves cells out, and for a first step that rises
over 1000 and goes over the edge of a window one cell thick: the narrow march stops after it, and
the vegetation that it raised never enters the sum.
-/

namespace Solweig.Sparse

open Solweig.Lib Solweig.Planner Solweig.Incremental

/-! ## A march cut short -/

section CutShort

variable {a_t trunk dz : Rat} {s : MarchState}

theorem stepOn_first_outside (a_t trunk dz : Rat) :
    (stepOn a_t trunk dz true ⟨0, 0, 0⟩ ⟨a_t, 0, 0, 0⟩).vegsh =
        (if 1000 < dz ∧ trunk > a_t then 1 else 0) ∧
      (stepOn a_t trunk dz true ⟨0, 0, 0⟩ ⟨a_t, 0, 0, 0⟩).vbsh = 0 := by
  refine ⟨?_, rfl⟩
  unfold stepOn firstVegsh
  simp only [torchMaximum_eq, sub_self, max_self, if_true, le_refl, mul_one, mul_zero]
  by_cases hdz : 1000 < dz <;> by_cases htrunk : trunk > a_t <;> simp [hdz, htrunk]

theorem Settled.finish_vbsh (h : Settled a_t s) : (finishMarch s).vbsh ≤ 1 := by
  have hsum := h.vbsh
  have hsummed := h.summed
  unfold finishMarch
  dsimp only
  rcases h.vegsh with hvegsh | hvegsh
  · rw [hvegsh]
    split_ifs <;> linarith
  · rw [hvegsh, if_pos (hsummed hvegsh)]
    norm_num

variable {short long : MarchInputs} {cellShort cellLong : Cell} {steps extra : List Step}

/-- A march that goes on with reads off the raster, past a step that reads off it too, comes out
otherwise only where the first step was the last before it and left vegetation out of the sum. -/
theorem kernel_cut_iff (ha : short.a cellShort = long.a cellLong)
    (htrunk : short.vegdsm2 cellShort = long.vegdsm2 cellLong)
    (hreads : ∀ step ∈ steps, readsAt short cellShort step = readsAt long cellLong step)
    (hextra : ∀ step ∈ extra, readsAt long cellLong step = ⟨0, 0, 0⟩)
    (hlast : extra ≠ [] → ∃ front last, steps = front ++ [last] ∧
      readsAt long cellLong last = ⟨0, 0, 0⟩) :
    svfShadowKernel false short steps cellShort =
        svfShadowKernel false long (steps ++ extra) cellLong ↔
      ¬ (extra ≠ [] ∧ ∃ first, steps = [first] ∧ 1000 < first.dz ∧
        long.a cellLong < long.vegdsm2 cellLong) := by
  have hstart : startMarch short cellShort = startMarch long cellLong := by
    unfold startMarch
    rw [ha]
  unfold svfShadowKernel
  rw [marchLoop_congr ha htrunk hreads, hstart, marchLoop_append, Nat.zero_add]
  by_cases hnil : extra = []
  · subst hnil
    simp [marchLoop]
  obtain ⟨front, last, hsteps, hzero⟩ := hlast hnil
  have hlength : steps.length ≠ 0 := by simp [hsteps]
  have hneutral : ∀ step ∈ extra, (readsAt long cellLong step).tv > long.a cellLong ↔
      (readsAt long cellLong step).tv2 > long.a cellLong := by
    intro step hstep
    rw [hextra step hstep]
  have hshades : (∃ step ∈ extra, (readsAt long cellLong step).ta > long.a cellLong) →
      (marchLoop false long cellLong 0 steps (startMarch long cellLong)).f > long.a cellLong := by
    rintro ⟨step, hstep, hta⟩
    rw [hextra step hstep] at hta
    exact marchLoop_f.mpr (Or.inr ⟨last, by simp [hsteps], by rw [hzero]; exact hta⟩)
  have hsettled (h : Settled (long.a cellLong)
      (marchLoop false long cellLong 0 steps (startMarch long cellLong))) :=
    (finishMarch_neutral hlength h hneutral).mpr hshades
  rcases front with - | ⟨first, front⟩
  · rw [List.nil_append] at hsteps
    subst hsteps
    have hone : marchLoop false long cellLong 0 [last] (startMarch long cellLong) =
        stepOn (long.a cellLong) (long.vegdsm2 cellLong) last.dz true ⟨0, 0, 0⟩
          ⟨long.a cellLong, 0, 0, 0⟩ := by
      rw [← hzero]
      rfl
    obtain ⟨hvegsh, hvbsh⟩ := stepOn_first_outside (long.a cellLong) (long.vegdsm2 cellLong) last.dz
    rw [← hone] at hvegsh hvbsh
    have hmarching : Marching (long.a cellLong)
        (marchLoop false long cellLong 0 [last] (startMarch long cellLong)) := by
      rw [marchLoop_cons]
      exact marchStep_marching startMarch_marching last
    by_cases hraised : 1000 < last.dz ∧ long.a cellLong < long.vegdsm2 cellLong
    · refine iff_of_false (fun heq => ?_) fun hnot => hnot ⟨hnil, last, rfl, hraised⟩
      rw [if_pos hraised] at hvegsh
      -- the narrow march leaves 2, and the one that goes on does not
      have htwo : (finishMarch (marchLoop false long cellLong 0 [last]
          (startMarch long cellLong))).vbsh = 2 := by
        unfold finishMarch
        rw [hvegsh, hvbsh]
        norm_num
      obtain ⟨next, rest, rfl⟩ := List.exists_cons_of_ne_nil hnil
      have hnext : Settled (long.a cellLong) (stepOn (long.a cellLong) (long.vegdsm2 cellLong)
          next.dz false (readsAt long cellLong next)
          (marchLoop false long cellLong 0 [last] (startMarch long cellLong))) :=
        stepOn_later hmarching
      have hle := (marchLoop_settled rest (show 1 + 1 ≠ 0 by omega) hnext).finish_vbsh
      rw [heq, List.length_singleton, marchLoop_cons, marchStep_later (Nat.one_ne_zero)] at htwo
      rw [htwo] at hle
      norm_num at hle
    · refine iff_of_true (hsettled ⟨hmarching, fun _ => ?_, fun hone => ?_⟩).symm ?_
      · rw [hvegsh, if_neg hraised]
      · rw [hvegsh, if_neg hraised] at hone
        norm_num at hone
      · rintro ⟨-, first, hfirst, hdz, htrunk⟩
        rw [List.singleton_inj.mp hfirst] at hraised
        exact hraised ⟨hdz, htrunk⟩
  · refine iff_of_true (hsettled (march_settled (by simp [hsteps]))).symm ?_
    rintro ⟨-, only, honly, -⟩
    have hlen := congrArg List.length (hsteps.symm.trans honly)
    simp at hlen

end CutShort

/-! ## Planes of a window -/

section Planes

variable {scene : MarchInputs} {window march : RasterWindow} {cell : Cell}

theorem inGrid_crop : inGrid (crop scene window).rows (crop scene window).cols (cellIn window cell) ↔
    holds window cell = true := by
  rw [holds_iff]
  unfold inGrid crop cellIn windowHeight windowWidth
  dsimp only
  omega

theorem sourceOf_cellIn (step : Step) :
    sourceOf (cellIn window cell) step = cellIn window (sourceOf cell step) := by
  unfold sourceOf cellIn
  dsimp only
  congr 1 <;> omega

theorem crop_plane (window : RasterWindow) (cell : Cell) :
    ((cellIn window cell).1 + window.rowStart, (cellIn window cell).2 + window.colStart) = cell := by
  unfold cellIn
  rw [sub_add_cancel, sub_add_cancel]

theorem crop_crop (scene : MarchInputs) (march window : RasterWindow) :
    crop (crop scene window) (relativeTo march window) = crop scene march := by
  have hheight : windowHeight (relativeTo march window) = windowHeight march := by
    unfold windowHeight relativeTo
    dsimp only
    omega
  have hwidth : windowWidth (relativeTo march window) = windowWidth march := by
    unfold windowWidth relativeTo
    dsimp only
    omega
  have hrow (x : Int) : x + (march.rowStart - window.rowStart) + window.rowStart =
      x + march.rowStart := by omega
  have hcol (x : Int) : x + (march.colStart - window.colStart) + window.colStart =
      x + march.colStart := by omega
  unfold crop
  simp only [hheight, hwidth]
  simp only [relativeTo, hrow, hcol]

theorem readsAt_crop {step : Step}
    (h : holds march (sourceOf cell step) = true ↔ holds window (sourceOf cell step) = true) :
    readsAt (crop scene march) (cellIn march cell) step =
      readsAt (crop scene window) (cellIn window cell) step := by
  unfold readsAt
  simp only [sourceOf_cellIn, inGrid_crop, h]
  simp only [crop, crop_plane]

theorem readsAt_crop_outside {step : Step} (h : ¬ holds window (sourceOf cell step) = true) :
    readsAt (crop scene window) (cellIn window cell) step = ⟨0, 0, 0⟩ := by
  refine readsAt_outside fun hin => h ?_
  rwa [sourceOf_cellIn, inGrid_crop] at hin

theorem bushFree_crop (hsub : ∀ cell, holds march cell = true → holds window cell = true)
    (hfree : bushFreeMarches (crop scene window) = true) :
    bushFreeMarches (crop scene march) = true := by
  rw [bushFreeMarches_iff] at hfree ⊢
  intro cell hcell
  have hback : cellIn march (cell.1 + march.rowStart, cell.2 + march.colStart) = cell := by
    unfold cellIn
    rw [add_sub_cancel_right, add_sub_cancel_right]
  rw [← hback, inGrid_crop] at hcell
  have hzero := hfree _ (inGrid_crop.mpr (hsub _ hcell))
  unfold crop at hzero ⊢
  dsimp only at hzero ⊢
  rwa [crop_plane] at hzero

end Planes

/-! ## Reach -/

section Reach

variable {t : Trigonometry} {altitude scale amplitude : Rat} {sequence : Nat → Step}

/-- The amplitude lies no further below zero than the reach can make up for. -/
def ReachesAll (t : Trigonometry) (altitude scale amplitude : Rat) : Prop :=
  altitude < 90 → -2 * t.tan (reachAltitude altitude) < amplitude * scale

theorem reachAltitude_between (haltitude : 0 < altitude) :
    0 < reachAltitude altitude ∧ reachAltitude altitude < 90 := by
  unfold reachAltitude
  refine ⟨lt_min haltitude (by norm_num), (min_le_right _ _).trans_lt (by norm_num)⟩

theorem reach_eq (ht : t.TanRises) (haltitude : 0 < altitude) (hlow : altitude < 90) :
    patchMarchReachPixels t amplitude scale altitude =
      ⌈amplitude * scale / t.tan (reachAltitude altitude)⌉ + 1 := by
  obtain ⟨hpos, hninety⟩ := reachAltitude_between haltitude
  have htan := ht.pos _ hpos hninety
  unfold patchMarchReachPixels
  rw [if_neg (not_le.mpr hlow), if_neg (not_le.mpr haltitude)]
  dsimp only
  rw [if_neg (not_le.mpr htan)]

theorem reach_nonneg_iff (ht : t.TanRises) (haltitude : 0 < altitude) :
    0 ≤ patchMarchReachPixels t amplitude scale altitude ↔
      ReachesAll t altitude scale amplitude := by
  unfold ReachesAll
  by_cases hlow : altitude < 90
  · obtain ⟨hpos, hninety⟩ := reachAltitude_between haltitude
    have htan := ht.pos _ hpos hninety
    have hceil : 0 ≤ ⌈amplitude * scale / t.tan (reachAltitude altitude)⌉ + 1 ↔
        -2 < ⌈amplitude * scale / t.tan (reachAltitude altitude)⌉ := by omega
    rw [reach_eq ht haltitude hlow, hceil, Int.lt_ceil, lt_div_iff₀ htan]
    push_cast
    exact ⟨fun h _ => h, fun h => h hlow⟩
  · unfold patchMarchReachPixels
    rw [if_pos (not_lt.mp hlow)]
    exact iff_of_true zero_le_one fun h => absurd h hlow

theorem one_le_reach (ht : t.TanRises) (haltitude : 0 < altitude) (hscale : 0 < scale)
    (hamplitude : 0 ≤ amplitude) : 1 ≤ patchMarchReachPixels t amplitude scale altitude := by
  by_cases hlow : altitude < 90
  · obtain ⟨hpos, hninety⟩ := reachAltitude_between haltitude
    have htan := ht.pos _ hpos hninety
    have hceil : 0 ≤ ⌈amplitude * scale / t.tan (reachAltitude altitude)⌉ :=
      Int.ceil_nonneg (div_nonneg (mul_nonneg hamplitude hscale.le) htan.le)
    rw [reach_eq ht haltitude hlow]
    omega
  · unfold patchMarchReachPixels
    rw [if_pos (not_lt.mp hlow)]

theorem step_le_reach (ht : t.TanRises) (haltitude : 0 < altitude) (hscale : 0 < scale)
    (hclimbs : Climbs t altitude scale amplitude sequence) {k : Nat}
    (hk : (sequence k).dz ≤ amplitude) :
    (k : Int) + 2 ≤ patchMarchReachPixels t amplitude scale altitude := by
  have hstep := hclimbs k
  by_cases hlow : altitude < 90
  · obtain ⟨hpos, hninety⟩ := reachAltitude_between haltitude
    have htan := ht.pos _ hpos hninety
    have hle := ht.mono _ _ hpos (min_le_left _ _) hlow
    rw [if_pos hlow, div_le_iff₀ hscale] at hstep
    have hreach : ((k : Rat) + 1) ≤ amplitude * scale / t.tan (reachAltitude altitude) := by
      rw [le_div_iff₀ htan]
      calc ((k : Rat) + 1) * t.tan (reachAltitude altitude)
          ≤ (k + 1) * t.tan altitude := mul_le_mul_of_nonneg_left hle (by positivity)
        _ ≤ (sequence k).dz * scale := hstep
        _ ≤ amplitude * scale := mul_le_mul_of_nonneg_right hk hscale.le
    have hceil : ((k : Int) + 1) ≤ ⌈amplitude * scale / t.tan (reachAltitude altitude)⌉ := by
      have hcast := hreach.trans (Int.le_ceil _)
      exact_mod_cast hcast
    rw [reach_eq ht haltitude hlow]
    omega
  · rw [if_neg hlow] at hstep
    exact absurd hk (not_le.mpr hstep)

end Reach

/-! ## The march window -/

section March

/-- The march window of a direction and a reach. -/
structure IsMarchWindow (dir : Int × Int) (reach : Int) (accumulate window march : RasterWindow) :
    Prop where
  rowStart : march.rowStart = marchStart dir.1 reach accumulate.rowStart window.rowStart
  rowStop : march.rowStop = marchStop dir.1 reach accumulate.rowStop window.rowStop
  colStart : march.colStart = marchStart dir.2 reach accumulate.colStart window.colStart
  colStop : march.colStop = marchStop dir.2 reach accumulate.colStop window.colStop

/-- The accumulate window lies inside the read window. -/
structure Inside (accumulate window : RasterWindow) : Prop where
  rows : window.rowStart ≤ accumulate.rowStart ∧ accumulate.rowStop ≤ window.rowStop
  cols : window.colStart ≤ accumulate.colStart ∧ accumulate.colStop ≤ window.colStop

variable {t : Trigonometry} {scene : MarchInputs} {window accumulate march : RasterWindow}
  {azimuth altitude scale amplitude : Rat} {sequence : Nat → Step} {cell : Cell} {dir : Int × Int}
  {reach : Int}

theorem isMarchWindow_of_some
    (h : patchMarchWindow t accumulate window azimuth reach = some march) :
    IsMarchWindow (quadrantReadDirection t azimuth) reach accumulate window march := by
  unfold patchMarchWindow rasterWindow? at h
  dsimp only at h
  split at h
  · cases h
    exact ⟨rfl, rfl, rfl, rfl⟩
  · cases h

/-- The signs of a direction. -/
def IsDirection (dir : Int × Int) : Prop :=
  (dir.1 = -1 ∨ dir.1 = 0 ∨ dir.1 = 1) ∧ (dir.2 = -1 ∨ dir.2 = 0 ∨ dir.2 = 1)

theorem quadrantReadDirection_isDirection (t : Trigonometry) (azimuth : Rat) :
    IsDirection (quadrantReadDirection t azimuth) := by
  unfold IsDirection quadrantReadDirection
  dsimp only
  refine ⟨?_, trigSign_cases _⟩
  rcases trigSign_cases (t.cos (if fmod azimuth 360 < 0 then fmod azimuth 360 + 360
    else fmod azimuth 360)) with h | h | h <;> simp [h]

variable (t azimuth) in
theorem exists_marchWindow (hreach : 0 ≤ reach) (hcell : holds accumulate cell = true)
    (hinside : Inside accumulate window) :
    ∃ march, patchMarchWindow t accumulate window azimuth reach = some march := by
  obtain ⟨hdirRow, hdirCol⟩ := quadrantReadDirection_isDirection t azimuth
  obtain ⟨hrow, hrow', hcol, hcol'⟩ := holds_iff.mp hcell
  have hrows := axis_holds hdirRow ⟨hrow, hrow'⟩ hinside.rows hreach
  have hcols := axis_holds hdirCol ⟨hcol, hcol'⟩ hinside.cols hreach
  unfold patchMarchWindow rasterWindow?
  dsimp only
  rw [dif_pos (by omega)]
  exact ⟨_, rfl⟩

section Formed

variable (hm : IsMarchWindow dir reach accumulate window march) (hdir : IsDirection dir)
include hm

theorem march_inside (h : holds march cell = true) : holds window cell = true := by
  rw [holds_iff, hm.rowStart, hm.rowStop, hm.colStart, hm.colStop] at h
  rw [holds_iff]
  unfold marchStart marchStop at h
  omega

theorem stopsMarch_narrow {step : Step}
    (h : StopsMarch (windowHeight window) (windowWidth window) amplitude step) :
    StopsMarch (windowHeight march) (windowWidth march) amplitude step := by
  have hsmaller : windowHeight march ≤ windowHeight window ∧
      windowWidth march ≤ windowWidth window := by
    obtain ⟨htop, hbottom, hleft, hright⟩ := hm
    unfold marchStart at htop hleft
    unfold marchStop at hbottom hright
    unfold windowHeight windowWidth
    omega
  rcases h with h | h | h
  · exact Or.inl h
  · exact Or.inr (Or.inl (by omega))
  · exact Or.inr (Or.inr (by omega))

include hdir

theorem holds_march (hreach : 0 ≤ reach) (hinside : Inside accumulate window)
    (hcell : holds accumulate cell = true) : holds march cell = true := by
  obtain ⟨hrow, hrow', hcol, hcol'⟩ := holds_iff.mp hcell
  have hrows := axis_holds hdir.1 ⟨hrow, hrow'⟩ hinside.rows hreach
  have hcols := axis_holds hdir.2 ⟨hcol, hcol'⟩ hinside.cols hreach
  rw [holds_iff, hm.rowStart, hm.rowStop, hm.colStart, hm.colStop]
  exact ⟨hrows.1, hrows.2, hcols.1, hcols.2⟩

theorem source_inside (hmarch : MarchesToward dir sequence) (hcell : holds accumulate cell = true)
    {k : Nat} (hk : (k : Int) + 1 ≤ reach) :
    holds march (sourceOf cell (sequence k)) = true ↔
      holds window (sourceOf cell (sequence k)) = true := by
  obtain ⟨hrow, hrow', hcol, hcol'⟩ := holds_iff.mp hcell
  have hshort := hmarch.short k
  have hrows := axis_inside window.rowStart window.rowStop hdir.1 ⟨hrow, hrow'⟩
    ⟨abs_nonneg (sequence k).dx, hshort.1.trans hk⟩
  have hcols := axis_inside window.colStart window.colStop hdir.2 ⟨hcol, hcol'⟩
    ⟨abs_nonneg (sequence k).dy, hshort.2.trans hk⟩
  rw [← hmarch.rows.eq_abs hdir.1 k] at hrows
  rw [← hmarch.cols.eq_abs hdir.2 k] at hcols
  rw [holds_iff, holds_iff, hm.rowStart, hm.rowStop, hm.colStart, hm.colStop]
  simpa only [sourceOf, and_assoc] using and_congr hrows hcols

/-- Once a step within the reach is as long as the march window, it and the later ones read off
the read window. -/
theorem source_outside (hmarch : MarchesToward dir sequence) (hinside : Inside accumulate window)
    (hcell : holds accumulate cell = true) {l k : Nat} (hl : (l : Int) + 1 ≤ reach) (hlk : l ≤ k)
    (hsize : (windowHeight march : Int) ≤ |(sequence l).dx| ∨
      (windowWidth march : Int) ≤ |(sequence l).dy|) :
    ¬ holds window (sourceOf cell (sequence k)) = true := by
  obtain ⟨hrow, hrow', hcol, hcol'⟩ := holds_iff.mp hcell
  have hshort := hmarch.short l
  have hheight : march.rowStop - march.rowStart ≤ windowHeight march := Int.self_le_toNat _
  have hwidth : march.colStop - march.colStart ≤ windowWidth march := Int.self_le_toNat _
  intro hsource
  obtain ⟨hsrcRow, hsrcRow', hsrcCol, hsrcCol'⟩ := holds_iff.mp hsource
  unfold sourceOf at hsrcRow hsrcRow' hsrcCol hsrcCol'
  dsimp only at hsrcRow hsrcRow' hsrcCol hsrcCol'
  rw [hmarch.rows.eq_abs hdir.1 k] at hsrcRow hsrcRow'
  rw [hmarch.cols.eq_abs hdir.2 k] at hsrcCol hsrcCol'
  rcases hsize with hsize | hsize
  · refine axis_outside hdir.1 ⟨hrow, hrow'⟩ hinside.rows (hshort.1.trans hl)
      (hmarch.rows.abs_mono hdir.1 hlk) ?_ (abs_nonneg _) ⟨hsrcRow, hsrcRow'⟩
    rw [← hm.rowStart, ← hm.rowStop, ← hmarch.rows.eq_abs hdir.1 l]
    exact hheight.trans hsize
  · refine axis_outside hdir.2 ⟨hcol, hcol'⟩ hinside.cols (hshort.2.trans hl)
      (hmarch.cols.abs_mono hdir.2 hlk) ?_ (abs_nonneg _) ⟨hsrcCol, hsrcCol'⟩
    rw [← hm.colStart, ← hm.colStop, ← hmarch.cols.eq_abs hdir.2 l]
    exact hwidth.trans hsize

end Formed

/-- The march of the patch stops after its first step, the one on the read window does not. -/
def StopsAtFirst (window march : RasterWindow) (amplitude : Rat) (first : Step) : Prop :=
  StopsMarch (windowHeight march) (windowWidth march) amplitude first ∧
    ¬ StopsMarch (windowHeight window) (windowWidth window) amplitude first

section Steps

variable (ht : t.TanRises) (haltitude : 0 < altitude) (hscale : 0 < scale)
  (hamplitude : 0 ≤ amplitude) (hclimbs : Climbs t altitude scale amplitude sequence)
include ht haltitude hscale hamplitude hclimbs

theorem step_within_reach {rows cols k : Nat}
    (hgo : ∀ j < k, ¬ StopsMarch rows cols amplitude (sequence j)) :
    (k : Int) + 1 ≤ patchMarchReachPixels t amplitude scale altitude := by
  rcases Nat.eq_zero_or_pos k with rfl | hpos
  · simpa using one_le_reach ht haltitude hscale hamplitude
  · have hdz : (sequence (k - 1)).dz ≤ amplitude := by
      by_contra hlt
      exact hgo (k - 1) (by omega) (Or.inl (not_le.mp hlt))
    have hle := step_le_reach ht haltitude hscale hclimbs hdz
    omega

variable (hdir : IsDirection dir) (hmarch : MarchesToward dir sequence)
  (hinside : Inside accumulate window)
  (hm : IsMarchWindow dir (patchMarchReachPixels t amplitude scale altitude) accumulate window march)
  (hcell : holds accumulate cell = true)
include hdir hmarch hinside hm hcell

theorem reads_off_raster {last k : Nat} (hlast : ∀ j < last,
      ¬ StopsMarch (windowHeight march) (windowWidth march) amplitude (sequence j))
    (hstops : StopsAtFirst window march amplitude (sequence last)) (hk : last ≤ k) :
    readsAt (crop scene window) (cellIn window cell) (sequence k) = ⟨0, 0, 0⟩ := by
  obtain ⟨hstop, hgoes⟩ := hstops
  have hsize : (windowHeight march : Int) ≤ |(sequence last).dx| ∨
      (windowWidth march : Int) ≤ |(sequence last).dy| :=
    hstop.resolve_left fun hdz => hgoes (Or.inl hdz)
  have hwithin := step_within_reach ht haltitude hscale hamplitude hclimbs hlast
  exact readsAt_crop_outside (source_outside hm hdir hmarch hinside hcell hwithin hk hsize)

/-- A cell comes out otherwise only where the narrow march stops after a first step that raised
vegetation. -/
theorem gridMarch_eq_iff (hfree : bushFreeMarches (crop scene window) = true)
    (hheld : holds march cell = true) :
    gridMarch scene window amplitude sequence march cell =
        fullMarch scene window amplitude sequence cell ↔
      ¬ (StopsAtFirst window march amplitude (sequence 0) ∧ 1000 < (sequence 0).dz ∧
        scene.a cell < scene.vegdsm2 cell) := by
  have hmoves : ∀ k, |(sequence k).dx| = k + 1 ∨ |(sequence k).dy| = k + 1 := fun k =>
    hmarch.dominant.imp (fun h => (h k).1) fun h => (h k).1
  obtain ⟨narrow, hnarrow, hgrid⟩ := shadow_eq_kernel
    (bushFree_crop (fun _ => march_inside hm) hfree) (inGrid_crop.mpr hheld) hamplitude hmoves
  obtain ⟨full, hfull, hwhole⟩ := shadow_eq_kernel hfree
    (inGrid_crop.mpr (march_inside hm hheld)) hamplitude hmoves
  have happend : full = narrow ++ full.drop narrow.length :=
    hfull.append hnarrow fun _ => stopsMarch_narrow hm
  have hreads : ∀ step ∈ narrow, readsAt (crop scene march) (cellIn march cell) step =
      readsAt (crop scene window) (cellIn window cell) step := by
    obtain ⟨last, rfl, -, hgo⟩ := hnarrow
    intro step hstep
    obtain ⟨k, hk, rfl⟩ := List.mem_map.mp hstep
    rw [List.mem_range] at hk
    exact readsAt_crop (source_inside hm hdir hmarch hcell
      (step_within_reach ht haltitude hscale hamplitude hclimbs fun j hj => hgo j (by omega)))
  -- what the full march does past the end of the narrow one
  have hpast : ∀ step ∈ full.drop narrow.length,
      readsAt (crop scene window) (cellIn window cell) step = ⟨0, 0, 0⟩ ∧
        ∃ front last, narrow = front ++ [last] ∧
          readsAt (crop scene window) (cellIn window cell) last = ⟨0, 0, 0⟩ := by
    intro step hstep
    obtain ⟨last, k, hlist, hlt, rfl, hstop, hgoes⟩ := hfull.mem_drop hnarrow hstep
    have hbefore : ∀ j < last, ¬ StopsMarch (windowHeight march) (windowWidth march) amplitude
        (sequence j) := fun j => hnarrow.before hlist
    have hoff : ∀ k, last ≤ k →
        readsAt (crop scene window) (cellIn window cell) (sequence k) = ⟨0, 0, 0⟩ := fun k =>
      reads_off_raster ht haltitude hscale hamplitude hclimbs hdir hmarch hinside hm hcell hbefore
        ⟨hstop, hgoes⟩
    refine ⟨hoff k hlt.le, (List.range last).map sequence, sequence last, ?_, hoff last (le_refl _)⟩
    rw [hlist, List.range_succ, List.map_append]
    rfl
  unfold gridMarch fullMarch
  rw [crop_crop, hgrid, hwhole, happend]
  rw [kernel_cut_iff (by simp only [crop, crop_plane]) (by simp only [crop, crop_plane]) hreads
    (fun step hstep => (hpast step hstep).1)
    (fun hne => (hpast _ (List.head_mem hne)).2)]
  refine not_congr ?_
  simp only [crop, crop_plane]
  constructor
  · rintro ⟨hne, first, hfirst, hdz, htrunk⟩
    obtain ⟨rfl, hstop⟩ := hnarrow.eq_singleton_iff.mp hfirst
    refine ⟨⟨hstop, fun hstopFull => hne ?_⟩, hdz, htrunk⟩
    rw [hfull.eq_singleton_iff.mpr ⟨rfl, hstopFull⟩, hfirst]
    rfl
  · rintro ⟨⟨hstop, hgoes⟩, hdz, htrunk⟩
    have hfirst := hnarrow.eq_singleton_iff.mpr ⟨rfl, hstop⟩
    refine ⟨fun hnil => hgoes ?_, sequence 0, hfirst, hdz, htrunk⟩
    rw [hnil, List.append_nil, hfirst] at happend
    exact (hfull.eq_singleton_iff.mp happend).2

end Steps

/-- The first step raises vegetation, more than 1000 up but within the amplitude, and goes over the
edge of the read window from an accumulate window that is one cell thick there. -/
def RaisedOverEdge (scene : MarchInputs) (window accumulate : RasterWindow) (amplitude : Rat)
    (first : Step) : Prop :=
  (1000 < first.dz ∧ first.dz ≤ amplitude) ∧
  (|first.dx| < windowHeight window ∧ |first.dy| < windowWidth window) ∧
  (OnEdge first.dx accumulate.rowStart accumulate.rowStop window.rowStart window.rowStop ∨
    OnEdge first.dy accumulate.colStart accumulate.colStop window.colStart window.colStop) ∧
  ∃ cell, holds accumulate cell = true ∧ scene.a cell < scene.vegdsm2 cell

theorem stopsAtFirst_iff (hdir : IsDirection dir) (hmarch : MarchesToward dir sequence)
    (hinside : Inside accumulate window)
    (hm : IsMarchWindow dir reach accumulate window march) (hreach : 1 ≤ reach)
    (hcell : holds accumulate cell = true) :
    StopsAtFirst window march amplitude (sequence 0) ↔
      (sequence 0).dz ≤ amplitude ∧
      (|(sequence 0).dx| < windowHeight window ∧ |(sequence 0).dy| < windowWidth window) ∧
      (OnEdge (sequence 0).dx accumulate.rowStart accumulate.rowStop window.rowStart window.rowStop ∨
        OnEdge (sequence 0).dy accumulate.colStart accumulate.colStop window.colStart
          window.colStop) := by
  obtain ⟨hrow, hrow', hcol, hcol'⟩ := holds_iff.mp hcell
  have hshort : |(sequence 0).dx| ≤ 1 ∧ |(sequence 0).dy| ≤ 1 := by simpa using hmarch.short 0
  have hrows := axis_edge hdir.1 (hrow.trans_lt hrow') hinside.rows hreach
    (n := |(sequence 0).dx|) ⟨abs_nonneg _, hshort.1⟩
  have hcols := axis_edge hdir.2 (hcol.trans_lt hcol') hinside.cols hreach
    (n := |(sequence 0).dy|) ⟨abs_nonneg _, hshort.2⟩
  rw [← hmarch.rows.eq_abs hdir.1 0, ← hm.rowStart, ← hm.rowStop] at hrows
  rw [← hmarch.cols.eq_abs hdir.2 0, ← hm.colStart, ← hm.colStop] at hcols
  have hheight : (windowHeight march : Int) = march.rowStop - march.rowStart :=
    Int.toNat_of_nonneg (by have := march.rows; omega)
  have hwidth : (windowWidth march : Int) = march.colStop - march.colStart :=
    Int.toNat_of_nonneg (by have := march.cols; omega)
  unfold StopsAtFirst StopsMarch
  rw [hheight, hwidth, hrows, hcols]
  simp only [not_or, not_lt, not_le]
  constructor
  · rintro ⟨hstop, hdz, hdx, hdy⟩
    exact ⟨hdz, ⟨hdx, hdy⟩, hstop.resolve_left fun hlt => absurd hdz (not_le.mpr hlt)⟩
  · rintro ⟨hdz, ⟨hdx, hdy⟩, hedge⟩
    exact ⟨Or.inr hedge, hdz, hdx, hdy⟩

variable (window) in
theorem exists_left_out (hdir : IsDirection dir) (hmarch : MarchesToward dir sequence)
    (hreach : reach < 0) (hcell : holds accumulate cell = true) :
    ∃ cell, holds accumulate cell = true ∧ ∀ march,
      IsMarchWindow dir reach accumulate window march → ¬ holds march cell = true := by
  obtain ⟨hrow, hrow', hcol, hcol'⟩ := holds_iff.mp hcell
  rcases hmarch.dominant with h | h
  · have hmoves : dir.1 = -1 ∨ dir.1 = 1 :=
      hmarch.rows.moves hdir.1 (k := 0) (by simp [(h 0).1])
    obtain ⟨x, hx, hout⟩ := axis_short window.rowStart window.rowStop hmoves (hrow.trans_lt hrow')
      hreach
    refine ⟨(x, cell.2), holds_iff.mpr ⟨hx.1, hx.2, hcol, hcol'⟩, fun march hm hheld => hout ?_⟩
    obtain ⟨hstart, hstop, -, -⟩ := holds_iff.mp hheld
    exact ⟨hm.rowStart ▸ hstart, hm.rowStop ▸ hstop⟩
  · have hmoves : dir.2 = -1 ∨ dir.2 = 1 :=
      hmarch.cols.moves hdir.2 (k := 0) (by simp [(h 0).1])
    obtain ⟨y, hy, hout⟩ := axis_short window.colStart window.colStop hmoves (hcol.trans_lt hcol')
      hreach
    refine ⟨(cell.1, y), holds_iff.mpr ⟨hrow, hrow', hy.1, hy.2⟩, fun march hm hheld => hout ?_⟩
    obtain ⟨-, -, hstart, hstop⟩ := holds_iff.mp hheld
    exact ⟨hm.colStart ▸ hstart, hm.colStop ▸ hstop⟩

theorem patchGrid_of_bushFree (hfree : bushFreeMarches (crop scene window) = true) :
    patchGrid t scene window accumulate azimuth altitude scale amplitude =
      patchMarchWindow t accumulate window azimuth
        (patchMarchReachPixels t amplitude scale altitude) := by
  unfold patchGrid
  rw [if_pos hfree]

theorem windowExact_iff (ht : t.TanRises) (haltitude : 0 < altitude) (hscale : 0 < scale)
    (hclimbs : Climbs t altitude scale amplitude sequence)
    (hmarch : MarchesToward (quadrantReadDirection t azimuth) sequence)
    (hfree : bushFreeMarches (crop scene window) = true) (hinside : Inside accumulate window) :
    WindowExact t scene window accumulate azimuth altitude scale amplitude sequence ↔
      ((∃ cell, holds accumulate cell = true) → ReachesAll t altitude scale amplitude) ∧
        ¬ RaisedOverEdge scene window accumulate amplitude (sequence 0) := by
  have hdir := quadrantReadDirection_isDirection t azimuth
  unfold WindowExact
  rw [patchGrid_of_bushFree hfree]
  constructor
  · intro h
    refine ⟨fun ⟨cell, hcell⟩ => ?_, ?_⟩
    · rw [← reach_nonneg_iff ht haltitude]
      by_contra hneg
      obtain ⟨cell, hcell, hout⟩ := exists_left_out window hdir hmarch
        (not_le.mp hneg) hcell
      obtain ⟨march, hgrid, hheld, -⟩ := h cell hcell
      exact hout march (isMarchWindow_of_some hgrid) hheld
    · rintro ⟨⟨hdz, hle⟩, hsize, hedge, cell, hcell, htrunk⟩
      have hamplitude : 0 ≤ amplitude := by linarith
      obtain ⟨march, hgrid, hheld, heq⟩ := h cell hcell
      have hm := isMarchWindow_of_some hgrid
      refine (gridMarch_eq_iff ht haltitude hscale hamplitude hclimbs hdir hmarch hinside hm hcell
        hfree hheld).mp heq ⟨?_, hdz, htrunk⟩
      exact (stopsAtFirst_iff hdir hmarch hinside hm
        (one_le_reach ht haltitude hscale hamplitude) hcell).mpr ⟨hle, hsize, hedge⟩
  · rintro ⟨hreaches, hedge⟩ cell hcell
    have hreach := (reach_nonneg_iff ht haltitude).mpr (hreaches ⟨cell, hcell⟩)
    obtain ⟨march, hgrid⟩ := exists_marchWindow t azimuth hreach hcell hinside
    have hm := isMarchWindow_of_some hgrid
    have hheld := holds_march hm hdir hreach hinside hcell
    refine ⟨march, hgrid, hheld, ?_⟩
    rcases lt_or_ge amplitude 0 with hneg | hamplitude
    · unfold gridMarch fullMarch
      rw [crop_crop, shadow_of_neg (bushFree_crop (fun _ => march_inside hm) hfree)
        (inGrid_crop.mpr hheld) hneg,
        shadow_of_neg hfree (inGrid_crop.mpr (march_inside hm hheld)) hneg]
    · refine (gridMarch_eq_iff ht haltitude hscale hamplitude hclimbs hdir hmarch hinside hm hcell
        hfree hheld).mpr ?_
      rintro ⟨hstops, hdz, htrunk⟩
      obtain ⟨hle, hsize, honEdge⟩ := (stopsAtFirst_iff hdir hmarch hinside hm
        (one_le_reach ht haltitude hscale hamplitude) hcell).mp hstops
      exact hedge ⟨⟨hdz, hle⟩, hsize, honEdge, cell, hcell, htrunk⟩

end March

/-! ## A basin below the sea -/

/-- Linear between the angles it is right at. -/
def linear : Trigonometry := ⟨fun x => x / 90, fun x => 1 - x / 90, fun x => x / 45⟩

theorem linear_rises : linear.TanRises where
  pos altitude hpos _ := by
    unfold linear
    positivity
  mono low high _ hle _ := by
    unfold linear
    dsimp only
    gcongr

/-- To the north, with as many metres up. -/
def northward (k : Nat) : Step := ⟨-(k + 1), 0, k + 1⟩

theorem northward_climbs (amplitude : Rat) : Climbs linear 45 1 amplitude northward := by
  intro k
  rw [if_pos (by norm_num)]
  simp [linear, northward]

theorem northward_toward : MarchesToward (quadrantReadDirection linear 0) northward := by
  have hdir : quadrantReadDirection linear 0 = (-1, 0) := by decide +kernel
  rw [hdir]
  refine ⟨Or.inl fun k => ⟨?_, ?_⟩, ⟨fun k => k + 1, ?_, fun k => ?_⟩, ⟨fun k => k, ?_, fun k => ?_⟩⟩
  · show |-((k : Int) + 1)| = k + 1
    rw [abs_neg, abs_of_nonneg (by omega)]
  · show |(0 : Int)| ≤ k + 1
    rw [abs_zero]
    omega
  · exact fun k l h => Nat.succ_le_succ h
  · simp [northward]
  · exact fun k l h => h
  · simp [northward]

def site : RasterWindow := ⟨0, 3, 0, 3, Int.zero_le_ofNat _, Int.zero_le_ofNat _⟩

theorem middle_range : (1 : Int) ≤ 2 := by decide

def middle : RasterWindow := ⟨1, 2, 1, 2, middle_range, middle_range⟩

/-- Bare ground, all at one level. -/
def plain (level : Rat) : MarchInputs where
  rows := 3
  cols := 3
  a := fun _ => level
  canopy := fun _ => 0
  dem := fun _ => level
  vegdem := fun _ => level
  vegdem2 := fun _ => level
  bush := fun _ => 0
  vegdsm := fun _ => 0
  vegdsm2 := fun _ => 0
  amaxvalue := level

theorem plain_bushFree (level : Rat) : bushFreeMarches (crop (plain level) site) = true :=
  bushFreeMarches_iff.mpr fun _ _ => rfl

theorem middle_inside : Inside middle site := ⟨by decide, by decide⟩

theorem windowExact_fails : (Climbs linear 45 1 (-430) northward ∧
      MarchesToward (quadrantReadDirection linear 0) northward ∧
      bushFreeMarches (crop (plain (-430)) site) = true ∧ Inside middle site) ∧
    ¬ WindowExact linear (plain (-430)) site middle 0 45 1 (-430) northward := by
  refine ⟨⟨northward_climbs _, northward_toward, plain_bushFree _, middle_inside⟩, fun h => ?_⟩
  obtain ⟨march, hgrid, -⟩ := h (1, 1) (by decide)
  have hnone : patchGrid linear (plain (-430)) site middle 0 45 1 (-430) = none := by
    decide +kernel
  rw [hnone] at hgrid
  cases hgrid

theorem windowExact_iff_basin :
    WindowExact linear (plain (-430)) site middle 0 45 1 12 northward ↔
      ((∃ cell, holds middle cell = true) → ReachesAll linear 45 1 12) ∧
        ¬ RaisedOverEdge (plain (-430)) site middle 12 (northward 0) :=
  windowExact_iff linear_rises (by norm_num) (by norm_num) (northward_climbs 12) northward_toward
    (plain_bushFree _) middle_inside

end Solweig.Sparse
