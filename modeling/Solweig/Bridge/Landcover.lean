import Solweig.Lib.Overlay
import Solweig.Bridge.Commands
import Solweig.Realtime.FamilyView

/-!
# Land-cover paints on the exact lane

The delta of the land-cover family names the changed cells of a chunk and class one by one; the
bridge paints the window around them. The paints arrive unchanged exactly where every window
holds nothing else that stays visible.
-/

namespace Solweig.Bridge

open Solweig.Lib Solweig.Realtime

/-! ## The class of a cell -/

/-- The class of a cell in the bucket of a chunk. -/
def bucketClass (chunks : Chunks) (chunk cell : Key) : Option Int := (chunks.getD chunk ∅)[cell]?

def classOf (chunks : Chunks) (cell : Key) : Option Int := bucketClass chunks (chunkOf cell) cell

/-- The class that an operation paints a cell with. -/
def paintOf (op : Operation) (cell : Key) : Option Int :=
  if op.sourceFamily = .landcoverSurface ∧ op.verb = .paint ∧
      cell ∈ paintCells op.payload.mapping then
    paintClass op.payload.mapping
  else none

/-- The class after the paints, in the order of the log. -/
def finalClass (chunks : Chunks) (ops : List Operation) : Key → Option Int :=
  overlay (classOf chunks) ((inOrder ops).map paintOf)

theorem paintCell_bucket (op : Operation) (code : Int) (s : Chunks × Fold) (painted chunk cell : Key) :
    bucketClass (paintCell op code s painted).1 chunk cell =
      if chunkOf painted = chunk ∧ painted = cell then some code
      else bucketClass s.1 chunk cell := by
  simp only [paintCell, bucketClass]
  by_cases hchunk : chunkOf painted = chunk
  · subst hchunk
    by_cases hcell : painted = cell
    · simp [hcell]
    · simp [hcell, Dict.getElem?_insert_of_ne _ _ hcell]
  · simp [hchunk, Dict.getD_insert_of_ne _ _ _ hchunk]

theorem paintCells_bucket (op : Operation) (code : Int) (cells : List Key) (s : Chunks × Fold)
    (chunk cell : Key) :
    bucketClass (cells.foldl (paintCell op code) s).1 chunk cell =
      if chunkOf cell = chunk ∧ cell ∈ cells then some code else bucketClass s.1 chunk cell := by
  induction cells generalizing s with
  | nil => simp
  | cons painted cells ih =>
    rw [List.foldl_cons, ih, paintCell_bucket]
    by_cases hcell : painted = cell
    · subst hcell
      by_cases hchunk : chunkOf painted = chunk <;> simp [hchunk]
    · simp [hcell, Ne.symm hcell]

theorem foldPaint_bucket (chunks : Chunks) {op : Operation} (fold : Fold) (chunk cell : Key)
    (hf : op.sourceFamily = .landcoverSurface) (hv : op.verb = .paint) :
    bucketClass (foldPaint chunks op fold).1 chunk cell =
      if chunkOf cell = chunk then (paintOf op cell).or (bucketClass chunks chunk cell)
      else bucketClass chunks chunk cell := by
  unfold foldPaint paintOf
  cases hcode : paintClass op.payload.mapping with
  | none => simp
  | some code =>
    simp only [paintCells_bucket, hf, hv, true_and]
    by_cases hchunk : chunkOf cell = chunk
    · by_cases hmem : cell ∈ paintCells op.payload.mapping <;> simp [hchunk, hmem]
    · simp [hchunk]

theorem foldOperation_bucket {s t : Families × Fold} {op : Operation}
    (h : foldOperation s op = .ok t) (chunk cell : Key) :
    bucketClass t.1.chunks chunk cell =
      if chunkOf cell = chunk then (paintOf op cell).or (bucketClass s.1.chunks chunk cell)
      else bucketClass s.1.chunks chunk cell := by
  by_cases hf : op.sourceFamily = .landcoverSurface
  · rw [foldOperation_landcover hf, Except.ok.injEq] at h
    subst h
    by_cases hv : op.verb = .paint
    · rw [if_pos hv]
      exact foldPaint_bucket _ _ _ _ hf hv
    · simp [hv, paintOf]
  · rw [(landcover_other hf h).1]
    simp [paintOf, hf]

theorem foldlM_bucket {s t : Families × Fold} {ops : List Operation}
    (h : ops.foldlM foldOperation s = .ok t) (chunk cell : Key) :
    bucketClass t.1.chunks chunk cell =
      if chunkOf cell = chunk then overlay (bucketClass s.1.chunks chunk) (ops.map paintOf) cell
      else bucketClass s.1.chunks chunk cell := by
  induction ops generalizing s with
  | nil =>
    cases h
    simp [overlay]
  | cons op ops ih =>
    obtain ⟨u, hu, h⟩ := foldlM_cons_ok.mp h
    rw [ih h, List.map_cons, overlay_cons]
    by_cases hchunk : chunkOf cell = chunk
    · rw [if_pos hchunk, if_pos hchunk]
      refine overlay_congr ?_ (Eq.refl (laidOn (ops.map paintOf) cell))
      rw [foldOperation_bucket hu, if_pos hchunk]
    · rw [if_neg hchunk, if_neg hchunk, foldOperation_bucket hu, if_neg hchunk]

theorem reduceEpoch_bucket {b : CanonicalState} {ops : List Operation} {r : EpochReduction}
    (h : reduceEpoch b ops = .ok r) (chunk cell : Key) :
    bucketClass r.state.families.chunks chunk cell =
      if chunkOf cell = chunk then finalClass b.families.chunks ops cell
      else bucketClass b.families.chunks chunk cell := by
  obtain ⟨-, p, hp, rfl⟩ := reduceEpoch_ok.mp h
  refine (foldlM_bucket hp chunk cell).trans ?_
  by_cases hchunk : chunkOf cell = chunk
  · rw [if_pos hchunk, if_pos hchunk]
    exact overlay_congr (by rw [← hchunk]; rfl) rfl
  · rw [if_neg hchunk, if_neg hchunk]

theorem reduceEpoch_classOf {b : CanonicalState} {ops : List Operation} {r : EpochReduction}
    (h : reduceEpoch b ops = .ok r) (cell : Key) :
    classOf r.state.families.chunks cell = finalClass b.families.chunks ops cell := by
  rw [classOf, reduceEpoch_bucket h, if_pos rfl]

/-! ## Boxes -/

/-- The cell lies in the smallest window around the cells of `S`. -/
def InBox (S : Key → Prop) (cell : Key) : Prop :=
  (∃ a, S a ∧ a.1 ≤ cell.1) ∧ (∃ a, S a ∧ cell.1 ≤ a.1) ∧
    (∃ a, S a ∧ a.2 ≤ cell.2) ∧ ∃ a, S a ∧ cell.2 ≤ a.2

theorem InBox.of_mem {S : Key → Prop} {cell : Key} (h : S cell) : InBox S cell :=
  ⟨⟨cell, h, le_refl _⟩, ⟨cell, h, le_refl _⟩, ⟨cell, h, le_refl _⟩, ⟨cell, h, le_refl _⟩⟩

theorem InBox.chunkOf_eq {S : Key → Prop} {chunk cell : Key} (h : InBox S cell)
    (hS : ∀ a, S a → chunkOf a = chunk) : chunkOf cell = chunk := by
  obtain ⟨⟨a, ha, hla⟩, ⟨b, hb, hlb⟩, ⟨c, hc, hlc⟩, d, hd, hld⟩ := h
  have hrow (x : Key) (hx : S x) : x.1 / 64 = chunk.1 := congrArg Prod.fst (hS x hx)
  have hcol (x : Key) (hx : S x) : x.2 / 64 = chunk.2 := congrArg Prod.snd (hS x hx)
  have := hrow a ha
  have := hrow b hb
  have := hcol c hc
  have := hcol d hd
  refine Prod.ext (?_ : cell.1 / 64 = _) (?_ : cell.2 / 64 = _) <;> omega

theorem foldl_min_le {l : List Int} {m x : Int} : l.foldl min m ≤ x ↔ m ≤ x ∨ ∃ y ∈ l, y ≤ x := by
  induction l generalizing m with
  | nil => simp
  | cons y l ih => simp [ih, or_assoc]

theorem lt_foldl_max {l : List Int} {m x : Int} : x ≤ l.foldl max m ↔ x ≤ m ∨ ∃ y ∈ l, x ≤ y := by
  induction l generalizing m with
  | nil => simp
  | cons y l ih => simp [ih, or_assoc]

theorem windowAround_contains (first : Key) (rest : List Key) (cell : Key) :
    (windowAround first rest).Contains cell ↔ InBox (· ∈ first :: rest) cell := by
  simp only [Window.Contains, windowAround, InBox, Int.lt_add_one_iff, foldl_min_le, lt_foldl_max,
    List.exists_mem_cons_iff, List.mem_map, exists_exists_and_eq_and]

/-! ## What the delta names -/

/-- The cells of a chunk that the epoch changes to the class. -/
def ChangedTo (chunks : Chunks) (ops : List Operation) (chunk : Key) (code : Int) (cell : Key) :
    Prop :=
  chunkOf cell = chunk ∧ finalClass chunks ops cell = some code ∧ classOf chunks cell ≠ some code

/-! ## What the commands paint -/

/-- The paint of a command. -/
def EditCommand.layer (command : EditCommand) (cell : Key) : Option Int :=
  match command.newState with
  | some (.paint window classes) => if window.Contains cell then some classes else none
  | _ => none

/-- The land-cover map after the commands. -/
def applyCommands (m : Key → Option Int) (commands : List EditCommand) : Key → Option Int :=
  overlay m (commands.map EditCommand.layer)

/-- The paint that the bridge makes of a delta command. -/
def windowLayer : DeltaCommand → Key → Option Int
  | .paint _ (first :: rest) code, cell =>
    if (windowAround first rest).Contains cell then some code else none
  | _, _ => none

theorem windowLayer_paint {chunk : Key} {cells : List Key} {code x : Int} {cell : Key} :
    windowLayer (.paint chunk cells code) cell = some x ↔ InBox (· ∈ cells) cell ∧ x = code := by
  cases cells with
  | nil => simp [windowLayer, InBox]
  | cons first rest =>
    simp only [windowLayer, ← windowAround_contains]
    split <;> simp [*, eq_comm]

theorem landcoverDeltaCommand_layer (run : LaneRun) (position : Nat) {command : DeltaCommand}
    (h : ∃ chunk cells code, command = .paint chunk cells code ∧ cells ≠ []) :
    ∃ c, landcoverDeltaCommand run position command = .ok c ∧ c.layer = windowLayer command := by
  obtain ⟨chunk, cells, code, rfl, hne⟩ := h
  cases cells with
  | nil => exact absurd rfl hne
  | cons first rest => exact ⟨_, rfl, rfl⟩

theorem objectDeltaCommand_layer (run : LaneRun) (family : ObjectFamily) (position : Nat)
    {command : DeltaCommand} (h : ∃ operation target values old,
      command = .object operation target values old) :
    ∃ c, objectDeltaCommand run family position command = .ok c ∧ c.layer = windowLayer command := by
  obtain ⟨operation, target, values, old, rfl⟩ := h
  refine ⟨_, rfl, ?_⟩
  funext cell
  cases operation <;> rfl

theorem landcoverCommands_paint {base final : Chunks} {command : DeltaCommand}
    (h : command ∈ landcoverCommands base final) :
    ∃ chunk cells code, command = .paint chunk cells code ∧ cells ≠ [] := by
  obtain ⟨e, -, h⟩ := List.mem_flatMap.mp h
  obtain ⟨group, hgroup, rfl⟩ := List.mem_map.mp h
  refine ⟨_, _, _, rfl, ?_⟩
  obtain ⟨cell, hcell⟩ :=
    byClass_nonempty (Std.ExtTreeMap.mem_toList_iff_getElem?_eq_some.mp hgroup)
  exact List.ne_nil_of_mem hcell

theorem objectDelta_object {family : ObjectFamily} {base final : ObjectState}
    {command : DeltaCommand} (h : command ∈ (objectDelta family base final).commands) :
    ∃ operation target values old, command = .object operation target values old := by
  obtain ⟨entityId, -, h⟩ := List.mem_filterMap.mp h
  unfold objectCommand at h
  split at h
  · simp at h
  · exact ⟨_, _, _, _, (Option.some.inj h).symm⟩
  · exact ⟨_, _, _, _, (Option.some.inj h).symm⟩
  · split at h
    · simp at h
    · exact ⟨_, _, _, _, (Option.some.inj h).symm⟩

/-- The windows of a delta, as far as they reach the land cover. -/
def deltaLaid (delta : FamilyDelta) (cell : Key) : List Int :=
  laidOn (delta.commands.map windowLayer) cell

theorem deltaLaid_other {family : SourceFamily} (hf : family ≠ .landcoverSurface)
    (base final : Families) (fold : Fold) (cell : Key) :
    deltaLaid (familyDelta family base final fold) cell = [] := by
  refine List.filterMap_eq_nil_iff.mpr fun layer hlayer => ?_
  obtain ⟨command, hcommand, rfl⟩ := List.mem_map.mp hlayer
  cases family with
  | object o =>
    obtain ⟨_, _, _, _, rfl⟩ := objectDelta_object hcommand
    rfl
  | landcoverSurface => exact absurd rfl hf
  | segment g =>
    obtain ⟨e, -, rfl⟩ := List.mem_map.mp hcommand
    rfl
  | outputView =>
    simp only [familyDelta, viewDelta] at hcommand
    split at hcommand
    · rw [List.mem_singleton.mp hcommand]
      rfl
    · simp at hcommand

theorem zipIdx_mapM_layer {f : DeltaCommand × Nat → Except VersionSkew EditCommand}
    {commands : List DeltaCommand}
    (h : ∀ command ∈ commands, ∀ i, ∃ c, f (command, i) = .ok c ∧ c.layer = windowLayer command) :
    ∃ cs, commands.zipIdx.mapM f = .ok cs ∧
      cs.map EditCommand.layer = commands.map windowLayer := by
  obtain ⟨cs, hcs, hlayer⟩ := mapM_ok_map (f := f) (g := EditCommand.layer)
    (k := fun c => windowLayer c.1) (l := commands.zipIdx) fun c hc =>
      h c.1 (List.fst_mem_of_mem_zipIdx hc) c.2
  refine ⟨cs, hcs, ?_⟩
  rw [hlayer, ← Function.comp_def windowLayer, ← List.map_map, List.zipIdx_map_fst]

theorem familyDelta_noop (family : SourceFamily) (base final : Families) (fold : Fold) :
    (familyDelta family base final fold).isNoop =
      (familyDelta family base final fold).commands.isEmpty := by
  cases family with
  | object o | landcoverSurface => rfl
  | segment g => simp [familyDelta, segmentDelta]
  | outputView =>
    simp only [familyDelta, viewDelta]
    split <;> simp_all

theorem deltaCommands_laid (run : LaneRun) (family : SourceFamily) (base final : Families)
    (fold : Fold) :
    ∃ cs, deltaCommands run (familyDelta family base final fold) = .ok cs ∧
      laidOn (cs.map EditCommand.layer) = deltaLaid (familyDelta family base final fold) := by
  unfold deltaCommands
  split
  · rename_i hnoop
    rw [familyDelta_noop, List.isEmpty_iff] at hnoop
    refine ⟨[], rfl, ?_⟩
    funext cell
    rw [deltaLaid, hnoop]
    rfl
  · have hlaid : ∀ {cs : List EditCommand}, cs.map EditCommand.layer =
        (familyDelta family base final fold).commands.map windowLayer →
        laidOn (cs.map EditCommand.layer) = deltaLaid (familyDelta family base final fold) := by
      intro cs h
      rw [h]
      rfl
    have hunmapped (hf : family ≠ .landcoverSurface) :
        laidOn (([] : List EditCommand).map EditCommand.layer) =
          deltaLaid (familyDelta family base final fold) := by
      funext cell
      rw [deltaLaid_other hf]
      rfl
    rw [familyDelta_family]
    cases family with
    | object o =>
      obtain ⟨cs, hcs, h⟩ := zipIdx_mapM_layer
        (f := fun c => objectDeltaCommand run o c.2 c.1) fun command hcommand i =>
        objectDeltaCommand_layer run o i (objectDelta_object hcommand)
      exact ⟨cs, hcs, hlaid h⟩
    | landcoverSurface =>
      obtain ⟨cs, hcs, h⟩ := zipIdx_mapM_layer
        (f := fun c => landcoverDeltaCommand run c.2 c.1) fun command hcommand i =>
        landcoverDeltaCommand_layer run i (landcoverCommands_paint hcommand)
      exact ⟨cs, hcs, hlaid h⟩
    | segment g => exact ⟨[], rfl, hunmapped (by simp)⟩
    | outputView => exact ⟨[], rfl, hunmapped (by simp)⟩

theorem exactLaneCommands_laid (run : LaneRun) (b : CanonicalState) (ops : List Operation)
    (s : Families × Fold) :
    ∃ cs, exactLaneCommands run (reduction b ops s).reduced = .ok cs ∧ ∀ cell,
      laidOn (cs.map EditCommand.layer) cell =
        if ∃ op ∈ ops, op.sourceFamily = .landcoverSurface then
          laidOn ((landcoverCommands b.families.chunks s.1.chunks).map windowLayer) cell
        else [] := by
  let present := SourceFamily.all.filter fun f => ops.any (·.sourceFamily = f)
  let delta (family : SourceFamily) := familyDelta family b.families s.1 s.2
  obtain ⟨css, hcss, hlaid⟩ := mapM_ok_map (f := deltaCommands run) (l := present.map delta)
    (g := fun cs => laidOn (cs.map EditCommand.layer)) (k := deltaLaid) <| by
      simp only [List.forall_mem_map]
      exact fun family _ => deltaCommands_laid run family _ _ _
  refine ⟨css.flatten, except_map_ok.mpr ⟨css, hcss, rfl⟩, fun cell => ?_⟩
  have hcell : css.map (fun cs => laidOn (cs.map EditCommand.layer) cell) =
      present.map fun family => deltaLaid (delta family) cell := by
    have := congrArg (List.map fun shown => shown cell) hlaid
    simpa only [List.map_map, Function.comp_def] using this
  have hnodup : present.Nodup := List.Nodup.filter _ (by decide)
  rw [List.map_flatten, laidOn_flatten, List.flatMap_map, List.flatMap_def, hcell,
    ← List.flatMap_def, flatMap_single (x := .landcoverSurface) hnodup
      fun family _ hf => deltaLaid_other hf _ _ _ _]
  simp [present, SourceFamily.mem_all]
  rfl

/-! ## Windows over one cell -/

section Windows

variable {base final : Chunks}

/-- The two maps differ only on cells in the bucket of their own chunk. -/
def OwnBuckets (base final : Chunks) : Prop :=
  ∀ chunk cell, chunkOf cell ≠ chunk →
    bucketClass final chunk cell = bucketClass base chunk cell

/-- The windows of one chunk. -/
def chunkLaid (base : Chunks) (cell chunk : Key) (cells : Dict Key Int) : List Int :=
  (byClass (chunkDiff base chunk cells)).toList.filterMap fun group =>
    windowLayer (.paint chunk group.2 group.1) cell

theorem mem_chunkLaid {cell chunk : Key} {cells : Dict Key Int} {code : Int} :
    code ∈ chunkLaid base cell chunk cells ↔
      InBox (fun c => cells[c]? = some code ∧ bucketClass base chunk c ≠ some code) cell := by
  simp only [chunkLaid, List.mem_filterMap, windowLayer_paint]
  constructor
  · rintro ⟨group, hgroup, hbox, rfl⟩
    have hmem := byClass_get (Std.ExtTreeMap.mem_toList_iff_getElem?_eq_some.mp hgroup)
    simpa only [hmem, chunkDiff_some, bucketClass] using hbox
  · intro hbox
    obtain ⟨⟨c, hc, -⟩, -⟩ := id hbox
    obtain ⟨group, hgroup⟩ := exists_byClass (chunkDiff_some.mpr hc)
    have hmem := byClass_get hgroup
    refine ⟨(code, group), Std.ExtTreeMap.mem_toList_iff_getElem?_eq_some.mpr hgroup, ?_, rfl⟩
    simpa only [hmem, chunkDiff_some, bucketClass] using hbox

theorem landcoverCommands_laid (hown : OwnBuckets base final) (cell : Key) :
    laidOn ((landcoverCommands base final).map windowLayer) cell =
      chunkLaid base cell (chunkOf cell) (final.getD (chunkOf cell) ∅) := by
  have hlaid : laidOn ((landcoverCommands base final).map windowLayer) cell =
      final.toList.flatMap fun e => chunkLaid base cell e.1 e.2 := by
    rw [laidOn, landcoverCommands, List.filterMap_map, List.filterMap_flatMap]
    refine List.flatMap_congr fun e _ => ?_
    rw [List.filterMap_map]
    rfl
  have hother : ∀ e ∈ final.toList, e ≠ (chunkOf cell, final.getD (chunkOf cell) ∅) →
      chunkLaid base cell e.1 e.2 = [] := by
    intro e he hne
    have hget : final[e.1]? = some e.2 := Std.ExtTreeMap.mem_toList_iff_getElem?_eq_some.mp he
    refine List.eq_nil_iff_forall_not_mem.mpr fun code hcode => hne ?_
    have hchunk : chunkOf cell = e.1 := by
      refine (mem_chunkLaid.mp hcode).chunkOf_eq fun c hc => ?_
      by_contra hc'
      have := hown e.1 c hc'
      rw [bucketClass, Dict.getD_of_some hget, hc.1] at this
      exact hc.2 this.symm
    rw [hchunk, Dict.getD_of_some hget]
  have hnodup : final.toList.Nodup :=
    (Std.ExtTreeMap.distinct_keys_toList (t := final)).imp fun h heq => by simp [heq] at h
  rw [hlaid, flatMap_single hnodup hother]
  split
  · rfl
  · rename_i hnone
    have hget : final[chunkOf cell]? = none := by
      by_contra hsome
      obtain ⟨cells, hcells⟩ := Option.ne_none_iff_exists'.mp hsome
      exact hnone (Std.ExtTreeMap.mem_toList_iff_getElem?_eq_some.mpr
        (by rw [hcells, Dict.getD_of_some hcells]))
    refine (List.eq_nil_iff_forall_not_mem.mpr fun code hcode => ?_).symm
    obtain ⟨⟨c, hc, -⟩, -⟩ := mem_chunkLaid.mp hcode
    simp [Dict.getD_of_none hget] at hc

theorem chunkLaid_ascending (cell chunk : Key) (cells : Dict Key Int) :
    (chunkLaid base cell chunk cells).Pairwise (· < ·) := by
  refine List.pairwise_filterMap.mpr ((Std.ExtTreeMap.ordered_keys_toList).imp ?_)
  intro g h hlt x hx y hy
  rw [(windowLayer_paint.mp hx).2, (windowLayer_paint.mp hy).2]
  exact Std.compare_eq_lt.mp hlt

end Windows

/-! ## Windows against cells -/

/-- The windows of the exact lane paint what the reduction says. -/
def PaintsReach (run : LaneRun) (b : CanonicalState) (ops : List Operation) : Prop :=
  ∀ r, reduceEpoch b ops = .ok r → ∃ commands, exactLaneCommands run r.reduced = .ok commands ∧
    ∀ cell, applyCommands (classOf b.families.chunks) commands cell =
      classOf r.state.families.chunks cell

/-- In every box around the cells of a chunk that change to one class, each cell ends with that
class or lies in the box of a greater class of the chunk. -/
def BoxesAgree (chunks : Chunks) (ops : List Operation) : Prop :=
  ∀ chunk code cell, InBox (ChangedTo chunks ops chunk code) cell →
    finalClass chunks ops cell = some code ∨
      ∃ greater, code < greater ∧ InBox (ChangedTo chunks ops chunk greater) cell

theorem mem_laid {b : CanonicalState} {ops : List Operation} {r : EpochReduction}
    (hr : reduceEpoch b ops = .ok r) {cell : Key} {code : Int} :
    code ∈ laidOn ((landcoverCommands b.families.chunks r.state.families.chunks).map windowLayer) cell ↔
      InBox (ChangedTo b.families.chunks ops (chunkOf cell) code) cell := by
  have hown : OwnBuckets b.families.chunks r.state.families.chunks := fun chunk c hc => by
    rw [reduceEpoch_bucket hr, if_neg hc]
  rw [landcoverCommands_laid hown, mem_chunkLaid]
  have hsame : (fun c => (r.state.families.chunks.getD (chunkOf cell) ∅)[c]? = some code ∧
      bucketClass b.families.chunks (chunkOf cell) c ≠ some code) =
      ChangedTo b.families.chunks ops (chunkOf cell) code := by
    funext c
    by_cases hc : chunkOf c = chunkOf cell
    · have := reduceEpoch_bucket hr (chunkOf cell) c
      rw [if_pos hc, bucketClass] at this
      simp only [ChangedTo, this, hc, true_and, classOf]
    · have := hown (chunkOf cell) c hc
      rw [bucketClass] at this
      simp only [ChangedTo, this, hc, false_and, bucketClass, eq_iff_iff, iff_false, not_and]
      exact fun h => fun h' => h' h
  rw [hsame]

theorem finalClass_of_unpainted {chunks : Chunks} {ops : List Operation}
    (h : ∀ op ∈ ops, op.sourceFamily ≠ .landcoverSurface) (cell : Key) :
    finalClass chunks ops cell = classOf chunks cell := by
  rw [finalClass, overlay_apply]
  have hnone : laidOn ((inOrder ops).map paintOf) cell = [] := by
    refine List.filterMap_eq_nil_iff.mpr fun layer hlayer => ?_
    obtain ⟨op, hop, rfl⟩ := List.mem_map.mp hlayer
    simp [paintOf, h op ((List.perm_insertionSort _ _).mem_iff.mp hop)]
  rw [hnone]
  rfl

theorem finalClass_eq_classOf {chunks : Chunks} {ops : List Operation} {cell : Key}
    (h : ∀ code, ¬ ChangedTo chunks ops (chunkOf cell) code cell) :
    classOf chunks cell = finalClass chunks ops cell := by
  by_contra hne
  cases hc : finalClass chunks ops cell with
  | none =>
    have hor := overlay_apply (classOf chunks) ((inOrder ops).map paintOf) cell
    rw [← finalClass, hc] at hor
    exact hne ((Option.or_eq_none_iff.mp hor.symm).2.trans hc.symm)
  | some code => exact h code ⟨rfl, hc, hc ▸ hne⟩

theorem exactLaneCommands_windows (run : LaneRun) {b : CanonicalState} {ops : List Operation}
    {r : EpochReduction} (hr : reduceEpoch b ops = .ok r) :
    ∃ commands, exactLaneCommands run r.reduced = .ok commands ∧ ∀ cell,
      laidOn (commands.map EditCommand.layer) cell =
        laidOn ((landcoverCommands b.families.chunks r.state.families.chunks).map windowLayer)
          cell := by
  obtain ⟨-, p, hp, rfl⟩ := reduceEpoch_ok.mp hr
  obtain ⟨commands, hcommands, hlaid⟩ := exactLaneCommands_laid run b (inOrder ops) p
  refine ⟨commands, hcommands, fun cell => ?_⟩
  rw [hlaid]
  split
  · rfl
  · rename_i hnone
    refine (List.eq_nil_iff_forall_not_mem.mpr fun code hcode => ?_).symm
    obtain ⟨⟨c, hc, -⟩, -⟩ := (mem_laid hr).mp hcode
    rw [ChangedTo, finalClass_of_unpainted fun op hop hf =>
      hnone ⟨op, (List.perm_insertionSort _ _).mem_iff.mpr hop, hf⟩] at hc
    exact hc.2.2 hc.2.1

/-- The paints reach the exact lane unchanged exactly when no box hides another class. -/
theorem paintsReach_iff_boxesAgree (run : LaneRun) {b : CanonicalState} {ops : List Operation}
    (hok : ∃ r, reduceEpoch b ops = .ok r) :
    PaintsReach run b ops ↔ BoxesAgree b.families.chunks ops := by
  obtain ⟨r, hr⟩ := hok
  obtain ⟨commands, hcommands, hlaid⟩ := exactLaneCommands_windows run hr
  have hcell (cell : Key) :
      applyCommands (classOf b.families.chunks) commands cell = classOf r.state.families.chunks cell ↔
        ∀ code, InBox (ChangedTo b.families.chunks ops (chunkOf cell) code) cell →
          finalClass b.families.chunks ops cell = some code ∨ ∃ greater, code < greater ∧
            InBox (ChangedTo b.families.chunks ops (chunkOf cell) greater) cell := by
    have hown : OwnBuckets b.families.chunks r.state.families.chunks := fun chunk c hc => by
      rw [reduceEpoch_bucket hr, if_neg hc]
    rw [applyCommands, reduceEpoch_classOf hr, overlay_ascending]
    · simp only [hlaid, mem_laid hr, and_comm]
    · rw [hlaid, landcoverCommands_laid hown]
      exact chunkLaid_ascending _ _ _
    · intro hnil
      refine finalClass_eq_classOf fun code hcode => ?_
      rw [hlaid] at hnil
      have := (mem_laid hr).mpr (InBox.of_mem hcode)
      simp [hnil] at this
  constructor
  · intro h chunk code cell hbox
    obtain ⟨cs, hcs, hagree⟩ := h r hr
    obtain rfl := Except.ok.inj (hcommands.symm.trans hcs)
    obtain rfl := hbox.chunkOf_eq fun c hc => hc.1
    exact (hcell cell).mp (hagree cell) code hbox
  · intro h r' hr'
    obtain rfl := Except.ok.inj (hr.symm.trans hr')
    exact ⟨commands, hcommands, fun cell => (hcell cell).mpr fun code hbox => h _ code cell hbox⟩

/-- One paint of single cells. -/
def cellPaint (cells : List Key) : Operation where
  operationId := "1"
  actorId := "ada"
  sourceFamily := .landcoverSurface
  entityId := none
  verb := .paint
  payload := .obj [("class", .int 2), ("cells", .arr (cells.map fun c => .arr [.int c.1, .int c.2]))]
  serverSequence := 1
  epochId := 1

def exampleRun : LaneRun where
  scenarioId := "harbour"
  sceneRevision := 1
  consumedSeq := 0
  requestedOutputs := ["utci"]
  requestedTimes := [0]

/-- The window around two cells that touch at a corner takes the other two corners along. -/
theorem cornerPaint_spills :
    (reduceEpoch initialState [cellPaint [(0, 0), (1, 1)]]).isOk = true ∧
      ¬ PaintsReach exampleRun initialState [cellPaint [(0, 0), (1, 1)]] := by
  have hspilt : (reduceEpoch initialState [cellPaint [(0, 0), (1, 1)]]).map (fun r =>
      ((exactLaneCommands exampleRun r.reduced).map fun commands =>
        applyCommands (classOf initialState.families.chunks) commands (0, 1),
        classOf r.state.families.chunks (0, 1))) = .ok (.ok (some 2), none) := by decide +kernel
  refine ⟨by decide, fun h => ?_⟩
  obtain ⟨r, hr, heq⟩ := except_map_ok.mp hspilt
  obtain ⟨commands, hcommands, hagree⟩ := h r hr
  rw [hcommands, Prod.mk.injEq] at heq
  have hpainted : applyCommands (classOf initialState.families.chunks) commands (0, 1) = some 2 :=
    Except.ok.inj heq.1
  have hcell := hagree (0, 1)
  rw [hpainted, heq.2] at hcell
  simp at hcell

/-- Two cells side by side, which their window covers. -/
theorem neighbours_reach : PaintsReach exampleRun initialState [cellPaint [(0, 0), (0, 1)]] := by
  have hok : ∃ r, reduceEpoch initialState [cellPaint [(0, 0), (0, 1)]] = .ok r :=
    except_of_isOk (by decide)
  refine (paintsReach_iff_boxesAgree exampleRun hok).mpr fun chunk code cell hbox => Or.inl ?_
  have hcells : paintCells (cellPaint [(0, 0), (0, 1)]).payload.mapping = [(0, 0), (0, 1)] := by
    decide
  have hpainted : ∀ c ∈ [((0, 0) : Key), (0, 1)],
      finalClass initialState.families.chunks [cellPaint [(0, 0), (0, 1)]] c = some 2 := by
    decide
  have hchanged : ∀ c, ChangedTo initialState.families.chunks [cellPaint [(0, 0), (0, 1)]] chunk
      code c → c = (0, 0) ∨ c = (0, 1) := by
    intro c hc
    by_contra hne
    have hpaint : paintOf (cellPaint [(0, 0), (0, 1)]) c = none := by
      rw [paintOf, hcells, if_neg]
      rintro ⟨-, -, hmem⟩
      exact hne (by simpa using hmem)
    have hfinal : finalClass initialState.families.chunks [cellPaint [(0, 0), (0, 1)]] c =
        (paintOf (cellPaint [(0, 0), (0, 1)]) c).or (classOf initialState.families.chunks c) := rfl
    rw [hpaint, Option.none_or] at hfinal
    exact hc.2.2 (hfinal.symm.trans hc.2.1)
  obtain ⟨⟨a, ha, hla⟩, ⟨b, hb, hlb⟩, ⟨c, hc, hlc⟩, d, hd, hld⟩ := hbox
  have hcode : code = 2 := by
    have hsome := ha.2.1
    rw [hpainted a (by simpa using hchanged a ha)] at hsome
    exact (Option.some.inj hsome).symm
  have hcell : cell = (0, 0) ∨ cell = (0, 1) := by
    obtain ⟨row, col⟩ := cell
    have := hchanged a ha
    have := hchanged b hb
    have := hchanged c hc
    have := hchanged d hd
    simp only [Prod.ext_iff] at *
    omega
  rw [hcode]
  exact hpainted cell (by simpa using hcell)

end Solweig.Bridge
