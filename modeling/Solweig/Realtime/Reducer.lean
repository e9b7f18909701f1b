import Mathlib.Logic.Function.Basic
import Solweig.Realtime.Segments

/-!
# Deterministic epoch reduction

The pure fold of one epoch's operations onto a canonical state. Conflicts are data, never
errors.
-/

namespace Solweig.Realtime

open Solweig.Lib

/-! ## Epoch fold bookkeeping -/

/-- Tracking within one epoch, which never enters the canonical state. -/
structure Fold where
  conflicts : List ConflictRecord := []
  addOps : Dict String (List Operation) := ∅
  deleteOps : Dict String Operation := ∅
  fieldWriters : Dict (ObjectFamily × String × String) (List Operation) := ∅
  chunkOps : Dict Key (List Operation) := ∅
  chunkCellActors : Dict (Key × Key) (List String) := ∅
  segmentOwners : Dict String (List (Option Operation)) := ∅
  viewWriters : List Operation := []
  perUserUpdates : Nat := 0

/-! ## Object geometry -/

/-- `int(objects[entity_id]["generation"])` -/
def generationOf (entityId : String) (fields : Dict String Json) : Except ReduceError Int :=
  match fields["generation"]?.bind Json.pyInt with
  | some generation => .ok generation
  | none => .error (.badGeneration entityId)

/-- The generation an add starts from: of the live entity, else of its tombstone. -/
def previousGeneration (state : ObjectState) (entityId : String) :
    Except ReduceError (Option Int) :=
  match state.objects[entityId]? with
  | some live => (generationOf entityId live).map some
  | none => .ok state.tombstones[entityId]?

def nextGeneration : Option Int → Int
  | some previous => previous + 1
  | none => 0

/-- Each field in order gets the operation as its latest writer. -/
def recordWriters (fold : Fold) (family : ObjectFamily) (entityId : String) (op : Operation)
    (fields : Dict String Json) : Dict (ObjectFamily × String × String) (List Operation) :=
  fields.keys.foldl (fun writers name => writers.push (family, entityId, name) op)
    fold.fieldWriters

def recreatedConflict (family : ObjectFamily) (entityId : String) (op : Operation)
    (priorAdds : List Operation) (resurrected : Bool) (previous : Int) : ConflictRecord where
  kind := .generationRecreated
  sourceFamily := .object family
  entityId := some entityId
  winnerOperationId := op.operationId
  loserOperationIds := priorAdds.getLast?.toList.map (·.operationId)
  detail := .obj [
    ("from_generation", .int previous),
    ("to_generation", .int (previous + 1)),
    ("resurrected", .bool resurrected)]

def foldAdd (family : ObjectFamily) (state : ObjectState) (op : Operation) (fold : Fold)
    (entityId : String) (fields : Dict String Json) : Except ReduceError (ObjectState × Fold) :=
  (previousGeneration state entityId).map fun previous =>
    ({ objects := state.objects.insert entityId
          (fields.insert "generation" (.int (nextGeneration previous)))
       tombstones := if entityId ∈ state.objects then state.tombstones
          else state.tombstones.erase entityId },
      { fold with
        conflicts := fold.conflicts ++ (previous.map (recreatedConflict family entityId op
          (fold.addOps.getD entityId []) (entityId ∈ state.tombstones))).toList
        addOps := fold.addOps.push entityId op
        fieldWriters := recordWriters fold family entityId op fields })

def rejectedConflict (family : ObjectFamily) (entityId : String) (op : Operation)
    (deleteOp : Option Operation) (generation : Int) : ConflictRecord where
  kind := .tombstoneRejected
  sourceFamily := .object family
  entityId := some entityId
  winnerOperationId := (deleteOp.getD op).operationId
  loserOperationIds := [op.operationId]
  detail := .obj [
    ("targeting_generation", .int generation),
    ("winner_is_epoch_delete", .bool deleteOp.isSome)]

/-- A `move` writes position fields only. -/
def editFields (family : ObjectFamily) (op : Operation) (fields : Dict String Json) :
    Dict String Json :=
  if op.verb = .move then fields.filter fun name _ => name ∈ positionFields family else fields

/-- `replace`, `update` and `move` -/
def foldEdit (family : ObjectFamily) (state : ObjectState) (op : Operation) (fold : Fold)
    (entityId : String) (fields : Dict String Json) : ObjectState × Fold :=
  match state.objects[entityId]? with
  | some live =>
    let fields := editFields family op fields
    ({ state with
       objects := state.objects.insert entityId (fields.foldl (fun e k v => e.insert k v) live) },
      { fold with fieldWriters := recordWriters fold family entityId op fields })
  | none =>
    match state.tombstones[entityId]? with
    | some generation =>
      (state, { fold with conflicts := fold.conflicts ++
        [rejectedConflict family entityId op fold.deleteOps[entityId]? generation] })
    | none => (state, fold)

def foldDelete (state : ObjectState) (op : Operation) (fold : Fold) (entityId : String) :
    Except ReduceError (ObjectState × Fold) :=
  match state.objects[entityId]? with
  | some live => (generationOf entityId live).map fun generation =>
    ({ objects := state.objects.erase entityId
       tombstones := state.tombstones.insert entityId generation },
      { fold with deleteOps := fold.deleteOps.insert entityId op })
  | none => .ok (state, fold)

def foldObject (family : ObjectFamily) (state : ObjectState) (op : Operation) (fold : Fold) :
    Except ReduceError (ObjectState × Fold) :=
  match op.entityId with
  | none => .ok (state, fold)
  | some entityId =>
    if entityId = "" then .ok (state, fold)
    else
      let fields := objectFields family op.payload.mapping
      match op.verb with
      | .add => foldAdd family state op fold entityId fields
      | .replace | .update | .move => .ok (foldEdit family state op fold entityId fields)
      | .delete => foldDelete state op fold entityId
      | _ => .ok (state, fold)

/-! ## Raster paint -/

def paintCell (op : Operation) (code : Int) (s : Chunks × Fold) (cell : Key) : Chunks × Fold :=
  let chunk := chunkOf cell
  let actors := s.2.chunkCellActors.getD (chunk, cell) []
  (s.1.insert chunk ((s.1.getD chunk ∅).insert cell code),
    { s.2 with
      chunkOps := s.2.chunkOps.push chunk op
      chunkCellActors := s.2.chunkCellActors.insert (chunk, cell)
        (if op.actorId ∈ actors then actors else actors ++ [op.actorId]) })

def foldPaint (chunks : Chunks) (op : Operation) (fold : Fold) : Chunks × Fold :=
  match paintClass op.payload.mapping with
  | none => (chunks, fold)
  | some code => (paintCells op.payload.mapping).foldl (paintCell op code) (chunks, fold)

/-! ## Scalars and ranges -/

/-- Carves the interval out of the coverage of the field, then inserts it. The owners are looked
up under the name of the field alone. -/
def insertSegment (family : SegmentFamily) (segmentsMap : SegmentMap) (fold : Fold)
    (field : String) (seg : Segment) (op : Operation) : Except ReduceError (SegmentMap × Fold) :=
  let segments := segmentsMap.getD field []
  let fieldOwners := fold.segmentOwners.getD field (segments.map fun _ => none)
  let stored := segments.zip fieldOwners
  (overlapFlags seg (stored.map Prod.fst)).map fun hits =>
    let merged := placeOwned (stored.zip hits) seg op
    (segmentsMap.insert field (merged.map Prod.fst),
      { fold with
        conflicts := fold.conflicts ++
          (stored.zip hits).filterMap (overlapConflict family field seg op)
        segmentOwners := fold.segmentOwners.insert field (merged.map Prod.snd) })

def foldSegments (family : SegmentFamily) (segmentsMap : SegmentMap) (op : Operation)
    (fold : Fold) : Except ReduceError (SegmentMap × Fold) :=
  match writeBounds family op.payload.mapping with
  | none => .ok (segmentsMap, fold)
  | some (start, stop) =>
    (itemValues op.payload.mapping).toList.foldlM (fun s entry =>
      insertSegment family s.1 s.2 entry.1 { start, stop, value := entry.2 } op)
      (segmentsMap, fold)

/-! ## View -/

def foldView (state : ViewState) (op : Operation) (fold : Fold) : ViewState × Fold :=
  let payload := op.payload.mapping
  let nested := Json.get payload "values"
  let selection := if nested.isMapping then nested.mapping else payload.erase "scope"
  if Json.get payload "scope" = .str "user" then
    ({ state with perUser := state.perUser.insert op.actorId selection },
      { fold with perUserUpdates := fold.perUserUpdates + 1 })
  else
    ({ state with view := selection }, { fold with viewWriters := fold.viewWriters ++ [op] })

/-! ## The fold -/

def foldOperation (s : Families × Fold) (op : Operation) : Except ReduceError (Families × Fold) :=
  match op.sourceFamily with
  | .object family => (foldObject family (s.1.objects family) op s.2).map fun r =>
    ({ s.1 with objects := Function.update s.1.objects family r.1 }, r.2)
  | .landcoverSurface =>
    if op.verb = .paint then
      let r := foldPaint s.1.chunks op s.2
      .ok ({ s.1 with chunks := r.1 }, r.2)
    else .ok s
  | .segment family =>
    if op.verb ∈ [.set, .select, .update] then
      (foldSegments family (s.1.segments family) op s.2).map fun r =>
        ({ s.1 with segments := Function.update s.1.segments family r.1 }, r.2)
    else .ok s
  | .outputView =>
    if op.verb = .select then
      let r := foldView s.1.view op s.2
      .ok ({ s.1 with view := r.1 }, r.2)
    else .ok s

/-! ## Family deltas -/

/-- `==` of two mappings -/
def fieldsEq (a b : Dict String Json) : Bool := Json.pyEqFields a.toList b.toList

def stripGeneration (fields : Dict String Json) : Dict String Json := fields.erase "generation"

/-- The names that only one side has, or that differ. -/
def changedNames (old new : Dict String Json) : List String :=
  (old.keys ++ new.keys).filter fun name => !(Json.get old name).pyEq (Json.get new name)

def objectCommand (family : ObjectFamily) (entityId : String) :
    Option (Dict String Json) → Option (Dict String Json) → Option DeltaCommand
  | none, none => none
  | none, some new => some (.object .add entityId new none)
  | some old, none => some (.object .delete entityId ∅ (some old))
  | some old, some new =>
    if fieldsEq new old then none
    else
      let isMove := (changedNames old new).all fun name => name ∈ positionFields family
      some (.object (if isMove then .move else .replace) entityId new (some old))

def countChanges (change : ObjectChange) (commands : List DeltaCommand) : Nat :=
  commands.countP fun
    | .object operation _ _ _ => operation = change
    | _ => false

def objectDelta (family : ObjectFamily) (baseline final : ObjectState) : FamilyDelta :=
  let commands := (baseline.objects ∪ final.objects).keys.filterMap fun entityId =>
    objectCommand family entityId (baseline.objects[entityId]?.map stripGeneration)
      (final.objects[entityId]?.map stripGeneration)
  { family := .object family
    isNoop := commands.isEmpty
    commands := commands
    summary := [
      ("objects_added", countChanges .add commands),
      ("objects_deleted", countChanges .delete commands),
      ("objects_moved", countChanges .move commands),
      ("objects_replaced", countChanges .replace commands)] }

/-- The cells of a chunk whose class is not the one of the baseline. -/
def chunkDiff (baseline : Chunks) (chunk : Key) (cells : Dict Key Int) : Dict Key Int :=
  cells.filter fun cell code => (baseline.getD chunk ∅)[cell]? ≠ some code

def byClass (diff : Dict Key Int) : Dict Int (List Key) :=
  diff.toList.foldl (fun groups e => groups.push e.2 e.1) ∅

def landcoverCommands (baseline final : Chunks) : List DeltaCommand :=
  final.toList.flatMap fun e =>
    (byClass (chunkDiff baseline e.1 e.2)).toList.map fun group => .paint e.1 group.2 group.1

def landcoverDelta (baseline final : Chunks) : FamilyDelta :=
  let diffs := (final.toList.map fun e => chunkDiff baseline e.1 e.2).filter (!·.isEmpty)
  let commands := landcoverCommands baseline final
  { family := .landcoverSurface
    isNoop := commands.isEmpty
    commands := commands
    summary := [
      ("cells_changed", (diffs.map (·.size)).sum),
      ("chunks_changed", diffs.length)] }

/-- `==` of two lists of segments -/
def segmentsEq (a b : List Segment) : Bool :=
  a.length = b.length && (a.zip b).all fun p =>
    p.1.start = p.2.start && p.1.stop = p.2.stop && p.1.value.pyEq p.2.value

def segmentDelta (family : SegmentFamily) (baseline final : SegmentMap) : FamilyDelta :=
  let changed := final.toList.filter fun e => !segmentsEq e.2 (baseline.getD e.1 [])
  { family := .segment family
    isNoop := changed.isEmpty
    commands := changed.map fun e => .set e.1 e.2 (baseline.getD e.1 [])
    summary := [
      ("fields_changed", changed.length),
      ("segments_changed", (changed.map (·.2.length)).sum)] }

def viewDelta (baseline final : ViewState) (perUserUpdates : Nat) : FamilyDelta :=
  let changed := !fieldsEq final.view baseline.view
  { family := .outputView
    isNoop := !changed
    commands := if changed then
      [.select final.view (if baseline.view.isEmpty then none else some baseline.view)] else []
    summary := [
      ("workspace_view_changed", if changed then 1 else 0),
      ("per_user_updates", perUserUpdates)] }

def familyDelta (family : SourceFamily) (baseline final : Families) (fold : Fold) : FamilyDelta :=
  match family with
  | .object o => objectDelta o (baseline.objects o) (final.objects o)
  | .landcoverSurface => landcoverDelta baseline.chunks final.chunks
  | .segment g => segmentDelta g (baseline.segments g) (final.segments g)
  | .outputView => viewDelta baseline.view final.view fold.perUserUpdates

/-! ## Conflicts known after the fold -/

/-- Two or more distinct actors. -/
def contested (ops : List Operation) : Prop := ∃ a ∈ ops, ∃ b ∈ ops, a.actorId ≠ b.actorId

instance (ops : List Operation) : Decidable (contested ops) :=
  inferInstanceAs (Decidable (∃ a ∈ ops, ∃ b ∈ ops, a.actorId ≠ b.actorId))

/-- The last of several writers wins over the others. -/
def raceConflict (kind : ConflictKind) (family : SourceFamily) (entityId : Option String)
    (detail : Json) (writers : List Operation) : Option ConflictRecord :=
  if contested writers then
    writers.getLast?.map fun winner => {
      kind
      sourceFamily := family
      entityId
      winnerOperationId := winner.operationId
      loserOperationIds := writers.dropLast.map (·.operationId)
      detail }
  else none

/-- An operation stands once per cell it painted; the first of each id is kept. -/
def dedupById (ops : List Operation) : List Operation :=
  ops.foldl (fun kept op =>
    if kept.any fun o => o.operationId = op.operationId then kept else kept ++ [op]) []

def chunkText (chunk : Key) : String := s!"{chunk.1}:{chunk.2}"

def cellsConflicted (fold : Fold) (chunk : Key) : Nat :=
  fold.chunkCellActors.toList.countP fun e => e.1.1 = chunk ∧ 2 ≤ e.2.length

def aggregateConflicts (fold : Fold) : List ConflictRecord :=
  (fold.fieldWriters.toList.filterMap fun e =>
    raceConflict .lastWriteWins (.object e.1.1) (some e.1.2.1) (.obj [("field", .str e.1.2.2)])
      e.2) ++
  (fold.chunkOps.toList.filterMap fun e =>
    raceConflict .rasterChunkOverwritten .landcoverSurface (some (chunkText e.1))
      (.obj [("chunk", .str (chunkText e.1)), ("cells_conflicted", .int (cellsConflicted fold e.1))])
      (dedupById e.2)) ++
  (raceConflict .lastWriteWins .outputView none (.obj [("scope", .str "workspace")])
    fold.viewWriters).toList

/-! ## The reducer -/

def firstDuplicate : List Nat → List Nat → Option Nat
  | _, [] => none
  | seen, n :: rest => if n ∈ seen then some n else firstDuplicate (n :: seen) rest

def initialState : CanonicalState where
  workspaceRevision := 0
  families := .empty

/-- `sorted(ops, key=lambda op: op.server_sequence)` -/
def inOrder (operations : List Operation) : List Operation :=
  operations.insertionSort fun a b => a.serverSequence ≤ b.serverSequence

/-- What is returned once the operations are folded. -/
def reduction (baseline : CanonicalState) (ordered : List Operation) (s : Families × Fold) :
    EpochReduction :=
  let present := SourceFamily.all.filter fun f => ordered.any (·.sourceFamily = f)
  let revision := baseline.workspaceRevision + if ordered.isEmpty then 0 else 1
  { reduced := {
      epochId := (ordered.getLast?.map (·.epochId)).getD 0
      workspaceRevision := revision
      familyDeltas := present.map fun f => familyDelta f baseline.families s.1 s.2
      auditOperations := ordered
      conflicts := s.2.conflicts ++ aggregateConflicts s.2 }
    state := { workspaceRevision := revision, families := s.1 } }

def reduceEpoch (baseline : CanonicalState) (operations : List Operation) :
    Except ReduceError EpochReduction :=
  match firstDuplicate [] (operations.map (·.serverSequence)) with
  | some n => .error (.duplicateSequence n)
  | none =>
    ((inOrder operations).foldlM foldOperation (baseline.families, {})).map
      (reduction baseline (inOrder operations))

end Solweig.Realtime
