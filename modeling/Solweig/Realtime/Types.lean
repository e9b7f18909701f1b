import Solweig.Json
import Solweig.Lib.Intervals

/-!
# The contracts of the realtime plane

Operations as the log holds them, and the canonical state that they are folded onto. Chunk and
cell keys are the integer pairs that the source writes as texts, and a family that a state does
not carry is empty.
-/

namespace Solweig.Realtime

open Solweig.Lib

/-! ## Families and operations -/

/-- `_OBJECT_FAMILIES` -/
inductive ObjectFamily where
  | buildingGeometry
  | vegetationGeometry
  deriving DecidableEq, Repr

/-- `_SEGMENT_FAMILIES` -/
inductive SegmentFamily where
  | meteorologicalForcing
  | modelReceptorParameters
  | selectedDateTime
  deriving DecidableEq, Repr

inductive SourceFamily where
  | object (family : ObjectFamily)
  | landcoverSurface
  | segment (family : SegmentFamily)
  | outputView
  deriving DecidableEq, Repr

namespace SourceFamily

def name : SourceFamily → String
  | .object .buildingGeometry => "building_geometry"
  | .object .vegetationGeometry => "vegetation_geometry"
  | .landcoverSurface => "landcover_surface"
  | .segment .meteorologicalForcing => "meteorological_forcing"
  | .segment .modelReceptorParameters => "model_receptor_parameters"
  | .segment .selectedDateTime => "selected_date_time"
  | .outputView => "output_view"

/-- `_ALL_FAMILIES`, in the order of the names. -/
def all : List SourceFamily :=
  [.object .buildingGeometry, .landcoverSurface, .segment .meteorologicalForcing,
    .segment .modelReceptorParameters, .outputView, .segment .selectedDateTime,
    .object .vegetationGeometry]

def ofName? (s : String) : Option SourceFamily := all.find? fun f => f.name = s

theorem mem_all (f : SourceFamily) : f ∈ all := by
  rcases f with (_ | _) | _ | (_ | _ | _) | _ <;> simp [all]

end SourceFamily

namespace ObjectFamily

def rank : ObjectFamily → Nat
  | .buildingGeometry => 0
  | .vegetationGeometry => 1

/-- The order of the names, in which the bookkeeping keys are sorted. -/
instance : Ord ObjectFamily := ⟨compareOn rank⟩

instance : Std.TransOrd ObjectFamily :=
  inferInstanceAs (Std.TransCmp (compareOn rank))

instance : Std.LawfulEqOrd ObjectFamily where
  eq_of_compare {a b} h := by
    have hr : a.rank = b.rank := Std.LawfulEqOrd.eq_of_compare (show compare a.rank b.rank = _ from h)
    cases a <;> cases b <;> simp_all [rank]

end ObjectFamily

/-- The log takes any verb; the reducer knows these. -/
inductive OperationVerb where
  | add | replace | update | move | delete | paint | set | select
  | other (text : String)
  deriving DecidableEq

structure Operation where
  operationId : String
  actorId : String
  sourceFamily : SourceFamily
  entityId : Option String
  verb : OperationVerb
  payload : Json
  serverSequence : Nat
  epochId : Nat
  deriving DecidableEq

/-! ## Canonical state -/

/-- A value over a closed interval of time steps. -/
abbrev Segment := Interval Json

/-- The fields of a live entity hold its `generation` among them. -/
structure ObjectState where
  objects : Dict String (Dict String Json)
  tombstones : Dict String Int
  deriving DecidableEq

abbrev Key := Int × Int

abbrev Chunks := Dict Key (Dict Key Int)

abbrev SegmentMap := Dict String (List Segment)

structure ViewState where
  view : Dict String Json
  perUser : Dict String (Dict String Json)
  deriving DecidableEq

structure Families where
  objects : ObjectFamily → ObjectState
  chunks : Chunks
  segments : SegmentFamily → SegmentMap
  view : ViewState

/-- `_empty_family_state` of every family -/
def Families.empty : Families where
  objects := fun _ => { objects := ∅, tombstones := ∅ }
  chunks := ∅
  segments := fun _ => ∅
  view := { view := ∅, perUser := ∅ }

/-- Two states that hold the same of one family. -/
def Families.SameAt (F : SourceFamily) (s t : Families) : Prop :=
  match F with
  | .object o => s.objects o = t.objects o
  | .landcoverSurface => s.chunks = t.chunks
  | .segment g => s.segments g = t.segments g
  | .outputView => s.view = t.view

structure CanonicalState where
  workspaceRevision : Int
  families : Families

/-! ## What a reduction reports -/

/-- Where the fold stops: a repeated sequence, a stored generation that is no number, a time step
too large for a float. -/
inductive ReduceError where
  | duplicateSequence (sequence : Nat)
  | badGeneration (entityId : String)
  | overflow
  deriving DecidableEq, Repr

inductive ConflictKind where
  | lastWriteWins | tombstoneRejected | generationRecreated | rasterChunkOverwritten
  | rangeSegmented
  deriving DecidableEq, Repr

structure ConflictRecord where
  kind : ConflictKind
  sourceFamily : SourceFamily
  entityId : Option String
  winnerOperationId : String
  loserOperationIds : List String
  detail : Json
  deriving DecidableEq

inductive ObjectChange where
  | add | delete | move | replace
  deriving DecidableEq, Repr

/-- One net change of a family, in the shape of a universal edit item. -/
inductive DeltaCommand where
  | object (operation : ObjectChange) (target : String) (values : Dict String Json)
      (oldValues : Option (Dict String Json))
  | paint (chunk : Key) (cells : List Key) (code : Int)
  | set (target : String) (segments oldSegments : List Segment)
  | select (values : Dict String Json) (oldValues : Option (Dict String Json))
  deriving DecidableEq

structure FamilyDelta where
  family : SourceFamily
  isNoop : Bool
  commands : List DeltaCommand
  summary : List (String × Nat)
  deriving DecidableEq

structure ReducedEpoch where
  epochId : Nat
  workspaceRevision : Int
  familyDeltas : List FamilyDelta
  auditOperations : List Operation
  conflicts : List ConflictRecord
  deriving DecidableEq

structure EpochReduction where
  reduced : ReducedEpoch
  state : CanonicalState

end Solweig.Realtime
