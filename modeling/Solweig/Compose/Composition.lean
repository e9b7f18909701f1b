import Solweig.Compose.SelectedTime
import Solweig.Lib.Overlay

/-!
# Composition of the current state

The published results, the lowest version first, and fresh patches on top, written one over
another into the arrays of the whole site. A cache keeps composed prefixes of the history.
-/

namespace Solweig.Compose

open Solweig.Lib Solweig.Planner

variable {V : Type}

/-- A variable at a time and a cell. -/
structure Point where
  name : String
  time : Nat
  row : Int
  col : Int
  deriving DecidableEq

/-- An array of times, rows and columns. The rows and the columns are those of its window. -/
structure PatchArray (V : Type) where
  steps : Nat
  value : Nat → Nat → Nat → V

def inWindow (window : RasterWindow) (p : Point) : Bool :=
  window.rowStart ≤ p.row ∧ p.row < window.rowStop ∧
    window.colStart ≤ p.col ∧ p.col < window.colStop

/-- The value of an array over `window` at a step and the cell of a point. -/
def PatchArray.cell (patch : PatchArray V) (window : RasterWindow) (step : Nat) (p : Point) : V :=
  patch.value step (p.row - window.rowStart).toNat (p.col - window.colStart).toNat

structure ResultRecord (V : Type) where
  sceneVersion : Nat
  checksum : String
  manifest : Manifest
  arrays : Dict String (PatchArray V)

/-- A patch as a worker leaves it. -/
structure ResultPatch (V : Type) where
  writeWindow : RasterWindow
  timeIndices : Option (List Nat)
  nTimeSteps : Nat
  arrays : Dict String (PatchArray V)
  length : ∀ indices, timeIndices = some indices → indices.length = nTimeSteps
  shapes : ∀ (name : String) (array : PatchArray V), arrays[name]? = some array →
    array.steps = nTimeSteps

/-- Without times of its own a patch covers the first ones. -/
def ResultPatch.times (patch : ResultPatch V) : List Nat :=
  patch.timeIndices.getD (List.range patch.nTimeSteps)

abbrev SiteState (V : Type) := Point → V

/-! ## One result -/

/-- The step of the payload that lands on a time: the last one that names it. -/
def stepAt (timeIndices : List Nat) (t : Nat) : Option Nat := timeIndices.zipIdx.reverse.lookup t

/-- `region[time_indices] = patch` -/
def scatter (window : RasterWindow) (timeIndices : List Nat) (name : String)
    (patch : PatchArray V) : Point → Option V := fun p =>
  if p.name = name ∧ inWindow window p then
    (stepAt timeIndices p.time).map fun step => patch.cell window step p
  else none

/-- The times of a payload: those of the manifest, or all of the site. -/
def payloadTimes (grid : Grid) (name : String) (patch : PatchArray V) (timeIndices : List Nat) :
    Except ComposeError (List Nat) :=
  if timeIndices = [] ∨ timeIndices.length ≠ patch.steps then
    if patch.steps ≠ grid.timeSteps then
      .error (.partialTimeScatter name patch.steps grid.timeSteps)
    else .ok (List.range patch.steps)
  else .ok timeIndices

def outOfBounds (grid : Grid) (timeIndices : List Nat) : Option Nat :=
  timeIndices.find? fun t => grid.timeSteps ≤ t

/-- The times that a variable settled hold for the next one too. -/
def applyVariable (grid : Grid) (window : RasterWindow) (arrays : Dict String (PatchArray V))
    (s : List Nat × SiteState V) (name : String) :
    Except ComposeError (List Nat × SiteState V) :=
  match arrays[name]? with
  | none => .ok s
  | some patch => do
    let timeIndices ← payloadTimes grid name patch s.1
    match outOfBounds grid timeIndices with
    | some t => .error (.indexOutOfBounds t grid.timeSteps)
    | none => .ok (timeIndices, fun p => (scatter window timeIndices name patch p).getD (s.2 p))

def applyResultIntoState (grid : Grid) (window : RasterWindow) (timeIndices : List Nat)
    (arrays : Dict String (PatchArray V)) (names : List String) (state : SiteState V) :
    Except ComposeError (SiteState V) :=
  (names.foldlM (applyVariable grid window arrays) (timeIndices, state)).map (·.2)

def applyRecords (grid : Grid) (names : List String) (records : List (ResultRecord V))
    (state : SiteState V) : Except ComposeError (SiteState V) :=
  records.foldlM (fun state record => applyResultIntoState grid record.manifest.window
    record.manifest.timeIndices record.arrays names state) state

def applyPatches (grid : Grid) (names : List String) (patches : List (ResultPatch V))
    (state : SiteState V) : Except ComposeError (SiteState V) :=
  patches.foldlM (fun state patch => applyResultIntoState grid patch.writeWindow
    patch.times patch.arrays names state) state

/-! ## The cache -/

structure CacheEntry (V : Type) where
  scenarioId : String
  version : Nat
  names : List String
  chain : List String
  nbytes : Nat
  arrays : SiteState V

def CacheEntry.hasKey (entry : CacheEntry V) (scenarioId : String) (version : Nat)
    (names : List String) : Bool :=
  entry.scenarioId = scenarioId ∧ entry.version = version ∧ entry.names = names

/-- The entries, the least recently used one first. -/
structure StateCompositionCache (V : Type) where
  entries : List (CacheEntry V)
  maxTotalBytes : Nat

namespace StateCompositionCache

def find (cache : StateCompositionCache V) (scenarioId : String) (version : Nat)
    (names chain : List String) : Option (CacheEntry V) :=
  (cache.entries.find? fun entry => entry.hasKey scenarioId version names).filter
    fun entry => entry.chain = chain

def touch (cache : StateCompositionCache V) (entry : CacheEntry V) : StateCompositionCache V :=
  { cache with
    entries := cache.entries.filter
      (fun other => ¬ other.hasKey entry.scenarioId entry.version entry.names) ++ [entry] }

def totalBytes (entries : List (CacheEntry V)) : Nat :=
  entries.foldl (fun total entry => total + entry.nbytes) 0

/-- Drops the oldest entries until the others fit. -/
def evict (maxTotalBytes : Nat) : List (CacheEntry V) → List (CacheEntry V)
  | [] => []
  | entry :: entries =>
    if maxTotalBytes < totalBytes (entry :: entries) then evict maxTotalBytes entries
    else entry :: entries

def put (cache : StateCompositionCache V) (entry : CacheEntry V) : StateCompositionCache V :=
  if cache.maxTotalBytes < entry.nbytes then cache
  else { cache with entries := evict cache.maxTotalBytes (cache.touch entry).entries }

end StateCompositionCache

/-- Four bytes for each value. -/
def nbytes (grid : Grid) (names : List String) : Nat :=
  names.dedup.length * (grid.timeSteps * grid.rows * grid.cols * 4)

/-! ## The composition -/

/-- The newest prefix of the history that the cache holds, with its length. -/
def resumeFrom (cache : StateCompositionCache V) (scenarioId : String) (names : List String)
    (records : List (ResultRecord V)) : Nat → Option (CacheEntry V × Nat)
  | 0 => none
  | start + 1 =>
    match records[start]? with
    | none => resumeFrom cache scenarioId names records start
    | some record =>
      match cache.find scenarioId record.sceneVersion names
          ((records.take (start + 1)).map (·.checksum)) with
      | none => resumeFrom cache scenarioId names records start
      | some entry => some (entry, start + 1)

/-- What a composition has when the durable records are applied. -/
structure Durable (V : Type) where
  state : SiteState V
  haveValues : List String
  cache : StateCompositionCache V

def recordNames (names : List String) (records : List (ResultRecord V)) : List String :=
  names.filter fun name => records.any fun record => (record.arrays[name]?).isSome

def patchNames (names : List String) (patches : List (ResultPatch V)) : List String :=
  names.filter fun name => patches.any fun patch => (patch.arrays[name]?).isSome

def cacheEntry (grid : Grid) (scenarioId : String) (names : List String)
    (records : List (ResultRecord V)) (state : SiteState V) : CacheEntry V where
  scenarioId
  version := (records.getLast?.map (·.sceneVersion)).getD 0
  names
  chain := records.map (·.checksum)
  nbytes := nbytes grid names
  arrays := state

/-- The state starts from a cached prefix, or from zeros. -/
def composeDurable (grid : Grid) (scenarioId : String) (zero : V) (names : List String)
    (records : List (ResultRecord V)) (cache : StateCompositionCache V) :
    Except (ComposeError × StateCompositionCache V) (Durable V) :=
  let found := resumeFrom cache scenarioId names records records.length
  let resumed := (found.map fun hit => cache.touch hit.1).getD cache
  let applied := (found.map (·.2)).getD 0
  let start := (found.map (·.1.arrays)).getD fun _ => zero
  match applyRecords grid names (records.drop applied) start with
  | .error e => .error (e, resumed)
  | .ok state =>
    let haveValues := if applied = 0 then recordNames names records else names
    .ok
      { state
        haveValues
        cache := if names ⊆ haveValues then
            resumed.put (cacheEntry grid scenarioId names records state)
          else resumed }

/-- The part of the state in a window. -/
def sliced (grid : Grid) (window : RasterWindow) (names : List String) (state : SiteState V) :
    Dict String (PatchArray V) :=
  Dict.ofEntries (names.map fun name =>
    (name, ⟨grid.timeSteps, fun t i j => state ⟨name, t, window.rowStart + i, window.colStart + j⟩⟩))

def finishComposition (grid : Grid) (window : RasterWindow) (names : List String)
    (extraPatches : List (ResultPatch V)) (durable : Durable V) :
    Except ComposeError (Dict String (PatchArray V)) := do
  let state ← applyPatches grid names extraPatches durable.state
  let missing := names.filter fun name =>
    name ∉ durable.haveValues ∧ name ∉ patchNames names extraPatches
  refuseIf (missing ≠ []) (.missingVariables missing)
  .ok (sliced grid window names state)

structure CompositionRequest (V : Type) where
  names : List String
  window : RasterWindow
  targetVersion : Nat
  extraPatches : List (ResultPatch V)

/-- The arrays or the error, and the cache afterwards. -/
def composeCurrentState (grid : Grid) (scenarioId : String) (zero : V)
    (results : List (ResultRecord V)) (request : CompositionRequest V)
    (cache : StateCompositionCache V) :
    Except ComposeError (Dict String (PatchArray V)) × StateCompositionCache V :=
  let records := results.filter fun record => record.sceneVersion ≤ request.targetVersion
  if records = [] then (.error .noResult, cache)
  else
    match guardComposition (records.map (·.manifest)) request.names grid with
    | .error e => (.error e, cache)
    | .ok _ =>
      match composeDurable grid scenarioId zero request.names records cache with
      | .error e => (.error e.1, e.2)
      | .ok durable =>
        (finishComposition grid request.window request.names request.extraPatches durable,
          durable.cache)

end Solweig.Compose
