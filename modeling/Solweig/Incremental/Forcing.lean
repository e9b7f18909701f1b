import Mathlib.Algebra.Order.Field.Rat
import Mathlib.Data.List.Sort
import Mathlib.Data.Prod.Lex
import Mathlib.Data.String.Basic
import Solweig.Lib.Fold
import Solweig.Lib.Ordered

/-!
# Forcing overlay

Changes of the meteorological table, for one timestep or for a whole series, folded over the
published batches and written into a copy of the baseline.
-/

namespace Solweig.Incremental

open Solweig.Lib

/-- A float of the table or of a change. -/
inductive MetValue where
  | finite (value : Rat)
  | notFinite
  deriving DecidableEq

/-- One number, or one for each timestep. -/
inductive ForcingValue where
  | scalar (value : MetValue)
  | series (values : List MetValue)
  deriving DecidableEq

/-- Without a time index the change is of the whole series. -/
structure ForcingChange where
  variableName : String
  timeIndex : Option Nat
  beforeValue : Option ForcingValue
  afterValue : Option ForcingValue
  deriving DecidableEq

structure ForcingDelta where
  sourceNodeId : String
  adapterId : String
  changes : List ForcingChange

abbrev ForcingKey := String × Option Nat

def ForcingChange.key (change : ForcingChange) : ForcingKey :=
  (change.variableName, change.timeIndex)

/-! ## Variables -/

structure ForcingVariableSpec where
  variableName : String
  column : Nat
  units : String
  low : Rat
  high : Rat

def variableSpecs : List ForcingVariableSpec :=
  [⟨"air_temperature", 11, "degC", -60, 60⟩,
    ⟨"humidity", 10, "percent", 0, 100⟩,
    ⟨"radiation", 14, "W m-2", 0, 1500⟩,
    ⟨"wind_speed", 9, "m s-1", 0, 75⟩,
    ⟨"pressure", 12, "hPa", 300, 1100⟩,
    ⟨"uhii", 24, "K", -10, 15⟩]

def specByVariable (name : String) : Option ForcingVariableSpec :=
  variableSpecs.find? (·.variableName = name)

def meteorologyVariablesBlocked : List String :=
  ["year", "day_of_year", "hour", "minute", "diffuse_radiation", "direct_radiation",
    "wind_direction"]

def adapterId : String := "meteorological_forcing"

def meteorologySourceNode : String := "meteorology"

theorem spec_of_column {spec other : ForcingVariableSpec} {name otherName : String}
    (h : specByVariable name = some spec) (hother : specByVariable otherName = some other)
    (hcolumn : spec.column = other.column) : name = otherName := by
  have hdistinct : (variableSpecs.map (·.column)).Nodup := by decide
  have hsame := List.inj_on_of_nodup_map hdistinct (List.mem_of_find?_eq_some h)
    (List.mem_of_find?_eq_some hother) hcolumn
  have hname : spec.variableName = name := by simpa using List.find?_some h
  have hotherName : other.variableName = otherName := by simpa using List.find?_some hother
  rw [← hname, ← hotherName, hsame]

/-! ## Overlays -/

inductive SourceDeltaError where
  | blockedVariable (name : String)
  | unknownVariable (name : String)
  | notFinite (name role : String)
  | belowBound (name : String) (value bound : Rat)
  | aboveBound (name : String) (value bound : Rat)
  | duplicateChange (key : ForcingKey)
  | foreignAdapter (adapterId : String)
  | foreignSource (sourceNodeId : String)
  | columnMissing (name : String) (columns column : Nat)
  | seriesLength (name : String) (values timesteps : Nat)
  | timeOutside (timeIndex timesteps : Nat)
  | noValue (name : String)
  deriving DecidableEq

def ForcingValue.items : ForcingValue → List MetValue
  | .scalar value => [value]
  | .series values => values

def checkFinite (name role : String) (value : Option ForcingValue) :
    Except SourceDeltaError Unit :=
  refuseIf (MetValue.notFinite ∈ (value.map ForcingValue.items).getD []) (.notFinite name role)

def checkDomain (spec : ForcingVariableSpec) : MetValue → Except SourceDeltaError Unit
  | .finite value => do
    refuseIf (value < spec.low) (.belowBound spec.variableName value spec.low)
    refuseIf (spec.high < value) (.aboveBound spec.variableName value spec.high)
  | .notFinite => pure ()

/-- One change of an overlay, after the keys that were seen. -/
def checkChange (seen : List ForcingKey) (change : ForcingChange) :
    Except SourceDeltaError (List ForcingKey) := do
  refuseIf (change.variableName ∈ meteorologyVariablesBlocked)
    (.blockedVariable change.variableName)
  match specByVariable change.variableName with
  | none => throw (.unknownVariable change.variableName)
  | some spec =>
    checkFinite change.variableName "after_value" change.afterValue
    checkFinite change.variableName "before_value" change.beforeValue
    ((change.afterValue.map ForcingValue.items).getD []).forM (checkDomain spec)
    refuseIf (change.key ∈ seen) (.duplicateChange change.key)
    pure (seen ++ [change.key])

/-- An overlay has passed its own checks. -/
structure ForcingOverlay where
  changes : List ForcingChange
  checked : (changes.foldlM checkChange []).isOk = true

def ForcingOverlay.make (changes : List ForcingChange) : Except SourceDeltaError ForcingOverlay :=
  match h : changes.foldlM checkChange [] with
  | .error error => .error error
  | .ok _ => .ok ⟨changes, by rw [h]; rfl⟩

theorem ForcingOverlay.make_ok {changes : List ForcingChange} {overlay : ForcingOverlay}
    (h : ForcingOverlay.make changes = .ok overlay) : overlay.changes = changes := by
  unfold ForcingOverlay.make at h
  split at h
  · cases h
  · rw [← Except.ok.inj h]

/-! ## Folding -/

/-- The last value of each key, with the first value before it. -/
def foldChange (folded : List (ForcingKey × ForcingChange)) (change : ForcingChange) :
    List (ForcingKey × ForcingChange) :=
  let firstBefore := match folded.find? (·.1 = change.key) with
    | none => change.beforeValue
    | some previous => previous.2.beforeValue
  Ordered.assign folded (change.key, { change with beforeValue := firstBefore })

def foldDelta (folded : List (ForcingKey × ForcingChange)) (delta : ForcingDelta) :
    Except SourceDeltaError (List (ForcingKey × ForcingChange)) := do
  refuseIf (delta.adapterId ≠ adapterId) (.foreignAdapter delta.adapterId)
  refuseIf (delta.sourceNodeId ≠ meteorologySourceNode) (.foreignSource delta.sourceNodeId)
  pure (delta.changes.foldl foldChange folded)

/-- A whole-series change sorts before the timesteps of its variable. -/
def timeOrder : Option Nat → Int
  | none => -1
  | some timeIndex => timeIndex

def changeBefore (a b : ForcingChange) : Prop :=
  toLex (a.variableName, timeOrder a.timeIndex) ≤ toLex (b.variableName, timeOrder b.timeIndex)

instance : DecidableRel changeBefore := fun _ _ => inferInstanceAs (Decidable (_ ≤ _))

instance : Std.Total changeBefore := ⟨fun _ _ => le_total _ _⟩

instance : IsTrans ForcingChange changeBefore := ⟨fun _ _ _ => le_trans⟩

def overlayFromDeltas (deltas : List ForcingDelta) : Except SourceDeltaError ForcingOverlay := do
  let folded ← deltas.foldlM foldDelta []
  ForcingOverlay.make ((folded.map Prod.snd).insertionSort changeBefore)

/-- The overlay that is applied after a batch: its changes over those that were published. -/
def effectiveForcingOverlay (applied : Option ForcingOverlay) (batch : List ForcingDelta) :
    Except SourceDeltaError (Option ForcingOverlay) :=
  if batch = [] then .ok applied
  else do
    let batchOverlay ← overlayFromDeltas batch
    let recorded := (applied.map ForcingOverlay.changes).getD []
    let folded := Ordered.assignAll
      ((recorded ++ batchOverlay.changes).map fun change => (change.key, change))
    let merged ← ForcingOverlay.make (folded.map Prod.snd)
    pure (some merged)

/-- The overlay after batches that were all published. -/
def publishedOverlay (batches : List (List ForcingDelta)) :
    Except SourceDeltaError (Option ForcingOverlay) :=
  batches.foldlM effectiveForcingOverlay none

/-! ## Resolution -/

/-- The table of the site, by timestep and column. -/
structure MetTable where
  rows : Nat
  columns : Nat
  cell : Nat → Nat → MetValue

def MetTable.setCells (table : MetTable) (column : Nat) (values : Nat → Option MetValue) :
    MetTable :=
  { table with
    cell := fun row col => if col = column then (values row).getD (table.cell row col)
      else table.cell row col }

/-- What a change gives a timestep. -/
def ForcingValue.at (value : ForcingValue) (timeIndex : Nat) : Option MetValue :=
  match value with
  | .scalar value => some value
  | .series values => values[timeIndex]?

def resolveChange (table : MetTable) (change : ForcingChange) :
    Except SourceDeltaError MetTable :=
  match specByVariable change.variableName with
  | none => .error (.unknownVariable change.variableName)
  | some spec => do
    refuseIf (table.columns ≤ spec.column)
      (.columnMissing change.variableName table.columns spec.column)
    match change.timeIndex with
    | none =>
      match change.afterValue with
      | none => throw (.noValue change.variableName)
      | some (.series values) =>
        refuseIf (values.length ≠ table.rows)
          (.seriesLength change.variableName values.length table.rows)
        pure (table.setCells spec.column fun row => values[row]?)
      | some (.scalar value) => pure (table.setCells spec.column fun _ => some value)
    | some timeIndex =>
      refuseIf (table.rows ≤ timeIndex) (.timeOutside timeIndex table.rows)
      match change.afterValue.bind (·.at timeIndex) with
      | none => throw (.noValue change.variableName)
      | some value =>
        pure (table.setCells spec.column fun row => if row = timeIndex then some value else none)

def ForcingOverlay.resolve (overlay : ForcingOverlay) (baseline : MetTable) :
    Except SourceDeltaError MetTable :=
  overlay.changes.foldlM resolveChange baseline

/-- Without an overlay the baseline is served. -/
def resolveApplied (applied : Option ForcingOverlay) (baseline : MetTable) :
    Except SourceDeltaError MetTable :=
  match applied with
  | none => .ok baseline
  | some overlay => overlay.resolve baseline

end Solweig.Incremental
