import Solweig.Realtime.Types

/-!
# Payload accessors

What the reducer reads from the payload of an operation. Where a payload is not understood the
accessor has no result, and the operation is audited without a change of state.
-/

namespace Solweig.Realtime

open Solweig.Lib

/-- Keys that are no field of an object when a payload arrives flat. -/
def flatPayloadSkip : List String :=
  ["values", "target", "old_values", "time_index", "time_start", "time_stop", "scope", "window",
    "cells", "class", "value"]

/-- The identity key of a family is never stored: the entity id is the state key. -/
def identityKey : ObjectFamily → String
  | .buildingGeometry => "building_id"
  | .vegetationGeometry => "tree_id"

def positionFields : ObjectFamily → List String
  | .vegetationGeometry => ["u", "v", "x_m", "y_m"]
  | .buildingGeometry => ["footprint_m"]

/-- The fields of an operation: nested under `values`, or the flat payload. -/
def itemValues (payload : Dict String Json) : Dict String Json :=
  let nested := Json.get payload "values"
  if nested.isMapping then nested.mapping
  else payload.filter fun k _ => k ∉ flatPayloadSkip

def objectFields (family : ObjectFamily) (payload : Dict String Json) : Dict String Json :=
  (itemValues payload).erase (identityKey family)

def paintClass (payload : Dict String Json) : Option Int :=
  [Json.get payload "class", Json.get payload "value",
    Json.get (Json.get payload "values").mapping "class"].findSome? Json.index?

def chunkSizePx : Int := 64

/-- The chunk that holds a cell. The source pairs it with the text of the cell. -/
def chunkOf (cell : Key) : Key := (cell.1 / chunkSizePx, cell.2 / chunkSizePx)

/-- The cells of a half-open brush window. -/
def windowCells (window : Dict String Json) : List Key :=
  match (Json.get window "row_start").index?, (Json.get window "row_stop").index?,
      (Json.get window "col_start").index?, (Json.get window "col_stop").index? with
  | some r₀, some r₁, some c₀, some c₁ =>
    (List.range (r₁ - r₀).toNat).flatMap fun i =>
      (List.range (c₁ - c₀).toNat).map fun j => (r₀ + (i : Int), c₀ + (j : Int))
  | _, _, _, _ => []

def cellOf : Json → Option Key
  | .arr [row, col] => row.index?.bind fun r => col.index?.map fun c => (r, c)
  | _ => none

/-- The cells of one paint in order, each once: a brush window, a list of cells, or both. -/
def paintCells (payload : Dict String Json) : List Key :=
  let target := (Json.get payload "target").mapping
  let window :=
    if (Json.get payload "window").isMapping then (Json.get payload "window").mapping
    else if "row_start" ∈ target then target else ∅
  let rawCells :=
    if Json.get payload "cells" = .null then Json.get target "cells" else Json.get payload "cells"
  let listed := (rawCells.items?.getD []).filterMap cellOf
  (Dict.ofEntries ((windowCells window ++ listed).map fun cell => (cell, ()))).keys

/-- Inclusive time bounds of a scalar or range write; no stop means unbounded. -/
def timeBounds (payload : Dict String Json) : Option (Int × Option Int) :=
  let values := (Json.get payload "values").mapping
  let start := payload.getD "time_start" (Json.get values "time_start")
  let stop := payload.getD "time_stop" (Json.get values "time_stop")
  let index := payload.getD "time_index" (Json.get values "time_index")
  if start ≠ .null ∨ stop ≠ .null then
    match start.index?, stop.index? with
    | some a, some b => if b < a then none else some (a, some b)
    | _, _ => none
  else if index ≠ .null then index.index?.map fun t => (t, some t)
  else some (0, none)

/-- The bounds of a segment write. A selected time step is the value itself, so it covers all. -/
def writeBounds (family : SegmentFamily) (payload : Dict String Json) : Option (Int × Option Int) :=
  if family = .selectedDateTime then some (0, none) else timeBounds payload

theorem timeBounds_le {payload : Dict String Json} {a : Int} {stop : Option Int}
    (h : timeBounds payload = some (a, stop)) : ∀ b, stop = some b → a ≤ b := by
  unfold timeBounds at h
  dsimp only at h
  split at h
  · split at h
    · split at h
      · simp at h
      · rename_i hlt
        simp only [Option.some.injEq, Prod.mk.injEq] at h
        rintro b rfl
        simp only [Option.some.injEq] at h
        omega
    · simp at h
  · split at h
    · simp only [Option.map_eq_some_iff, Prod.mk.injEq] at h
      rintro b rfl
      obtain ⟨t, -, rfl, hb⟩ := h
      simp only [Option.some.injEq] at hb
      omega
    · simp only [Option.some.injEq, Prod.mk.injEq] at h
      rintro b rfl
      simp at h

theorem writeBounds_le {family : SegmentFamily} {payload : Dict String Json} {a : Int}
    {stop : Option Int} (h : writeBounds family payload = some (a, stop)) :
    ∀ b, stop = some b → a ≤ b := by
  unfold writeBounds at h
  split at h
  · simp only [Option.some.injEq, Prod.mk.injEq] at h
    rintro b rfl
    simp at h
  · exact timeBounds_le h

end Solweig.Realtime
