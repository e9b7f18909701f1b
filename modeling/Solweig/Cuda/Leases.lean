import Solweig.Lib.Dict
import Solweig.Lib.Run

/-!
# Output leases

A run leaves its outputs on the device, and its downloads and their events on the stream. The
device takes the work from the stream in order, at a pace of its own.
-/

namespace Solweig.Cuda

open Solweig.Lib

variable {V : Type}

/-- `_RAD_DAY_OUTPUTS` and `_RAD_DAY_NEXT` -/
def radDayOutputs : List String :=
  ["tmrt", "kdown", "kup", "ldown", "lup", "ke", "ks", "kw", "kn", "le", "ls", "lw", "ln",
    "ksidei", "tgout", "lside", "ksided", "drad", "kside", "n_lup", "n_e", "n_s", "n_w", "n_n",
    "n_tg"]

/-- The bits of each row of an output. -/
abbrev Plane (V : Type) := Nat → V

/-! ## The device -/

inductive Work (V : Type) where
  | kernel (outputs : String → Plane V)
  | copy (name : String) (start stop : Nat)
  | record (name : String)

/-- The device buffers of the outputs, and the pinned buffers of the host. -/
structure Device (V : Type) where
  outs : String → Plane V
  pinned : String → Plane V

def Work.perform (device : Device V) : Work V → Device V
  | .kernel outputs => { device with outs := outputs }
  | .copy name start stop =>
    { device with
      pinned := Function.update device.pinned name fun row =>
        if start ≤ row ∧ row < stop then device.outs name row else device.pinned name row }
  | .record _ => device

def Work.records (name : String) : Work V → Bool
  | .record other => other = name
  | _ => false

/-- The event of a slot has not fired. -/
def pendingOn (stream : List (Work V)) (name : String) : Bool := stream.any (Work.records name)

/-! ## The runner -/

structure Slot where
  rows : Nat
  generation : Nat

structure OutputLease (V : Type) where
  names : List String
  window : Option (Nat × Nat)
  generations : Dict String Nat
  published : Bool
  released : Bool
  -- history only: what the kernel of the run computed
  outputs : String → Plane V

inductive LeaseError where
  | badWindow (window : Nat × Nat)
  | bufferPending (name : String)
  | unknownOutput (name : String)
  | released
  | alreadyPublished
  | stale (name : String)
  | noSlot (name : String)
  | publishPending
  deriving DecidableEq

structure LeaseRunner (V : Type) where
  rows : Nat
  device : Device V
  stream : List (Work V)
  slots : Dict String Slot
  leases : List (OutputLease V)

/-- The device completes the next pieces of work. -/
def LeaseRunner.progress (runner : LeaseRunner V) (count : Nat) : LeaseRunner V :=
  { runner with
    device := (runner.stream.take count).foldl Work.perform runner.device
    stream := runner.stream.drop count }

def LeaseRunner.launch (runner : LeaseRunner V) (work : List (Work V)) : LeaseRunner V :=
  { runner with stream := runner.stream ++ work }

/-- `_slot` -/
def LeaseRunner.slot (runner : LeaseRunner V) (name : String) : Slot :=
  runner.slots.getD name ⟨runner.rows, 0⟩

def LeaseRunner.setSlot (runner : LeaseRunner V) (name : String) (slot : Slot) : LeaseRunner V :=
  { runner with slots := runner.slots.insert name slot }

def Slot.bumped (slot : Slot) : Slot := { slot with generation := slot.generation + 1 }

/-- The names with the work that the device completes before it is asked for each event. -/
abbrev Download := List (String × Nat)

/-- The loop of `_download`. An error leaves the names before it downloaded. -/
def downloadNames (start stop : Nat) (runner : LeaseRunner V) (generations : Dict String Nat) :
    Download → LeaseRunner V × Except LeaseError (Dict String Nat)
  | [] => (runner, .ok generations)
  | (name, count) :: rest =>
    let runner := runner.progress count
    let slot := runner.slot name
    if pendingOn runner.stream name then
      (runner.setSlot name slot, .error (.bufferPending name))
    else
      let runner := runner.setSlot name slot.bumped
      if name ∉ radDayOutputs then (runner, .error (.unknownOutput name))
      else
        downloadNames start stop (runner.launch [.copy name start stop, .record name])
          (generations.insert name slot.bumped.generation) rest

def windowStart (window : Option (Nat × Nat)) : Nat := (window.map (·.1)).getD 0

def windowStop (rows : Nat) (window : Option (Nat × Nat)) : Nat := (window.map (·.2)).getD rows

/-- `_download` -/
def download (runner : LeaseRunner V) (names : Download) (window : Option (Nat × Nat)) :
    LeaseRunner V × Except LeaseError (Dict String Nat) :=
  let start := windowStart window
  let stop := windowStop runner.rows window
  if ¬ (start < stop ∧ stop ≤ runner.rows) then (runner, .error (.badWindow (start, stop)))
  else downloadNames start stop runner ∅ names

/-- `run_day`, with what its kernel computes. -/
def runDay (runner : LeaseRunner V) (outputs : String → Plane V) (names : Download)
    (window : Option (Nat × Nat)) : LeaseRunner V × Except LeaseError Unit :=
  match download (runner.launch [.kernel outputs]) names window with
  | (runner, .error e) => (runner, .error e)
  | (runner, .ok generations) =>
    let lease : OutputLease V :=
      { names := names.map (·.1)
        window
        generations
        published := false
        released := false
        outputs }
    ({ runner with leases := runner.leases ++ [lease] }, .ok ())

/-! ## Leases -/

/-- The slot was downloaded again by a later run. -/
def OutputLease.staleAt (lease : OutputLease V) (slots : Dict String Slot) (name : String) : Bool :=
  (slots[name]?).any fun slot => some slot.generation ≠ lease.generations[name]?

/-- The rows of a slot that a lease reads. -/
def OutputLease.rowsOf (lease : OutputLease V) (slot : Slot) (plane : Plane V) : List V :=
  (List.range' (windowStart lease.window)
    (windowStop slot.rows lease.window - windowStart lease.window)).map plane

/-- What `publish` checks, in its order. -/
def OutputLease.refusal (lease : OutputLease V) (runner : LeaseRunner V) : Option LeaseError :=
  if lease.released then some .released
  else if lease.published then some .alreadyPublished
  else
    match lease.names.find? (lease.staleAt runner.slots) with
    | some name => some (.stale name)
    | none =>
      match lease.names.find? fun name =>
          (runner.slots[name]?).isNone || pendingOn runner.stream name with
      | some name =>
        if (runner.slots[name]?).isNone then some (.noSlot name) else some .publishPending
      | none => none

/-- `publish` -/
def OutputLease.read (lease : OutputLease V) (runner : LeaseRunner V) :
    Except LeaseError (Dict String (List V)) :=
  match lease.refusal runner with
  | some e => .error e
  | none =>
    .ok (Dict.ofEntries (lease.names.map fun name =>
      (name, lease.rowsOf (runner.slot name) (runner.device.pinned name))))

def LeaseRunner.updateLease (runner : LeaseRunner V) (i : Nat)
    (f : OutputLease V → OutputLease V) : LeaseRunner V :=
  { runner with leases := runner.leases.modify i f }

/-- `publish` of a lease of the runner. A read that is refused changes nothing. -/
def publishLease (runner : LeaseRunner V) (i : Nat) : LeaseRunner V :=
  match runner.leases[i]? with
  | none => runner
  | some lease =>
    if (lease.read runner).isOk then runner.updateLease i fun lease => { lease with published := true }
    else runner

/-- A wait is the progress of the device until the events have fired. -/
inductive LeaseEvent (V : Type) where
  | progress (count : Nat)
  | runDay (outputs : String → Plane V) (names : Download) (window : Option (Nat × Nat))
  | publish (i : Nat)
  | release (i : Nat)

def leaseStep (runner : LeaseRunner V) : LeaseEvent V → Option (LeaseRunner V)
  | .progress count => some (runner.progress count)
  | .runDay outputs names window => some (runDay runner outputs names window).1
  | .publish i => some (publishLease runner i)
  | .release i => some (runner.updateLease i fun lease => { lease with released := true })

def freshLeaseRunner (rows : Nat) (device : Device V) : LeaseRunner V where
  rows
  device
  stream := []
  slots := ∅
  leases := []

end Solweig.Cuda
