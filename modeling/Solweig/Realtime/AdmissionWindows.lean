import Mathlib.Algebra.Order.Archimedean.Basic
import Solweig.Realtime.Admission

/-!
# The windows of admission

A batch is admitted against bounds that do not look back, then against two sliding seconds: the
operations of its workspace, and the workspaces that are active. Times are the floats of the
clock, in seconds, and milliseconds are exact.
-/

namespace Solweig.Realtime

open Solweig.Lib

/-! ## Booked costs -/

/-- `FAMILY_FAST_COST_MS`, else `UNKNOWN_FAMILY_COST_MS` -/
def familyFastCostMs : String → Rat
  | "output_view" => 5
  | "selected_date_time" => 40
  | "meteorological_forcing" => 40
  | "model_receptor_parameters" => 40
  | "vegetation_geometry" => 180
  | "building_geometry" => 220
  | "landcover_surface" => 150
  | _ => 250

def landcoverCellCostMs : Rat := 4 / 1000

def predictOperationCostMs (item : BatchItem) : Rat :=
  let base := familyFastCostMs item.sourceFamily
  if item.sourceFamily ≠ "landcover_surface" then base
  else
    match inclusiveBounds item.payload with
    | none => base
    | some bounds => max base (bounds.area * landcoverCellCostMs)

def perOperationMarginMs : Rat := 2

def predictEpochComputeMs (items : List BatchItem) : Rat :=
  match items.map predictOperationCostMs with
  | [] => 0
  | cost :: costs => costs.foldl max cost + perOperationMarginMs * items.length

/-! ## The size of a payload -/

/-- How long a character is in `json.dumps`, which escapes all but printable ASCII. -/
def dumpsChar (c : Char) : Nat :=
  if c ∈ ['"', '\\', '\n', '\r', '\t', '\x0c', '\x08'] then 2
  else if ' ' ≤ c ∧ c ≤ '~' then 1
  else if c.toNat < 0x10000 then 6
  else 12

def dumpsString (s : String) : Nat := 2 + (s.toList.map dumpsChar).sum

section Dumps

-- the length of `repr` of a float
variable (floatLength : Rat → Nat)

mutual

/-- `len(json.dumps(value))`, with `", "` and `": "` between the parts -/
def dumpsLength : Json → Nat
  | .null => 4
  | .bool b => if b then 4 else 5
  | .int i => (toString i).length
  | .float q => floatLength q
  | .inf negative => if negative then "-Infinity".length else "Infinity".length
  | .str s => dumpsString s
  | .arr items => 2 + dumpsItems items + 2 * (items.length - 1)
  | .obj fields => 2 + dumpsFields fields + 2 * (fields.length - 1)

def dumpsItems : List Json → Nat
  | [] => 0
  | a :: as => dumpsLength a + dumpsItems as

def dumpsFields : List (String × Json) → Nat
  | [] => 0
  | (k, a) :: as => dumpsString k + 2 + dumpsLength a + dumpsFields as

end

/-- A value that counts as false has no size. -/
def falsy : Json → Bool
  | .null => true
  | .bool b => !b
  | .int i => i = 0
  | .float q => q = 0
  | .inf _ => false
  | .str s => s.isEmpty
  | .arr items => items.isEmpty
  | .obj fields => fields.isEmpty

def payloadSize (item : BatchItem) : Nat :=
  if falsy item.payload then 0 else dumpsLength floatLength item.payload

end Dumps

/-! ## The envelope -/

structure AdmissionEnvelope where
  maxOperationsPerEpoch : Nat := 128
  maxAcceptedOperationsPerSecond : Rat := 128
  maxChangedCellsPerEpoch : Nat := 100000
  maxGeometryObjectsTouchedPerEpoch : Nat := 1000
  maxPayloadBytesPerOperation : Nat := 65536
  maxActiveWorkspaces : Nat := 256
  fastComputeBudgetMsPerEpoch : Rat := 550

/-- What the rejection is about, with the numbers of its message. -/
inductive Refusal where
  | saturated
  | operations (count limit : Nat)
  | geometry (touched limit : Nat)
  | cells (changed limit : Nat)
  | payload (index size limit : Nat)
  | compute (elapsed reserved predicted available : Rat)
  | rate (count : Nat) (limit : Rat)
  | workspaces (active limit : Nat)
  deriving DecidableEq

structure AdmissionRejected where
  status : Nat
  code : String
  refusal : Refusal
  retryAfterMs : Int
  deriving DecidableEq

/-- `round` of a float: halves go to the even neighbour. -/
def pyRound (q : Rat) : Int :=
  let rest := q - ⌊q⌋
  if rest < 1 / 2 then ⌊q⌋
  else if 1 / 2 < rest then ⌊q⌋ + 1
  else if ⌊q⌋ % 2 = 0 then ⌊q⌋ else ⌊q⌋ + 1

def minRetryAfterMs : Rat := 50

def retryAfterMs (raw : Rat) : Int := max 50 (pyRound raw)

def overloaded (refusal : Refusal) (raw : Rat) : AdmissionRejected where
  status := 429
  code := "fast_lane_overloaded"
  refusal := refusal
  retryAfterMs := retryAfterMs raw

def unavailable (refusal : Refusal) (raw : Rat) : AdmissionRejected where
  status := 503
  code := "fast_lane_unavailable"
  refusal := refusal
  retryAfterMs := retryAfterMs raw

/-! ## The bounds that do not look back -/

/-- A call of `check`, with what it reads of the clock and of the fast lane. -/
structure AdmissionCall where
  workspaceId : String
  items : List BatchItem
  receivedAt : Rat
  now : Rat
  saturated : Bool
  reservedMs : Rat

def defaultFastDeadlineBudgetMs : Rat := 1000

def fixedStageMs : Rat := 100 + 100 + 150

def AdmissionCall.elapsedIngestMs (c : AdmissionCall) : Rat := max 0 ((c.now - c.receivedAt) * 1000)

def AdmissionCall.computeAvailableMs (c : AdmissionCall) (envelope : AdmissionEnvelope) : Rat :=
  let deadlineRemainingMs := max 0 (defaultFastDeadlineBudgetMs - c.elapsedIngestMs)
  max 0 (min envelope.fastComputeBudgetMsPerEpoch (deadlineRemainingMs - fixedStageMs) -
    c.reservedMs)

def geometryTouched (items : List BatchItem) : Nat :=
  items.countP fun item => item.sourceFamily ∈ ["building_geometry", "vegetation_geometry"]

/-- The first payload that is too large. -/
def oversized (floatLength : Rat → Nat) (limit : Nat) (items : List BatchItem) :
    Option (Nat × Nat) :=
  (items.map (payloadSize floatLength)).zipIdx.findSome? fun entry =>
    if limit < entry.1 then some (entry.2, entry.1) else none

section Check

variable (floatLength : Rat → Nat) (envelope : AdmissionEnvelope)

def boundsRejection (c : AdmissionCall) : Option AdmissionRejected :=
  if c.saturated then some (unavailable .saturated (2 * minRetryAfterMs))
  else if envelope.maxOperationsPerEpoch < c.items.length then
    some (overloaded (.operations c.items.length envelope.maxOperationsPerEpoch) minRetryAfterMs)
  else if envelope.maxGeometryObjectsTouchedPerEpoch < geometryTouched c.items then
    some (overloaded
      (.geometry (geometryTouched c.items) envelope.maxGeometryObjectsTouchedPerEpoch)
      minRetryAfterMs)
  else if envelope.maxChangedCellsPerEpoch < changedCells c.items then
    some (overloaded (.cells (changedCells c.items) envelope.maxChangedCellsPerEpoch)
      minRetryAfterMs)
  else
    match oversized floatLength envelope.maxPayloadBytesPerOperation c.items with
    | some (index, size) =>
      some (overloaded (.payload index size envelope.maxPayloadBytesPerOperation) minRetryAfterMs)
    | none =>
      let predicted := predictEpochComputeMs c.items
      let available := c.computeAvailableMs envelope
      if available < predicted then
        some (overloaded (.compute c.elapsedIngestMs c.reservedMs predicted available)
          (predicted - available))
      else none

/-! ## The windows -/

structure FastAdmission where
  admittedEvents : Dict String (List Rat) := ∅
  workspaceEvents : List (String × Rat) := []
  rejectionsTotal : Nat := 0

/-- Events leave the window from the front. -/
def pruned (now : Rat) (events : List Rat) : List Rat := events.dropWhile fun t => 1 ≤ now - t

def prunedActive (now : Rat) (events : List (String × Rat)) : List (String × Rat) :=
  events.dropWhile fun e => 1 ≤ now - e.2

namespace FastAdmission

def events (s : FastAdmission) (workspaceId : String) : List Rat :=
  s.admittedEvents.getD workspaceId []

/-- The operations of the workspace within the second. -/
def recent (s : FastAdmission) (c : AdmissionCall) : List Rat :=
  pruned c.now (s.events c.workspaceId)

def active (s : FastAdmission) (c : AdmissionCall) : List (String × Rat) :=
  prunedActive c.now s.workspaceEvents

def reject (s : FastAdmission) (r : AdmissionRejected) : Option AdmissionRejected × FastAdmission :=
  (some r, { s with rejectionsTotal := s.rejectionsTotal + 1 })

/-- How long until the oldest event leaves. -/
def waitMs (now : Rat) : List Rat → Rat
  | [] => 0
  | t :: _ => (1 - (now - t)) * 1000

/-- `check`: the rejection, if there is one, and what is left behind. -/
def check (s : FastAdmission) (c : AdmissionCall) : Option AdmissionRejected × FastAdmission :=
  match boundsRejection floatLength envelope c with
  | some r => s.reject r
  | none =>
    let recent := s.recent c
    if envelope.maxAcceptedOperationsPerSecond < (recent.length + c.items.length : Nat) then
      { s with admittedEvents := s.admittedEvents.insert c.workspaceId recent }.reject
        (overloaded (.rate c.items.length envelope.maxAcceptedOperationsPerSecond)
          (waitMs c.now recent))
    else
      let s := { s with
        admittedEvents := s.admittedEvents.insert c.workspaceId
          (recent ++ List.replicate c.items.length c.now)
        workspaceEvents := s.active c }
      let workspaces := (s.workspaceEvents.map Prod.fst).dedup
      if c.workspaceId ∉ workspaces ∧ envelope.maxActiveWorkspaces ≤ workspaces.length then
        s.reject (unavailable (.workspaces workspaces.length envelope.maxActiveWorkspaces)
          minRetryAfterMs)
      else
        (none, { s with workspaceEvents := s.workspaceEvents ++ [(c.workspaceId, c.now)] })

/-- Accepted, or the status of the rejection, call by call. -/
def outcomes (s : FastAdmission) : List AdmissionCall → List (Option Nat)
  | [] => []
  | c :: calls => (s.check floatLength envelope c).1.map (·.status) ::
    outcomes (s.check floatLength envelope c).2 calls

/-- Whatever is called later, in the order of the clock, has the same outcomes without the call. -/
def Invisible (s : FastAdmission) (c : AdmissionCall) : Prop :=
  ∀ later : List AdmissionCall, (c.now :: later.map (·.now)).Pairwise (· ≤ ·) →
    outcomes floatLength envelope (s.check floatLength envelope c).2 later =
      outcomes floatLength envelope s later

/-! ## States that agree from now on -/

theorem dropWhile_dropWhile {α : Type} {p q : α → Bool} (h : ∀ a, p a = true → q a = true)
    (l : List α) : (l.dropWhile p).dropWhile q = l.dropWhile q := by
  induction l with
  | nil => rfl
  | cons a l ih =>
    by_cases ha : p a = true
    · rw [List.dropWhile_cons_of_pos ha, List.dropWhile_cons_of_pos (h a ha), ih]
    · rw [List.dropWhile_cons_of_neg ha]

theorem pruned_pruned {now later : Rat} (h : now ≤ later) (l : List Rat) :
    pruned later (pruned now l) = pruned later l := by
  refine dropWhile_dropWhile (fun t ht => ?_) l
  simp only [decide_eq_true_eq] at ht ⊢
  linarith

theorem prunedActive_prunedActive {now later : Rat} (h : now ≤ later) (l : List (String × Rat)) :
    prunedActive later (prunedActive now l) = prunedActive later l := by
  refine dropWhile_dropWhile (fun e he => ?_) l
  simp only [decide_eq_true_eq] at he ⊢
  linarith

/-- From the time on, the windows hold the same. -/
def SameFrom (now : Rat) (s t : FastAdmission) : Prop :=
  ∀ later, now ≤ later →
    (∀ workspaceId, pruned later (s.events workspaceId) = pruned later (t.events workspaceId)) ∧
      prunedActive later s.workspaceEvents = prunedActive later t.workspaceEvents

variable {floatLength envelope} {s t : FastAdmission} {c : AdmissionCall} {now : Rat}

theorem SameFrom.refl (now : Rat) (s : FastAdmission) : SameFrom now s s :=
  fun _ _ => ⟨fun _ => rfl, rfl⟩

theorem SameFrom.later (h : SameFrom now s t) {later : Rat} (hle : now ≤ later) :
    SameFrom later s t := fun last hlast => h last (hle.trans hlast)

theorem events_insert (d : Dict String (List Rat)) (active : List (String × Rat))
    (rejections : Nat) (w w' : String) (l : List Rat) :
    events ⟨d.insert w l, active, rejections⟩ w' = if w = w' then l else d.getD w' [] := by
  unfold events
  split
  · rename_i heq
    rw [heq, Std.ExtTreeMap.getD_insert_self]
  · exact Dict.getD_insert_of_ne _ _ _ ‹_›

theorem sameFrom_recent (s : FastAdmission) (c : AdmissionCall) {active : List (String × Rat)}
    (hactive : ∀ later, c.now ≤ later →
      prunedActive later active = prunedActive later s.workspaceEvents) (rejections : Nat) :
    SameFrom c.now ⟨s.admittedEvents.insert c.workspaceId (s.recent c), active, rejections⟩ s := by
  refine fun later hle => ⟨fun w => ?_, hactive later hle⟩
  rw [events_insert]
  split
  · rename_i heq
    rw [recent, heq, pruned_pruned hle]
  · rfl

theorem SameFrom.written (h : SameFrom c.now s t) (l : List Rat) {active active' : List (String × Rat)}
    (hactive : ∀ later, c.now ≤ later → prunedActive later active = prunedActive later active')
    (n m : Nat) :
    SameFrom c.now ⟨s.admittedEvents.insert c.workspaceId l, active, n⟩
      ⟨t.admittedEvents.insert c.workspaceId l, active', m⟩ := by
  refine fun later hle => ⟨fun w => ?_, hactive later hle⟩
  rw [events_insert, events_insert]
  split
  · rfl
  · exact (h later hle).1 w

theorem SameFrom.recent (h : SameFrom now s t) (hle : now ≤ c.now) : s.recent c = t.recent c :=
  (h c.now hle).1 c.workspaceId

theorem SameFrom.active (h : SameFrom now s t) (hle : now ≤ c.now) : s.active c = t.active c :=
  (h c.now hle).2

end FastAdmission

end Check

namespace FastAdmission

variable (floatLength : Rat → Nat) (envelope : AdmissionEnvelope) {s t : FastAdmission}
  {c : AdmissionCall} {now : Rat}

theorem check_sameFrom (h : SameFrom now s t) (hle : now ≤ c.now) :
    (s.check floatLength envelope c).1 = (t.check floatLength envelope c).1 ∧
      SameFrom c.now (s.check floatLength envelope c).2 (t.check floatLength envelope c).2 := by
  have hnow := h.later hle
  unfold check
  simp only [← h.recent hle, ← h.active hle]
  cases boundsRejection floatLength envelope c with
  | some r => exact ⟨rfl, hnow⟩
  | none =>
    dsimp only
    split
    · exact ⟨rfl, hnow.written _ (fun later hlater => (hnow later hlater).2) _ _⟩
    · split
      · exact ⟨rfl, hnow.written _ (fun _ _ => rfl) _ _⟩
      · exact ⟨rfl, hnow.written _ (fun _ _ => rfl) _ _⟩

theorem outcomes_sameFrom (h : SameFrom now s t) {later : List AdmissionCall}
    (hlater : (now :: later.map (·.now)).Pairwise (· ≤ ·)) :
    outcomes floatLength envelope s later = outcomes floatLength envelope t later := by
  induction later generalizing s t now with
  | nil => rfl
  | cons c later ih =>
    obtain ⟨hnow, hrest⟩ := List.pairwise_cons.mp hlater
    obtain ⟨hsame, hnext⟩ := check_sameFrom floatLength envelope h (hnow c.now (by simp))
    simp only [outcomes, hsame, ih hnext hrest]

/-! ## Rejections that charge -/

/-- The operations of the call fit into the second. -/
def FitsRate (s : FastAdmission) (c : AdmissionCall) : Prop :=
  ((s.recent c).length + c.items.length : Nat) ≤ envelope.maxAcceptedOperationsPerSecond

/-- Another workspace does not fit in. -/
def Full (s : FastAdmission) (c : AdmissionCall) : Prop :=
  c.workspaceId ∉ (s.active c).map Prod.fst ∧
    envelope.maxActiveWorkspaces ≤ ((s.active c).map Prod.fst).dedup.length

/-- The call passes every bound but that of the active workspaces, and has operations. -/
def Charged (s : FastAdmission) (c : AdmissionCall) : Prop :=
  boundsRejection floatLength envelope c = none ∧ FitsRate envelope s c ∧ Full envelope s c ∧
    c.items ≠ []

theorem check_windows (hb : boundsRejection floatLength envelope c = none) :
    (¬ FitsRate envelope s c ∧ s.check floatLength envelope c =
      (some (overloaded (.rate c.items.length envelope.maxAcceptedOperationsPerSecond)
        (waitMs c.now (s.recent c))),
        ⟨s.admittedEvents.insert c.workspaceId (s.recent c), s.workspaceEvents,
          s.rejectionsTotal + 1⟩)) ∨
    (FitsRate envelope s c ∧ Full envelope s c ∧ s.check floatLength envelope c =
      (some (unavailable (.workspaces ((s.active c).map Prod.fst).dedup.length
        envelope.maxActiveWorkspaces) minRetryAfterMs),
        ⟨s.admittedEvents.insert c.workspaceId (s.recent c ++ List.replicate c.items.length c.now),
          s.active c, s.rejectionsTotal + 1⟩)) ∨
    FitsRate envelope s c ∧ ¬ Full envelope s c ∧ (s.check floatLength envelope c).1 = none := by
  unfold check
  rw [hb]
  dsimp only
  by_cases hrate : envelope.maxAcceptedOperationsPerSecond <
      ((s.recent c).length + c.items.length : Nat)
  · rw [if_pos hrate]
    exact Or.inl ⟨not_le.mpr hrate, rfl⟩
  · rw [if_neg hrate]
    have hfits : FitsRate envelope s c := not_lt.mp hrate
    have hfull : (c.workspaceId ∉ ((s.active c).map Prod.fst).dedup ∧
        envelope.maxActiveWorkspaces ≤ ((s.active c).map Prod.fst).dedup.length) ↔
        Full envelope s c := by
      unfold Full
      rw [List.mem_dedup]
    by_cases hf : Full envelope s c
    · rw [if_pos (hfull.mpr hf)]
      exact Or.inr (Or.inl ⟨hfits, hf, rfl⟩)
    · rw [if_neg (mt hfull.mp hf)]
      exact Or.inr (Or.inr ⟨hfits, hf, rfl⟩)

theorem rejected_sameFrom (hr : (s.check floatLength envelope c).1 ≠ none)
    (hc : ¬ Charged floatLength envelope s c) :
    SameFrom c.now (s.check floatLength envelope c).2 s := by
  cases hb : boundsRejection floatLength envelope c with
  | some r =>
    unfold check
    rw [hb]
    exact SameFrom.refl c.now s
  | none =>
    obtain ⟨-, heq⟩ | ⟨hfits, hfull, heq⟩ | ⟨-, -, hnone⟩ :=
      check_windows floatLength envelope (s := s) hb
    · rw [heq]
      exact sameFrom_recent s c (fun _ _ => rfl) _
    · have hempty : c.items = [] := by
        by_contra hitems
        exact hc ⟨hb, hfits, hfull, hitems⟩
      rw [heq, hempty]
      simp only [List.length_nil, List.replicate_zero, List.append_nil]
      exact sameFrom_recent s c (fun _ hle => prunedActive_prunedActive hle _) _
    · exact absurd hnone hr

theorem pruned_recent (s : FastAdmission) (c : AdmissionCall) (n : Nat) :
    pruned c.now (s.recent c ++ List.replicate n c.now) = s.recent c ++ List.replicate n c.now := by
  have hself : ∀ l : List Rat, (∀ t ∈ l.head?, ¬ 1 ≤ c.now - t) → pruned c.now l = l := by
    intro l hl
    cases l with
    | nil => rfl
    | cons t l => exact List.dropWhile_cons_of_neg (by simpa using hl t rfl)
  refine hself _ fun t ht => ?_
  cases hr : s.recent c with
  | nil =>
    rw [hr, List.nil_append] at ht
    cases n with
    | zero => cases ht
    | succ n =>
      obtain rfl : c.now = t := by simpa [List.replicate_succ] using ht
      norm_num
  | cons first rest =>
    rw [hr] at ht
    obtain rfl : first = t := by simpa using ht
    have hhead := List.head?_dropWhile_not (fun t => decide (1 ≤ c.now - t)) (s.events c.workspaceId)
    rw [show (s.events c.workspaceId).dropWhile _ = first :: rest from hr] at hhead
    simpa using hhead

theorem charged_recent (h : Charged floatLength envelope s c) :
    ((s.check floatLength envelope c).2.recent c).length =
      (s.recent c).length + c.items.length := by
  obtain ⟨hb, hfits, hfull, -⟩ := h
  obtain ⟨hrate, -⟩ | ⟨-, -, heq⟩ | ⟨-, hfull', -⟩ :=
    check_windows floatLength envelope (s := s) hb
  · exact absurd hfits hrate
  · rw [heq, recent, events_insert, if_pos rfl, pruned_recent]
    simp
  · exact absurd hfull hfull'

/-- Of the calls that pass the other bounds, only charged ones have the status of a full server. -/
theorem charged_iff (hb : boundsRejection floatLength envelope c = none) (hitems : c.items ≠ []) :
    (s.check floatLength envelope c).1.map (·.status) = some 503 ↔
      Charged floatLength envelope s c := by
  obtain ⟨hrate, heq⟩ | ⟨hfits, hfull, heq⟩ | ⟨-, hfull, heq⟩ :=
    check_windows floatLength envelope (s := s) hb
  · rw [heq]
    exact iff_of_false (by simp [overloaded]) fun h => hrate h.2.1
  · rw [heq]
    exact iff_of_true rfl ⟨hb, hfits, hfull, hitems⟩
  · rw [heq]
    exact iff_of_false (by simp) fun h => hfull h.2.2.1

theorem charged_repeatedly (hb : boundsRejection floatLength envelope c = none)
    (hitems : c.items ≠ []) (j : Nat)
    (h : outcomes floatLength envelope s (List.replicate (j + 1) c) =
      List.replicate (j + 1) (some 503)) :
    (((s.recent c).length + (j + 1) * c.items.length : Nat) : Rat) ≤
      envelope.maxAcceptedOperationsPerSecond := by
  induction j generalizing s with
  | zero =>
    rw [List.replicate_succ, outcomes, List.replicate_succ (a := some 503), List.cons.injEq,
      charged_iff _ _ hb hitems] at h
    simpa [FitsRate] using h.1.2.1
  | succ j ih =>
    rw [List.replicate_succ, outcomes, List.replicate_succ (a := some 503), List.cons.injEq,
      charged_iff _ _ hb hitems] at h
    have hrest := ih h.2
    rw [charged_recent floatLength envelope h.1] at hrest
    have hcount : (s.recent c).length + c.items.length + (j + 1) * c.items.length =
        (s.recent c).length + (j + 1 + 1) * c.items.length := by ring
    rwa [hcount] at hrest

/-- A rejected call has no effect on later calls exactly when it was not charged. -/
theorem rejected_invisible_iff (s : FastAdmission) (c : AdmissionCall)
    (hr : (s.check floatLength envelope c).1 ≠ none) :
    Invisible floatLength envelope s c ↔ ¬ Charged floatLength envelope s c := by
  constructor
  · intro hinvisible hcharged
    have hb := hcharged.1
    have hitems := hcharged.2.2.2
    have hagain : ∀ j, outcomes floatLength envelope s (List.replicate j c) =
        List.replicate j (some 503) := by
      intro j
      induction j with
      | zero => rfl
      | succ j ih =>
        have hsame := hinvisible (List.replicate j c) (by simp [List.pairwise_replicate])
        rw [List.replicate_succ, outcomes, hsame, ih,
          (charged_iff floatLength envelope hb hitems).mpr hcharged, List.replicate_succ]
    obtain ⟨j, hj⟩ := exists_nat_gt envelope.maxAcceptedOperationsPerSecond
    have hfits := charged_repeatedly floatLength envelope hb hitems j (hagain (j + 1))
    have hpos := List.length_pos_iff.mpr hitems
    have hle : j ≤ (s.recent c).length + (j + 1) * c.items.length := by nlinarith
    have hcast : (j : Rat) ≤ (((s.recent c).length + (j + 1) * c.items.length : Nat) : Rat) := by
      exact_mod_cast hle
    linarith
  · exact fun hc later hlater =>
      outcomes_sameFrom floatLength envelope (rejected_sameFrom floatLength envelope hr hc) hlater

/-- View switches of a workspace, received at once. -/
def viewCall (workspaceId : String) (count : Nat) (now : Rat) (saturated : Bool) :
    AdmissionCall where
  workspaceId := workspaceId
  items := List.replicate count ⟨"output_view", "select", .obj [("layer", .str "tmrt")]⟩
  receivedAt := now
  now := now
  saturated := saturated
  reservedMs := 0

/-- A rejection by a saturated lane, while another workspace is active. -/
theorem saturated_invisible :
    let s := (check (fun _ => 1) {} {} (viewCall "ada" 2 0 false)).2
    Invisible (fun _ => 1) {} s (viewCall "bob" 3 (1 / 2) true) := by
  intro s
  refine (rejected_invisible_iff (fun _ => 1) {} s (viewCall "bob" 3 (1 / 2) true) ?_).mpr ?_
  · decide
  · simp [Charged, boundsRejection, viewCall]

/-- One workspace is active, a second one is turned away, and finds its second used up when the
first one has left. -/
theorem turned_away_charged :
    let envelope : AdmissionEnvelope := { maxActiveWorkspaces := 1 }
    let s := (check (fun _ => 0) envelope {} (viewCall "ada" 1 0 false)).2
    (s.check (fun _ => 0) envelope (viewCall "bob" 100 (1 / 2) false)).1 ≠ none ∧
      ¬ Invisible (fun _ => 0) envelope s (viewCall "bob" 100 (1 / 2) false) := by
  refine ⟨by decide +kernel, fun h => ?_⟩
  have hlater := h [viewCall "bob" 100 1 false] (by simp [viewCall]; norm_num)
  revert hlater
  decide +kernel

end FastAdmission

end Solweig.Realtime
