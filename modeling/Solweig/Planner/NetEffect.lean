import Solweig.Lib.KeyedWrites
import Solweig.Planner.Deltas

/-!
# The net effect

What deltas do to the state of a source, and that the coalesced delta does the same. A value is a
scalar or a series: `item value t` is what it says of the step `t`.
-/

namespace Solweig.Planner

open Solweig.Lib

/-! ## The state of a source -/

@[ext]
structure SourceState (V : Type) where
  objects : String → Option V
  /-- The class codes of the cells, by row and column. -/
  classes : Int × Int → Int
  /-- The forcing, by variable and step. -/
  series : String × Nat → V
  parameters : String → V
  layers : List String

variable {V : Type}

def ObjectStateChange.apply (objects : String → Option V) (change : ObjectStateChange V) :
    String → Option V :=
  fun objectId => if change.objectId = objectId then change.after else objects objectId

/-- The class the patch gives the cell. A negative code is unspecified. -/
def LandCoverPaintPatch.code? (patch : LandCoverPaintPatch) (cell : Int × Int) : Option Int :=
  let w := patch.window
  if w.rowStart ≤ cell.1 ∧ cell.1 < w.rowStop ∧ w.colStart ≤ cell.2 ∧ cell.2 < w.colStop then
    patch.afterClasses[((cell.1 - w.rowStart) * (w.colStop - w.colStart) +
      (cell.2 - w.colStart)).toNat]?.filter (0 ≤ ·)
  else none

def LandCoverPaintPatch.apply (classes : Int × Int → Int) (patch : LandCoverPaintPatch) :
    Int × Int → Int :=
  fun cell => (patch.code? cell).getD (classes cell)

/-- A whole-series change touches each step of its variable. -/
def Touches (key : String × Option Nat) (cell : String × Nat) : Prop :=
  key.1 = cell.1 ∧ (key.2 = none ∨ key.2 = some cell.2)

instance (key : String × Option Nat) (cell : String × Nat) : Decidable (Touches key cell) :=
  inferInstanceAs (Decidable (_ ∧ _))

def ForcingChange.key (change : ForcingChange V) : String × Option Nat :=
  (change.variable_, change.timeIndex)

/-- What a value says of a cell. -/
def atCell (item : V → Nat → V) (value : V) (cell : String × Nat) : V := item value cell.2

def ForcingChange.apply (item : V → Nat → V) (series : String × Nat → V)
    (change : ForcingChange V) : String × Nat → V :=
  fun cell => if Touches change.key cell then atCell item change.afterValue cell else series cell

def ModelParameterChange.apply (parameters : String → V) (change : ModelParameterChange V) :
    String → V :=
  fun name => if change.name = name then change.afterValue else parameters name

def DeltaContent.applyLayers (layers : List String) : DeltaContent V → List String
  | .outputSelection _ afterLayers => afterLayers
  | _ => layers

def SourceDelta.apply (item : V → Nat → V) (s : SourceState V) (delta : SourceDelta V) :
    SourceState V where
  objects := delta.content.objects.foldl ObjectStateChange.apply s.objects
  classes := delta.content.patches.foldl LandCoverPaintPatch.apply s.classes
  series := delta.content.changes.foldl (ForcingChange.apply item) s.series
  parameters := delta.content.parameters.foldl ModelParameterChange.apply s.parameters
  layers := delta.content.applyLayers s.layers

/-- The deltas one by one, in order. -/
def applyAll (item : V → Nat → V) (s : SourceState V) (deltas : List (SourceDelta V)) :
    SourceState V :=
  deltas.foldl (SourceDelta.apply item) s

/-! ## Changes as keyed writes -/

def ObjectStateChange.toWrite (change : ObjectStateChange V) : KeyedWrite String (Option V) :=
  (change.objectId, change.before, change.after)

def ForcingChange.toWrite (change : ForcingChange V) : KeyedWrite (String × Option Nat) V :=
  (change.key, change.beforeValue, change.afterValue)

def ModelParameterChange.toWrite (change : ModelParameterChange V) : KeyedWrite String V :=
  (change.name, change.beforeValue, change.afterValue)

/-- A value of an object or of a parameter is all there is to say of it. -/
def asIs {ω : Type} (value : ω) (_ : String) : ω := value

theorem foldl_objects (objects : String → Option V) (changes : List (ObjectStateChange V)) :
    changes.foldl ObjectStateChange.apply objects =
      (changes.map (·.toWrite)).foldl (write Eq asIs) objects := by
  rw [List.foldl_map]
  rfl

theorem foldl_changes (item : V → Nat → V) (series : String × Nat → V)
    (changes : List (ForcingChange V)) :
    changes.foldl (ForcingChange.apply item) series =
      (changes.map (·.toWrite)).foldl (write Touches (atCell item)) series := by
  rw [List.foldl_map]
  rfl

theorem foldl_parameters (parameters : String → V) (changes : List (ModelParameterChange V)) :
    changes.foldl ModelParameterChange.apply parameters =
      (changes.map (·.toWrite)).foldl (write Eq asIs) parameters := by
  rw [List.foldl_map]
  rfl

theorem applyAll_eq (item : V → Nat → V) (s : SourceState V) (deltas : List (SourceDelta V)) :
    applyAll item s deltas =
      { objects := (deltas.flatMap (·.content.objects)).foldl ObjectStateChange.apply s.objects
        classes := (deltas.flatMap (·.content.patches)).foldl LandCoverPaintPatch.apply s.classes
        series := (deltas.flatMap (·.content.changes)).foldl (ForcingChange.apply item) s.series
        parameters :=
          (deltas.flatMap (·.content.parameters)).foldl ModelParameterChange.apply s.parameters
        layers := (deltas.map (·.content)).foldl DeltaContent.applyLayers s.layers } := by
  unfold applyAll
  induction deltas generalizing s with
  | nil => rfl
  | cons delta deltas ih =>
    rw [List.foldl_cons, ih]
    simp [SourceDelta.apply]

/-! ## Well-formed sequences -/

/-- Each change of an object starts from the state the object is then in. -/
def Contiguous (base : String → Option V) (changes : List (ObjectStateChange V)) : Prop :=
  ∀ pre change post, changes = pre ++ change :: post →
    change.before = pre.foldl ObjectStateChange.apply base change.objectId

/-- Deltas of one family, source and adapter, whose values before are those of the state that they
are applied to: each object change's, and the first of each forcing and parameter key. -/
structure WellFormed (item : V → Nat → V) (base : SourceState V) (deltas : List (SourceDelta V)) :
    Prop where
  nonempty : deltas ≠ []
  family : ∀ a ∈ deltas, ∀ b ∈ deltas, a.content.family = b.content.family
  source : ∀ a ∈ deltas, ∀ b ∈ deltas, a.sourceNodeId = b.sourceNodeId
  adapter : ∀ a ∈ deltas, ∀ b ∈ deltas, a.adapterId = b.adapterId
  objects : Contiguous base.objects (deltas.flatMap (·.content.objects))
  forcing : StartsFrom Touches (atCell item) base.series
    ((deltas.flatMap (·.content.changes)).map (·.toWrite))
  parameters : StartsFrom Eq asIs base.parameters
    ((deltas.flatMap (·.content.parameters)).map (·.toWrite))

/-! ## What coalescing keeps -/

def DeltaFamily.netted : DeltaFamily → Bool
  | .vegetationObject | .buildingMassing | .forcing | .modelParameter => true
  | .landCoverPaint | .outputSelection => false

/-- The windows of each delta that changes a surviving object, so those of its first and of its last
change, are still there. -/
def KeepsWindows (deltas : List (SourceDelta V)) (result : SourceDelta V) : Prop :=
  ∀ delta ∈ deltas, ∀ change ∈ delta.content.objects,
    change.objectId ∈ result.content.objects.map (·.objectId) →
      delta.spatialWindows ⊆ result.spatialWindows

structure NetEffect (item : V → Nat → V) (base : SourceState V) (deltas : List (SourceDelta V))
    (result : SourceDelta V) : Prop where
  family : ∀ delta ∈ deltas, result.content.family = delta.content.family
  final : result.apply item base = applyAll item base deltas
  noop : result.content.family.netted = true →
    (result.isNoop = true ↔ applyAll item base deltas = base)
  windows : KeepsWindows deltas result

/-- A whole-series change and a change of a step of the same variable both survive. -/
def Clash (changes : List (ForcingChange V)) : Prop :=
  ∃ variable_ t, Survives (changes.map (·.toWrite)) (variable_, none) ∧
    Survives (changes.map (·.toWrite)) (variable_, some t)

/-- No two kinds of changes of a variable survive, a kind that cancels has no last word that the
surviving one or the base does not say, and what survives alters something. -/
structure Coalescible (item : V → Nat → V) (base : String × Nat → V)
    (changes : List (ForcingChange V)) : Prop where
  orderable : ¬ Clash changes
  lastWord : LastWordKept Touches (atCell item) base (changes.map (·.toWrite))
  alters : Alters Touches (atCell item) base (changes.map (·.toWrite))

/-- The changes of a variable are all of its whole series or all of single steps, and where the
first value before of a key says the same as its last value after, the two are the same value. -/
structure Comparable (item : V → Nat → V) (changes : List (ForcingChange V)) : Prop where
  unmixed : ∀ a ∈ changes, ∀ b ∈ changes,
    a.variable_ = b.variable_ → a.timeIndex = none → b.timeIndex = none
  oneForm : OneForm Touches (atCell item) (changes.map (·.toWrite))

/-! ## First and last -/

section FirstAndLast

variable {κ ω : Type} [DecidableEq κ] {entries : List (KeyedWrite κ ω)}
  {entry e : KeyedWrite κ ω}

theorem firstAndLast_append :
    firstAndLast (entries ++ [entry]) =
      if (firstAndLast entries).any (·.1 = entry.1) then
        (firstAndLast entries).map fun old =>
          if old.1 = entry.1 then (old.1, old.2.1, entry.2.2) else old
      else firstAndLast entries ++ [entry] := by
  unfold firstAndLast
  rw [List.foldl_append]
  rfl

theorem mem_overwritten {merged : List (KeyedWrite κ ω)} {before : ω}
    (hbefore : ∀ old ∈ merged, old.1 = entry.1 → old.2.1 = before)
    (hthere : ∃ old ∈ merged, old.1 = entry.1) :
    (e ∈ merged.map fun old => if old.1 = entry.1 then (old.1, old.2.1, entry.2.2) else old) ↔
      if entry.1 = e.1 then before = e.2.1 ∧ entry.2.2 = e.2.2 else e ∈ merged := by
  rw [List.mem_map]
  by_cases he : entry.1 = e.1
  · rw [if_pos he]
    constructor
    · rintro ⟨old, hold, rfl⟩
      have hsame : old.1 = entry.1 := by
        split at he <;> exact he.symm
      rw [if_pos hsame]
      exact ⟨(hbefore old hold hsame).symm, rfl⟩
    · rintro ⟨hfirst, hlast⟩
      obtain ⟨old, hold, hsame⟩ := hthere
      refine ⟨old, hold, ?_⟩
      rw [if_pos hsame, hsame, he, hbefore old hold hsame, hfirst, hlast]
  · rw [if_neg he]
    constructor
    · rintro ⟨old, hold, rfl⟩
      split at he
      · rename_i hsame
        exact absurd hsame.symm he
      · rename_i hdiff
        rwa [if_neg hdiff]
    · intro hmem
      exact ⟨e, hmem, if_neg fun hsame => he hsame.symm⟩

theorem firstBefore?_eq_none (h : ∀ w ∈ entries, w.1 ≠ entry.1) :
    firstBefore? entries entry.1 = none := by
  unfold firstBefore?
  rw [Option.map_eq_none_iff, List.find?_eq_none]
  exact fun w hw => by simpa using h w hw

theorem mem_firstAndLast (entries : List (KeyedWrite κ ω)) (e : KeyedWrite κ ω) :
    e ∈ firstAndLast entries ↔
      firstBefore? entries e.1 = some e.2.1 ∧ lastAfter? entries e.1 = some e.2.2 := by
  induction entries using List.reverseRecOn generalizing e with
  | nil => simp [firstAndLast, firstBefore?, lastAfter?]
  | append_singleton entries entry ih =>
    rw [firstAndLast_append, firstBefore?_append, lastAfter?_append]
    by_cases hany : (firstAndLast entries).any (·.1 = entry.1) = true
    · rw [if_pos hany]
      obtain ⟨old, hold, hkey⟩ := List.any_eq_true.mp hany
      have hkey : old.1 = entry.1 := of_decide_eq_true hkey
      have hfirst : ∀ other ∈ firstAndLast entries, other.1 = entry.1 →
          firstBefore? entries entry.1 = some other.2.1 := by
        intro other hother hsame
        rw [← hsame]
        exact ((ih other).mp hother).1
      have hbefore : ∀ other ∈ firstAndLast entries, other.1 = entry.1 →
          other.2.1 = old.2.1 := by
        intro other hother hsame
        exact Option.some.inj ((hfirst other hother hsame).symm.trans (hfirst old hold hkey))
      rw [mem_overwritten hbefore ⟨old, hold, hkey⟩]
      by_cases he : entry.1 = e.1
      · simp [← he, hfirst old hold hkey]
      · simp [he, ih e]
    · rw [if_neg hany, List.mem_append, List.mem_singleton]
      have hnone : firstBefore? entries entry.1 = none := by
        apply firstBefore?_eq_none
        intro w hw hkey
        obtain ⟨before, after, hfirst, hlast⟩ := written_spec hw
        exact hany (List.any_eq_true.mpr ⟨_, (ih (w.1, before, after)).mpr ⟨hfirst, hlast⟩,
          decide_eq_true hkey⟩)
      rw [ih e]
      by_cases he : entry.1 = e.1
      · simp [← he, hnone, Prod.ext_iff, eq_comm]
      · have hne : e ≠ entry := fun h => he (congrArg Prod.fst h).symm
        simp [he, hne]

theorem firstAndLast_nodup (entries : List (KeyedWrite κ ω)) :
    ((firstAndLast entries).map (·.1)).Nodup := by
  induction entries using List.reverseRecOn with
  | nil => exact List.nodup_nil
  | append_singleton entries entry ih =>
    rw [firstAndLast_append]
    by_cases hany : (firstAndLast entries).any (·.1 = entry.1) = true
    · rw [if_pos hany, List.map_map]
      convert ih using 1
      refine List.map_congr_left fun old _ => ?_
      show (if old.1 = entry.1 then (old.1, old.2.1, entry.2.2) else old).1 = old.1
      split <;> rfl
    · rw [if_neg hany, List.map_append, List.nodup_append]
      refine ⟨ih, by simp, ?_⟩
      intro key hkey other hother hsame
      obtain ⟨old, hold, rfl⟩ := List.mem_map.mp hkey
      rw [List.map_singleton, List.mem_singleton] at hother
      exact hany (List.any_eq_true.mpr ⟨old, hold, decide_eq_true (hsame.trans hother)⟩)

end FirstAndLast

theorem isNet_of_mem {κ ω : Type} [DecidableEq κ] {entries net : List (KeyedWrite κ ω)}
    (h : ∀ e, e ∈ net ↔ e ∈ firstAndLast entries ∧ e.2.1 ≠ e.2.2) : IsNet entries net := by
  intro e
  rw [h e, mem_firstAndLast, and_assoc]

/-! ## Each kind of change -/

theorem foldl_objects_last (base : String → Option V) (changes : List (ObjectStateChange V))
    (objectId : String) :
    changes.foldl ObjectStateChange.apply base objectId =
      ((changes.reverse.find? fun old => old.objectId = objectId).map (·.after)).getD
        (base objectId) := by
  induction changes using List.reverseRecOn with
  | nil => rfl
  | append_singleton changes last ih =>
    rw [List.foldl_append, List.foldl_cons, List.foldl_nil, ObjectStateChange.apply,
      List.reverse_append, ih]
    by_cases h : last.objectId = objectId <;> simp [h]

variable [DecidableEq V]

theorem contiguous_ok {base : String → Option V} {done rest : List (ObjectStateChange V)}
    (h : Contiguous base (done ++ rest)) : contiguous done rest = .ok () := by
  induction rest generalizing done with
  | nil => rfl
  | cons change rest ih =>
    have hbefore := h done change rest rfl
    rw [foldl_objects_last] at hbefore
    have hrest : contiguous (done ++ [change]) rest = .ok () := ih (by simpa using h)
    unfold contiguous
    cases hold : done.reverse.find? fun old => old.objectId = change.objectId with
    | none => exact hrest
    | some old =>
      rw [hold] at hbefore
      have hsame : old.after = change.before := hbefore.symm
      simp only [hsame, ↓reduceIte]
      exact hrest

theorem coalesceObjectChanges_net {base : String → Option V}
    {changes : List (ObjectStateChange V)} (h : Contiguous base changes) :
    ∃ objects, coalesceObjectChanges changes = .ok objects ∧
      IsNet (changes.map (·.toWrite)) (objects.map (·.toWrite)) := by
  have hcheck : contiguous [] changes = .ok () := contiguous_ok h
  unfold coalesceObjectChanges
  rw [hcheck]
  refine ⟨_, rfl, isNet_of_mem fun e => ?_⟩
  have hsorted : ∀ m : KeyedWrite String (Option V),
      m ∈ (firstAndLast (changes.map fun c => (c.objectId, c.before, c.after))).insertionSort
        (fun a b => a.1 ≤ b.1) ↔ m ∈ firstAndLast (changes.map (·.toWrite)) :=
    fun m => List.mem_insertionSort _
  simp only [List.mem_map, List.mem_filterMap, hsorted]
  constructor
  · rintro ⟨object, ⟨m, hm, hkept⟩, rfl⟩
    split at hkept
    · rename_i hdiff
      obtain rfl := Option.some.inj hkept
      exact ⟨hm, hdiff.2⟩
    · cases hkept
  · rintro ⟨hmem, hdiff⟩
    have hsome : ¬ (e.2.1 = none ∧ e.2.2 = none) := fun h => hdiff (h.1.trans h.2.symm)
    refine ⟨⟨e.1, e.2.1, e.2.2, hsome⟩, ⟨e, hmem, ?_⟩, rfl⟩
    rw [dif_pos ⟨hsome, hdiff⟩]

theorem coalesceParameters_net (parameters : List (ModelParameterChange V)) :
    IsNet (parameters.map (·.toWrite)) ((coalesceParameters parameters).map (·.toWrite)) := by
  apply isNet_of_mem
  intro e
  unfold coalesceParameters
  rw [List.map_map]
  have hmap : (ModelParameterChange.toWrite ∘ fun m : KeyedWrite String V =>
      (⟨m.1, m.2.1, m.2.2⟩ : ModelParameterChange V)) = id := rfl
  rw [hmap, List.map_id, List.mem_insertionSort, List.mem_filter, decide_eq_true_eq]
  rfl

/-- A variable is unorderable when its whole series is among the keys and so is one of its steps. -/
theorem unorderable?_isSome (keys : List (String × Option Nat)) :
    (unorderable? keys).isSome = true ↔
      ∃ variable_ t, (variable_, none) ∈ keys ∧ (variable_, some t) ∈ keys := by
  unfold unorderable?
  rw [Option.isSome_map, List.find?_isSome]
  constructor
  · rintro ⟨⟨name, time⟩, hkey, hboth⟩
    simp only [Bool.decide_and, Bool.and_eq_true, decide_eq_true_eq, List.any_eq_true] at hboth
    obtain ⟨rfl, ⟨other, time⟩, hother, rfl, htime⟩ := hboth
    obtain ⟨t, rfl⟩ := Option.ne_none_iff_exists'.mp htime
    exact ⟨other, t, hkey, hother⟩
  · rintro ⟨name, t, hseries, hstep⟩
    refine ⟨(name, none), hseries, ?_⟩
    simp only [Bool.decide_and, Bool.and_eq_true, decide_eq_true_eq, List.any_eq_true]
    exact ⟨trivial, (name, some t), hstep, rfl, by simp⟩

theorem coalesceForcing_spec (changes : List (ForcingChange V)) :
    (∃ net, coalesceForcing changes = .ok net ∧
        IsNet (changes.map (·.toWrite)) (net.map (·.toWrite)) ∧
        ¬ Clash changes) ∨
      (∃ name, coalesceForcing changes = .error (.unorderable name)) ∧ Clash changes := by
  have hkept : ∀ key, key ∈ ((firstAndLast (changes.map fun c =>
      ((c.variable_, c.timeIndex), c.beforeValue, c.afterValue))).filter fun m =>
        m.2.1 ≠ m.2.2).map (·.1) ↔ Survives (changes.map (·.toWrite)) key := by
    intro key
    simp only [List.mem_map, List.mem_filter, decide_eq_true_eq]
    constructor
    · rintro ⟨m, ⟨hm, hdiff⟩, rfl⟩
      obtain ⟨hfirst, hlast⟩ := (mem_firstAndLast (changes.map (·.toWrite)) m).mp hm
      exact ⟨m.2.1, m.2.2, hfirst, hlast, hdiff⟩
    · rintro ⟨before, after, hfirst, hlast, hdiff⟩
      exact ⟨(key, before, after),
        ⟨(mem_firstAndLast (changes.map (·.toWrite)) _).mpr ⟨hfirst, hlast⟩, hdiff⟩, rfl⟩
  have hraise := unorderable?_isSome (((firstAndLast (changes.map fun c =>
    ((c.variable_, c.timeIndex), c.beforeValue, c.afterValue))).filter fun m =>
      m.2.1 ≠ m.2.2).map (·.1))
  simp only [hkept] at hraise
  unfold coalesceForcing
  cases hunorderable : unorderable? (((firstAndLast (changes.map fun c =>
    ((c.variable_, c.timeIndex), c.beforeValue, c.afterValue))).filter fun m =>
      m.2.1 ≠ m.2.2).map (·.1)) with
  | some name =>
    rw [hunorderable] at hraise
    exact Or.inr ⟨⟨name, by simp only [hunorderable]; rfl⟩, hraise.mp rfl⟩
  | none =>
    rw [hunorderable] at hraise
    refine Or.inl ⟨_, by simp only [hunorderable]; rfl, ?_, fun h => by cases hraise.mpr h⟩
    apply isNet_of_mem
    intro e
    rw [List.map_map]
    have hmap : (ForcingChange.toWrite ∘ fun m : KeyedWrite (String × Option Nat) V =>
        (⟨m.1.1, m.1.2, m.2.1, m.2.2⟩ : ForcingChange V)) = id := rfl
    rw [hmap, List.map_id, List.mem_insertionSort, List.mem_filter, decide_eq_true_eq]
    rfl

/-! ## No two keys of a cell -/

theorem separated_eq {ω : Type} (writes : List (KeyedWrite String ω)) :
    Separated (ι := String) Eq writes :=
  fun _ _ _ _ _ hv hw => hv.trans hw.symm

theorem oneForm_asIs {ω : Type} (writes : List (KeyedWrite String ω)) :
    OneForm Eq asIs writes :=
  fun key _ _ _ _ h => h key rfl

omit [DecidableEq V] in
theorem separated_changes {item : V → Nat → V} {changes : List (ForcingChange V)}
    (h : Comparable item changes) : Separated Touches (changes.map (·.toWrite)) := by
  intro v hv w hw cell hvcell hwcell
  obtain ⟨a, ha, rfl⟩ := List.mem_map.mp hv
  obtain ⟨b, hb, rfl⟩ := List.mem_map.mp hw
  obtain ⟨havar, hatime⟩ := hvcell
  obtain ⟨hbvar, hbtime⟩ := hwcell
  have hvar : a.variable_ = b.variable_ := havar.trans hbvar.symm
  have htime : a.timeIndex = b.timeIndex := by
    rcases hatime with hnone | hsome
    · exact hnone.trans (h.unmixed a ha b hb hvar hnone).symm
    · rcases hbtime with hnone | hsome'
      · exact (h.unmixed b hb a ha hvar.symm hnone).trans hnone.symm
      · exact hsome.trans hsome'.symm
  exact Prod.ext hvar htime

omit [DecidableEq V] in
theorem separated_of_not_clash {changes : List (ForcingChange V)}
    {net : List (KeyedWrite (String × Option Nat) V)} (hnet : IsNet (changes.map (·.toWrite)) net)
    (h : ¬ Clash changes) : Separated Touches net := by
  rintro v hv w hw ⟨name, t⟩ ⟨hvname, hvtime⟩ ⟨hwname, hwtime⟩
  have hvkey := hnet.survives_iff.mpr ⟨v, hv, rfl⟩
  have hwkey := hnet.survives_iff.mpr ⟨w, hw, rfl⟩
  obtain ⟨⟨vname, vtime⟩, vvalues⟩ := v
  obtain ⟨⟨wname, wtime⟩, wvalues⟩ := w
  dsimp only at hvname hwname hvtime hwtime hvkey hwkey ⊢
  subst hvname hwname
  rcases hvtime with rfl | rfl <;> rcases hwtime with rfl | rfl
  · rfl
  · exact absurd ⟨_, _, hvkey, hwkey⟩ h
  · exact absurd ⟨_, _, hwkey, hvkey⟩ h
  · rfl

omit [DecidableEq V] in
theorem startsFrom_objects {base : String → Option V} {changes : List (ObjectStateChange V)}
    (h : Contiguous base changes) : StartsFrom Eq asIs base (changes.map (·.toWrite)) := by
  intro pre w post hsplit _ objectId htouch
  obtain ⟨before, rest, rfl, rfl, hrest⟩ := List.map_eq_append_iff.mp hsplit
  obtain ⟨change, after, rfl, rfl, rfl⟩ := List.map_eq_cons_iff.mp hrest
  rw [← foldl_objects, ← htouch]
  exact h before change after rfl

/-! ## The parts of a delta -/

section Parts

variable {deltas : List (SourceDelta V)} {family : DeltaFamily}

omit [DecidableEq V] in
theorem flatMap_part_nil {α : Type} {part : DeltaContent V → List α}
    (hpart : ∀ content : DeltaContent V, family = content.family → part content = [])
    (h : ∀ delta ∈ deltas, family = delta.content.family) :
    deltas.flatMap (fun delta => part delta.content) = [] := by
  rw [List.flatMap_eq_nil_iff]
  exact fun delta hdelta => hpart delta.content (h delta hdelta)

omit [DecidableEq V] in
theorem foldl_layers_same (h : ∀ delta ∈ deltas, family = delta.content.family)
    (ho : family ≠ .outputSelection) (layers : List String) :
    (deltas.map (·.content)).foldl DeltaContent.applyLayers layers = layers := by
  induction deltas with
  | nil => rfl
  | cons delta deltas ih =>
    obtain ⟨hfamily, hrest⟩ := List.forall_mem_cons.mp h
    have hkept : delta.content.applyLayers layers = layers := by
      cases hcontent : delta.content <;> simp_all [DeltaContent.family, DeltaContent.applyLayers]
    rw [List.map_cons, List.foldl_cons, hkept, ih hrest]

omit [DecidableEq V] in
theorem foldl_layers_last (h : ∀ delta ∈ deltas, .outputSelection = delta.content.family)
    (hne : deltas ≠ []) (layers : List String) :
    (deltas.map (·.content)).foldl DeltaContent.applyLayers layers =
      ((deltas.map (·.content)).getLast?.map (·.afterLayers)).getD [] := by
  obtain ⟨before, last, rfl⟩ := List.eq_nil_or_concat' deltas |>.resolve_left hne
  have hfamily := h last (by simp)
  rw [List.map_append, List.foldl_append, List.map_singleton, List.getLast?_concat]
  cases hcontent : last.content with
  | outputSelection _ afterLayers => rfl
  | _ =>
    rw [hcontent] at hfamily
    cases hfamily

omit [DecidableEq V] in
theorem isNoop_iff {delta : SourceDelta V} (h : delta.content.family.netted = true) :
    delta.isNoop = true ↔ delta.content.objects.map (·.toWrite) = [] ∧
      delta.content.changes.map (·.toWrite) = [] ∧
        delta.content.parameters.map (·.toWrite) = [] := by
  cases hcontent : delta.content <;>
    simp_all [SourceDelta.isNoop, DeltaContent.family, DeltaFamily.netted, DeltaContent.objects,
      DeltaContent.changes, DeltaContent.parameters]

end Parts

/-! ## The coalesced delta -/

section Coalesced

variable {item : V → Nat → V} {base : SourceState V} {deltas : List (SourceDelta V)}
  {result : SourceDelta V}

/-- The parts of the result are the nets of the parts of the deltas. -/
structure Nets (deltas : List (SourceDelta V)) (result : SourceDelta V) : Prop where
  family : ∀ delta ∈ deltas, result.content.family = delta.content.family
  objects : IsNet ((deltas.flatMap (·.content.objects)).map (·.toWrite))
    (result.content.objects.map (·.toWrite))
  patches : result.content.patches = deltas.flatMap (·.content.patches)
  changes : IsNet ((deltas.flatMap (·.content.changes)).map (·.toWrite))
    (result.content.changes.map (·.toWrite))
  parameters : IsNet ((deltas.flatMap (·.content.parameters)).map (·.toWrite))
    (result.content.parameters.map (·.toWrite))
  layers : ∀ layers, result.content.applyLayers layers =
    (deltas.map (·.content)).foldl DeltaContent.applyLayers layers

omit [DecidableEq V] in
theorem WellFormed.objects_kept (hwell : WellFormed item base deltas) :
    LastWordKept Eq asIs base.objects ((deltas.flatMap (·.content.objects)).map (·.toWrite)) :=
  lastWordKept_of_separated (separated_eq _) (startsFrom_objects hwell.objects)

omit [DecidableEq V] in
theorem WellFormed.parameters_kept (hwell : WellFormed item base deltas) :
    LastWordKept Eq asIs base.parameters
      ((deltas.flatMap (·.content.parameters)).map (·.toWrite)) :=
  lastWordKept_of_separated (separated_eq _) hwell.parameters

omit [DecidableEq V] in
theorem Nets.final_iff (hnets : Nets deltas result) (hwell : WellFormed item base deltas)
    (hclash : ¬ Clash (deltas.flatMap (·.content.changes))) :
    result.apply item base = applyAll item base deltas ↔
      LastWordKept Touches (atCell item) base.series
        ((deltas.flatMap (·.content.changes)).map (·.toWrite)) := by
  rw [← foldl_net_iff hnets.changes (separated_of_not_clash hnets.changes hclash), applyAll_eq]
  unfold SourceDelta.apply
  rw [foldl_objects, foldl_changes, foldl_parameters, foldl_objects, foldl_changes,
    foldl_parameters, hnets.patches, hnets.layers,
    (foldl_net_iff hnets.objects (separated_eq _)).mpr hwell.objects_kept,
    (foldl_net_iff hnets.parameters (separated_eq _)).mpr hwell.parameters_kept,
    SourceState.ext_iff]
  simp

omit [DecidableEq V] in
theorem Nets.other_parts (hnets : Nets deltas result)
    (hnetted : result.content.family.netted = true) :
    deltas.flatMap (·.content.patches) = [] ∧
      ∀ layers, (deltas.map (·.content)).foldl DeltaContent.applyLayers layers = layers := by
  constructor
  · apply flatMap_part_nil _ hnets.family
    intro content hfamily
    cases content <;> simp_all [DeltaContent.family, DeltaFamily.netted, DeltaContent.patches]
  · apply foldl_layers_same hnets.family
    intro hfamily
    simp [hfamily, DeltaFamily.netted] at hnetted

omit [DecidableEq V] in
theorem Nets.noop (hnets : Nets deltas result) (hwell : WellFormed item base deltas)
    (hkept : Coalescible item base.series (deltas.flatMap (·.content.changes)))
    (hnetted : result.content.family.netted = true) :
    result.isNoop = true ↔ applyAll item base deltas = base := by
  obtain ⟨hpatches, hlayers⟩ := hnets.other_parts hnetted
  rw [isNoop_iff hnetted,
    net_eq_nil_iff hnets.objects (separated_eq _) hwell.objects_kept
      (alters_of_separated (separated_eq _) (startsFrom_objects hwell.objects) (oneForm_asIs _)),
    net_eq_nil_iff hnets.changes (separated_of_not_clash hnets.changes hkept.orderable)
      hkept.lastWord hkept.alters,
    net_eq_nil_iff hnets.parameters (separated_eq _) hwell.parameters_kept
      (alters_of_separated (separated_eq _) hwell.parameters (oneForm_asIs _)),
    applyAll_eq, hpatches, hlayers, foldl_objects, foldl_changes, foldl_parameters,
    SourceState.ext_iff]
  simp

omit [DecidableEq V] in
theorem Nets.alters (hnets : Nets deltas result)
    (hclash : ¬ Clash (deltas.flatMap (·.content.changes)))
    (hfinal : result.apply item base = applyAll item base deltas)
    (hnoop : result.content.family.netted = true →
      (result.isNoop = true ↔ applyAll item base deltas = base)) :
    Alters Touches (atCell item) base.series
      ((deltas.flatMap (·.content.changes)).map (·.toWrite)) := by
  refine (net_nil_iff hnets.changes (separated_of_not_clash hnets.changes hclash)).mp fun hsame => ?_
  by_cases hfamily : result.content.family = .forcing
  · have hnetted : result.content.family.netted = true := by rw [hfamily]; rfl
    have hbase : applyAll item base deltas = base := by
      rw [← hfinal, SourceDelta.apply, foldl_changes, hsame]
      cases hcontent : result.content <;>
        simp_all [DeltaContent.family, DeltaContent.objects, DeltaContent.patches,
          DeltaContent.parameters, DeltaContent.applyLayers]
    exact ((isNoop_iff hnetted).mp ((hnoop hnetted).mpr hbase)).2.1
  · cases hcontent : result.content <;>
      simp_all [DeltaContent.family, DeltaContent.changes]

omit [DecidableEq V] in
theorem WellFormed.checks {first : SourceDelta V} {rest : List (SourceDelta V)}
    (hwell : WellFormed item base (first :: rest)) :
    (rest.forM fun delta => do
      refuseIf (delta.content.family ≠ first.content.family) DeltaError.families
      refuseIf (delta.sourceNodeId ≠ first.sourceNodeId) DeltaError.sources
      refuseIf (delta.adapterId ≠ first.adapterId) DeltaError.adapters) = .ok () := by
  apply forM_ok.mpr
  intro delta hdelta
  have hmem : delta ∈ first :: rest := List.mem_cons_of_mem first hdelta
  have hfirst : first ∈ first :: rest := List.mem_cons_self
  rw [hwell.family delta hmem first hfirst, hwell.source delta hmem first hfirst,
    hwell.adapter delta hmem first hfirst]
  simp [refuseIf]

omit [DecidableEq V] in
theorem subset_survivingWindows {objects : List (ObjectStateChange V)} {delta : SourceDelta V}
    (hdelta : delta ∈ deltas) {change : ObjectStateChange V}
    (hchange : change ∈ delta.content.objects)
    (hkept : change.objectId ∈ objects.map (·.objectId)) :
    delta.spatialWindows ⊆ survivingWindows deltas objects := by
  intro w hw
  unfold survivingWindows
  rw [List.mem_flatMap]
  refine ⟨delta, hdelta, ?_⟩
  rw [if_neg]
  · exact hw
  · rintro ⟨-, hcancelled⟩
    exact hcancelled change hchange hkept

theorem isNet_nil {κ ω : Type} [DecidableEq κ] : IsNet ([] : List (KeyedWrite κ ω)) [] := by
  intro e
  simp [firstBefore?]

omit [DecidableEq V] in
theorem not_clash_nil : ¬ Clash ([] : List (ForcingChange V)) := by
  rintro ⟨_, _, ⟨_, _, hfirst, -⟩, -⟩
  cases hfirst

omit [DecidableEq V] in
theorem Nets.of_family (hfamily : ∀ delta ∈ deltas, result.content.family = delta.content.family)
    (hobjects : result.content.family ∈ [.vegetationObject, .buildingMassing] →
      IsNet ((deltas.flatMap (·.content.objects)).map (·.toWrite))
        (result.content.objects.map (·.toWrite)))
    (hpatches : result.content.family = .landCoverPaint →
      result.content.patches = deltas.flatMap (·.content.patches))
    (hchanges : result.content.family = .forcing →
      IsNet ((deltas.flatMap (·.content.changes)).map (·.toWrite))
        (result.content.changes.map (·.toWrite)))
    (hparameters : result.content.family = .modelParameter →
      IsNet ((deltas.flatMap (·.content.parameters)).map (·.toWrite))
        (result.content.parameters.map (·.toWrite)))
    (hlayers : result.content.family = .outputSelection → ∀ layers,
      result.content.applyLayers layers =
        (deltas.map (·.content)).foldl DeltaContent.applyLayers layers) :
    Nets deltas result where
  family := hfamily
  objects := by
    by_cases h : result.content.family ∈ [.vegetationObject, .buildingMassing]
    · exact hobjects h
    · have hpart : ∀ content : DeltaContent V, result.content.family = content.family →
          content.objects = [] := by
        intro content hsame
        cases content <;> simp_all [DeltaContent.family, DeltaContent.objects]
      rw [flatMap_part_nil hpart hfamily, hpart result.content rfl]
      exact isNet_nil
  patches := by
    by_cases h : result.content.family = .landCoverPaint
    · exact hpatches h
    · have hpart : ∀ content : DeltaContent V, result.content.family = content.family →
          content.patches = [] := by
        intro content hsame
        cases content <;> simp_all [DeltaContent.family, DeltaContent.patches]
      rw [flatMap_part_nil hpart hfamily, hpart result.content rfl]
  changes := by
    by_cases h : result.content.family = .forcing
    · exact hchanges h
    · have hpart : ∀ content : DeltaContent V, result.content.family = content.family →
          content.changes = [] := by
        intro content hsame
        cases content <;> simp_all [DeltaContent.family, DeltaContent.changes]
      rw [flatMap_part_nil hpart hfamily, hpart result.content rfl]
      exact isNet_nil
  parameters := by
    by_cases h : result.content.family = .modelParameter
    · exact hparameters h
    · have hpart : ∀ content : DeltaContent V, result.content.family = content.family →
          content.parameters = [] := by
        intro content hsame
        cases content <;> simp_all [DeltaContent.family, DeltaContent.parameters]
      rw [flatMap_part_nil hpart hfamily, hpart result.content rfl]
      exact isNet_nil
  layers := by
    intro layers
    by_cases h : result.content.family = .outputSelection
    · exact hlayers h layers
    · rw [foldl_layers_same hfamily h]
      cases hcontent : result.content <;>
        simp_all [DeltaContent.family, DeltaContent.applyLayers]

omit [DecidableEq V] in
theorem not_clash_of_family {family : DeltaFamily}
    (hfamily : ∀ delta ∈ deltas, family = delta.content.family) (h : family ≠ .forcing) :
    ¬ Clash (deltas.flatMap (·.content.changes)) := by
  have hpart : ∀ content : DeltaContent V, family = content.family → content.changes = [] := by
    intro content hsame
    cases content <;> simp_all [DeltaContent.family, DeltaContent.changes]
  rw [flatMap_part_nil hpart hfamily]
  exact not_clash_nil

omit [DecidableEq V] in
theorem keepsWindows_of_nil (h : result.content.objects = []) : KeepsWindows deltas result := by
  intro delta _ change _ hkept
  rw [h] at hkept
  cases hkept

theorem coalesceSourceDeltas_spec (hwell : WellFormed item base deltas) :
    (∃ result, coalesceSourceDeltas deltas = .ok result ∧ Nets deltas result ∧
        KeepsWindows deltas result ∧ ¬ Clash (deltas.flatMap (·.content.changes))) ∨
      (∃ name, coalesceSourceDeltas deltas = .error (.unorderable name)) ∧
        Clash (deltas.flatMap (·.content.changes)) := by
  obtain ⟨first, rest, rfl⟩ := List.exists_cons_of_ne_nil hwell.nonempty
  have hsame : ∀ delta ∈ first :: rest, first.content.family = delta.content.family :=
    hwell.family first List.mem_cons_self
  have hflat : ∀ {α : Type} (part : DeltaContent V → List α),
      ((first :: rest).map (·.content)).flatMap part =
        (first :: rest).flatMap fun delta => part delta.content :=
    fun part => by rw [List.flatMap_map]
  unfold coalesceSourceDeltas
  simp only [hwell.checks, except_ok_bind, hflat]
  cases hcontent : first.content with
  | vegetationObject _ _ =>
    obtain ⟨objects, hok, hnet⟩ := coalesceObjectChanges_net hwell.objects
    rw [hcontent] at hsame
    refine Or.inl ⟨_, by rw [hok]; rfl, ?_, ?_, not_clash_of_family hsame nofun⟩
    · exact .of_family hsame (fun _ => hnet) nofun nofun nofun nofun
    · exact fun delta hdelta change hchange hkept => subset_survivingWindows hdelta hchange hkept
  | buildingMassing _ _ =>
    obtain ⟨objects, hok, hnet⟩ := coalesceObjectChanges_net hwell.objects
    rw [hcontent] at hsame
    refine Or.inl ⟨_, by rw [hok]; rfl, ?_, ?_, not_clash_of_family hsame nofun⟩
    · exact .of_family hsame (fun _ => hnet) nofun nofun nofun nofun
    · exact fun delta hdelta change hchange hkept => subset_survivingWindows hdelta hchange hkept
  | landCoverPaint _ =>
    rw [hcontent] at hsame
    refine Or.inl ⟨_, rfl, ?_, keepsWindows_of_nil rfl, not_clash_of_family hsame nofun⟩
    · exact .of_family hsame (fun h => by simp [DeltaContent.family] at h) (fun _ => rfl) nofun
        nofun nofun
  | forcing _ =>
    rw [hcontent] at hsame
    rcases coalesceForcing_spec ((first :: rest).flatMap (·.content.changes)) with
      ⟨net, hok, hnet, hclash⟩ | ⟨⟨name, herror⟩, hclash⟩
    · refine Or.inl ⟨_, by rw [hok]; rfl, ?_, keepsWindows_of_nil rfl, hclash⟩
      exact .of_family hsame (fun h => by simp [DeltaContent.family] at h) nofun (fun _ => hnet)
        nofun nofun
    · exact Or.inr ⟨⟨name, by rw [herror]; rfl⟩, hclash⟩
  | modelParameter _ =>
    rw [hcontent] at hsame
    refine Or.inl ⟨_, rfl, ?_, keepsWindows_of_nil rfl, not_clash_of_family hsame nofun⟩
    · exact .of_family hsame (fun h => by simp [DeltaContent.family] at h) nofun nofun
        (fun _ => coalesceParameters_net _) nofun
  | outputSelection before _ =>
    rw [hcontent] at hsame
    refine Or.inl ⟨_, rfl, ?_, keepsWindows_of_nil rfl, not_clash_of_family hsame nofun⟩
    · refine .of_family hsame (fun h => by simp [DeltaContent.family] at h) nofun nofun nofun ?_
      exact fun _ layers => (foldl_layers_last hsame hwell.nonempty layers).symm

omit [DecidableEq V] in
theorem Comparable.not_clash {changes : List (ForcingChange V)} (h : Comparable item changes) :
    ¬ Clash changes := by
  rintro ⟨variable_, t, ⟨_, _, -, hseries, -⟩, ⟨_, _, -, hstep, -⟩⟩
  obtain ⟨_, hseries, hakey⟩ := exists_of_lastAfter? hseries
  obtain ⟨_, hstep, hbkey⟩ := exists_of_lastAfter? hstep
  obtain ⟨a, ha, rfl⟩ := List.mem_map.mp hseries
  obtain ⟨b, hb, rfl⟩ := List.mem_map.mp hstep
  obtain ⟨havar, hatime⟩ := Prod.mk.inj hakey
  obtain ⟨hbvar, hbtime⟩ := Prod.mk.inj hbkey
  have hnone := h.unmixed a ha b hb (havar.trans hbvar.symm) hatime
  cases hnone.symm.trans hbtime

omit [DecidableEq V] in
theorem Comparable.coalescible (h : Comparable item (deltas.flatMap (·.content.changes)))
    (hwell : WellFormed item base deltas) :
    Coalescible item base.series (deltas.flatMap (·.content.changes)) where
  orderable := h.not_clash
  lastWord := lastWordKept_of_separated (separated_changes h) hwell.forcing
  alters := alters_of_separated (separated_changes h) hwell.forcing h.oneForm

/-- The net effect is kept exactly where the changes are coalescible, as they are where those of a
variable are of one kind. Coalescing raises exactly where a whole-series change and a change of a
step of one variable both survive. -/
theorem coalesceSourceDeltas_netEffect (hwell : WellFormed item base deltas) :
    ((∃ result, coalesceSourceDeltas deltas = .ok result ∧ NetEffect item base deltas result) ↔
      Coalescible item base.series (deltas.flatMap (·.content.changes))) ∧
    (Comparable item (deltas.flatMap (·.content.changes)) →
      Coalescible item base.series (deltas.flatMap (·.content.changes))) ∧
    ((∃ error, coalesceSourceDeltas deltas = .error error) ↔
      Clash (deltas.flatMap (·.content.changes))) := by
  rcases coalesceSourceDeltas_spec hwell with
    ⟨result, hok, hnets, hwindows, hclash⟩ | ⟨⟨name, herror⟩, hclash⟩
  · refine ⟨⟨?_, fun hkept => ?_⟩, fun hcomparable => hcomparable.coalescible hwell,
      iff_of_false ?_ hclash⟩
    · rintro ⟨result', hok', heffect⟩
      obtain rfl := Except.ok.inj (hok.symm.trans hok')
      exact ⟨hclash, (hnets.final_iff hwell hclash).mp heffect.final,
        hnets.alters hclash heffect.final heffect.noop⟩
    · exact ⟨result, hok, hnets.family, (hnets.final_iff hwell hclash).mpr hkept.lastWord,
        hnets.noop hwell hkept, hwindows⟩
    · rintro ⟨error, herror⟩
      cases hok.symm.trans herror
  · refine ⟨iff_of_false ?_ fun hkept => hkept.orderable hclash,
      fun hcomparable => absurd hclash hcomparable.not_clash, iff_of_true ⟨_, herror⟩ hclash⟩
    rintro ⟨result, hok, -⟩
    cases hok.symm.trans herror

end Coalesced

/-! ## A whole series and then one of its steps -/

/-- A scalar holds at every step. -/
def scalar (value : Nat) (_ : Nat) : Nat := value

def warmSite : SourceState Nat where
  objects := fun _ => none
  classes := fun _ => -1
  series := fun _ => 1
  parameters := fun _ => 0
  layers := []

def warmer (timeIndex : Option Nat) (before after : Nat) : SourceDelta Nat where
  sourceNodeId := "meteorology"
  adapterId := "meteorological_forcing"
  content := .forcing [⟨"air_temperature", timeIndex, before, after⟩]

/-- A whole series, and then one of its steps. -/
def warmedTwice : List (SourceDelta Nat) := [warmer none 1 2, warmer (some 3) 2 5]

theorem warmedTwice_wellFormed : WellFormed scalar warmSite warmedTwice where
  nonempty := by simp [warmedTwice]
  family := by simp [warmedTwice, warmer, DeltaContent.family]
  source := by simp [warmedTwice, warmer]
  adapter := by simp [warmedTwice, warmer]
  objects := by
    intro pre change post hsplit
    simp [warmedTwice, warmer, DeltaContent.objects] at hsplit
  forcing := by
    intro pre w post hsplit _ cell htouch
    have hwrites : (warmedTwice.flatMap (·.content.changes)).map (·.toWrite) =
        [(("air_temperature", none), 1, 2), (("air_temperature", some 3), 2, 5)] := rfl
    rw [hwrites] at hsplit
    match pre, hsplit with
    | [], hsplit =>
      obtain ⟨rfl, -⟩ := List.cons.inj hsplit
      rfl
    | [_], hsplit =>
      obtain ⟨rfl, hrest⟩ := List.cons.inj hsplit
      obtain ⟨rfl, -⟩ := List.cons.inj hrest
      have hfirst : Touches ("air_temperature", none) cell := ⟨htouch.1, Or.inl rfl⟩
      simp [write, hfirst, atCell, scalar]
    | _ :: _ :: _, hsplit => simp at hsplit
  parameters := by
    intro pre w post hsplit
    simp [warmedTwice, warmer, DeltaContent.parameters] at hsplit

theorem coalesceSourceDeltas_raises : ¬ ∀ deltas : List (SourceDelta Nat),
    WellFormed scalar warmSite deltas →
      ∃ result, coalesceSourceDeltas deltas = .ok result ∧
        NetEffect scalar warmSite deltas result := by
  intro h
  obtain ⟨result, hok, -⟩ := h warmedTwice warmedTwice_wellFormed
  have herror : coalesceSourceDeltas warmedTwice =
      .error (.unorderable "air_temperature") := rfl
  cases hok.symm.trans herror

/-- A whole series there and back, and then one of its steps. -/
def warmedBack : List (SourceDelta Nat) := [warmer none 1 2, warmer none 2 1, warmer (some 3) 1 5]

def warmedBackWrites : List (KeyedWrite (String × Option Nat) Nat) :=
  [(("air_temperature", none), 1, 2), (("air_temperature", none), 2, 1),
    (("air_temperature", some 3), 1, 5)]

theorem warmedBack_wellFormed : WellFormed scalar warmSite warmedBack where
  nonempty := by simp [warmedBack]
  family := by simp [warmedBack, warmer, DeltaContent.family]
  source := by simp [warmedBack, warmer]
  adapter := by simp [warmedBack, warmer]
  objects := by
    intro pre change post hsplit
    simp [warmedBack, warmer, DeltaContent.objects] at hsplit
  forcing := by
    intro pre w post hsplit hnew cell htouch
    rw [show (warmedBack.flatMap (·.content.changes)).map (·.toWrite) = warmedBackWrites from rfl,
      warmedBackWrites] at hsplit
    match pre, hsplit with
    | [], hsplit =>
      obtain ⟨rfl, -⟩ := List.cons.inj hsplit
      rfl
    | [_], hsplit =>
      simp only [List.cons_append, List.nil_append, List.cons.injEq] at hsplit
      obtain ⟨rfl, rfl, -⟩ := hsplit
      simp at hnew
    | [_, _], hsplit =>
      simp only [List.cons_append, List.nil_append, List.cons.injEq] at hsplit
      obtain ⟨rfl, rfl, rfl, -⟩ := hsplit
      have hseries : Touches ("air_temperature", none) cell := ⟨htouch.1, Or.inl rfl⟩
      simp [write, hseries, atCell, scalar]
    | _ :: _ :: _ :: _, hsplit => simp at hsplit
  parameters := by
    intro pre w post hsplit
    simp [warmedBack, warmer, DeltaContent.parameters] at hsplit

theorem warmedBack_survives {key : String × Option Nat} :
    Survives warmedBackWrites key ↔ key = ("air_temperature", some 3) := by
  constructor
  · rintro ⟨before, after, hfirst, hlast, hdiff⟩
    obtain ⟨w, hw, rfl⟩ := exists_of_lastAfter? hlast
    simp only [warmedBackWrites, List.mem_cons, List.not_mem_nil, or_false] at hw
    rcases hw with rfl | rfl | rfl
    · obtain rfl : 1 = before := Option.some.inj hfirst
      obtain rfl : 1 = after := Option.some.inj hlast
      exact absurd rfl hdiff
    · obtain rfl : 1 = before := Option.some.inj hfirst
      obtain rfl : 1 = after := Option.some.inj hlast
      exact absurd rfl hdiff
    · rfl
  · rintro rfl
    exact ⟨1, 5, rfl, rfl, by decide⟩

theorem warmedBack_coalescible :
    Coalescible scalar warmSite.series (warmedBack.flatMap (·.content.changes)) where
  orderable := by
    rintro ⟨name, t, hseries, -⟩
    cases (Prod.mk.inj (warmedBack_survives.mp hseries)).2
  lastWord := by
    intro pre w post cell hsplit htouch hpost hcancels
    change warmedBackWrites = _ at hsplit
    change ¬ Survives warmedBackWrites _ at hcancels
    change (∀ key after, Survives warmedBackWrites key → _) ∧
      ((∀ key, Survives warmedBackWrites key → _) → _)
    rw [warmedBackWrites] at hsplit
    match pre, hsplit with
    | [], hsplit =>
      simp only [List.nil_append, List.cons.injEq] at hsplit
      obtain ⟨rfl, rfl⟩ := hsplit
      exact absurd htouch (hpost (("air_temperature", none), 2, 1) (by simp))
    | [_], hsplit =>
      simp only [List.cons_append, List.nil_append, List.cons.injEq] at hsplit
      obtain ⟨-, rfl, rfl⟩ := hsplit
      refine ⟨fun key after hkey hcell _ => ?_, fun _ => rfl⟩
      rw [warmedBack_survives.mp hkey] at hcell
      exact absurd hcell (hpost _ List.mem_cons_self)
    | [_, _], hsplit =>
      simp only [List.cons_append, List.nil_append, List.cons.injEq] at hsplit
      obtain ⟨-, -, rfl, -⟩ := hsplit
      exact absurd (warmedBack_survives.mpr rfl) hcancels
    | _ :: _ :: _ :: _, hsplit => simp at hsplit
  alters _ := ⟨("air_temperature", some 3), 5, ("air_temperature", 3), warmedBack_survives.mpr rfl,
    ⟨rfl, Or.inr rfl⟩, rfl, by decide⟩

theorem coalesceSourceDeltas_netEffect_back : WellFormed scalar warmSite warmedBack ∧
    ∃ result, coalesceSourceDeltas warmedBack = .ok result ∧
      NetEffect scalar warmSite warmedBack result :=
  ⟨warmedBack_wellFormed,
    (coalesceSourceDeltas_netEffect warmedBack_wellFormed).1.mpr warmedBack_coalescible⟩

end Solweig.Planner
