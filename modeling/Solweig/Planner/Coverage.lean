import Mathlib.Data.List.Lattice
import Solweig.Lib.Fold
import Solweig.Planner.Plan

/-!
# Temporal coverage

Which time steps the impact of a time-varying node covers, and when these are all the steps that
the batch changes there and asks for.
-/

namespace Solweig.Planner

open Solweig.Lib

variable {V : Type}

/-! ## Times of a scope -/

/-- The step is one that a scope recomputes. -/
def TemporalScope.Covers (start stop : Option Nat) (t : Nat) : TemporalScope → Prop
  | .one => start = some t
  | .range => (∃ a ∈ start, a ≤ t) ∧ ∃ b ∈ stop, t ≤ b
  | .replay => (∃ a ∈ start, a ≤ t) ∧ ∀ b ∈ stop, t ≤ b
  | .all => True

def NodeImpact.Covers (impact : NodeImpact) (t : Nat) : Prop :=
  impact.temporalScope.Covers impact.timeStart impact.timeStop t

theorem mem_sortedSet {α : Type} [DecidableEq α] [LE α] [DecidableLE α] {items : List α} {a : α} :
    a ∈ sortedSet items ↔ a ∈ items := by
  unfold sortedSet
  rw [List.mem_insertionSort, List.mem_dedup]

/-- The times lie on both sides of `t`. -/
def Between (times : List Nat) (t : Nat) : Prop := (∃ a ∈ times, a ≤ t) ∧ ∃ b ∈ times, t ≤ b

theorem min?_le_iff {times : List Nat} {start t : Nat} (h : times.min? = some start) :
    start ≤ t ↔ ∃ a ∈ times, a ≤ t := by
  obtain ⟨hmem, hleast⟩ := List.min?_eq_some_iff.mp h
  constructor
  · intro hle
    exact ⟨start, hmem, hle⟩
  · rintro ⟨a, ha, hle⟩
    exact (hleast a ha).trans hle

theorem le_max?_iff {times : List Nat} {stop t : Nat} (h : times.max? = some stop) :
    t ≤ stop ↔ ∃ b ∈ times, t ≤ b := by
  obtain ⟨hmem, hgreatest⟩ := List.max?_eq_some_iff.mp h
  constructor
  · intro hle
    exact ⟨stop, hmem, hle⟩
  · rintro ⟨b, hb, hle⟩
    exact hle.trans (hgreatest b hb)

/-- A temporal scope with its bounds. -/
def CoversAt (timing : TemporalScope × Option Nat × Option Nat) (t : Nat) : Prop :=
  timing.1.Covers timing.2.1 timing.2.2 t

theorem covers_span {times : List Nat} {start stop t : Nat} (hmin : times.min? = some start)
    (hmax : times.max? = some stop) :
    CoversAt (if start = stop then (TemporalScope.one, some start, none)
      else (TemporalScope.range, some start, some stop)) t ↔ Between times t := by
  unfold Between
  rw [← min?_le_iff hmin, ← le_max?_iff hmax]
  split
  · simp only [CoversAt, TemporalScope.Covers, Option.some.injEq]
    omega
  · simp [CoversAt, TemporalScope.Covers]

namespace EditPlanner

/-- The times that decide the scope of a node. -/
def decidingTimes (nodeId : String) (isForcingDriven : Bool) (requestedTimes explicitTimes : List Nat) :
    List Nat :=
  if (nodeId ∈ statefulNodes ∨ isForcingDriven) ∧ explicitTimes ≠ [] then explicitTimes
  else requestedTimes

/-- A time-varying node covers the steps between its deciding times, a stateful one all up to the
last of them, and every step when there are none. -/
theorem temporalScope_covers {nodeId : String} {isForcingDriven : Bool}
    {requestedTimes explicitTimes times : List Nat} {t : Nat} (hnode : nodeId ∈ timeVaryingNodes)
    (htimes : decidingTimes nodeId isForcingDriven requestedTimes explicitTimes = times) :
    CoversAt (temporalScope nodeId isForcingDriven requestedTimes explicitTimes) t ↔
      times = [] ∨ (nodeId ∈ statefulNodes ∨ ∃ a ∈ times, a ≤ t) ∧ ∃ b ∈ times, t ≤ b := by
  unfold decidingTimes at htimes
  unfold temporalScope
  by_cases hstateful : nodeId ∈ statefulNodes
  · have hstop : (if explicitTimes ≠ [] then explicitTimes.max?
        else if requestedTimes ≠ [] then requestedTimes.max? else none) = times.max? := by
      rw [← htimes]
      by_cases hexplicit : explicitTimes = []
      · by_cases hrequested : requestedTimes = [] <;> simp [hexplicit, hrequested]
      · simp [hstateful, hexplicit]
    rw [if_pos hstateful, hstop]
    cases hmax : times.max? with
    | none =>
      have hempty := List.max?_eq_none_iff.mp hmax
      simp [CoversAt, TemporalScope.Covers, hempty]
    | some stop =>
      have hne : times ≠ [] := by
        rintro rfl
        simp at hmax
      simp [CoversAt, TemporalScope.Covers, hne, hstateful, le_max?_iff hmax]
  · have hbounds : (if isForcingDriven = true ∧ explicitTimes ≠ [] then explicitTimes
        else requestedTimes) = times := by
      rw [← htimes]
      simp [hstateful]
    rw [if_neg hstateful, if_neg (not_not.mpr hnode), hbounds]
    cases hmin : times.min? with
    | none =>
      have hempty := List.min?_eq_none_iff.mp hmin
      simp [CoversAt, TemporalScope.Covers, hempty]
    | some start =>
      obtain ⟨hmem, -⟩ := List.min?_eq_some_iff.mp hmin
      have hne : times ≠ [] := List.ne_nil_of_mem hmem
      obtain ⟨stop, hmax⟩ := Option.ne_none_iff_exists'.mp fun h => hne (List.max?_eq_none_iff.mp h)
      simp only [hmin, hmax, hne, hstateful, false_or]
      exact covers_span hmin hmax

theorem utciTiming_covers {times : List Nat} {t : Nat} (ht : t ∈ times) :
    CoversAt (utciTiming times) t := by
  have hne : times ≠ [] := List.ne_nil_of_mem ht
  obtain ⟨start, hmin⟩ := Option.ne_none_iff_exists'.mp fun h => hne (List.min?_eq_none_iff.mp h)
  obtain ⟨stop, hmax⟩ := Option.ne_none_iff_exists'.mp fun h => hne (List.max?_eq_none_iff.mp h)
  unfold utciTiming
  split
  · rename_i hone
    obtain ⟨time, rfl⟩ := List.length_eq_one_iff.mp hone
    rw [List.mem_singleton.mp ht]
    rfl
  · simp only [CoversAt, TemporalScope.Covers, hmin, hmax, Option.mem_def, Option.some.injEq,
      exists_eq_left']
    exact ⟨(min?_le_iff hmin).mpr ⟨t, ht, le_refl t⟩, (le_max?_iff hmax).mpr ⟨t, ht, le_refl t⟩⟩

/-! ## Impacts of a plan -/

variable {planner : EditPlanner V}

theorem NodeImpact_make_ok {fields : ImpactFields} {impact : NodeImpact}
    (h : NodeImpact.make fields = .ok impact) : impact.toImpactFields = fields := by
  unfold NodeImpact.make at h
  split at h
  · obtain rfl := Except.ok.inj h
    rfl
  · cases h

/-- The timing of an impact. -/
def timing (impact : NodeImpact) : TemporalScope × Option Nat × Option Nat :=
  (impact.temporalScope, impact.timeStart, impact.timeStop)

theorem buildImpact_timing {nodeId : String} {nodeScope : NodeScope} {dirty : List String}
    {resolved : Resolved} {driven : Bool} {requestedTimes explicitTimes : List Nat}
    {impact : NodeImpact} {reasons : List String}
    (h : planner.buildImpact nodeId nodeScope dirty resolved driven requestedTimes explicitTimes =
      .ok (impact, reasons)) :
    impact.nodeId = nodeId ∧
      timing impact = temporalScope nodeId driven requestedTimes explicitTimes := by
  unfold buildImpact at h
  simp only [except_bind_ok] at h
  obtain ⟨decision, -, built, hmake, hpure⟩ := h
  obtain ⟨rfl, -⟩ := Prod.mk.inj (Except.ok.inj hpure)
  have hfields := NodeImpact_make_ok hmake
  unfold timing
  rw [hfields]
  exact ⟨rfl, rfl⟩

/-- What the walk knows of the impacts that it has built. -/
def Timed (data : WalkData) (walk : Walk) : Prop :=
  ∀ impact ∈ walk.impacts, timing impact = temporalScope impact.nodeId
    (decide (impact.nodeId ∈ data.forcingDirty)) data.requestedTimes data.explicitTimes

theorem walkNode_timed {data : WalkData} {walk walk' : Walk} {nodeId : String}
    (h : planner.walkNode data walk nodeId = .ok walk') (hwalk : Timed data walk) :
    Timed data walk' := by
  unfold walkNode at h
  split at h
  · obtain rfl := Except.ok.inj h
    exact hwalk
  · split at h
    · obtain rfl := Except.ok.inj h
      exact hwalk
    · rw [except_bind_ok] at h
      obtain ⟨nodeScope, -, h⟩ := h
      split at h
      · obtain rfl := Except.ok.inj h
        exact hwalk
      · rw [except_bind_ok] at h
        obtain ⟨⟨built, reasons⟩, hbuild, hpure⟩ := h
        obtain rfl := Except.ok.inj hpure
        obtain ⟨hid, htiming⟩ := buildImpact_timing hbuild
        intro impact himpact
        rcases List.mem_append.mp himpact with hold | hnew
        · exact hwalk impact hold
        · rw [List.mem_singleton.mp hnew, hid]
          exact htiming

theorem metUtciFastPlan_plan {changed : List (SourceDelta V)} {sources keep : List String}
    {requestedTimes : List Nat} {reasons : List String} {state : PlannedState}
    {context : Option SiteContext} {plan : ImpactPlan}
    (h : planner.metUtciFastPlan changed sources keep requestedTimes reasons state context =
      .ok (.plan plan)) :
    sources = ["meteorology"] ∧ ∃ changes,
      utciOnlyChanges? (deltasOf changed "meteorology") = some changes ∧
      ∀ impact ∈ plan.nodeImpacts, timing impact = utciTiming (sortedSet (changes.map (·.2))) := by
  unfold metUtciFastPlan at h
  split at h
  · cases h
  · rename_i hsources
    split at h
    · cases h
    · rename_i changes hchanges
      split at h
      · cases h
      · split at h
        · cases h
        · split at h
          · cases h
          · simp only [except_bind_ok] at h
            obtain ⟨impact, hmake, ⟨memory, work⟩, -, hpure⟩ := h
            obtain rfl := FastPlan.plan.inj (Except.ok.inj hpure)
            refine ⟨not_not.mp hsources, changes, hchanges, fun other hother => ?_⟩
            rw [List.mem_singleton.mp hother, timing, NodeImpact_make_ok hmake]
            rfl

variable {edits : List (ValidatedEdit V)}

theorem checkRegistryFacts_ok (h : planner.checkRegistryFacts edits = .ok ())
    {edit : ValidatedEdit V} (hedit : edit ∈ edits) : edit.sourceNodeId ∈ planner.graph.nodeIds := by
  unfold checkRegistryFacts at h
  have hchecks := forM_ok.mp h edit hedit
  simp only [except_bind_ok, refuseIf_ok, not_not] at hchecks
  obtain ⟨_, -, _, -, _, -, _, -, _, -, _, hknown, -⟩ := hchecks
  exact hknown

theorem planSources_timing {state : PlannedState} {context : Option SiteContext}
    {changed : List (SourceDelta V)} {sources : List String} {plan : ImpactPlan}
    (h : planner.planSources edits state context changed sources = .ok plan) {impact : NodeImpact}
    (himpact : impact ∈ plan.nodeImpacts) :
    timing impact = temporalScope impact.nodeId
        (decide (impact.nodeId ∈ planner.graph.downstream
          (sources.filter fun id => id ∈ forcingSourceNodes)))
        (requestedTimesOf edits)
        (withRequested (explicitForcingTimes sources changed) (requestedTimesOf edits)) ∨
      sources = ["meteorology"] ∧ ∃ changes,
        utciOnlyChanges? (deltasOf changed "meteorology") = some changes ∧
        timing impact = utciTiming (sortedSet (changes.map (·.2))) := by
  unfold planSources at h
  simp only [except_bind_ok] at h
  obtain ⟨walk, hsource, _, -, keep, -, fast, hfast, h⟩ := h
  cases fast with
  | plan narrow =>
    obtain rfl := Except.ok.inj h
    obtain ⟨hsources, changes, hchanges, htiming⟩ := metUtciFastPlan_plan hfast
    exact Or.inr ⟨hsources, changes, hchanges, htiming impact himpact⟩
  | none reasons =>
    simp only [except_bind_ok] at h
    obtain ⟨walk', hwalk, _, -, hpure⟩ := h
    obtain rfl := Except.ok.inj hpure
    have hempty : walk.impacts = [] := by
      apply foldlM_invariant (I := fun _ w => w.impacts = []) ?_ rfl hsource
      intro _ nodeId _ w w' _ hw hstep
      rw [except_bind_ok] at hstep
      obtain ⟨_, -, hpure⟩ := hstep
      obtain rfl := Except.ok.inj hpure
      exact hw
    have htimed := foldlM_invariant (I := fun _ w => Timed _ w)
      (fun _ _ _ _ _ _ hw hstep => walkNode_timed hstep hw)
      (fun impact hmem => by simp [hempty] at hmem) hwalk
    exact Or.inl (htimed impact himpact)

/-! ## Named times -/

variable {changed : List (SourceDelta V)} {nodeId : String}

theorem mem_scientificSources {source : String} :
    source ∈ planner.scientificSources changed ↔
      (∃ delta ∈ changed, delta.sourceNodeId = source) ∧
        planner.graph.kind? source ≠ some .view := by
  unfold scientificSources changedNodes
  rw [List.mem_filter, mem_sortedSet, List.mem_map, decide_eq_true_eq]

theorem mem_requestedTimesOf {t : Nat} :
    t ∈ requestedTimesOf edits ↔ ∃ edit ∈ edits, t ∈ edit.command.requestedTimes.getD [] := by
  unfold requestedTimesOf
  rw [mem_sortedSet, List.mem_flatMap]

theorem mem_timeIndices {changes : List (ForcingChange V)} {t : Nat} :
    t ∈ timeIndices changes ↔ ∃ change ∈ changes, change.timeIndex = some t := by
  unfold timeIndices
  rw [List.mem_insertionSort, List.mem_dedup, List.mem_filterMap]

theorem mem_explicitForcingTimes {t : Nat} :
    t ∈ explicitForcingTimes (planner.scientificSources changed) changed ↔
      ∃ delta ∈ changed, planner.graph.kind? delta.sourceNodeId ≠ some .view ∧
        delta.sourceNodeId ∈ forcingSourceNodes ∧
        ∃ change ∈ delta.content.changes, change.timeIndex = some t := by
  unfold explicitForcingTimes deltasOf
  simp only [mem_sortedSet, List.mem_flatMap, List.mem_filter, decide_eq_true_eq,
    mem_scientificSources, mem_timeIndices]
  constructor
  · rintro ⟨source, ⟨⟨-, hkind⟩, hforcing⟩, delta, ⟨hdelta, rfl⟩, hchange⟩
    exact ⟨delta, hdelta, hkind, hforcing, hchange⟩
  · rintro ⟨delta, hdelta, hkind, hforcing, hchange⟩
    exact ⟨delta.sourceNodeId, ⟨⟨⟨delta, hdelta, rfl⟩, hkind⟩, hforcing⟩, delta, ⟨hdelta, rfl⟩, hchange⟩

theorem mem_decidingTimes {isForcingDriven : Bool} {requestedTimes explicitTimes : List Nat}
    {t : Nat} :
    t ∈ decidingTimes nodeId isForcingDriven requestedTimes
        (withRequested explicitTimes requestedTimes) ↔
      t ∈ requestedTimes ∨
        (nodeId ∈ statefulNodes ∨ isForcingDriven = true) ∧ t ∈ explicitTimes := by
  unfold decidingTimes withRequested
  by_cases hexplicit : explicitTimes = []
  · simp [hexplicit]
  · by_cases hrequested : requestedTimes = []
    · by_cases hnode : nodeId ∈ statefulNodes ∨ isForcingDriven = true <;>
        simp [hexplicit, hrequested, hnode]
    · have hne : sortedSet (explicitTimes ++ requestedTimes) ≠ [] := by
        obtain ⟨a, ha⟩ := List.exists_mem_of_ne_nil _ hexplicit
        exact List.ne_nil_of_mem (mem_sortedSet.mpr (List.mem_append_left _ ha))
      by_cases hnode : nodeId ∈ statefulNodes ∨ isForcingDriven = true
      · simp [hexplicit, hrequested, hnode, hne, mem_sortedSet, or_comm]
      · simp [hexplicit, hrequested, hnode]

end EditPlanner

/-! ## What a batch needs -/

def EditCommand.NamesTimes (command : EditCommand V) : Prop := command.requestedTimes.getD [] ≠ []

/-- A command that names no times asks for every step. -/
def EditCommand.Requests (command : EditCommand V) (t : Nat) : Prop :=
  command.NamesTimes → t ∈ command.requestedTimes.getD []

/-- A forcing change acts at its index, or at every step. -/
def ForcingChange.ActsAt (change : ForcingChange V) (t : Nat) : Prop :=
  ∀ time ∈ change.timeIndex, time = t

/-- A change of another source acts at every step. -/
def SourceDelta.ActsAt (delta : SourceDelta V) (t : Nat) : Prop :=
  delta.sourceNodeId ∈ forcingSourceNodes → ∃ change ∈ delta.content.changes, change.ActsAt t

/-- A change that is no forcing change, or one of a whole series. -/
def SourceDelta.ActsAlways (delta : SourceDelta V) : Prop :=
  delta.sourceNodeId ∈ forcingSourceNodes → ∃ change ∈ delta.content.changes, change.timeIndex = none

theorem actsAt_of_always {delta : SourceDelta V} (h : delta.ActsAlways) (t : Nat) :
    delta.ActsAt t := by
  intro hforcing
  obtain ⟨change, hchange, hwhole⟩ := h hforcing
  exact ⟨change, hchange, fun time htime => by simp [hwhole] at htime⟩

namespace EditPlanner

variable [DecidableEq V] (planner : EditPlanner V) (edits : List (ValidatedEdit V)) (nodeId : String)

/-- A change of a scientific source that can affect the node. -/
def Moves (delta : SourceDelta V) : Prop :=
  (∃ changed, changedDeltas edits = .ok changed ∧ delta ∈ changed) ∧
    planner.graph.kind? delta.sourceNodeId ≠ some .view ∧
    planner.graph.Reaches delta.sourceNodeId nodeId

/-- Some change affects the node at the step, and some edit asks for it. -/
def Needs (t : Nat) : Prop :=
  (∃ delta, planner.Moves edits nodeId delta ∧ delta.ActsAt t) ∧
    ∃ edit ∈ edits, edit.command.Requests t

/-- The times that the batch names for the node: those requested, and with a forcing change that
drives the node the changed ones. -/
def Names (t : Nat) : Prop :=
  (∃ edit ∈ edits, t ∈ edit.command.requestedTimes.getD []) ∨
    (nodeId ∈ statefulNodes ∨
      ∃ delta, planner.Moves edits nodeId delta ∧ delta.sourceNodeId ∈ forcingSourceNodes) ∧
    ∃ delta changed, changedDeltas edits = .ok changed ∧ delta ∈ changed ∧
      planner.graph.kind? delta.sourceNodeId ≠ some .view ∧
      delta.sourceNodeId ∈ forcingSourceNodes ∧
      ∃ change ∈ delta.content.changes, change.timeIndex = some t

/-- The batch does not ask for every step of a change that acts at every step, it names no times
for the node, or the times that it names span the series. -/
def Spanned (series : Nat → Prop) : Prop :=
  (∀ edit ∈ edits, edit.command.NamesTimes) ∨
  (∀ delta, planner.Moves edits nodeId delta → ¬ delta.ActsAlways) ∨
  (∀ t, ¬ planner.Names edits nodeId t) ∨
  ∀ t, series t → (nodeId ∈ statefulNodes ∨ ∃ a, planner.Names edits nodeId a ∧ a ≤ t) ∧
    ∃ b, planner.Names edits nodeId b ∧ t ≤ b

variable {planner} {edits} {nodeId}

/-! ## Changed sources -/

theorem coalesceSourceDeltas_source {deltas : List (SourceDelta V)} {delta : SourceDelta V}
    (h : coalesceSourceDeltas deltas = .ok delta) :
    ∃ first ∈ deltas, delta.sourceNodeId = first.sourceNodeId := by
  unfold coalesceSourceDeltas at h
  split at h
  · cases h
  · rename_i first rest
    rw [except_bind_ok] at h
    obtain ⟨_, -, h⟩ := h
    refine ⟨first, List.mem_cons_self, ?_⟩
    have hkept : ∀ {content}, (pure { first with content } : Except DeltaError _) = .ok delta →
        delta.sourceNodeId = first.sourceNodeId :=
      fun h => (congrArg (·.sourceNodeId) (Except.ok.inj h)).symm
    split at h
    case h_1 | h_2 | h_4 =>
      rw [except_bind_ok] at h
      obtain ⟨_, -, h⟩ := h
      exact hkept h
    all_goals exact hkept h

theorem changedDeltas_source {changed : List (SourceDelta V)}
    (h : changedDeltas edits = .ok changed) {delta : SourceDelta V} (hdelta : delta ∈ changed) :
    ∃ edit ∈ edits, edit.sourceNodeId = delta.sourceNodeId := by
  unfold changedDeltas at h
  rw [except_bind_ok] at h
  obtain ⟨coalesced, hcoalesced, hpure⟩ := h
  obtain rfl := Except.ok.inj hpure
  obtain ⟨key, -, hkey⟩ := mem_of_mapM_ok hcoalesced (List.mem_filter.mp hdelta).1
  obtain ⟨first, hfirst, hsource⟩ := coalesceSourceDeltas_source (except_mapError_ok.mp hkey)
  obtain ⟨edit, hedit, rfl⟩ := List.mem_map.mp hfirst
  exact ⟨edit, (List.mem_filter.mp hedit).1, by rw [hsource, edit.sourceMatches]⟩

theorem plan_sources {state : PlannedState} {context : Option SiteContext} {result : ImpactPlan}
    (h : planner.plan edits state context = .ok result) {impact : NodeImpact}
    (himpact : impact ∈ result.nodeImpacts) :
    (∀ edit ∈ edits, edit.sourceNodeId ∈ planner.graph.nodeIds) ∧
      ∃ changed, changedDeltas edits = .ok changed ∧
        planner.planSources edits state context changed (planner.scientificSources changed) =
          .ok result := by
  unfold plan at h
  simp only [except_bind_ok] at h
  obtain ⟨_, -, _, -, _, -, _, hfacts, _, -, changed, hchanged, h⟩ := h
  refine ⟨fun edit => checkRegistryFacts_ok hfacts, changed, hchanged, ?_⟩
  split at h
  · obtain rfl := Except.ok.inj h
    cases himpact
  · exact h

/-! ## Coverage -/

section Coverage

variable {changed : List (SourceDelta V)} (hchanged : changedDeltas edits = .ok changed)
include hchanged

theorem moves_iff {delta : SourceDelta V} :
    planner.Moves edits nodeId delta ↔ delta ∈ changed ∧
      planner.graph.kind? delta.sourceNodeId ≠ some .view ∧
      planner.graph.Reaches delta.sourceNodeId nodeId := by
  unfold Moves
  constructor
  · rintro ⟨⟨changed', hchanged', hdelta⟩, hrest⟩
    obtain rfl := Except.ok.inj (hchanged.symm.trans hchanged')
    exact ⟨hdelta, hrest⟩
  · rintro ⟨hdelta, hrest⟩
    exact ⟨⟨changed, hchanged, hdelta⟩, hrest⟩

theorem drivenByForcing_iff (hknown : ∀ edit ∈ edits, edit.sourceNodeId ∈ planner.graph.nodeIds) :
    nodeId ∈ planner.graph.downstream
        ((planner.scientificSources changed).filter fun id => id ∈ forcingSourceNodes) ↔
      ∃ delta, planner.Moves edits nodeId delta ∧ delta.sourceNodeId ∈ forcingSourceNodes := by
  have hsources : ((planner.scientificSources changed).filter fun id => id ∈ forcingSourceNodes) ⊆
      planner.graph.nodeIds := by
    intro source hsource
    obtain ⟨⟨delta, hdelta, rfl⟩, -⟩ := mem_scientificSources.mp (List.mem_filter.mp hsource).1
    obtain ⟨edit, hedit, hsame⟩ := changedDeltas_source hchanged hdelta
    exact hsame ▸ hknown edit hedit
  rw [EditGraph.mem_downstream hsources]
  simp only [List.mem_filter, decide_eq_true_eq, mem_scientificSources, moves_iff hchanged]
  constructor
  · rintro ⟨_, ⟨⟨⟨delta, hdelta, rfl⟩, hkind⟩, hforcing⟩, hreach⟩
    exact ⟨delta, ⟨hdelta, hkind, hreach⟩, hforcing⟩
  · rintro ⟨delta, ⟨hdelta, hkind, hreach⟩, hforcing⟩
    exact ⟨delta.sourceNodeId, ⟨⟨⟨delta, hdelta, rfl⟩, hkind⟩, hforcing⟩, hreach⟩

theorem names_iff (hknown : ∀ edit ∈ edits, edit.sourceNodeId ∈ planner.graph.nodeIds) {t : Nat} :
    planner.Names edits nodeId t ↔
      t ∈ decidingTimes nodeId (decide (nodeId ∈ planner.graph.downstream
          ((planner.scientificSources changed).filter fun id => id ∈ forcingSourceNodes)))
        (requestedTimesOf edits)
        (withRequested (explicitForcingTimes (planner.scientificSources changed) changed)
          (requestedTimesOf edits)) := by
  rw [mem_decidingTimes, decide_eq_true_eq, drivenByForcing_iff hchanged hknown,
    mem_requestedTimesOf, mem_explicitForcingTimes]
  unfold Names
  constructor
  · rintro (hrequested | ⟨hnode, delta, changed', hchanged', hdelta, hrest⟩)
    · exact Or.inl hrequested
    · obtain rfl := Except.ok.inj (hchanged.symm.trans hchanged')
      exact Or.inr ⟨hnode, delta, hdelta, hrest⟩
  · rintro (hrequested | ⟨hnode, delta, hdelta, hrest⟩)
    · exact Or.inl hrequested
    · exact Or.inr ⟨hnode, delta, changed, hchanged, hdelta, hrest⟩

end Coverage

theorem names_of_discrete {delta : SourceDelta V} (hmoves : planner.Moves edits nodeId delta)
    (hdiscrete : ¬ delta.ActsAlways) {t : Nat} (hacts : delta.ActsAt t) :
    planner.Names edits nodeId t := by
  unfold SourceDelta.ActsAlways at hdiscrete
  push Not at hdiscrete
  obtain ⟨hforcing, hindices⟩ := hdiscrete
  obtain ⟨change, hchange, htime⟩ := hacts hforcing
  obtain ⟨time, hindex⟩ := Option.ne_none_iff_exists'.mp (hindices change hchange)
  obtain rfl := htime time hindex
  obtain ⟨⟨changed, hchanged, hdelta⟩, hkind, -⟩ := id hmoves
  exact Or.inr ⟨Or.inr ⟨delta, hmoves, hforcing⟩, delta, changed, hchanged, hdelta, hkind, hforcing,
    change, hchange, hindex⟩

/-- Where a node is scheduled by the times that are named for it, it covers what the batch needs
there exactly when these span it. -/
theorem covers_named {series : Nat → Prop} {covers : Nat → Prop}
    (hcovers : ∀ t, covers t ↔ (∀ a, ¬ planner.Names edits nodeId a) ∨
      (nodeId ∈ statefulNodes ∨ ∃ a, planner.Names edits nodeId a ∧ a ≤ t) ∧
        ∃ b, planner.Names edits nodeId b ∧ t ≤ b) :
    (∀ t, series t → planner.Needs edits nodeId t → covers t) ↔
      planner.Spanned edits nodeId series := by
  have hnamed : ∀ t, planner.Names edits nodeId t → covers t := fun t ht =>
    (hcovers t).mpr (Or.inr ⟨Or.inr ⟨t, ht, le_refl t⟩, t, ht, le_refl t⟩)
  unfold Spanned
  by_cases hnames : ∀ edit ∈ edits, edit.command.NamesTimes
  · refine iff_of_true ?_ (Or.inl hnames)
    rintro t - ⟨-, edit, hedit, hrequests⟩
    exact hnamed t (Or.inl ⟨edit, hedit, hrequests (hnames edit hedit)⟩)
  · by_cases hdiscrete : ∀ delta, planner.Moves edits nodeId delta → ¬ delta.ActsAlways
    · refine iff_of_true ?_ (Or.inr (Or.inl hdiscrete))
      rintro t - ⟨⟨delta, hmoves, hacts⟩, -⟩
      exact hnamed t (names_of_discrete hmoves (hdiscrete delta hmoves) hacts)
    · -- every step is needed
      push Not at hnames
      obtain ⟨edit, hedit, hnone⟩ := hnames
      obtain ⟨delta, hmoves, halways⟩ : ∃ delta, planner.Moves edits nodeId delta ∧
          delta.ActsAlways := by
        push Not at hdiscrete
        exact hdiscrete
      have hneeds : ∀ t, planner.Needs edits nodeId t := fun t =>
        ⟨⟨delta, hmoves, actsAt_of_always halways t⟩, edit, hedit, fun h => absurd h hnone⟩
      have hall : ¬ ∀ edit ∈ edits, edit.command.NamesTimes := fun h => hnone (h edit hedit)
      simp only [hneeds, hcovers, hall, hdiscrete, false_or, forall_const]
      by_cases hempty : ∀ a, ¬ planner.Names edits nodeId a
      · simp [hempty]
      · simp [hempty]

theorem narrow_covers {changed : List (SourceDelta V)}
    (hchanged : changedDeltas edits = .ok changed)
    (honly : planner.scientificSources changed = ["meteorology"])
    {changes : List (String × Nat)}
    (hchanges : utciOnlyChanges? (deltasOf changed "meteorology") = some changes)
    {delta : SourceDelta V} (hmoves : planner.Moves edits nodeId delta) :
    ¬ delta.ActsAlways ∧
      ∀ t, delta.ActsAt t → CoversAt (utciTiming (sortedSet (changes.map (·.2)))) t := by
  obtain ⟨hdelta, hkind, -⟩ := (moves_iff hchanged).mp hmoves
  have hsource : delta.sourceNodeId = "meteorology" := by
    have hmem := mem_scientificSources.mpr ⟨⟨delta, hdelta, rfl⟩, hkind⟩
    rw [honly] at hmem
    exact List.mem_singleton.mp hmem
  have hforcing : delta.sourceNodeId ∈ forcingSourceNodes := by
    rw [hsource]
    exact List.mem_cons_self
  -- each change has an index, which is one of the times of the plan
  have hindexed : ∀ change ∈ delta.content.changes, ∃ time ∈ changes.map (·.2),
      change.timeIndex = some time := by
    intro change hchange
    obtain ⟨named, hnamed, hutci⟩ := mapM_some_mem hchanges (List.mem_flatMap.mpr
      ⟨delta, List.mem_filter.mpr ⟨hdelta, decide_eq_true hsource⟩, hchange⟩)
    split at hutci
    · obtain ⟨time, htime, rfl⟩ := Option.map_eq_some_iff.mp hutci
      exact ⟨time, List.mem_map_of_mem hnamed, htime⟩
    · cases hutci
  constructor
  · intro halways
    obtain ⟨change, hchange, hwhole⟩ := halways hforcing
    obtain ⟨time, -, htime⟩ := hindexed change hchange
    rw [hwhole] at htime
    cases htime
  · intro t hacts
    obtain ⟨change, hchange, hat⟩ := hacts hforcing
    obtain ⟨time, hmem, htime⟩ := hindexed change hchange
    obtain rfl := hat time htime
    exact utciTiming_covers (mem_sortedSet.mpr hmem)

/-- The impact of a time-varying node covers every step that a change affects and that an edit
asks for exactly when the named times span what the batch needs. -/
theorem temporal_coverage {state : PlannedState} {context : Option SiteContext}
    {result : ImpactPlan} {impact : NodeImpact} {series : Nat → Prop}
    (hplan : planner.plan edits state context = .ok result)
    (himpact : impact ∈ result.nodeImpacts) (hnode : impact.nodeId ∈ timeVaryingNodes) :
    (∀ t, series t → planner.Needs edits impact.nodeId t → impact.Covers t) ↔
      planner.Spanned edits impact.nodeId series := by
  obtain ⟨hknown, changed, hchanged, hsources⟩ := plan_sources hplan himpact
  rcases planSources_timing hsources himpact with htiming | ⟨honly, changes, hchanges, htiming⟩
  · apply covers_named
    intro t
    show CoversAt (timing impact) t ↔ _
    rw [htiming, temporalScope_covers hnode rfl]
    simp only [names_iff hchanged hknown, List.eq_nil_iff_forall_not_mem]
  · have hnarrow : ∀ delta, planner.Moves edits impact.nodeId delta → ¬ delta.ActsAlways ∧
        ∀ t, delta.ActsAt t → CoversAt (utciTiming (sortedSet (changes.map (·.2)))) t :=
      fun _ hmoves => narrow_covers hchanged honly hchanges hmoves
    refine iff_of_true ?_ (Or.inr (Or.inl fun delta hmoves => (hnarrow delta hmoves).1))
    rintro t - ⟨⟨delta, hmoves, hacts⟩, -⟩
    show CoversAt (timing impact) t
    rw [htiming]
    exact (hnarrow delta hmoves).2 t hacts

/-! ### A building edit beside a discrete forcing edit -/

def conservativePolicy : SafetyPolicy where
  allowsLocal _ windows dirtyFraction :=
    if windows.isEmpty then ⟨false, "no write windows remain after clamping"⟩
    else if 3 / 10 ≤ dirtyFraction then ⟨false, "dirty fraction"⟩
    else ⟨true, "dirty fraction"⟩
  fullOnlyNodes := []

def smallPlanner : EditPlanner Nat where
  grid := ⟨4, 4, 1, by decide, by decide⟩
  graph := defaultEditGraph
  registry := Registry.ofMetadata builtinMetadata (fun _ _ => .ok ()) (fun _ _ => .ok ())
  policy := conservativePolicy
  stepsPos := by decide

def raisedBuilding (requestedTimes : Option (List Nat)) : ValidatedEdit Nat where
  command := {
    editId := "e1", scenarioId := "s", baseSceneRevision := 0, operation := "update"
    oldState := some 10, newState := some 12, requestedOutputs := ["utci"], requestedTimes }
  adapterId := "building_geometry"
  sourceNodeId := "building_dsm"
  delta := {
    sourceNodeId := "building_dsm", adapterId := "building_geometry"
    content := .buildingMassing [⟨"b1", some 10, some 12, by decide⟩] [] }
  sourceMatches := rfl
  adapterMatches := rfl

def warmerRow (requestedTimes : Option (List Nat)) : ValidatedEdit Nat where
  command := {
    editId := "e2", scenarioId := "s", baseSceneRevision := 0, operation := "update_time_row"
    oldState := some 20, newState := some 25, requestedOutputs := ["utci"], requestedTimes }
  adapterId := "meteorological_forcing"
  sourceNodeId := "meteorology"
  delta := {
    sourceNodeId := "meteorology", adapterId := "meteorological_forcing"
    content := .forcing [⟨"air_temperature", some 3, 20, 25⟩] }
  sourceMatches := rfl
  adapterMatches := rfl

def sixSteps : SiteContext where
  grid := smallPlanner.grid
  sceneRevision := 0
  availableTimes := List.range 6

/-- The planned impact of a node, with its timing. -/
def hasImpact (edits : List (ValidatedEdit Nat)) (nodeId : String)
    (scope : TemporalScope × Option Nat × Option Nat) : Bool :=
  (smallPlanner.plan edits ⟨true, 0⟩ (some sixSteps)).toOption.any fun result =>
    result.nodeImpacts.any fun impact => impact.nodeId = nodeId ∧ timing impact = scope

theorem hasImpact_iff {edits : List (ValidatedEdit Nat)} {nodeId : String}
    {scope : TemporalScope × Option Nat × Option Nat} (h : hasImpact edits nodeId scope = true) :
    ∃ result impact, smallPlanner.plan edits ⟨true, 0⟩ (some sixSteps) = .ok result ∧
      impact ∈ result.nodeImpacts ∧ impact.nodeId = nodeId ∧ timing impact = scope := by
  unfold hasImpact at h
  cases hplan : smallPlanner.plan edits ⟨true, 0⟩ (some sixSteps) with
  | error e =>
    rw [hplan] at h
    cases h
  | ok result =>
    rw [hplan] at h
    obtain ⟨impact, himpact, hscope⟩ := List.any_eq_true.mp h
    obtain ⟨hid, htiming⟩ := of_decide_eq_true hscope
    exact ⟨result, impact, rfl, himpact, hid, htiming⟩

/-- What two batches are planned for: one without times, one with. -/
theorem hasImpact_batches :
    hasImpact [raisedBuilding none, warmerRow none] "tmrt" (.one, some 3, none) = true ∧
      hasImpact [raisedBuilding (some [1, 4]), warmerRow (some [2])] "tmrt"
        (.range, some 1, some 4) = true := by
  decide +kernel

theorem building_reaches_tmrt : defaultEditGraph.Reaches "building_dsm" "tmrt" := by
  have h : "tmrt" ∈ defaultEditGraph.downstream ["building_dsm"] := by decide
  obtain ⟨source, hsource, hreach⟩ := (EditGraph.mem_downstream (by decide)).mp h
  rwa [List.mem_singleton.mp hsource] at hreach

/-- Neither edit names times: the whole series is needed, and the plan recomputes step 3 alone. -/
theorem mixedBatch_uncovered :
    ¬ ∀ (planner : EditPlanner Nat) (edits : List (ValidatedEdit Nat)) (state : PlannedState)
      (context : SiteContext) (result : ImpactPlan) (impact : NodeImpact),
      planner.plan edits state (some context) = .ok result → impact ∈ result.nodeImpacts →
      impact.nodeId ∈ timeVaryingNodes →
      ∀ t ∈ context.availableTimes, planner.Needs edits impact.nodeId t → impact.Covers t := by
  intro h
  obtain ⟨result, impact, hplan, himpact, hid, htiming⟩ := hasImpact_iff hasImpact_batches.1
  have hcovers := h _ _ _ _ _ _ hplan himpact (by rw [hid]; decide) 0 (by decide) ?_
  · change CoversAt (timing impact) 0 at hcovers
    rw [htiming] at hcovers
    cases hcovers
  · have hsome : ((changedDeltas [raisedBuilding none, warmerRow none]).toOption.any fun changed =>
        changed.any fun delta => delta.sourceNodeId = "building_dsm") = true := by decide
    cases hchanged : changedDeltas [raisedBuilding none, warmerRow none] with
    | error e =>
      rw [hchanged] at hsome
      cases hsome
    | ok changed =>
      rw [hchanged] at hsome
      obtain ⟨delta, hdelta, hsource⟩ := List.any_eq_true.mp hsome
      have hsource : delta.sourceNodeId = "building_dsm" := of_decide_eq_true hsource
      rw [hid]
      refine ⟨⟨delta, ⟨⟨changed, hchanged, hdelta⟩, ?_, ?_⟩, ?_⟩, raisedBuilding none,
        List.mem_cons_self, ?_⟩
      · rw [hsource]
        decide
      · rw [hsource]
        exact building_reaches_tmrt
      · intro hforcing
        rw [hsource] at hforcing
        exact absurd hforcing (by decide)
      · intro hnames
        exact absurd rfl hnames

/-- Both edits name their times. -/
theorem temporal_coverage_named :
    ∃ result impact, smallPlanner.plan [raisedBuilding (some [1, 4]), warmerRow (some [2])]
        ⟨true, 0⟩ (some sixSteps) = .ok result ∧ impact ∈ result.nodeImpacts ∧
      ((∀ t, t ∈ sixSteps.availableTimes → smallPlanner.Needs
          [raisedBuilding (some [1, 4]), warmerRow (some [2])] impact.nodeId t → impact.Covers t) ↔
        smallPlanner.Spanned [raisedBuilding (some [1, 4]), warmerRow (some [2])] impact.nodeId
          (· ∈ sixSteps.availableTimes)) := by
  obtain ⟨result, impact, hplan, himpact, hid, -⟩ := hasImpact_iff hasImpact_batches.2
  exact ⟨result, impact, hplan, himpact,
    temporal_coverage hplan himpact (by rw [hid]; decide)⟩

end EditPlanner

end Solweig.Planner
