import Mathlib.Data.Finset.Sort
import Solweig.Lib.Dict
import Solweig.Lib.Fold
import Solweig.Planner.Windows

/-!
# Request cuts

A job may be asked for some times and some variables only. Its record names the times that it
left out, and a composition is refused while a record that was cut has not been healed. All of
this is with the streaming of selected times on.
-/

namespace Solweig.Compose

open Solweig.Lib Solweig.Planner

structure Grid where
  timeSteps : Nat
  rows : Nat
  cols : Nat
  deriving DecidableEq

structure RequestedResult where
  timeIndices : Option (List Int)
  variableNames : Option (List String)

def supportedVariables : List String := ["utci", "tmrt", "shadow"]

def requestedCandidates (requested : Option RequestedResult) (timeSteps : Nat) : List Int :=
  match requested.bind (·.timeIndices) with
  | none | some [] => (List.range timeSteps).map Int.ofNat
  | some candidates => candidates

def cleanedIndices (timeSteps : Nat) (candidates : List Int) : List Nat :=
  candidates.foldl (fun (cleaned : List Nat) (index : Int) =>
    if 0 ≤ index ∧ index < timeSteps ∧ index.toNat ∉ cleaned then cleaned ++ [index.toNat]
    else cleaned) []

def requestedNames (requested : Option RequestedResult) : List String :=
  match requested.bind (·.variableNames) with
  | none | some [] => ["utci", "tmrt"]
  | some names => names

def resolveRequested (requested : Option RequestedResult) (grid : Grid) :
    List Nat × List String :=
  let cleaned := cleanedIndices grid.timeSteps (requestedCandidates requested grid.timeSteps)
  let names := supportedVariables.filter (· ∈ requestedNames requested)
  (if cleaned = [] then List.range grid.timeSteps else cleaned,
    if names = [] then ["utci"] else names)

/-! ## The manifest of a record -/

/-- The block of a record that was cut. -/
structure TimeCoverage where
  complete : Bool
  timeIndices : List Nat
  timeSteps : Nat

/-- The keys that the composition reads. -/
structure Manifest where
  window : RasterWindow
  timeIndices : List Nat
  variableNames : List String
  timeCoverage : Option TimeCoverage

def disclosureBlock (timeIndices : List Nat) (timeSteps : Nat) : TimeCoverage :=
  let covered := timeIndices.toFinset.sort (· ≤ ·)
  { complete := timeSteps ≤ covered.length ∧ covered = List.range timeSteps
    timeIndices := covered
    timeSteps }

def recordMissingTimes (manifest : Manifest) (timeSteps : Nat) : Finset Nat :=
  match manifest.timeCoverage with
  | none => ∅
  | some block =>
    if block.complete then ∅ else Finset.range timeSteps \ block.timeIndices.toFinset

def manifestCoversFullTime (manifest : Manifest) (timeSteps : Nat) : Bool :=
  manifest.timeIndices.length = timeSteps ∧ manifest.timeIndices.toFinset = Finset.range timeSteps

def recordWindowIsFullSite (manifest : Manifest) (grid : Grid) : Bool :=
  manifest.window.rowStart = 0 ∧ manifest.window.colStart = 0 ∧
    manifest.window.rowStop = grid.rows ∧ manifest.window.colStop = grid.cols

def healsGap (manifest : Manifest) (grid : Grid) : Bool :=
  manifestCoversFullTime manifest grid.timeSteps && recordWindowIsFullSite manifest grid

/-! ## Gaps -/

/-- The times that each variable still misses. -/
abbrev Gaps := Dict String (Finset Nat)

/-- A record without variables heals every name. -/
def healGaps (recordNames : List String) (gaps : Gaps) : Gaps :=
  (gaps.map fun name times =>
    if recordNames = [] ∨ name ∈ recordNames then ∅ else times).filter
      fun _ times => times ≠ ∅

def openGaps (missing : Finset Nat) (names : List String) (gaps : Gaps) : Gaps :=
  names.foldl (fun gaps name => gaps.insert name (gaps.getD name ∅ ∪ missing)) gaps

def gapStep (names : List String) (grid : Grid) (gaps : Gaps) (manifest : Manifest) : Gaps :=
  if healsGap manifest grid then healGaps manifest.variableNames gaps
  else
    let missing := recordMissingTimes manifest grid.timeSteps
    if missing = ∅ then gaps
    else openGaps missing (if manifest.variableNames = [] then names else manifest.variableNames) gaps

def gapTimes (manifests : List Manifest) (names : List String) (grid : Grid) : Gaps :=
  (manifests.foldl (gapStep names grid) ∅).filter fun _ times => times ≠ ∅

/-! ## The guard -/

inductive ComposeError where
  | noResult
  | timeCoverageGap (names : List String) (missingTimes : List Nat)
  | partialTimeScatter (name : String) (payloadTimes siteTimes : Nat)
  | indexOutOfBounds (index timeSteps : Nat)
  | missingVariables (names : List String)
  deriving DecidableEq

def gapNames (names : List String) (gaps : Gaps) : List String :=
  let gapped := names.filter fun name => gaps.contains name
  if gapped = [] then gaps.keys else gapped

def gapUnion (gaps : Gaps) : Finset Nat :=
  gaps.values.foldl (· ∪ ·) ∅

def guardComposition (manifests : List Manifest) (names : List String) (grid : Grid) :
    Except ComposeError Unit :=
  let gaps := gapTimes manifests names grid
  refuseIf (gaps.isEmpty = false)
    (.timeCoverageGap (gapNames names gaps) ((gapUnion gaps).sort (· ≤ ·)))

/-! ## What the walk finds -/

/-- A record redid every time of the whole site for the variable. -/
def Heals (grid : Grid) (manifest : Manifest) (name : String) : Prop :=
  healsGap manifest grid = true ∧ (manifest.variableNames = [] ∨ name ∈ manifest.variableNames)

/-- A record published the variable without the time. -/
def Cuts (names : List String) (grid : Grid) (manifest : Manifest) (name : String) (t : Nat) :
    Prop :=
  healsGap manifest grid = false ∧ t ∈ recordMissingTimes manifest grid.timeSteps ∧
    name ∈ (if manifest.variableNames = [] then names else manifest.variableNames)

section Walk

variable {names : List String} {grid : Grid} {manifest : Manifest} {manifests : List Manifest}
  {gaps : Gaps} {name : String} {t : Nat}

theorem getD_nonempty (gaps : Gaps) (name : String) :
    (gaps.filter fun _ times => times ≠ ∅).getD name ∅ = gaps.getD name ∅ := by
  rw [Std.ExtTreeMap.getD_filter', Std.ExtTreeMap.getD_eq_getD_getElem?]
  cases h : gaps[name]? with
  | none => rfl
  | some times => by_cases ht : times = ∅ <;> simp [Option.filter, ht]

theorem getD_healGaps :
    (healGaps names gaps).getD name ∅ =
      if names = [] ∨ name ∈ names then ∅ else gaps.getD name ∅ := by
  unfold healGaps
  rw [getD_nonempty, Std.ExtTreeMap.getD_map, Std.ExtTreeMap.getD_eq_getD_getElem?]
  cases h : gaps[name]? <;> simp

theorem mem_openGaps {missing : Finset Nat} :
    t ∈ (openGaps missing names gaps).getD name ∅ ↔
      t ∈ gaps.getD name ∅ ∨ t ∈ missing ∧ name ∈ names := by
  unfold openGaps
  induction names generalizing gaps with
  | nil => simp
  | cons head names ih =>
    rw [List.foldl_cons, ih]
    by_cases hname : head = name
    · subst hname
      rw [Std.ExtTreeMap.getD_insert_self, Finset.mem_union, or_assoc]
      apply or_congr_right
      exact ⟨fun h => h.elim (⟨·, by simp⟩) fun h => ⟨h.1, by simp⟩, fun h => Or.inl h.1⟩
    · rw [Dict.getD_insert_of_ne _ _ _ hname]
      simp [Ne.symm hname]

theorem mem_gapStep :
    t ∈ (gapStep names grid gaps manifest).getD name ∅ ↔
      Cuts names grid manifest name t ∨
        t ∈ gaps.getD name ∅ ∧ ¬ Heals grid manifest name := by
  unfold gapStep Cuts Heals
  cases hheals : healsGap manifest grid with
  | true =>
    rw [if_pos rfl, getD_healGaps]
    split <;> simp_all
  | false =>
    rw [if_neg Bool.false_ne_true]
    dsimp only
    split
    · simp_all
    · rw [mem_openGaps]
      simp [or_comm]

theorem mem_gapTimes :
    t ∈ (gapTimes manifests names grid).getD name ∅ ↔
      ∃ before manifest after, manifests = before ++ manifest :: after ∧
        Cuts names grid manifest name t ∧ ∀ later ∈ after, ¬ Heals grid later name := by
  rw [gapTimes, getD_nonempty]
  induction manifests using List.reverseRecOn with
  | nil => simp
  | append_singleton manifests last ih =>
    rw [List.foldl_append, List.foldl_cons, List.foldl_nil, mem_gapStep, ih]
    constructor
    · rintro (hcut | ⟨⟨before, manifest, after, hsplit, hcut, hafter⟩, hlast⟩)
      · exact ⟨manifests, last, [], rfl, hcut, fun _ h => by cases h⟩
      · refine ⟨before, manifest, after ++ [last], by simp [hsplit], hcut, fun later hlater => ?_⟩
        rcases List.mem_append.mp hlater with hlater | hlater
        · exact hafter later hlater
        · exact List.mem_singleton.mp hlater ▸ hlast
    · rintro ⟨before, manifest, after, hsplit, hcut, hafter⟩
      rcases List.eq_nil_or_concat after with rfl | ⟨after, top, rfl⟩
      · obtain ⟨-, hlast⟩ := List.append_inj' hsplit rfl
        exact Or.inl ((List.cons.inj hlast).1 ▸ hcut)
      · rw [List.concat_eq_append, ← List.cons_append, ← List.append_assoc] at hsplit
        obtain ⟨hbefore, hlast⟩ := List.append_inj' hsplit rfl
        obtain rfl := (List.cons.inj hlast).1
        refine Or.inr ⟨⟨before, manifest, after, hbefore, hcut, fun later hlater => ?_⟩, ?_⟩
        · exact hafter later (by simp [hlater])
        · exact hafter last (by simp)

theorem guardComposition_ok :
    guardComposition manifests names grid = .ok () ↔
      ∀ before manifest after, manifests = before ++ manifest :: after → ∀ name t,
        Cuts names grid manifest name t → ∃ later ∈ after, Heals grid later name := by
  unfold guardComposition
  rw [refuseIf_ok, Bool.not_eq_false, Std.ExtTreeMap.isEmpty_iff]
  constructor
  · intro h before manifest after hsplit name t hcut
    by_contra hopen
    push Not at hopen
    have hgap : t ∈ (gapTimes manifests names grid).getD name ∅ :=
      mem_gapTimes.mpr ⟨before, manifest, after, hsplit, hcut, hopen⟩
    rw [h] at hgap
    simp at hgap
  · intro h
    apply Std.ExtTreeMap.ext_getElem?
    intro name
    rw [Std.ExtTreeMap.getElem?_empty]
    by_contra hgap
    obtain ⟨times, htimes⟩ := Option.ne_none_iff_exists'.mp hgap
    have hne : times ≠ ∅ := by
      rw [gapTimes, Std.ExtTreeMap.getElem?_filter', Option.filter_eq_some_iff] at htimes
      simpa using htimes.2
    obtain ⟨t, ht⟩ := Finset.nonempty_iff_ne_empty.mpr hne
    rw [← Dict.getD_of_some htimes ∅, mem_gapTimes] at ht
    obtain ⟨before, manifest, after, hsplit, hcut, hopen⟩ := ht
    obtain ⟨later, hlater, hheals⟩ := h before manifest after hsplit name t hcut
    exact hopen later hlater hheals

end Walk

end Solweig.Compose
