import Mathlib.Algebra.Order.Ring.Rat
import Solweig.Executor.TreeLog

/-!
# The log of a layer, replayed

What one mutation records, and what the replay of a whole log into an empty layer gives.
-/

namespace Solweig.Executor

open Solweig.Lib Solweig.Planner

variable {layer layer' : TreeLayer} {live : Dict String TreeSpec} {edit : TreeEdit}
  {edits : List TreeEdit} {mutation : Mutation}

/-! ## What one mutation records -/

/-- A change moves the tree, or changes other properties of it, or neither. -/
def TreeEdit.OneStep (edit : TreeEdit) : Prop :=
  ∀ old ∈ edit.oldTree, ∀ new ∈ edit.newTree,
    (new.xM = old.xM ∧ new.yM = old.yM) ∨ changesBetween old new = .none

/-- The tree is after the edit what it was before. -/
def TreeEdit.Idle (edit : TreeEdit) : Prop := edit.oldTree = edit.newTree

instance (edit : TreeEdit) : Decidable edit.Idle :=
  inferInstanceAs (Decidable (edit.oldTree = edit.newTree))

/-- The layer with one more record, under the next sequence. -/
def TreeLayer.recorded (layer : TreeLayer) (edit : TreeEdit) : TreeLayer where
  edits := layer.edits ++ [{ edit with sequence := layer.sequence + 1 }]
  live := setTree layer.live edit.treeId edit.newTree
  sequence := layer.sequence + 1

theorem TreeLayer.record_edit (layer : TreeLayer) (edit : TreeEdit) :
    layer.record edit.treeId edit.oldTree edit.newTree = .ok (layer.recorded edit) := by
  unfold record TreeEdit.make
  rw [dif_pos ⟨edit.present, edit.sameTree⟩]
  rfl

def Mutation.treeId : Mutation → String
  | .addTree tree => tree.treeId
  | .moveTree treeId _ _ | .updateTree treeId _ | .deleteTree treeId => treeId

/-- The tree after the mutation of the one that is there. -/
def Mutation.after : Mutation → Option TreeSpec → Option TreeSpec
  | .addTree tree, _ => some tree
  | .moveTree _ xM yM, current => current.map fun tree => { tree with xM, yM }
  | .updateTree _ changes, current => current.map changes.applyTo
  | .deleteTree _, _ => none

def Mutation.Allowed : Mutation → Option TreeSpec → Prop
  | .addTree tree, current => validateTreeSpec tree = .ok () ∧ current = none
  | .moveTree _ _ _, current | .deleteTree _, current => current ≠ none
  | .updateTree _ changes, current => current ≠ none ∧ changes ≠ .none ∧
      ∀ tree ∈ current, postInit (changes.applyTo tree) = .ok ()

theorem TreeLayer.mutate_recorded (h : layer.mutate mutation = .ok layer') :
    ∃ edit, layer' = layer.recorded edit ∧ edit.treeId = mutation.treeId ∧
      edit.oldTree = layer.live[mutation.treeId]? ∧
      edit.newTree = mutation.after layer.live[mutation.treeId]? ∧
      mutation.Allowed layer.live[mutation.treeId]? := by
  have hrecord : ∀ {treeId oldTree newTree}, layer.record treeId oldTree newTree = .ok layer' →
      ∃ edit, layer' = layer.recorded edit ∧ edit.treeId = treeId ∧ edit.oldTree = oldTree ∧
        edit.newTree = newTree := by
    intro treeId oldTree newTree h
    obtain ⟨edit, hsequence, rfl, rfl, rfl, rfl⟩ := TreeLayer.record_ok h
    refine ⟨edit, ?_, rfl, rfl, rfl⟩
    unfold TreeLayer.recorded
    rw [← hsequence]
  cases mutation with
  | addTree tree =>
    simp only [TreeLayer.mutate, except_bind_ok, refuseIf_ok, not_not] at h
    obtain ⟨_, hvalid, _, habsent, h⟩ := h
    obtain ⟨edit, hlayer, hid, hold, hnew⟩ := hrecord h
    exact ⟨edit, hlayer, hid, by rw [hold]; exact habsent.symm, hnew, hvalid, habsent⟩
  | moveTree treeId xM yM =>
    simp only [TreeLayer.mutate, except_bind_ok, TreeLayer.requireTree_ok] at h
    obtain ⟨current, hlive, h⟩ := h
    obtain ⟨edit, hlayer, hid, hold, hnew⟩ := hrecord h
    exact ⟨edit, hlayer, hid, by simp [Mutation.treeId, hlive, hold],
      by simp [Mutation.after, Mutation.treeId, hlive, hnew],
      by simp [Mutation.Allowed, Mutation.treeId, hlive]⟩
  | updateTree treeId changes =>
    simp only [TreeLayer.mutate, except_bind_ok, TreeLayer.requireTree_ok, refuseIf_ok] at h
    obtain ⟨current, hlive, _, hchanges, _, hpost, h⟩ := h
    obtain ⟨edit, hlayer, hid, hold, hnew⟩ := hrecord h
    exact ⟨edit, hlayer, hid, by simp [Mutation.treeId, hlive, hold],
      by simp [Mutation.after, Mutation.treeId, hlive, hnew],
      by simp [Mutation.Allowed, Mutation.treeId, hlive, hchanges, hpost]⟩
  | deleteTree treeId =>
    simp only [TreeLayer.mutate, except_bind_ok, TreeLayer.requireTree_ok] at h
    obtain ⟨current, hlive, h⟩ := h
    obtain ⟨edit, hlayer, hid, hold, hnew⟩ := hrecord h
    exact ⟨edit, hlayer, hid, by simp [Mutation.treeId, hlive, hold], hnew,
      by simp [Mutation.Allowed, Mutation.treeId, hlive]⟩

/-! ## What a log holds -/

/-- The records of a layer that checked mutations made, and its live trees. -/
structure TreeLayer.Logged (layer : TreeLayer) : Prop where
  records : ∀ edit ∈ layer.edits, edit.Valid ∧ edit.OneStep
  live : ∀ (treeId : String) tree, layer.live[treeId]? = some tree →
    validateTreeSpec tree = .ok ()

theorem TreeLayer.empty_logged : TreeLayer.empty.Logged where
  records := by simp [TreeLayer.empty]
  live := by simp [TreeLayer.empty]

/-- The trunk stays below the top. A live update checks it only on what it is given. -/
def Mutation.Trunk : Mutation → Prop
  | .updateTree _ changes => ∀ ratio ∈ changes.trunkRatio, ratio < 1
  | _ => True

theorem changesBetween_moved (tree : TreeSpec) (xM yM : Rat) :
    changesBetween tree { tree with xM, yM } = .none := by
  simp [changesBetween, TreeChanges.none]

theorem Mutation.after_valid {tree new : TreeSpec} (hallowed : mutation.Allowed (some tree))
    (htrunk : mutation.Trunk) (hvalid : validateTreeSpec tree = .ok ())
    (hnew : mutation.after (some tree) = some new) : validateTreeSpec new = .ok () := by
  cases mutation with
  | addTree added => simp [Mutation.Allowed] at hallowed
  | moveTree treeId xM yM =>
    simp only [Mutation.after, Option.map_some, Option.some.injEq] at hnew
    subst hnew
    exact validateTreeSpec_ok.mpr (validateTreeSpec_ok.mp hvalid)
  | updateTree treeId changes =>
    simp only [Mutation.after, Option.map_some, Option.some.injEq] at hnew
    subst hnew
    obtain ⟨hheight, hradius, hratio, htransmissivity⟩ :=
      postInit_ok.mp (hallowed.2.2 tree rfl)
    refine validateTreeSpec_ok.mpr ⟨hheight, hradius, ⟨hratio.1, ?_⟩, htransmissivity⟩
    unfold TreeChanges.applyTo
    cases hchange : changes.trunkRatio with
    | none => simpa using (validateTreeSpec_ok.mp hvalid).2.2.1.2
    | some ratio => simpa using htrunk ratio hchange
  | deleteTree treeId => simp [Mutation.after] at hnew

theorem Mutation.after_oneStep {tree new : TreeSpec} (hnew : mutation.after (some tree) = some new)
    (hallowed : mutation.Allowed (some tree)) :
    (new.xM = tree.xM ∧ new.yM = tree.yM) ∨ changesBetween tree new = .none := by
  cases mutation with
  | addTree added => simp [Mutation.Allowed] at hallowed
  | moveTree treeId xM yM =>
    simp only [Mutation.after, Option.map_some, Option.some.injEq] at hnew
    exact Or.inr (hnew ▸ changesBetween_moved tree xM yM)
  | updateTree treeId changes =>
    simp only [Mutation.after, Option.map_some, Option.some.injEq] at hnew
    exact Or.inl (hnew ▸ ⟨rfl, rfl⟩)
  | deleteTree treeId => simp [Mutation.after] at hnew

theorem Mutation.added_valid {new : TreeSpec} (hallowed : mutation.Allowed none)
    (hnew : mutation.after none = some new) : validateTreeSpec new = .ok () := by
  cases mutation with
  | addTree tree =>
    simp only [Mutation.after, Option.some.injEq] at hnew
    exact hnew ▸ hallowed.1
  | moveTree treeId xM yM | updateTree treeId changes | deleteTree treeId =>
    simp [Mutation.after] at hnew

theorem TreeLayer.Logged.mutate (hlogged : layer.Logged) (htrunk : mutation.Trunk)
    (h : layer.mutate mutation = .ok layer') : layer'.Logged := by
  obtain ⟨edit, rfl, hid, hold, hnew, hallowed⟩ := TreeLayer.mutate_recorded h
  have hnewValid : ∀ new ∈ edit.newTree, validateTreeSpec new = .ok () := by
    intro new hmem
    rw [hnew] at hmem
    cases hlive : layer.live[mutation.treeId]? with
    | none =>
      rw [hlive] at hmem hallowed
      exact Mutation.added_valid hallowed hmem
    | some tree =>
      rw [hlive] at hmem hallowed
      exact Mutation.after_valid hallowed htrunk (hlogged.live _ _ hlive) hmem
  constructor
  · intro record hrecord
    rcases List.mem_append.mp hrecord with hrecord | hrecord
    · exact hlogged.records record hrecord
    · rw [List.mem_singleton.mp hrecord]
      refine ⟨fun tree htree => ?_, fun old hmemOld new hmemNew => ?_⟩
      · rcases List.mem_append.mp htree with htree | htree
        · apply hlogged.live mutation.treeId
          rw [← hold]
          exact Option.mem_toList.mp htree
        · exact hnewValid tree (Option.mem_toList.mp htree)
      · dsimp only at hmemOld hmemNew
        rw [hold] at hmemOld
        rw [hmemOld] at hallowed hnew
        exact Mutation.after_oneStep (hnew ▸ hmemNew) hallowed
  · intro treeId tree hlive
    unfold TreeLayer.recorded at hlive
    rw [getElem?_setTree] at hlive
    split at hlive
    · exact hnewValid tree hlive
    · exact hlogged.live treeId tree hlive

theorem TreeLayer.Logged.mutateAll {mutations : List Mutation} (hlogged : layer.Logged)
    (htrunk : ∀ mutation ∈ mutations, mutation.Trunk) : (layer.mutateAll mutations).1.Logged := by
  induction mutations generalizing layer with
  | nil => exact hlogged
  | cons mutation mutations ih =>
    unfold TreeLayer.mutateAll
    split
    · next layer' hmutate =>
      apply ih (hlogged.mutate (htrunk mutation (List.mem_cons_self ..)) hmutate)
      exact fun later hlater => htrunk later (List.mem_cons_of_mem _ hlater)
    · exact hlogged

theorem replayMutations_trunk (hvalid : edit.Valid) :
    ∀ mutation ∈ replayMutations edit, mutation.Trunk := by
  unfold replayMutations
  split
  · simp [Mutation.Trunk]
  · simp [Mutation.Trunk]
  · next old new hold hnew =>
    have hratio := (validateTreeSpec_ok.mp (hvalid new (by simp [hnew]))).2.2.1.2
    intro mutation hmutation
    unfold changeMutations at hmutation
    rcases List.mem_append.mp hmutation with hmutation | hmutation
    all_goals
      split at hmutation
      · rw [List.mem_singleton.mp hmutation]
        simp [Mutation.Trunk, changesBetween, hratio]
      · cases hmutation
  · simp

theorem replayTreeEdits_logged (hlogged : layer.Logged) (hvalid : ∀ edit ∈ edits, edit.Valid) :
    (replayTreeEdits layer edits).1.Logged := by
  unfold replayTreeEdits
  split
  · exact hlogged
  · apply hlogged.mutateAll
    intro mutation hmutation
    obtain ⟨edit, hedit, hmutation⟩ := List.mem_flatMap.mp hmutation
    exact replayMutations_trunk (hvalid edit hedit) mutation hmutation

theorem TreeEdit.Valid.reversed (hvalid : edit.Valid) : edit.reversed.Valid := by
  intro tree htree
  apply hvalid tree
  rw [List.mem_append] at htree ⊢
  exact htree.symm

theorem undoTreeEdits_logged (hlogged : layer.Logged) (hvalid : ∀ edit ∈ edits, edit.Valid) :
    (undoTreeEdits layer edits).1.Logged := by
  unfold undoTreeEdits
  apply hlogged.mutateAll
  intro mutation hmutation
  obtain ⟨edit, hedit, hmutation⟩ := List.mem_flatMap.mp hmutation
  rw [undoMutations_eq] at hmutation
  exact replayMutations_trunk (hvalid edit (List.mem_reverse.mp hedit)).reversed mutation hmutation

/-! ## The replay of a log -/

theorem TreeLayer.mutateAll_one (h : layer.mutate mutation = .ok layer') :
    layer.mutateAll [mutation] = (layer', .ok ()) := by
  simp [TreeLayer.mutateAll, h]

theorem replay_record (hone : edit.OneStep) (hvalid : edit.Valid)
    (hlive : layer.live[edit.treeId]? = edit.oldTree) :
    layer.mutateAll (replayMutations edit) =
      (if edit.Idle then layer else layer.recorded edit, .ok ()) := by
  obtain ⟨sequence, treeId, oldTree, newTree, present, sameTree⟩ := edit
  have hrecord := layer.record_edit ⟨sequence, treeId, oldTree, newTree, present, sameTree⟩
  unfold TreeEdit.Valid at hvalid
  unfold TreeEdit.OneStep at hone
  simp only at hlive hrecord hvalid hone
  unfold replayMutations
  rcases oldTree with _ | old <;> rcases newTree with _ | new
  · exact absurd ⟨rfl, rfl⟩ present
  · rw [if_neg (by simp [TreeEdit.Idle])]
    have hid : new.treeId = treeId := sameTree new (by simp)
    apply TreeLayer.mutateAll_one
    simp only [TreeLayer.mutate, except_bind_ok, refuseIf_ok, not_not]
    exact ⟨(), hvalid new (by simp), (), hid ▸ hlive, hid ▸ hrecord⟩
  · rw [if_neg (by simp [TreeEdit.Idle])]
    apply TreeLayer.mutateAll_one
    simp only [TreeLayer.mutate, except_bind_ok, TreeLayer.requireTree_ok]
    exact ⟨old, hlive, hrecord⟩
  · have hold : old.treeId = treeId := sameTree old (by simp)
    have hnew : new.treeId = treeId := sameTree new (by simp)
    have hid : new.treeId = old.treeId := hnew.trans hold.symm
    have hidle : TreeEdit.Idle ⟨sequence, treeId, some old, some new, present, sameTree⟩ ↔
        old = new := by simp [TreeEdit.Idle]
    show layer.mutateAll (changeMutations treeId old new) = _
    unfold changeMutations
    rcases hone old rfl new rfl with ⟨hx, hy⟩ | hchanges
    · rw [if_neg (by simp [hx, hy]), List.nil_append]
      by_cases hsame : changesBetween old new = .none
      · rw [if_neg (not_not.mpr hsame), if_pos (hidle.mpr (changesBetween_none hid hx hy hsame).symm)]
        rfl
      · rw [if_pos hsame, if_neg]
        · apply TreeLayer.mutateAll_one
          have happly : (changesBetween old new).applyTo old = new :=
            applyTo_changesBetween (by rw [hx, hy]) hid
          obtain ⟨hheight, hradius, hratio, htransmissivity⟩ :=
            validateTreeSpec_ok.mp (hvalid new (by simp))
          simp only [TreeLayer.mutate, except_bind_ok, TreeLayer.requireTree_ok, refuseIf_ok]
          refine ⟨old, hlive, (), hsame, (), ?_, ?_⟩
          · rw [happly]
            exact postInit_ok.mpr ⟨hheight, hradius, ⟨hratio.1, hratio.2.le⟩, htransmissivity⟩
          · rw [happly]
            exact hrecord
        · rw [hidle]
          rintro rfl
          exact hsame (by simp [changesBetween, TreeChanges.none])
    · rw [if_neg (not_not.mpr hchanges), List.append_nil]
      have hmoved : { old with xM := new.xM, yM := new.yM } = new :=
        (@changesBetween_none { old with xM := new.xM, yM := new.yM } _ hid rfl rfl hchanges).symm
      by_cases hplace : (new.xM, new.yM) = (old.xM, old.yM)
      · rw [if_neg (not_not.mpr hplace), if_pos]
        · rfl
        · simp only [Prod.mk.injEq] at hplace
          exact hidle.mpr (changesBetween_none hid hplace.1 hplace.2 hchanges).symm
      · rw [if_pos hplace, if_neg]
        · apply TreeLayer.mutateAll_one
          simp only [TreeLayer.mutate, except_bind_ok, TreeLayer.requireTree_ok]
          refine ⟨old, hlive, ?_⟩
          rw [hmoved]
          exact hrecord
        · rw [hidle]
          rintro rfl
          exact hplace rfl

theorem replay_log (hlog : ∀ edit ∈ edits, edit.Valid ∧ edit.OneStep)
    (hchained : Chained layer.live edits) :
    layer.mutateAll (edits.flatMap replayMutations) =
      ((edits.filter fun edit => ¬ edit.Idle).foldl TreeLayer.recorded layer, .ok ()) := by
  induction edits generalizing layer with
  | nil => rfl
  | cons edit edits ih =>
    obtain ⟨hlive, hchained⟩ := hchained
    obtain ⟨hvalid, hone⟩ := hlog edit (List.mem_cons_self ..)
    have hrest := fun later hlater => hlog later (List.mem_cons_of_mem edit hlater)
    have hfirst := replay_record hone hvalid hlive
    rw [List.flatMap_cons, TreeLayer.mutateAll_append hfirst]
    by_cases hidle : edit.Idle
    · rw [if_pos hidle, List.filter_cons_of_neg (by simpa using hidle)]
      apply ih hrest
      rwa [← hidle, ← hlive, setTree_self] at hchained
    · rw [if_neg hidle, List.filter_cons_of_pos (by simpa using hidle), List.foldl_cons]
      exact ih hrest hchained

theorem foldl_recorded (edits : List TreeEdit) (layer : TreeLayer)
    (hnumbered : edits.map (·.sequence) = List.range' (layer.sequence + 1) edits.length) :
    edits.foldl TreeLayer.recorded layer =
      ⟨layer.edits ++ edits, applyEdits layer.live edits, layer.sequence + edits.length⟩ := by
  induction edits generalizing layer with
  | nil => simp [applyEdits]
  | cons edit edits ih =>
    simp only [List.map_cons, List.length_cons, List.range'_succ, List.cons.injEq] at hnumbered
    obtain ⟨hsequence, hrest⟩ := hnumbered
    rw [List.foldl_cons, ih _ hrest]
    unfold TreeLayer.recorded
    simp only [← hsequence, List.append_assoc, List.singleton_append, List.length_cons,
      TreeLayer.mk.injEq, true_and]
    exact ⟨rfl, by omega⟩

theorem length_recorded (edits : List TreeEdit) (layer : TreeLayer) :
    (edits.foldl TreeLayer.recorded layer).edits.length = layer.edits.length + edits.length := by
  induction edits generalizing layer with
  | nil => rfl
  | cons edit edits ih =>
    rw [List.foldl_cons, ih]
    simp only [TreeLayer.recorded, List.length_append, List.length_cons, List.length_nil]
    omega

theorem TreeLayer.Sound.log_returns (hsound : layer.Sound) (hlogged : layer.Logged) :
    (layer.edits.filter fun edit => ¬ edit.Idle).foldl TreeLayer.recorded .empty = layer ↔
      ∀ edit ∈ layer.edits, ¬ edit.Idle := by
  constructor
  · intro h
    have hlength := length_recorded (layer.edits.filter fun edit => ¬ edit.Idle) .empty
    rw [h] at hlength
    simpa [TreeLayer.empty] using hlength.symm
  · intro h
    rw [List.filter_eq_self.mpr (by simpa using h), foldl_recorded]
    · obtain ⟨edits, live, sequence⟩ := layer
      simp only [TreeLayer.empty, TreeLayer.mk.injEq, List.nil_append, true_and, Nat.zero_add]
      exact ⟨hsound.ends.symm, hsound.counter.symm⟩
    · exact hsound.numbered

end Solweig.Executor
