import Solweig.Executor.Trees
import Solweig.Planner.NetEffect

/-!
# The log of the tree layer

The log of a layer is a chain of states, so it coalesces. A batch that starts in the live trees
is replayed to its end, and its undo gives the live trees back.
-/

namespace Solweig.Executor

open Solweig.Lib Solweig.Planner

variable {layer layer' : TreeLayer} {live : Dict String TreeSpec} {edits : List TreeEdit}
  {edit : TreeEdit} {treeId : String}

/-! ## Live trees -/

theorem getElem?_setTree (live : Dict String TreeSpec) (treeId id : String)
    (tree : Option TreeSpec) :
    (setTree live treeId tree)[id]? = if id = treeId then tree else live[id]? := by
  unfold setTree
  split
  · by_cases h : id = treeId
    · simp [h]
    · rw [if_neg h, Dict.getElem?_insert_of_ne _ _ (Ne.symm h)]
  · by_cases h : id = treeId
    · simp [h]
    · rw [if_neg h, Dict.getElem?_erase_of_ne _ (Ne.symm h)]

theorem setTree_setTree (live : Dict String TreeSpec) (treeId : String)
    (tree other : Option TreeSpec) :
    setTree (setTree live treeId tree) treeId other = setTree live treeId other := by
  apply Std.ExtTreeMap.ext_getElem?
  intro id
  simp only [getElem?_setTree]
  split <;> rfl

theorem setTree_self (live : Dict String TreeSpec) (treeId : String) :
    setTree live treeId live[treeId]? = live := by
  apply Std.ExtTreeMap.ext_getElem?
  intro id
  rw [getElem?_setTree]
  split
  · next h => rw [h]
  · rfl

/-- The live trees after some edits. -/
def applyEdits (live : Dict String TreeSpec) (edits : List TreeEdit) : Dict String TreeSpec :=
  edits.foldl (fun live edit => setTree live edit.treeId edit.newTree) live

theorem applyEdits_append (live : Dict String TreeSpec) (edits later : List TreeEdit) :
    applyEdits live (edits ++ later) = applyEdits (applyEdits live edits) later := by
  unfold applyEdits
  rw [List.foldl_append]

/-- Each edit starts in the state that the edits before it leave. -/
def Chained : Dict String TreeSpec → List TreeEdit → Prop
  | _, [] => True
  | live, edit :: edits =>
    live[edit.treeId]? = edit.oldTree ∧ Chained (setTree live edit.treeId edit.newTree) edits

theorem chained_append {later : List TreeEdit} :
    Chained live (edits ++ later) ↔ Chained live edits ∧ Chained (applyEdits live edits) later := by
  induction edits generalizing live with
  | nil => simp [Chained, applyEdits]
  | cons edit edits ih =>
    simp only [List.cons_append, Chained, ih, and_assoc]
    rfl

theorem chained_of_live (hids : (edits.map (·.treeId)).Nodup)
    (hlive : ∀ edit ∈ edits, live[edit.treeId]? = edit.oldTree) : Chained live edits := by
  induction edits generalizing live with
  | nil => trivial
  | cons edit edits ih =>
    rw [List.map_cons, List.nodup_cons] at hids
    refine ⟨hlive edit (List.mem_cons_self ..), ih hids.2 fun other hother => ?_⟩
    rw [getElem?_setTree, if_neg]
    · exact hlive other (List.mem_cons_of_mem _ hother)
    · intro hsame
      exact hids.1 (List.mem_map.mpr ⟨other, hother, hsame⟩)

theorem getElem?_applyEdits (hids : (edits.map (·.treeId)).Nodup) (hedit : edit ∈ edits) :
    (applyEdits live edits)[edit.treeId]? = edit.newTree := by
  induction edits generalizing live with
  | nil => cases hedit
  | cons first edits ih =>
    rw [List.map_cons, List.nodup_cons] at hids
    rcases List.mem_cons.mp hedit with rfl | hmem
    · have hkeep : ∀ (l : List TreeEdit) (live : Dict String TreeSpec),
          edit.treeId ∉ l.map (·.treeId) → (applyEdits live l)[edit.treeId]? = live[edit.treeId]? := by
        intro l
        induction l with
        | nil => exact fun _ _ => rfl
        | cons other l ihl =>
          intro live hnot
          rw [List.map_cons, List.mem_cons, not_or] at hnot
          refine (ihl (setTree live other.treeId other.newTree) hnot.2).trans ?_
          rw [getElem?_setTree, if_neg hnot.1]
      refine (hkeep edits (setTree live edit.treeId edit.newTree) hids.1).trans ?_
      rw [getElem?_setTree, if_pos rfl]
    · exact ih hids.2 hmem

/-! ## The log -/

/-- What every layer keeps: it numbers its edits, and they are a chain that ends in the live
trees. -/
structure TreeLayer.Sound (layer : TreeLayer) : Prop where
  numbered : layer.edits.map (·.sequence) = List.range' 1 layer.edits.length
  counter : layer.sequence = layer.edits.length
  chained : Chained ∅ layer.edits
  ends : layer.live = applyEdits ∅ layer.edits

theorem TreeLayer.empty_sound : TreeLayer.empty.Sound where
  numbered := rfl
  counter := rfl
  chained := trivial
  ends := rfl

namespace TreeLayer

theorem record_ok {oldTree newTree : Option TreeSpec}
    (h : layer.record treeId oldTree newTree = .ok layer') :
    ∃ edit : TreeEdit, edit.sequence = layer.sequence + 1 ∧ edit.treeId = treeId ∧
      edit.oldTree = oldTree ∧ edit.newTree = newTree ∧
      layer' = ⟨layer.edits ++ [edit], setTree layer.live treeId newTree, layer.sequence + 1⟩ := by
  unfold record at h
  rw [except_map_ok] at h
  obtain ⟨edit, hmake, rfl⟩ := h
  obtain ⟨hsequence, hid, hold, hnew⟩ := TreeEdit.make_ok.mp hmake
  exact ⟨edit, hsequence, hid, hold, hnew, rfl⟩

theorem record_sound {newTree : Option TreeSpec} (hsound : layer.Sound)
    (h : layer.record treeId layer.live[treeId]? newTree = .ok layer') : layer'.Sound := by
  obtain ⟨edit, hsequence, rfl, hold, rfl, rfl⟩ := record_ok h
  constructor
  · simp only [List.map_append, List.map_cons, List.map_nil, List.length_append, List.length_cons,
      List.length_nil, hsound.numbered, hsequence, hsound.counter]
    rw [List.range'_concat, Nat.add_comm]
    simp
  · simp [hsound.counter]
  · rw [chained_append]
    refine ⟨hsound.chained, ?_, trivial⟩
    rw [← hsound.ends, hold]
  · rw [applyEdits_append, ← hsound.ends]
    rfl

theorem requireTree_ok {tree : TreeSpec} :
    layer.requireTree treeId = .ok tree ↔ layer.live[treeId]? = some tree := by
  unfold requireTree
  split <;> simp_all

theorem mutate_record {mutation : Mutation} (h : layer.mutate mutation = .ok layer') :
    ∃ treeId newTree, layer.record treeId layer.live[treeId]? newTree = .ok layer' := by
  cases mutation with
  | addTree tree =>
    simp only [mutate, except_bind_ok, refuseIf_ok, not_not] at h
    obtain ⟨-, -, -, habsent, hrecord⟩ := h
    exact ⟨tree.treeId, some tree, by rw [habsent]; exact hrecord⟩
  | moveTree treeId xM yM =>
    simp only [mutate, except_bind_ok, requireTree_ok] at h
    obtain ⟨current, hlive, hrecord⟩ := h
    exact ⟨treeId, _, by rw [hlive]; exact hrecord⟩
  | updateTree treeId changes =>
    simp only [mutate, except_bind_ok, requireTree_ok] at h
    obtain ⟨current, hlive, -, -, -, -, hrecord⟩ := h
    exact ⟨treeId, _, by rw [hlive]; exact hrecord⟩
  | deleteTree treeId =>
    simp only [mutate, except_bind_ok, requireTree_ok] at h
    obtain ⟨current, hlive, hrecord⟩ := h
    exact ⟨treeId, none, by rw [hlive]; exact hrecord⟩

theorem mutateAll_sound (hsound : layer.Sound) (mutations : List Mutation) :
    (layer.mutateAll mutations).1.Sound := by
  induction mutations generalizing layer with
  | nil => exact hsound
  | cons mutation mutations ih =>
    unfold mutateAll
    split
    · next layer' hmutate =>
      obtain ⟨treeId, newTree, hrecord⟩ := mutate_record hmutate
      exact ih (record_sound hsound hrecord)
    · exact hsound

theorem mutateAll_append {mutations later : List Mutation}
    (h : layer.mutateAll mutations = (layer', .ok ())) :
    layer.mutateAll (mutations ++ later) = layer'.mutateAll later := by
  induction mutations generalizing layer with
  | nil =>
    simp only [mutateAll, Prod.mk.injEq, and_true] at h
    rw [h, List.nil_append]
  | cons mutation mutations ih =>
    unfold mutateAll at h
    rw [List.cons_append, mutateAll]
    split at h
    · exact ih h
    · simp at h

end TreeLayer

theorem replayTreeEdits_sound (hsound : layer.Sound) (edits : List TreeEdit) :
    (replayTreeEdits layer edits).1.Sound := by
  unfold replayTreeEdits
  split
  · exact hsound
  · exact TreeLayer.mutateAll_sound hsound _

/-! ## Coalescing the log -/

theorem contiguous_of_chained {done : List (ObjectStateChange TreeSpec)} (hchained : Chained live edits)
    (hdone : ∀ id old, (done.reverse.find? fun change => change.objectId = id) = some old →
      old.after = live[id]?) : contiguous done (edits.map (·.change)) = .ok () := by
  induction edits generalizing live done with
  | nil => rfl
  | cons edit edits ih =>
    obtain ⟨hstart, hchained⟩ := hchained
    have hrest : contiguous (done ++ [edit.change]) (edits.map (·.change)) = .ok () := by
      refine ih hchained fun id old hfind => ?_
      rw [List.reverse_append, List.reverse_singleton, List.singleton_append,
        List.find?_cons] at hfind
      rw [getElem?_setTree]
      by_cases hid : id = edit.treeId
      · have hsame : decide (edit.change.objectId = id) = true := decide_eq_true hid.symm
        rw [hsame] at hfind
        rw [if_pos hid, ← Option.some.inj hfind]
        rfl
      · have hother : decide (edit.change.objectId = id) = false :=
          decide_eq_false (Ne.symm hid)
        rw [hother] at hfind
        rw [if_neg hid, hdone id old hfind]
    rw [List.map_cons, contiguous]
    split
    · exact hrest
    · next old hfind =>
      rw [if_pos]
      · exact hrest
      · rw [hdone _ old hfind]
        exact hstart

/-- The edits of the batch that some edits in order coalesce to. -/
def netEdits (edits : List TreeEdit) : List TreeEdit :=
  ((mergedStates edits).filterMap netEdit).insertionSort fun a b => a.sequence ≤ b.sequence

theorem coalesceTreeEdits_eq (hne : edits ≠ []) (hchained : Chained live edits)
    (hordered : (edits.map (·.sequence)).Pairwise (· < ·)) :
    ∃ batch, coalesceTreeEdits edits = .ok batch ∧ batch.edits = netEdits edits := by
  have hsorted : edits.insertionSort (fun a b => a.sequence ≤ b.sequence) = edits :=
    List.Pairwise.insertionSort_eq (List.pairwise_map.mp (hordered.imp Nat.le_of_lt))
  have hnodup : (edits.map (·.sequence)).Nodup := hordered.imp Nat.ne_of_lt
  have hcontiguous : contiguous [] (edits.map (·.change)) = .ok () :=
    contiguous_of_chained hchained (by simp)
  simp only [coalesceTreeEdits, hsorted, except_bind_ok, refuseIf_ok, hcontiguous]
  exact ⟨_, ⟨(), hne, (), not_not.mpr hnodup, (), rfl, rfl⟩, rfl⟩

theorem coalesceTreeEdits_total (start : Nat) (hne : edits ≠ []) (hchained : Chained live edits)
    (hnumbered : edits.map (·.sequence) = List.range' start edits.length) :
    ∃ batch, coalesceTreeEdits edits = .ok batch := by
  have hordered : (edits.map (·.sequence)).Pairwise (· < ·) := by
    rw [hnumbered]
    exact List.pairwise_lt_range' 1
  obtain ⟨batch, hbatch, -⟩ := coalesceTreeEdits_eq hne hchained hordered
  exact ⟨batch, hbatch⟩

theorem filter_newer (start : Nat) {acked : Nat}
    (hnumbered : edits.map (·.sequence) = List.range' (start + 1) edits.length) :
    edits.filter (fun edit => acked < edit.sequence) = edits.drop (acked - start) := by
  induction edits generalizing start with
  | nil => simp
  | cons edit edits ih =>
    rw [List.map_cons, List.length_cons, List.range'_succ, List.cons.injEq] at hnumbered
    rw [List.filter_cons, hnumbered.1, ih (start + 1) hnumbered.2]
    by_cases h : acked < start + 1
    · rw [if_pos (decide_eq_true h), Nat.sub_eq_zero_of_le (by omega : acked ≤ start),
        Nat.sub_eq_zero_of_le (by omega : acked ≤ start + 1), List.drop_zero, List.drop_zero]
    · rw [if_neg (by simpa using h), show acked - start = acked - (start + 1) + 1 by omega,
        List.drop_succ_cons]

theorem TreeLayer.Sound.pending_total (hsound : layer.Sound) (acked : Nat)
    (hne : layer.edits.filter (fun edit => acked < edit.sequence) ≠ []) :
    ∃ batch, coalesceTreeEdits (layer.edits.filter fun edit => acked < edit.sequence) =
      .ok batch := by
  have hdrop : layer.edits.filter (fun edit => acked < edit.sequence) = layer.edits.drop acked :=
    filter_newer 0 hsound.numbered
  rw [hdrop] at hne ⊢
  have hsplit := hsound.chained
  rw [← List.take_append_drop acked layer.edits, chained_append] at hsplit
  refine coalesceTreeEdits_total (1 + acked) hne hsplit.2 ?_
  rw [List.map_drop, hsound.numbered, List.drop_range', List.length_drop, Nat.mul_one]

theorem netEdit_treeId {merged : String × (Option TreeSpec × Nat) × Option TreeSpec × Nat}
    (h : netEdit merged = some edit) : edit.treeId = merged.1 := by
  unfold netEdit at h
  split at h
  · cases h
  · split at h
    · cases h
    · cases hmake : TreeEdit.make merged.2.2.2 merged.1 merged.2.1.1 merged.2.2.1 with
      | error error => simp [hmake, Except.toOption] at h
      | ok made =>
        rw [hmake, Except.toOption, Option.some.injEq] at h
        rw [← h]
        exact (TreeEdit.make_ok.mp hmake).2.1

theorem filterMap_netEdit_nodup (edits : List TreeEdit) :
    (((mergedStates edits).filterMap netEdit).map (·.treeId)).Nodup := by
  have hkeys := firstAndLast_nodup (edits.map fun edit =>
    (edit.treeId, (edit.oldTree, edit.sequence), (edit.newTree, edit.sequence)))
  have hsub : ∀ merged : List (String × (Option TreeSpec × Nat) × Option TreeSpec × Nat),
      ((merged.filterMap netEdit).map (·.treeId)).Sublist (merged.map (·.1)) := by
    intro merged
    induction merged with
    | nil => exact List.Sublist.refl _
    | cons first merged ih =>
      cases hnet : netEdit first with
      | none =>
        rw [List.filterMap_cons_none hnet]
        exact ih.cons _
      | some net =>
        rw [List.filterMap_cons_some hnet, List.map_cons, List.map_cons, netEdit_treeId hnet]
        exact ih.cons_cons _
  exact hkeys.sublist (hsub _)

theorem coalesceTreeEdits_nodup {batch : CoalescedEditBatch}
    (h : coalesceTreeEdits edits = .ok batch) : (batch.edits.map (·.treeId)).Nodup := by
  simp only [coalesceTreeEdits, except_bind_ok, pure, Except.pure, Except.ok.injEq] at h
  obtain ⟨-, -, -, -, -, -, rfl⟩ := h
  exact ((List.perm_insertionSort _ _).map _).nodup_iff.mpr (filterMap_netEdit_nodup _)

/-! ## Replay -/

/-- The checks of each spec of the edit. -/
def TreeEdit.Valid (edit : TreeEdit) : Prop :=
  ∀ tree ∈ edit.oldTree.toList ++ edit.newTree.toList, validateTreeSpec tree = .ok ()

theorem changesBetween_none {before after : TreeSpec} (hid : after.treeId = before.treeId)
    (hx : after.xM = before.xM) (hy : after.yM = before.yM)
    (h : changesBetween before after = .none) : after = before := by
  obtain ⟨_, _, _, _, _, _, _⟩ := before
  obtain ⟨_, _, _, _, _, _, _⟩ := after
  simp only [changesBetween, TreeChanges.none, TreeChanges.mk.injEq] at h
  simp_all

theorem applyTo_changesBetween {before after current : TreeSpec}
    (hcurrent : current = { before with xM := after.xM, yM := after.yM })
    (hid : after.treeId = before.treeId) :
    (changesBetween before after).applyTo current = after := by
  subst hcurrent
  obtain ⟨_, _, _, _, _, _, _⟩ := before
  obtain ⟨_, _, _, _, _, _, _⟩ := after
  simp only [TreeChanges.applyTo, changesBetween, TreeSpec.mk.injEq] at hid ⊢
  refine ⟨hid.symm, trivial, trivial, ?_, ?_, ?_, ?_⟩ <;> split <;> simp_all

namespace TreeLayer

theorem record_total (layer : TreeLayer) (treeId : String) (oldTree newTree : Option TreeSpec)
    (hpresent : ¬ (oldTree = none ∧ newTree = none))
    (hsame : ∀ tree ∈ oldTree.toList ++ newTree.toList, tree.treeId = treeId) :
    ∃ layer', layer.record treeId oldTree newTree = .ok layer' ∧
      layer'.live = setTree layer.live treeId newTree := by
  unfold record TreeEdit.make
  rw [dif_pos ⟨hpresent, hsame⟩]
  exact ⟨_, rfl, rfl⟩

theorem add_total {tree : TreeSpec} (hvalid : validateTreeSpec tree = .ok ())
    (habsent : layer.live[tree.treeId]? = none) :
    ∃ layer', layer.mutate (.addTree tree) = .ok layer' ∧
      layer'.live = setTree layer.live tree.treeId (some tree) := by
  obtain ⟨layer', hrecord, hlive⟩ := record_total layer tree.treeId none (some tree)
    (by simp) (by simp)
  refine ⟨layer', ?_, hlive⟩
  simp only [mutate, except_bind_ok, refuseIf_ok, not_not]
  exact ⟨(), hvalid, (), habsent, hrecord⟩

theorem delete_total {tree : TreeSpec} (hid : tree.treeId = treeId)
    (hpresent : layer.live[treeId]? = some tree) :
    ∃ layer', layer.mutate (.deleteTree treeId) = .ok layer' ∧
      layer'.live = setTree layer.live treeId none := by
  obtain ⟨layer', hrecord, hlive⟩ := record_total layer treeId (some tree) none
    (by simp) (by simp [hid])
  refine ⟨layer', ?_, hlive⟩
  simp only [mutate, except_bind_ok, requireTree_ok]
  exact ⟨tree, hpresent, hrecord⟩

theorem move_total {tree : TreeSpec} (xM yM : Rat) (hid : tree.treeId = treeId)
    (hpresent : layer.live[treeId]? = some tree) :
    ∃ layer', layer.mutate (.moveTree treeId xM yM) = .ok layer' ∧
      layer'.live = setTree layer.live treeId (some { tree with xM := xM, yM := yM }) := by
  obtain ⟨layer', hrecord, hlive⟩ := record_total layer treeId (some tree)
    (some { tree with xM := xM, yM := yM }) (by simp) (by simp [hid])
  refine ⟨layer', ?_, hlive⟩
  simp only [mutate, except_bind_ok, requireTree_ok]
  exact ⟨tree, hpresent, hrecord⟩

theorem update_total {tree after : TreeSpec} {changes : TreeChanges}
    (hid : tree.treeId = treeId) (hpresent : layer.live[treeId]? = some tree)
    (hchanges : changes ≠ .none) (hafter : changes.applyTo tree = after)
    (hvalid : validateTreeSpec after = .ok ()) :
    ∃ layer', layer.mutate (.updateTree treeId changes) = .ok layer' ∧
      layer'.live = setTree layer.live treeId (some after) := by
  have hafterId : after.treeId = treeId := by rw [← hafter, ← hid]; rfl
  obtain ⟨layer', hrecord, hlive⟩ := record_total layer treeId (some tree) (some after)
    (by simp) (by simp [hid, hafterId])
  refine ⟨layer', ?_, hlive⟩
  obtain ⟨hheight, hradius, hratio, htransmissivity⟩ := validateTreeSpec_ok.mp hvalid
  have hpost : postInit after = .ok () :=
    postInit_ok.mpr ⟨hheight, hradius, ⟨hratio.1, hratio.2.le⟩, htransmissivity⟩
  rw [← hafter] at hpost hrecord
  simp only [mutate, except_bind_ok, requireTree_ok, refuseIf_ok]
  exact ⟨tree, hpresent, (), hchanges, (), hpost, hrecord⟩

theorem mutateAll_cons {mutation : Mutation} {mutations : List Mutation}
    (h : layer.mutate mutation = .ok layer') :
    layer.mutateAll (mutation :: mutations) = layer'.mutateAll mutations := by
  rw [mutateAll, h]

end TreeLayer

theorem changeMutations_total {before after : TreeSpec} (hbefore : before.treeId = treeId)
    (hafter : after.treeId = treeId) (hvalid : validateTreeSpec after = .ok ())
    (hlive : layer.live[treeId]? = some before) :
    ∃ layer', layer.mutateAll (changeMutations treeId before after) = (layer', .ok ()) ∧
      layer'.live = setTree layer.live treeId (some after) := by
  have hid : after.treeId = before.treeId := hafter.trans hbefore.symm
  -- where the position is the one of `after`, what is left is an update
  have hupdate : ∀ (layer : TreeLayer) (current : TreeSpec),
      layer.live[treeId]? = some current →
      current = { before with xM := after.xM, yM := after.yM } →
      ∃ layer', layer.mutateAll (if changesBetween before after ≠ .none then
          [.updateTree treeId (changesBetween before after)] else []) = (layer', .ok ()) ∧
        layer'.live = setTree layer.live treeId (some after) := by
    intro layer current hcurrent heq
    split
    · next hchanges =>
      obtain ⟨layer', hmutate, hend⟩ := TreeLayer.update_total (by rw [heq, ← hbefore]) hcurrent
        hchanges (applyTo_changesBetween heq hid) hvalid
      exact ⟨layer', TreeLayer.mutateAll_cons hmutate, hend⟩
    · next hchanges =>
      refine ⟨layer, rfl, ?_⟩
      have hsame : { after with xM := before.xM, yM := before.yM } = before :=
        changesBetween_none hid rfl rfl (not_not.mp hchanges)
      have hcur : current = after := by
        rw [heq, ← hsame]
      rw [← hcur, ← hcurrent, setTree_self]
  unfold changeMutations
  split
  · obtain ⟨moved, hmove, hmoved⟩ := TreeLayer.move_total after.xM after.yM
      hbefore hlive
    obtain ⟨layer', hrun, hend⟩ := hupdate moved _ (by rw [hmoved, getElem?_setTree, if_pos rfl]) rfl
    refine ⟨layer', (TreeLayer.mutateAll_cons hmove).trans hrun, ?_⟩
    rw [hend, hmoved, setTree_setTree]
  · next hplace =>
    rw [List.nil_append]
    have hxy : after.xM = before.xM ∧ after.yM = before.yM := by simpa using hplace
    exact hupdate layer before hlive (by rw [hxy.1, hxy.2])

theorem replayMutations_total (hvalid : edit.Valid)
    (hlive : layer.live[edit.treeId]? = edit.oldTree) :
    ∃ layer', layer.mutateAll (replayMutations edit) = (layer', .ok ()) ∧
      layer'.live = setTree layer.live edit.treeId edit.newTree := by
  have hsame := edit.sameTree
  have hpresent := edit.present
  unfold TreeEdit.Valid at hvalid
  unfold replayMutations
  rcases hold : edit.oldTree with _ | old <;> rcases hnew : edit.newTree with _ | new
  · exact absurd ⟨hold, hnew⟩ hpresent
  · simp only [hold, hnew, Option.toList_none, Option.toList_some, List.nil_append,
      List.mem_singleton, forall_eq] at hsame hvalid hlive
    rw [← hsame] at hlive ⊢
    obtain ⟨layer', hadd, hend⟩ := TreeLayer.add_total hvalid hlive
    exact ⟨layer', TreeLayer.mutateAll_cons hadd, hend⟩
  · simp only [hold, hnew, Option.toList_none, Option.toList_some, List.append_nil,
      List.mem_singleton, forall_eq] at hsame hlive
    obtain ⟨layer', hdelete, hend⟩ := TreeLayer.delete_total hsame hlive
    exact ⟨layer', TreeLayer.mutateAll_cons hdelete, hend⟩
  · simp only [hold, hnew, Option.toList_some, List.singleton_append, List.mem_cons,
      List.not_mem_nil, or_false, forall_eq_or_imp, forall_eq] at hsame hvalid hlive
    exact changeMutations_total hsame.1 hsame.2 hvalid.2 hlive

theorem mutateAll_chained (hvalid : ∀ edit ∈ edits, edit.Valid) (hchained : Chained layer.live edits) :
    ∃ layer', layer.mutateAll (edits.flatMap replayMutations) = (layer', .ok ()) ∧
      layer'.live = applyEdits layer.live edits := by
  induction edits generalizing layer with
  | nil => exact ⟨layer, rfl, rfl⟩
  | cons edit edits ih =>
    obtain ⟨hlive, hchained⟩ := hchained
    obtain ⟨first, hfirst, hset⟩ :=
      replayMutations_total (hvalid edit (List.mem_cons_self ..)) hlive
    rw [← hset] at hchained
    obtain ⟨layer', hrest, hend⟩ :=
      ih (fun other hother => hvalid other (List.mem_cons_of_mem _ hother)) hchained
    refine ⟨layer', ?_, ?_⟩
    · rw [List.flatMap_cons, TreeLayer.mutateAll_append hfirst, hrest]
    · rw [hend, hset]
      rfl

theorem preflight_chained (hchained : Chained live edits) :
    ∃ live', edits.foldlM preflightEdit live = .ok live' := by
  induction edits generalizing live with
  | nil => exact ⟨live, rfl⟩
  | cons edit edits ih =>
    obtain ⟨hlive, hchained⟩ := hchained
    have hstep : preflightEdit live edit = .ok (setTree live edit.treeId edit.newTree) := by
      have hpresent := edit.present
      unfold preflightEdit setTree
      rw [hlive]
      rcases hold : edit.oldTree with _ | old <;> rcases hnew : edit.newTree with _ | new
      · exact absurd ⟨hold, hnew⟩ hpresent
      all_goals simp
    rw [List.foldlM_cons, hstep]
    exact ih hchained

theorem replayTreeEdits_chained (hvalid : ∀ edit ∈ edits, edit.Valid)
    (hchained : Chained layer.live edits) :
    ∃ layer', replayTreeEdits layer edits = (layer', .ok ()) ∧
      layer'.live = applyEdits layer.live edits := by
  obtain ⟨live', hpreflight⟩ := preflight_chained hchained
  obtain ⟨layer', hrun, hend⟩ := mutateAll_chained hvalid hchained
  refine ⟨layer', ?_, hend⟩
  unfold replayTreeEdits
  rw [hpreflight, hrun]

/-! ## Undo -/

/-- The edit the other way. -/
def TreeEdit.reversed (edit : TreeEdit) : TreeEdit where
  sequence := edit.sequence
  treeId := edit.treeId
  oldTree := edit.newTree
  newTree := edit.oldTree
  present := fun h => edit.present h.symm
  sameTree := fun tree htree => edit.sameTree tree (by
    rw [List.mem_append] at htree ⊢
    exact htree.symm)

theorem undoMutations_eq (edit : TreeEdit) : undoMutations edit = replayMutations edit.reversed := by
  obtain ⟨sequence, treeId, oldTree, newTree, present, sameTree⟩ := edit
  rcases oldTree with _ | old <;> rcases newTree with _ | new <;> rfl

theorem chained_reversed (hchained : Chained live edits) :
    Chained (applyEdits live edits) (edits.reverse.map TreeEdit.reversed) ∧
      applyEdits (applyEdits live edits) (edits.reverse.map TreeEdit.reversed) = live := by
  induction edits generalizing live with
  | nil => exact ⟨trivial, rfl⟩
  | cons edit edits ih =>
    obtain ⟨hlive, hchained⟩ := hchained
    obtain ⟨hback, hend⟩ := ih hchained
    have happly : applyEdits live (edit :: edits) =
      applyEdits (setTree live edit.treeId edit.newTree) edits := rfl
    rw [happly, List.reverse_cons, List.map_append, chained_append, applyEdits_append, hend]
    refine ⟨⟨hback, ?_, trivial⟩, ?_⟩
    · show (setTree live edit.treeId edit.newTree)[edit.treeId]? = edit.newTree
      rw [getElem?_setTree, if_pos rfl]
    · show setTree (setTree live edit.treeId edit.newTree) edit.treeId edit.oldTree = live
      rw [setTree_setTree, ← hlive, setTree_self]

theorem undoTreeEdits_chained (hvalid : ∀ edit ∈ edits, edit.Valid) (hchained : Chained live edits)
    (hlive : layer.live = applyEdits live edits) :
    ∃ layer', undoTreeEdits layer edits = (layer', .ok ()) ∧ layer'.live = live := by
  obtain ⟨hback, hend⟩ := chained_reversed hchained
  rw [← hlive] at hback
  have hreversed : ∀ edit ∈ edits.reverse.map TreeEdit.reversed, edit.Valid := by
    intro edit hedit tree htree
    obtain ⟨original, horiginal, rfl⟩ := List.mem_map.mp hedit
    refine hvalid original (List.mem_reverse.mp horiginal) tree ?_
    rw [List.mem_append] at htree ⊢
    exact htree.symm
  obtain ⟨layer', hrun, hfinal⟩ := mutateAll_chained hreversed hback
  refine ⟨layer', ?_, ?_⟩
  · unfold undoTreeEdits
    rw [← hrun, List.flatMap_map]
    congr 1
    exact List.flatMap_congr fun edit _ => undoMutations_eq edit
  · rw [hfinal, hlive, hend]

theorem undoTreeEdits_sound (hsound : layer.Sound) (edits : List TreeEdit) :
    (undoTreeEdits layer edits).1.Sound := TreeLayer.mutateAll_sound hsound _

end Solweig.Executor
