import Solweig.Retention.Ledger

/-!
# Replay of a pruned ledger

Exactly when the replay of the events that the sweeps have left gives the trees of the rows.
-/

namespace Solweig.Retention

open Solweig.Lib Solweig.Executor

variable {grid : Geometry} {layer layer' : TreeLayer} {trees : Dict String TreeObject}
  {event : EditEvent} {events kept : List EditEvent} {edit : AppliedEdit} {treeId : String}

/-! ## One event -/

/-- The spec passes the checks of the tree layer. -/
def Accepted (grid : Geometry) (tree : TreeObject) : Prop :=
  postInit (specOf grid tree) = .ok () ∧ validateTreeSpec (specOf grid tree) = .ok ()

/-- Each live tree is under its own id. -/
def Keyed (layer : TreeLayer) : Prop :=
  ∀ (treeId : String) (tree : TreeSpec), layer.live[treeId]? = some tree → tree.treeId = treeId

theorem replay_write {tree : TreeObject} (hkeyed : Keyed layer) (hok : Accepted grid tree)
    (hbody : event.body = .tree edit) (hnew : edit.newTree = some tree) :
    ∃ layer', replayEvent grid layer event = .ok layer' ∧
      layer'.live = setTree layer.live tree.treeId (some (specOf grid tree)) := by
  obtain ⟨operation, treeId, oldTree, newTree⟩ := edit
  subst hnew
  have hspec : apiTreeToSpec grid tree = .ok (specOf grid tree) := by
    unfold apiTreeToSpec
    rw [hok.1]
    rfl
  unfold replayEvent
  simp only [hbody, hspec, except_ok_bind]
  cases hlive : layer.live[(specOf grid tree).treeId]? with
  | none =>
    rw [if_pos rfl]
    exact TreeLayer.add_total hok.2 hlive
  | some current =>
    rw [if_neg (by simp)]
    have hid := hkeyed _ _ hlive
    obtain ⟨moved, hmoved, hmovedLive⟩ := TreeLayer.move_total (specOf grid tree).xM
      (specOf grid tree).yM hid hlive
    have hcurrent : moved.live[(specOf grid tree).treeId]? =
        some { current with xM := (specOf grid tree).xM, yM := (specOf grid tree).yM } := by
      rw [hmovedLive, getElem?_setTree, if_pos rfl]
    have hafter : TreeChanges.applyTo ⟨some (specOf grid tree).heightM,
        some (specOf grid tree).canopyRadiusM, some (specOf grid tree).trunkRatio,
        some (specOf grid tree).transmissivity⟩
        { current with xM := (specOf grid tree).xM, yM := (specOf grid tree).yM } =
          specOf grid tree := by
      simp [TreeChanges.applyTo, hid]
    obtain ⟨layer', hupdated, hlive'⟩ := TreeLayer.update_total (by exact hid) hcurrent
      (by simp [TreeChanges.none]) hafter hok.2
    refine ⟨layer', ?_, ?_⟩
    · rw [hmoved, except_ok_bind, hupdated]
    · rw [hlive', hmovedLive, setTree_setTree]
      rfl

theorem replay_delete (hbody : event.body = .tree edit) (hnew : edit.newTree = none) :
    replayEvent grid layer event = layer.mutate (.deleteTree edit.treeId) := by
  obtain ⟨operation, treeId, oldTree, newTree⟩ := edit
  subst hnew
  unfold replayEvent
  rw [hbody]

theorem delete_unknown (h : layer.live[treeId]? = none) :
    layer.mutate (.deleteTree treeId) = .error (.unknownTree treeId) := by
  simp [TreeLayer.mutate, TreeLayer.requireTree, h]

theorem deleteAll_live (specs : List (String × TreeSpec)) (hkeys : (specs.map Prod.fst).Nodup)
    (hids : ∀ spec ∈ specs, spec.2.treeId = spec.1)
    (hlive : ∀ spec ∈ specs, layer.live[spec.1]? = some spec.2) :
    ∃ layer', specs.foldlM (fun layer tree => layer.mutate (.deleteTree tree.2.treeId)) layer =
        .ok layer' ∧
      ∀ id : String, layer'.live[id]? =
        if id ∈ specs.map Prod.fst then none else layer.live[id]? := by
  induction specs generalizing layer with
  | nil => exact ⟨layer, rfl, fun id => by simp⟩
  | cons spec specs ih =>
    rw [List.map_cons, List.nodup_cons] at hkeys
    obtain ⟨hid, hids⟩ := List.forall_mem_cons.mp hids
    obtain ⟨hfirst, hlive⟩ := List.forall_mem_cons.mp hlive
    obtain ⟨next, hnext, hnextLive⟩ := TreeLayer.delete_total hid hfirst
    have hrest : ∀ other ∈ specs, next.live[other.1]? = some other.2 := by
      intro other hother
      rw [hnextLive, getElem?_setTree, if_neg, hlive other hother]
      intro hsame
      exact hkeys.1 (List.mem_map.mpr ⟨other, hother, hsame⟩)
    obtain ⟨layer', hlayer', hlive'⟩ := ih hkeys.2 hids hrest
    refine ⟨layer', foldlM_cons_ok.mpr ⟨next, ?_, hlayer'⟩, fun id => ?_⟩
    · rw [hid, hnext]
    · rw [hlive' id, hnextLive, getElem?_setTree]
      simp only [List.map_cons, List.mem_cons]
      by_cases h : id = spec.1
      · simp [h]
      · simp only [h, false_or, if_false]

theorem replay_reset (hkeyed : Keyed layer) (hbody : event.body = .reset) :
    ∃ layer', replayEvent grid layer event = .ok layer' ∧
      ∀ id : String, layer'.live[id]? = none := by
  have hmem : ∀ spec : String × TreeSpec, spec ∈ layer.live.toList ↔
      layer.live[spec.1]? = some spec.2 := fun spec =>
    Std.ExtTreeMap.mem_toList_iff_getElem?_eq_some
  have hkeys : (layer.live.toList.map Prod.fst).Nodup := by
    rw [Std.ExtTreeMap.map_fst_toList_eq_keys]
    exact Std.ExtTreeMap.nodup_keys
  obtain ⟨layer', hok, hlive⟩ := deleteAll_live layer.live.toList hkeys
    (fun spec hspec => hkeyed _ _ ((hmem spec).mp hspec)) (fun spec hspec => (hmem spec).mp hspec)
  refine ⟨layer', ?_, fun id => ?_⟩
  · unfold replayEvent
    rw [hbody]
    exact hok
  · rw [hlive id]
    split
    · rfl
    · next hnot =>
      by_contra hsome
      obtain ⟨tree, htree⟩ := Option.ne_none_iff_exists'.mp hsome
      exact hnot (List.mem_map.mpr ⟨(id, tree), (hmem (id, tree)).mpr htree, rfl⟩)

/-! ## The rows along the ledger -/

def applyBody (trees : Dict String TreeObject) : EventBody → Dict String TreeObject
  | .tree edit => applyEdit trees edit
  | .reset => ∅
  | .family _ => trees

def applyEvent (trees : Dict String TreeObject) (event : EditEvent) : Dict String TreeObject :=
  applyBody trees event.body

theorem foldl_applyEvent (trees : Dict String TreeObject) (events : List EditEvent) :
    events.foldl applyEvent trees = (events.map (·.body)).foldl applyBody trees := by
  rw [List.foldl_map]
  rfl

/-- What the route has checked of an edit, in the rows that it is applied to. -/
structure AppliedEdit.Fits (grid : Geometry) (trees : Dict String TreeObject) (edit : AppliedEdit) :
    Prop where
  delete_iff : edit.operation = .delete ↔ edit.newTree = none
  present : edit.newTree = none → trees[edit.treeId]? ≠ none
  accepted : ∀ tree ∈ edit.newTree, tree.treeId = edit.treeId ∧ Accepted grid tree

def EditEvent.Fits (grid : Geometry) (trees : Dict String TreeObject) (event : EditEvent) : Prop :=
  ∀ edit, event.body = .tree edit → edit.Fits grid trees

/-- Each event fits the rows that the events before it leave. -/
def Follows (grid : Geometry) (trees : Dict String TreeObject) (events : List EditEvent) : Prop :=
  ∀ before event after, events = before ++ event :: after →
    event.Fits grid (before.foldl applyEvent trees)

theorem follows_append {later : List EditEvent} :
    Follows grid trees (events ++ later) ↔
      Follows grid trees events ∧ Follows grid (events.foldl applyEvent trees) later := by
  constructor
  · intro h
    refine ⟨fun before event after hsplit => ?_, fun before event after hsplit => ?_⟩
    · exact h before event (after ++ later) (by simp [hsplit])
    · have := h (events ++ before) event after (by simp [hsplit])
      rwa [List.foldl_append] at this
  · rintro ⟨hfirst, hlater⟩ before event after hsplit
    rcases List.append_eq_append_iff.mp hsplit with ⟨mid, hbefore, hrest⟩ | ⟨mid, hevents, hrest⟩
    · rw [hbefore, List.foldl_append]
      exact hlater mid event after hrest
    · cases mid with
      | nil =>
        rw [List.append_nil] at hevents
        rw [← hevents]
        exact hlater [] event after hrest.symm
      | cons first mid =>
        obtain ⟨rfl, -⟩ := List.cons.inj hrest
        exact hfirst before event mid hevents

theorem follows_singleton : Follows grid trees [event] ↔ event.Fits grid trees := by
  constructor
  · exact fun h => h [] event [] rfl
  · intro h before other after hsplit
    cases before with
    | nil =>
      obtain ⟨rfl, -⟩ := List.cons.inj hsplit
      exact h
    | cons _ before => simp at hsplit

theorem getElem?_applyEdit (hfits : edit.Fits grid trees) (id : String) :
    (applyEdit trees edit)[id]? = if id = edit.treeId then edit.newTree else trees[id]? := by
  unfold applyEdit
  cases hnew : edit.newTree with
  | none =>
    rw [if_pos (hfits.delete_iff.mpr hnew)]
    by_cases h : id = edit.treeId
    · simp [h]
    · rw [if_neg h, Dict.getElem?_erase_of_ne _ (Ne.symm h)]
  | some tree =>
    rw [if_neg (by rw [hfits.delete_iff, hnew]; simp)]
    by_cases h : id = edit.treeId
    · simp [h]
    · rw [if_neg h, Dict.getElem?_insert_of_ne _ _ (Ne.symm h)]

theorem applyEvent_untouched (hfits : event.Fits grid trees) (h : event.touches treeId = false) :
    (applyEvent trees event)[treeId]? = trees[treeId]? := by
  unfold applyEvent applyBody
  unfold EditEvent.touches at h
  cases hbody : event.body with
  | tree edit =>
    simp only [hbody, decide_eq_false_iff_not] at h
    rw [getElem?_applyEdit (hfits edit hbody), if_neg (Ne.symm h)]
  | reset => simp [hbody] at h
  | family operation => rfl

theorem foldl_untouched (hfollows : Follows grid trees events)
    (h : ∀ event ∈ events, event.touches treeId = false) :
    (events.foldl applyEvent trees)[treeId]? = trees[treeId]? := by
  induction events using List.reverseRecOn with
  | nil => rfl
  | append_singleton events last ih =>
    obtain ⟨hfirst, hlast⟩ := follows_append.mp hfollows
    rw [List.foldl_append, List.foldl_cons, List.foldl_nil,
      applyEvent_untouched (follows_singleton.mp hlast) (h last (by simp))]
    exact ih hfirst fun event hevent => h event (List.mem_append_left _ hevent)

theorem row_isSome_iff (hfollows : Follows grid ∅ events) :
    ((events.foldl applyEvent ∅)[treeId]?).isSome =
      (events.reverse.find? (·.touches treeId)).any (·.writes) := by
  induction events using List.reverseRecOn with
  | nil => simp
  | append_singleton events last ih =>
    obtain ⟨hfirst, hlast⟩ := follows_append.mp hfollows
    have hfits := follows_singleton.mp hlast
    rw [List.foldl_append, List.foldl_cons, List.foldl_nil, List.reverse_append,
      List.reverse_singleton, List.singleton_append, List.find?_cons]
    cases htouch : last.touches treeId with
    | false => rw [applyEvent_untouched hfits htouch, ih hfirst]
    | true =>
      unfold EditEvent.touches at htouch
      cases hbody : last.body with
      | tree edit =>
        simp only [hbody, decide_eq_true_eq] at htouch
        simp [applyEvent, applyBody, EditEvent.writes, hbody, getElem?_applyEdit (hfits edit hbody),
          ← htouch]
      | reset => simp [applyEvent, applyBody, EditEvent.writes, hbody]
      | family operation => simp [hbody] at htouch

def RowsKeyed (trees : Dict String TreeObject) : Prop :=
  ∀ (treeId : String) (tree : TreeObject), trees[treeId]? = some tree → tree.treeId = treeId

theorem rowsKeyed_applyEvent (hkeyed : RowsKeyed trees) (hfits : event.Fits grid trees) :
    RowsKeyed (applyEvent trees event) := by
  intro id tree htree
  cases htouch : event.touches id with
  | false =>
    rw [applyEvent_untouched hfits htouch] at htree
    exact hkeyed id tree htree
  | true =>
    unfold EditEvent.touches at htouch
    unfold applyEvent applyBody at htree
    cases hbody : event.body with
    | tree edit =>
      simp only [hbody, decide_eq_true_eq] at htouch htree
      rw [getElem?_applyEdit (hfits edit hbody), if_pos htouch.symm] at htree
      rw [← htouch]
      exact ((hfits edit hbody).accepted tree htree).1
    | reset => simp [hbody] at htree
    | family operation => simp [hbody] at htouch

theorem rowsKeyed_foldl (hkeyed : RowsKeyed trees) (hfollows : Follows grid trees events) :
    RowsKeyed (events.foldl applyEvent trees) := by
  induction events using List.reverseRecOn with
  | nil => exact hkeyed
  | append_singleton events last ih =>
    obtain ⟨hfirst, hlast⟩ := follows_append.mp hfollows
    rw [List.foldl_append]
    exact rowsKeyed_applyEvent (ih hfirst) (follows_singleton.mp hlast)

/-! ## Replay from a cut -/

/-- The layer has the rows of the trees that the events touch, and no others. -/
def Agrees (grid : Geometry) (events : List EditEvent) (trees : Dict String TreeObject)
    (layer : TreeLayer) : Prop :=
  ∀ treeId : String, layer.live[treeId]? =
    if events.any (·.touches treeId) then (trees[treeId]?).map (specOf grid) else none

/-- No tree is deleted by the first of the events that touches it. -/
def NoFirstDelete (events : List EditEvent) : Prop :=
  ∀ treeId, ∀ event ∈ events.find? (·.touches treeId), event.deletes = false

theorem Agrees.keyed (hagrees : Agrees grid events trees layer) (hkeyed : RowsKeyed trees) :
    Keyed layer := by
  intro id spec hspec
  rw [hagrees id] at hspec
  split at hspec
  · obtain ⟨tree, htree, rfl⟩ := Option.map_eq_some_iff.mp hspec
    exact hkeyed id tree htree
  · cases hspec

theorem noFirstDelete_append :
    NoFirstDelete (events ++ [event]) ↔ NoFirstDelete events ∧
      ∀ edit, event.body = .tree edit → edit.newTree = none →
        events.any (·.touches edit.treeId) = true := by
  unfold NoFirstDelete
  simp only [List.find?_append, Option.mem_def, Option.or_eq_some_iff]
  constructor
  · intro h
    refine ⟨fun id e he => h id e (Or.inl he), fun edit hbody hnew => ?_⟩
    by_contra hnone
    have hfind : events.find? (·.touches edit.treeId) = none := by
      rw [List.find?_eq_none]
      intro e he htouch
      exact hnone (List.any_eq_true.mpr ⟨e, he, htouch⟩)
    have := h edit.treeId event
      (Or.inr ⟨hfind, by simp [EditEvent.touches, hbody]⟩)
    simp [EditEvent.deletes, hbody, hnew] at this
  · rintro ⟨hevents, hlast⟩ id e (he | ⟨hnone, he⟩)
    · exact hevents id e he
    · have htouch := List.find?_some he
      obtain rfl : e = event := by simpa using List.mem_of_find?_eq_some he
      unfold EditEvent.deletes
      cases hbody : e.body with
      | tree edit =>
        by_contra hdeletes
        have hnew : edit.newTree = none := by simpa using hdeletes
        obtain ⟨other, hother, hsame⟩ := List.any_eq_true.mp (hlast edit hbody hnew)
        have hid : edit.treeId = id := by simpa [EditEvent.touches, hbody] using htouch
        rw [List.find?_eq_none] at hnone
        exact hnone other hother (hid ▸ hsame)
      | reset => rfl
      | family operation => rfl

/-- One more event keeps the agreement, unless it deletes a tree that no event before it touched. -/
theorem replayEvent_agrees (hagrees : Agrees grid events trees layer) (hkeyed : RowsKeyed trees)
    (hfits : event.Fits grid trees)
    (hdelete : ∀ edit, event.body = .tree edit → edit.newTree = none →
      events.any (·.touches edit.treeId) = true) :
    ∃ layer', replayEvent grid layer event = .ok layer' ∧
      Agrees grid (events ++ [event]) (applyEvent trees event) layer' := by
  have hlayer := hagrees.keyed hkeyed
  -- What the event does not touch is as before, in the layer and in the rows.
  have hother : ∀ (layer' : TreeLayer) (id : String), event.touches id = false →
      layer'.live[id]? = layer.live[id]? → layer'.live[id]? =
        if (events ++ [event]).any (·.touches id) then
          ((applyEvent trees event)[id]?).map (specOf grid) else none := by
    intro layer' id htouch hlive
    rw [hlive, hagrees id, applyEvent_untouched hfits htouch]
    simp [htouch]
  cases hbody : event.body with
  | family operation =>
    have htouch : ∀ id, event.touches id = false := fun id => by
      simp [EditEvent.touches, hbody]
    refine ⟨layer, by simp [replayEvent, hbody], fun id => hother layer id (htouch id) rfl⟩
  | reset =>
    obtain ⟨layer', hok, hlive⟩ : ∃ layer', replayEvent grid layer event = .ok layer' ∧
      ∀ id : String, layer'.live[id]? = none := replay_reset hlayer hbody
    refine ⟨layer', hok, fun id => ?_⟩
    rw [hlive id]
    simp [applyEvent, applyBody, hbody]
  | tree edit =>
    have hedit := hfits edit hbody
    have htouch : ∀ id, event.touches id = decide (edit.treeId = id) := fun id => by
      simp [EditEvent.touches, hbody]
    have hrow : (applyEvent trees event)[edit.treeId]? = edit.newTree := by
      simp [applyEvent, applyBody, hbody, getElem?_applyEdit hedit]
    have hset : ∃ layer', replayEvent grid layer event = .ok layer' ∧
        layer'.live = setTree layer.live edit.treeId (edit.newTree.map (specOf grid)) := by
      cases hnew : edit.newTree with
      | some tree =>
        obtain ⟨hid, hok⟩ := hedit.accepted tree hnew
        rw [← hid]
        exact replay_write hlayer hok hbody hnew
      | none =>
        obtain ⟨row, hrow⟩ := Option.ne_none_iff_exists'.mp (hedit.present hnew)
        have hlive : layer.live[edit.treeId]? = some (specOf grid row) := by
          rw [hagrees, if_pos (hdelete edit hbody hnew), hrow]
          rfl
        rw [replay_delete hbody hnew]
        exact TreeLayer.delete_total (hlayer _ _ hlive) hlive
    obtain ⟨layer', hok, hlive⟩ := hset
    refine ⟨layer', hok, fun id => ?_⟩
    by_cases hid : edit.treeId = id
    · subst hid
      rw [hlive, getElem?_setTree, if_pos rfl, hrow]
      simp [htouch]
    · apply hother layer' id (by simp [htouch, hid])
      rw [hlive, getElem?_setTree, if_neg (Ne.symm hid)]

/-- The replay comes to its end exactly where no tree is deleted before it is written, and then it
has the rows of the trees that the events touch. -/
theorem replay_spec (hkeyed : RowsKeyed trees) (hfollows : Follows grid trees events) :
    (NoFirstDelete events → ∃ layer, replay grid events = .ok layer ∧
        Agrees grid events (events.foldl applyEvent trees) layer) ∧
      ((∃ layer, replay grid events = .ok layer) → NoFirstDelete events) := by
  induction events using List.reverseRecOn with
  | nil =>
    refine ⟨fun _ => ⟨.empty, rfl, fun id => ?_⟩, fun _ id e he => by cases he⟩
    simp [TreeLayer.empty]
  | append_singleton events last ih =>
    obtain ⟨hfirst, hlast⟩ := follows_append.mp hfollows
    obtain ⟨htotal, hno⟩ := ih hfirst
    have hrows := rowsKeyed_foldl hkeyed hfirst
    rw [noFirstDelete_append]
    constructor
    · rintro ⟨hevents, hdelete⟩
      obtain ⟨layer, hok, hagrees⟩ := htotal hevents
      obtain ⟨layer', hok', hagrees'⟩ :=
        replayEvent_agrees hagrees hrows (follows_singleton.mp hlast) hdelete
      refine ⟨layer', foldlM_append_ok.mpr ⟨layer, hok, ?_⟩, ?_⟩
      · exact foldlM_cons_ok.mpr ⟨layer', hok', rfl⟩
      · rw [List.foldl_append]
        exact hagrees'
    · rintro ⟨layer', hok⟩
      obtain ⟨layer, hok, hlastStep⟩ := foldlM_append_ok.mp hok
      obtain ⟨_, hstep, -⟩ := foldlM_cons_ok.mp hlastStep
      have hevents := hno ⟨layer, hok⟩
      refine ⟨hevents, fun edit hbody hnew => ?_⟩
      by_contra huntouched
      obtain ⟨layer'', hok'', hagrees⟩ := htotal hevents
      obtain rfl := Except.ok.inj (hok.symm.trans hok'')
      have hgone : layer.live[edit.treeId]? = none := by
        rw [hagrees, if_neg huntouched]
      rw [replay_delete hbody hnew, delete_unknown hgone] at hstep
      cases hstep

theorem present_of_deletes {before after : List EditEvent} (hfollows : Follows grid trees events)
    (hsplit : events = before ++ event :: after)
    (hbefore : ∀ e ∈ before, e.touches treeId = false) (htouch : event.touches treeId = true)
    (hdeletes : event.deletes = true) : trees[treeId]? ≠ none := by
  have hfits := hfollows before event after hsplit
  have hfirst : Follows grid trees before := by
    rw [hsplit] at hfollows
    exact (follows_append.mp hfollows).1
  rw [← foldl_untouched hfirst hbefore]
  unfold EditEvent.deletes at hdeletes
  unfold EditEvent.touches at htouch
  cases hbody : event.body with
  | tree edit =>
    simp only [hbody, Option.isNone_iff_eq_none, decide_eq_true_eq] at hdeletes htouch
    rw [← htouch]
    exact (hfits edit hbody).present hdeletes
  | reset => simp [hbody] at hdeletes
  | family operation => simp [hbody] at hdeletes

/-! ## Reachable ledgers -/

/-- What every ledger keeps: its events, with the swept ones before them, are a history that ends
in the rows. -/
structure Ledgered (grid : Geometry) (s : Scenario) : Prop where
  follows : Follows grid ∅ (s.swept ++ s.events)
  rows : s.trees = (s.swept ++ s.events).foldl applyEvent ∅
  ordered : s.events.Pairwise fun a b => a.sequence < b.sequence
  bounded : ∀ event ∈ s.events, event.sequence ≤ s.editSequence

theorem rewritten_iff {s : Scenario} (h : Ledgered grid s) : SeesRows grid s ↔ Rewritten s := by
  obtain ⟨hswept, hevents⟩ := follows_append.mp h.follows
  have hstart : RowsKeyed (s.swept.foldl applyEvent ∅) :=
    rowsKeyed_foldl (fun id tree htree => by simp at htree) hswept
  obtain ⟨htotal, hno⟩ := replay_spec hstart hevents
  have hrows := h.rows
  rw [List.foldl_append] at hrows
  unfold SeesRows Rewritten
  constructor
  · rintro ⟨layer, hok, hsees⟩ id halive
    have hfirst := hno ⟨layer, hok⟩
    obtain ⟨_, hok', hagrees⟩ := htotal hfirst
    obtain rfl := Except.ok.inj (hok.symm.trans hok')
    cases hfind : s.events.find? (·.touches id) with
    | some event => exact ⟨event, rfl, hfirst id event hfind⟩
    | none =>
      -- A tree that no kept event touches is in the rows, and the layer does not have it.
      have huntouched : ∀ event ∈ s.events, event.touches id = false := fun event hevent =>
        by simpa using List.find?_eq_none.mp hfind event hevent
      have hnone : s.events.any (·.touches id) = false := by
        simpa using huntouched
      have hlive := hagrees id
      rw [hsees id, hnone, hrows, foldl_untouched hevents huntouched] at hlive
      rw [← row_isSome_iff hswept] at halive
      obtain ⟨row, hrow⟩ := Option.isSome_iff_exists.mp halive
      simp [hrow] at hlive
  · intro hrewritten
    have hfirst : NoFirstDelete s.events := by
      intro id event hfind
      by_contra hdeletes
      obtain ⟨htouch, before, after, hsplit, hbefore⟩ := List.find?_eq_some_iff_append.mp hfind
      have halive : (s.swept.foldl applyEvent ∅)[id]? ≠ none :=
        present_of_deletes hevents hsplit (by simpa using hbefore) htouch (by simpa using hdeletes)
      rw [Option.ne_none_iff_isSome, row_isSome_iff hswept] at halive
      obtain ⟨other, hother, hkeeps⟩ := hrewritten id halive
      obtain rfl := Option.some.inj (hfind.symm.trans hother)
      exact hdeletes hkeeps
    obtain ⟨layer, hok, hagrees⟩ := htotal hfirst
    refine ⟨layer, hok, fun id => ?_⟩
    rw [hagrees id, hrows]
    split
    · rfl
    · next hnone =>
      have huntouched : ∀ event ∈ s.events, event.touches id = false := by simpa using hnone
      rw [foldl_untouched hevents huntouched]
      by_contra hrow
      have halive : ((s.swept.foldl applyEvent ∅)[id]?).isSome = true := by
        rw [Option.isSome_iff_ne_none]
        rintro hgone
        simp [hgone] at hrow
      rw [row_isSome_iff hswept] at halive
      obtain ⟨event, hevent, -⟩ := hrewritten id halive
      rw [Option.mem_def, List.find?_eq_none.mpr fun e he => by simp [huntouched e he]] at hevent
      cases hevent

/-! ## The steps -/

theorem validateTree_accepted {index : Nat} {tree : TreeObject}
    (h : validateTree grid index tree = .ok ()) : Accepted grid tree := by
  unfold validateTree at h
  simp only [except_bind_ok, refuseIf_ok, except_mapError_ok] at h
  obtain ⟨-, -, -, -, -, -, spec, hspec, u, hvalid, -⟩ := h
  unfold apiTreeToSpec at hspec
  obtain ⟨u', hpost, hpure⟩ := except_bind_ok.mp hspec
  obtain rfl := Except.ok.inj hpure
  exact ⟨hpost, hvalid⟩

theorem routeEdit_spec {s s' : RouteState} {item : EditItem × Nat}
    (h : routeEdit grid s item = .ok s') :
    ∃ edit, s' = (applyEdit s.1 edit, s.2 ++ [edit]) ∧ edit.Fits grid s.1 := by
  obtain ⟨⟨operation, tree, treeId⟩, index⟩ := item
  cases operation with
  | delete =>
    cases treeId with
    | none => simp [routeEdit] at h
    | some treeId =>
      cases hold : s.1[treeId]? with
      | none => simp [routeEdit, hold] at h
      | some old =>
        simp only [routeEdit, hold] at h
        refine ⟨⟨.delete, treeId, some old, none⟩, (Except.ok.inj h).symm, by simp, ?_, by simp⟩
        simp [hold]
  | add =>
    cases tree with
    | none => simp [routeEdit] at h
    | some tree =>
      simp only [routeEdit, if_true, except_bind_ok] at h
      obtain ⟨_, hvalid, _, -, hpure⟩ := h
      exact ⟨⟨.add, tree.treeId, none, some tree⟩, (Except.ok.inj hpure).symm, by simp, by simp,
        by simpa using validateTree_accepted hvalid⟩
  | move =>
    cases tree with
    | none => simp [routeEdit] at h
    | some tree =>
      simp only [routeEdit, reduceCtorEq, if_false, except_bind_ok] at h
      obtain ⟨_, hvalid, _, -, hpure⟩ := h
      exact ⟨⟨.move, tree.treeId, s.1[tree.treeId]?, some tree⟩, (Except.ok.inj hpure).symm,
        by simp, by simp, by simpa using validateTree_accepted hvalid⟩
  | update =>
    cases tree with
    | none => simp [routeEdit] at h
    | some tree =>
      simp only [routeEdit, reduceCtorEq, if_false, except_bind_ok] at h
      obtain ⟨_, hvalid, _, -, hpure⟩ := h
      exact ⟨⟨.update, tree.treeId, s.1[tree.treeId]?, some tree⟩, (Except.ok.inj hpure).symm,
        by simp, by simp, by simpa using validateTree_accepted hvalid⟩

/-- The edits fit one after another. -/
def EditsFit (grid : Geometry) (trees : Dict String TreeObject) (applied : List AppliedEdit) :
    Prop :=
  ∀ before edit after, applied = before ++ edit :: after →
    edit.Fits grid (before.foldl applyEdit trees)

theorem routeEdits_fit {items : List EditItem} {applied : List AppliedEdit}
    (h : routeEdits grid trees items = .ok applied) : EditsFit grid trees applied := by
  unfold routeEdits at h
  obtain ⟨s, hfold, rfl⟩ := except_map_ok.mp h
  refine (foldlM_invariant (I := fun _ s => s.1 = s.2.foldl applyEdit trees ∧
    EditsFit grid trees s.2) ?_ ?_ hfold).2
  · rintro _ item _ s t - ⟨hrows, hfits⟩ hstep
    obtain ⟨edit, rfl, hedit⟩ := routeEdit_spec hstep
    refine ⟨by rw [hrows, List.foldl_append]; rfl, fun before other after hsplit => ?_⟩
    rcases List.eq_nil_or_concat' after with rfl | ⟨after, last, rfl⟩
    · obtain ⟨rfl, rfl⟩ := List.append_inj' hsplit rfl |>.imp_right (fun h => (List.cons.inj h).1)
      rw [← hrows]
      exact hedit
    · rw [← List.cons_append, ← List.append_assoc] at hsplit
      exact hfits before other after (List.append_inj' hsplit rfl).1
  · exact ⟨rfl, fun before edit after hsplit => by simp at hsplit⟩

theorem newEvents_body (s : Scenario) (bodies : List EventBody) :
    (s.newEvents bodies).map (·.body) = bodies := by
  unfold Scenario.newEvents
  rw [List.map_map]
  exact List.zipIdx_map_fst 0 bodies

theorem newEvents_ordered (s : Scenario) (bodies : List EventBody) :
    (s.newEvents bodies).Pairwise fun a b => a.sequence < b.sequence := by
  unfold Scenario.newEvents
  rw [List.pairwise_map, List.pairwise_iff_getElem]
  intro i j hi hj hij
  simp
  omega

theorem mem_newEvents {s : Scenario} {bodies : List EventBody} (h : event ∈ s.newEvents bodies) :
    s.editSequence < event.sequence ∧ event.sequence ≤ s.editSequence + bodies.length := by
  unfold Scenario.newEvents at h
  obtain ⟨⟨body, index⟩, hmem, rfl⟩ := List.mem_map.mp h
  have := (List.mem_zipIdx hmem).2.1
  simp at this ⊢
  omega

theorem Ledgered.append {s : Scenario} (h : Ledgered grid s) (bodies : List EventBody) (acked : Nat)
    (hfits : Follows grid s.trees (s.newEvents bodies)) :
    Ledgered grid { s.appendEvents bodies with
      trees := (s.newEvents bodies).foldl applyEvent s.trees, ackedSequence := acked } where
  follows := by
    show Follows grid ∅ (s.swept ++ (s.events ++ s.newEvents bodies))
    rw [← List.append_assoc]
    refine follows_append.mpr ⟨h.follows, ?_⟩
    rwa [← h.rows]
  rows := by
    show _ = (s.swept ++ (s.events ++ s.newEvents bodies)).foldl applyEvent ∅
    rw [← List.append_assoc, List.foldl_append, ← h.rows]
  ordered := by
    refine List.pairwise_append.mpr ⟨h.ordered, newEvents_ordered s bodies, fun a ha b hb => ?_⟩
    have hold := h.bounded a ha
    have hnew := (mem_newEvents hb).1
    omega
  bounded := by
    intro event hevent
    show event.sequence ≤ s.editSequence + bodies.length
    rcases List.mem_append.mp hevent with hold | hnew
    · have := h.bounded event hold
      omega
    · exact (mem_newEvents hnew).2

theorem follows_of_plain (h : ∀ event ∈ events, ∀ edit, event.body ≠ .tree edit) :
    Follows grid trees events :=
  fun _ event _ hsplit edit hbody => absurd hbody (h event (by simp [hsplit]) edit)

theorem filter_append_filter {P : EditEvent → Prop} [DecidablePred P]
    (hordered : events.Pairwise fun a b => a.sequence < b.sequence)
    (hdown : ∀ a b, a.sequence < b.sequence → P b → P a) :
    events.filter (fun e => P e) ++ events.filter (fun e => ¬ P e) = events := by
  induction events with
  | nil => rfl
  | cons first events ih =>
    obtain ⟨hfirst, hrest⟩ := List.pairwise_cons.mp hordered
    by_cases hp : P first
    · rw [List.filter_cons_of_pos (by simpa using hp), List.filter_cons_of_neg (by simpa using hp),
        List.cons_append, ih hrest]
    · have hnone : ∀ b ∈ first :: events, ¬ P b := by
        intro b hb hpb
        rcases List.mem_cons.mp hb with rfl | hb
        · exact hp hpb
        · exact hp (hdown first b (hfirst b hb) hpb)
      rw [List.filter_eq_nil_iff.mpr fun b hb => by simpa using hnone b hb,
        List.filter_eq_self.mpr fun b hb => by simpa using hnone b hb, List.nil_append]

theorem Ledgered.sweep {s : Scenario} (h : Ledgered grid s) (eventTail : Nat) :
    Ledgered grid (s.sweepRetention eventTail) := by
  have hparts : s.events.filter (fun event => s.Prunable eventTail event) ++
      s.events.filter (fun event => ¬ s.Prunable eventTail event) = s.events := by
    apply filter_append_filter h.ordered
    intro a b hlt hb
    unfold Scenario.Prunable at hb ⊢
    omega
  have hall : (s.sweepRetention eventTail).swept ++ (s.sweepRetention eventTail).events =
      s.swept ++ s.events := by
    unfold Scenario.sweepRetention
    rw [List.append_assoc, hparts]
  constructor
  · rw [hall]
    exact h.follows
  · rw [hall]
    exact h.rows
  · exact h.ordered.filter _
  · exact fun event hevent => h.bounded event (List.mem_filter.mp hevent).1

theorem ledgered_initial : Ledgered grid .initial where
  follows := by
    intro before event after hsplit
    simp [Scenario.initial] at hsplit
  rows := by simp [Scenario.initial]
  ordered := List.Pairwise.nil
  bounded := by simp [Scenario.initial]

theorem follows_applied {s : Scenario} {applied : List AppliedEdit}
    (h : EditsFit grid s.trees applied) :
    Follows grid s.trees (s.newEvents (applied.map .tree)) := by
  intro before event after hsplit edit hbody
  have hbodies := newEvents_body s (applied.map .tree)
  rw [hsplit, List.map_append, List.map_cons, hbody] at hbodies
  obtain ⟨done, rest, happlied, hdone, hrest⟩ := List.map_eq_append_iff.mp hbodies.symm
  obtain ⟨first, later, rfl, hfirst, -⟩ := List.map_eq_cons_iff.mp hrest
  obtain rfl := EventBody.tree.inj hfirst
  rw [foldl_applyEvent, ← hdone, List.foldl_map]
  exact h done first later happlied

theorem foldl_applied (s : Scenario) (applied : List AppliedEdit) :
    (s.newEvents (applied.map .tree)).foldl applyEvent s.trees =
      applied.foldl applyEdit s.trees := by
  rw [foldl_applyEvent, newEvents_body, List.foldl_map]
  rfl

theorem Ledgered.step {s t : Scenario} {op : LedgerOp} (h : Ledgered grid s)
    (hstep : ledgerStep grid s op = some t) : Ledgered grid t := by
  cases op with
  | commit base items =>
    obtain ⟨applied, happlied, hcommit⟩ := except_bind_ok.mp (except_toOption_some.mp hstep)
    obtain ⟨_, -, hpure⟩ := except_bind_ok.mp hcommit
    obtain rfl := Except.ok.inj hpure
    have hnext := h.append (applied.map .tree) s.ackedSequence
      (follows_applied (routeEdits_fit happlied))
    rw [foldl_applied] at hnext
    exact hnext
  | universal base operations =>
    obtain ⟨_, -, hpure⟩ := except_bind_ok.mp (except_toOption_some.mp hstep)
    obtain rfl := Except.ok.inj hpure
    have hplain : ∀ event ∈ s.newEvents (operations.map .family), ∀ edit,
        event.body ≠ .tree edit := by
      intro event hevent edit hbody
      have hmem := List.mem_map_of_mem (f := EditEvent.body) hevent
      rw [newEvents_body, hbody] at hmem
      simp at hmem
    have hnext := h.append (operations.map .family) s.ackedSequence (follows_of_plain hplain)
    have hsame : (s.newEvents (operations.map .family)).foldl applyEvent s.trees = s.trees := by
      rw [foldl_applyEvent, newEvents_body, List.foldl_map]
      exact List.foldl_fixed' (fun _ => rfl) operations
    rw [hsame] at hnext
    exact hnext
  | reset base =>
    obtain ⟨_, -, hpure⟩ := except_bind_ok.mp (except_toOption_some.mp hstep)
    obtain rfl := Except.ok.inj hpure
    have hplain : ∀ event ∈ s.newEvents [.reset], ∀ edit, event.body ≠ .tree edit := by
      simp [Scenario.newEvents]
    exact h.append [.reset] (s.editSequence + 1) (follows_of_plain hplain)
  | publish watermark =>
    simp only [ledgerStep, Option.ite_none_right_eq_some, Option.some.injEq] at hstep
    obtain ⟨-, rfl⟩ := hstep
    exact ⟨h.follows, h.rows, h.ordered, h.bounded⟩
  | sweep eventTail =>
    obtain rfl := Option.some.inj hstep
    exact h.sweep eventTail

/-- In every ledger that is reached, a legacy solve sees the trees of the rows exactly where each
tree that was live after the swept events has been rewritten since. -/
theorem seesRows_iff (grid : Geometry) {ops : List LedgerOp} {s : Scenario}
    (hrun : run (ledgerStep grid) .initial ops = some s) : SeesRows grid s ↔ Rewritten s :=
  rewritten_iff (run_invariant (C := fun _ _ => True) (fun _ _ _ h _ hstep => h.step hstep)
    ledgered_initial (eachStep_of_forall (fun _ _ => trivial) _ _) hrun)

/-! ## A tree that is older than the tail -/

def unitSite : Geometry := ⟨1, 1, 1, 0, 0⟩

def plane (treeId : String) : TreeObject :=
  ⟨treeId, "broad_canopy", 1 / 2, 1 / 2, 18, 11, 1 / 4, 3 / 100⟩

def addTree (treeId : String) : EditItem := ⟨.add, some (plane treeId), none⟩

/-- The tree is added and published, and its one event is swept. -/
theorem swept_tree_unseen : ¬ ∀ (ops : List LedgerOp) (s : Scenario),
    run (ledgerStep unitSite) .initial ops = some s → SeesRows unitSite s := by
  intro h
  have hsome : (run (ledgerStep unitSite) .initial
      [.commit 0 [addTree "oak"], .publish 1, .sweep 0]).any (fun s =>
        s.events.isEmpty ∧ (s.trees["oak"]?).isSome) = true := by decide +kernel
  obtain ⟨s, hrun, hstate⟩ := (Option.any_eq_true _ _).mp hsome
  obtain ⟨hevents, hrow⟩ := of_decide_eq_true hstate
  obtain ⟨layer, hreplay, hsees⟩ := h _ s hrun
  rw [List.isEmpty_iff.mp hevents] at hreplay
  obtain rfl := Except.ok.inj hreplay
  obtain ⟨row, hrow⟩ := Option.isSome_iff_exists.mp hrow
  have hoak := hsees "oak"
  rw [hrow] at hoak
  simp [TreeLayer.empty] at hoak

theorem writes_spec (h : event.writes = true) :
    event.deletes = false ∧ ∀ a b, event.touches a = true → event.touches b = true → a = b := by
  unfold EditEvent.writes at h
  unfold EditEvent.deletes EditEvent.touches
  cases hbody : event.body with
  | tree edit =>
    simp only [hbody] at h
    simp only [decide_eq_true_eq]
    exact ⟨by simpa [Option.isNone_iff_eq_none, Option.isSome_iff_ne_none] using h,
      fun a b ha hb => ha.symm.trans hb⟩
  | reset => simp [hbody] at h
  | family operation => simp [hbody] at h

/-- The first event of the tree is swept, and a later one has the whole tree. -/
theorem moved_tree_seen : ∃ s, run (ledgerStep unitSite) .initial
    [.commit 0 [addTree "oak"], .commit 1 [⟨.move, some (plane "oak"), none⟩], .publish 2,
      .sweep 1] = some s ∧ s.swept.length = 1 ∧ SeesRows unitSite s := by
  have hsome : (run (ledgerStep unitSite) .initial
      [.commit 0 [addTree "oak"], .commit 1 [⟨.move, some (plane "oak"), none⟩], .publish 2,
        .sweep 1]).any (fun s => s.swept.length = 1 ∧
          s.swept.all (fun e => e.touches "oak") = true ∧
            (s.events.find? (·.touches "oak")).any (·.writes) = true) = true := by
    decide +kernel
  obtain ⟨s, hrun, hstate⟩ := (Option.any_eq_true _ _).mp hsome
  obtain ⟨hlength, hswept, hkept⟩ := of_decide_eq_true hstate
  refine ⟨s, hrun, hlength, (seesRows_iff unitSite hrun).mpr fun id halive => ?_⟩
  obtain ⟨first, hfind, hwrites⟩ := (Option.any_eq_true _ _).mp halive
  have hoak := List.all_eq_true.mp hswept first
    (List.mem_reverse.mp (List.mem_of_find?_eq_some hfind))
  obtain rfl := (writes_spec hwrites).2 id "oak" (List.find?_some hfind) hoak
  obtain ⟨event, hevent, hwrites⟩ := (Option.any_eq_true _ _).mp hkept
  exact ⟨event, hevent, (writes_spec hwrites).1⟩

end Solweig.Retention
