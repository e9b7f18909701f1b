import Solweig.Executor.TreeLog
import Solweig.Planner.NetEffect

/-!
# Coalesced slices of the log

What a slice of the log coalesces to: for each tree whose state it changes, the state before and
the state after. So two adjacent slices coalesce one after the other as they do together.
-/

namespace Solweig.Executor

open Solweig.Lib Solweig.Planner

variable {live : Dict String TreeSpec} {edits : List TreeEdit} {treeId : String}

/-! ## First and last states -/

/-- The edit as a write of its tree, with the sequence in both states. -/
def TreeEdit.entry (edit : TreeEdit) : KeyedWrite String (Option TreeSpec × Nat) :=
  (edit.treeId, (edit.oldTree, edit.sequence), (edit.newTree, edit.sequence))

theorem applyEdits_untouched (h : ∀ edit ∈ edits, edit.treeId ≠ treeId) :
    (applyEdits live edits)[treeId]? = live[treeId]? := by
  induction edits generalizing live with
  | nil => rfl
  | cons edit edits ih =>
    obtain ⟨hfirst, hrest⟩ := List.forall_mem_cons.mp h
    refine (ih hrest).trans ?_
    rw [getElem?_setTree, if_neg (Ne.symm hfirst)]

theorem firstBefore?_chained (hchained : Chained live edits) {first : Option TreeSpec × Nat}
    (h : firstBefore? (edits.map TreeEdit.entry) treeId = some first) :
    first.1 = live[treeId]? := by
  induction edits generalizing live with
  | nil => simp [firstBefore?] at h
  | cons edit edits ih =>
    obtain ⟨hlive, hchained⟩ := hchained
    unfold firstBefore? at h
    rw [List.map_cons, List.find?_cons] at h
    by_cases hid : edit.treeId = treeId
    · rw [show decide (edit.entry.1 = treeId) = true from decide_eq_true hid] at h
      obtain rfl := Option.some.inj h
      rw [← hid, hlive]
      rfl
    · rw [show decide (edit.entry.1 = treeId) = false from decide_eq_false hid] at h
      rw [ih hchained h, getElem?_setTree, if_neg (Ne.symm hid)]

/-- The last state of a tree is the one that the edits leave, and its sequence that of an edit. -/
theorem lastAfter?_applyEdits (live : Dict String TreeSpec) {last : Option TreeSpec × Nat}
    (h : lastAfter? (edits.map TreeEdit.entry) treeId = some last) :
    last.1 = (applyEdits live edits)[treeId]? ∧
      ∃ edit ∈ edits, edit.treeId = treeId ∧ edit.sequence = last.2 := by
  induction edits using List.reverseRecOn with
  | nil => simp [lastAfter?] at h
  | append_singleton edits edit ih =>
    rw [List.map_append, List.map_singleton, lastAfter?_append] at h
    rw [applyEdits_append]
    have hstep : (applyEdits (applyEdits live edits) [edit])[treeId]? =
        if treeId = edit.treeId then edit.newTree else (applyEdits live edits)[treeId]? :=
      getElem?_setTree _ _ _ _
    rw [hstep]
    by_cases hid : edit.treeId = treeId
    · rw [if_pos (show edit.entry.1 = treeId from hid)] at h
      obtain rfl := Option.some.inj h
      rw [if_pos hid.symm]
      exact ⟨rfl, edit, by simp, hid, rfl⟩
    · rw [if_neg (show edit.entry.1 ≠ treeId from hid)] at h
      obtain ⟨hlast, other, hother, hsame⟩ := ih h
      rw [if_neg (Ne.symm hid)]
      exact ⟨hlast, other, List.mem_append_left _ hother, hsame⟩

/-! ## Net edits -/

theorem netEdit_eq_some {merged : KeyedWrite String (Option TreeSpec × Nat)} {edit : TreeEdit} :
    netEdit merged = some edit ↔ edit.oldTree ≠ edit.newTree ∧ edit.treeId = merged.1 ∧
      edit.oldTree = merged.2.1.1 ∧ edit.newTree = merged.2.2.1 ∧
      edit.sequence = merged.2.2.2 := by
  unfold netEdit
  split
  · rename_i hnone
    refine iff_of_false (by simp) ?_
    rintro ⟨hne, -, hold, hnew, -⟩
    exact hne (by rw [hold, hnew, hnone.1, hnone.2])
  · split
    · rename_i hsame
      refine iff_of_false (by simp) ?_
      rintro ⟨hne, -, hold, hnew, -⟩
      exact hne (by rw [hold, hnew, hsame])
    · rename_i hdiff
      rw [except_toOption_some, TreeEdit.make_ok]
      constructor
      · rintro ⟨hsequence, hid, hold, hnew⟩
        exact ⟨by rwa [hold, hnew], hid, hold, hnew, hsequence⟩
      · rintro ⟨-, hid, hold, hnew, hsequence⟩
        exact ⟨hsequence, hid, hold, hnew⟩

/-- Between two states of a tree an edit can be made: they are live states of it. -/
def StatesOf (live : Dict String TreeSpec) : Prop :=
  ∀ (treeId : String) (tree : TreeSpec), live[treeId]? = some tree → tree.treeId = treeId

theorem StatesOf.applyEdits (h : StatesOf live) (edits : List TreeEdit) :
    StatesOf (applyEdits live edits) := by
  induction edits generalizing live with
  | nil => exact h
  | cons edit edits ih =>
    apply ih
    intro treeId tree htree
    rw [getElem?_setTree] at htree
    split at htree
    · rename_i hid
      rw [hid]
      exact edit.sameTree tree (by simp [htree])
    · exact h treeId tree htree

theorem exists_netEdit {treeId : String} {old new : Option TreeSpec} (first last : Nat)
    (hold : ∀ tree ∈ old, tree.treeId = treeId) (hnew : ∀ tree ∈ new, tree.treeId = treeId)
    (hne : old ≠ new) : ∃ edit, netEdit (treeId, (old, first), (new, last)) = some edit := by
  have hpresent : ¬ (old = none ∧ new = none) := fun h => hne (h.1.trans h.2.symm)
  refine ⟨⟨last, treeId, old, new, hpresent, ?_⟩,
    netEdit_eq_some.mpr ⟨hne, rfl, rfl, rfl, rfl⟩⟩
  intro tree htree
  rw [List.mem_append, Option.mem_toList, Option.mem_toList] at htree
  exact htree.elim (hold tree) (hnew tree)

/-! ## A slice -/

/-- The tree and its states. -/
def TreeEdit.triple (edit : TreeEdit) : String × Option TreeSpec × Option TreeSpec :=
  (edit.treeId, edit.oldTree, edit.newTree)

/-- What a slice coalesces to between two states of the live trees. -/
structure NetOf (before after : Dict String TreeSpec) (net : List TreeEdit) : Prop where
  nodup : (net.map (·.treeId)).Nodup
  triples : ∀ treeId old new, (treeId, old, new) ∈ net.map TreeEdit.triple ↔
    old = before[treeId]? ∧ new = after[treeId]? ∧ old ≠ new
  ordered : (net.map (·.sequence)).Pairwise (· < ·)

theorem NetOf.edit {before after : Dict String TreeSpec} {net : List TreeEdit}
    (h : NetOf before after net) {edit : TreeEdit} (hedit : edit ∈ net) :
    edit.oldTree = before[edit.treeId]? ∧ edit.newTree = after[edit.treeId]? ∧
      edit.oldTree ≠ edit.newTree :=
  (h.triples _ _ _).mp (List.mem_map_of_mem (f := TreeEdit.triple) hedit)

theorem NetOf.chained {before after : Dict String TreeSpec} {net : List TreeEdit}
    (h : NetOf before after net) : Chained before net :=
  chained_of_live h.nodup fun _ hedit => (h.edit hedit).1.symm

theorem NetOf.applyEdits {before after : Dict String TreeSpec} {net : List TreeEdit}
    (h : NetOf before after net) : applyEdits before net = after := by
  apply Std.ExtTreeMap.ext_getElem?
  intro treeId
  by_cases hsame : before[treeId]? = after[treeId]?
  · rw [← hsame]
    apply applyEdits_untouched
    rintro edit hedit rfl
    obtain ⟨hold, hnew, hne⟩ := h.edit hedit
    exact hne (by rw [hold, hnew, hsame])
  · obtain ⟨edit, hedit, htriple⟩ := List.mem_map.mp
      ((h.triples treeId before[treeId]? after[treeId]?).mpr ⟨rfl, rfl, hsame⟩)
    simp only [TreeEdit.triple, Prod.mk.injEq] at htriple
    obtain ⟨rfl, -, hnew⟩ := htriple
    rw [getElem?_applyEdits h.nodup hedit, hnew]

theorem NetOf.eq_nil_iff {before after : Dict String TreeSpec} {net : List TreeEdit}
    (h : NetOf before after net) : net = [] ↔ before = after := by
  constructor
  · intro hnil
    rw [← h.applyEdits, hnil]
    rfl
  · rintro rfl
    rw [List.eq_nil_iff_forall_not_mem]
    intro edit hedit
    obtain ⟨hold, hnew, hne⟩ := h.edit hedit
    exact hne (hold.trans hnew.symm)

theorem mem_netEdits {net : TreeEdit} : net ∈ netEdits edits ↔
    ∃ merged, firstBefore? (edits.map TreeEdit.entry) merged.1 = some merged.2.1 ∧
      lastAfter? (edits.map TreeEdit.entry) merged.1 = some merged.2.2 ∧
      netEdit merged = some net := by
  unfold netEdits
  rw [List.mem_insertionSort, List.mem_filterMap]
  refine exists_congr fun merged => ?_
  rw [← and_assoc]
  exact and_congr_left' (mem_firstAndLast _ _)

/-- A net edit is between the states of its tree before and after, and has the sequence of one of
the edits of the tree. -/
theorem netEdits_states (hchained : Chained live edits) {net : TreeEdit}
    (h : net ∈ netEdits edits) :
    net.oldTree = live[net.treeId]? ∧ net.newTree = (applyEdits live edits)[net.treeId]? ∧
      net.oldTree ≠ net.newTree ∧
      ∃ edit ∈ edits, edit.treeId = net.treeId ∧ edit.sequence = net.sequence := by
  obtain ⟨merged, hfirst, hlast, hnet⟩ := mem_netEdits.mp h
  obtain ⟨hne, hid, hold, hnew, hsequence⟩ := netEdit_eq_some.mp hnet
  rw [← hid] at hfirst hlast
  obtain ⟨hafter, edit, hedit, hsame, hnumber⟩ := lastAfter?_applyEdits live hlast
  rw [hold, hnew] at hne ⊢
  exact ⟨firstBefore?_chained hchained hfirst, hafter, hne, edit, hedit, hsame,
    hnumber.trans hsequence.symm⟩

theorem exists_netEdits (hstates : StatesOf live) (hchained : Chained live edits)
    (hne : live[treeId]? ≠ (applyEdits live edits)[treeId]?) :
    ∃ net ∈ netEdits edits, net.treeId = treeId := by
  have htouched : ∃ edit ∈ edits, edit.treeId = treeId := by
    by_contra h
    push Not at h
    exact hne (applyEdits_untouched h).symm
  obtain ⟨edit, hedit, rfl⟩ := htouched
  obtain ⟨first, last, hfirst, hlast⟩ := written_spec
    (List.mem_map_of_mem (f := TreeEdit.entry) hedit)
  have hbefore := firstBefore?_chained hchained hfirst
  have hafter := (lastAfter?_applyEdits live hlast).1
  obtain ⟨net, hnet⟩ := exists_netEdit first.2 last.2 (fun tree htree => hstates _ tree htree)
    (fun tree htree => (hstates.applyEdits edits) _ tree htree) hne
  refine ⟨net, mem_netEdits.mpr ⟨(edit.treeId, first, last), hfirst, hlast, ?_⟩,
    (netEdit_eq_some.mp hnet).2.1⟩
  rw [← hnet, ← show first.1 = live[edit.treeId]? from hbefore,
    ← show last.1 = (applyEdits live edits)[edit.treeId]? from hafter]

theorem netEdits_nodup (edits : List TreeEdit) : ((netEdits edits).map (·.treeId)).Nodup :=
  ((List.perm_insertionSort _ _).map _).nodup_iff.mpr (filterMap_netEdit_nodup edits)

theorem netEdits_ordered (hchained : Chained live edits)
    (hordered : (edits.map (·.sequence)).Pairwise (· < ·)) :
    ((netEdits edits).map (·.sequence)).Pairwise (· < ·) := by
  have hnodup : (edits.map (·.sequence)).Nodup := hordered.imp Nat.ne_of_lt
  have hle : (netEdits edits).Pairwise fun a b => a.sequence ≤ b.sequence :=
    List.pairwise_insertionSort _ _
  rw [List.pairwise_map]
  refine (hle.and (List.pairwise_map.mp (netEdits_nodup edits))).imp_of_mem ?_
  rintro a b ha hb ⟨hab, hids⟩
  refine lt_of_le_of_ne hab fun hsame => hids ?_
  obtain ⟨-, -, -, first, hfirst, hid, hnumber⟩ := netEdits_states hchained ha
  obtain ⟨-, -, -, second, hsecond, hid', hnumber'⟩ := netEdits_states hchained hb
  obtain rfl := List.inj_on_of_nodup_map hnodup hfirst hsecond
    (hnumber.trans (hsame.trans hnumber'.symm))
  exact hid.symm.trans hid'

theorem netOf_netEdits (hstates : StatesOf live) (hchained : Chained live edits)
    (hordered : (edits.map (·.sequence)).Pairwise (· < ·)) :
    NetOf live (applyEdits live edits) (netEdits edits) where
  nodup := netEdits_nodup edits
  ordered := netEdits_ordered hchained hordered
  triples := by
    intro treeId old new
    constructor
    · intro h
      obtain ⟨net, hnet, htriple⟩ := List.mem_map.mp h
      simp only [TreeEdit.triple, Prod.mk.injEq] at htriple
      obtain ⟨rfl, rfl, rfl⟩ := htriple
      obtain ⟨hold, hnew, hne, -⟩ := netEdits_states hchained hnet
      exact ⟨hold, hnew, hne⟩
    · rintro ⟨rfl, rfl, hne⟩
      obtain ⟨net, hnet, rfl⟩ := exists_netEdits hstates hchained hne
      obtain ⟨hold, hnew, -⟩ := netEdits_states hchained hnet
      refine List.mem_map.mpr ⟨net, hnet, ?_⟩
      rw [← hold, ← hnew]
      rfl

/-! ## Two slices -/

theorem NetOf.append_chained {before middle after : Dict String TreeSpec}
    {first second : List TreeEdit} (h : NetOf before middle first)
    (h' : NetOf middle after second) : Chained before (first ++ second) := by
  rw [chained_append, h.applyEdits]
  exact ⟨h.chained, h'.chained⟩

theorem NetOf.triples_eq {before after : Dict String TreeSpec} {net other : List TreeEdit}
    (h : NetOf before after net) (h' : NetOf before after other)
    (triple : String × Option TreeSpec × Option TreeSpec) :
    triple ∈ net.map TreeEdit.triple ↔ triple ∈ other.map TreeEdit.triple := by
  obtain ⟨treeId, old, new⟩ := triple
  rw [h.triples, h'.triples]

/-! ## Slices of the log -/

/-- What successful mutations add to a layer. -/
structure Extended (layer layer' : TreeLayer) (slice : List TreeEdit) : Prop where
  edits : layer'.edits = layer.edits ++ slice
  chained : Chained layer.live slice
  live : layer'.live = applyEdits layer.live slice
  numbered : slice.map (·.sequence) = List.range' (layer.sequence + 1) slice.length

theorem extended_of_sound {layer layer' : TreeLayer} {slice : List TreeEdit} (h : layer.Sound)
    (h' : layer'.Sound) (hedits : layer'.edits = layer.edits ++ slice) :
    Extended layer layer' slice where
  edits := hedits
  chained := by
    have hchain := h'.chained
    rw [hedits, chained_append, ← h.ends] at hchain
    exact hchain.2
  live := by
    rw [h'.ends, hedits, applyEdits_append, ← h.ends]
  numbered := by
    have hnumbers := h'.numbered
    rw [hedits, List.map_append, h.numbered, List.length_append, ← List.range'_append,
      List.append_cancel_left_eq] at hnumbers
    rw [hnumbers, h.counter]
    simp [Nat.add_comm]

theorem mutateAll_edits {layer layer' : TreeLayer} {mutations : List Mutation}
    (h : layer.mutateAll mutations = (layer', .ok ())) :
    ∃ slice, layer'.edits = layer.edits ++ slice ∧ slice.length = mutations.length := by
  induction mutations generalizing layer with
  | nil =>
    simp only [TreeLayer.mutateAll, Prod.mk.injEq, and_true] at h
    exact ⟨[], by simp [h], rfl⟩
  | cons mutation mutations ih =>
    unfold TreeLayer.mutateAll at h
    split at h
    · next next hmutate =>
      obtain ⟨treeId, newTree, hrecord⟩ := TreeLayer.mutate_record hmutate
      obtain ⟨edit, -, -, -, -, rfl⟩ := TreeLayer.record_ok hrecord
      obtain ⟨slice, hslice, hlength⟩ := ih h
      exact ⟨edit :: slice, by simpa using hslice, by simp [hlength]⟩
    · simp at h

theorem statesOf_sound {layer : TreeLayer} (h : layer.Sound) : StatesOf layer.live := by
  rw [h.ends]
  exact StatesOf.applyEdits (fun treeId tree htree => by simp at htree) layer.edits

theorem Extended.ordered {layer layer' : TreeLayer} {slice : List TreeEdit}
    (h : Extended layer layer' slice) : (slice.map (·.sequence)).Pairwise (· < ·) := by
  rw [h.numbered]
  exact List.pairwise_lt_range' 1

theorem Extended.coalesces {layer layer' : TreeLayer} {slice : List TreeEdit} (hsound : layer.Sound)
    (h : Extended layer layer' slice) (hne : slice ≠ []) :
    ∃ batch, coalesceTreeEdits slice = .ok batch ∧ batch.edits = netEdits slice ∧
      NetOf layer.live layer'.live batch.edits := by
  obtain ⟨batch, hbatch, hedits⟩ := coalesceTreeEdits_eq hne h.chained h.ordered
  refine ⟨batch, hbatch, hedits, ?_⟩
  rw [hedits, h.live]
  exact netOf_netEdits (statesOf_sound hsound) h.chained h.ordered

theorem Extended.net_sequence {layer layer' : TreeLayer} {slice : List TreeEdit}
    (h : Extended layer layer' slice) {net : TreeEdit} (hnet : net ∈ netEdits slice) :
    layer.sequence < net.sequence ∧ net.sequence ≤ layer.sequence + slice.length := by
  obtain ⟨-, -, -, edit, hedit, -, hsame⟩ := netEdits_states h.chained hnet
  have hmem := List.mem_map_of_mem (f := (·.sequence)) hedit
  rw [h.numbered, List.mem_range'_1] at hmem
  omega

theorem mutateAll_split {layer layer' : TreeLayer} {mutations later : List Mutation}
    (h : layer.mutateAll (mutations ++ later) = (layer', .ok ())) :
    ∃ middle, layer.mutateAll mutations = (middle, .ok ()) ∧
      middle.mutateAll later = (layer', .ok ()) := by
  induction mutations generalizing layer with
  | nil => exact ⟨layer, rfl, h⟩
  | cons mutation mutations ih =>
    rw [List.cons_append, TreeLayer.mutateAll] at h
    rw [TreeLayer.mutateAll]
    split at h
    · exact ih h
    · simp at h

/-- The layer after the first mutations of a run. -/
def TreeLayer.after (mutations : List Mutation) (n : Nat) : TreeLayer :=
  (TreeLayer.empty.mutateAll (mutations.take n)).1

theorem TreeLayer.after_sound (mutations : List Mutation) (n : Nat) :
    (TreeLayer.after mutations n).Sound :=
  TreeLayer.mutateAll_sound TreeLayer.empty_sound _

/-- The edits from one cut of the log to another. -/
def slice (edits : List TreeEdit) (start stop : Nat) : List TreeEdit :=
  (edits.take stop).drop start

theorem after_edits {mutations : List Mutation} {layer : TreeLayer}
    (h : TreeLayer.empty.mutateAll mutations = (layer, .ok ())) {n : Nat}
    (hn : n ≤ mutations.length) : (TreeLayer.after mutations n).edits = layer.edits.take n := by
  rw [← List.take_append_drop n mutations] at h
  obtain ⟨middle, hmiddle, hrest⟩ := mutateAll_split h
  obtain ⟨first, hfirst, hlength⟩ := mutateAll_edits hmiddle
  obtain ⟨rest, hedits, -⟩ := mutateAll_edits hrest
  rw [List.length_take, Nat.min_eq_left hn] at hlength
  unfold TreeLayer.after
  rw [hmiddle, hedits, List.take_left']
  rw [hfirst]
  exact (congrArg List.length (List.nil_append first)).trans hlength

theorem extended_slice {mutations : List Mutation} {layer : TreeLayer}
    (h : TreeLayer.empty.mutateAll mutations = (layer, .ok ())) {start stop : Nat}
    (hcuts : start ≤ stop) (hstop : stop ≤ mutations.length) :
    Extended (TreeLayer.after mutations start) (TreeLayer.after mutations stop)
      (slice layer.edits start stop) := by
  apply extended_of_sound (TreeLayer.after_sound ..) (TreeLayer.after_sound ..)
  rw [after_edits h (hcuts.trans hstop), after_edits h hstop, slice,
    ← Nat.min_eq_left hcuts, ← List.take_take, Nat.min_eq_left hcuts, List.take_append_drop]

theorem length_slice {mutations : List Mutation} {layer : TreeLayer}
    (h : TreeLayer.empty.mutateAll mutations = (layer, .ok ())) {start stop : Nat}
    (hstop : stop ≤ mutations.length) : (slice layer.edits start stop).length = stop - start := by
  obtain ⟨edits, hedits, hlength⟩ := mutateAll_edits h
  have hlog : layer.edits = edits := hedits
  rw [slice, List.length_drop, List.length_take, hlog, hlength, Nat.min_eq_left hstop]

theorem slice_coalesces {mutations : List Mutation} {layer : TreeLayer}
    (h : TreeLayer.empty.mutateAll mutations = (layer, .ok ())) {start stop : Nat}
    (hcuts : start < stop) (hstop : stop ≤ mutations.length) :
    ∃ batch, coalesceTreeEdits (slice layer.edits start stop) = .ok batch ∧
      batch.edits = netEdits (slice layer.edits start stop) ∧
      NetOf (TreeLayer.after mutations start).live (TreeLayer.after mutations stop).live
        batch.edits := by
  apply (extended_slice h hcuts.le hstop).coalesces (TreeLayer.after_sound ..)
  apply List.ne_nil_of_length_pos
  rw [length_slice h hstop]
  omega

theorem slices_ordered {mutations : List Mutation} {layer : TreeLayer}
    (h : TreeLayer.empty.mutateAll mutations = (layer, .ok ())) {start middle stop : Nat}
    (hfirst : start ≤ middle) (hsecond : middle ≤ stop) (hstop : stop ≤ mutations.length) :
    ((netEdits (slice layer.edits start middle) ++
      netEdits (slice layer.edits middle stop)).map (·.sequence)).Pairwise (· < ·) := by
  have hbefore := extended_slice h hfirst (hsecond.trans hstop)
  have hafter := extended_slice h hsecond hstop
  rw [List.map_append, List.pairwise_append]
  refine ⟨netEdits_ordered hbefore.chained hbefore.ordered,
    netEdits_ordered hafter.chained hafter.ordered, ?_⟩
  intro a ha b hb
  obtain ⟨first, hmem, rfl⟩ := List.mem_map.mp ha
  obtain ⟨second, hmem', rfl⟩ := List.mem_map.mp hb
  have hle := (hbefore.net_sequence hmem).2
  have hlt := (hafter.net_sequence hmem').1
  have hcounter : (TreeLayer.after mutations middle).sequence =
      (TreeLayer.after mutations start).sequence +
        (slice layer.edits start middle).length := by
    rw [(TreeLayer.after_sound mutations middle).counter,
      (TreeLayer.after_sound mutations start).counter, hbefore.edits, List.length_append]
  omega

/-- Any slice of the log of a run that is not empty coalesces, to at most one edit of each tree
and none of a tree that ends as it starts, and these edits take the live trees from its start to
its end. What two adjacent slices coalesce to is refused where it is empty, and there both slices
together coalesce to nothing; else it coalesces to what both slices together do. -/
theorem coalesceTreeEdits_slices {mutations : List Mutation} {layer : TreeLayer}
    (h : TreeLayer.empty.mutateAll mutations = (layer, .ok ())) :
    (∀ start stop, start < stop → stop ≤ mutations.length →
      ∃ batch, coalesceTreeEdits (slice layer.edits start stop) = .ok batch ∧
        (batch.edits.map (·.treeId)).Nodup ∧
        (∀ edit ∈ batch.edits, (TreeLayer.after mutations start).live[edit.treeId]? ≠
          (TreeLayer.after mutations stop).live[edit.treeId]?) ∧
        applyEdits (TreeLayer.after mutations start).live batch.edits =
          (TreeLayer.after mutations stop).live) ∧
    ∀ start middle stop, start < middle → middle < stop → stop ≤ mutations.length →
      ∃ first second both,
        coalesceTreeEdits (slice layer.edits start middle) = .ok first ∧
        coalesceTreeEdits (slice layer.edits middle stop) = .ok second ∧
        coalesceTreeEdits (slice layer.edits start stop) = .ok both ∧
        (first.edits ++ second.edits = [] → both.edits = [] ∧
          coalesceTreeEdits (first.edits ++ second.edits) = .error .emptyEdits) ∧
        (first.edits ++ second.edits ≠ [] →
          ∃ again, coalesceTreeEdits (first.edits ++ second.edits) = .ok again ∧
            ∀ triple, triple ∈ again.edits.map TreeEdit.triple ↔
              triple ∈ both.edits.map TreeEdit.triple) := by
  constructor
  · intro start stop hcuts hstop
    obtain ⟨batch, hbatch, -, hnet⟩ := slice_coalesces h hcuts hstop
    refine ⟨batch, hbatch, hnet.nodup, fun edit hedit => ?_, hnet.applyEdits⟩
    obtain ⟨hold, hnew, hne⟩ := hnet.edit hedit
    rwa [← hold, ← hnew]
  · intro start middle stop hfirst hsecond hstop
    obtain ⟨first, hbatch, hedits, hnet⟩ :=
      slice_coalesces h hfirst (hsecond.le.trans hstop)
    obtain ⟨second, hbatch', hedits', hnet'⟩ := slice_coalesces h hsecond hstop
    obtain ⟨both, hboth, -, hwhole⟩ := slice_coalesces h (hfirst.trans hsecond) hstop
    refine ⟨first, second, both, hbatch, hbatch', hboth, fun hnil => ?_, fun hne => ?_⟩
    · obtain ⟨hnil₁, hnil₂⟩ := List.append_eq_nil_iff.mp hnil
      refine ⟨?_, by rw [hnil]; rfl⟩
      rw [hwhole.eq_nil_iff, (hnet.eq_nil_iff).mp hnil₁, (hnet'.eq_nil_iff).mp hnil₂]
    · have hchained := hnet.append_chained hnet'
      have hordered := slices_ordered h hfirst.le hsecond.le hstop
      rw [← hedits, ← hedits'] at hordered
      obtain ⟨again, hagain, hagain'⟩ := coalesceTreeEdits_eq hne hchained hordered
      have hfolded := netOf_netEdits (statesOf_sound (TreeLayer.after_sound ..)) hchained hordered
      rw [applyEdits_append, hnet.applyEdits, hnet'.applyEdits, ← hagain'] at hfolded
      exact ⟨again, hagain, hfolded.triples_eq hwhole⟩

theorem mutateAll_isOk (mutations : List Mutation)
    (h : (TreeLayer.empty.mutateAll mutations).2.isOk = true) :
    TreeLayer.empty.mutateAll mutations = ((TreeLayer.empty.mutateAll mutations).1, .ok ()) := by
  refine Prod.ext rfl ?_
  cases hresult : (TreeLayer.empty.mutateAll mutations).2 with
  | ok u => rfl
  | error error => simp [hresult, Except.isOk, Except.toBool] at h

theorem coalesces_nil (edits : List TreeEdit)
    (h : ((coalesceTreeEdits edits).toOption.any fun batch => batch.edits = []) = true) :
    ∃ batch, coalesceTreeEdits edits = .ok batch ∧ batch.edits = [] := by
  obtain ⟨batch, hbatch, hnil⟩ := (Option.any_eq_true _ _).mp h
  exact ⟨batch, except_toOption_some.mp hbatch, of_decide_eq_true hnil⟩

/-- An oak added and moved, an elm added, and the oak deleted. -/
def planting : List Mutation :=
  [.addTree ⟨"oak", 1, 1, 10, 3, 1 / 4, 1 / 10⟩, .moveTree "oak" 4 4,
   .addTree ⟨"elm", 2, 2, 10, 3, 1 / 4, 1 / 10⟩, .deleteTree "oak"]

theorem planting_slices : ∃ layer first second both,
    TreeLayer.empty.mutateAll planting = (layer, .ok ()) ∧
      coalesceTreeEdits (slice layer.edits 0 2) = .ok first ∧
      coalesceTreeEdits (slice layer.edits 2 4) = .ok second ∧
      coalesceTreeEdits (slice layer.edits 0 4) = .ok both ∧
      (first.edits ++ second.edits ≠ [] →
        ∃ again, coalesceTreeEdits (first.edits ++ second.edits) = .ok again ∧
          ∀ triple, triple ∈ again.edits.map TreeEdit.triple ↔
            triple ∈ both.edits.map TreeEdit.triple) := by
  have hrun := mutateAll_isOk planting (by decide +kernel)
  obtain ⟨first, second, both, hfirst, hsecond, hboth, -, hagain⟩ :=
    (coalesceTreeEdits_slices hrun).2 0 2 4 (by decide) (by decide) (by decide)
  exact ⟨_, first, second, both, hrun, hfirst, hsecond, hboth, hagain⟩

/-- Two trees, each added and deleted again. -/
def cancelling : List Mutation :=
  [.addTree ⟨"oak", 1, 1, 10, 3, 1 / 4, 1 / 10⟩, .deleteTree "oak",
   .addTree ⟨"elm", 2, 2, 10, 3, 1 / 4, 1 / 10⟩, .deleteTree "elm"]

/-- The two halves both coalesce to nothing, and that is then refused. -/
theorem cancelling_refused : ∃ layer first second,
    TreeLayer.empty.mutateAll cancelling = (layer, .ok ()) ∧
      coalesceTreeEdits (slice layer.edits 0 2) = .ok first ∧
      coalesceTreeEdits (slice layer.edits 2 4) = .ok second ∧
      coalesceTreeEdits (first.edits ++ second.edits) = .error .emptyEdits := by
  have hrun := mutateAll_isOk cancelling (by decide +kernel)
  obtain ⟨first, hfirst, hnil⟩ := coalesces_nil
    (slice (TreeLayer.empty.mutateAll cancelling).1.edits 0 2) (by decide +kernel)
  obtain ⟨second, hsecond, hnil'⟩ := coalesces_nil
    (slice (TreeLayer.empty.mutateAll cancelling).1.edits 2 4) (by decide +kernel)
  refine ⟨_, first, second, hrun, hfirst, hsecond, ?_⟩
  rw [hnil, hnil']
  rfl

end Solweig.Executor
