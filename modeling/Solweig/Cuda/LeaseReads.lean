import Solweig.Cuda.Leases

/-!
# What a lease reads

A lease that no later download has overtaken reads the outputs of its own run. Which downloads
overtake one, and when a download that is refused half way does.
-/

namespace Solweig.Cuda

open Solweig.Lib

variable {V : Type}

/-! ## The stream, drained -/

/-- The device once the stream is empty. -/
def LeaseRunner.drained (runner : LeaseRunner V) : Device V :=
  runner.stream.foldl Work.perform runner.device

section Drain

variable {runner : LeaseRunner V} {name : String}

@[simp]
theorem drained_progress (count : Nat) : (runner.progress count).drained = runner.drained := by
  unfold LeaseRunner.drained LeaseRunner.progress
  rw [← List.foldl_append, List.take_append_drop]

theorem drained_launch (work : List (Work V)) :
    (runner.launch work).drained = work.foldl Work.perform runner.drained := by
  unfold LeaseRunner.drained LeaseRunner.launch
  rw [List.foldl_append]

theorem drained_acquire (start stop : Nat) (slot : Slot) :
    ((runner.setSlot name slot).launch [.copy name start stop, .record name]).drained =
      (Work.copy name start stop).perform runner.drained := by
  rw [drained_launch]
  rfl

end Drain

/-- An event follows each copy. -/
def Followed (stream : List (Work V)) : Prop :=
  ∀ before after name start stop, stream = before ++ .copy name start stop :: after →
    pendingOn after name = true

section Stream

variable {stream : List (Work V)} {name : String}

theorem pendingOn_append (stream rest : List (Work V)) (name : String) :
    pendingOn (stream ++ rest) name = (pendingOn stream name || pendingOn rest name) :=
  List.any_append

theorem pendingOn_drop {count : Nat} (h : pendingOn stream name = false) :
    pendingOn (stream.drop count) name = false := by
  rw [pendingOn, List.any_eq_false] at h ⊢
  exact fun work hwork => h work (List.mem_of_mem_drop hwork)

theorem Followed.drop (h : Followed stream) (count : Nat) : Followed (stream.drop count) := by
  intro before after name start stop hsplit
  apply h (stream.take count ++ before) after name start stop
  rw [List.append_assoc, ← hsplit, List.take_append_drop]

theorem Followed.append {rest : List (Work V)} (h : Followed stream) (hrest : Followed rest) :
    Followed (stream ++ rest) := by
  intro before after name start stop hsplit
  rcases List.append_eq_append_iff.mp hsplit with ⟨middle, rfl, hafter⟩ | ⟨middle, hstream, hafter⟩
  · exact hrest middle after name start stop hafter
  · cases middle with
    | nil => exact hrest [] after name start stop (by simpa using hafter.symm)
    | cons work middle =>
      rw [List.cons_append] at hafter
      obtain ⟨rfl, rfl⟩ := List.cons.inj hafter
      rw [pendingOn_append, h before middle name start stop hstream, Bool.true_or]

theorem followed_kernel (outputs : String → Plane V) : Followed [Work.kernel outputs] := by
  intro before after name start stop hsplit
  have hmem : Work.copy name start stop ∈ [Work.kernel outputs] := by rw [hsplit]; simp
  simp at hmem

theorem followed_download (name : String) (start stop : Nat) :
    Followed [Work.copy (V := V) name start stop, .record name] := by
  intro before after other start' stop' hsplit
  cases before with
  | nil =>
    obtain ⟨hcopy, rfl⟩ := List.cons.inj hsplit
    obtain ⟨rfl, -, -⟩ := Work.copy.inj hcopy
    simp [pendingOn, Work.records]
  | cons work before =>
    have hmem : Work.copy other start' stop' ∈ [Work.record (V := V) name] := by
      rw [(List.cons.inj hsplit).2]
      simp
    simp at hmem

theorem pinned_settled (h : Followed stream) (hpending : pendingOn stream name = false)
    (device : Device V) : (stream.foldl Work.perform device).pinned name = device.pinned name := by
  induction stream generalizing device with
  | nil => rfl
  | cons work stream ih =>
    have hrest : pendingOn stream name = false := by
      rw [pendingOn, List.any_cons, Bool.or_eq_false_iff] at hpending
      exact hpending.2
    rw [List.foldl_cons, ih (by simpa using h.drop 1) hrest]
    cases work with
    | kernel outputs => rfl
    | record other => rfl
    | copy other start stop =>
      have hother : name ≠ other := by
        rintro rfl
        rw [h [] stream name start stop rfl] at hrest
        cases hrest
      exact Function.update_of_ne hother _ _

end Stream

/-! ## One download -/

def SlotRows (runner : LeaseRunner V) : Prop :=
  ∀ (name : String) (slot : Slot), runner.slots[name]? = some slot → slot.rows = runner.rows

/-- What every download keeps, whether it is refused or not. -/
structure Downloads (s t : LeaseRunner V) : Prop where
  rows : t.rows = s.rows
  leases : t.leases = s.leases
  followed : Followed s.stream → Followed t.stream
  outs : t.drained.outs = s.drained.outs
  slots : ∀ (name : String) (slot : Slot), s.slots[name]? = some slot → ∃ slot', t.slots[name]? = some slot' ∧
    slot'.rows = slot.rows ∧ slot.generation ≤ slot'.generation ∧
      (slot'.generation = slot.generation → t.drained.pinned name = s.drained.pinned name)
  slotRows : SlotRows s → SlotRows t

namespace Downloads

variable {s t u : LeaseRunner V} {name : String}

theorem refl (s : LeaseRunner V) : Downloads s s :=
  ⟨rfl, rfl, id, rfl, fun _ slot h => ⟨slot, h, rfl, le_refl _, fun _ => rfl⟩, id⟩

theorem trans (h : Downloads s t) (h' : Downloads t u) : Downloads s u where
  rows := h'.rows.trans h.rows
  leases := h'.leases.trans h.leases
  followed := h'.followed ∘ h.followed
  outs := h'.outs.trans h.outs
  slots name slot hslot := by
    obtain ⟨slot', hslot', hrows', hle', hpinned'⟩ := h.slots name slot hslot
    obtain ⟨slot'', hslot'', hrows'', hle'', hpinned''⟩ := h'.slots name slot' hslot'
    refine ⟨slot'', hslot'', hrows''.trans hrows', hle'.trans hle'', fun heq => ?_⟩
    rw [hpinned'' (by omega), hpinned' (by omega)]
  slotRows := h'.slotRows ∘ h.slotRows

theorem progress (s : LeaseRunner V) (count : Nat) : Downloads s (s.progress count) where
  rows := rfl
  leases := rfl
  followed h := h.drop count
  outs := by rw [drained_progress]
  slots _ slot h := ⟨slot, h, rfl, le_refl _, fun _ => by rw [drained_progress]⟩
  slotRows := id

theorem slot_eq {slot : Slot} (h : s.slots[name]? = some slot) : s.slot name = slot :=
  Dict.getD_of_some h _

theorem slot_rows (h : SlotRows s) (name : String) : (s.slot name).rows = s.rows := by
  unfold LeaseRunner.slot
  rw [Std.ExtTreeMap.getD_eq_getD_getElem?]
  cases hslot : s.slots[name]? with
  | none => rfl
  | some slot => exact h name slot hslot

theorem setSlot_rows (h : SlotRows s) {new : Slot} (hnew : new.rows = s.rows) :
    SlotRows (s.setSlot name new) := by
  intro other slot hslot
  rcases Dict.of_getElem?_insert hslot with ⟨-, rfl⟩ | hold
  · exact hnew
  · exact h other slot hold

theorem refused (s : LeaseRunner V) (name : String) : Downloads s (s.setSlot name (s.slot name)) where
  rows := rfl
  leases := rfl
  followed := id
  outs := rfl
  slots other slot h := by
    refine ⟨slot, ?_, rfl, le_refl _, fun _ => rfl⟩
    by_cases hname : name = other
    · subst hname
      rw [slot_eq h]
      exact Std.ExtTreeMap.getElem?_insert_self
    · exact (Dict.getElem?_insert_of_ne _ _ hname).trans h
  slotRows h := setSlot_rows h (slot_rows h name)

theorem bumped (s : LeaseRunner V) (name : String) :
    Downloads s (s.setSlot name (s.slot name).bumped) where
  rows := rfl
  leases := rfl
  followed := id
  outs := rfl
  slots other slot h := by
    by_cases hname : name = other
    · subst hname
      rw [slot_eq h]
      refine ⟨slot.bumped, Std.ExtTreeMap.getElem?_insert_self, rfl, Nat.le_succ _, fun heq => ?_⟩
      exact absurd heq (Nat.succ_ne_self _)
    · exact ⟨slot, (Dict.getElem?_insert_of_ne _ _ hname).trans h, rfl, le_refl _, fun _ => rfl⟩
  slotRows h := setSlot_rows h (slot_rows h name)

theorem acquired (s : LeaseRunner V) (name : String) (start stop : Nat) :
    Downloads s ((s.setSlot name (s.slot name).bumped).launch
      [.copy name start stop, .record name]) where
  rows := rfl
  leases := rfl
  followed h := h.append (followed_download name start stop)
  outs := by
    rw [drained_acquire]
    rfl
  slots other slot h := by
    obtain ⟨slot', hslot', hrows, hle, hpinned⟩ := (bumped s name).slots other slot h
    refine ⟨slot', hslot', hrows, hle, fun heq => ?_⟩
    have hother : other ≠ name := by
      rintro rfl
      have hbumped : slot' = slot.bumped := by
        rw [slot_eq h] at hslot'
        exact (Option.some.inj (Std.ExtTreeMap.getElem?_insert_self.symm.trans hslot')).symm
      rw [hbumped] at heq
      exact Nat.succ_ne_self _ heq
    rw [drained_acquire]
    exact Function.update_of_ne hother _ _
  slotRows h := setSlot_rows h (slot_rows h name)

end Downloads

/-! ## A download of many names -/

/-- What the slots under some generations hold once the stream is drained. -/
def Acquired (runner : LeaseRunner V) (outputs : String → Plane V) (start stop : Nat)
    (generations : Dict String Nat) : Prop :=
  ∀ (name : String) (generation : Nat), generations[name]? = some generation →
    ∃ slot, runner.slots[name]? = some slot ∧ slot.generation = generation ∧
      ∀ row, start ≤ row → row < stop → runner.drained.pinned name row = outputs name row

section Names

variable {runner : LeaseRunner V} {start stop : Nat} {generations : Dict String Nat}

theorem downloadNames_downloads (runner : LeaseRunner V) (start stop : Nat)
    (generations : Dict String Nat) (names : Download) :
    Downloads runner (downloadNames start stop runner generations names).1 := by
  induction names generalizing runner generations with
  | nil => exact Downloads.refl runner
  | cons request rest ih =>
    obtain ⟨name, count⟩ := request
    have hprogress := Downloads.progress runner count
    rw [downloadNames]
    dsimp only
    split
    · exact hprogress.trans (Downloads.refused _ name)
    · split
      · exact hprogress.trans (Downloads.bumped _ name)
      · exact (hprogress.trans (Downloads.acquired _ name start stop)).trans (ih _ _)

theorem Acquired.acquire {outputs : String → Plane V} {s : LeaseRunner V}
    (h : Acquired s outputs start stop generations) (houts : s.drained.outs = outputs)
    (name : String) :
    Acquired ((s.setSlot name (s.slot name).bumped).launch [.copy name start stop, .record name])
      outputs start stop (generations.insert name (s.slot name).bumped.generation) := by
  intro other generation hgeneration
  rw [drained_acquire]
  by_cases hname : name = other
  · subst hname
    rw [Std.ExtTreeMap.getElem?_insert_self] at hgeneration
    refine ⟨(s.slot name).bumped, Std.ExtTreeMap.getElem?_insert_self,
      Option.some.inj hgeneration, fun row hstart hstop => ?_⟩
    simp [Work.perform, hstart, hstop, houts]
  · rw [Dict.getElem?_insert_of_ne _ _ hname] at hgeneration
    obtain ⟨slot, hslot, hgen, hrows⟩ := h other generation hgeneration
    refine ⟨slot, (Dict.getElem?_insert_of_ne _ _ hname).trans hslot, hgen, ?_⟩
    intro row hstart hstop
    rw [← hrows row hstart hstop]
    exact congrFun (Function.update_of_ne (Ne.symm hname) _ _) row

theorem downloadNames_ok {outputs : String → Plane V} {names : Download}
    {final : Dict String Nat} (h : Acquired runner outputs start stop generations)
    (houts : runner.drained.outs = outputs)
    (hok : (downloadNames start stop runner generations names).2 = .ok final) :
    Acquired (downloadNames start stop runner generations names).1 outputs start stop final ∧
      (∀ name, (∃ count, (name, count) ∈ names) ∨ name ∈ generations → name ∈ final) := by
  induction names generalizing runner generations with
  | nil =>
    obtain rfl := Except.ok.inj hok
    refine ⟨h, fun name hname => ?_⟩
    simpa using hname
  | cons request rest ih =>
    obtain ⟨name, count⟩ := request
    rw [downloadNames] at hok ⊢
    dsimp only at hok ⊢
    split at hok
    · simp at hok
    · next hpending =>
      split at hok
      · simp at hok
      · next hknown =>
        rw [if_neg hpending, if_neg hknown]
        have hprogress : Acquired (runner.progress count) outputs start stop generations := by
          intro other generation hgeneration
          rw [drained_progress]
          exact h other generation hgeneration
        have hnext : (runner.progress count).drained.outs = outputs := by
          rw [drained_progress, houts]
        obtain ⟨hfinal, hmem⟩ := ih (hprogress.acquire hnext name) (by
          rw [drained_acquire]
          exact hnext) hok
        refine ⟨hfinal, fun other hother => hmem other ?_⟩
        rcases hother with ⟨count', hother⟩ | hother
        · rcases List.mem_cons.mp hother with heq | hother
          · obtain ⟨rfl, -⟩ := Prod.mk.inj heq
            exact Or.inr (by simp)
          · exact Or.inl ⟨count', hother⟩
        · exact Or.inr (by simp [hother])

end Names

/-! ## What the leases keep -/

/-- The slot of a lease under a name: as its run left it, or downloaded again since. -/
def Settled (runner : LeaseRunner V) (lease : OutputLease V) (name : String) : Prop :=
  ∃ slot generation, runner.slots[name]? = some slot ∧ lease.generations[name]? = some generation ∧
    generation ≤ slot.generation ∧ (generation = slot.generation → ∀ row,
      windowStart lease.window ≤ row → row < windowStop runner.rows lease.window →
        runner.drained.pinned name row = lease.outputs name row)

structure LeaseInvariant (runner : LeaseRunner V) : Prop where
  followed : Followed runner.stream
  slotRows : SlotRows runner
  settled : ∀ lease ∈ runner.leases, ∀ name ∈ lease.names, Settled runner lease name

section Leases

variable {s t : LeaseRunner V} {lease : OutputLease V} {name : String}

theorem Settled.downloads (h : Settled s lease name) (hst : Downloads s t) :
    Settled t lease name := by
  obtain ⟨slot, generation, hslot, hgeneration, hle, hrows⟩ := h
  obtain ⟨slot', hslot', -, hle', hpinned⟩ := hst.slots name slot hslot
  refine ⟨slot', generation, hslot', hgeneration, hle.trans hle', fun heq row hstart hstop => ?_⟩
  rw [hst.rows] at hstop
  rw [hpinned (by omega)]
  exact hrows (by omega) row hstart hstop

theorem LeaseInvariant.downloads (h : LeaseInvariant s) (hst : Downloads s t) :
    LeaseInvariant t where
  followed := hst.followed h.followed
  slotRows := hst.slotRows h.slotRows
  settled lease hlease name hname := by
    rw [hst.leases] at hlease
    exact (h.settled lease hlease name hname).downloads hst

theorem LeaseInvariant.kernel (h : LeaseInvariant s) (outputs : String → Plane V) :
    LeaseInvariant (s.launch [.kernel outputs]) where
  followed := h.followed.append (followed_kernel outputs)
  slotRows := h.slotRows
  settled lease hlease name hname := by
    obtain ⟨slot, generation, hslot, hgeneration, hle, hrows⟩ := h.settled lease hlease name hname
    refine ⟨slot, generation, hslot, hgeneration, hle, fun heq row hstart hstop => ?_⟩
    rw [drained_launch]
    exact hrows heq row hstart hstop

theorem download_downloads (names : Download) (window : Option (Nat × Nat)) :
    Downloads s (download s names window).1 := by
  unfold download
  dsimp only
  split
  · exact Downloads.refl s
  · exact downloadNames_downloads _ _ _ _ names

theorem runDay_invariant (h : LeaseInvariant s) (outputs : String → Plane V) (names : Download)
    (window : Option (Nat × Nat)) : LeaseInvariant (runDay s outputs names window).1 := by
  have hkernel := h.kernel outputs
  have hdownloads := download_downloads (s := s.launch [.kernel outputs]) names window
  unfold runDay
  split
  · next t e hresult =>
    rw [hresult] at hdownloads
    exact hkernel.downloads hdownloads
  · next t generations hresult =>
    rw [hresult] at hdownloads
    have hinvariant := hkernel.downloads hdownloads
    refine ⟨hinvariant.followed, hinvariant.slotRows, fun lease hlease name hname => ?_⟩
    rcases List.mem_append.mp hlease with hold | hnew
    · exact hinvariant.settled lease hold name hname
    · obtain rfl := List.mem_singleton.mp hnew
      unfold download at hresult
      dsimp only at hresult
      split at hresult
      · simp at hresult
      · obtain ⟨hrunner, hok⟩ := Prod.mk.inj hresult
        have hempty : Acquired (s.launch [.kernel outputs]) outputs (windowStart window)
            (windowStop (s.launch [.kernel outputs]).rows window) ∅ := fun name generation h => by simp at h
        obtain ⟨hacquired, hmem⟩ := downloadNames_ok hempty (by rw [drained_launch]; rfl) hok
        obtain ⟨⟨name, count⟩, hrequest, rfl⟩ := List.mem_map.mp hname
        have hgeneration := hmem name (Or.inl ⟨count, hrequest⟩)
        obtain ⟨generation, hgeneration⟩ := Std.ExtTreeMap.mem_iff_isSome_getElem?.mp hgeneration |>
          Option.isSome_iff_exists.mp
        obtain ⟨slot, hslot, heq, hrows⟩ := hacquired name generation hgeneration
        rw [hrunner] at hslot hrows
        refine ⟨slot, generation, hslot, hgeneration, heq.ge, fun _ row hstart hstop => ?_⟩
        exact hrows row hstart (hdownloads.rows ▸ hstop)

end Leases

/-! ## Every run -/

section Runs

variable {s t : LeaseRunner V} {lease : OutputLease V}

theorem LeaseInvariant.updated (h : LeaseInvariant s) (i : Nat)
    {f : OutputLease V → OutputLease V} (hf : ∀ lease, (f lease).names = lease.names ∧
      (f lease).window = lease.window ∧ (f lease).generations = lease.generations ∧
      (f lease).outputs = lease.outputs) : LeaseInvariant (s.updateLease i f) where
  followed := h.followed
  slotRows := h.slotRows
  settled lease hlease name hname := by
    have hmem : lease ∈ s.leases ∨ ∃ old ∈ s.leases, f old = lease := by
      unfold LeaseRunner.updateLease at hlease
      rw [List.mem_iff_getElem?] at hlease
      obtain ⟨j, hj⟩ := hlease
      rw [List.getElem?_modify] at hj
      obtain ⟨old, hold, rfl⟩ := Option.map_eq_some_iff.mp hj
      split
      · exact Or.inr ⟨old, List.mem_of_getElem? hold, rfl⟩
      · exact Or.inl (List.mem_of_getElem? hold)
    rcases hmem with hold | ⟨old, hold, rfl⟩
    · exact h.settled lease hold name hname
    · obtain ⟨hnames, hwindow, hgenerations, houtputs⟩ := hf old
      rw [hnames] at hname
      obtain ⟨slot, generation, hslot, hgeneration, hle, hrows⟩ := h.settled old hold name hname
      refine ⟨slot, generation, hslot, by rw [hgenerations, hgeneration], hle, ?_⟩
      rw [hwindow, houtputs]
      exact hrows

theorem leaseStep_invariant (h : LeaseInvariant s) {event : LeaseEvent V}
    (hstep : leaseStep s event = some t) : LeaseInvariant t := by
  cases event with
  | progress count =>
    obtain rfl := Option.some.inj hstep
    exact h.downloads (Downloads.progress s count)
  | runDay outputs names window =>
    obtain rfl := Option.some.inj hstep
    exact runDay_invariant h outputs names window
  | publish i =>
    obtain rfl := Option.some.inj hstep
    unfold publishLease
    split
    · exact h
    · split
      · exact h.updated i fun _ => ⟨rfl, rfl, rfl, rfl⟩
      · exact h
  | release i =>
    obtain rfl := Option.some.inj hstep
    exact h.updated i fun _ => ⟨rfl, rfl, rfl, rfl⟩

theorem freshLeaseRunner_invariant (rows : Nat) (device : Device V) :
    LeaseInvariant (freshLeaseRunner rows device) where
  followed _ _ _ _ _ h := by simp [freshLeaseRunner] at h
  slotRows _ _ h := by simp [freshLeaseRunner] at h
  settled _ h := by simp [freshLeaseRunner] at h

theorem run_leaseInvariant {rows : Nat} {device : Device V} {events : List (LeaseEvent V)}
    (hrun : run leaseStep (freshLeaseRunner rows device) events = some s) : LeaseInvariant s :=
  run_invariant (C := fun _ _ => True) (fun _ _ _ h _ => leaseStep_invariant h)
    (freshLeaseRunner_invariant rows device) (eachStep_of_forall (fun _ _ => trivial) _ _) hrun

/-- A lease that was not read or released, with no later download of its names. -/
def OutputLease.Valid (lease : OutputLease V) (runner : LeaseRunner V) : Prop :=
  lease.released = false ∧ lease.published = false ∧
    ∀ name ∈ lease.names, lease.staleAt runner.slots name = false

theorem refusal_none :
    lease.refusal s = none ↔ lease.Valid s ∧
      ∀ name ∈ lease.names, (s.slots[name]?).isSome = true ∧ pendingOn s.stream name = false := by
  unfold OutputLease.refusal OutputLease.Valid
  split
  · simp_all
  · split
    · simp_all
    · cases hstale : lease.names.find? (lease.staleAt s.slots) with
      | some name =>
        have hbad := List.find?_some hstale
        have hmem := List.mem_of_find?_eq_some hstale
        simp only [reduceCtorEq, false_iff]
        rintro ⟨⟨-, -, hall⟩, -⟩
        rw [hall name hmem] at hbad
        cases hbad
      | none =>
        rw [List.find?_eq_none] at hstale
        cases hpending : lease.names.find? fun name =>
            (s.slots[name]?).isNone || pendingOn s.stream name with
        | some name =>
          have hbad := List.find?_some hpending
          have hmem := List.mem_of_find?_eq_some hpending
          constructor
          · intro h
            dsimp only at h
            split at h <;> cases h
          · rintro ⟨-, hall⟩
            obtain ⟨hsome, hfired⟩ := hall name hmem
            simp [hfired, Option.isNone_iff_eq_none] at hbad
            simp [hbad] at hsome
        | none =>
          rw [List.find?_eq_none] at hpending
          simp_all

theorem LeaseInvariant.current (h : LeaseInvariant s) (hlease : lease ∈ s.leases)
    (hvalid : lease.Valid s) {name : String} (hname : name ∈ lease.names) :
    ∃ slot, s.slots[name]? = some slot ∧ lease.generations[name]? = some slot.generation ∧
      ∀ row, windowStart lease.window ≤ row → row < windowStop s.rows lease.window →
        s.drained.pinned name row = lease.outputs name row := by
  obtain ⟨slot, generation, hslot, hgeneration, -, hrows⟩ := h.settled lease hlease name hname
  have hfresh := hvalid.2.2 name hname
  unfold OutputLease.staleAt at hfresh
  simp only [hslot, hgeneration, Option.any_some, ne_eq, Option.some.injEq, decide_eq_false_iff_not,
    not_not] at hfresh
  exact ⟨slot, hslot, hfresh ▸ hgeneration, hrows hfresh.symm⟩

/-- The output bits of the run of a lease, in the rows of its window. -/
def OutputLease.bits (lease : OutputLease V) (rows : Nat) : Dict String (List V) :=
  Dict.ofEntries (lease.names.map fun name =>
    (name, lease.rowsOf ⟨rows, 0⟩ (lease.outputs name)))

theorem LeaseInvariant.read_bits (h : LeaseInvariant s) (hlease : lease ∈ s.leases)
    {out : Dict String (List V)} (hread : lease.read s = .ok out) : out = lease.bits s.rows := by
  unfold OutputLease.read at hread
  cases hrefusal : lease.refusal s with
  | some e =>
    rw [hrefusal] at hread
    cases hread
  | none =>
    rw [hrefusal] at hread
    obtain rfl := Except.ok.inj hread
    obtain ⟨hvalid, hready⟩ := refusal_none.mp hrefusal
    unfold OutputLease.bits
    congr 1
    refine List.map_congr_left fun name hname => ?_
    obtain ⟨slot, hslot, -, hrows⟩ := h.current hlease hvalid hname
    have hstop : slot.rows = s.rows := h.slotRows name slot hslot
    rw [Downloads.slot_eq hslot]
    unfold OutputLease.rowsOf
    rw [hstop]
    congr 1
    refine List.map_congr_left fun row hrow => ?_
    rw [List.mem_range'_1] at hrow
    rw [← hrows row hrow.1 (by omega)]
    -- the events of the lease have fired, so nothing is left to land in its slots
    exact (congrFun (pinned_settled h.followed (hready name hname).2 s.device) row).symm

theorem LeaseInvariant.readable_iff (h : LeaseInvariant s) (hlease : lease ∈ s.leases) :
    (∃ out, lease.read s = .ok out) ↔
      lease.Valid s ∧ ∀ name ∈ lease.names, pendingOn s.stream name = false := by
  have hread : (∃ out, lease.read s = .ok out) ↔ lease.refusal s = none := by
    unfold OutputLease.read
    cases lease.refusal s <;> simp
  rw [hread, refusal_none]
  refine and_congr_right fun hvalid => ⟨fun hall name hname => (hall name hname).2, ?_⟩
  intro hall name hname
  obtain ⟨slot, hslot, -⟩ := h.current hlease hvalid hname
  exact ⟨by rw [hslot]; rfl, hall name hname⟩

end Runs

/-! ## A download that is refused half way -/

/-- The names that a download asks for before the first one whose event is pending. -/
def refusedAfter (start stop : Nat) (stream : List (Work V)) : Download → Option (List String)
  | [] => none
  | (name, count) :: rest =>
    let left := stream.drop count
    if pendingOn left name then some []
    else if name ∉ radDayOutputs then none
    else
      (refusedAfter start stop (left ++ [.copy name start stop, .record name]) rest).map (name :: ·)

section Refused

variable {start stop : Nat} {s : LeaseRunner V} {generations : Dict String Nat}

theorem downloadNames_refused (names : Download) :
    (∃ name, (downloadNames start stop s generations names).2 = .error (.bufferPending name)) ↔
      (refusedAfter start stop s.stream names).isSome = true := by
  induction names generalizing s generations with
  | nil => simp [downloadNames, refusedAfter]
  | cons request rest ih =>
    obtain ⟨name, count⟩ := request
    rw [downloadNames, refusedAfter]
    dsimp only
    by_cases hpending : pendingOn (s.progress count).stream name = true
    · rw [if_pos hpending, if_pos (show pendingOn (s.stream.drop count) name = true from hpending)]
      simp
    · rw [if_neg hpending, if_neg (show ¬ pendingOn (s.stream.drop count) name = true from hpending)]
      split
      · simp
      · rw [ih, Option.isSome_map]
        rfl

theorem getElem?_setSlot_self {name other : String} {slot : Slot} (h : s.slots[name]? = some slot) :
    (s.setSlot other (s.slot other)).slots[name]? = some slot := by
  by_cases hname : other = name
  · subst hname
    rw [Downloads.slot_eq h]
    exact Std.ExtTreeMap.getElem?_insert_self
  · exact (Dict.getElem?_insert_of_ne _ _ hname).trans h

theorem pendingOn_download {stream : List (Work V)} {name other : String} (hname : other ≠ name)
    (h : pendingOn stream name = false) :
    pendingOn (stream ++ [.copy other start stop, .record other]) name = false := by
  rw [pendingOn_append, h]
  simp [pendingOn, Work.records, hname]

theorem refused_generations (generations : Dict String Nat) {names : Download}
    {before : List String}
    (h : refusedAfter start stop s.stream names = some before) {name : String} {slot : Slot}
    (hslot : s.slots[name]? = some slot) :
    ∃ slot', (downloadNames start stop s generations names).1.slots[name]? = some slot' ∧
      (slot'.generation = slot.generation ↔ name ∉ before) ∧
      (name ∉ before → pendingOn s.stream name = false →
        pendingOn (downloadNames start stop s generations names).1.stream name = false) := by
  induction names generalizing s generations before slot with
  | nil => simp [refusedAfter] at h
  | cons request rest ih =>
    obtain ⟨other, count⟩ := request
    rw [refusedAfter] at h
    rw [downloadNames]
    dsimp only at h ⊢
    split at h
    · next hpending =>
      obtain rfl := Option.some.inj h
      rw [if_pos (show pendingOn (s.progress count).stream other = true from hpending)]
      refine ⟨slot, getElem?_setSlot_self (s := s.progress count) hslot, by simp, fun _ hfired => ?_⟩
      exact pendingOn_drop hfired
    · next hpending =>
      split at h
      · simp at h
      · next hknown =>
        obtain ⟨before, hrest, rfl⟩ := Option.map_eq_some_iff.mp h
        rw [if_neg (show ¬ pendingOn (s.progress count).stream other = true from hpending),
          if_neg hknown]
        by_cases hname : other = name
        · subst hname
          -- its generation only grows from here on
          obtain ⟨slot', hslot', -, hle, -⟩ := (Downloads.bumped (s.progress count) other).slots
            other slot hslot
          have hbumped : slot' = slot.bumped := by
            rw [Downloads.slot_eq (s := s.progress count) hslot] at hslot'
            exact (Option.some.inj (Std.ExtTreeMap.getElem?_insert_self.symm.trans hslot')).symm
          subst hbumped
          obtain ⟨final, hfinal, -, hgrown, -⟩ := (downloadNames_downloads
            (((s.progress count).setSlot other ((s.progress count).slot other).bumped).launch
              [.copy other start stop, .record other]) start stop
            (generations.insert other ((s.progress count).slot other).bumped.generation) rest).slots
              other slot.bumped hslot'
          refine ⟨final, hfinal, ?_, fun hnot => absurd List.mem_cons_self hnot⟩
          have hlt : slot.generation < final.generation := hgrown
          simp only [List.mem_cons, true_or, not_true_eq_false, iff_false]
          omega
        · obtain ⟨slot', hslot', hiff, hfired⟩ := ih (s := ((s.progress count).setSlot other
            ((s.progress count).slot other).bumped).launch [.copy other start stop, .record other])
              _ hrest ((Dict.getElem?_insert_of_ne _ _ hname).trans hslot)
          refine ⟨slot', hslot', by simp [hiff, Ne.symm hname], fun hnot hold => ?_⟩
          apply hfired (fun hmem => hnot (List.mem_cons_of_mem other hmem))
          exact pendingOn_download hname (pendingOn_drop hold)

end Refused

end Solweig.Cuda
