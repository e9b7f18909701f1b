import Solweig.Cuda.LeaseReads

/-!
# Atomic leases

Every read that succeeds returns the bits of the run of its lease. A download that meets a pending
event spoils the leases of the names that it asked for before.
-/

namespace Solweig.Cuda

open Solweig.Lib

variable {V : Type}

/-- A run that a pending event refuses leaves each valid lease valid, with what it reads. -/
def KeepsLeases (s : LeaseRunner V) : LeaseEvent V → Prop
  | .runDay outputs names window =>
    (∃ name, (runDay s outputs names window).2 = .error (.bufferPending name)) →
      ∀ (i : Nat) (lease : OutputLease V), s.leases[i]? = some lease → lease.Valid s →
        (runDay s outputs names window).1.leases[i]? = some lease ∧
          lease.Valid (runDay s outputs names window).1 ∧
          ∀ out, lease.read s = .ok out → lease.read (runDay s outputs names window).1 = .ok out
  | _ => True

/-- The names that a run has downloaded when a pending event refuses it. -/
def downloadedBefore (s : LeaseRunner V) (outputs : String → Plane V) (names : Download)
    (window : Option (Nat × Nat)) : Option (List String) :=
  if windowStart window < windowStop s.rows window ∧ windowStop s.rows window ≤ s.rows then
    refusedAfter (windowStart window) (windowStop s.rows window) (s.stream ++ [.kernel outputs]) names
  else none

/-- No valid lease has a name that the run asks for before the one with the pending event. -/
def LeasesClear (s : LeaseRunner V) : LeaseEvent V → Prop
  | .runDay outputs names window =>
    ∀ before, downloadedBefore s outputs names window = some before →
      ∀ lease ∈ s.leases, lease.Valid s → ∀ name ∈ before, name ∉ lease.names
  | _ => True

section Run

variable {s : LeaseRunner V} {outputs : String → Plane V} {names : Download}
  {window : Option (Nat × Nat)}

theorem runDay_refused :
    (∃ name, (runDay s outputs names window).2 = .error (.bufferPending name)) ↔
      ∃ before, downloadedBefore s outputs names window = some before := by
  have hdownload : (∃ name, (download (s.launch [.kernel outputs]) names window).2 =
      .error (.bufferPending name)) ↔ ∃ before, downloadedBefore s outputs names window = some before := by
    unfold download downloadedBefore
    dsimp only
    split
    · next hbad =>
      have hbad : ¬ (windowStart window < windowStop s.rows window ∧
        windowStop s.rows window ≤ s.rows) := hbad
      rw [if_neg hbad]
      simp
    · next hgood =>
      have hgood : windowStart window < windowStop s.rows window ∧
        windowStop s.rows window ≤ s.rows := not_not.mp hgood
      rw [if_pos hgood, downloadNames_refused, Option.isSome_iff_exists]
      rfl
  rw [← hdownload]
  unfold runDay
  split
  · next t e hresult =>
    rw [hresult]
    simp
  · next t generations hresult =>
    rw [hresult]
    simp

theorem runDay_refused_state {name : String}
    (h : (runDay s outputs names window).2 = .error (.bufferPending name)) :
    (runDay s outputs names window).1 =
      (downloadNames (windowStart window) (windowStop s.rows window)
        (s.launch [.kernel outputs]) ∅ names).1 := by
  unfold runDay at h ⊢
  split at h
  · next t e hresult =>
    unfold download at hresult
    dsimp only at hresult h
    split at hresult
    · obtain ⟨-, he⟩ := Prod.mk.inj hresult
      rw [← Except.error.inj he] at h
      simp at h
    · exact (Prod.mk.inj hresult).1.symm
  · simp at h

theorem refused_keeps_iff (hinvariant : LeaseInvariant s) {before : List String}
    (hbefore : downloadedBefore s outputs names window = some before) {lease : OutputLease V}
    (hlease : lease ∈ s.leases) (hvalid : lease.Valid s) :
    (lease.Valid (runDay s outputs names window).1 ∧
      ∀ out, lease.read s = .ok out → lease.read (runDay s outputs names window).1 = .ok out) ↔
      ∀ name ∈ before, name ∉ lease.names := by
  obtain ⟨pending, hpending⟩ := runDay_refused.mpr ⟨before, hbefore⟩
  have hkernel := hinvariant.kernel outputs
  have hdownloads := downloadNames_downloads (s.launch [.kernel outputs]) (windowStart window)
    (windowStop s.rows window) ∅ names
  rw [runDay_refused_state hpending]
  have hrefused : refusedAfter (windowStart window) (windowStop s.rows window)
      (s.launch [.kernel outputs]).stream names = some before := by
    unfold downloadedBefore at hbefore
    split at hbefore
    · exact hbefore
    · cases hbefore
  generalize hresult : (downloadNames (windowStart window) (windowStop s.rows window)
    (s.launch [.kernel outputs]) ∅ names).1 = t at hdownloads
  have hslots : ∀ name ∈ lease.names, ∃ slot slot', s.slots[name]? = some slot ∧
      lease.generations[name]? = some slot.generation ∧ t.slots[name]? = some slot' ∧
      (slot'.generation = slot.generation ↔ name ∉ before) ∧
      (name ∉ before → pendingOn s.stream name = false → pendingOn t.stream name = false) := by
    intro name hname
    obtain ⟨slot, hslot, hgeneration, -⟩ := hinvariant.current hlease hvalid hname
    obtain ⟨slot', hslot', hiff, hfired⟩ := refused_generations ∅ hrefused hslot
    rw [hresult] at hslot' hfired
    refine ⟨slot, slot', hslot, hgeneration, hslot', hiff, fun hnot hold => hfired hnot ?_⟩
    unfold LeaseRunner.launch
    rw [pendingOn_append, hold]
    simp [pendingOn, Work.records]
  have ht : LeaseInvariant t := hkernel.downloads hdownloads
  have hmem : lease ∈ t.leases := hdownloads.leases ▸ hlease
  constructor
  · rintro ⟨hvalidAfter, -⟩ name hbefore hname
    obtain ⟨slot, slot', -, hgeneration, hslot', hiff, -⟩ := hslots name hname
    obtain ⟨current, hcurrent, hsame, -⟩ := ht.current hmem hvalidAfter hname
    rw [hslot', Option.some.injEq] at hcurrent
    rw [hgeneration, Option.some.injEq, ← hcurrent] at hsame
    exact hiff.mp hsame.symm hbefore
  · intro hclear
    have hvalidAfter : lease.Valid t := by
      refine ⟨hvalid.1, hvalid.2.1, fun name hname => ?_⟩
      obtain ⟨slot, slot', -, hgeneration, hslot', hiff, -⟩ := hslots name hname
      have hsame := hiff.mpr fun hbefore => hclear name hbefore hname
      simp [OutputLease.staleAt, hslot', hgeneration, hsame]
    refine ⟨hvalidAfter, fun out hread => ?_⟩
    have hfired := ((hinvariant.readable_iff hlease).mp ⟨out, hread⟩).2
    obtain ⟨out', hread'⟩ := (ht.readable_iff hmem).mpr ⟨hvalidAfter, fun name hname => by
      obtain ⟨-, -, -, -, -, -, hkept⟩ := hslots name hname
      exact hkept (fun hbefore => hclear name hbefore hname) (hfired name hname)⟩
    rw [hread', hinvariant.read_bits hlease hread, ht.read_bits hmem hread', hdownloads.rows]
    rfl

end Run

theorem keepsLeases_iff {s : LeaseRunner V} (hinvariant : LeaseInvariant s) (event : LeaseEvent V) :
    KeepsLeases s event ↔ LeasesClear s event := by
  cases event with
  | progress count => exact Iff.rfl
  | publish i => exact Iff.rfl
  | release i => exact Iff.rfl
  | runDay outputs names window =>
    unfold KeepsLeases LeasesClear
    constructor
    · intro hkeeps before hbefore lease hlease hvalid
      obtain ⟨i, hi⟩ := List.mem_iff_getElem?.mp hlease
      have hrefused := runDay_refused.mpr ⟨before, hbefore⟩
      exact (refused_keeps_iff hinvariant hbefore hlease hvalid).mp
        (hkeeps hrefused i lease hi hvalid).2
    · rintro hclear ⟨name, hrefused⟩ i lease hi hvalid
      obtain ⟨before, hbefore⟩ := runDay_refused.mp ⟨name, hrefused⟩
      have hlease := List.mem_of_getElem? hi
      refine ⟨?_, (refused_keeps_iff hinvariant hbefore hlease hvalid).mpr
        (hclear before hbefore lease hlease hvalid)⟩
      rw [runDay_refused_state hrefused, (downloadNames_downloads _ _ _ _ names).leases]
      exact hi

/-- Every read that succeeds returns the bits of its own run, and the refused downloads of a run
keep the valid leases exactly when they have asked for none of their names before. -/
theorem output_leases_iff {rows : Nat} {device : Device V} {events : List (LeaseEvent V)}
    {s : LeaseRunner V} (hrun : run leaseStep (freshLeaseRunner rows device) events = some s) :
    (∀ lease ∈ s.leases, ∀ out, lease.read s = .ok out → out = lease.bits s.rows) ∧
      (EachStep leaseStep KeepsLeases (freshLeaseRunner rows device) events ↔
        EachStep leaseStep LeasesClear (freshLeaseRunner rows device) events) := by
  refine ⟨fun lease hlease out hread => (run_leaseInvariant hrun).read_bits hlease hread, ?_⟩
  exact eachStep_congr (I := LeaseInvariant) (fun _ _ _ h => leaseStep_invariant h)
    (fun _ event h => keepsLeases_iff h event) (freshLeaseRunner_invariant rows device)

/-! ## A download refused at its second name -/

def zeroDevice : Device Nat := ⟨fun _ _ => 0, fun _ _ => 0⟩

/-- A lease whose event has fired, then one whose event is pending. -/
def heldEvents : List (LeaseEvent Nat) :=
  [.runDay (fun _ _ => 1) [("tmrt", 0)] none, .progress 3, .runDay (fun _ _ => 2) [("kdown", 0)] none]

def heldRunner : LeaseRunner Nat :=
  (runDay ((runDay (freshLeaseRunner 1 zeroDevice) (fun _ _ => 1) [("tmrt", 0)] none).1.progress 3)
    (fun _ _ => 2) [("kdown", 0)] none).1

theorem held_run : run leaseStep (freshLeaseRunner 1 zeroDevice) heldEvents = some heldRunner := rfl

/-- A run that asks for another name first is refused at the pending one. -/
def besideEvents : List (LeaseEvent Nat) :=
  heldEvents ++ [.runDay (fun _ _ => 3) [("lup", 0), ("kdown", 0)] none]

def besideRunner : LeaseRunner Nat :=
  (runDay heldRunner (fun _ _ => 3) [("lup", 0), ("kdown", 0)] none).1

theorem beside_run : run leaseStep (freshLeaseRunner 1 zeroDevice) besideEvents = some besideRunner :=
  rfl

theorem output_leases_iff_beside :
    (∃ name, (runDay heldRunner (fun _ _ => 3) [("lup", 0), ("kdown", 0)] none).2 =
      .error (.bufferPending name)) ∧
      (∀ lease ∈ besideRunner.leases, ∀ out, lease.read besideRunner = .ok out →
        out = lease.bits besideRunner.rows) ∧
      (EachStep leaseStep KeepsLeases (freshLeaseRunner 1 zeroDevice) besideEvents ↔
        EachStep leaseStep LeasesClear (freshLeaseRunner 1 zeroDevice) besideEvents) :=
  ⟨⟨"kdown", by decide⟩, output_leases_iff beside_run⟩

/-- The run that asks for both names is refused at the second, and the first lease is stale. -/
theorem refusedSecondName_stale :
    ∃ s, run leaseStep (freshLeaseRunner 1 zeroDevice) heldEvents = some s ∧
      ¬ KeepsLeases s (.runDay (fun _ _ => 3) [("tmrt", 0), ("kdown", 0)] none) := by
  refine ⟨heldRunner, held_run, fun hkeeps => ?_⟩
  have hclear := (keepsLeases_iff (run_leaseInvariant held_run) _).mp hkeeps
  have hbefore : downloadedBefore heldRunner (fun _ _ => 3) [("tmrt", 0), ("kdown", 0)] none =
      some ["tmrt"] := by decide
  have hlease : ∃ lease ∈ heldRunner.leases, lease.Valid heldRunner ∧ "tmrt" ∈ lease.names := by
    unfold OutputLease.Valid
    decide
  obtain ⟨lease, hmem, hvalid, hname⟩ := hlease
  exact hclear ["tmrt"] hbefore lease hmem hvalid "tmrt" (by simp) hname

end Solweig.Cuda
