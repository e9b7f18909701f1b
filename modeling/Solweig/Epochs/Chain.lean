import Solweig.Epochs.Sound

/-!
# The canonical chain

Any number of drivers over the same or different epochs build one chain of canonical rows: no
epoch is lost, none is folded twice, and the version of the scenario counts them.
-/

namespace Solweig.Epochs

open Solweig.Lib Solweig.Realtime Solweig.Store

/-- The revisions that the epochs of a workspace carry, in the order of the epochs. -/
def assignedRevisions (db : Database) (w : String) : List Nat :=
  (epochs db w).filterMap (·.workspaceRevision)

section Assigned

variable {start db : Database} {w : String}

theorem mem_assignedRevisions {revision : Nat} :
    revision ∈ assignedRevisions db w ↔ ∃ e, Assigned db w e revision := by
  simp only [assignedRevisions, List.mem_filterMap, Assigned]
  constructor
  · rintro ⟨row, hrow, hrev⟩
    exact ⟨row.epochId, row, hrow, rfl, hrev⟩
  · rintro ⟨_, row, hrow, -, hrev⟩
    exact ⟨row, hrow, hrev⟩

theorem Sound.assignedRevisions_nodup (h : Sound start db) : (assignedRevisions db w).Nodup := by
  refine List.pairwise_filterMap.mpr ((h.law.partition w).ascending.imp_of_mem ?_)
  rintro a b ha hb hlt r hr _ hr' rfl
  have hsame := h.unique w a.epochId b.epochId r ⟨a, ha, rfl, hr⟩ ⟨b, hb, rfl, hr'⟩
  omega

theorem Sound.assigned_perm (h : Sound start db) :
    (assignedRevisions db w).Perm ((canonical db w).map (·.workspaceRevision)) := by
  have hnodup : ((canonical db w).map (·.workspaceRevision)).Nodup :=
    List.pairwise_map.mpr ((h.ascending w).imp Nat.ne_of_lt)
  refine (List.perm_ext_iff_of_nodup h.assignedRevisions_nodup hnodup).mpr fun r => ?_
  rw [mem_assignedRevisions, List.mem_map]
  constructor
  · rintro ⟨e, ha⟩
    exact h.assignedRow w e r ha
  · rintro ⟨row, hrow, rfl⟩
    exact h.rowAssigned w row hrow

end Assigned

/-- What holds of a workspace after any interleaving, and what every continuation keeps. -/
theorem canonical_chain {start s : Plane} {events : List (Nat × Event)} (hstart : start.Fresh)
    (hrun : run planeStep start events = some s) (w : String) :
    (canonical s.shared w).Pairwise (fun a b => a.workspaceRevision < b.workspaceRevision) ∧
    ChainFrom s.shared w initialState (canonical s.shared w) ∧
    (∀ e e' r, Assigned s.shared w e r → Assigned s.shared w e' r → e = e') ∧
    (∀ e r, Assigned s.shared w e r → ∃ row ∈ canonical s.shared w, row.workspaceRevision = r) ∧
    version? s.shared w =
      (version? start.shared w).map (· + (assignedRevisions s.shared w).length) ∧
    ∀ more t, run planeStep s more = some t → canonical s.shared w <+: canonical t.shared w ∧
      ∀ e r, Assigned s.shared w e r → ∀ r', Assigned t.shared w e r' ↔ r' = r := by
  have hs := plane_run hstart hrun
  have hsound := hs.1
  refine ⟨hsound.ascending w, hsound.chain w, hsound.unique w, hsound.assignedRow w, ?_, ?_⟩
  · rw [hsound.assigned_perm.length_eq, List.length_map]
    exact (hsound.versions w).current
  · intro more t hmore
    have hext := plane_extends hs hmore
    have ht : Invariant start.shared t :=
      run_invariant (C := fun _ _ => True) (fun _ _ _ hI _ h => (planeStep_invariant hI h).1) hs
        (eachStep_of_forall (fun _ _ => trivial) _ _) hmore
    refine ⟨hext.canonical w, fun e r ha r' => ⟨fun ha' => ?_, ?_⟩⟩
    · exact ha'.single ht.1.law (hext.assigned w e r ha)
    · rintro rfl
      exact hext.assigned w e r' ha

/-! ### Two drivers, one of them on a stale baseline -/

def freshPlane : Plane := { shared := oneScenario, threads := fun _ => .free }

theorem freshPlane_fresh : freshPlane.Fresh := ⟨rfl, rfl, rfl, fun _ => rfl⟩

/-- `n` store calls of one thread. -/
def steps (thread n : Nat) (due : List Nat) : List (Nat × Event) :=
  List.replicate n (thread, .step due "t")

/-- Thread 1 has folded epoch 0 when thread 2 commits epoch 1, and folds again. -/
def staleDriver : List (Nat × Event) :=
  [(0, .append "w" [plantTree "a"] "t1"), (1, .drive "w" 0)] ++ steps 1 5 [] ++
    [(0, .append "w" [plantTree "b"] "t2"), (2, .drive "w" 1)] ++ steps 2 8 [] ++ steps 1 5 []

theorem canonical_chain_stale_driver : ∃ s, run planeStep freshPlane staleDriver = some s ∧
    assignedRevisions s.shared "w" = [2, 1] ∧
    ChainFrom s.shared "w" initialState (canonical s.shared "w") := by
  have hrun : (run planeStep freshPlane staleDriver).map (fun s =>
      assignedRevisions s.shared "w") = some [2, 1] := by decide +kernel
  obtain ⟨s, hs, hview⟩ := Option.map_eq_some_iff.mp hrun
  exact ⟨s, hs, hview, (canonical_chain freshPlane_fresh hs "w").2.1⟩

end Solweig.Epochs
