import Mathlib.Data.List.Induction
import Mathlib.Logic.Function.Basic

/-!
# Work that is split over workers

The items of a list go to workers as consecutive ranges of their indices, and the workers write
what they compute. Where the value of a cell does not depend on who writes it, the order in which
the writes land is of no matter.
-/

namespace Solweig.Lib.Workers

/-! ## Consecutive ranges -/

/-- Non-empty ranges, each of which starts where the one before it ends. -/
inductive Consecutive : Nat → List (Nat × Nat) → Nat → Prop where
  | nil (lo : Nat) : Consecutive lo [] lo
  | cons {lo mid hi : Nat} {chunks : List (Nat × Nat)} :
      lo < mid → Consecutive mid chunks hi → Consecutive lo ((lo, mid) :: chunks) hi

theorem Consecutive.le {lo hi : Nat} {chunks : List (Nat × Nat)} (h : Consecutive lo chunks hi) :
    lo ≤ hi := by
  induction h with
  | nil => exact Nat.le_refl _
  | cons hlt _ ih => omega

theorem Consecutive.concat {lo mid hi : Nat} {chunks : List (Nat × Nat)}
    (h : Consecutive lo chunks mid) (hlt : mid < hi) :
    Consecutive lo (chunks ++ [(mid, hi)]) hi := by
  induction h with
  | nil => exact .cons hlt (.nil hi)
  | cons hfirst _ ih => exact .cons hfirst (ih hlt)

theorem Consecutive.lt {lo hi : Nat} {chunks : List (Nat × Nat)} (h : Consecutive lo chunks hi) :
    ∀ chunk ∈ chunks, chunk.1 < chunk.2 := by
  induction h with
  | nil => simp
  | cons hlt _ ih => exact List.forall_mem_cons.mpr ⟨hlt, ih⟩

theorem Consecutive.flatMap_range' {lo hi : Nat} {chunks : List (Nat × Nat)}
    (h : Consecutive lo chunks hi) :
    chunks.flatMap (fun chunk => List.range' chunk.1 (chunk.2 - chunk.1)) =
      List.range' lo (hi - lo) := by
  induction h with
  | nil lo => simp
  | @cons lo mid hi chunks hlt hrest ih =>
    have hle := hrest.le
    have hmid : mid = lo + (mid - lo) := by omega
    have hsplit : hi - lo = (mid - lo) + (hi - mid) := by omega
    rw [List.flatMap_cons, ih, hsplit, ← List.range'_append_1, ← hmid]

/-- The items of a range. -/
def slice {α : Type} (items : List α) (chunk : Nat × Nat) : List α :=
  (items.drop chunk.1).take (chunk.2 - chunk.1)

theorem Consecutive.flatMap_slice {α : Type} {items : List α} {lo hi : Nat}
    {chunks : List (Nat × Nat)} (h : Consecutive lo chunks hi) :
    chunks.flatMap (slice items) = slice items (lo, hi) := by
  induction h with
  | nil lo => simp [slice]
  | @cons lo mid hi chunks hlt hrest ih =>
    have hle := hrest.le
    rw [List.flatMap_cons, ih]
    unfold slice
    dsimp only
    have hsplit : hi - lo = (mid - lo) + (hi - mid) := by omega
    have hdrop : items.drop mid = (items.drop lo).drop (mid - lo) := by
      rw [List.drop_drop]
      congr 1
      omega
    rw [hsplit, List.take_add, hdrop]

theorem slice_all {α : Type} (items : List α) : slice items (0, items.length) = items := by
  simp [slice]

theorem Consecutive.flatMap_all {α : Type} {items : List α} {chunks : List (Nat × Nat)}
    (h : Consecutive 0 chunks items.length) : chunks.flatMap (slice items) = items := by
  rw [h.flatMap_slice, slice_all]

/-! ## Ends that are clamped -/

/-- The next end of a range, which is no less than the last and no more than the stop. A range
without items is left out. -/
def cutStep (stop : Nat) (acc : List (Nat × Nat) × Nat) (cut : Nat) : List (Nat × Nat) × Nat :=
  let hi := min (max cut acc.2) stop
  (if hi > acc.2 then acc.1 ++ [(acc.2, hi)] else acc.1, hi)

theorem cutStep_consecutive {stop lo : Nat} {acc : List (Nat × Nat) × Nat} (cut : Nat)
    (h : Consecutive lo acc.1 acc.2) (hstop : acc.2 ≤ stop) :
    Consecutive lo (cutStep stop acc cut).1 (cutStep stop acc cut).2 ∧
      (cutStep stop acc cut).2 ≤ stop := by
  unfold cutStep
  dsimp only
  refine ⟨?_, Nat.min_le_right _ _⟩
  split
  · next hlt => exact h.concat hlt
  · next hle =>
    have hsame : min (max cut acc.2) stop = acc.2 := by omega
    rw [hsame]
    exact h

theorem foldl_cutStep {stop lo : Nat} (cuts : List Nat) (acc : List (Nat × Nat) × Nat)
    (h : Consecutive lo acc.1 acc.2) (hstop : acc.2 ≤ stop) :
    Consecutive lo (cuts.foldl (cutStep stop) acc).1 (cuts.foldl (cutStep stop) acc).2 ∧
      (cuts.foldl (cutStep stop) acc).2 ≤ stop := by
  induction cuts generalizing acc with
  | nil => exact ⟨h, hstop⟩
  | cons cut cuts ih =>
    obtain ⟨h', hstop'⟩ := cutStep_consecutive cut h hstop
    exact ih _ h' hstop'

theorem cuts_consecutive (stop : Nat) (cuts : List Nat) :
    Consecutive 0 ((cuts ++ [stop]).foldl (cutStep stop) ([], 0)).1 stop := by
  obtain ⟨h, hstop⟩ := foldl_cutStep cuts ([], 0) (.nil 0) (Nat.zero_le stop)
  rw [List.foldl_append, List.foldl_cons, List.foldl_nil]
  have hlast := (cutStep_consecutive stop h hstop).1
  have hend : (cutStep stop (cuts.foldl (cutStep stop) ([], 0)) stop).2 = stop := by
    unfold cutStep
    dsimp only
    omega
  rwa [hend] at hlast

/-! ## Writes in any order -/

variable {κ V : Type}

/-- The order in which the writes of the workers land. -/
structure Schedule (κ : Type) where
  order : List (List κ) → List κ
  lands : ∀ writes, (order writes).Perm writes.flatten

/-- One worker after the other. -/
def Schedule.inTurn : Schedule κ := ⟨List.flatten, fun _ => List.Perm.refl _⟩

/-- The last worker first. -/
def Schedule.backwards : Schedule κ :=
  ⟨fun writes => writes.reverse.flatten, fun writes => writes.reverse_perm.flatten⟩

variable [DecidableEq κ]

/-- The memory after some writes, each a cell with its new value. -/
def land (base : κ → V) (writes : List (κ × V)) : κ → V :=
  writes.foldl (fun memory write => Function.update memory write.1 write.2) base

/-- Where every write puts the value of its cell there, the cells that some write touches have
theirs. -/
theorem land_apply {value : κ → V} (base : κ → V) {writes : List (κ × V)}
    (hvalue : ∀ write ∈ writes, write.2 = value write.1) (k : κ) :
    (k ∈ writes.map (·.1) → land base writes k = value k) ∧
      (k ∉ writes.map (·.1) → land base writes k = base k) := by
  unfold land
  induction writes using List.reverseRecOn with
  | nil => simp
  | append_singleton writes last ih =>
    rw [List.foldl_append, List.foldl_cons, List.foldl_nil]
    have hrest := ih fun write hwrite => hvalue write (List.mem_append_left _ hwrite)
    by_cases hk : k = last.1
    · subst hk
      simp [hvalue last (List.mem_append_right _ (List.mem_singleton_self last))]
    · rw [Function.update_of_ne hk]
      simpa [hk] using hrest

theorem land_schedule (schedule : Schedule (κ × V)) {value : κ → V} (base : κ → V)
    {writes : List (List (κ × V))} (hvalue : ∀ write ∈ writes.flatten, write.2 = value write.1)
    (k : κ) :
    (k ∈ writes.flatten.map (·.1) → land base (schedule.order writes) k = value k) ∧
      (k ∉ writes.flatten.map (·.1) → land base (schedule.order writes) k = base k) := by
  have hperm := schedule.lands writes
  rw [← (hperm.map Prod.fst).mem_iff]
  exact land_apply base (fun write hwrite => hvalue write (hperm.mem_iff.mp hwrite)) k

/-- Each write puts the value of its cell there. -/
def scatter (value base : κ → V) (order : List κ) : κ → V :=
  land base (order.map fun k => (k, value k))

theorem scatter_apply (value base : κ → V) (order : List κ) (k : κ) :
    (k ∈ order → scatter value base order k = value k) ∧
      (k ∉ order → scatter value base order k = base k) := by
  have hvalue : ∀ write ∈ order.map fun k => (k, value k), write.2 = value write.1 := by simp
  have hland := land_apply base hvalue k
  rw [List.map_map, show ((·.1) ∘ fun k => (k, value k)) = (id : κ → κ) from rfl, List.map_id] at hland
  exact hland

theorem scatter_schedule (schedule : Schedule κ) (value base : κ → V) (writes : List (List κ))
    (k : κ) :
    (k ∈ writes.flatten → scatter value base (schedule.order writes) k = value k) ∧
      (k ∉ writes.flatten → scatter value base (schedule.order writes) k = base k) := by
  rw [← (schedule.lands writes).mem_iff]
  exact scatter_apply value base _ k

end Solweig.Lib.Workers
