import Mathlib.Data.List.Induction
import Mathlib.Order.Lattice

/-!
# Overlays

Values laid over a map, one layer after another. A layer covers some of the points; the topmost
one that covers a point decides.
-/

namespace Solweig.Lib

variable {κ α : Type}

/-- The map under the layers, the last of them on top. -/
def overlay (m : κ → Option α) (layers : List (κ → Option α)) : κ → Option α :=
  layers.foldl (fun m layer k => (layer k).or (m k)) m

theorem overlay_cons (m : κ → Option α) (layer : κ → Option α) (layers : List (κ → Option α)) :
    overlay m (layer :: layers) = overlay (fun k => (layer k).or (m k)) layers :=
  rfl

theorem overlay_append (m : κ → Option α) (layers top : List (κ → Option α)) :
    overlay m (layers ++ top) = overlay (overlay m layers) top :=
  List.foldl_append

/-- What the layers put on a point, the bottom one first. -/
def laidOn (layers : List (κ → Option α)) (k : κ) : List α := layers.filterMap fun layer => layer k

theorem laidOn_flatten (groups : List (List (κ → Option α))) (k : κ) :
    laidOn groups.flatten k = groups.flatMap fun layers => laidOn layers k := by
  rw [laidOn, List.filterMap_flatten, List.flatMap_def]
  rfl

theorem flatMap_single {β : Type} [DecidableEq α] {x : α} {f : α → List β} {l : List α} (hl : l.Nodup)
    (hf : ∀ a ∈ l, a ≠ x → f a = []) : l.flatMap f = if x ∈ l then f x else [] := by
  induction l with
  | nil => rfl
  | cons a l ih =>
    rw [List.nodup_cons] at hl
    rw [List.forall_mem_cons] at hf
    rw [List.flatMap_cons, ih hl.2 hf.2]
    by_cases ha : a = x
    · subst ha
      simp [hl.1]
    · simp [hf.1 ha, Ne.symm ha]

theorem overlay_apply (m : κ → Option α) (layers : List (κ → Option α)) (k : κ) :
    overlay m layers k = (laidOn layers k).getLast?.or (m k) := by
  induction layers using List.reverseRecOn with
  | nil => rfl
  | append_singleton layers top ih =>
    rw [overlay_append, laidOn, List.filterMap_append]
    show (top k).or (overlay m layers k) = _
    rw [ih, laidOn]
    cases h : top k <;> simp [h]

theorem overlay_topmost {m layer : κ → Option α} {below above : List (κ → Option α)} {k : κ} {v : α}
    (hlayer : layer k = some v) (habove : ∀ higher ∈ above, higher k = none) :
    overlay m (below ++ layer :: above) k = some v := by
  have hnone : laidOn above k = [] := List.filterMap_eq_nil_iff.mpr habove
  rw [overlay_append, overlay_cons, overlay_apply, hnone]
  simp [hlayer]

theorem exists_topmost {β : Type} {f : β → Option α} {layers : List β}
    (h : ∃ layer ∈ layers, (f layer).isSome = true) :
    ∃ below layer above, layers = below ++ layer :: above ∧ (f layer).isSome = true ∧
      ∀ higher ∈ above, f higher = none := by
  induction layers using List.reverseRecOn with
  | nil => simp at h
  | append_singleton layers top ih =>
    cases htop : f top with
    | some v => exact ⟨layers, top, [], rfl, by simp [htop], fun _ h => by cases h⟩
    | none =>
      obtain ⟨layer, hlayer, hcovers⟩ := h
      rcases List.mem_append.mp hlayer with hlayer | hlayer
      · obtain ⟨below, layer, above, rfl, hlayer, habove⟩ := ih ⟨layer, hlayer, hcovers⟩
        refine ⟨below, layer, above ++ [top], by simp, hlayer, fun higher hhigher => ?_⟩
        rcases List.mem_append.mp hhigher with hhigher | hhigher
        · exact habove higher hhigher
        · exact List.mem_singleton.mp hhigher ▸ htop
      · rw [List.mem_singleton.mp hlayer, htop] at hcovers
        cases hcovers

theorem overlay_congr {m m' : κ → Option α} {layers layers' : List (κ → Option α)} {k : κ}
    (hm : m k = m' k) (hl : laidOn layers k = laidOn layers' k) :
    overlay m layers k = overlay m' layers' k := by
  rw [overlay_apply, overlay_apply, hm, hl]

theorem overlay_ascending [LinearOrder α] {m : κ → Option α} {layers : List (κ → Option α)} {k : κ}
    {v : Option α} (h : (laidOn layers k).Pairwise (· < ·)) (hm : laidOn layers k = [] → m k = v) :
    overlay m layers k = v ↔
      ∀ x ∈ laidOn layers k, v = some x ∨ ∃ y ∈ laidOn layers k, x < y := by
  rw [overlay_apply]
  generalize laidOn layers k = laid at h hm
  rcases List.eq_nil_or_concat laid with rfl | ⟨below, top, rfl⟩
  · simpa using hm rfl
  · rw [List.concat_eq_append, List.pairwise_append] at h
    simp only [List.concat_eq_append, List.getLast?_append, List.getLast?_singleton, Option.some_or]
    constructor
    · rintro rfl x hx
      rcases List.mem_append.mp hx with hx | hx
      · exact Or.inr ⟨top, by simp, h.2.2 x hx top (by simp)⟩
      · exact Or.inl (by rw [List.mem_singleton.mp hx])
    · intro hall
      rcases hall top (by simp) with hv | ⟨y, hy, hlt⟩
      · exact hv.symm
      · rcases List.mem_append.mp hy with hy | hy
        · exact absurd (h.2.2 y hy top (by simp)) (lt_asymm hlt)
        · exact absurd (List.mem_singleton.mp hy) (ne_of_gt hlt)

end Solweig.Lib
