import Mathlib.Data.List.Basic
import Mathlib.Data.List.Perm.Basic

/-!
# Tilings

Items that each hold some points. They tile a region when every point of it lies in exactly one
of them and no other point lies in any.
-/

namespace Solweig.Lib

variable {β κ : Type} {holds : β → κ → Bool} {items : List β} {region : κ → Bool} {k : κ}

def Tiles (holds : β → κ → Bool) (items : List β) (region : κ → Bool) : Prop :=
  ∀ k, items.countP (fun b => holds b k) = if region k then 1 else 0

/-- No point lies in both. -/
def Apart (holds : β → κ → Bool) (a b : β) : Prop := ∀ k, holds a k = true → holds b k = false

theorem tiles_nil (holds : β → κ → Bool) : Tiles holds [] fun _ => false := fun _ => rfl

theorem Tiles.perm {other : List β} (h : Tiles holds items region) (hperm : items.Perm other) :
    Tiles holds other region := fun k => (hperm.countP_eq _).symm.trans (h k)

theorem Tiles.congr {region' : κ → Bool} (h : Tiles holds items region)
    (hregion : ∀ k, region k = region' k) : Tiles holds items region' := fun k => by
  rw [← hregion k]
  exact h k

theorem Tiles.append {other : List β} {region' : κ → Bool} (h : Tiles holds items region)
    (h' : Tiles holds other region') (hapart : ∀ k, region k = true → region' k = false) :
    Tiles holds (items ++ other) fun k => region k || region' k := by
  intro k
  show _ = if (region k || region' k) then 1 else 0
  rw [List.countP_append, h k, h' k]
  cases hk : region k with
  | true => simp [hapart k hk]
  | false => simp

theorem Tiles.holds_iff (h : Tiles holds items region) :
    (∃ b ∈ items, holds b k = true) ↔ region k = true := by
  rw [← List.countP_pos_iff (p := fun b => holds b k), h k]
  cases region k <;> simp

theorem countP_of_apart (h : items.Pairwise (Apart holds)) (k : κ) :
    items.countP (fun b => holds b k) = if items.any (fun b => holds b k) then 1 else 0 := by
  induction items with
  | nil => rfl
  | cons a items ih =>
    rw [List.pairwise_cons] at h
    rw [List.countP_cons, ih h.2, List.any_cons]
    cases ha : holds a k with
    | false => simp
    | true =>
      have hnone : items.any (fun b => holds b k) = false := by
        rw [List.any_eq_false]
        intro b hb
        rw [h.1 b hb k ha]
        exact Bool.false_ne_true
      simp [hnone]

theorem tiles_of_apart (h : items.Pairwise (Apart holds)) :
    Tiles holds items fun k => items.any fun b => holds b k := countP_of_apart h

theorem Tiles.apart (h : Tiles holds items region) : items.Pairwise (Apart holds) := by
  induction items generalizing region with
  | nil => exact List.Pairwise.nil
  | cons a items ih =>
    have hcount : ∀ k, items.countP (fun b => holds b k) + (if holds a k then 1 else 0) =
        if region k then 1 else 0 := fun k => by rw [← h k, List.countP_cons]
    have hrest : Tiles holds items fun k => region k && ! holds a k := fun k => by
      have hk := hcount k
      cases ha : holds a k <;> cases hr : region k <;> simp_all
    refine List.pairwise_cons.mpr ⟨fun b hb k ha => ?_, ih hrest⟩
    · have hk := hcount k
      rw [ha, if_pos rfl] at hk
      have hzero : items.countP (fun b => holds b k) = 0 := by
        split at hk <;> omega
      simpa using List.countP_eq_zero.mp hzero b hb

theorem Tiles.unique (h : Tiles holds items region) {a b : β} (ha : a ∈ items) (hb : b ∈ items)
    (hak : holds a k = true) (hbk : holds b k = true) : a = b := by
  have happart := h.apart
  clear h
  induction items with
  | nil => cases ha
  | cons first items ih =>
    rw [List.pairwise_cons] at happart
    rcases List.mem_cons.mp ha with rfl | ha' <;> rcases List.mem_cons.mp hb with rfl | hb'
    · rfl
    · rw [happart.1 b hb' k hak] at hbk
      cases hbk
    · rw [happart.1 a ha' k hbk] at hak
      cases hak
    · exact ih ha' hb' happart.2

theorem Tiles.narrow {f : β → List β} (keep : κ → Bool) (h : Tiles holds items region)
    (hf : ∀ b ∈ items, Tiles holds (f b) fun k => holds b k && keep k) :
    Tiles holds (items.flatMap f) fun k => region k && keep k := by
  intro k
  have hcount : (items.flatMap f).countP (fun b => holds b k) =
      if keep k then items.countP (fun b => holds b k) else 0 := by
    clear h
    induction items with
    | nil => simp
    | cons a items ih =>
      rw [List.forall_mem_cons] at hf
      have ha : (f a).countP (fun b => holds b k) = if (holds a k && keep k) then 1 else 0 := hf.1 k
      rw [List.flatMap_cons, List.countP_append, ha, ih hf.2, List.countP_cons]
      cases holds a k <;> cases keep k <;> simp [Nat.add_comm]
  show _ = if (region k && keep k) then 1 else 0
  rw [hcount, h k]
  cases keep k <;> simp

end Solweig.Lib
