import Mathlib.Algebra.BigOperators.Group.Finset.Sigma
import Mathlib.Algebra.Ring.Nat
import Mathlib.Data.Finset.Prod
import Mathlib.Data.List.ProdSigma
import Mathlib.Order.Interval.Finset.Nat

/-!
# Chunks

A grid of cells in square chunks, the last of a row or column short.
-/

namespace Solweig.Lib.Chunks

theorem flatMap_inj {α β : Type} {f g : α → List β} {l : List α}
    (hlength : ∀ a ∈ l, (f a).length = (g a).length) (h : l.flatMap f = l.flatMap g) :
    ∀ a ∈ l, f a = g a := by
  induction l with
  | nil => intro a ha; cases ha
  | cons first l ih =>
    rw [List.forall_mem_cons] at hlength ⊢
    rw [List.flatMap_cons, List.flatMap_cons] at h
    obtain ⟨hfirst, hrest⟩ := List.append_inj h hlength.1
    exact ⟨hfirst, ih hlength.2 hrest⟩

theorem eq_of_blocks {α : Type} {a b : List α} {n width : Nat} (ha : a.length = n * width)
    (hb : b.length = n * width)
    (h : ∀ p < n, (a.drop (p * width)).take width = (b.drop (p * width)).take width) : a = b := by
  apply List.ext_getElem?
  intro i
  by_cases hi : i < n * width
  · have hwidth : 0 < width := Nat.pos_of_mul_pos_left (Nat.zero_lt_of_lt hi)
    have hp := (Nat.div_lt_iff_lt_mul hwidth).mpr hi
    have hblock := congrArg (·[i % width]?) (h (i / width) hp)
    simpa [List.getElem?_take, Nat.mod_lt i hwidth, Nat.div_add_mod'] using hblock
  · rw [List.getElem?_eq_none (by omega), List.getElem?_eq_none (by omega)]

/-- A half-open range. -/
structure Span where
  start : Nat
  stop : Nat
  deriving DecidableEq

def Span.length (span : Span) : Nat := span.stop - span.start

def Span.holds (span : Span) (i : Nat) : Prop := span.start ≤ i ∧ i < span.stop

instance (span : Span) (i : Nat) : Decidable (span.holds i) := inferInstanceAs (Decidable (_ ∧ _))

def chunkCount (n cells : Nat) : Nat := (n + cells - 1) / cells

def chunkSpan (n cells k : Nat) : Span := ⟨k * cells, min (k * cells + cells) n⟩

section OneAxis

variable {n cells k i j reach : Nat}

theorem chunkSpan_holds (hcells : 0 < cells) :
    (chunkSpan n cells k).holds i ↔ i < n ∧ i / cells = k := by
  unfold Span.holds chunkSpan
  rw [Nat.div_eq_iff hcells]
  dsimp only
  omega

theorem div_lt_chunkCount (hcells : 0 < cells) (hi : i < n) : i / cells < chunkCount n cells := by
  unfold chunkCount
  rw [Nat.div_lt_iff_lt_mul hcells]
  have hsplit := Nat.div_add_mod (n + cells - 1) cells
  have hmod := Nat.mod_lt (n + cells - 1) hcells
  rw [Nat.mul_comm] at hsplit
  omega

theorem start_lt (hcells : 0 < cells) (hk : k < chunkCount n cells) : k * cells < n := by
  unfold chunkCount at hk
  have hle := Nat.mul_le_of_le_div cells (k + 1) (n + cells - 1) hk
  rw [Nat.add_mul] at hle
  omega

theorem div_le_of_near (hcells : 0 < cells) (h : i ≤ j + reach) :
    i / cells ≤ j / cells + (reach / cells + 1) := by
  have hle := Nat.div_le_div_right (c := cells) h
  have hsum : (j + reach) / cells ≤ j / cells + reach / cells + 1 := by
    rw [← Nat.lt_succ_iff, Nat.div_lt_iff_lt_mul hcells, Nat.succ_mul, Nat.add_mul, Nat.add_mul]
    have hj := Nat.lt_div_mul_add (a := j) hcells
    have hreach := Nat.lt_div_mul_add (a := reach) hcells
    omega
  omega

end OneAxis

/-! ## The grid -/

structure Block where
  rows : Span
  cols : Span
  deriving DecidableEq

def Block.holds (block : Block) (cell : Nat × Nat) : Prop :=
  block.rows.holds cell.1 ∧ block.cols.holds cell.2

instance (block : Block) (cell : Nat × Nat) : Decidable (block.holds cell) :=
  inferInstanceAs (Decidable (_ ∧ _))

def Block.area (block : Block) : Nat := block.rows.length * block.cols.length

def chunkBlock (rows cols cells : Nat) (key : Nat × Nat) : Block :=
  ⟨chunkSpan rows cells key.1, chunkSpan cols cells key.2⟩

/-- The chunks, row by row. -/
def chunkKeys (rows cols cells : Nat) : List (Nat × Nat) :=
  List.range (chunkCount rows cells) ×ˢ List.range (chunkCount cols cells)

def chunkOf (cells : Nat) (cell : Nat × Nat) : Nat × Nat := (cell.1 / cells, cell.2 / cells)

section Grid

variable {rows cols cells : Nat} {key cell : Nat × Nat}

theorem mem_chunkKeys : key ∈ chunkKeys rows cols cells ↔
    key.1 < chunkCount rows cells ∧ key.2 < chunkCount cols cells := by
  obtain ⟨row, col⟩ := key
  unfold chunkKeys
  simp

theorem chunkKeys_nodup (rows cols cells : Nat) : (chunkKeys rows cols cells).Nodup :=
  List.nodup_range.product List.nodup_range

theorem chunkKeys_length (rows cols cells : Nat) :
    (chunkKeys rows cols cells).length = chunkCount rows cells * chunkCount cols cells := by
  unfold chunkKeys
  rw [List.length_product, List.length_range, List.length_range]

theorem chunkBlock_holds (hcells : 0 < cells) : (chunkBlock rows cols cells key).holds cell ↔
    cell.1 < rows ∧ cell.2 < cols ∧ chunkOf cells cell = key := by
  unfold Block.holds chunkBlock chunkOf
  rw [chunkSpan_holds hcells, chunkSpan_holds hcells, Prod.ext_iff]
  tauto

theorem chunkOf_mem (hcells : 0 < cells) (hrow : cell.1 < rows) (hcol : cell.2 < cols) :
    chunkOf cells cell ∈ chunkKeys rows cols cells :=
  mem_chunkKeys.mpr ⟨div_lt_chunkCount hcells hrow, div_lt_chunkCount hcells hcol⟩

theorem sum_area (hcells : 0 < cells) (p : Nat × Nat → Bool) :
    (((chunkKeys rows cols cells).filter p).map fun key =>
      (chunkBlock rows cols cells key).area).sum =
      ((Finset.range rows ×ˢ Finset.range cols).filter fun cell => p (chunkOf cells cell)).card := by
  have hnodup := (chunkKeys_nodup rows cols cells).filter p
  rw [← List.sum_toFinset _ hnodup, Finset.card_eq_sum_card_fiberwise (f := chunkOf cells)
    (t := ((chunkKeys rows cols cells).filter p).toFinset)]
  · refine Finset.sum_congr rfl fun key hkey => ?_
    rw [List.mem_toFinset, List.mem_filter] at hkey
    have hfiber : ((Finset.range rows ×ˢ Finset.range cols).filter fun cell =>
        p (chunkOf cells cell)).filter (fun cell => chunkOf cells cell = key) =
        Finset.Ico (chunkSpan rows cells key.1).start (chunkSpan rows cells key.1).stop ×ˢ
          Finset.Ico (chunkSpan cols cells key.2).start (chunkSpan cols cells key.2).stop := by
      ext cell
      have hblock : (chunkBlock rows cols cells key).holds cell ↔
          cell.1 < rows ∧ cell.2 < cols ∧ chunkOf cells cell = key := chunkBlock_holds hcells
      simp only [Block.holds, Span.holds, chunkBlock] at hblock
      simp only [Finset.mem_filter, Finset.mem_product, Finset.mem_range, Finset.mem_Ico]
      rw [hblock]
      constructor
      · rintro ⟨⟨⟨hrow, hcol⟩, -⟩, hof⟩
        exact ⟨hrow, hcol, hof⟩
      · rintro ⟨hrow, hcol, hof⟩
        exact ⟨⟨⟨hrow, hcol⟩, hof ▸ hkey.2⟩, hof⟩
    rw [hfiber, Finset.card_product, Nat.card_Ico, Nat.card_Ico]
    rfl
  · intro cell hcell
    rw [Finset.mem_coe, Finset.mem_filter, Finset.mem_product, Finset.mem_range,
      Finset.mem_range] at hcell
    rw [Finset.mem_coe, List.mem_toFinset, List.mem_filter]
    exact ⟨chunkOf_mem hcells hcell.1.1 hcell.1.2, hcell.2⟩

end Grid

end Solweig.Lib.Chunks
