import Mathlib.Data.Finset.Card
import Mathlib.Order.Interval.Finset.Basic
import Mathlib.Data.Int.Interval
import Mathlib.Algebra.Ring.Nat
import Solweig.Realtime.Reducer

/-!
# The cells of a batch

What admission counts of the paint of a batch, and what the reducer paints. The two read the
bounds of a window under different keys.
-/

namespace Solweig.Realtime

open Solweig.Lib

/-- The fields of a batch item that paint depends on, as they arrive. -/
structure BatchItem where
  sourceFamily : String
  verb : String
  payload : Json

/-! ## What admission counts -/

/-- The inclusive bounds of a window, where `int` reads all four. -/
structure InclusiveBounds where
  rowStart : Int
  rowEnd : Int
  colStart : Int
  colEnd : Int

def inclusiveBounds (payload : Json) : Option InclusiveBounds :=
  let window := (Json.get payload.mapping "window").mapping
  (Json.get window "row_end").pyInt.bind fun rowEnd =>
    (Json.get window "row_start").pyInt.bind fun rowStart =>
      (Json.get window "col_end").pyInt.bind fun colEnd =>
        (Json.get window "col_start").pyInt.map fun colStart =>
          { rowStart, rowEnd, colStart, colEnd }

def InclusiveBounds.area (bounds : InclusiveBounds) : Nat :=
  ((bounds.rowEnd - bounds.rowStart).natAbs + 1) * ((bounds.colEnd - bounds.colStart).natAbs + 1)

def itemArea (item : BatchItem) : Nat :=
  if item.sourceFamily ≠ "landcover_surface" then 0
  else (inclusiveBounds item.payload).elim 0 InclusiveBounds.area

/-- `_changed_cells` -/
def changedCells (items : List BatchItem) : Nat := (items.map itemArea).sum

/-! ## What the reducer paints -/

/-- The cells that an item makes the reducer write. -/
def itemPaint (item : BatchItem) : List Key :=
  if item.sourceFamily = "landcover_surface" ∧ item.verb = "paint" ∧
      paintClass item.payload.mapping ≠ none then
    paintCells item.payload.mapping
  else []

def batchPaint (items : List BatchItem) : Finset Key := (items.flatMap itemPaint).toFinset

def cellCode (chunks : Chunks) (cell : Key) : Option Int := (chunks.getD (chunkOf cell) ∅)[cell]?

theorem cellCode_paintCell (op : Operation) (code : Int) (s : Chunks × Fold) (cell painted : Key) :
    cellCode (paintCell op code s painted).1 cell =
      if painted = cell then some code else cellCode s.1 cell := by
  unfold cellCode paintCell
  simp only [Std.ExtTreeMap.getD_insert, Std.compare_eq_iff_eq]
  by_cases hcell : painted = cell
  · subst hcell
    simp
  · rw [if_neg hcell]
    split
    · next hchunk =>
      rw [Dict.getElem?_insert_of_ne _ _ hcell, hchunk]
    · rfl

/-- Folding a paint writes its class in the cells that it paints, and nowhere else. -/
theorem cellCode_foldPaint {op : Operation} {code : Int}
    (hclass : paintClass op.payload.mapping = some code) (chunks : Chunks) (fold : Fold)
    (cell : Key) : cellCode (foldPaint chunks op fold).1 cell =
      if cell ∈ paintCells op.payload.mapping then some code else cellCode chunks cell := by
  have hcells : ∀ (cells : List Key) (s : Chunks × Fold),
      cellCode (cells.foldl (paintCell op code) s).1 cell =
        if cell ∈ cells then some code else cellCode s.1 cell := by
    intro cells
    induction cells with
    | nil => simp
    | cons painted cells ih =>
      intro s
      rw [List.foldl_cons, ih, cellCode_paintCell]
      by_cases hmem : cell ∈ cells
      · simp [hmem]
      · by_cases hcell : painted = cell
        · simp [hcell]
        · simp [hmem, hcell, Ne.symm hcell]
  unfold foldPaint
  rw [hclass]
  exact hcells _ _

/-! ## The bound -/

def InclusiveBounds.holds (bounds : InclusiveBounds) (cell : Key) : Prop :=
  min bounds.rowStart bounds.rowEnd ≤ cell.1 ∧ cell.1 ≤ max bounds.rowStart bounds.rowEnd ∧
    min bounds.colStart bounds.colEnd ≤ cell.2 ∧ cell.2 ≤ max bounds.colStart bounds.colEnd

instance (bounds : InclusiveBounds) (cell : Key) : Decidable (bounds.holds cell) :=
  inferInstanceAs (Decidable (_ ∧ _))

/-- The inclusive bounds of the item, if it has them, hold all that it paints. -/
def PaintDeclared (item : BatchItem) : Prop :=
  ∀ cell ∈ itemPaint item, ∃ bounds ∈ inclusiveBounds item.payload, bounds.holds cell

instance (item : BatchItem) : Decidable (PaintDeclared item) :=
  inferInstanceAs (Decidable (∀ cell ∈ itemPaint item, _))

theorem InclusiveBounds.card_le (bounds : InclusiveBounds) {cells : Finset Key}
    (h : ∀ cell ∈ cells, bounds.holds cell) : cells.card ≤ bounds.area := by
  let rows := Finset.Icc (min bounds.rowStart bounds.rowEnd) (max bounds.rowStart bounds.rowEnd)
  let cols := Finset.Icc (min bounds.colStart bounds.colEnd) (max bounds.colStart bounds.colEnd)
  have hsub : cells ⊆ rows ×ˢ cols := by
    intro cell hcell
    obtain ⟨hlow, hhigh, hleft, hright⟩ := h cell hcell
    rw [Finset.mem_product, Finset.mem_Icc, Finset.mem_Icc]
    exact ⟨⟨hlow, hhigh⟩, hleft, hright⟩
  have hcard := Finset.card_le_card hsub
  rw [Finset.card_product, Int.card_Icc, Int.card_Icc] at hcard
  have hrows : (max bounds.rowStart bounds.rowEnd + 1 - min bounds.rowStart bounds.rowEnd).toNat =
      (bounds.rowEnd - bounds.rowStart).natAbs + 1 := by omega
  have hcols : (max bounds.colStart bounds.colEnd + 1 - min bounds.colStart bounds.colEnd).toNat =
      (bounds.colEnd - bounds.colStart).natAbs + 1 := by omega
  rw [hrows, hcols] at hcard
  exact hcard

theorem itemPaint_card_le {item : BatchItem} (h : PaintDeclared item) :
    (itemPaint item).toFinset.card ≤ itemArea item := by
  by_cases hnone : itemPaint item = []
  · rw [hnone]
    simp
  · obtain ⟨cell, hcell⟩ := List.exists_mem_of_ne_nil _ hnone
    have hfamily : item.sourceFamily = "landcover_surface" := by
      by_contra hother
      simp [itemPaint, hother] at hcell
    obtain ⟨bounds, hbounds, -⟩ := h cell hcell
    unfold itemArea
    rw [if_neg (not_not.mpr hfamily), hbounds, Option.elim_some]
    apply bounds.card_le
    intro other hother
    obtain ⟨same, hsame, hholds⟩ := h other (List.mem_toFinset.mp hother)
    rw [Option.mem_def, hbounds, Option.some.injEq] at hsame
    rw [hsame]
    exact hholds

theorem batchPaint_card_le {items : List BatchItem} (h : ∀ item ∈ items, PaintDeclared item) :
    (batchPaint items).card ≤ changedCells items := by
  induction items with
  | nil => simp [batchPaint, changedCells]
  | cons item items ih =>
    have hhead := itemPaint_card_le (h item (List.mem_cons_self ..))
    have htail := ih fun other hother => h other (List.mem_cons_of_mem _ hother)
    have hunion : batchPaint (item :: items) = (itemPaint item).toFinset ∪ batchPaint items := by
      simp [batchPaint]
    have hcard := Finset.card_union_le (itemPaint item).toFinset (batchPaint items)
    rw [← hunion] at hcard
    simp only [changedCells, List.map_cons, List.sum_cons] at htail ⊢
    omega

theorem changedCells_undeclared {items : List BatchItem}
    (h : ∀ item ∈ items, inclusiveBounds item.payload = none) : changedCells items = 0 := by
  unfold changedCells
  rw [List.sum_eq_zero]
  intro area harea
  obtain ⟨item, hitem, rfl⟩ := List.mem_map.mp harea
  unfold itemArea
  rw [h item hitem, Option.elim_none, ite_self]

theorem batchPaint_eq_empty {items : List BatchItem} :
    batchPaint items = ∅ ↔ ∀ item ∈ items, itemPaint item = [] := by
  unfold batchPaint
  rw [List.toFinset_eq_empty_iff, List.flatMap_eq_nil_iff]

/-- A brush of the wire form: half-open bounds, a class. -/
def brushWindow (rows cols : Int) : List (String × Json) :=
  [("row_start", .int 0), ("row_stop", .int rows), ("col_start", .int 0), ("col_stop", .int cols)]

def brush (window : List (String × Json)) : BatchItem where
  sourceFamily := "landcover_surface"
  verb := "paint"
  payload := .obj [("class", .int 5), ("window", .obj window)]

end Solweig.Realtime
