import Solweig.Bits.Lanes

/-!
# The codecs simulate dense arrays

Whatever window updates a codec takes, what it reads is the dense array after the same updates.
-/

namespace Solweig.Bits

open Solweig.Lib

/-! ## One update -/

section Updates

variable {α V : Type} {lanes : Lanes V} {data : Bytes} {patchCount n index : Nat} {rest : α}
  {code : α → V} {dense : Dense α}

/-- The bytes of every cell hold the patches of the dense array there, and nothing behind them. -/
def HoldsDense (lanes : Lanes V) (data : Bytes) (patchCount : Nat) (rest : α) (code : α → V)
    (dense : Dense α) : Prop :=
  ∀ row col, lanes.Holds (data row col) fun p => code (padded patchCount rest (dense row col) p)

theorem HoldsDense.modifyWindow (h : HoldsDense lanes data patchCount rest code dense)
    (hfits : ∀ row col, (data row col).length = n) (hindex : index < patchCount)
    {perByte : Nat} (hlanes : lanes.perByte = perByte) (hbyte : index / perByte < n)
    (hcode : ∀ a, lanes.Valid (code a)) (window : Window)
    {f : Nat → Nat → BitVec 8 → BitVec 8} {value : Nat → Nat → α}
    (hset : ∀ i j, i < window.shape.1 → j < window.shape.2 → ∀ byte,
      f i j byte = lanes.set byte (index % perByte) (code (value i j))) :
    HoldsDense lanes (modifyWindow data window (index / perByte) f) patchCount rest code
      (writeWindow dense window index value) := by
  subst hlanes
  intro row col
  unfold Bits.modifyWindow writeWindow
  split
  · rename_i hin
    have hshape : row - window.rowStart < window.shape.1 ∧
        col - window.colStart < window.shape.2 := by
      unfold Window.holds at hin
      unfold Window.shape
      dsimp only
      omega
    have hwritten := (h row col).write (by rw [hfits]; exact hbyte)
      (hcode (value (row - window.rowStart) (col - window.colStart)))
    have hf : f (row - window.rowStart) (col - window.colStart) = fun byte =>
        lanes.set byte (index % lanes.perByte)
          (code (value (row - window.rowStart) (col - window.colStart))) :=
      funext (hset _ _ hshape.1 hshape.2)
    rw [hf]
    intro p
    refine (hwritten p).trans ?_
    dsimp only
    rw [← padded_update rest _ _ hindex, Function.update_apply, Function.update_apply,
      apply_ite code]
  · exact h row col

end Updates

theorem byte_lt {patchCount index : Nat} (h : index < patchCount) :
    index / 8 < bytesPerPixel patchCount := by
  unfold bytesPerPixel
  omega

theorem byte_lt_2Bit {patchCount index : Nat} (h : index < patchCount) :
    index / 4 < bytesPerPixel2Bit patchCount := by
  unfold bytesPerPixel2Bit
  omega

/-! ## Runs of updates -/

theorem foldl_updates {σ α : Type} {Simulates : σ → Dense α → Prop}
    {step : σ → WindowUpdate → Except CodecError σ} {update : Dense α → WindowUpdate → Dense α}
    (hstep : ∀ packed dense u, Simulates packed dense →
      Simulates ((step packed u).toOption.getD packed) (update dense u))
    {packed : σ} {dense : Dense α} (h : Simulates packed dense) (updates : List WindowUpdate) :
    Simulates (updates.foldl (fun packed u => (step packed u).toOption.getD packed) packed)
      (updates.foldl update dense) := by
  induction updates generalizing packed dense with
  | nil => exact h
  | cons u updates ih => exact ih (hstep packed dense u h)

theorem toOption_of_not {σ : Type} {fits : Prop} {step : Except CodecError σ} (h : ¬ fits)
    (hstep : ∀ next, step = .ok next → fits) : step.toOption = none := by
  cases step with
  | error error => rfl
  | ok next => exact absurd (hstep next rfl) h

/-! ## One bit for each patch -/

/-- The bits of a raster stand for a dense array. -/
structure PackedVisibility.Simulates (rows cols patchCount : Nat) (bitorder : BitOrder)
    (packed : PackedVisibility) (dense : Dense Bool) : Prop where
  shape : packed.rows = rows ∧ packed.cols = cols ∧ packed.patchCount = patchCount
  order : packed.bitorder = bitorder
  holds : HoldsDense (bitLanes bitorder) packed.data patchCount false id dense

def binaryRun (rows cols patchCount : Nat) (dense : Dense Bool) (updates : List WindowUpdate) :
    Dense Bool :=
  updates.foldl (updateDense rows cols patchCount IsBinary readBinary) dense

def ternaryRun (rows cols patchCount : Nat) (dense : Dense (Fin 3))
    (updates : List WindowUpdate) : Dense (Fin 3) :=
  updates.foldl (updateDense rows cols patchCount IsTernary readTernary) dense

section Bits

variable {rows cols patchCount : Nat} {bitorder : BitOrder} {dense : Dense Bool}

theorem PackedVisibility.simulates_pack (h : 0 < patchCount) (rows cols : Nat)
    (bitorder : BitOrder) (dense : Dense Bool) :
    ∃ packed, packVisibility rows cols patchCount dense bitorder = .ok packed ∧
      packed.Simulates rows cols patchCount bitorder dense := by
  unfold packVisibility
  rw [dif_pos h]
  exact ⟨_, rfl, ⟨⟨rfl, rfl, rfl⟩, rfl, fun row col => bitLanes_packbits bitorder patchCount _⟩⟩

theorem PackedVisibility.setPatchWindow_of_fits {packed : PackedVisibility}
    {update : WindowUpdate}
    (h : update.Fits packed.rows packed.cols packed.patchCount IsBinary) :
    packed.setPatchWindow update = .ok { packed with
      data := modifyWindow packed.data (update.window packed.rows packed.cols)
        (update.patchIndex.toNat / 8) fun i j target =>
          writeBit packed.bitorder target (update.patchIndex.toNat % 8)
            (readBinary (update.values.value i j))
      fits := length_modifyWindow packed.fits _ _ _ } := by
  obtain ⟨hindex, hvalues, hshape⟩ := h
  simp [setPatchWindow, refuseIf, hindex, hvalues, hshape, writeBit, readBinary]

theorem PackedVisibility.setPatchWindow_refused {packed : PackedVisibility}
    {update : WindowUpdate}
    (h : ¬ update.Fits packed.rows packed.cols packed.patchCount IsBinary) :
    (packed.setPatchWindow update).toOption = none := by
  apply toOption_of_not h
  intro next hnext
  simp only [setPatchWindow, except_bind_ok, refuseIf_ok, not_not] at hnext
  obtain ⟨-, hindex, -, hvalues, -, hshape, -⟩ := hnext
  exact ⟨hindex, hvalues, hshape⟩

theorem PackedVisibility.Simulates.setPatchWindow {packed : PackedVisibility}
    (h : packed.Simulates rows cols patchCount bitorder dense) (update : WindowUpdate) :
    PackedVisibility.Simulates rows cols patchCount bitorder
      ((packed.setPatchWindow update).toOption.getD packed)
      (updateDense rows cols patchCount IsBinary readBinary dense update) := by
  obtain ⟨⟨rfl, rfl, rfl⟩, rfl, hholds⟩ := h
  unfold updateDense
  split
  · rename_i hfits
    rw [PackedVisibility.setPatchWindow_of_fits hfits]
    have hindex : update.patchIndex.toNat < packed.patchCount := by
      have hrange := hfits.1
      omega
    have hset : ∀ i j, i < (update.window packed.rows packed.cols).shape.1 →
        j < (update.window packed.rows packed.cols).shape.2 → ∀ byte,
        writeBit packed.bitorder byte (update.patchIndex.toNat % 8)
          (readBinary (update.values.value i j)) =
        (bitLanes packed.bitorder).set byte (update.patchIndex.toNat % 8)
          (id (readBinary (update.values.value i j))) := fun _ _ _ _ _ => rfl
    have hnew := hholds.modifyWindow packed.fits hindex
      (show (bitLanes packed.bitorder).perByte = 8 from rfl) (byte_lt hindex)
      (fun _ => trivial) _ hset
    exact ⟨⟨rfl, rfl, rfl⟩, rfl, hnew⟩
  · rename_i hfits
    rw [PackedVisibility.setPatchWindow_refused hfits]
    exact ⟨⟨rfl, rfl, rfl⟩, rfl, hholds⟩

/-- What a packed array reads, in the cells of its raster. -/
structure PackedVisibility.Reads (packed : PackedVisibility) (rows cols patchCount : Nat)
    (dense : Dense Bool) : Prop where
  full : ∃ planes, packed.unpackVisibility 0 none = .ok planes ∧
    ∀ row < rows, ∀ col < cols, planes row col = (List.range patchCount).map (dense row col)
  range : ∀ start stop : Nat, start ≤ stop → stop ≤ patchCount →
    ∃ planes, packed.unpackVisibility start (some stop) = .ok planes ∧
      ∀ row < rows, ∀ col < cols,
        planes row col = (((List.range patchCount).map (dense row col)).take stop).drop start
  patch : ∀ p < patchCount, ∃ plane, packed.unpackPatch p = .ok plane ∧
    ∀ row < rows, ∀ col < cols, plane row col = dense row col p
  padding : ∀ row < rows, ∀ col < cols, ∀ p, patchCount ≤ p →
    unpackBit packed.bitorder (byteAt (packed.data row col) (p / 8)) (p % 8) = false

theorem HoldsDense.unpackBit {data : Bytes}
    (h : HoldsDense (bitLanes bitorder) data patchCount false id dense) (row col p : Nat) :
    Bits.unpackBit bitorder (byteAt (data row col) (p / 8)) (p % 8) =
      padded patchCount false (dense row col) p :=
  h row col p

theorem HoldsDense.unpackbits {data : Bytes}
    (h : HoldsDense (bitLanes bitorder) data patchCount false id dense) (row col : Nat) :
    Bits.unpackbits bitorder (data row col) patchCount =
      (List.range patchCount).map (dense row col) := by
  unfold Bits.unpackbits
  refine List.map_congr_left fun p hp => ?_
  rw [h.unpackBit, padded, if_pos (List.mem_range.mp hp)]

theorem PackedVisibility.Simulates.reads {packed : PackedVisibility}
    (h : packed.Simulates rows cols patchCount bitorder dense) :
    packed.Reads rows cols patchCount dense := by
  obtain ⟨⟨rfl, rfl, rfl⟩, rfl, hholds⟩ := h
  constructor
  · unfold unpackVisibility
    rw [if_pos (by simp)]
    refine ⟨_, rfl, fun row _ col _ => ?_⟩
    rw [hholds.unpackbits]
    simp
  · intro start stop hstart hstop
    unfold unpackVisibility
    rw [if_pos ⟨by omega, by simpa using hstart, by simpa using hstop⟩]
    refine ⟨_, rfl, fun row _ col _ => ?_⟩
    rw [hholds.unpackbits]
    simp
  · intro p hp
    unfold unpackPatch
    rw [if_pos ⟨by omega, by omega⟩]
    refine ⟨_, rfl, fun row _ col _ => ?_⟩
    rw [and_bitMask _ _ (Nat.mod_lt _ (Nat.succ_pos 7)), Int.toNat_natCast, hholds.unpackBit, padded,
      if_pos hp]
  · intro row _ col _ p hp
    rw [hholds.unpackBit, padded, if_neg (by omega)]

end Bits

/-! ## Two bits for each patch -/

structure PackedVisibility2Bit.Simulates (rows cols patchCount : Nat)
    (packed : PackedVisibility2Bit) (dense : Dense (Fin 3)) : Prop where
  shape : packed.rows = rows ∧ packed.cols = cols ∧ packed.patchCount = patchCount
  holds : HoldsDense pairLanes packed.data patchCount 0 pairCode dense

/-- What a packed array of two bits reads; the values are the codes of three. -/
structure PackedVisibility2Bit.Reads (packed : PackedVisibility2Bit)
    (rows cols patchCount : Nat) (dense : Dense (Fin 3)) : Prop where
  full : ∃ planes, packed.unpackVisibility2Bit = .ok planes ∧ ∀ row < rows, ∀ col < cols,
    planes row col = (List.range patchCount).map fun p => BitVec.ofNat 8 (dense row col p)
  patch : ∀ p < patchCount, ∃ plane, packed.unpackPatch2Bit p = .ok plane ∧
    ∀ row < rows, ∀ col < cols, plane row col = BitVec.ofNat 8 (dense row col p)
  padding : ∀ row < rows, ∀ col < cols, ∀ p, patchCount ≤ p →
    (byteAt (packed.data row col) (p / 4) >>> (p % 4 * 2)) &&& 3#8 = 0

section Pairs

variable {rows cols patchCount : Nat} {dense : Dense (Fin 3)}

theorem PackedVisibility2Bit.simulates_pack (h : 0 < patchCount) (rows cols : Nat)
    (dense : Dense (Fin 3)) :
    ∃ packed, packVisibility2Bit rows cols patchCount dense = .ok packed ∧
      packed.Simulates rows cols patchCount dense := by
  unfold packVisibility2Bit
  rw [dif_pos h]
  exact ⟨_, rfl, ⟨rfl, rfl, rfl⟩, fun row col => pairLanes_pack2Bit patchCount _⟩

theorem PackedVisibility2Bit.setPatchWindow_of_fits {packed : PackedVisibility2Bit}
    {update : WindowUpdate}
    (h : update.Fits packed.rows packed.cols packed.patchCount IsTernary) :
    packed.setPatchWindow2Bit update = .ok { packed with
      data := modifyWindow packed.data (update.window packed.rows packed.cols)
        (update.patchIndex.toNat / 4) fun i j target =>
          writePair target (update.patchIndex.toNat % 4)
            (BitVec.ofNat 8 ⌊update.values.value i j⌋.toNat)
      fits := length_modifyWindow packed.fits _ _ _ } := by
  obtain ⟨hindex, hvalues, hshape⟩ := h
  simp [setPatchWindow2Bit, refuseIf, hindex, hvalues, hshape, writePair]

theorem PackedVisibility2Bit.setPatchWindow_refused {packed : PackedVisibility2Bit}
    {update : WindowUpdate}
    (h : ¬ update.Fits packed.rows packed.cols packed.patchCount IsTernary) :
    (packed.setPatchWindow2Bit update).toOption = none := by
  apply toOption_of_not h
  intro next hnext
  simp only [setPatchWindow2Bit, except_bind_ok, refuseIf_ok, not_not] at hnext
  obtain ⟨-, hindex, -, hvalues, -, hshape, -⟩ := hnext
  exact ⟨hindex, hvalues, hshape⟩

theorem PackedVisibility2Bit.Simulates.setPatchWindow {packed : PackedVisibility2Bit}
    (h : packed.Simulates rows cols patchCount dense) (update : WindowUpdate) :
    PackedVisibility2Bit.Simulates rows cols patchCount
      ((packed.setPatchWindow2Bit update).toOption.getD packed)
      (updateDense rows cols patchCount IsTernary readTernary dense update) := by
  obtain ⟨⟨rfl, rfl, rfl⟩, hholds⟩ := h
  unfold updateDense
  split
  · rename_i hfits
    rw [PackedVisibility2Bit.setPatchWindow_of_fits hfits]
    obtain ⟨hrange, hvalues, hshape⟩ := hfits
    have hindex : update.patchIndex.toNat < packed.patchCount := by omega
    have hset : ∀ i j, i < (update.window packed.rows packed.cols).shape.1 →
        j < (update.window packed.rows packed.cols).shape.2 → ∀ byte,
        writePair byte (update.patchIndex.toNat % 4)
          (BitVec.ofNat 8 ⌊update.values.value i j⌋.toNat) =
        pairLanes.set byte (update.patchIndex.toNat % 4)
          (pairCode (readTernary (update.values.value i j))) := by
      intro i j hi hj byte
      rw [← hshape] at hi hj
      rw [pairCode_readTernary (hvalues i hi j hj)]
      rfl
    have hnew := hholds.modifyWindow packed.fits hindex
      (show pairLanes.perByte = 4 from rfl) (byte_lt_2Bit hindex) isPair_pairCode _ hset
    exact ⟨⟨rfl, rfl, rfl⟩, hnew⟩
  · rename_i hfits
    rw [PackedVisibility2Bit.setPatchWindow_refused hfits]
    exact ⟨⟨rfl, rfl, rfl⟩, hholds⟩

theorem HoldsDense.readPair {data : Bytes}
    (h : HoldsDense pairLanes data patchCount 0 pairCode dense) (row col p : Nat) :
    Bits.readPair (byteAt (data row col) (p / 4)) (p % 4) =
      pairCode (padded patchCount 0 (dense row col) p) :=
  h row col p

theorem HoldsDense.unpackPairs {data : Bytes}
    (h : HoldsDense pairLanes data patchCount 0 pairCode dense)
    (hfits : ∀ row col, (data row col).length = bytesPerPixel2Bit patchCount) (row col : Nat) :
    ((data row col).flatMap fun byte =>
        shifts.map fun shift => (byte >>> shift) &&& 3#8).take patchCount =
      (List.range patchCount).map fun p => pairCode (dense row col p) := by
  apply List.ext_getElem?
  intro p
  rw [List.getElem?_take]
  split
  · rename_i hp
    have hbyte : p / 4 < (data row col).length := by
      rw [hfits]
      exact byte_lt_2Bit hp
    have hread := h.readPair row col p
    rw [padded, if_pos hp, byteAt, List.getElem?_eq_getElem hbyte, Option.getD_some] at hread
    rw [getElem?_flatMap_blocks (Nat.succ_pos 3) (fun _ => rfl),
      List.getElem?_eq_getElem hbyte, Option.bind_some, List.getElem?_map (l := List.range _),
      List.getElem?_range hp, Option.map_some, ← hread]
    have hlane := Nat.mod_lt p (Nat.succ_pos 3)
    generalize p % 4 = lane at hlane
    interval_cases lane <;> rfl
  · rename_i hp
    rw [List.getElem?_eq_none (by simpa using hp)]

theorem PackedVisibility2Bit.pack_ok {packed : PackedVisibility2Bit}
    (h : packVisibility2Bit rows cols patchCount dense = .ok packed) :
    0 < patchCount ∧ packed.rows = rows ∧ packed.cols = cols := by
  unfold packVisibility2Bit at h
  split at h
  · rename_i hcount
    cases h
    exact ⟨hcount, rfl, rfl⟩
  · cases h

theorem PackedVisibility2Bit.setPatchWindow_shape (packed : PackedVisibility2Bit)
    (update : WindowUpdate) :
    ((packed.setPatchWindow2Bit update).toOption.getD packed).rows = packed.rows ∧
      ((packed.setPatchWindow2Bit update).toOption.getD packed).cols = packed.cols := by
  by_cases hfits : update.Fits packed.rows packed.cols packed.patchCount IsTernary
  · rw [PackedVisibility2Bit.setPatchWindow_of_fits hfits]
    exact ⟨rfl, rfl⟩
  · rw [PackedVisibility2Bit.setPatchWindow_refused hfits]
    exact ⟨rfl, rfl⟩

theorem PackedVisibility2Bit.setPatchWindows_shape (packed : PackedVisibility2Bit)
    (updates : List WindowUpdate) :
    (packed.setPatchWindows updates).rows = packed.rows ∧
      (packed.setPatchWindows updates).cols = packed.cols := by
  unfold setPatchWindows
  induction updates generalizing packed with
  | nil => exact ⟨rfl, rfl⟩
  | cons update updates ih =>
    obtain ⟨hrows, hcols⟩ := packed.setPatchWindow_shape update
    obtain ⟨hrows', hcols'⟩ := ih ((packed.setPatchWindow2Bit update).toOption.getD packed)
    exact ⟨hrows'.trans hrows, hcols'.trans hcols⟩

theorem PackedVisibility2Bit.reads_positive {packed : PackedVisibility2Bit}
    {updates : List WindowUpdate} {other : Dense (Fin 3)}
    (hpack : packVisibility2Bit rows cols patchCount dense = .ok packed)
    (h : (packed.setPatchWindows updates).Reads rows cols patchCount other) :
    0 < rows ∧ 0 < cols ∧ 0 < patchCount := by
  obtain ⟨hcount, rfl, rfl⟩ := pack_ok hpack
  obtain ⟨hrows, hcols⟩ := packed.setPatchWindows_shape updates
  obtain ⟨planes, hplanes, -⟩ := h.full
  unfold unpackVisibility2Bit at hplanes
  rw [except_bind_ok] at hplanes
  obtain ⟨_, hcell, _⟩ := hplanes
  rw [refuseIf_ok, hrows, hcols] at hcell
  omega

theorem PackedVisibility2Bit.Simulates.reads {packed : PackedVisibility2Bit}
    (h : packed.Simulates rows cols patchCount dense) (hrows : 0 < rows) (hcols : 0 < cols) :
    packed.Reads rows cols patchCount dense := by
  obtain ⟨⟨rfl, rfl, rfl⟩, hholds⟩ := h
  constructor
  · unfold unpackVisibility2Bit
    rw [refuseIf, if_neg (by omega)]
    exact ⟨_, rfl, fun row _ col _ => hholds.unpackPairs packed.fits row col⟩
  · intro p hp
    unfold unpackPatch2Bit
    rw [if_pos ⟨by omega, by omega⟩]
    refine ⟨_, rfl, fun row _ col _ => ?_⟩
    have hread := hholds.readPair row col p
    rw [padded, if_pos hp] at hread
    exact hread
  · intro row _ col _ p hp
    have hread := hholds.readPair row col p
    rw [padded, if_neg (by omega)] at hread
    exact hread

end Pairs

/-! ## Bit planes -/

/-- The planes have the bytes of the array of bits. -/
structure PackedBits.Same (planes : PackedBits) (packed : PackedVisibility) : Prop where
  shape : planes.rows = packed.rows ∧ planes.cols = packed.cols ∧
    planes.patchCount = packed.patchCount
  order : packed.bitorder = .little
  data : planes.data = packed.data

structure PackedBits.Reads (planes : PackedBits) (rows cols patchCount : Nat)
    (dense : Dense Bool) : Prop where
  full : ∀ row < rows, ∀ col < cols,
    planes.unpackBits row col = (List.range patchCount).map (dense row col)
  patch : ∀ p < patchCount, ∃ plane, planes.unpackPatch p = .ok plane ∧
    ∀ row < rows, ∀ col < cols, plane row col = dense row col p
  padding : ∀ row < rows, ∀ col < cols, ∀ p, patchCount ≤ p →
    (byteAt (planes.data row col) (p / 8)).getLsbD (p % 8) = false

section Planes

variable {planes : PackedBits} {packed : PackedVisibility}

theorem modifyWindow_empty (data : Bytes) {window : Window} (h : window.Empty) (byteIndex : Nat)
    (f : Nat → Nat → BitVec 8 → BitVec 8) : modifyWindow data window byteIndex f = data := by
  funext row col
  unfold modifyWindow
  rw [if_neg (Window.not_holds_of_empty h row col)]

theorem modifyWindow_congr (data : Bytes) (window : Window) (byteIndex : Nat)
    {f g : Nat → Nat → BitVec 8 → BitVec 8}
    (h : ∀ i j, i < window.shape.1 → j < window.shape.2 → f i j = g i j) :
    modifyWindow data window byteIndex f = modifyWindow data window byteIndex g := by
  funext row col
  unfold modifyWindow
  split
  · rename_i hin
    rw [h]
    · unfold Window.holds at hin
      unfold Window.shape
      dsimp only
      omega
    · unfold Window.holds at hin
      unfold Window.shape
      dsimp only
      omega
  · rfl

theorem PackedBits.setPatchWindow_of_fits {update : WindowUpdate}
    (h : update.Fits planes.rows planes.cols planes.patchCount IsBinary)
    (hsome : ¬ (update.window planes.rows planes.cols).Empty) :
    ∃ next, planes.setPatchWindow update = .ok next ∧ next.rows = planes.rows ∧
      next.cols = planes.cols ∧ next.patchCount = planes.patchCount ∧
      next.data = modifyWindow planes.data (update.window planes.rows planes.cols)
        (update.patchIndex.toNat / 8) fun i j sub =>
          writeBit .little sub (update.patchIndex.toNat % 8)
            (readBinary (update.values.value i j)) := by
  obtain ⟨hindex, hvalues, hshape⟩ := h
  have hnot : ¬ (update.patchIndex < 0 ∨ planes.patchCount ≤ update.patchIndex) := by omega
  simp only [setPatchWindow, refuseIf, if_neg hnot, if_neg hsome, hshape, hvalues, not_true,
    ne_eq, if_false]
  refine ⟨_, rfl, rfl, rfl, rfl, ?_⟩
  dsimp only
  apply modifyWindow_congr
  intro i j hi hj
  rw [← hshape] at hi hj
  funext sub
  exact clear_then_set sub _ (hvalues i hi j hj)

theorem PackedBits.setPatchWindow_refused {update : WindowUpdate}
    (h : ¬ update.Fits planes.rows planes.cols planes.patchCount IsBinary ∨
      (update.window planes.rows planes.cols).Empty) :
    (planes.setPatchWindow update).toOption = none := by
  have hnot : ¬ (update.Fits planes.rows planes.cols planes.patchCount IsBinary ∧
      ¬ (update.window planes.rows planes.cols).Empty) := by tauto
  apply toOption_of_not hnot
  intro next hnext
  simp only [setPatchWindow, except_bind_ok, refuseIf_ok, not_not, not_or, not_lt, not_le]
    at hnext
  obtain ⟨-, hindex, -, hempty, -, hshape, -, hvalues, -⟩ := hnext
  exact ⟨⟨hindex, hvalues, hshape⟩, hempty⟩

/-- One update keeps the bytes the same: an empty window, which the planes refuse, has no cell. -/
theorem PackedBits.Same.setPatchWindow (h : planes.Same packed) (update : WindowUpdate) :
    PackedBits.Same ((planes.setPatchWindow update).toOption.getD planes)
      ((packed.setPatchWindow update).toOption.getD packed) := by
  obtain ⟨⟨hrows, hcols, hcount⟩, horder, hdata⟩ := h
  by_cases hfits : update.Fits packed.rows packed.cols packed.patchCount IsBinary
  · rw [PackedVisibility.setPatchWindow_of_fits hfits]
    by_cases hempty : (update.window planes.rows planes.cols).Empty
    · rw [PackedBits.setPatchWindow_refused (Or.inr hempty)]
      rw [hrows, hcols] at hempty
      refine ⟨⟨hrows, hcols, hcount⟩, horder, ?_⟩
      simp only [Except.toOption, Option.getD_none, Option.getD_some, modifyWindow_empty _ hempty,
        hdata]
    · rw [← hrows, ← hcols, ← hcount] at hfits
      obtain ⟨next, hnext, hrows', hcols', hcount', hdata'⟩ :=
        PackedBits.setPatchWindow_of_fits hfits hempty
      rw [hnext]
      refine ⟨⟨hrows'.trans hrows, hcols'.trans hcols, hcount'.trans hcount⟩, horder, ?_⟩
      simp only [Except.toOption, Option.getD_some, hdata', hdata, hrows, hcols, horder]
  · rw [PackedVisibility.setPatchWindow_refused hfits, PackedBits.setPatchWindow_refused]
    · exact ⟨⟨hrows, hcols, hcount⟩, horder, hdata⟩
    · rw [hrows, hcols, hcount]
      exact Or.inl hfits

theorem PackedBits.same_pack {patchCount : Nat} (h : 0 < patchCount) (rows cols : Nat)
    (dense : Dense Bool) (hpack : packVisibility rows cols patchCount dense .little = .ok packed) :
    ∃ planes, packBits rows cols patchCount dense = .ok planes ∧ planes.Same packed := by
  unfold packVisibility at hpack
  rw [dif_pos h] at hpack
  cases hpack
  unfold packBits
  rw [dif_pos h]
  exact ⟨_, rfl, ⟨rfl, rfl, rfl⟩, rfl, rfl⟩

theorem PackedBits.Same.setPatchWindows (h : planes.Same packed) (updates : List WindowUpdate) :
    (planes.setPatchWindows updates).Same (packed.setPatchWindows updates) := by
  unfold PackedBits.setPatchWindows PackedVisibility.setPatchWindows
  induction updates generalizing planes packed with
  | nil => exact h
  | cons update updates ih => exact ih (h.setPatchWindow update)

theorem PackedBits.Same.reads {rows cols patchCount : Nat} {dense : Dense Bool}
    (h : planes.Same packed) (hsim : packed.Simulates rows cols patchCount .little dense) :
    planes.Reads rows cols patchCount dense := by
  obtain ⟨⟨rfl, rfl, rfl⟩, -, hholds⟩ := hsim
  obtain ⟨⟨hrows, hcols, hcount⟩, -, hdata⟩ := h
  rw [← hdata] at hholds
  constructor
  · intro row _ col _
    unfold unpackBits
    rw [hcount]
    exact hholds.unpackbits row col
  · intro p hp
    unfold unpackPatch
    rw [if_neg (by omega)]
    refine ⟨_, rfl, fun row _ col _ => ?_⟩
    rw [shift_and_one, Int.toNat_natCast, hholds.unpackBit, padded, if_pos hp]
  · intro row _ col _ p hp
    have hbit := hholds.unpackBit row col p
    rw [padded, if_neg (by omega)] at hbit
    exact hbit

end Planes

/-! ## All codecs -/

/-- Each codec packs the dense arrays, and reads the arrays after the updates; the planes have the
bytes of the little-endian bits. -/
def CodecsSimulate (rows cols patchCount : Nat) (dense : Dense Bool) (ternary : Dense (Fin 3))
    (updates : List WindowUpdate) : Prop :=
  (∀ bitorder, ∃ packed, packVisibility rows cols patchCount dense bitorder = .ok packed ∧
    (packed.setPatchWindows updates).Reads rows cols patchCount
      (binaryRun rows cols patchCount dense updates)) ∧
  (∃ packed, packVisibility2Bit rows cols patchCount ternary = .ok packed ∧
    (packed.setPatchWindows updates).Reads rows cols patchCount
      (ternaryRun rows cols patchCount ternary updates)) ∧
  ∃ packed planes, packVisibility rows cols patchCount dense .little = .ok packed ∧
    packBits rows cols patchCount dense = .ok planes ∧
    (planes.setPatchWindows updates).Reads rows cols patchCount
      (binaryRun rows cols patchCount dense updates) ∧
    (planes.setPatchWindows updates).data = (packed.setPatchWindows updates).data

/-- The codecs simulate dense arrays where there is a cell and a patch. -/
theorem codecsSimulate_iff (rows cols patchCount : Nat) (dense : Dense Bool)
    (ternary : Dense (Fin 3)) (updates : List WindowUpdate) :
    CodecsSimulate rows cols patchCount dense ternary updates ↔
      0 < rows ∧ 0 < cols ∧ 0 < patchCount := by
  constructor
  · rintro ⟨hbits, ⟨packed, hpack, hreads⟩, -⟩
    obtain ⟨hrows, hcols, hcount⟩ := PackedVisibility2Bit.reads_positive hpack hreads
    exact ⟨hrows, hcols, hcount⟩
  · rintro ⟨hrows, hcols, hcount⟩
    refine ⟨fun bitorder => ?_, ?_, ?_⟩
    · obtain ⟨packed, hpack, hsim⟩ :=
        PackedVisibility.simulates_pack hcount rows cols bitorder dense
      exact ⟨packed, hpack,
        (foldl_updates (fun _ _ u h => h.setPatchWindow u) hsim updates).reads⟩
    · obtain ⟨packed, hpack, hsim⟩ :=
        PackedVisibility2Bit.simulates_pack hcount rows cols ternary
      exact ⟨packed, hpack,
        (foldl_updates (fun _ _ u h => h.setPatchWindow u) hsim updates).reads hrows hcols⟩
    · obtain ⟨packed, hpack, hsim⟩ :=
        PackedVisibility.simulates_pack hcount rows cols .little dense
      obtain ⟨planes, hplanes, hsame⟩ := PackedBits.same_pack hcount rows cols dense hpack
      have hrun := hsame.setPatchWindows updates
      exact ⟨packed, planes, hpack, hplanes,
        hrun.reads (foldl_updates (fun _ _ u h => h.setPatchWindow u) hsim updates), hrun.data⟩

/-- A raster without a row is packed, but its pairs of bits are not read. -/
theorem codecs_refuse_emptyRaster :
    (∃ packed, packVisibility2Bit 0 3 5 (fun _ _ _ => 0) = .ok packed ∧
      packed.unpackVisibility2Bit = .error .unknownDimension) ∧
    ¬ CodecsSimulate 0 3 5 (fun _ _ _ => false) (fun _ _ _ => 0) [] := by
  refine ⟨⟨_, rfl, rfl⟩, ?_⟩
  rintro ⟨-, ⟨packed, hpack, hreads⟩, -⟩
  exact absurd (PackedVisibility2Bit.reads_positive hpack hreads).1 (Nat.lt_irrefl 0)

end Solweig.Bits
