import Mathlib.Tactic.IntervalCases
import Solweig.Bits.Codecs
import Solweig.Lib.Lanes

/-!
# The lanes of the codecs

Each codec keeps its codes in lanes: what it packs holds the dense array, and a window update
writes the lanes of one patch.
-/

namespace Solweig.Bits

open Solweig.Lib

/-! ## Bits -/

/-- Where the bit of a lane is. -/
def position (bitorder : BitOrder) (lane : Nat) : Nat :=
  match bitorder with
  | .little => lane
  | .big => 7 - lane

theorem unpackBit_eq (bitorder : BitOrder) (byte : BitVec 8) {lane : Nat} (h : lane < 8) :
    unpackBit bitorder byte lane = byte.getLsbD (position bitorder lane) := by
  cases bitorder with
  | little => rfl
  | big => simp [unpackBit, position, BitVec.getMsbD, h]

theorem bitMask_eq (bitorder : BitOrder) (lane : Nat) :
    PackedVisibility.bitMask bitorder lane = BitVec.twoPow 8 (position bitorder lane) := by
  cases bitorder <;> simp [PackedVisibility.bitMask, position, BitVec.twoPow_eq]

theorem position_lt (bitorder : BitOrder) {lane : Nat} (h : lane < 8) :
    position bitorder lane < 8 := by
  unfold position
  split <;> omega

theorem position_inj {bitorder : BitOrder} {lane other : Nat} (h : lane < 8) (hother : other < 8) :
    position bitorder other = position bitorder lane ↔ other = lane := by
  unfold position
  split <;> omega

/-- A bit set or cleared, the others left. -/
def writeBit (bitorder : BitOrder) (byte : BitVec 8) (lane : Nat) (value : Bool) : BitVec 8 :=
  if value then byte ||| PackedVisibility.bitMask bitorder lane
  else byte &&& ~~~PackedVisibility.bitMask bitorder lane

theorem unpackBit_writeBit (bitorder : BitOrder) (byte : BitVec 8) (value : Bool)
    {lane other : Nat} (h : lane < 8) (hother : other < 8) :
    unpackBit bitorder (writeBit bitorder byte lane value) other =
      if other = lane then value else unpackBit bitorder byte other := by
  have hlt := position_lt bitorder h
  have hlt' := position_lt bitorder hother
  rw [unpackBit_eq _ _ hother, unpackBit_eq _ _ hother]
  unfold writeBit
  rw [bitMask_eq]
  by_cases hsame : other = lane
  · rw [if_pos hsame, hsame]
    cases value <;> simp [hlt]
  · have hne : position bitorder other ≠ position bitorder lane :=
      fun heq => hsame ((position_inj h hother).mp heq)
    rw [if_neg hsame]
    cases value
    · simp [hlt', hne]
    · simp [BitVec.getLsbD_twoPow, hne.symm]

def bitLanes (bitorder : BitOrder) : Lanes Bool where
  perByte := 8
  positive := Nat.succ_pos 7
  Valid := fun _ => True
  get := unpackBit bitorder
  set := writeBit bitorder
  get_set := fun byte lane value hlane _ => by
    rw [unpackBit_writeBit _ _ _ hlane hlane, if_pos rfl]
  get_set_ne := fun byte lane other value hlane hother _ hne => by
    rw [unpackBit_writeBit _ _ _ hlane hother, if_neg hne]

theorem unpackBit_zero (bitorder : BitOrder) (lane : Nat) :
    unpackBit bitorder 0 lane = false := by
  cases bitorder <;> simp [unpackBit]

theorem unpackBit_packByte (bitorder : BitOrder) (bits : Nat → Bool) {lane : Nat} (h : lane < 8) :
    unpackBit bitorder (packByte bitorder bits) lane = bits lane := by
  cases bitorder with
  | little => 
    rw [unpackBit, packByte, BitVec.getLsbD_ofBoolListLE]
    interval_cases lane <;> rfl
  | big =>
    rw [unpackBit, packByte, BitVec.getMsbD_ofBoolListBE]
    interval_cases lane <;> rfl

theorem bitLanes_packbits (bitorder : BitOrder) (count : Nat) (bits : Nat → Bool) :
    (bitLanes bitorder).Holds (packbits bitorder ((List.range count).map bits))
      (padded count false bits) := by
  intro index
  have hlane := Nat.mod_lt index (Nat.succ_pos 7)
  show unpackBit bitorder (byteAt _ (index / 8)) (index % 8) = _
  unfold byteAt packbits padded
  rw [List.getElem?_map, List.length_map, List.length_range]
  by_cases hbyte : index / 8 < (count + 7) / 8
  · rw [List.getElem?_range hbyte, Option.map_some, Option.getD_some,
      unpackBit_packByte _ _ hlane, Nat.div_add_mod, List.getElem?_map]
    split
    · rename_i hindex
      rw [List.getElem?_range hindex]
      rfl
    · rename_i hindex
      rw [List.getElem?_eq_none (by simpa using hindex)]
      rfl
  · rw [List.getElem?_eq_none (by simpa using hbyte), Option.map_none, Option.getD_none,
      unpackBit_zero, if_neg (by omega)]

theorem and_bitMask (bitorder : BitOrder) (byte : BitVec 8) {lane : Nat} (h : lane < 8) :
    decide (byte &&& PackedVisibility.bitMask bitorder lane ≠ 0#8) =
      unpackBit bitorder byte lane := by
  have hlt := position_lt bitorder h
  have hmask : BitVec.twoPow 8 (position bitorder lane) ≠ 0#8 := by
    intro hzero
    have hbit := congrArg (fun b : BitVec 8 => b.getLsbD (position bitorder lane)) hzero
    simp [hlt] at hbit
  rw [unpackBit_eq _ _ h, bitMask_eq, BitVec.and_twoPow]
  cases byte.getLsbD (position bitorder lane) <;> simp [hmask]

theorem shift_and_one (byte : BitVec 8) (lane : Nat) :
    decide ((byte >>> lane) &&& 1#8 = 1#8) = unpackBit .little byte lane := by
  unfold unpackBit
  rw [BitVec.and_one_eq_setWidth_ofBool_getLsbD, BitVec.getLsbD_ushiftRight, Nat.add_zero]
  cases byte.getLsbD lane <;> rfl

theorem clear_then_set (sub : BitVec 8) (lane : Nat) {value : Rat} (h : IsBinary value) :
    (sub &&& ((1#8 <<< lane) ^^^ 0xFF#8)) ||| (1#8 <<< lane) * (if value = 1 then 1#8 else 0#8) =
      writeBit .little sub lane (readBinary value) := by
  have hones : (1#8 <<< lane) ^^^ 0xFF#8 = ~~~(1#8 <<< lane) := BitVec.xor_allOnes
  rw [hones]
  rcases h with rfl | rfl
  · simp [writeBit, readBinary, PackedVisibility.bitMask]
  · have hset : ∀ mask : BitVec 8, (sub &&& ~~~mask) ||| mask = sub ||| mask := by
      intro mask
      ext i hi
      simp only [BitVec.getElem_or, BitVec.getElem_and, BitVec.getElem_not]
      cases mask[i] <;> simp
    rw [if_pos rfl, BitVec.mul_one, hset]
    rfl

/-! ## Pairs of bits -/

theorem getLsbD_three (i : Nat) : (3#8).getLsbD i = decide (i < 2) := by
  match i with
  | 0 => rfl
  | 1 => rfl
  | i + 2 =>
    have hsmall : Nat.testBit 3 (i + 2) = false := by
      rw [Nat.testBit_succ, Nat.testBit_succ]
      exact Nat.zero_testBit i
    rw [BitVec.getLsbD_ofNat, hsmall]
    simp

def readPair (byte : BitVec 8) (lane : Nat) : BitVec 8 := (byte >>> (lane * 2)) &&& 3#8

def writePair (byte : BitVec 8) (lane : Nat) (value : BitVec 8) : BitVec 8 :=
  (byte &&& ~~~(3#8 <<< (lane * 2))) ||| (value <<< (lane * 2))

theorem getLsbD_readPair (byte : BitVec 8) (lane i : Nat) :
    (readPair byte lane).getLsbD i = (byte.getLsbD (lane * 2 + i) && decide (i < 2)) := by
  unfold readPair
  rw [BitVec.getLsbD_and, BitVec.getLsbD_ushiftRight, getLsbD_three]

theorem getLsbD_writePair (byte : BitVec 8) (lane : Nat) (value : BitVec 8) {i : Nat} (h : i < 8) :
    (writePair byte lane value).getLsbD i =
      ((byte.getLsbD i && !(decide (lane * 2 ≤ i) && decide (i < lane * 2 + 2))) ||
        (decide (lane * 2 ≤ i) && value.getLsbD (i - lane * 2))) := by
  unfold writePair
  rw [BitVec.getLsbD_or, BitVec.getLsbD_and, BitVec.getLsbD_not, BitVec.getLsbD_shiftLeft,
    BitVec.getLsbD_shiftLeft, getLsbD_three]
  by_cases hle : lane * 2 ≤ i
  · have hnot : ¬ i < lane * 2 := by omega
    have hiff : i - lane * 2 < 2 ↔ i < lane * 2 + 2 := by omega
    simp [h, hle, hnot, hiff]
  · have hlt : i < lane * 2 := by omega
    simp [h, hle, hlt]

/-- A code of two bits. -/
def IsPair (value : BitVec 8) : Prop := ∀ i, 2 ≤ i → value.getLsbD i = false

theorem readPair_writePair {byte value : BitVec 8} {lane : Nat} (_ : lane < 4)
    (hvalue : IsPair value) : readPair (writePair byte lane value) lane = value := by
  apply BitVec.eq_of_getLsbD_eq
  intro i hi
  rw [getLsbD_readPair]
  by_cases htwo : i < 2
  · rw [getLsbD_writePair _ _ _ (by omega)]
    have hlt : lane * 2 + i < lane * 2 + 2 := by omega
    simp [htwo]
  · rw [hvalue i (by omega)]
    simp [htwo]

theorem readPair_writePair_ne {byte value : BitVec 8} {lane other : Nat} (_ : lane < 4)
    (_ : other < 4) (hvalue : IsPair value) (hne : other ≠ lane) :
    readPair (writePair byte lane value) other = readPair byte other := by
  apply BitVec.eq_of_getLsbD_eq
  intro i hi
  rw [getLsbD_readPair, getLsbD_readPair]
  by_cases htwo : i < 2
  · rw [getLsbD_writePair _ _ _ (by omega)]
    rcases Nat.lt_or_gt_of_ne hne with hlt | hgt
    · have hbefore : ¬ lane * 2 ≤ other * 2 + i := by omega
      simp [hbefore]
    · have hbehind : ¬ other * 2 + i < lane * 2 + 2 := by omega
      rw [hvalue (other * 2 + i - lane * 2) (by omega)]
      simp [hbehind]
  · simp [htwo]

def pairLanes : Lanes (BitVec 8) where
  perByte := 4
  positive := Nat.succ_pos 3
  Valid := IsPair
  get := readPair
  set := writePair
  get_set := fun _ _ _ hlane hvalue => readPair_writePair hlane hvalue
  get_set_ne := fun _ _ _ _ hlane hother hvalue hne =>
    readPair_writePair_ne hlane hother hvalue hne

/-- The code of a value of three. -/
def pairCode (value : Fin 3) : BitVec 8 := BitVec.ofNat 8 value

theorem isPair_pairCode (value : Fin 3) : IsPair (pairCode value) := by
  intro i hi
  unfold pairCode
  rw [BitVec.getLsbD_ofNat]
  have hlt : (value : Nat) < 2 ^ i :=
    (show (value : Nat) < 2 ^ 2 by omega).trans_le (Nat.pow_le_pow_right (Nat.succ_pos 1) hi)
  rw [Nat.testBit_lt_two_pow hlt, Bool.and_false]

theorem readPair_sum (a b c d : Fin 3) (lane : Fin 4) :
    readPair ([pairCode a <<< 0, pairCode b <<< 2, pairCode c <<< 4, pairCode d <<< 6].sum) lane =
      pairCode ([a, b, c, d].getD lane 0) := by
  revert a b c d lane
  decide

theorem pairCode_padded (count : Nat) (values : Nat → Fin 3) (index : Nat) :
    (((List.range count).map fun p => pairCode (values p))[index]?).getD 0 =
      pairCode (padded count 0 values index) := by
  unfold padded
  rw [List.getElem?_map]
  split
  · rename_i hindex
    rw [List.getElem?_range hindex]
    rfl
  · rename_i hindex
    rw [List.getElem?_eq_none (by simpa using hindex)]
    rfl

theorem pairCode_readTernary {value : Rat} (h : IsTernary value) :
    BitVec.ofNat 8 ⌊value⌋.toNat = pairCode (readTernary value) := by
  rcases h with rfl | rfl | rfl
  · rfl
  · rfl
  · rfl

theorem pairLanes_pack2Bit (count : Nat) (values : Nat → Fin 3) :
    pairLanes.Holds (pack2Bit ((List.range count).map fun p => pairCode (values p)))
      (fun p => pairCode (padded count 0 values p)) := by
  intro index
  have hlane := Nat.mod_lt index (Nat.succ_pos 3)
  show readPair (byteAt _ (index / 4)) (index % 4) = _
  unfold byteAt pack2Bit
  rw [List.getElem?_map, List.length_map, List.length_range]
  by_cases hbyte : index / 4 < (count + 3) / 4
  · rw [List.getElem?_range hbyte, Option.map_some, Option.getD_some]
    simp only [shifts, List.map_cons, List.map_nil, pairCode_padded]
    have hsum := readPair_sum (padded count 0 values (4 * (index / 4)))
      (padded count 0 values (4 * (index / 4) + 1)) (padded count 0 values (4 * (index / 4) + 2))
      (padded count 0 values (4 * (index / 4) + 3)) ⟨index % 4, hlane⟩
    refine hsum.trans ?_
    conv_rhs => rw [← Nat.div_add_mod index 4]
    generalize index % 4 = lane at hlane
    interval_cases lane <;> rfl
  · rw [List.getElem?_eq_none (by simpa using hbyte), Option.map_none, Option.getD_none]
    have hbeyond : ¬ index < count := by omega
    show readPair 0 (index % 4) = pairCode (if index < count then values index else 0)
    rw [if_neg hbeyond]
    simp [readPair, pairCode]

end Solweig.Bits
