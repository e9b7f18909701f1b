import Mathlib.Data.List.Basic
import Mathlib.Logic.Function.Basic

/-!
# Lanes

Codes in the bytes of a group, as many to a byte as its lanes. A group holds a code at every
index: beyond its bytes, that of an empty byte.
-/

namespace Solweig.Lib

/-- How a code is read from a lane of a byte and written to it. -/
structure Lanes (V : Type) where
  perByte : Nat
  positive : 0 < perByte
  Valid : V → Prop
  get : BitVec 8 → Nat → V
  set : BitVec 8 → Nat → V → BitVec 8
  get_set : ∀ byte lane value, lane < perByte → Valid value → get (set byte lane value) lane = value
  get_set_ne : ∀ byte lane other value, lane < perByte → other < perByte → Valid value →
    other ≠ lane → get (set byte lane value) other = get byte other

namespace Lanes

variable {V : Type} (lanes : Lanes V)

def read (bytes : List (BitVec 8)) (index : Nat) : V :=
  lanes.get ((bytes[index / lanes.perByte]?).getD 0) (index % lanes.perByte)

def write (bytes : List (BitVec 8)) (index : Nat) (value : V) : List (BitVec 8) :=
  bytes.modify (index / lanes.perByte) fun byte => lanes.set byte (index % lanes.perByte) value

variable {lanes} {bytes : List (BitVec 8)} {codes : Nat → V} {index : Nat} {value : V}

theorem read_write (hindex : index / lanes.perByte < bytes.length) (hvalue : lanes.Valid value)
    (other : Nat) : lanes.read (lanes.write bytes index value) other =
      if other = index then value else lanes.read bytes other := by
  have hlane := Nat.mod_lt index lanes.positive
  have hother := Nat.mod_lt other lanes.positive
  unfold read write
  rw [List.getElem?_modify]
  by_cases hbyte : index / lanes.perByte = other / lanes.perByte
  · rw [← hbyte, List.getElem?_eq_getElem hindex]
    simp only [Option.map_eq_map, Option.map_some, Option.getD_some, ↓reduceIte]
    split
    · rename_i hsame
      rw [hsame, lanes.get_set _ _ _ hlane hvalue]
    · rename_i hne
      apply lanes.get_set_ne _ _ _ _ hlane hother hvalue
      intro hsame
      apply hne
      rw [← Nat.div_add_mod other lanes.perByte, ← hbyte, hsame, Nat.div_add_mod]
  · rw [if_neg fun hsame => hbyte (by rw [hsame])]
    simp [hbyte]

/-- The group holds these codes, at every index. -/
def Holds (lanes : Lanes V) (bytes : List (BitVec 8)) (codes : Nat → V) : Prop :=
  ∀ index, lanes.read bytes index = codes index

theorem Holds.write (h : lanes.Holds bytes codes) (hindex : index / lanes.perByte < bytes.length)
    (hvalue : lanes.Valid value) :
    lanes.Holds (lanes.write bytes index value) (Function.update codes index value) := by
  intro other
  rw [read_write hindex hvalue, h other, Function.update_apply]

end Lanes

/-- Codes up to a count, then the same for the rest of the group. -/
def padded {V : Type} (count : Nat) (rest : V) (codes : Nat → V) (index : Nat) : V :=
  if index < count then codes index else rest

theorem padded_update {V : Type} {count index : Nat} (rest : V) (codes : Nat → V) (value : V)
    (h : index < count) : Function.update (padded count rest codes) index value =
      padded count rest (Function.update codes index value) := by
  funext other
  unfold padded
  rw [Function.update_apply, Function.update_apply]
  split
  · rename_i hsame
    rw [if_pos (hsame ▸ h)]
  · rfl

theorem getElem?_flatMap_blocks {α β : Type} {f : α → List β} {n : Nat} (hn : 0 < n)
    (hlength : ∀ a, (f a).length = n) (l : List α) (i : Nat) :
    (l.flatMap f)[i]? = (l[i / n]?).bind fun a => (f a)[i % n]? := by
  induction l generalizing i with
  | nil => simp
  | cons a l ih =>
    rw [List.flatMap_cons]
    by_cases hi : i < n
    · rw [List.getElem?_append_left (by rw [hlength]; exact hi), Nat.div_eq_of_lt hi,
        Nat.mod_eq_of_lt hi]
      rfl
    · obtain ⟨k, rfl⟩ : ∃ k, i = n + k := ⟨i - n, by omega⟩
      rw [List.getElem?_append_right (by rw [hlength]; omega), hlength, Nat.add_sub_cancel_left, ih,
        Nat.add_div_left _ hn, Nat.add_mod_left, List.getElem?_cons_succ]

end Solweig.Lib
