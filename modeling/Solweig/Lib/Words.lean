import Mathlib.Data.List.Flatten
import Mathlib.Data.List.TakeDrop
import Solweig.Lib.Chunks

/-!
# Words in bytes

Words of 32 bits as four bytes each, the lowest first, one after another. And decoders that are
fed in pieces: what they give out of a part of their input is the start of what they give out of
all of it.
-/

namespace Solweig.Lib

abbrev Byte := BitVec 8

abbrev Word := BitVec 32

/-- The lowest byte first. -/
def wordBytes (w : Word) : List Byte :=
  [.ofNat 8 w.toNat, .ofNat 8 (w.toNat / 2 ^ 8), .ofNat 8 (w.toNat / 2 ^ 16),
    .ofNat 8 (w.toNat / 2 ^ 24)]

def ofBytes (b0 b1 b2 b3 : Byte) : Word :=
  .ofNat 32 (b0.toNat + 2 ^ 8 * b1.toNat + 2 ^ 16 * b2.toNat + 2 ^ 24 * b3.toNat)

/-- A buffer as words; the rest of a length that four does not divide is refused. -/
def wordsOf : List Byte → Option (List Word)
  | [] => some []
  | b0 :: b1 :: b2 :: b3 :: rest => (wordsOf rest).map (ofBytes b0 b1 b2 b3 :: ·)
  | _ => none

def bytesOf (ws : List Word) : List Byte := ws.flatMap wordBytes

theorem ofBytes_wordBytes (w : Word) :
    ofBytes (.ofNat 8 w.toNat) (.ofNat 8 (w.toNat / 2 ^ 8)) (.ofNat 8 (w.toNat / 2 ^ 16))
      (.ofNat 8 (w.toNat / 2 ^ 24)) = w := by
  have hw := w.isLt
  apply BitVec.eq_of_toNat_eq
  unfold ofBytes
  simp only [BitVec.toNat_ofNat]
  omega

theorem wordsOf_bytesOf (ws : List Word) : wordsOf (bytesOf ws) = some ws := by
  induction ws with
  | nil => rfl
  | cons w ws ih =>
    show wordsOf (wordBytes w ++ bytesOf ws) = _
    unfold wordBytes
    simp only [List.cons_append, List.nil_append, wordsOf, ih, Option.map_some, ofBytes_wordBytes]

@[simp]
theorem bytesOf_length (ws : List Word) : (bytesOf ws).length = 4 * ws.length := by
  induction ws with
  | nil => rfl
  | cons w ws ih =>
    show (wordBytes w ++ bytesOf ws).length = _
    rw [List.length_append, ih, List.length_cons]
    show 4 + _ = _
    omega

theorem bytesOf_append (ws us : List Word) : bytesOf (ws ++ us) = bytesOf ws ++ bytesOf us :=
  List.flatMap_append ..

theorem wordsOf_isSome {bytes : List Byte} {n : Nat} (h : bytes.length = 4 * n) :
    ∃ ws, wordsOf bytes = some ws ∧ ws.length = n := by
  induction n generalizing bytes with
  | zero =>
    obtain rfl := List.length_eq_zero_iff.mp h
    exact ⟨[], rfl, rfl⟩
  | succ n ih =>
    match bytes, h with
    | b0 :: b1 :: b2 :: b3 :: rest, h =>
      have hrest : rest.length = 4 * n := by
        simp only [List.length_cons] at h
        omega
      obtain ⟨ws, hws, hlength⟩ := ih hrest
      exact ⟨ofBytes b0 b1 b2 b3 :: ws, by rw [wordsOf, hws, Option.map_some], by simp [hlength]⟩
    | [], h => simp at h
    | [_], h => simp at h; omega
    | [_, _], h => simp at h; omega
    | [_, _, _], h => simp at h; omega

/-! ## Pieces -/

/-- A buffer in pieces of one size, the last of which may be shorter. -/
def piecesOf (size : Nat) (bytes : List Byte) : List (List Byte) :=
  (List.range (Chunks.chunkCount bytes.length size)).map fun k => (bytes.drop (k * size)).take size

theorem flatten_pieces (size : Nat) (bytes : List Byte) (n : Nat) :
    ((List.range n).map fun k => (bytes.drop (k * size)).take size).flatten =
      bytes.take (n * size) := by
  induction n with
  | zero => simp
  | succ n ih =>
    rw [List.range_succ, List.map_append, List.flatten_append, ih, Nat.succ_mul, List.take_add]
    simp

theorem piecesOf_flatten {size : Nat} (hsize : 0 < size) (bytes : List Byte) :
    (piecesOf size bytes).flatten = bytes := by
  unfold piecesOf
  rw [flatten_pieces, List.take_of_length_le]
  have hmod := Nat.div_add_mod (bytes.length + size - 1) size
  have hlt := Nat.mod_lt (bytes.length + size - 1) hsize
  unfold Chunks.chunkCount
  rw [Nat.mul_comm]
  omega

theorem piecesOf_ne_nil {size : Nat} (hsize : 0 < size) {bytes piece : List Byte}
    (h : piece ∈ piecesOf size bytes) : piece ≠ [] := by
  obtain ⟨k, hk, rfl⟩ := List.mem_map.mp h
  have hstart := Chunks.start_lt hsize (List.mem_range.mp hk)
  intro hnil
  have hlength := congrArg List.length hnil
  simp only [List.length_take, List.length_drop, List.length_nil] at hlength
  omega

/-! ## Decoders fed in pieces -/

section Feed

variable {σ : Type} (feed : σ → List Byte → Option (σ × List Byte))

/-- All pieces in turn, with what they give out together. -/
def feedAll : σ → List (List Byte) → Option (σ × List Byte)
  | s, [] => some (s, [])
  | s, piece :: pieces =>
    match feed s piece with
    | none => none
    | some (s', out) => (feedAll s' pieces).map fun r => (r.1, out ++ r.2)

/-- Pieces until enough is given out. -/
def feedUntil (enough : List Byte → Bool) : σ → List Byte → List (List Byte) → Option (List Byte)
  | _, buffer, [] => some buffer
  | s, buffer, piece :: pieces =>
    match feed s piece with
    | none => none
    | some (s', out) =>
      if enough (buffer ++ out) then some (buffer ++ out)
      else feedUntil enough s' (buffer ++ out) pieces

variable {feed}

/-- Where all pieces give out `out`, the buffer at the stop is a start of it, and it is enough or
it is all of it. -/
theorem feedUntil_of_feedAll {enough : List Byte → Bool} {s t : σ} {pieces : List (List Byte)}
    {out : List Byte} (buffer : List Byte) (h : feedAll feed s pieces = some (t, out)) :
    ∃ rest stopped, feedUntil feed enough s buffer pieces = some stopped ∧
      stopped ++ rest = buffer ++ out ∧ (enough stopped = true ∨ rest = []) := by
  induction pieces generalizing s buffer out with
  | nil =>
    rw [feedAll, Option.some.injEq, Prod.mk.injEq] at h
    obtain ⟨_, rfl⟩ := h
    exact ⟨[], buffer, rfl, rfl, Or.inr rfl⟩
  | cons piece pieces ih =>
    rw [feedAll] at h
    rw [feedUntil]
    cases hpiece : feed s piece with
    | none => simp [hpiece] at h
    | some fed =>
      obtain ⟨s', first⟩ := fed
      simp only [hpiece, Option.map_eq_some_iff, Prod.mk.injEq] at h
      obtain ⟨⟨t', more⟩, hmore, rfl, rfl⟩ := h
      by_cases henough : enough (buffer ++ first) = true
      · exact ⟨more, _, if_pos henough, List.append_assoc .., Or.inl henough⟩
      · obtain ⟨rest, stopped, hstopped, hall, hend⟩ := ih (buffer ++ first) hmore
        exact ⟨rest, stopped, (if_neg henough).trans hstopped, by rw [hall, List.append_assoc],
          hend⟩

end Feed

end Solweig.Lib
