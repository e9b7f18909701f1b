import Mathlib.Data.Rat.Floor
import Solweig.Lib.Dict

/-!
# JSON values

Payloads are what `json.loads` builds from a row that was written with sorted keys. A float stands
for the rational number that it is, or for an infinity, which a literal such as `1e400` gives.
`NaN` is no JSON.
-/

namespace Solweig

open Solweig.Lib

inductive Json where
  | null
  | bool (b : Bool)
  | int (i : Int)
  | float (q : Rat)
  | inf (negative : Bool)
  | str (s : String)
  | arr (items : List Json)
  | obj (fields : List (String × Json))

namespace Json

mutual

/-- Same text: `1`, `1.0` and `true` are three values here. -/
def decEq : (a b : Json) → Decidable (a = b)
  | .null, .null => isTrue rfl
  | .bool a, .bool b => decidable_of_iff (a = b) (by simp)
  | .int a, .int b => decidable_of_iff (a = b) (by simp)
  | .float a, .float b => decidable_of_iff (a = b) (by simp)
  | .inf a, .inf b => decidable_of_iff (a = b) (by simp)
  | .str a, .str b => decidable_of_iff (a = b) (by simp)
  | .arr a, .arr b => @decidable_of_iff _ (a = b) (by simp) (decEqItems a b)
  | .obj a, .obj b => @decidable_of_iff _ (a = b) (by simp) (decEqFields a b)
  | .null, .bool _ | .null, .int _ | .null, .float _ | .null, .str _ | .null, .arr _
  | .null, .obj _ | .bool _, .null | .bool _, .int _ | .bool _, .float _ | .bool _, .str _
  | .bool _, .arr _ | .bool _, .obj _ | .int _, .null | .int _, .bool _ | .int _, .float _
  | .int _, .str _ | .int _, .arr _ | .int _, .obj _ | .float _, .null | .float _, .bool _
  | .float _, .int _ | .float _, .str _ | .float _, .arr _ | .float _, .obj _ | .str _, .null
  | .str _, .bool _ | .str _, .int _ | .str _, .float _ | .str _, .arr _ | .str _, .obj _
  | .arr _, .null | .arr _, .bool _ | .arr _, .int _ | .arr _, .float _ | .arr _, .str _
  | .arr _, .obj _ | .obj _, .null | .obj _, .bool _ | .obj _, .int _ | .obj _, .float _
  | .obj _, .str _ | .obj _, .arr _ | .inf _, .null | .inf _, .bool _ | .inf _, .int _
  | .inf _, .float _ | .inf _, .str _ | .inf _, .arr _ | .inf _, .obj _ | .null, .inf _
  | .bool _, .inf _ | .int _, .inf _ | .float _, .inf _ | .str _, .inf _ | .arr _, .inf _
  | .obj _, .inf _ => isFalse (by simp)

def decEqItems : (a b : List Json) → Decidable (a = b)
  | [], [] => isTrue rfl
  | a :: as, b :: bs =>
    @decidable_of_iff _ (a = b ∧ as = bs) (by simp)
      (@instDecidableAnd _ _ (decEq a b) (decEqItems as bs))
  | [], _ :: _ | _ :: _, [] => isFalse (by simp)

def decEqFields : (a b : List (String × Json)) → Decidable (a = b)
  | [], [] => isTrue rfl
  | (k, v) :: as, (l, w) :: bs =>
    @decidable_of_iff _ ((k = l ∧ v = w) ∧ as = bs) (by simp)
      (@instDecidableAnd _ _ (@instDecidableAnd _ _ inferInstance (decEq v w)) (decEqFields as bs))
  | [], _ :: _ | _ :: _, [] => isFalse (by simp)

end

instance : DecidableEq Json := decEq

/-- What the value counts as in a comparison of numbers. -/
def number? : Json → Option Rat
  | .bool b => some (if b then 1 else 0)
  | .int i => some i
  | .float q => some q
  | _ => none

mutual

/-- Python `==`: numbers compare by value, whatever their type. -/
def pyEq : Json → Json → Bool
  | .null, .null => true
  | .inf a, .inf b => a == b
  | .str a, .str b => a == b
  | .arr a, .arr b => pyEqItems a b
  | .obj a, .obj b => pyEqFields a b
  | a, b =>
    match a.number?, b.number? with
    | some p, some q => p == q
    | _, _ => false

def pyEqItems : List Json → List Json → Bool
  | [], [] => true
  | a :: as, b :: bs => pyEq a b && pyEqItems as bs
  | _, _ => false

def pyEqFields : List (String × Json) → List (String × Json) → Bool
  | [], [] => true
  | (k, v) :: as, (l, w) :: bs => k == l && pyEq v w && pyEqFields as bs
  | _, _ => false

end

/-! ## Texts of numbers -/

/-- The zeros of the decimal digits of Unicode 14; nine digits follow each. -/
def decimalZeros : List Nat :=
  [0x30, 0x660, 0x6f0, 0x7c0, 0x966, 0x9e6, 0xa66, 0xae6, 0xb66, 0xbe6, 0xc66, 0xce6, 0xd66,
    0xde6, 0xe50, 0xed0, 0xf20, 0x1040, 0x1090, 0x17e0, 0x1810, 0x1946, 0x19d0, 0x1a80, 0x1a90,
    0x1b50, 0x1bb0, 0x1c40, 0x1c50, 0xa620, 0xa8d0, 0xa900, 0xa9d0, 0xa9f0, 0xaa50, 0xabf0,
    0xff10, 0x104a0, 0x10d30, 0x11066, 0x110f0, 0x11136, 0x111d0, 0x112f0, 0x11450, 0x114d0,
    0x11650, 0x116c0, 0x11730, 0x118e0, 0x11950, 0x11c50, 0x11d50, 0x11da0, 0x16a60, 0x16ac0,
    0x16b50, 0x1d7ce, 0x1d7d8, 0x1d7e2, 0x1d7ec, 0x1d7f6, 0x1e140, 0x1e2f0, 0x1e950, 0x1fbf0]

def decimalOf (c : Char) : Option Nat :=
  (decimalZeros.find? fun first => first ≤ c.toNat ∧ c.toNat < first + 10).map (c.toNat - ·)

/-- What `int()` strips: of ASCII six characters, beyond it all white space. -/
def stripped (c : Char) : Bool :=
  c.toNat ∈ [0x9, 0xa, 0xb, 0xc, 0xd, 0x20, 0x85, 0xa0, 0x1680, 0x2028, 0x2029, 0x202f, 0x205f,
    0x3000] ∨ 0x2000 ≤ c.toNat ∧ c.toNat ≤ 0x200a

/-- The limit that the interpreter sets on the digits of a text. -/
def maxStrDigits : Nat := 4300

/-- The decimal value of digits and their number, with single underscores allowed between them. -/
def digitsValue : Bool → Nat × Nat → List Char → Option (Nat × Nat)
  | afterDigit, read, [] => if afterDigit then some read else none
  | afterDigit, (value, count), c :: cs =>
    match decimalOf c with
    | some digit => digitsValue true (10 * value + digit, count + 1) cs
    | none => if c = '_' ∧ afterDigit then digitsValue false (value, count) cs else none

def naturalOfDigits (digits : List Char) : Option Nat :=
  match digitsValue false (0, 0) digits with
  | some (value, count) => if count ≤ maxStrDigits then some value else none
  | none => none

/-- `int(text)` -/
def intOfText (text : String) : Option Int :=
  let cs := (text.toList.dropWhile stripped).reverse.dropWhile stripped
  match cs.reverse with
  | '-' :: digits => (naturalOfDigits digits).map fun n => -(n : Int)
  | '+' :: digits => (naturalOfDigits digits).map fun n => (n : Int)
  | digits => (naturalOfDigits digits).map fun n => (n : Int)

/-- Python `int(value)`; `none` where it raises, as for an infinity. -/
def pyInt : Json → Option Int
  | .bool b => some (if b then 1 else 0)
  | .int i => some i
  | .float q => some (if 0 ≤ q then ⌊q⌋ else ⌈q⌉)
  | .str s => intOfText s
  | _ => none

/-- `_mapping`: the fields of an object, and no field of anything else. -/
def mapping : Json → Dict String Json
  | .obj fields => Dict.ofEntries fields
  | _ => ∅

def isMapping : Json → Bool
  | .obj _ => true
  | _ => false

/-- `_is_index`: an `int` that is not a `bool`. -/
def index? : Json → Option Int
  | .int i => some i
  | _ => none

def items? : Json → Option (List Json)
  | .arr items => some items
  | _ => none

/-- `m.get(key)`: a missing key reads as `None`. -/
def get (m : Dict String Json) (key : String) : Json := m.getD key .null

/-! ## Python equality is an equivalence -/

theorem pyEq_arr {as : List Json} {b : Json} (h : pyEq (.arr as) b = true) :
    ∃ bs, b = .arr bs ∧ pyEqItems as bs = true := by
  cases b <;> simp_all [pyEq, number?]

theorem pyEq_obj {as : List (String × Json)} {b : Json} (h : pyEq (.obj as) b = true) :
    ∃ bs, b = .obj bs ∧ pyEqFields as bs = true := by
  cases b <;> simp_all [pyEq, number?]

mutual

theorem pyEq_refl : (a : Json) → pyEq a a = true
  | .null | .bool _ | .int _ | .float _ | .inf _ | .str _ => by simp [pyEq, number?]
  | .arr as => by simpa [pyEq] using pyEqItems_refl as
  | .obj as => by simpa [pyEq] using pyEqFields_refl as

theorem pyEqItems_refl : (as : List Json) → pyEqItems as as = true
  | [] => rfl
  | a :: as => by simp [pyEqItems, pyEq_refl a, pyEqItems_refl as]

theorem pyEqFields_refl : (as : List (String × Json)) → pyEqFields as as = true
  | [] => rfl
  | (k, a) :: as => by simp [pyEqFields, pyEq_refl a, pyEqFields_refl as]

end

mutual

theorem pyEq_symm : (a b : Json) → pyEq a b = true → pyEq b a = true
  | .null, b, h | .bool _, b, h | .int _, b, h | .float _, b, h | .inf _, b, h | .str _, b, h => by
    cases b <;> simp_all [pyEq, number?]
  | .arr as, b, h => by
    obtain ⟨bs, rfl, hab⟩ := pyEq_arr h
    rw [pyEq]
    exact pyEqItems_symm as bs hab
  | .obj as, b, h => by
    obtain ⟨bs, rfl, hab⟩ := pyEq_obj h
    rw [pyEq]
    exact pyEqFields_symm as bs hab

theorem pyEqItems_symm : (as bs : List Json) → pyEqItems as bs = true → pyEqItems bs as = true
  | [], [], _ => rfl
  | a :: as, b :: bs, h => by
    rw [pyEqItems, Bool.and_eq_true] at h ⊢
    exact ⟨pyEq_symm a b h.1, pyEqItems_symm as bs h.2⟩
  | [], _ :: _, h | _ :: _, [], h => by simp [pyEqItems] at h

theorem pyEqFields_symm :
    (as bs : List (String × Json)) → pyEqFields as bs = true → pyEqFields bs as = true
  | [], [], _ => rfl
  | (k, a) :: as, (l, b) :: bs, h => by
    rw [pyEqFields, Bool.and_eq_true, Bool.and_eq_true, beq_iff_eq] at h ⊢
    exact ⟨⟨h.1.1.symm, pyEq_symm a b h.1.2⟩, pyEqFields_symm as bs h.2⟩
  | [], _ :: _, h | _ :: _, [], h => by simp [pyEqFields] at h

end

mutual

theorem pyEq_trans : (a b c : Json) → pyEq a b = true → pyEq b c = true → pyEq a c = true
  | .null, b, c, h, h' | .bool _, b, c, h, h' | .int _, b, c, h, h' | .float _, b, c, h, h'
  | .inf _, b, c, h, h' | .str _, b, c, h, h' => by
    cases b <;> simp [pyEq, number?] at h <;> cases c <;> simp_all [pyEq, number?]
  | .arr as, b, c, h, h' => by
    obtain ⟨bs, rfl, hab⟩ := pyEq_arr h
    obtain ⟨cs, rfl, hbc⟩ := pyEq_arr h'
    rw [pyEq]
    exact pyEqItems_trans as bs cs hab hbc
  | .obj as, b, c, h, h' => by
    obtain ⟨bs, rfl, hab⟩ := pyEq_obj h
    obtain ⟨cs, rfl, hbc⟩ := pyEq_obj h'
    rw [pyEq]
    exact pyEqFields_trans as bs cs hab hbc

theorem pyEqItems_trans : (as bs cs : List Json) → pyEqItems as bs = true →
    pyEqItems bs cs = true → pyEqItems as cs = true
  | [], [], [], _, _ => rfl
  | a :: as, b :: bs, c :: cs, h, h' => by
    rw [pyEqItems, Bool.and_eq_true] at h h' ⊢
    exact ⟨pyEq_trans a b c h.1 h'.1, pyEqItems_trans as bs cs h.2 h'.2⟩
  | [], _ :: _, _, h, _ | _ :: _, [], _, h, _ => by simp [pyEqItems] at h
  | _, [], _ :: _, _, h | _, _ :: _, [], _, h => by simp [pyEqItems] at h

theorem pyEqFields_trans : (as bs cs : List (String × Json)) → pyEqFields as bs = true →
    pyEqFields bs cs = true → pyEqFields as cs = true
  | [], [], [], _, _ => rfl
  | (k, a) :: as, (l, b) :: bs, (m, c) :: cs, h, h' => by
    rw [pyEqFields, Bool.and_eq_true, Bool.and_eq_true, beq_iff_eq] at h h' ⊢
    exact ⟨⟨h.1.1.trans h'.1.1, pyEq_trans a b c h.1.2 h'.1.2⟩, pyEqFields_trans as bs cs h.2 h'.2⟩
  | [], _ :: _, _, h, _ | _ :: _, [], _, h, _ => by simp [pyEqFields] at h
  | _, [], _ :: _, _, h | _, _ :: _, [], _, h => by simp [pyEqFields] at h

end

theorem pyEq_equivalence : Equivalence fun a b => pyEq a b = true :=
  ⟨pyEq_refl, pyEq_symm _ _, pyEq_trans _ _ _⟩

end Json

end Solweig
