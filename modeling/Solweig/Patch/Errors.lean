import Mathlib.Algebra.BigOperators.Ring.Finset
import Mathlib.Algebra.BigOperators.Ring.List
import Mathlib.Algebra.Order.BigOperators.Group.List
import Solweig.Patch.RoundTrip

/-!
# Errors of the patch codec

Which calls raise something else than the codec's own errors: an encoder that is given an array
of another rank, and a decoder whose manifest implies a shape that its bytes do not have.
-/

namespace Solweig.Patch

open Solweig.Lib
open Solweig.Planner (RasterWindow)

/-- Nothing but the codec's own errors. -/
def OnlyPatch {α : Type} (x : Except Raised α) : Prop := ∀ e, x = .error e → e.IsPatch

section OnlyPatch

variable {α β : Type}

theorem onlyPatch_ok (a : α) : OnlyPatch (.ok a : Except Raised α) := by
  intro e h
  cases h

theorem onlyPatch_pure (a : α) : OnlyPatch (pure a : Except Raised α) := onlyPatch_ok a

theorem onlyPatch_patch (error : PatchCodecError) :
    OnlyPatch (.error (.patch error) : Except Raised α) := by
  intro e h
  cases h
  trivial

theorem onlyPatch_refuseIf {p : Prop} [Decidable p] {error : PatchCodecError} :
    OnlyPatch (refuseIf p (.patch error)) := by
  unfold refuseIf
  split
  · exact onlyPatch_patch error
  · exact onlyPatch_ok ()

theorem OnlyPatch.bind {x : Except Raised α} {f : α → Except Raised β} (hx : OnlyPatch x)
    (hf : ∀ a, x = .ok a → OnlyPatch (f a)) : OnlyPatch (x >>= f) := by
  cases x with
  | error e =>
    intro e' h
    cases h
    exact hx e rfl
  | ok a => exact hf a rfl

theorem onlyPatch_bind_iff {x : Except Raised α} {f : α → Except Raised β} (hx : OnlyPatch x) :
    OnlyPatch (x >>= f) ↔ ∀ a, x = .ok a → OnlyPatch (f a) := by
  constructor
  · rintro h a rfl
    exact h
  · exact hx.bind

theorem onlyPatch_forM {as : List α} {f : α → Except Raised Unit} (h : ∀ a ∈ as, OnlyPatch (f a)) :
    OnlyPatch (as.forM f) := by
  induction as with
  | nil => exact onlyPatch_ok ()
  | cons a as ih =>
    obtain ⟨hfirst, hrest⟩ := List.forall_mem_cons.mp h
    exact OnlyPatch.bind hfirst fun _ _ => ih hrest

theorem onlyPatch_foldlM {as : List α} {f : β → α → Except Raised β}
    (h : ∀ b, ∀ a ∈ as, OnlyPatch (f b a)) (b : β) : OnlyPatch (as.foldlM f b) := by
  induction as generalizing b with
  | nil => exact onlyPatch_ok b
  | cons a as ih =>
    rw [List.foldlM_cons]
    apply OnlyPatch.bind (h b a List.mem_cons_self)
    intro next _
    exact ih (fun b' a' ha' => h b' a' (List.mem_cons_of_mem a ha')) next

theorem onlyPatch_mapM {as : List α} {f : α → Except Raised β} (h : ∀ a ∈ as, OnlyPatch (f a)) :
    OnlyPatch (as.mapM f) := by
  induction as with
  | nil => exact onlyPatch_ok []
  | cons a as ih =>
    obtain ⟨hfirst, hrest⟩ := List.forall_mem_cons.mp h
    rw [List.mapM_cons]
    exact hfirst.bind fun _ _ => (ih hrest).bind fun _ _ => onlyPatch_pure _

end OnlyPatch

/-! ## The encoder -/

/-- All arrays are there, and one of them is not three-dimensional. -/
def HoldsOtherRank (arrays : Dict String NdArray) (vars : List String) : Prop :=
  (∀ name ∈ vars, name ∈ supportedVariables ∧ arrays[name]? ≠ none) ∧
    ∃ name ∈ vars, ∃ array, arrays[name]? = some array ∧ array.shape.length ≠ 3

theorem encodePayload_otherRank {lib : Libraries} {arrays : Dict String NdArray}
    {vars : List String} (h : HoldsOtherRank arrays vars) :
    encodePayload lib arrays vars = .error (.nameError "PatchShapeError") := by
  obtain ⟨hheld, bad, hbad, array, harray, hrank⟩ := h
  have hknown : vars.filter (· ∉ supportedVariables) = [] := by
    simpa using fun name hname => (hheld name hname).1
  have hpresent : (vars.filter fun name => arrays[name]?.isNone) = [] := by
    simpa using fun name hname => (hheld name hname).2
  have hmetas : (vars.mapM fun name => do variableMeta name (← item arrays name).shape :
      Except Raised (List VariableMeta)) = .error (.nameError "PatchShapeError") := by
    apply mapM_error
    · intro name hname
      obtain ⟨a, ha⟩ := Option.ne_none_iff_exists'.mp (hheld name hname).2
      rw [item_ok ha, except_ok_bind]
      unfold variableMeta refuseIf
      split
      · exact Or.inl rfl
      · exact Or.inr ⟨_, rfl⟩
    · refine ⟨bad, hbad, ?_⟩
      rw [item_ok harray, except_ok_bind]
      unfold variableMeta
      rw [refuseIf, if_pos hrank]
      rfl
  unfold encodePayload
  simp only [hknown, hpresent]
  rw [refuseIf_false (by simp), except_ok_bind, refuseIf_false (by simp), except_ok_bind, hmetas]
  rfl

theorem onlyPatch_encodePayload (lib : Libraries) (arrays : Dict String NdArray)
    (vars : List String) : OnlyPatch (encodePayload lib arrays vars) ↔
      ¬ HoldsOtherRank arrays vars := by
  constructor
  · intro h hother
    exact h _ (encodePayload_otherRank hother)
  · intro h
    unfold encodePayload
    apply OnlyPatch.bind onlyPatch_refuseIf
    intro _ hunknown
    apply OnlyPatch.bind onlyPatch_refuseIf
    intro _ hmissing
    rw [refuseIf_ok, not_not, List.filter_eq_nil_iff] at hunknown hmissing
    have hheld : ∀ name ∈ vars, ∃ array, arrays[name]? = some array ∧ array.shape.length = 3 := by
      intro name hname
      have hall : ∀ name ∈ vars, name ∈ supportedVariables ∧ arrays[name]? ≠ none :=
        fun name hname => ⟨by simpa using hunknown name hname, by simpa using hmissing name hname⟩
      obtain ⟨array, harray⟩ := Option.ne_none_iff_exists'.mp (hall name hname).2
      refine ⟨array, harray, ?_⟩
      by_contra hrank
      exact h ⟨hall, name, hname, array, harray, hrank⟩
    apply OnlyPatch.bind
    · apply onlyPatch_mapM
      intro name hname
      obtain ⟨array, harray, hrank⟩ := hheld name hname
      rw [item_ok harray, except_ok_bind]
      unfold variableMeta
      rw [refuseIf_false (by simp [hrank])]
      exact onlyPatch_ok _
    · intro _ _
      apply OnlyPatch.bind
      · unfold uncompressedBytes
        apply OnlyPatch.bind
        · apply onlyPatch_mapM
          intro name hname
          obtain ⟨array, harray, hrank⟩ := hheld name hname
          rw [item_ok harray, except_ok_bind, refuseIf_false (by simp [hrank]), except_ok_bind]
          exact onlyPatch_refuseIf.bind fun _ _ => onlyPatch_pure _
        · exact fun _ _ => onlyPatch_pure _
      · exact fun _ _ => onlyPatch_pure _

/-! ## The whole decoder -/

/-- No words of these bytes have the shape. -/
def Refuses (np : Numpy) (block : Bytes) (shape : List Int) : Prop :=
  ∀ bits, wordsOf block = some bits → np.reshape bits.length shape = none

/-- The part of the buffer that each entry takes, with its shape. -/
def blocks (np : Numpy) (raw : Bytes) : Int → List VariableMeta → List (Bytes × List Int)
  | _, [] => []
  | offset, entry :: rest =>
    (slice raw offset (offset + np.prod entry.shape * itemsize), entry.shape) ::
      blocks np raw (offset + np.prod entry.shape * itemsize) rest

section Decode

variable {lib : Libraries} {np : Numpy}

theorem fromBlock_cases (np : Numpy) (block : Bytes) (shape : List Int) :
    (Refuses np block shape ∧ fromBlock np block shape = .error .valueError) ∨
      ¬ Refuses np block shape ∧ ∃ array, fromBlock np block shape = .ok array ∧
        ∃ dims, np.reshape array.bits.length shape = some dims ∧ dims.val = array.shape := by
  unfold fromBlock Refuses
  cases hwords : wordsOf block with
  | none => exact Or.inl ⟨by simp, rfl⟩
  | some bits =>
    cases hdims : np.reshape bits.length shape with
    | none => exact Or.inl ⟨by simp [hdims], by simp [hdims]⟩
    | some dims =>
      refine Or.inr ⟨by simp [hdims], ?_⟩
      dsimp only
      rw [hdims]
      exact ⟨_, rfl, dims, hdims, rfl⟩

theorem onlyPatch_fromBlock {block : Bytes} {shape : List Int} :
    OnlyPatch (fromBlock np block shape) ↔ ¬ Refuses np block shape := by
  rcases fromBlock_cases np block shape with ⟨hrefuses, herror⟩ | ⟨haccepts, array, hok, _⟩
  · rw [herror]
    simp only [hrefuses, not_true_eq_false, iff_false]
    exact fun h => h _ rfl
  · rw [hok]
    simp only [haccepts, not_false_eq_true, iff_true]
    exact onlyPatch_ok array

theorem onlyPatch_expectedNbytes (np : Numpy) (vars : List VariableMeta) :
    OnlyPatch (expectedNbytes np vars) := by
  apply onlyPatch_foldlM
  intro total entry _
  exact onlyPatch_refuseIf.bind fun _ _ => onlyPatch_refuseIf.bind fun _ _ =>
    onlyPatch_refuseIf.bind fun _ _ => onlyPatch_pure _

theorem onlyPatch_checkRaw (np : Numpy) (manifest : Manifest) (raw : Bytes)
    (expected : Option (List String)) : OnlyPatch (checkRaw np manifest raw expected) := by
  unfold checkRaw
  apply OnlyPatch.bind onlyPatch_refuseIf
  intro _ _
  apply OnlyPatch.bind onlyPatch_refuseIf
  intro _ _
  apply OnlyPatch.bind (onlyPatch_forM fun _ _ => onlyPatch_refuseIf)
  intro _ _
  exact (onlyPatch_expectedNbytes np manifest.vars).bind fun _ _ => onlyPatch_refuseIf

theorem onlyPatch_admitted (lib : Libraries) (manifest : Manifest) (payload : Bytes)
    (verifyChecksum : Bool) (expected : Option (List String)) :
    OnlyPatch (admitted lib manifest payload verifyChecksum expected) := by
  have hchecksum : OnlyPatch (checkChecksum lib manifest payload) := by
    unfold checkChecksum
    split
    · exact onlyPatch_patch _
    · exact onlyPatch_refuseIf.bind fun _ _ => onlyPatch_refuseIf
  have hraw : OnlyPatch (do
      let raw ← decompressPayload lib payload manifest
      checkRaw lib.numpy manifest raw expected
      pure raw) := by
    apply OnlyPatch.bind
    · unfold decompressPayload
      apply OnlyPatch.bind onlyPatch_refuseIf
      intro _ _
      split
      · exact onlyPatch_pure _
      · exact onlyPatch_patch _
    · exact fun raw _ => (onlyPatch_checkRaw _ _ _ _).bind fun _ _ => onlyPatch_pure _
  unfold admitted
  cases verifyChecksum with
  | false => exact hraw
  | true => exact hchecksum.bind fun _ _ => hraw

/-- Each of the variables has an array of three axes. -/
def Unpacked (arrays : Dict String NdArray) (names : List String) : Prop :=
  ∀ name ∈ names, ∃ array depth rows cols, arrays[name]? = some array ∧
    array.shape = [depth, rows, cols]

theorem Unpacked.insert {arrays : Dict String NdArray} {names : List String}
    (h : Unpacked arrays names) (name : String) {array : NdArray} {depth rows cols : Nat}
    (hshape : array.shape = [depth, rows, cols]) :
    Unpacked (arrays.insert name array) (name :: names) := by
  intro other hother
  by_cases heq : name = other
  · subst heq
    exact ⟨array, depth, rows, cols, Std.ExtTreeMap.getElem?_insert_self, hshape⟩
  · rw [Dict.getElem?_insert_of_ne _ _ heq]
    exact h other ((List.mem_cons.mp hother).resolve_left (Ne.symm heq))

/-- Three axes, none of them negative. -/
def Counted (entry : VariableMeta) : Prop := entry.shape.length = 3 ∧ ∀ v ∈ entry.shape, 0 ≤ v

theorem Counted.shape {entry : VariableMeta} (h : Counted entry) :
    ∃ depth rows cols : Nat, entry.shape = [depth, rows, cols].map (↑) := by
  obtain ⟨hlength, hneg⟩ := h
  match hshape : entry.shape, hlength with
  | [depth, rows, cols], _ =>
    rw [hshape] at hneg
    simp only [List.forall_mem_cons] at hneg
    refine ⟨depth.toNat, rows.toNat, cols.toNat, ?_⟩
    simp [hneg.1, hneg.2.1, hneg.2.2.1]

theorem Counted.fromBlock {entry : VariableMeta} (h : Counted entry) {block : Bytes}
    (haccepts : ¬ Refuses np block entry.shape) :
    ∃ array depth rows cols, fromBlock np block entry.shape = .ok array ∧
      array.shape = [depth, rows, cols] := by
  obtain ⟨depth, rows, cols, hshape⟩ := h.shape
  rcases fromBlock_cases np block entry.shape with ⟨hrefuses, _⟩ | ⟨_, array, hok, dims, hdims, heq⟩
  · exact absurd hrefuses haccepts
  · refine ⟨array, depth, rows, cols, hok, ?_⟩
    rw [hshape, np.reshape_nat] at hdims
    split at hdims
    · obtain rfl := Option.some.inj hdims
      exact heq.symm
    · cases hdims

theorem unpackAll_cases (np : Numpy) (raw : Bytes) {entries : List VariableMeta}
    (hcounted : ∀ entry ∈ entries, Counted entry) (d : Dict String NdArray) (offset : Int)
    {names : List String} (hd : Unpacked d names) :
    ((∃ b ∈ blocks np raw offset entries, Refuses np b.1 b.2) →
      entries.foldlM (unpackStep np raw) (d, offset) = .error .valueError) ∧
    ((∀ b ∈ blocks np raw offset entries, ¬ Refuses np b.1 b.2) →
      ∃ r, entries.foldlM (unpackStep np raw) (d, offset) = .ok r ∧
        Unpacked r.1 (entries.map (·.name) ++ names)) := by
  induction entries generalizing d offset names with
  | nil =>
    constructor
    · simp [blocks]
    · exact fun _ => ⟨(d, offset), rfl, hd⟩
  | cons entry entries ih =>
    obtain ⟨hfirst, hrest⟩ := List.forall_mem_cons.mp hcounted
    rw [blocks, List.foldlM_cons]
    unfold unpackStep
    rcases fromBlock_cases np (slice raw offset (offset + np.prod entry.shape * itemsize))
        entry.shape with ⟨hrefuses, herror⟩ | ⟨haccepts, _⟩
    · dsimp only
      rw [herror]
      exact ⟨fun _ => rfl, fun h => absurd hrefuses (h _ List.mem_cons_self)⟩
    · obtain ⟨array, depth, rows, cols, hok, hshape⟩ := hfirst.fromBlock haccepts
      have hnext := ih hrest (d.insert entry.name array)
        (offset + np.prod entry.shape * itemsize) (hd.insert entry.name hshape)
      dsimp only
      rw [hok, except_ok_bind, pure_bind]
      constructor
      · rintro ⟨b, hb, hrefuses⟩
        rcases List.mem_cons.mp hb with rfl | hb
        · exact absurd hrefuses haccepts
        · exact hnext.1 ⟨b, hb, hrefuses⟩
      · intro h
        obtain ⟨r, hr, hunpacked⟩ := hnext.2 fun b hb => h b (List.mem_cons_of_mem _ hb)
        refine ⟨r, hr, fun name hname => hunpacked name ?_⟩
        simpa [or_assoc, or_comm, or_left_comm] using hname

theorem onlyPatch_crossCheckWindow {manifest : Manifest} {arrays : Dict String NdArray}
    (h : Unpacked arrays (manifest.vars.map (·.name))) :
    OnlyPatch (crossCheckWindow manifest arrays) := by
  apply onlyPatch_forM
  intro window _
  apply onlyPatch_forM
  intro name hname
  obtain ⟨array, depth, rows, cols, harray, hshape⟩ := h name (List.mem_eraseDups.mp hname)
  rw [item_ok harray, except_ok_bind, hshape]
  exact onlyPatch_refuseIf

theorem admitted_counted {manifest : Manifest} {payload raw : Bytes} {verifyChecksum : Bool}
    {expected : Option (List String)}
    (h : admitted lib manifest payload verifyChecksum expected = .ok raw) :
    expectedNbytes lib.numpy manifest.vars = .ok (raw.length : Int) := by
  have hcheck : checkRaw lib.numpy manifest raw expected = .ok () := by
    have hrest : ∃ r, decompressPayload lib payload manifest = .ok r ∧ ∃ u,
        checkRaw lib.numpy manifest r expected = .ok u ∧ r = raw := by
      unfold admitted at h
      cases verifyChecksum with
      | false => simpa [except_bind_ok, pure, Except.pure] using h
      | true =>
        rw [if_pos rfl, except_bind_ok] at h
        obtain ⟨_, _, h⟩ := h
        simpa [except_bind_ok, pure, Except.pure] using h
    obtain ⟨r, _, u, hu, rfl⟩ := hrest
    exact hu
  unfold checkRaw at hcheck
  simp only [except_bind_ok, refuseIf_ok] at hcheck
  obtain ⟨_, _, _, _, _, _, total, htotal, hlength⟩ := hcheck
  rw [htotal, not_not.mp hlength]

theorem onlyPatch_decodePayload_blocks (lib : Libraries) (manifest : Manifest) (payload : Bytes)
    (verifyChecksum : Bool) (expected : Option (List String)) :
    OnlyPatch (decodePayload lib manifest payload verifyChecksum expected) ↔
      ¬ ∃ raw, admitted lib manifest payload verifyChecksum expected = .ok raw ∧
        ∃ b ∈ blocks lib.numpy raw 0 manifest.vars, Refuses lib.numpy b.1 b.2 := by
  rw [decodePayload_eq, onlyPatch_bind_iff (onlyPatch_admitted _ _ _ _ _), not_exists]
  apply forall_congr'
  intro raw
  rw [not_and, not_exists]
  apply imp_congr_right
  intro hadmitted
  have hcounted : ∀ entry ∈ manifest.vars, Counted entry := fun entry hentry =>
    ((expectedNbytes_ok.mp (admitted_counted hadmitted)).1 entry hentry).2
  have hcases := unpackAll_cases lib.numpy raw hcounted ∅ 0 (fun _ h => absurd h List.not_mem_nil)
  unfold unpack
  by_cases hrefuses : ∃ b ∈ blocks lib.numpy raw 0 manifest.vars, Refuses lib.numpy b.1 b.2
  · rw [hcases.1 hrefuses]
    obtain ⟨b, hb, hrefuse⟩ := hrefuses
    constructor
    · exact fun h => absurd (h _ rfl) (fun h => h)
    · exact fun h => absurd ⟨hb, hrefuse⟩ (h b)
  · have haccepts : ∀ b ∈ blocks lib.numpy raw 0 manifest.vars, ¬ Refuses lib.numpy b.1 b.2 :=
      fun b hb h => hrefuses ⟨b, hb, h⟩
    obtain ⟨r, hr, hunpacked⟩ := hcases.2 haccepts
    rw [hr, except_ok_bind, pure_bind]
    rw [List.append_nil] at hunpacked
    constructor
    · exact fun _ b hb => haccepts b hb.1 hb.2
    · exact fun _ => (onlyPatch_crossCheckWindow hunpacked).bind fun _ _ => onlyPatch_pure _

/-- What the whole decoder asks for before it cuts the bytes: the digest, the fields of the manifest,
and as many bytes as its shapes imply. -/
structure Checked (lib : Libraries) (manifest : Manifest) (payload : Bytes) (verifyChecksum : Bool)
    (expected : Option (List String)) (raw : Bytes) : Prop where
  checksum : verifyChecksum = true → ∃ checksum, manifest.checksum = some checksum ∧ checksum ≠ "" ∧
    checksumPayload lib payload = checksum
  compression : manifest.compression = "zstd"
  decompressed : ∃ s, lib.zstd.decompress lib.zstd.decompressobj payload = some (s, raw)
  schema : manifest.schemaVersion = patchSchemaVersion
  listed : manifest.vars ≠ []
  named : ∀ names ∈ expected, manifest.vars.map (·.name) = names
  counted : ∀ entry ∈ manifest.vars, entry.dtype = "float32" ∧ Counted entry
  length : (raw.length : Int) =
    (manifest.vars.map fun entry => lib.numpy.prod entry.shape * itemsize).sum

theorem checkChecksum_iff {manifest : Manifest} {payload : Bytes} {u : Unit} :
    checkChecksum lib manifest payload = .ok u ↔ ∃ checksum, manifest.checksum = some checksum ∧
      checksum ≠ "" ∧ checksumPayload lib payload = checksum := by
  unfold checkChecksum verifyPayloadChecksum
  cases manifest.checksum with
  | none => simp
  | some checksum =>
    simp only [except_bind_ok, refuseIf_ok, ne_eq, not_not, Option.some.injEq, exists_const,
      exists_eq_left']

theorem decompressPayload_iff {manifest : Manifest} {payload raw : Bytes} :
    decompressPayload lib payload manifest = .ok raw ↔ manifest.compression = "zstd" ∧
      ∃ s, lib.zstd.decompress lib.zstd.decompressobj payload = some (s, raw) := by
  unfold decompressPayload
  simp only [except_bind_ok, refuseIf_ok, not_not]
  cases lib.zstd.decompress lib.zstd.decompressobj payload with
  | none => simp
  | some fed =>
    obtain ⟨s, out⟩ := fed
    simp [pure, Except.pure]

theorem checkRaw_iff {manifest : Manifest} {raw : Bytes} {expected : Option (List String)}
    {u : Unit} : checkRaw np manifest raw expected = .ok u ↔
      manifest.schemaVersion = patchSchemaVersion ∧ manifest.vars ≠ [] ∧
        (∀ names ∈ expected, manifest.vars.map (·.name) = names) ∧
        (∀ entry ∈ manifest.vars, entry.dtype = "float32" ∧ Counted entry) ∧
        (raw.length : Int) = (manifest.vars.map fun entry => np.prod entry.shape * itemsize).sum := by
  unfold checkRaw
  have hnames : (expected.toList.forM fun names => refuseIf (manifest.vars.map (·.name) ≠ names)
      (Raised.patch (.unexpectedVariables (manifest.vars.map (·.name)) names))) = .ok () ↔
      ∀ names ∈ expected, manifest.vars.map (·.name) = names := by
    simp only [forM_ok, refuseIf_ok, ne_eq, not_not, Option.mem_toList, Option.mem_def]
  simp only [except_bind_ok, refuseIf_ok, not_not, expectedNbytes_ok]
  constructor
  · rintro ⟨_, hschema, _, hlisted, _, hnamed, total, ⟨hcounted, rfl⟩, hlength⟩
    exact ⟨hschema, hlisted, hnames.mp hnamed, hcounted, hlength⟩
  · rintro ⟨hschema, hlisted, hnamed, hcounted, hlength⟩
    exact ⟨(), hschema, (), hlisted, (), hnames.mpr hnamed, _, ⟨hcounted, rfl⟩, hlength⟩

theorem admitted_iff {manifest : Manifest} {payload raw : Bytes} {verifyChecksum : Bool}
    {expected : Option (List String)} :
    admitted lib manifest payload verifyChecksum expected = .ok raw ↔
      Checked lib manifest payload verifyChecksum expected raw := by
  have hrest : (∃ r, decompressPayload lib payload manifest = .ok r ∧
      ∃ u, checkRaw lib.numpy manifest r expected = .ok u ∧ pure r = (.ok raw : Except Raised Bytes)) ↔
        decompressPayload lib payload manifest = .ok raw ∧
          checkRaw lib.numpy manifest raw expected = .ok () := by
    constructor
    · rintro ⟨r, hr, u, hu, hpure⟩
      obtain rfl := Except.ok.inj hpure
      exact ⟨hr, hu⟩
    · exact fun ⟨hr, hu⟩ => ⟨raw, hr, (), hu, rfl⟩
  have hchecksum : (verifyChecksum = true → ∃ u, checkChecksum lib manifest payload = .ok u) ↔
      (verifyChecksum = true → ∃ checksum, manifest.checksum = some checksum ∧ checksum ≠ "" ∧
        checksumPayload lib payload = checksum) := by
    simp only [checkChecksum_iff, exists_const]
  have hadmitted : admitted lib manifest payload verifyChecksum expected = .ok raw ↔
      (verifyChecksum = true → ∃ u, checkChecksum lib manifest payload = .ok u) ∧
        decompressPayload lib payload manifest = .ok raw ∧
          checkRaw lib.numpy manifest raw expected = .ok () := by
    rw [← hrest]
    unfold admitted
    cases verifyChecksum with
    | false =>
      rw [if_neg (by simp)]
      simp only [except_bind_ok, reduceCtorEq, false_implies, true_and]
    | true =>
      rw [if_pos rfl]
      simp only [except_bind_ok, forall_const, exists_and_right]
  rw [hadmitted, hchecksum, decompressPayload_iff, checkRaw_iff]
  constructor
  · rintro ⟨hdigest, ⟨hcompression, hraw⟩, hschema, hlisted, hnamed, hcounted, hlength⟩
    exact ⟨hdigest, hcompression, hraw, hschema, hlisted, hnamed, hcounted, hlength⟩
  · rintro ⟨hdigest, hcompression, hraw, hschema, hlisted, hnamed, hcounted, hlength⟩
    exact ⟨hdigest, ⟨hcompression, hraw⟩, hschema, hlisted, hnamed, hcounted, hlength⟩

/-- The bytes of the axes that are not empty cannot be counted in 63 bits. -/
def Oversized (entry : VariableMeta) : Prop := ¬ Fits (entry.shape.map Int.toNat)

theorem mem_blocks (np : Numpy) (raw : Bytes) {entry : VariableMeta} {entries : List VariableMeta}
    (h : entry ∈ entries) (offset : Int) : ∃ block, (block, entry.shape) ∈ blocks np raw offset entries := by
  induction entries generalizing offset with
  | nil => cases h
  | cons first entries ih =>
    rw [blocks]
    rcases List.mem_cons.mp h with rfl | h
    · exact ⟨_, List.mem_cons_self⟩
    · obtain ⟨block, hblock⟩ := ih h (offset + np.prod first.shape * itemsize)
      exact ⟨block, List.mem_cons_of_mem _ hblock⟩

theorem Counted.natural {entry : VariableMeta} (h : Counted entry) :
    (entry.shape.map Int.toNat).map (fun n : Nat => (n : Int)) = entry.shape := by
  rw [List.map_map]
  refine (List.map_congr_left fun v hv => ?_).trans (List.map_id _)
  exact Int.toNat_of_nonneg (h.2 v hv)

theorem Counted.refuses {entry : VariableMeta} (h : Counted entry) (hover : Oversized entry)
    (block : Bytes) : Refuses np block entry.shape := by
  intro bits _
  rw [← h.natural, np.reshape_nat, dif_neg fun hfits => hover hfits.2]

end Decode

/-! ## One plane -/

section Plane

variable {lib : Libraries}

theorem onlyPatch_findSpan (np : Numpy) (name : String) (offset : Int)
    (entries : List VariableMeta) : OnlyPatch (findSpan np name offset entries) := by
  induction entries generalizing offset with
  | nil => exact onlyPatch_ok none
  | cons entry entries ih =>
    rw [findSpan]
    split
    · split
      · exact onlyPatch_ok _
      · exact onlyPatch_patch _
    · exact ih _

theorem onlyPatch_planeSpan (np : Numpy) (manifest : Manifest) (name : String) :
    OnlyPatch (planeSpan np manifest name) := by
  unfold planeSpan
  apply OnlyPatch.bind onlyPatch_refuseIf
  intro _ _
  apply OnlyPatch.bind (onlyPatch_findSpan np name 0 manifest.vars)
  intro span _
  cases span with
  | none => exact onlyPatch_patch _
  | some span => exact onlyPatch_pure _

theorem onlyPatch_planeBlock (lib : Libraries) (manifest : Manifest) (payload : Bytes)
    (name : String) (t : Int) : OnlyPatch (planeBlock lib manifest payload name t) := by
  have hchecksum : OnlyPatch (checkPlaneChecksum lib manifest payload) := by
    unfold checkPlaneChecksum
    split
    · split
      · exact onlyPatch_refuseIf
      · exact onlyPatch_pure ()
    · exact onlyPatch_pure ()
  unfold planeBlock
  apply OnlyPatch.bind hchecksum
  intro _ _
  apply OnlyPatch.bind (onlyPatch_planeSpan lib.numpy manifest name)
  intro span _
  apply OnlyPatch.bind onlyPatch_refuseIf
  intro _ _
  dsimp only
  split
  · exact onlyPatch_patch _
  · exact onlyPatch_refuseIf.bind fun _ _ => onlyPatch_pure _

theorem onlyPatch_decodePlane_block (lib : Libraries) (manifest : Manifest) (payload : Bytes)
    (name : String) (t : Int) : OnlyPatch (decodePlane lib manifest payload name t) ↔
      ¬ ∃ block rows cols, planeBlock lib manifest payload name t = .ok (block, rows, cols) ∧
        Refuses lib.numpy block [rows, cols] := by
  unfold decodePlane
  rw [onlyPatch_bind_iff (onlyPatch_planeBlock lib manifest payload name t)]
  simp only [Prod.forall, onlyPatch_fromBlock, not_exists, not_and]

/-- So many bytes are no array of the shape. -/
def Misfits (np : Numpy) (size : Nat) (shape : List Int) : Prop :=
  size % 4 ≠ 0 ∨ np.reshape (size / 4) shape = none

theorem length_of_wordsOf {bytes : Bytes} {bits : List Word} (h : wordsOf bytes = some bits) :
    bytes.length = 4 * bits.length := by
  induction bytes using wordsOf.induct generalizing bits with
  | case1 =>
    obtain rfl := Option.some.inj h
    rfl
  | case2 b0 b1 b2 b3 rest ih =>
    rw [wordsOf] at h
    obtain ⟨words, hwords, rfl⟩ := Option.map_eq_some_iff.mp h
    simp only [List.length_cons, ih hwords]
    omega
  | case3 bytes hnil hcons =>
    rw [wordsOf] at h
    · cases h
    · exact hnil
    · exact hcons

theorem refuses_iff {np : Numpy} {block : Bytes} {shape : List Int} :
    Refuses np block shape ↔ Misfits np block.length shape := by
  unfold Refuses Misfits
  by_cases hwhole : block.length % 4 = 0
  · obtain ⟨bits, hbits, hcount⟩ :=
      @wordsOf_isSome block (block.length / 4) (by omega)
    rw [← hcount]
    simp [hbits, hwhole]
  · refine iff_of_true (fun bits hbits => ?_) (Or.inl hwhole)
    have := length_of_wordsOf hbits
    omega

/-- How many bytes `raw[start:stop]` has, where `raw` has `size`. -/
def sliceSize (size : Nat) (start stop : Int) : Nat :=
  min (Bits.clampIndex size stop) size - Bits.clampIndex size start

theorem slice_size (raw : Bytes) (start stop : Int) :
    (slice raw start stop).length = sliceSize raw.length start stop := by
  simp [slice, sliceSize]

/-- Where the plane starts, from the start of its variable. -/
def planeStart (start t rows cols : Int) : Int := start + t * rows * cols * itemsize

def planeStop (start t rows cols : Int) : Int := planeStart start t rows cols + rows * cols * itemsize

/-- What the decoder of a plane asks for before it reads: the digest, if there is one, and an entry
of three axes with the time step, behind the bytes of the entries before it. -/
structure PlaneChecked (lib : Libraries) (manifest : Manifest) (payload : Bytes) (name : String)
    (t start rows cols : Int) : Prop where
  checksum : ∀ checksum, manifest.checksum = some checksum → checksum ≠ "" →
    checksumPayload lib payload = checksum
  schema : manifest.schemaVersion = patchSchemaVersion
  found : ∃ before entry after depth, manifest.vars = before ++ entry :: after ∧
    (∀ other ∈ before, other.name ≠ name) ∧ entry.name = name ∧ entry.shape = [depth, rows, cols] ∧
    start = (before.map fun other => lib.numpy.prod other.shape * itemsize).sum ∧ 0 ≤ t ∧ t < depth

/-- The pieces that are decompressed until the stop give so many bytes, and they reach it. -/
def Streams (zstd : Zstd) (payload : Bytes) (stop : Int) (size : Nat) : Prop :=
  ∃ buffer, feedUntil zstd.decompress (fun buffer => stop ≤ buffer.length) zstd.decompressobj []
    (piecesOf decompressChunk payload) = some buffer ∧ buffer.length = size ∧ stop ≤ size

theorem checkPlaneChecksum_iff {manifest : Manifest} {payload : Bytes} {u : Unit} :
    checkPlaneChecksum lib manifest payload = .ok u ↔ ∀ checksum, manifest.checksum = some checksum →
      checksum ≠ "" → checksumPayload lib payload = checksum := by
  unfold checkPlaneChecksum verifyPayloadChecksum
  cases manifest.checksum with
  | none => simp [pure, Except.pure]
  | some checksum =>
    by_cases hempty : checksum = "" <;> simp [hempty, refuseIf_ok, pure, Except.pure]

theorem findSpan_iff {np : Numpy} {name : String} {entries : List VariableMeta} {offset : Int}
    {span : Span} : findSpan np name offset entries = .ok (some span) ↔
      ∃ before entry after, entries = before ++ entry :: after ∧
        (∀ other ∈ before, other.name ≠ name) ∧ entry.name = name ∧
        entry.shape = [span.depth, span.rows, span.cols] ∧
        span.start = offset + (before.map fun other => np.prod other.shape * itemsize).sum ∧
        span.stop = span.start + np.prod entry.shape * itemsize := by
  induction entries generalizing offset with
  | nil => simp [findSpan]
  | cons first entries ih =>
    rw [findSpan]
    by_cases hname : first.name = name
    · rw [if_pos hname]
      constructor
      · intro h
        split at h
        · rename_i depth rows cols hshape
          obtain rfl := Option.some.inj (Except.ok.inj h)
          exact ⟨[], first, entries, rfl, by simp, hname, hshape, by simp, by simp [hshape]⟩
        · cases h
      · rintro ⟨before, entry, after, hsplit, hbefore, hentry, hshape, hstart, hstop⟩
        cases before with
        | cons other before =>
          obtain ⟨rfl, -⟩ := List.cons.inj hsplit
          exact absurd hname (hbefore first List.mem_cons_self)
        | nil =>
          obtain ⟨rfl, rfl⟩ := List.cons.inj hsplit
          rw [hshape]
          simp only [List.map_nil, List.sum_nil, Int.add_zero] at hstart
          obtain ⟨start, stop, depth, rows, cols⟩ := span
          dsimp only at hstart hstop hshape ⊢
          rw [hstop, hstart, hshape]
    · rw [if_neg hname, ih]
      constructor
      · rintro ⟨before, entry, after, rfl, hbefore, hentry, hshape, hstart, hstop⟩
        refine ⟨first :: before, entry, after, rfl, List.forall_mem_cons.mpr ⟨hname, hbefore⟩, hentry,
          hshape, ?_, hstop⟩
        rw [hstart, List.map_cons, List.sum_cons, Int.add_assoc]
      · rintro ⟨before, entry, after, hsplit, hbefore, hentry, hshape, hstart, hstop⟩
        cases before with
        | nil =>
          obtain ⟨rfl, -⟩ := List.cons.inj hsplit
          exact absurd hentry hname
        | cons other before =>
          obtain ⟨rfl, rfl⟩ := List.cons.inj hsplit
          refine ⟨before, entry, after, rfl, (List.forall_mem_cons.mp hbefore).2, hentry, hshape, ?_,
            hstop⟩
          rw [hstart, List.map_cons, List.sum_cons, Int.add_assoc]

theorem planeSpan_iff {np : Numpy} {manifest : Manifest} {name : String} {span : Span} :
    planeSpan np manifest name = .ok span ↔ manifest.schemaVersion = patchSchemaVersion ∧
      findSpan np name 0 manifest.vars = .ok (some span) := by
  unfold planeSpan
  simp only [except_bind_ok, refuseIf_ok, not_not]
  constructor
  · rintro ⟨_, hschema, found, hfound, hspan⟩
    cases found with
    | none => cases hspan
    | some other =>
      obtain rfl := Except.ok.inj hspan
      exact ⟨hschema, hfound⟩
  · rintro ⟨hschema, hfound⟩
    exact ⟨(), hschema, some span, hfound, rfl⟩

theorem planeBlock_iff {manifest : Manifest} {payload : Bytes} {name : String} {t : Int} :
    (∃ block rows cols, planeBlock lib manifest payload name t = .ok (block, rows, cols) ∧
      Refuses lib.numpy block [rows, cols]) ↔
    ∃ start rows cols size, PlaneChecked lib manifest payload name t start rows cols ∧
      Streams lib.zstd payload (planeStop start t rows cols) size ∧
      Misfits lib.numpy
        (sliceSize size (planeStart start t rows cols) (planeStop start t rows cols)) [rows, cols] := by
  constructor
  · rintro ⟨block, rows, cols, hblock, hrefuses⟩
    unfold planeBlock at hblock
    simp only [except_bind_ok, refuseIf_ok, not_not] at hblock
    obtain ⟨_, hchecksum, span, hspan, _, ⟨ht0, ht⟩, hblock⟩ := hblock
    obtain ⟨hschema, hfound⟩ := planeSpan_iff.mp hspan
    obtain ⟨before, entry, after, hsplit, hbefore, hname, hshape, hstart, -⟩ := findSpan_iff.mp hfound
    split at hblock
    · cases hblock
    · rename_i buffer hbuffer
      simp only [except_bind_ok, refuseIf_ok, Int.not_lt] at hblock
      obtain ⟨_, hlong, hpure⟩ := hblock
      obtain ⟨rfl, hrest⟩ := Prod.mk.inj (Except.ok.inj hpure)
      obtain ⟨rfl, rfl⟩ := Prod.mk.inj hrest
      refine ⟨span.start, span.rows, span.cols, buffer.length, ⟨checkPlaneChecksum_iff.mp hchecksum,
        hschema, before, entry, after, span.depth, hsplit, hbefore, hname, hshape,
        by simpa using hstart, ht0, ht⟩, ⟨buffer, hbuffer, rfl, hlong⟩, ?_⟩
      rw [← slice_size]
      exact refuses_iff.mp hrefuses
  · rintro ⟨start, rows, cols, size, hchecked, ⟨buffer, hbuffer, rfl, hlong⟩, hmisfits⟩
    obtain ⟨hchecksum, hschema, before, entry, after, depth, hsplit, hbefore, hname, hshape, hstart,
      ht0, ht⟩ := hchecked
    let span : Span := ⟨start, start + lib.numpy.prod entry.shape * itemsize, depth, rows, cols⟩
    have hspan : planeSpan lib.numpy manifest name = .ok span := planeSpan_iff.mpr ⟨hschema,
      findSpan_iff.mpr ⟨before, entry, after, hsplit, hbefore, hname, hshape, by simpa using hstart,
        rfl⟩⟩
    refine ⟨slice buffer (planeStart start t rows cols) (planeStop start t rows cols), rows, cols, ?_,
      ?_⟩
    · unfold planeBlock
      rw [(checkPlaneChecksum_iff (u := ())).mpr hchecksum, except_ok_bind, hspan, except_ok_bind,
        refuseIf_false (by simp [span, ht0, ht]), except_ok_bind]
      unfold planeStop planeStart at hbuffer hlong ⊢
      dsimp only [span]
      rw [hbuffer]
      dsimp only
      rw [refuseIf_false (by omega)]
      rfl
    · rw [refuses_iff, slice_size]
      exact hmisfits

theorem onlyPatch_decodePlane (lib : Libraries) (manifest : Manifest) (payload : Bytes)
    (name : String) (t : Int) : OnlyPatch (decodePlane lib manifest payload name t) ↔
      ¬ ∃ start rows cols size, PlaneChecked lib manifest payload name t start rows cols ∧
        Streams lib.zstd payload (planeStop start t rows cols) size ∧
        Misfits lib.numpy
          (sliceSize size (planeStart start t rows cols) (planeStop start t rows cols)) [rows, cols] := by
  rw [onlyPatch_decodePlane_block, planeBlock_iff]

end Plane

/-! ## Manifests of arrays -/

/-- The shapes of a manifest are shapes that arrays have. -/
def ArrayShapes (entries : List VariableMeta) : Prop :=
  ∀ entry ∈ entries, ∃ shape : List Nat, entry.shape = shape.map (↑) ∧ Fits shape

section ArrayShapes

variable {lib : Libraries} {np : Numpy}

theorem accepts_of_length {block : Bytes} {shape : List Nat} (hfits : Fits shape)
    (hlength : block.length = 4 * shape.prod) : ¬ Refuses np block (shape.map (↑)) := by
  obtain ⟨bits, hbits, hcount⟩ := wordsOf_isSome hlength
  intro h
  have hnone := h bits hbits
  rw [np.reshape_nat, dif_pos ⟨hcount.symm, hfits⟩] at hnone
  cases hnone

theorem slice_length {raw : Bytes} {a b : Nat} (h : b ≤ raw.length) :
    (slice raw (a : Int) (b : Int)).length = b - a := by
  rw [slice_natCast, List.length_drop, List.length_take, Nat.min_eq_left h]

theorem blocks_accepted (np : Numpy) {raw : Bytes} {entries : List VariableMeta}
    (hshapes : ArrayShapes entries) (offset : Nat) (hlength : (raw.length : Int) =
      offset + (entries.map fun entry => np.prod entry.shape * itemsize).sum) :
    ∀ b ∈ blocks np raw offset entries, ¬ Refuses np b.1 b.2 := by
  induction entries generalizing offset with
  | nil => simp [blocks]
  | cons entry entries ih =>
    obtain ⟨⟨shape, hshape, hfits⟩, hrest⟩ := List.forall_mem_cons.mp hshapes
    have hcount : np.prod entry.shape * itemsize = (4 * shape.prod : Nat) := by
      rw [hshape, np.prod_fits shape hfits, itemsize]
      push_cast
      ring
    have hnonneg : 0 ≤ (entries.map fun entry => np.prod entry.shape * itemsize).sum := by
      apply List.sum_nonneg
      intro v hv
      obtain ⟨e, he, rfl⟩ := List.mem_map.mp hv
      obtain ⟨s, hs, hsfits⟩ := hrest e he
      rw [hs, np.prod_fits s hsfits, itemsize]
      positivity
    rw [List.map_cons, List.sum_cons, hcount] at hlength
    rw [blocks, hcount, ← Nat.cast_add, List.forall_mem_cons]
    constructor
    · rw [hshape]
      apply accepts_of_length hfits
      rw [slice_length (by omega)]
      omega
    · exact ih hrest _ (by push_cast at hlength ⊢; linarith)

theorem onlyPatch_decodePayload (lib : Libraries) (manifest : Manifest) (payload : Bytes)
    (verifyChecksum : Bool) (expected : Option (List String)) :
    OnlyPatch (decodePayload lib manifest payload verifyChecksum expected) ↔
      ¬ ∃ raw, Checked lib manifest payload verifyChecksum expected raw ∧
        ∃ entry ∈ manifest.vars, Oversized entry := by
  rw [onlyPatch_decodePayload_blocks, not_iff_not]
  refine exists_congr fun raw => ?_
  rw [admitted_iff]
  refine and_congr_right fun hchecked => ?_
  constructor
  · rintro ⟨b, hb, hrefuses⟩
    by_contra hfits
    refine blocks_accepted lib.numpy (fun entry hentry => ?_) 0 (by simpa using hchecked.length) b hb
      hrefuses
    refine ⟨_, ((hchecked.counted entry hentry).2.natural).symm, ?_⟩
    by_contra hover
    exact hfits ⟨entry, hentry, hover⟩
  · rintro ⟨entry, hentry, hover⟩
    obtain ⟨block, hblock⟩ := mem_blocks lib.numpy raw hentry 0
    exact ⟨_, hblock, (hchecked.counted entry hentry).2.refuses hover block⟩

theorem onlyPatch_decodePayload_of_arrayShapes {manifest : Manifest}
    (hshapes : ArrayShapes manifest.vars) (payload : Bytes) (verifyChecksum : Bool)
    (expected : Option (List String)) :
    OnlyPatch (decodePayload lib manifest payload verifyChecksum expected) := by
  rw [onlyPatch_decodePayload_blocks]
  rintro ⟨raw, hadmitted, b, hb, hrefuses⟩
  have htotal := (expectedNbytes_ok.mp (admitted_counted hadmitted)).2
  exact blocks_accepted lib.numpy hshapes 0 (by simpa using htotal) b hb hrefuses

theorem findSpan_nat {name : String} {entries : List VariableMeta} (hshapes : ArrayShapes entries)
    {offset : Nat} {span : Span} (h : findSpan np name offset entries = .ok (some span)) :
    ∃ start depth rows cols : Nat, (span.start = start ∧ span.depth = depth ∧ span.rows = rows ∧
      span.cols = cols) ∧ Fits [depth, rows, cols] := by
  induction entries generalizing offset with
  | nil => cases h
  | cons entry entries ih =>
    obtain ⟨⟨shape, hshape, hfits⟩, hrest⟩ := List.forall_mem_cons.mp hshapes
    rw [findSpan] at h
    split at h
    · -- the other lengths raise
      rcases shape with _ | ⟨depth, _ | ⟨rows, _ | ⟨cols, _ | ⟨_, _⟩⟩⟩⟩
      · simp [hshape] at h
      · simp [hshape] at h
      · simp [hshape] at h
      · simp only [hshape, List.map_cons, List.map_nil, Except.ok.injEq, Option.some.injEq] at h
        subst h
        exact ⟨offset, depth, rows, cols, ⟨rfl, rfl, rfl, rfl⟩, hfits⟩
      · simp [hshape] at h
    · have hcount : (offset : Int) + np.prod entry.shape * itemsize =
          (offset + 4 * shape.prod : Nat) := by
        rw [hshape, np.prod_fits shape hfits, itemsize]
        push_cast
        ring
      rw [hcount] at h
      exact ih hrest h

theorem planeSpan_ok {manifest : Manifest} {name : String} {span : Span}
    (h : planeSpan np manifest name = .ok span) :
    findSpan np name (0 : Nat) manifest.vars = .ok (some span) := by
  unfold planeSpan at h
  simp only [except_bind_ok, refuseIf_ok] at h
  obtain ⟨_, _, found, hfound, hspan⟩ := h
  cases found with
  | none => cases hspan
  | some s =>
    obtain rfl := Except.ok.inj hspan
    exact hfound

theorem onlyPatch_decodePlane_of_arrayShapes {manifest : Manifest}
    (hshapes : ArrayShapes manifest.vars) (payload : Bytes) (name : String) (t : Int) :
    OnlyPatch (decodePlane lib manifest payload name t) := by
  rw [onlyPatch_decodePlane_block]
  rintro ⟨block, rows, cols, hblock, hrefuses⟩
  unfold planeBlock at hblock
  simp only [except_bind_ok, refuseIf_ok, not_not] at hblock
  obtain ⟨_, _, span, hspan, _, ⟨ht0, ht⟩, hblock⟩ := hblock
  obtain ⟨start, depth, r, c, ⟨hstart, hdepth, hr, hc⟩, hfits⟩ :=
    findSpan_nat hshapes (planeSpan_ok hspan)
  lift t to Nat using ht0
  rw [hdepth, Nat.cast_lt] at ht
  have hfrom : span.start + t * span.rows * span.cols * itemsize =
      (start + 4 * (t * (r * c)) : Nat) := by
    rw [hstart, hr, hc, itemsize]
    push_cast
    ring
  have hto : ((start + 4 * (t * (r * c)) : Nat) : Int) + span.rows * span.cols * itemsize =
      (start + 4 * (t * (r * c)) + 4 * (r * c) : Nat) := by
    rw [hr, hc, itemsize]
    push_cast
    ring
  rw [hfrom, hto] at hblock
  split at hblock
  · cases hblock
  · rename_i buffer _
    simp only [except_bind_ok, refuseIf_ok, not_lt, Nat.cast_le] at hblock
    obtain ⟨_, hlong, hpure⟩ := hblock
    obtain ⟨rfl, hrest⟩ := Prod.mk.inj (Except.ok.inj hpure)
    obtain ⟨rfl, rfl⟩ := Prod.mk.inj hrest
    have hshape : [span.rows, span.cols] = [r, c].map (fun n : Nat => (n : Int)) := by simp [hr, hc]
    rw [hshape] at hrefuses
    apply accepts_of_length (fits_tail (Nat.zero_lt_of_lt ht) hfits) _ hrefuses
    rw [slice_length hlong]
    simp

end ArrayShapes

/-! ## The laws of the codec -/

/-- Supported variables, with arrays of 32-bit floats over the window. -/
def MatchesWindow (window : RasterWindow) (arrays : Dict String NdArray) (vars : List String) :
    Prop :=
  vars ≠ [] ∧ ∀ name ∈ vars, name ∈ supportedVariables ∧ ∃ array depth rows cols,
    arrays[name]? = some array ∧ array.scalar = .float32 ∧ array.shape = [depth, rows, cols] ∧
      (rows : Int) = window.rowStop - window.rowStart ∧
        (cols : Int) = window.colStop - window.colStart

/-- What is encoded comes back, whole and plane by plane. -/
def RoundTrips (lib : Libraries) (window : RasterWindow) (arrays : Dict String NdArray)
    (vars : List String) : Prop :=
  ∃ metas payload checksum, encodePayload lib arrays vars = .ok (metas, payload, checksum) ∧
    ∃ decoded, (∀ verifyChecksum expected, (∀ names ∈ expected, names = vars) →
        decodePayload lib (buildManifest window metas checksum) payload verifyChecksum expected =
          .ok decoded) ∧
      (∀ name, decoded[name]? = if name ∈ vars then arrays[name]? else none) ∧
      ∀ name array, decoded[name]? = some array → ∀ depth rows cols : Nat,
        array.shape = [depth, rows, cols] → ∀ t < depth, ∃ plane,
          decodePlane lib (buildManifest window metas checksum) payload name t = .ok plane ∧
            plane.shape = [rows, cols] ∧ plane.scalar = .float32 ∧
              plane.bits = (array.bits.drop (t * (rows * cols))).take (rows * cols)

instance : Inhabited NdArray := ⟨[0], .float32, [], rfl, by decide⟩

theorem roundTrips_of_matchesWindow (lib : Libraries) {window : RasterWindow}
    {arrays : Dict String NdArray} {vars : List String} (h : MatchesWindow window arrays vars) :
    RoundTrips lib window arrays vars := by
  obtain ⟨hne, hvars⟩ := h
  let arrayOf (name : String) : NdArray := arrays.getD name default
  have hheld : ∀ name ∈ vars, arrays[name]? = some (arrayOf name) := by
    intro name hname
    obtain ⟨_, array, _, _, _, harray, _⟩ := hvars name hname
    rw [harray]
    exact congrArg some (Dict.getD_of_some harray default).symm
  have hfits : FitsWindow window vars arrayOf := by
    refine ⟨hne, fun name hname => ?_, fun name hname => ?_⟩
    · obtain ⟨_, array, _, _, _, harray, hscalar, _⟩ := hvars name hname
      rw [show arrayOf name = array from Dict.getD_of_some harray default, hscalar]
    · obtain ⟨_, array, depth, rows, cols, harray, _, hshape⟩ := hvars name hname
      rw [show arrayOf name = array from Dict.getD_of_some harray default]
      exact ⟨depth, rows, cols, hshape⟩
  have hencodable : Encodable arrays vars arrayOf :=
    ⟨fun name hname => (hvars name hname).1, hheld, hfits.rank⟩
  have hencode : encodePayload lib arrays vars = _ := hencodable.encode fun name hname => by
    rw [hfits.scalar name hname]
    rfl
  refine ⟨_, _, _, hencode, _, fun verify expected hexpected =>
    hfits.decodePayload verify hexpected, fun name => ?_, ?_⟩
  · rw [getElem?_held]
    split
    · rename_i hname
      exact (hheld name hname).symm
    · rfl
  · intro name array harray depth rows cols hshape t ht
    rw [getElem?_held] at harray
    split at harray
    · rename_i hname
      obtain rfl := Option.some.inj harray
      exact decodePlane_manifestOf hname hshape ht
    · cases harray

/-! ## A stored payload -/

/-- Each axis as a natural number, where none is negative. -/
def naturalAxes (shape : List Int) : Option (List Nat) :=
  if ∀ v ∈ shape, 0 ≤ v then some (shape.map Int.toNat) else none

/-- One negative axis stands for what the others leave. -/
def inferAxis (n : Nat) (shape : List Int) : Option (List Nat) :=
  let known := ((shape.filter (0 ≤ ·)).map Int.toNat).prod
  if (shape.filter (· < 0)).length = 1 ∧ known ≠ 0 ∧ n % known = 0 then
    some (shape.map fun v => if v < 0 then n / known else v.toNat)
  else none

def dimsOf (n : Nat) (shape : List Int) : Option (Dims n) :=
  ((naturalAxes shape).or (inferAxis n shape)).bind fun dims =>
    if h : dims.prod = n ∧ Fits dims then some ⟨dims, h⟩ else none

theorem dimsOf_nat (n : Nat) (shape : List Nat) : dimsOf n (shape.map (↑)) =
    if h : shape.prod = n ∧ Fits shape then some ⟨shape, h⟩ else none := by
  have hnat : naturalAxes (shape.map (↑)) = some shape := by
    simp [naturalAxes, Function.comp_def]
  unfold dimsOf
  rw [hnat]
  rfl

theorem prod_lt_of_fits {shape : List Nat} (h : Fits shape) : shape.prod < 2 ^ 61 := by
  unfold Fits at h
  by_cases hzero : 0 ∈ shape
  · rw [List.prod_eq_zero hzero]
    norm_num
  · rw [List.filter_eq_self.mpr fun a ha => by
      rw [decide_eq_true_iff]
      rintro rfl
      exact hzero ha] at h
    omega

theorem wrapping_prod (shape : List Nat) (h : Fits shape) :
    Int.bmod (shape.map (fun n : Nat => (n : Int))).prod (2 ^ 64) = shape.prod := by
  have hlt := prod_lt_of_fits h
  rw [← Nat.cast_list_prod, Int.bmod_eq_of_le]
  · omega
  · omega

/-- Products in 64 bits. -/
def wrapping : Numpy where
  prod shape := Int.bmod shape.prod (2 ^ 64)
  reshape := dimsOf
  prod_fits := wrapping_prod
  reshape_nat := dimsOf_nat

/-- The first byte of a stored frame, and then its content. -/
def storedStep : Bool → Bytes → Option (Bool × Bytes)
  | true, bytes => some (true, bytes)
  | false, [] => some (false, [])
  | false, b :: bytes => if b = 0x28 then some (true, bytes) else none

theorem feedAll_stored (ps : List Bytes) : feedAll storedStep true ps = some (true, ps.flatten) := by
  induction ps with
  | nil => rfl
  | cons p ps ih =>
    rw [feedAll, storedStep]
    simp only [ih, Option.map_some, List.flatten_cons]

theorem stored_pieces (raw : Bytes) (ps : List Bytes) (hne : ∀ p ∈ ps, p ≠ [])
    (hflatten : ps.flatten = 0x28 :: raw) :
    ∃ s, feedAll storedStep false ps = some (s, raw) := by
  match ps, hne, hflatten with
  | [] :: _, hne, _ => exact absurd rfl (hne [] List.mem_cons_self)
  | (b :: p) :: ps, _, hflatten =>
    rw [List.flatten_cons, List.cons_append, List.cons.injEq] at hflatten
    obtain ⟨rfl, rfl⟩ := hflatten
    refine ⟨true, ?_⟩
    rw [feedAll, storedStep, if_pos rfl]
    simp only [feedAll_stored, Option.map_some]

/-- A frame that keeps its content as it is, behind one byte. -/
def stored : Zstd where
  State := Bool
  decompressobj := false
  decompress := storedStep
  compress raw := 0x28 :: raw
  compress_ne_nil raw := List.cons_ne_nil _ raw
  pieces := stored_pieces

def storedLibraries : Libraries where
  numpy := wrapping
  zstd := stored
  sha256 payload := toString payload.length

/-- A plane of one row and two columns, without its time axis. -/
def flatArray : NdArray where
  shape := [1, 2]
  scalar := .float32
  bits := [0x7fc00001, 0x3f800000]
  length_eq := rfl
  fits := by decide

/-- The round trip, and exactly when each function raises nothing but the codec's own errors. No
decoder raises another one for shapes that arrays have. -/
theorem patchCodec_laws (lib : Libraries) :
    (∀ window arrays vars, MatchesWindow window arrays vars → RoundTrips lib window arrays vars) ∧
    (∀ arrays vars, OnlyPatch (encodePayload lib arrays vars) ↔ ¬ HoldsOtherRank arrays vars) ∧
    (∀ manifest payload verifyChecksum expected,
      OnlyPatch (decodePayload lib manifest payload verifyChecksum expected) ↔
        ¬ ∃ raw, Checked lib manifest payload verifyChecksum expected raw ∧
          ∃ entry ∈ manifest.vars, Oversized entry) ∧
    (∀ manifest payload name t, OnlyPatch (decodePlane lib manifest payload name t) ↔
      ¬ ∃ start rows cols size, PlaneChecked lib manifest payload name t start rows cols ∧
        Streams lib.zstd payload (planeStop start t rows cols) size ∧
        Misfits lib.numpy
          (sliceSize size (planeStart start t rows cols) (planeStop start t rows cols))
          [rows, cols]) ∧
    ∀ manifest payload, ArrayShapes manifest.vars →
      (∀ verifyChecksum expected,
        OnlyPatch (decodePayload lib manifest payload verifyChecksum expected)) ∧
      ∀ name t, OnlyPatch (decodePlane lib manifest payload name t) :=
  ⟨fun _ _ _ => roundTrips_of_matchesWindow lib, onlyPatch_encodePayload lib,
    onlyPatch_decodePayload lib, onlyPatch_decodePlane lib, fun _ payload hshapes =>
      ⟨onlyPatch_decodePayload_of_arrayShapes hshapes payload,
        onlyPatch_decodePlane_of_arrayShapes hshapes payload⟩⟩

/-- Two planes of one row and two columns, with an element that is no number. -/
def twoPlanes : NdArray where
  shape := [2, 1, 2]
  scalar := .float32
  bits := [0x7fc00001, 0x3f800000, 0x40000000, 0xff800000]
  length_eq := rfl
  fits := by decide

def onePlane : NdArray where
  shape := [1, 1, 2]
  scalar := .float32
  bits := [0x00000000, 0x80000000]
  length_eq := rfl
  fits := by decide

def twoVariables : Dict String NdArray := Dict.ofEntries [("utci", twoPlanes), ("shadow", onePlane)]

def twoColumns : RasterWindow := ⟨3, 4, 5, 7, by decide, by decide⟩

/-- Two variables of different depths come back. -/
theorem patchCodec_laws_two : MatchesWindow twoColumns twoVariables ["utci", "shadow"] ∧
    RoundTrips storedLibraries twoColumns twoVariables ["utci", "shadow"] := by
  have hmatches : MatchesWindow twoColumns twoVariables ["utci", "shadow"] := by
    refine ⟨by simp, fun name hname => ?_⟩
    simp only [List.mem_cons, List.not_mem_nil, or_false] at hname
    rcases hname with rfl | rfl
    · exact ⟨by decide, twoPlanes, 2, 1, 2, by decide, rfl, rfl, rfl, rfl⟩
    · exact ⟨by decide, onePlane, 1, 1, 2, by decide, rfl, rfl, rfl, rfl⟩
  exact ⟨hmatches, (patchCodec_laws storedLibraries).1 _ _ _ hmatches⟩

/-- A flat array, which ends in a name that is not defined; and a manifest with two negative
axes, whose plane has as many bytes as it asks for and is refused its shape. -/
theorem patchCodec_foreign :
    encodePayload storedLibraries (Dict.ofEntries [("utci", flatArray)]) ["utci"] =
        .error (.nameError "PatchShapeError") ∧
      ¬ OnlyPatch (encodePayload storedLibraries (Dict.ofEntries [("utci", flatArray)]) ["utci"]) ∧
      ¬ OnlyPatch (decodePlane storedLibraries
        (buildManifest RasterWindow.empty [⟨"utci", [1, -1, -1], "float32"⟩] "")
        (stored.compress [0, 0, 0, 0]) "utci" 0) := by
  have hencode : encodePayload storedLibraries (Dict.ofEntries [("utci", flatArray)]) ["utci"] =
      .error (.nameError "PatchShapeError") := by
    decide
  have hplane : decodePlane storedLibraries
      (buildManifest RasterWindow.empty [⟨"utci", [1, -1, -1], "float32"⟩] "")
      (stored.compress [0, 0, 0, 0]) "utci" 0 = .error .valueError := by
    decide
  exact ⟨hencode, fun h => h _ hencode, fun h => h _ hplane⟩

end Solweig.Patch
