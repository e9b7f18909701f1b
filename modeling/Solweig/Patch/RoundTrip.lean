import Solweig.Patch.Codec

/-!
# Round trips of result patches

The encoder lays the arrays one behind the other. Both decoders find them again: what lies
before an array is what the entries before its own imply.
-/

namespace Solweig.Patch

open Solweig.Lib
open Solweig.Planner (RasterWindow)

/-! ## Slices and blocks -/

theorem slice_natCast (raw : Bytes) (a b : Nat) :
    slice raw (a : Int) (b : Int) = (raw.take b).drop a := by
  unfold slice Bits.clampIndex
  rw [if_neg (by omega), if_neg (by omega), Int.toNat_natCast, Int.toNat_natCast, ← List.take_eq_take_min]
  rcases Nat.le_total a raw.length with ha | ha
  · rw [Nat.min_eq_left ha]
  · rw [Nat.min_eq_right ha, List.drop_eq_nil_of_le (by simp), List.drop_eq_nil_of_le (by simp; omega)]

theorem slice_middle (before block after : Bytes) (size : Nat) (hsize : block.length = size) :
    slice (before ++ block ++ after) (before.length : Int) ((before.length : Int) + size) = block := by
  have hstop : (before.length : Int) + size = ((before ++ block).length : Nat) := by
    rw [List.length_append, hsize]
    omega
  rw [hstop, slice_natCast, List.take_left, List.drop_left]

theorem slice_append {buffer rest : Bytes} {a b : Nat} (h : b ≤ buffer.length) :
    slice (buffer ++ rest) (a : Int) (b : Int) = slice buffer (a : Int) (b : Int) := by
  rw [slice_natCast, slice_natCast, List.take_append_of_le_length h]

section Blocks

variable (np : Numpy)

theorem fromBlock_bytesOf {bits : List Word} {shape : List Nat} (hlength : bits.length = shape.prod)
    (hfits : Fits shape) : fromBlock np (bytesOf bits) (shape.map (↑)) =
      .ok { shape, scalar := .float32, bits, length_eq := hlength, fits := hfits } := by
  unfold fromBlock
  rw [wordsOf_bytesOf]
  dsimp only
  rw [np.reshape_nat, dif_pos ⟨hlength.symm, hfits⟩]

end Blocks

/-! ## What the encoder writes -/

/-- The entry of an array in a manifest. -/
def metaOf (name : String) (array : NdArray) : VariableMeta where
  name
  shape := array.shape.map (↑)
  dtype := "float32"

/-- The arrays of some variables, one behind the other. -/
def layout (arrayOf : String → NdArray) (vars : List String) : Bytes :=
  (vars.map fun name => bytesOf (arrayOf name).bits).flatten

/-- An encodable choice of variables, where `arrayOf` is what the mapping holds. -/
structure Encodable (arrays : Dict String NdArray) (vars : List String)
    (arrayOf : String → NdArray) : Prop where
  supported : ∀ name ∈ vars, name ∈ supportedVariables
  held : ∀ name ∈ vars, arrays[name]? = some (arrayOf name)
  rank : ∀ name ∈ vars, (arrayOf name).shape.length = 3

section Encode

variable {lib : Libraries} {arrays : Dict String NdArray} {vars : List String}
  {arrayOf : String → NdArray}

theorem item_ok {name : String} {array : NdArray} (h : arrays[name]? = some array) :
    item arrays name = .ok array := by
  unfold item
  rw [h]

theorem Encodable.uncompressed (h : Encodable arrays vars arrayOf)
    (hfloating : ∀ name ∈ vars, (arrayOf name).scalar.isFloating = true) :
    uncompressedBytes arrays vars = .ok (layout arrayOf vars) := by
  unfold uncompressedBytes
  rw [mapM_ok_of_forall (g := fun name => bytesOf (arrayOf name).bits)]
  · rfl
  · intro name hname
    rw [item_ok (h.held name hname), except_ok_bind, refuseIf_false (by simp [h.rank name hname]),
      except_ok_bind, refuseIf_false (by simp [hfloating name hname])]
    rfl

theorem Encodable.metas (h : Encodable arrays vars arrayOf) :
    (vars.mapM fun name => do variableMeta name (← item arrays name).shape : Except Raised _) =
      .ok (vars.map fun name => metaOf name (arrayOf name)) := by
  apply mapM_ok_of_forall
  intro name hname
  rw [item_ok (h.held name hname), except_ok_bind]
  unfold variableMeta
  rw [refuseIf_false (by simp [h.rank name hname])]
  rfl

theorem Encodable.encode (h : Encodable arrays vars arrayOf)
    (hfloating : ∀ name ∈ vars, (arrayOf name).scalar.isFloating = true) :
    encodePayload lib arrays vars = .ok (vars.map fun name => metaOf name (arrayOf name),
      lib.zstd.compress (layout arrayOf vars),
      checksumPayload lib (lib.zstd.compress (layout arrayOf vars))) := by
  have hknown : vars.filter (· ∉ supportedVariables) = [] := by
    simpa using h.supported
  have hpresent : (vars.filter fun name => arrays[name]?.isNone) = [] := by
    rw [List.filter_eq_nil_iff]
    intro name hname
    simp [h.held name hname]
  unfold encodePayload
  simp only [hknown, hpresent]
  rw [refuseIf_false (by simp), except_ok_bind, refuseIf_false (by simp), except_ok_bind, h.metas,
    except_ok_bind, h.uncompressed hfloating]
  rfl

end Encode

/-! ## The whole decoder -/

section Decode

variable {lib : Libraries} {vars : List String} {arrayOf : String → NdArray}

theorem decompressPayload_compress (raw : Bytes) {manifest : Manifest}
    (hfield : manifest.compression = "zstd") :
    decompressPayload lib (lib.zstd.compress raw) manifest = .ok raw := by
  obtain ⟨s, hs⟩ := lib.zstd.pieces raw [lib.zstd.compress raw]
    (by simpa using lib.zstd.compress_ne_nil raw) (by simp)
  unfold decompressPayload
  rw [refuseIf_false (by simp [hfield]), except_ok_bind]
  rw [feedAll] at hs
  cases hfed : lib.zstd.decompress lib.zstd.decompressobj (lib.zstd.compress raw) with
  | none => simp [hfed] at hs
  | some fed =>
    obtain ⟨s', out⟩ := fed
    simp only [hfed, feedAll, Option.map_some, List.append_nil, Option.some.injEq,
      Prod.mk.injEq] at hs
    rw [hs.2]
    rfl

theorem layout_length (vars : List String) :
    ((layout arrayOf vars).length : Int) =
      (vars.map fun name => ((arrayOf name).shape.prod : Int) * itemsize).sum := by
  induction vars with
  | nil => rfl
  | cons name vars ih =>
    show ((bytesOf (arrayOf name).bits ++ layout arrayOf vars).length : Int) = _
    rw [List.length_append, bytesOf_length, (arrayOf name).length_eq, List.map_cons, List.sum_cons,
      ← ih]
    unfold itemsize
    push_cast
    ring

theorem expectedNbytes_ok {np : Numpy} {entries : List VariableMeta} {total : Int} :
    expectedNbytes np entries = .ok total ↔
      (∀ entry ∈ entries, entry.dtype = "float32" ∧ entry.shape.length = 3 ∧
        ∀ v ∈ entry.shape, 0 ≤ v) ∧
      total = (entries.map fun entry => np.prod entry.shape * itemsize).sum := by
  unfold expectedNbytes
  suffices key : ∀ start : Int, entries.foldlM (fun total entry => do
      refuseIf (entry.dtype ≠ "float32") (Raised.patch (.notFloat32 entry.name entry.dtype))
      refuseIf (entry.shape.length ≠ 3) (.patch (.rank entry.name entry.shape))
      refuseIf (∃ v ∈ entry.shape, v < 0) (.patch (.negativeShape entry.name entry.shape))
      pure (total + np.prod entry.shape * itemsize)) start = .ok total ↔
      (∀ entry ∈ entries, entry.dtype = "float32" ∧ entry.shape.length = 3 ∧
        ∀ v ∈ entry.shape, 0 ≤ v) ∧
      total = start + (entries.map fun entry => np.prod entry.shape * itemsize).sum by
    simpa using key 0
  induction entries with
  | nil =>
    intro start
    simp [pure, Except.pure, eq_comm]
  | cons entry entries ih =>
    intro start
    rw [foldlM_cons_ok, List.forall_mem_cons, List.map_cons, List.sum_cons, ← add_assoc]
    simp only [except_bind_ok, refuseIf_ok, ih]
    constructor
    · rintro ⟨u, ⟨_, hdtype, _, hrank, _, hneg, hu⟩, hrest, htotal⟩
      obtain rfl := Except.ok.inj hu
      exact ⟨⟨⟨not_not.mp hdtype, not_not.mp hrank, by simpa using hneg⟩, hrest⟩, htotal⟩
    · rintro ⟨⟨⟨hdtype, hrank, hneg⟩, hrest⟩, htotal⟩
      exact ⟨_, ⟨(), not_not.mpr hdtype, (), not_not.mpr hrank, (), by simpa using hneg, rfl⟩,
        hrest, htotal⟩

theorem prod_metaOf (np : Numpy) (name : String) (array : NdArray) :
    np.prod (metaOf name array).shape = array.shape.prod :=
  np.prod_fits array.shape array.fits

theorem expectedNbytes_metaOf (np : Numpy) (hrank : ∀ name ∈ vars, (arrayOf name).shape.length = 3) :
    expectedNbytes np (vars.map fun name => metaOf name (arrayOf name)) =
      .ok ((layout arrayOf vars).length : Int) := by
  rw [expectedNbytes_ok, layout_length, List.map_map]
  constructor
  · intro entry hentry
    obtain ⟨name, hname, rfl⟩ := List.mem_map.mp hentry
    exact ⟨rfl, by simp [metaOf, hrank name hname], by simp [metaOf]⟩
  · simp only [Function.comp_def, prod_metaOf]

theorem unpackStep_layout (np : Numpy) (before after : Bytes) (d : Dict String NdArray)
    (name : String) {array : NdArray} (hscalar : array.scalar = .float32) :
    unpackStep np (before ++ bytesOf array.bits ++ after) (d, before.length) (metaOf name array) =
      .ok (d.insert name array, ((before ++ bytesOf array.bits).length : Nat)) := by
  have hsize : (array.shape.prod : Int) * itemsize = ((bytesOf array.bits).length : Nat) := by
    rw [bytesOf_length, array.length_eq, itemsize]
    push_cast
    ring
  have hblock := fromBlock_bytesOf np array.length_eq array.fits
  unfold unpackStep
  simp only [prod_metaOf, hsize, slice_middle _ _ _ _ rfl]
  rw [show (metaOf name array).shape = array.shape.map (↑) from rfl, hblock, except_ok_bind,
    List.length_append]
  obtain ⟨shape, scalar, bits, hlength, hfits⟩ := array
  obtain rfl : scalar = .float32 := hscalar
  push_cast
  rfl

theorem unpackAll_layout (np : Numpy) (hscalar : ∀ name ∈ vars, (arrayOf name).scalar = .float32)
    (before : Bytes) (d : Dict String NdArray) :
    (vars.map fun name => metaOf name (arrayOf name)).foldlM
        (unpackStep np (before ++ layout arrayOf vars)) (d, (before.length : Int)) =
      .ok (vars.foldl (fun d name => d.insert name (arrayOf name)) d,
        ((before ++ layout arrayOf vars).length : Int)) := by
  induction vars generalizing before d with
  | nil =>
    rw [show layout arrayOf [] = [] from rfl, List.append_nil]
    rfl
  | cons name vars ih =>
    obtain ⟨hfirst, hrest⟩ := List.forall_mem_cons.mp hscalar
    have hlayout : before ++ layout arrayOf (name :: vars) =
        before ++ bytesOf (arrayOf name).bits ++ layout arrayOf vars := by
      rw [List.append_assoc]
      rfl
    rw [List.map_cons, hlayout, foldlM_cons_ok]
    exact ⟨_, unpackStep_layout np before _ d name hfirst, ih hrest _ _⟩

theorem crossCheckWindow_ok {manifest : Manifest} {arrays : Dict String NdArray}
    {window : RasterWindow} (hwindow : manifest.window = some window)
    (h : ∀ entry ∈ manifest.vars, ∃ array depth rows cols, arrays[entry.name]? = some array ∧
      array.shape = [depth, rows, cols] ∧ (rows : Int) = window.rowStop - window.rowStart ∧
        (cols : Int) = window.colStop - window.colStart) :
    crossCheckWindow manifest arrays = .ok () := by
  unfold crossCheckWindow
  rw [hwindow, forM_ok]
  intro w hw
  obtain rfl := List.mem_singleton.mp hw
  rw [forM_ok]
  intro name hname
  rw [List.mem_eraseDups, List.mem_map] at hname
  obtain ⟨entry, hentry, rfl⟩ := hname
  obtain ⟨array, depth, rows, cols, hheld, hshape, hrows, hcols⟩ := h entry hentry
  rw [item_ok hheld, except_ok_bind, hshape]
  exact refuseIf_false (by simp [hrows, hcols])

/-- What lets a payload through to its arrays. -/
def admitted (lib : Libraries) (manifest : Manifest) (payload : Bytes) (verifyChecksum : Bool)
    (expected : Option (List String)) : Except Raised Bytes := do
  if verifyChecksum then checkChecksum lib manifest payload
  let raw ← decompressPayload lib payload manifest
  checkRaw lib.numpy manifest raw expected
  pure raw

theorem decodePayload_eq (manifest : Manifest) (payload : Bytes) (verifyChecksum : Bool)
    (expected : Option (List String)) :
    decodePayload lib manifest payload verifyChecksum expected = (do
      let raw ← admitted lib manifest payload verifyChecksum expected
      let arrays ← unpack lib.numpy manifest raw
      crossCheckWindow manifest arrays
      pure arrays) := by
  unfold decodePayload admitted decodeRaw
  cases verifyChecksum <;> simp only [bind_assoc, pure_bind, if_true, if_false,
    Bool.false_eq_true]

/-- Arrays that fit a window, as they are laid out. -/
structure FitsWindow (window : RasterWindow) (vars : List String)
    (arrayOf : String → NdArray) : Prop where
  ne_nil : vars ≠ []
  scalar : ∀ name ∈ vars, (arrayOf name).scalar = .float32
  shape : ∀ name ∈ vars, ∃ depth rows cols, (arrayOf name).shape = [depth, rows, cols] ∧
    (rows : Int) = window.rowStop - window.rowStart ∧
      (cols : Int) = window.colStop - window.colStart

/-- The manifest of a layout. -/
def manifestOf (lib : Libraries) (window : RasterWindow) (vars : List String)
    (arrayOf : String → NdArray) : Manifest :=
  buildManifest window (vars.map fun name => metaOf name (arrayOf name))
    (checksumPayload lib (lib.zstd.compress (layout arrayOf vars)))

variable {window : RasterWindow}

theorem FitsWindow.rank (h : FitsWindow window vars arrayOf) :
    ∀ name ∈ vars, (arrayOf name).shape.length = 3 := by
  intro name hname
  obtain ⟨depth, rows, cols, hshape, _⟩ := h.shape name hname
  rw [hshape]
  rfl

theorem names_metaOf :
    (vars.map fun name => metaOf name (arrayOf name)).map (·.name) = vars := by
  rw [List.map_map]
  exact List.map_id vars

theorem FitsWindow.checkRaw (h : FitsWindow window vars arrayOf) (np : Numpy)
    {expected : Option (List String)} (hexpected : ∀ names ∈ expected, names = vars) :
    checkRaw np (manifestOf lib window vars arrayOf) (layout arrayOf vars) expected = .ok () := by
  have hsome : (vars.map fun name => metaOf name (arrayOf name)) ≠ [] := by
    simpa using h.ne_nil
  unfold Patch.checkRaw manifestOf buildManifest
  simp only [names_metaOf]
  rw [refuseIf_false (by simp), except_ok_bind, refuseIf_false hsome, except_ok_bind,
    forM_ok.mpr, except_ok_bind, expectedNbytes_metaOf np h.rank, except_ok_bind,
    refuseIf_false (by simp)]
  intro names hnames
  rw [Option.mem_toList] at hnames
  exact refuseIf_false (by simp [hexpected names hnames])

theorem checksumPayload_ne (lib : Libraries) (payload : Bytes) : checksumPayload lib payload ≠ "" := by
  unfold checksumPayload
  simp

theorem checkChecksum_manifestOf (window : RasterWindow) : checkChecksum lib (manifestOf lib window vars arrayOf)
    (lib.zstd.compress (layout arrayOf vars)) = .ok () := by
  show (do
    refuseIf (checksumPayload lib (lib.zstd.compress (layout arrayOf vars)) = "") _
    verifyPayloadChecksum lib (lib.zstd.compress (layout arrayOf vars)) _) = _
  rw [refuseIf_false (checksumPayload_ne lib _), except_ok_bind]
  exact refuseIf_false (by simp)

theorem getElem?_held (vars : List String) (arrayOf : String → NdArray) (name : String) :
    (vars.foldl (fun d name => d.insert name (arrayOf name)) (∅ : Dict String NdArray))[name]? =
      if name ∈ vars then some (arrayOf name) else none := by
  have hlookup := @Dict.getElem?_foldl_insert _ _ _ _ _ _ _ (fun name => name) arrayOf vars ∅ name
    (arrayOf name) fun _ _ h => congrArg arrayOf h
  simpa using hlookup

theorem FitsWindow.admitted (h : FitsWindow window vars arrayOf) (verifyChecksum : Bool)
    {expected : Option (List String)} (hexpected : ∀ names ∈ expected, names = vars) :
    admitted lib (manifestOf lib window vars arrayOf) (lib.zstd.compress (layout arrayOf vars))
      verifyChecksum expected = .ok (layout arrayOf vars) := by
  unfold Patch.admitted
  rw [decompressPayload_compress _ rfl]
  simp only [except_ok_bind, h.checkRaw lib.numpy hexpected]
  cases verifyChecksum with
  | false => rfl
  | true =>
    rw [if_pos rfl, checkChecksum_manifestOf]
    rfl

theorem FitsWindow.decodePayload (h : FitsWindow window vars arrayOf) (verifyChecksum : Bool)
    {expected : Option (List String)} (hexpected : ∀ names ∈ expected, names = vars) :
    decodePayload lib (manifestOf lib window vars arrayOf)
        (lib.zstd.compress (layout arrayOf vars)) verifyChecksum expected =
      .ok (vars.foldl (fun d name => d.insert name (arrayOf name)) ∅) := by
  have hunpack := unpackAll_layout lib.numpy h.scalar [] ∅
  rw [List.nil_append] at hunpack
  have hcross : crossCheckWindow (manifestOf lib window vars arrayOf)
      (vars.foldl (fun d name => d.insert name (arrayOf name)) ∅) = .ok () := by
    apply crossCheckWindow_ok rfl
    intro entry hentry
    obtain ⟨name, hname, rfl⟩ := List.mem_map.mp hentry
    obtain ⟨depth, rows, cols, hshape⟩ := h.shape name hname
    exact ⟨arrayOf name, depth, rows, cols, by simp [getElem?_held, metaOf, hname], hshape⟩
  rw [decodePayload_eq, h.admitted verifyChecksum hexpected, except_ok_bind]
  unfold unpack
  rw [show (manifestOf lib window vars arrayOf).vars =
    vars.map fun name => metaOf name (arrayOf name) from rfl]
  rw [show (0 : Int) = (([] : Bytes).length : Int) from rfl, hunpack]
  simp only [except_ok_bind, pure_bind, hcross]
  rfl

end Decode

/-! ## One plane -/

section Plane

variable {lib : Libraries} {vars : List String} {arrayOf : String → NdArray}

theorem findSpan_metaOf (np : Numpy) {before after : List String} {name : String}
    (hname : name ∉ before) {depth rows cols : Nat}
    (hshape : (arrayOf name).shape = [depth, rows, cols]) (offset : Nat) :
    ∃ stop, findSpan np name offset
        ((before ++ name :: after).map fun name => metaOf name (arrayOf name)) =
      .ok (some { start := (offset + (layout arrayOf before).length : Nat), stop, depth, rows, cols }) := by
  induction before generalizing offset with
  | nil =>
    rw [List.nil_append, List.map_cons, findSpan,
      if_pos (show (metaOf name (arrayOf name)).name = name from rfl)]
    have hmeta : (metaOf name (arrayOf name)).shape = [(depth : Int), rows, cols] := by
      simp [metaOf, hshape]
    rw [hmeta]
    exact ⟨_, rfl⟩
  | cons first before ih =>
    rw [List.mem_cons, not_or] at hname
    obtain ⟨stop, hstop⟩ := ih hname.2 (offset + (bytesOf (arrayOf first).bits).length)
    refine ⟨stop, ?_⟩
    have hcount : np.prod (metaOf first (arrayOf first)).shape * itemsize =
        ((bytesOf (arrayOf first).bits).length : Nat) := by
      rw [prod_metaOf, bytesOf_length, (arrayOf first).length_eq, itemsize]
      push_cast
      ring
    have hlength : (layout arrayOf (first :: before)).length =
        (bytesOf (arrayOf first).bits).length + (layout arrayOf before).length :=
      List.length_append
    rw [List.cons_append, List.map_cons, findSpan, if_neg (by simpa [metaOf] using Ne.symm hname.1),
      hcount, hlength, ← Nat.add_assoc, ← hstop]
    push_cast
    rfl

theorem slice_words (before after : Bytes) (bits : List Word) {m n : Nat}
    (hmn : m + n ≤ bits.length) :
    slice (before ++ bytesOf bits ++ after) ((before.length + 4 * m : Nat) : Int)
        ((before.length + 4 * m + 4 * n : Nat) : Int) = bytesOf ((bits.drop m).take n) := by
  have hsplit : before ++ bytesOf bits ++ after =
      (before ++ bytesOf (bits.take m)) ++ bytesOf ((bits.drop m).take n) ++
        (bytesOf ((bits.drop m).drop n) ++ after) := by
    conv_lhs => rw [← List.take_append_drop m bits, ← List.take_append_drop n (bits.drop m)]
    simp only [bytesOf_append, List.append_assoc]
  have hstart : before.length + 4 * m = (before ++ bytesOf (bits.take m)).length := by
    rw [List.length_append, bytesOf_length, List.length_take, Nat.min_eq_left (by omega)]
  have hsize : (bytesOf ((bits.drop m).take n)).length = 4 * n := by
    rw [bytesOf_length, List.length_take, List.length_drop, Nat.min_eq_left (by omega)]
  rw [hsplit, hstart, Nat.cast_add]
  exact slice_middle _ _ _ _ hsize

theorem fits_tail {depth : Nat} {shape : List Nat} (hdepth : 0 < depth)
    (h : Fits (depth :: shape)) : Fits shape := by
  unfold Fits at *
  rw [List.filter_cons_of_pos (by simpa using hdepth.ne'), List.prod_cons] at h
  have hle := Nat.le_mul_of_pos_left ((shape.filter (· ≠ 0)).prod) hdepth
  omega

theorem feedUntil_compress (lib : Libraries) {raw : Bytes} {stop : Nat} (h : stop ≤ raw.length) :
    ∃ stopped rest, feedUntil lib.zstd.decompress (fun buffer => (stop : Int) ≤ buffer.length)
        lib.zstd.decompressobj [] (piecesOf decompressChunk (lib.zstd.compress raw)) =
      some stopped ∧ stopped ++ rest = raw ∧ stop ≤ stopped.length := by
  obtain ⟨s, hall⟩ := lib.zstd.pieces raw (piecesOf decompressChunk (lib.zstd.compress raw))
    (fun _ hp => piecesOf_ne_nil (by decide) hp) (piecesOf_flatten (by decide) _)
  obtain ⟨rest, stopped, hstopped, hfront, hend⟩ := feedUntil_of_feedAll [] hall
  refine ⟨stopped, rest, hstopped, hfront, ?_⟩
  rcases hend with henough | rfl
  · simpa using henough
  · rw [List.append_nil, List.nil_append] at hfront
    rwa [hfront]

variable {window : RasterWindow}

theorem planeBlock_manifestOf {name : String} (hname : name ∈ vars) {depth rows cols : Nat}
    (hshape : (arrayOf name).shape = [depth, rows, cols]) {t : Nat} (ht : t < depth) :
    planeBlock lib (manifestOf lib window vars arrayOf)
        (lib.zstd.compress (layout arrayOf vars)) name t =
      .ok (bytesOf (((arrayOf name).bits.drop (t * (rows * cols))).take (rows * cols)),
        (rows : Int), (cols : Int)) := by
  obtain ⟨before, after, hvars, hbefore⟩ := List.eq_append_cons_of_mem hname
  have hraw : layout arrayOf vars =
      layout arrayOf before ++ bytesOf (arrayOf name).bits ++ layout arrayOf after := by
    unfold layout
    rw [hvars, List.map_append, List.map_cons, List.flatten_append, List.flatten_cons,
      List.append_assoc]
  have hspan : ∃ stop, planeSpan lib.numpy (manifestOf lib window vars arrayOf) name =
      .ok { start := (layout arrayOf before).length, stop, depth, rows, cols } := by
    obtain ⟨stop, hstop⟩ : ∃ stop, findSpan lib.numpy name (0 : Nat)
        (vars.map fun name => metaOf name (arrayOf name)) = _ :=
      hvars ▸ findSpan_metaOf lib.numpy hbefore hshape 0
    refine ⟨stop, ?_⟩
    unfold planeSpan
    rw [refuseIf_false (by simp [manifestOf, buildManifest]), except_ok_bind]
    show (findSpan lib.numpy name 0 (vars.map fun name => metaOf name (arrayOf name)) >>= _) = _
    rw [show (0 : Int) = ((0 : Nat) : Int) from rfl, hstop, except_ok_bind, Nat.zero_add]
    rfl
  obtain ⟨stop, hspan⟩ := hspan
  have hbits : (arrayOf name).bits.length = depth * (rows * cols) := by
    rw [(arrayOf name).length_eq, hshape]
    simp
  have hinside : t * (rows * cols) + rows * cols ≤ (arrayOf name).bits.length := by
    rw [hbits, ← Nat.succ_mul]
    exact Nat.mul_le_mul_right _ ht
  have hstart : ((layout arrayOf before).length : Int) + t * rows * cols * itemsize =
      ((layout arrayOf before).length + 4 * (t * (rows * cols)) : Nat) := by
    unfold itemsize
    push_cast
    ring
  have hstop : (((layout arrayOf before).length + 4 * (t * (rows * cols)) : Nat) : Int) +
      rows * cols * itemsize =
      ((layout arrayOf before).length + 4 * (t * (rows * cols)) + 4 * (rows * cols) : Nat) := by
    unfold itemsize
    push_cast
    ring
  have hslice := slice_words (layout arrayOf before) (layout arrayOf after) (arrayOf name).bits
    hinside
  rw [← hraw] at hslice
  have hlength : (layout arrayOf before).length + 4 * (t * (rows * cols)) + 4 * (rows * cols) ≤
      (layout arrayOf vars).length := by
    rw [hraw, List.length_append, List.length_append, bytesOf_length]
    omega
  obtain ⟨stopped, rest, hstopped, hfront, hreached⟩ := feedUntil_compress lib hlength
  have hchecksum : checkPlaneChecksum lib (manifestOf lib window vars arrayOf)
      (lib.zstd.compress (layout arrayOf vars)) = .ok () := by
    unfold checkPlaneChecksum manifestOf buildManifest
    dsimp only
    rw [if_pos (checksumPayload_ne lib _)]
    exact refuseIf_false (by simp)
  unfold planeBlock
  rw [hchecksum, except_ok_bind, hspan, except_ok_bind, refuseIf_false (by simpa using ht),
    except_ok_bind]
  simp only [hstart, hstop, hstopped]
  rw [refuseIf_false (not_lt.mpr (Int.ofNat_le.mpr hreached)), except_ok_bind,
    ← slice_append hreached, hfront, hslice]
  rfl

theorem decodePlane_manifestOf {name : String} (hname : name ∈ vars) {depth rows cols : Nat}
    (hshape : (arrayOf name).shape = [depth, rows, cols]) {t : Nat} (ht : t < depth) :
    ∃ plane, decodePlane lib (manifestOf lib window vars arrayOf)
        (lib.zstd.compress (layout arrayOf vars)) name t = .ok plane ∧
      plane.shape = [rows, cols] ∧ plane.scalar = .float32 ∧
        plane.bits = ((arrayOf name).bits.drop (t * (rows * cols))).take (rows * cols) := by
  have hfits : Fits [rows, cols] := by
    apply fits_tail (Nat.zero_lt_of_lt ht)
    rw [← hshape]
    exact (arrayOf name).fits
  have hbits : (arrayOf name).bits.length = depth * (rows * cols) := by
    rw [(arrayOf name).length_eq, hshape]
    simp
  have hlength : (((arrayOf name).bits.drop (t * (rows * cols))).take (rows * cols)).length =
      [rows, cols].prod := by
    have hinside : (t + 1) * (rows * cols) ≤ depth * (rows * cols) := Nat.mul_le_mul_right _ ht
    rw [Nat.succ_mul] at hinside
    rw [List.length_take, List.length_drop, hbits, Nat.min_eq_left (by omega)]
    simp
  unfold Patch.decodePlane
  rw [planeBlock_manifestOf hname hshape ht, except_ok_bind]
  have hblock := fromBlock_bytesOf lib.numpy hlength hfits
  exact ⟨_, hblock, rfl, rfl, rfl⟩

end Plane

end Solweig.Patch
