import Solweig.Persist.OcclusionStore

/-!
# What the occlusion loader makes of a revision

The files of a state load as that state, files that lack one are rejected, and an alteration is
safe where a check catches it.
-/

namespace Solweig.Persist

open Solweig.Lib Solweig.Lib.Chunks Solweig.Lib.Disk

variable {site : OcclusionSite}

/-! ## Digests -/

section Digests

variable {a b : NpArray} {rows cols width : Nat}

theorem mem_sliced {span : Span} {size i : Nat} (h : span.holds i) (hi : i < size) :
    i ∈ sliced span size := by
  unfold sliced
  unfold Span.holds at h
  rw [List.mem_range'_1]
  omega

theorem cellBytes_length {row col : Nat} (htype : a.dtype = uint8)
    (hshape : a.shape = [rows, cols, width]) (hrow : row < rows) (hcol : col < cols) :
    (cellBytes a row col).length = width := by
  have hsized := a.sized
  have hcell : (row * cols + col + 1) * width ≤ rows * cols * width := by
    apply Nat.mul_le_mul_right
    have hle : (row + 1) * cols ≤ rows * cols := Nat.mul_le_mul_right _ hrow
    rw [Nat.add_mul] at hle
    omega
  rw [htype, hshape] at hsized
  unfold cellBytes
  rw [hshape]
  simp [uint8, ← Nat.mul_assoc] at hsized ⊢
  rw [Nat.add_mul] at hcell
  omega

theorem cellBytes_eq_of_digests (hsha : Function.Injective site.sha256) (hatype : a.dtype = uint8)
    (hbtype : b.dtype = uint8) (hashape : a.shape = [rows, cols, width])
    (hbshape : b.shape = [rows, cols, width])
    (h : chunkDigests site rows cols a = chunkDigests site rows cols b) {row col : Nat}
    (hrow : row < rows) (hcol : col < cols) : cellBytes a row col = cellBytes b row col := by
  have hcells : 0 < chunkCells := by decide
  have hkey : chunkOf chunkCells (row, col) ∈ chunkKeys rows cols chunkCells :=
    chunkOf_mem hcells hrow hcol
  have hholds := (chunkBlock_holds hcells).mpr ⟨hrow, hcol, Eq.refl (chunkOf chunkCells (row, col))⟩
  have hblock := hsha (List.map_inj_left.mp h _ hkey)
  generalize chunkBlock rows cols chunkCells (chunkOf chunkCells (row, col)) = block at *
  have hrows : a.shape.getD 0 0 = rows ∧ b.shape.getD 0 0 = rows := by simp [hashape, hbshape]
  have hcols : a.shape.getD 1 0 = cols ∧ b.shape.getD 1 0 = cols := by simp [hashape, hbshape]
  unfold blockBytes at hblock
  rw [hrows.1, hrows.2, hcols.1, hcols.2] at hblock
  have hlength : ∀ r ∈ sliced block.rows rows, ∀ c ∈ sliced block.cols cols,
      (cellBytes a r c).length = (cellBytes b r c).length := by
    intro r hr c hc
    unfold sliced at hr hc
    rw [List.mem_range'_1] at hr hc
    rw [cellBytes_length hatype hashape (by omega) (by omega),
      cellBytes_length hbtype hbshape (by omega) (by omega)]
  have hmem := mem_sliced hholds.1 hrow
  refine flatMap_inj (hlength row hmem) (flatMap_inj ?_ hblock row hmem) col
    (mem_sliced hholds.2 hcol)
  intro r hr
  rw [List.length_flatMap, List.length_flatMap]
  exact congrArg List.sum (List.map_congr_left (hlength r hr))

theorem eq_of_chunkDigests (hsha : Function.Injective site.sha256) (hatype : a.dtype = uint8)
    (hbtype : b.dtype = uint8) (hashape : a.shape = [rows, cols, width])
    (hbshape : b.shape = [rows, cols, width])
    (h : chunkDigests site rows cols a = chunkDigests site rows cols b) : a = b := by
  have hbytes : a.bytes = b.bytes := by
    have hasized := a.sized
    have hbsized := b.sized
    rw [hatype, hashape] at hasized
    rw [hbtype, hbshape] at hbsized
    simp [uint8, ← Nat.mul_assoc] at hasized hbsized
    refine eq_of_blocks hasized hbsized fun p hp => ?_
    have hcols : 0 < cols := Nat.pos_of_mul_pos_left (Nat.zero_lt_of_lt hp)
    have hcell := cellBytes_eq_of_digests hsha hatype hbtype hashape hbshape h
      ((Nat.div_lt_iff_lt_mul hcols).mpr hp) (Nat.mod_lt p hcols)
    simpa [cellBytes, hashape, hbshape, Nat.div_add_mod'] using hcell
  rcases a with ⟨_, _, _, _⟩
  rcases b with ⟨_, _, _, _⟩
  simp_all

end Digests

/-! ## The fields of a state -/

/-- The fields of `state.json`, as the loader converts them. -/
structure StateMeta where
  key : VegOcclusionKey
  patchCount : Int
  checksums : Dict String (List Json)
  rows : Int
  cols : Int

def metaOf (state : VegOcclusionState) : StateMeta :=
  ⟨state.key, state.patchCount, recorded state.chunkChecksums, state.rows, state.cols⟩

/-- The fields that the checks read are there, and convert. -/
structure Describes (site : OcclusionSite) (fields : Dict String Json) (described : StateMeta) :
    Prop where
  key : (fieldsOf (objectField fields "key") >>= loadKey site) = .ok described.key
  patchCount : intField fields "patch_count" = .ok described.patchCount
  checksums : expectedChecksums fields = .ok described.checksums

/-- Every field is there, and converts. -/
structure DescribesAll (site : OcclusionSite) (fields : Dict String Json)
    (described : StateMeta) : Prop extends Describes site fields described where
  rows : intField fields "rows" = .ok described.rows
  cols : intField fields "cols" = .ok described.cols

theorem expectedChecksums_of_json {fields : Dict String Json} {checksums : ChunkChecksums}
    (h : fields["chunk_checksums"]? = some (checksumsJson checksums)) :
    expectedChecksums fields = .ok (recorded checksums) := by
  have hentries := Dict.ofEntries_map_toList (fun digests => Json.arr (digests.map .str)) checksums
  have hlists : (checksums.map fun _ digests => Json.arr (digests.map .str)).toList.mapM
      (fun x : String × Json => (listOf x.2).map fun l => (x.1, l)) =
        (.ok (checksums.toList.map fun e => (e.1, e.2.map Json.str)) :
          Except LoadFailure (List (String × List Json))) := by
    rw [Std.ExtTreeMap.toList_map, List.mapM_map]
    exact mapM_ok_of_forall fun entry _ => rfl
  unfold expectedChecksums objectField
  rw [Dict.getD_of_some h]
  refine except_bind_ok.mpr ⟨_, congrArg Except.ok hentries, ?_⟩
  refine except_bind_ok.mpr ⟨_, hlists, ?_⟩
  exact congrArg Except.ok (Dict.ofEntries_map_toList (fun digests => digests.map Json.str) checksums)

theorem intField_of_json {fields : Dict String Json} {name : String} {i : Int}
    (h : fields[name]? = some (.int i)) : intField fields name = .ok i := by
  unfold intField
  rw [h]
  rfl

theorem textField_of_json {fields : Dict String Json} {name text : String}
    (h : fields[name]? = some (.str text)) : textField site fields name = .ok text := by
  unfold textField
  rw [h]
  rfl

theorem loadKey_keyFields (key : VegOcclusionKey) :
    loadKey site (Dict.ofEntries (keyFields key)) = .ok key := by
  have hlookup : ∀ {name : String} {v : Json}, (name, v) ∈ keyFields key →
      (Dict.ofEntries (keyFields key))[name]? = some v :=
    Dict.getElem?_ofEntries_of_mem (by simp [keyFields])
  have hversion : ("schema_version", Json.int key.schemaVersion) ∈ keyFields key := by
    simp [keyFields]
  unfold loadKey
  simp only [except_bind_ok, Dict.getD_of_some (hlookup hversion)]
  refine ⟨_, textField_of_json (hlookup ?_), _, textField_of_json (hlookup ?_), _,
    textField_of_json (hlookup ?_), _, intField_of_json (hlookup ?_), _,
    textField_of_json (hlookup ?_), _, rfl, rfl⟩
  all_goals simp [keyFields]

theorem describesAll_stateFields (state : VegOcclusionState) :
    DescribesAll site (Dict.ofEntries (stateFields state)) (metaOf state) := by
  have hlookup : ∀ {name : String} {v : Json}, (name, v) ∈ stateFields state →
      (Dict.ofEntries (stateFields state))[name]? = some v :=
    Dict.getElem?_ofEntries_of_mem (by simp [stateFields])
  have hkey : ("key", Json.obj (keyFields state.key)) ∈ stateFields state := by
    simp [stateFields]
  refine ⟨⟨?_, ?_, ?_⟩, ?_, ?_⟩
  · unfold objectField
    rw [Dict.getD_of_some (hlookup hkey), fieldsOf, except_ok_bind]
    exact loadKey_keyFields state.key
  · exact intField_of_json (hlookup (by simp [stateFields, metaOf]))
  · exact expectedChecksums_of_json (hlookup (by simp [stateFields]))
  · exact intField_of_json (hlookup (by simp [stateFields, metaOf]))
  · exact intField_of_json (hlookup (by simp [stateFields, metaOf]))

/-! ## Checks -/

/-- The packed stacks have the form that the loader asks of them. -/
structure Stacks (read : RevisionFiles) (patchCount : Int) : Prop where
  patches : 0 < patchCount
  vegshType : read.vegsh.dtype = uint8
  vbshType : read.vbsh.dtype = uint8
  vegshWidth : (read.vegsh.shape.getLast?).map (fun n : Nat => (n : Int)) =
    some (bytesPerPixel patchCount)
  vbshWidth : (read.vbsh.shape.getLast?).map (fun n : Nat => (n : Int)) =
    some (bytesPerPixel patchCount)
  vegshAxes : read.vegsh.shape.length = 3
  vbshAxes : 3 ≤ read.vbsh.shape.length

theorem packed_ok {data : NpArray} {patchCount : Int} (hpatches : 0 < patchCount)
    (htype : data.dtype = uint8) (hwidth : (data.shape.getLast?).map (fun n : Nat => (n : Int)) =
      some (bytesPerPixel patchCount)) : packed data patchCount = .ok data := by
  unfold packed
  simp only [except_bind_ok, refuseIf_ok]
  exact ⟨(), by omega, (), not_not.mpr htype, (), not_not.mpr hwidth, rfl⟩

variable {read : RevisionFiles} {fields : Dict String Json} {described : StateMeta}

theorem checkRevision_of_describes (hfields : fieldsOf read.stateMeta = .ok fields)
    (hdescribes : Describes site fields described) (hstacks : Stacks read described.patchCount) :
    checkRevision site read =
      if described.key.schemaVersion = occlusionSchemaVersion ∧
          described.checksums = recorded (chunkChecksumsOf site read.vegsh read.vbsh) then do
        let canopyScene ← asFloat32 site read.canopy
        let rows ← intField fields "rows"
        let cols ← intField fields "cols"
        pure ⟨described.key, read.vegsh, read.vbsh, described.patchCount, canopyScene,
          read.versions, chunkChecksumsOf site read.vegsh read.vbsh, rows, cols⟩
      else .error .rejected := by
  have hvegsh := packed_ok hstacks.patches hstacks.vegshType hstacks.vegshWidth
  have hvbsh := packed_ok hstacks.patches hstacks.vbshType hstacks.vbshWidth
  have haxes : checkAxes read.vegsh read.vbsh = .ok () := by
    unfold checkAxes
    simp only [except_bind_ok, refuseIf_ok]
    exact ⟨(), not_not.mpr hstacks.vegshAxes, fun h => absurd h.1 (not_lt.mpr hstacks.vbshAxes)⟩
  have hok : ∀ {p : Prop} [Decidable p], ¬ p → refuseIf p LoadFailure.rejected = .ok () :=
    fun h => refuseIf_ok.mpr h
  have hrejects : ∀ {p : Prop} [Decidable p], p → refuseIf p LoadFailure.rejected = .error .rejected :=
    fun h => if_pos h
  unfold checkRevision
  simp only [hfields, hdescribes.key, hdescribes.patchCount, hdescribes.checksums, hvegsh, hvbsh,
    haxes, except_ok_bind]
  by_cases hschema : described.key.schemaVersion = occlusionSchemaVersion
  · rw [hok (not_not.mpr hschema), except_ok_bind]
    by_cases hdigests : described.checksums = recorded (chunkChecksumsOf site read.vegsh read.vbsh)
    · rw [hok (not_not.mpr hdigests), except_ok_bind, if_pos ⟨hschema, hdigests⟩]
    · rw [hrejects hdigests, except_error_bind, if_neg fun h => hdigests h.2]
  · rw [hrejects hschema, except_error_bind, if_neg fun h => hschema h.1]

/-- What was read for a state with an alteration that does no harm. -/
inductive Harmless (site : OcclusionSite) (state : VegOcclusionState) (read : RevisionFiles) : Prop
  /-- The schema version is another. -/
  | schema (fields : Dict String Json) (key : VegOcclusionKey)
      (hfields : fieldsOf read.stateMeta = .ok fields)
      (hkey : (fieldsOf (objectField fields "key") >>= loadKey site) = .ok key)
      (hschema : key.schemaVersion ≠ occlusionSchemaVersion)
  /-- The packed bits are others and their digests are not, or the digests are not theirs. -/
  | digests (fields : Dict String Json) (described : StateMeta)
      (hfields : fieldsOf read.stateMeta = .ok fields)
      (hdescribes : Describes site fields described) (hstacks : Stacks read described.patchCount)
      (hdigests : described.checksums = recorded state.chunkChecksums ∧
          read.vegsh.shape = state.vegshPacked.shape ∧ read.vbsh.shape = state.vbshPacked.shape ∧
          (read.vegsh ≠ state.vegshPacked ∨ read.vbsh ≠ state.vbshPacked) ∨
        described.checksums ≠ recorded (chunkChecksumsOf site read.vegsh read.vbsh))
  /-- The key is that of another cache. -/
  | foreign (fields : Dict String Json) (described : StateMeta)
      (hfields : fieldsOf read.stateMeta = .ok fields)
      (hdescribes : DescribesAll site fields described)
      (hstacks : Stacks read described.patchCount)
      (hcanopy : read.canopy.dtype = float32 ∨ (site.castFloat32 read.canopy).isSome)
      (hkey : keyMatchesCache site described.key = false)
  /-- Nothing that a load returns is altered. -/
  | kept (fields : Dict String Json) (hfields : fieldsOf read.stateMeta = .ok fields)
      (hdescribes : DescribesAll site fields (metaOf state)) (hvegsh : read.vegsh = state.vegshPacked)
      (hvbsh : read.vbsh = state.vbshPacked) (hcanopy : read.canopy = state.canopyScene)
      (hversions : read.versions = state.chunkVersions)

variable {live : LiveState site}

theorem width_of_packedFor {state : VegOcclusionState} {data : NpArray}
    (hpatches : 0 < state.patchCount) (h : PackedFor state data) :
    (data.shape.getLast?).map (fun n : Nat => (n : Int)) =
      some (bytesPerPixel state.patchCount) := by
  rw [h.2]
  have : 0 ≤ bytesPerPixel state.patchCount := by
    unfold bytesPerPixel
    omega
  simp [this]

theorem stacks_of_kept (hvegsh : read.vegsh = live.state.vegshPacked)
    (hvbsh : read.vbsh = live.state.vbshPacked) : Stacks read live.state.patchCount := by
  refine ⟨live.patches, ?_, ?_, ?_, ?_, ?_, ?_⟩
  · rw [hvegsh, live.vegsh.1]
  · rw [hvbsh, live.vbsh.1]
  · rw [hvegsh, width_of_packedFor live.patches live.vegsh]
  · rw [hvbsh, width_of_packedFor live.patches live.vbsh]
  · rw [hvegsh, live.vegsh.2]
    rfl
  · rw [hvbsh, live.vbsh.2]
    exact Nat.le_refl 3

theorem digests_of_recorded {vegsh vbsh vegsh' vbsh' : NpArray}
    (h : recorded (chunkChecksumsOf site vegsh vbsh) = recorded (chunkChecksumsOf site vegsh' vbsh')) :
    chunkDigests site (vegsh.shape.getD 0 0) (vegsh.shape.getD 1 0) vegsh =
        chunkDigests site (vegsh'.shape.getD 0 0) (vegsh'.shape.getD 1 0) vegsh' ∧
      chunkDigests site (vegsh.shape.getD 0 0) (vegsh.shape.getD 1 0) vbsh =
        chunkDigests site (vegsh'.shape.getD 0 0) (vegsh'.shape.getD 1 0) vbsh' := by
  have hinjective : Function.Injective (List.map Json.str) :=
    List.map_injective_iff.mpr fun text other htext => Json.str.inj htext
  have hlookup : ∀ name : String,
      (chunkChecksumsOf site vegsh vbsh)[name]? = (chunkChecksumsOf site vegsh' vbsh')[name]? := by
    intro name
    have hname := congrArg (·[name]?) h
    unfold recorded at hname
    simp only [Std.ExtTreeMap.getElem?_map] at hname
    exact Option.map_injective hinjective hname
  have hvegsh := hlookup "vegsh"
  have hvbsh := hlookup "vbsh"
  unfold chunkChecksumsOf at hvegsh hvbsh
  dsimp only at hvegsh hvbsh
  iterate 2 rw [Dict.getElem?_ofEntries_of_mem (by simp) (List.mem_cons_self ..)] at hvegsh
  iterate 2 rw [Dict.getElem?_ofEntries_of_mem (by simp)
    (List.mem_cons_of_mem _ (List.mem_cons_self ..))] at hvbsh
  exact ⟨Option.some.inj hvegsh, Option.some.inj hvbsh⟩

theorem recorded_ne_of_bits (hsha : Function.Injective site.sha256)
    (hvegshType : read.vegsh.dtype = uint8) (hvbshType : read.vbsh.dtype = uint8)
    (hvegsh : read.vegsh.shape = live.state.vegshPacked.shape)
    (hvbsh : read.vbsh.shape = live.state.vbshPacked.shape)
    (hbits : read.vegsh ≠ live.state.vegshPacked ∨ read.vbsh ≠ live.state.vbshPacked) :
    recorded live.state.chunkChecksums ≠ recorded (chunkChecksumsOf site read.vegsh read.vbsh) := by
  intro h
  rw [live.vegsh.2] at hvegsh
  rw [live.vbsh.2] at hvbsh
  obtain ⟨hfirst, hsecond⟩ := digests_of_recorded (live.checksums ▸ h)
  have hrows : read.vegsh.shape.getD 0 0 = live.state.vegshPacked.shape.getD 0 0 := by
    rw [hvegsh, live.vegsh.2]
  have hcols : read.vegsh.shape.getD 1 0 = live.state.vegshPacked.shape.getD 1 0 := by
    rw [hvegsh, live.vegsh.2]
  rw [hrows, hcols, live.vegsh.2] at hfirst hsecond
  rcases hbits with hbits | hbits
  · exact hbits (eq_of_chunkDigests hsha hvegshType live.vegsh.1 hvegsh live.vegsh.2 hfirst.symm)
  · exact hbits (eq_of_chunkDigests hsha hvbshType live.vbsh.1 hvbsh live.vbsh.2 hsecond.symm)

theorem checkRevision_kept (hfields : fieldsOf read.stateMeta = .ok fields)
    (hdescribes : DescribesAll site fields (metaOf live.state))
    (hvegsh : read.vegsh = live.state.vegshPacked) (hvbsh : read.vbsh = live.state.vbshPacked)
    (hcanopy : read.canopy = live.state.canopyScene)
    (hversions : read.versions = live.state.chunkVersions) :
    checkRevision site read = .ok live.state := by
  have hcanopyScene : asFloat32 site live.state.canopyScene = .ok live.state.canopyScene :=
    if_pos live.canopy
  rw [checkRevision_of_describes hfields hdescribes.toDescribes (stacks_of_kept hvegsh hvbsh)]
  rw [hvegsh, hvbsh, ← live.checksums, if_pos, hcanopy, hcanopyScene, hdescribes.rows,
    hdescribes.cols, hversions]
  · rfl
  · refine ⟨?_, rfl⟩
    show live.state.key.schemaVersion = _
    rw [live.key]
    rfl

theorem checkRevision_harmless (hsha : Function.Injective site.sha256)
    (h : Harmless site live.state read) : checkRevision site read = .error .rejected ∨
      ∃ state, checkRevision site read = .ok state ∧
        (keyMatchesCache site state.key = true → state = live.state) := by
  cases h with
  | schema fields key hfields hkey hschema =>
    refine Or.inl ?_
    unfold checkRevision
    rw [hfields, except_ok_bind, hkey, except_ok_bind]
    have hrejects : refuseIf (key.schemaVersion ≠ occlusionSchemaVersion) LoadFailure.rejected =
        .error .rejected := if_pos hschema
    rw [hrejects, except_error_bind]
  | digests fields described hfields hdescribes hstacks hdigests =>
    have hdiffer :
        described.checksums ≠ recorded (chunkChecksumsOf site read.vegsh read.vbsh) := by
      rcases hdigests with ⟨hrecorded, hvegsh, hvbsh, hbits⟩ | hdiffer
      · rw [hrecorded]
        exact recorded_ne_of_bits hsha hstacks.vegshType hstacks.vbshType hvegsh hvbsh hbits
      · exact hdiffer
    refine Or.inl ?_
    rw [checkRevision_of_describes hfields hdescribes hstacks, if_neg fun h => hdiffer h.2]
  | foreign fields described hfields hdescribes hstacks hcanopy hkey =>
    obtain ⟨canopy, hcast⟩ : ∃ canopy, asFloat32 site read.canopy = .ok canopy := by
      unfold asFloat32
      split
      · exact ⟨_, rfl⟩
      · next htype =>
        obtain ⟨cast, hcast⟩ := Option.isSome_iff_exists.mp (hcanopy.resolve_left htype)
        exact ⟨cast, by rw [hcast]; rfl⟩
    rw [checkRevision_of_describes hfields hdescribes.toDescribes hstacks, hcast, hdescribes.rows,
      hdescribes.cols]
    split
    · refine Or.inr ⟨_, rfl, fun hmatches => ?_⟩
      rw [show keyMatchesCache site described.key = true from hmatches] at hkey
      cases hkey
    · exact Or.inl rfl
  | kept fields hfields hdescribes hvegsh hvbsh hcanopy hversions =>
    exact Or.inr ⟨_, checkRevision_kept hfields hdescribes hvegsh hvbsh hcanopy hversions,
      fun _ => rfl⟩

/-! ## Torn files -/

variable {files : Dict String OcclusionFile}

def readingOrder : List String := [stateFile, vegshFile, vbshFile, canopyFile, versionsFile]

/-- One read, without its value. -/
def readOf (files : Dict String OcclusionFile) (name : String) : Except LoadFailure Unit :=
  if name = stateFile then (readJson files name).map fun _ => ()
  else (readArray files name).map fun _ => ()

/-- The first file that cannot be read is missing, or its reader finds it unreadable. -/
def Torn (files : Dict String OcclusionFile) : Prop :=
  ∃ before name after, readingOrder = before ++ name :: after ∧
    (∀ earlier ∈ before, readOf files earlier = .ok ()) ∧ readOf files name = .error .rejected

theorem readRevision_units (files : Dict String OcclusionFile) :
    (readRevision files).map (fun _ => ()) = readingOrder.forM (readOf files) := by
  have hstate : readOf files stateFile = (readJson files stateFile).map fun _ => () := if_pos rfl
  have harray : ∀ name, name ≠ stateFile →
      readOf files name = (readArray files name).map fun _ => () := fun name hne => if_neg hne
  show _ = (readOf files stateFile >>= fun _ => readOf files vegshFile >>= fun _ =>
    readOf files vbshFile >>= fun _ => readOf files canopyFile >>= fun _ =>
      readOf files versionsFile >>= fun _ => .ok ())
  rw [hstate, harray vegshFile (by decide), harray vbshFile (by decide),
    harray canopyFile (by decide), harray versionsFile (by decide)]
  unfold readRevision
  rcases readJson files stateFile with _ | _
  · rfl
  rcases readArray files vegshFile with _ | _
  · rfl
  rcases readArray files vbshFile with _ | _
  · rfl
  rcases readArray files canopyFile with _ | _
  · rfl
  rcases readArray files versionsFile with _ | _
  · rfl
  · rfl

theorem readRevision_torn (h : Torn files) : readRevision files = .error .rejected := by
  obtain ⟨before, name, after, horder, hbefore, hname⟩ := h
  have hunits := readRevision_units files
  rw [horder, forM_error hbefore hname] at hunits
  rcases hread : readRevision files with failure | read
  · rw [hread] at hunits
    exact congrArg Except.error (Except.error.inj hunits)
  · rw [hread] at hunits
    cases hunits

/-- Files of a state, and no others. -/
def PartOf (state : VegOcclusionState) (files : Dict String OcclusionFile) : Prop :=
  ∀ name file, files[name]? = some file → (name, file) ∈ stateFiles state

def Complete (files : Dict String OcclusionFile) : Prop :=
  ∀ name ∈ readingOrder, files[name]?.isSome

def keptRead (state : VegOcclusionState) : RevisionFiles where
  stateMeta := .obj (stateFields state)
  vegsh := state.vegshPacked
  vbsh := state.vbshPacked
  canopy := state.canopyScene
  versions := state.chunkVersions

theorem harmless_keptRead (site : OcclusionSite) (state : VegOcclusionState) :
    Harmless site state (keptRead state) :=
  .kept _ rfl (describesAll_stateFields state) rfl rfl rfl rfl

variable {state : VegOcclusionState}

theorem stateFiles_nodup (state : VegOcclusionState) : ((stateFiles state).map (·.1)).Nodup := by
  simp [stateFiles, vegshFile, vbshFile, canopyFile, versionsFile, stateFile]

theorem getElem?_of_partOf (hpart : PartOf state files) {name : String} {written : OcclusionFile}
    (hwritten : (name, written) ∈ stateFiles state) :
    files[name]? = none ∨ files[name]? = some written := by
  rcases hfile : files[name]? with _ | file
  · exact Or.inl rfl
  · have heq := List.inj_on_of_nodup_map (stateFiles_nodup state) (hpart name file hfile) hwritten rfl
    rw [(Prod.mk.inj heq).2]
    exact Or.inr rfl

theorem readOf_of_partOf (hpart : PartOf state files) (name : String) :
    readOf files name = if files[name]?.isSome then .ok () else .error .rejected := by
  unfold readOf readJson readArray
  rcases hfile : files[name]? with _ | file
  · split <;> rfl
  · have hwritten := hpart name file hfile
    simp only [stateFiles, List.mem_cons, Prod.mk.injEq, List.not_mem_nil, or_false] at hwritten
    rcases hwritten with ⟨rfl, rfl⟩ | ⟨rfl, rfl⟩ | ⟨rfl, rfl⟩ | ⟨rfl, rfl⟩ | ⟨rfl, rfl⟩ <;> rfl

theorem readRevision_complete (hpart : PartOf state files)
    (hcomplete : Complete files) : readRevision files = .ok (keptRead state) := by
  have hfile : ∀ {name : String} {written : OcclusionFile}, (name, written) ∈ stateFiles state →
      name ∈ readingOrder → files[name]? = some written := by
    intro name written hwritten hname
    refine (getElem?_of_partOf hpart hwritten).resolve_left fun hnone => ?_
    have hsome := hcomplete name hname
    rw [hnone] at hsome
    cases hsome
  have harray : ∀ {name : String} {data : NpArray}, (name, arrayFile data) ∈ stateFiles state →
      name ∈ readingOrder → readArray files name = .ok data := by
    intro name data hwritten hname
    rw [readArray, hfile hwritten hname]
    rfl
  have hstate : files[stateFile]? = some (jsonFile (.obj (stateFields state))) :=
    hfile (by simp [stateFiles]) (by simp [readingOrder])
  have hjson : readJson files stateFile = .ok (.obj (stateFields state)) := by
    rw [readJson, hstate]
    rfl
  unfold readRevision
  simp only [except_bind_ok]
  refine ⟨_, hjson, state.vegshPacked, harray ?_ ?_, state.vbshPacked, harray ?_ ?_,
    state.canopyScene, harray ?_ ?_, state.chunkVersions, harray ?_ ?_, rfl⟩
  all_goals simp [stateFiles, readingOrder]

theorem torn_of_incomplete (hpart : PartOf state files) (hincomplete : ¬ Complete files) :
    Torn files := by
  obtain ⟨before, name, after, horder, hbefore, hmissing⟩ := exists_first_not hincomplete
  refine ⟨before, name, after, horder, fun earlier hearlier => ?_, ?_⟩
  · rw [readOf_of_partOf hpart, if_pos (hbefore earlier hearlier)]
  · rw [readOf_of_partOf hpart, if_neg hmissing]

theorem loadRevision_torn (h : Torn files) : loadRevision site files = .error .rejected := by
  unfold loadRevision
  rw [readRevision_torn h, except_error_bind]

theorem loadRevision_complete (hpart : PartOf live.state files) (hcomplete : Complete files) :
    loadRevision site files = .ok live.state := by
  unfold loadRevision
  rw [readRevision_complete hpart hcomplete, except_ok_bind]
  exact checkRevision_kept rfl (describesAll_stateFields live.state) rfl rfl rfl rfl

/-! ## The walk over the revisions -/

variable {committed : LiveState site → Prop} {disk : OcclusionDisk}

/-- Torn, or read for a committed state with an alteration that does no harm. -/
def SafeFiles (committed : LiveState site → Prop) (files : Dict String OcclusionFile) : Prop :=
  Torn files ∨ ∃ live read, committed live ∧ readRevision files = .ok read ∧
    Harmless site live.state read

theorem safeFiles_of_partOf (hlive : committed live) (hpart : PartOf live.state files) :
    SafeFiles committed files := by
  by_cases hcomplete : Complete files
  · exact Or.inr ⟨live, _, hlive, readRevision_complete hpart hcomplete, harmless_keptRead site _⟩
  · exact Or.inl (torn_of_incomplete hpart hcomplete)

theorem loadRevision_safe (hsha : Function.Injective site.sha256) (h : SafeFiles committed files) :
    loadRevision site files = .error .rejected ∨
      ∃ state, loadRevision site files = .ok state ∧
        (keyMatchesCache site state.key = true → ∃ live, committed live ∧ state = live.state) := by
  rcases h with htorn | ⟨live, read, hlive, hread, hharmless⟩
  · exact Or.inl (loadRevision_torn htorn)
  · unfold loadRevision
    rw [hread, except_ok_bind]
    refine (checkRevision_harmless hsha hharmless).imp_right ?_
    rintro ⟨state, hstate, hkey⟩
    exact ⟨state, hstate, fun hmatches => ⟨live, hlive, hkey hmatches⟩⟩

/-- The files of a directory, none where it is missing. -/
def filesAt (disk : OcclusionDisk) (name : String) : Dict String OcclusionFile := disk[name]?.getD ∅

/-- A load returns nothing or a committed state, and does not raise. -/
def Serves (committed : LiveState site → Prop)
    (loaded : Except LoadFailure (Option VegOcclusionState)) : Prop :=
  loaded = .ok none ∨ ∃ live, committed live ∧ loaded = .ok (some live.state)

/-- A directory of a committed state, whole. -/
def Whole (committed : LiveState site → Prop) (files : Dict String OcclusionFile) : Prop :=
  ∃ live, committed live ∧ PartOf live.state files ∧ Complete files

theorem keyMatches_live (live : LiveState site) : keyMatchesCache site live.state.key = true := by
  unfold keyMatchesCache
  rw [live.key]
  exact decide_eq_true rfl

theorem loadFirst_complete {name : String} {names : List String}
    (hpart : PartOf live.state (filesAt disk name)) (hcomplete : Complete (filesAt disk name)) :
    loadFirst site disk (name :: names) = .ok (some live.state) := by
  have hload : loadRevision site (disk[name]?.getD ∅) = .ok live.state :=
    loadRevision_complete hpart hcomplete
  rw [loadFirst, hload]
  exact congrArg Except.ok (if_pos (keyMatches_live live))

theorem loadFirst_torn {name : String} {names : List String} (h : Torn (filesAt disk name)) :
    loadFirst site disk (name :: names) = loadFirst site disk names := by
  have hload : loadRevision site (disk[name]?.getD ∅) = .error .rejected := loadRevision_torn h
  rw [loadFirst, hload]

theorem loadFirst_serves (hsha : Function.Injective site.sha256) {names : List String}
    (hsorted : names.Pairwise (· > ·))
    (hsafe : ∀ name ∈ names, SafeFiles committed (filesAt disk name) ∨
      ∃ newer ∈ names, name < newer ∧ Whole committed (filesAt disk newer)) :
    Serves committed (loadFirst site disk names) := by
  induction names with
  | nil => exact Or.inl rfl
  | cons name names ih =>
    obtain ⟨holder, hsorted⟩ := List.pairwise_cons.mp hsorted
    by_cases hwhole : Whole committed (filesAt disk name)
    · obtain ⟨live, hlive, hpart, hcomplete⟩ := hwhole
      exact Or.inr ⟨live, hlive, loadFirst_complete hpart hcomplete⟩
    · have hnewer : ∀ newer ∈ name :: names, Whole committed (filesAt disk newer) →
          newer ∈ names := by
        intro newer hmem hthere
        rcases List.mem_cons.mp hmem with rfl | hmem
        · exact absurd hthere hwhole
        · exact hmem
      have hfirst : SafeFiles committed (filesAt disk name) := by
        refine (hsafe name (List.mem_cons_self ..)).resolve_right ?_
        rintro ⟨newer, hmem, hlt, hthere⟩
        exact lt_asymm hlt (holder newer (hnewer newer hmem hthere))
      have hrest : Serves committed (loadFirst site disk names) := by
        refine ih hsorted fun older hmemOlder => ?_
        refine (hsafe older (List.mem_cons_of_mem _ hmemOlder)).imp_right ?_
        rintro ⟨newer, hmem, hlt, hthere⟩
        exact ⟨newer, hnewer newer hmem hthere, hlt, hthere⟩
      rcases loadRevision_safe hsha hfirst with hload | ⟨state, hload, hkey⟩
      · rw [loadFirst, show loadRevision site (disk[name]?.getD ∅) = _ from hload]
        exact hrest
      · rw [loadFirst, show loadRevision site (disk[name]?.getD ∅) = _ from hload]
        dsimp only
        split
        · next hmatches =>
          obtain ⟨live, hlive, rfl⟩ := hkey hmatches
          exact Or.inr ⟨live, hlive, rfl⟩
        · exact Or.inl rfl

theorem mem_revGlob {name : String} : name ∈ revGlob disk ↔
    disk[name]?.isSome ∧ "rev-".toList.isPrefixOf name.toList := by
  unfold revGlob
  rw [List.mem_insertionSort, List.mem_filter, Std.ExtTreeMap.mem_keys,
    Std.ExtTreeMap.mem_iff_isSome_getElem?]

theorem revGlob_sorted (disk : OcclusionDisk) : (revGlob disk).Pairwise (· < ·) := by
  have hsorted : (revGlob disk).Pairwise (· ≤ ·) := List.pairwise_insertionSort ..
  have hnodup : (revGlob disk).Nodup :=
    (List.perm_insertionSort _ _).nodup_iff.mpr (Std.ExtTreeMap.nodup_keys.filter _)
  exact (hsorted.and hnodup).imp fun h => lt_of_le_of_ne h.1 h.2

theorem loadFirst_newest {names : List String} (hsorted : names.Pairwise (· > ·)) {name : String}
    (hmem : name ∈ names) (hpart : PartOf live.state (filesAt disk name))
    (hcomplete : Complete (filesAt disk name))
    (htorn : ∀ newer ∈ names, name < newer → Torn (filesAt disk newer)) :
    loadFirst site disk names = .ok (some live.state) := by
  induction names with
  | nil => cases hmem
  | cons first names ih =>
    obtain ⟨holder, hsorted⟩ := List.pairwise_cons.mp hsorted
    rcases List.mem_cons.mp hmem with rfl | hlater
    · exact loadFirst_complete hpart hcomplete
    · rw [loadFirst_torn (htorn first (List.mem_cons_self ..) (holder name hlater))]
      exact ih hsorted hlater fun newer hnewer => htorn newer (List.mem_cons_of_mem _ hnewer)

end Solweig.Persist
