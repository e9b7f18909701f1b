import Solweig.Json
import Solweig.Lib.Files
import Solweig.Patch.RoundTrip

/-!
# Published results

A result is a row of the store and two files. The files are written inside the transaction of
the row, so a cut publication leaves files without a row and never a row without its files.
-/

namespace Solweig.Serve

open Solweig.Lib Solweig.Lib.Files Solweig.Patch

/-! ## Manifests -/

inductive Limitations where
  | text (limitation : String)
  | list (limitations : List String)

def Limitations.items : Limitations → List String
  | .text limitation => [limitation]
  | .list limitations => limitations

/-- What the decoders read, what the store sets, the limitations, and the other fields. -/
structure ResultManifest where
  codec : Manifest
  sceneVersion : Nat
  payloadUrl : String
  limitations : Option Limitations
  others : Dict String Json

def codecFields : List String := ["schema_version", "window", "variables", "compression", "checksum"]

def storeFields : List String := ["scene_version", "payload_url"]

/-- The limitations that a republication adds, and the fields that it replaces. The decoders read
none of these. -/
structure ManifestOverride where
  limitations : Option (List String)
  fields : List (String × Json)
  undecoded : ∀ field ∈ fields, field.1 ∉ "limitations" :: codecFields

def resultManifestUrl (scenarioId : String) (sceneVersion : Nat) : String :=
  "/api/v1/scenarios/" ++ scenarioId ++ "/results/" ++ toString sceneVersion

def resultPayloadUrl (scenarioId : String) (sceneVersion : Nat) : String :=
  resultManifestUrl scenarioId sceneVersion ++ "/payload"

namespace ResultManifest

/-- The limitations are appended, every other field is replaced. -/
def merge (manifest : ResultManifest) (override : ManifestOverride) : ResultManifest :=
  { manifest with
    limitations :=
      match override.limitations with
      | none => manifest.limitations
      | some more => some (.list ((manifest.limitations.map Limitations.items).getD [] ++ more))
    others := (override.fields.filter fun field => field.1 ∉ storeFields).foldl
      (fun others field => others.insert field.1 field.2) manifest.others }

/-- An earlier manifest for a later version. What names the result is set last. -/
def republished (manifest : ResultManifest) (override : Option ManifestOverride)
    (scenarioId : String) (targetVersion : Nat) : ResultManifest :=
  { (override.map manifest.merge).getD manifest with
    sceneVersion := targetVersion
    payloadUrl := resultPayloadUrl scenarioId targetVersion }

@[simp]
theorem republished_codec (manifest : ResultManifest) (override : Option ManifestOverride)
    (scenarioId : String) (targetVersion : Nat) :
    (manifest.republished override scenarioId targetVersion).codec = manifest.codec := by
  cases override <;> rfl

end ResultManifest

/-! ## Publications -/

/-- A manifest and its payload as the codec makes them. -/
structure Publication (lib : Libraries) where
  manifest : ResultManifest
  raw : Bytes
  exact : Bool
  compression : manifest.codec.compression = "zstd"
  checksum : manifest.codec.checksum = some (checksumPayload lib (lib.zstd.compress raw))

def Publication.payload {lib : Libraries} (p : Publication lib) : Bytes := lib.zstd.compress p.raw

/-- The same payload under a later version. -/
def Publication.republished {lib : Libraries} (p : Publication lib)
    (override : Option ManifestOverride) (scenarioId : String) (targetVersion : Nat) :
    Publication lib where
  manifest := p.manifest.republished override scenarioId targetVersion
  raw := p.raw
  exact := true
  compression := (congrArg Manifest.compression (p.manifest.republished_codec ..)).trans p.compression
  checksum := (congrArg Manifest.checksum (p.manifest.republished_codec ..)).trans p.checksum

inductive FileName where
  | manifest
  | payload
  deriving DecidableEq

/-- A file in the directory of a result, or what is written aside for it. -/
structure Path where
  scenarioId : String
  sceneVersion : Nat
  file : FileName
  aside : Bool
  deriving DecidableEq

abbrev ResultFiles := Path → Option Bytes

structure ResultRecord where
  sceneVersion : Nat
  exact : Bool
  manifest : ResultManifest
  payloadPath : Path
  checksum : String

/-- The rows of the scenarios and of their results, and the files. -/
structure ResultStore where
  sceneVersion : String → Option Nat
  results : String → Nat → Option ResultRecord
  files : ResultFiles

inductive StoreError where
  | scenarioNotFound
  | scenarioExists
  | staleResult (version current : Nat)
  | alreadyPublished
  | notPublishable
  | noSource
  | fileNotFound
  | stopped (stop : Disk.Stop)
  deriving DecidableEq

/-! ## Writing the files -/

structure PublishFate where
  mkdir : Disk.Fate
  manifestAside : WriteFate Bytes
  payloadAside : WriteFate Bytes
  manifest : Disk.Fate
  payload : Disk.Fate
  commit : Disk.Fate
  deriving DecidableEq

/-- `render` is the text of a manifest. -/
def writePayload (render : ResultManifest → Bytes) (fate : PublishFate) (scenarioId : String)
    (sceneVersion : Nat) (manifest : ResultManifest) (payload : Bytes) : Disk.Crash ResultFiles Unit := do
  Disk.operation fate.mkdir some
  write fate.manifestAside ⟨scenarioId, sceneVersion, .manifest, true⟩ (render manifest)
  write fate.payloadAside ⟨scenarioId, sceneVersion, .payload, true⟩ payload
  replace fate.manifest ⟨scenarioId, sceneVersion, .manifest, true⟩
    ⟨scenarioId, sceneVersion, .manifest, false⟩
  replace fate.payload ⟨scenarioId, sceneVersion, .payload, true⟩
    ⟨scenarioId, sceneVersion, .payload, false⟩

/-! ## Transactions -/

/-- A file operation that stops ends the transaction, and its files stay. -/
def onFiles (body : Disk.Crash ResultFiles Unit) : Txn ResultStore StoreError Unit := fun s =>
  match body s.files with
  | (.ok (), files) => (.ok (), { s with files })
  | (.error stop, files) => (.error (.stopped stop), { s with files })

def insertResult (scenarioId : String) (record : ResultRecord) (s : ResultStore) : ResultStore :=
  { s with
    results := fun id version =>
      if id = scenarioId ∧ version = record.sceneVersion then some record else s.results id version }

/-- `_publish_result_locked` -/
def publishResultLocked (render : ResultManifest → Bytes) (fate : PublishFate) (scenarioId : String)
    (sceneVersion : Nat) (manifest : ResultManifest) (payload : Bytes) (exact : Bool) :
    Txn ResultStore StoreError Unit := do
  let s ← Txn.get
  let current ← Txn.require (s.sceneVersion scenarioId) .scenarioNotFound
  Txn.refuseIf (sceneVersion ≠ current) (.staleResult sceneVersion current)
  Txn.refuseIf ((s.results scenarioId sceneVersion).isSome = true) .alreadyPublished
  onFiles (writePayload render fate scenarioId sceneVersion manifest payload)
  Txn.modify (insertResult scenarioId
    { sceneVersion
      exact
      manifest
      payloadPath := ⟨scenarioId, sceneVersion, .payload, false⟩
      checksum := manifest.codec.checksum.getD "" })

/-- The rows of a transaction that does not commit are as they were. Its files are not. -/
def inTransaction (commit : Disk.Fate) (body : Txn ResultStore StoreError Unit) :
    Txn ResultStore StoreError Unit := fun s =>
  match body s with
  | (.error e, t) => (.error e, { s with files := t.files })
  | (.ok (), t) =>
    match commit with
    | .runs => (.ok (), t)
    | .raises => (.error (.stopped .raised), { s with files := t.files })
    | .killed => (.error (.stopped .killed), { s with files := t.files })

/-- A scenario, with its baseline result where the site has one. -/
def createScenario {lib : Libraries} (render : ResultManifest → Bytes) (fate : PublishFate)
    (scenarioId : String) (baseline : Option (Publication lib)) :
    Txn ResultStore StoreError Unit :=
  inTransaction fate.commit do
    let s ← Txn.get
    Txn.refuseIf ((s.sceneVersion scenarioId).isSome = true) .scenarioExists
    Txn.modify fun s =>
      { s with sceneVersion := Function.update s.sceneVersion scenarioId (some 0) }
    match baseline with
    | none => pure ()
    | some p => publishResultLocked render fate scenarioId 0 p.manifest p.payload p.exact

/-- `live` is whether the job of the result, if it names one, still runs. -/
def publishResult {lib : Libraries} (render : ResultManifest → Bytes) (fate : PublishFate)
    (scenarioId : String) (sceneVersion : Nat) (p : Publication lib) (live : Bool) :
    Txn ResultStore StoreError Unit :=
  inTransaction fate.commit do
    Txn.refuseIf (live = false) .notPublishable
    publishResultLocked render fate scenarioId sceneVersion p.manifest p.payload p.exact

/-- The scene takes its next version, and the baseline is its result. -/
def resetScenario {lib : Libraries} (render : ResultManifest → Bytes) (fate : PublishFate)
    (scenarioId : String) (p : Publication lib) : Txn ResultStore StoreError Unit :=
  inTransaction fate.commit do
    let s ← Txn.get
    let current ← Txn.require (s.sceneVersion scenarioId) .scenarioNotFound
    Txn.modify fun s =>
      { s with sceneVersion := Function.update s.sceneVersion scenarioId (some (current + 1)) }
    publishResultLocked render fate scenarioId (current + 1) p.manifest p.payload true

/-- An edit that is committed makes the next scene version. -/
def advanceScene (scenarioId : String) : Txn ResultStore StoreError Unit := do
  let s ← Txn.get
  let current ← Txn.require (s.sceneVersion scenarioId) .scenarioNotFound
  Txn.modify fun s =>
    { s with sceneVersion := Function.update s.sceneVersion scenarioId (some (current + 1)) }

/-- An earlier result stands for a later version too. Its row and its file are read before the
transaction. -/
def republishResultAtVersion (render : ResultManifest → Bytes) (fate : PublishFate)
    (scenarioId : String) (sourceVersion targetVersion : Nat)
    (override : Option ManifestOverride) (live : Bool) : Txn ResultStore StoreError Unit := do
  let s ← Txn.get
  let source ← Txn.require (s.results scenarioId sourceVersion) .noSource
  let manifest := source.manifest.republished override scenarioId targetVersion
  let payload ← Txn.require (s.files source.payloadPath) .fileNotFound
  inTransaction fate.commit do
    Txn.refuseIf (live = false) .notPublishable
    publishResultLocked render fate scenarioId targetVersion manifest payload true

/-! ## Rows and their files -/

section Rows

variable {lib : Libraries} {render : ResultManifest → Bytes} {s t : ResultStore} {scenarioId : String}
  {sceneVersion : Nat} {fate : PublishFate}

/-- The files of a row are those of one publication, whole. -/
def Held (lib : Libraries) (render : ResultManifest → Bytes) (files : ResultFiles) (scenarioId : String)
    (sceneVersion : Nat) (record : ResultRecord) (p : Publication lib) : Prop :=
  record.sceneVersion = sceneVersion ∧ record.manifest = p.manifest ∧
    record.checksum = checksumPayload lib p.payload ∧
    record.payloadPath = ⟨scenarioId, sceneVersion, .payload, false⟩ ∧
    files ⟨scenarioId, sceneVersion, .payload, false⟩ = some p.payload ∧
    files ⟨scenarioId, sceneVersion, .manifest, false⟩ = some (render p.manifest)

def RowsHeld (lib : Libraries) (render : ResultManifest → Bytes) (s : ResultStore) : Prop :=
  ∀ scenarioId sceneVersion record, s.results scenarioId sceneVersion = some record →
    ∃ p : Publication lib, Held lib render s.files scenarioId sceneVersion record p

/-- The files of the other results are as they were. -/
def SameElsewhere (scenarioId : String) (sceneVersion : Nat) (files files' : ResultFiles) : Prop :=
  ∀ path : Path, ¬ (path.scenarioId = scenarioId ∧ path.sceneVersion = sceneVersion) →
    files' path = files path

theorem writePayload_elsewhere (manifest : ResultManifest) (payload : Bytes) (files : ResultFiles) :
    SameElsewhere scenarioId sceneVersion files
      (writePayload render fate scenarioId sceneVersion manifest payload files).2 := by
  intro path hpath
  have hne : ∀ file aside, path ≠ ⟨scenarioId, sceneVersion, file, aside⟩ := by
    rintro file aside rfl
    exact hpath ⟨rfl, rfl⟩
  have hkeeps : Txn.Keeps (fun files : ResultFiles => files path)
      (writePayload render fate scenarioId sceneVersion manifest payload) := by
    unfold writePayload
    refine (Disk.keeps_operation fun s t h => by rw [Option.some.inj h]).bind fun _ => ?_
    refine Txn.Keeps.bind (fun files => write_other (hne _ _)) fun _ => ?_
    refine Txn.Keeps.bind (fun files => write_other (hne _ _)) fun _ => ?_
    refine Txn.Keeps.bind (fun files => replace_other (hne _ _) (hne _ _)) fun _ => ?_
    exact fun files => replace_other (hne _ _) (hne _ _)
  exact hkeeps files

theorem writePayload_ok {manifest : ResultManifest} {payload : Bytes} {files files' : ResultFiles}
    (h : writePayload render fate scenarioId sceneVersion manifest payload files =
      (.ok (), files')) :
    files' ⟨scenarioId, sceneVersion, .payload, false⟩ = some payload ∧
      files' ⟨scenarioId, sceneVersion, .manifest, false⟩ = some (render manifest) := by
  unfold writePayload at h
  obtain ⟨_, _, -, h⟩ := Txn.bind_ok.mp h
  obtain ⟨_, first, hfirst, h⟩ := Txn.bind_ok.mp h
  obtain ⟨_, second, hsecond, h⟩ := Txn.bind_ok.mp h
  obtain ⟨_, third, hthird, hlast⟩ := Txn.bind_ok.mp h
  obtain ⟨-, rfl⟩ := write_ok.mp hfirst
  obtain ⟨-, rfl⟩ := write_ok.mp hsecond
  obtain ⟨-, hthird⟩ := Disk.operation_ok.mp hthird
  obtain ⟨-, hlast⟩ := Disk.operation_ok.mp hlast
  obtain ⟨text, htext, rfl⟩ := replaceFile_some.mp hthird
  obtain ⟨body, hbody, rfl⟩ := replaceFile_some.mp hlast
  simp at htext hbody
  simp [htext, hbody]

/-! ## What every operation keeps -/

/-- The rows stay, with their files, and each new row has the files of a publication. -/
structure Extends (lib : Libraries) (render : ResultManifest → Bytes) (s t : ResultStore) : Prop where
  rows : ∀ id version record, s.results id version = some record →
    t.results id version = some record
  files : ∀ id version, (s.results id version).isSome = true → ∀ file,
    t.files ⟨id, version, file, false⟩ = s.files ⟨id, version, file, false⟩
  held : ∀ id version record, t.results id version = some record →
    s.results id version = some record ∨
      ∃ p : Publication lib, Held lib render t.files id version record p

variable {u : ResultStore}

theorem Extends.of_eq (hresults : t.results = s.results) (hfiles : ∀ id version,
    (s.results id version).isSome = true → ∀ file,
      t.files ⟨id, version, file, false⟩ = s.files ⟨id, version, file, false⟩) :
    Extends lib render s t where
  rows id version record h := by rw [hresults, h]
  files := hfiles
  held id version record h := Or.inl (by rw [← hresults, h])

theorem Extends.refl (s : ResultStore) : Extends lib render s s :=
  .of_eq rfl fun _ _ _ _ => rfl

theorem Held.congr {files files' : ResultFiles} {id : String} {version : Nat}
    {record : ResultRecord} {p : Publication lib} (h : Held lib render files id version record p)
    (hfiles : ∀ file, files' ⟨id, version, file, false⟩ = files ⟨id, version, file, false⟩) :
    Held lib render files' id version record p := by
  obtain ⟨hversion, hmanifest, hchecksum, hpath, hpayload, htext⟩ := h
  exact ⟨hversion, hmanifest, hchecksum, hpath, (hfiles _).trans hpayload, (hfiles _).trans htext⟩

theorem Extends.trans (h : Extends lib render s t) (h' : Extends lib render t u) :
    Extends lib render s u := by
  have hsome : ∀ id version, (s.results id version).isSome = true →
      (t.results id version).isSome = true := by
    intro id version hrow
    obtain ⟨record, hrecord⟩ := Option.isSome_iff_exists.mp hrow
    simp [h.rows id version record hrecord]
  refine ⟨fun id version record hrow => h'.rows _ _ _ (h.rows _ _ _ hrow), ?_, ?_⟩
  · intro id version hrow file
    rw [h'.files id version (hsome id version hrow), h.files id version hrow]
  · intro id version record hrow
    rcases h'.held id version record hrow with hold | hheld
    · rcases h.held id version record hold with holder | ⟨p, hp⟩
      · exact Or.inl holder
      · exact Or.inr ⟨p, hp.congr (h'.files id version (by simp [hold]))⟩
    · exact Or.inr hheld

theorem Extends.rowsHeld (h : Extends lib render s t) (hs : RowsHeld lib render s) :
    RowsHeld lib render t := by
  intro id version record hrow
  rcases h.held id version record hrow with hold | hheld
  · obtain ⟨p, hp⟩ := hs id version record hold
    exact ⟨p, hp.congr (h.files id version (by simp [hold]))⟩
  · exact hheld

theorem files_of_elsewhere {files : ResultFiles} (hnone : s.results scenarioId sceneVersion = none)
    (hfiles : SameElsewhere scenarioId sceneVersion s.files files) (id : String) (version : Nat)
    (hrow : (s.results id version).isSome = true) (file : FileName) :
    files ⟨id, version, file, false⟩ = s.files ⟨id, version, file, false⟩ := by
  apply hfiles
  rintro ⟨rfl, rfl⟩
  simp [hnone] at hrow

theorem extends_insert {files : ResultFiles} (hnone : s.results scenarioId sceneVersion = none)
    (hfiles : SameElsewhere scenarioId sceneVersion s.files files) {record : ResultRecord}
    {p : Publication lib} (hheld : Held lib render files scenarioId sceneVersion record p) :
    Extends lib render s (insertResult scenarioId record { s with files }) := by
  obtain rfl := hheld.1
  refine ⟨?_, files_of_elsewhere hnone hfiles, ?_⟩
  · intro id version old hrow
    simp only [insertResult]
    split
    · next hnew =>
      obtain ⟨rfl, rfl⟩ := hnew
      rw [hnone] at hrow
      cases hrow
    · exact hrow
  · intro id version new hrow
    simp only [insertResult] at hrow
    split at hrow
    · next hnew =>
      obtain ⟨rfl, rfl⟩ := hnew
      obtain rfl := Option.some.inj hrow
      exact Or.inr ⟨p, hheld⟩
    · exact Or.inl hrow

theorem bind_guard {σ ε α β : Type} {I : σ → Prop} {m : Txn σ ε α} {f : α → Txn σ ε β} {s : σ}
    (hkeeps : Txn.Keeps id m) (hs : I s) (hok : ∀ a, m s = (.ok a, s) → I (f a s).2) :
    I ((m >>= f) s).2 := by
  apply Txn.bind_elim (Q := fun result => I result.2)
  · intro e t h
    have ht : t = s := hkeeps.ended h
    rwa [ht]
  · intro a t h
    have ht : t = s := hkeeps.ended h
    rw [ht] at h ⊢
    exact hok a h

theorem bind_modify {σ ε β : Type} {f : σ → σ} {g : Unit → Txn σ ε β} {s : σ} :
    (Txn.modify f >>= g) s = g () (f s) := rfl

theorem publishResultLocked_extends (p : Publication lib) (exact : Bool) :
    Txn.Preserves (Extends lib render u)
      (publishResultLocked render fate scenarioId sceneVersion p.manifest p.payload exact) := by
  intro s hs
  apply hs.trans
  unfold publishResultLocked
  apply bind_guard Txn.keeps_get (.refl s)
  intro _ hget
  obtain ⟨rfl, -⟩ := Txn.get_ok.mp hget
  apply bind_guard Txn.keeps_require (.refl s)
  intro current _
  apply bind_guard Txn.keeps_refuseIf (.refl s)
  intro _ _
  apply bind_guard Txn.keeps_refuseIf (.refl s)
  intro _ habsent
  have hnone : s.results scenarioId sceneVersion = none := by
    simpa using (Txn.refuseIf_ok.mp habsent).1
  have helsewhere : SameElsewhere scenarioId sceneVersion s.files
      (writePayload render fate scenarioId sceneVersion p.manifest p.payload s.files).2 :=
    writePayload_elsewhere _ _ _
  rcases hwrite : writePayload render fate scenarioId sceneVersion p.manifest p.payload s.files with
    ⟨stop | _, files⟩
  · rw [hwrite] at helsewhere
    have hstop : onFiles (writePayload render fate scenarioId sceneVersion p.manifest p.payload) s =
        (.error (.stopped stop), { s with files }) := by
      rw [onFiles, hwrite]
    rw [Txn.bind_of_error hstop]
    exact .of_eq rfl (files_of_elsewhere hnone helsewhere)
  · rw [hwrite] at helsewhere
    have hrun : onFiles (writePayload render fate scenarioId sceneVersion p.manifest p.payload) s =
        (.ok (), { s with files }) := by
      rw [onFiles, hwrite]
    rw [Txn.bind_of_ok hrun]
    obtain ⟨hpayload, htext⟩ := writePayload_ok hwrite
    exact extends_insert hnone helsewhere
      ⟨rfl, rfl, by rw [p.checksum]; rfl, rfl, hpayload, htext⟩

theorem inTransaction_extends {commit : Disk.Fate} {body : Txn ResultStore StoreError Unit}
    (hbody : ∀ s, Extends lib render s (body s).2) :
    Txn.Preserves (Extends lib render u) (inTransaction commit body) := by
  intro s hs
  apply hs.trans
  have hextends := hbody s
  have hfiles : Extends lib render s { s with files := (body s).2.files } :=
    .of_eq rfl hextends.files
  unfold inTransaction
  rcases hrun : body s with ⟨e | _, t⟩
  · simpa [hrun] using hfiles
  · cases commit with
    | runs => simpa [hrun] using hextends
    | raises => simpa [hrun] using hfiles
    | killed => simpa [hrun] using hfiles

theorem sceneVersion_extends (sceneVersion : String → Option Nat) (s : ResultStore) :
    Extends lib render s { s with sceneVersion } :=
  .of_eq rfl fun _ _ _ _ => rfl

theorem createScenario_extends (baseline : Option (Publication lib)) :
    Txn.Preserves (Extends lib render u) (createScenario render fate scenarioId baseline) := by
  apply inTransaction_extends
  intro s
  apply bind_guard Txn.keeps_get (.refl s)
  intro _ hget
  obtain ⟨rfl, -⟩ := Txn.get_ok.mp hget
  apply bind_guard Txn.keeps_refuseIf (.refl s)
  intro _ _
  rw [bind_modify]
  cases baseline with
  | none => exact sceneVersion_extends _ s
  | some p => exact publishResultLocked_extends p p.exact _ (sceneVersion_extends _ s)

theorem publishResult_extends (p : Publication lib) (live : Bool) :
    Txn.Preserves (Extends lib render u)
      (publishResult render fate scenarioId sceneVersion p live) := by
  apply inTransaction_extends
  intro s
  apply bind_guard Txn.keeps_refuseIf (.refl s)
  intro _ _
  exact publishResultLocked_extends p p.exact s (.refl s)

theorem resetScenario_extends (p : Publication lib) :
    Txn.Preserves (Extends lib render u) (resetScenario render fate scenarioId p) := by
  apply inTransaction_extends
  intro s
  apply bind_guard Txn.keeps_get (.refl s)
  intro _ hget
  obtain ⟨rfl, -⟩ := Txn.get_ok.mp hget
  apply bind_guard Txn.keeps_require (.refl s)
  intro current _
  rw [bind_modify]
  exact publishResultLocked_extends p true _ (sceneVersion_extends _ s)

theorem advanceScene_extends :
    Txn.Preserves (Extends lib render u) (advanceScene scenarioId) := by
  intro s hs
  apply hs.trans
  apply bind_guard Txn.keeps_get (.refl s)
  intro _ hget
  obtain ⟨rfl, -⟩ := Txn.get_ok.mp hget
  apply bind_guard Txn.keeps_require (.refl s)
  intro current _
  exact sceneVersion_extends _ s

theorem republishResultAtVersion_extends {sourceVersion : Nat} {override : Option ManifestOverride}
    {live : Bool} (hheld : RowsHeld lib render s) :
    Extends lib render s (republishResultAtVersion render fate scenarioId sourceVersion sceneVersion
      override live s).2 := by
  unfold republishResultAtVersion
  apply bind_guard Txn.keeps_get (.refl s)
  intro _ hget
  obtain ⟨rfl, -⟩ := Txn.get_ok.mp hget
  apply bind_guard Txn.keeps_require (.refl s)
  intro source hsource
  apply bind_guard Txn.keeps_require (.refl s)
  intro payload hpayload
  obtain ⟨p, -, hmanifest, -, hpath, hfile, -⟩ :=
    hheld _ _ _ (Txn.require_ok.mp hsource).1
  obtain rfl : p.payload = payload := by
    have := (Txn.require_ok.mp hpayload).1
    rw [hpath, hfile] at this
    exact Option.some.inj this
  rw [hmanifest]
  refine inTransaction_extends (fun s => ?_) s (.refl s)
  apply bind_guard Txn.keeps_refuseIf (.refl s)
  intro _ _
  exact publishResultLocked_extends (p.republished override scenarioId sceneVersion) true s (.refl s)

end Rows

end Solweig.Serve
