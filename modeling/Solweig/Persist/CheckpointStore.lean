import Solweig.Lib.Disk
import Solweig.Lib.Fold
import Solweig.Persist.RevisionNames

/-!
# The checkpoint store

Checkpoints on disk, one directory a revision: the staged write with its rotation, the listing,
and the load with its checks.
-/

namespace Solweig.Persist

open Solweig.Lib Solweig.Lib.Disk

variable {M T D : Type}

/-- `body` is what the payload holds beside the revision: coverage, scalars, series, next step,
fingerprint and spatial digests. -/
structure CheckpointRecord (M T : Type) where
  sceneRevision : Nat
  tensors : Dict String T
  body : M

structure CheckpointPayload (M D : Type) where
  sceneRevision : Nat
  body : M
  tensorChecksums : Dict String D

inductive CheckpointFile (M T D : Type) where
  | metadata (schemaVersion : Nat) (payload : CheckpointPayload M D) (payloadSha256 : D)
  | tensor (plane : T)

/-- The digests, and the checks of a record that the writer and the loader share. -/
structure CheckpointFormat (M T D : Type) where
  payloadDigest : CheckpointPayload M D → D
  tensorChecksum : T → D
  valid : M → Dict String T → Bool

def schemaVersion : Nat := 3

def loadableSchemaVersions : List Nat := [2, 3]

def metadataFile : String := "checkpoint.json"

def tensorFile (name : String) : String := "tensors/" ++ name ++ ".npy"

/-! ## Load -/

inductive CheckpointError where
  | unreadableMetadata
  | schema (version : Nat)
  | payloadDigest
  | unreadableTensor (name : String)
  | tensorChecksum (name : String)
  | invalid
  deriving DecidableEq

def loadTensor [DecidableEq D] (format : CheckpointFormat M T D)
    (files : Dict String (CheckpointFile M T D)) (entry : String × D) :
    Except CheckpointError (String × T) :=
  match files[tensorFile entry.1]? with
  | some (.tensor plane) => do
    refuseIf (format.tensorChecksum plane ≠ entry.2) (.tensorChecksum entry.1)
    pure (entry.1, plane)
  | _ => .error (.unreadableTensor entry.1)

def loadCheckpoint [DecidableEq D] (format : CheckpointFormat M T D)
    (files : Dict String (CheckpointFile M T D)) : Except CheckpointError (CheckpointRecord M T) :=
  match files[metadataFile]? with
  | some (.metadata schema payload digest) => do
    refuseIf (schema ∉ loadableSchemaVersions) (.schema schema)
    refuseIf (digest ≠ format.payloadDigest payload) .payloadDigest
    let entries ← payload.tensorChecksums.toList.mapM (loadTensor format files)
    let tensors := Dict.ofEntries entries
    refuseIf (¬ format.valid payload.body tensors = true) .invalid
    pure ⟨payload.sceneRevision, tensors, payload.body⟩
  | _ => .error .unreadableMetadata

/-- Sorted revisions, without staging directories. -/
def listCheckpoints (disk : Directories (CheckpointFile M T D)) : List Nat :=
  (disk.keys.filterMap revisionDir?).insertionSort (· ≤ ·)

/-- The record in the directory of a revision, when it loads. -/
def loadAt [DecidableEq D] (format : CheckpointFormat M T D)
    (disk : Directories (CheckpointFile M T D)) (revision : Nat) : Option (CheckpointRecord M T) :=
  disk[revName revision]?.bind fun files => (loadCheckpoint format files).toOption

def loadLatestCheckpoint [DecidableEq D] (format : CheckpointFormat M T D)
    (disk : Directories (CheckpointFile M T D)) : Option (CheckpointRecord M T) :=
  (listCheckpoints disk).reverse.findSome? (loadAt format disk)

/-! ## Write -/

/-- The file operations of a write; a removal names each file and last the directory. -/
inductive FileOp where
  | makeRoot
  | clearStaging (file : Option String)
  | makeStaging
  | makeTensors
  | saveTensor (name : String)
  | saveMetadata
  | removeOld (file : Option String)
  | rename
  | discardStaging (file : Option String)
  | removeStale (revision : Nat) (file : Option String)

def payloadOf (format : CheckpointFormat M T D) (record : CheckpointRecord M T) :
    CheckpointPayload M D where
  sceneRevision := record.sceneRevision
  body := record.body
  tensorChecksums := record.tensors.map fun _ plane => format.tensorChecksum plane

def metadataOf (format : CheckpointFormat M T D) (record : CheckpointRecord M T) :
    CheckpointFile M T D :=
  .metadata schemaVersion (payloadOf format record) (format.payloadDigest (payloadOf format record))

/-- An empty staging directory in place of what a killed write left. -/
def prepareStaging (fate : FileOp → Fate) (staging : String) :
    Crash (Directories (CheckpointFile M T D)) Unit := do
  operation (fate .makeRoot) some
  removeIfThere (fun file => fate (.clearStaging file)) staging
  operation (fate .makeStaging) (makeDir staging)

def saveRecord (format : CheckpointFormat M T D) (fate : FileOp → Fate) (staging : String)
    (record : CheckpointRecord M T) : Crash (Directories (CheckpointFile M T D)) Unit := do
  operation (fate .makeTensors) some
  record.tensors.toList.forM fun (name, plane) =>
    operation (fate (.saveTensor name)) (writeFile staging (tensorFile name) (.tensor plane))
  operation (fate .saveMetadata) (writeFile staging metadataFile (metadataOf format record))

/-- A predecessor of the same revision goes once its replacement is staged. -/
def replaceRevision (fate : FileOp → Fate) (staging final : String) :
    Crash (Directories (CheckpointFile M T D)) Unit := do
  removeIfThere (fun file => fate (.removeOld file)) final
  operation (fate .rename) (rename staging final)

/-- The revisions that a prune deletes: not the last `keep`, and not revision 0. -/
def staleRevisions (keep : Nat) (disk : Directories (CheckpointFile M T D)) : List Nat :=
  let revisions := listCheckpoints disk
  let survivors := 0 :: revisions.drop (revisions.length - keep)
  revisions.filter fun revision => revision ∉ survivors

def pruneCheckpoints (fate : FileOp → Fate) (keep : Nat) :
    Crash (Directories (CheckpointFile M T D)) Unit := do
  let disk ← Txn.get
  (staleRevisions keep disk).forM fun revision =>
    removeTreeIgnoring (fun file => fate (.removeStale revision file)) (revName revision)

/-- `write_checkpoint`, up to the name of the revision directory. -/
def writeCheckpoint (format : CheckpointFormat M T D) (fate : FileOp → Fate)
    (record : CheckpointRecord M T) (keep : Nat) :
    Crash (Directories (CheckpointFile M T D)) String := do
  Txn.refuseIf (keep < 1 ∨ ¬ format.valid record.body record.tensors = true) .raised
  let final := revName record.sceneRevision
  let staging := stagingName record.sceneRevision
  prepareStaging fate staging
  onRaise (saveRecord format fate staging record >>= fun _ => replaceRevision fate staging final)
    (removeTreeIgnoring (fun file => fate (.discardStaging file)) staging)
  pruneCheckpoints fate keep
  pure final

end Solweig.Persist
