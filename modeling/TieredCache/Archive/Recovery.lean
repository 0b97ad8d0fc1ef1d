import TieredCache.Archive.Basic

/-!
# Recovery of an archive

Every record holds its key, so that the index can be made anew from the records. That happens when an
archive is opened whose index is missing or is not an object of strings.
-/

namespace TieredCache.Archive

/-! ## Rebuilding the index -/

/-- The end of the name of a record. -/
def recordEnd : List Char := ['.', 'j', 's', 'o', 'n']

/-- Whether a name is that of a record. There is something before its end. -/
def isRecordName (name : String) : Bool :=
  recordEnd.isSuffixOf name.toList && decide (recordEnd.length < name.toList.length)

/-- The index of a list of files. Of two records of one key, the later in the list counts. -/
def scan (read : String → Except Refusal Bytes) : List String → Index → Index × List Notice
  | [], index => (index, [])
  | name :: names, index =>
    if isRecordName name then
      match (read name).toOption.bind embeddedKey? with
      | some key => scan read names (index.put key name)
      | none =>
        let (index, notices) := scan read names index
        (index, .skippedRecord :: notices)
    else scan read names index

/-- Makes the index anew from the records. The answer is how many keys there are. -/
def rebuild (archive : Archive) (disk : Disk) : Outcome Nat :=
  let (index, notices) :=
    match disk.list archive.records with
    | .ok names => scan (fun name => disk.read (archive.records ++ [name])) names []
    | .error _ => ([], [.unscannedRecords])
  let archive := { archive with index }
  let (effects, failures) := archive.save disk .unsavedRebuild
  ⟨archive.size, archive, effects, notices ++ failures⟩

/-! ## Opening -/

/-- The effects that delete the files in a folder that were still being written. -/
def sweep (disk : Disk) (folder : Route) : List Effect :=
  match disk.list folder with
  | .ok names =>
    (names.filter Disk.isTemporary).filterMap fun name => (disk.deletion (folder ++ [name])).toOption
  | .error _ => []

/-- What a look at the file of the index finds. -/
inductive IndexState where
  | sound (index : Index)
  | missing
  | unreadable

/-- Looks at the file of the index. -/
def indexState (archive : Archive) (disk : Disk) : IndexState :=
  match disk.read archive.indexFile with
  | .error .missing => .missing
  | .error .obstacle => .unreadable
  | .ok bytes =>
    match Index.read? bytes with
    | some index => .sound index
    | none => .unreadable

/-- Takes up the index from its file, or from the records. -/
def recover (archive : Archive) (disk : Disk) : Outcome Unit :=
  match archive.indexState disk with
  | .sound index => ⟨(), { archive with index }, [], []⟩
  | .missing =>
    let outcome := archive.rebuild disk
    ⟨(), outcome.archive, outcome.effects, outcome.notices⟩
  | .unreadable =>
    let outcome := archive.rebuild disk
    ⟨(), outcome.archive, outcome.effects, .unreadableIndex :: outcome.notices⟩

/-- Opens the archive in a directory. Its folders are made, files that were still being written are
deleted, and the index is taken up. The answer is whether the folders are there. -/
def establish (disk : Disk) (root : Route) : Outcome Bool :=
  let archive : Archive := ⟨root, []⟩
  let (folders, made) := disk.folders archive.records
  if made then
    let disk := disk.perform folders
    let outer := sweep disk archive.root
    let disk := disk.perform outer
    let inner := sweep disk archive.records
    let outcome := archive.recover (disk.perform inner)
    ⟨true, outcome.archive, folders ++ outer ++ inner ++ outcome.effects, outcome.notices⟩
  else ⟨false, archive, folders, []⟩

end TieredCache.Archive
