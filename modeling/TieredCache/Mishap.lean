import TieredCache.Lookup.Run

/-!
# Mishaps

A disk can fail to replace or delete a file for reasons that its folders and files do not show: no room, no
permission, a device that gives up. A failure of this kind is data here. The operations that evict entries are
carried out amid any number of them, and repairs, removals and clearings amid those of one operation.
-/

namespace TieredCache

/-- How the replacing of a file goes wrong. -/
structure Mishap where
  /-- How many bytes come to the temporary file; none if it cannot be made. -/
  reached : Option Nat
  /-- Whether the temporary file cannot be deleted again. -/
  stays : Bool
  deriving DecidableEq, Repr

/-- What a mishap does to a disk, from the place of the temporary file and the contents that it is for. -/
def Mishap.effects (mishap : Mishap) (temporary : Path) (bytes : Bytes) : List Effect :=
  match mishap.reached, mishap.stays with
  | none, _ => []
  | some size, true => [.createFile temporary, .fillFile temporary (bytes.take size)]
  | some size, false =>
    [.createFile temporary, .fillFile temporary (bytes.take size), .deleteFile temporary]

/-- The effects of replacing a file in a folder, and whether it is replaced. It is not if there is a
mishap, and not if the disk refuses. -/
def Disk.attempt (disk : Disk) (mishap : Option Mishap) (folder : Route) (name : String)
    (bytes : Bytes) : List Effect × Bool :=
  match mishap with
  | none =>
    match disk.replacement folder name bytes with
    | .ok effects => (effects, true)
    | .error _ => ([], false)
  | some mishap =>
    match disk.folderAt folder with
    | .ok place => (mishap.effects (place ++ [temporaryName (disk.names place)]) bytes, false)
    | .error _ => ([], false)

/-- What goes wrong in one operation on an archive. -/
structure Hazard where
  /-- What goes wrong with the record, if anything does. -/
  record : Option Mishap := none
  /-- What goes wrong with the index, if anything does. -/
  index : Option Mishap := none
  /-- The names whose files cannot be deleted. -/
  kept : List String := []
  deriving DecidableEq, Repr

namespace Archive

/-- Writes the index to its file, unless there is a mishap. A failure is only noted. -/
def saveAmid (mishap : Option Mishap) (archive : Archive) (disk : Disk) (failure : Notice) :
    List Effect × List Notice :=
  match disk.attempt mishap archive.root indexName archive.index.write with
  | (effects, true) => (effects, [])
  | (effects, false) => (effects, [failure])

/-- Keeps an entry that tier 1 evicts, amid a hazard. -/
def spillAmid (hazard : Hazard) (archive : Archive) (disk : Disk) (key : String) (entry : Entry) :
    Outcome Unit :=
  let name := recordName key
  match disk.attempt hazard.record archive.records name entry.record with
  | (effects, false) => ⟨(), archive, effects, [.failedSpill]⟩
  | (effects, true) =>
    let archive := { archive with index := archive.index.put key name }
    let (saving, notices) := archive.saveAmid hazard.index (disk.perform effects) .unsavedSpill
    ⟨(), archive, effects ++ saving, notices⟩

/-- The effect that deletes the file of a name, unless the hazard keeps it. -/
def deletionAmid (hazard : Hazard) (archive : Archive) (disk : Disk) (name : String) :
    Except Refusal Effect :=
  if name ∈ hazard.kept then .error .obstacle else disk.deletion (archive.place name)

/-- The effects that delete the file of a name, if it can be deleted. -/
def purgeAmid (hazard : Hazard) (archive : Archive) (disk : Disk) (name : String) : List Effect :=
  match archive.deletionAmid hazard disk name with
  | .ok effect => [effect]
  | .error _ => []

/-- Takes a key out of the index, in memory and in the file, amid a hazard. -/
def forgetAmid (hazard : Hazard) (archive : Archive) (disk : Disk) (key : String) : Outcome Unit :=
  if archive.contains key then
    let archive := { archive with index := archive.index.erase key }
    let (effects, notices) := archive.saveAmid hazard.index disk .unsavedRepair
    ⟨(), archive, effects, notices⟩
  else ⟨(), archive, [], []⟩

/-- Acts on a verdict, amid a hazard. A corrupt record that cannot be deleted is forgotten all the same. -/
def settleAmid (hazard : Hazard) (archive : Archive) (disk : Disk) (key : String) :
    Verdict → Outcome (Option Entry)
  | .missing =>
    let outcome := archive.forgetAmid hazard disk key
    ⟨none, outcome.archive, outcome.effects, outcome.notices⟩
  | .corrupt name =>
    let deletion := archive.purgeAmid hazard disk name
    let outcome := archive.forgetAmid hazard (disk.perform deletion) key
    ⟨none, outcome.archive, deletion ++ outcome.effects, outcome.notices⟩
  | verdict => archive.settle disk key verdict

/-- Loads the entry of a key, amid a hazard. -/
def loadAmid (hazard : Hazard) (archive : Archive) (disk : Disk) (key : String) :
    Outcome (Option Entry) :=
  let verdict := archive.inspect disk key
  let outcome := archive.settleAmid hazard disk key verdict
  { outcome with notices := verdict.notices ++ outcome.notices }

/-- Deletes the record of a key and takes the key out of the index, amid a hazard. -/
def removeAmid (hazard : Hazard) (archive : Archive) (disk : Disk) (key : String) : Outcome Bool :=
  let indexed := archive.index.get? key
  let (deletion, notices) : List Effect × List Notice :=
    match archive.deletionAmid hazard disk (indexed.getD (recordName key)) with
    | .ok effect => ([effect], [])
    | .error .missing => ([], [])
    | .error .obstacle => ([], [.undeletedRecord])
  if indexed.isSome then
    let archive := { archive with index := archive.index.erase key }
    let (saving, failures) := archive.saveAmid hazard.index (disk.perform deletion) .unsavedRemoval
    ⟨true, archive, deletion ++ saving, notices ++ failures⟩
  else ⟨!deletion.isEmpty, archive, deletion, notices⟩

/-- Deletes the files of a list of names, amid a hazard. -/
def deleteAllAmid (hazard : Hazard) (archive : Archive) :
    Disk → List String → List Effect × List Notice
  | _, [] => ([], [])
  | disk, name :: names =>
    match archive.deletionAmid hazard disk name with
    | .ok effect =>
      let (effects, notices) := deleteAllAmid hazard archive (disk.apply effect) names
      (effect :: effects, notices)
    | .error .missing => deleteAllAmid hazard archive disk names
    | .error .obstacle =>
      let (effects, notices) := deleteAllAmid hazard archive disk names
      (effects, .undeletedRecord :: notices)

/-- Deletes every indexed record and empties the index, amid a hazard. -/
def clearAmid (hazard : Hazard) (archive : Archive) (disk : Disk) : Outcome Nat :=
  let (deletions, notices) := archive.deleteAllAmid hazard disk (archive.index.map Prod.snd)
  let emptied := { archive with index := [] }
  let (saving, failures) := emptied.saveAmid hazard.index (disk.perform deletions) .unsavedClear
  ⟨archive.size, emptied, deletions ++ saving, notices ++ failures⟩

end Archive

namespace Store

/-- Keeps an evicted entry in the archive, amid a hazard. -/
def spillAmid (hazard : Hazard) (store : Store) (key : String) (entry : Entry) : Store :=
  store.carryOut (store.cache.archive.spillAmid hazard store.disk key entry)

/-- Keeps evicted entries in the archive, in order, each amid the next hazard. There is none after the last
of a list. -/
def spillAllAmid : List Hazard → Store → Keyed Entry → Store
  | _, store, [] => store
  | hazards, store, (key, entry) :: evicted =>
    spillAllAmid hazards.tail (store.spillAmid (hazards.headD {}) key entry) evicted

/-- Writes an entry to tier 1 under its own key, amid hazards. -/
def putEntryAmid (hazards : List Hazard) (store : Store) (entry : Entry) :
    Except Fault (Entry × Store) := do
  Fault.checkKey entry.key
  let entry := described store.cache entry
  let (evicted, recent) := store.cache.recent.write entry.key entry
  return (entry, (spillAllAmid hazards store evicted).withRecent recent)

/-- Writes an entry to tier 1 unless its key is resident, amid hazards. -/
def offerAmid (hazards : List Hazard) (store : Store) (key : String) (entry : Entry) (now : Moment) :
    Entry × Store :=
  let (entry, evicted, recent) := store.cache.recent.offer key entry now
  (entry, (spillAllAmid hazards store evicted).withRecent recent)

/-- Drops what both tiers have of a key, amid a hazard. -/
def removeAmid (hazard : Hazard) (store : Store) (key : String) : Except Fault (Bool × Store) := do
  Fault.checkKey key
  let (held, recent) := store.cache.recent.erase key
  let outcome := store.cache.archive.removeAmid hazard store.disk key
  return (held.isSome || outcome.answer, (store.withRecent recent).carryOut outcome)

/-- Drops all entries of tier 1, and those of tier 2 too unless told otherwise, amid a hazard. -/
def clearAmid (hazard : Hazard) (store : Store) (recentOnly : Bool) : Cleared × Store :=
  let (count, recent) := store.cache.recent.clear
  let store := store.withRecent recent
  if recentOnly then (⟨count, 0⟩, store)
  else
    let outcome := store.cache.archive.clearAmid hazard store.disk
    (⟨count, outcome.answer⟩, store.carryOut outcome)

end Store

namespace Lookup

/-- Puts an entry where it goes after its hydration, amid hazards. -/
def deliverAmid (hazards : List Hazard) (request : Request) (entry : Entry) (now : Moment)
    (store : Store) : Aim → Lookup × Store
  | .refresh => deliver request entry now store .refresh
  | .promote =>
    let (entry, store) := store.offerAmid hazards request.key entry now
    (.done (some entry), store)
  | .seed =>
    let (entry, store) := store.offerAmid hazards request.key (entry.touch now) now
    (.landing entry, store.land request.key entry)

/-- The next step of a lookup, amid hazards. Only the delivery of an entry can evict. -/
def stepAmid (hazards : List Hazard) (request : Request) (answer : Answer) (now : Moment)
    (store : Store) : Lookup → Lookup × Store
  | .hydrating aim (.finished _ entry) => deliverAmid hazards request entry now store aim
  | lookup => lookup.step request answer now store

end Lookup

namespace Run

variable {σ : Type}

/-- A run after one step, amid hazards. -/
def nextAmid (hazards : List Hazard) (resolve : Resolver σ) (request : Request) (now : Moment)
    (run : Run σ) : Run σ :=
  let (answer, state) :=
    match run.lookup.question? with
    | some path => resolve run.state path
    | none => (.unknown, run.state)
  let (lookup, store) := run.lookup.stepAmid hazards request answer now run.store
  ⟨lookup, store, state⟩

/-- A run after a number of steps, amid hazards. -/
def advanceAmid (hazards : List Hazard) (resolve : Resolver σ) (request : Request) (now : Moment) :
    Nat → Run σ → Run σ
  | 0, run => run
  | steps + 1, run =>
    advanceAmid hazards resolve request now steps (run.nextAmid hazards resolve request now)

end Run

/-- Looks a key up, amid hazards. -/
def Store.getAmid {σ : Type} (hazards : List Hazard) (store : Store) (resolve : Resolver σ) (state : σ)
    (request : Request) (now : Moment) : Except Fault (Option Entry × Store × σ) := do
  Fault.checkKey request.key
  let found := Run.advanceAmid hazards resolve request now Run.searchSteps ⟨.begun, store, state⟩
  let run := Run.advanceAmid hazards resolve request now found.lookup.remaining found
  return (run.lookup.answer?.join, run.store, run.state)

end TieredCache
