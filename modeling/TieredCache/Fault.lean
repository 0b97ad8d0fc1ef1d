/-!
# Faults and notices

A fault is an error with its wording. Few faults reach a caller: what goes wrong inside a tier becomes a
notice, and the operation goes on as after a miss.
-/

namespace TieredCache

/-- What can go wrong. -/
inductive Fault where
  | emptyKey
  | badSettings (reason : String)
  | noResolver
  | corruptRecord (key reason : String)
  | corruptIndex (reason : String)
  | failedWrite (reason : String)
  | files (reason : String)
  | malformed (reason : String)
  deriving DecidableEq, Repr

namespace Fault

/-- The wording of a fault. -/
def message : Fault → String
  | .emptyKey => "Invalid key: keys must be non-empty"
  | .badSettings reason => "Invalid configuration: " ++ reason
  | .noResolver => "No resolver configured"
  | .corruptRecord key reason => "Record for \x27" ++ key ++ "\x27 is corrupt: " ++ reason
  | .corruptIndex reason => "Persistent index is corrupt: " ++ reason
  | .failedWrite reason => "Storage write failed: " ++ reason
  | .files reason => "I/O error: " ++ reason
  | .malformed reason => "Serialization error: " ++ reason

/-- Keys must not be empty. -/
def checkKey (key : String) : Except Fault Unit :=
  if key.isEmpty then .error .emptyKey else .ok ()

end Fault

/-- A warning about something that was dealt with. -/
inductive Notice where
  | unreadableIndex
  | unscannedRecords
  | skippedRecord
  | unsavedRebuild
  | failedSpill
  | unsavedSpill
  | unreadRecord
  | purgedRecord
  | unsavedRepair
  | undeletedRecord
  | unsavedRemoval
  | unsavedClear
  | passedDeadline
  | failedResolver
  | missingResolver
  deriving DecidableEq, Repr

/-- The wording of a notice. -/
def Notice.message : Notice → String
  | .unreadableIndex => "Index unreadable, rebuilding from records"
  | .unscannedRecords => "Failed to scan records directory"
  | .skippedRecord => "Skipping unreadable record"
  | .unsavedRebuild => "Failed to persist rebuilt index"
  | .failedSpill => "Failed to spill entry to disk"
  | .unsavedSpill => "Failed to persist index after spill"
  | .unreadRecord => "Failed to read record"
  | .purgedRecord => "Purging corrupt record"
  | .unsavedRepair => "Failed to persist index after repair"
  | .undeletedRecord => "Failed to delete record"
  | .unsavedRemoval => "Failed to persist index after removal"
  | .unsavedClear => "Failed to persist index after clear"
  | .passedDeadline => "Hydration deadline passed"
  | .failedResolver => "Resolver failed"
  | .missingResolver => "Cannot reconstruct entry"

end TieredCache
