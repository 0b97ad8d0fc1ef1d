import TieredCache.Calls
import TieredCache.Traffic

/-!
# Services

A process that uses one cache at a time. Its callers look keys up, put, remove and clear; they make
entries of their own, keep those that they are handed, and hydrate them. Others edit the files of the cache
whenever they like.
-/

namespace TieredCache

/-! ## Entries of callers -/

/-- How a caller makes an entry. -/
inductive Making where
  | new (key : String) (paths : List String) (now : Moment)
  /-- Reads a record that it has in hand. -/
  | decoded (bytes : Bytes)
  | withParams (entry : Entry) (params : Params)
  | withTags (entry : Entry) (tags : Tags)
  | withArtifacts (entry : Entry) (artifacts : Artifacts)

namespace Making

/-- The entry that is made, unless there is none to read. -/
def entry? : Making → Option Entry
  | .new key paths now => some (.new key paths now)
  | .decoded bytes => Entry.read? bytes
  | .withParams entry params => some { entry with params }
  | .withTags entry tags => some { entry with tags := some tags }
  | .withArtifacts entry artifacts => some (entry.withArtifacts artifacts)

/-- The entry that another one is made from. -/
def source? : Making → Option Entry
  | .new _ _ _ => none
  | .decoded _ => none
  | .withParams entry _ => some entry
  | .withTags entry _ => some entry
  | .withArtifacts entry _ => some entry

end Making

/-- The entry of a hydration that has come to an end. -/
def Hydration.result? : Hydration → Option Entry
  | .running _ _ _ => none
  | .finished _ entry => some entry

/-- The entry that a move hands to the caller that makes it. -/
def Crowd.handed? (crowd : Crowd) : Move → Option Entry
  | .turn turn =>
    ((crowd.turn turn).callers[turn.index]?.bind fun caller => caller.lookup.answer?).join
  | .putEntry entry => (crowd.store.putEntry entry).toOption.map Prod.fst
  | _ => none

/-! ## Incidents -/

/-- A cache in use. -/
structure Service where
  crowd : Crowd
  /-- The entries that callers have made or have been handed. -/
  held : List Entry
  /-- The hydrations that callers have begun on entries of their own. -/
  hydrations : List Hydration

/-- What happens next in a process, or on its disk. -/
inductive Incident where
  | move (move : Move)
  /-- Others have made the disk into another one. -/
  | edit (disk : Disk)
  | make (making : Making)
  /-- A caller begins to hydrate an entry. -/
  | hydrate (entry : Entry)
  /-- A hydration of a caller takes its next step. The answer is the one to its question. -/
  | proceed (index : Nat) (answer : Answer)
  /-- The cache is closed, and one is opened on the same disk. -/
  | reopen (settings : Settings) (resolving : Bool) (describer : Option Describer)

/-- The entry that a caller has to hold for an incident. -/
def Incident.needs? : Incident → Option Entry
  | .move (.putEntry entry) => some entry
  | .make making => making.source?
  | .hydrate entry => some entry
  | _ => none

/-- The artifact that an answer brings for a path. -/
def Answer.brings (question : Option String) : Answer → Artifacts
  | .found artifact => question.toList.map fun path => (path, artifact)
  | _ => []

namespace Service

/-- A process that has just opened its cache. -/
def start (store : Store) : Service := ⟨⟨store, []⟩, [], []⟩

/-- The store with another disk. -/
def withDisk (service : Service) (disk : Disk) : Service :=
  { service with crowd := { service.crowd with store := { service.crowd.store with disk } } }

/-- The path that a hydration of a caller has to have answered before its next step. -/
def question? (service : Service) (index : Nat) : Option String :=
  service.hydrations[index]?.bind Hydration.question?

/-- A process after an incident. -/
def after (service : Service) : Incident → Service
  | .move move =>
    { service with
      crowd := service.crowd.move move
      held := service.held ++ (service.crowd.handed? move).toList }
  | .edit disk => service.withDisk disk
  | .make making => { service with held := service.held ++ making.entry?.toList }
  | .hydrate entry =>
    let hydration := Hydration.begin service.crowd.store.cache.resolving entry none
    { service with hydrations := service.hydrations ++ [hydration] }
  | .proceed index answer =>
    match service.hydrations[index]? with
    | none => service
    | some hydration =>
      let (hydration, notices) := hydration.step answer
      { crowd := { service.crowd with store := service.crowd.store.note notices }
        held := service.held ++ hydration.result?.toList
        hydrations := service.hydrations.set index hydration }
  | .reopen settings resolving describer =>
    match Store.establish service.crowd.store.disk settings resolving describer with
    | (disk, notices, .ok cache) =>
      { service with crowd := ⟨⟨disk, cache, notices⟩, []⟩, hydrations := [] }
    | (disk, _, .error _) => service.withDisk disk

/-- A process after a number of incidents. -/
def through (service : Service) (incidents : List Incident) : Service := incidents.foldl after service

/-- The artifacts that an incident brings to the process, each with the path that it is for: those of a
caller, or what a resolver has answered. -/
def brings (service : Service) : Incident → Artifacts
  | .move (.turn turn) => turn.answer.brings (service.crowd.question? turn.index)
  | .make (.withArtifacts _ artifacts) => artifacts
  | .proceed index answer => answer.brings (service.question? index)
  | _ => []

/-- The artifacts that a number of incidents bring. -/
def brought : Service → List Incident → Artifacts
  | _, [] => []
  | service, incident :: later => service.brings incident ++ brought (service.after incident) later

/-- Callers put, hydrate and change only entries that they have made or have been handed. -/
def Admits : Service → List Incident → Prop
  | _, [] => True
  | service, incident :: later =>
    (∀ entry ∈ incident.needs?, entry ∈ service.held) ∧ Admits (service.after incident) later

theorem through_append (service : Service) (before later : List Incident) :
    service.through (before ++ later) = (service.through before).through later :=
  List.foldl_append

end Service

end TieredCache
