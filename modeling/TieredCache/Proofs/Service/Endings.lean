import TieredCache.Proofs.Crowd.Endings
import TieredCache.Proofs.Store.Opening
import TieredCache.Service

/-!
# Every lookup is counted once

Whenever nobody looks anything up, the tally tells how all lookups since it was begun were decided to end,
however their steps interleaved and whatever else happened meanwhile.
-/

namespace TieredCache

/-- Whether an incident begins a new tally. -/
def Incident.renews : Incident → Bool
  | .move .resetTally => true
  | .reopen _ _ _ => true
  | _ => false

/-- Whether a caller begins to look a key up. A request without a key is refused. -/
def Incident.looks : Incident → Bool
  | .move (.arrive request) => !request.key.isEmpty
  | _ => false

namespace Service

/-- What an incident decides of how the lookup of a caller ends. -/
def fate? (service : Service) : Incident → Option (Nat × Ending)
  | .move move => service.crowd.fate? move
  | _ => none

/-- What a number of incidents decide of how lookups end. -/
def fates : Service → List Incident → List (Nat × Ending)
  | _, [] => []
  | service, incident :: later => (service.fate? incident).toList ++ fates (service.after incident) later

variable {service : Service} {first : Nat} {decided : List (Nat × Ending)}

theorem accounts_after (accounts : service.crowd.Accounts first decided) {incident : Incident}
    (kept : incident.renews = false) :
    (service.after incident).crowd.Accounts first (decided ++ (service.fate? incident).toList) := by
  cases incident with
  | move move =>
      refine accounts.move ?_
      rintro rfl
      cases kept
  | proceed index answer =>
      rw [fate?, Option.toList_none, List.append_nil, after]
      cases service.hydrations[index]? with
      | none => exact accounts
      | some hydration => exact accounts.keep rfl rfl
      rintro move ⟨⟩
  | reopen settings resolving describer => cases kept
  | edit disk => exact (List.append_nil decided).symm ▸ accounts.keep rfl rfl
  | make making => exact (List.append_nil decided).symm ▸ accounts
  | hydrate entry => exact (List.append_nil decided).symm ▸ accounts

theorem accounts_through (accounts : service.crowd.Accounts first decided) {incidents : List Incident}
    (kept : ∀ incident ∈ incidents, incident.renews = false) :
    (service.through incidents).crowd.Accounts first (decided ++ service.fates incidents) := by
  induction incidents generalizing service decided with
  | nil => simpa [fates, through] using accounts
  | cons incident later induction =>
      obtain ⟨kept_first, kept_later⟩ := List.forall_mem_cons.1 kept
      have rest := induction (accounts_after accounts kept_first) kept_later
      rw [List.append_assoc] at rest
      exact rest

/-- A caller comes with every lookup that begins, and none goes away. -/
theorem length_callers_move (crowd : Crowd) (move : Move) :
    (crowd.move move).callers.length = crowd.callers.length + (Incident.move move).looks.toNat := by
  cases move with
  | arrive request =>
      rw [Crowd.move, Incident.looks, Fault.checkKey]
      cases request.key.isEmpty <;> simp
  | turn turn =>
      rw [Crowd.move, Crowd.turn, Crowd.step]
      cases crowd.callers[turn.index]? <;> simp [Incident.looks]
  | putEntry entry =>
      rw [Crowd.move]
      cases crowd.store.putEntry entry <;> rfl
  | remove key =>
      rw [Crowd.move]
      cases crowd.store.remove key <;> rfl
  | clear recentOnly => rfl
  | rebuildIndex => rfl
  | resetTally => rfl

theorem length_callers_after (service : Service) {incident : Incident} (kept : incident.renews = false) :
    (service.after incident).crowd.callers.length =
      service.crowd.callers.length + incident.looks.toNat := by
  cases incident with
  | move move => exact length_callers_move service.crowd move
  | proceed index answer =>
      rw [after]
      cases service.hydrations[index]? <;> rfl
  | reopen settings resolving describer => cases kept
  | edit disk => rfl
  | make making => rfl
  | hydrate entry => rfl

theorem length_callers_through (service : Service) {incidents : List Incident}
    (kept : ∀ incident ∈ incidents, incident.renews = false) :
    (service.through incidents).crowd.callers.length =
      service.crowd.callers.length + incidents.countP Incident.looks := by
  induction incidents generalizing service with
  | nil => rfl
  | cons incident later induction =>
      obtain ⟨kept_first, kept_later⟩ := List.forall_mem_cons.1 kept
      have rest := induction (service.after incident) kept_later
      rw [length_callers_after service kept_first] at rest
      rw [List.countP_cons]
      refine rest.trans ?_
      cases incident.looks with
      | true => simp only [Bool.toNat_true, if_true]; omega
      | false => rfl

/-- The tally is new where a cache was opened, and after it was begun anew. -/
theorem tally_of_fresh {disk : Disk} {settings : Settings} {resolving : Bool} {describer : Option Describer}
    {store : Store} (opens : Store.opened disk settings resolving describer = .ok store)
    {earlier : List Incident} (fresh : earlier = [] ∨ earlier.getLast? = some (.move .resetTally)) :
    ((start store).through earlier).crowd.store.cache.tally = {} := by
  rcases fresh with rfl | last
  · exact congrArg Cache.tally (Store.opened_ok opens).2.2
  · obtain ⟨before, rfl⟩ := List.getLast?_eq_some_iff.1 last
    rw [through_append]
    rfl

/-- Lookups of any number of callers interleave in any order with each other, with all other calls and
with edits of the files. Whenever all of them are done, the tally accounts for every lookup that began
since the tally did, provided that none was under way then. -/
theorem tally_accounts {disk : Disk} {settings : Settings} {resolving : Bool}
    {describer : Option Describer} {store : Store}
    (opens : Store.opened disk settings resolving describer = .ok store) {earlier later : List Incident}
    (fresh : earlier = [] ∨ earlier.getLast? = some (.move .resetTally))
    (idle : ((start store).through earlier).crowd.isOver = true)
    (kept : ∀ incident ∈ later, incident.renews = false) (few : later.countP Incident.looks < 2 ^ 64)
    (settled : ((start store).through (earlier ++ later)).crowd.isOver = true) :
    let begun := (start store).through earlier
    let ended := (start store).through (earlier ++ later)
    let first := begun.crowd.callers.length
    let answers := ended.crowd.answers.drop first
    answers.length = later.countP Incident.looks ∧
      Crowd.Accounted first (begun.fates later) answers ended.crowd.store.cache.tally := by
  intro begun ended first answers
  have parts : ended = begun.through later := through_append _ earlier later
  have accounts : ended.crowd.Accounts first ([] ++ begun.fates later) := by
    rw [parts]
    exact accounts_through (Crowd.accounts_of_over idle (tally_of_fresh opens fresh)) kept
  have length : ended.crowd.callers.length = first + later.countP Incident.looks := by
    rw [parts]
    exact length_callers_through begun kept
  rw [List.nil_append] at accounts
  refine ⟨?_, accounts.accounted settled (by omega)⟩
  simp only [answers, Crowd.answers, List.length_drop, List.length_map]
  omega

/-- A store with a resolver and room for two entries, just opened on the bare disk. -/
def roomy : Store where
  disk := Store.small.disk
  cache := { Store.small.cache with recent := .empty 2, resolving := true }
  notices := []

theorem opened_roomy : Store.opened .bare ⟨2, "cache", true⟩ true none = .ok roomy := rfl

/-- The next steps of a number of callers. Whatever is asked for is found. -/
def turns (indices : List Nat) : List Incident :=
  indices.map fun index => .move (.turn ⟨index, .found ⟨1, .hidden⟩, .epoch⟩)

/-- A lookup of "x" that misses, and the tally is begun anew. -/
def prelude : List Incident := .move (.arrive ⟨"x", none, none⟩) :: turns [0, 0, 0] ++ [.move .resetTally]

/-- While a lookup of "k" has looked at tier 2, a lookup of "x" misses. While it asks its resolver, another
one makes "x" anew. After both, "k" is found in tier 1. -/
def nested : List Incident :=
  .move (.arrive ⟨"k", some ["p"], none⟩) :: turns [1, 1] ++
    .move (.arrive ⟨"x", none, none⟩) :: turns [2, 2, 2, 1, 1, 1] ++
    .move (.arrive ⟨"x", some [], none⟩) :: turns [3, 3, 3, 3, 3, 3, 3, 3, 1, 1, 1, 1] ++
    .move (.arrive ⟨"k", none, none⟩) :: turns [4]

theorem tally_accounts_nested :
    ((start roomy).through prelude).crowd.isOver = true ∧
      ((start roomy).through (prelude ++ nested)).crowd.isOver = true ∧
      Crowd.Accounted 1 [(2, .miss), (1, .rebuild), (3, .rebuild), (4, .recentHit)]
        (((start roomy).through (prelude ++ nested)).crowd.answers.drop 1)
        ((start roomy).through (prelude ++ nested)).crowd.store.cache.tally := by
  have idle : ((start roomy).through prelude).crowd.isOver = true := by decide +kernel
  have settled : ((start roomy).through (prelude ++ nested)).crowd.isOver = true := by decide +kernel
  have fates : ((start roomy).through prelude).fates nested =
      [(2, .miss), (1, .rebuild), (3, .rebuild), (4, .recentHit)] := by decide +kernel
  have kept : ∀ incident ∈ nested, incident.renews = false := by
    intro incident among
    exact beq_iff_eq.1 (List.all_eq_true.1 (show nested.all (·.renews == false) = true by decide)
      incident among)
  have accounted := (tally_accounts opened_roomy (.inr rfl) idle kept (by decide +kernel) settled).2
  rw [fates] at accounted
  exact ⟨idle, settled, accounted⟩

end Service

end TieredCache
