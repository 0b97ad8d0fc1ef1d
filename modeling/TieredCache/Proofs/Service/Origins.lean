import TieredCache.Proofs.Crowd.Endings
import TieredCache.Proofs.Lookup.Origins
import TieredCache.Proofs.Store.Opening

/-!
# Sound entries in a process

Whatever callers do, in whatever order, and however the files are edited meanwhile, an entry that a caller
holds is sound, and so is what the cache holds and answers. Artifacts come from callers and resolvers only.
-/

namespace TieredCache

variable {origins more : Artifacts}

/-! ## Crowds -/

/-- A written entry is in tier 1, and no flight is concerned. -/
theorem Store.Fit.written {store : Store} (fit : store.Fit origins) {entry : Entry}
    (sound : entry.Sound origins) : (store.written entry).Fit origins where
  slots := (store.cache.recent.shifts (.write entry.key entry)).fit fit.slots ⟨rfl, sound⟩
  flights key held landed := by
    refine fit.flights key held ?_
    rw [Store.written, Store.withRecent] at landed
    simp only at landed
    rw [(store.spillAll_frame _).1] at landed
    exact landed

namespace Crowd

/-- The store of a crowd fits, and so do the lookups of its callers. -/
structure Fit (origins : Artifacts) (crowd : Crowd) : Prop where
  store : crowd.store.Fit origins
  callers : ∀ caller ∈ crowd.callers, caller.lookup.Fits origins caller.request.key

variable {crowd : Crowd}

theorem Fit.mono (fit : crowd.Fit origins) (grows : origins ⊆ more) : crowd.Fit more :=
  ⟨fit.store.mono grows, fun caller among => (fit.callers caller among).mono grows⟩

theorem Fit.turn (fit : crowd.Fit origins) {turn : Turn}
    (came : turn.answer.brings (crowd.question? turn.index) ⊆ origins) : (crowd.turn turn).Fit origins := by
  cases stands : crowd.callers[turn.index]? with
  | none =>
      rw [Crowd.turn, step, stands]
      exact fit
  | some caller =>
      rw [question?, stands, Option.bind_some] at came
      obtain ⟨next, store⟩ :=
        (fit.callers caller (List.mem_of_getElem? stands)).step fit.store came turn.now
      rw [turn_of_caller turn stands]
      refine ⟨store, fun other among => ?_⟩
      obtain ⟨before, held, rfl⟩ := List.mem_map.1 among
      refine Lookup.Fits.receive ?_ store.flights
      rcases List.mem_or_eq_of_mem_set held with still | rfl
      · exact fit.callers before still
      · exact next

/-- A move leaves a crowd that fits, if what is put is sound and what is answered has come. -/
theorem Fit.move (fit : crowd.Fit origins) {move : Move}
    (put : ∀ entry, move = .putEntry entry → entry.Sound origins)
    (came : ∀ turn, move = .turn turn → turn.answer.brings (crowd.question? turn.index) ⊆ origins) :
    (crowd.move move).Fit origins := by
  cases move with
  | arrive request =>
      rw [Crowd.move]
      split
      · refine ⟨fit.store, fun caller among => ?_⟩
        rcases List.mem_append.1 among with before | new
        · exact fit.callers caller before
        · obtain rfl := List.mem_singleton.1 new
          trivial
      · exact fit
  | turn turn => exact fit.turn (came turn rfl)
  | putEntry entry =>
      rw [Crowd.move]
      cases empty : entry.key.isEmpty with
      | true =>
          rw [Store.putEntry_refused crowd.store empty]
          exact fit
      | false =>
          rw [Store.putEntry_eq empty]
          exact ⟨fit.store.written ((put entry rfl).described _), fit.callers⟩
  | remove key =>
      rw [Crowd.move, Store.remove, Fault.checkKey]
      cases key.isEmpty with
      | true => exact fit
      | false => exact ⟨⟨fit.store.slots.erase key, fit.store.flights⟩, fit.callers⟩
  | clear recentOnly =>
      have emptied : Keyed.Fit origins [] := List.forall_mem_nil _
      cases recentOnly <;> exact ⟨⟨emptied, fit.store.flights⟩, fit.callers⟩
  | rebuildIndex => exact ⟨⟨fit.store.slots, fit.store.flights⟩, fit.callers⟩
  | resetTally => exact ⟨⟨fit.store.slots, fit.store.flights⟩, fit.callers⟩

/-- What a caller is handed is sound. -/
theorem Fit.handed? (fit : crowd.Fit origins) {move : Move} {entry : Entry}
    (put : ∀ entry, move = .putEntry entry → entry.Sound origins)
    (came : ∀ turn, move = .turn turn → turn.answer.brings (crowd.question? turn.index) ⊆ origins)
    (handed : crowd.handed? move = some entry) : entry.Sound origins := by
  cases move with
  | turn turn =>
      obtain ⟨caller, stands, answered⟩ := Option.bind_eq_some_iff.1 (Option.join_eq_some_iff.1 handed)
      have fits := (fit.turn (came turn rfl)).callers caller (List.mem_of_getElem? stands)
      cases ended : caller.lookup with
      | done answer =>
          rw [ended] at answered fits
          exact (fits entry (Option.some.inj answered)).sound
      | _ =>
          rw [ended] at answered
          cases answered
  | putEntry given =>
      rw [Crowd.handed?] at handed
      cases empty : given.key.isEmpty with
      | true =>
          rw [Store.putEntry_refused crowd.store empty] at handed
          cases handed
      | false =>
          rw [Store.putEntry_eq empty] at handed
          obtain rfl := Option.some.inj handed
          exact (put given rfl).described _
  | _ => cases handed

end Crowd

/-! ## Processes -/

/-- Whatever a caller makes of a sound entry is sound. -/
theorem Making.sound {making : Making} {entry : Entry}
    (source : ∀ entry ∈ making.source?, entry.Sound origins)
    (came : ∀ entry artifacts, making = .withArtifacts entry artifacts → artifacts ⊆ origins)
    (made : making.entry? = some entry) : entry.Sound origins := by
  cases making with
  | new key paths now =>
      obtain rfl := Option.some.inj made
      exact Entry.sound_of_bare rfl
  | decoded bytes => exact Entry.sound_of_read? made
  | withParams other params =>
      obtain rfl := Option.some.inj made
      exact ⟨(source other rfl).hydrated, (source other rfl).sourced⟩
  | withTags other tags =>
      obtain rfl := Option.some.inj made
      exact ⟨(source other rfl).hydrated, (source other rfl).sourced⟩
  | withArtifacts other artifacts =>
      obtain rfl := Option.some.inj made
      exact Entry.sound_withArtifacts (came other artifacts rfl)

namespace Service

/-- The cache fits, and what its callers hold and hydrate is sound. -/
structure Fit (origins : Artifacts) (service : Service) : Prop where
  crowd : service.crowd.Fit origins
  held : ∀ entry ∈ service.held, entry.Sound origins
  hydrations : ∀ hydration ∈ service.hydrations, hydration.Sound origins

variable {service : Service}

theorem Fit.mono (fit : service.Fit origins) (grows : origins ⊆ more) : service.Fit more :=
  ⟨fit.crowd.mono grows, fun entry among => (fit.held entry among).mono grows,
    fun hydration among => (fit.hydrations hydration among).mono grows⟩

/-- Nothing that is sound depends on the disk. -/
theorem Fit.withDisk (fit : service.Fit origins) (disk : Disk) : (service.withDisk disk).Fit origins :=
  ⟨⟨⟨fit.crowd.store.slots, fit.crowd.store.flights⟩, fit.crowd.callers⟩, fit.held, fit.hydrations⟩

/-- What comes to be held besides what was held. -/
theorem Fit.held_append (fit : service.Fit origins) {given : Option Entry}
    (sound : ∀ entry, given = some entry → entry.Sound origins) :
    ∀ entry ∈ service.held ++ given.toList, entry.Sound origins := by
  intro entry among
  rcases List.mem_append.1 among with before | new
  · exact fit.held entry before
  · exact sound entry (Option.mem_toList.1 new)

theorem fit_new (origins : Artifacts) (disk : Disk) (settings : Settings) (archive : Archive)
    (resolving : Bool) (describer : Option Describer) (notices : List Notice) :
    Crowd.Fit origins ⟨⟨disk, Store.newCache settings archive resolving describer, notices⟩, []⟩ :=
  ⟨⟨List.forall_mem_nil _, fun _ _ landed => nomatch landed⟩, List.forall_mem_nil _⟩

/-- An incident for which callers use what they hold leaves a process that fits, with what it brings. -/
theorem Fit.after (fit : service.Fit origins) {incident : Incident}
    (needs : ∀ entry ∈ incident.needs?, entry ∈ service.held)
    (came : service.brings incident ⊆ origins) : (service.after incident).Fit origins := by
  have needed : ∀ entry ∈ incident.needs?, entry.Sound origins := fun entry need =>
    fit.held entry (needs entry need)
  cases incident with
  | move move =>
      have put : ∀ entry, move = .putEntry entry → entry.Sound origins := by
        rintro entry rfl
        exact needed entry rfl
      have answered : ∀ turn, move = .turn turn →
          turn.answer.brings (service.crowd.question? turn.index) ⊆ origins := by
        rintro turn rfl
        exact came
      exact ⟨fit.crowd.move put answered, fit.held_append fun entry handed =>
        fit.crowd.handed? put answered handed, fit.hydrations⟩
  | edit disk => exact fit.withDisk disk
  | make making =>
      refine ⟨fit.crowd, fit.held_append fun entry made => making.sound needed ?_ made, fit.hydrations⟩
      rintro entry artifacts rfl
      exact came
  | hydrate entry =>
      refine ⟨fit.crowd, fit.held, fun hydration among => ?_⟩
      rcases List.mem_append.1 among with before | new
      · exact fit.hydrations hydration before
      · obtain rfl := List.mem_singleton.1 new
        exact Hydration.sound_begin _ (needed entry rfl) none
  | proceed index answer =>
      rw [Service.after]
      cases stands : service.hydrations[index]? with
      | none => exact fit
      | some hydration =>
          have asked : service.question? index = hydration.question? := by
            rw [Service.question?, stands]
            rfl
          have next : (hydration.step answer).1.Sound origins := by
            refine (fit.hydrations hydration (List.mem_of_getElem? stands)).step ?_
            rw [← asked]
            exact came
          refine ⟨⟨⟨fit.crowd.store.slots, fit.crowd.store.flights⟩, fit.crowd.callers⟩,
            fit.held_append fun entry ended => next.result? ended, fun other among => ?_⟩
          rcases List.mem_or_eq_of_mem_set among with before | rfl
          · exact fit.hydrations other before
          · exact next
  | reopen settings resolving describer =>
      rw [Service.after]
      split
      · rename_i disk notices cache made
        obtain ⟨_, _, rfl⟩ := Store.establish_ok made
        exact ⟨fit_new .., fit.held, List.forall_mem_nil _⟩
      · exact fit.withDisk _

/-- Whatever happens, the process fits with what has been brought. -/
theorem Fit.through (fit : service.Fit origins) {incidents : List Incident}
    (admits : service.Admits incidents) :
    (service.through incidents).Fit (origins ++ service.brought incidents) := by
  induction incidents generalizing service origins with
  | nil => exact fit.mono (List.subset_append_left _ _)
  | cons incident later induction =>
      obtain ⟨needs, admits_later⟩ := admits
      have here : (service.after incident).Fit (origins ++ service.brings incident) :=
        (fit.mono (List.subset_append_left _ _)).after needs (List.subset_append_right _ _)
      have rest := induction here admits_later
      rw [List.append_assoc] at rest
      exact rest

/-- A process that has just opened its cache fits, though nothing has been brought. -/
theorem fit_start {disk : Disk} {settings : Settings} {resolving : Bool} {describer : Option Describer}
    {store : Store} (opens : Store.opened disk settings resolving describer = .ok store) :
    (start store).Fit [] := by
  obtain ⟨_, _, cache⟩ := Store.opened_ok opens
  refine ⟨?_, List.forall_mem_nil _, List.forall_mem_nil _⟩
  obtain ⟨disk, held, notices⟩ := store
  obtain rfl : held = _ := cache
  exact fit_new ..

end Service

end TieredCache
