import TieredCache.Proofs.Archive.Reach
import TieredCache.Proofs.Service.Endings
import TieredCache.Proofs.Service.Origins

/-!
# The files that a process writes

An operation of a cache writes the index, and the records of entries that it evicts from tier 1, and it
leaves no other file that was not there before. Each of these records is filed under the name of its key.
-/

namespace TieredCache

open Archive

namespace Store

/-- An operation has deleted files, written the index, and filed entries that tier 1 held. -/
structure Files (before after : Store) : Prop where
  root : after.cache.archive.root = before.cache.archive.root
  touches : ∃ effects, after.disk = before.disk.perform effects ∧
    before.cache.archive.Touches before.disk (fun _ => True)
      (fun key entry => (key, entry) ∈ before.cache.recent.slots) effects

variable {store before after : Store}

theorem files_of_eq (disk : after.disk = before.disk) (archive : after.cache.archive = before.cache.archive) :
    before.Files after :=
  ⟨congrArg Archive.root archive, [], disk, .nil⟩

/-- An operation on the archive that keeps nothing files nothing. -/
theorem files_of_touches {deletes : String → Prop} {effects : List Effect}
    (root : after.cache.archive.root = before.cache.archive.root)
    (disk : after.disk = before.disk.perform effects)
    (touches : before.cache.archive.Touches before.disk deletes (fun _ _ => False) effects) :
    before.Files after :=
  ⟨root, effects, disk, touches.mono (fun _ _ => trivial) fun _ _ => False.elim⟩

theorem touches_spillAll (store : Store) (evicted : Keyed Entry) :
    ∃ effects, (store.spillAll evicted).disk = store.disk.perform effects ∧
      store.cache.archive.Touches store.disk nothing (fun key entry => (key, entry) ∈ evicted) effects := by
  induction evicted generalizing store with
  | nil => exact ⟨[], rfl, .nil⟩
  | cons pair evicted induction =>
      obtain ⟨key, entry⟩ := pair
      obtain ⟨effects, disk, touches⟩ :=
        induction (store.carryOut (store.cache.archive.spill store.disk key entry))
      have first := touches_spill store.cache.archive store.disk key entry
      refine ⟨_ ++ effects, disk.trans (Disk.perform_append _ _ _).symm, Touches.append ?_ ?_
        (store.cache.archive.spill_frame store.disk key entry).1⟩
      · refine first.mono (fun _ => id) ?_
        rintro _ _ ⟨rfl, rfl⟩
        exact List.mem_cons_self
      · exact touches.mono (fun _ => id) fun _ _ among => List.mem_cons_of_mem _ among

/-- What leaves tier 1 for a use that it is put to is filed. -/
theorem files_spillAll (store : Store) (use : Use) :
    store.Files (store.spillAll (store.cache.recent.evicted use)) := by
  obtain ⟨effects, disk, touches⟩ := store.touches_spillAll (store.cache.recent.evicted use)
  obtain ⟨_, root, _⟩ := store.spillAll_frame (store.cache.recent.evicted use)
  exact ⟨root, effects, disk, touches.mono (fun _ => False.elim) fun _ _ among =>
    (store.cache.recent.shifts use).evicted_subset among⟩

/-- A change of the cache that its archive has no part in adds nothing. -/
theorem Files.congr {later : Store} (files : before.Files after) (disk : later.disk = after.disk)
    (archive : later.cache.archive = after.cache.archive) : before.Files later := by
  obtain ⟨effects, performed, touches⟩ := files.touches
  exact ⟨(congrArg Archive.root archive).trans files.root, effects, disk.trans performed, touches⟩

theorem files_settle (store : Store) (key : String) (verdict : Verdict) :
    store.Files (store.carryOut (store.cache.archive.settle store.disk key verdict)) :=
  files_of_touches (root_settle store.cache.archive store.disk key verdict) rfl
    (touches_settle store.cache.archive store.disk key verdict)

theorem files_step (store : Store) (request : Request) (lookup : Lookup) (answer : Answer)
    (now : Moment) : store.Files (lookup.step request answer now store).2 := by
  cases lookup with
  | begun =>
      rw [Lookup.step]
      split
      · rw [Lookup.ofRecent_eq]
        exact files_of_eq rfl rfl
      · exact files_of_eq rfl rfl
  | missed => exact files_of_eq rfl rfl
  | judged verdict =>
      have settled := store.files_settle request.key verdict
      simp only [Lookup.step]
      split
      · exact settled.congr rfl rfl
      · obtain ⟨_, alike⟩ := Lookup.ofPaths_spec request
          (store.carryOut (store.cache.archive.settle store.disk request.key verdict))
        exact settled.congr alike.disk alike.archive
  | joining paths =>
      rw [Lookup.step, Lookup.join]
      split <;> exact files_of_eq rfl rfl
  | waiting => exact files_of_eq rfl rfl
  | leading paths =>
      rw [Lookup.step, Lookup.lead]
      split <;> exact files_of_eq rfl rfl
  | hydrating aim hydration =>
      cases hydration with
      | running entry pending deadline => cases aim <;> exact files_of_eq rfl rfl
      | finished found copy =>
          cases aim with
          | refresh => exact files_of_eq rfl rfl
          | promote => exact (store.files_spillAll (.offer request.key copy now)).congr rfl rfl
          | seed => exact (store.files_spillAll (.offer request.key (copy.touch now) now)).congr rfl rfl
  | landing entry => exact files_of_eq rfl rfl
  | done given => exact files_of_eq rfl rfl

end Store

/-- A move deletes files, writes the index, and files entries that tier 1 held. -/
theorem Crowd.files_move (crowd : Crowd) (move : Move) : crowd.store.Files (crowd.move move).store := by
  cases move with
  | arrive request =>
      rw [Crowd.move]
      split <;> exact Store.files_of_eq rfl rfl
  | turn turn =>
      rw [Crowd.move]
      cases stands : crowd.callers[turn.index]? with
      | none =>
          rw [Crowd.turn, step, stands]
          exact Store.files_of_eq rfl rfl
      | some caller =>
          rw [turn_of_caller turn stands]
          exact crowd.store.files_step caller.request caller.lookup turn.answer turn.now
  | putEntry entry =>
      rw [Crowd.move]
      cases empty : entry.key.isEmpty with
      | true =>
          rw [Store.putEntry_refused crowd.store empty]
          exact Store.files_of_eq rfl rfl
      | false =>
          rw [Store.putEntry_eq empty]
          let written := Store.described crowd.store.cache entry
          exact (crowd.store.files_spillAll (.write written.key written)).congr rfl rfl
  | remove key =>
      rw [Crowd.move, Store.remove, Fault.checkKey]
      cases key.isEmpty with
      | true => exact Store.files_of_eq rfl rfl
      | false =>
          have root : (crowd.store.cache.archive.remove crowd.store.disk key).archive.root =
              crowd.store.cache.archive.root := by
            rw [archive_remove]
          exact Store.files_of_touches root rfl
            (touches_remove crowd.store.cache.archive crowd.store.disk key)
  | clear recentOnly =>
      cases recentOnly with
      | true => exact Store.files_of_eq rfl rfl
      | false => exact Store.files_of_touches rfl rfl (touches_clear _ _)
  | rebuildIndex =>
      exact Store.files_of_touches rfl rfl (@touches_rebuild (fun _ => False) _ _ _)
  | resetTally => exact Store.files_of_eq rfl rfl

/-- What an operation leaves is a file that was there before, the index, or a record of tier 1. -/
theorem Store.Files.writes {before after : Store} (files : before.Files after) {path : Path} {bytes : Bytes}
    (standing : after.disk.node? path = some (.file bytes)) :
    before.disk.node? path = some (.file bytes) ∨
      Writes after.cache.archive.root after.disk
        (fun key entry => (key, entry) ∈ before.cache.recent.slots) path bytes := by
  obtain ⟨effects, disk, touches⟩ := files.touches
  rw [files.root, disk]
  exact touches.writes (disk ▸ standing)

/-- A cache that cannot be opened leaves no file that was not there before. -/
theorem Store.files_of_establish_error {disk after : Disk} {settings : Settings} {resolving : Bool}
    {describer : Option Describer} {notices : List Notice} {fault : Fault}
    (refused : establish disk settings resolving describer = (after, notices, .error fault)) {path : Path}
    {bytes : Bytes} (standing : after.node? path = some (.file bytes)) :
    disk.node? path = some (.file bytes) := by
  unfold establish at refused
  split at refused
  · cases refused
    exact standing
  · dsimp only at refused
    split at refused
    · cases refused
    · rename_i answer
      cases refused
      exact files_of_refused (Bool.eq_false_iff.2 answer) standing

namespace Service

variable {service : Service} {path : Path} {bytes : Bytes} {keeps : String → Entry → Prop}

/-- Opening anew writes no record. -/
theorem writes_reopen (settings : Settings) (resolving : Bool) (describer : Option Describer)
    (standing : (service.after (.reopen settings resolving describer)).crowd.store.disk.node? path =
      some (.file bytes)) :
    service.crowd.store.disk.node? path = some (.file bytes) ∨
      Writes (service.after (.reopen settings resolving describer)).crowd.store.cache.archive.root
        (service.after (.reopen settings resolving describer)).crowd.store.disk keeps path bytes := by
  rw [Service.after] at standing ⊢
  split at standing
  · rename_i disk notices cache made
    obtain ⟨answer, rfl, rfl⟩ := Store.establish_ok made
    obtain ⟨middle, files, _, archive, performed⟩ := establish_reach answer
    obtain ⟨root, touches⟩ :=
      @recover_reach (fun _ => True) keeps ⟨Route.join [] settings.directory, []⟩ middle
    simp only [Store.newCache, archive, root, performed] at standing ⊢
    exact (touches.writes standing).imp_left (files path bytes)
  · rename_i refused
    exact .inl (Store.files_of_establish_error refused standing)

/-- What an incident leaves that is no edit by others is a file that was there before, the index, or the
record of an entry that tier 1 held. -/
theorem writes_after (service : Service) {incident : Incident} (own : ∀ disk, incident ≠ .edit disk)
    (standing : (service.after incident).crowd.store.disk.node? path = some (.file bytes)) :
    service.crowd.store.disk.node? path = some (.file bytes) ∨
      Writes (service.after incident).crowd.store.cache.archive.root
        (service.after incident).crowd.store.disk
        (fun key entry => (key, entry) ∈ service.crowd.store.cache.recent.slots) path bytes := by
  cases incident with
  | move move => exact (service.crowd.files_move move).writes standing
  | edit disk => exact absurd rfl (own disk)
  | make making => exact .inl standing
  | hydrate entry => exact .inl standing
  | proceed index answer =>
      rw [Service.after] at standing
      split at standing
      · exact .inl standing
      · exact .inl standing
  | reopen settings resolving describer => exact writes_reopen settings resolving describer standing

/-- Callers interleave in any order with each other and with edits of the files. Whatever tier 1 holds
under a key, and whatever a lookup of the key answers, is an entry of the key. It counts as hydrated if it
has artifacts, and each of these was brought by a caller, or is what a resolver has answered for the same
path. A record that is written holds the key of its entry and is filed under the name of the key. -/
theorem well_formed {disk : Disk} {settings : Settings} {resolving : Bool} {describer : Option Describer}
    {store : Store} (opens : Store.opened disk settings resolving describer = .ok store)
    {incidents : List Incident} (admits : (start store).Admits incidents) :
    let origins := (start store).brought incidents
    let service := (start store).through incidents
    (∀ key entry, (key, entry) ∈ service.crowd.store.cache.recent.slots → entry.Fits origins key) ∧
    (∀ caller ∈ service.crowd.callers, ∀ entry, caller.lookup.answer? = some (some entry) →
      entry.Fits origins caller.request.key) ∧
    (∀ entry ∈ service.held, entry.Sound origins) ∧
    ∀ incident path bytes, (∀ disk, incident ≠ .edit disk) →
      (service.after incident).crowd.store.disk.node? path = some (.file bytes) →
      service.crowd.store.disk.node? path = some (.file bytes) ∨
        Writes (service.after incident).crowd.store.cache.archive.root
          (service.after incident).crowd.store.disk
          (fun key entry => (key, entry) ∈ service.crowd.store.cache.recent.slots ∧ entry.key = key ∧
            embeddedKey? entry.record = some key) path bytes := by
  intro origins service
  have fit : service.Fit origins := (fit_start opens).through admits
  refine ⟨fun key entry among => fit.crowd.store.slots (key, entry) among,
    fun caller among entry answered => ?_, fit.held, fun incident path bytes own standing => ?_⟩
  · have fits := fit.crowd.callers caller among
    cases ended : caller.lookup with
    | done answer =>
        rw [ended] at answered fits
        exact fits entry (Option.some.inj answered)
    | _ =>
        rw [ended] at answered
        cases answered
  · refine (writes_after service own standing).imp_right fun writes => writes.mono fun key entry among => ?_
    obtain rfl : entry.key = key := (fit.crowd.store.slots (key, entry) among).own
    exact ⟨among, rfl, embeddedKey?_record entry⟩

/-- An entry of a caller, which brings an artifact of its own. -/
def guest : Entry := (Entry.new "x" [] .epoch).withArtifacts [("q", ⟨7, .hidden⟩)]

/-- A caller makes that entry and puts it. Another one looks "k" up, and its path "p" is resolved. -/
def visit : List Incident :=
  .make (.new "x" [] .epoch) :: .make (.withArtifacts (.new "x" [] .epoch) [("q", ⟨7, .hidden⟩)]) ::
    .move (.putEntry guest) :: .move (.arrive ⟨"k", some ["p"], none⟩) ::
    turns [0, 0, 0, 0, 0, 0, 0, 0, 0]

theorem admits_turns (service : Service) (indices : List Nat) : service.Admits (turns indices) := by
  induction indices generalizing service with
  | nil => trivial
  | cons index later induction => exact ⟨fun entry need => (nomatch need), induction _⟩

theorem admits_visit : (start roomy).Admits visit := by
  refine ⟨fun entry need => (nomatch need), ?_, ?_, fun entry need => (nomatch need), admits_turns _ _⟩
  · rintro entry ⟨⟩
    exact List.mem_singleton_self _
  · rintro entry ⟨⟩
    exact List.mem_cons_of_mem _ (List.mem_singleton_self _)

theorem well_formed_visit :
    (start roomy).Admits visit ∧
      (start roomy).brought visit = [("q", ⟨7, .hidden⟩), ("p", ⟨1, .hidden⟩)] ∧
      ((start roomy).through visit).crowd.store.cache.recent.keys = ["x", "k"] ∧
      ∀ key entry, (key, entry) ∈ ((start roomy).through visit).crowd.store.cache.recent.slots →
        entry.Fits [("q", ⟨7, .hidden⟩), ("p", ⟨1, .hidden⟩)] key := by
  have origins : (start roomy).brought visit = [("q", ⟨7, .hidden⟩), ("p", ⟨1, .hidden⟩)] := by
    decide +kernel
  have slots := (well_formed opened_roomy admits_visit).1
  rw [origins] at slots
  exact ⟨admits_visit, origins, by decide +kernel, slots⟩

end Service

end TieredCache
