import TieredCache.Proofs.Lookup.Stages

/-!
# A put during a lookup

Whether the entry that another caller puts during a lookup is found afterwards. `Run.put_wins_iff`
tells it from the own steps of the lookup, which may override what is held of the key.
-/

namespace TieredCache

namespace Run

variable {σ : Type} {known : String → Prop} {home : Path} {request : Request} {setup : Store.Setup}
  {run : Run σ} {content : Content} {held : Option Content}

/-- What the own steps of a lookup put in place of all that is held of its key, along a schedule. -/
def overrides (resolve : Resolver σ) (request : Request) :
    Run σ → List Event → List (Option Content)
  | _, [] => []
  | run, .step answer now :: later =>
    (run.lookup.override? (run.store.share request.key)).toList ++
      overrides resolve request (run.after resolve request (.step answer now)) later
  | run, .call made now :: later =>
    overrides resolve request (run.after resolve request (.call made now)) later

/-- None of the calls of a schedule writes, removes or clears a key. -/
def LeavesAlone (key : String) (events : List Event) : Prop :=
  ∀ event ∈ events, ∀ made ∈ event.call?, made.changes key = false

theorem getD_getLast?_append {α : Type} (first last : List α) (value : α) :
    (first ++ last).getLast?.getD value = last.getLast?.getD (first.getLast?.getD value) := by
  rw [List.getLast?_append]
  cases last.getLast? <;> rfl

theorem getD_getLast?_toList {α : Type} (given : Option α) (value : α) :
    given.toList.getLast?.getD value = given.getD value := by
  cases given <;> rfl

/-- What is held of the key in the end is what was put, or what last overrode it. -/
theorem stage_through (distinct : DistinctNames known) (key_known : known request.key)
    (nonempty : request.key.isEmpty = false) (resolve : Resolver σ) {events : List Event}
    (sound : run.Sound known home request setup)
    (stage : Lookup.Stage request.key content run.lookup (run.store.share request.key) held)
    (admits : run.Admits resolve request events) (knows : Knows known events)
    (alone : LeavesAlone request.key events) :
    Lookup.Stage request.key content (run.through resolve request events).lookup
      ((run.through resolve request events).store.share request.key)
      ((run.overrides resolve request events).getLast?.getD held) := by
  induction events generalizing run held with
  | nil => exact stage
  | cons event later induction =>
      obtain ⟨now_admits, later_admits⟩ := admits
      obtain ⟨now_known, later_known⟩ := List.forall_mem_cons.1 knows
      obtain ⟨now_alone, later_alone⟩ := List.forall_mem_cons.1 alone
      have after_sound := sound.after distinct key_known nonempty resolve now_admits now_known
      cases event with
      | step answer now =>
          have simulates := sound.simulates distinct key_known resolve answer now
          have after_stage := @Lookup.Stage.step setup request now _ _ _ _ _ stage sound.aligned answer
            run.store.cache.recent.nextStamp
          rw [← simulates.lookup, ← simulates.share] at after_stage
          rw [overrides, getD_getLast?_append, getD_getLast?_toList]
          exact induction after_sound after_stage later_admits later_known later_alone
      | call made now =>
          have serves := Store.serves_call distinct sound.tidy (now_known made rfl) resolve run.state now
          have after_stage := stage.call now_admits sound.aligned
            (serves.shares request.key nonempty) (now_alone made rfl)
          exact induction after_sound after_stage later_admits later_known later_alone

end Run

namespace Store

variable {known : String → Prop} {home : Path} {store : Store} {request : Request}

/-- Every lookup of a key finds an entry with the given content. -/
def Gives (store : Store) (key : String) (content : Content) : Prop :=
  ∀ (paths : Option (List String)) (deadline : Option Nat) {σ : Type} (resolve : Resolver σ) (state : σ)
    (now : Moment), ∃ entry after later,
      store.get resolve state ⟨key, paths, deadline⟩ now = .ok (some entry, after, later) ∧
        entry.content = content

/-- Every lookup of a key without paths misses. -/
def Misses (store : Store) (key : String) : Prop :=
  ∀ (deadline : Option Nat) {σ : Type} (resolve : Resolver σ) (state : σ) (now : Moment),
    ∃ after later, store.get resolve state ⟨key, none, deadline⟩ now = .ok (none, after, later)

theorem gives_of_held? (distinct : DistinctNames known) (tidy : store.Tidy known home) {key : String}
    (key_known : known key) (nonempty : key.isEmpty = false) {entry : Entry}
    (found : (store.share key).held? key = some entry) : store.Gives key entry.content := by
  intro paths deadline σ resolve state now
  obtain ⟨_, finds⟩ := @Run.whole_spec _ _ _ ⟨key, paths, deadline⟩ now _ resolve distinct tidy
    key_known state
  obtain ⟨given, _, answer, stored, _⟩ := finds.of_held? found
  have same : given.content = (entry.touch now).content := Entry.content_eq_of_stored stored
  refine ⟨given, (Run.whole resolve ⟨key, paths, deadline⟩ now store state).store,
    (Run.whole resolve ⟨key, paths, deadline⟩ now store state).state, ?_, same⟩
  rw [get_eq store resolve state now nonempty, answer]

theorem misses_of_held? (distinct : DistinctNames known) (atRest : store.AtRest known home)
    {key : String} (key_known : known key) (nonempty : key.isEmpty = false)
    (nothing : (store.share key).held? key = none) : store.Misses key := by
  intro deadline σ resolve state now
  obtain ⟨_, finds⟩ := @Run.whole_spec _ _ _ ⟨key, none, deadline⟩ now _ resolve distinct atRest.tidy
    key_known state
  have not_landed : ∀ entry, (store.share key).flight ≠ some (.landed entry) := by
    intro entry landed
    rw [atRest.rest key nonempty] at landed
    cases landed
  obtain ⟨answer, _⟩ := finds.eq_none nothing (Or.inl rfl) not_landed
  refine ⟨(Run.whole resolve ⟨key, none, deadline⟩ now store state).store,
    (Run.whole resolve ⟨key, none, deadline⟩ now store state).state, ?_⟩
  rw [get_eq store resolve state now nonempty, answer]

/-- A lookup of a key at rest finds a content just when the two tiers together hold it. -/
theorem gives_iff (distinct : DistinctNames known) (atRest : store.AtRest known home) {key : String}
    (key_known : known key) (nonempty : key.isEmpty = false) (content : Content) :
    store.Gives key content ↔ ((store.share key).held? key).map Entry.content = some content := by
  constructor
  · intro gives
    obtain ⟨entry, after, later, found, same⟩ :=
      gives none none (fun (state : Unit) _ => (.unknown, state)) () .epoch
    cases held : (store.share key).held? key with
    | none =>
        obtain ⟨_, _, missed⟩ := misses_of_held? distinct atRest key_known nonempty held none
          (fun (state : Unit) _ => (.unknown, state)) () .epoch
        rw [found] at missed
        cases missed
    | some other =>
        obtain ⟨given, _, _, given_found, given_same⟩ := gives_of_held? distinct atRest.tidy key_known
          nonempty held none none (fun (state : Unit) _ => (.unknown, state)) () .epoch
        rw [found] at given_found
        cases given_found
        rw [Option.map_some, ← given_same, same]
  · intro held
    obtain ⟨entry, found, rfl⟩ := Option.map_eq_some_iff.1 held
    exact gives_of_held? distinct atRest.tidy key_known nonempty found

end Store

namespace Overlap

variable {σ : Type} {known : String → Prop} {home : Path} {overlap : Overlap σ}

/-- An entry that another caller puts is held of the key. -/
theorem Proper.stage_put (distinct : DistinctNames known) (proper : overlap.Proper known home)
    {paths : List String} {params : Params} (durable : params.Durable)
    (put : overlap.made = .put overlap.request.key paths params) :
    Lookup.Stage overlap.request.key ⟨paths, params⟩ overlap.parting.lookup
      (overlap.parting.store.share overlap.request.key) (some ⟨paths, params⟩) := by
  have sound := proper.sound_meeting distinct
  have serves := Store.serves_call distinct sound.tidy proper.knows_later.1 overlap.resolve
    overlap.meeting.state overlap.now
  have undergoes := serves.shares overlap.request.key proper.nonempty
  rw [put] at undergoes
  obtain ⟨entry, slot, own, paths_eq, params_eq⟩ := undergoes.of_put
  rw [← put] at slot
  refine .kept (Share.held?_of_slot slot overlap.request.key) own ?_ (by rw [params_eq]; exact durable)
  rw [Entry.content, paths_eq, params_eq]

/-- What another caller puts during a lookup, and which nobody else then changes, is found after the
lookup just when no own step of the lookup has overridden it, or the last one that has brought the
same. -/
theorem put_wins_iff (distinct : DistinctNames known) (proper : overlap.Proper known home)
    {paths : List String} {params : Params} (durable : params.Durable)
    (put : overlap.made = .put overlap.request.key paths params)
    (alone : Run.LeavesAlone overlap.request.key overlap.later) :
    overlap.final.store.Gives overlap.request.key ⟨paths, params⟩ ↔
      ∀ brought ∈ (overlap.parting.overrides overlap.resolve overlap.request overlap.later).getLast?,
        brought = some ⟨paths, params⟩ := by
  have stage := Run.stage_through distinct proper.key_known proper.nonempty overlap.resolve
    (proper.sound_parting distinct) (proper.stage_put distinct durable put) proper.admits_later.2
    proper.knows_later.2 alone
  rw [← overlap.final_eq] at stage
  rw [Store.gives_iff distinct (proper.atRest distinct) proper.key_known proper.nonempty,
    stage.held_eq]
  cases (overlap.parting.overrides overlap.resolve overlap.request overlap.later).getLast? with
  | none => simp
  | some brought => simp

/-- While the record of "k" is in hand, "k" is put anew and evicted again by "x". -/
def evictedPut : Overlap Unit where
  store := .crowded
  resolve := silent
  state := ()
  request := ⟨"k", none, none⟩
  before := [.step .unknown .epoch, .step .unknown .epoch]
  made := .put "k" ["new"] .empty
  now := .epoch
  later := [.call (.put "x" [] .empty) .epoch, .step .unknown .epoch, .step .unknown .epoch]

theorem proper_evictedPut : evictedPut.Proper twoKeys ["cache"] where
  reachable := Store.reachable_crowded
  key_known := Or.inl rfl
  nonempty := rfl
  knows := by
    simp only [Run.Knows, events, evictedPut, List.cons_append, List.nil_append,
      List.forall_mem_cons, Event.call?, Option.mem_def, Option.some.injEq, forall_eq', Call.key?]
    simp [twoKeys]
  admits := by decide +kernel
  ended := by decide +kernel

/-- Tier 1 does not hold "k" when the lookup brings its copy of the old record, and the put is lost. -/
theorem put_loses_when_evicted : ¬ evictedPut.final.store.Gives "k" ⟨["new"], .empty⟩ := by
  have alone : Run.LeavesAlone "k" evictedPut.later := by
    simp [Run.LeavesAlone, evictedPut, Event.call?, Call.changes]
  have iff := put_wins_iff distinct_twoKeys proper_evictedPut Params.durable_empty rfl alone
  have brings : (evictedPut.parting.overrides silent evictedPut.request
      evictedPut.later).getLast?.map (Option.map Content.paths) = some (some ["old"]) := by
    decide +kernel
  obtain ⟨brought, last, paths⟩ := Option.map_eq_some_iff.1 brings
  intro gives
  rw [iff.1 gives brought last] at paths
  simp at paths

end Overlap

end TieredCache
