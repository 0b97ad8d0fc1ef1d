import TieredCache.Overlap
import TieredCache.Proofs.Calls.Shares
import TieredCache.Proofs.Store.Opening

/-!
# What overlapped lookups keep

However the calls of other callers fall, the store stays tidy and the lookup has the flight of its key
that its phase asks for. `Store.Reachable` are the stores that opening, calls, lookups that were
overlapped and opening again lead to.
-/

namespace TieredCache

/-! ## Flights -/

namespace Lookup

/-- The flight of the key is there while the lookup makes the entry, and else there is none. -/
def Aligned : Lookup → Option Flight → Prop
  | .leading _, flight => flight = some .aloft
  | .hydrating .seed _, flight => flight = some .aloft
  | .landing _, flight => ∃ entry, flight = some (.landed entry)
  | .waiting, _ => False
  | _, flight => flight = none

variable {setup : Store.Setup} {request : Request} {now : Moment} {share : Share}

theorem aligned_afterSlot (entry : Entry) (flight : share.flight = none) :
    (afterSlot setup request entry).Aligned share.flight := by
  unfold afterSlot
  split <;> exact flight

theorem aligned_afterMiss (flight : share.flight = none) :
    (afterMiss setup request).Aligned share.flight := by
  unfold afterMiss
  split
  · split <;> exact flight
  · exact flight

/-- An own step of the lookup takes the flight along. -/
theorem Aligned.stepOn {lookup : Lookup} (aligned : lookup.Aligned share.flight) (answer : Answer)
    (stamp : UInt64) :
    (lookup.stepOn setup request answer now stamp share).1.Aligned
      (lookup.stepOn setup request answer now stamp share).2.flight := by
  cases lookup with
  | begun =>
      simp only [Lookup.stepOn]
      split
      · exact aligned_afterSlot _ aligned
      · exact aligned
  | missed => exact aligned
  | judged verdict =>
      have flight : (if verdict.purges then share.withShelf none else share).flight = none := by
        split <;> exact aligned
      simp only [Lookup.stepOn, afterVerdict]
      split
      · exact flight
      · exact aligned_afterMiss flight
  | joining paths =>
      have flight : share.flight = none := aligned
      simp only [Lookup.stepOn, flight]
      rfl
  | waiting => exact aligned.elim
  | leading paths =>
      simp only [Lookup.stepOn]
      split
      · exact ⟨_, rfl⟩
      · exact aligned
  | hydrating aim hydration =>
      cases hydration with
      | running entry pending deadline => cases aim <;> exact aligned
      | finished found copy =>
          cases aim with
          | refresh =>
              have flight : (share.adopt copy).flight = share.flight := by
                unfold Share.adopt
                split
                · split <;> rfl
                · rfl
              exact flight.trans aligned
          | promote =>
              exact (share.flight_offer copy now stamp).trans aligned
          | seed => exact ⟨_, rfl⟩
  | landing entry =>
      obtain ⟨landed, flight⟩ := aligned
      simp only [Lookup.stepOn, Share.retire, flight]
      rfl
  | done answer => exact aligned

/-- While others get their turn, no flight of the key has landed. -/
theorem Aligned.not_landed {lookup : Lookup} {flight : Option Flight} (aligned : lookup.Aligned flight)
    (opened : lookup.isOpen = true) (entry : Entry) : flight ≠ some (.landed entry) := by
  rintro rfl
  cases lookup with
  | judged verdict => cases aligned
  | hydrating aim hydration => cases aim <;> cases aligned
  | _ => cases opened

end Lookup

/-- A call changes no flight that has not landed. -/
theorem Share.Undergoes.flight {resolving : Bool} {key : String} {now : Moment} {made : Call}
    {before after : Share} (undergoes : before.Undergoes resolving key now made after)
    (not_landed : ∀ entry, before.flight ≠ some (.landed entry)) : after.flight = before.flight := by
  cases undergoes with
  | kept aside keeps => exact keeps.flight
  | looked call_eq key_eq finds =>
      cases finds with
      | shared nothing landed => exact absurd landed (not_landed _)
      | _ => rfl
  | _ => rfl

/-! ## Runs -/

namespace Run

variable {σ : Type} {known : String → Prop} {home : Path} {request : Request} {setup : Store.Setup}
  {run : Run σ}

/-- What a lookup and its store keep, whatever other callers do. -/
structure Sound (known : String → Prop) (home : Path) (request : Request) (setup : Store.Setup)
    (run : Run σ) : Prop where
  tidy : run.store.Tidy known home
  setup_eq : run.store.setup = setup
  proper : run.lookup.Proper request.key
  aligned : run.lookup.Aligned (run.store.share request.key).flight
  rest : ∀ key, key.isEmpty = false → key ≠ request.key → (run.store.share key).flight = none

/-- An own step of the lookup is its step on the share of its key. -/
theorem Sound.simulates (distinct : DistinctNames known) (key_known : known request.key)
    (sound : run.Sound known home request setup) (resolve : Resolver σ) (answer : Answer)
    (now : Moment) :
    Lookup.Simulates known home request run.store
      (run.lookup.stepOn setup request answer now run.store.cache.recent.nextStamp
        (run.store.share request.key))
      ((run.after resolve request (.step answer now)).lookup,
        (run.after resolve request (.step answer now)).store) := by
  rw [← sound.setup_eq]
  exact Lookup.simulates_step distinct sound.tidy key_known sound.proper answer now

theorem Sound.step (distinct : DistinctNames known) (key_known : known request.key)
    (sound : run.Sound known home request setup) (resolve : Resolver σ) (answer : Answer)
    (now : Moment) :
    (run.after resolve request (.step answer now)).Sound known home request setup := by
  have simulates := sound.simulates distinct key_known resolve answer now
  have own : ∀ entry ∈ (run.store.share request.key).slot, entry.key = request.key :=
    fun entry slot => (sound.tidy.own request.key entry slot).2
  refine ⟨simulates.moves.tidy, simulates.moves.setup.trans sound.setup_eq, ?_, ?_, ?_⟩
  · have proper := @Lookup.Proper.stepOn setup request _ _ sound.proper own answer now
      run.store.cache.recent.nextStamp
    rw [← simulates.lookup] at proper
    exact proper
  · have aligned := @Lookup.Aligned.stepOn setup request now _ _ sound.aligned answer
      run.store.cache.recent.nextStamp
    rw [← simulates.lookup, ← simulates.share] at aligned
    exact aligned
  · intro key nonempty differs
    exact (simulates.moves.elsewhere key differs).flight.trans (sound.rest key nonempty differs)

theorem Sound.call (distinct : DistinctNames known) (nonempty : request.key.isEmpty = false)
    (sound : run.Sound known home request setup) (opened : run.lookup.isOpen = true)
    (resolve : Resolver σ) {made : Call} (keys_known : ∀ key ∈ made.key?, known key) (now : Moment) :
    (run.after resolve request (.call made now)).Sound known home request setup := by
  have serves := Store.serves_call distinct sound.tidy keys_known resolve run.state now
  refine ⟨serves.tidy, serves.setup.trans sound.setup_eq, sound.proper, ?_, ?_⟩
  · have flight := (serves.shares request.key nonempty).flight (sound.aligned.not_landed opened)
    have aligned := sound.aligned
    rw [← flight] at aligned
    exact aligned
  · intro key filled differs
    have flight := sound.rest key filled differs
    have not_landed : ∀ entry, (run.store.share key).flight ≠ some (.landed entry) := by
      intro entry landed
      rw [flight] at landed
      cases landed
    exact ((serves.shares key filled).flight not_landed).trans flight

instance (resolve : Resolver σ) (request : Request) :
    ∀ (run : Run σ) (events : List Event), Decidable (run.Admits resolve request events)
  | _, [] => .isTrue trivial
  | run, event :: later =>
    have := instDecidableAdmits resolve request (run.after resolve request event) later
    inferInstanceAs (Decidable (_ ∧ _))

/-- The keys that the calls of a schedule are about. -/
def Knows (known : String → Prop) (events : List Event) : Prop :=
  ∀ event ∈ events, ∀ made ∈ event.call?, ∀ key ∈ made.key?, known key

theorem Sound.after (distinct : DistinctNames known) (key_known : known request.key)
    (nonempty : request.key.isEmpty = false) (sound : run.Sound known home request setup)
    (resolve : Resolver σ) {event : Event} (admits : run.admits event = true)
    (knows : ∀ made ∈ event.call?, ∀ key ∈ made.key?, known key) :
    (run.after resolve request event).Sound known home request setup := by
  cases event with
  | step answer now => exact sound.step distinct key_known resolve answer now
  | call made now => exact sound.call distinct nonempty admits resolve (knows made rfl) now

/-- Whatever the schedule, a lookup and its store stay sound. -/
theorem Sound.through (distinct : DistinctNames known) (key_known : known request.key)
    (nonempty : request.key.isEmpty = false) (resolve : Resolver σ) {events : List Event}
    (sound : run.Sound known home request setup) (admits : run.Admits resolve request events)
    (knows : Knows known events) :
    (run.through resolve request events).Sound known home request setup := by
  induction events generalizing run with
  | nil => exact sound
  | cons event later induction =>
      obtain ⟨now_admits, later_admits⟩ := admits
      obtain ⟨now_known, later_known⟩ := List.forall_mem_cons.1 knows
      exact induction (sound.after distinct key_known nonempty resolve now_admits now_known)
        later_admits later_known

theorem through_append (resolve : Resolver σ) (request : Request) (run : Run σ)
    (before later : List Event) :
    run.through resolve request (before ++ later) =
      (run.through resolve request before).through resolve request later := by
  induction before generalizing run with
  | nil => rfl
  | cons event before induction => exact induction _

theorem admits_append {resolve : Resolver σ} {before later : List Event} :
    run.Admits resolve request (before ++ later) ↔
      run.Admits resolve request before ∧
        (run.through resolve request before).Admits resolve request later := by
  induction before generalizing run with
  | nil => exact ⟨fun admits => ⟨trivial, admits⟩, fun both => both.2⟩
  | cons event before induction =>
      simp only [List.cons_append, Admits, Run.through, induction, and_assoc]

/-- A lookup that is about to begin on a store. -/
def start (store : Store) (state : σ) : Run σ := ⟨.begun, store, state⟩

end Run

/-! ## Stores that can come about -/

/-- A store between two lookups: it is tidy, and no flight is under way. -/
structure Store.AtRest (known : String → Prop) (home : Path) (store : Store) : Prop where
  tidy : store.Tidy known home
  rest : ∀ key, key.isEmpty = false → (store.share key).flight = none

theorem Run.Sound.start {σ : Type} {known : String → Prop} {home : Path} {store : Store}
    (atRest : store.AtRest known home) (request : Request) (nonempty : request.key.isEmpty = false)
    (state : σ) : (Run.start store state).Sound known home request store.setup :=
  ⟨atRest.tidy, rfl, trivial, atRest.rest request.key nonempty, fun key filled _ =>
    atRest.rest key filled⟩

/-- Once the lookup is done, the store is at rest. -/
theorem Run.Sound.atRest {σ : Type} {known : String → Prop} {home : Path} {request : Request}
    {setup : Store.Setup} {run : Run σ} (sound : run.Sound known home request setup)
    {answer : Option Entry} (ended : run.lookup = .done answer) : run.store.AtRest known home := by
  refine ⟨sound.tidy, fun key filled => ?_⟩
  by_cases same : key = request.key
  · subst same
    have aligned := sound.aligned
    rw [ended] at aligned
    exact aligned
  · exact sound.rest key filled same

/-- The stores that a cache comes to whose files nobody else edits. -/
inductive Store.Reachable (known : String → Prop) (home : Path) : Store → Prop where
  /-- The cache is opened in an empty directory. -/
  | opened {disk : Disk} {settings : Settings} {store : Store}
      (vacant : disk.Vacant (Route.join [] settings.directory) home) (resolving : Bool)
      (describer : Option Describer)
      (opens : Store.opened disk settings resolving describer = .ok store) :
      Reachable known home store
  /-- A call is made. -/
  | called {store : Store} (before : Reachable known home store) {σ : Type} (resolve : Resolver σ)
      (state : σ) (now : Moment) (made : Call) (keys_known : ∀ key ∈ made.key?, known key) :
      Reachable known home (store.call resolve state now made).2.1
  /-- A lookup comes to its end while other callers make calls. -/
  | overlapped {store : Store} (before : Reachable known home store) {σ : Type}
      (resolve : Resolver σ) (state : σ) (request : Request) (key_known : known request.key)
      (nonempty : request.key.isEmpty = false) (events : List Event)
      (knows : Run.Knows known events) (admits : (Run.start store state).Admits resolve request events)
      {answer : Option Entry}
      (ended : ((Run.start store state).through resolve request events).lookup = .done answer) :
      Reachable known home ((Run.start store state).through resolve request events).store
  /-- The cache is opened again in its directory. -/
  | reopened {store again : Store} (before : Reachable known home store) {settings : Settings}
      (same : Route.join [] settings.directory = store.cache.archive.root) (resolving : Bool)
      (describer : Option Describer)
      (opens : Store.opened store.disk settings resolving describer = .ok again) :
      Reachable known home again

namespace Store

variable {known : String → Prop} {home : Path} {store : Store}

theorem AtRest.call (distinct : DistinctNames known) (atRest : store.AtRest known home) {σ : Type}
    (resolve : Resolver σ) (state : σ) (now : Moment) {made : Call}
    (keys_known : ∀ key ∈ made.key?, known key) :
    (store.call resolve state now made).2.1.AtRest known home := by
  have serves := serves_call distinct atRest.tidy keys_known resolve state now
  refine ⟨serves.tidy, fun key filled => ?_⟩
  have flight := atRest.rest key filled
  refine ((serves.shares key filled).flight fun entry landed => ?_).trans flight
  rw [flight] at landed
  cases landed

theorem AtRest.reopen (atRest : store.AtRest known home) {settings : Settings} {again : Store}
    (same : Route.join [] settings.directory = store.cache.archive.root) {resolving : Bool}
    {describer : Option Describer}
    (opens : opened store.disk settings resolving describer = .ok again) :
    again.AtRest known home := by
  have archive := atRest.tidy.archive.reopen
  rw [← same] at archive
  have valid := valid_of_opened opens
  simp only [opened, establish, valid, archive, if_true, Disk.perform_nil] at opens
  obtain rfl := Except.ok.inj opens
  refine ⟨⟨atRest.tidy.archive, List.nodup_nil, fun key entry found => ?_⟩, fun key _ => rfl⟩
  cases found

/-- Whatever has happened to a cache, it is at rest when no call is under way. -/
theorem Reachable.atRest (distinct : DistinctNames known) (reachable : store.Reachable known home) :
    store.AtRest known home := by
  induction reachable with
  | @opened disk settings store vacant resolving describer opens =>
      obtain ⟨other, other_opens, tidy, _, shares⟩ :=
        opened_vacant vacant (valid_of_opened opens) known resolving describer
      obtain rfl := Except.ok.inj (opens.symm.trans other_opens)
      exact ⟨tidy, fun key _ => by rw [shares]; rfl⟩
  | called before resolve state now made keys_known induction =>
      exact induction.call distinct resolve state now keys_known
  | overlapped before resolve state request key_known nonempty events knows admits ended induction =>
      exact ((Run.Sound.start induction request nonempty state).through distinct key_known nonempty
        resolve admits knows).atRest ended
  | reopened before same resolving describer opens induction => exact induction.reopen same opens

end Store

/-! ## One call among others -/

/-- A lookup on a store that can come about, from its begin to its end, with a call of another caller
at some point. -/
structure Overlap (σ : Type) where
  store : Store
  resolve : Resolver σ
  state : σ
  request : Request
  /-- What happens before the call. -/
  before : List Event
  made : Call
  now : Moment
  /-- What happens after the call. -/
  later : List Event

namespace Overlap

variable {σ : Type} {known : String → Prop} {home : Path}

/-- All that happens. -/
def events (overlap : Overlap σ) : List Event :=
  overlap.before ++ .call overlap.made overlap.now :: overlap.later

/-- The run when the call is about to be made. -/
def meeting (overlap : Overlap σ) : Run σ :=
  (Run.start overlap.store overlap.state).through overlap.resolve overlap.request overlap.before

/-- The run when the call has just been made. -/
def parting (overlap : Overlap σ) : Run σ :=
  overlap.meeting.after overlap.resolve overlap.request (.call overlap.made overlap.now)

/-- The run at the end. -/
def final (overlap : Overlap σ) : Run σ :=
  (Run.start overlap.store overlap.state).through overlap.resolve overlap.request overlap.events

/-- The store can come about, the calls come when they may, and the lookup comes to its end. -/
structure Proper (known : String → Prop) (home : Path) (overlap : Overlap σ) : Prop where
  reachable : overlap.store.Reachable known home
  key_known : known overlap.request.key
  nonempty : overlap.request.key.isEmpty = false
  knows : Run.Knows known overlap.events
  admits : (Run.start overlap.store overlap.state).Admits overlap.resolve overlap.request overlap.events
  ended : overlap.final.lookup.answer?.isSome = true

theorem final_eq (overlap : Overlap σ) :
    overlap.final = overlap.parting.through overlap.resolve overlap.request overlap.later :=
  Run.through_append _ _ _ _ _

variable {overlap : Overlap σ}

theorem Proper.admits_later (proper : overlap.Proper known home) :
    overlap.meeting.lookup.isOpen = true ∧
      overlap.parting.Admits overlap.resolve overlap.request overlap.later :=
  (Run.admits_append.1 proper.admits).2

theorem Proper.knows_later (proper : overlap.Proper known home) :
    (∀ key ∈ overlap.made.key?, known key) ∧ Run.Knows known overlap.later := by
  obtain ⟨_, rest⟩ := List.forall_mem_append.1 proper.knows
  obtain ⟨made_known, later_known⟩ := List.forall_mem_cons.1 rest
  exact ⟨made_known overlap.made rfl, later_known⟩

theorem Proper.sound_meeting (distinct : DistinctNames known) (proper : overlap.Proper known home) :
    overlap.meeting.Sound known home overlap.request overlap.store.setup :=
  (Run.Sound.start (proper.reachable.atRest distinct) overlap.request proper.nonempty
    overlap.state).through distinct proper.key_known proper.nonempty overlap.resolve
      (Run.admits_append.1 proper.admits).1 (List.forall_mem_append.1 proper.knows).1

theorem Proper.sound_parting (distinct : DistinctNames known) (proper : overlap.Proper known home) :
    overlap.parting.Sound known home overlap.request overlap.store.setup :=
  (proper.sound_meeting distinct).call distinct proper.nonempty proper.admits_later.1 overlap.resolve
    proper.knows_later.1 overlap.now

theorem Proper.atRest (distinct : DistinctNames known) (proper : overlap.Proper known home) :
    overlap.final.store.AtRest known home := by
  have sound := (proper.sound_parting distinct).through distinct proper.key_known proper.nonempty
    overlap.resolve proper.admits_later.2 proper.knows_later.2
  rw [← overlap.final_eq] at sound
  obtain ⟨answer, ended⟩ := Option.isSome_iff_exists.1 proper.ended
  cases lookup : overlap.final.lookup with
  | done given => exact sound.atRest lookup
  | _ =>
      rw [lookup] at ended
      cases ended

end Overlap

/-! ## A small store -/

/-- Answers nothing. -/
def silent : Resolver Unit := fun state _ => (.unknown, state)

/-- The small store after two entries have been put: there is room for the second only. -/
def Store.crowded : Store :=
  ((Store.small.call silent () .epoch (.put "k" ["old"] .empty)).2.1.call silent () .epoch
    (.put "x" [] .empty)).2.1

theorem Store.reachable_crowded : Store.crowded.Reachable twoKeys ["cache"] := by
  have opened : Store.small.Reachable twoKeys ["cache"] :=
    .opened Disk.vacant_bare false none Store.opened_small
  have first := opened.called silent () .epoch (.put "k" ["old"] .empty)
    (by rintro key ⟨⟩; exact Or.inl rfl)
  exact first.called silent () .epoch (.put "x" [] .empty) (by rintro key ⟨⟩; exact Or.inr rfl)

end TieredCache
