import TieredCache.Proofs.Lookup.Front

/-!
# Undisturbed lookups

A lookup that nobody disturbs stays on a course that its start determines: `OnCourse` says what its
share is at every phase, each step keeps it, and there are enough steps to come to the end. What it
ends with is `Finds`.
-/

namespace TieredCache

namespace Share

/-- The entry that the two tiers together hold. -/
def held? (share : Share) (key : String) : Option Entry :=
  share.slot.or (share.shelf.bind (Entry.readOwn? key))

/-- The share without an entry. -/
def cleared (share : Share) : Share := (share.withSlot none).withShelf none

theorem held?_of_slot {share : Share} {entry : Entry} (slot : share.slot = some entry)
    (key : String) : share.held? key = some entry := by
  rw [held?, slot]
  rfl

theorem verdictOn_held? {share : Share} {key : String} (slot : share.slot = none) :
    (Archive.verdictOn key share.shelf).found? = share.held? key := by
  rw [held?, slot, Option.none_or]
  cases share.shelf with
  | none => rfl
  | some bytes =>
      rw [Archive.verdictOn, Option.bind_some]
      cases Entry.readOwn? key bytes <;> rfl

/-- A verdict that brings no entry leaves nothing on the shelf. -/
theorem cleared_of_verdictOn {share : Share} {key : String} (slot : share.slot = none)
    (nothing : share.held? key = none) :
    (if (Archive.verdictOn key share.shelf).purges then share.withShelf none else share) =
      share.cleared := by
  obtain ⟨held, shelf, flight⟩ := share
  simp only at slot
  subst slot
  cases shelf with
  | none => rfl
  | some bytes =>
      have unreadable : Entry.readOwn? key bytes = none := nothing
      simp only [Archive.verdictOn, unreadable]
      rfl

theorem not_purges_of_held? {share : Share} {key : String} {entry : Entry} (slot : share.slot = none)
    (found : share.held? key = some entry) :
    (Archive.verdictOn key share.shelf).purges = false := by
  rw [held?, slot, Option.none_or] at found
  obtain ⟨bytes, shelf, read⟩ := Option.bind_eq_some_iff.1 found
  rw [shelf, Archive.verdictOn, read]
  rfl

end Share

namespace Lookup

/-- What an undisturbed lookup ends with: its answer and the share that it leaves. -/
inductive Finds (request : Request) (resolving : Bool) (now : Moment) (start : Share) :
    Option Entry → Share → Prop where
  /-- The entry that was held, read once more. -/
  | held {entry given held : Entry} (found : start.held? request.key = some entry)
      (given_eq : given.stored = (entry.touch now).stored)
      (held_eq : held.stored = (entry.touch now).stored) :
      Finds request resolving now start (some given) (start.withSlot (some held))
  /-- An entry that was made anew. -/
  | made {paths : List String} {given held : Entry} (nothing : start.held? request.key = none)
      (paths_eq : request.paths = some paths) (resolves : resolving = true)
      (free : start.flight = none)
      (given_eq : given.stored = ((Entry.new request.key paths now).touch now).stored)
      (held_eq : held.stored = ((Entry.new request.key paths now).touch now).stored) :
      Finds request resolving now start (some given) (start.cleared.withSlot (some held))
  /-- The entry of a flight that had landed. -/
  | shared {entry : Entry} (nothing : start.held? request.key = none)
      (landed : start.flight = some (.landed entry)) :
      Finds request resolving now start (some entry) (start.cleared.withFlight none)
  /-- Nothing, since another caller is making the entry. -/
  | waits (nothing : start.held? request.key = none) (aloft : start.flight = some .aloft) :
      Finds request resolving now start none start.cleared
  /-- Nothing, and nothing to make it from. -/
  | missed (nothing : start.held? request.key = none)
      (unmade : request.paths = none ∨ resolving = false) :
      Finds request resolving now start none start.cleared

/-- Where an undisturbed lookup is, and what the share of its key is by then. -/
inductive OnCourse (request : Request) (resolving : Bool) (now : Moment) (start : Share) :
    Lookup → Share → Prop where
  | begun : OnCourse request resolving now start .begun start
  | missed (slot : start.slot = none) : OnCourse request resolving now start .missed start
  | judged (slot : start.slot = none) :
      OnCourse request resolving now start (.judged (Archive.verdictOn request.key start.shelf)) start
  | joining {paths : List String} (nothing : start.held? request.key = none)
      (paths_eq : request.paths = some paths) (resolves : resolving = true) :
      OnCourse request resolving now start (.joining paths) start.cleared
  | waiting (nothing : start.held? request.key = none) (aloft : start.flight = some .aloft) :
      OnCourse request resolving now start .waiting start.cleared
  | leading {paths : List String} (nothing : start.held? request.key = none)
      (paths_eq : request.paths = some paths) (resolves : resolving = true)
      (free : start.flight = none) :
      OnCourse request resolving now start (.leading paths) (start.cleared.withFlight (some .aloft))
  | refreshing {entry held : Entry} {hydration : Hydration} (slot : start.slot = some entry)
      (carried : hydration.entry.stored = (entry.touch now).stored)
      (held_eq : held.stored = (entry.touch now).stored) :
      OnCourse request resolving now start (.hydrating .refresh hydration)
        (start.withSlot (some held))
  | promoting {entry : Entry} {hydration : Hydration} (slot : start.slot = none)
      (found : start.held? request.key = some entry)
      (carried : hydration.entry.stored = (entry.touch now).stored) :
      OnCourse request resolving now start (.hydrating .promote hydration) start
  | seeding {paths : List String} {hydration : Hydration}
      (nothing : start.held? request.key = none) (paths_eq : request.paths = some paths)
      (resolves : resolving = true) (free : start.flight = none)
      (carried : hydration.entry.stored = (Entry.new request.key paths now).stored) :
      OnCourse request resolving now start (.hydrating .seed hydration)
        (start.cleared.withFlight (some .aloft))
  | landing {entry : Entry} {share : Share}
      (finds : Finds request resolving now start (some entry) share.retire) :
      OnCourse request resolving now start (.landing entry) share
  | done {answer : Option Entry} {share : Share}
      (finds : Finds request resolving now start answer share) :
      OnCourse request resolving now start (.done answer) share

variable {setup : Store.Setup} {request : Request} {now : Moment} {start : Share}

theorem stored_touch {left right : Entry} (same : left.stored = right.stored) (now : Moment) :
    (left.touch now).stored = (right.touch now).stored := by
  have touched : ∀ entry : Entry, (entry.touch now).stored = entry.stored.touch now := fun _ => rfl
  rw [touched, touched, same]

theorem onCourse_afterSlot {entry : Entry} (slot : start.slot = some entry) :
    OnCourse request setup.resolving now start (afterSlot setup request (entry.touch now))
      (start.withSlot (some (entry.touch now))) := by
  unfold afterSlot
  split
  · exact .refreshing slot (by rw [Hydration.entry_begin]) rfl
  · exact .done (.held (Share.held?_of_slot slot _) rfl rfl)

theorem onCourse_afterShelf {entry : Entry} (slot : start.slot = none)
    (found : start.held? request.key = some entry) :
    OnCourse request setup.resolving now start (afterShelf setup request (entry.touch now)) start := by
  refine .promoting slot found ?_
  split
  · rw [Hydration.entry_begin]
  · rfl

theorem onCourse_afterMiss (nothing : start.held? request.key = none) :
    OnCourse request setup.resolving now start (afterMiss setup request) start.cleared := by
  unfold afterMiss
  cases paths : request.paths with
  | none => exact .done (.missed nothing (Or.inl paths))
  | some paths =>
      simp only
      split
      · rename_i resolves
        exact .joining nothing paths resolves
      · rename_i unresolving
        exact .done (.missed nothing (Or.inr (by simpa using unresolving)))

/-- An undisturbed lookup stays on its course. -/
theorem OnCourse.stepOn {lookup : Lookup} {share : Share}
    (course : OnCourse request setup.resolving now start lookup share) (answer : Answer)
    (stamp : UInt64) :
    OnCourse request setup.resolving now start
      (lookup.stepOn setup request answer now stamp share).1
      (lookup.stepOn setup request answer now stamp share).2 := by
  cases course with
  | begun =>
      cases slot : start.slot with
      | none =>
          simp only [Lookup.stepOn, slot]
          exact .missed slot
      | some entry =>
          simp only [Lookup.stepOn, slot]
          exact onCourse_afterSlot slot
  | missed slot => exact .judged slot
  | judged slot =>
      simp only [Lookup.stepOn, afterVerdict, Share.verdictOn_held? slot]
      cases found : start.held? request.key with
      | some entry =>
          rw [Share.not_purges_of_held? slot found]
          exact onCourse_afterShelf slot found
      | none =>
          rw [Share.cleared_of_verdictOn slot found]
          exact onCourse_afterMiss found
  | joining nothing paths_eq resolves =>
      have flight : start.cleared.flight = start.flight := rfl
      simp only [Lookup.stepOn, flight]
      cases flown : start.flight with
      | none => exact .leading nothing paths_eq resolves flown
      | some flight =>
          cases flight with
          | aloft => exact .waiting nothing flown
          | landed entry =>
              refine .landing ?_
              have retired : start.cleared.retire = start.cleared.withFlight none := by
                rw [Share.retire, flight, flown]
              rw [retired]
              exact .shared nothing flown
  | waiting nothing aloft => exact .waiting nothing aloft
  | leading nothing paths_eq resolves free =>
      have slot : (start.cleared.withFlight (some .aloft)).slot = none := rfl
      simp only [Lookup.stepOn, slot]
      exact .seeding nothing paths_eq resolves free (by rw [Hydration.entry_begin])
  | @refreshing entry held hydration slot carried held_eq =>
      cases hydration with
      | running copy pending deadline =>
          exact .refreshing slot ((Hydration.stored_step answer _).trans carried) held_eq
      | finished found copy =>
          have here : (start.withSlot (some held)).slot = some held := rfl
          simp only [Lookup.stepOn, Share.adopt, here]
          refine .done ?_
          have entry_eq := Share.held?_of_slot slot request.key
          split
          · exact .held entry_eq carried held_eq
          · exact .held entry_eq carried held_eq
  | @promoting entry hydration slot found carried =>
      cases hydration with
      | running copy pending deadline =>
          exact .promoting slot found ((Hydration.stored_step answer _).trans carried)
      | finished complete copy =>
          simp only [Lookup.stepOn, Share.offer, slot]
          exact .done (.held found carried carried)
  | @seeding paths hydration nothing paths_eq resolves free carried =>
      cases hydration with
      | running copy pending deadline =>
          exact .seeding nothing paths_eq resolves free
            ((Hydration.stored_step answer _).trans carried)
      | finished complete copy =>
          have slot : (start.cleared.withFlight (some .aloft)).slot = none := rfl
          have carried_touch := stored_touch carried now
          simp only [Lookup.stepOn, Share.offer, slot]
          refine .landing ?_
          obtain ⟨_, _, flight⟩ := start
          simp only at free
          subst free
          exact .made nothing paths_eq resolves rfl carried_touch carried_touch
  | landing finds => exact .done finds
  | done finds => exact .done finds

/-! ## Coming to the end -/

/-- How many steps a lookup is away from a phase that `remaining` measures. -/
def search : Lookup → Nat
  | .begun => 5
  | .missed => 4
  | .judged _ => 3
  | .joining _ => 2
  | .leading _ => 1
  | _ => 0

theorem search_afterMiss (setup : Store.Setup) (request : Request) :
    (afterMiss setup request).search ≤ 2 := by
  unfold afterMiss
  split
  · split <;> simp [search]
  · simp [search]

theorem search_stepOn (lookup : Lookup) (answer : Answer) (stamp : UInt64) (share : Share) :
    (lookup.stepOn setup request answer now stamp share).1.search ≤ lookup.search - 1 := by
  cases lookup with
  | begun =>
      simp only [Lookup.stepOn, afterSlot]
      split
      · split <;> simp [search]
      · simp [search]
  | judged verdict =>
      have miss := search_afterMiss setup request
      simp only [Lookup.stepOn, afterVerdict]
      split
      · simp [afterShelf, search]
      · simpa [search] using miss
  | joining paths =>
      simp only [Lookup.stepOn]
      split <;> simp [search]
  | leading paths =>
      simp only [Lookup.stepOn]
      split <;> simp [search]
  | hydrating aim hydration => cases aim <;> cases hydration <;> simp [Lookup.stepOn, search]
  | missed => simp [Lookup.stepOn, search]
  | waiting => simp [Lookup.stepOn, search]
  | landing entry => simp [Lookup.stepOn, search]
  | done answer => simp [Lookup.stepOn, search]

theorem remaining_stepOn {lookup : Lookup} (found : lookup.search = 0) (answer : Answer)
    (stamp : UInt64) (share : Share) :
    (lookup.stepOn setup request answer now stamp share).1.remaining ≤ lookup.remaining - 1 := by
  cases lookup with
  | hydrating aim hydration =>
      cases hydration with
      | finished complete copy =>
          cases aim <;> simp [Lookup.stepOn, remaining, Hydration.remaining]
      | running entry pending deadline =>
          have shorter := Hydration.remaining_step answer (.running entry pending deadline)
          have positive : 0 < (Hydration.running entry pending deadline).remaining := by
            simp [Hydration.remaining]
          cases aim <;>
            · simp only [Lookup.stepOn, remaining]
              omega
  | waiting => simp [Lookup.stepOn, remaining]
  | landing entry => simp [Lookup.stepOn, remaining]
  | done answer => simp [Lookup.stepOn, remaining]
  | begun => simp [search] at found
  | missed => simp [search] at found
  | judged verdict => simp [search] at found
  | joining paths => simp [search] at found
  | leading paths => simp [search] at found

/-- A step on any store is one step nearer to the end of the search. -/
theorem search_step (store : Store) (lookup : Lookup) (answer : Answer) :
    (lookup.step request answer now store).1.search ≤ lookup.search - 1 := by
  by_cases missed : lookup = .missed
  · subst missed
    exact Nat.le_refl 3
  · rw [(fronts_step store request lookup answer now).phase missed]
    exact search_stepOn lookup answer _ _

/-- Once the search is over, a step on any store is one step nearer to the end. -/
theorem remaining_step (store : Store) {lookup : Lookup} (found : lookup.search = 0)
    (answer : Answer) :
    (lookup.step request answer now store).1.remaining ≤ lookup.remaining - 1 := by
  have not_missed : lookup ≠ .missed := by
    rintro rfl
    cases found
  rw [(fronts_step store request lookup answer now).phase not_missed]
  exact remaining_stepOn found answer _ _

end Lookup

/-! ## Runs -/

namespace Run

variable {σ : Type} {known : String → Prop} {home : Path} {request : Request} {now : Moment}
  {start : Store} {run : Run σ} (resolve : Resolver σ)

/-- A run that has come from a start undisturbed. -/
structure Follows (known : String → Prop) (home : Path) (request : Request) (now : Moment)
    (start : Store) (run : Run σ) : Prop where
  moves : Store.Moves known home request.key start run.store
  proper : run.lookup.Proper request.key
  course : Lookup.OnCourse request start.setup.resolving now (start.share request.key) run.lookup
    (run.store.share request.key)

/-- What a run does next is what its lookup does on the share of its key. -/
theorem next_spec (distinct : DistinctNames known) (key_known : known request.key)
    (follows : Follows known home request now start run) :
    ∃ answer, Lookup.Simulates known home request run.store
      (run.lookup.stepOn start.setup request answer now run.store.cache.recent.nextStamp
        (run.store.share request.key))
      ((run.next resolve request now).lookup, (run.next resolve request now).store) := by
  rw [← follows.moves.setup]
  exact ⟨_, Lookup.simulates_step distinct follows.moves.tidy key_known follows.proper _ now⟩

theorem Follows.next (distinct : DistinctNames known) (key_known : known request.key)
    (follows : Follows known home request now start run) :
    Follows known home request now start (run.next resolve request now) := by
  obtain ⟨answer, simulates⟩ := next_spec resolve distinct key_known follows
  have own : ∀ entry ∈ (run.store.share request.key).slot, entry.key = request.key :=
    fun entry slot => (follows.moves.tidy.own request.key entry slot).2
  refine ⟨follows.moves.trans simulates.moves, ?_, ?_⟩
  · have proper := @Lookup.Proper.stepOn start.setup request _ _ follows.proper own answer now
      run.store.cache.recent.nextStamp
    rw [← simulates.lookup] at proper
    exact proper
  · have course := follows.course.stepOn answer run.store.cache.recent.nextStamp
    rw [← simulates.lookup, ← simulates.share] at course
    exact course

theorem Follows.advance (distinct : DistinctNames known) (key_known : known request.key)
    (steps : Nat) (follows : Follows known home request now start run) :
    Follows known home request now start (advance resolve request now steps run) := by
  induction steps generalizing run with
  | zero => exact follows
  | succ steps induction => exact induction (follows.next resolve distinct key_known)

/-- A run comes nearer to the end of its search, and then to its end. -/
theorem measure_advance (request : Request) (now : Moment) (steps : Nat) (run : Run σ) :
    (advance resolve request now steps run).lookup.search ≤ run.lookup.search - steps ∧
      (run.lookup.search = 0 →
        (advance resolve request now steps run).lookup.remaining ≤ run.lookup.remaining - steps) := by
  induction steps generalizing run with
  | zero => exact ⟨Nat.le_refl _, fun _ => Nat.le_refl _⟩
  | succ steps induction =>
      obtain ⟨search, remaining⟩ := induction (run.next resolve request now)
      have search_next : (run.next resolve request now).lookup.search ≤ run.lookup.search - 1 :=
        Lookup.search_step run.store run.lookup _
      refine ⟨?_, fun found => ?_⟩
      · simp only [Run.advance]
        omega
      · have remaining_next :
            (run.next resolve request now).lookup.remaining ≤ run.lookup.remaining - 1 :=
          Lookup.remaining_step run.store found _
        have still_found : (run.next resolve request now).lookup.search = 0 := by omega
        have remaining_later := remaining still_found
        simp only [Run.advance]
        omega

/-- A lookup that has nothing left to do has its answer, or waits for another caller. -/
theorem finds_of_remaining {lookup : Lookup} {share : Share} {initial : Share} {resolving : Bool}
    (course : Lookup.OnCourse request resolving now initial lookup share)
    (found : lookup.search = 0) (exhausted : lookup.remaining = 0) :
    Lookup.Finds request resolving now initial lookup.answer?.join share := by
  cases course with
  | done finds => exact finds
  | waiting nothing aloft => exact .waits nothing aloft
  | begun => simp [Lookup.search] at found
  | missed slot => simp [Lookup.search] at found
  | judged slot => simp [Lookup.search] at found
  | joining nothing paths_eq resolves => simp [Lookup.search] at found
  | leading nothing paths_eq resolves free => simp [Lookup.search] at found
  | refreshing slot carried held_eq => simp [Lookup.remaining] at exhausted
  | promoting slot entry carried => simp [Lookup.remaining] at exhausted
  | seeding nothing paths_eq resolves free carried => simp [Lookup.remaining] at exhausted
  | landing finds => simp [Lookup.remaining] at exhausted

/-- The run of a lookup from its begin to its end. -/
def whole (resolve : Resolver σ) (request : Request) (now : Moment) (store : Store) (state : σ) :
    Run σ :=
  let found := advance resolve request now searchSteps ⟨.begun, store, state⟩
  advance resolve request now found.lookup.remaining found

/-- There are enough steps to come to the end. -/
theorem ended_whole (request : Request) (now : Moment) (store : Store) (state : σ) :
    (whole resolve request now store state).lookup.search = 0 ∧
      (whole resolve request now store state).lookup.remaining = 0 := by
  obtain ⟨search, _⟩ := measure_advance resolve request now searchSteps ⟨.begun, store, state⟩
  have found := Nat.le_zero.1 search
  obtain ⟨still_found, remaining⟩ := measure_advance resolve request now
    (advance resolve request now searchSteps ⟨.begun, store, state⟩).lookup.remaining
    (advance resolve request now searchSteps ⟨.begun, store, state⟩)
  have exhausted := remaining found
  rw [Nat.sub_self] at exhausted
  rw [found, Nat.zero_sub] at still_found
  exact ⟨Nat.le_zero.1 still_found, Nat.le_zero.1 exhausted⟩

/-- An undisturbed lookup ends, and finds what the two tiers held together when it began. -/
theorem whole_spec (distinct : DistinctNames known) (tidy : start.Tidy known home)
    (key_known : known request.key) (state : σ) :
    Store.Moves known home request.key start (whole resolve request now start state).store ∧
      Lookup.Finds request start.setup.resolving now (start.share request.key)
        (whole resolve request now start state).lookup.answer?.join
        ((whole resolve request now start state).store.share request.key) := by
  have begun : Follows known home request now start (⟨.begun, start, state⟩ : Run σ) :=
    ⟨Store.Moves.refl tidy request.key, trivial, .begun⟩
  have ended := (begun.advance resolve distinct key_known searchSteps).advance resolve distinct
    key_known (advance resolve request now searchSteps ⟨.begun, start, state⟩).lookup.remaining
  obtain ⟨found, exhausted⟩ := ended_whole resolve request now start state
  exact ⟨ended.moves, finds_of_remaining ended.course found exhausted⟩

end Run

theorem Store.get_refused {σ : Type} (store : Store) (resolve : Resolver σ) (state : σ)
    {request : Request} (now : Moment) (empty : request.key.isEmpty = true) :
    store.get resolve state request now = .error .emptyKey := by
  simp only [Store.get, Fault.checkKey, empty]
  rfl

theorem Store.get_eq {σ : Type} (store : Store) (resolve : Resolver σ) (state : σ) {request : Request}
    (now : Moment) (nonempty : request.key.isEmpty = false) :
    store.get resolve state request now =
      .ok ((Run.whole resolve request now store state).lookup.answer?.join,
        (Run.whole resolve request now store state).store,
        (Run.whole resolve request now store state).state) := by
  simp only [Store.get, Fault.checkKey, nonempty]
  rfl

end TieredCache
