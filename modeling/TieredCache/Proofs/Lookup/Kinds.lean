import TieredCache.Proofs.Lookup.Overlapped
import TieredCache.Proofs.Store.Kinds

/-!
# Lookups among entries of one kind

A lookup that nobody disturbs, on a store whose entries are of a kind: what it has in hand is of the kind, and
so is what it leaves and what it answers.
-/

namespace TieredCache

open Archive

theorem Archive.Verdict.eq_of_found? {verdict : Verdict} {entry : Entry}
    (found : verdict.found? = some entry) : verdict = .sound entry := by
  cases verdict with
  | sound other => rw [← Option.some.inj found]
  | _ => cases found

namespace Lookup

/-- What a lookup has in hand is of the kind, and what it has found out still holds. -/
def Bears (kind : Entry → Prop) (request : Request) (store : Store) : Lookup → Prop
  | .missed => request.key ∉ store.cache.recent.keys
  | .judged verdict =>
    verdict = store.cache.archive.inspect store.disk request.key ∧
      ∀ entry, verdict.found? = some entry → entry.key = request.key ∧ kind entry
  | .joining paths => request.paths = some paths
  | .leading paths => request.paths = some paths
  | .hydrating _ hydration => hydration.entry.key = request.key ∧ kind hydration.entry
  | .landing entry => entry.key = request.key ∧ kind entry
  | .done answer => ∀ entry ∈ answer, entry.key = request.key ∧ kind entry
  | _ => True

variable {kind : Entry → Prop} {store : Store} {request : Request} {lookup : Lookup}

theorem bears_afterSlot (setup : Store.Setup) {entry : Entry} (own : entry.key = request.key)
    (good : kind entry) : (afterSlot setup request entry).Bears kind request store := by
  unfold afterSlot
  split
  · simp only [Bears, Hydration.entry_begin]
    exact ⟨own, good⟩
  · rintro given ⟨⟩
    exact ⟨own, good⟩

theorem bears_afterShelf (setup : Store.Setup) {entry : Entry} (own : entry.key = request.key)
    (good : kind entry) : (afterShelf setup request entry).Bears kind request store := by
  simp only [afterShelf, Bears]
  split
  · rw [Hydration.entry_begin]
    exact ⟨own, good⟩
  · exact ⟨own, good⟩

theorem bears_afterMiss (setup : Store.Setup) :
    (afterMiss setup request).Bears kind request store := by
  unfold afterMiss
  split
  · rename_i paths given
    split
    · exact given
    · rintro entry ⟨⟩
  · rintro entry ⟨⟩

/-- What a step of a lookup does among entries of a kind. -/
structure Attests (kind : Entry → Prop) (request : Request) (before : Store)
    (after : Lookup × Store) : Prop where
  passes : Store.Passes kind before after.2
  bears : after.1.Bears kind request after.2

/-- Reading a slot leaves it, read once more. -/
theorem passes_fetch (hereditary : Entry.Hereditary kind) (holds : store.Holds kind)
    {key : String} {held : Entry} (resident : store.cache.recent.slots.get? key = some held)
    (now : Moment) : held.key = key ∧ kind (held.touch now) ∧
      Store.Passes kind store (store.withRecent
        { store.cache.recent with slots := store.cache.recent.slots.put key (held.touch now) }) := by
  obtain ⟨own, good⟩ := holds.slots _ (Keyed.mem_of_get? resident)
  have touched := hereditary.touch now good
  exact ⟨own, touched, Store.Holds.put_slot holds.flights
    (fun pair among _ => holds.slots pair among) rfl own touched⟩

theorem attests_judged (hereditary : Entry.Hereditary kind) (holds : store.Holds kind)
    {verdict : Verdict} (bears : (Lookup.judged verdict).Bears kind request store) (answer : Answer)
    (now : Moment) :
    Attests kind request store ((Lookup.judged verdict).step request answer now store) := by
  obtain ⟨rfl, good⟩ := bears
  have settled := holds.carryOut (addsNothing_settle store.cache.archive store.disk request.key
    (store.cache.archive.inspect store.disk request.key))
  simp only [Lookup.step, answer_settle]
  generalize store.carryOut (store.cache.archive.settle store.disk request.key
    (store.cache.archive.inspect store.disk request.key)) = middle at settled ⊢
  cases found : (store.cache.archive.inspect store.disk request.key).found? with
  | some entry =>
      obtain ⟨own, good_entry⟩ := good entry found
      simp only [ofArchive_eq]
      exact ⟨settled.trans (settled.holds.alike (Store.alike_count middle _)),
        bears_afterShelf _ own (hereditary.touch now good_entry)⟩
  | none =>
      obtain ⟨lookup, alike⟩ := ofPaths_spec request middle
      refine ⟨settled.trans (settled.holds.alike alike), ?_⟩
      rw [lookup]
      exact bears_afterMiss _

theorem attests_leading (hereditary : Entry.Hereditary kind) (holds : store.Holds kind)
    {paths : List String} (now : Moment) (fresh : kind (.new request.key paths now)) (answer : Answer) :
    Attests kind request store ((Lookup.leading paths).step request answer now store) := by
  simp only [Lookup.step, lead, Recent.fetch]
  cases resident : store.cache.recent.slots.get? request.key with
  | none =>
      refine ⟨.refl holds, ?_⟩
      simp only [Bears, Store.hydration, Hydration.entry_begin]
      exact ⟨rfl, fresh⟩
  | some held =>
      obtain ⟨own, touched, fetched⟩ := passes_fetch hereditary holds resident now
      refine ⟨fetched.trans (fetched.holds.put_flight request.key ?_), own, touched⟩
      rintro entry ⟨⟩
      exact ⟨own, touched⟩

/-- Taking over the hydration of a copy changes nothing that a record keeps. -/
theorem passes_adopt (hereditary : Entry.Hereditary kind) (holds : store.Holds kind)
    (key : String) (copy : Entry) :
    Store.Passes kind store (store.withRecent (store.cache.recent.adopt key copy).2) := by
  unfold Recent.adopt
  cases resident : store.cache.recent.slots.get? key with
  | none => exact .refl holds
  | some held =>
      obtain ⟨own, good⟩ := holds.slots _ (Keyed.mem_of_get? resident)
      simp only
      split
      · refine holds.withRecent (fun pair among => ?_) fun asked here => ?_
        · obtain ⟨old, stood, rfl⟩ := List.mem_map.1 among
          split
          · exact ⟨own, hereditary.stored (show (held.adopt copy).stored = held.stored from rfl) good⟩
          · exact holds.slots old stood
        · rw [Recent.keys, Keyed.keys_set]
          exact here
      · exact .refl holds

theorem attests_delivering (hereditary : Entry.Hereditary kind) (holds : store.Holds kind)
    {copy : Entry} (own : copy.key = request.key) (good : kind copy) (aim : Aim) (found : Bool)
    (answer : Answer) (now : Moment)
    (unfailed : ((Lookup.hydrating aim (.finished found copy)).step request answer now store).2.Unfailed) :
    Attests kind request store
      ((Lookup.hydrating aim (.finished found copy)).step request answer now store) := by
  simp only [Lookup.step] at unfailed ⊢
  cases aim with
  | refresh =>
      refine ⟨passes_adopt hereditary holds request.key copy, ?_⟩
      rintro entry ⟨⟩
      exact ⟨own, good⟩
  | promote =>
      simp only [deliver, ← own] at unfailed
      obtain ⟨passes, offered⟩ := holds.offer hereditary good now unfailed
      rw [own] at passes offered
      refine ⟨passes, ?_⟩
      rintro entry ⟨⟩
      exact offered
  | seed =>
      have own_touched : (copy.touch now).key = request.key := own
      simp only [deliver, ← own] at unfailed
      obtain ⟨passes, offered⟩ := holds.offer hereditary (hereditary.touch now good) now unfailed
      rw [own_touched] at passes offered
      refine ⟨passes.trans (passes.holds.put_flight request.key ?_), offered⟩
      rintro entry ⟨⟩
      exact offered

/-- A step of a lookup takes no notice back. -/
theorem notices_step (store : Store) (request : Request) (lookup : Lookup) (answer : Answer)
    (now : Moment) : store.notices <+: (lookup.step request answer now store).2.notices := by
  cases lookup with
  | begun =>
      simp only [Lookup.step]
      split
      · simp only [ofRecent_eq]
        exact List.prefix_rfl
      · exact List.prefix_rfl
  | missed => exact List.prefix_append _ _
  | judged verdict =>
      have settled := List.prefix_append store.notices
        (store.cache.archive.settle store.disk request.key verdict).notices
      simp only [Lookup.step]
      split
      · simp only [ofArchive_eq]
        exact settled
      · unfold ofPaths
        split
        · exact settled
        · split
          · exact settled
          · exact settled.trans (List.prefix_append _ _)
  | joining paths =>
      simp only [Lookup.step, join]
      split <;> exact List.prefix_rfl
  | leading paths =>
      simp only [Lookup.step, lead]
      split <;> exact List.prefix_rfl
  | hydrating aim hydration =>
      cases hydration with
      | running copy pending deadline => exact List.prefix_append _ _
      | finished found copy =>
          cases aim with
          | refresh => exact List.prefix_rfl
          | promote => exact store.notices_offer request.key copy now
          | seed => exact store.notices_offer request.key (copy.touch now) now
  | _ => exact List.prefix_rfl

/-- A step of a lookup keeps to the kind, if every key that is not in tier 1 is vouched for. -/
theorem attests_step (hereditary : Entry.Hereditary kind) (holds : store.Holds kind)
    (vouched : ∀ key, key ∉ store.cache.recent.keys → Store.Vouched kind store key)
    (bears : lookup.Bears kind request store) (answer : Answer) (now : Moment)
    (fresh : ∀ paths, request.paths = some paths → kind (.new request.key paths now))
    (unfailed : (lookup.step request answer now store).2.Unfailed) :
    Attests kind request store (lookup.step request answer now store) := by
  cases lookup with
  | begun =>
      simp only [Lookup.step, Recent.fetch]
      cases resident : store.cache.recent.slots.get? request.key with
      | none => exact ⟨.refl holds, Keyed.get?_eq_none_iff.1 resident⟩
      | some held =>
          obtain ⟨own, touched, fetched⟩ := passes_fetch hereditary holds resident now
          simp only [ofRecent_eq]
          exact ⟨fetched.trans (fetched.holds.alike (Store.alike_count _ _)),
            bears_afterSlot _ own touched⟩
  | missed =>
      refine ⟨holds.alike (Store.alike_note store _), rfl, fun entry found => ?_⟩
      have sound := Verdict.eq_of_found? found
      exact ⟨key_of_sound sound, vouched request.key bears entry sound⟩
  | judged verdict => exact attests_judged hereditary holds bears answer now
  | joining paths =>
      simp only [Lookup.step, join]
      split
      · rename_i entry landed
        exact ⟨.refl holds, holds.flights request.key entry landed⟩
      · exact ⟨.refl holds, trivial⟩
      · refine ⟨holds.put_flight request.key ?_, bears⟩
        rintro entry ⟨⟩
  | waiting => exact ⟨.refl holds, trivial⟩
  | leading paths => exact attests_leading hereditary holds now (fresh paths bears) answer
  | hydrating aim hydration =>
      obtain ⟨own, good⟩ := bears
      cases hydration with
      | finished found copy =>
          exact attests_delivering hereditary holds own good aim found answer now unfailed
      | running copy pending deadline =>
          have stored := Hydration.stored_step answer (.running copy pending deadline)
          exact ⟨holds.alike (Store.alike_note store _), (key_eq_of_stored stored).trans own,
            hereditary.stored stored good⟩
  | landing entry =>
      have retired := holds.retire request.key
      refine ⟨retired.trans (retired.holds.alike (Store.alike_count _ _)), ?_⟩
      rintro given ⟨⟩
      exact bears
  | done answer => exact ⟨.refl holds, bears⟩

/-- A step of a lookup changes no flight of another key. -/
theorem flight_step_ne (store : Store) (request : Request) (lookup : Lookup) (answer : Answer)
    (now : Moment) {other : String} (differs : other ≠ request.key) :
    (lookup.step request answer now store).2.cache.flights.get? other =
      store.cache.flights.get? other := by
  have put : ∀ (flights : Flights) (flight : Flight),
      (flights.put request.key flight).get? other = flights.get? other := by
    intro flights flight
    rw [Keyed.get?_put, if_neg differs]
  cases lookup with
  | begun =>
      simp only [Lookup.step, Recent.fetch]
      split
      · simp only [ofRecent_eq]
        rfl
      · rfl
  | judged verdict =>
      simp only [Lookup.step]
      split
      · simp only [ofArchive_eq]
        rfl
      · obtain ⟨_, alike⟩ := ofPaths_spec request
          (store.carryOut (store.cache.archive.settle store.disk request.key verdict))
        exact congrArg (fun flights => Keyed.get? flights other) alike.flights
  | joining paths =>
      simp only [Lookup.step, join]
      split
      · rfl
      · rfl
      · exact put _ _
  | leading paths =>
      simp only [Lookup.step, lead]
      split
      · exact put _ _
      · rfl
  | hydrating aim hydration =>
      cases hydration with
      | running copy pending deadline => rfl
      | finished found copy =>
          cases aim with
          | refresh => rfl
          | promote =>
              obtain ⟨_, _, flights, _⟩ := store.offer_front request.key copy now
              exact congrArg (fun flights => Keyed.get? flights other) flights
          | seed =>
              obtain ⟨_, _, flights, _⟩ := store.offer_front request.key (copy.touch now) now
              refine (put _ _).trans ?_
              exact congrArg (fun flights => Keyed.get? flights other) flights
  | landing entry =>
      simp only [Lookup.step, Store.withFlights, Store.count, Flights.retire]
      split
      · rw [Keyed.get?_erase, if_neg differs]
      · rfl
  | _ => rfl

/-- The flight of the key goes along with the phase of its lookup. -/
theorem aligned_step (store : Store) (request : Request) {lookup : Lookup} (answer : Answer)
    (now : Moment) (aligned : lookup.Aligned (store.cache.flights.get? request.key)) :
    (lookup.step request answer now store).1.Aligned
      ((lookup.step request answer now store).2.cache.flights.get? request.key) := by
  have fronts := fronts_step store request lookup answer now
  have kept := @Aligned.stepOn store.setup request now (store.share request.key) lookup aligned answer
    store.cache.recent.nextStamp
  rw [fronts.flight]
  by_cases missed : lookup = .missed
  · subst missed
    exact aligned
  · rw [fronts.phase missed]
    exact kept

end Lookup

/-! ## Runs -/

namespace Store

/-- Between two calls no flight is under way, and every key that is not in tier 1 is vouched for. -/
structure Stands (kind : Entry → Prop) (store : Store) : Prop extends Holds kind store where
  vouched : ∀ key, key ∉ store.cache.recent.keys → Vouched kind store key
  rest : ∀ key, store.cache.flights.get? key = none

end Store

namespace Run

variable {σ : Type} {kind : Entry → Prop} {request : Request} {now : Moment}
  {start : Store} {run : Run σ} (resolve : Resolver σ)

/-- An undisturbed lookup among entries of a kind, some way after its start. -/
structure Attests (kind : Entry → Prop) (request : Request) (start : Store)
    (run : Run σ) : Prop where
  passes : Store.Passes kind start run.store
  bears : run.lookup.Bears kind request run.store
  aligned : run.lookup.Aligned (run.store.cache.flights.get? request.key)
  rest : ∀ key, key ≠ request.key → run.store.cache.flights.get? key = none

theorem notices_next (request : Request) (now : Moment) (run : Run σ) :
    run.store.notices <+: (run.next resolve request now).store.notices :=
  Lookup.notices_step run.store request run.lookup _ now

theorem notices_advance (request : Request) (now : Moment) (steps : Nat) (run : Run σ) :
    run.store.notices <+: (run.advance resolve request now steps).store.notices := by
  induction steps generalizing run with
  | zero => exact List.prefix_rfl
  | succ steps induction => exact (notices_next resolve request now run).trans (induction _)

theorem notices_whole (request : Request) (now : Moment) (start : Store) (state : σ) :
    start.notices <+: (whole resolve request now start state).store.notices :=
  (notices_advance resolve request now searchSteps ⟨.begun, start, state⟩).trans
    (notices_advance resolve request now _ _)

theorem Attests.next (hereditary : Entry.Hereditary kind)
    (vouched : ∀ key, key ∉ start.cache.recent.keys → Store.Vouched kind start key)
    (fresh : ∀ paths, request.paths = some paths → kind (.new request.key paths now))
    (unfailed : (run.next resolve request now).store.Unfailed) (attests : run.Attests kind request start) :
    (run.next resolve request now).Attests kind request start := by
  obtain ⟨answer, next⟩ : ∃ answer, ((run.next resolve request now).lookup,
      (run.next resolve request now).store) = run.lookup.step request answer now run.store := ⟨_, rfl⟩
  have stepped := Lookup.attests_step hereditary attests.passes.holds
    (fun key gone => attests.passes.vouched vouched gone) attests.bears answer now fresh
    (by rwa [← next])
  have aligned := Lookup.aligned_step run.store request answer now attests.aligned
  have rest := fun key (differs : key ≠ request.key) =>
    (Lookup.flight_step_ne run.store request run.lookup answer now differs).trans
      (attests.rest key differs)
  rw [← next] at stepped aligned rest
  exact ⟨attests.passes.trans stepped.passes, stepped.bears, aligned, rest⟩

theorem Attests.advance (hereditary : Entry.Hereditary kind)
    (vouched : ∀ key, key ∉ start.cache.recent.keys → Store.Vouched kind start key)
    (fresh : ∀ paths, request.paths = some paths → kind (.new request.key paths now)) (steps : Nat)
    (unfailed : (run.advance resolve request now steps).store.Unfailed)
    (attests : run.Attests kind request start) :
    (run.advance resolve request now steps).Attests kind request start := by
  induction steps generalizing run with
  | zero => exact attests
  | succ steps induction =>
      have unfailed_next := unfailed.earlier (notices_advance resolve request now steps _)
      exact induction unfailed (attests.next resolve hereditary vouched fresh unfailed_next)

/-- A lookup that nobody disturbs answers with an entry of the kind, and leaves such entries. -/
theorem whole_attests (hereditary : Entry.Hereditary kind) (stands : start.Stands kind)
    (fresh : ∀ paths, request.paths = some paths → kind (.new request.key paths now)) (state : σ)
    (unfailed : (whole resolve request now start state).store.Unfailed) :
    Store.Passes kind start (whole resolve request now start state).store ∧
      (whole resolve request now start state).store.Stands kind ∧
      ∀ entry ∈ (whole resolve request now start state).lookup.answer?.join,
        entry.key = request.key ∧ kind entry := by
  have begun : Attests kind request start (⟨.begun, start, state⟩ : Run σ) :=
    ⟨.refl stands.toHolds, trivial, stands.rest request.key, fun key _ => stands.rest key⟩
  have searched := begun.advance resolve hereditary stands.vouched fresh searchSteps
    (unfailed.earlier (notices_advance resolve request now _ _))
  have ended := searched.advance resolve hereditary stands.vouched fresh
    (advance resolve request now searchSteps ⟨.begun, start, state⟩).lookup.remaining unfailed
  change (whole resolve request now start state).Attests kind request start at ended
  obtain ⟨found, exhausted⟩ := ended_whole resolve request now start state
  generalize whole resolve request now start state = run at ended found exhausted
  obtain ⟨lookup, store, state⟩ := run
  have bears := ended.bears
  have aligned := ended.aligned
  cases lookup with
  | done answer =>
      refine ⟨ended.passes, ⟨ended.passes.holds,
        fun key gone => ended.passes.vouched stands.vouched gone, fun key => ?_⟩, bears⟩
      by_cases same : key = request.key
      · rw [same]
        exact aligned
      · exact ended.rest key same
  | waiting => exact aligned.elim
  | hydrating aim hydration => simp [Lookup.remaining] at exhausted
  | landing entry => simp [Lookup.remaining] at exhausted
  | _ => simp [Lookup.search] at found

end Run

end TieredCache
