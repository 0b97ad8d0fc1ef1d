import TieredCache.Proofs.Archive.Reach
import TieredCache.Proofs.Calls.Superseded
import TieredCache.Proofs.Lookup.Passes
import TieredCache.Proofs.Service.Endings

/-!
# One pass for each residency

Calls are made one after another on a cache that hydrates what it finds. As long as a key stays in tier 1
and is not put again, its resolver goes over the paths of its entry until a pass has come to an end or has
resolved something, and not once after that.
-/

namespace TieredCache

/-- A use of other keys leaves a slot as it is, or empties it. -/
theorem Use.leaves_of_ne {use : Use} {key : String} (elsewhere : use.key? ≠ some key) (stamp : UInt64)
    (evicted : Bool) (slot : Option Entry) :
    use.leaves key stamp evicted slot = slot ∨ use.leaves key stamp evicted slot = none := by
  have differs : ∀ {other : String}, some other ≠ some key → key ≠ other := by
    rintro other apart rfl
    exact apart rfl
  cases use with
  | write other entry =>
      rw [Use.leaves, if_neg (differs elsewhere)]
      cases evicted
      · exact .inl rfl
      · exact .inr rfl
  | offer other entry now =>
      rw [Use.leaves, if_neg (differs elsewhere)]
      cases evicted
      · exact .inl rfl
      · exact .inr rfl
  | fetch other now => exact .inl (if_neg (differs elsewhere))
  | adopt other copy => exact .inl (if_neg (differs elsewhere))
  | erase other => exact .inl (if_neg (differs elsewhere))
  | contains other => exact .inl rfl
  | clear => exact .inr rfl

/-- An entry is hydrated, with given artifacts. -/
structure Entry.Carries (artifacts : Artifacts) (entry : Entry) : Prop where
  hydrated : entry.hydrated = true
  artifacts_eq : entry.artifacts = artifacts

namespace Recent

variable {recent : Recent} {key : String} {artifacts : Artifacts}

/-- If tier 1 holds a key, then hydrated and with given artifacts. -/
def Settled (key : String) (artifacts : Artifacts) (recent : Recent) : Prop :=
  ∀ held, recent.slots.get? key = some held → held.Carries artifacts

theorem Settled.through (settled : recent.Settled key artifacts) (distinct : recent.slots.keys.Nodup)
    {uses : List Use} (elsewhere : ∀ use ∈ uses, use.key? ≠ some key) :
    (recent.through uses).Settled key artifacts := by
  induction uses generalizing recent with
  | nil => exact settled
  | cons use later induction =>
      obtain ⟨apart, elsewhere⟩ := List.forall_mem_cons.1 elsewhere
      refine induction (fun held found => ?_) (distinct_after distinct use) elsewhere
      rw [get?_after distinct] at found
      rcases use.leaves_of_ne apart recent.nextStamp ((recent.evicted use).has key)
        (recent.slots.get? key) with same | gone
      · exact settled held (same ▸ found)
      · rw [gone] at found
        cases found

theorem Settled.fetch (settled : recent.Settled key artifacts) (distinct : recent.slots.keys.Nodup)
    (now : Moment) : (recent.after (.fetch key now)).Settled key artifacts := by
  intro later found
  rw [get?_after distinct, Use.leaves, if_pos rfl] at found
  obtain ⟨held, before, rfl⟩ := Option.map_eq_some_iff.1 found
  exact ⟨(settled held before).hydrated, (settled held before).artifacts_eq⟩

end Recent

/-! ## Lookups of a resident key -/

namespace Run

variable {σ : Type} {request : Request} {now : Moment}

/-- Nothing comes after the end. -/
theorem advance_done (resolve : Resolver σ) (answer : Option Entry) (store : Store) (state : σ)
    (steps : Nat) : advance resolve request now steps ⟨.done answer, store, state⟩ =
      ⟨.done answer, store, state⟩ := by
  induction steps with
  | zero => rfl
  | succ steps induction => exact induction

end Run

namespace Store

variable {σ : Type} {store : Store} {key : String} {artifacts : Artifacts}

/-- A lookup finds a resident entry that is hydrated, and does not ask its resolver. -/
theorem get_of_settled (settled : store.cache.recent.Settled key artifacts)
    (resident : store.cache.recent.contains key = true) (nonempty : key.isEmpty = false)
    {request : Request} (own : request.key = key) (resolve : Resolver σ) (state : σ) (now : Moment) :
    ∃ held, held.Carries artifacts ∧ store.get resolve state request now =
      .ok (some held, (store.withRecent (store.cache.recent.after (.fetch key now))).count .recentHit,
        state) := by
  subst own
  obtain ⟨held, found⟩ := Option.isSome_iff_exists.1 resident
  have carries := settled held found
  have fetched : store.cache.recent.fetch request.key now =
      (some (held.touch now), store.cache.recent.after (.fetch request.key now)) := by
    rw [Recent.after, Recent.serve, Recent.fetch, show store.cache.recent.slots.get? _ = _ from found]
  refine ⟨held.touch now, ⟨carries.hydrated, carries.artifacts_eq⟩, ?_⟩
  have first : (⟨.begun, store, state⟩ : Run σ).next resolve request now =
      ⟨.done (some (held.touch now)),
        (store.withRecent (store.cache.recent.after (.fetch request.key now))).count .recentHit,
        state⟩ := by
    have hydrated : (held.touch now).hydrated = true := carries.hydrated
    simp only [Run.next, Lookup.question?, Lookup.step, fetched, Lookup.ofRecent, hydrated, Bool.not_true,
      Bool.and_false, Bool.false_eq_true, if_false]
  have searched : Run.advance resolve request now Run.searchSteps ⟨.begun, store, state⟩ = _ :=
    (congrArg (Run.advance resolve request now 4) first).trans (Run.advance_done _ _ _ _ _)
  rw [get_eq store resolve state now nonempty, Run.whole]
  simp only [searched, Run.advance_done]
  rfl

end Store

/-! ## Calls -/

namespace Store

variable {σ : Type} {setup : Setup} {store after : Store} {key : String} {artifacts : Artifacts}

/-- A store between two calls, and what the first of them has asked of tier 1: nothing about other keys
than its own. -/
structure Follows (setup : Setup) (made : Call) (before after : Store) : Prop where
  idle : after.Idle setup
  uses : ∃ uses, after.cache.recent = before.cache.recent.through uses ∧
    ∀ use ∈ uses, use.key? = made.key?

theorem Idle.follows (idle : store.Idle setup) {made : Call} (uses : List Use)
    (recent : after.cache.recent = store.cache.recent.through uses)
    (flights : after.cache.flights = store.cache.flights) (same : after.setup = store.setup)
    (own : ∀ use ∈ uses, use.key? = made.key?) : store.Follows setup made after := by
  refine ⟨⟨?_, ?_, same.trans idle.setup⟩, uses, recent, own⟩
  · rw [recent]
    exact Recent.distinct_through idle.distinct uses
  · rw [flights]
    exact idle.rest

theorem Idle.follows_written (idle : store.Idle setup) {made : Call} {entry : Entry}
    (own : made.key? = some entry.key) : store.Follows setup made (store.written entry) := by
  obtain ⟨cache, root, _⟩ := store.spillAll_frame (store.cache.recent.write entry.key entry).1
  refine idle.follows [.write entry.key entry] rfl ?_ ?_ fun use among => ?_
  · simp only [written, withRecent]
    rw [cache]
  · simp only [written, withRecent, Store.setup, root]
    rw [cache]
  · obtain rfl := List.mem_singleton.1 among
    exact own.symm

theorem Idle.follows_putEntry (idle : store.Idle setup) {made : Call} (entry : Entry)
    (own : made.key? = some entry.key) :
    store.Follows setup made (store.answerWriting (store.putEntry entry)).2 := by
  cases empty : entry.key.isEmpty with
  | true =>
      rw [putEntry_refused store empty]
      exact idle.follows [] rfl rfl rfl (List.forall_mem_nil _)
  | false =>
      rw [putEntry_eq empty]
      exact idle.follows_written (own.trans (congrArg some (key_described _ _).symm))

theorem remove_eq (store : Store) {key : String} (nonempty : key.isEmpty = false) :
    let outcome := store.cache.archive.remove store.disk key
    store.remove key = .ok ((store.cache.recent.erase key).1.isSome || outcome.answer,
      (store.withRecent (store.cache.recent.erase key).2).carryOut outcome) := by
  simp only [Store.remove, Fault.checkKey, nonempty]
  rfl

/-- A call leaves a store between two calls. -/
theorem Idle.call (idle : store.Idle setup) (resolve : Resolver σ) (state : σ) (now : Moment)
    (made : Call) : store.Follows setup made (store.call resolve state now made).2.1 := by
  cases made with
  | put key paths params => exact idle.follows_putEntry { Entry.new key paths now with params } rfl
  | putEntry entry => exact idle.follows_putEntry entry rfl
  | get request =>
      rw [Store.call]
      cases empty : request.key.isEmpty with
      | true =>
          rw [get_refused store resolve state now empty]
          exact idle.follows [] rfl rfl rfl (List.forall_mem_nil _)
      | false =>
          rw [get_eq store resolve state now empty]
          obtain ⟨undisturbed, _, left⟩ := Run.whole_undisturbed idle resolve request now state
          exact ⟨left, undisturbed.uses⟩
  | hydrate entry => exact idle.follows [] rfl rfl rfl (List.forall_mem_nil _)
  | remove key =>
      rw [Store.call]
      cases empty : key.isEmpty with
      | true =>
          rw [remove_refused store empty]
          exact idle.follows [] rfl rfl rfl (List.forall_mem_nil _)
      | false =>
          rw [remove_eq store empty]
          refine idle.follows [.erase key] rfl rfl ?_ fun use among => ?_
          · simp only [Store.setup, carryOut, withRecent, Archive.archive_remove]
          · obtain rfl := List.mem_singleton.1 among
            rfl
  | clear recentOnly =>
      refine idle.follows [.clear] ?_ ?_ ?_ fun use among => ?_
      · cases recentOnly <;> rfl
      · cases recentOnly <;> rfl
      · cases recentOnly <;> rfl
      · obtain rfl := List.mem_singleton.1 among
        rfl
  | rebuildIndex => exact idle.follows [] rfl rfl rfl (List.forall_mem_nil _)
  | resetTally => exact idle.follows [] rfl rfl rfl (List.forall_mem_nil _)

/-- Calls leave a store between two calls. -/
theorem Idle.calls (idle : store.Idle setup) (resolve : Resolver σ) (state : σ)
    (made : List (Call × Moment)) : (store.calls resolve state made).2.1.Idle setup := by
  induction made generalizing store state with
  | nil => exact idle
  | cons first later induction => exact induction (idle.call resolve state first.2 first.1).idle _

/-- A store that is opened is between two calls. -/
theorem idle_of_opened {disk : Disk} {settings : Settings} {resolving : Bool} {describer : Option Describer}
    (opens : opened disk settings resolving describer = .ok store) : store.Idle store.setup := by
  obtain ⟨_, _, cache⟩ := opened_ok opens
  refine ⟨?_, fun key => ?_, rfl⟩
  · rw [cache]
    exact Recent.distinct_empty settings.memoryLimit
  · rw [cache]
    rfl

/-! ## Residencies -/

/-- A key stays in tier 1 during calls, and none of them puts it. -/
def stays (key : String) (resolve : Resolver σ) : Store → σ → List (Call × Moment) → Bool
  | _, _, [] => true
  | store, state, (made, now) :: later =>
    let (_, after, next) := store.call resolve state now made
    !made.puts key && after.cache.recent.contains key && stays key resolve after next later

/-- A call that does not put a settled key leaves it settled, if it leaves it. -/
theorem settled_call (idle : store.Idle setup) (settled : store.cache.recent.Settled key artifacts)
    (resident : store.cache.recent.contains key = true) (nonempty : key.isEmpty = false)
    (resolve : Resolver σ) (state : σ) (now : Moment) {made : Call} (spares : made.puts key = false) :
    (store.call resolve state now made).2.1.cache.recent.Settled key artifacts := by
  obtain ⟨uses, recent, own⟩ := (idle.call resolve state now made).uses
  by_cases about : made.key? = some key
  · cases made with
    | put other paths params => exact absurd (Option.some.inj about) (of_decide_eq_false spares)
    | putEntry entry => exact absurd (Option.some.inj about) (of_decide_eq_false spares)
    | get request =>
        obtain rfl := Option.some.inj about
        obtain ⟨held, carries, found⟩ := get_of_settled settled resident nonempty rfl resolve state now
        rw [Store.call, found]
        exact settled.fetch idle.distinct now
    | remove other =>
        obtain rfl := Option.some.inj about
        rw [Store.call, remove_eq store nonempty]
        intro held found
        have gone := Keyed.get?_erase store.cache.recent.slots other other
        rw [if_pos rfl] at gone
        cases gone.symm.trans found
    | _ => cases about
  · rw [recent]
    exact settled.through idle.distinct fun use among => own use among ▸ about

/-- A settled key that stays in tier 1 during calls is settled after them. -/
theorem settled_calls (idle : store.Idle setup) (settled : store.cache.recent.Settled key artifacts)
    (resident : store.cache.recent.contains key = true) (nonempty : key.isEmpty = false)
    (resolve : Resolver σ) (state : σ) {made : List (Call × Moment)}
    (kept : store.stays key resolve state made = true) :
    (store.calls resolve state made).2.1.cache.recent.Settled key artifacts ∧
      (store.calls resolve state made).2.1.cache.recent.contains key = true := by
  induction made generalizing store state with
  | nil => exact ⟨settled, resident⟩
  | cons first later induction =>
      obtain ⟨⟨spares, still⟩, kept⟩ :=
        (Bool.and_eq_true_iff.1 kept).imp_left Bool.and_eq_true_iff.1
      have spares : first.1.puts key = false := by simpa using spares
      exact induction (idle.call resolve state first.2 first.1).idle
        (settled_call idle settled resident nonempty resolve state first.2 spares) still _ kept

/-- A lookup finds an entry with given artifacts, and its resolver is left as it was. -/
def Keeps (store : Store) (resolve : Resolver σ) (state : σ) (request : Request) (now : Moment)
    (artifacts : Artifacts) : Prop :=
  ∃ given after, store.get resolve state request now = .ok (some given, after, state) ∧
    given.artifacts = artifacts

theorem keeps_of_settled (idle : store.Idle setup) {request : Request}
    (settled : store.cache.recent.Settled request.key artifacts)
    (resident : store.cache.recent.contains request.key = true) (nonempty : request.key.isEmpty = false)
    (resolve : Resolver σ) (state : σ) (now : Moment) {made : List (Call × Moment)}
    (kept : store.stays request.key resolve state made = true) :
    (store.calls resolve state made).2.1.Keeps resolve (store.calls resolve state made).2.2 request now
      artifacts := by
  obtain ⟨still, there⟩ := settled_calls idle settled resident nonempty resolve state kept
  obtain ⟨held, carries, found⟩ :=
    get_of_settled still there nonempty rfl resolve (store.calls resolve state made).2.2 now
  exact ⟨held, _, found, carries.artifacts_eq⟩

/-- After a lookup that finds an entry, its pass was cut short or the next lookup finds the same artifacts. -/
theorem keeps_of_get (idle : store.Idle setup) (resolves : setup.resolving = true)
    (automatic : setup.autoHydrate = true) {resolve : Resolver σ} {log seen : σ × Pass} {request last : Request}
    {moment : Moment} {given : Entry} {made : Store}
    (makes : store.call resolve.logged log moment (.get request) = (.found (some given), made, seen))
    (own : request.key = last.key) {between : List (Call × Moment)}
    (kept : made.stays last.key resolve.logged seen between = true) (now : Moment) :
    ∃ pass : Pass, seen.2 = log.2 ++ pass ∧ pass.map Prod.fst <+: given.paths ∧
      (pass.CutShort request.deadline given ∨ (made.calls resolve.logged seen between).2.1.Keeps resolve.logged
        (made.calls resolve.logged seen between).2.2 last now given.artifacts) := by
  have found : store.get resolve.logged log request moment = .ok (some given, made, seen) := by
    rw [Store.call] at makes
    split at makes
    · rename_i ended
      cases makes
      exact ended
    · cases makes
  have nonempty : request.key.isEmpty = false := by
    cases empty : request.key.isEmpty with
    | false => rfl
    | true => cases (get_refused store resolve.logged log moment empty).symm.trans found
  have later := (idle.call resolve.logged log moment (.get request)).idle
  rw [makes] at later
  obtain ⟨pass, entered, leaves⟩ := idle.get_leaves resolves automatic found
  refine ⟨pass, entered, leaves.ends.inOrder, ?_⟩
  rcases leaves.ends.decided with hydrated | cut
  · obtain ⟨held, slot, same_flag, same_artifacts⟩ := leaves.kept
    rw [own] at slot nonempty
    refine .inr (keeps_of_settled later ?_ ?_ nonempty resolve.logged seen now kept)
    · intro other found
      obtain rfl := Option.some.inj (slot.symm.trans found)
      exact ⟨same_flag.trans hydrated, same_artifacts⟩
    · exact Option.isSome_iff_exists.2 ⟨held, slot⟩
  · exact .inl cut

/-- After a put with hydration, the next lookup finds the artifacts that were put. -/
theorem keeps_of_putEntry (idle : store.Idle setup) {resolve : Resolver σ} {log seen : σ} {last : Request}
    {moment : Moment} {entry : Entry} {reply : Reply} {made : Store}
    (makes : store.call resolve log moment (.putEntry entry) = (reply, made, seen))
    (own : entry.key = last.key) (nonempty : entry.key.isEmpty = false) (hydrated : entry.hydrated = true)
    {between : List (Call × Moment)} (kept : made.stays last.key resolve seen between = true) (now : Moment) :
    (made.calls resolve seen between).2.1.Keeps resolve (made.calls resolve seen between).2.2 last now
      entry.artifacts := by
  have after := (idle.call resolve log moment (.putEntry entry)).idle
  have written : store.call resolve log moment (.putEntry entry) =
      (.written (described store.cache entry), store.written (described store.cache entry), log) := by
    rw [Store.call, putEntry_eq nonempty]
    rfl
  rw [written] at after makes
  cases makes
  have slot : (store.written (described store.cache entry)).cache.recent.slots.get? last.key =
      some ((described store.cache entry).stamped store.cache.recent.nextStamp) := by
    refine (Recent.get?_after idle.distinct (.write _ _) last.key).trans ?_
    rw [Use.leaves, key_described, if_pos own.symm]
  obtain ⟨tags, same⟩ := described_eq store.cache entry
  rw [own] at nonempty
  refine keeps_of_settled after ?_ ?_ nonempty resolve _ now kept
  · intro other found
    obtain rfl := Option.some.inj (slot.symm.trans found)
    rw [same]
    exact ⟨hydrated, rfl⟩
  · exact Option.isSome_iff_exists.2 ⟨_, slot⟩

/-- Calls are made one after another. A lookup of a key finds an entry, the key stays in tier 1 during the
calls that come after, and none of them puts it. Then the lookup has gone over the paths of the entry in
order until the deadline passed before anything was resolved, or the next lookup of the key asks the resolver
nothing and finds the same artifacts. It asks nothing either if the key was put with hydration. -/
theorem resolves_once {disk : Disk} {settings : Settings} {describer : Option Describer}
    (opens : opened disk settings true describer = .ok store) (automatic : settings.autoHydrate = true)
    {resolve : Resolver σ} {state : σ} {earlier between : List (Call × Moment)} {begun made ended : Store}
    {log seen known : σ × Pass} {first : Call} {moment : Moment} {reply : Reply} {last : Request}
    (starts : (store.calls resolve.logged (state, []) earlier).2 = (begun, log))
    (makes : begun.call resolve.logged log moment first = (reply, made, seen))
    (kept : made.stays last.key resolve.logged seen between = true)
    (ends : (made.calls resolve.logged seen between).2 = (ended, known)) (now : Moment) :
    (∀ request given, first = .get request → request.key = last.key → reply = .found (some given) →
      ∃ pass : Pass, seen.2 = log.2 ++ pass ∧ pass.map Prod.fst <+: given.paths ∧
        (pass.CutShort request.deadline given ∨
          ended.Keeps resolve.logged known last now given.artifacts)) ∧
    (∀ entry, first = .putEntry entry → entry.key = last.key → entry.key.isEmpty = false →
      entry.hydrated = true → ended.Keeps resolve.logged known last now entry.artifacts) := by
  obtain ⟨rfl, rfl⟩ := Prod.mk.inj starts
  obtain ⟨rfl, rfl⟩ := Prod.mk.inj ends
  have idle := (idle_of_opened opens).calls resolve.logged (state, []) earlier
  obtain ⟨_, _, cache⟩ := opened_ok opens
  have resolves : store.setup.resolving = true := congrArg Cache.resolving cache
  have hydrates : store.setup.autoHydrate = true := (congrArg Cache.autoHydrate cache).trans automatic
  refine ⟨?_, ?_⟩
  · rintro request given rfl own rfl
    exact keeps_of_get idle resolves hydrates makes own kept now
  · rintro entry rfl own nonempty hydrated
    exact keeps_of_putEntry idle makes own nonempty hydrated kept now

/-- A resolver that finds "p" alone, with a new artifact each time. -/
def finder : Resolver Nat := fun count path =>
  (if path = "p" then .found ⟨count, .text path⟩ else .unknown, count + 1)

/-- A put of "k". -/
def outset : List (Call × Moment) := [(.put "k" ["q", "p"] .empty, .epoch)]

/-- Calls about another key, for which there is room. -/
def detour : List (Call × Moment) := [(.put "x" ["p"] .empty, .epoch), (.get ⟨"x", none, none⟩, .epoch)]

/-- The first lookup asks for both paths. The next one asks for none and finds what the first has found,
though the resolver would make another artifact. -/
theorem resolves_once_finder :
    let begun := (Service.roomy.calls finder.logged (0, []) outset).2
    let made := begun.1.call finder.logged begun.2 .epoch (.get ⟨"k", none, none⟩)
    let ended := (made.2.1.calls finder.logged made.2.2 detour).2
    made.2.1.stays "k" finder.logged made.2.2 detour = true ∧ ended.2.2.map Prod.fst = ["q", "p", "p"] ∧
      ended.1.Keeps finder.logged ended.2 ⟨"k", none, none⟩ .epoch [("p", ⟨1, .text "p"⟩)] := by
  intro begun made ended
  have kept : made.2.1.stays "k" finder.logged made.2.2 detour = true := by decide +kernel
  have asked : ended.2.2.map Prod.fst = ["q", "p", "p"] := by decide +kernel
  have found : made.1.found?.map Entry.artifacts = some [("p", ⟨1, .text "p"⟩)] := by decide +kernel
  have starts : (Service.roomy.calls finder.logged (0, []) outset).2 = (begun.1, begun.2) :=
    (Prod.eta begun).symm
  have makes : begun.1.call finder.logged begun.2 .epoch (.get ⟨"k", none, none⟩) =
      (made.1, made.2.1, made.2.2) := (Prod.eta made).symm
  have ends : (made.2.1.calls finder.logged made.2.2 detour).2 = (ended.1, ended.2) :=
    (Prod.eta ended).symm
  clear_value ended made begun
  obtain ⟨given, answered, artifacts⟩ := Option.map_eq_some_iff.1 found
  obtain ⟨pass, _, _, decided⟩ :=
    (resolves_once Service.opened_roomy rfl starts makes kept ends .epoch).1 _ given rfl rfl
      (Reply.eq_found answered)
  refine ⟨kept, asked, ?_⟩
  rcases decided with cut | keeps
  · cases cut.passed
  · exact artifacts ▸ keeps

end Store

end TieredCache
