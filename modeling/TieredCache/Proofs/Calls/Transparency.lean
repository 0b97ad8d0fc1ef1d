import TieredCache.Proofs.Calls.Catalogue
import TieredCache.Proofs.Calls.Shares
import TieredCache.Proofs.Store.Opening

/-!
# Two tiers as one map

A cache whose calls are made one after another answers them as a catalogue does: which entries are in
which tier is not to be seen. What holds a share and a card together is `Share.Shows`, key by key.
-/

namespace TieredCache

/-! ## Cards -/

theorem Entry.card_stored (entry : Entry) : entry.stored.card = entry.card := rfl

theorem Entry.card_eq_of_stored {left right : Entry} (same : left.stored = right.stored) :
    left.card = right.card := by
  rw [← card_stored left, same, card_stored]

theorem Entry.params_eq_of_stored {left right : Entry} (same : left.stored = right.stored) :
    left.params = right.params :=
  congrArg Card.params (card_eq_of_stored same)

theorem card_described (cache : Cache) (entry : Entry) :
    (Store.described cache entry).card = entry.card.filled cache.describer := by
  obtain ⟨key, paths, params, tags, created, accessed, count, artifacts, hydrated, stamp⟩ := entry
  unfold Store.described Card.filled
  simp only [Entry.card]
  cases cache.describer.bind fun describer => describer paths with
  | none => split <;> rfl
  | some made =>
      cases tags with
      | none => rfl
      | some tags =>
          obtain ⟨shorthand, description⟩ := tags
          cases shorthand <;> rfl

/-! ## Shares and cards -/

/-- At rest a share has no flight, and the two tiers together hold an entry with the card, or nothing. -/
structure Share.Shows (key : String) (share : Share) (card : Option Card) : Prop where
  rest : share.flight = none
  sound : ∀ entry, share.held? key = some entry → entry.key = key ∧ entry.params.Durable
  card : (share.held? key).map Entry.card = card
  bare : share.held? key = none → share.shelf = none

namespace Share

variable {key : String} {share : Share} {card : Option Card}

/-- An entry in its slot is all that counts. -/
theorem Shows.withSlot {held : Entry} (shows : share.Shows key card) (own : held.key = key)
    (durable : held.params.Durable) : (share.withSlot (some held)).Shows key (some held.card) where
  rest := shows.rest
  sound entry found := by
    rw [held?_of_slot rfl] at found
    obtain rfl := Option.some.inj found
    exact ⟨own, durable⟩
  card := by
    rw [held?_of_slot rfl]
    rfl
  bare nothing := by
    rw [held?_of_slot rfl] at nothing
    cases nothing

theorem Shows.cleared (shows : share.Shows key card) : share.cleared.Shows key none where
  rest := shows.rest
  sound entry found := by cases found
  card := rfl
  bare _ := rfl

theorem shows_nothing {share : Share} (rest : share.flight = none) (slot : share.slot = none)
    (shelf : share.shelf = none) : share.Shows key none := by
  have nothing : share.held? key = none := by rw [held?, slot, shelf]; rfl
  refine ⟨rest, fun entry found => ?_, ?_, fun _ => shelf⟩
  · rw [nothing] at found
    cases found
  · rw [nothing]
    rfl

/-- An eviction takes nothing away from what the two tiers together hold. -/
theorem Shows.keep {later : Share} (shows : share.Shows key card) (keeps : share.Keeps later) :
    later.Shows key card := by
  cases found : share.held? key with
  | none =>
      rw [eq_of_keeps keeps found]
      exact shows
  | some entry =>
      obtain ⟨own, durable⟩ := shows.sound entry found
      obtain ⟨held, later_found, same⟩ := held?_keep keeps found own durable
      refine ⟨keeps.flight.trans shows.rest, fun other read => ?_, ?_, fun nothing => ?_⟩
      · rw [later_found] at read
        obtain rfl := Option.some.inj read
        exact ⟨(Lookup.key_eq_of_stored same).trans own,
          by rw [Entry.params_eq_of_stored same]; exact durable⟩
      · rw [later_found, ← shows.card, found, Option.map_some, Option.map_some,
          Entry.card_eq_of_stored same]
      · rw [later_found] at nothing
        cases nothing

/-- Either tier holds something just when there is a card. -/
theorem Shows.isSome (shows : share.Shows key card) :
    (share.slot.isSome || share.shelf.isSome) = card.isSome := by
  rw [← shows.card, Option.isSome_map]
  cases slot : share.slot with
  | some entry =>
      rw [held?_of_slot slot]
      rfl
  | none =>
      cases found : share.held? key with
      | none =>
          rw [shows.bare found]
          rfl
      | some entry =>
          rw [held?, slot, Option.none_or] at found
          obtain ⟨bytes, shelf, _⟩ := Option.bind_eq_some_iff.1 found
          rw [shelf]
          rfl

end Share

/-! ## Stores and catalogues -/

/-- What a store holds of every key is what a catalogue has of it. -/
structure Store.Shows (store : Store) (catalogue : Catalogue) : Prop where
  resolving : store.cache.resolving = catalogue.resolving
  describer : store.cache.describer = catalogue.describer
  shares : ∀ key, (store.share key).Shows key (catalogue.card? key)

namespace Store

variable {σ : Type} {known : String → Prop} {home : Path} {store after : Store}
  {catalogue : Catalogue} {key : String}

theorem Shows.of_setup (shows : store.Shows catalogue) (setup : after.setup = store.setup)
    {card? : String → Option Card} (shares : ∀ key, (after.share key).Shows key (card? key)) :
    after.Shows { catalogue with card? } :=
  ⟨(congrArg Setup.resolving setup).trans shows.resolving,
    (congrArg Setup.describer setup).trans shows.describer, shares⟩

/-- An operation that is about one key changes the card of this key only. -/
theorem Shows.move (shows : store.Shows catalogue) (moves : Moves known home key store after)
    {card : Option Card} (here : (after.share key).Shows key card) :
    after.Shows (catalogue.set key card) := by
  refine shows.of_setup moves.setup fun asked => ?_
  by_cases same : asked = key
  · subst same
    rw [if_pos rfl]
    exact here
  · rw [if_neg same]
    exact (shows.shares asked).keep (moves.elsewhere asked same)

end Store

/-! ## One call -/

/-- A call that stores no parameters that a record could lose, and that clears no tier alone. -/
def Call.Lossless : Call → Prop
  | .put _ _ params => params.Durable
  | .putEntry entry => entry.params.Durable
  | .clear recentOnly => recentOnly = false
  | _ => True

namespace Store

variable {σ : Type} {known : String → Prop} {home : Path} {store : Store} {catalogue : Catalogue}

/-- A reply and the store after it are those that a catalogue leads to expect. -/
structure Answers (known : String → Prop) (home : Path) (reply : Reply) (after : Store)
    (expected : Sight × Catalogue) : Prop where
  sight : reply.sight = expected.1
  shows : after.Shows expected.2
  tidy : after.Tidy known home

theorem answers_putEntry (distinct : DistinctNames known) (tidy : store.Tidy known home)
    (shows : store.Shows catalogue) {entry : Entry} (key_known : known entry.key)
    (durable : entry.params.Durable) :
    Answers known home (store.answerWriting (store.putEntry entry)).1
      (store.answerWriting (store.putEntry entry)).2 (catalogue.write entry.card) := by
  have key_eq : entry.card.key = entry.key := rfl
  rw [Catalogue.write, key_eq]
  cases nonempty : entry.key.isEmpty with
  | true =>
      rw [putEntry_refused store nonempty, if_pos rfl]
      exact ⟨rfl, shows, tidy⟩
  | false =>
      rw [putEntry_eq nonempty, if_neg Bool.false_ne_true, ← shows.describer, ← card_described]
      obtain ⟨moves, share⟩ := moves_putEntry distinct tidy key_known
      have same_key := key_described store.cache entry
      have params := params_described store.cache entry
      have here : ((store.written (described store.cache entry)).share entry.key).Shows entry.key
          (some ((described store.cache entry).stamped store.cache.recent.nextStamp).card) := by
        rw [share]
        exact (shows.shares entry.key).withSlot same_key (by rw [Entry.stamped, params]; exact durable)
      refine ⟨rfl, ?_, moves.tidy⟩
      have moved := shows.move moves here
      rw [← same_key] at moved
      exact moved

/-- What an undisturbed lookup finds, and what it leaves, is the card of its key. -/
theorem shows_finds {request : Request} {now : Moment} {start share : Share} {answer : Option Entry}
    (shows : start.Shows request.key (catalogue.card? request.key))
    (finds : Lookup.Finds request catalogue.resolving now start answer share) :
    answer.map Entry.card = catalogue.look request now ∧
      share.Shows request.key (catalogue.look request now) := by
  have card := shows.card
  cases finds with
  | @held entry given held found given_eq held_eq =>
      obtain ⟨own, durable⟩ := shows.sound entry found
      rw [found, Option.map_some] at card
      have look : catalogue.look request now = some (entry.touch now).card := by
        rw [Catalogue.look, ← card]
        rfl
      have same_params : held.params = (entry.touch now).params := Entry.params_eq_of_stored held_eq
      have kept : (start.withSlot (some held)).Shows request.key (some held.card) :=
        shows.withSlot ((Lookup.key_eq_of_stored held_eq).trans own)
          (by rw [same_params]; exact durable)
      rw [look, ← Entry.card_eq_of_stored held_eq]
      refine ⟨?_, kept⟩
      rw [Option.map_some, Entry.card_eq_of_stored given_eq, Entry.card_eq_of_stored held_eq]
  | @made paths given held nothing paths_eq resolves free given_eq held_eq =>
      rw [nothing] at card
      have look : catalogue.look request now =
          some ((Entry.new request.key paths now).touch now).card := by
        rw [Catalogue.look, ← card, paths_eq]
        simp only [Option.map_none, resolves, if_true]
        rfl
      have same_params : held.params = .empty := Entry.params_eq_of_stored held_eq
      have kept : (start.cleared.withSlot (some held)).Shows request.key (some held.card) :=
        shows.cleared.withSlot (Lookup.key_eq_of_stored held_eq)
          (by rw [same_params]; exact Params.durable_empty)
      rw [look, ← Entry.card_eq_of_stored held_eq]
      refine ⟨?_, kept⟩
      rw [Option.map_some, Entry.card_eq_of_stored given_eq, Entry.card_eq_of_stored held_eq]
  | shared nothing landed =>
      rw [shows.rest] at landed
      cases landed
  | waits nothing aloft =>
      rw [shows.rest] at aloft
      cases aloft
  | missed nothing unmade =>
      rw [nothing] at card
      have look : catalogue.look request now = none := by
        rw [Catalogue.look, ← card]
        rcases unmade with no_paths | unresolving
        · rw [no_paths]
          rfl
        · cases request.paths with
          | none => rfl
          | some paths => simp [unresolving]
      rw [look]
      exact ⟨rfl, shows.cleared⟩

theorem answers_get (distinct : DistinctNames known) (tidy : store.Tidy known home)
    (shows : store.Shows catalogue) {request : Request} (key_known : known request.key)
    (resolve : Resolver σ) (state : σ) (now : Moment) :
    Answers known home (store.call resolve state now (.get request)).1
      (store.call resolve state now (.get request)).2.1 (catalogue.call now (.get request)) := by
  simp only [Store.call, Catalogue.call]
  cases nonempty : request.key.isEmpty with
  | true =>
      rw [get_refused store resolve state now nonempty, if_pos rfl]
      exact ⟨rfl, shows, tidy⟩
  | false =>
      rw [get_eq store resolve state now nonempty, if_neg Bool.false_ne_true]
      obtain ⟨moves, finds⟩ := Run.whole_spec resolve distinct tidy key_known state
      have resolving : store.setup.resolving = catalogue.resolving := shows.resolving
      rw [resolving] at finds
      obtain ⟨answer, here⟩ := shows_finds (shows.shares request.key) finds
      exact ⟨congrArg Sight.found answer, shows.move moves here, moves.tidy⟩

theorem answers_remove (distinct : DistinctNames known) (tidy : store.Tidy known home)
    (shows : store.Shows catalogue) {key : String} (key_known : known key) (resolve : Resolver σ)
    (state : σ) (now : Moment) :
    Answers known home (store.call resolve state now (.remove key)).1
      (store.call resolve state now (.remove key)).2.1 (catalogue.call now (.remove key)) := by
  simp only [Store.call, Catalogue.call]
  cases nonempty : key.isEmpty with
  | true =>
      rw [remove_refused store nonempty, if_pos rfl]
      exact ⟨rfl, shows, tidy⟩
  | false =>
      obtain ⟨after, removed, moves, share⟩ := remove_spec distinct tidy key_known nonempty
      rw [removed, if_neg Bool.false_ne_true]
      have here : (after.share key).Shows key none := by
        rw [share]
        exact (shows.shares key).cleared
      exact ⟨congrArg Sight.removed (shows.shares key).isSome, shows.move moves here, moves.tidy⟩

theorem answers_clear (tidy : store.Tidy known home) (shows : store.Shows catalogue)
    (resolve : Resolver σ) (state : σ) (now : Moment) :
    Answers known home (store.call resolve state now (.clear false)).1
      (store.call resolve state now (.clear false)).2.1 (catalogue.call now (.clear false)) := by
  obtain ⟨kept, setup, shares⟩ := clear_spec tidy
  refine ⟨rfl, shows.of_setup setup fun key => ?_, kept⟩
  rw [shares]
  exact (shows.shares key).cleared

theorem answers_rebuildIndex (tidy : store.Tidy known home) (shows : store.Shows catalogue)
    (resolve : Resolver σ) (state : σ) (now : Moment) :
    Answers known home (store.call resolve state now .rebuildIndex).1
      (store.call resolve state now .rebuildIndex).2.1 (catalogue.call now .rebuildIndex) := by
  obtain ⟨kept, setup, shares⟩ := rebuildIndex_spec tidy
  refine ⟨rfl, shows.of_setup setup fun key => ?_, kept⟩
  rw [shares]
  exact shows.shares key

theorem stored_advance (resolve : Resolver σ) (steps : Nat) (hydration : Hydration) (state : σ) :
    (Hydration.advance resolve steps hydration state).1.entry.stored = hydration.entry.stored := by
  induction steps generalizing hydration state with
  | zero => rfl
  | succ steps induction => exact (induction _ _).trans (Hydration.stored_step _ hydration)

theorem answers_hydrate (tidy : store.Tidy known home) (shows : store.Shows catalogue) (entry : Entry)
    (resolve : Resolver σ) (state : σ) (now : Moment) :
    Answers known home (store.call resolve state now (.hydrate entry)).1
      (store.call resolve state now (.hydrate entry)).2.1 (catalogue.call now (.hydrate entry)) := by
  have alike := alike_hydrate store resolve state entry
  have card : (store.hydrate resolve state entry).2.1.card = entry.card := by
    have same := stored_advance resolve (Hydration.begin store.cache.resolving entry none).remaining
      (.begin store.cache.resolving entry none) state
    rw [Hydration.entry_begin] at same
    refine Eq.trans ?_ (Entry.card_eq_of_stored same)
    simp only [Store.hydrate]
    generalize (Hydration.advance resolve (Hydration.begin store.cache.resolving entry none).remaining
      (.begin store.cache.resolving entry none) state).1 = hydration
    cases hydration <;> rfl
  refine ⟨congrArg Sight.hydrated card, shows.of_setup alike.setup fun key => ?_, alike.tidy tidy⟩
  have same_share := alike.share key
  exact (congrArg (fun share => share.Shows key (catalogue.card? key)) same_share).mpr
    (shows.shares key)

/-- A call is answered as a catalogue answers it. -/
theorem answers_call (distinct : DistinctNames known) (tidy : store.Tidy known home)
    (shows : store.Shows catalogue) {made : Call} (keys_known : ∀ key ∈ made.key?, known key)
    (lossless : made.Lossless) (resolve : Resolver σ) (state : σ) (now : Moment) :
    Answers known home (store.call resolve state now made).1 (store.call resolve state now made).2.1
      (catalogue.call now made) := by
  cases made with
  | put key paths params =>
      have entry_key : known ({ Entry.new key paths now with params } : Entry).key := keys_known key rfl
      exact answers_putEntry distinct tidy shows entry_key lossless
  | putEntry entry => exact answers_putEntry distinct tidy shows (keys_known entry.key rfl) lossless
  | get request =>
      exact answers_get distinct tidy shows (keys_known request.key rfl) resolve state now
  | hydrate entry => exact answers_hydrate tidy shows entry resolve state now
  | remove key => exact answers_remove distinct tidy shows (keys_known key rfl) resolve state now
  | clear recentOnly =>
      obtain rfl : recentOnly = false := lossless
      exact answers_clear tidy shows resolve state now
  | rebuildIndex => exact answers_rebuildIndex tidy shows resolve state now
  | resetTally =>
      exact ⟨rfl, ⟨shows.resolving, shows.describer, shows.shares⟩, (alike_resetTally store).tidy tidy⟩

/-- Calls that are made one after another are answered as a catalogue answers them. -/
theorem answers_calls (distinct : DistinctNames known) {made : List (Call × Moment)}
    (keys_known : ∀ timed ∈ made, ∀ key ∈ timed.1.key?, known key)
    (lossless : ∀ timed ∈ made, timed.1.Lossless) {store : Store} {catalogue : Catalogue}
    (tidy : store.Tidy known home) (shows : store.Shows catalogue) (resolve : Resolver σ)
    (state : σ) :
    (store.calls resolve state made).1.map Reply.sight = (catalogue.calls made).1 ∧
      (store.calls resolve state made).2.1.Shows (catalogue.calls made).2 ∧
      (store.calls resolve state made).2.1.Tidy known home := by
  induction made generalizing store catalogue state with
  | nil => exact ⟨rfl, shows, tidy⟩
  | cons timed later induction =>
      obtain ⟨made, now⟩ := timed
      obtain ⟨key_known, later_known⟩ := List.forall_mem_cons.1 keys_known
      obtain ⟨lossless_now, lossless_later⟩ := List.forall_mem_cons.1 lossless
      obtain ⟨sight, shows_after, tidy_after⟩ :=
        answers_call distinct tidy shows key_known lossless_now resolve state now
      obtain ⟨sights, after⟩ := induction later_known lossless_later tidy_after shows_after
        (store.call resolve state now made).2.2
      refine ⟨?_, after⟩
      simp only [Store.calls, Catalogue.calls, List.map_cons, sight, sights]

/-- Whether a tier holds a key is whether the catalogue has a card of it. -/
theorem Shows.held (shows : store.Shows catalogue) (tidy : store.Tidy known home) (key : String) :
    (store.cache.recent.contains key || store.cache.archive.contains key) =
      (catalogue.card? key).isSome := by
  have isSome := (shows.shares key).isSome
  rw [Archive.Tidy.contains_iff tidy.archive]
  exact isSome

end Store

/-! ## All calls on a new store -/

/-- A call that stores only integers among its parameters, in at most 126 nested containers, and that
clears no tier alone. -/
def Call.Plain : Call → Prop
  | .put _ _ params => params.Integral ∧ params.toValue.depth ≤ 126
  | .putEntry entry => entry.params.Integral ∧ entry.params.toValue.depth ≤ 126
  | .clear recentOnly => recentOnly = false
  | _ => True

theorem Call.Plain.lossless {made : Call} (plain : made.Plain) : made.Lossless := by
  cases made with
  | put key paths params => exact plain.1.durable (Nat.lt_succ_of_le plain.2)
  | putEntry entry => exact plain.1.durable (Nat.lt_succ_of_le plain.2)
  | clear recentOnly => exact plain
  | _ => trivial

/-- The keys that calls are about. -/
def Call.Names (made : List (Call × Moment)) (key : String) : Prop :=
  ∃ timed ∈ made, timed.1.key? = some key

/-- A cache that is opened in an empty directory answers calls as one unbounded map does, and between
them its two tiers hold the keys of this map. -/
theorem Store.calls_eq_catalogue {σ : Type} {disk : Disk} {settings : Settings} {home : Path}
    (vacant : disk.Vacant (Route.join [] settings.directory) home)
    (valid : settings.validate = .ok ()) (resolving : Bool) (describer : Option Describer)
    (resolve : Resolver σ) (state : σ) (made : List (Call × Moment))
    (distinct : DistinctNames (Call.Names made)) (plain : ∀ timed ∈ made, timed.1.Plain) :
    ∃ store, Store.opened disk settings resolving describer = .ok store ∧
      (store.calls resolve state made).1.map Reply.sight =
        ((Catalogue.empty resolving describer).calls made).1 ∧
      ∀ key, ((store.calls resolve state made).2.1.cache.recent.contains key ||
          (store.calls resolve state made).2.1.cache.archive.contains key) =
        (((Catalogue.empty resolving describer).calls made).2.card? key).isSome := by
  obtain ⟨store, opened, tidy, setup, shares⟩ :=
    Store.opened_vacant vacant valid (Call.Names made) resolving describer
  have shows : store.Shows (Catalogue.empty resolving describer) := by
    refine ⟨congrArg Setup.resolving setup, congrArg Setup.describer setup, fun key => ?_⟩
    rw [shares]
    exact Share.shows_nothing rfl rfl rfl
  have named : ∀ timed ∈ made, ∀ key ∈ timed.1.key?, Call.Names made key :=
    fun timed member key about => ⟨timed, member, about⟩
  obtain ⟨sights, shows_end, tidy_end⟩ := answers_calls distinct named
    (fun timed member => (plain timed member).lossless) tidy shows resolve state
  exact ⟨store, opened, sights, shows_end.held tidy_end⟩

/-- Two entries are written where there is room for one, and the first is looked up. -/
def evictingCalls : List (Call × Moment) :=
  [(.put "k" ["left"] .empty, .epoch), (.put "x" [] .empty, .epoch),
    (.get ⟨"k", none, none⟩, .epoch), (.remove "k", .epoch), (.get ⟨"k", none, none⟩, .epoch)]

/-- What a catalogue answers to these calls is what a cache answers that has to evict. -/
theorem Store.calls_eq_catalogue_evicting :
    ∃ store, Store.opened .bare ⟨1, "cache", true⟩ false none = .ok store ∧
      (store.calls (fun state _ => (.unknown, state)) () evictingCalls).1.map Reply.sight =
        [.written (.new "k" ["left"] .empty .epoch), .written (.new "x" [] .empty .epoch),
          .found (some ((Card.new "k" ["left"] .empty .epoch).read .epoch)), .removed true,
          .found none] := by
  have named : ∀ key, Call.Names evictingCalls key → twoKeys key := by
    rintro key ⟨timed, member, about⟩
    simp only [evictingCalls, List.mem_cons, List.not_mem_nil, or_false] at member
    rcases member with rfl | rfl | rfl | rfl | rfl <;>
      simp [Call.key?] at about <;> simp [twoKeys, ← about]
  have distinct : DistinctNames (Call.Names evictingCalls) := fun left right left_named right_named =>
    distinct_twoKeys left right (named left left_named) (named right right_named)
  have plain : ∀ timed ∈ evictingCalls, timed.1.Plain := by
    simp only [evictingCalls, List.forall_mem_cons]
    exact ⟨⟨trivial, by decide⟩, ⟨trivial, by decide⟩, trivial, trivial, trivial, by simp⟩
  obtain ⟨store, opened, sights, _⟩ := @Store.calls_eq_catalogue Unit _ ⟨1, "cache", true⟩ _
    Disk.vacant_bare rfl false none (fun state _ => (.unknown, state)) () evictingCalls distinct plain
  exact ⟨store, opened, sights⟩

end TieredCache
