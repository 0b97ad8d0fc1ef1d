import TieredCache.Proofs.Lookup.Kinds

/-!
# Superseded entries

A put writes to tier 1 only, and leaves in tier 2 what is there of its key. As long as no spill fails, calls
made one after another do not bring it back, with two exceptions. When tier 1 is cleared alone while it has
held the key ever since the put, the older record of the key comes to light. And when the index is made anew,
it may list a record of the key that it did not list before, one that was in the directory when the cache was
opened. `Store.remnant` follows the older record through a list of calls.
-/

namespace TieredCache

open Archive

/-- The entry that a reply has found. -/
def Reply.found? : Reply → Option Entry
  | .found entry => entry
  | _ => none

theorem Reply.eq_found {reply : Reply} {entry : Entry} (finds : reply.found? = some entry) :
    reply = .found (some entry) := by
  cases reply with
  | found given => exact congrArg Reply.found finds
  | _ => cases finds

namespace Call

/-- Whether a call puts an entry of a key. -/
def puts (key : String) : Call → Bool
  | .put written _ _ => decide (written = key)
  | .putEntry entry => decide (entry.key = key)
  | _ => false

/-- Whether a call drops what both tiers have of a key. -/
def drops (key : String) : Call → Bool
  | .remove other => decide (other = key)
  | .clear recentOnly => !recentOnly
  | _ => false

/-- Whether a call clears tier 1 and leaves tier 2. -/
def dropsRecent : Call → Bool
  | .clear recentOnly => recentOnly
  | _ => false

/-- Whether a call makes the index anew, and it then has another file for a key than before. -/
def relists (key : String) (before after : Index) : Call → Bool
  | .rebuildIndex => after.has key && decide (after.get? key ≠ before.get? key)
  | _ => false

end Call

/-- What there is of a key that is older than the entry put last. -/
inductive Remnant where
  /-- There may be an older record, and tier 1 has held the key ever since the put, or since the record was
  listed. -/
  | covered
  /-- There is none. -/
  | gone
  /-- There is an older record, and it is what tier 2 has of the key. -/
  | bare
deriving DecidableEq

/-- What a call makes of a remnant. -/
def Remnant.next (key : String) (made : Call) (before after : Store) (remnant : Remnant) : Remnant :=
  if made.puts key then .covered
  else if made.drops key then .gone
  else
    match remnant with
    | .covered =>
      if made.dropsRecent && before.cache.archive.contains key then .bare
      else if after.cache.recent.contains key then .covered
      -- The key has been evicted, and its older record is written over.
      else .gone
    | .gone =>
      if made.relists key before.cache.archive.index after.cache.archive.index then
        if after.cache.recent.contains key then .covered else .bare
      else .gone
    | .bare => .bare

theorem Call.relists_eq_false {made : Call} (other : made ≠ .rebuildIndex) (key : String)
    (before after : Index) : made.relists key before after = false := by
  cases made with
  | rebuildIndex => exact absurd rfl other
  | _ => rfl

namespace Store

variable {σ : Type}

/-- The entry that a call brings, if it succeeds: one that is put, or made anew. -/
def brought (store : Store) (now : Moment) : Call → Option Entry
  | .put key paths params => some (described store.cache { Entry.new key paths now with params })
  | .putEntry entry => some (described store.cache entry)
  | .get request => request.paths.map fun paths => Entry.new request.key paths now
  | _ => none

/-- What calls make of a remnant. -/
def remnant (resolve : Resolver σ) (key : String) :
    Store → σ → List (Call × Moment) → Remnant → Remnant
  | _, _, [], left => left
  | store, state, (made, now) :: later, left =>
    let (_, after, state) := store.call resolve state now made
    after.remnant resolve key state later (left.next key made store after)

/-- The stores that a cache comes to by calls made one after another, whose files nobody else edits. -/
inductive Reached : Store → Prop where
  /-- The cache is opened, whatever is in its directory. -/
  | opened {disk : Disk} {settings : Settings} {resolving : Bool} {describer : Option Describer}
      {store : Store} (opens : Store.opened disk settings resolving describer = .ok store) : Reached store
  /-- A call is made. -/
  | called {store : Store} (before : Reached store) {σ : Type} (resolve : Resolver σ) (state : σ)
      (now : Moment) (made : Call) : Reached (store.call resolve state now made).2.1

/-! ## One call -/

variable {kind : Entry → Prop} {store : Store} {now : Moment} {made : Call}

theorem notices_putEntry (store : Store) (entry : Entry) :
    store.notices <+: (store.answerWriting (store.putEntry entry)).2.notices := by
  cases nonempty : entry.key.isEmpty with
  | true =>
      rw [putEntry_refused store nonempty]
      exact List.prefix_rfl
  | false =>
      rw [putEntry_eq nonempty]
      exact store.notices_written _

/-- A call takes no notice back. -/
theorem notices_call (resolve : Resolver σ) (store : Store) (state : σ) (now : Moment) (made : Call) :
    store.notices <+: (store.call resolve state now made).2.1.notices := by
  cases made with
  | put key paths params => exact store.notices_putEntry _
  | putEntry entry => exact store.notices_putEntry entry
  | get request =>
      cases nonempty : request.key.isEmpty with
      | true =>
          simp only [Store.call, get_refused store resolve state now nonempty]
          exact List.prefix_rfl
      | false =>
          simp only [Store.call, get_eq store resolve state now nonempty]
          exact Run.notices_whole resolve request now store state
  | remove key =>
      cases nonempty : key.isEmpty with
      | true =>
          simp only [Store.call, remove_refused store nonempty]
          exact List.prefix_rfl
      | false =>
          simp only [Store.call, Store.remove, Fault.checkKey, nonempty]
          exact List.prefix_append _ _
  | clear recentOnly =>
      cases recentOnly with
      | true => exact List.prefix_rfl
      | false => exact List.prefix_append _ _
  | resetTally => exact List.prefix_rfl
  | _ => exact List.prefix_append _ _

theorem notices_calls (resolve : Resolver σ) (store : Store) (state : σ) (made : List (Call × Moment)) :
    store.notices <+: (store.calls resolve state made).2.1.notices := by
  induction made generalizing store state with
  | nil => exact List.prefix_rfl
  | cons timed later induction =>
      obtain ⟨made, now⟩ := timed
      exact (notices_call resolve store state now made).trans (induction _ _)

theorem described_congr {left right : Cache} (same : left.describer = right.describer)
    (entry : Entry) : described left entry = described right entry := by
  unfold described
  rw [same]

theorem brought_congr {left right : Store} (same : left.cache.describer = right.cache.describer)
    (now : Moment) (made : Call) : left.brought now made = right.brought now made := by
  cases made with
  | put key paths params => exact congrArg some (described_congr same _)
  | putEntry entry => exact congrArg some (described_congr same _)
  | _ => rfl

theorem flights_written (store : Store) (entry : Entry) :
    (store.written entry).cache.flights = store.cache.flights := by
  obtain ⟨cache, _, _⟩ := store.spillAll_frame (store.cache.recent.write entry.key entry).1
  simp only [written, withRecent]
  rw [cache]

theorem Stands.passed {after : Store} (stands : store.Stands kind)
    (passes : Passes kind store after)
    (flights : after.cache.flights = store.cache.flights) :
    Passes kind store after ∧ after.Stands kind := by
  refine ⟨passes, passes.holds, fun key gone => passes.vouched stands.vouched gone, fun key => ?_⟩
  rw [flights]
  exact stands.rest key

/-- A lookup answers with an entry of its key and of the kind, or with none. -/
theorem Stands.get (hereditary : Entry.Hereditary kind) (stands : store.Stands kind)
    {request : Request} (nonempty : request.key.isEmpty = false)
    (brings : ∀ entry ∈ store.brought now (.get request), kind entry) (resolve : Resolver σ)
    (state : σ) (unfailed : (store.call resolve state now (.get request)).2.1.Unfailed) :
    ∃ answer after next, store.call resolve state now (.get request) = (.found answer, after, next) ∧
      (Passes kind store after ∧ after.Stands kind) ∧
      ∀ entry ∈ answer, entry.key = request.key ∧ kind entry := by
  have fresh : ∀ paths, request.paths = some paths → kind (.new request.key paths now) := by
    intro paths given
    refine brings _ ?_
    rw [brought, given]
    rfl
  simp only [Store.call, get_eq store resolve state now nonempty] at unfailed ⊢
  obtain ⟨passes, stands_after, good⟩ := Run.whole_attests resolve hereditary stands fresh state unfailed
  exact ⟨_, _, (Run.whole resolve request now store state).state, rfl, ⟨passes, stands_after⟩, good⟩

theorem Stands.putEntry (hereditary : Entry.Hereditary kind) (stands : store.Stands kind)
    {entry : Entry} (good : kind (described store.cache entry))
    (unfailed : (store.answerWriting (store.putEntry entry)).2.Unfailed) :
    Passes kind store (store.answerWriting (store.putEntry entry)).2 ∧
      (store.answerWriting (store.putEntry entry)).2.Stands kind := by
  cases nonempty : entry.key.isEmpty with
  | true =>
      rw [putEntry_refused store nonempty]
      exact ⟨.refl stands.toHolds, stands⟩
  | false =>
      rw [putEntry_eq nonempty] at unfailed ⊢
      obtain ⟨passes, _⟩ := passes_written hereditary stands.flights
        (fun pair among _ => stands.slots pair among) good unfailed
      exact stands.passed passes (flights_written store _)

/-- A call keeps to the kind, if what it brings is of the kind and what it brings to light is vouched for. -/
theorem Stands.call (hereditary : Entry.Hereditary kind) (stands : store.Stands kind)
    (brings : ∀ entry ∈ store.brought now made, kind entry)
    (sheltered : made.dropsRecent = true → ∀ key ∈ store.cache.recent.keys, Vouched kind store key)
    (resolve : Resolver σ) (state : σ)
    (relisted : made = .rebuildIndex → ∀ key, Vouched kind store key →
      Vouched kind store.rebuildIndex.2 key)
    (unfailed : (store.call resolve state now made).2.1.Unfailed) :
    Passes kind store (store.call resolve state now made).2.1 ∧
      (store.call resolve state now made).2.1.Stands kind := by
  cases made with
  | put key paths params => exact stands.putEntry hereditary (brings _ rfl) unfailed
  | putEntry entry => exact stands.putEntry hereditary (brings _ rfl) unfailed
  | get request =>
      cases nonempty : request.key.isEmpty with
      | true =>
          simp only [Store.call, get_refused store resolve state now nonempty]
          exact ⟨.refl stands.toHolds, stands⟩
      | false =>
          obtain ⟨answer, after, next, called, kept, _⟩ :=
            stands.get hereditary nonempty brings resolve state unfailed
          rw [called]
          exact kept
  | hydrate entry => exact stands.passed (stands.toHolds.alike (alike_hydrate store resolve state entry)) rfl
  | remove key =>
      cases nonempty : key.isEmpty with
      | true =>
          simp only [Store.call, remove_refused store nonempty]
          exact ⟨.refl stands.toHolds, stands⟩
      | false =>
          obtain ⟨held, after, removed, flights, passes, _⟩ := passes_removed stands.flights
            (fun pair among _ => stands.slots pair among) nonempty
          simp only [Store.call, removed]
          exact stands.passed passes flights
  | clear recentOnly =>
      cases recentOnly with
      | true => exact stands.passed (stands.toHolds.clearRecent (sheltered rfl)) rfl
      | false => exact stands.passed (passes_cleared stands.flights).1 rfl
  | rebuildIndex =>
      have passes : Passes kind store store.rebuildIndex.2 :=
        ⟨⟨stands.slots, stands.flights⟩, rfl, relisted rfl, fun _ here gone => absurd here gone⟩
      exact stands.passed passes rfl
  | resetTally => exact stands.passed (stands.toHolds.alike (alike_resetTally store)) rfl

/-! ## Reaching a store -/

theorem hereditary_true : Entry.Hereditary fun _ => True := ⟨fun _ _ => trivial, fun _ _ => trivial,
  fun _ _ => trivial⟩

/-- Every call leaves no flight under way. -/
theorem Stands.any_call (stands : store.Stands (fun _ => True)) (resolve : Resolver σ) (state : σ)
    (now : Moment) (made : Call) (unfailed : (store.call resolve state now made).2.1.Unfailed) :
    Passes (fun _ => True) store (store.call resolve state now made).2.1 ∧
      (store.call resolve state now made).2.1.Stands (fun _ => True) :=
  stands.call hereditary_true (fun _ _ => trivial) (fun _ _ _ _ _ => trivial) resolve state
    (fun _ _ _ _ _ => trivial) unfailed

/-- In every store that is reached no flight is under way. -/
theorem Reached.stands (reached : store.Reached) (unfailed : store.Unfailed) :
    store.Stands (fun _ => True) := by
  induction reached with
  | @opened disk settings resolving describer store opens =>
      obtain ⟨_, _, cache⟩ := opened_ok opens
      refine ⟨⟨?_, ?_⟩, fun _ _ _ _ => trivial, ?_⟩
      · rw [cache]
        rintro pair ⟨⟩
      · rw [cache]
        rintro key entry ⟨⟩
      · rw [cache]
        exact fun key => rfl
  | @called store before _ resolve state now made induction =>
      have stands := induction (unfailed.earlier (notices_call resolve store state now made))
      exact (stands.any_call resolve state now made unfailed).2

/-! ## Fresh starts -/

theorem Stands.quiet {held : Entry → Prop} (stands : store.Stands held) (key : String)
    (entry : Entry) (landed : store.cache.flights.get? key = some (.landed entry)) :
    entry.key = key ∧ kind entry := by
  rw [stands.rest key] at landed
  cases landed

section FreshStarts

variable {key : String} (rare : ∀ entry : Entry, entry.key ≠ key → kind entry)
include rare

theorem vouched_of_ne {other : String} (differs : other ≠ key) (store : Store) :
    Vouched kind store other := by
  intro entry sound
  refine rare entry ?_
  rw [key_of_sound sound]
  exact differs

/-- If the key is vouched for, all are. -/
theorem vouched_of_key (vouched : Vouched kind store key) (other : String) :
    Vouched kind store other := by
  by_cases same : other = key
  · rw [same]
    exact vouched
  · exact vouched_of_ne rare same store

theorem Stands.others {held : Entry → Prop} (stands : store.Stands held) :
    ∀ pair ∈ store.cache.recent.slots, pair.1 ≠ key → pair.2.key = pair.1 ∧ kind pair.2 := by
  intro pair among differs
  have own := (stands.slots pair among).1
  refine ⟨own, rare pair.2 ?_⟩
  rw [own]
  exact differs

/-- A put of a key makes a fresh start, whatever was there of the key. -/
theorem Stands.put (hereditary : Entry.Hereditary kind) (stands : store.Stands (fun _ => True))
    (nonempty : key.isEmpty = false) (puts : made.puts key = true)
    (brings : ∀ entry ∈ store.brought now made, kind entry) (resolve : Resolver σ) (state : σ)
    (unfailed : (store.call resolve state now made).2.1.Unfailed) :
    let after := (store.call resolve state now made).2.1
    after.Stands kind ∧ key ∈ after.cache.recent.keys := by
  have written : ∀ entry : Entry, entry.key = key → kind (described store.cache entry) →
      (store.answerWriting (store.putEntry entry)).2.Unfailed →
      (store.answerWriting (store.putEntry entry)).2.Stands kind ∧
        key ∈ (store.answerWriting (store.putEntry entry)).2.cache.recent.keys := by
    rintro entry rfl good unfailed
    have same_key := key_described store.cache entry
    have others := stands.others rare
    rw [← same_key] at others
    rw [putEntry_eq nonempty] at unfailed ⊢
    obtain ⟨passes, here⟩ := passes_written hereditary stands.quiet others good unfailed
    rw [same_key] at here
    refine ⟨⟨passes.holds, fun other gone => vouched_of_ne rare ?_ _, fun other => ?_⟩, here⟩
    · rintro rfl
      exact gone here
    · refine (congrArg (fun flights => Keyed.get? flights other) (flights_written store _)).trans ?_
      exact stands.rest other
  cases made with
  | put other paths params => exact written _ (of_decide_eq_true puts) (brings _ rfl) unfailed
  | putEntry entry => exact written entry (of_decide_eq_true puts) (brings _ rfl) unfailed
  | _ => cases puts

/-- A call that drops what both tiers have of a key makes a fresh start, too. -/
theorem Stands.drop (stands : store.Stands (fun _ => True)) (nonempty : key.isEmpty = false)
    (drops : made.drops key = true) (resolve : Resolver σ) (state : σ) :
    let after := (store.call resolve state now made).2.1
    after.Stands kind ∧ Vouched kind after key := by
  have renewed : ∀ after : Store, Passes kind store after → Vouched kind after key →
      after.cache.flights = store.cache.flights →
        after.Stands kind ∧ Vouched kind after key := by
    intro after passes vouched flights
    refine ⟨⟨passes.holds, fun other _ => vouched_of_key rare vouched other, fun other => ?_⟩, vouched⟩
    rw [flights]
    exact stands.rest other
  cases made with
  | remove other =>
      obtain rfl := of_decide_eq_true drops
      obtain ⟨held, after, removed, flights, passes, vouched⟩ :=
        passes_removed stands.quiet (stands.others rare) nonempty
      simp only [Store.call, removed]
      exact renewed after passes vouched flights
  | clear recentOnly =>
      cases recentOnly with
      | true => cases drops
      | false =>
          obtain ⟨passes, vouched⟩ := passes_cleared stands.quiet
          exact renewed _ passes (vouched key) rfl
  | _ => cases drops

end FreshStarts

/-! ## Remnants -/

/-- What is known of a store by what is left of a key: as long as no older record is bare, entries are of the
kind, and if there is no older record, all that is left of the key is. -/
def Suits (kind : Entry → Prop) (key : String) (store : Store) : Remnant → Prop
  | .covered => store.Stands kind ∧ key ∈ store.cache.recent.keys
  | .gone => store.Stands kind ∧ Vouched kind store key
  | .bare => True

theorem Suits.stands {key : String} {left : Remnant} (suits : store.Suits kind key left)
    (hidden : left ≠ .bare) : store.Stands kind := by
  cases left with
  | covered => exact suits.1
  | gone => exact suits.1
  | bare => exact absurd rfl hidden

section Remnants

variable {key : String} (rare : ∀ entry : Entry, entry.key ≠ key → kind entry) {left : Remnant}
include rare

/-- The index is made anew while tier 1 has the key, or when what tier 2 then has of it is vouched for. -/
theorem Stands.rebuilt (stands : store.Stands kind)
    (safe : key ∈ store.cache.recent.keys ∨ Vouched kind store.rebuildIndex.2 key) :
    store.rebuildIndex.2.Stands kind := by
  refine ⟨⟨stands.slots, stands.flights⟩, fun other gone => ?_, stands.rest⟩
  by_cases same : other = key
  · rw [same] at gone ⊢
    exact safe.resolve_left gone
  · exact vouched_of_ne rare same _

theorem Suits.rebuildIndex (suits : store.Suits kind key left) :
    store.rebuildIndex.2.Suits kind key (left.next key .rebuildIndex store store.rebuildIndex.2) := by
  have resident : store.rebuildIndex.2.cache.recent.contains key = true ↔
      key ∈ store.cache.recent.keys := Keyed.has_iff_mem_keys _ key
  cases left with
  | bare => trivial
  | covered =>
      obtain ⟨stands, here⟩ := suits
      simp only [Remnant.next, Call.puts, Call.drops, Call.dropsRecent, Bool.false_and, resident.2 here,
        Bool.false_eq_true, if_false, if_true]
      exact ⟨stands.rebuilt rare (.inl here), here⟩
  | gone =>
      obtain ⟨stands, vouched⟩ := suits
      simp only [Remnant.next, Call.puts, Call.drops, Bool.false_eq_true, if_false]
      split
      · split
        · rename_i contained
          have here := resident.1 contained
          exact ⟨stands.rebuilt rare (.inl here), here⟩
        · trivial
      · rename_i listed
        have still := vouched.rebuildIndex fun name led => ?_
        · exact ⟨stands.rebuilt rare (.inr still), still⟩
        · have has : store.rebuildIndex.2.cache.archive.index.has key = true := by rw [Keyed.has, led]; rfl
          have same : store.rebuildIndex.2.cache.archive.index.get? key =
              store.cache.archive.index.get? key := by
            simpa [Call.relists, has] using listed
          exact same.symm.trans led

/-- A call while tier 1 has the key: the key stays there, or it leaves and is vouched for. -/
theorem Suits.call_covered (hereditary : Entry.Hereditary kind)
    (suits : store.Suits kind key .covered)
    (brings : ∀ entry ∈ store.brought now made, kind entry) (resolve : Resolver σ) (state : σ)
    (other : made ≠ .rebuildIndex)
    (hidden : ¬ (made.dropsRecent && store.cache.archive.contains key) = true)
    (unfailed : (store.call resolve state now made).2.1.Unfailed) :
    let after := (store.call resolve state now made).2.1
    after.Suits kind key (if after.cache.recent.contains key then .covered else .gone) := by
  have sheltered : made.dropsRecent = true → ∀ asked ∈ store.cache.recent.keys,
      Vouched kind store asked := by
    intro drops_recent asked _
    have absent : store.cache.archive.index.get? key = none := by
      simpa [drops_recent, Archive.contains, Keyed.has] using hidden
    exact vouched_of_key rare (vouched_of_unindexed absent) asked
  obtain ⟨passes, kept⟩ := suits.1.call hereditary brings sheltered resolve state
    (fun never => absurd never other) unfailed
  dsimp only
  split
  · rename_i contained
    exact ⟨kept, (Keyed.has_iff_mem_keys _ key).1 contained⟩
  · rename_i absent
    refine ⟨kept, passes.vouched suits.1.vouched fun here => absent ?_⟩
    exact (Keyed.has_iff_mem_keys _ key).2 here

theorem Suits.call (hereditary : Entry.Hereditary kind) (suits : store.Suits kind key left)
    (stands : store.Stands (fun _ => True)) (nonempty : key.isEmpty = false)
    (brings : ∀ entry ∈ store.brought now made, kind entry) (resolve : Resolver σ) (state : σ)
    (unfailed : (store.call resolve state now made).2.1.Unfailed) :
    let after := (store.call resolve state now made).2.1
    after.Suits kind key (left.next key made store after) := by
  by_cases rebuilds : made = .rebuildIndex
  · subst rebuilds
    exact suits.rebuildIndex rare
  unfold Remnant.next
  cases puts : made.puts key with
  | true => exact Stands.put rare hereditary stands nonempty puts brings resolve state unfailed
  | false =>
      cases drops : made.drops key with
      | true => exact Stands.drop rare stands nonempty drops resolve state
      | false =>
          cases left with
          | bare => trivial
          | gone =>
              obtain ⟨kept, vouched⟩ := suits
              obtain ⟨passes, kept_after⟩ := kept.call hereditary brings
                (fun _ other _ => vouched_of_key rare vouched other) resolve state
                (fun never => absurd never rebuilds) unfailed
              simp only [Call.relists_eq_false rebuilds, Bool.false_eq_true, if_false]
              exact ⟨kept_after, passes.stays key vouched⟩
          | covered =>
              simp only [Bool.false_eq_true, if_false]
              split
              · trivial
              · exact Suits.call_covered rare hereditary suits brings resolve state rebuilds ‹_› unfailed

/-- Calls that end with no bare remnant of the key have kept to the kind. -/
theorem Suits.calls (hereditary : Entry.Hereditary kind) (suits : store.Suits kind key left)
    (reached : store.Reached) (nonempty : key.isEmpty = false) (resolve : Resolver σ)
    (state : σ) {later : List (Call × Moment)}
    (brings : ∀ timed ∈ later, ∀ entry ∈ store.brought timed.2 timed.1, kind entry)
    (unfailed : (store.calls resolve state later).2.1.Unfailed) :
    let after := (store.calls resolve state later).2.1
    after.Suits kind key (store.remnant resolve key state later left) ∧
      after.cache.describer = store.cache.describer := by
  induction later generalizing store state left with
  | nil => exact ⟨suits, rfl⟩
  | cons timed later induction =>
      obtain ⟨made, now⟩ := timed
      obtain ⟨brings_now, brings_later⟩ := List.forall_mem_cons.1 brings
      have unfailed_next : (store.call resolve state now made).2.1.Unfailed :=
        unfailed.earlier (notices_calls resolve _ _ later)
      have stands := reached.stands (unfailed_next.earlier (notices_call resolve store state now made))
      have describer := (stands.any_call resolve state now made unfailed_next).1.describer
      obtain ⟨ended, still⟩ := induction
        (suits.call rare hereditary stands nonempty brings_now resolve state unfailed_next)
        (reached.called resolve state now made) _ (fun timed among entry given => by
          rw [brought_congr describer] at given
          exact brings_later timed among entry given) unfailed
      exact ⟨ended, still.trans describer⟩

end Remnants

/-! ## Superseded entries -/

/-- An entry of another key, or one that has come of what some of the calls brought. -/
def Stems (store : Store) (key : String) (sources : List (Call × Moment)) (entry : Entry) : Prop :=
  entry.key = key → ∃ source ∈ sources, ∃ origin ∈ store.brought source.2 source.1,
    entry.Descends origin

theorem hereditary_stems (store : Store) (key : String) (sources : List (Call × Moment)) :
    Entry.Hereditary (store.Stems key sources) := by
  constructor
  · intro entry now stems own
    obtain ⟨source, among, origin, brings, descends⟩ := stems own
    exact ⟨source, among, origin, brings, descends.touch now⟩
  · intro entry later same stems own
    obtain ⟨source, among, origin, brings, descends⟩ :=
      stems ((Lookup.key_eq_of_stored same).symm.trans own)
    exact ⟨source, among, origin, brings, descends.stored same⟩
  · intro entry later read stems own
    obtain ⟨source, among, origin, brings, descends⟩ :=
      stems ((Entry.key_of_readOwn? read).symm.trans own)
    exact ⟨source, among, origin, brings, descends.reread read⟩

/-- Whatever there was of a key: once calls have left no bare remnant of it, and no spill has failed, a lookup
finds nothing, or an entry that has come of what one of the calls or the lookup itself brought. -/
theorem Reached.get_of_remnant (reached : store.Reached) {key : String}
    (nonempty : key.isEmpty = false) (resolve : Resolver σ) (state : σ) (made : List (Call × Moment))
    (hidden : store.remnant resolve key state made .bare ≠ .bare)
    {request : Request} (about : request.key = key) (moment : Moment)
    (unfailed : let (_, after, next) := store.calls resolve state made
      (after.call resolve next moment (.get request)).2.1.Unfailed) :
    let (_, after, next) := store.calls resolve state made
    ∃ answer, (after.call resolve next moment (.get request)).1 = .found answer ∧
      ∀ entry ∈ answer, ∃ source ∈ made ++ [(.get request, moment)],
        ∃ origin ∈ store.brought source.2 source.1, entry.Descends origin := by
  subst about
  have hereditary := hereditary_stems store request.key (made ++ [(.get request, moment)])
  have brings : ∀ source ∈ made ++ [(.get request, moment)],
      ∀ origin ∈ store.brought source.2 source.1,
        store.Stems request.key (made ++ [(.get request, moment)]) origin :=
    fun source among origin given _ => ⟨source, among, origin, given, .refl origin⟩
  have rare : ∀ entry : Entry, entry.key ≠ request.key →
      store.Stems request.key (made ++ [(.get request, moment)]) entry :=
    fun entry differs own => absurd own differs
  obtain ⟨brings_made, brings_get⟩ := List.forall_mem_append.1 brings
  have unknown : store.Suits (store.Stems request.key (made ++ [(.get request, moment)]))
      request.key .bare := trivial
  have unfailed_made : (store.calls resolve state made).2.1.Unfailed :=
    unfailed.earlier (notices_call resolve _ _ moment (.get request))
  obtain ⟨suits, describer⟩ :=
    unknown.calls rare hereditary reached nonempty resolve state brings_made unfailed_made
  have stands := suits.stands hidden
  obtain ⟨answer, after, next, called, _, good⟩ := stands.get hereditary nonempty
    (fun entry given => by
      rw [brought_congr describer] at given
      exact brings_get (.get request, moment) (by simp) entry given) resolve
    (store.calls resolve state made).2.2 unfailed
  refine ⟨answer, ?_, fun entry among => ?_⟩
  · rw [called]
  · obtain ⟨own, stems⟩ := good entry among
    exact stems own

/-- After a put of a key, and calls that leave no older record of it bare, a lookup of the key finds nothing,
or an entry that has come of what the put or a later call brought. This holds whatever was in the directory
that the cache was opened in, as long as no spill has failed. -/
theorem Reached.get_after_put (reached : store.Reached) {key : String}
    (nonempty : key.isEmpty = false) (resolve : Resolver σ) (state : σ)
    (puts : made.puts key = true) (now : Moment) {later : List (Call × Moment)}
    (hidden : let (_, after, next) := store.call resolve state now made
      after.remnant resolve key next later .covered ≠ .bare)
    {request : Request} (about : request.key = key) (moment : Moment)
    (unfailed : let (_, after, next) := store.calls resolve state ((made, now) :: later)
      (after.call resolve next moment (.get request)).2.1.Unfailed) :
    let (_, after, next) := store.calls resolve state ((made, now) :: later)
    ∃ answer, (after.call resolve next moment (.get request)).1 = .found answer ∧
      ∀ entry ∈ answer, ∃ source ∈ (made, now) :: later ++ [(.get request, moment)],
        ∃ origin ∈ store.brought source.2 source.1, entry.Descends origin := by
  refine reached.get_of_remnant nonempty resolve state ((made, now) :: later) ?_ about moment unfailed
  simp only [remnant, Remnant.next, puts, if_true]
  exact hidden

/-- A disk with a cache whose index leads from "k" to one of two records of it. -/
def inheritedDisk : Disk where
  nodes := [(["cache"], .folder), (["cache", "records"], .folder),
    (["cache", "index.json"], .file (Index.write [("k", "old.json")])),
    (["cache", "records", "old.json"], .file (Entry.new "k" ["old"] .epoch).record),
    (["cache", "records", "lost.json"], .file (Entry.new "k" ["lost"] .epoch).record)]

/-- The cache that is opened there, with room for one entry. -/
def inherited : Store where
  disk := inheritedDisk
  cache := newCache ⟨1, "cache", true⟩ ⟨["cache"], [("k", "old.json")]⟩ false none
  notices := []

theorem opened_inherited : opened inheritedDisk ⟨1, "cache", true⟩ false none = .ok inherited := by
  have made : (Archive.establish inheritedDisk ["cache"]).answer = true := by decide +kernel
  have archive : (Archive.establish inheritedDisk ["cache"]).archive =
      ⟨["cache"], [("k", "old.json")]⟩ := by decide +kernel
  have effects : (Archive.establish inheritedDisk ["cache"]).effects = [] := by decide +kernel
  have notices : (Archive.establish inheritedDisk ["cache"]).notices = [] := by decide +kernel
  have root : Route.join [] "cache" = ["cache"] := rfl
  have valid : (Settings.mk 1 "cache" true).validate = .ok () := rfl
  simp only [opened, establish, valid, root, made, archive, effects, notices, if_true]
  rfl

theorem reached_inherited : inherited.Reached := .opened opened_inherited

/-- "k" is put while there are older records of it, and is evicted again. Then the index can be made anew and
tier 1 be cleared. -/
theorem get_after_put_evicted :
    let put : Call × Moment := (.put "k" ["new"] .empty, .epoch)
    let later : List (Call × Moment) :=
      [(.put "x" [] .empty, .epoch), (.rebuildIndex, .epoch), (.clear true, .epoch)]
    let asked : Request := ⟨"k", none, none⟩
    let (_, after, next) := inherited.calls silent () (put :: later)
    inherited.Reached ∧ inherited.cache.archive.contains "k" = true ∧
      (after.call silent next .epoch (.get asked)).2.1.Unfailed ∧
      ∃ entry, (after.call silent next .epoch (.get asked)).1 = .found (some entry) ∧
        ∃ source ∈ put :: later ++ [(.get asked, .epoch)],
          ∃ origin ∈ inherited.brought source.2 source.1, entry.Descends origin := by
  intro put later asked
  have older : inherited.cache.archive.contains "k" = true := by decide +kernel
  have puts : put.1.puts "k" = true := by decide
  have hidden : (inherited.call silent () .epoch put.1).2.1.remnant silent "k" () later .covered ≠ .bare := by
    decide +kernel
  have about : asked.key = "k" := rfl
  have unfailed : ((inherited.calls silent () (put :: later)).2.1.call silent () .epoch
      (.get asked)).2.1.Unfailed := by decide +kernel
  obtain ⟨answer, found, descends⟩ :=
    reached_inherited.get_after_put rfl silent () puts .epoch hidden about .epoch unfailed
  have finds : ((inherited.calls silent () (put :: later)).2.1.call silent () .epoch
      (.get asked)).1.found?.isSome = true := by decide +kernel
  obtain ⟨entry, finds⟩ := Option.isSome_iff_exists.1 finds
  obtain rfl : answer = some entry := by
    injection found.symm.trans (Reply.eq_found finds)
  exact ⟨reached_inherited, older, unfailed, entry, found, descends entry rfl⟩

/-- Both tiers are cleared after two puts, and the index that is made anew lists the record of "k" that it did
not list before. -/
example :
    let made : List (Call × Moment) := [(.put "k" ["first"] .empty, .epoch),
      (.put "k" ["new"] .empty, .epoch), (.clear false, .epoch), (.rebuildIndex, .epoch)]
    inherited.remnant silent "k" () made .covered = .bare ∧
      ((inherited.calls silent () made).2.1.call silent () .epoch
        (.get ⟨"k", none, none⟩)).1.found?.map Entry.paths = some ["lost"] := by
  decide +kernel

theorem reached_crowded : crowded.Reached := by
  have first := (Reached.opened opened_small).called silent () .epoch (.put "k" ["old"] .empty)
  exact first.called silent () .epoch (.put "x" [] .empty)

/-- When tier 1 is cleared while it has held "k" ever since the put, the older record is found. -/
theorem superseded_comes_to_light :
    let made : List (Call × Moment) := [(.put "k" ["new"] .empty, .epoch), (.clear true, .epoch)]
    let asked : Request := ⟨"k", none, none⟩
    let (_, after, next) := crowded.calls silent () made
    crowded.Reached ∧ (after.call silent next .epoch (.get asked)).2.1.Unfailed ∧
      ∃ entry, (after.call silent next .epoch (.get asked)).1 = .found (some entry) ∧
        entry.paths = ["old"] ∧ ¬ ∃ source ∈ made ++ [(.get asked, .epoch)],
          ∃ origin ∈ crowded.brought source.2 source.1, entry.Descends origin := by
  intro made asked
  have paths : ((crowded.calls silent () made).2.1.call silent () .epoch (.get asked)).1.found?.map
      Entry.paths = some ["old"] := by decide +kernel
  obtain ⟨entry, finds, old⟩ := Option.map_eq_some_iff.1 paths
  refine ⟨reached_crowded, by decide +kernel, entry, Reply.eq_found finds, old, ?_⟩
  have brings : ∀ source ∈ made ++ [(.get asked, .epoch)],
      ∀ origin ∈ crowded.brought source.2 source.1, origin.paths = ["new"] := by
    decide +kernel
  rintro ⟨source, among, origin, given, descends⟩
  have new := descends.paths.symm.trans old
  rw [brings source among origin given] at new
  simp at new

end Store

end TieredCache
