import TieredCache.Calls
import TieredCache.Proofs.Lookup.Sequential

/-!
# What calls do to a share

Each call changes the share of a key in one of a few ways, whatever it does elsewhere. What a call is
about decides which of them it is.
-/

namespace TieredCache

namespace Call

/-- The key that a call is about. -/
def key? : Call → Option String
  | .put key _ _ => some key
  | .putEntry entry => some entry.key
  | .get request => some request.key
  | .remove key => some key
  | _ => none

/-- Whether a call writes, removes or clears a key. -/
def changes (key : String) : Call → Bool
  | .put written _ _ => decide (written = key)
  | .putEntry entry => decide (entry.key = key)
  | .remove removed => decide (removed = key)
  | .clear _ => true
  | _ => false

/-- A call that writes an entry, shorthand and stamp apart. -/
def Writes (entry : Entry) : Call → Prop
  | .put key paths params => entry.key = key ∧ entry.paths = paths ∧ entry.params = params
  | .putEntry given =>
    entry.key = given.key ∧ entry.paths = given.paths ∧ entry.params = given.params
  | _ => False

theorem Writes.changes {entry : Entry} {made : Call} (writes : made.Writes entry) :
    made.changes entry.key = true := by
  cases made with
  | put key paths params => simp [Call.changes, writes.1]
  | putEntry given => simp [Call.changes, writes.1]
  | _ => exact writes.elim

end Call

/-! ## Entries that stay -/

namespace Share

/-- An eviction leaves what a record keeps of the entry. -/
theorem held?_keep {key : String} {share later : Share} {entry : Entry} (keeps : share.Keeps later)
    (found : share.held? key = some entry) (own : entry.key = key) (durable : entry.params.Durable) :
    ∃ held, later.held? key = some held ∧ held.stored = entry.stored := by
  rcases keeps with rfl | ⟨evicted, slot, rfl⟩
  · exact ⟨entry, found, rfl⟩
  · rw [held?_of_slot slot] at found
    obtain rfl := Option.some.inj found
    refine ⟨evicted.stored, ?_, rfl⟩
    subst own
    exact Entry.readOwn?_record durable

/-- There is nothing to evict where there is no entry. -/
theorem eq_of_keeps {key : String} {share later : Share} (keeps : share.Keeps later)
    (nothing : share.held? key = none) : later = share := by
  rcases keeps with same | ⟨evicted, slot, rfl⟩
  · exact same
  · rw [held?_of_slot slot] at nothing
    cases nothing

end Share

/-! ## The ways of a change -/

/-- The ways in which a call changes the share of a key. -/
inductive Share.Undergoes (resolving : Bool) (key : String) (now : Moment) (made : Call)
    (before : Share) : Share → Prop where
  /-- The call is about another key, or about none. -/
  | kept {after : Share} (aside : made.changes key = false) (keeps : before.Keeps after) :
      Undergoes resolving key now made before after
  | looked {request : Request} {answer : Option Entry} {after : Share} (call_eq : made = .get request)
      (key_eq : request.key = key) (finds : Lookup.Finds request resolving now before answer after) :
      Undergoes resolving key now made before after
  | written {entry : Entry} (own : entry.key = key) (writes : made.Writes entry) :
      Undergoes resolving key now made before (before.withSlot (some entry))
  | removed (call_eq : made = .remove key ∨ made = .clear false) :
      Undergoes resolving key now made before before.cleared
  | dropped (call_eq : made = .clear true) :
      Undergoes resolving key now made before (before.withSlot none)

namespace Share.Undergoes

variable {resolving : Bool} {key : String} {now : Moment} {made : Call} {before after : Share}

/-- A call that does not change the key leaves it as it is, or looks it up. -/
theorem of_aside (undergoes : before.Undergoes resolving key now made after)
    (aside : made.changes key = false) :
    before.Keeps after ∨ ∃ request answer, made = .get request ∧ request.key = key ∧
      Lookup.Finds request resolving now before answer after := by
  cases undergoes with
  | kept _ keeps => exact Or.inl keeps
  | @looked request answer _ call_eq key_eq finds =>
      exact Or.inr ⟨request, answer, call_eq, key_eq, finds⟩
  | written own writes =>
      have changes := writes.changes
      rw [own, aside] at changes
      cases changes
  | removed call_eq =>
      rcases call_eq with rfl | rfl
      · simp [Call.changes] at aside
      · cases aside
  | dropped call_eq =>
      subst call_eq
      cases aside

/-- A put leaves an entry with the given paths and parameters in tier 1. -/
theorem of_put {paths : List String} {params : Params}
    (undergoes : before.Undergoes resolving key now (.put key paths params) after) :
    ∃ entry, after.slot = some entry ∧ entry.key = key ∧ entry.paths = paths ∧
      entry.params = params := by
  cases undergoes with
  | kept aside => simp [Call.changes] at aside
  | looked call_eq => cases call_eq
  | @written entry own writes => exact ⟨entry, rfl, own, writes.2⟩
  | removed call_eq => rcases call_eq with same | same <;> cases same
  | dropped call_eq => cases call_eq

/-- A removal, and a clearing of both tiers, leave nothing. -/
theorem of_removal (undergoes : before.Undergoes resolving key now made after)
    (removes : made = .remove key ∨ made = .clear false) : after = before.cleared := by
  cases undergoes with
  | kept aside => rcases removes with rfl | rfl <;> simp [Call.changes] at aside
  | looked call_eq =>
      subst call_eq
      rcases removes with same | same <;> cases same
  | written own writes => rcases removes with rfl | rfl <;> exact writes.elim
  | removed => rfl
  | dropped call_eq =>
      subst call_eq
      rcases removes with same | same <;> cases same

end Share.Undergoes

/-! ## One call -/

namespace Store

variable {σ : Type} {known : String → Prop} {home : Path} {store : Store}

/-- What a call leaves. -/
structure Serves (known : String → Prop) (home : Path) (now : Moment) (made : Call)
    (before after : Store) : Prop where
  tidy : after.Tidy known home
  setup : after.setup = before.setup
  shares : ∀ key, key.isEmpty = false →
    (before.share key).Undergoes before.setup.resolving key now made (after.share key)

theorem Serves.refused {made : Call} {now : Moment} (tidy : store.Tidy known home)
    (aside : ∀ key, key.isEmpty = false → made.changes key = false) :
    Serves known home now made store store :=
  ⟨tidy, rfl, fun key nonempty => .kept (aside key nonempty) (Share.Keeps.refl _)⟩

/-- A call that is about one key leaves the other keys aside. -/
theorem Serves.of_moves {made : Call} {now : Moment} {after : Store} {about : String}
    (moves : Moves known home about store after)
    (aside : ∀ key, key ≠ about → made.changes key = false)
    (here : (store.share about).Undergoes store.setup.resolving about now made (after.share about)) :
    Serves known home now made store after := by
  refine ⟨moves.tidy, moves.setup, fun key _ => ?_⟩
  by_cases same : key = about
  · subst same
    exact here
  · exact .kept (aside key same) (moves.elsewhere key same)

theorem ne_of_isEmpty {key other : String} (empty : key.isEmpty = true)
    (nonempty : other.isEmpty = false) : key ≠ other := by
  rintro rfl
  rw [empty] at nonempty
  cases nonempty

theorem serves_putEntry (distinct : DistinctNames known) (tidy : store.Tidy known home) {entry : Entry}
    (key_known : known entry.key) {made : Call} (now : Moment)
    (changes : ∀ key, made.changes key = decide (entry.key = key))
    (writes : ∀ held : Entry, held.key = entry.key → held.paths = entry.paths →
      held.params = entry.params → made.Writes held) :
    Serves known home now made store (store.answerWriting (store.putEntry entry)).2 := by
  cases nonempty : entry.key.isEmpty with
  | true =>
      rw [putEntry_refused store nonempty]
      refine Serves.refused tidy fun key other => ?_
      rw [changes, decide_eq_false (ne_of_isEmpty nonempty other)]
  | false =>
      rw [putEntry_eq nonempty]
      obtain ⟨moves, share⟩ := moves_putEntry distinct tidy key_known
      have same_key := key_described store.cache entry
      refine Serves.of_moves moves (fun key differs => ?_) ?_
      · rw [changes, decide_eq_false (Ne.symm differs)]
      · have after := @Share.Undergoes.written store.setup.resolving entry.key now made
          (store.share entry.key) ((described store.cache entry).stamped store.cache.recent.nextStamp)
          same_key (writes _ same_key (paths_described _ _) (params_described _ _))
        rw [← share] at after
        exact after

theorem serves_get (distinct : DistinctNames known) (tidy : store.Tidy known home) {request : Request}
    (key_known : known request.key) (resolve : Resolver σ) (state : σ) (now : Moment) :
    Serves known home now (.get request) store
      (store.call resolve state now (.get request)).2.1 := by
  simp only [Store.call]
  cases nonempty : request.key.isEmpty with
  | true =>
      rw [get_refused store resolve state now nonempty]
      exact Serves.refused tidy fun key _ => rfl
  | false =>
      rw [get_eq store resolve state now nonempty]
      obtain ⟨moves, finds⟩ := Run.whole_spec resolve distinct tidy key_known state
      exact Serves.of_moves moves (fun key _ => rfl) (.looked rfl rfl finds)

theorem serves_remove (distinct : DistinctNames known) (tidy : store.Tidy known home) {key : String}
    (key_known : known key) (resolve : Resolver σ) (state : σ) (now : Moment) :
    Serves known home now (.remove key) store (store.call resolve state now (.remove key)).2.1 := by
  simp only [Store.call]
  cases nonempty : key.isEmpty with
  | true =>
      rw [remove_refused store nonempty]
      exact Serves.refused tidy fun other filled => decide_eq_false (ne_of_isEmpty nonempty filled)
  | false =>
      obtain ⟨after, removed, moves, share⟩ := remove_spec distinct tidy key_known nonempty
      rw [removed]
      refine Serves.of_moves moves (fun other differs => decide_eq_false (Ne.symm differs)) ?_
      have here := @Share.Undergoes.removed store.setup.resolving key now (.remove key)
        (store.share key) (Or.inl rfl)
      rw [Share.cleared, ← share] at here
      exact here

theorem serves_clear (tidy : store.Tidy known home) (recentOnly : Bool) (resolve : Resolver σ)
    (state : σ) (now : Moment) :
    Serves known home now (.clear recentOnly) store
      (store.call resolve state now (.clear recentOnly)).2.1 := by
  cases recentOnly with
  | true =>
      obtain ⟨kept, setup, shares⟩ := clearRecent_spec tidy
      refine ⟨kept, setup, fun key _ => ?_⟩
      have here := @Share.Undergoes.dropped store.setup.resolving key now (.clear true)
        (store.share key) rfl
      rw [← shares] at here
      exact here
  | false =>
      obtain ⟨kept, setup, shares⟩ := clear_spec tidy
      refine ⟨kept, setup, fun key _ => ?_⟩
      have here := @Share.Undergoes.removed store.setup.resolving key now (.clear false)
        (store.share key) (Or.inr rfl)
      rw [Share.cleared, ← shares] at here
      exact here

/-- A call keeps a store tidy, and changes the share of every key in one of the ways above. -/
theorem serves_call (distinct : DistinctNames known) (tidy : store.Tidy known home) {made : Call}
    (keys_known : ∀ key ∈ made.key?, known key) (resolve : Resolver σ) (state : σ) (now : Moment) :
    Serves known home now made store (store.call resolve state now made).2.1 := by
  cases made with
  | put key paths params =>
      have entry_known : known ({ Entry.new key paths now with params } : Entry).key :=
        keys_known key rfl
      exact serves_putEntry distinct tidy entry_known now (fun asked => rfl)
        fun held own paths_eq params_eq => ⟨own, paths_eq, params_eq⟩
  | putEntry entry =>
      exact serves_putEntry distinct tidy (keys_known entry.key rfl) now (fun asked => rfl)
        fun held own paths_eq params_eq => ⟨own, paths_eq, params_eq⟩
  | get request => exact serves_get distinct tidy (keys_known request.key rfl) resolve state now
  | hydrate entry =>
      have alike := alike_hydrate store resolve state entry
      exact ⟨alike.tidy tidy, alike.setup, fun key _ => .kept rfl (Or.inl (alike.share key))⟩
  | remove key => exact serves_remove distinct tidy (keys_known key rfl) resolve state now
  | clear recentOnly => exact serves_clear tidy recentOnly resolve state now
  | rebuildIndex =>
      obtain ⟨kept, setup, shares⟩ := rebuildIndex_spec tidy
      exact ⟨kept, setup, fun key _ => .kept rfl (Or.inl (shares key))⟩
  | resetTally =>
      have alike := alike_resetTally store
      exact ⟨alike.tidy tidy, alike.setup, fun key _ => .kept rfl (Or.inl (alike.share key))⟩

end Store

end TieredCache
