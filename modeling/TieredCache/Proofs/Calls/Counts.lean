import TieredCache.Proofs.Calls.Superseded
import TieredCache.Proofs.Calls.Transparency
import TieredCache.Proofs.Lookup.Front
import TieredCache.Proofs.Lookup.Stages

/-!
# Counts of lookups

Whatever is on the disk, a lookup that has an entry at hand answers with one more than its count and leaves
that count in tier 1. As long as other calls leave the entry where it is or evict it to a record that can be
read, the lookups of a key count on from what was stored, and never twice the same.
-/

namespace TieredCache

/-! ## The entry at hand -/

namespace Share

variable {key : String} {count : UInt64} {share later : Share}

/-- The entry that is at hand for a key has a count. -/
def Counts (key : String) (count : UInt64) (share : Share) : Prop :=
  ∃ entry, share.held? key = some entry ∧ entry.count = count

/-- The entry at hand stays where it is, or it is evicted and its record can be read. -/
inductive Carries (key : String) (share : Share) : Share → Prop where
  | stays {later : Share} (slot : later.slot = share.slot)
      (shelf : share.slot = none → later.shelf = share.shelf) : Carries key share later
  | leaves {later : Share} {entry read : Entry} (resident : share.slot = some entry)
      (evicted : later.slot = none) (filed : later.shelf = some entry.record)
      (readable : Entry.readOwn? key entry.record = some read) : Carries key share later

/-- A record keeps the count of its entry whenever it can be read. -/
theorem count_of_readOwn? {entry read : Entry} (readable : Entry.readOwn? key entry.record = some read) :
    read.count = entry.count := by
  have decoded := (Option.filter_eq_some_iff.1 readable).1
  rw [Entry.read?_record_eq] at decoded
  obtain ⟨params, _, rfl⟩ := Option.map_eq_some_iff.1 decoded
  rfl

theorem Counts.carry (counts : share.Counts key count) (carries : share.Carries key later) :
    later.Counts key count := by
  obtain ⟨entry, found, rfl⟩ := counts
  cases carries with
  | stays slot shelf =>
      refine ⟨entry, ?_, rfl⟩
      rw [held?] at found ⊢
      cases resident : share.slot with
      | some held =>
          rw [slot, resident]
          rwa [resident] at found
      | none =>
          rw [slot, resident, shelf resident]
          rwa [resident] at found
  | @leaves held read resident evicted filed readable =>
      rw [held?_of_slot resident] at found
      obtain rfl := Option.some.inj found
      refine ⟨read, ?_, count_of_readOwn? readable⟩
      rw [held?, evicted, filed]
      exact readable

/-- An eviction carries an entry along that a record keeps whole. -/
theorem Keeps.carries (keeps : share.Keeps later) {entry : Entry} (held : share.held? key = some entry)
    (own : entry.key = key) (durable : entry.params.Durable) : share.Carries key later := by
  rcases keeps with rfl | ⟨evicted, resident, rfl⟩
  · exact .stays rfl fun _ => rfl
  · rw [held?_of_slot resident] at held
    obtain rfl := Option.some.inj held
    subst own
    exact .leaves resident rfl rfl (Entry.readOwn?_record durable)

end Share

/-! ## One lookup -/

namespace Lookup

variable {store : Store} {request : Request} {count : UInt64} {lookup : Lookup}

/-- Where a lookup is that began with an entry at hand: it has read the count, and will answer with one more. -/
def Reading (key : String) (count : UInt64) (share : Share) : Lookup → Prop
  | .begun => share.Counts key count
  | .missed => share.slot = none ∧ share.Counts key count
  | .judged verdict => share.slot = none ∧ ∃ entry, verdict = .sound entry ∧ entry.count = count
  | .hydrating .refresh hydration =>
    hydration.entry.count = count + 1 ∧ ∃ held, share.slot = some held ∧ held.count = count + 1
  | .hydrating .promote hydration => hydration.entry.count = count + 1 ∧ share.slot = none
  | .done answer =>
    (∃ given, answer = some given ∧ given.count = count + 1) ∧
      ∃ held, share.slot = some held ∧ held.count = count + 1
  | _ => False

theorem count_step (answer : Answer) (hydration : Hydration) :
    (hydration.step answer).1.entry.count = hydration.entry.count :=
  congrArg Card.count (Entry.card_eq_of_stored (Hydration.stored_step answer hydration))

/-- The record of the entry at hand is looked at, whatever else is on the disk. -/
theorem inspect_of_counts (slot : (store.share request.key).slot = none)
    (counts : (store.share request.key).Counts request.key count) :
    ∃ entry, store.cache.archive.inspect store.disk request.key = .sound entry ∧ entry.count = count := by
  obtain ⟨entry, found, same⟩ := counts
  rw [Share.held?, slot, Option.none_or] at found
  obtain ⟨bytes, shelf, readable⟩ := Option.bind_eq_some_iff.1 found
  obtain ⟨name, indexed, read⟩ := Option.bind_eq_some_iff.1 shelf
  refine ⟨entry, ?_, same⟩
  have read : store.disk.read (store.cache.archive.place name) = .ok bytes := by
    cases found : store.disk.read (store.cache.archive.place name) with
    | error refusal =>
        rw [found] at read
        cases read
    | ok held =>
        rw [found] at read
        exact congrArg Except.ok (Option.some.inj read)
  simp only [Archive.inspect, indexed, read, readable]

/-- A lookup goes on with the entry of a slot, which has been read. -/
theorem reading_afterSlot {setup : Store.Setup} {share : Share} {entry : Entry}
    (slot : share.slot = some entry) (read : entry.count = count + 1) :
    (afterSlot setup request entry).Reading request.key count share := by
  rw [afterSlot]
  split
  · refine ⟨?_, entry, slot, read⟩
    rw [Hydration.entry_begin]
    exact read
  · exact ⟨⟨entry, rfl, read⟩, entry, slot, read⟩

/-- A lookup goes on with the entry of a record, which has been read. -/
theorem reading_afterShelf {setup : Store.Setup} {share : Share} {entry : Entry}
    (slot : share.slot = none) (read : entry.count = count + 1) :
    (afterShelf setup request entry).Reading request.key count share := by
  rw [afterShelf]
  refine ⟨?_, slot⟩
  split
  · rw [Hydration.entry_begin]
    exact read
  · exact read

/-- A lookup of an entry at hand goes on with it, whatever is on the disk. -/
theorem Reading.step (reading : lookup.Reading request.key count (store.share request.key))
    (answer : Answer) (now : Moment) :
    (lookup.step request answer now store).1.Reading request.key count
      ((lookup.step request answer now store).2.share request.key) := by
  -- The slot and the way on are those of `stepOn`, but for the look at a record, which alone reads the disk.
  obtain ⟨phase, slot, _⟩ := fronts_step store request lookup answer now
  cases lookup with
  | begun =>
      cases resident : (store.share request.key).slot with
      | some held =>
          obtain ⟨entry, found, same⟩ := reading
          rw [Share.held?_of_slot resident] at found
          obtain rfl := Option.some.inj found
          simp only [stepOn, resident] at phase slot
          rw [phase (by simp)]
          exact reading_afterSlot slot (congrArg (· + 1) same)
      | none =>
          have absent : store.cache.recent.slots.get? request.key = none := resident
          simp only [Lookup.step, Recent.fetch, absent]
          exact ⟨resident, reading⟩
  | missed =>
      obtain ⟨entry, sound, same⟩ := inspect_of_counts reading.1 reading.2
      exact ⟨reading.1, entry, sound, same⟩
  | judged verdict =>
      obtain ⟨bare, entry, rfl, same⟩ := reading
      rw [phase (by simp)]
      exact reading_afterShelf (slot.trans bare) (congrArg (· + 1) same)
  | hydrating aim hydration =>
      rw [phase (by simp)]
      cases hydration with
      | running entry pending deadline =>
          have kept := count_step answer (.running entry pending deadline)
          cases aim with
          | refresh =>
              obtain ⟨read, held, resident, same⟩ := reading
              exact ⟨kept.trans read, held, slot.trans resident, same⟩
          | promote => exact ⟨kept.trans reading.1, slot.trans reading.2⟩
          | seed => exact reading.elim
      | finished found copy =>
          cases aim with
          | refresh =>
              obtain ⟨read, held, resident, same⟩ := reading
              refine ⟨⟨copy, rfl, read⟩, ?_⟩
              rw [show (Store.share _ request.key).slot = _ from slot, stepOn, Share.adopt, resident]
              simp only
              split
              · exact ⟨held.adopt copy, rfl, same⟩
              · exact ⟨held, resident, same⟩
          | promote =>
              obtain ⟨read, bare⟩ := reading
              simp only [stepOn, Share.offer, bare] at slot ⊢
              exact ⟨⟨_, rfl, read⟩, _, slot, read⟩
          | seed => exact reading.elim
  | done given =>
      obtain ⟨answered, resident⟩ := reading
      exact ⟨answered, resident⟩
  | joining paths => exact reading.elim
  | waiting => exact reading.elim
  | leading paths => exact reading.elim
  | landing entry => exact reading.elim

end Lookup

namespace Run

variable {σ : Type} {request : Request} {count : UInt64} {run : Run σ}

theorem reading_advance (reading : run.lookup.Reading request.key count (run.store.share request.key))
    (resolve : Resolver σ) (now : Moment) (steps : Nat) :
    (advance resolve request now steps run).lookup.Reading request.key count
      ((advance resolve request now steps run).store.share request.key) := by
  induction steps generalizing run with
  | zero => exact reading
  | succ steps induction => exact induction (reading.step _ now)

end Run

namespace Store

variable {σ : Type} {store : Store} {key : String} {count : UInt64}

/-- A lookup of a key that has an entry at hand answers with one more than its count, and leaves that count. -/
theorem get_counts {request : Request} (nonempty : request.key.isEmpty = false)
    (counts : (store.share request.key).Counts request.key count) (resolve : Resolver σ) (state : σ)
    (now : Moment) :
    ∃ given after next, store.get resolve state request now = .ok (some given, after, next) ∧
      given.count = count + 1 ∧ (after.share request.key).Counts request.key (count + 1) := by
  let start : Run σ := ⟨.begun, store, state⟩
  have begun : start.lookup.Reading request.key count (start.store.share request.key) := counts
  have found := Run.reading_advance begun resolve now Run.searchSteps
  have ended := Run.reading_advance found resolve now
    (Run.advance resolve request now Run.searchSteps start).lookup.remaining
  obtain ⟨searched, exhausted⟩ := Run.ended_whole resolve request now store state
  rw [get_eq store resolve state now nonempty]
  rw [← Run.whole] at ended
  generalize Run.whole resolve request now store state = last at ended searched exhausted ⊢
  obtain ⟨lookup, after, next⟩ := last
  cases lookup with
  | done answer =>
      obtain ⟨⟨given, rfl, read⟩, held, resident, same⟩ := ended
      exact ⟨given, after, next, rfl, read, held, Share.held?_of_slot resident _, same⟩
  | hydrating aim hydration => cases exhausted
  | begun => cases searched
  | missed => cases searched
  | judged verdict => cases searched
  | joining paths => exact ended.elim
  | waiting => exact ended.elim
  | leading paths => exact ended.elim
  | landing entry => exact ended.elim

end Store

/-! ## Runs of lookups -/

/-- Whether a call looks a key up. -/
def Call.looksUp (key : String) : Call → Bool
  | .get request => decide (request.key = key)
  | _ => false

/-- How many of the calls look a key up. -/
def Call.lookups (key : String) (made : List (Call × Moment)) : Nat :=
  made.countP fun timed => timed.1.looksUp key

/-- The counts that the lookups of a key are answered with, in order. -/
def Reply.counts (key : String) (made : List (Call × Moment)) (replies : List Reply) :
    List (Option UInt64) :=
  ((made.zip replies).filter fun pair => pair.1.1.looksUp key).map fun pair =>
    pair.2.found?.map Entry.count

theorem Call.lookups_cons (key : String) (made : Call) (now : Moment) (later : List (Call × Moment)) :
    Call.lookups key ((made, now) :: later) =
      if made.looksUp key then Call.lookups key later + 1 else Call.lookups key later := by
  rw [lookups, List.countP_cons, ← lookups]
  split <;> rfl

theorem Reply.counts_cons (key : String) (made : Call) (now : Moment) (later : List (Call × Moment))
    (reply : Reply) (replies : List Reply) :
    counts key ((made, now) :: later) (reply :: replies) =
      if made.looksUp key then reply.found?.map Entry.count :: counts key later replies
      else counts key later replies := by
  rw [counts, List.zip_cons_cons, List.filter_cons]
  split <;> rfl

/-- A number of counts, each one more than the one before. -/
def following : UInt64 → Nat → List UInt64
  | _, 0 => []
  | count, reads + 1 => (count + 1) :: following (count + 1) reads

/-- Counts do not wrap before the greatest one. -/
theorem toNat_following (count : UInt64) (reads : Nat) (fits : count.toNat + reads < 2 ^ 64) :
    (following count reads).map UInt64.toNat = List.range' (count.toNat + 1) reads := by
  induction reads generalizing count with
  | zero => rfl
  | succ reads induction =>
      have next : (count + 1).toNat = count.toNat + 1 := by
        rw [UInt64.toNat_add, UInt64.toNat_one]
        omega
      rw [following, List.map_cons, List.range'_succ, induction (count + 1) (by omega), next]

/-- Counts that do not wrap ascend. -/
theorem ascending_following (count : UInt64) (reads : Nat) (fits : count.toNat + reads < 2 ^ 64) :
    (count :: following count reads).Pairwise (· < ·) := by
  have numbers : ((count :: following count reads).map UInt64.toNat).Pairwise (· < ·) := by
    rw [List.map_cons, toNat_following count reads fits, ← List.range'_succ]
    exact List.pairwise_lt_range'
  exact (List.pairwise_map.1 numbers).imp UInt64.lt_iff_toNat_lt.2

namespace Store

variable {σ : Type} {store : Store} {key : String} {count : UInt64}

/-- A store in which an entry of a key has just been put, or in which tier 2 has a record of it that can be
read and tier 1 has not, with the count of the entry. -/
inductive Stored (key : String) (count : UInt64) : Store → Prop where
  | filed {store : Store} {name : String} {bytes : Bytes} {entry : Entry}
      (nonempty : key ≠ "") (absent : store.cache.recent.contains key = false)
      (indexed : store.cache.archive.index.get? key = some name)
      (read : store.disk.read (store.cache.archive.place name) = .ok bytes)
      (accepted : Entry.readOwn? key bytes = some entry) (counted : entry.count = count) :
      Stored key count store
  | put {before store : Store} {given written : Entry} (own : given.key = key)
      (counted : given.count = count) (puts : before.putEntry given = .ok (written, store)) :
      Stored key count store

/-- Calls, those that look a key up apart, carry the entry at hand for it along. -/
def Carried (key : String) (resolve : Resolver σ) : Store → σ → List (Call × Moment) → Prop
  | _, _, [] => True
  | store, state, (made, now) :: later =>
    (made.looksUp key = false →
      (store.share key).Carries key ((store.call resolve state now made).2.1.share key)) ∧
    Carried key resolve (store.call resolve state now made).2.1 (store.call resolve state now made).2.2 later

/-- An entry that is written is in its slot, whatever becomes of what is evicted for it. -/
theorem slot_written (store : Store) (entry : Entry) :
    ((store.written entry).share entry.key).slot = some (entry.stamped store.cache.recent.nextStamp) := by
  rw [written, share_withRecent]
  exact Recent.get?_write ..

theorem count_described (cache : Cache) (entry : Entry) :
    (described cache entry).count = entry.count := by
  obtain ⟨tags, same⟩ := described_eq cache entry
  rw [same]

/-- What is stored is at hand. -/
theorem Stored.counts (stored : Stored key count store) :
    key.isEmpty = false ∧ (store.share key).Counts key count := by
  cases stored with
  | @filed _ name bytes entry nonempty absent indexed read accepted counted =>
      have bare : store.cache.recent.slots.get? key = none := Keyed.has_eq_false_iff.1 absent
      have shelf : (store.share key).shelf = some bytes := by
        change store.cache.archive.shelf store.disk key = some bytes
        rw [Archive.shelf, indexed, Option.bind_some, read]
        rfl
      refine ⟨by simpa using nonempty, entry, ?_, counted⟩
      rw [Share.held?, show (store.share key).slot = none from bare, shelf]
      exact accepted
  | @put before _ given written own counted puts =>
      subst own
      cases nonempty : given.key.isEmpty with
      | true =>
          rw [putEntry_refused before nonempty] at puts
          cases puts
      | false =>
          rw [putEntry_eq nonempty] at puts
          obtain ⟨_, rfl⟩ := Prod.mk.inj (Except.ok.inj puts)
          have slot := before.slot_written (described before.cache given)
          rw [key_described] at slot
          exact ⟨rfl, _, Share.held?_of_slot slot _, (count_described _ _).trans counted⟩

/-- The lookups of a key with an entry at hand count on from its count. -/
theorem counts_calls (nonempty : key.isEmpty = false) (counts : (store.share key).Counts key count)
    {resolve : Resolver σ} {state : σ} {made : List (Call × Moment)}
    (carried : store.Carried key resolve state made) :
    Reply.counts key made (store.calls resolve state made).1 =
      (following count (Call.lookups key made)).map some := by
  induction made generalizing store state count with
  | nil => rfl
  | cons timed later induction =>
      obtain ⟨made, now⟩ := timed
      obtain ⟨carries, carried⟩ := carried
      rw [Store.calls, Reply.counts_cons, Call.lookups_cons]
      cases looks : made.looksUp key with
      | false => exact induction (counts.carry (carries looks)) carried
      | true =>
          cases made with
          | get request =>
              obtain rfl : request.key = key := of_decide_eq_true looks
              obtain ⟨given, after, next, found, read, counts_after⟩ :=
                get_counts nonempty counts resolve state now
              have reply : store.call resolve state now (.get request) = (.found (some given), after, next) := by
                rw [Store.call, found]
              rw [reply] at carried ⊢
              have later_counts := induction counts_after carried
              simp only [if_true, Reply.found?, Option.map_some, read, later_counts, following, List.map_cons]
          | _ => cases looks

/-- In a tidy store every call that does not change a key carries its entry along, if a record keeps it whole. -/
theorem carried_of_tidy {known : String → Prop} {home : Path} (distinct : DistinctNames known)
    (tidy : store.Tidy known home) (nonempty : key.isEmpty = false) {entry : Entry}
    (held : (store.share key).held? key = some entry) (own : entry.key = key)
    (durable : entry.params.Durable) (resolve : Resolver σ) (state : σ) {made : List (Call × Moment)}
    (keys_known : ∀ timed ∈ made, ∀ key ∈ timed.1.key?, known key)
    (aside : ∀ timed ∈ made, timed.1.changes key = false) : store.Carried key resolve state made := by
  induction made generalizing store state entry with
  | nil => trivial
  | cons timed later induction =>
      obtain ⟨made, now⟩ := timed
      obtain ⟨known_now, known_later⟩ := List.forall_mem_cons.1 keys_known
      obtain ⟨aside_now, aside_later⟩ := List.forall_mem_cons.1 aside
      have serves := serves_call distinct tidy known_now resolve state now
      -- Whatever a call leaves at hand differs from the entry in what a record does not keep, or in a read.
      have follows : ∀ {next middle : Entry},
          ((store.call resolve state now made).2.1.share key).held? key = some next →
          next.stored = middle.stored → middle.key = entry.key → middle.params = entry.params →
          Carried key resolve (store.call resolve state now made).2.1
            (store.call resolve state now made).2.2 later := by
        intro next middle found same same_key same_params
        have next_key := (Lookup.key_eq_of_stored same).trans (same_key.trans own)
        have next_params := (Entry.params_eq_of_stored same).trans same_params
        exact induction serves.tidy found next_key (by rw [next_params]; exact durable) _ known_later
          aside_later
      rcases (serves.shares key nonempty).of_aside aside_now with keeps | ⟨request, answer, rfl, rfl, finds⟩
      · obtain ⟨next, found, same⟩ := Share.held?_keep keeps held own durable
        exact ⟨fun _ => keeps.carries held own durable, follows found same rfl rfl⟩
      · refine ⟨fun other => absurd (decide_eq_true rfl) (Bool.eq_false_iff.1 other), ?_⟩
        obtain ⟨_, next, _, _, found, same⟩ := finds.of_held? held
        exact follows found same rfl rfl

/-- The lookups of a key, from an entry that was stored on, are answered with counts that ascend from the
stored one in steps of one, through promotions, evictions and reloads, as long as the greatest number of 64
bits is not passed. -/
theorem counts_ascend (stored : Stored key count store) {resolve : Resolver σ} {state : σ}
    {made : List (Call × Moment)} (carried : store.Carried key resolve state made)
    (fits : count.toNat + Call.lookups key made < 2 ^ 64) :
    ∃ counts : List UInt64,
      Reply.counts key made (store.calls resolve state made).1 = counts.map some ∧
      counts.map UInt64.toNat = List.range' (count.toNat + 1) (Call.lookups key made) ∧
      (count :: counts).Pairwise (· < ·) := by
  obtain ⟨nonempty, counts⟩ := stored.counts
  exact ⟨following count (Call.lookups key made), counts_calls nonempty counts carried,
    toNat_following _ _ fits, ascending_following _ _ fits⟩

/-- Past the greatest number of 64 bits the counts begin anew. -/
example :
    let store := small.written { Entry.new "k" ["p"] .epoch with count := 18446744073709551615 }
    let reads := [(.get ⟨"k", none, none⟩, .epoch)]
    Reply.counts "k" reads (store.calls silent () reads).1 = [some 0] := by
  decide +kernel

/-- A store whose index names a file for "k" that another process filed, with an entry that has been read five
times. A folder stands where a record of "k" has to go. -/
def misfiled : Store where
  disk := ⟨[(["cache"], .folder), (["cache", "records"], .folder),
    (["cache", "records", "old"], .file { Entry.new "k" ["p"] .epoch with count := 5 }.record),
    (["cache", "records", recordName "k"], .folder),
    (["cache", "index.json"], .file (Index.write [("k", "old")]))]⟩
  cache := { small.cache with archive := ⟨["cache"], [("k", "old")]⟩ }
  notices := []

theorem stored_misfiled : Stored "k" 5 misfiled := by
  let entry : Entry := { Entry.new "k" ["p"] .epoch with count := 5 }
  have durable : entry.params.Durable := Params.durable_empty
  have read : misfiled.disk.read (misfiled.cache.archive.place "old") = .ok entry.record := rfl
  exact .filed (by decide) rfl rfl read (Entry.readOwn?_record durable) rfl

/-- An eviction that cannot be filed takes the counted reads along, and the lookups after it count them again
from the older record. -/
theorem counts_repeat_misfiled :
    Stored "k" 5 misfiled ∧
      let reads := [(.get ⟨"k", none, none⟩, .epoch), (.get ⟨"k", none, none⟩, .epoch),
        (.put "x" [] .empty, .epoch), (.get ⟨"k", none, none⟩, .epoch)]
      Reply.counts "k" reads (misfiled.calls silent () reads).1 = [some 6, some 7, some 6] :=
  ⟨stored_misfiled, by decide +kernel⟩

/-- An entry that has been read as often as can be counted but for two times. -/
def nearlyCounted : Entry := { Entry.new "k" ["p"] .epoch with count := 18446744073709551613 }

/-- The entry is read in tier 1, evicted for another one, and read again. -/
def readingTwice : List (Call × Moment) :=
  [(.get ⟨"k", none, none⟩, .epoch), (.put "x" [] .empty, .epoch), (.get ⟨"k", none, none⟩, .epoch)]

/-- Two lookups, with an eviction between them, come to the greatest count. -/
theorem counts_ascend_nearlyCounted :
    let store := small.written nearlyCounted
    Stored "k" 18446744073709551613 store ∧ store.Carried "k" silent () readingTwice ∧
      (18446744073709551613 : UInt64).toNat + Call.lookups "k" readingTwice < 2 ^ 64 ∧
      ∃ counts : List UInt64,
        Reply.counts "k" readingTwice (store.calls silent () readingTwice).1 = counts.map some ∧
        counts.map UInt64.toNat = [18446744073709551614, 18446744073709551615] ∧
        (18446744073709551613 :: counts).Pairwise (· < ·) := by
  intro store
  have opened : small.Reachable twoKeys ["cache"] := .opened Disk.vacant_bare false none opened_small
  have tidy := (opened.atRest distinct_twoKeys).tidy
  have known : twoKeys nearlyCounted.key := .inl rfl
  obtain ⟨moves, share⟩ := moves_putEntry distinct_twoKeys tidy known
  have puts : small.putEntry nearlyCounted = .ok (_, store) := putEntry_eq rfl
  have stored : Stored "k" 18446744073709551613 store := .put rfl rfl puts
  have held : (store.share "k").held? "k" = some (nearlyCounted.stamped small.cache.recent.nextStamp) :=
    Share.held?_of_slot (small.slot_written nearlyCounted) _
  have carried : store.Carried "k" silent () readingTwice := by
    refine carried_of_tidy distinct_twoKeys moves.tidy rfl held rfl Params.durable_empty silent () ?_ ?_
    · simp only [readingTwice, List.forall_mem_cons]
      simp [Call.key?, twoKeys]
    · decide
  have fits : (18446744073709551613 : UInt64).toNat + Call.lookups "k" readingTwice < 2 ^ 64 := by decide
  exact ⟨stored, carried, fits, counts_ascend stored carried fits⟩

end Store

end TieredCache
