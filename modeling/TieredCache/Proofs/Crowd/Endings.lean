import TieredCache.Proofs.Crowd.Hydrations
import TieredCache.Proofs.Crowd.SingleFlight
import TieredCache.Proofs.Lookup.Endings

/-!
# A crowd is counted in full

However the steps of lookups interleave, the tally counts how they were decided to end, except for what
is still owed. When all of them are done, nothing is owed.
-/

namespace TieredCache

/-- How many of a list have a property, when one of them is replaced. -/
theorem countP_set_add {α : Type} (holds : α → Bool) {items : List α} {index : Nat} {old : α}
    (found : items[index]? = some old) (new : α) :
    (items.set index new).countP holds + (holds old).toNat = items.countP holds + (holds new).toNat := by
  induction items generalizing index with
  | nil => cases found
  | cons item items induction =>
      cases index with
      | zero =>
          obtain rfl := Option.some.inj found
          rw [List.set_cons_zero, List.countP_cons, List.countP_cons]
          cases holds item <;> cases holds new <;> simp
      | succ index =>
          have rest := @induction index found
          rw [List.set_cons_succ, List.countP_cons, List.countP_cons]
          omega

namespace Crowd

/-- How the lookup of a caller ends, if a move decides it. -/
def fate? (crowd : Crowd) : Move → Option (Nat × Ending)
  | .turn turn =>
    (crowd.callers[turn.index]?.bind fun caller => caller.lookup.fate? caller.request crowd.store).map
      (Prod.mk turn.index)
  | _ => none

/-- How the lookup of one caller ends, out of what was decided. -/
def fateOf (fates : List (Nat × Ending)) (index : Nat) : List Ending :=
  (fates.filter fun fate => fate.1 = index).map Prod.snd

/-- The tally counts what has been decided of the lookups from a given one on, except for what is owed, and
those before are done. -/
structure Accounts (first : Nat) (fates : List (Nat × Ending)) (crowd : Crowd) : Prop where
  tally : ∀ ending, crowd.store.cache.tally.of ending +
      .ofNat (crowd.callers.countP fun caller => caller.lookup.owes ending) =
    .ofNat ((fates.map Prod.snd).count ending)
  done : ∀ index, index < first → ∃ caller answer,
    crowd.callers[index]? = some caller ∧ caller.lookup = .done answer
  led : ∀ index caller, first ≤ index → crowd.callers[index]? = some caller →
    ∃ fate, caller.lookup.Led fate ∧ fateOf fates index = fate.toList
  inside : ∀ fate ∈ fates, first ≤ fate.1 ∧ fate.1 < crowd.callers.length

variable {first : Nat} {fates : List (Nat × Ending)} {crowd after : Crowd}

/-- A change of neither callers nor tally. -/
theorem Accounts.keep (accounts : Accounts first fates crowd) (callers : after.callers = crowd.callers)
    (tally : after.store.cache.tally = crowd.store.cache.tally) : Accounts first fates after where
  tally := by
    rw [callers, tally]
    exact accounts.tally
  done := by
    rw [callers]
    exact accounts.done
  led := by
    rw [callers]
    exact accounts.led
  inside := by
    rw [callers]
    exact accounts.inside

theorem fateOf_append (before later : List (Nat × Ending)) (index : Nat) :
    fateOf (before ++ later) index = fateOf before index ++ fateOf later index := by
  rw [fateOf, List.filter_append, List.map_append]
  rfl

/-- A caller that arrives has yet to be led anywhere. -/
theorem Accounts.arrive (accounts : Accounts first fates crowd) (request : Request) :
    Accounts first fates { crowd with callers := crowd.callers ++ [.new request] } where
  tally ending := by
    have free : [Caller.new request].countP (fun caller => caller.lookup.owes ending) = 0 := by
      simp [Caller.new, Lookup.owes, Lookup.isMaking]
    rw [List.countP_append, free]
    exact accounts.tally ending
  done index early := by
    obtain ⟨caller, answer, stands, done⟩ := accounts.done index early
    obtain ⟨inside, _⟩ := List.getElem?_eq_some_iff.1 stands
    exact ⟨caller, answer, (List.getElem?_append_left inside).trans stands, done⟩
  led index caller late stands := by
    by_cases inside : index < crowd.callers.length
    · rw [List.getElem?_append_left inside] at stands
      exact accounts.led index caller late stands
    · have nobody : fateOf fates index = [] := by
        rw [fateOf, List.map_eq_nil_iff, List.filter_eq_nil_iff]
        intro fate among same
        have bound := (accounts.inside fate among).2
        have same : fate.1 = index := by simpa using same
        omega
      rw [List.getElem?_append_right (by omega), List.getElem?_singleton] at stands
      split at stands
      · cases stands
        exact ⟨none, .begun, nobody⟩
      · cases stands
  inside fate among := by
    have bounds := accounts.inside fate among
    rw [List.length_append]
    exact ⟨bounds.1, Nat.lt_add_right _ bounds.2⟩

/-- The callers after the turn of one of them. -/
theorem turn_of_caller {caller : Caller} (turn : Turn)
    (stands : crowd.callers[turn.index]? = some caller) :
    crowd.turn turn =
      { store := (caller.lookup.step caller.request turn.answer turn.now crowd.store).2
        callers := (crowd.callers.set turn.index
          ⟨caller.request, (caller.lookup.step caller.request turn.answer turn.now crowd.store).1⟩).map
            (Caller.receive (caller.lookup.step caller.request turn.answer turn.now
              crowd.store).2.cache.flights) } := by
  rw [Crowd.turn, step, stands]

theorem fateOf_toList (index asked : Nat) (fate : Option Ending) :
    fateOf (fate.map (Prod.mk index)).toList asked = if asked = index then fate.toList else [] := by
  cases fate with
  | none => simp [fateOf]
  | some ending =>
      by_cases same : asked = index
      · simp [fateOf, same]
      · have differs : ¬ index = asked := fun equal => same equal.symm
        simp [fateOf, same, differs]

theorem owes_receive (ending : Ending) (flights : Flights) :
    ((fun caller : Caller => caller.lookup.owes ending) ∘ Caller.receive flights) =
      fun caller => caller.lookup.owes ending := by
  funext caller
  simp [Caller.receive, Lookup.owes]

theorem fate?_turn {caller : Caller} {turn : Turn} (stands : crowd.callers[turn.index]? = some caller) :
    crowd.fate? (.turn turn) =
      (caller.lookup.fate? caller.request crowd.store).map (Prod.mk turn.index) := by
  rw [fate?, stands]
  rfl

namespace Accounts

variable {caller : Caller} {turn : Turn} (accounts : Accounts first fates crowd)
  (stands : crowd.callers[turn.index]? = some caller)
include accounts stands

theorem tally_turn (ending : Ending) :
    (crowd.turn turn).store.cache.tally.of ending +
        .ofNat ((crowd.turn turn).callers.countP fun caller => caller.lookup.owes ending) =
      .ofNat (((fates ++ (crowd.fate? (.turn turn)).toList).map Prod.snd).count ending) := by
  have before := accounts.tally ending
  have balance := Lookup.tally_step caller.request crowd.store caller.lookup turn.answer turn.now ending
  have moved := congrArg UInt64.ofNat <|
    countP_set_add (fun caller : Caller => caller.lookup.owes ending) stands
      ⟨caller.request, (caller.lookup.step caller.request turn.answer turn.now crowd.store).1⟩
  have counted : ((crowd.fate? (.turn turn)).toList.map Prod.snd).count ending =
      (decide (caller.lookup.fate? caller.request crowd.store = some ending)).toNat := by
    rw [fate?_turn stands]
    cases caller.lookup.fate? caller.request crowd.store with
    | none => rfl
    | some fate => by_cases same : fate = ending <;> simp [same]
  rw [turn_of_caller turn stands, List.countP_map, owes_receive, List.map_append, List.count_append,
    counted, UInt64.ofNat_add, ← before]
  rw [UInt64.ofNat_add, UInt64.ofNat_add] at moved
  grind

omit stands in
theorem done_turn (turn : Turn) {index : Nat} (early : index < first) :
    ∃ caller answer, (crowd.turn turn).callers[index]? = some caller ∧ caller.lookup = .done answer := by
  obtain ⟨other, answer, there, done⟩ := accounts.done index early
  obtain ⟨flights, callers⟩ := callers_turn crowd turn index
  rw [callers, there, Option.map_some]
  refine ⟨_, answer, rfl, ?_⟩
  split
  · simp [Caller.receive, done, Lookup.step, Lookup.receive]
  · simp [Caller.receive, done, Lookup.receive]

theorem led_turn {index : Nat} {next : Caller} (late : first ≤ index)
    (there : (crowd.turn turn).callers[index]? = some next) :
    ∃ fate, next.lookup.Led fate ∧
      fateOf (fates ++ (crowd.fate? (.turn turn)).toList) index = fate.toList := by
  obtain ⟨flights, callers⟩ := callers_turn crowd turn index
  rw [callers, Option.map_eq_some_iff] at there
  obtain ⟨other, there, rfl⟩ := there
  obtain ⟨fate, led, own⟩ := accounts.led index other late there
  rw [fateOf_append, own, fate?_turn stands, fateOf_toList]
  by_cases same : index = turn.index
  · rw [if_pos same, if_pos same]
    rw [same, stands] at there
    obtain rfl := Option.some.inj there
    refine ⟨_, (led.step turn.answer turn.now).receive _ _, ?_⟩
    cases fate with
    | none => rfl
    | some ending => simp [led.decided]
  · rw [if_neg same, if_neg same]
    exact ⟨fate, led.receive _ _, by simp⟩

theorem inside_turn : ∀ fate ∈ fates ++ (crowd.fate? (.turn turn)).toList,
    first ≤ fate.1 ∧ fate.1 < crowd.callers.length := by
  intro fate among
  rcases List.mem_append.1 among with before | new
  · exact accounts.inside fate before
  · rw [fate?_turn stands, Option.mem_toList, Option.map_eq_some_iff] at new
    obtain ⟨ending, decided, rfl⟩ := new
    refine ⟨Nat.le_of_not_lt fun early => ?_, (List.getElem?_eq_some_iff.1 stands).1⟩
    -- A lookup from before is done, and nothing is decided of it.
    obtain ⟨other, answer, there, done⟩ := accounts.done turn.index early
    rw [stands] at there
    obtain rfl := Option.some.inj there
    rw [done] at decided
    cases decided

omit stands in
/-- A turn decides how the lookup of its caller ends, or it does not; and it counts what is not owed. -/
theorem after_turn (turn : Turn) :
    Accounts first (fates ++ (crowd.fate? (.turn turn)).toList) (crowd.turn turn) := by
  cases stands : crowd.callers[turn.index]? with
  | none =>
      rw [fate?, stands, Crowd.turn, step, stands]
      simpa using accounts
  | some caller =>
      have length : (crowd.turn turn).callers.length = crowd.callers.length := by
        rw [turn_of_caller turn stands]
        simp
      refine ⟨accounts.tally_turn stands, fun index => accounts.done_turn turn,
        fun index next => accounts.led_turn stands, ?_⟩
      rw [length]
      exact accounts.inside_turn stands

end Accounts

theorem tally_written (store : Store) (entry : Entry) :
    (store.written entry).cache.tally = store.cache.tally := by
  simp only [Store.written, Store.withRecent]
  rw [(store.spillAll_frame _).1]

/-- Whatever happens but for a new tally, the tally counts what is decided. -/
theorem Accounts.move (accounts : Accounts first fates crowd) {move : Move} (kept : move ≠ .resetTally) :
    Accounts first (fates ++ (crowd.fate? move).toList) (crowd.move move) := by
  by_cases turns : ∃ turn, move = .turn turn
  · obtain ⟨turn, rfl⟩ := turns
    exact accounts.after_turn turn
  · have undecided : crowd.fate? move = none := by
      cases move with
      | turn turn => exact absurd ⟨turn, rfl⟩ turns
      | _ => rfl
    rw [undecided, Option.toList_none, List.append_nil]
    cases move with
    | turn turn => exact absurd ⟨turn, rfl⟩ turns
    | arrive request =>
        rw [Crowd.move]
        split
        · exact accounts.arrive request
        · exact accounts
    | putEntry entry =>
        rw [Crowd.move]
        cases nonempty : entry.key.isEmpty with
        | true =>
            rw [Store.putEntry_refused _ nonempty]
            exact accounts
        | false =>
            rw [Store.putEntry_eq nonempty]
            exact accounts.keep rfl (tally_written _ _)
    | remove key =>
        rw [Crowd.move, Store.remove]
        cases Fault.checkKey key with
        | error fault => exact accounts
        | ok checked => exact accounts.keep rfl rfl
    | clear recentOnly => cases recentOnly <;> exact accounts.keep rfl rfl
    | rebuildIndex => exact accounts.keep rfl rfl
    | resetTally => exact absurd rfl kept

theorem eq_done_of_over (idle : crowd.isOver = true) {caller : Caller} (stands : caller ∈ crowd.callers) :
    ∃ answer, caller.lookup = .done answer := by
  have answered := List.all_eq_true.1 idle caller stands
  cases lookup : caller.lookup with
  | done answer => exact ⟨answer, rfl⟩
  | _ =>
      rw [lookup] at answered
      cases answered

theorem countP_owes_of_over (idle : crowd.isOver = true) (ending : Ending) :
    crowd.callers.countP (fun caller => caller.lookup.owes ending) = 0 := by
  rw [List.countP_eq_zero]
  intro caller stands
  obtain ⟨answer, done⟩ := eq_done_of_over idle stands
  simp [done, Lookup.owes, Lookup.isMaking]

/-- Nothing is decided yet of lookups that begin where nobody looks anything up. -/
theorem accounts_of_over (idle : crowd.isOver = true) (new : crowd.store.cache.tally = {}) :
    Accounts crowd.callers.length [] crowd where
  tally ending := by
    rw [countP_owes_of_over idle, new]
    cases ending <;> rfl
  done index early := by
    obtain ⟨answer, done⟩ := eq_done_of_over idle (List.getElem_mem early)
    exact ⟨_, answer, List.getElem?_eq_getElem early, done⟩
  led index caller late stands := by
    have inside := (List.getElem?_eq_some_iff.1 stands).1
    omega
  inside fate among := nomatch among

/-- A tally accounts for a number of lookups, the first of which has a given index. -/
structure Accounted (first : Nat) (fates : List (Nat × Ending)) (answers : List (Option Entry))
    (tally : Tally) : Prop where
  /-- It was decided once of each lookup how it ends. -/
  once : (fates.map Prod.fst).Perm (List.range' first answers.length)
  each : ∀ ending, (tally.of ending).toNat = (fates.map Prod.snd).count ending
  misses : tally.misses.toNat = answers.countP Option.isNone
  found : tally.recentHits.toNat + tally.archiveHits.toNat + tally.rebuilds.toNat =
    answers.countP Option.isSome
  total : tally.total.toNat = answers.length

/-- The answer of a caller, if it is done. -/
def answerOf (crowd : Crowd) (index : Nat) : Option Entry :=
  (crowd.callers[index]?.bind fun caller => caller.lookup.answer?).join

theorem answers_drop (crowd : Crowd) (first : Nat) :
    crowd.answers.drop first =
      (List.range' first (crowd.callers.length - first)).map crowd.answerOf := by
  refine List.ext_getElem (by simp [answers]) fun index inside _ => ?_
  have within : first + index < crowd.callers.length := by
    simp only [answers, List.length_drop, List.length_map] at inside
    omega
  simp [answers, answerOf, List.getElem?_eq_getElem within]

theorem count_fst (fates : List (Nat × Ending)) (index : Nat) :
    (fates.map Prod.fst).count index = (fateOf fates index).length := by
  rw [fateOf, List.length_map, ← List.countP_eq_length_filter, List.count, List.countP_map]
  exact List.countP_congr fun fate _ => by simp

theorem mem_fateOf {fate : Nat × Ending} (among : fate ∈ fates) : fate.2 ∈ fateOf fates fate.1 :=
  List.mem_map.2 ⟨fate, List.mem_filter.2 ⟨among, by simp⟩, rfl⟩

/-- Every ending is one of four. -/
theorem length_eq_counts (endings : List Ending) :
    endings.length = endings.count .recentHit + endings.count .archiveHit + endings.count .rebuild +
      endings.count .miss := by
  induction endings with
  | nil => rfl
  | cons ending endings induction =>
      rw [List.length_cons, induction]
      cases ending <;> simp <;> omega

namespace Accounts

variable (accounts : Accounts first fates crowd) (idle : crowd.isOver = true)
include accounts idle

/-- It was decided how a lookup ends that is done, and it found an entry unless it missed. -/
theorem ending_of_over {index : Nat} (late : first ≤ index) (inside : index < crowd.callers.length) :
    ∃ ending, fateOf fates index = [ending] ∧ (crowd.answerOf index = none ↔ ending = .miss) := by
  have stands := List.getElem?_eq_getElem inside
  obtain ⟨fate, led, own⟩ := accounts.led index _ late stands
  obtain ⟨answer, done⟩ := eq_done_of_over idle (List.getElem_mem inside)
  have answered : crowd.answerOf index = answer := by
    rw [answerOf, stands, Option.bind_some, done]
    rfl
  rw [done] at led
  rw [answered]
  cases led with
  | making makes => cases makes
  | done same => exact ⟨_, own, same⟩

theorem once : (fates.map Prod.fst).Perm (List.range' first (crowd.callers.length - first)) := by
  rw [List.perm_iff_count]
  intro index
  rw [count_fst]
  by_cases among : index ∈ List.range' first (crowd.callers.length - first)
  · obtain ⟨late, inside⟩ := List.mem_range'_1.1 among
    obtain ⟨ending, own, _⟩ := accounts.ending_of_over idle late (by omega)
    rw [own, (List.nodup_range' 1).count, if_pos among]
    rfl
  · rw [List.count_eq_zero.2 among, List.length_eq_zero_iff, fateOf, List.map_eq_nil_iff,
      List.filter_eq_nil_iff]
    intro fate decided same
    have bounds := accounts.inside fate decided
    have same : fate.1 = index := by simpa using same
    exact among (List.mem_range'_1.2 (by omega))

/-- As many lookups found nothing as were decided to miss. -/
theorem countP_answers :
    (crowd.answers.drop first).countP Option.isNone = (fates.map Prod.snd).count .miss := by
  calc
    (crowd.answers.drop first).countP Option.isNone
      = (List.range' first (crowd.callers.length - first)).countP
          (Option.isNone ∘ crowd.answerOf) := by rw [answers_drop, List.countP_map]
    _ = (fates.map Prod.fst).countP (Option.isNone ∘ crowd.answerOf) :=
        ((accounts.once idle).countP_eq _).symm
    _ = fates.countP fun fate => (crowd.answerOf fate.1).isNone := List.countP_map
    _ = fates.countP fun fate => fate.2 == .miss := by
        refine List.countP_congr fun fate among => ?_
        obtain ⟨late, inside⟩ := accounts.inside fate among
        obtain ⟨ending, own, same⟩ := accounts.ending_of_over idle late inside
        have decided := mem_fateOf among
        rw [own, List.mem_singleton] at decided
        rw [Option.isNone_iff_eq_none, same, decided, beq_iff_eq]
    _ = (fates.map Prod.snd).count .miss := by rw [List.count, List.countP_map]; rfl

/-- When all lookups are done, the tally accounts for them. -/
theorem accounted (few : crowd.callers.length - first < 2 ^ 64) :
    Accounted first fates (crowd.answers.drop first) crowd.store.cache.tally := by
  have number : (crowd.answers.drop first).length = crowd.callers.length - first := by
    simp [answers]
  have length : (fates.map Prod.snd).length = crowd.callers.length - first := by
    have same := (accounts.once idle).length_eq
    rwa [List.length_map, List.length_range', ← List.length_map (f := Prod.snd)] at same
  have counts := length_eq_counts (fates.map Prod.snd)
  have each : ∀ ending, (crowd.store.cache.tally.of ending).toNat =
      (fates.map Prod.snd).count ending := by
    intro ending
    have tally := accounts.tally ending
    have bound : (fates.map Prod.snd).count ending ≤ (fates.map Prod.snd).length := List.count_le_length
    rw [countP_owes_of_over idle] at tally
    have exact : crowd.store.cache.tally.of ending = .ofNat ((fates.map Prod.snd).count ending) := by
      simpa using tally
    rw [exact, UInt64.toNat_ofNat', Nat.mod_eq_of_lt (by omega)]
  have misses := accounts.countP_answers idle
  have answered := List.length_eq_countP_add_countP (l := crowd.answers.drop first) Option.isNone
  have recentHits := each .recentHit
  have archiveHits := each .archiveHit
  have rebuilds := each .rebuild
  have missed := each .miss
  simp only [Tally.of] at recentHits archiveHits rebuilds missed
  refine ⟨?_, each, missed.trans misses.symm, ?_, ?_⟩
  · rw [number]
    exact accounts.once idle
  · have found : (crowd.answers.drop first).countP Option.isSome =
        (crowd.answers.drop first).countP fun answer => decide ¬answer.isNone = true :=
      List.countP_congr fun answer _ => by cases answer <;> simp
    rw [found]
    omega
  · rw [Tally.total, Tally.hits, UInt64.toNat_add, UInt64.toNat_add, UInt64.toNat_add]
    omega

end Accounts

end Crowd

end TieredCache
