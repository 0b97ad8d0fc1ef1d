import TieredCache.Proofs.Crowd.Uses
import TieredCache.Proofs.Recent.Hydrations
import TieredCache.Proofs.Store.Opening

/-!
# Hydration under traffic

Every lookup that finds an entry without hydration works on a copy of its own and stores it back. What it
brings is never less than what it read, so a slot loses hydration only when a copy is stored back over what
another one has brought since it was read. This does happen: a copy whose hydration was cut short takes
away what a lookup that overtook it had found.
-/

namespace TieredCache

/-! ## Copies -/

namespace Entry.Retains

variable {origin entry : Entry}

theorem receive (retains : origin.Retains entry) (path : String) (answer : Answer) :
    origin.Retains (entry.receive path answer) := by
  cases answer with
  | found artifact =>
      refine ⟨retains.hydrated, fun asked has => ?_⟩
      have kept := retains.artifacts asked has
      rw [Entry.receive, Entry.resolve, Keyed.has, Keyed.get?_put]
      split
      · rfl
      · exact kept
  | unknown => exact retains
  | failed => exact retains

theorem finish (retains : origin.Retains entry) (complete : Bool) :
    origin.Retains (entry.finish complete) := by
  rw [Entry.finish]
  split
  · exact ⟨fun _ => rfl, retains.artifacts⟩
  · exact retains

end Entry.Retains

namespace Hydration

/-- The entry that a hydration works on has what a given entry has. -/
def Gains (origin : Entry) : Hydration → Prop
  | .running entry _ _ => origin.Retains entry
  | .finished _ entry => origin.Retains entry

variable {origin entry : Entry}

theorem gains_begin (resolving : Bool) (entry : Entry) (deadline : Option Nat) :
    (begin resolving entry deadline).Gains entry := by
  rw [begin]
  split
  · exact .refl entry
  · split
    · exact .refl entry
    · exact .refl entry

/-- A hydration takes nothing away, however it goes on and ends. -/
theorem Gains.step {hydration : Hydration} (gains : hydration.Gains origin) (answer : Answer) :
    (hydration.step answer).1.Gains origin := by
  cases hydration with
  | finished found entry => exact gains
  | running entry pending deadline =>
      have retains : origin.Retains entry := gains
      rw [Hydration.step.eq_def]
      split
      · rename_i same
        cases same
        exact retains.finish true
      · rename_i same
        cases same
        exact retains.finish false
      · rename_i same
        cases same
        exact retains.receive _ answer
      · rename_i same
        cases same

end Hydration

namespace Crowd

variable {crowd : Crowd} {key : String}

/-- The entry of a key in tier 1. -/
def slot (key : String) (crowd : Crowd) : Option Entry := crowd.store.cache.recent.slot key

/-- No two slots have one key. -/
def Distinct (crowd : Crowd) : Prop := crowd.store.cache.recent.slots.keys.Nodup

/-- A move does not end what the slot of a key holds. -/
def Spares (crowd : Crowd) (key : String) (move : Move) : Prop :=
  ∀ use ∈ crowd.use? move, crowd.store.cache.recent.displaces key use = false

theorem Distinct.through (distinct : crowd.Distinct) (moves : List Move) :
    (crowd.through moves).Distinct := by
  rw [Distinct, recent_through]
  exact Recent.distinct_through distinct _

/-- Tier 1 after a move that asks something of it, and after one that does not. -/
theorem recent_of_use? {move : Move} {use : Use} (asks : crowd.use? move = some use) :
    (crowd.move move).store.cache.recent = crowd.store.cache.recent.after use := by
  rw [recent_move, asks]
  rfl

theorem recent_of_use?_none {move : Move} (asks : crowd.use? move = none) :
    (crowd.move move).store.cache.recent = crowd.store.cache.recent := by
  rw [recent_move, asks]
  rfl

/-- A caller whose hydration has come to an end stores its copy back, and nobody else does. -/
theorem use?_adopt_iff {move : Move} {copy : Entry} :
    crowd.use? move = some (.adopt key copy) ↔ ∃ (turn : Turn) (caller : Caller) (found : Bool),
      move = .turn turn ∧ crowd.callers[turn.index]? = some caller ∧ caller.request.key = key ∧
        caller.lookup = .hydrating .refresh (.finished found copy) := by
  refine ⟨fun stores => ?_, ?_⟩
  · cases move with
    | turn turn =>
        obtain ⟨⟨request, lookup⟩, stands, stores⟩ := Option.bind_eq_some_iff.1 stores
        simp only [Lookup.use?.eq_def] at stores
        split at stores <;> cases stores
        exact ⟨turn, _, _, rfl, stands, rfl, rfl⟩
    | putEntry entry =>
        simp only [use?] at stores
        split at stores <;> cases stores
    | remove other =>
        simp only [use?] at stores
        split at stores <;> cases stores
    | clear recentOnly => cases stores
    | arrive request => cases stores
    | rebuildIndex => cases stores
    | resetTally => cases stores
  · rintro ⟨turn, caller, found, rfl, stands, rfl, ends⟩
    rw [use?, stands, Option.bind_some, ends]
    rfl

/-- A move that leaves a slot in place takes hydration from it only by storing a copy that has less. -/
theorem upholds_iff {move : Move} (distinct : crowd.Distinct) (spares : crowd.Spares key move) :
    Upholds (crowd.slot key) ((crowd.move move).slot key) ↔
      ∀ copy held, crowd.use? move = some (.adopt key copy) → crowd.slot key = some held →
        held.stamp = copy.stamp → held.Retains copy := by
  rw [slot, slot]
  cases asks : crowd.use? move with
  | none =>
      rw [recent_of_use?_none asks]
      exact iff_of_true (.refl _) fun copy held stores => nomatch stores
  | some use =>
      rw [recent_of_use? asks, Recent.upholds_iff distinct (spares use asks)]
      simp only [Option.some.injEq]

/-! ## A lookup that nobody overtakes -/

/-- A caller of a key has a copy that has all the hydration that the slot has. -/
structure Leads (crowd : Crowd) (index : Nat) (request : Request) (origin : Entry) : Prop where
  slot : ∃ held, crowd.slot request.key = some held ∧ held.Retains origin
  caller : ∃ hydration, crowd.callers[index]? = some ⟨request, .hydrating .refresh hydration⟩ ∧
    hydration.Gains origin

variable {index : Nat} {request : Request} {origin : Entry}

/-- The callers after a turn. Those that it is not the turn of go on if they waited for a flight. -/
theorem callers_turn (crowd : Crowd) (turn : Turn) (asked : Nat) :
    ∃ flights, (crowd.turn turn).callers[asked]? =
      crowd.callers[asked]?.map fun caller =>
        if asked = turn.index then
          Caller.receive flights
            ⟨caller.request, (caller.lookup.step caller.request turn.answer turn.now crowd.store).1⟩
        else caller.receive flights := by
  rw [Crowd.turn, step]
  cases stands : crowd.callers[turn.index]? with
  | none =>
      refine ⟨[], ?_⟩
      by_cases same : asked = turn.index
      · rw [same, stands]
        rfl
      · have still : ∀ caller : Caller, caller.receive [] = caller := by
          rintro ⟨request, lookup⟩
          cases lookup <;> rfl
        simp only [if_neg same, still, Option.map_id']
  | some caller =>
      refine ⟨(caller.lookup.step caller.request turn.answer turn.now crowd.store).2.cache.flights, ?_⟩
      simp only
      rw [List.getElem?_map]
      by_cases same : asked = turn.index
      · rw [same, stands, List.getElem?_set_self', stands]
        simp only [Option.map_some, if_pos]
        rfl
      · rw [List.getElem?_set_ne (Ne.symm same)]
        simp only [if_neg same]

/-- A caller that hydrates goes on with its hydration when it is its turn. -/
theorem Leads.caller_turn (leads : crowd.Leads index request origin) (turn : Turn)
    (alone : ∀ copy, crowd.use? (.turn turn) ≠ some (.adopt request.key copy)) :
    ∃ hydration, (crowd.turn turn).callers[index]? = some ⟨request, .hydrating .refresh hydration⟩ ∧
      hydration.Gains origin := by
  obtain ⟨hydration, stands, gains⟩ := leads.caller
  obtain ⟨flights, callers⟩ := callers_turn crowd turn index
  rw [stands, Option.map_some] at callers
  by_cases own : index = turn.index
  · rw [if_pos own] at callers
    cases hydration with
    | running entry pending deadline =>
        refine ⟨_, callers.trans ?_, gains.step turn.answer⟩
        rw [Lookup.step]
        · rfl
        · intro found entry same
          cases same
    | finished found copy =>
        -- Its turn would store the copy back.
        refine absurd ?_ (alone copy)
        exact use?_adopt_iff.2 ⟨turn, _, found, rfl, own ▸ stands, rfl, rfl⟩
  · rw [if_neg own] at callers
    exact ⟨hydration, callers, gains⟩

theorem Leads.after {move : Move} (leads : crowd.Leads index request origin) (distinct : crowd.Distinct)
    (spares : crowd.Spares request.key move)
    (alone : ∀ copy, crowd.use? move ≠ some (.adopt request.key copy)) :
    (crowd.move move).Leads index request origin where
  slot := by
    obtain ⟨held, found, retains⟩ := leads.slot
    cases asks : crowd.use? move with
    | none =>
        refine ⟨held, ?_, retains⟩
        rw [Crowd.slot, recent_of_use?_none asks]
        exact found
    | some use =>
        rw [Crowd.slot, recent_of_use? asks]
        rcases Recent.get?_kept distinct (spares use asks) found with same | ⟨now, read⟩ | ⟨copy, rfl, _⟩
        · exact ⟨held, same, retains⟩
        · exact ⟨held.touch now, read, ⟨retains.hydrated, retains.artifacts⟩⟩
        · exact absurd asks (alone copy)
  caller := by
    obtain ⟨hydration, stands, gains⟩ := leads.caller
    cases move with
    | turn turn => exact leads.caller_turn turn alone
    | arrive arriving =>
        rw [Crowd.move]
        split
        · refine ⟨hydration, ?_, gains⟩
          obtain ⟨inside, _⟩ := List.getElem?_eq_some_iff.1 stands
          rw [List.getElem?_append_left inside, stands]
        · exact ⟨hydration, stands, gains⟩
    | putEntry entry =>
        rw [Crowd.move]
        split
        · exact ⟨hydration, stands, gains⟩
        · exact ⟨hydration, stands, gains⟩
    | remove key =>
        rw [Crowd.move]
        split
        · exact ⟨hydration, stands, gains⟩
        · exact ⟨hydration, stands, gains⟩
    | clear recentOnly => exact ⟨hydration, stands, gains⟩
    | rebuildIndex => exact ⟨hydration, stands, gains⟩
    | resetTally => exact ⟨hydration, stands, gains⟩

/-! ## Runs -/

theorem keeps_cons_iff {move : Move} {later : List Move} :
    Recent.keeps key crowd.store.cache.recent (crowd.uses (move :: later)) = true ↔
      crowd.Spares key move ∧
        Recent.keeps key (crowd.move move).store.cache.recent ((crowd.move move).uses later) = true := by
  rw [uses, Recent.keeps_append, ← recent_move, Bool.and_eq_true_iff]
  refine and_congr_left fun _ => ?_
  cases asks : crowd.use? move with
  | none => simp [Spares, asks, Recent.keeps]
  | some use => simp [Spares, asks, Recent.keeps]

theorem spares_of_keeps {moves before rest : List Move} {move : Move}
    (kept : Recent.keeps key crowd.store.cache.recent (crowd.uses moves) = true)
    (parts : moves = before ++ move :: rest) : (crowd.through before).Spares key move := by
  rw [parts, uses_append, Recent.keeps_append, ← recent_through, Bool.and_eq_true_iff] at kept
  exact (keeps_cons_iff.1 kept.2).1

/-- No copy is stored back under a key. -/
def StoresNone (crowd : Crowd) (key : String) (moves : List Move) : Prop :=
  ∀ before move rest copy, moves = before ++ move :: rest →
    (crowd.through before).use? move ≠ some (.adopt key copy)

theorem Leads.through (leads : crowd.Leads index request origin) (distinct : crowd.Distinct)
    {moves : List Move}
    (kept : Recent.keeps request.key crowd.store.cache.recent (crowd.uses moves) = true)
    (alone : crowd.StoresNone request.key moves) :
    (crowd.through moves).Leads index request origin := by
  induction moves generalizing crowd with
  | nil => exact leads
  | cons move later induction =>
      obtain ⟨spares, kept⟩ := keeps_cons_iff.1 kept
      have next := leads.after distinct spares fun copy => alone [] move later copy rfl
      refine induction next (distinct.through [move]) kept fun before other rest copy parts => ?_
      exact alone (move :: before) other rest copy (congrArg (move :: ·) parts)

/-- A caller that reads an entry to hydrate it has what the slot has. -/
theorem leads_of_reading {turn : Turn} {hydration : Hydration} (distinct : crowd.Distinct)
    (begun : crowd.callers[turn.index]? = some ⟨request, .begun⟩)
    (reads : (crowd.turn turn).callers[turn.index]? =
      some ⟨request, .hydrating .refresh hydration⟩) :
    ∃ origin, (crowd.turn turn).Leads turn.index request origin := by
  obtain ⟨flights, callers⟩ := callers_turn crowd turn turn.index
  rw [reads, begun, Option.map_some, if_pos rfl] at callers
  have asks : crowd.use? (.turn turn) = some (.fetch request.key turn.now) := by
    rw [use?, begun]
    rfl
  cases resident : crowd.store.cache.recent.slots.get? request.key with
  | none =>
      simp only [Lookup.step, Recent.fetch, resident] at callers
      cases callers
  | some held =>
      have given : crowd.store.cache.recent.copy? (.fetch request.key turn.now) =
          some (request.key, held.touch turn.now) := by
        rw [Recent.copy?, Recent.fetch, resident]
        rfl
      have slot : (crowd.turn turn).slot request.key = some (held.touch turn.now) := by
        rw [Crowd.slot, ← Recent.get?_copy distinct given, ← recent_of_use? asks]
        rfl
      refine ⟨held.touch turn.now, ⟨_, slot, .refl _⟩, hydration, reads, ?_⟩
      simp only [Lookup.step, Recent.fetch, resident, Lookup.ofRecent] at callers
      split at callers
      · cases callers
        exact Hydration.gains_begin _ _ _
      · cases callers

/-- A store is opened with nothing in tier 1. -/
theorem recent_of_opened {disk : Disk} {settings : Settings} {resolving : Bool}
    {describer : Option Describer} {store : Store}
    (opens : Store.opened disk settings resolving describer = .ok store) :
    store.cache.recent = .empty settings.memoryLimit :=
  congrArg Cache.recent (Store.opened_ok opens).2.2

/-- Hydration lasts in a run of moves as long as every copy that is stored back has what the slot has by
then. -/
theorem lasts_iff (distinct : crowd.Distinct) {moves : List Move}
    (kept : Recent.keeps key crowd.store.cache.recent (crowd.uses moves) = true) :
    Lasts move (slot key) crowd moves ↔
      ∀ before (turn : Turn) rest caller found copy held, moves = before ++ .turn turn :: rest →
        (crowd.through before).callers[turn.index]? = some caller → caller.request.key = key →
        caller.lookup = .hydrating .refresh (.finished found copy) →
        (crowd.through before).slot key = some held → held.stamp = copy.stamp →
        held.Retains copy := by
  have step : ∀ before move rest, moves = before ++ move :: rest →
      (Upholds ((crowd.through before).slot key) (((crowd.through before).move move).slot key) ↔
        ∀ copy held, (crowd.through before).use? move = some (.adopt key copy) →
          (crowd.through before).slot key = some held → held.stamp = copy.stamp →
          held.Retains copy) := fun before move rest parts =>
    upholds_iff (distinct.through before) (spares_of_keeps kept parts)
  rw [lasts_iff_steps]
  refine ⟨fun upholds => ?_, fun retains before move rest parts => ?_⟩
  · intro before turn rest caller found copy held parts stands asked ends
    refine (step before _ rest parts).1 (upholds before _ rest parts) copy held ?_
    exact use?_adopt_iff.2 ⟨turn, caller, found, rfl, stands, asked, ends⟩
  · refine (step before move rest parts).2 fun copy held stores => ?_
    obtain ⟨turn, caller, found, rfl, stands, asked, ends⟩ := use?_adopt_iff.1 stores
    exact retains before turn rest caller found copy held parts stands asked ends

/-- When hydration lasts, in tier 1 by itself and in a cache. A slot that is neither written anew nor
evicted or taken away loses hydration exactly by a copy that is stored back and has less than the slot has
by then. The copy of a lookup has no less, unless another copy is stored back after it was read. -/
theorem hydration_lasts_iff {disk : Disk} {settings : Settings} {resolving : Bool}
    {describer : Option Describer} {store : Store}
    (opens : Store.opened disk settings resolving describer = .ok store) (earlier : List Move)
    (capacity : Nat) (past : List Use) (key : String) :
    let recent := (Recent.empty capacity).through past
    let crowd := (⟨store, []⟩ : Crowd).through earlier
    (∀ uses, recent.keeps key uses = true →
      (Lasts Recent.after (Recent.slot key) recent uses ↔
        ∀ before copy rest held, uses = before ++ .adopt key copy :: rest →
          (recent.through before).slot key = some held → held.stamp = copy.stamp →
          held.Retains copy)) ∧
    (∀ moves, crowd.store.cache.recent.keeps key (crowd.uses moves) = true →
      (Lasts move (slot key) crowd moves ↔
        ∀ before (turn : Turn) rest caller found copy held, moves = before ++ .turn turn :: rest →
          (crowd.through before).callers[turn.index]? = some caller → caller.request.key = key →
          caller.lookup = .hydrating .refresh (.finished found copy) →
          (crowd.through before).slot key = some held → held.stamp = copy.stamp →
          held.Retains copy)) ∧
    ∀ (reading : Turn) request hydration between found copy held, request.key = key →
      crowd.callers[reading.index]? = some ⟨request, .begun⟩ →
      (crowd.turn reading).callers[reading.index]? = some ⟨request, .hydrating .refresh hydration⟩ →
      let read := crowd.turn reading
      read.store.cache.recent.keeps key (read.uses between) = true → read.StoresNone key between →
      (read.through between).callers[reading.index]? =
        some ⟨request, .hydrating .refresh (.finished found copy)⟩ →
      (read.through between).slot key = some held → held.Retains copy := by
  have empty : (⟨store, []⟩ : Crowd).Distinct := by
    rw [Distinct, recent_of_opened opens]
    exact List.nodup_nil
  have distinct := empty.through earlier
  refine ⟨fun uses => ?_, fun moves => lasts_iff distinct, ?_⟩
  · exact Recent.lasts_iff (Recent.distinct_through (Recent.distinct_empty capacity) past)
  · rintro reading request hydration between found copy held rfl begun reads read kept alone ends there
    obtain ⟨origin, leads⟩ := leads_of_reading distinct begun reads
    have later := leads.through (distinct.through [.turn reading]) kept alone
    obtain ⟨_, stands, gains⟩ := later.caller
    obtain ⟨resident, here, retains⟩ := later.slot
    rw [ends] at stands
    rw [there] at here
    cases stands
    cases here
    exact retains.trans gains

/-- The small store with a resolver. -/
def asking : Store := { Store.small with cache := { Store.small.cache with resolving := true } }

/-- An entry is put, and two callers look it up, the first with a deadline before its first question. -/
def arrivals : List Move :=
  [.putEntry (.new "k" ["p"] .epoch), .arrive ⟨"k", none, some 0⟩, .arrive ⟨"k", none, none⟩]

/-- Both callers read the entry. The second finds an artifact and stores it back, and then the deadline of
the first passes. -/
def overtaking : List Move :=
  [0, 1, 1, 1, 1, 0].map fun index => .turn ⟨index, .found ⟨0, .text "Q"⟩, .epoch⟩

/-- The copy that was cut short is stored back, and the hydration is lost. -/
theorem hydration_lost_when_overtaken :
    let crowd := (⟨asking, []⟩ : Crowd).through arrivals
    let moves := overtaking ++ [.turn ⟨0, .unknown, .epoch⟩]
    Store.opened .bare ⟨1, "cache", true⟩ true none = .ok asking ∧
      crowd.store.cache.recent.keeps "k" (crowd.uses moves) = true ∧
      ¬ Lasts move (slot "k") crowd moves := by
  intro crowd moves
  have opens : Store.opened .bare ⟨1, "cache", true⟩ true none = .ok asking := rfl
  have kept : crowd.store.cache.recent.keeps "k" (crowd.uses moves) = true := by decide +kernel
  refine ⟨opens, kept, fun lasts => ?_⟩
  have stored_back := ((hydration_lasts_iff opens arrivals 1 [] "k").2.1 moves kept).1 lasts
  let read : Entry := { (Entry.new "k" ["p"] .epoch).touch .epoch with stamp := 1 }
  let held : Entry :=
    { read with count := 2, artifacts := [("p", ⟨0, .text "Q"⟩)], hydrated := true }
  have retains := stored_back overtaking ⟨0, .unknown, .epoch⟩ []
    ⟨⟨"k", none, some 0⟩, .hydrating .refresh (.finished false read)⟩ false read held rfl rfl rfl rfl rfl rfl
  exact Bool.false_ne_true (retains.hydrated rfl)

end Crowd

end TieredCache
