import Mathlib.Algebra.Order.BigOperators.Group.List
import Mathlib.Algebra.Order.Ring.Nat
import TieredCache.Proofs.Crowd.Scene
import TieredCache.Proofs.Store.Opening

/-!
# One flight for all callers

Any number of callers look up one key that neither tier has, all with the same paths. However their steps
interleave, they come to an end. By then the resolver was asked once for each path, and everybody has the
artifacts that its answers brought.
-/

namespace TieredCache

/-! ## Coming to an end -/

namespace Lookup

/-- A bound on the steps of a lookup whose entry is made from a number of paths. -/
def toGo (paths : Nat) : Lookup → Nat
  | .begun => paths + 8
  | .missed => paths + 7
  | .judged _ => paths + 6
  | .joining _ => paths + 5
  | .leading _ => paths + 4
  | .hydrating _ hydration => hydration.remaining + 2
  | .waiting => 2
  | .landing _ => 1
  | .done _ => 0

/-- Receiving changes a lookup that waits and no other. -/
theorem receiveOn_cases (flight : Option Flight) (lookup : Lookup) :
    lookup.receiveOn flight = lookup ∨
      (lookup = .waiting ∧ ∃ entry, lookup.receiveOn flight = .landing entry) := by
  cases lookup with
  | waiting =>
      cases flight with
      | none => exact Or.inl rfl
      | some held =>
          cases held with
          | aloft => exact Or.inl rfl
          | landed entry => exact Or.inr ⟨rfl, entry, rfl⟩
  | _ => exact Or.inl rfl

theorem toGo_receiveOn_le (paths : Nat) (flight : Option Flight) (lookup : Lookup) :
    (lookup.receiveOn flight).toGo paths ≤ lookup.toGo paths := by
  rcases receiveOn_cases flight lookup with same | ⟨rfl, entry, received⟩
  · rw [same]
  · rw [received]
    exact Nat.le_succ 1

@[simp] theorem answer?_receiveOn (flight : Option Flight) (lookup : Lookup) :
    (lookup.receiveOn flight).answer? = lookup.answer? := by
  rcases receiveOn_cases flight lookup with same | ⟨rfl, entry, received⟩
  · rw [same]
  · rw [received]
    rfl

/-- A step that leads on, and counts its ending just when the lookup is then done. -/
structure Forward (paths : Nat) (lookup : Lookup) (ending : Option Ending) (next : Lookup) : Prop where
  shorter : next.toGo paths < lookup.toGo paths
  ended : (ending = none ∧ next.answer? = none) ∨
    ((ending = some .recentHit ∨ ending = some .rebuild) ∧ next.answer?.isSome)

end Lookup

namespace Scene

open Lookup

variable {paths : List String} {pass : Pass} {share after : Share} {lookups : List Lookup}
  {lookup next : Lookup} {setup : Store.Setup} {key : String} {answer : Answer} {now : Moment}
  {stamp : UInt64}

theorem attends_forward (scene : Scene paths pass share lookups) (attends : lookup.Attends paths share)
    (ready : lookup.isReady = true) (resolving : setup.resolving = true)
    (stepped : lookup.stepOn setup ⟨key, some paths, none⟩ answer now stamp share = (next, after)) :
    Forward paths.length lookup (lookup.ending? setup ⟨key, some paths, none⟩ share) next := by
  cases lookup with
  | begun =>
      cases slot : share.slot with
      | none =>
          simp only [Lookup.stepOn, slot] at stepped
          cases stepped
          exact ⟨by simp [toGo], Or.inl ⟨by simp [ending?, slot], rfl⟩⟩
      | some entry =>
          have complete : (entry.touch now).hydrated = true := scene.hydrated entry slot
          simp only [Lookup.stepOn, slot, Lookup.afterSlot, complete, Bool.not_true, Bool.and_false,
            Bool.false_eq_true, if_false] at stepped
          cases stepped
          exact ⟨by simp [toGo], Or.inr ⟨Or.inl (by simp [ending?, slot]), rfl⟩⟩
  | missed =>
      cases stepped
      exact ⟨by simp [toGo], Or.inl ⟨rfl, rfl⟩⟩
  | judged verdict =>
      have unfound : verdict.found? = none := attends
      simp only [Lookup.stepOn, Lookup.afterVerdict, unfound, Lookup.afterMiss, resolving, if_true]
        at stepped
      cases stepped
      exact ⟨by simp [toGo], Or.inl ⟨by simp [ending?, unfound, resolving], rfl⟩⟩
  | joining given =>
      cases flight : share.flight with
      | none =>
          simp only [Lookup.stepOn, flight] at stepped
          cases stepped
          exact ⟨by simp [toGo], Or.inl ⟨rfl, rfl⟩⟩
      | some held =>
          cases held with
          | aloft =>
              simp only [Lookup.stepOn, flight] at stepped
              cases stepped
              exact ⟨by simp [toGo], Or.inl ⟨rfl, rfl⟩⟩
          | landed entry =>
              simp only [Lookup.stepOn, flight] at stepped
              cases stepped
              exact ⟨by simp [toGo], Or.inl ⟨rfl, rfl⟩⟩
  | landing entry =>
      cases stepped
      exact ⟨by simp [toGo], Or.inr ⟨Or.inr rfl, rfl⟩⟩
  | leading given => exact attends.elim
  | hydrating aim hydration => exact attends.elim
  | waiting => cases ready
  | done given => cases ready

theorem makes_forward (makes : lookup.Makes paths pass share)
    (resolving : setup.resolving = true)
    (stepped : lookup.stepOn setup ⟨key, some paths, none⟩ answer now stamp share = (next, after)) :
    Forward paths.length lookup (lookup.ending? setup ⟨key, some paths, none⟩ share) next := by
  cases lookup with
  | leading given =>
      obtain ⟨rfl, _⟩ := makes
      cases slot : share.slot with
      | none =>
          simp only [Lookup.stepOn, slot, Hydration.begin, Entry.new, resolving, Bool.false_and,
            Bool.false_eq_true, if_false, if_true] at stepped
          cases stepped
          exact ⟨by simp [toGo, Hydration.remaining], Or.inl ⟨rfl, rfl⟩⟩
      | some entry =>
          simp only [Lookup.stepOn, slot] at stepped
          cases stepped
          exact ⟨by simp [toGo], Or.inl ⟨rfl, rfl⟩⟩
  | hydrating aim hydration =>
      cases aim with
      | seed =>
          cases hydration with
          | running entry pending deadline =>
              have shorter := Hydration.remaining_step answer (.running entry pending deadline)
              have positive : 0 < (Hydration.running entry pending deadline).remaining := by
                simp [Hydration.remaining]
              cases stepped
              refine ⟨?_, Or.inl ⟨rfl, rfl⟩⟩
              simp only [toGo]
              omega
          | finished found copy =>
              cases stepped
              exact ⟨by simp [toGo], Or.inl ⟨rfl, rfl⟩⟩
      | _ => exact makes.elim
  | _ => exact makes.elim

/-- Every step of a caller that can go on leads it on. -/
theorem forward (scene : Scene paths pass share lookups) {index : Nat}
    (found : lookups[index]? = some lookup) (ready : lookup.isReady = true)
    (resolving : setup.resolving = true)
    (stepped : lookup.stepOn setup ⟨key, some paths, none⟩ answer now stamp share = (next, after)) :
    Forward paths.length lookup (lookup.ending? setup ⟨key, some paths, none⟩ share) next := by
  by_cases aloft : share.flight = some .aloft
  · obtain ⟨leader, maker, there, makes, others⟩ := scene.aloft aloft
    by_cases here : index = leader
    · subst here
      obtain rfl := Option.some.inj (found.symm.trans there)
      exact makes_forward makes resolving stepped
    · exact scene.attends_forward (others index lookup here found) ready resolving stepped
  · exact scene.attends_forward (scene.grounded aloft lookup (List.mem_of_getElem? found)) ready
      resolving stepped

/-- While somebody is not done, somebody can go on. -/
theorem exists_ready (scene : Scene paths pass share lookups) (among : lookup ∈ lookups)
    (unanswered : lookup.answer? = none) :
    ∃ (index : Nat) (lookup : Lookup), lookups[index]? = some lookup ∧ lookup.isReady = true := by
  by_cases aloft : share.flight = some .aloft
  · obtain ⟨leader, maker, there, makes, _⟩ := scene.aloft aloft
    exact ⟨leader, maker, there, makes.isReady⟩
  · have attends := scene.grounded aloft lookup among
    obtain ⟨index, found⟩ := List.mem_iff_getElem?.1 among
    refine ⟨index, lookup, found, ?_⟩
    cases lookup with
    | waiting => exact absurd attends aloft
    | done given => cases unanswered
    | _ => rfl

/-- When everybody is done, every path was asked for, and they have what the answers brought. -/
theorem complete_of_answered (scene : Scene paths pass share lookups) (some_caller : lookups ≠ [])
    (answered : ∀ lookup ∈ lookups, lookup.answer?.isSome = true) :
    pass.map Prod.fst = paths ∧ share.brought = some pass.artifacts ∧
      ∀ lookup ∈ lookups, ∃ entry, lookup.answer? = some (some entry) ∧
        entry.artifacts = pass.artifacts := by
  have grounded : share.flight ≠ some .aloft := by
    intro aloft
    obtain ⟨leader, maker, there, makes, _⟩ := scene.aloft aloft
    have done := answered maker (List.mem_of_getElem? there)
    cases maker with
    | done given => exact makes
    | _ => cases done
  have ends : ∀ lookup ∈ lookups, ∃ entry, lookup.answer? = some (some entry) ∧
      share.brought = some entry.artifacts := by
    intro lookup among
    have attends := scene.grounded grounded lookup among
    have done := answered lookup among
    cases lookup with
    | done given =>
        obtain ⟨entry, rfl, brought⟩ := attends
        exact ⟨entry, rfl, brought⟩
    | _ => cases done
  obtain ⟨first, among⟩ := List.exists_mem_of_ne_nil lookups some_caller
  obtain ⟨entry, _, brought⟩ := ends first among
  obtain ⟨asked, gathered⟩ := scene.complete _ brought
  rw [gathered] at brought
  refine ⟨asked, brought, fun lookup among => ?_⟩
  obtain ⟨other, answer, same⟩ := ends lookup among
  exact ⟨other, answer, Option.some.inj (same.symm.trans brought)⟩

/-- A step that leads one lookup on brings all of them nearer to their end. -/
theorem sum_toGo_moved {index : Nat} (found : lookups[index]? = some lookup) {length : Nat}
    (shorter : next.toGo length < lookup.toGo length) (flight : Option Flight) :
    ((moved lookups index next flight).map (toGo length)).sum < (lookups.map (toGo length)).sum := by
  induction lookups generalizing index with
  | nil => cases found
  | cons first lookups induction =>
      cases index with
      | zero =>
          obtain rfl := Option.some.inj found
          have rest : (lookups.map fun lookup => (lookup.receiveOn flight).toGo length).sum ≤
              (lookups.map (toGo length)).sum :=
            List.sum_le_sum fun lookup _ => toGo_receiveOn_le length flight lookup
          have here := toGo_receiveOn_le length flight next
          simp only [moved, List.set_cons_zero, List.map_cons, List.map_map, List.sum_cons]
          simp only [Function.comp_def]
          omega
      | succ index =>
          have rest := induction found
          have here := toGo_receiveOn_le length flight first
          simp only [moved, List.set_cons_succ, List.map_cons, List.sum_cons] at rest ⊢
          omega

/-- After a step there is one more answer if the lookup is done by then. -/
theorem countP_moved {index : Nat} (found : lookups[index]? = some lookup)
    (unanswered : lookup.answer? = none) (flight : Option Flight) :
    (moved lookups index next flight).countP (fun lookup => lookup.answer?.isSome) =
      lookups.countP (fun lookup => lookup.answer?.isSome) + if next.answer?.isSome then 1 else 0 := by
  obtain ⟨within, rfl⟩ := List.getElem?_eq_some_iff.1 found
  rw [moved, List.countP_map]
  simp only [Function.comp_def, answer?_receiveOn]
  rw [List.countP_set within, unanswered]
  rfl

end Scene

/-! ## A key that tier 2 lacks -/

/-- Nothing is repaired for a key that is not indexed. -/
theorem Archive.settle_unindexed {archive : Archive} {key : String}
    (absent : archive.index.get? key = none) (disk : Disk) (verdict : Verdict) :
    (archive.settle disk key verdict).archive = archive := by
  have not_indexed : archive.contains key = false := by
    rw [contains, Keyed.has, absent]
    rfl
  cases verdict <;> simp [settle, forget, not_indexed]

namespace Store

/-- Tier 2 does not have the key, and tier 1 has it at most once. -/
structure Lacks (key : String) (store : Store) : Prop where
  index : store.cache.archive.index.get? key = none
  once : store.cache.recent.keys.count key ≤ 1

variable {store : Store} {key : String} {request : Request}

theorem Lacks.shelf (lacks : store.Lacks key) : (store.share key).shelf = none := by
  simp only [Store.share, Archive.shelf, lacks.index]
  rfl

theorem Lacks.offer (lacks : store.Lacks key) (entry : Entry) (now : Moment) :
    (store.offer key entry now).2.Lacks key := by
  unfold Store.offer
  cases resident : store.cache.recent.slots.get? key with
  | some held =>
      rw [Recent.offer_resident resident]
      exact ⟨lacks.index, Nat.le_of_eq (Keyed.count_keys_put _ _ _)⟩
  | none =>
      rw [Recent.offer_absent resident]
      obtain ⟨not_evicted, _, once⟩ := Recent.insert_frame
        (show store.cache.recent.advanced.slots.get? key = none from resident)
        (entry.stamped store.cache.recent.nextStamp)
      obtain ⟨_, _, index⟩ := store.spillAll_frame (store.cache.recent.advanced.insert key
        (entry.stamped store.cache.recent.nextStamp)).1
      exact ⟨(index key not_evicted).trans lacks.index, Nat.le_of_eq once⟩

end Store

namespace Lookup

variable {store : Store} {request : Request}

theorem lacks_deliver (lacks : store.Lacks request.key) (entry : Entry) (now : Moment) (aim : Aim) :
    (deliver request entry now store aim).2.Lacks request.key := by
  cases aim with
  | refresh =>
      simp only [deliver, Recent.adopt]
      split
      · exact lacks
      · split
        · refine ⟨lacks.index, ?_⟩
          simp only [Store.withRecent, Recent.keys, Keyed.keys_set]
          exact lacks.once
        · exact lacks
  | promote => exact lacks.offer entry now
  | seed =>
      have offered := lacks.offer (entry.touch now) now
      exact ⟨offered.index, offered.once⟩

/-- A lookup does not bring its key to tier 2, nor to a second place in tier 1. -/
theorem lacks_step (lacks : store.Lacks request.key) (lookup : Lookup) (answer : Answer)
    (now : Moment) : (lookup.step request answer now store).2.Lacks request.key := by
  have put_once : ∀ entry : Entry,
      (store.cache.recent.slots.put request.key entry).keys.count request.key ≤ 1 :=
    fun entry => Nat.le_of_eq (Keyed.count_keys_put _ _ _)
  cases lookup with
  | begun =>
      simp only [Lookup.step, Recent.fetch]
      cases store.cache.recent.slots.get? request.key with
      | none => exact lacks
      | some entry =>
          simp only [ofRecent_eq]
          exact ⟨lacks.index, put_once _⟩
  | judged verdict =>
      have settled : (store.carryOut (store.cache.archive.settle store.disk request.key
          verdict)).Lacks request.key := by
        refine ⟨?_, lacks.once⟩
        simp only [Store.carryOut, Archive.settle_unindexed lacks.index]
        exact lacks.index
      simp only [Lookup.step]
      generalize store.carryOut (store.cache.archive.settle store.disk request.key verdict) = middle
        at settled ⊢
      cases (store.cache.archive.settle store.disk request.key verdict).answer with
      | some entry =>
          simp only [ofArchive_eq]
          exact ⟨settled.index, settled.once⟩
      | none =>
          obtain ⟨_, alike⟩ := ofPaths_spec request middle
          refine ⟨(congrArg (fun archive => archive.index.get? request.key) alike.archive).trans
            settled.index, ?_⟩
          rw [Recent.keys, alike.slots]
          exact settled.once
  | joining paths =>
      simp only [Lookup.step, join]
      split
      · exact lacks
      · exact lacks
      · exact ⟨lacks.index, lacks.once⟩
  | leading paths =>
      simp only [Lookup.step, lead, Recent.fetch]
      cases store.cache.recent.slots.get? request.key with
      | none => exact lacks
      | some entry => exact ⟨lacks.index, put_once _⟩
  | hydrating aim hydration =>
      cases hydration with
      | running entry pending deadline => exact ⟨lacks.index, lacks.once⟩
      | finished found entry => exact lacks_deliver lacks entry now aim
  | missed => exact ⟨lacks.index, lacks.once⟩
  | landing entry => exact ⟨lacks.index, lacks.once⟩
  | waiting => exact lacks
  | done given => exact lacks

/-- While tier 2 lacks the key, a lookup does nothing that its share does not show. -/
theorem step_eq_of_lacks (lacks : store.Lacks request.key) {lookup next : Lookup} {answer : Answer}
    {now : Moment} {after : Share} (shelf : after.shelf = none)
    (stepped : lookup.stepOn store.setup request answer now store.cache.recent.nextStamp
      (store.share request.key) = (next, after)) :
    (lookup.step request answer now store).1 = next ∧
      (lookup.step request answer now store).2.share request.key = after := by
  have fronts := fronts_step store request lookup answer now
  rw [stepped] at fronts
  constructor
  · by_cases missed : lookup = .missed
    · subst missed
      cases stepped
      simp only [Lookup.step, Archive.inspect, lacks.index, lacks.shelf]
      rfl
    · exact fronts.phase missed
  · have emptied := (lacks_step lacks lookup answer now).shelf
    exact Share.ext fronts.slot (emptied.trans shelf.symm) fronts.flight

end Lookup

/-! ## Crowds -/

namespace Tally

/-- The tally after so many more hits of tier 1, and so many more entries that were made anew. -/
def grown (tally : Tally) (hits rebuilds : Nat) : Tally :=
  { tally with
    recentHits := tally.recentHits + .ofNat hits
    rebuilds := tally.rebuilds + .ofNat rebuilds }

@[simp] theorem grown_zero (tally : Tally) : tally.grown 0 0 = tally := by
  simp [grown]

theorem count_recentHit_grown (tally : Tally) (hits rebuilds : Nat) :
    (tally.grown hits rebuilds).count .recentHit = tally.grown (hits + 1) rebuilds := by
  simp [grown, count, UInt64.ofNat_add, UInt64.add_assoc]

theorem count_rebuild_grown (tally : Tally) (hits rebuilds : Nat) :
    (tally.grown hits rebuilds).count .rebuild = tally.grown hits (rebuilds + 1) := by
  simp [grown, count, UInt64.ofNat_add, UInt64.add_assoc]

end Tally

namespace Crowd

/-- The lookups of the callers. -/
def lookups (crowd : Crowd) : List Lookup := crowd.callers.map Caller.lookup

/-- Whether all callers are done. -/
def isOver (crowd : Crowd) : Bool := crowd.callers.all fun caller => caller.lookup.answer?.isSome

/-- What a number of callers have of a key when all of them are done, and what it took. -/
structure Shared (start : Store) (key : String) (paths : List String) (pass : Pass) (count : Nat)
    (crowd : Crowd) : Prop where
  /-- The resolver was asked once for each path. -/
  asked : pass.map Prod.fst = paths
  /-- Everybody has what its answers brought. -/
  answers : crowd.answers.map (Option.map Entry.artifacts) = List.replicate count (some pass.artifacts)
  tally : ∃ hits rebuilds, hits + rebuilds = count ∧
    crowd.store.cache.tally = start.cache.tally.grown hits rebuilds
  resident : crowd.store.cache.recent.keys.count key = 1

/-- Callers that look up one key with the same paths, some way after they began on a store. -/
structure Gathered (start : Store) (key : String) (paths : List String) (pass : Pass) (count : Nat)
    (crowd : Crowd) : Prop where
  number : crowd.callers.length = count
  requests : ∀ caller ∈ crowd.callers, caller.request = ⟨key, some paths, none⟩
  resolving : crowd.store.setup.resolving = true
  lacks : crowd.store.Lacks key
  scene : Scene paths pass (crowd.store.share key) crowd.lookups
  tally : ∃ hits rebuilds,
    hits + rebuilds = crowd.lookups.countP (fun lookup => lookup.answer?.isSome) ∧
      crowd.store.cache.tally = start.cache.tally.grown hits rebuilds

variable {start : Store} {key : String} {paths : List String} {pass : Pass} {count : Nat} {crowd : Crowd}

theorem exists_of_isReady {index : Nat} (ready : crowd.isReady index = true) :
    ∃ caller, crowd.callers[index]? = some caller ∧ caller.lookup.isReady = true := by
  unfold isReady at ready
  split at ready
  · cases ready
  · cases ready
  · rename_i caller not_waiting not_done found
    refine ⟨caller, found, ?_⟩
    obtain ⟨request, lookup⟩ := caller
    cases lookup with
    | waiting => exact absurd rfl (not_waiting request)
    | done given => exact absurd rfl (not_done request given)
    | _ => rfl
  · cases ready

theorem isReady_of_getElem? {index : Nat} {caller : Caller}
    (found : crowd.callers[index]? = some caller) (ready : caller.lookup.isReady = true) :
    crowd.isReady index = true := by
  obtain ⟨request, lookup⟩ := caller
  rw [isReady, found]
  cases lookup with
  | waiting => cases ready
  | done given => cases ready
  | _ => rfl

/-- The lookups after a step of one of the callers. -/
theorem lookups_turn {index : Nat} {request : Request} {lookup : Lookup}
    (found : crowd.callers[index]? = some ⟨request, lookup⟩)
    (requests : ∀ caller ∈ crowd.callers, caller.request = request) (answer : Answer) (now : Moment) :
    (crowd.turn ⟨index, answer, now⟩).store = (lookup.step request answer now crowd.store).2 ∧
      (∀ caller ∈ (crowd.turn ⟨index, answer, now⟩).callers, caller.request = request) ∧
      (crowd.turn ⟨index, answer, now⟩).callers.length = crowd.callers.length ∧
      (crowd.turn ⟨index, answer, now⟩).lookups =
        Scene.moved crowd.lookups index (lookup.step request answer now crowd.store).1
          ((lookup.step request answer now crowd.store).2.cache.flights.get? request.key) := by
  simp only [turn, step, found]
  generalize lookup.step request answer now crowd.store = outcome
  obtain ⟨next, store⟩ := outcome
  have same : ∀ caller ∈ crowd.callers.set index ⟨request, next⟩, caller.request = request := by
    intro caller among
    rcases List.mem_or_eq_of_mem_set among with among | rfl
    · exact requests caller among
    · rfl
  refine ⟨trivial, ?_, by simp, ?_⟩
  · intro caller among
    obtain ⟨old, stood, rfl⟩ := List.mem_map.1 among
    exact same old stood
  · have placed : crowd.lookups.set index next =
        (crowd.callers.set index ⟨request, next⟩).map Caller.lookup := by
      rw [List.map_set]
      rfl
    simp only [Scene.moved, placed]
    simp only [lookups, List.map_map]
    refine List.map_congr_left fun caller stood => ?_
    simp only [Function.comp, Caller.receive]
    rw [Lookup.receive_eq, same caller stood]

/-- A turn of a caller that can go on keeps the callers gathered, and brings them nearer to their end. -/
theorem Gathered.turn (gathered : crowd.Gathered start key paths pass count) (turn : Turn)
    (ready : crowd.isReady turn.index = true) :
    (crowd.turn turn).Gathered start key paths
        (pass ++ turn.answer.entered (crowd.question? turn.index)) count ∧
      ((crowd.turn turn).lookups.map (Lookup.toGo paths.length)).sum <
        (crowd.lookups.map (Lookup.toGo paths.length)).sum := by
  obtain ⟨index, answer, now⟩ := turn
  obtain ⟨⟨request, lookup⟩, found, ready⟩ := exists_of_isReady ready
  obtain rfl : request = ⟨key, some paths, none⟩ :=
    gathered.requests _ (List.mem_of_getElem? found)
  have there : crowd.lookups[index]? = some lookup := by
    rw [lookups, List.getElem?_map, found]
    rfl
  have question : crowd.question? index = lookup.question? := by
    rw [question?, found]
    rfl
  obtain ⟨store, requests, number, lookups⟩ := lookups_turn found gathered.requests answer now
  obtain ⟨⟨next, after⟩, stepped⟩ : ∃ outcome, lookup.stepOn crowd.store.setup
      ⟨key, some paths, none⟩ answer now crowd.store.cache.recent.nextStamp (crowd.store.share key) =
        outcome := ⟨_, rfl⟩
  have scene := gathered.scene.step there ready gathered.resolving stepped
  have forward := gathered.scene.forward there ready gathered.resolving stepped
  have fronts := Lookup.fronts_step crowd.store ⟨key, some paths, none⟩ lookup answer now
  have lacks := @Lookup.lacks_step crowd.store ⟨key, some paths, none⟩ gathered.lacks lookup answer now
  obtain ⟨next_eq, share_eq⟩ := Lookup.step_eq_of_lacks gathered.lacks scene.shelf stepped
  have flight : (lookup.step ⟨key, some paths, none⟩ answer now crowd.store).2.cache.flights.get? key =
      after.flight := congrArg Share.flight share_eq
  rw [next_eq, flight] at lookups
  have tally := fronts.tally
  have setup := fronts.setup
  rw [← store] at share_eq tally setup lacks
  refine ⟨⟨number.trans gathered.number, requests, ?_, lacks, ?_, ?_⟩, ?_⟩
  · rw [setup]
    exact gathered.resolving
  · rw [share_eq, lookups, question]
    exact scene
  · obtain ⟨hits, rebuilds, sum, grown⟩ := gathered.tally
    have unanswered : lookup.answer? = none := by
      cases lookup with
      | done given => cases ready
      | _ => rfl
    rw [tally, grown, lookups, Scene.countP_moved there unanswered, ← sum]
    rcases forward.ended with ⟨none_counted, not_done⟩ | ⟨hit | rebuilt, done⟩
    · exact ⟨hits, rebuilds, by simp [not_done], by rw [none_counted]; rfl⟩
    · refine ⟨hits + 1, rebuilds, by rw [if_pos done]; omega, ?_⟩
      rw [hit, Option.elim, Tally.count_recentHit_grown]
    · refine ⟨hits, rebuilds + 1, by rw [if_pos done]; omega, ?_⟩
      rw [rebuilt, Option.elim, Tally.count_rebuild_grown]
  · rw [lookups]
    exact Scene.sum_toGo_moved there forward.shorter after.flight

/-- However the callers take their turns, they stay gathered, and there are only so many turns. -/
theorem Gathered.run (gathered : crowd.Gathered start key paths pass count) {turns : List Turn}
    (admits : crowd.Admits turns) :
    (crowd.run turns).Gathered start key paths (pass ++ crowd.pass turns) count ∧
      turns.length + ((crowd.run turns).lookups.map (Lookup.toGo paths.length)).sum ≤
        (crowd.lookups.map (Lookup.toGo paths.length)).sum := by
  induction turns generalizing crowd pass with
  | nil =>
      rw [Crowd.pass, List.append_nil, List.length_nil, Nat.zero_add]
      exact ⟨gathered, Nat.le_refl _⟩
  | cons turn turns induction =>
      obtain ⟨ready, admits⟩ := admits
      obtain ⟨next, shorter⟩ := gathered.turn turn ready
      obtain ⟨whole, bound⟩ := induction next admits
      rw [List.append_assoc] at whole
      refine ⟨whole, ?_⟩
      rw [List.length_cons]
      change turns.length + 1 + (((crowd.turn turn).run turns).lookups.map _).sum ≤ _
      omega

/-- Callers that have begun are gathered. -/
theorem gathered_begun (resolving : start.cache.resolving = true)
    (slot : start.cache.recent.slots.get? key = none)
    (index : start.cache.archive.index.get? key = none) (flight : start.cache.flights.get? key = none) :
    Gathered start key paths [] count ⟨start, List.replicate count (.new ⟨key, some paths, none⟩)⟩ := by
  have begun : (Crowd.mk start (List.replicate count (.new ⟨key, some paths, none⟩))).lookups =
      List.replicate count .begun := by
    rw [lookups, List.map_replicate]
    rfl
  have once : start.cache.recent.keys.count key = 0 :=
    List.count_eq_zero.2 (Keyed.get?_eq_none_iff.1 slot)
  have lacks : start.Lacks key := ⟨index, by rw [once]; exact Nat.zero_le 1⟩
  have bare : (start.share key).slot = none := slot
  have grounded : (start.share key).flight = none := flight
  refine ⟨List.length_replicate, ?_, resolving, lacks, ?_, 0, 0, ?_, (Tally.grown_zero _).symm⟩
  · intro caller among
    rw [List.eq_of_mem_replicate among]
    rfl
  · rw [begun]
    constructor
    · exact lacks.shelf
    · rw [bare]
      rintro entry ⟨⟩
    · intro artifacts brought
      rw [Share.brought, bare] at brought
      cases brought
    · rw [grounded]
      rintro entry ⟨⟩
    · exact fun _ _ => rfl
    · intro _ lookup among
      rw [List.eq_of_mem_replicate among]
      trivial
    · rw [grounded]
      rintro ⟨⟩
  · rw [begun, List.countP_replicate]
    rfl

/-- When everybody is done, the callers share one entry. -/
theorem Gathered.shared (gathered : crowd.Gathered start key paths pass count) (several : 0 < count)
    (finished : crowd.isOver = true) : crowd.Shared start key paths pass count := by
  have answered : ∀ lookup ∈ crowd.lookups, lookup.answer?.isSome = true := by
    intro lookup among
    obtain ⟨caller, stands, rfl⟩ := List.mem_map.1 among
    exact List.all_eq_true.1 finished caller stands
  have number : crowd.lookups.length = count := by
    rw [lookups, List.length_map, gathered.number]
  obtain ⟨complete, brought, same⟩ :=
    gathered.scene.complete_of_answered (List.ne_nil_of_length_pos (number ▸ several)) answered
  refine ⟨complete, ?_, ?_, ?_⟩
  · rw [List.eq_replicate_iff]
    refine ⟨by rw [answers, List.length_map, List.length_map, gathered.number], fun given among => ?_⟩
    obtain ⟨answer, given_by, rfl⟩ := List.mem_map.1 among
    obtain ⟨caller, stands, rfl⟩ := List.mem_map.1 given_by
    obtain ⟨entry, answer, equal⟩ := same caller.lookup (List.mem_map_of_mem stands)
    rw [answer, ← equal]
    rfl
  · obtain ⟨hits, rebuilds, sum, grown⟩ := gathered.tally
    refine ⟨hits, rebuilds, ?_, grown⟩
    rw [sum, List.countP_eq_length.2 answered, number]
  · have held : key ∈ crowd.store.cache.recent.keys := by
      obtain ⟨entry, slot, _⟩ := Option.map_eq_some_iff.1 brought
      exact Keyed.mem_keys_iff.2 ⟨entry, slot⟩
    have positive := List.count_pos_iff.2 held
    have once := gathered.lacks.once
    omega

theorem assemble_replicate {request : Request} (nonempty : request.key.isEmpty = false)
    (store : Store) (count : Nat) : assemble store (List.replicate count request) =
      .ok ⟨store, List.replicate count (.new request)⟩ := by
  have checked : (List.replicate count request).forM (fun request => Fault.checkKey request.key) =
      .ok () := by
    induction count with
    | zero => rfl
    | succ count induction =>
        rw [List.replicate_succ, List.forM, Fault.checkKey, nonempty]
        exact induction
  rw [assemble, checked, List.map_replicate]
  rfl

/-- Callers that look up one key at the same time, which neither tier has and nobody else makes. However
their steps interleave, there are only so many of them, one of the callers can go on until all are done,
and by then they share one entry. -/
theorem single_flight {store : Store} {key : String} (paths : List String) {count : Nat}
    (nonempty : key.isEmpty = false) (several : 0 < count) (resolving : store.cache.resolving = true)
    (slot : store.cache.recent.slots.get? key = none)
    (index : store.cache.archive.index.get? key = none) (flight : store.cache.flights.get? key = none) :
    ∃ crowd, assemble store (List.replicate count ⟨key, some paths, none⟩) = .ok crowd ∧
      ∀ turns, crowd.Admits turns →
        turns.length ≤ count * (paths.length + 8) ∧
        ((crowd.run turns).isOver = false → ∃ index, (crowd.run turns).isReady index = true) ∧
        ((crowd.run turns).isOver = true →
          (crowd.run turns).Shared store key paths (crowd.pass turns) count) := by
  refine ⟨_, assemble_replicate nonempty store count, fun turns admits => ?_⟩
  obtain ⟨gathered, bound⟩ :=
    (@gathered_begun store key paths count resolving slot index flight).run admits
  refine ⟨?_, fun unfinished => ?_, gathered.shared several⟩
  · have length : ((Crowd.mk store (List.replicate count (.new ⟨key, some paths, none⟩))).lookups.map
        (Lookup.toGo paths.length)).sum = count * (paths.length + 8) := by
      rw [lookups, List.map_replicate, List.map_replicate, List.sum_replicate]
      rfl
    omega
  · obtain ⟨caller, among, unanswered⟩ := List.all_eq_false.1 unfinished
    obtain ⟨place, lookup, found, ready⟩ := gathered.scene.exists_ready
      (List.mem_map_of_mem among) (by simpa using unanswered)
    rw [lookups, List.getElem?_map] at found
    obtain ⟨standing, there, rfl⟩ := Option.map_eq_some_iff.1 found
    exact ⟨place, isReady_of_getElem? there ready⟩

/-- Two callers on the small store, which has a resolver here. -/
def pair : Crowd where
  store := { Store.small with cache := { Store.small.cache with resolving := true } }
  callers := List.replicate 2 (.new ⟨"k", some ["p", "q"], none⟩)

/-- Both callers miss both tiers before either makes the entry, whose second path alone is found. The second
caller asks for a flight when that of the first has been retired. -/
def staggered : List Turn :=
  let before := [0, 1, 0, 1, 0, 1, 0, 0, 0].map fun index => ⟨index, .unknown, .epoch⟩
  let after := [0, 0, 0, 1, 1, 1].map fun index => ⟨index, .unknown, .epoch⟩
  before ++ ⟨0, .found ⟨7, .text "q"⟩, .epoch⟩ :: after

/-- What the first caller's resolver finds is what both callers get. -/
theorem single_flight_staggered :
    assemble pair.store (List.replicate 2 ⟨"k", some ["p", "q"], none⟩) = .ok pair ∧
      pair.Admits staggered ∧ (pair.run staggered).isOver = true ∧
      pair.pass staggered = [("p", .unknown), ("q", .found ⟨7, .text "q"⟩)] ∧
      (pair.pass staggered).artifacts = [("q", ⟨7, .text "q"⟩)] ∧
      (pair.run staggered).Shared pair.store "k" ["p", "q"] (pair.pass staggered) 2 := by
  obtain ⟨crowd, assembled, ends⟩ :=
    @single_flight pair.store "k" ["p", "q"] 2 (by decide) (by decide) rfl rfl rfl rfl
  obtain rfl : crowd = pair := Except.ok.inj (assembled.symm.trans rfl)
  have admits : pair.Admits staggered := by decide +kernel
  have finished : (pair.run staggered).isOver = true := by decide +kernel
  have passed : pair.pass staggered = [("p", .unknown), ("q", .found ⟨7, .text "q"⟩)] := by decide +kernel
  exact ⟨assembled, admits, finished, passed, by rw [passed]; rfl, (ends staggered admits).2.2 finished⟩

end Crowd

end TieredCache
