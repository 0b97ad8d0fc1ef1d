import TieredCache.Proofs.Recent.Uses
import TieredCache.Traffic

/-!
# Tier 1 under traffic

Whatever happens on a store, tier 1 is what the uses that it sees have made of it.
-/

namespace TieredCache

namespace Recent

/-- A read changes tier 1 only if it finds something. -/
theorem fetch_none {recent after : Recent} {key : String} {now : Moment}
    (fetched : recent.fetch key now = (none, after)) : after = recent := by
  rw [fetch] at fetched
  split at fetched
  · exact (Prod.mk.inj fetched).2.symm
  · cases fetched

end Recent

namespace Lookup

/-- A step of a lookup does to tier 1 what it asks of it. -/
theorem recent_step (request : Request) (answer : Answer) (now : Moment) (store : Store)
    (lookup : Lookup) :
    (lookup.step request answer now store).2.cache.recent =
      store.cache.recent.through (lookup.use? request now).toList := by
  cases lookup with
  | begun =>
      have through : store.cache.recent.through [.fetch request.key now] =
          (store.cache.recent.fetch request.key now).2 := rfl
      rw [use?, Option.toList_some, through, step]
      rcases fetched : store.cache.recent.fetch request.key now with ⟨entry, recent⟩
      cases entry with
      | some entry =>
          simp only [ofRecent]
          split <;> rfl
      | none => exact (Recent.fetch_none fetched).symm
  | missed => rfl
  | judged verdict =>
      rw [step]
      cases (store.cache.archive.settle store.disk request.key verdict).answer with
      | some entry => rfl
      | none =>
          simp only [ofPaths]
          split
          · rfl
          · split <;> rfl
  | joining paths =>
      simp only [step, join]
      split <;> rfl
  | waiting => rfl
  | leading paths =>
      have through : store.cache.recent.through [.fetch request.key now] =
          (store.cache.recent.fetch request.key now).2 := rfl
      rw [use?, Option.toList_some, through, step, lead]
      rcases fetched : store.cache.recent.fetch request.key now with ⟨entry, recent⟩
      cases entry with
      | some entry => rfl
      | none => exact (Recent.fetch_none fetched).symm
  | hydrating aim hydration =>
      cases hydration with
      | running entry pending deadline =>
          have silent : (hydrating aim (.running entry pending deadline)).use? request now = none := by
            cases aim <;> rfl
          rw [silent, step]
          · rcases (Hydration.running entry pending deadline).step answer with ⟨hydration, notices⟩
            rfl
          · intro found entry same
            cases same
      | finished found entry => cases aim <;> rfl
  | landing entry => rfl
  | done answer => rfl

end Lookup

namespace Crowd

/-- A move does to tier 1 what it asks of it. -/
theorem recent_move (crowd : Crowd) (move : Move) :
    (crowd.move move).store.cache.recent =
      crowd.store.cache.recent.through (crowd.use? move).toList := by
  cases move with
  | arrive request =>
      rw [Crowd.move]
      split <;> rfl
  | turn turn =>
      rw [Crowd.move, Crowd.turn, Crowd.step, use?]
      cases crowd.callers[turn.index]? with
      | none => rfl
      | some caller => exact Lookup.recent_step _ _ _ _ _
  | putEntry entry =>
      rw [Crowd.move, use?, Store.putEntry]
      cases Fault.checkKey entry.key <;> rfl
  | remove key =>
      rw [Crowd.move, use?, Store.remove]
      cases Fault.checkKey key <;> rfl
  | clear recentOnly => cases recentOnly <;> rfl
  | rebuildIndex => rfl
  | resetTally => rfl

/-- Moves do to tier 1 what they ask of it. -/
theorem recent_through (crowd : Crowd) (moves : List Move) :
    (crowd.through moves).store.cache.recent =
      crowd.store.cache.recent.through (crowd.uses moves) := by
  induction moves generalizing crowd with
  | nil => rfl
  | cons move later induction =>
      rw [uses, Recent.through_append, ← recent_move]
      exact induction (crowd.move move)

theorem uses_append (crowd : Crowd) (before later : List Move) :
    crowd.uses (before ++ later) = crowd.uses before ++ (crowd.through before).uses later := by
  induction before generalizing crowd with
  | nil => rfl
  | cons move before induction =>
      rw [List.cons_append, uses, uses, induction, List.append_assoc]
      rfl

end Crowd

end TieredCache
