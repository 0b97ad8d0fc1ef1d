import TieredCache.Proofs.Lookup.Local
import TieredCache.Service

/-!
# Where artifacts come from

An entry is sound if each of its artifacts came, for its path, from a caller or from a resolver, and if it
counts as hydrated whenever it has any. What is read from a record has none, and a hydration adds those
that it is answered. Only while it runs may an entry have artifacts and not count as hydrated.
-/

namespace TieredCache

namespace Entry

/-- Every artifact of an entry is among given ones, for its path. -/
def Sourced (origins : Artifacts) (entry : Entry) : Prop := ∀ pair ∈ entry.artifacts, pair ∈ origins

/-- An entry has no artifacts but given ones, and counts as hydrated if it has any. -/
structure Sound (origins : Artifacts) (entry : Entry) : Prop where
  hydrated : entry.artifacts ≠ [] → entry.hydrated = true
  sourced : entry.Sourced origins

/-- A sound entry of a key. -/
structure Fits (origins : Artifacts) (key : String) (entry : Entry) : Prop where
  own : entry.key = key
  sound : entry.Sound origins

variable {origins more : Artifacts} {key : String} {entry copy : Entry}

theorem Sound.mono (sound : entry.Sound origins) (grows : origins ⊆ more) : entry.Sound more :=
  ⟨sound.hydrated, fun pair among => grows (sound.sourced pair among)⟩

theorem Fits.mono (fits : entry.Fits origins key) (grows : origins ⊆ more) : entry.Fits more key :=
  ⟨fits.own, fits.sound.mono grows⟩

theorem sound_of_bare (bare : entry.artifacts = []) : entry.Sound origins :=
  ⟨fun some => absurd bare some, fun pair among => by rw [bare] at among; cases among⟩

/-- A record holds no artifacts. -/
theorem sound_of_read? {bytes : Bytes} (read : read? bytes = some entry) : entry.Sound origins := by
  obtain ⟨outline, _, decoded⟩ := Option.bind_eq_some_iff.1 read
  unfold ofOutline? at decoded
  split at decoded
  · simp only [bind, Option.bind_eq_some_iff, pure, Option.some.injEq] at decoded
    obtain ⟨_, _, _, _, _, _, _, _, _, _, _, _, _, _, rfl⟩ := decoded
    exact sound_of_bare rfl
  · cases decoded

theorem fits_of_readOwn? {bytes : Bytes} (read : readOwn? key bytes = some entry) :
    entry.Fits origins key :=
  ⟨key_of_readOwn? read, sound_of_read? (Option.filter_eq_some_iff.1 read).1⟩

/-- Artifacts that a caller brought are among those that came. -/
theorem sound_withArtifacts {artifacts : Artifacts} (came : artifacts ⊆ origins) :
    (entry.withArtifacts artifacts).Sound origins :=
  ⟨fun _ => rfl, fun _ among => came among⟩

theorem Fits.touch (fits : entry.Fits origins key) (now : Moment) : (entry.touch now).Fits origins key :=
  ⟨fits.own, fits.sound.hydrated, fits.sound.sourced⟩

theorem Fits.stamped (fits : entry.Fits origins key) (stamp : UInt64) :
    (entry.stamped stamp).Fits origins key :=
  ⟨fits.own, fits.sound.hydrated, fits.sound.sourced⟩

theorem Fits.adopt (fits : entry.Fits origins key) (sound : copy.Sound origins) :
    (entry.adopt copy).Fits origins key :=
  ⟨fits.own, sound.hydrated, sound.sourced⟩

theorem Sound.described (sound : entry.Sound origins) (cache : Cache) :
    (Store.described cache entry).Sound origins := by
  obtain ⟨tags, same⟩ := Store.described_eq cache entry
  rw [same]
  exact ⟨sound.hydrated, sound.sourced⟩

theorem Sourced.receive (sourced : entry.Sourced origins) {path : String} {answer : Answer}
    (came : answer.brings (some path) ⊆ origins) : (entry.receive path answer).Sourced origins := by
  cases answer with
  | found artifact =>
      intro pair among
      rcases List.mem_append.1 among with before | new
      · exact sourced pair (List.mem_filter.1 before).1
      · exact came new
  | unknown => exact sourced
  | failed => exact sourced

/-- However a hydration ends, an entry that it has brought artifacts to counts as hydrated. -/
theorem Sourced.finish (sourced : entry.Sourced origins) (complete : Bool) :
    (entry.finish complete).Sound origins := by
  rw [Entry.finish]
  split
  · exact ⟨fun _ => rfl, sourced⟩
  · rename_i bare
    refine sound_of_bare ?_
    simp only [Bool.or_eq_true, Bool.not_eq_true', not_or, Bool.not_eq_false, List.isEmpty_iff] at bare
    exact bare.2

end Entry

namespace Hydration

/-- A hydration works on artifacts that came, and is over with a sound entry. -/
inductive Sound (origins : Artifacts) : Hydration → Prop where
  | running {entry : Entry} {pending : List String} {deadline : Option Nat}
      (sourced : entry.Sourced origins) : Sound origins (.running entry pending deadline)
  | finished {found : Bool} {entry : Entry} (sound : entry.Sound origins) :
      Sound origins (.finished found entry)

variable {origins more : Artifacts} {entry : Entry} {hydration : Hydration}

theorem Sound.mono (sound : hydration.Sound origins) (grows : origins ⊆ more) : hydration.Sound more := by
  cases sound with
  | running sourced => exact .running fun pair among => grows (sourced pair among)
  | finished sound => exact .finished (sound.mono grows)

theorem sound_begin (resolving : Bool) (sound : entry.Sound origins) (deadline : Option Nat) :
    (begin resolving entry deadline).Sound origins := by
  rw [begin]
  split
  · exact .finished sound
  · split
    · exact .running sound.sourced
    · exact .finished sound

/-- A hydration goes on with what it is answered for its question. -/
theorem Sound.step (sound : hydration.Sound origins) {answer : Answer}
    (came : answer.brings hydration.question? ⊆ origins) : (hydration.step answer).1.Sound origins := by
  cases sound with
  | finished sound => exact .finished sound
  | @running entry pending deadline sourced =>
      cases pending with
      | nil => exact .finished (sourced.finish true)
      | cons path pending =>
          rcases deadline with _ | _ | left
          · exact .running (sourced.receive came)
          · exact .finished (sourced.finish false)
          · exact .running (sourced.receive came)

theorem Sound.result? (sound : hydration.Sound origins) {entry : Entry}
    (ended : hydration.result? = some entry) : entry.Sound origins := by
  cases sound with
  | running sourced => cases ended
  | finished sound =>
      obtain rfl := Option.some.inj ended
      exact sound

end Hydration

end TieredCache
