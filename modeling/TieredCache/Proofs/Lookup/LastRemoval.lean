import TieredCache.Proofs.Lookup.LastPut

/-!
# A removal during a lookup

Whether a key stays away that another caller removes during a lookup without paths. The lookup does
not notice the removal: if it carries a copy from tier 2 by then, it brings the copy to tier 1 and the
key is back.
-/

namespace TieredCache

/-- Whether a call makes the entry of a key anew, if it is not held. -/
def Call.makes (resolving : Bool) (key : String) : Call → Bool
  | .get request => resolving && decide (request.key = key) && request.paths.isSome
  | _ => false

namespace Lookup

/-- Whether a lookup carries a copy of a record that it will bring to tier 1. -/
def carries : Lookup → Bool
  | .judged (.sound _) => true
  | .hydrating .promote _ => true
  | _ => false

/-- A lookup that is not about to make an entry anew. -/
def Unmade : Lookup → Prop
  | .joining _ => False
  | .waiting => False
  | .leading _ => False
  | .hydrating .seed _ => False
  | .landing _ => False
  | _ => True

variable {setup : Store.Setup} {request : Request} {now : Moment} {lookup : Lookup} {share : Share}

theorem afterMiss_of_no_paths (no_paths : request.paths = none) :
    afterMiss setup request = .done none := by
  rw [afterMiss, no_paths]

/-- A lookup without paths does not come to make an entry anew. -/
theorem Unmade.stepOn (no_paths : request.paths = none) (unmade : lookup.Unmade) (answer : Answer)
    (stamp : UInt64) : (lookup.stepOn setup request answer now stamp share).1.Unmade := by
  cases lookup with
  | begun =>
      simp only [Lookup.stepOn, afterSlot]
      split
      · split <;> trivial
      · trivial
  | missed => trivial
  | judged verdict =>
      simp only [Lookup.stepOn, afterVerdict, afterMiss_of_no_paths no_paths]
      split <;> trivial
  | hydrating aim hydration =>
      cases aim with
      | seed => exact unmade.elim
      | refresh => cases hydration <;> trivial
      | promote => cases hydration <;> trivial
  | done given => trivial
  | _ => exact unmade.elim

/-- What has become of a removed key. The last argument is whether it comes back. -/
inductive Absence : Lookup → Share → Bool → Prop where
  /-- Nothing is held of it, and nothing will be. -/
  | gone {lookup : Lookup} {share : Share} (slot : share.slot = none) (shelf : share.shelf = none)
      (idle : lookup.carries = false) : Absence lookup share false
  /-- Nothing is held of it, but the lookup carries a copy. -/
  | carried {lookup : Lookup} {share : Share} (slot : share.slot = none) (shelf : share.shelf = none)
      (carries : lookup.carries = true) : Absence lookup share true
  /-- The lookup has brought its copy to tier 1. -/
  | back {share : Share} {entry : Entry} {answer : Option Entry} (slot : share.slot = some entry) :
      Absence (.done answer) share true

/-- What has become of a removed key after an own step of the lookup. -/
theorem Absence.step {returns : Bool} (absence : Absence lookup share returns)
    (no_paths : request.paths = none) (unmade : lookup.Unmade) (answer : Answer) (stamp : UInt64) :
    Absence (lookup.stepOn setup request answer now stamp share).1
      (lookup.stepOn setup request answer now stamp share).2 returns := by
  cases absence with
  | gone slot shelf idle =>
      cases lookup with
      | begun =>
          simp only [Lookup.stepOn, slot]
          exact .gone slot shelf rfl
      | missed =>
          simp only [Lookup.stepOn, shelf]
          exact .gone slot shelf rfl
      | judged verdict =>
          have none_found : verdict.found? = none := by
            cases verdict with
            | sound entry => cases idle
            | _ => rfl
          simp only [Lookup.stepOn, afterVerdict, none_found, afterMiss_of_no_paths no_paths]
          split
          · exact .gone slot rfl rfl
          · exact .gone slot shelf rfl
      | hydrating aim hydration =>
          cases aim with
          | seed => exact unmade.elim
          | promote => cases idle
          | refresh =>
              cases hydration with
              | running copy pending deadline => exact .gone slot shelf rfl
              | finished complete copy =>
                  simp only [Lookup.stepOn, Share.adopt, slot]
                  exact .gone slot shelf rfl
      | done given => exact .gone slot shelf rfl
      | _ => exact unmade.elim
  | carried slot shelf carries =>
      cases lookup with
      | judged verdict =>
          cases verdict with
          | sound entry => exact .carried slot shelf rfl
          | _ => cases carries
      | hydrating aim hydration =>
          cases aim with
          | promote =>
              cases hydration with
              | running copy pending deadline => exact .carried slot shelf rfl
              | finished complete copy =>
                  simp only [Lookup.stepOn, Share.offer, slot]
                  have brought : (share.withSlot (some (copy.stamped stamp))).slot =
                      some (copy.stamped stamp) := rfl
                  exact .back brought
          | _ => cases carries
      | _ => cases carries
  | back slot => exact .back slot

/-- A call that neither changes the key nor makes it anew leaves it away. -/
theorem Absence.call {key : String} {resolving returns : Bool} {made : Call} {after : Share}
    (absence : Absence lookup share returns) (opened : lookup.isOpen = true)
    (not_landed : ∀ entry, share.flight ≠ some (.landed entry))
    (undergoes : share.Undergoes resolving key now made after) (aside : made.changes key = false)
    (unmade : made.makes resolving key = false) : Absence lookup after returns := by
  have empty : ∀ {slot_none : share.slot = none} {shelf_none : share.shelf = none},
      after.slot = none ∧ after.shelf = none := by
    intro slot shelf
    have nothing : share.held? key = none := by
      rw [Share.held?, slot, shelf]
      rfl
    rcases undergoes.of_aside aside with keeps | ⟨request, answer, rfl, rfl, finds⟩
    · rw [Share.eq_of_keeps keeps nothing]
      exact ⟨slot, shelf⟩
    · have no_making : request.paths = none ∨ resolving = false := by
        cases paths : request.paths with
        | none => exact Or.inl rfl
        | some paths_given => simpa [Call.makes, paths] using unmade
      obtain ⟨_, rfl⟩ := finds.eq_none nothing no_making not_landed
      exact ⟨rfl, rfl⟩
  cases absence with
  | gone slot shelf idle =>
      obtain ⟨slot_after, shelf_after⟩ := @empty slot shelf
      exact .gone slot_after shelf_after idle
  | carried slot shelf carries =>
      obtain ⟨slot_after, shelf_after⟩ := @empty slot shelf
      exact .carried slot_after shelf_after carries
  | back slot => cases opened

/-- Once the lookup is done, the key is in neither tier just when it has not come back. -/
theorem Absence.away_iff {returns : Bool} (absence : Absence lookup share returns)
    (ended : lookup.answer?.isSome = true) :
    (share.slot = none ∧ share.shelf = none) ↔ returns = false := by
  cases absence with
  | gone slot shelf idle => exact ⟨fun _ => rfl, fun _ => ⟨slot, shelf⟩⟩
  | carried slot shelf carries =>
      cases lookup with
      | done given => cases carries
      | _ => cases ended
  | back slot =>
      constructor
      · rintro ⟨nothing, _⟩
        rw [slot] at nothing
        cases nothing
      · rintro ⟨⟩

end Lookup

namespace Run

variable {σ : Type} {known : String → Prop} {home : Path} {request : Request} {setup : Store.Setup}
  {run : Run σ}

/-- None of the calls of a schedule makes the entry of a key anew. -/
def MakesNone (resolving : Bool) (key : String) (events : List Event) : Prop :=
  ∀ event ∈ events, ∀ made ∈ event.call?, made.makes resolving key = false

/-- A lookup without paths never comes to make an entry anew, whatever other callers do. -/
theorem unmade_through (distinct : DistinctNames known) (key_known : known request.key)
    (nonempty : request.key.isEmpty = false) (no_paths : request.paths = none) (resolve : Resolver σ)
    {events : List Event} (sound : run.Sound known home request setup) (unmade : run.lookup.Unmade)
    (admits : run.Admits resolve request events) (knows : Knows known events) :
    (run.through resolve request events).lookup.Unmade := by
  induction events generalizing run with
  | nil => exact unmade
  | cons event later induction =>
      obtain ⟨now_admits, later_admits⟩ := admits
      obtain ⟨now_known, later_known⟩ := List.forall_mem_cons.1 knows
      have after_sound := sound.after distinct key_known nonempty resolve now_admits now_known
      refine induction after_sound ?_ later_admits later_known
      cases event with
      | call made now => exact unmade
      | step answer now =>
          have after := @Lookup.Unmade.stepOn setup request now _ (run.store.share request.key) no_paths
            unmade answer run.store.cache.recent.nextStamp
          rw [← (sound.simulates distinct key_known resolve answer now).lookup] at after
          exact after

/-- Whether a removed key comes back is settled when it is removed. -/
theorem absence_through (distinct : DistinctNames known) (key_known : known request.key)
    (nonempty : request.key.isEmpty = false) (no_paths : request.paths = none) (resolve : Resolver σ)
    {events : List Event} {returns : Bool} (sound : run.Sound known home request setup)
    (unmade : run.lookup.Unmade)
    (absence : Lookup.Absence run.lookup (run.store.share request.key) returns)
    (admits : run.Admits resolve request events) (knows : Knows known events)
    (alone : LeavesAlone request.key events)
    (makes_none : MakesNone setup.resolving request.key events) :
    Lookup.Absence (run.through resolve request events).lookup
      ((run.through resolve request events).store.share request.key) returns := by
  induction events generalizing run with
  | nil => exact absence
  | cons event later induction =>
      obtain ⟨now_admits, later_admits⟩ := admits
      obtain ⟨now_known, later_known⟩ := List.forall_mem_cons.1 knows
      obtain ⟨now_alone, later_alone⟩ := List.forall_mem_cons.1 alone
      obtain ⟨now_makes, later_makes⟩ := List.forall_mem_cons.1 makes_none
      have after_sound := sound.after distinct key_known nonempty resolve now_admits now_known
      cases event with
      | step answer now =>
          have simulates := sound.simulates distinct key_known resolve answer now
          have after_unmade := @Lookup.Unmade.stepOn setup request now _ (run.store.share request.key)
            no_paths unmade answer run.store.cache.recent.nextStamp
          have after_absence := @Lookup.Absence.step setup request now _ _ _ absence no_paths unmade
            answer run.store.cache.recent.nextStamp
          rw [← simulates.lookup] at after_unmade
          rw [← simulates.lookup, ← simulates.share] at after_absence
          exact induction after_sound after_unmade after_absence later_admits later_known later_alone
            later_makes
      | call made now =>
          have serves := Store.serves_call distinct sound.tidy (now_known made rfl) resolve run.state now
          have after_absence := absence.call now_admits (sound.aligned.not_landed now_admits)
            (serves.shares request.key nonempty) (now_alone made rfl)
            (by rw [sound.setup_eq]; exact now_makes made rfl)
          exact induction after_sound unmade after_absence later_admits later_known later_alone
            later_makes

end Run

namespace Overlap

variable {σ : Type} {known : String → Prop} {home : Path} {overlap : Overlap σ}

theorem Proper.unmade_meeting (distinct : DistinctNames known) (proper : overlap.Proper known home)
    (no_paths : overlap.request.paths = none) : overlap.meeting.lookup.Unmade := by
  have begun := Run.Sound.start (proper.reachable.atRest distinct) overlap.request proper.nonempty
    overlap.state
  exact Run.unmade_through distinct proper.key_known proper.nonempty no_paths overlap.resolve begun
    trivial (Run.admits_append.1 proper.admits).1 (List.forall_mem_append.1 proper.knows).1

/-- A removal leaves nothing but the copy that the lookup may carry. -/
theorem Proper.absence_parting (distinct : DistinctNames known) (proper : overlap.Proper known home)
    (removal : overlap.made = .remove overlap.request.key ∨ overlap.made = .clear false) :
    Lookup.Absence overlap.parting.lookup (overlap.parting.store.share overlap.request.key)
      overlap.meeting.lookup.carries := by
  have meeting := proper.sound_meeting distinct
  have serves := Store.serves_call distinct meeting.tidy proper.knows_later.1 overlap.resolve
    overlap.meeting.state overlap.now
  have cleared := (serves.shares overlap.request.key proper.nonempty).of_removal removal
  have same_lookup : overlap.parting.lookup = overlap.meeting.lookup := rfl
  change overlap.parting.store.share overlap.request.key = _ at cleared
  rw [same_lookup, cleared]
  cases carries : overlap.meeting.lookup.carries with
  | false => exact .gone rfl rfl carries
  | true => exact .carried rfl rfl carries

/-- A key that another caller removes during a lookup without paths, and which nobody else then writes
or makes anew, is in neither tier after the lookup just when the lookup carried no copy of its record
when it was removed. -/
theorem removal_stays_iff (distinct : DistinctNames known) (proper : overlap.Proper known home)
    (no_paths : overlap.request.paths = none)
    (removal : overlap.made = .remove overlap.request.key ∨ overlap.made = .clear false)
    (alone : Run.LeavesAlone overlap.request.key overlap.later)
    (makes_none : Run.MakesNone overlap.store.cache.resolving overlap.request.key overlap.later) :
    (overlap.final.store.cache.recent.contains overlap.request.key = false ∧
        overlap.final.store.cache.archive.contains overlap.request.key = false ∧
        overlap.final.store.Misses overlap.request.key) ↔
      overlap.meeting.lookup.carries = false := by
  have atRest := proper.atRest distinct
  have in_recent : overlap.final.store.cache.recent.contains overlap.request.key =
      (overlap.final.store.share overlap.request.key).slot.isSome := rfl
  have in_archive : overlap.final.store.cache.archive.contains overlap.request.key =
      (overlap.final.store.share overlap.request.key).shelf.isSome := atRest.tidy.archive.contains_iff
  have away := Run.absence_through distinct proper.key_known proper.nonempty no_paths overlap.resolve
    (proper.sound_parting distinct) (proper.unmade_meeting distinct no_paths)
    (proper.absence_parting distinct removal) proper.admits_later.2 proper.knows_later.2 alone
    makes_none
  rw [← overlap.final_eq] at away
  rw [in_recent, in_archive, ← away.away_iff proper.ended]
  constructor
  · rintro ⟨slot, shelf, _⟩
    exact ⟨Option.not_isSome_iff_eq_none.1 (by rw [slot]; exact Bool.false_ne_true),
      Option.not_isSome_iff_eq_none.1 (by rw [shelf]; exact Bool.false_ne_true)⟩
  · rintro ⟨slot, shelf⟩
    have nothing : (overlap.final.store.share overlap.request.key).held? overlap.request.key = none := by
      rw [Share.held?, slot, shelf]
      rfl
    have misses := Store.misses_of_held? distinct atRest proper.key_known proper.nonempty nothing
    rw [slot, shelf]
    exact ⟨rfl, rfl, misses⟩

/-- While the record of "k" is in hand, "k" is removed. -/
def heldRemoval : Overlap Unit where
  store := .crowded
  resolve := silent
  state := ()
  request := ⟨"k", none, none⟩
  before := [.step .unknown .epoch, .step .unknown .epoch]
  made := .remove "k"
  now := .epoch
  later := [.step .unknown .epoch, .step .unknown .epoch]

theorem proper_heldRemoval : heldRemoval.Proper twoKeys ["cache"] where
  reachable := Store.reachable_crowded
  key_known := Or.inl rfl
  nonempty := rfl
  knows := by
    simp only [Run.Knows, events, heldRemoval, List.cons_append, List.nil_append,
      List.forall_mem_cons, Event.call?, Option.mem_def, Option.some.injEq, forall_eq', Call.key?]
    simp [twoKeys]
  admits := by decide +kernel
  ended := by decide +kernel

/-- The lookup carries a copy of the record when "k" is removed, and "k" does not stay away. -/
theorem removal_undone_when_carried :
    ¬ (heldRemoval.final.store.cache.recent.contains "k" = false ∧
      heldRemoval.final.store.cache.archive.contains "k" = false ∧
      heldRemoval.final.store.Misses "k") := by
  have alone : Run.LeavesAlone "k" heldRemoval.later := by
    simp [Run.LeavesAlone, heldRemoval, Event.call?]
  have makes_none : Run.MakesNone false "k" heldRemoval.later := by
    simp [Run.MakesNone, heldRemoval, Event.call?]
  have iff := removal_stays_iff distinct_twoKeys proper_heldRemoval rfl (Or.inl rfl) alone makes_none
  have carries : heldRemoval.meeting.lookup.carries = true := by decide +kernel
  intro away
  rw [iff.1 away] at carries
  cases carries

end Overlap

end TieredCache
