import TieredCache.Crowd
import TieredCache.Proofs.Lookup.Front

/-!
# Callers that make one entry

Any number of callers look up one key with the same paths, and tier 2 has no record of it. At most one
of them makes the entry. The others have not come so far, wait for its flight, or have its artifacts.
`Scene.step` says that a step of any caller keeps it so.
-/

namespace TieredCache

open Archive

/-- The artifacts of the slot. -/
def Share.brought (share : Share) : Option Artifacts := share.slot.map Entry.artifacts

/-! ## What a pass brings -/

namespace Pass

/-- The artifacts that an entry without any has after the answers of a pass. -/
def artifacts (pass : Pass) : Artifacts := ((Entry.new "" [] .epoch).receiveAll pass).artifacts

/-- Every path was asked for, once and in order, and these are the artifacts that the answers brought. -/
structure Brings (paths : List String) (artifacts : Artifacts) (pass : Pass) : Prop where
  asked : pass.map Prod.fst = paths
  brought : artifacts = pass.artifacts

/-- An entry goes on to have the artifacts that a pass brings. -/
theorem artifacts_receive {pass : Pass} {entry : Entry} (gathered : entry.artifacts = pass.artifacts)
    (path : String) (answer : Answer) :
    (entry.receive path answer).artifacts = Pass.artifacts (pass ++ [(path, answer)]) := by
  rw [artifacts, Entry.receiveAll, List.foldl_append, ← Entry.receiveAll]
  cases answer with
  | found artifact => exact congrArg (fun held : Artifacts => held.put path artifact) gathered
  | unknown => exact gathered
  | failed => exact gathered

end Pass

namespace Lookup

/-- A lookup that waits goes on as soon as the flight has landed. -/
def receiveOn (flight : Option Flight) : Lookup → Lookup
  | .waiting =>
    match flight with
    | some (.landed entry) => .landing entry
    | _ => .waiting
  | lookup => lookup

theorem receive_eq (request : Request) (flights : Flights) (lookup : Lookup) :
    lookup.receive request flights = lookup.receiveOn (flights.get? request.key) := by
  cases lookup with
  | waiting =>
      unfold receive receiveOn Flights.landed?
      cases flights.get? request.key with
      | none => rfl
      | some flight => cases flight <;> rfl
  | _ => rfl

/-- Whether a lookup can go on. -/
def isReady : Lookup → Bool
  | .waiting => false
  | .done _ => false
  | _ => true

/-! ## The two roles -/

/-- A lookup that does not make the entry. -/
def Attends (paths : List String) (share : Share) : Lookup → Prop
  | .begun => True
  | .missed => True
  | .judged verdict => verdict.found? = none
  | .joining given => given = paths
  | .waiting => share.flight = some .aloft
  | .landing entry => share.brought = some entry.artifacts
  | .done answer => ∃ entry, answer = some entry ∧ share.brought = some entry.artifacts
  | .leading _ => False
  | .hydrating _ _ => False

/-- The lookup that makes the entry. What has been asked and what is to be asked are all the paths, and what
has been answered is in the entry. -/
def Makes (paths : List String) (pass : Pass) (share : Share) : Lookup → Prop
  | .leading given => given = paths ∧ (share.slot = none → pass = [])
  | .hydrating .seed (.running entry pending deadline) =>
    share.slot = none ∧ pass.map Prod.fst ++ pending = paths ∧ entry.artifacts = pass.artifacts ∧
      deadline = none
  | .hydrating .seed (.finished _ entry) =>
    share.slot = none ∧ pass.Brings paths entry.artifacts ∧ entry.hydrated = true
  | _ => False

variable {paths : List String} {pass : Pass} {share after : Share} {lookup : Lookup}

/-- A lookup attends as before when the artifacts stay and a flight does not vanish. -/
theorem Attends.receiveOn (attends : lookup.Attends paths share)
    (keeps : ∀ artifacts, share.brought = some artifacts → after.brought = some artifacts)
    (landed : ∀ entry, after.flight = some (.landed entry) → after.brought = some entry.artifacts)
    (aloft : share.flight = some .aloft → after.flight ≠ none) :
    (lookup.receiveOn after.flight).Attends paths after := by
  cases lookup with
  | waiting =>
      unfold Lookup.receiveOn
      cases flight : after.flight with
      | none => exact absurd flight (aloft attends)
      | some held =>
          cases held with
          | aloft => exact flight
          | landed entry => exact landed entry flight
  | landing entry => exact keeps _ attends
  | done answer =>
      obtain ⟨entry, same, brought⟩ := attends
      exact ⟨entry, same, keeps _ brought⟩
  | leading given => exact attends.elim
  | hydrating aim hydration => exact attends.elim
  | _ => exact attends

theorem Makes.receiveOn (makes : lookup.Makes paths pass share) (flight : Option Flight) :
    lookup.receiveOn flight = lookup := by
  cases lookup with
  | waiting => exact makes.elim
  | _ => rfl

theorem Attends.question?_eq (attends : lookup.Attends paths share) : lookup.question? = none := by
  cases lookup with
  | hydrating aim hydration => exact attends.elim
  | _ => rfl

/-- The lookup makes the entry as before when the slot is empty as before. -/
theorem Makes.keep (makes : lookup.Makes paths pass share) (same : after.brought = share.brought) :
    lookup.Makes paths pass after := by
  have empty_iff : after.slot = none ↔ share.slot = none := by
    rw [Share.brought, Share.brought] at same
    rw [← Option.map_eq_none_iff (f := Entry.artifacts), same, Option.map_eq_none_iff]
  cases lookup with
  | leading given => exact ⟨makes.1, fun slot => makes.2 (empty_iff.1 slot)⟩
  | hydrating aim hydration =>
      cases aim with
      | seed =>
          cases hydration with
          | running entry pending deadline => exact ⟨empty_iff.2 makes.1, makes.2⟩
          | finished found entry => exact ⟨empty_iff.2 makes.1, makes.2⟩
      | _ => exact makes.elim
  | _ => exact makes.elim

theorem Makes.isReady (makes : lookup.Makes paths pass share) : lookup.isReady = true := by
  cases lookup with
  | leading given => rfl
  | hydrating aim hydration => rfl
  | _ => exact makes.elim

end Lookup

/-! ## Scenes -/

/-- Callers of one key, what the store has of it, and what the resolver has been asked and has answered. -/
structure Scene (paths : List String) (pass : Pass) (share : Share) (lookups : List Lookup) : Prop where
  shelf : share.shelf = none
  hydrated : ∀ entry ∈ share.slot, entry.hydrated = true
  /-- The entry is there only after every path was asked for, with what the answers brought. -/
  complete : ∀ artifacts, share.brought = some artifacts → pass.Brings paths artifacts
  landed : ∀ entry, share.flight = some (.landed entry) → share.brought = some entry.artifacts
  unasked : share.flight = none → share.brought = none → pass = []
  grounded : share.flight ≠ some .aloft → ∀ lookup ∈ lookups, Lookup.Attends paths share lookup
  /-- While a flight is under way, one caller makes the entry. -/
  aloft : share.flight = some .aloft → ∃ (leader : Nat) (maker : Lookup), lookups[leader]? = some maker ∧
    maker.Makes paths pass share ∧ ∀ (index : Nat) (lookup : Lookup), index ≠ leader →
      lookups[index]? = some lookup → lookup.Attends paths share

namespace Scene

variable {paths : List String} {pass : Pass} {share after : Share} {lookups : List Lookup}
  {lookup next : Lookup} {setup : Store.Setup} {key : String} {answer : Answer} {now : Moment}
  {stamp : UInt64}

/-- A step of a caller that does not make the entry: it may take the flight, or retire it. -/
theorem attends_step (scene : Scene paths pass share lookups) (attends : lookup.Attends paths share)
    (ready : lookup.isReady = true) (resolving : setup.resolving = true)
    (stepped : lookup.stepOn setup ⟨key, some paths, none⟩ answer now stamp share = (next, after)) :
    after.shelf = none ∧ (∀ entry ∈ after.slot, entry.hydrated = true) ∧
      after.brought = share.brought ∧
      ((after.flight = share.flight ∧ next.Attends paths after) ∨
        (share.flight ≠ some .aloft ∧ after.flight = none ∧ next.Attends paths after ∧
          share.brought ≠ none) ∨
        (share.flight = none ∧ after.flight = some .aloft ∧ next.Makes paths pass after)) := by
  cases lookup with
  | begun =>
      cases slot : share.slot with
      | none =>
          simp only [Lookup.stepOn, slot] at stepped
          cases stepped
          exact ⟨scene.shelf, scene.hydrated, rfl, Or.inl ⟨rfl, trivial⟩⟩
      | some entry =>
          have complete : (entry.touch now).hydrated = true := scene.hydrated entry slot
          have brought : share.brought = some entry.artifacts := by rw [Share.brought, slot]; rfl
          simp only [Lookup.stepOn, slot, Lookup.afterSlot, complete, Bool.not_true, Bool.and_false,
            Bool.false_eq_true, if_false] at stepped
          cases stepped
          refine ⟨scene.shelf, ?_, brought.symm, Or.inl ⟨rfl, _, rfl, rfl⟩⟩
          rintro held ⟨⟩
          exact complete
  | missed =>
      simp only [Lookup.stepOn, scene.shelf] at stepped
      cases stepped
      exact ⟨scene.shelf, scene.hydrated, rfl, Or.inl ⟨rfl, rfl⟩⟩
  | judged verdict =>
      have kept : (if verdict.purges then share.withShelf none else share) = share := by
        split
        · rw [Share.withShelf, ← scene.shelf]
        · rfl
      have unfound : verdict.found? = none := attends
      simp only [Lookup.stepOn, Lookup.afterVerdict, unfound, Lookup.afterMiss, resolving, if_true, kept]
        at stepped
      cases stepped
      exact ⟨scene.shelf, scene.hydrated, rfl, Or.inl ⟨rfl, rfl⟩⟩
  | joining given =>
      obtain rfl : given = paths := attends
      cases flight : share.flight with
      | none =>
          simp only [Lookup.stepOn, flight] at stepped
          cases stepped
          refine ⟨scene.shelf, scene.hydrated, rfl, Or.inr (Or.inr ⟨rfl, rfl, rfl, fun slot => ?_⟩)⟩
          have bare : share.slot = none := slot
          exact scene.unasked flight (by rw [Share.brought, bare]; rfl)
      | some held =>
          cases held with
          | aloft =>
              simp only [Lookup.stepOn, flight] at stepped
              cases stepped
              exact ⟨scene.shelf, scene.hydrated, rfl, Or.inl ⟨flight, flight⟩⟩
          | landed entry =>
              simp only [Lookup.stepOn, flight] at stepped
              cases stepped
              exact ⟨scene.shelf, scene.hydrated, rfl, Or.inl ⟨flight, scene.landed entry flight⟩⟩
  | landing entry =>
      have brought : share.brought = some entry.artifacts := attends
      cases flight : share.flight with
      | none =>
          simp only [Lookup.stepOn, Share.retire, flight] at stepped
          cases stepped
          exact ⟨scene.shelf, scene.hydrated, rfl, Or.inl ⟨flight, entry, rfl, brought⟩⟩
      | some held =>
          cases held with
          | aloft =>
              simp only [Lookup.stepOn, Share.retire, flight] at stepped
              cases stepped
              exact ⟨scene.shelf, scene.hydrated, rfl, Or.inl ⟨flight, entry, rfl, brought⟩⟩
          | landed other =>
              simp only [Lookup.stepOn, Share.retire, flight] at stepped
              cases stepped
              refine ⟨scene.shelf, scene.hydrated, rfl, Or.inr (Or.inl ⟨by simp, rfl, ?_, ?_⟩)⟩
              · exact ⟨entry, rfl, brought⟩
              · rw [brought]
                simp
  | leading given => exact attends.elim
  | hydrating aim hydration => exact attends.elim
  | waiting => cases ready
  | done given => cases ready

/-- A step of the caller that makes the entry: it goes on, or lands the flight with the entry. -/
theorem makes_step (scene : Scene paths pass share lookups) (makes : lookup.Makes paths pass share)
    (resolving : setup.resolving = true)
    (stepped : lookup.stepOn setup ⟨key, some paths, none⟩ answer now stamp share = (next, after)) :
    (after = share ∧ share.brought = none ∧
        next.Makes paths (pass ++ answer.entered lookup.question?) share) ∨
      ∃ entry, next = .landing entry ∧
        after = (share.withSlot (some entry)).withFlight (some (.landed entry)) ∧
        entry.hydrated = true ∧ (pass ++ answer.entered lookup.question?).Brings paths entry.artifacts ∧
        ∀ artifacts, share.brought = some artifacts → entry.artifacts = artifacts := by
  cases lookup with
  | leading given =>
      obtain ⟨rfl, unasked⟩ := makes
      rw [Pass.append_silent (show (Lookup.leading given).question? = none from rfl)]
      cases slot : share.slot with
      | none =>
          simp only [Lookup.stepOn, slot, Hydration.begin, Entry.new, resolving, Bool.false_and,
            Bool.false_eq_true, if_false, if_true] at stepped
          cases stepped
          refine Or.inl ⟨rfl, by rw [Share.brought, slot]; rfl, slot, ?_, ?_, rfl⟩
          all_goals
            rw [unasked slot]
            rfl
      | some entry =>
          have brought : share.brought = some entry.artifacts := by rw [Share.brought, slot]; rfl
          simp only [Lookup.stepOn, slot] at stepped
          cases stepped
          refine Or.inr ⟨entry.touch now, rfl, rfl, scene.hydrated entry slot, scene.complete _ brought, ?_⟩
          intro artifacts same
          exact Option.some.inj (brought.symm.trans same)
  | hydrating aim hydration =>
      cases aim with
      | seed =>
          cases hydration with
          | running entry pending deadline =>
              obtain ⟨slot, parts, gathered, rfl⟩ := makes
              have bare : share.brought = none := by rw [Share.brought, slot]; rfl
              cases pending with
              | nil =>
                  cases stepped
                  rw [List.append_nil] at parts
                  have silent : (Lookup.hydrating .seed (.running entry [] none)).question? = none := rfl
                  rw [Pass.append_silent silent]
                  exact Or.inl ⟨rfl, bare, slot, ⟨parts, gathered⟩, rfl⟩
              | cons path pending =>
                  cases stepped
                  refine Or.inl ⟨rfl, bare, slot, ?_, Pass.artifacts_receive gathered path answer, rfl⟩
                  rw [← parts]
                  simp [Lookup.question?, Hydration.question?, Answer.entered]
          | finished found copy =>
              obtain ⟨slot, brings, hydrated⟩ := makes
              have silent : (Lookup.hydrating .seed (.finished found copy)).question? = none := rfl
              rw [Pass.append_silent silent]
              simp only [Lookup.stepOn, Share.offer, slot] at stepped
              cases stepped
              refine Or.inr ⟨(copy.touch now).stamped stamp, rfl, rfl, hydrated, brings, ?_⟩
              intro artifacts brought
              rw [Share.brought, slot] at brought
              cases brought
      | _ => exact makes.elim
  | _ => exact makes.elim

/-- The lookups after one of them has taken a step, when those that wait have gone on. -/
def moved (lookups : List Lookup) (index : Nat) (next : Lookup) (flight : Option Flight) :
    List Lookup :=
  (lookups.set index next).map (Lookup.receiveOn flight)

theorem getElem?_moved {index asked : Nat} {flight : Option Flight} {held : Lookup}
    (found : (moved lookups index next flight)[asked]? = some held) :
    (asked = index ∧ held = next.receiveOn flight) ∨
      (asked ≠ index ∧ ∃ old, lookups[asked]? = some old ∧ held = old.receiveOn flight) := by
  rw [moved, List.getElem?_map, Option.map_eq_some_iff] at found
  obtain ⟨old, found, rfl⟩ := found
  by_cases same : index = asked
  · subst same
    rw [List.getElem?_set_self'] at found
    obtain ⟨_, _, rfl⟩ := Option.map_eq_some_iff.1 found
    exact Or.inl ⟨rfl, rfl⟩
  · rw [List.getElem?_set_ne same] at found
    exact Or.inr ⟨Ne.symm same, old, found, rfl⟩

theorem getElem?_moved_self {index : Nat} (found : lookups[index]? = some lookup)
    (flight : Option Flight) :
    (moved lookups index next flight)[index]? = some (next.receiveOn flight) := by
  rw [moved, List.getElem?_map, List.getElem?_set_self', found]
  rfl

theorem getElem?_moved_ne {index asked : Nat} {held : Lookup} (differs : asked ≠ index)
    (found : lookups[asked]? = some held) (flight : Option Flight) :
    (moved lookups index next flight)[asked]? = some (held.receiveOn flight) := by
  rw [moved, List.getElem?_map, List.getElem?_set_ne (Ne.symm differs), found]
  rfl

/-- If one lookup comes to attend and all others do, they all attend after its step. -/
theorem attends_moved {index : Nat} (attends : next.Attends paths after)
    (others : ∀ (asked : Nat) (lookup : Lookup), asked ≠ index → lookups[asked]? = some lookup →
      lookup.Attends paths share)
    (keeps : ∀ artifacts, share.brought = some artifacts → after.brought = some artifacts)
    (landed : ∀ entry, after.flight = some (.landed entry) → after.brought = some entry.artifacts)
    (aloft : share.flight = some .aloft → after.flight ≠ none) :
    ∀ lookup ∈ moved lookups index next after.flight, lookup.Attends paths after := by
  intro lookup among
  obtain ⟨asked, found⟩ := List.mem_iff_getElem?.1 among
  rcases getElem?_moved found with ⟨_, rfl⟩ | ⟨differs, old, standing, rfl⟩
  · refine attends.receiveOn (fun artifacts same => same) landed fun flight => ?_
    rw [flight]
    simp
  · exact (others asked old differs standing).receiveOn keeps landed aloft

/-- Everybody but the leader attends after the leader has gone on. -/
theorem attends_moved_ne {leader : Nat}
    (others : ∀ (asked : Nat) (lookup : Lookup), asked ≠ leader → lookups[asked]? = some lookup →
      lookup.Attends paths share)
    (brought : after.brought = share.brought) (flight : after.flight = some .aloft) (asked : Nat)
    (lookup : Lookup) (differs : asked ≠ leader)
    (found : (moved lookups leader next after.flight)[asked]? = some lookup) :
    lookup.Attends paths after := by
  rcases getElem?_moved found with ⟨same, _⟩ | ⟨_, old, standing, rfl⟩
  · exact absurd same differs
  · refine (others asked old differs standing).receiveOn (fun artifacts same => brought.trans same)
      (fun entry landed => ?_) fun _ => by rw [flight]; simp
    rw [flight] at landed
    cases landed

/-- The leader goes on, or lands the flight. -/
theorem step_leader (scene : Scene paths pass share lookups) {leader : Nat}
    (found : lookups[leader]? = some lookup) (aloft : share.flight = some .aloft)
    (makes : lookup.Makes paths pass share)
    (others : ∀ (index : Nat) (lookup : Lookup), index ≠ leader → lookups[index]? = some lookup →
      lookup.Attends paths share)
    (resolving : setup.resolving = true)
    (stepped : lookup.stepOn setup ⟨key, some paths, none⟩ answer now stamp share = (next, after)) :
    Scene paths (pass ++ answer.entered lookup.question?) after
      (moved lookups leader next after.flight) := by
  rcases makes_step scene makes resolving stepped with
    ⟨rfl, bare, goes_on⟩ | ⟨entry, rfl, rfl, hydrated, brings, same⟩
  · constructor
    · exact scene.shelf
    · exact scene.hydrated
    · intro artifacts brought
      rw [bare] at brought
      cases brought
    · exact scene.landed
    · intro grounded
      rw [aloft] at grounded
      cases grounded
    · exact fun grounded => absurd aloft grounded
    · intro _
      refine ⟨leader, next, ?_, goes_on, attends_moved_ne others rfl aloft⟩
      rw [getElem?_moved_self found, goes_on.receiveOn]
  · constructor
    · exact scene.shelf
    · rintro held ⟨⟩
      exact hydrated
    · rintro artifacts ⟨⟩
      exact brings
    · rintro held ⟨⟩
      rfl
    · rintro ⟨⟩
    · intro _
      refine attends_moved rfl others (fun artifacts brought => ?_) ?_ fun _ => by simp [Share.withFlight]
      · rw [← same artifacts brought]
        rfl
      · rintro held ⟨⟩
        rfl
    · rintro ⟨⟩

/-- While one caller makes the entry, the others take their steps. -/
theorem step_follower (scene : Scene paths pass share lookups) {leader index : Nat} {maker : Lookup}
    (there : lookups[leader]? = some maker) (makes : maker.Makes paths pass share)
    (aloft : share.flight = some .aloft)
    (others : ∀ (index : Nat) (lookup : Lookup), index ≠ leader → lookups[index]? = some lookup →
      lookup.Attends paths share)
    (differs : index ≠ leader) (attends : next.Attends paths after)
    (shelf : after.shelf = none) (hydrated : ∀ entry ∈ after.slot, entry.hydrated = true)
    (brought : after.brought = share.brought) (flight : after.flight = share.flight) :
    Scene paths pass after (moved lookups index next after.flight) := by
  have still_aloft := flight.trans aloft
  have not_landed : ∀ entry, after.flight = some (.landed entry) →
      after.brought = some entry.artifacts := by
    intro entry landed
    rw [still_aloft] at landed
    cases landed
  refine ⟨shelf, hydrated, ?_, not_landed, ?_, fun grounded => absurd still_aloft grounded,
    fun _ => ⟨leader, maker, ?_, makes.keep brought, fun place other elsewhere standing => ?_⟩⟩
  · rw [brought]
    exact scene.complete
  · rw [flight, brought]
    exact scene.unasked
  · rw [getElem?_moved_ne (Ne.symm differs) there, makes.receiveOn]
  · have present : after.flight ≠ none := by
      rw [still_aloft]
      simp
    rcases getElem?_moved standing with ⟨_, rfl⟩ | ⟨_, old, stood, rfl⟩
    · exact attends.receiveOn (fun _ same => same) not_landed fun _ => present
    · exact (others place old elsewhere stood).receiveOn (fun _ same => brought.trans same) not_landed
        fun _ => present

/-- While nobody makes the entry, any caller takes its step, and one may begin to make it. -/
theorem step_grounded (scene : Scene paths pass share lookups) {index : Nat}
    (found : lookups[index]? = some lookup) (grounded : share.flight ≠ some .aloft)
    (shelf : after.shelf = none) (hydrated : ∀ entry ∈ after.slot, entry.hydrated = true)
    (brought : after.brought = share.brought)
    (role : (after.flight = share.flight ∧ next.Attends paths after) ∨
      (share.flight ≠ some .aloft ∧ after.flight = none ∧ next.Attends paths after ∧
        share.brought ≠ none) ∨
      (share.flight = none ∧ after.flight = some .aloft ∧ next.Makes paths pass after)) :
    Scene paths pass after (moved lookups index next after.flight) := by
  have others : ∀ (place : Nat) (lookup : Lookup), place ≠ index → lookups[place]? = some lookup →
      lookup.Attends paths share := fun _ _ _ standing =>
    scene.grounded grounded _ (List.mem_of_getElem? standing)
  have keeps : ∀ artifacts, share.brought = some artifacts → after.brought = some artifacts :=
    fun _ same => brought.trans same
  have complete : ∀ artifacts, after.brought = some artifacts → pass.Brings paths artifacts := by
    rw [brought]
    exact scene.complete
  rcases role with ⟨flight, attends⟩ | ⟨_, flight, attends, present⟩ | ⟨_, flight, makes⟩
  · have landed : ∀ entry, after.flight = some (.landed entry) →
        after.brought = some entry.artifacts := by
      rw [flight, brought]
      exact scene.landed
    refine ⟨shelf, hydrated, complete, landed, ?_, fun _ => ?_, ?_⟩
    · rw [flight, brought]
      exact scene.unasked
    · exact attends_moved attends others keeps landed fun aloft => absurd aloft grounded
    · rw [flight]
      exact fun aloft => absurd aloft grounded
  · have landed : ∀ entry, after.flight = some (.landed entry) →
        after.brought = some entry.artifacts := by
      rw [flight]
      rintro entry ⟨⟩
    refine ⟨shelf, hydrated, complete, landed, ?_, fun _ => ?_, ?_⟩
    · rw [brought]
      exact fun _ nothing => absurd nothing present
    · exact attends_moved attends others keeps landed fun aloft => absurd aloft grounded
    · rw [flight]
      rintro ⟨⟩
  · refine ⟨shelf, hydrated, complete, ?_, ?_, fun never => absurd flight never, fun _ => ?_⟩
    · rw [flight]
      rintro entry ⟨⟩
    · rw [flight]
      rintro ⟨⟩
    · refine ⟨index, next, ?_, makes, attends_moved_ne others brought flight⟩
      rw [getElem?_moved_self found, makes.receiveOn]

/-- A step of any caller that can go on keeps the scene. -/
theorem step (scene : Scene paths pass share lookups) {index : Nat}
    (found : lookups[index]? = some lookup) (ready : lookup.isReady = true)
    (resolving : setup.resolving = true)
    (stepped : lookup.stepOn setup ⟨key, some paths, none⟩ answer now stamp share = (next, after)) :
    Scene paths (pass ++ answer.entered lookup.question?) after
      (moved lookups index next after.flight) := by
  by_cases aloft : share.flight = some .aloft
  · obtain ⟨leader, maker, there, makes, others⟩ := scene.aloft aloft
    by_cases here : index = leader
    · subst here
      obtain rfl := Option.some.inj (found.symm.trans there)
      exact scene.step_leader found aloft makes others resolving stepped
    · have attends := others index lookup here found
      obtain ⟨shelf, hydrated, brought, role⟩ := attends_step scene attends ready resolving stepped
      rw [Pass.append_silent attends.question?_eq]
      rcases role with ⟨flight, goes_on⟩ | ⟨grounded, _⟩ | ⟨grounded, _⟩
      · exact scene.step_follower there makes aloft others here goes_on shelf hydrated brought flight
      · exact absurd aloft grounded
      · rw [aloft] at grounded
        cases grounded
  · have attends := scene.grounded aloft lookup (List.mem_of_getElem? found)
    obtain ⟨shelf, hydrated, brought, role⟩ := attends_step scene attends ready resolving stepped
    rw [Pass.append_silent attends.question?_eq]
    exact scene.step_grounded found aloft shelf hydrated brought role

end Scene

end TieredCache
