import TieredCache.Proofs.Lookup.Overlapped

/-!
# What becomes of a content while a lookup goes on

While a lookup is under way another caller puts a new entry under its key. The entry gives way only
where the lookup brings its own, or drops the record, at a moment when tier 1 does not hold the key:
neither step looks at tier 2.
-/

namespace TieredCache

/-- What a caller puts under a key. -/
structure Content where
  paths : List String
  params : Params

/-- The content of an entry. -/
def Entry.content (entry : Entry) : Content := ⟨entry.paths, entry.params⟩

theorem Entry.content_eq_of_stored {left right : Entry} (same : left.stored = right.stored) :
    left.content = right.content := by
  change left.stored.content = right.stored.content
  rw [same]

theorem Entry.durable_of_stored {left right : Entry} (same : left.stored = right.stored)
    (durable : right.params.Durable) : left.params.Durable := by
  have params : left.params = right.params := congrArg Content.params (content_eq_of_stored same)
  rw [params]
  exact durable

namespace Lookup

/-- What a lookup puts in place of all that is held of its key, at a step for which the key has to be
in tier 1 to stay: the entry that it brings, or nothing. -/
def brings? : Lookup → Option (Option Content)
  | .judged verdict => if verdict.purges then some none else none
  | .hydrating .promote (.finished _ copy) => some (some copy.content)
  | .hydrating .seed (.finished _ copy) => some (some copy.content)
  | _ => none

/-- What the next step of a lookup puts in place of all that is held of its key, if it does. -/
def override? (share : Share) (lookup : Lookup) : Option (Option Content) :=
  if share.slot.isSome then none else lookup.brings?

/-- A lookup that both tiers have missed, on its way to the end. -/
def Bereft : Lookup → Prop
  | .joining _ => True
  | .leading _ => True
  | .hydrating .seed _ => True
  | .done _ => True
  | _ => False

/-- A lookup that has brought its entry. -/
def Ending : Lookup → Prop
  | .landing _ => True
  | .done _ => True
  | _ => False

/-- What has become of a content that was put under a key. The last argument is the content that is
held by then. -/
inductive Stage (key : String) (content : Content) : Lookup → Share → Option Content → Prop where
  /-- It is held. -/
  | kept {lookup : Lookup} {share : Share} {entry : Entry} (found : share.held? key = some entry)
      (own : entry.key = key) (same : entry.content = content) (durable : entry.params.Durable) :
      Stage key content lookup share (some content)
  /-- It was dropped. -/
  | lost {lookup : Lookup} {share : Share} (nothing : share.held? key = none)
      (bereft : lookup.Bereft) : Stage key content lookup share none
  /-- The entry that the lookup brought has replaced it, and the lookup ends. -/
  | replaced {lookup : Lookup} {share : Share} {entry : Entry} {brought : Content}
      (slot : share.slot = some entry) (same : entry.content = brought) (ending : lookup.Ending) :
      Stage key content lookup share (some brought)

variable {setup : Store.Setup} {request : Request} {now : Moment} {key : String} {content : Content}
  {lookup : Lookup} {share : Share} {held : Option Content}

theorem Stage.held_eq (stage : Stage key content lookup share held) :
    (share.held? key).map Entry.content = held := by
  cases stage with
  | kept found own same durable => rw [found, Option.map_some, same]
  | lost nothing bereft => rw [nothing, Option.map_none]
  | replaced slot same ending => rw [Share.held?_of_slot slot, Option.map_some, same]

/-! ## Own steps -/

/-- Whatever step a lookup takes, an entry in tier 1 keeps its content. -/
theorem stepOn_resident {resident : Entry} (slot : share.slot = some resident) (answer : Answer)
    (stamp : UInt64) :
    ∃ next, (lookup.stepOn setup request answer now stamp share).2.slot = some next ∧
      next.key = resident.key ∧ next.content = resident.content := by
  cases lookup with
  | begun =>
      simp only [Lookup.stepOn, slot]
      exact ⟨_, rfl, rfl, rfl⟩
  | missed => exact ⟨resident, slot, rfl, rfl⟩
  | judged verdict =>
      simp only [Lookup.stepOn]
      split <;> exact ⟨resident, slot, rfl, rfl⟩
  | joining paths =>
      simp only [Lookup.stepOn]
      split <;> exact ⟨resident, slot, rfl, rfl⟩
  | waiting => exact ⟨resident, slot, rfl, rfl⟩
  | leading paths =>
      simp only [Lookup.stepOn, slot]
      exact ⟨_, rfl, rfl, rfl⟩
  | hydrating aim hydration =>
      cases hydration with
      | running copy pending deadline => cases aim <;> exact ⟨resident, slot, rfl, rfl⟩
      | finished complete copy =>
          cases aim with
          | refresh =>
              simp only [Lookup.stepOn, Share.adopt, slot]
              split
              · exact ⟨_, rfl, rfl, rfl⟩
              · exact ⟨resident, slot, rfl, rfl⟩
          | promote =>
              simp only [Lookup.stepOn, Share.offer, slot]
              exact ⟨_, rfl, rfl, rfl⟩
          | seed =>
              simp only [Lookup.stepOn, Share.offer, slot]
              exact ⟨_, rfl, rfl, rfl⟩
  | landing entry =>
      simp only [Lookup.stepOn, Share.retire]
      split <;> exact ⟨resident, slot, rfl, rfl⟩
  | done given => exact ⟨resident, slot, rfl, rfl⟩

/-- A step that brings nothing leaves what is held in tier 2 alone. -/
theorem stepOn_bare (slot : share.slot = none) (idle : lookup.brings? = none) (answer : Answer)
    (stamp : UInt64) :
    (lookup.stepOn setup request answer now stamp share).2.slot = none ∧
      (lookup.stepOn setup request answer now stamp share).2.shelf = share.shelf := by
  cases lookup with
  | begun =>
      simp only [Lookup.stepOn, slot]
      exact ⟨trivial, trivial⟩
  | missed => exact ⟨slot, rfl⟩
  | judged verdict =>
      cases purges : verdict.purges with
      | true => simp [brings?, purges] at idle
      | false =>
          simp only [Lookup.stepOn, purges]
          exact ⟨slot, rfl⟩
  | joining paths =>
      simp only [Lookup.stepOn]
      split <;> exact ⟨slot, rfl⟩
  | waiting => exact ⟨slot, rfl⟩
  | leading paths =>
      simp only [Lookup.stepOn, slot]
      exact ⟨trivial, trivial⟩
  | hydrating aim hydration =>
      cases hydration with
      | running copy pending deadline => cases aim <;> exact ⟨slot, rfl⟩
      | finished complete copy =>
          cases aim with
          | refresh =>
              simp only [Lookup.stepOn, Share.adopt, slot]
              exact ⟨trivial, trivial⟩
          | promote => cases idle
          | seed => cases idle
  | landing entry =>
      simp only [Lookup.stepOn, Share.retire]
      split <;> exact ⟨slot, rfl⟩
  | done given => exact ⟨slot, rfl⟩

theorem held?_stepOn_bare (slot : share.slot = none) (idle : lookup.brings? = none)
    (answer : Answer) (stamp : UInt64) :
    (lookup.stepOn setup request answer now stamp share).2.held? key = share.held? key := by
  obtain ⟨later_slot, later_shelf⟩ := @stepOn_bare setup request now _ _ slot idle answer stamp
  rw [Share.held?, later_slot, later_shelf, Share.held?, slot]

theorem bereft_afterMiss (setup : Store.Setup) (request : Request) :
    (afterMiss setup request).Bereft := by
  unfold afterMiss
  split
  · split <;> trivial
  · trivial

/-- A step that brings something while tier 1 does not hold the key puts it in place of what is held. -/
theorem stage_brought {brought : Option Content} (slot : share.slot = none)
    (brings : lookup.brings? = some brought) (answer : Answer) (stamp : UInt64) :
    Stage key content (lookup.stepOn setup request answer now stamp share).1
      (lookup.stepOn setup request answer now stamp share).2 brought := by
  cases lookup with
  | judged verdict =>
      cases purges : verdict.purges with
      | false => simp [brings?, purges] at brings
      | true =>
          obtain rfl : none = brought := by simpa [brings?, purges] using brings
          have verdict_empty : verdict.found? = none := by
            cases verdict <;> first | rfl | cases purges
          simp only [Lookup.stepOn, purges, if_true, afterVerdict, verdict_empty]
          refine .lost ?_ (bereft_afterMiss setup request)
          rw [Share.held?, Share.slot_withShelf, slot]
          rfl
  | hydrating aim hydration =>
      cases hydration with
      | running copy pending deadline => cases aim <;> cases brings
      | finished complete copy =>
          cases aim with
          | refresh => cases brings
          | promote =>
              obtain rfl := Option.some.inj brings
              simp only [Lookup.stepOn, Share.offer, slot]
              have delivered : (share.withSlot (some (copy.stamped stamp))).slot =
                  some (copy.stamped stamp) := rfl
              exact .replaced delivered rfl trivial
          | seed =>
              obtain rfl := Option.some.inj brings
              simp only [Lookup.stepOn, Share.offer, slot]
              have delivered : ((share.withSlot (some ((copy.touch now).stamped stamp))).withFlight
                  (some (.landed ((copy.touch now).stamped stamp)))).slot =
                  some ((copy.touch now).stamped stamp) := rfl
              exact .replaced delivered rfl trivial
  | _ => cases brings

/-- An entry that stands in the slot keeps its content. -/
theorem Stage.step_resident {resident : Entry}
    (stage : Stage key content lookup share held) (slot : share.slot = some resident)
    (answer : Answer) (stamp : UInt64) :
    Stage key content (lookup.stepOn setup request answer now stamp share).1
      (lookup.stepOn setup request answer now stamp share).2 held := by
  obtain ⟨next, next_slot, same_key, same_content⟩ :=
    @stepOn_resident setup request now lookup _ _ slot answer stamp
  cases stage with
  | kept found own same durable =>
      rw [Share.held?_of_slot slot] at found
      obtain rfl := Option.some.inj found
      refine .kept (Share.held?_of_slot next_slot key) (same_key.trans own)
        (same_content.trans same) ?_
      have params := congrArg Content.params same_content
      exact (congrArg Params.Durable params).mpr durable
  | lost nothing bereft =>
      rw [Share.held?_of_slot slot] at nothing
      cases nothing
  | replaced there same ending =>
      obtain rfl := Option.some.inj (there.symm.trans slot)
      refine .replaced next_slot (same_content.trans same) ?_
      cases lookup with
      | landing entry => trivial
      | done given => trivial
      | _ => exact ending.elim

/-- A lookup that makes the entry anew goes on with it. -/
theorem bereft_stepOn (bereft : lookup.Bereft) (slot : share.slot = none)
    (brings : lookup.brings? = none) (aligned : lookup.Aligned share.flight) (answer : Answer)
    (stamp : UInt64) : (lookup.stepOn setup request answer now stamp share).1.Bereft := by
  cases lookup with
  | joining paths =>
      have flight : share.flight = none := aligned
      simp only [Lookup.stepOn, flight]
      trivial
  | leading paths =>
      simp only [Lookup.stepOn, slot]
      trivial
  | hydrating aim hydration =>
      cases aim with
      | seed =>
          cases hydration with
          | running copy pending deadline => trivial
          | finished complete copy => cases brings
      | _ => exact bereft.elim
  | done given => trivial
  | _ => exact bereft.elim

/-- What has become of the content after an own step of the lookup. -/
theorem Stage.step (stage : Stage key content lookup share held) (aligned : lookup.Aligned share.flight)
    (answer : Answer) (stamp : UInt64) :
    Stage key content (lookup.stepOn setup request answer now stamp share).1
      (lookup.stepOn setup request answer now stamp share).2 ((lookup.override? share).getD held) := by
  cases slot : share.slot with
  | some resident =>
      have stays : lookup.override? share = none := by
        rw [override?, slot]
        rfl
      rw [stays, Option.getD_none]
      exact stage.step_resident slot answer stamp
  | none =>
      have exposed : lookup.override? share = lookup.brings? := by
        rw [override?, slot]
        rfl
      rw [exposed]
      cases brings : lookup.brings? with
      | some brought => exact stage_brought slot brings answer stamp
      | none =>
          have same_entry := @held?_stepOn_bare setup request now key _ _ slot brings answer stamp
          cases stage with
          | kept found own same durable => exact .kept (same_entry.trans found) own same durable
          | lost nothing bereft =>
              have still := @bereft_stepOn setup request now _ _ bereft slot brings aligned answer stamp
              exact .lost (same_entry.trans nothing) still
          | replaced there same ending =>
              rw [there] at slot
              cases slot

/-! ## Calls of other callers -/

/-- A lookup of an entry that is held leaves its content. -/
theorem Finds.of_held? {resolving : Bool} {answer : Option Entry} {after : Share} {entry : Entry}
    (finds : Finds request resolving now share answer after)
    (found : share.held? request.key = some entry) :
    ∃ given held, answer = some given ∧ given.stored = (entry.touch now).stored ∧
      after.held? request.key = some held ∧ held.stored = (entry.touch now).stored := by
  have some_ne : share.held? request.key ≠ none := by
    rw [found]
    simp
  cases finds with
  | @held other given held other_found given_eq held_eq =>
      obtain rfl := Option.some.inj (other_found.symm.trans found)
      exact ⟨given, held, rfl, given_eq, Share.held?_of_slot rfl _, held_eq⟩
  | made nothing => exact absurd nothing some_ne
  | shared nothing => exact absurd nothing some_ne
  | waits nothing => exact absurd nothing some_ne
  | missed nothing => exact absurd nothing some_ne

/-- A lookup of a key that is not held, and not made anew, finds nothing. -/
theorem Finds.eq_none {resolving : Bool} {answer : Option Entry} {after : Share}
    (finds : Finds request resolving now share answer after)
    (nothing : share.held? request.key = none) (unmade : request.paths = none ∨ resolving = false)
    (not_landed : ∀ entry, share.flight ≠ some (.landed entry)) :
    answer = none ∧ after = share.cleared := by
  cases finds with
  | held found =>
      rw [nothing] at found
      cases found
  | made _ paths_eq resolves =>
      rcases unmade with no_paths | unresolving
      · rw [no_paths] at paths_eq
        cases paths_eq
      · rw [unresolving] at resolves
        cases resolves
  | shared _ landed => exact absurd landed (not_landed _)
  | waits => exact ⟨rfl, rfl⟩
  | missed => exact ⟨rfl, rfl⟩

theorem Stage.of_stored {after : Share} {prior next : Entry} (found : after.held? key = some next)
    (stored : next.stored = prior.stored) (own : prior.key = key) (same : prior.content = content)
    (durable : prior.params.Durable) : Stage key content lookup after (some content) :=
  .kept found ((key_eq_of_stored stored).trans own) ((Entry.content_eq_of_stored stored).trans same)
    (Entry.durable_of_stored stored durable)

/-- What has become of the content after a call of another caller that does not change the key. -/
theorem Stage.call {resolving : Bool} {made : Call} {after : Share}
    (stage : Stage key content lookup share held) (opened : lookup.isOpen = true)
    (aligned : lookup.Aligned share.flight) (undergoes : share.Undergoes resolving key now made after)
    (aside : made.changes key = false) : Stage key content lookup after held := by
  have effect := undergoes.of_aside aside
  cases stage with
  | @kept entry found own same durable =>
      rcases effect with keeps | ⟨request, answer, _, rfl, finds⟩
      · obtain ⟨held, later, stored⟩ := Share.held?_keep keeps found own durable
        exact .of_stored later stored own same durable
      · obtain ⟨_, held, _, _, later, stored⟩ := finds.of_held? found
        exact .of_stored later stored own same durable
  | lost nothing bereft =>
      refine .lost ?_ bereft
      have aloft : share.flight = some .aloft := by
        cases lookup with
        | hydrating aim hydration =>
            cases aim with
            | seed => exact aligned
            | _ => exact bereft.elim
        | judged verdict => exact bereft.elim
        | _ => cases opened
      rcases effect with keeps | ⟨request, answer, _, rfl, finds⟩
      · rw [Share.eq_of_keeps keeps nothing]
        exact nothing
      · cases finds with
        | held found =>
            rw [nothing] at found
            cases found
        | made _ _ _ free =>
            rw [aloft] at free
            cases free
        | shared _ landed =>
            rw [aloft] at landed
            cases landed
        | waits => rfl
        | missed => rfl
  | replaced slot same ending =>
      cases lookup with
      | landing entry => cases opened
      | done given => cases opened
      | _ => exact ending.elim

end Lookup

end TieredCache
