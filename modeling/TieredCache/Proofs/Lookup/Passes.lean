import TieredCache.Proofs.Crowd.Uses
import TieredCache.Proofs.Lookup.Kinds

/-!
# Passes of a resolver

An undisturbed lookup makes at most one pass of its resolver over the paths of its entry. A pass that comes
to an end, or that resolves something before the deadline, leaves the entry hydrated, in the answer and in
tier 1 alike. Only a pass that is cut short before that leaves it as it was.
-/

namespace TieredCache

/-- A resolver that keeps a log. -/
def Resolver.logged {σ : Type} (resolve : Resolver σ) : Resolver (σ × Pass) := fun state path =>
  let (answer, next) := resolve state.1 path
  (answer, next, state.2 ++ [(path, answer)])

namespace Pass

/-- The deadline passed before every path was asked for, and before anything was resolved. -/
structure CutShort (deadline : Option Nat) (pass : Pass) (entry : Entry) : Prop where
  passed : deadline = some pass.length
  short : pass.map Prod.fst ≠ entry.paths
  nothing : ∀ path artifact, (path, .found artifact) ∉ pass
  unhydrated : entry.hydrated = false

/-- A pass went over the paths of an entry in order. The entry is hydrated unless the pass was cut short. -/
structure Ends (deadline : Option Nat) (pass : Pass) (entry : Entry) : Prop where
  inOrder : pass.map Prod.fst <+: entry.paths
  decided : entry.hydrated = true ∨ CutShort deadline pass entry

theorem Ends.congr {deadline : Option Nat} {pass : Pass} {entry other : Entry}
    (ends : Ends deadline pass entry) (paths : other.paths = entry.paths)
    (hydrated : other.hydrated = entry.hydrated) : Ends deadline pass other := by
  refine ⟨paths ▸ ends.inOrder, ends.decided.imp hydrated.trans fun cut => ?_⟩
  exact ⟨cut.passed, paths ▸ cut.short, cut.nothing, hydrated.trans cut.unhydrated⟩

end Pass

/-! ## Hydrations -/

namespace Hydration

/-- Where a hydration is, after a pass so far. -/
inductive Passing (deadline : Option Nat) (pass : Pass) : Hydration → Prop where
  | running {entry : Entry} {pending : List String} {left : Option Nat}
      (paths : entry.paths = pass.map Prod.fst ++ pending)
      (left_eq : left = deadline.map (· - pass.length))
      (early : ∀ questions, deadline = some questions → pass.length ≤ questions)
      (resolved : ∀ path artifact, (path, .found artifact) ∈ pass → entry.artifacts ≠ []) :
      Passing deadline pass (.running entry pending left)
  | finished {found : Bool} {entry : Entry} (ends : Pass.Ends deadline pass entry) :
      Passing deadline pass (.finished found entry)

variable {deadline : Option Nat} {pass : Pass} {entry : Entry} {hydration : Hydration}

/-- A hydration that is over has ended its pass. -/
theorem Passing.ends {found : Bool} (passing : (Hydration.finished found entry).Passing deadline pass) :
    pass.Ends deadline entry := by
  cases passing with
  | finished ends => exact ends

theorem passing_begin (entry : Entry) (deadline : Option Nat) :
    (begin true entry deadline).Passing deadline [] := by
  rw [begin]
  split
  · rename_i has
    exact .finished ⟨List.nil_prefix, .inl (Bool.and_eq_true_iff.1 has).1⟩
  · rw [if_pos rfl]
    refine .running rfl ?_ (fun _ _ => Nat.zero_le _) fun _ _ never => (nomatch never)
    cases deadline <;> rfl

theorem paths_receive (entry : Entry) (path : String) (answer : Answer) :
    (entry.receive path answer).paths = entry.paths := by
  cases answer <;> rfl

theorem artifacts_receive {entry : Entry} {path : String} {answer : Answer}
    (has : entry.artifacts ≠ [] ∨ ∃ artifact, answer = .found artifact) :
    (entry.receive path answer).artifacts ≠ [] := by
  cases answer with
  | found artifact => exact List.append_ne_nil_of_right_ne_nil _ (List.cons_ne_nil _ _)
  | unknown => exact has.resolve_right (by rintro ⟨artifact, ⟨⟩⟩)
  | failed => exact has.resolve_right (by rintro ⟨artifact, ⟨⟩⟩)

/-- A pass goes on while the deadline has not passed. -/
theorem passing_receive {path : String} {pending : List String} {left : Option Nat}
    (passing : (Hydration.running entry (path :: pending) left).Passing deadline pass)
    (goes : left ≠ some 0) (answer : Answer) :
    (Hydration.running (entry.receive path answer) pending (left.map (· - 1))).Passing deadline
      (pass ++ [(path, answer)]) := by
  cases passing with
  | running paths left_eq early resolved =>
      refine .running ?_ ?_ (fun questions given => ?_) fun asked artifact among => ?_
      · rw [paths_receive, paths]
        simp
      · rw [left_eq, Option.map_map, List.length_append]
        rfl
      · have few := early questions given
        rw [left_eq, given] at goes
        have more : questions - pass.length ≠ 0 := fun none => goes (congrArg some none)
        rw [List.length_append, List.length_singleton]
        omega
      · refine artifacts_receive ?_
        rcases List.mem_append.1 among with before | new
        · exact .inl (resolved asked artifact before)
        · exact .inr ⟨artifact, (Prod.mk.inj (List.mem_singleton.1 new)).2.symm⟩

/-- Where the deadline passes, a hydration is over. It has not gone over all paths. -/
theorem passing_close {path : String} {pending : List String}
    (passing : (Hydration.running entry (path :: pending) (some 0)).Passing deadline pass) :
    (close entry false).Passing deadline pass := by
  cases passing with
  | running paths left_eq early resolved =>
      have inOrder : pass.map Prod.fst <+: entry.paths := ⟨path :: pending, paths.symm⟩
      refine .finished ?_
      rw [Entry.finish]
      split
      · exact ⟨inOrder, .inl rfl⟩
      · rename_i bare
        have none : entry.artifacts = [] := by simpa using bare
        cases flag : entry.hydrated with
        | true => exact ⟨inOrder, .inl flag⟩
        | false =>
            refine ⟨inOrder, .inr ⟨?_, ?_, fun path artifact among => ?_, flag⟩⟩
            · obtain ⟨questions, given, left⟩ := Option.map_eq_some_iff.1 left_eq.symm
              have few := early questions given
              rw [given, show questions = pass.length by omega]
            · rw [paths]
              simp
            · exact resolved path artifact among none

theorem stamp_step (answer : Answer) (hydration : Hydration) :
    (hydration.step answer).1.entry.stamp = hydration.entry.stamp := by
  have finished : ∀ (entry : Entry) (complete : Bool), (entry.finish complete).stamp = entry.stamp := by
    intro entry complete
    rw [Entry.finish]
    split <;> rfl
  unfold step
  split
  · exact finished _ true
  · exact finished _ false
  · cases answer <;> rfl
  · rfl

/-- A hydration goes on in its pass. -/
theorem Passing.step (passing : hydration.Passing deadline pass) (answer : Answer) :
    (hydration.step answer).1.Passing deadline (pass ++ answer.entered hydration.question?) := by
  cases hydration with
  | finished found entry => exact (List.append_nil pass).symm ▸ passing
  | running entry pending left =>
      cases pending with
      | nil =>
          cases passing with
          | running paths left_eq early resolved =>
              rw [List.append_nil] at paths
              refine .finished ⟨?_, .inl rfl⟩
              have silent : (Hydration.running entry [] left).question? = none := rfl
              rw [Pass.append_silent silent, ← paths]
              exact List.prefix_rfl
      | cons path pending =>
          rcases left with _ | _ | left
          · exact passing_receive passing (by simp) answer
          · exact (List.append_nil pass).symm ▸ passing_close passing
          · exact passing_receive passing (by simp) answer

end Hydration

/-! ## Lookups -/

/-- What an undisturbed lookup leaves after a pass: tier 1 keeps the hydration of its answer. -/
structure Pass.Leaves (deadline : Option Nat) (pass : Pass) (slot : Option Entry) (given : Entry) : Prop where
  ends : pass.Ends deadline given
  kept : ∃ held, slot = some held ∧ held.hydrated = given.hydrated ∧ held.artifacts = given.artifacts

namespace Lookup

/-- Where an undisturbed lookup is after a pass so far, with the slot of its key. -/
def Visits (deadline : Option Nat) (slot : Option Entry) (pass : Pass) : Lookup → Prop
  | .begun => pass = []
  | .missed => slot = none ∧ pass = []
  | .judged _ => slot = none ∧ pass = []
  | .joining _ => slot = none ∧ pass = []
  | .waiting => False
  | .leading _ => slot = none ∧ pass = []
  | .hydrating .refresh hydration =>
    (∃ held, slot = some held ∧ held.stamp = hydration.entry.stamp) ∧ hydration.Passing deadline pass
  | .hydrating _ hydration => slot = none ∧ hydration.Passing deadline pass
  | .landing entry => pass.Leaves deadline slot entry
  | .done answer => ∀ entry ∈ answer, pass.Leaves deadline slot entry

variable {setup : Store.Setup} {request : Request} {share : Share} {pass : Pass} {lookup : Lookup}

theorem visits_afterSlot (resolves : setup.resolving = true) (automatic : setup.autoHydrate = true)
    (entry : Entry) : (afterSlot setup request entry).Visits request.deadline (some entry) [] := by
  rw [afterSlot, resolves, automatic, Bool.true_and]
  split
  · exact ⟨⟨entry, rfl, congrArg Entry.stamp (Hydration.entry_begin _ _ _).symm⟩,
      Hydration.passing_begin entry request.deadline⟩
  · rename_i hydrated
    rintro given ⟨⟩
    exact ⟨⟨List.nil_prefix, .inl (by simpa using hydrated)⟩, entry, rfl, rfl, rfl⟩

theorem visits_afterVerdict (resolves : setup.resolving = true) (automatic : setup.autoHydrate = true)
    (now : Moment) (verdict : Archive.Verdict) :
    (afterVerdict setup request now verdict).Visits request.deadline none [] := by
  rw [afterVerdict]
  split
  · rw [afterShelf, automatic, if_pos rfl, resolves]
    exact ⟨rfl, Hydration.passing_begin _ _⟩
  · rw [afterMiss]
    split
    · rw [resolves]
      exact ⟨rfl, rfl⟩
    · intro entry answered
      cases answered

/-- A lookup whose pass has ended leaves in tier 1, whatever its aim, the hydration that it goes on with. -/
theorem visits_stepOn_finished {aim : Aim} {found : Bool} {copy : Entry}
    (visits : (Lookup.hydrating aim (.finished found copy)).Visits request.deadline share.slot pass)
    (setup : Store.Setup) (answer : Answer) (now : Moment) (stamp : UInt64) :
    ((Lookup.hydrating aim (.finished found copy)).stepOn setup request answer now stamp share).1.Visits
      request.deadline ((Lookup.hydrating aim (.finished found copy)).stepOn setup request answer now stamp
        share).2.slot pass := by
  cases aim with
  | refresh =>
      obtain ⟨⟨held, resident, current⟩, passing⟩ := visits
      rintro given ⟨⟩
      refine ⟨passing.ends, held.adopt copy, ?_, rfl, rfl⟩
      have current : held.stamp = copy.stamp := current
      simp only [Lookup.stepOn, Share.adopt, resident, if_pos current]
      rfl
  | promote =>
      obtain ⟨absent, passing⟩ := visits
      simp only [Lookup.stepOn, Share.offer, absent]
      rintro given ⟨⟩
      exact ⟨passing.ends.congr rfl rfl, _, rfl, rfl, rfl⟩
  | seed =>
      obtain ⟨absent, passing⟩ := visits
      simp only [Lookup.stepOn, Share.offer, absent]
      exact ⟨passing.ends.congr rfl rfl, _, rfl, rfl, rfl⟩

/-- A step of an undisturbed lookup, on the share of its key. -/
theorem Visits.stepOn (visits : lookup.Visits request.deadline share.slot pass)
    (aligned : lookup.Aligned share.flight) (resolves : setup.resolving = true)
    (automatic : setup.autoHydrate = true) (answer : Answer) (now : Moment) (stamp : UInt64) :
    (lookup.stepOn setup request answer now stamp share).1.Visits request.deadline
      (lookup.stepOn setup request answer now stamp share).2.slot
      (pass ++ answer.entered lookup.question?) := by
  cases lookup with
  | begun =>
      obtain rfl : pass = [] := visits
      rw [Lookup.stepOn]
      split
      · exact visits_afterSlot resolves automatic _
      · rename_i absent
        exact ⟨absent, rfl⟩
  | missed => exact ⟨visits.1, (List.append_nil pass).trans visits.2⟩
  | judged verdict =>
      obtain ⟨absent, rfl⟩ := visits
      have left : (if verdict.purges then share.withShelf none else share).slot = none := by
        split
        · exact absent
        · exact absent
      simp only [Lookup.stepOn, left]
      exact visits_afterVerdict resolves automatic now verdict
  | joining paths =>
      obtain ⟨absent, rfl⟩ := visits
      have free : share.flight = none := aligned
      simp only [Lookup.stepOn, free]
      exact ⟨absent, rfl⟩
  | waiting => exact visits.elim
  | leading paths =>
      obtain ⟨absent, rfl⟩ := visits
      simp only [Lookup.stepOn, absent, resolves]
      exact ⟨rfl, Hydration.passing_begin _ _⟩
  | hydrating aim hydration =>
      cases hydration with
      | running entry pending left =>
          cases aim with
          | refresh =>
              obtain ⟨⟨held, resident, current⟩, passing⟩ := visits
              refine ⟨⟨held, resident, current.trans ?_⟩, passing.step answer⟩
              exact (Hydration.stamp_step answer _).symm
          | promote => exact ⟨visits.1, visits.2.step answer⟩
          | seed => exact ⟨visits.1, visits.2.step answer⟩
      | finished found copy =>
          have silent : (Lookup.hydrating aim (.finished found copy)).question? = none := rfl
          rw [Pass.append_silent silent]
          exact visits_stepOn_finished visits setup answer now stamp
  | landing entry =>
      rw [Pass.append_silent (show (Lookup.landing entry).question? = none from rfl)]
      have slot : share.retire.slot = share.slot := by
        rw [Share.retire]
        split <;> rfl
      rintro given ⟨⟩
      rw [Lookup.stepOn, slot]
      exact visits
  | done given => exact (List.append_nil pass).symm ▸ visits

/-- A step of an undisturbed lookup, on a store. -/
theorem Visits.step {store : Store}
    (visits : lookup.Visits request.deadline (store.cache.recent.slots.get? request.key) pass)
    (aligned : lookup.Aligned (store.cache.flights.get? request.key))
    (resolves : store.setup.resolving = true) (automatic : store.setup.autoHydrate = true)
    (answer : Answer) (now : Moment) :
    (lookup.step request answer now store).1.Visits request.deadline
      ((lookup.step request answer now store).2.cache.recent.slots.get? request.key)
      (pass ++ answer.entered lookup.question?) := by
  have fronts := fronts_step store request lookup answer now
  have next : (lookup.stepOn store.setup request answer now store.cache.recent.nextStamp
      (store.share request.key)).1.Visits _ _ _ :=
    visits.stepOn aligned resolves automatic answer now store.cache.recent.nextStamp
  rw [fronts.slot]
  by_cases missed : lookup = .missed
  · subst missed
    exact next
  · rw [fronts.phase missed]
    exact next

end Lookup

/-! ## Runs -/

/-- The key that a use is about. -/
def Use.key? : Use → Option String
  | .write key _ => some key
  | .offer key _ _ => some key
  | .fetch key _ => some key
  | .adopt key _ => some key
  | .erase key => some key
  | .contains key => some key
  | .clear => none

theorem Lookup.key?_of_use? {request : Request} {now : Moment} {lookup : Lookup} {use : Use}
    (asks : lookup.use? request now = some use) : use.key? = some request.key := by
  rw [Lookup.use?.eq_def] at asks
  split at asks
  case h_6 => cases asks
  all_goals
    obtain rfl := Option.some.inj asks
    rfl

/-- Between two calls no flight is under way, and no two slots have one key. -/
structure Store.Idle (setup : Store.Setup) (store : Store) : Prop where
  distinct : store.cache.recent.slots.keys.Nodup
  rest : ∀ key, store.cache.flights.get? key = none
  setup : store.setup = setup

namespace Run

variable {σ : Type} {request : Request} {now : Moment} {start : Store}

/-- A lookup that nobody disturbs, some way after its start: it has used tier 1 for its key only, and there
is no other flight than its own. -/
structure Undisturbed (request : Request) (start : Store) (run : Run σ) : Prop where
  uses : ∃ uses, run.store.cache.recent = start.cache.recent.through uses ∧
    ∀ use ∈ uses, use.key? = some request.key
  aligned : run.lookup.Aligned (run.store.cache.flights.get? request.key)
  rest : ∀ key, key ≠ request.key → run.store.cache.flights.get? key = none
  setup : run.store.setup = start.setup

theorem Undisturbed.next {run : Run σ} (undisturbed : run.Undisturbed request start)
    (resolve : Resolver σ) : (run.next resolve request now).Undisturbed request start := by
  obtain ⟨answer, next⟩ : ∃ answer, ((run.next resolve request now).lookup,
      (run.next resolve request now).store) = run.lookup.step request answer now run.store := ⟨_, rfl⟩
  have aligned := Lookup.aligned_step run.store request answer now undisturbed.aligned
  have recent := Lookup.recent_step request answer now run.store run.lookup
  have fronts := Lookup.fronts_step run.store request run.lookup answer now
  have flights := fun key => @Lookup.flight_step_ne run.store request run.lookup answer now key
  rw [← next] at aligned recent fronts flights
  obtain ⟨uses, before, own⟩ := undisturbed.uses
  refine ⟨⟨uses ++ (run.lookup.use? request now).toList, ?_, fun use among => ?_⟩, aligned,
    fun key differs => (flights key differs).trans (undisturbed.rest key differs),
    fronts.setup.trans undisturbed.setup⟩
  · rw [Recent.through_append, ← before]
    exact recent
  · rcases List.mem_append.1 among with earlier | asked
    · exact own use earlier
    · exact Lookup.key?_of_use? (Option.mem_toList.1 asked)

theorem Undisturbed.advance {run : Run σ} (undisturbed : run.Undisturbed request start)
    (resolve : Resolver σ) (steps : Nat) :
    (run.advance resolve request now steps).Undisturbed request start := by
  induction steps generalizing run with
  | zero => exact undisturbed
  | succ steps induction => exact induction (undisturbed.next resolve)

variable {setup : Store.Setup}

theorem undisturbed_begun (idle : start.Idle setup) (request : Request) (state : σ) :
    (⟨.begun, start, state⟩ : Run σ).Undisturbed request start :=
  ⟨⟨[], rfl, List.forall_mem_nil _⟩, idle.rest request.key, fun key _ => idle.rest key, rfl⟩

/-- A lookup that nobody disturbs comes to its end, and leaves no flight. -/
theorem whole_undisturbed (idle : start.Idle setup) (resolve : Resolver σ) (request : Request)
    (now : Moment) (state : σ) :
    (whole resolve request now start state).Undisturbed request start ∧
      (∃ answer, (whole resolve request now start state).lookup = .done answer) ∧
      (whole resolve request now start state).store.Idle setup := by
  have ended : (whole resolve request now start state).Undisturbed request start :=
    ((undisturbed_begun idle request state).advance resolve searchSteps).advance resolve _
  obtain ⟨found, exhausted⟩ := ended_whole resolve request now start state
  generalize whole resolve request now start state = run at ended found exhausted
  obtain ⟨lookup, store, state⟩ := run
  have aligned := ended.aligned
  obtain ⟨uses, recent, _⟩ := ended.uses
  have distinct : store.cache.recent.slots.keys.Nodup := by
    rw [show store.cache.recent = _ from recent]
    exact Recent.distinct_through idle.distinct uses
  cases lookup with
  | done answer =>
      refine ⟨ended, ⟨answer, rfl⟩, distinct, fun key => ?_, ended.setup.trans idle.setup⟩
      by_cases same : key = request.key
      · rw [same]
        exact aligned
      · exact ended.rest key same
  | waiting => exact aligned.elim
  | hydrating aim hydration => simp [Lookup.remaining] at exhausted
  | landing entry => simp [Lookup.remaining] at exhausted
  | _ => simp [Lookup.search] at found

/-- What the resolver of a lookup has been asked since it began, if nobody disturbs it. -/
def Visits (request : Request) (log : Pass) (run : Run (σ × Pass)) : Prop :=
  ∃ pass, run.state.2 = log ++ pass ∧
    run.lookup.Visits request.deadline (run.store.cache.recent.slots.get? request.key) pass

theorem Visits.next {run : Run (σ × Pass)} {log : Pass} (visits : run.Visits request log)
    (undisturbed : run.Undisturbed request start) (resolves : start.setup.resolving = true)
    (automatic : start.setup.autoHydrate = true) (resolve : Resolver σ) :
    (run.next resolve.logged request now).Visits request log := by
  obtain ⟨answer, next, entered⟩ : ∃ answer, ((run.next resolve.logged request now).lookup,
      (run.next resolve.logged request now).store) = run.lookup.step request answer now run.store ∧
      (run.next resolve.logged request now).state.2 =
        run.state.2 ++ answer.entered run.lookup.question? := by
    cases asks : run.lookup.question? with
    | none =>
        refine ⟨.unknown, by simp only [Run.next, asks], ?_⟩
        simp only [Run.next, asks, Answer.entered, Option.toList_none, List.map_nil, List.append_nil]
    | some path =>
        refine ⟨(resolve run.state.1 path).1, by simp only [Run.next, asks, Resolver.logged], ?_⟩
        simp only [Run.next, asks, Resolver.logged, Answer.entered, Option.toList_some, List.map_cons,
          List.map_nil]
  obtain ⟨pass, logged, visits⟩ := visits
  have stepped := visits.step undisturbed.aligned (undisturbed.setup ▸ resolves)
    (undisturbed.setup ▸ automatic) answer now
  rw [← next] at stepped
  exact ⟨_, by rw [entered, logged, List.append_assoc], stepped⟩

theorem Visits.advance {run : Run (σ × Pass)} {log : Pass} (visits : run.Visits request log)
    (undisturbed : run.Undisturbed request start) (resolves : start.setup.resolving = true)
    (automatic : start.setup.autoHydrate = true) (resolve : Resolver σ) (steps : Nat) :
    (run.advance resolve.logged request now steps).Visits request log := by
  induction steps generalizing run with
  | zero => exact visits
  | succ steps induction =>
      exact induction (visits.next undisturbed resolves automatic resolve)
        (undisturbed.next resolve.logged)

end Run

/-- What a lookup that finds an entry has asked its resolver leaves its hydration in tier 1. -/
theorem Store.Idle.get_leaves {σ : Type} {setup : Store.Setup} {store after : Store}
    (idle : store.Idle setup) (resolves : setup.resolving = true) (automatic : setup.autoHydrate = true)
    {resolve : Resolver σ} {state later : σ × Pass} {request : Request} {now : Moment} {given : Entry}
    (gets : store.get resolve.logged state request now = .ok (some given, after, later)) :
    ∃ pass, later.2 = state.2 ++ pass ∧
      pass.Leaves request.deadline (after.cache.recent.slots.get? request.key) given := by
  cases empty : request.key.isEmpty with
  | true =>
      rw [Store.get_refused store _ state now empty] at gets
      cases gets
  | false =>
      rw [Store.get_eq store _ state now empty] at gets
      obtain ⟨_, ⟨answer, done⟩, _⟩ := Run.whole_undisturbed idle resolve.logged request now state
      have begun : (⟨.begun, store, state⟩ : Run (σ × Pass)).Visits request state.2 :=
        ⟨[], (List.append_nil _).symm, rfl⟩
      have ended : (Run.whole resolve.logged request now store state).Visits request state.2 :=
        (begun.advance (Run.undisturbed_begun idle request state) (idle.setup ▸ resolves)
          (idle.setup ▸ automatic) resolve Run.searchSteps).advance
          ((Run.undisturbed_begun idle request state).advance resolve.logged Run.searchSteps)
          (idle.setup ▸ resolves) (idle.setup ▸ automatic) resolve _
      generalize Run.whole resolve.logged request now store state = run at gets done ended
      obtain ⟨pass, logged, visits⟩ := ended
      rw [done] at gets visits
      obtain ⟨answered, ⟨⟩⟩ := Prod.mk.inj (Except.ok.inj gets)
      exact ⟨pass, logged, visits given answered⟩

end TieredCache
