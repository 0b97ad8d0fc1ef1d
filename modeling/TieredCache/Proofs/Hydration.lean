import TieredCache.Proofs.Lookup.Passes

/-!
# Hydrations from end to end

A hydration that asks is a fold over the answers to the paths before its deadline. What a path has
afterwards is the artifact of the last answer that brought one, and an answer that brings nothing leaves
no trace, whether the resolver knew nothing or failed.
-/

namespace TieredCache

variable {σ : Type}

/-! ## Asking a resolver -/

namespace Resolver

/-- Asks for paths in order. What was answered comes with the state that the resolver is left in. -/
def ask (resolve : Resolver σ) : σ → List String → Pass × σ
  | state, [] => ([], state)
  | state, path :: later =>
    let (answer, state) := resolve state path
    let (pass, state) := ask resolve state later
    ((path, answer) :: pass, state)

/-- The resolver that says of every failure that the path is unknown. -/
def lenient (resolve : Resolver σ) : Resolver σ := fun state path =>
  match resolve state path with
  | (.failed, next) => (.unknown, next)
  | answered => answered

theorem ask_cons (resolve : Resolver σ) (state : σ) (path : String) (later : List String) :
    resolve.ask state (path :: later) =
      ((path, (resolve state path).1) :: (resolve.ask (resolve state path).2 later).1,
        (resolve.ask (resolve state path).2 later).2) := rfl

/-- Every path is asked for once, in order. -/
theorem fst_ask (resolve : Resolver σ) (state : σ) (paths : List String) :
    (resolve.ask state paths).1.map Prod.fst = paths := by
  induction paths generalizing state with
  | nil => rfl
  | cons path later induction => rw [ask_cons, List.map_cons, induction]

/-- The log of a resolver is what it was asked and answered. -/
theorem ask_logged (resolve : Resolver σ) (state : σ) (log : Pass) (paths : List String) :
    resolve.logged.ask (state, log) paths =
      ((resolve.ask state paths).1, (resolve.ask state paths).2, log ++ (resolve.ask state paths).1) := by
  induction paths generalizing state log with
  | nil => rw [ask, ask, List.append_nil]
  | cons path later induction =>
      rw [ask_cons, ask_cons]
      simp only [logged]
      rw [induction, List.append_assoc, List.singleton_append]

end Resolver

/-! ## The fold -/

namespace Entry

theorem receiveAll_append (entry : Entry) (before later : Pass) :
    entry.receiveAll (before ++ later) = (entry.receiveAll before).receiveAll later :=
  List.foldl_append

/-- Answers change the artifacts of an entry and nothing else. -/
theorem receive_frame (entry : Entry) (path : String) (answer : Answer) :
    entry.receive path answer =
      { entry with artifacts := (entry.receive path answer).artifacts } := by
  cases answer <;> rfl

theorem receiveAll_frame (entry : Entry) (pass : Pass) :
    entry.receiveAll pass = { entry with artifacts := (entry.receiveAll pass).artifacts } := by
  induction pass generalizing entry with
  | nil => rfl
  | cons asked later induction =>
      rw [receiveAll, List.foldl_cons, ← receiveAll, induction, receive_frame]

theorem get?_receive {entry : Entry} {asked path : String} {answer : Answer}
    (nothing : ∀ artifact, (path, Answer.found artifact) ≠ (asked, answer)) :
    (entry.receive asked answer).artifacts.get? path = entry.artifacts.get? path := by
  cases answer with
  | found artifact =>
      have differs : path ≠ asked := fun same => nothing artifact (by rw [same])
      exact (Keyed.get?_put ..).trans (if_neg differs)
  | unknown => rfl
  | failed => rfl

/-- A path keeps what it has while no answer brings it anything. -/
theorem get?_receiveAll {entry : Entry} {pass : Pass} {path : String}
    (nothing : ∀ artifact, (path, Answer.found artifact) ∉ pass) :
    (entry.receiveAll pass).artifacts.get? path = entry.artifacts.get? path := by
  induction pass generalizing entry with
  | nil => rfl
  | cons asked later induction =>
      have first : ∀ artifact, (path, Answer.found artifact) ≠ asked := fun artifact same =>
        nothing artifact (same ▸ List.mem_cons_self)
      have rest : ∀ artifact, (path, Answer.found artifact) ∉ later := fun artifact among =>
        nothing artifact (List.mem_cons_of_mem asked among)
      rw [receiveAll, List.foldl_cons, ← receiveAll, induction rest, get?_receive first]

/-- The last answer that brings a path anything is the one that counts. -/
theorem get?_receiveAll_last (entry : Entry) {before later : Pass} {path : String} {artifact : Artifact}
    (last : ∀ other, (path, Answer.found other) ∉ later) :
    (entry.receiveAll (before ++ (path, .found artifact) :: later)).artifacts.get? path = some artifact := by
  rw [receiveAll_append, receiveAll, List.foldl_cons, ← receiveAll, get?_receiveAll last]
  exact (Keyed.get?_put ..).trans (if_pos rfl)

theorem artifacts_receiveAll (entry : Entry) (pass : Pass) :
    (entry.receiveAll pass).artifacts ≠ [] ↔
      (∃ path artifact, (path, Answer.found artifact) ∈ pass) ∨ entry.artifacts ≠ [] := by
  induction pass generalizing entry with
  | nil => simp [receiveAll]
  | cons asked later induction =>
      obtain ⟨path, answer⟩ := asked
      rw [receiveAll, List.foldl_cons, ← receiveAll, induction]
      cases answer with
      | found artifact =>
          have some : (entry.receive path (.found artifact)).artifacts ≠ [] :=
            Hydration.artifacts_receive (.inr ⟨artifact, rfl⟩)
          exact iff_of_true (.inr some) (.inl ⟨path, artifact, List.mem_cons_self⟩)
      | unknown => simp [receive]
      | failed => simp [receive]

/-- A failure leaves an entry as an unknown path does. -/
theorem receiveAll_lenient (resolve : Resolver σ) (entry : Entry) (state : σ) (paths : List String) :
    entry.receiveAll (resolve.lenient.ask state paths).1 = entry.receiveAll (resolve.ask state paths).1 ∧
      (resolve.lenient.ask state paths).2 = (resolve.ask state paths).2 := by
  induction paths generalizing entry state with
  | nil => exact ⟨rfl, rfl⟩
  | cons path later induction =>
      have next : (resolve.lenient state path).2 = (resolve state path).2 := by
        rw [Resolver.lenient]
        split <;> simp_all
      have received : entry.receive path (resolve.lenient state path).1 =
          entry.receive path (resolve state path).1 := by
        rw [Resolver.lenient]
        split
        · rename_i failed
          rw [failed]
          rfl
        · rfl
      rw [Resolver.ask_cons, Resolver.ask_cons, next]
      simp only [receiveAll, List.foldl_cons, received]
      exact induction _ _

theorem finish_frame (entry : Entry) (complete : Bool) :
    entry.finish complete = { entry with hydrated := (entry.finish complete).hydrated } := by
  rw [finish]
  split <;> rfl

theorem hydrated_finish (entry : Entry) (complete : Bool) :
    (entry.finish complete).hydrated = true ↔
      complete = true ∨ entry.artifacts ≠ [] ∨ entry.hydrated = true := by
  rw [finish]
  split
  · rename_i closes
    have closes : complete = true ∨ entry.artifacts ≠ [] := by simpa using closes
    exact iff_of_true rfl (or_assoc.1 (.inl closes))
  · rename_i stays
    have stays : complete = false ∧ entry.artifacts = [] := by simpa using stays
    simp [stays.1, stays.2]

end Entry

/-! ## Whole hydrations -/

/-- The paths that come before the deadline. -/
def Deadline.before (deadline : Option Nat) (paths : List String) : List String :=
  match deadline with
  | none => paths
  | some questions => paths.take questions

namespace Deadline

theorem before_nil (deadline : Option Nat) : before deadline [] = [] := by
  cases deadline with
  | none => rfl
  | some questions => exact List.take_nil

theorem before_cons {deadline : Option Nat} (goes : deadline ≠ some 0) (path : String)
    (later : List String) :
    before deadline (path :: later) = path :: before (deadline.map (· - 1)) later := by
  rcases deadline with _ | _ | questions
  · rfl
  · exact absurd rfl goes
  · rfl

end Deadline

namespace Hydration

/-- Hydrates an entry from end to end. -/
def conduct (resolving : Bool) (resolve : Resolver σ) (state : σ) (deadline : Option Nat)
    (entry : Entry) : Hydration × List Notice × σ :=
  advance resolve (begin resolving entry deadline).remaining (begin resolving entry deadline) state

theorem advance_finished (resolve : Resolver σ) (steps : Nat) (found : Bool) (entry : Entry) (state : σ) :
    advance resolve steps (.finished found entry) state = (.finished found entry, [], state) := by
  induction steps with
  | zero => rfl
  | succ steps induction =>
      rw [advance]
      simp only [question?, step, induction, List.append_nil]

/-- One question that is asked before the deadline, and then the rest. -/
theorem advance_asked {deadline : Option Nat} (goes : deadline ≠ some 0) (resolve : Resolver σ)
    (steps : Nat) (entry : Entry) (path : String) (pending : List String) (state : σ) :
    advance resolve (steps + 1) (.running entry (path :: pending) deadline) state =
      let (answer, next) := resolve state path
      let (hydration, notices, last) := advance resolve steps
        (.running (entry.receive path answer) pending (deadline.map (· - 1))) next
      (hydration, answer.notices ++ notices, last) := by
  rcases deadline with _ | _ | questions
  · rfl
  · exact absurd rfl goes
  · rfl

/-- A hydration that asks is a fold over what it is answered before the deadline. -/
theorem advance_running (resolve : Resolver σ) (pending : List String) (deadline : Option Nat)
    (entry : Entry) (state : σ) :
    advance resolve (pending.length + 1) (.running entry pending deadline) state =
      (close (entry.receiveAll (resolve.ask state (Deadline.before deadline pending)).1)
          (Deadline.before deadline pending = pending),
        (resolve.ask state (Deadline.before deadline pending)).1.flatMap (·.2.notices) ++
          (if Deadline.before deadline pending = pending then [] else [.passedDeadline]),
        (resolve.ask state (Deadline.before deadline pending)).2) := by
  induction pending generalizing deadline entry state with
  | nil =>
      rw [Deadline.before_nil, List.length_nil, advance]
      simp [question?, step, advance, Resolver.ask, Entry.receiveAll]
  | cons path pending induction =>
      -- The deadline ends the walk before this path, or the path is asked for and counts towards it.
      by_cases goes : deadline = some 0
      · have none : Deadline.before deadline (path :: pending) = [] := by
          rw [goes]
          rfl
        have short : ¬ Deadline.before deadline (path :: pending) = path :: pending := by
          rw [none]
          exact (List.cons_ne_nil _ _).symm
        rw [decide_eq_false short, if_neg short, none, goes, List.length_cons, advance]
        simp only [question?, step, close, advance_finished]
        rfl
      · rw [List.length_cons, advance_asked goes, Deadline.before_cons goes, Resolver.ask_cons]
        simp only [induction, List.cons.injEq, true_and, List.flatMap_cons, List.append_assoc]
        rfl

/-- What a hydration of an entry has asked and what it leaves, if it asks at all. -/
structure Completes (deadline : Option Nat) (entry : Entry) (pass : Pass) (found : Bool)
    (after : Entry) : Prop where
  /-- The paths are asked for in order, as often as they come, until the deadline has passed. -/
  asked : pass.map Prod.fst = Deadline.before deadline entry.paths
  /-- A path has the artifact of the last answer that brought one. -/
  last : ∀ before path artifact later, pass = before ++ (path, .found artifact) :: later →
    (∀ other, (path, Answer.found other) ∉ later) → after.artifacts.get? path = some artifact
  /-- A path that nothing was brought for keeps what it had. -/
  nothing : ∀ path, (∀ artifact, (path, Answer.found artifact) ∉ pass) →
    after.artifacts.get? path = entry.artifacts.get? path
  hydrated : after.hydrated = true ↔
    pass.map Prod.fst = entry.paths ∨ (∃ path artifact, (path, Answer.found artifact) ∈ pass) ∨
      entry.artifacts ≠ [] ∨ entry.hydrated = true
  found : found = true ↔ after.artifacts ≠ []
  frame : after = { entry with artifacts := after.artifacts, hydrated := after.hydrated }

/-- An entry without artifacts has afterwards what was brought, and nothing else. -/
theorem Completes.of_bare {deadline : Option Nat} {entry after : Entry} {pass : Pass} {found : Bool}
    (completes : Completes deadline entry pass found after) (bare : entry.artifacts = []) :
    (∀ path, (∀ artifact, (path, Answer.found artifact) ∉ pass) → after.artifacts.get? path = none) ∧
      (after.hydrated = true ↔ pass.map Prod.fst = entry.paths ∨
        (∃ path artifact, (path, Answer.found artifact) ∈ pass) ∨ entry.hydrated = true) := by
  constructor
  · intro path nothing
    rw [completes.nothing path nothing, bare]
    rfl
  · simpa only [bare, ne_eq, not_true_eq_false, false_or] using completes.hydrated

/-- The fold over a pass completes a hydration. -/
theorem completes_close {deadline : Option Nat} {entry : Entry} {pass : Pass}
    (asked : pass.map Prod.fst = Deadline.before deadline entry.paths) :
    ∃ found after, close (entry.receiveAll pass) (Deadline.before deadline entry.paths = entry.paths) =
      .finished found after ∧ Completes deadline entry pass found after := by
  have artifacts : ∀ complete, ((entry.receiveAll pass).finish complete).artifacts =
      (entry.receiveAll pass).artifacts := fun complete => by rw [Entry.finish_frame]
  refine ⟨_, _, rfl, asked, ?_, fun path nothing => ?_, ?_, by simp, ?_⟩
  · rintro before path artifact later rfl last
    rw [artifacts]
    exact entry.get?_receiveAll_last last
  · rw [artifacts]
    exact Entry.get?_receiveAll nothing
  · rw [Entry.hydrated_finish, Entry.artifacts_receiveAll, decide_eq_true_iff, ← asked, or_assoc,
      Entry.receiveAll_frame]
  · rw [Entry.finish_frame, Entry.receiveAll_frame]

theorem begin_of_settled {entry : Entry} (settled : entry.hydrated = true ∧ entry.artifacts ≠ [])
    (resolving : Bool) (deadline : Option Nat) : begin resolving entry deadline = .finished true entry := by
  have has : (entry.hydrated && !entry.artifacts.isEmpty) = true := by simpa using settled
  rw [begin, if_pos has]

theorem begin_of_unsettled {entry : Entry} (unsettled : ¬ (entry.hydrated = true ∧ entry.artifacts ≠ []))
    (resolving : Bool) (deadline : Option Nat) : begin resolving entry deadline =
      if resolving then .running entry entry.paths deadline else .finished false entry := by
  have lacks : ¬ (entry.hydrated && !entry.artifacts.isEmpty) = true := by simpa using unsettled
  rw [begin, if_neg lacks]

/-- A hydration that asks, with its notices and the state of the resolver afterwards. -/
theorem conduct_asking {entry : Entry} (unsettled : ¬ (entry.hydrated = true ∧ entry.artifacts ≠ []))
    (resolve : Resolver σ) (state : σ) (deadline : Option Nat) :
    conduct true resolve state deadline entry =
      (close (entry.receiveAll (resolve.ask state (Deadline.before deadline entry.paths)).1)
          (Deadline.before deadline entry.paths = entry.paths),
        (resolve.ask state (Deadline.before deadline entry.paths)).1.flatMap (·.2.notices) ++
          (if Deadline.before deadline entry.paths = entry.paths then [] else [.passedDeadline]),
        (resolve.ask state (Deadline.before deadline entry.paths)).2) := by
  rw [conduct, begin_of_unsettled unsettled, if_pos rfl]
  exact advance_running resolve entry.paths deadline entry state

/-- A hydration asks nothing and changes nothing if the entry has what it needs or there is nobody to ask.
Otherwise it has asked a log of paths and completes as `Completes` says; a resolver that says unknown in place
of every failure leaves the same. Only an entry that has artifacts without being hydrated, which no caller can
make, brings artifacts of its own into the fold. -/
theorem conduct_spec (resolving : Bool) (resolve : Resolver σ) (state : σ) (deadline : Option Nat)
    (entry : Entry) :
    (entry.hydrated = true ∧ entry.artifacts ≠ [] →
      conduct resolving resolve.logged (state, []) deadline entry = (.finished true entry, [], state, [])) ∧
    (¬ (entry.hydrated = true ∧ entry.artifacts ≠ []) → resolving = false →
      conduct resolving resolve.logged (state, []) deadline entry = (.finished false entry, [], state, [])) ∧
    (¬ (entry.hydrated = true ∧ entry.artifacts ≠ []) → resolving = true →
      ∃ pass found after notices,
        conduct resolving resolve.logged (state, []) deadline entry =
          (.finished found after, notices, (resolve.ask state (Deadline.before deadline entry.paths)).2, pass) ∧
        pass = (resolve.ask state (Deadline.before deadline entry.paths)).1 ∧
        Completes deadline entry pass found after ∧
        ((entry.artifacts ≠ [] → entry.hydrated = true) →
          (∀ path, (∀ artifact, (path, Answer.found artifact) ∉ pass) → after.artifacts.get? path = none) ∧
          (after.hydrated = true ↔ pass.map Prod.fst = entry.paths ∨
            (∃ path artifact, (path, Answer.found artifact) ∈ pass) ∨ entry.hydrated = true)) ∧
        (conduct resolving resolve.lenient state deadline entry).1 = .finished found after) := by
  refine ⟨fun settled => ?_, fun unsettled alone => ?_, fun unsettled resolves => ?_⟩
  · rw [conduct, begin_of_settled settled]
    rfl
  · rw [conduct, begin_of_unsettled unsettled, alone]
    rfl
  · have asked := resolve.fst_ask state (Deadline.before deadline entry.paths)
    obtain ⟨found, after, closed, completes⟩ := completes_close asked
    have conducted := conduct_asking unsettled resolve.logged (state, []) deadline
    rw [Resolver.ask_logged, closed, List.nil_append] at conducted
    rw [resolves]
    refine ⟨_, found, after, _, conducted, rfl, completes, fun sound => completes.of_bare ?_, ?_⟩
    · exact Decidable.byContradiction fun some => unsettled ⟨sound some, some⟩
    rw [conduct_asking unsettled, (Entry.receiveAll_lenient ..).1, closed]

/-- A path that comes twice is asked for twice, and keeps the first answer where the second is a failure. The
deadline leaves the third path out. -/
theorem conduct_failing_twice (artifact : Artifact) :
    let resolve : Resolver Nat := fun calls _ => (if calls = 0 then .found artifact else .failed, calls + 1)
    let entry := Entry.new "k" ["p", "p", "q"] default
    ∃ found after notices,
      conduct true resolve.logged (0, []) (some 2) entry =
        (.finished found after, notices, 2, [("p", .found artifact), ("p", .failed)]) ∧
      Completes (some 2) entry [("p", .found artifact), ("p", .failed)] found after ∧
      after.artifacts.get? "p" = some artifact := by
  intro resolve entry
  obtain ⟨pass, found, after, notices, conducted, answered, completes, -⟩ :=
    (conduct_spec true resolve 0 (some 2) entry).2.2 (fun settled => nomatch settled.1) rfl
  subst answered
  exact ⟨found, after, notices, conducted, completes, completes.last [] "p" artifact _ rfl (by simp)⟩

end Hydration

/-! ## Lookups -/

namespace Run

/-- A lookup asks the question of its hydration and goes on with the answer. -/
theorem next_asked {deadline : Option Nat} (goes : deadline ≠ some 0) (resolve : Resolver σ)
    (request : Request) (now : Moment) (aim : Aim) (entry : Entry) (path : String)
    (pending : List String) (store : Store) (state : σ) :
    next resolve request now ⟨.hydrating aim (.running entry (path :: pending) deadline), store, state⟩ =
      ⟨.hydrating aim (.running (entry.receive path (resolve state path).1) pending
        (deadline.map (· - 1))), store.note (resolve state path).1.notices, (resolve state path).2⟩ := by
  rcases deadline with _ | _ | questions
  · rfl
  · exact absurd rfl goes
  · rfl

/-- A lookup that has an entry to hydrate does so from end to end, whatever its aim. -/
theorem advance_hydrating (resolve : Resolver σ) (request : Request) (now : Moment) (aim : Aim)
    (pending : List String) (deadline : Option Nat) (entry : Entry) (store : Store) (state : σ) :
    advance resolve request now ((Deadline.before deadline pending).length + 1)
        ⟨.hydrating aim (.running entry pending deadline), store, state⟩ =
      let (hydration, notices, last) :=
        Hydration.advance resolve (pending.length + 1) (.running entry pending deadline) state
      ⟨.hydrating aim hydration, store.note notices, last⟩ := by
  induction pending generalizing deadline entry store state with
  | nil =>
      rw [Deadline.before_nil]
      rfl
  | cons path pending induction =>
      by_cases goes : deadline = some 0
      · rw [goes, List.length_cons, Hydration.advance]
        simp only [Hydration.question?, Hydration.step, Hydration.close, Hydration.advance_finished]
        rfl
      · rw [Deadline.before_cons goes, List.length_cons, List.length_cons,
          Hydration.advance_asked goes, advance, next_asked goes, induction]
        simp only [Store.note, List.append_assoc]

end Run

end TieredCache
