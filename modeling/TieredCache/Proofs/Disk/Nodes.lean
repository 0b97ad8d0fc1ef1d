import TieredCache.Disk.Effect

/-!
# What stands at a place

A disk is known by what stands at each of its places: effects, routes and listings are described by
`Disk.node?` alone. Replacing a file changes one place, although three effects take part.
-/

namespace TieredCache.Disk

/-! ## Effects -/

theorem node?_of_ne_nil (disk : Disk) {path : Path} (below : path ≠ []) :
    disk.node? path = disk.nodes.lookup path := by
  cases path with
  | nil => exact absurd rfl below
  | cons name path => rfl

theorem lookup_map_set (nodes : List (Path × Node)) (path asked : Path) (node : Node) :
    (nodes.map fun held => if held.1 = path then (path, node) else held).lookup asked =
      if asked = path then (nodes.lookup path).map fun _ => node else nodes.lookup asked := by
  induction nodes with
  | nil => simp
  | cons held nodes induction =>
      obtain ⟨place, old⟩ := held
      rw [List.map_cons, List.lookup_cons, List.lookup_cons, List.lookup_cons]
      by_cases here : place = path <;> by_cases same : asked = path
      · simp [here, same]
      · simp only [here, if_true, same, if_false, beq_false_of_ne same]
        rw [induction, if_neg same]
      · subst same
        have differs : ¬ asked = place := fun equal => here equal.symm
        simp only [here, if_false, if_true, beq_false_of_ne differs]
        rw [induction, if_pos rfl]
      · simp only [here, if_false, same]
        rw [induction, if_neg same]

theorem node?_set (disk : Disk) {path : Path} (below : path ≠ []) (node : Node) (asked : Path) :
    (disk.set path node).node? asked = if asked = path then some node else disk.node? asked := by
  cases asked with
  | nil => rw [if_neg (Ne.symm below)]; rfl
  | cons name rest =>
      have asked_below : name :: rest ≠ [] := List.cons_ne_nil _ _
      rw [node?_of_ne_nil _ asked_below, node?_of_ne_nil _ asked_below, set]
      split
      · rename_i found
        obtain ⟨old, found⟩ := Option.isSome_iff_exists.1 found
        rw [lookup_map_set, found]
        rfl
      · rename_i absent
        have nothing : disk.nodes.lookup path = none := by
          cases found : disk.nodes.lookup path with
          | none => rfl
          | some old => simp [found] at absent
        rw [List.lookup_append]
        by_cases same : name :: rest = path
        · rw [same, nothing]
          simp
        · rw [if_neg same, List.lookup_cons, beq_false_of_ne same]
          simp

theorem node?_erase (disk : Disk) {path : Path} (below : path ≠ []) (asked : Path) :
    (disk.erase path).node? asked = if asked = path then none else disk.node? asked := by
  cases asked with
  | nil => rw [if_neg (Ne.symm below)]; rfl
  | cons name rest =>
      have asked_below : name :: rest ≠ [] := List.cons_ne_nil _ _
      rw [node?_of_ne_nil _ asked_below, node?_of_ne_nil _ asked_below, erase]
      generalize name :: rest = asked
      induction disk.nodes with
      | nil => simp
      | cons held nodes induction =>
          by_cases gone : held.1 = path
          · rw [List.filter_cons_of_neg (by simp [gone]), induction, List.lookup_cons]
            by_cases same : asked = path
            · simp [same]
            · simp [same, gone, beq_false_of_ne same]
          · rw [List.filter_cons_of_pos (by simp [gone]), List.lookup_cons, List.lookup_cons,
              induction]
            by_cases same : asked = path
            · have differs : ¬ path = held.1 := fun equal => gone equal.symm
              simp [same, beq_false_of_ne differs]
            · simp [same]

/-! ## Listings -/

theorem nameIn?_eq_some {folder path : Path} {name : String} :
    nameIn? folder path = some name ↔ path = folder ++ [name] := by
  rw [nameIn?]
  constructor
  · intro found
    split at found
    · rename_i front
      obtain ⟨before, rfl⟩ := List.getLast?_eq_some_iff.1 found
      rw [← front, List.dropLast_concat]
    · cases found
  · rintro rfl
    simp

theorem mem_names {disk : Disk} {folder : Path} {name : String} :
    name ∈ disk.names folder ↔ ∃ node, disk.node? (folder ++ [name]) = some node := by
  have below : folder ++ [name] ≠ [] := by simp
  rw [node?_of_ne_nil disk below, names]
  constructor
  · intro found
    obtain ⟨held, listed, same⟩ := List.mem_filterMap.1 found
    rw [nameIn?_eq_some] at same
    cases lookup : disk.nodes.lookup (folder ++ [name]) with
    | some node => exact ⟨node, rfl⟩
    | none =>
        rw [List.lookup_eq_none_iff] at lookup
        have differs := lookup held listed
        simp [same] at differs
  · rintro ⟨node, found⟩
    obtain ⟨before, after, split, _⟩ := List.lookup_eq_some_iff.1 found
    refine List.mem_filterMap.2 ⟨(folder ++ [name], node), ?_, nameIn?_eq_some.2 rfl⟩
    rw [split]
    simp

/-! ## Routes -/

/-- A name that is followed as it stands. -/
def Plain (name : String) : Prop :=
  name ≠ "" ∧ name ≠ "." ∧ name ≠ ".." ∧ name.utf8ByteSize ≤ Route.maxNameSize

instance (name : String) : Decidable (Plain name) := inferInstanceAs (Decidable (_ ∧ _))

/-- A route leads from one folder to another. -/
inductive Leads (disk : Disk) : Path → Route → Path → Prop where
  | here (place : Path) : Leads disk place [] place
  | stay {place folder : Path} {component : String} {route : Route}
      (empty : component = "" ∨ component = ".") (further : Leads disk place route folder) :
      Leads disk place (component :: route) folder
  | up {place folder : Path} {component : String} {route : Route}
      (moves : ¬ (component = "" ∨ component = ".")) (dots : component = "..")
      (further : Leads disk place.dropLast route folder) :
      Leads disk place (component :: route) folder
  | down {place folder : Path} {component : String} {route : Route} (plain : Plain component)
      (inside : disk.node? (place ++ [component]) = some .folder)
      (further : Leads disk (place ++ [component]) route folder) :
      Leads disk place (component :: route) folder

theorem follow_plain {disk : Disk} {place : Path} {name : String} (plain : Plain name)
    (route : Route) :
    disk.follow place (name :: route) =
      match disk.node? (place ++ [name]) with
      | some .folder => disk.follow (place ++ [name]) route
      | some (.file bytes) =>
        if route.isEmpty then .ok (.file (place ++ [name]) bytes) else .error .obstacle
      | none => if route.isEmpty then .ok (.vacant (place ++ [name])) else .error .missing := by
  obtain ⟨nonempty, no_dot, no_dots, short⟩ := plain
  have moves : ¬ (name = "" ∨ name = ".") := not_or.2 ⟨nonempty, no_dot⟩
  rw [follow]
  exact (if_neg moves).trans ((if_neg no_dots).trans (if_neg (by omega)))

theorem follow_eq_folder {disk : Disk} {place folder : Path} {route : Route} :
    disk.follow place route = .ok (.folder folder) ↔ Leads disk place route folder := by
  constructor
  · intro found
    induction route generalizing place with
    | nil =>
        simp only [follow, Except.ok.injEq, Spot.folder.injEq] at found
        rw [found]
        exact Leads.here folder
    | cons component route induction =>
        by_cases empty : component = "" ∨ component = "."
        · rw [follow, if_pos empty] at found
          exact Leads.stay empty (induction found)
        · by_cases dots : component = ".."
          · rw [follow, if_neg empty, if_pos dots] at found
            exact Leads.up empty dots (induction found)
          · by_cases long : Route.maxNameSize < component.utf8ByteSize
            · rw [follow, if_neg empty, if_neg dots, if_pos long] at found
              cases found
            · obtain ⟨nonempty, no_dot⟩ := not_or.1 empty
              have plain : Plain component := ⟨nonempty, no_dot, dots, by omega⟩
              rw [follow_plain plain] at found
              split at found
              · rename_i inside
                exact Leads.down plain inside (induction found)
              · split at found <;> cases found
              · split at found <;> cases found
  · intro leads
    induction leads with
    | here place => rfl
    | stay empty further induction => rw [follow, if_pos empty, induction]
    | up moves dots further induction => rw [follow, if_neg moves, if_pos dots, induction]
    | down plain inside further induction =>
        rw [follow_plain plain, inside]
        exact induction

/-- A route to a folder can be followed in parts. -/
theorem Leads.follow_append {disk : Disk} {place folder : Path} {left : Route}
    (leads : Leads disk place left folder) (right : Route) :
    disk.follow place (left ++ right) = disk.follow folder right := by
  induction leads with
  | here place => rfl
  | stay empty further induction => rw [List.cons_append, follow, if_pos empty, induction]
  | up moves dots further induction =>
      rw [List.cons_append, follow, if_neg moves, if_pos dots, induction]
  | down plain inside further induction =>
      rw [List.cons_append, follow_plain plain, inside]
      exact induction

/-- Every folder of a disk is one of another disk too. -/
def KeepsFolders (before after : Disk) : Prop :=
  ∀ path, before.node? path = some .folder → after.node? path = some .folder

/-- A route to a folder stays one as long as no folder goes away. -/
theorem Leads.keep {before after : Disk} (keeps : KeepsFolders before after) {place folder : Path}
    {route : Route} (leads : Leads before place route folder) : Leads after place route folder := by
  induction leads with
  | here place => exact Leads.here place
  | stay empty further induction => exact Leads.stay empty induction
  | up moves dots further induction => exact Leads.up moves dots induction
  | down plain inside further induction => exact Leads.down plain (keeps _ inside) induction

/-! ## Changing one place -/

/-- A disk is like another one except at one place. -/
def Updates (before : Disk) (path : Path) (node : Option Node) (after : Disk) : Prop :=
  ∀ asked, after.node? asked = if asked = path then node else before.node? asked

theorem Updates.here {before after : Disk} {path : Path} {node : Option Node}
    (updates : Updates before path node after) : after.node? path = node := by
  rw [updates, if_pos rfl]

theorem Updates.elsewhere {before after : Disk} {path asked : Path} {node : Option Node}
    (updates : Updates before path node after) (differs : asked ≠ path) :
    after.node? asked = before.node? asked := by
  rw [updates, if_neg differs]

theorem Updates.keepsFolders {before after : Disk} {path : Path} {node : Option Node}
    (updates : Updates before path node after) (no_folder : before.node? path ≠ some .folder) :
    KeepsFolders before after := by
  intro asked folder
  have differs : asked ≠ path := by
    rintro rfl
    exact no_folder folder
  rw [updates.elsewhere differs, folder]

/-- Of two changes of one place the second counts. -/
theorem Updates.again {before middle after : Disk} {path : Path} {old node : Option Node}
    (first : Updates before path old middle) (second : Updates middle path node after) :
    Updates before path node after := by
  intro asked
  by_cases here : asked = path
  · rw [if_pos here, here, second.here]
  · rw [if_neg here, second.elsewhere here, first.elsewhere here]

theorem updates_deleteFile (disk : Disk) {path : Path} (below : path ≠ []) :
    Updates disk path none (disk.apply (.deleteFile path)) := node?_erase disk below

theorem length_le_of_mem {names : List String} {name : String} (found : name ∈ names) :
    name.length ≤ (names.map String.length).foldl max 0 := by
  have grows : ∀ (lengths : List Nat) (start : Nat), start ≤ lengths.foldl max start := by
    intro lengths
    induction lengths with
    | nil => exact fun start => Nat.le_refl start
    | cons length lengths induction =>
        exact fun start => Nat.le_trans (Nat.le_max_left start length) (induction _)
  have reaches : ∀ (lengths : List Nat) (start length : Nat), length ∈ lengths →
      length ≤ lengths.foldl max start := by
    intro lengths
    induction lengths with
    | nil => intro start length found; cases found
    | cons first lengths induction =>
        intro start length found
        rcases List.mem_cons.1 found with rfl | later
        · exact Nat.le_trans (Nat.le_max_right start length) (grows lengths _)
        · exact induction _ length later
  exact reaches _ _ _ (List.mem_map_of_mem found)

theorem isTemporary_temporaryName (names : List String) :
    isTemporary (temporaryName names) = true := by
  rw [isTemporary, List.isSuffixOf_iff_suffix, temporaryName, String.toList_ofList]
  exact List.suffix_append _ _

/-- The name of a file that is being written is new in its folder. -/
theorem temporaryName_not_mem (names : List String) : temporaryName names ∉ names := by
  intro found
  have longest := length_le_of_mem (List.mem_filter.2 ⟨found, isTemporary_temporaryName names⟩)
  simp only [temporaryName, String.length_ofList, List.length_append, List.length_replicate,
    temporaryEnd, List.length_cons, List.length_nil] at longest
  omega

/-- A file under a temporary name replaces another one in one step. -/
theorem updates_replace (disk : Disk) {temporary target : Path} (bytes : Bytes)
    (below : temporary ≠ []) (target_below : target ≠ []) (new : disk.node? temporary = none) :
    Updates disk target (some (.file bytes)) (disk.perform
      [.createFile temporary, .fillFile temporary bytes, .moveFile temporary target]) := by
  intro asked
  simp only [perform_cons, perform_nil, apply]
  rw [node?_set _ below, if_pos rfl]
  simp only
  rw [node?_set _ target_below, node?_erase _ below, node?_set _ below, node?_set _ below]
  by_cases here : asked = target
  · simp [here]
  · by_cases old : asked = temporary
    · rw [if_neg here, if_neg here, if_pos old, old, new]
    · simp [here, old]

end TieredCache.Disk
