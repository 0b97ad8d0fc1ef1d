import Mathlib.Data.List.Basic
import TieredCache.Proofs.Disk.Reach

/-!
# Disks that agree

Where a route leads is told by what stands at the places that it passes, in whatever order a disk lists
them, and every order of the names in a folder is that of some disk. The listing of a folder is left alone,
its order included, by a stroke in another folder.
-/

namespace TieredCache.Disk

variable {left right disk : Disk} {place folder path : Path} {route : Route} {name : String}

/-! ## The same at every place -/

/-- The same stands at every place of two disks. They may list it in different orders. -/
def Agree (left right : Disk) : Prop := ∀ path, left.node? path = right.node? path

theorem Agree.refl (disk : Disk) : Agree disk disk := fun _ => rfl

theorem Agree.follow (agree : Agree left right) (place : Path) (route : Route) :
    left.follow place route = right.follow place route := by
  induction route generalizing place with
  | nil => rfl
  | cons first route induction => simp only [Disk.follow, agree _, induction]

theorem Agree.read (agree : Agree left right) (route : Route) : left.read route = right.read route := by
  simp only [Disk.read, locate, agree.follow]

theorem Agree.folderAt (agree : Agree left right) (route : Route) :
    left.folderAt route = right.folderAt route := by
  simp only [Disk.folderAt, locate, agree.follow]

theorem Agree.leads (agree : Agree left right) :
    Leads left place route folder ↔ Leads right place route folder := by
  rw [← follow_eq_folder, ← follow_eq_folder, agree.follow]

theorem Leads.unique {other : Path} (leads : Leads disk place route folder)
    (leads_other : Leads disk place route other) : folder = other := by
  have same := (follow_eq_folder.2 leads).symm.trans (follow_eq_folder.2 leads_other)
  simpa using same

/-- A route to a folder is one to some folder on the way, and one from there. -/
theorem Leads.split {rest : Route} (leads : Leads disk place (route ++ rest) folder) :
    ∃ middle, Leads disk place route middle ∧ Leads disk middle rest folder := by
  induction route generalizing place with
  | nil => exact ⟨place, .here place, leads⟩
  | cons first route induction =>
      rw [List.cons_append] at leads
      cases leads with
      | stay empty further =>
          obtain ⟨middle, before, after⟩ := induction further
          exact ⟨middle, .stay empty before, after⟩
      | up moves dots further =>
          obtain ⟨middle, before, after⟩ := induction further
          exact ⟨middle, .up moves dots before, after⟩
      | down plain inside further =>
          obtain ⟨middle, before, after⟩ := induction further
          exact ⟨middle, .down plain inside before, after⟩

/-! ## The same in one folder -/

/-- Where a name leads from a folder is told by what stands there under the name. -/
theorem follow_name_congr (same : left.node? (place ++ [name]) = right.node? (place ++ [name])) :
    left.follow place [name] = right.follow place [name] := by
  cases component name with
  | stays empty => simp only [follow, if_pos empty]
  | rises moves dots => simp only [follow, if_neg moves, if_pos dots]
  | obstructs refused => rw [refused, refused]
  | descends plain =>
      rw [follow_plain plain, follow_plain plain, same]
      split <;> rfl

/-- Where two names lead from a folder is told by what stands there under the first, and there under the
second. -/
theorem follow_names_congr {first : String} (plain : Plain first)
    (same_first : left.node? (place ++ [first]) = right.node? (place ++ [first]))
    (same : left.node? (place ++ [first] ++ [name]) = right.node? (place ++ [first] ++ [name])) :
    left.follow place [first, name] = right.follow place [first, name] := by
  rw [follow_plain plain, follow_plain plain, same_first]
  split
  · exact follow_name_congr same
  · rfl
  · rfl

/-- A name in a folder is read alike from disks on which the same stands there. -/
theorem read_name_congr (leads_left : Leads left [] route folder) (leads_right : Leads right [] route folder)
    (same : left.node? (folder ++ [name]) = right.node? (folder ++ [name])) :
    left.read (route ++ [name]) = right.read (route ++ [name]) := by
  rw [Disk.read, Disk.read, locate, locate, leads_left.follow_append, leads_right.follow_append,
    follow_name_congr same]

/-- A file that can be read is listed in its folder. -/
theorem mem_list_of_read {bytes : Bytes} (read : disk.read (route ++ [name]) = .ok bytes) :
    ∃ names, disk.list route = .ok names ∧ name ∈ names := by
  obtain ⟨path, located⟩ := read_eq_ok_iff.1 read
  have standing := stands_locate located
  obtain ⟨_, folder, there, rfl⟩ := fileAt_child (fileAt_eq_ok_iff.2 ⟨bytes, located⟩)
  refine ⟨disk.names folder, ?_, mem_names.2 ⟨_, standing⟩⟩
  rw [list, there]
  rfl

/-! ## Listings -/

theorem nameIn?_eq_none (apart : ∀ name, path ≠ folder ++ [name]) :
    nameIn? folder path = none := by
  cases found : nameIn? folder path with
  | none => rfl
  | some name => exact absurd (nameIn?_eq_some.1 found) (apart name)

theorem names_set (apart : ∀ name, path ≠ folder ++ [name]) (disk : Disk) (node : Node) :
    (disk.set path node).names folder = disk.names folder := by
  rw [set]
  split
  · rw [names, names, List.filterMap_map]
    refine List.filterMap_congr fun held _ => ?_
    simp only [Function.comp]
    split
    · rename_i here
      rw [here]
    · rfl
  · rw [names, List.filterMap_append, names]
    simp [nameIn?_eq_none apart]

theorem names_erase (apart : ∀ name, path ≠ folder ++ [name]) (disk : Disk) :
    (disk.erase path).names folder = disk.names folder := by
  rw [erase, names, names, List.filterMap_filter]
  refine List.filterMap_congr fun held _ => ?_
  split
  · rfl
  · rename_i gone
    obtain rfl : held.1 = path := by simpa using gone
    exact (nameIn?_eq_none apart).symm

/-- A file that is written in another folder leaves a listing as it is. -/
theorem names_effectsOf {stroke : Stroke} (elsewhere : stroke.folder ≠ folder) (disk : Disk) :
    (disk.perform (disk.effectsOf stroke)).names folder = disk.names folder := by
  obtain ⟨place, target, contents⟩ := stroke
  have apart : ∀ other name : String, place ++ [other] ≠ folder ++ [name] :=
    fun other name same => elsewhere (List.append_inj' same rfl).1
  cases contents with
  | none => exact names_erase (apart target) disk
  | some bytes =>
      simp only [effectsOf, Stroke.path, scratch, perform_cons, perform_nil, apply]
      split
      · rw [names_set (apart target), names_erase (apart _), names_set (apart _), names_set (apart _)]
      · rw [names_set (apart _), names_set (apart _)]

/-! ## The order of a listing -/

/-- What stands in a folder under certain names, in their order. -/
def children (disk : Disk) (folder : Path) (names : List String) : List (Path × Node) :=
  names.filterMap fun name => (disk.node? (folder ++ [name])).map (folder ++ [name], ·)

theorem lookup_children_of_mem {names : List String} (among : name ∈ names) :
    (disk.children folder names).lookup (folder ++ [name]) = disk.node? (folder ++ [name]) := by
  induction names with
  | nil => cases among
  | cons first names induction =>
      rw [children, List.filterMap_cons]
      by_cases same : name = first
      · subst same
        cases standing : disk.node? (folder ++ [name]) with
        | none =>
            simp only [Option.map_none]
            refine List.lookup_eq_none_iff.2 fun held listed => ?_
            obtain ⟨other, _, found⟩ := List.mem_filterMap.1 listed
            obtain ⟨node, there, rfl⟩ := Option.map_eq_some_iff.1 found
            refine bne_iff_ne.2 fun equal => ?_
            rw [show folder ++ [other] = folder ++ [name] from equal.symm, standing] at there
            cases there
        | some node => simp
      · have later := induction ((List.mem_cons.1 among).resolve_left same)
        cases disk.node? (folder ++ [first]) with
        | none => exact later
        | some node =>
            simp only [Option.map_some, List.lookup_cons]
            rw [beq_false_of_ne (by simpa using same)]
            exact later

theorem lookup_children_of_not_mem {names : List String} (apart : ∀ name ∈ names, path ≠ folder ++ [name]) :
    (disk.children folder names).lookup path = none := by
  refine List.lookup_eq_none_iff.2 fun held listed => ?_
  obtain ⟨other, among, found⟩ := List.mem_filterMap.1 listed
  obtain ⟨node, _, rfl⟩ := Option.map_eq_some_iff.1 found
  exact bne_iff_ne.2 (apart other among)

theorem lookup_filter {nodes : List (Path × Node)} {keeps : Path → Bool} (kept : keeps path = true) :
    (nodes.filter fun held => keeps held.1).lookup path = nodes.lookup path := by
  induction nodes with
  | nil => rfl
  | cons held nodes induction =>
      obtain ⟨place, node⟩ := held
      rw [List.filter_cons]
      by_cases same : path = place
      · simp [← same, kept]
      · split <;> simp [List.lookup_cons, beq_false_of_ne same, induction]

/-- Whatever the order of the names in a folder, some disk lists them in this order and is the same at every
place. -/
theorem exists_relisted {names : List String} (order : names.Perm (disk.names folder)) :
    ∃ listed, Agree disk listed ∧ listed.names folder = names := by
  let outside (path : Path) : Bool := (nameIn? folder path).isNone
  refine ⟨⟨disk.children folder names ++ disk.nodes.filter fun held => outside held.1⟩, fun path => ?_, ?_⟩
  · cases path with
    | nil => rfl
    | cons first rest =>
        have below : first :: rest ≠ [] := List.cons_ne_nil _ _
        generalize first :: rest = path at below
        rw [node?_of_ne_nil _ below, node?_of_ne_nil _ below, List.lookup_append]
        cases inside : nameIn? folder path with
        | none =>
            rw [lookup_children_of_not_mem, Option.none_or, lookup_filter (by simp [outside, inside])]
            intro name _ same
            rw [nameIn?_eq_some.2 same] at inside
            cases inside
        | some name =>
            obtain rfl := nameIn?_eq_some.1 inside
            have filtered : (disk.nodes.filter fun held => outside held.1).lookup (folder ++ [name]) = none := by
              refine List.lookup_eq_none_iff.2 fun held listed => bne_iff_ne.2 fun same => ?_
              have kept := (List.mem_filter.1 listed).2
              simp only [outside, ← same, inside] at kept
              cases kept
            rw [filtered, Option.or_none, ← node?_of_ne_nil _ below]
            by_cases among : name ∈ names
            · rw [lookup_children_of_mem among]
            · rw [lookup_children_of_not_mem]
              · cases standing : disk.node? (folder ++ [name]) with
                | none => rfl
                | some node => exact absurd (order.mem_iff.2 (mem_names.2 ⟨node, standing⟩)) among
              · intro other other_among same
                rw [show name = other by simpa using same] at among
                exact among other_among
  · rw [Disk.names, List.filterMap_append]
    have inside : (disk.children folder names).filterMap (fun held => nameIn? folder held.1) = names := by
      rw [children, List.filterMap_filterMap]
      refine (List.filterMap_congr fun name among => ?_).trans List.filterMap_some
      obtain ⟨node, standing⟩ := mem_names.1 (order.mem_iff.1 among)
      rw [standing]
      exact nameIn?_eq_some.2 rfl
    have none_outside : (disk.nodes.filter fun held => outside held.1).filterMap
        (fun held => nameIn? folder held.1) = [] := by
      refine List.filterMap_eq_nil_iff.2 fun held listed => ?_
      simpa [outside] using (List.mem_filter.1 listed).2
    rw [inside, none_outside, List.append_nil]

end TieredCache.Disk
