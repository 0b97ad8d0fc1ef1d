import TieredCache.Proofs.Disk.Folders

/-!
# Where operations on files reach

Whatever a disk is like, a route that is followed ends at what stands at its place, a file is deleted where
it stands, and a file that is replaced or made stands in its folder under its name.
-/

namespace TieredCache.Disk

variable {disk before after : Disk} {route : Route} {folder path : Path} {name : String} {bytes : Bytes}

/-! ## Following a route -/

/-- A component stays in its folder, goes up, is too long for a name, or is a name. -/
inductive Component (component : String) : Prop where
  | stays (empty : component = "" ∨ component = ".")
  | rises (moves : ¬ (component = "" ∨ component = ".")) (dots : component = "..")
  | obstructs (refused : ∀ (disk : Disk) (place : Path) (route : Route),
      disk.follow place (component :: route) = .error .obstacle)
  | descends (plain : Plain component)

theorem component (component : String) : Component component := by
  by_cases empty : component = "" ∨ component = "."
  · exact .stays empty
  · by_cases dots : component = ".."
    · exact .rises empty dots
    · by_cases long : Route.maxNameSize < component.utf8ByteSize
      · refine .obstructs fun disk place route => ?_
        rw [follow, if_neg empty, if_neg dots, if_pos long]
      · obtain ⟨nonempty, no_dot⟩ := not_or.1 empty
        exact .descends ⟨nonempty, no_dot, dots, by omega⟩

/-- A spot tells what stands at its place. -/
def Stands (disk : Disk) : Spot → Prop
  | .folder _ => True
  | .file path bytes => disk.node? path = some (.file bytes)
  | .vacant path => path ≠ [] ∧ disk.node? path = none

theorem stands_follow {place : Path} {spot : Spot} (found : disk.follow place route = .ok spot) :
    disk.Stands spot := by
  induction route generalizing place with
  | nil =>
      obtain rfl := Except.ok.inj found
      trivial
  | cons first route induction =>
      cases component first with
      | stays empty =>
          rw [follow, if_pos empty] at found
          exact induction found
      | rises moves dots =>
          rw [follow, if_neg moves, if_pos dots] at found
          exact induction found
      | obstructs refused =>
          rw [refused] at found
          cases found
      | descends plain =>
          rw [follow_plain plain] at found
          split at found
          · exact induction found
          · rename_i standing
            split at found
            · obtain rfl := Except.ok.inj found
              exact standing
            · cases found
          · rename_i standing
            split at found
            · obtain rfl := Except.ok.inj found
              exact ⟨by simp, standing⟩
            · cases found

theorem stands_locate {spot : Spot} (found : disk.locate route = .ok spot) : disk.Stands spot := by
  rw [locate] at found
  split at found
  · exact stands_follow found
  · cases found

theorem folderAt_eq_ok_iff :
    disk.folderAt route = .ok folder ↔ route.isLegal = true ∧ Leads disk [] route folder := by
  constructor
  · intro found
    rw [folderAt, locate] at found
    split at found
    · rename_i legal
      refine ⟨legal, follow_eq_folder.1 ?_⟩
      cases followed : disk.follow [] route with
      | error refusal =>
          rw [followed] at found
          cases found
      | ok spot =>
          rw [followed] at found
          cases spot <;> cases found
          rfl
    · cases found
  · rintro ⟨legal, leads⟩
    rw [folderAt, locate_folder legal leads]
    rfl

theorem fileAt_eq_ok_iff :
    disk.fileAt route = .ok path ↔ ∃ bytes, disk.locate route = .ok (.file path bytes) := by
  rw [fileAt]
  constructor
  · intro found
    cases located : disk.locate route with
    | error refusal =>
        rw [located] at found
        cases found
    | ok spot =>
        rw [located] at found
        cases spot <;> cases found
        exact ⟨_, rfl⟩
  · rintro ⟨bytes, located⟩
    rw [located]
    rfl

theorem file_of_fileAt (found : disk.fileAt route = .ok path) :
    ∃ bytes, disk.node? path = some (.file bytes) := by
  obtain ⟨bytes, located⟩ := fileAt_eq_ok_iff.1 found
  exact ⟨bytes, stands_locate located⟩

theorem read_eq_ok_iff :
    disk.read route = .ok bytes ↔ ∃ path, disk.locate route = .ok (.file path bytes) := by
  rw [Disk.read]
  constructor
  · intro found
    cases located : disk.locate route with
    | error refusal =>
        rw [located] at found
        cases found
    | ok spot =>
        rw [located] at found
        cases spot <;> cases found
        exact ⟨_, rfl⟩
  · rintro ⟨path, located⟩
    rw [located]
    rfl

/-- A route ends at a file under its last component, in the folder that the route before it leads to. -/
theorem follow_child {place : Path} (found : disk.follow place (route ++ [name]) = .ok (.file path bytes)) :
    Plain name ∧ ∃ folder, Leads disk place route folder ∧ path = folder ++ [name] := by
  induction route generalizing place with
  | nil =>
      rw [List.nil_append] at found
      cases component name with
      | stays empty =>
          rw [follow, if_pos empty] at found
          cases found
      | rises moves dots =>
          rw [follow, if_neg moves, if_pos dots] at found
          cases found
      | obstructs refused =>
          rw [refused] at found
          cases found
      | descends plain =>
          rw [follow_plain plain] at found
          split at found
          · cases found
          · cases found
            exact ⟨plain, place, .here place, rfl⟩
          · cases found
  | cons first route induction =>
      rw [List.cons_append] at found
      cases component first with
      | stays empty =>
          rw [follow, if_pos empty] at found
          obtain ⟨plain, folder, leads, place⟩ := induction found
          exact ⟨plain, folder, .stay empty leads, place⟩
      | rises moves_up dots =>
          rw [follow, if_neg moves_up, if_pos dots] at found
          obtain ⟨plain, folder, leads, place⟩ := induction found
          exact ⟨plain, folder, .up moves_up dots leads, place⟩
      | obstructs refused =>
          rw [refused] at found
          cases found
      | descends plain_first =>
          rw [follow_plain plain_first] at found
          split at found
          · rename_i inside
            obtain ⟨plain, folder, leads, place⟩ := induction found
            exact ⟨plain, folder, .down plain_first inside leads, place⟩
          · simp at found
          · simp at found

theorem fileAt_child (found : disk.fileAt (route ++ [name]) = .ok path) :
    Plain name ∧ ∃ folder, disk.folderAt route = .ok folder ∧ path = folder ++ [name] := by
  obtain ⟨bytes, located⟩ := fileAt_eq_ok_iff.1 found
  rw [locate] at located
  split at located
  · rename_i legal
    obtain ⟨plain, folder, leads, place⟩ := follow_child located
    exact ⟨plain, folder, folderAt_eq_ok_iff.2 ⟨isLegal_of_append legal, leads⟩, place⟩
  · cases located

theorem read_child_iff (plain : Plain name) :
    disk.read (route ++ [name]) = .ok bytes ↔ Route.isLegal (route ++ [name]) = true ∧
      ∃ folder, Leads disk [] route folder ∧ disk.node? (folder ++ [name]) = some (.file bytes) := by
  constructor
  · intro read
    obtain ⟨path, located⟩ := read_eq_ok_iff.1 read
    have standing := stands_locate located
    rw [locate] at located
    split at located
    · rename_i legal
      obtain ⟨_, folder, leads, rfl⟩ := follow_child located
      exact ⟨legal, folder, leads, standing⟩
    · cases located
  · rintro ⟨legal, folder, leads, standing⟩
    rw [read_child legal leads plain, standing]

/-! ## Disks with the same folders -/

/-- Whatever stands somewhere on a disk stands there on another one too. -/
def Within (part whole : Disk) : Prop :=
  ∀ path node, part.node? path = some node → whole.node? path = some node

theorem Within.follow {part whole : Disk} (within : Within part whole) {place : Path}
    (found : part.follow place route = .ok (.file path bytes)) :
    whole.follow place route = .ok (.file path bytes) := by
  induction route generalizing place with
  | nil => cases found
  | cons first route induction =>
      cases component first with
      | stays empty =>
          rw [Disk.follow, if_pos empty] at found ⊢
          exact induction found
      | rises moves dots =>
          rw [Disk.follow, if_neg moves, if_pos dots] at found ⊢
          exact induction found
      | obstructs refused =>
          rw [refused] at found
          cases found
      | descends plain =>
          rw [follow_plain plain] at found ⊢
          split at found
          · rename_i inside
            rw [within _ _ inside]
            exact induction found
          · rename_i standing
            rw [within _ _ standing]
            exact found
          · split at found <;> cases found

/-- A file that is found on a part of a disk is found on all of it. -/
theorem Within.locate {part whole : Disk} (within : Within part whole)
    (found : part.locate route = .ok (.file path bytes)) :
    whole.locate route = .ok (.file path bytes) := by
  rw [Disk.locate] at found ⊢
  split at found
  · rename_i legal
    rw [if_pos legal]
    exact within.follow found
  · cases found

theorem Within.fileAt {part whole : Disk} (within : Within part whole)
    (found : part.fileAt route = .ok path) : whole.fileAt route = .ok path := by
  obtain ⟨bytes, located⟩ := fileAt_eq_ok_iff.1 found
  exact fileAt_eq_ok_iff.2 ⟨bytes, within.locate located⟩

/-- A disk has the folders of another one, and of its files some. -/
structure Thins (before after : Disk) : Prop where
  within : Within after before
  folders : KeepsFolders before after

theorem Thins.refl (disk : Disk) : Thins disk disk := ⟨fun _ _ => id, fun _ => id⟩

theorem Thins.trans {middle : Disk} (first : Thins before middle) (second : Thins middle after) :
    Thins before after :=
  ⟨fun path node standing => first.within path node (second.within path node standing),
    fun path standing => second.folders path (first.folders path standing)⟩

/-- Two disks have the same folders. -/
def SameFolders (before after : Disk) : Prop :=
  ∀ path, after.node? path = some .folder ↔ before.node? path = some .folder

theorem Thins.sameFolders (thins : Thins before after) : SameFolders before after :=
  fun path => ⟨thins.within path .folder, thins.folders path⟩

/-- A folder is found on disks with the same folders alike. -/
theorem SameFolders.folderAt_iff (same : SameFolders before after) :
    after.folderAt route = .ok folder ↔ before.folderAt route = .ok folder := by
  rw [folderAt_eq_ok_iff, folderAt_eq_ok_iff]
  exact and_congr_right fun _ =>
    ⟨Leads.keep fun path => (same path).1, Leads.keep fun path => (same path).2⟩

/-! ## Strokes -/

/-- What deletes a file is one stroke. -/
theorem deletion_eq_ok {effect : Effect} (deletes : disk.deletion route = .ok effect) :
    ∃ stroke : Stroke, [effect] = disk.effectsOf stroke ∧ stroke.contents = none ∧
      disk.fileAt route = .ok stroke.path := by
  rw [deletion] at deletes
  cases found : disk.fileAt route with
  | error refusal =>
      rw [found] at deletes
      cases deletes
  | ok path =>
      rw [found] at deletes
      obtain rfl := Except.ok.inj deletes
      obtain ⟨bytes, standing⟩ := file_of_fileAt found
      have below : path ≠ [] := by
        rintro rfl
        cases standing
      have parts : path.dropLast ++ [path.getLast below] = path := List.dropLast_concat_getLast below
      refine ⟨⟨path.dropLast, path.getLast below, none⟩, ?_, rfl, ?_⟩
      · simp only [effectsOf, Stroke.path, parts]
      · simp only [Stroke.path, parts]

/-- What replaces a file, or makes it, is one stroke. -/
theorem replacement_eq_ok {effects : List Effect} (plain : Plain name)
    (replaces : disk.replacement route name bytes = .ok effects) :
    ∃ folder, disk.folderAt route = .ok folder ∧ Route.isLegal (route ++ [name]) = true ∧
      disk.node? (folder ++ [name]) ≠ some .folder ∧
      effects = disk.effectsOf ⟨folder, name, some bytes⟩ := by
  rw [replacement] at replaces
  cases found : disk.folderAt route with
  | error refusal =>
      rw [found] at replaces
      cases replaces
  | ok folder =>
      obtain ⟨_, leads⟩ := folderAt_eq_ok_iff.1 found
      rw [found] at replaces
      simp only [bind, Except.bind] at replaces
      cases legal : Route.isLegal (route ++ [name]) with
      | false =>
          rw [locate, legal] at replaces
          cases replaces
      | true =>
          rw [locate_child legal leads plain, spot] at replaces
          refine ⟨folder, rfl, rfl, ?_⟩
          cases standing : disk.node? (folder ++ [name]) with
          | none =>
              rw [standing] at replaces
              obtain rfl := Except.ok.inj replaces
              exact ⟨by simp, rfl⟩
          | some node =>
              rw [standing] at replaces
              cases node with
              | folder => cases replaces
              | file old =>
                  obtain rfl := Except.ok.inj replaces
                  exact ⟨by simp, rfl⟩

/-- A stroke where no folder stands leaves the folders as they are. -/
theorem sameFolders_effectsOf {stroke : Stroke} (free : disk.node? stroke.path ≠ some .folder) :
    SameFolders disk (disk.perform (disk.effectsOf stroke)) := by
  intro path
  rw [updates_effectsOf disk stroke path]
  split
  · rename_i here
    subst here
    refine iff_of_false (fun folder => ?_) free
    rw [Stroke.node?] at folder
    cases contents : stroke.contents <;> rw [contents] at folder <;> cases folder
  · rfl

theorem sameFolders_effects {strokes : List Stroke}
    (free : ∀ stroke ∈ strokes, disk.node? stroke.path ≠ some .folder) :
    SameFolders disk (disk.perform (disk.effects strokes)) := by
  induction strokes generalizing disk with
  | nil => exact fun path => .rfl
  | cons stroke later induction =>
      obtain ⟨free_here, free_later⟩ := List.forall_mem_cons.1 free
      have here := sameFolders_effectsOf free_here
      rw [effects_cons, perform_append]
      intro path
      refine (induction fun other among => ?_) path |>.trans (here path)
      rw [ne_eq, here]
      exact free_later other among

/-- A file that is deleted leaves a thinner disk. -/
theorem thins_effectsOf {stroke : Stroke} (deletes : stroke.contents = none)
    (free : disk.node? stroke.path ≠ some .folder) :
    Thins disk (disk.perform (disk.effectsOf stroke)) := by
  refine ⟨fun path node standing => ?_, fun path => (sameFolders_effectsOf free path).2⟩
  rw [updates_effectsOf disk stroke path] at standing
  split at standing
  · rw [Stroke.node?, deletes] at standing
    cases standing
  · exact standing

/-- What stands somewhere after a number of strokes stood there before, or one of them has left it. -/
theorem node?_effects_cases (disk : Disk) (strokes : List Stroke) (path : Path) :
    (disk.perform (disk.effects strokes)).node? path = disk.node? path ∨
      ∃ stroke ∈ strokes, stroke.path = path ∧
        (disk.perform (disk.effects strokes)).node? path = stroke.node? := by
  induction strokes generalizing disk with
  | nil => exact .inl rfl
  | cons stroke later induction =>
      rw [effects_cons, perform_append]
      rcases induction (disk.perform (disk.effectsOf stroke)) with same | ⟨other, among, place, left⟩
      · rw [same, updates_effectsOf disk stroke path]
        split
        · rename_i here
          exact .inr ⟨stroke, List.mem_cons_self, here.symm, rfl⟩
        · exact .inl rfl
      · exact .inr ⟨other, List.mem_cons_of_mem _ among, place, left⟩

/-- Deleting files clears their places. -/
theorem node?_perform_deletions {effects : List Effect}
    (deletes : ∀ effect ∈ effects, ∃ path, effect = .deleteFile path ∧ path ≠ []) (path : Path) :
    (disk.perform effects).node? path = if .deleteFile path ∈ effects then none else disk.node? path := by
  induction effects generalizing disk with
  | nil => rfl
  | cons effect effects induction =>
      obtain ⟨⟨gone, rfl, below⟩, deletes_later⟩ := List.forall_mem_cons.1 deletes
      rw [perform_cons, induction deletes_later, updates_deleteFile disk below]
      by_cases here : path = gone
      · simp [here]
      · simp [here]

/-! ## Making folders -/

/-- Folders have been made where nothing stood. -/
structure Makes (before after : Disk) : Prop where
  within : Within before after
  files : ∀ path bytes, after.node? path = some (.file bytes) → before.node? path = some (.file bytes)

theorem Makes.refl (disk : Disk) : Makes disk disk := ⟨fun _ _ => id, fun _ _ => id⟩

theorem Makes.trans {middle : Disk} (first : Makes before middle) (second : Makes middle after) :
    Makes before after :=
  ⟨fun path node standing => second.within path node (first.within path node standing),
    fun path bytes standing => first.files path bytes (second.files path bytes standing)⟩

theorem makes_makeFolder (below : path ≠ []) (free : disk.node? path = none) :
    Makes disk (disk.apply (.makeFolder path)) := by
  have made : ∀ asked, (disk.apply (.makeFolder path)).node? asked =
      if asked = path then some .folder else disk.node? asked := node?_set disk below .folder
  refine ⟨fun asked node standing => ?_, fun asked bytes standing => ?_⟩
  · rw [made, if_neg]
    · exact standing
    · rintro rfl
      rw [free] at standing
      cases standing
  · rw [made] at standing
    split at standing
    · cases standing
    · exact standing

theorem makes_foldersFrom (disk : Disk) (place : Path) (route : Route) :
    Makes disk (disk.perform (disk.foldersFrom place route).1) := by
  induction route generalizing disk place with
  | nil => exact .refl disk
  | cons first route induction =>
      rw [foldersFrom]
      split
      · exact induction disk place
      · split
        · exact induction disk place.dropLast
        · split
          · exact .refl disk
          · dsimp only
            split
            · exact induction disk _
            · exact .refl disk
            · rename_i free
              rw [perform_cons]
              exact (makes_makeFolder (by simp) free).trans (induction _ _)

theorem makes_folders (disk : Disk) (route : Route) :
    Makes disk (disk.perform (disk.folders route).1) := by
  rw [folders]
  split
  · exact makes_foldersFrom disk [] route
  · exact .refl disk

end TieredCache.Disk
