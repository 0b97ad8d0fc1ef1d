import TieredCache.Proofs.Disk.Strokes

/-!
# Operations in a folder

Reading, deleting and replacing a file of a folder that a route leads to. Each of them is determined
by what stands at the place of the file.
-/

namespace TieredCache.Disk

variable {disk : Disk} {route : Route} {folder : Path} {name : String}

theorem isLegal_iff {route : Route} : route.isLegal = true ↔
    route.size ≤ Route.maxSize ∧ ∀ name ∈ route, ∀ character ∈ name.toList, character ≠ '\x00' := by
  simp [Route.isLegal]

theorem size_append (left right : Route) : Route.size (left ++ right) = left.size + right.size := by
  induction left with
  | nil => simp [Route.size]
  | cons component rest induction =>
      simp only [Route.size, List.cons_append, List.foldr_cons] at induction ⊢
      omega

theorem isLegal_of_append {left right : Route} (legal : Route.isLegal (left ++ right) = true) :
    left.isLegal = true := by
  obtain ⟨short, clean⟩ := isLegal_iff.1 legal
  rw [size_append] at short
  exact isLegal_iff.2 ⟨by omega, fun name found => clean name (List.mem_append_left right found)⟩

theorem locate_folder (legal : route.isLegal = true) (leads : Leads disk [] route folder) :
    disk.locate route = .ok (.folder folder) := by
  rw [locate, if_pos legal, follow_eq_folder]
  exact leads

/-- The spot of a name in a folder. -/
def spot (disk : Disk) (folder : Path) (name : String) : Spot :=
  match disk.node? (folder ++ [name]) with
  | some .folder => .folder (folder ++ [name])
  | some (.file bytes) => .file (folder ++ [name]) bytes
  | none => .vacant (folder ++ [name])

theorem locate_child (legal : Route.isLegal (route ++ [name]) = true)
    (leads : Leads disk [] route folder) (plain : Plain name) :
    disk.locate (route ++ [name]) = .ok (disk.spot folder name) := by
  rw [locate, if_pos legal, leads.follow_append, follow_plain plain, spot]
  cases disk.node? (folder ++ [name]) with
  | none => rfl
  | some node => cases node <;> rfl

theorem read_child (legal : Route.isLegal (route ++ [name]) = true)
    (leads : Leads disk [] route folder) (plain : Plain name) :
    disk.read (route ++ [name]) =
      match disk.node? (folder ++ [name]) with
      | some (.file bytes) => .ok bytes
      | some .folder => .error .obstacle
      | none => .error .missing := by
  rw [Disk.read, locate_child legal leads plain, spot]
  cases disk.node? (folder ++ [name]) with
  | none => rfl
  | some node => cases node <;> rfl

theorem deletion_child (legal : Route.isLegal (route ++ [name]) = true)
    (leads : Leads disk [] route folder) (plain : Plain name) :
    disk.deletion (route ++ [name]) =
      match disk.node? (folder ++ [name]) with
      | some (.file _) => .ok (.deleteFile (folder ++ [name]))
      | some .folder => .error .obstacle
      | none => .error .missing := by
  rw [deletion, fileAt, locate_child legal leads plain, spot]
  cases disk.node? (folder ++ [name]) with
  | none => rfl
  | some node => cases node <;> rfl

theorem list_folder (legal : route.isLegal = true) (leads : Leads disk [] route folder) :
    disk.list route = .ok (disk.names folder) := by
  rw [Disk.list, folderAt, locate_folder legal leads]
  rfl

/-- Where no folder stands, a file is replaced or made in one stroke. -/
theorem replacement_child (legal : Route.isLegal (route ++ [name]) = true)
    (leads : Leads disk [] route folder) (plain : Plain name)
    (no_folder : disk.node? (folder ++ [name]) ≠ some .folder) (bytes : Bytes) :
    disk.replacement route name bytes = .ok (disk.effectsOf ⟨folder, name, some bytes⟩) := by
  rw [replacement, folderAt, locate_folder (isLegal_of_append legal) leads,
    locate_child legal leads plain, spot]
  cases standing : disk.node? (folder ++ [name]) with
  | none => rfl
  | some node =>
      cases node with
      | folder => exact absurd standing no_folder
      | file old => rfl

/-! ## Making folders -/

theorem foldersFrom_plain {place : Path} (plain : Plain name) (route : Route) :
    disk.foldersFrom place (name :: route) =
      match disk.node? (place ++ [name]) with
      | some .folder => disk.foldersFrom (place ++ [name]) route
      | some (.file _) => ([], false)
      | none =>
        let (effects, made) :=
          (disk.apply (.makeFolder (place ++ [name]))).foldersFrom (place ++ [name]) route
        (.makeFolder (place ++ [name]) :: effects, made) := by
  obtain ⟨nonempty, no_dot, no_dots, short⟩ := plain
  have moves : ¬ (name = "" ∨ name = ".") := not_or.2 ⟨nonempty, no_dot⟩
  rw [foldersFrom]
  exact (if_neg moves).trans ((if_neg no_dots).trans (if_neg (by omega)))

/-- Nothing is made as far as a route leads to folders. -/
theorem Leads.foldersFrom_append {place : Path} {left : Route} (leads : Leads disk place left folder)
    (right : Route) : disk.foldersFrom place (left ++ right) = disk.foldersFrom folder right := by
  induction leads with
  | here place => rfl
  | stay empty further induction => rw [List.cons_append, foldersFrom, if_pos empty, induction]
  | up moves dots further induction =>
      rw [List.cons_append, foldersFrom, if_neg moves, if_pos dots, induction]
  | down plain inside further induction =>
      rw [List.cons_append, foldersFrom_plain plain, inside]
      exact induction

end TieredCache.Disk
