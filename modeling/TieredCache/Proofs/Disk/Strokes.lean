import TieredCache.Proofs.Disk.Nodes

/-!
# Strokes and interruptions

A stroke changes one file. It takes place in one step, although a file is written in three effects. When
a list of strokes is interrupted, the first of them have taken place, and of the next one there is at
most a file under a temporary name.
-/

namespace TieredCache

/-! ## Interruptions -/

/-- What has taken place of a list of effects that was interrupted: the first of them, and of the
contents of a file maybe only the first part. -/
inductive Effect.Cut : List Effect → List Effect → Prop where
  | stopped (effects : List Effect) : Cut effects []
  | torn {path : Path} {bytes part : Bytes} (front : part <+: bytes) (later : List Effect) :
      Cut (.fillFile path bytes :: later) [.fillFile path part]
  | after {effect : Effect} {later done : List Effect} (rest : Cut later done) :
      Cut (effect :: later) (effect :: done)

namespace Effect.Cut

/-- Of two lists the second is interrupted, or it has not begun. -/
theorem append {left right done : List Effect} (cut : Cut (left ++ right) done) :
    Cut left done ∨ ∃ more, Cut right more ∧ done = left ++ more := by
  induction left generalizing done with
  | nil => exact Or.inr ⟨done, cut, rfl⟩
  | cons effect left induction =>
      rw [List.cons_append] at cut
      cases cut with
      | stopped => exact Or.inl (stopped _)
      | torn front => exact Or.inl (torn front left)
      | after rest =>
          rcases induction rest with inside | ⟨more, further, rfl⟩
          · exact Or.inl (after inside)
          · exact Or.inr ⟨more, further, rfl⟩

/-- The second of two lists has not begun. -/
theorem between (left right : List Effect) : Cut (left ++ right) left := by
  induction left with
  | nil => exact stopped right
  | cons effect left induction => exact after induction

theorem of_nil {done : List Effect} (cut : Cut [] done) : done = [] := by
  cases cut
  rfl

end Effect.Cut

/-! ## Strokes -/

/-- A change of one file. -/
structure Stroke where
  folder : Path
  name : String
  /-- What the file holds afterwards, and nothing if it is deleted. -/
  contents : Option Bytes

namespace Stroke

/-- The place of the file. -/
def path (stroke : Stroke) : Path := stroke.folder ++ [stroke.name]

/-- What stands there afterwards. -/
def node? (stroke : Stroke) : Option Node := stroke.contents.map .file

end Stroke

namespace Disk

/-- The place of a file that is being written in a folder. -/
def scratch (disk : Disk) (folder : Path) : Path := folder ++ [temporaryName (disk.names folder)]

/-- Nothing stands there yet. -/
theorem node?_scratch (disk : Disk) (folder : Path) : disk.node? (disk.scratch folder) = none := by
  cases standing : disk.node? (disk.scratch folder) with
  | none => rfl
  | some node => exact absurd (mem_names.2 ⟨node, standing⟩) (temporaryName_not_mem _)

/-- The effects of a stroke. -/
def effectsOf (disk : Disk) (stroke : Stroke) : List Effect :=
  match stroke.contents with
  | some bytes =>
    [.createFile (disk.scratch stroke.folder), .fillFile (disk.scratch stroke.folder) bytes,
      .moveFile (disk.scratch stroke.folder) stroke.path]
  | none => [.deleteFile stroke.path]

/-- The effects of a list of strokes, each on the disk that those before it leave. -/
def effects : Disk → List Stroke → List Effect
  | _, [] => []
  | disk, stroke :: later =>
    disk.effectsOf stroke ++ effects (disk.perform (disk.effectsOf stroke)) later

variable {disk clean : Disk}

theorem updates_effectsOf (disk : Disk) (stroke : Stroke) :
    Updates disk stroke.path stroke.node? (disk.perform (disk.effectsOf stroke)) := by
  obtain ⟨folder, name, contents⟩ := stroke
  cases contents with
  | none => exact updates_deleteFile disk (by simp [Stroke.path])
  | some bytes =>
      exact updates_replace disk bytes (by simp [scratch]) (by simp [Stroke.path])
        (disk.node?_scratch folder)

theorem effects_append (disk : Disk) (before after : List Stroke) :
    disk.effects (before ++ after) =
      disk.effects before ++ (disk.perform (disk.effects before)).effects after := by
  induction before generalizing disk with
  | nil => rfl
  | cons stroke before induction =>
      rw [List.cons_append, effects, effects, induction, perform_append, List.append_assoc]

theorem effects_cons (disk : Disk) (stroke : Stroke) (later : List Stroke) :
    disk.effects (stroke :: later) =
      disk.effectsOf stroke ++ (disk.perform (disk.effectsOf stroke)).effects later := rfl

@[simp] theorem effects_singleton (disk : Disk) (stroke : Stroke) :
    disk.effects [stroke] = disk.effectsOf stroke := List.append_nil _

/-- A place stays as it is if no stroke is about it. -/
theorem node?_effects {strokes : List Stroke} {path : Path}
    (apart : path ∉ strokes.map Stroke.path) :
    (disk.perform (disk.effects strokes)).node? path = disk.node? path := by
  induction strokes generalizing disk with
  | nil => rfl
  | cons stroke later induction =>
      rw [List.map_cons, List.mem_cons, not_or] at apart
      obtain ⟨not_here, not_later⟩ := apart
      rw [effects_cons, perform_append, induction not_later,
        (updates_effectsOf disk stroke).elsewhere not_here]

/-- When only the first strokes have taken place, each place is as it was before or as it is after all
of them. -/
theorem node?_between {before after : List Stroke}
    (distinct : ((before ++ after).map Stroke.path).Nodup) (path : Path) :
    (disk.perform (disk.effects before)).node? path = disk.node? path ∨
      (disk.perform (disk.effects before)).node? path =
        (disk.perform (disk.effects (before ++ after))).node? path := by
  by_cases changed : path ∈ before.map Stroke.path
  · have not_later : path ∉ after.map Stroke.path := by
      intro later
      rw [List.map_append] at distinct
      exact (List.nodup_append.1 distinct).2.2 path changed path later rfl
    refine Or.inr ?_
    rw [effects_append, perform_append, node?_effects not_later]
  · exact Or.inl (node?_effects changed)

/-! ## Interrupted strokes -/

/-- What has taken place of the next stroke. -/
inductive Begun (disk : Disk) : List Stroke → List Effect → Prop where
  | nothing (strokes : List Stroke) : Begun disk strokes []
  | created (folder : Path) (name : String) (bytes : Bytes) (later : List Stroke) :
      Begun disk (⟨folder, name, some bytes⟩ :: later) [.createFile (disk.scratch folder)]
  | filled (folder : Path) (name : String) (bytes part : Bytes) (later : List Stroke) :
      Begun disk (⟨folder, name, some bytes⟩ :: later)
        [.createFile (disk.scratch folder), .fillFile (disk.scratch folder) part]

theorem cut_effectsOf {stroke : Stroke} {done : List Effect}
    (cut : Effect.Cut (disk.effectsOf stroke) done) (later : List Stroke) :
    done = disk.effectsOf stroke ∨ Begun disk (stroke :: later) done := by
  obtain ⟨folder, name, contents⟩ := stroke
  cases contents with
  | none =>
      cases cut with
      | stopped => exact Or.inr (.nothing _)
      | after rest =>
          obtain rfl := rest.of_nil
          exact Or.inl rfl
  | some bytes =>
      cases cut with
      | stopped => exact Or.inr (.nothing _)
      | after rest =>
          cases rest with
          | stopped => exact Or.inr (.created folder name bytes later)
          | torn front => exact Or.inr (.filled folder name bytes _ later)
          | after rest =>
              cases rest with
              | stopped => exact Or.inr (.filled folder name bytes bytes later)
              | after rest =>
                  obtain rfl := rest.of_nil
                  exact Or.inl rfl

/-- An interruption falls between two strokes, or into one. -/
theorem interrupted {strokes : List Stroke} {done : List Effect}
    (cut : Effect.Cut (disk.effects strokes) done) :
    ∃ before after begun, strokes = before ++ after ∧ done = disk.effects before ++ begun ∧
      Begun (disk.perform (disk.effects before)) after begun := by
  induction strokes generalizing disk done with
  | nil =>
      obtain rfl := cut.of_nil
      exact ⟨[], [], [], rfl, rfl, .nothing []⟩
  | cons stroke later induction =>
      rw [effects_cons] at cut
      rcases cut.append with inside | ⟨more, further, rfl⟩
      · rcases cut_effectsOf inside later with rfl | begun
        · refine ⟨[stroke], later, [], rfl, ?_, .nothing later⟩
          simp [effects]
        · exact ⟨[], stroke :: later, done, rfl, rfl, begun⟩
      · obtain ⟨before, after, begun, rfl, rfl, rest⟩ := induction further
        refine ⟨stroke :: before, after, begun, rfl, ?_, ?_⟩
        · rw [effects_cons, List.append_assoc]
        · rw [effects_cons, perform_append]
          exact rest

/-- No file has been moved into its place by a stroke that is under way. -/
theorem Begun.not_moved {strokes : List Stroke} {begun : List Effect} (rest : Begun disk strokes begun)
    (source target : Path) : .moveFile source target ∉ begun := by
  cases rest <;> simp

/-- A file that has been moved is that of a stroke. -/
theorem mem_of_moveFile {strokes : List Stroke} {source target : Path}
    (moved : .moveFile source target ∈ disk.effects strokes) : target ∈ strokes.map Stroke.path := by
  induction strokes generalizing disk with
  | nil => cases moved
  | cons stroke later induction =>
      rw [effects_cons, List.mem_append] at moved
      rcases moved with here | further
      · obtain ⟨folder, name, contents⟩ := stroke
        cases contents with
        | none => simp [effectsOf] at here
        | some bytes =>
            simp only [effectsOf, List.mem_cons, reduceCtorEq, Effect.moveFile.injEq, List.not_mem_nil,
              or_false, false_or] at here
            rw [here.2]
            exact List.mem_cons_self
      · exact List.mem_cons_of_mem _ (induction further)

/-- Besides what is on a clean disk there are only files that were being written in some folders. -/
def Littered (folders : List Path) (clean disk : Disk) : Prop :=
  ∀ path, disk.node? path = clean.node? path ∨
    ∃ folder ∈ folders, path = clean.scratch folder ∧ ∃ bytes, disk.node? path = some (.file bytes)

theorem Begun.littered {strokes : List Stroke} {begun : List Effect} (rest : Begun clean strokes begun)
    {folders : List Path} (within : ∀ stroke ∈ strokes, stroke.folder ∈ folders) :
    Littered folders clean (clean.perform begun) := by
  intro path
  cases rest with
  | nothing => exact Or.inl rfl
  | created folder name bytes later =>
      have created : (clean.perform [.createFile (clean.scratch folder)]).node? path =
          if path = clean.scratch folder then some (.file []) else clean.node? path :=
        node?_set clean (by simp [scratch]) (.file []) path
      by_cases here : path = clean.scratch folder
      · rw [if_pos here] at created
        exact Or.inr ⟨folder, within _ List.mem_cons_self, here, [], created⟩
      · rw [if_neg here] at created
        exact Or.inl created
  | filled folder name bytes part later =>
      have filled : (clean.perform [.createFile (clean.scratch folder),
          .fillFile (clean.scratch folder) part]).node? path =
            if path = clean.scratch folder then some (.file part) else clean.node? path := by
        simp only [perform_cons, perform_nil, apply]
        rw [node?_set _ (by simp [scratch]), node?_set _ (by simp [scratch])]
        by_cases here : path = clean.scratch folder <;> simp [here]
      by_cases here : path = clean.scratch folder
      · rw [if_pos here] at filled
        exact Or.inr ⟨folder, within _ List.mem_cons_self, here, part, filled⟩
      · rw [if_neg here] at filled
        exact Or.inl filled

end Disk

end TieredCache
