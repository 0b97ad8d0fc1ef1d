import TieredCache.Proofs.Archive.Reach
import TieredCache.Proofs.Archive.Repair
import TieredCache.Proofs.IndexFile
import TieredCache.Proofs.Lookup.Front

/-!
# Names that lead elsewhere

An index that is taken up from its file may hold names of any form. An operation on an archive deletes
what the name of its key leads to, wherever that is and whatever it holds. `Vault.strikes_iff` says which
files that concerns: none but the index, records and what the names in the file led to.
-/

namespace TieredCache

open Archive Json

/-! ## The file of an index is no record -/

namespace Json.Fields

theorem mem_set? {name : String} {value : Outline} {names : List String} {fields after : Fields}
    (set : set? name value names fields = some after) {held : Outline} (among : some held ∈ after) :
    some held ∈ fields ∨ held = value := by
  induction names generalizing fields after with
  | nil =>
      obtain rfl := Option.some.inj set
      exact .inl among
  | cons field names induction =>
      cases fields with
      | nil =>
          obtain rfl := Option.some.inj set
          exact .inl among
      | cons first fields =>
          unfold set? at set
          split at set
          · cases first with
            | none =>
                obtain rfl := Option.some.inj set
                rcases List.mem_cons.1 among with same | among
                · exact .inr (Option.some.inj same)
                · exact .inl (List.mem_cons_of_mem _ among)
            | some old => cases set
          · obtain ⟨rest, later, rfl⟩ := Option.map_eq_some_iff.1 set
            rcases List.mem_cons.1 among with same | among
            · exact .inl (same ▸ List.mem_cons_self)
            · rcases induction later among with before | new
              · exact .inl (List.mem_cons_of_mem _ before)
              · exact .inr new

/-- A field that is set has the value of a member. -/
theorem mem_ofMembers? {names : List String} {members : List (List Piece × Outline)}
    {fields after : Fields} (taken : ofMembers? names members fields = some after) {held : Outline}
    (among : some held ∈ after) : some held ∈ fields ∨ held ∈ members.map Prod.snd := by
  induction members generalizing fields with
  | nil =>
      obtain rfl := Option.some.inj taken
      exact .inl among
  | cons member members induction =>
      obtain ⟨pieces, value⟩ := member
      rw [ofMembers?] at taken
      split at taken
      · cases taken
      · obtain ⟨middle, set, later⟩ := Option.bind_eq_some_iff.1 taken
        rcases induction later with before | new
        · rcases mem_set? set before with old | rfl
          · exact .inl old
          · exact .inr List.mem_cons_self
        · exact .inr (List.mem_cons_of_mem _ new)

end Json.Fields

namespace Index

/-- A text is an object of strings. -/
def Legible (bytes : Bytes) : Prop :=
  ∃ members, Outline.read? bytes = some (.object members) ∧
    ∀ value ∈ members.map Prod.snd, value.string?.isSome = true

theorem legible_write (index : Index) : Legible index.write := by
  refine ⟨_, outline_write index, fun value among => ?_⟩
  obtain ⟨member, listed, rfl⟩ := List.mem_map.1 among
  obtain ⟨pair, _, rfl⟩ := List.mem_map.1 listed
  simp [outlineMember, Outline.string?, Quoted.text?_pieces]

theorem legible_of_read? {bytes : Bytes} {index : Index} (parses : read? bytes = some index) :
    Legible bytes := by
  obtain ⟨outline, read, taken⟩ := Option.bind_eq_some_iff.1 parses
  cases outline with
  | object members =>
      refine ⟨members, read, ?_⟩
      rw [ofOutline?] at taken
      generalize ([] : Index) = held at taken
      clear read
      induction members generalizing held with
      | nil => exact List.forall_mem_nil _
      | cons member members induction =>
          obtain ⟨pieces, value⟩ := member
          rw [ofMembers?] at taken
          split at taken
          · rename_i key name _ named
            refine List.forall_mem_cons.2 ⟨?_, induction _ taken⟩
            simp only
            rw [named]
            rfl
          · cases taken
  | _ => cases taken

/-- An object of strings is no record: the paths of a record are a list. -/
theorem Legible.no_record {bytes : Bytes} (legible : Legible bytes) : Entry.read? bytes = none := by
  obtain ⟨members, outline, strings⟩ := legible
  rw [Entry.read?, outline, Option.bind_some, Entry.ofOutline?]
  split
  · rename_i key paths params tags created accessed count fields
    rcases Fields.mem_ofMembers? fields (show some paths ∈ _ by simp) with never | listed
    · simp at never
    · have string := strings paths listed
      cases paths with
      | text pieces => cases key.string? <;> rfl
      | _ => cases string
  · rfl

end Index

/-! ## Operations -/

/-- An operation on an open archive. -/
inductive Chore where
  | load (key : String)
  /-- Keeps an entry, under its own key or another one. -/
  | spill (key : String) (entry : Entry)
  | remove (key : String)
  | clear

namespace Chore

/-- The key that an operation is about. -/
def key? : Chore → Option String
  | .load key => some key
  | .spill key _ => some key
  | .remove key => some key
  | .clear => none

/-- The name under which an operation looks for the record of its key. -/
def name? (index : Index) : Chore → Option String
  | .load key => index.get? key
  | .spill key _ => some (recordName key)
  | .remove key => some ((index.get? key).getD (recordName key))
  | .clear => none

/-- A file holds a record of another key than the one that an operation is about. -/
def Foreign (chore : Chore) (disk : Disk) (path : Path) : Prop :=
  ∃ key bytes entry, chore.key? = some key ∧ disk.node? path = some (.file bytes) ∧
    Entry.read? bytes = some entry ∧ entry.key ≠ key

end Chore

/-- The places that an effect changes. -/
def Effect.places : Effect → List Path
  | .makeFolder path => [path]
  | .createFile path => [path]
  | .fillFile path _ => [path]
  | .moveFile source target => [source, target]
  | .deleteFile path => [path]

/-- A file that strokes change is that of one of them: a file that is being written has a new name. -/
theorem Disk.mem_places {disk : Disk} {strokes : List Stroke} {path : Path} {bytes : Bytes}
    (standing : disk.node? path = some (.file bytes)) {effect : Effect}
    (among : effect ∈ disk.effects strokes) (changes : path ∈ effect.places) :
    ∃ stroke ∈ strokes, stroke.path = path := by
  induction strokes generalizing disk with
  | nil => cases among
  | cons stroke later induction =>
      by_cases here : stroke.path = path
      · exact ⟨stroke, List.mem_cons_self, here⟩
      · have not_scratch : path ≠ disk.scratch stroke.folder := by
          rintro rfl
          rw [disk.node?_scratch] at standing
          cases standing
        rw [effects_cons, List.mem_append] at among
        rcases among with among | among
        · exfalso
          cases contents : stroke.contents with
          | none =>
              simp only [effectsOf, contents, List.mem_singleton] at among
              subst among
              exact here (List.mem_singleton.1 changes).symm
          | some written =>
              simp only [effectsOf, contents, List.mem_cons, List.not_mem_nil, or_false] at among
              rcases among with rfl | rfl | rfl
              · exact not_scratch (List.mem_singleton.1 changes)
              · exact not_scratch (List.mem_singleton.1 changes)
              · rcases List.mem_cons.1 changes with same | same
                · exact not_scratch same
                · exact here (List.mem_singleton.1 same).symm
        · have still := (updates_effectsOf disk stroke).elsewhere (Ne.symm here)
          obtain ⟨other, listed, place⟩ := induction (still.trans standing) among
          exact ⟨other, List.mem_cons_of_mem _ listed, place⟩

namespace Vault

/-- The archive after an operation, and what the operation does to the disk. -/
def perform (vault : Vault) : Chore → Archive × List Effect
  | .load key =>
    let outcome := vault.archive.load vault.disk key
    (outcome.archive, outcome.effects)
  | .spill key entry =>
    let outcome := vault.archive.spill vault.disk key entry
    (outcome.archive, outcome.effects)
  | .remove key =>
    let outcome := vault.archive.remove vault.disk key
    (outcome.archive, outcome.effects)
  | .clear =>
    let outcome := vault.archive.clear vault.disk
    (outcome.archive, outcome.effects)

/-- An archive and its disk after an operation. -/
def after (vault : Vault) (chore : Chore) : Vault :=
  ⟨(vault.perform chore).1, vault.disk.perform (vault.perform chore).2⟩

/-- An archive and its disk after a number of operations. -/
def through (vault : Vault) (chores : List Chore) : Vault := chores.foldl after vault

/-- An operation deletes or overwrites the file at a place. -/
def Strikes (vault : Vault) (chore : Chore) (path : Path) : Prop :=
  (∃ bytes, vault.disk.node? path = some (.file bytes)) ∧
    ∃ effect ∈ (vault.perform chore).2, path ∈ effect.places

/-- A place is that of the file of the index. -/
def IsIndex (vault : Vault) (path : Path) : Prop :=
  ∃ folder, vault.disk.folderAt vault.archive.root = .ok folder ∧ path = folder ++ [indexName]

/-- A place is one in the folder of the records. -/
def InRecords (vault : Vault) (path : Path) : Prop :=
  ∃ folder name, vault.disk.folderAt vault.archive.records = .ok folder ∧ path = folder ++ [name]

/-- A name leads to a file. -/
def Names (vault : Vault) (name : String) (path : Path) : Prop :=
  vault.disk.fileAt (vault.archive.place name) = .ok path

variable {vault : Vault} {chore : Chore} {path : Path} {index : Index}

/-! ## One operation -/

/-- The names of the files that an operation may delete. -/
def Deletes (vault : Vault) (chore : Chore) (name : String) : Prop :=
  chore.name? vault.archive.index = some name ∨
    chore = .clear ∧ name ∈ vault.archive.index.map Prod.snd

theorem corrupt_of_inspect {archive : Archive} {disk : Disk} {key name : String}
    (corrupt : archive.inspect disk key = .corrupt name) : archive.index.get? key = some name := by
  unfold inspect at corrupt
  split at corrupt
  · cases corrupt
  · rename_i found indexed
    split at corrupt
    · cases corrupt
    · cases corrupt
    · split at corrupt
      · cases corrupt
      · cases corrupt
        exact indexed

theorem touches_perform (vault : Vault) (chore : Chore) :
    vault.archive.Touches vault.disk (vault.Deletes chore) (fun key entry => chore = .spill key entry)
      (vault.perform chore).2 := by
  cases chore with
  | load key =>
      refine (touches_settle vault.archive vault.disk key _).mono (fun name corrupt => .inl ?_)
        fun _ _ => id
      exact corrupt_of_inspect corrupt
  | spill key entry =>
      refine (touches_spill vault.archive vault.disk key entry).mono (fun _ => False.elim) ?_
      rintro _ _ ⟨rfl, rfl⟩
      rfl
  | remove key =>
      exact (touches_remove vault.archive vault.disk key).mono
        (fun name same => .inl (congrArg some same)) fun _ _ => id
  | clear =>
      exact (touches_clear vault.archive vault.disk).mono (fun name listed => .inr ⟨rfl, listed⟩)
        fun _ _ => id

/-- What is struck is the place of a stroke. -/
theorem Strikes.deals (strikes : vault.Strikes chore path) :
    ∃ stroke, vault.archive.Deals vault.disk (vault.Deletes chore)
      (fun key entry => chore = .spill key entry) stroke ∧ stroke.path = path := by
  obtain ⟨⟨bytes, standing⟩, effect, among, changes⟩ := strikes
  obtain ⟨strokes, same, deals⟩ := vault.touches_perform chore
  rw [same] at among
  obtain ⟨stroke, listed, place⟩ := Disk.mem_places standing among changes
  exact ⟨stroke, deals stroke listed, place⟩

/-- What is struck is the index, a record, or a file that is deleted by a name. -/
theorem Strikes.cases (strikes : vault.Strikes chore path) :
    vault.IsIndex path ∨ vault.InRecords path ∨
      ∃ name, vault.Deletes chore name ∧ vault.Names name path := by
  obtain ⟨stroke, deals, rfl⟩ := strikes.deals
  cases deals with
  | saves index there legal free => exact .inl ⟨_, there, rfl⟩
  | keeps kept there legal free => exact .inr (.inl ⟨_, _, there, rfl⟩)
  | deletes deleted gone there => exact .inr (.inr ⟨_, deleted, there⟩)

/-- A name of one component leads to a place among the records. -/
theorem inRecords_of_place {name : String}
    (child : vault.archive.place name = vault.archive.records ++ [name]) (leads : vault.Names name path) :
    vault.InRecords path := by
  rw [Names, child] at leads
  obtain ⟨_, folder, there, rfl⟩ := Disk.fileAt_child leads
  exact ⟨folder, _, there, rfl⟩

/-! ## A number of operations -/

/-- What becomes of an archive that took up an index from its file. -/
structure Descends (root : Route) (index : Index) (vault : Vault) : Prop where
  root : vault.archive.root = root
  /-- A name in memory was in the file, or is that of a record. -/
  names : ∀ member ∈ vault.archive.index, member ∈ index ∨ member.2 = recordName member.1
  /-- The file of the index holds an object of strings. -/
  legible : ∀ path bytes, vault.IsIndex path → vault.disk.node? path = some (.file bytes) →
    Index.Legible bytes

variable {root : Route}

theorem recordName_ne_indexName (key : String) : recordName key ≠ indexName := by
  intro same
  have length := length_recordName key
  rw [same] at length
  exact absurd length (by decide)

theorem mem_index_settle {archive : Archive} {disk : Disk} {key : String} {verdict : Verdict}
    {member : String × String} (among : member ∈ (archive.settle disk key verdict).archive.index) :
    member ∈ archive.index := by
  have forgotten : ∀ disk, member ∈ (archive.forget disk key).archive.index →
      member ∈ archive.index := by
    intro disk among
    unfold forget at among
    split at among
    · exact (List.mem_filter.1 among).1
    · exact among
  cases verdict with
  | missing => exact forgotten _ among
  | corrupt name => exact forgotten _ among
  | _ => exact among

/-- No operation but a spill adds to the index, and a spill adds the name of a record. -/
theorem index_perform (vault : Vault) (chore : Chore) :
    (vault.perform chore).1.root = vault.archive.root ∧ ∀ member ∈ (vault.perform chore).1.index,
      member ∈ vault.archive.index ∨ member.2 = recordName member.1 := by
  cases chore with
  | load key =>
      exact ⟨root_settle _ _ _ _, fun member among => .inl (mem_index_settle among)⟩
  | spill key entry =>
      refine ⟨(vault.archive.spill_frame vault.disk key entry).1, fun member among => ?_⟩
      simp only [perform, spill] at among
      split at among
      · exact .inl among
      · rcases List.mem_append.1 among with before | new
        · exact .inl (List.mem_filter.1 before).1
        · obtain rfl := List.mem_singleton.1 new
          exact .inr rfl
  | remove key =>
      rw [perform, archive_remove]
      exact ⟨rfl, fun member among => .inl (List.mem_filter.1 among).1⟩
  | clear => exact ⟨rfl, List.forall_mem_nil _⟩

theorem Descends.after (descends : Descends root index vault) (chore : Chore) :
    Descends root index (vault.after chore) := by
  obtain ⟨same_root, members⟩ := vault.index_perform chore
  have touches := vault.touches_perform chore
  refine ⟨same_root.trans descends.root, fun member among => ?_, fun path bytes at_index standing => ?_⟩
  · rcases members member among with before | named
    · exact descends.names member before
    · exact .inr named
  · obtain ⟨folder, there, rfl⟩ := at_index
    have before : vault.disk.folderAt vault.archive.root = .ok folder := by
      rw [← same_root]
      exact touches.sameFolders.folderAt_iff.1 there
    rcases touches.writes standing with still | written
    · exact descends.legible _ bytes ⟨folder, before, rfl⟩ still
    · cases written with
      | index written there place text =>
          subst text
          exact Index.legible_write written
      | record kept there place text =>
          obtain ⟨_, names⟩ := List.append_inj' place rfl
          exact absurd (List.singleton_inj.1 names).symm (recordName_ne_indexName _)

theorem Descends.through (descends : Descends root index vault) (chores : List Chore) :
    Descends root index (vault.through chores) := by
  induction chores generalizing vault with
  | nil => exact descends
  | cons chore later induction => exact induction (descends.after chore)

/-- An archive that is opened where the file of the index can be read takes up what it says. -/
theorem descends_of_opened {disk : Disk} {bytes : Bytes} (opens : opened? disk root = some vault)
    (reads : disk.read (root ++ [indexName]) = .ok bytes) (parses : Index.read? bytes = some index) :
    Descends root index vault := by
  unfold opened? at opens
  dsimp only at opens
  split at opens
  · rename_i made
    obtain ⟨middle, _, kept, archive, performed⟩ := establish_reach made
    have recovered : recover ⟨root, []⟩ middle = ⟨(), ⟨root, index⟩, [], []⟩ := by
      simp only [recover, indexState, indexFile, kept bytes reads, parses]
    rw [recovered] at archive performed
    obtain rfl : ⟨⟨root, index⟩, middle⟩ = vault := by
      rw [← Option.some.inj opens, archive, performed]
      rfl
    refine ⟨rfl, fun member among => .inl among, ?_⟩
    rintro path held ⟨folder, there, rfl⟩ standing
    obtain ⟨legal, other, leads, found⟩ :=
      (Disk.read_child_iff (by decide +kernel)).1 (kept bytes reads)
    have found_there := Disk.folderAt_eq_ok_iff.2 ⟨Disk.isLegal_of_append legal, leads⟩
    obtain rfl := Except.ok.inj (there.symm.trans found_there)
    obtain rfl := Node.file.inj (Option.some.inj (standing.symm.trans found))
    exact Index.legible_of_read? parses
  · cases opens

/-! ## What is struck -/

/-- Outside the folder of the records, only the index is struck, and what a name that is no single component
leads to, which was in the file of the index. -/
theorem Descends.within (descends : Descends root index vault) (strikes : vault.Strikes chore path) :
    vault.IsIndex path ∨ vault.InRecords path ∨
      ∃ key name, (chore = .load key ∨ chore = .remove key ∨ chore = .clear) ∧ (key, name) ∈ index ∧
        vault.archive.place name ≠ vault.archive.records ++ [name] ∧ vault.Names name path := by
  rcases strikes.cases with at_index | in_records | ⟨name, deletes, leads⟩
  · exact .inl at_index
  · exact .inr (.inl in_records)
  · by_cases child : vault.archive.place name = vault.archive.records ++ [name]
    · exact .inr (.inl (inRecords_of_place child leads))
    · have no_record : ∀ key, name ≠ recordName key := by
        rintro key rfl
        exact child (place_recordName _ key)
      have taken_up : ∀ key, (key, name) ∈ vault.archive.index → (key, name) ∈ index :=
        fun key listed => (descends.names (key, name) listed).resolve_right (no_record key)
      rcases deletes with looked | ⟨rfl, listed⟩
      · obtain ⟨key, about, indexed⟩ : ∃ key, (chore = .load key ∨ chore = .remove key) ∧
            vault.archive.index.get? key = some name := by
          cases chore with
          | load key => exact ⟨key, .inl rfl, looked⟩
          | spill key entry => exact absurd (Option.some.inj looked).symm (no_record key)
          | remove key =>
              cases indexed : vault.archive.index.get? key with
              | some held =>
                  rw [Chore.name?, indexed, Option.getD_some] at looked
                  exact ⟨key, .inr rfl, indexed.trans looked⟩
              | none =>
                  rw [Chore.name?, indexed, Option.getD_none] at looked
                  exact absurd (Option.some.inj looked).symm (no_record key)
          | clear => cases looked
        have listed := taken_up key (Keyed.mem_of_get? indexed)
        exact .inr (.inr ⟨key, name, about.imp_right .inl, listed, child, leads⟩)
      · obtain ⟨member, among, rfl⟩ := List.mem_map.1 listed
        exact .inr (.inr ⟨member.1, member.2, .inr (.inr rfl), taken_up _ among, child, leads⟩)

/-- What a name leads to can be deleted. -/
theorem deletion_of_names {name : String} (leads : vault.Names name path) :
    vault.disk.deletion (vault.archive.place name) = .ok (.deleteFile path) := by
  rw [Disk.deletion, leads]
  rfl

theorem read_of_names {name : String} {bytes : Bytes} (leads : vault.Names name path)
    (standing : vault.disk.node? path = some (.file bytes)) :
    vault.disk.read (vault.archive.place name) = .ok bytes := by
  obtain ⟨held, located⟩ := Disk.fileAt_eq_ok_iff.1 leads
  have stands : vault.disk.node? path = some (.file held) := Disk.stands_locate located
  obtain rfl := Node.file.inj (Option.some.inj (stands.symm.trans standing))
  exact Disk.read_eq_ok_iff.2 ⟨path, located⟩

/-- A load deletes a record of another key that the index names for its key. -/
theorem mem_load {key name : String} {bytes : Bytes} {entry : Entry}
    (looked : vault.archive.index.get? key = some name) (leads : vault.Names name path)
    (standing : vault.disk.node? path = some (.file bytes)) (read : Entry.read? bytes = some entry)
    (differs : entry.key ≠ key) :
    .deleteFile path ∈ (vault.archive.load vault.disk key).effects := by
  have not_own : Entry.readOwn? key bytes = none := by
    rw [Entry.readOwn?, read, Option.filter_some, if_neg (by simpa using differs)]
  have corrupt : vault.archive.inspect vault.disk key = .corrupt name := by
    simp only [inspect, looked, read_of_names leads standing, not_own]
  simp only [load, corrupt, settle, deletion_of_names leads]
  exact List.mem_cons_self

/-- A spill moves the record that it has written over the file of the record's name. -/
theorem mem_spill {key : String} (entry : Entry) (leads : vault.Names (recordName key) path) :
    ∃ source, .moveFile source path ∈ (vault.archive.spill vault.disk key entry).effects := by
  rw [Names, place_recordName] at leads
  obtain ⟨bytes, located⟩ := Disk.fileAt_eq_ok_iff.1 leads
  obtain ⟨_, folder, there, rfl⟩ := Disk.fileAt_child leads
  refine ⟨folder ++ [Disk.temporaryName (vault.disk.names folder)], ?_⟩
  have replaces : vault.disk.replacement vault.archive.records (recordName key) entry.record =
      .ok (vault.disk.effectsOf ⟨folder, recordName key, some entry.record⟩) := by
    rw [Disk.replacement, there]
    simp only [bind, Except.bind, located]
    rfl
  simp only [spill, replaces]
  refine List.mem_append_left _ ?_
  simp [Disk.effectsOf, Stroke.path, Disk.scratch]

/-- A removal deletes what the name leads to under which the record of its key is looked for. -/
theorem mem_remove {key : String}
    (leads : vault.Names ((vault.archive.index.get? key).getD (recordName key)) path) :
    .deleteFile path ∈ (vault.archive.remove vault.disk key).effects := by
  simp only [remove, deletion_of_names leads]
  split
  · exact List.mem_cons_self
  · exact List.mem_cons_self

/-- A record of another key is struck just when the name leads to it under which the record of the key is
looked for. -/
theorem Descends.strikes_foreign_iff (descends : Descends root index vault)
    (foreign : chore.Foreign vault.disk path) :
    vault.Strikes chore path ↔
      ∃ name, chore.name? vault.archive.index = some name ∧ vault.Names name path := by
  obtain ⟨key, bytes, entry, about, standing, read, differs⟩ := foreign
  constructor
  · intro strikes
    obtain ⟨stroke, deals, rfl⟩ := strikes.deals
    cases deals with
    | saves written there legal free =>
        have legible := descends.legible _ bytes ⟨_, there, rfl⟩ standing
        rw [legible.no_record] at read
        cases read
    | keeps kept there legal free =>
        subst kept
        refine ⟨_, rfl, ?_⟩
        obtain ⟨_, leads⟩ := Disk.folderAt_eq_ok_iff.1 there
        rw [Names, place_recordName, Disk.fileAt_eq_ok_iff]
        refine ⟨bytes, ?_⟩
        have standing : vault.disk.node? (_ ++ [recordName _]) = some (.file bytes) := standing
        rw [Disk.locate_child legal leads (plain_recordName _), Disk.spot, standing]
        rfl
    | deletes deleted gone there =>
        rcases deleted with looked | ⟨rfl, _⟩
        · exact ⟨_, looked, there⟩
        · cases about
  · rintro ⟨name, looked, leads⟩
    refine ⟨⟨bytes, standing⟩, ?_⟩
    cases chore with
    | load asked =>
        obtain rfl := Option.some.inj about
        exact ⟨_, mem_load looked leads standing read differs, List.mem_singleton_self path⟩
    | spill asked kept =>
        obtain rfl := Option.some.inj looked
        obtain ⟨source, moved⟩ := mem_spill kept leads
        exact ⟨_, moved, List.mem_cons_of_mem _ (List.mem_singleton_self path)⟩
    | remove asked =>
        obtain rfl := Option.some.inj looked
        exact ⟨_, mem_remove leads, List.mem_singleton_self path⟩
    | clear => cases about

/-- After an archive has taken up an index from its file and done any operations, the next one deletes or
overwrites only the index, files among the records and, unless it is a spill, what a name that is no single
component leads to, which the file held for its key (for a clearing: for any key). A record of another key
it strikes just when the name leads there under which the record of its own key is looked for. -/
theorem strikes_iff {disk : Disk} {bytes : Bytes} (opens : opened? disk root = some vault)
    (reads : disk.read (root ++ [indexName]) = .ok bytes) (parses : Index.read? bytes = some index)
    (chores : List Chore) (chore : Chore) (path : Path) :
    let held := vault.through chores
    (held.Strikes chore path → held.IsIndex path ∨ held.InRecords path ∨
      ∃ key name, (chore = .load key ∨ chore = .remove key ∨ chore = .clear) ∧ (key, name) ∈ index ∧
        held.archive.place name ≠ held.archive.records ++ [name] ∧ held.Names name path) ∧
    (chore.Foreign held.disk path → (held.Strikes chore path ↔
      ∃ name, chore.name? held.archive.index = some name ∧ held.Names name path)) := by
  have descends := (descends_of_opened opens reads parses).through chores
  exact ⟨descends.within, descends.strikes_foreign_iff⟩

/-! ## A name that leads out -/

/-- An index with a name that leads out of the records. -/
def straying : Index := [("k", "../../notes")]

/-- The record of another key that the name leads to. -/
def notes : Entry := .new "x" [] .epoch

/-- A directory with that index, beside the record. -/
def misled : Disk :=
  ⟨[(["notes"], .file notes.record), (["cache"], .folder), (["cache", "records"], .folder),
    (["cache", "index.json"], .file straying.write)]⟩

/-- The archive after opening, which changes nothing. -/
def mislead : Vault := ⟨⟨["cache"], straying⟩, misled⟩

theorem misled_opened : opened? misled ["cache"] = some mislead := by
  rfl

theorem misled_reads : misled.read (["cache"] ++ [indexName]) = .ok straying.write := by
  rfl

/-- Loading the key deletes a record of another key, which is neither the index nor among the records. -/
theorem load_strikes_elsewhere :
    opened? misled ["cache"] = some mislead ∧
      misled.read (["cache"] ++ [indexName]) = .ok straying.write ∧
      Index.read? straying.write = some straying ∧
      mislead.Strikes (.load "k") ["notes"] ∧ ¬ mislead.IsIndex ["notes"] ∧
      ¬ mislead.InRecords ["notes"] ∧ (Chore.load "k").Foreign mislead.disk ["notes"] := by
  have foreign : (Chore.load "k").Foreign mislead.disk ["notes"] :=
    ⟨"k", notes.record, notes, rfl, rfl, Entry.read?_record Params.durable_empty, by decide⟩
  refine ⟨misled_opened, misled_reads, by rfl, ⟨⟨_, rfl⟩, .deleteFile ["notes"], ?_⟩, ?_, ?_, foreign⟩
  · exact ⟨by decide +kernel, List.mem_singleton_self _⟩
  · rintro ⟨folder, there, place⟩
    have cache : mislead.disk.folderAt mislead.archive.root = .ok ["cache"] := by rfl
    obtain rfl := Except.ok.inj (there.symm.trans cache)
    exact absurd place (by decide)
  · rintro ⟨folder, name, there, place⟩
    have records : mislead.disk.folderAt mislead.archive.records = .ok ["cache", "records"] := by rfl
    obtain rfl := Except.ok.inj (there.symm.trans records)
    exact absurd (congrArg List.length place) (by simp)

/-- Once the key has been spilled, its name is that of its record: a load leaves the other record alone. -/
theorem spill_then_load_spares :
    opened? misled ["cache"] = some mislead ∧
      misled.read (["cache"] ++ [indexName]) = .ok straying.write ∧
      Index.read? straying.write = some straying ∧
      (Chore.load "k").Foreign (mislead.through [.spill "k" notes]).disk ["notes"] ∧
      ¬ (mislead.through [.spill "k" notes]).Strikes (.load "k") ["notes"] := by
  have foreign : (Chore.load "k").Foreign (mislead.through [.spill "k" notes]).disk ["notes"] :=
    ⟨"k", notes.record, notes, rfl, by decide +kernel, Entry.read?_record Params.durable_empty, by decide⟩
  have parses : Index.read? straying.write = some straying := by rfl
  refine ⟨misled_opened, misled_reads, parses, foreign, fun strikes => ?_⟩
  obtain ⟨_, exact_when⟩ :=
    strikes_iff misled_opened misled_reads parses [.spill "k" notes] (.load "k") ["notes"]
  obtain ⟨name, looked, leads⟩ := (exact_when foreign).1 strikes
  have named : (mislead.through [.spill "k" notes]).archive.index.get? "k" = some (recordName "k") := by
    decide +kernel
  obtain rfl := Option.some.inj (named.symm.trans looked)
  have elsewhere : ((mislead.through [.spill "k" notes]).disk.fileAt
      ((mislead.through [.spill "k" notes]).archive.place (recordName "k"))).toOption ≠
        some ["notes"] := by
    decide +kernel
  exact elsewhere (congrArg Except.toOption leads)

end Vault

end TieredCache
