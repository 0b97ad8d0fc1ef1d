import TieredCache.Proofs.Archive.Repair
import TieredCache.Proofs.Archive.Sweeping
import TieredCache.Proofs.Lookup.Overlapped

/-!
# Crashes

An operation on an archive may be interrupted after any of its effects. When the archive is opened again,
each key is loaded as before the operation or as after it: the strokes of an operation change different
places, and the file of the index is the last of them.
-/

namespace TieredCache

/-- On a disk that is like one or the other of two disks, a route leads where it leads on both. -/
theorem Disk.Leads.mix {left right mixed : Disk}
    (mixes : ∀ path, mixed.node? path = left.node? path ∨ mixed.node? path = right.node? path)
    {place folder other : Path} {route : Route} (leads : Disk.Leads left place route folder)
    (leads_too : Disk.Leads right place route other) : Disk.Leads mixed place route folder := by
  induction leads with
  | here place => exact .here place
  | stay empty further induction =>
      cases leads_too with
      | stay _ further => exact .stay empty (induction further)
      | up moves => exact absurd empty moves
      | down plain => exact absurd empty (not_or.2 ⟨plain.1, plain.2.1⟩)
  | up moves dots further induction =>
      cases leads_too with
      | stay empty => exact absurd empty moves
      | up _ _ further => exact .up moves dots (induction further)
      | down plain => exact absurd dots plain.2.2.1
  | down plain inside further induction =>
      cases leads_too with
      | stay empty => exact absurd empty (not_or.2 ⟨plain.1, plain.2.1⟩)
      | up _ dots => exact absurd dots plain.2.2.1
      | down _ inside_too further =>
          refine .down plain ?_ (induction further)
          rcases mixes _ with same | same
          · rw [same, inside]
          · rw [same, inside_too]

namespace Archive

variable {known : String → Prop} {archive later : Archive} {disk after middle : Disk} {home : Path}

/-! ## Between two disks -/

/-- A disk between two others is like one of them at each place, and like the second at all places once
the file of the index is that of the second. -/
structure Between (home : Path) (before after middle : Disk) : Prop where
  mixes : ∀ path, middle.node? path = before.node? path ∨ middle.node? path = after.node? path
  index : middle.node? (indexAt home) = before.node? (indexAt home) ∨
    ∀ path, middle.node? path = after.node? path

/-- When the first strokes have taken place, the disk is between that before and that after them all. -/
theorem Proceeds.between {done left : List Stroke} (proceeds : Proceeds home (done ++ left))
    (disk : Disk) : Between home disk (disk.perform (disk.effects (done ++ left)))
      (disk.perform (disk.effects done)) where
  mixes := Disk.node?_between proceeds.distinct
  index := by
    cases left with
    | nil =>
        rw [List.append_nil]
        exact Or.inr fun _ => rfl
    | cons stroke left =>
        refine Or.inl (Disk.node?_effects fun found => ?_)
        obtain ⟨change, among, same⟩ := List.mem_map.1 found
        refine proceeds.last change ?_ same
        rw [List.dropLast_append_cons]
        exact List.mem_append_left _ among

theorem Between.same {other : Disk} (between : Between home disk after middle)
    (same : ∀ path, other.node? path = middle.node? path) : Between home disk after other := by
  refine ⟨fun path => ?_, ?_⟩
  · rw [same]
    exact between.mixes path
  · rw [same]
    refine between.index.imp id fun whole path => ?_
    rw [same, whole]

section Between

variable (tidy : archive.Tidy known disk home) (tidy_after : later.Tidy known after home)
  (between : Between home disk after middle)

include tidy tidy_after between

theorem Between.housed (root : later.root = archive.root) : archive.Housed middle home := by
  have leads_after := tidy_after.leads
  rw [root] at leads_after
  refine ⟨tidy.leads.mix between.mixes leads_after, ?_, tidy.legal⟩
  rcases between.mixes (recordsAt home) with same | same
  · rw [same, tidy.records]
  · rw [same, tidy_after.records]

theorem Between.lasting : Lasting middle home := by
  intro folder among name node standing
  rcases between.mixes (folder ++ [name]) with same | same
  · exact tidy.lasting folder among name node (same ▸ standing)
  · exact tidy_after.lasting folder among name node (same ▸ standing)

theorem Between.filed : Filed middle home := by
  intro name node standing
  rcases between.mixes (recordsAt home ++ [name]) with same | same
  · exact tidy.filed name node (same ▸ standing)
  · exact tidy_after.filed name node (same ▸ standing)

/-- The file of the index holds the index of one of the two, and that of the second only when all is
done. -/
theorem Between.saved : ∃ index : Index, index.keys.Nodup ∧
    middle.node? (indexAt home) = some (.file index.write) ∧
      (index = archive.index ∨
        index = later.index ∧ ∀ path, middle.node? path = after.node? path) := by
  rcases between.index with old | whole
  · exact ⟨archive.index, tidy.distinct, old.trans tidy.saved, Or.inl rfl⟩
  · exact ⟨later.index, tidy_after.distinct, (whole _).trans tidy_after.saved, Or.inr ⟨rfl, whole⟩⟩

omit tidy tidy_after between in
/-- What stands as the record of an indexed key is on its shelf. -/
theorem Housed.shelf_eq (housed : archive.Housed disk home) {key : String} {record : Option Bytes}
    (indexed : archive.index.get? key = some (recordName key))
    (standing : disk.node? (recordAt home key) = record.map .file) :
    archive.shelf disk key = record := by
  rw [shelf, indexed, Option.bind_some, housed.read_record, standing]
  cases record <;> rfl

/-- With the index of that file, each shelf is as before or as after. -/
theorem Between.shelves (distinct : DistinctNames known) (root : later.root = archive.root)
    {index : Index} (found : index = archive.index ∨
      index = later.index ∧ ∀ path, middle.node? path = after.node? path) (key : String) :
    shelf { archive with index } middle key = archive.shelf disk key ∨
      shelf { archive with index } middle key = later.shelf after key := by
  have housed := (between.housed tidy tidy_after root).withIndex index
  rcases found with rfl | ⟨rfl, whole⟩
  · cases indexed : archive.index.get? key with
    | none =>
        refine Or.inl ?_
        rw [shelf, shelf]
        simp only [indexed, Option.bind_none]
    | some name =>
        obtain ⟨key_known, rfl, _⟩ := tidy.indexed key name indexed
        have before := tidy.node?_recordAt distinct key_known
        have behind := tidy_after.node?_recordAt distinct key_known
        rcases between.mixes (recordAt home key) with same | same
        · exact Or.inl (housed.shelf_eq indexed (same.trans before))
        · exact Or.inr (housed.shelf_eq indexed (same.trans behind))
  · refine Or.inr ?_
    cases indexed : later.index.get? key with
    | none =>
        rw [shelf, shelf]
        simp only [indexed, Option.bind_none]
    | some name =>
        obtain ⟨key_known, rfl, _⟩ := tidy_after.indexed key name indexed
        have behind := tidy_after.node?_recordAt distinct key_known
        exact housed.shelf_eq indexed ((whole _).trans behind)

end Between

/-! ## Opening after a crash -/

/-- What is found when an archive is opened again after an operation on it was interrupted. -/
structure Recovered (home : Path) (before opened : Vault) (after : Vault) (done : List Effect) :
    Prop where
  housed : opened.archive.Housed opened.disk home
  root : opened.archive.root = before.archive.root
  lasting : Lasting opened.disk home
  filed : Filed opened.disk home
  saved : opened.disk.node? (indexAt home) = some (.file opened.archive.index.write)
  shelves : ∀ key, opened.archive.shelf opened.disk key = before.archive.shelf before.disk key ∨
    opened.archive.shelf opened.disk key = after.archive.shelf after.disk key
  /-- A file that had been moved into its place is there. -/
  moved : ∀ source target, .moveFile source target ∈ done →
    opened.disk.node? target = after.disk.node? target

/-- An archive on which an operation was interrupted can be opened again. -/
theorem Tidy.recovers (distinct : DistinctNames known) {vault : Vault}
    (tidy : vault.archive.Tidy known vault.disk home) {α : Type} {outcome : Outcome α}
    {shelves : String → Option Bytes}
    (leaves : outcome.Leaves known vault.archive vault.disk home shelves) {done : List Effect}
    (cut : Effect.Cut outcome.effects done) :
    ∃ opened effects,
      establish (vault.disk.perform done) vault.archive.root = ⟨true, opened, effects, []⟩ ∧
        Recovered home vault ⟨opened, (vault.disk.perform done).perform effects⟩
          (vault.carryOut outcome) done := by
  obtain ⟨strokes, effects_eq, proceeds⟩ := leaves.strokes
  have tidy_after := leaves.tidy
  rw [effects_eq] at cut tidy_after
  obtain ⟨before, rest, begun, rfl, rfl, under_way⟩ := Disk.interrupted cut
  have between := proceeds.between vault.disk
  have littered := under_way.littered fun stroke among =>
    proceeds.within stroke (List.mem_append_right before among)
  have moved : ∀ source target, .moveFile source target ∈ vault.disk.effects before ++ begun →
      (vault.disk.perform (vault.disk.effects before)).node? target =
        (vault.disk.perform (vault.disk.effects (before ++ rest))).node? target := by
    intro source target found
    have changed : target ∈ before.map Stroke.path :=
      Disk.mem_of_moveFile ((List.mem_append.1 found).resolve_right (under_way.not_moved _ _))
    have names := proceeds.distinct
    rw [List.map_append] at names
    have not_again : target ∉ rest.map Stroke.path := fun again =>
      (List.nodup_append.1 names).2.2 target changed target again rfl
    rw [Disk.effects_append, Disk.perform_append]
    exact (Disk.node?_effects not_again).symm
  rw [← Disk.perform_append] at littered
  generalize vault.disk.perform (vault.disk.effects before) = clean at between littered moved
  obtain ⟨index, names, saved, source⟩ := between.saved tidy tidy_after
  have housed := (between.housed tidy tidy_after leaves.root).withIndex index
  obtain ⟨effects, establishes, same⟩ := housed.establish_littered
    (between.lasting tidy tidy_after) names saved littered
  have settled := between.same same
  refine ⟨{ vault.archive with index }, effects, establishes, ?_⟩
  constructor
  · exact (settled.housed tidy tidy_after leaves.root).withIndex index
  · rfl
  · exact settled.lasting tidy tidy_after
  · exact settled.filed tidy tidy_after
  · exact (same _).trans saved
  · intro key
    have either := settled.shelves tidy tidy_after distinct leaves.root
      (source.imp id fun ⟨newer, whole⟩ => ⟨newer, fun path => (same path).trans (whole path)⟩) key
    rw [← effects_eq] at either
    exact either
  · intro origin target found
    have there := (same target).trans (moved origin target found)
    rw [← effects_eq] at there
    exact there

end Archive

open Archive

/-! ## Vaults -/

namespace Deed

/-- The key of an operation is a known one. -/
def Knows (known : String → Prop) : Deed → Prop
  | .spill entry => known entry.key
  | .load key => known key
  | .remove key => known key
  | .clear => True
  | .rebuild => True

/-- Whether an operation is about a key. -/
def Touches : Deed → String → Prop
  | .spill entry, key => key = entry.key
  | .load other, key => key = other
  | .remove other, key => key = other
  | .clear, _ => True
  | .rebuild, _ => False

end Deed

namespace Vault

variable {known : String → Prop} {home : Path} {vault : Vault}

/-- What an operation does, but for its answer. -/
def outcome (vault : Vault) : Deed → Outcome Unit
  | .spill entry => vault.archive.spill vault.disk entry.key entry
  | .load key => { vault.archive.load vault.disk key with answer := () }
  | .remove key => { vault.archive.remove vault.disk key with answer := () }
  | .clear => { vault.archive.clear vault.disk with answer := () }
  | .rebuild => { vault.archive.rebuild vault.disk with answer := () }

theorem act_eq (vault : Vault) (deed : Deed) : vault.act deed = vault.carryOut (vault.outcome deed) := by
  cases deed <;> rfl

/-- An operation leaves a tidy archive, and the shelves of the keys that it is not about. -/
theorem leaves_outcome (distinct : DistinctNames known)
    (tidy : vault.archive.Tidy known vault.disk home) {deed : Deed} (knows : deed.Knows known) :
    ∃ shelves, (vault.outcome deed).Leaves known vault.archive vault.disk home shelves ∧
      ∀ key, ¬ deed.Touches key → shelves key = vault.archive.shelf vault.disk key := by
  cases deed with
  | spill entry => exact ⟨_, tidy.spill distinct knows, fun key apart => if_neg apart⟩
  | load key =>
      have proper : (vault.archive.inspect vault.disk key).Proper key := by
        rw [tidy.inspect_eq]
        exact verdictOn_proper key _
      have leaves := tidy.settle distinct knows proper
      refine ⟨_, ⟨leaves.root, leaves.tidy, leaves.shelves, leaves.strokes⟩, fun other apart => ?_⟩
      exact if_neg fun both => apart both.2
  | remove key =>
      obtain ⟨_, leaves⟩ := tidy.remove distinct knows
      exact ⟨_, ⟨leaves.root, leaves.tidy, leaves.shelves, leaves.strokes⟩, fun other apart =>
        if_neg apart⟩
  | clear =>
      have leaves := tidy.clear
      exact ⟨_, ⟨leaves.root, leaves.tidy, leaves.shelves, leaves.strokes⟩, fun other apart =>
        absurd trivial apart⟩
  | rebuild =>
      have leaves := tidy.rebuild
      exact ⟨_, ⟨leaves.root, leaves.tidy, leaves.shelves, leaves.strokes⟩, fun other _ => rfl⟩

/-- What is loaded for a key. -/
def loads (vault : Vault) (key : String) : Option Entry :=
  (vault.archive.load vault.disk key).answer

/-- The archives that come about when nobody else edits their files. An entry is spilled under its own
key, so that every record can be read as that of its key. -/
inductive Reachable (known : String → Prop) (home : Path) : Vault → Prop where
  /-- The archive is opened in an empty directory. -/
  | opened {disk : Disk} {root : Route} {vault : Vault} (vacant : disk.Vacant root home)
      (opens : Vault.opened? disk root = some vault) : Reachable known home vault
  | acted {vault : Vault} (before : Reachable known home vault) {deed : Deed}
      (knows : deed.Knows known) : Reachable known home (vault.act deed)
  /-- The archive is opened again. -/
  | reopened {vault again : Vault} (before : Reachable known home vault)
      (opens : Vault.opened? vault.disk vault.archive.root = some again) : Reachable known home again
  /-- The archive is that of a store. -/
  | stored {store : Store} (reachable : store.Reachable known home) :
      Reachable known home ⟨store.cache.archive, store.disk⟩

theorem Reachable.tidy (distinct : DistinctNames known) (reachable : vault.Reachable known home) :
    vault.archive.Tidy known vault.disk home := by
  induction reachable with
  | @opened disk root vault vacant opens =>
      obtain ⟨answer, _, kept, _⟩ :=
        establish_empty known vacant.leads vacant.legal vacant.empty
      rw [Vault.opened?, if_pos answer] at opens
      obtain rfl := Option.some.inj opens
      exact kept
  | @acted vault before deed knows tidy =>
      obtain ⟨shelves, leaves, _⟩ := leaves_outcome distinct tidy knows
      rw [act_eq]
      exact leaves.tidy
  | @reopened vault again before opens tidy =>
      rw [Vault.opened?, tidy.reopen] at opens
      obtain rfl := Option.some.inj opens
      exact tidy
  | stored reachable => exact (reachable.atRest distinct).tidy.archive

/-- Making the index anew finds every record in the folder. -/
theorem loads_rebuild (housed : vault.archive.Housed vault.disk home) (filed : Filed vault.disk home)
    (no_folder : vault.disk.node? (indexAt home) ≠ some .folder) {entry : Entry}
    (durable : entry.params.Durable)
    (standing : vault.disk.node? (recordAt home entry.key) = some (.file entry.record)) :
    (vault.act .rebuild).loads entry.key = some entry.stored := by
  obtain ⟨index, outcome, catalogs, updates⟩ := housed.rebuild_filed filed no_folder
  have after : vault.act .rebuild = ⟨{ vault.archive with index },
      vault.disk.perform (vault.disk.effectsOf (saving home index))⟩ := by
    simp only [act, carryOut, outcome]
  have indexed : index.get? entry.key = some (recordName entry.key) := by
    rw [catalogs.lookups, standing, owner?_record, if_pos rfl]
  have record := updates.elsewhere (recordAt_ne_indexAt home entry.key)
  rw [standing] at record
  have shelf := @Housed.shelf_eq { vault.archive with index } _ home
    (housed.update updates no_folder index) entry.key (some entry.record) indexed record
  rw [after, loads, answer_load, shelf]
  exact Entry.readOwn?_record durable

/-- When an operation was interrupted after any of its effects, the archive can be opened again. Nothing
is left that was still being written, and each key is loaded as before or as after the operation. An
entry whose record was in its place already is found when the index is made anew. -/
theorem Reachable.crash_consistent (distinct : DistinctNames known)
    (reachable : vault.Reachable known home) {deed : Deed} (knows : deed.Knows known)
    {done : List Effect} (cut : Effect.Cut (vault.outcome deed).effects done) :
    ∃ again, Vault.opened? (vault.disk.perform done) vault.archive.root = some again ∧
      (∀ folder ∈ [vault.archive.root, vault.archive.records], ∃ names,
        again.disk.list folder = .ok names ∧ ∀ name ∈ names, Disk.isTemporary name = false) ∧
      (∀ key, again.loads key = vault.loads key ∨ again.loads key = (vault.act deed).loads key) ∧
      (∀ key, ¬ deed.Touches key → again.loads key = vault.loads key) ∧
      ∀ entry, deed = .spill entry → entry.params.Durable →
        (∃ source, .moveFile source (recordAt home entry.key) ∈ done) →
        (again.act .rebuild).loads entry.key = some entry.stored := by
  have tidy := reachable.tidy distinct
  obtain ⟨shelves, leaves, untouched⟩ := leaves_outcome distinct tidy knows
  obtain ⟨opened, effects, establishes, recovered⟩ := tidy.recovers distinct leaves cut
  rw [← act_eq] at recovered
  generalize again_eq : (⟨opened, (vault.disk.perform done).perform effects⟩ : Vault) = again
    at recovered
  have after_shelves : ∀ key, (vault.act deed).archive.shelf (vault.act deed).disk key =
      shelves key := by
    rw [act_eq]
    exact leaves.shelves
  refine ⟨again, ?_, ?_, fun key => ?_, fun key apart => ?_, ?_⟩
  · rw [Vault.opened?, establishes, ← again_eq]
    rfl
  · intro folder among
    rw [List.mem_cons, List.mem_singleton] at among
    have root := recovered.root
    have records : again.archive.records = vault.archive.records := by
      rw [Archive.records, root, Archive.records]
    rcases among with rfl | rfl
    · rw [← root]
      refine ⟨_, Disk.list_folder recovered.housed.legal_root recovered.housed.leads, ?_⟩
      intro name found
      obtain ⟨node, standing⟩ := Disk.mem_names.1 found
      exact recovered.lasting.root standing
    · rw [← records]
      refine ⟨_, Disk.list_folder recovered.housed.legal_records recovered.housed.leads_records, ?_⟩
      intro name found
      obtain ⟨node, standing⟩ := Disk.mem_names.1 found
      exact recovered.lasting.records standing
  · simp only [loads, answer_load]
    exact (recovered.shelves key).imp (fun same => by rw [same]) fun same => by rw [same]
  · simp only [loads, answer_load]
    rcases recovered.shelves key with same | same
    · rw [same]
    · rw [same, after_shelves, untouched key apart]
  · rintro entry rfl durable ⟨source, moved⟩
    have spilled := tidy.spill distinct knows
    have record := spilled.tidy.node?_recordAt distinct knows
    rw [spilled.shelves, if_pos rfl] at record
    exact loads_rebuild recovered.housed recovered.filed (by rw [recovered.saved]; simp) durable
      ((recovered.moved source _ moved).trans record)

/-- The archive of the small store in which "k" has been evicted. -/
def crowded : Vault := ⟨Store.crowded.cache.archive, Store.crowded.disk⟩

/-- A spill of "x" is interrupted between its record and the index. -/
theorem crash_consistent_crowded :
    let entry := Entry.new "x" ["new"] .epoch
    let done := crowded.disk.effectsOf (recording ["cache"] "x" (some entry.record))
    Effect.Cut (crowded.outcome (.spill entry)).effects done ∧
      ∃ again, Vault.opened? (crowded.disk.perform done) crowded.archive.root = some again ∧
        again.loads "k" = crowded.loads "k" ∧
        (again.act .rebuild).loads "x" = some entry.stored := by
  intro entry done
  have reachable : crowded.Reachable twoKeys ["cache"] := .stored Store.reachable_crowded
  have knows : Deed.Knows twoKeys (.spill entry) := Or.inr rfl
  have tidy := reachable.tidy distinct_twoKeys
  have outcome := tidy.toHoused.spill_eq (tidy.no_folder_recordAt distinct_twoKeys knows)
    (by rw [tidy.saved]; simp)
  have cut : Effect.Cut (crowded.outcome (.spill entry)).effects done := by
    rw [Vault.outcome, outcome]
    exact .between _ _
  obtain ⟨again, opens, _, _, untouched, rebuilt⟩ :=
    reachable.crash_consistent distinct_twoKeys knows cut
  have moved : .moveFile (crowded.disk.scratch (recordsAt ["cache"])) (recordAt ["cache"] "x") ∈ done :=
    List.mem_cons_of_mem _ (List.mem_cons_of_mem _ List.mem_cons_self)
  refine ⟨cut, again, opens, untouched "k" ?_, rebuilt entry rfl Params.durable_empty ⟨_, moved⟩⟩
  change "k" ≠ "x"
  decide

end Vault

end TieredCache
