import TieredCache.Proofs.Archive.Operations

/-!
# Repairs that come late

A load looks at a record and repairs what it has found broken in a second step. Other callers may have
written the record anew in between, and the repair does not look again. `Vault.repair_spares_iff` says
when what they have written is spared: only if there was nothing to repair.
-/

namespace TieredCache

open Archive

/-- An archive and its disk. -/
structure Vault where
  archive : Archive
  disk : Disk

/-- An operation on an archive. -/
inductive Deed where
  | spill (entry : Entry)
  | load (key : String)
  | remove (key : String)
  | clear
  | rebuild

namespace Vault

/-- An archive that is opened in a directory, with its disk. -/
def opened? (disk : Disk) (root : Route) : Option Vault :=
  let outcome := establish disk root
  if outcome.answer then some ⟨outcome.archive, disk.perform outcome.effects⟩ else none

/-- Carries out what an operation does. -/
def carryOut {α : Type} (vault : Vault) (outcome : Outcome α) : Vault :=
  ⟨outcome.archive, vault.disk.perform outcome.effects⟩

/-- Does an operation. -/
def act (vault : Vault) : Deed → Vault
  | .spill entry => vault.carryOut (vault.archive.spill vault.disk entry.key entry)
  | .load key => vault.carryOut (vault.archive.load vault.disk key)
  | .remove key => vault.carryOut (vault.archive.remove vault.disk key)
  | .clear => vault.carryOut (vault.archive.clear vault.disk)
  | .rebuild => vault.carryOut (vault.archive.rebuild vault.disk)

/-- Does operations one after another. -/
def actAll (vault : Vault) (deeds : List Deed) : Vault := deeds.foldl act vault

/-- A load, with what other callers do between its look at the record and its repair. -/
def loadAround (vault : Vault) (key : String) (gap : List Deed) : Option Entry × Vault :=
  let verdict := vault.archive.inspect vault.disk key
  let met := vault.actAll gap
  let outcome := met.archive.settle met.disk key verdict
  (outcome.answer, met.carryOut outcome)

/-- A key is indexed, its record is there, and an entry is loaded from it. -/
structure Holds (vault : Vault) (key : String) (entry : Entry) : Prop where
  indexed : vault.archive.contains key = true
  recorded : ∃ name bytes, vault.archive.index.get? key = some name ∧
    vault.disk.read (vault.archive.place name) = .ok bytes
  loaded : (vault.archive.load vault.disk key).answer = some entry

/-- A spilled entry is held, if it survives its record. -/
theorem holds_spill {vault : Vault} {home : Path} (housed : vault.archive.Housed vault.disk home)
    {entry : Entry} (durable : entry.params.Durable)
    (no_folder : vault.disk.node? (recordAt home entry.key) ≠ some .folder)
    (no_index_folder : vault.disk.node? (indexAt home) ≠ some .folder) :
    (vault.act (.spill entry)).Holds entry.key entry.stored := by
  have outcome := housed.spill_eq no_folder no_index_folder
  have rewrites := Rewrites.of_effects vault.disk home entry.key (some entry.record)
    (vault.archive.index.put entry.key (recordName entry.key))
  have housed_after := housed.rewritten rewrites no_folder no_index_folder
  have after : vault.act (.spill entry) =
      ⟨{ vault.archive with index := vault.archive.index.put entry.key (recordName entry.key) },
        vault.disk.perform (vault.disk.effects [recording home entry.key (some entry.record),
          saving home (vault.archive.index.put entry.key (recordName entry.key))])⟩ := by
    simp only [act, carryOut, outcome]
  have indexed : (vault.archive.index.put entry.key (recordName entry.key)).get? entry.key =
      some (recordName entry.key) := by
    rw [Keyed.get?_put, if_pos rfl]
  have read := housed_after.read_record entry.key
  rw [rewrites.here, Option.map_some] at read
  rw [after]
  refine ⟨?_, ⟨_, _, indexed, read⟩, ?_⟩
  · simp [contains, Keyed.has, indexed]
  · rw [answer_load, shelf, indexed, Option.bind_some, read]
    exact Entry.readOwn?_record durable

theorem contains_forget (archive : Archive) (disk : Disk) (key : String) :
    (archive.forget disk key).archive.contains key = false := by
  unfold forget
  split
  · simp [contains, Keyed.has, Keyed.get?_erase]
  · rename_i absent
    simpa using absent

/-- A repair takes the key out of the index, whatever the index leads to by then. -/
theorem contains_settle (archive : Archive) (disk : Disk) (key : String) {verdict : Verdict}
    (purges : verdict.purges = true) :
    (archive.settle disk key verdict).archive.contains key = false := by
  cases verdict with
  | missing => exact contains_forget archive disk key
  | corrupt name => exact contains_forget archive _ key
  | _ => cases purges

theorem load_of_absent {archive : Archive} {disk : Disk} {key : String}
    (absent : archive.contains key = false) : (archive.load disk key).answer = none := by
  rw [answer_load, shelf, Keyed.has_eq_false_iff.1 absent]
  rfl

/-- What other callers have written anew while a load was about to repair a record is spared just when
the load had found nothing to repair. Otherwise the key is no longer indexed, and the next load
misses. -/
theorem repair_spares_iff {vault : Vault} {key : String} {gap : List Deed} {entry : Entry}
    (fresh : (vault.actAll gap).Holds key entry) :
    ((vault.loadAround key gap).2.Holds key entry ↔
        (vault.archive.inspect vault.disk key).purges = false) ∧
      ((vault.archive.inspect vault.disk key).purges = true →
        (vault.loadAround key gap).1 = none ∧
          (vault.loadAround key gap).2.archive.contains key = false ∧
          ((vault.loadAround key gap).2.archive.load (vault.loadAround key gap).2.disk key).answer =
            none) := by
  simp only [loadAround]
  generalize vault.archive.inspect vault.disk key = verdict
  generalize vault.actAll gap = met at fresh
  cases purges : verdict.purges with
  | true =>
      have absent : (met.carryOut (met.archive.settle met.disk key verdict)).archive.contains key =
          false := contains_settle met.archive met.disk key purges
      refine ⟨⟨fun held => ?_, fun never => by cases never⟩,
        fun _ => ⟨?_, absent, load_of_absent absent⟩⟩
      · have indexed := held.indexed
        rw [absent] at indexed
        cases indexed
      · rw [answer_settle]
        cases verdict <;> first | rfl | cases purges
  | false =>
      have untouched : met.carryOut (met.archive.settle met.disk key verdict) = met := by
        cases verdict <;> first | rfl | cases purges
      rw [untouched]
      exact ⟨⟨fun _ => rfl, fun _ => fresh⟩, fun never => by cases never⟩

/-- The key "k" is indexed, and its record is missing. -/
def dangling : Vault where
  archive := ⟨["cache"], [("k", recordName "k")]⟩
  disk := ⟨[(["cache"], .folder), (["cache", "records"], .folder)]⟩

theorem housed_dangling : dangling.archive.Housed dangling.disk ["cache"] where
  leads := Disk.follow_eq_folder.1 rfl
  records := rfl
  legal := isLegal_record rfl (by decide +kernel)

/-- The record is written between the look and the repair, and the repair takes the key out of the
index. -/
theorem repair_of_dangling :
    (dangling.actAll [.spill (.new "k" ["new"] .epoch)]).Holds "k" (.new "k" ["new"] .epoch) ∧
      ¬ (dangling.loadAround "k" [.spill (.new "k" ["new"] .epoch)]).2.Holds "k"
        (.new "k" ["new"] .epoch) := by
  have no_record : dangling.disk.node? (recordAt ["cache"] "k") = none := by
    simp [dangling, recordAt, recordsAt, Disk.node?]
  have unsaved : dangling.disk.node? (indexAt ["cache"]) = none := rfl
  have fresh := @holds_spill dangling ["cache"] housed_dangling (.new "k" ["new"] .epoch)
    Params.durable_empty (by rw [Entry.new, no_record]; simp) (by rw [unsaved]; simp)
  refine ⟨fresh, fun held => ?_⟩
  have spared := (@repair_spares_iff dangling "k" [.spill (.new "k" ["new"] .epoch)] _ fresh).1.1 held
  have purges : (dangling.archive.inspect dangling.disk "k").purges = true := by decide +kernel
  rw [spared] at purges
  cases purges

end Vault

end TieredCache
