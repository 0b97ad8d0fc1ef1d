import TieredCache.Proofs.Entry.Records

/-!
# How deep the parameters of a record may be

A writer nests containers without a limit, and a reader keeps at most `maxDepth` of them open. The
object of a record is around its parameters, so these may use one container less. Parameters that use
more are written all the same, and the record is then no entry at all.
-/

namespace TieredCache

open Json

namespace Params

variable {params : Params}

/-- Parameters that leave no room for the object of a record around them are not read. -/
theorem reread?_of_deep (deep : maxDepth ≤ params.toValue.depth) : params.reread? = none := by
  have excess : ¬ params.toValue.outline.depth + 1 ≤ maxDepth := by
    rw [Value.depth_outline]
    omega
  rw [reread?_eq]
  unfold ofOutline?
  exact if_neg excess

/-- Parameters without doubles survive a record exactly if they leave room for its object. -/
theorem Integral.durable_iff_depth (integral : params.Integral) :
    params.Durable ↔ params.toValue.depth < maxDepth := by
  refine ⟨fun durable => Nat.lt_of_not_le fun deep => ?_, integral.durable⟩
  have reread : params.reread? = some params := durable
  rw [reread?_of_deep deep] at reread
  cases reread

end Params

namespace Entry

variable {entry other : Entry}

/-- A record shows nothing of what belongs to the process that wrote it. -/
theorem record_eq_of_stored (same : other.stored = entry.stored) : other.record = entry.record := by
  have same_record : other.stored.record = entry.stored.record := by rw [same]
  exact same_record

/-- An entry is read back from its record exactly if its parameters are. -/
theorem readOwn?_record_iff :
    readOwn? entry.key entry.record = some entry.stored ↔ entry.params.Durable := by
  refine ⟨fun read => ?_, readOwn?_record⟩
  have decoded := (Option.filter_eq_some_iff.1 read).1
  rw [read?_record_eq] at decoded
  obtain ⟨params, reread, same⟩ := Option.map_eq_some_iff.1 decoded
  have unchanged : params = entry.params := congrArg Entry.params same
  rwa [unchanged] at reread

/-- A record whose parameters are not read is no entry of any key. -/
theorem readOwn?_record_of_deep (deep : maxDepth ≤ entry.params.toValue.depth) (key : String) :
    readOwn? key entry.record = none := by
  rw [readOwn?, read?_record_eq, Params.reread?_of_deep deep]
  rfl

/-- A record is an entry of no key but its own. -/
theorem readOwn?_record_of_ne {key : String} (differs : key ≠ entry.key) :
    readOwn? key entry.record = none := by
  refine Option.filter_eq_none_iff.2 fun later read own => differs ?_
  have later_key := key_of_read?_record read
  rw [← later_key]
  exact (beq_iff_eq.1 own).symm

end Entry

/-! ## Lists within lists -/

/-- A number in a number of lists, each the only item of the next. -/
def Json.Value.tower : Nat → Value
  | 0 => .number (.whole 0)
  | height + 1 => .list [tower height]

namespace Json.Value

theorem depth_tower (height : Nat) : (tower height).depth = height := by
  induction height with
  | zero => rfl
  | succ height induction =>
      rw [tower, depth, depthOfItems, depthOfItems, induction]
      omega

theorem ordered_tower (height : Nat) : (tower height).Ordered := by
  induction height with
  | zero => trivial
  | succ height induction => exact ⟨induction, trivial⟩

theorem integral_tower (height : Nat) : (tower height).Integral := by
  induction height with
  | zero => exact (by decide : Number.fits 0 = true)
  | succ height induction => exact ⟨induction, trivial⟩

end Json.Value

/-- Parameters of which one is a tower. -/
def Params.towering (height : Nat) : Params where
  members := [("t", .tower height)]
  ordered := ⟨List.pairwise_singleton _ _, Value.ordered_tower height, trivial⟩

namespace Params

theorem integral_towering (height : Nat) : (towering height).Integral :=
  ⟨Value.integral_tower height, trivial⟩

theorem depth_towering (height : Nat) : (towering height).toValue.depth = height + 1 := by
  rw [toValue, towering, Value.depth, Value.depthOfMembers, Value.depthOfMembers, Value.depth_tower]
  omega

end Params

/-- An entry with a path that comes twice, with empty tags, and with a tower among its parameters. -/
def Entry.towering (height : Nat) : Entry :=
  { Entry.new "k" ["p", "p"] .epoch with
    params := .towering height, tags := some {}, hydrated := true, stamp := 1 }

/-! ## What is kept and what is not -/

namespace Entry

variable {entry : Entry}

/-- What a record keeps of an entry without doubles, and when. It keeps all but what belongs to the
process that wrote it, and that leaves no trace in the record. -/
theorem record_keeps_iff (integral : entry.params.Integral) :
    (readOwn? entry.key entry.record =
        some { entry with artifacts := [], hydrated := false, stamp := 0 } ↔
      entry.params.toValue.depth ≤ 126) ∧
    (126 < entry.params.toValue.depth → readOwn? entry.key entry.record = none) ∧
    (∀ artifacts hydrated stamp,
      { entry with artifacts, hydrated, stamp }.record = entry.record) ∧
    ∀ key, key ≠ entry.key → readOwn? key entry.record = none := by
  refine ⟨?_, fun deep => readOwn?_record_of_deep deep entry.key, fun _ _ _ => ?_,
    fun key => readOwn?_record_of_ne⟩
  · calc readOwn? entry.key entry.record = some entry.stored
      _ ↔ entry.params.Durable := readOwn?_record_iff
      _ ↔ entry.params.toValue.depth < maxDepth := integral.durable_iff_depth
      _ ↔ entry.params.toValue.depth ≤ 126 := Nat.lt_succ_iff
  · exact record_eq_of_stored rfl

/-- Parameters as deep as they may be are kept. One more list around the number, and nothing is. -/
theorem record_keeps_towering :
    (towering 125).params.Integral ∧ (towering 126).params.Integral ∧
      readOwn? "k" (towering 125).record =
        some { towering 125 with artifacts := [], hydrated := false, stamp := 0 } ∧
      readOwn? "k" (towering 126).record = none := by
  have kept := @record_keeps_iff (towering 125) (Params.integral_towering 125)
  have lost := @record_keeps_iff (towering 126) (Params.integral_towering 126)
  refine ⟨Params.integral_towering 125, Params.integral_towering 126, kept.1.2 ?_, lost.2.1 ?_⟩
  · exact Nat.le_of_eq (Params.depth_towering 125)
  · exact Nat.lt_of_lt_of_eq (Nat.lt_succ_self 126) (Params.depth_towering 126).symm

end Entry

end TieredCache
