import TieredCache.Entry.Record
import TieredCache.Proofs.Json.RoundTrip

/-!
# What a record keeps

An entry is read back from its record, save for what belongs to the process that wrote it, as soon as
its parameters survive. Parameters without doubles survive if they are not nested too deeply. The key
is found in every record.
-/

namespace TieredCache

open Json

/-! ## Parts of a record -/

theorem string?_pieces (text : String) : (Outline.text (Quoted.pieces text)).string? = some text :=
  Quoted.text?_pieces text

theorem strings?_outlines (texts : List String) :
    (Outline.list (Value.outlines (texts.map .text))).strings? = some texts := by
  induction texts with
  | nil => rfl
  | cons text texts induction =>
      rw [Outline.strings?] at induction ⊢
      rw [List.map_cons, Value.outlines, Value.outline, List.mapM_cons, string?_pieces, induction]
      rfl

theorem Moment.ofOutline?_outline (moment : Moment) :
    Moment.ofOutline? moment.toValue.outline = some moment := by
  have seconds_lt := moment.seconds_lt
  have nanos_lt := moment.nanos_lt
  have seconds : Outline.natural? (2 ^ 64 - 1)
      (.number (Number.numeral (.whole moment.seconds))) = some moment.seconds :=
    Outline.natural?_numeral (by omega)
  have nanos : Outline.natural? (2 ^ 32 - 1)
      (.number (Number.numeral (.whole moment.nanos))) = some moment.nanos :=
    Outline.natural?_numeral (by omega)
  have fields : Fields.ofOutline? fieldNames moment.toValue.outline =
      some [some (.number (Number.numeral (.whole moment.seconds))),
        some (.number (Number.numeral (.whole moment.nanos)))] := by
    simp [Moment.toValue, fieldNames, Value.outline, Value.outlineMembers, Fields.ofOutline?,
      Fields.ofMembers?, Fields.set?]
  have names : Fields.namesOnly fieldNames moment.toValue.outline = true := by
    simp [Moment.toValue, fieldNames, Value.outline, Value.outlineMembers, Fields.namesOnly]
  rw [Moment.ofOutline?, if_pos names, fields]
  simp only [seconds, nanos]
  exact ofParts?_parts moment

theorem Tags.ofOutline?_outline (tags : Tags) :
    Tags.ofOutlineOrNull? tags.toValue.outline = some (some tags) := by
  have read : Tags.ofOutline? tags.toValue.outline = some tags := by
    obtain ⟨shorthand, description⟩ := tags
    cases shorthand <;> cases description <;>
      simp [Tags.ofOutline?, Tags.toValue, Value.outline, Value.outlineMembers, Fields.ofOutline?,
        Fields.ofMembers?, Fields.set?, Outline.stringOrNull?, Outline.string?]
  have object : ∃ members, tags.toValue.outline = .object members := ⟨_, rfl⟩
  obtain ⟨members, object⟩ := object
  rw [object] at read ⊢
  rw [Tags.ofOutlineOrNull?, read]
  · rfl
  · intro null
    cases null

/-! ## Parameters -/

namespace Params

/-- What comes back of the parameters from a record. -/
def reread? (params : Params) : Option Params :=
  (Outline.read? params.toValue.write).bind (ofOutline? 1)

/-- The parameters come back from a record as they were put there. -/
def Durable (params : Params) : Prop := params.reread? = some params

/-- Every number in the parameters is an integer. -/
def Integral (params : Params) : Prop := params.toValue.Integral

theorem reread?_eq (params : Params) : params.reread? = ofOutline? 1 params.toValue.outline := by
  rw [reread?, Value.read?_write]
  rfl

theorem durable_iff (params : Params) :
    params.Durable ↔ ofOutline? 1 params.toValue.outline = some params := by
  rw [Durable, reread?_eq]

theorem ofMembers?_eq {outlines : List (List Piece × Outline)} {members : List (String × Value)}
    (decoded : Value.ofMembers? outlines = some members) (ordered : (Value.object members).Ordered) :
    ofMembers? outlines = some ⟨members, ordered⟩ := by
  unfold ofMembers?
  split
  · rename_i others same
    obtain rfl : others = members := Option.some.inj (same.symm.trans decoded)
    rfl
  · rename_i nothing
    rw [nothing] at decoded
    cases decoded

/-- Parameters without doubles survive a record, if they leave room for one more container. -/
theorem Integral.durable {params : Params} (integral : params.Integral)
    (shallow : params.toValue.depth < maxDepth) : params.Durable := by
  obtain ⟨members, ordered⟩ := params
  have decoded := Value.ofMembers?_outlineMembers ordered.1 ordered.2 integral
  have depth : (Value.object members).outline.depth + 1 ≤ maxDepth := by
    rw [Value.depth_outline]
    exact shallow
  rw [durable_iff]
  unfold ofOutline?
  rw [toValue, if_pos depth]
  exact ofMembers?_eq decoded ordered

theorem durable_empty : empty.Durable :=
  Integral.durable trivial (by decide)

end Params

/-! ## Records -/

namespace Entry

/-- The entry that a record of this entry holds. -/
def stored (entry : Entry) : Entry := { entry with artifacts := [], hydrated := false, stamp := 0 }

theorem fields_outline (entry : Entry) :
    Fields.ofOutline? fieldNames entry.toValue.outline =
      some [some (.text (Quoted.pieces entry.key)),
        some (.list (Value.outlines (entry.paths.map .text))),
        some entry.params.toValue.outline,
        entry.tags.map fun tags => tags.toValue.outline,
        some entry.created.toValue.outline,
        some entry.accessed.toValue.outline,
        some (.number (Number.numeral (.whole entry.count.toNat)))] := by
  cases tags : entry.tags <;>
    simp [Entry.toValue, tags, fieldNames, Value.outline, Value.outlineMembers, Fields.ofOutline?,
      Fields.ofMembers?, Fields.set?]

/-- An entry is read back from its record with what comes back of its parameters. -/
theorem read?_record_eq (entry : Entry) :
    read? entry.record = entry.params.reread?.map fun params => { entry.stored with params } := by
  have count_lt := entry.count.toNat_lt
  have count : Outline.natural? (2 ^ 64 - 1)
      (.number (Number.numeral (.whole entry.count.toNat))) = some entry.count.toNat :=
    Outline.natural?_numeral (by omega)
  have tags : Tags.ofOutlineOrNull? ((entry.tags.map fun tags => tags.toValue.outline).getD .null) =
      some entry.tags := by
    cases entry.tags with
    | none => rfl
    | some tags => exact tags.ofOutline?_outline
  rw [read?, record, Value.read?_write, Option.bind_some, Params.reread?_eq]
  unfold ofOutline?
  rw [fields_outline]
  simp only [string?_pieces, strings?_outlines, Option.map_some, Option.getD_some, tags,
    Moment.ofOutline?_outline, count, Option.bind_eq_bind, Option.bind_some, UInt64.ofNat_toNat]
  cases Params.ofOutline? 1 entry.params.toValue.outline <;> rfl

/-- An entry with durable parameters is read back from its record. -/
theorem read?_record {entry : Entry} (durable : entry.params.Durable) :
    read? entry.record = some entry.stored := by
  have params : entry.params.reread? = some entry.params := durable
  rw [read?_record_eq, params]
  rfl

/-- What is read from a record has the key of what was written. -/
theorem key_of_read?_record {entry later : Entry} (read : read? entry.record = some later) :
    later.key = entry.key := by
  rw [read?_record_eq] at read
  obtain ⟨params, _, rfl⟩ := Option.map_eq_some_iff.1 read
  rfl

theorem readOwn?_record {entry : Entry} (durable : entry.params.Durable) :
    readOwn? entry.key entry.record = some entry.stored := by
  rw [readOwn?, read?_record durable]
  simp [stored]

/-- Whatever is read as an entry of a key has the key. -/
theorem key_of_readOwn? {key : String} {bytes : Bytes} {entry : Entry}
    (read : readOwn? key bytes = some entry) : entry.key = key := by
  have own := (Option.filter_eq_some_iff.1 read).2
  simpa using own

end Entry

/-- The key is found in every record, also in one whose parameters do not survive. -/
theorem embeddedKey?_record (entry : Entry) : embeddedKey? entry.record = some entry.key := by
  have fields : Fields.ofOutline? ["key"] entry.toValue.outline =
      some [some (.text (Quoted.pieces entry.key))] := by
    cases tags : entry.tags <;>
      simp [Entry.toValue, tags, Value.outline, Value.outlineMembers, Fields.ofOutline?,
        Fields.ofMembers?, Fields.set?]
  rw [embeddedKey?, Entry.record, Value.read?_write, Option.bind_some, fields]
  exact string?_pieces entry.key

/-! ## Passing through records -/

/-- What parameters may have become by passing through records. -/
inductive Params.Rereads (origin : Params) : Params → Prop where
  | unread : Rereads origin origin
  | again {params later : Params} (before : Rereads origin params)
      (read : params.reread? = some later) : Rereads origin later

/-- An entry that has come of another one by reads, hydrations and passages through records. -/
structure Entry.Descends (entry origin : Entry) : Prop where
  key : entry.key = origin.key
  paths : entry.paths = origin.paths
  tags : entry.tags = origin.tags
  created : entry.created = origin.created
  params : origin.params.Rereads entry.params

namespace Entry.Descends

variable {entry later origin : Entry}

theorem refl (entry : Entry) : entry.Descends entry := ⟨rfl, rfl, rfl, rfl, .unread⟩

theorem touch (descends : entry.Descends origin) (now : Moment) :
    (entry.touch now).Descends origin :=
  ⟨descends.key, descends.paths, descends.tags, descends.created, descends.params⟩

theorem stored (descends : entry.Descends origin) (same : later.stored = entry.stored) :
    later.Descends origin := by
  have kept : ∀ {α : Type} (field : Entry → α), field later.stored = field entry.stored :=
    fun field => congrArg field same
  have params : later.params = entry.params := kept Entry.params
  refine ⟨(kept Entry.key).trans descends.key, (kept Entry.paths).trans descends.paths,
    (kept Entry.tags).trans descends.tags, (kept Entry.created).trans descends.created, ?_⟩
  rw [params]
  exact descends.params

theorem reread (descends : entry.Descends origin)
    (read : readOwn? entry.key entry.record = some later) : later.Descends origin := by
  have decoded := (Option.filter_eq_some_iff.1 read).1
  rw [read?_record_eq] at decoded
  obtain ⟨params, reread, rfl⟩ := Option.map_eq_some_iff.1 decoded
  exact ⟨descends.key, descends.paths, descends.tags, descends.created,
    descends.params.again reread⟩

end Entry.Descends

end TieredCache
