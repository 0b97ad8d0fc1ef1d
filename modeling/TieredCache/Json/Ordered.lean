import TieredCache.Json.Value

/-!
# Ordered values

The objects of a decoded value hold their keys in ascending order, each once. Two such values are equal
as soon as they hold the same members.
-/

namespace TieredCache.Json.Value

mutual

/-- Every object in a value holds its keys in ascending order. -/
def Ordered : Value → Prop
  | .list items => OrderedItems items
  | .object members => members.Pairwise (fun left right => left.1 < right.1) ∧
      OrderedMembers members
  | _ => True

/-- All items are ordered. -/
def OrderedItems : List Value → Prop
  | [] => True
  | item :: items => item.Ordered ∧ OrderedItems items

/-- The values of all members are ordered. -/
def OrderedMembers : List (String × Value) → Prop
  | [] => True
  | (_, value) :: members => value.Ordered ∧ OrderedMembers members

end

/-- The keys after an insertion are those before it and the new one. -/
theorem fst_mem_insertNew {key : String} {value : Value} {members : List (String × Value)}
    {member : String × Value} (found : member ∈ insertNew key value members) :
    member.1 = key ∨ member ∈ members := by
  induction members with
  | nil =>
      simp only [insertNew, List.mem_singleton] at found
      simp [found]
  | cons head tail induction =>
      obtain ⟨other, held⟩ := head
      rw [insertNew] at found
      split at found
      · rcases List.mem_cons.1 found with rfl | rest
        · exact Or.inl rfl
        · exact Or.inr rest
      · split at found
        · exact Or.inr found
        · rcases List.mem_cons.1 found with rfl | rest
          · exact Or.inr List.mem_cons_self
          · rcases induction rest with same | old
            · exact Or.inl same
            · exact Or.inr (List.mem_cons_of_mem _ old)

/-- Insertion keeps the keys in ascending order. -/
theorem pairwise_insertNew {key : String} {value : Value} {members : List (String × Value)}
    (ascending : members.Pairwise fun left right => left.1 < right.1) :
    (insertNew key value members).Pairwise fun left right => left.1 < right.1 := by
  induction members with
  | nil => simp [insertNew]
  | cons head tail induction =>
      obtain ⟨other, held⟩ := head
      obtain ⟨first, rest⟩ := List.pairwise_cons.1 ascending
      rw [insertNew]
      split
      · rename_i before
        refine List.pairwise_cons.2 ⟨fun member found => ?_, ascending⟩
        rcases List.mem_cons.1 found with rfl | later
        · exact before
        · exact String.lt_trans before (first member later)
      · split
        · exact ascending
        · rename_i not_before different
          have after : other < key := Std.lt_of_le_of_ne not_before (Ne.symm different)
          refine List.pairwise_cons.2 ⟨fun member found => ?_, induction rest⟩
          rcases fst_mem_insertNew found with same | old
          · simpa [same] using after
          · exact first member old

/-- Insertion of an ordered value keeps the values ordered. -/
theorem orderedMembers_insertNew {key : String} {value : Value} {members : List (String × Value)}
    (new : value.Ordered) (old : OrderedMembers members) :
    OrderedMembers (insertNew key value members) := by
  induction members with
  | nil => exact ⟨new, trivial⟩
  | cons head tail induction =>
      obtain ⟨other, held⟩ := head
      obtain ⟨first, rest⟩ := old
      rw [insertNew]
      split
      · exact ⟨new, first, rest⟩
      · split
        · exact ⟨first, rest⟩
        · exact ⟨first, induction rest⟩

mutual

/-- A decoded value is ordered. -/
theorem ordered_of_ofOutline? :
    ∀ {outline : Outline} {value : Value}, ofOutline? outline = some value → value.Ordered
  | .null, _, decoded => by
      simp only [ofOutline?, Option.some.injEq] at decoded
      subst decoded; trivial
  | .truth _, _, decoded => by
      simp only [ofOutline?, Option.some.injEq] at decoded
      subst decoded; trivial
  | .number _, _, decoded => by
      obtain ⟨_, _, rfl⟩ := Option.map_eq_some_iff.1 decoded
      trivial
  | .text _, _, decoded => by
      obtain ⟨_, _, rfl⟩ := Option.map_eq_some_iff.1 decoded
      trivial
  | .list _, _, decoded => by
      obtain ⟨_, items, rfl⟩ := Option.map_eq_some_iff.1 decoded
      exact orderedItems_of_ofItems? items
  | .object _, _, decoded => by
      obtain ⟨_, members, rfl⟩ := Option.map_eq_some_iff.1 decoded
      exact orderedMembers_of_ofMembers? members

/-- Decoded items are ordered. -/
theorem orderedItems_of_ofItems? :
    ∀ {outlines : List Outline} {items : List Value},
      ofItems? outlines = some items → OrderedItems items
  | [], _, decoded => by
      simp only [ofItems?, Option.some.injEq] at decoded
      subst decoded; trivial
  | _ :: _, _, decoded => by
      rw [ofItems?] at decoded
      split at decoded
      · rename_i first rest
        cases decoded
        exact ⟨ordered_of_ofOutline? first, orderedItems_of_ofItems? rest⟩
      · cases decoded

/-- Decoded members are ordered, and so are their values. -/
theorem orderedMembers_of_ofMembers? :
    ∀ {outlines : List (List Piece × Outline)} {members : List (String × Value)},
      ofMembers? outlines = some members →
        members.Pairwise (fun left right => left.1 < right.1) ∧ OrderedMembers members
  | [], _, decoded => by
      simp only [ofMembers?, Option.some.injEq] at decoded
      subst decoded
      exact ⟨List.Pairwise.nil, trivial⟩
  | (_, _) :: _, _, decoded => by
      rw [ofMembers?] at decoded
      split at decoded
      · rename_i value rest
        cases decoded
        obtain ⟨ascending, ordered⟩ := orderedMembers_of_ofMembers? rest
        exact ⟨pairwise_insertNew ascending,
          orderedMembers_insertNew (ordered_of_ofOutline? value) ordered⟩
      · cases decoded

end

end TieredCache.Json.Value
