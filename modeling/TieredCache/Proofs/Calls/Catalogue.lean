import TieredCache.Calls

/-!
# Catalogues

A catalogue is one unbounded map from keys to what callers know of their entries. It has no tiers, no
room to run out of and no disk, and answers the same calls as a cache.
-/

namespace TieredCache

/-- What callers know of an entry, apart from its artifacts. -/
structure Card where
  key : String
  paths : List String
  params : Params
  tags : Option Tags
  created : Moment
  accessed : Moment
  /-- How often the entry has been read, in 64 bits. -/
  count : UInt64

/-- The card of an entry. -/
def Entry.card (entry : Entry) : Card where
  key := entry.key
  paths := entry.paths
  params := entry.params
  tags := entry.tags
  created := entry.created
  accessed := entry.accessed
  count := entry.count

namespace Card

/-- The card of an entry that is made now. -/
def new (key : String) (paths : List String) (params : Params) (now : Moment) : Card where
  key := key
  paths := paths
  params := params
  tags := none
  created := now
  accessed := now
  count := 0

/-- The card after one more read. -/
def read (card : Card) (now : Moment) : Card :=
  { card with accessed := now, count := card.count + 1 }

/-- The card with a shorthand, if it had none and the describer makes one. -/
def filled (describer : Option Describer) (card : Card) : Card :=
  match describer.bind fun describer => describer card.paths with
  | none => card
  | some made =>
    match card.tags with
    | none => { card with tags := some ⟨some made, none⟩ }
    | some ⟨none, description⟩ => { card with tags := some ⟨some made, description⟩ }
    | some ⟨some _, _⟩ => card

end Card

/-- What a reply tells of the entries that a cache holds. -/
inductive Sight where
  | written (card : Card)
  | found (card : Option Card)
  | hydrated (card : Card)
  | removed (held : Bool)
  | cleared
  | rebuilt
  | reset
  | refused (fault : Fault)

/-- What a reply tells of the entries. How they are spread over the tiers is left out. -/
def Reply.sight : Reply → Sight
  | .written entry => .written entry.card
  | .found entry => .found (entry.map Entry.card)
  | .hydrated _ entry => .hydrated entry.card
  | .removed held => .removed held
  | .cleared _ => .cleared
  | .rebuilt _ => .rebuilt
  | .reset => .reset
  | .refused fault => .refused fault

/-- An unbounded map of cards, with a resolver and a describer or without. -/
structure Catalogue where
  resolving : Bool
  describer : Option Describer
  card? : String → Option Card

namespace Catalogue

/-- No cards. -/
def empty (resolving : Bool) (describer : Option Describer) : Catalogue :=
  ⟨resolving, describer, fun _ => none⟩

/-- The catalogue with another card for a key, or with none. -/
def set (catalogue : Catalogue) (key : String) (card : Option Card) : Catalogue :=
  { catalogue with card? := fun asked => if asked = key then card else catalogue.card? asked }

/-- Writes a card under its own key. -/
def write (catalogue : Catalogue) (card : Card) : Sight × Catalogue :=
  if card.key.isEmpty then (.refused .emptyKey, catalogue)
  else
    let card := card.filled catalogue.describer
    (.written card, catalogue.set card.key (some card))

/-- Looks a key up. A card that is not there is made from the given paths, if there is a resolver. -/
def look (catalogue : Catalogue) (request : Request) (now : Moment) : Option Card :=
  match catalogue.card? request.key, request.paths with
  | some card, _ => some (card.read now)
  | none, some paths =>
    if catalogue.resolving then some ((Card.new request.key paths .empty now).read now) else none
  | none, none => none

/-- Answers a call. A catalogue has no tiers that could be cleared apart. -/
def call (catalogue : Catalogue) (now : Moment) : Call → Sight × Catalogue
  | .put key paths params => catalogue.write (.new key paths params now)
  | .putEntry entry => catalogue.write entry.card
  | .get request =>
    if request.key.isEmpty then (.refused .emptyKey, catalogue)
    else
      let card := catalogue.look request now
      (.found card, catalogue.set request.key card)
  | .hydrate entry => (.hydrated entry.card, catalogue)
  | .remove key =>
    if key.isEmpty then (.refused .emptyKey, catalogue)
    else (.removed (catalogue.card? key).isSome, catalogue.set key none)
  | .clear _ => (.cleared, { catalogue with card? := fun _ => none })
  | .rebuildIndex => (.rebuilt, catalogue)
  | .resetTally => (.reset, catalogue)

/-- Answers calls one after another. -/
def calls : Catalogue → List (Call × Moment) → List Sight × Catalogue
  | catalogue, [] => ([], catalogue)
  | catalogue, (made, now) :: later =>
    let (sight, catalogue) := catalogue.call now made
    let (sights, catalogue) := calls catalogue later
    (sight :: sights, catalogue)

end Catalogue

end TieredCache
