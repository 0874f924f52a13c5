/-!
# Maps from strings, in ascending order of the keys

The entries of a map are kept in the order of their keys, which is the order of code points.  Two
maps are therefore equal exactly when they hold the same entries, and everything that is written
from a map comes out in one order.
-/

namespace InfraGraph

universe u v

namespace Entries

variable {α : Type u} {β : Type v}

/-- The value of a key in a list of entries. -/
def find? (key : String) : List (String × α) → Option α
  | [] => none
  | (k, a) :: rest => if k = key then some a else find? key rest

/-- Puts an entry in its place among ascending entries, replacing the one with the same key. -/
def insert (key : String) (a : α) : List (String × α) → List (String × α)
  | [] => [(key, a)]
  | (k, b) :: rest =>
    if key < k then (key, a) :: (k, b) :: rest
    else if key = k then (key, a) :: rest
    else (k, b) :: insert key a rest

/-- Removes the entries with a key. -/
def erase (key : String) (entries : List (String × α)) : List (String × α) :=
  entries.filter fun entry => entry.1 ≠ key

/-- The keys of the entries come in strictly ascending order. -/
def Ascending (entries : List (String × α)) : Prop :=
  entries.Pairwise fun a b => a.1 < b.1

theorem mem_insert {key : String} {a : α} {entries : List (String × α)} {x : String × α}
    (h : x ∈ insert key a entries) : x = (key, a) ∨ x ∈ entries := by
  induction entries with
  | nil => simpa [insert] using h
  | cons entry rest ih =>
    unfold insert at h
    split at h
    · simpa using h
    · split at h
      · rcases List.mem_cons.1 h with h | h
        · exact .inl h
        · exact .inr (List.mem_cons_of_mem _ h)
      · rcases List.mem_cons.1 h with h | h
        · exact .inr (h ▸ List.mem_cons_self)
        · exact (ih h).imp_right (List.mem_cons_of_mem _)

theorem Ascending.insert {key : String} {a : α} {entries : List (String × α)}
    (h : Ascending entries) : Ascending (insert key a entries) := by
  induction entries with
  | nil => simp [Entries.insert, Ascending]
  | cons entry rest ih =>
    obtain ⟨head, tail⟩ := List.pairwise_cons.1 h
    unfold Entries.insert
    split
    · rename_i below
      refine List.pairwise_cons.2 ⟨fun x hx => ?_, h⟩
      rcases List.mem_cons.1 hx with rfl | hx
      · exact below
      · exact String.lt_trans below (head x hx)
    · rename_i above
      split
      · rename_i same
        exact List.pairwise_cons.2 ⟨fun x hx => same ▸ head x hx, tail⟩
      · rename_i other
        refine List.pairwise_cons.2 ⟨fun x hx => ?_, ih tail⟩
        rcases mem_insert hx with rfl | hx
        · exact Decidable.byContradiction fun h' =>
            other (String.le_antisymm (String.not_lt.1 h') (String.not_lt.1 above))
        · exact head x hx

theorem Ascending.filter {p : String × α → Bool} {entries : List (String × α)}
    (h : Ascending entries) : Ascending (entries.filter p) :=
  List.Pairwise.filter p h

theorem Ascending.map {f : α → β} {entries : List (String × α)} (h : Ascending entries) :
    Ascending (entries.map fun entry => (entry.1, f entry.2)) :=
  List.Pairwise.map _ (fun _ _ h => h) h

end Entries

/-- A finite map from strings. -/
structure SortedMap (α : Type u) where
  /-- The entries, in ascending order of the keys. -/
  toList : List (String × α)
  /-- No key comes twice, and the order is strict. -/
  ascending : Entries.Ascending toList

namespace SortedMap

variable {α : Type u} {β : Type v}

@[ext]
theorem ext {m n : SortedMap α} (h : m.toList = n.toList) : m = n := by
  cases m; cases n; cases h; rfl

instance [DecidableEq α] : DecidableEq (SortedMap α) := fun m n =>
  decidable_of_iff (m.toList = n.toList) ⟨SortedMap.ext, fun h => h ▸ rfl⟩

instance [Repr α] : Repr (SortedMap α) := ⟨fun m => reprPrec m.toList⟩

/-- The map without entries. -/
def empty : SortedMap α := ⟨[], List.Pairwise.nil⟩

instance : Inhabited (SortedMap α) := ⟨empty⟩

/-- The value of a key. -/
def find? (m : SortedMap α) (key : String) : Option α :=
  Entries.find? key m.toList

/-- Whether a key has a value. -/
def contains (m : SortedMap α) (key : String) : Bool :=
  (m.find? key).isSome

/-- Gives a key a value, in place of the one it had. -/
def insert (m : SortedMap α) (key : String) (a : α) : SortedMap α :=
  ⟨Entries.insert key a m.toList, m.ascending.insert⟩

/-- Takes the value of a key away. -/
def erase (m : SortedMap α) (key : String) : SortedMap α :=
  ⟨Entries.erase key m.toList, m.ascending.filter⟩

/-- Keeps the entries that satisfy a test. -/
def filter (p : String × α → Bool) (m : SortedMap α) : SortedMap α :=
  ⟨m.toList.filter p, m.ascending.filter⟩

/-- Applies a function to every value. -/
def map (f : α → β) (m : SortedMap α) : SortedMap β :=
  ⟨m.toList.map fun entry => (entry.1, f entry.2), m.ascending.map⟩

/-- The map of a list of entries, where the last value of a key counts. -/
def ofList (entries : List (String × α)) : SortedMap α :=
  entries.foldl (fun m entry => m.insert entry.1 entry.2) empty

/-- The keys, in ascending order. -/
def keys (m : SortedMap α) : List String :=
  m.toList.map (·.1)

/-- The values, in the order of their keys. -/
def values (m : SortedMap α) : List α :=
  m.toList.map (·.2)

/-- Whether the map has no entry. -/
def isEmpty (m : SortedMap α) : Bool :=
  m.toList.isEmpty

@[simp] theorem toList_empty : (empty : SortedMap α).toList = [] := rfl

@[simp] theorem find?_empty (key : String) : (empty : SortedMap α).find? key = none := rfl

end SortedMap

end InfraGraph
