import Mathlib.Data.List.Induction
import Mathlib.Data.List.Nodup
import Mathlib.Tactic.Common
import InfraGraph.Proofs.Failure
import InfraGraph.SortedMap

/-!
# What a sorted map holds

A sorted map is determined by what it answers for every key.  The lemmas here say what each
operation answers, so that later proofs never look at the order in which entries are kept.  The
entries of a map made from a list are those of the list as soon as no key comes twice; otherwise the
last entry of a key is the one that counts.
-/

namespace InfraGraph

universe u v

namespace Entries

variable {α : Type u} {β : Type v}

@[simp] theorem find?_nil (key : String) : find? key ([] : List (String × α)) = none := rfl

theorem find?_cons (key k : String) (a : α) (rest : List (String × α)) :
    find? key ((k, a) :: rest) = if k = key then some a else find? key rest := rfl

/-- Only the key that is inserted answers differently afterwards.  The entries need not be in
order for this. -/
theorem find?_insert (key k : String) (a : α) (entries : List (String × α)) :
    find? k (insert key a entries) = if key = k then some a else find? k entries := by
  induction entries with
  | nil => rfl
  | cons entry rest ih =>
      obtain ⟨k', b⟩ := entry
      unfold insert
      split
      · rw [find?_cons]
      · split
        · rename_i _ same
          subst same
          rw [find?_cons, find?_cons]
          split <;> rfl
        · rename_i _ other
          rw [find?_cons, find?_cons, ih]
          by_cases hk : k' = k
          · have hkey : key ≠ k := fun h => other (h.trans hk.symm)
            simp [hk, hkey]
          · simp [hk]

theorem find?_erase (key k : String) (entries : List (String × α)) :
    find? k (erase key entries) = if k = key then none else find? k entries := by
  induction entries with
  | nil => simp [erase]
  | cons entry rest ih =>
      obtain ⟨k', b⟩ := entry
      unfold erase at ih ⊢
      by_cases hkey : k' = key
      · subst hkey
        rw [List.filter_cons_of_neg (by simp), ih, find?_cons]
        by_cases hk : k = k'
        · simp [hk]
        · simp [hk, Ne.symm hk]
      · rw [List.filter_cons_of_pos (by simpa using hkey), find?_cons, find?_cons, ih]
        by_cases hk : k' = k
        · subst hk
          simp [hkey]
        · simp [hk]

theorem mem_of_find? {key : String} {a : α} {entries : List (String × α)}
    (h : find? key entries = some a) : (key, a) ∈ entries := by
  induction entries with
  | nil => simp at h
  | cons entry rest ih =>
      obtain ⟨k, b⟩ := entry
      rw [find?_cons] at h
      split at h
      · rename_i hk
        subst hk
        cases h
        exact List.mem_cons_self
      · exact List.mem_cons_of_mem _ (ih h)

theorem find?_eq_none_iff {key : String} {entries : List (String × α)} :
    find? key entries = none ↔ key ∉ entries.map (·.1) := by
  induction entries with
  | nil => simp
  | cons entry rest ih =>
      obtain ⟨k, b⟩ := entry
      rw [find?_cons]
      by_cases hk : k = key
      · simp [hk]
      · simp [hk, ih, Ne.symm hk]

theorem find?_append (key : String) (front back : List (String × α)) :
    find? key (front ++ back) = (find? key front).or (find? key back) := by
  induction front with
  | nil => rfl
  | cons entry front ih =>
      obtain ⟨k, a⟩ := entry
      rw [List.cons_append, find?_cons, find?_cons, ih]
      split <;> rfl

theorem find?_append_of_not_mem {key : String} {front : List (String × α)}
    (h : key ∉ front.map (·.1)) (back : List (String × α)) :
    find? key (front ++ back) = find? key back := by
  rw [find?_append, find?_eq_none_iff.2 h, Option.none_or]

theorem exists_split_of_find? {key : String} {a : α} {entries : List (String × α)}
    (h : find? key entries = some a) :
    ∃ front back, entries = front ++ (key, a) :: back ∧ key ∉ front.map (·.1) := by
  induction entries with
  | nil => simp at h
  | cons entry rest ih =>
      obtain ⟨k, b⟩ := entry
      rw [find?_cons] at h
      by_cases hk : k = key
      · subst hk
        rw [if_pos rfl, Option.some.injEq] at h
        exact ⟨[], rest, by simp [h], by simp⟩
      · rw [if_neg hk] at h
        obtain ⟨front, back, rfl, hfront⟩ := ih h
        exact ⟨(k, b) :: front, back, rfl, by simpa [Ne.symm hk] using hfront⟩

theorem Ascending.tail {entry : String × α} {rest : List (String × α)}
    (h : Ascending (entry :: rest)) : Ascending rest :=
  (List.pairwise_cons.1 h).2

theorem Ascending.keys_nodup {entries : List (String × α)} (h : Ascending entries) :
    (entries.map (·.1)).Nodup := by
  rw [List.Nodup, List.pairwise_map]
  refine h.imp fun {a b} hab hk => ?_
  rw [hk] at hab
  exact String.lt_irrefl _ hab

/-- Where no key comes twice, the entries of a list are what it answers. -/
theorem find?_eq_some_iff_of_nodup {key : String} {a : α} {entries : List (String × α)}
    (h : (entries.map (·.1)).Nodup) : find? key entries = some a ↔ (key, a) ∈ entries := by
  refine ⟨mem_of_find?, fun hmem => ?_⟩
  induction entries with
  | nil => simp at hmem
  | cons entry rest ih =>
      obtain ⟨k, b⟩ := entry
      rw [List.map_cons, List.nodup_cons] at h
      rw [find?_cons]
      rcases List.mem_cons.1 hmem with heq | hmem
      · cases heq
        simp
      · have hk : k ≠ key := by
          rintro rfl
          exact h.1 (List.mem_map.2 ⟨_, hmem, rfl⟩)
        simp [hk, ih h.2 hmem]

theorem Ascending.find?_eq_some_iff {key : String} {a : α} {entries : List (String × α)}
    (h : Ascending entries) : find? key entries = some a ↔ (key, a) ∈ entries :=
  find?_eq_some_iff_of_nodup h.keys_nodup

/-- Two ascending lists that have the same entries are the same list. -/
theorem Ascending.eq_of_mem_iff {l m : List (String × α)} (hl : Ascending l) (hm : Ascending m)
    (h : ∀ entry, entry ∈ l ↔ entry ∈ m) : l = m := by
  have nodup : ∀ {entries : List (String × α)}, Ascending entries → entries.Nodup :=
    fun h => List.Nodup.of_map _ h.keys_nodup
  have perm : l.Perm m := (List.perm_ext_iff_of_nodup (nodup hl) (nodup hm)).2 h
  refine perm.eq_of_pairwise (fun a b _ _ hab hba => ?_) hl hm
  exact absurd (String.lt_trans hab hba) (String.lt_irrefl _)

theorem find?_map (f : α → β) (key : String) (entries : List (String × α)) :
    find? key (entries.map fun entry => (entry.1, f entry.2)) = (find? key entries).map f := by
  induction entries with
  | nil => rfl
  | cons entry rest ih =>
      obtain ⟨k, a⟩ := entry
      rw [List.map_cons, find?_cons, find?_cons, ih]
      split <;> rfl

end Entries

namespace SortedMap

variable {α : Type u} {β : Type v}

theorem mem_toList_iff {m : SortedMap α} {key : String} {a : α} :
    (key, a) ∈ m.toList ↔ m.find? key = some a :=
  (m.ascending.find?_eq_some_iff).symm

theorem find?_eq_none_iff {m : SortedMap α} {key : String} :
    m.find? key = none ↔ key ∉ m.keys :=
  Entries.find?_eq_none_iff

theorem mem_keys_iff {m : SortedMap α} {key : String} :
    key ∈ m.keys ↔ ∃ a, m.find? key = some a := by
  simp only [keys, List.mem_map]
  constructor
  · rintro ⟨⟨k, a⟩, hmem, rfl⟩
    exact ⟨a, mem_toList_iff.1 hmem⟩
  · rintro ⟨a, h⟩
    exact ⟨(key, a), mem_toList_iff.2 h, rfl⟩

theorem mem_values_iff {m : SortedMap α} {a : α} :
    a ∈ m.values ↔ ∃ key, m.find? key = some a := by
  simp only [values, List.mem_map]
  constructor
  · rintro ⟨⟨k, b⟩, hmem, rfl⟩
    exact ⟨k, mem_toList_iff.1 hmem⟩
  · rintro ⟨key, h⟩
    exact ⟨(key, a), mem_toList_iff.2 h, rfl⟩

theorem keys_nodup (m : SortedMap α) : m.keys.Nodup :=
  m.ascending.keys_nodup

theorem toList_nodup (m : SortedMap α) : m.toList.Nodup :=
  List.Nodup.of_map _ m.keys_nodup

/-- No value comes twice when no two keys have the same one. -/
theorem values_nodup_iff {m : SortedMap α} :
    m.values.Nodup ↔
      ∀ key key' a, m.find? key = some a → m.find? key' = some a → key = key' := by
  constructor
  · intro h key key' a hkey hkey'
    exact (Prod.mk.inj (List.inj_on_of_nodup_map h (mem_toList_iff.2 hkey)
      (mem_toList_iff.2 hkey') rfl)).1
  · intro h
    refine List.Nodup.map_on (fun entry hentry entry' hentry' hvalue => ?_) m.toList_nodup
    obtain ⟨key, a⟩ := entry
    obtain ⟨key', a'⟩ := entry'
    obtain rfl : a = a' := hvalue
    rw [h key key' a (mem_toList_iff.1 hentry) (mem_toList_iff.1 hentry')]

/-- A map is what it answers for every key. -/
theorem ext_find? {m n : SortedMap α} (h : ∀ key, m.find? key = n.find? key) : m = n := by
  refine SortedMap.ext (m.ascending.eq_of_mem_iff n.ascending fun entry => ?_)
  obtain ⟨key, a⟩ := entry
  rw [mem_toList_iff, mem_toList_iff, h]

theorem contains_iff {m : SortedMap α} {key : String} :
    m.contains key = true ↔ ∃ a, m.find? key = some a := by
  rw [contains, Option.isSome_iff_exists]

theorem find?_insert (m : SortedMap α) (key k : String) (a : α) :
    (m.insert key a).find? k = if key = k then some a else m.find? k :=
  Entries.find?_insert key k a m.toList

@[simp] theorem find?_insert_self (m : SortedMap α) (key : String) (a : α) :
    (m.insert key a).find? key = some a := by
  simp [find?_insert]

/-- A new key doesn't change the others. -/
theorem find?_insert_of_find? {m : SortedMap α} {key k : String} (hnone : m.find? key = none)
    (a : α) {b : α} (h : m.find? k = some b) : (m.insert key a).find? k = some b := by
  rw [find?_insert]
  split
  · rename_i hkey
    rw [← hkey, hnone] at h
    cases h
  · exact h

theorem find?_erase (m : SortedMap α) (key k : String) :
    (m.erase key).find? k = if k = key then none else m.find? k :=
  Entries.find?_erase key k m.toList

theorem find?_of_find?_erase {m : SortedMap α} {key k : String} {a : α}
    (h : (m.erase key).find? k = some a) : m.find? k = some a := by
  rw [find?_erase] at h
  split at h
  · cases h
  · exact h

theorem find?_of_find?_filter {p : String × α → Bool} {m : SortedMap α} {key : String} {a : α}
    (h : (m.filter p).find? key = some a) : m.find? key = some a :=
  mem_toList_iff.1 (List.mem_of_mem_filter (mem_toList_iff.2 h))

theorem find?_filter (p : String × α → Bool) (m : SortedMap α) (key : String) :
    (m.filter p).find? key = (m.find? key).filter fun a => p (key, a) := by
  refine Option.ext fun a => ?_
  rw [← mem_toList_iff, Option.filter_eq_some_iff, ← mem_toList_iff]
  exact List.mem_filter

theorem find?_map (f : α → β) (m : SortedMap α) (key : String) :
    (m.map f).find? key = (m.find? key).map f :=
  Entries.find?_map f key m.toList

theorem keys_map (f : α → β) (m : SortedMap α) : (m.map f).keys = m.keys :=
  List.map_map

theorem map_eq_self {f : α → α} {m : SortedMap α} (h : ∀ entry ∈ m.toList, f entry.2 = entry.2) :
    m.map f = m := by
  have hlist : (m.toList.map fun entry => (entry.1, f entry.2)) = m.toList.map id :=
    List.map_congr_left fun entry hentry => Prod.ext rfl (h entry hentry)
  exact SortedMap.ext (hlist.trans (List.map_id _))

/-- Of several entries with a key, the last one counts. -/
theorem find?_ofList (entries : List (String × α)) (key : String) :
    (ofList entries).find? key = Entries.find? key entries.reverse := by
  induction entries using List.reverseRecOn with
  | nil => rfl
  | append_singleton entries entry ih =>
      obtain ⟨k, a⟩ := entry
      have hstep : ofList (entries ++ [(k, a)]) = (ofList entries).insert k a := by
        simp [ofList, List.foldl_append]
      rw [hstep, find?_insert, ih, List.reverse_append, List.reverse_singleton,
        List.singleton_append, Entries.find?_cons]

/-- The entry that counts is the one that no other entry with its key comes behind. -/
theorem find?_ofList_eq_some_iff {entries : List (String × α)} {key : String} {a : α} :
    (ofList entries).find? key = some a ↔
      ∃ front back, entries = front ++ (key, a) :: back ∧ key ∉ back.map (·.1) := by
  rw [find?_ofList]
  constructor
  · intro h
    obtain ⟨back, front, hsplit, hback⟩ := Entries.exists_split_of_find? h
    refine ⟨front.reverse, back.reverse, ?_, by simpa using hback⟩
    rw [← List.reverse_reverse entries, hsplit]
    simp
  · rintro ⟨front, back, rfl, hback⟩
    rw [List.reverse_append, List.reverse_cons, List.append_assoc, List.singleton_append,
      Entries.find?_append_of_not_mem (by simpa using hback), Entries.find?_cons]
    simp

theorem mem_of_find?_ofList {entries : List (String × α)} {key : String} {a : α}
    (h : (ofList entries).find? key = some a) : (key, a) ∈ entries := by
  rw [find?_ofList] at h
  exact List.mem_reverse.1 (Entries.mem_of_find? h)

theorem find?_ofList_of_nodup {entries : List (String × α)} (h : (entries.map (·.1)).Nodup)
    {key : String} {a : α} : (ofList entries).find? key = some a ↔ (key, a) ∈ entries := by
  have hreverse : (entries.reverse.map (·.1)).Nodup := by
    rw [List.map_reverse]
    exact List.nodup_reverse.2 h
  rw [find?_ofList, Entries.find?_eq_some_iff_of_nodup hreverse, List.mem_reverse]

theorem mem_keys_ofList {entries : List (String × α)} {key : String} :
    key ∈ (ofList entries).keys ↔ key ∈ entries.map (·.1) := by
  rw [← not_iff_not, ← find?_eq_none_iff, find?_ofList, Entries.find?_eq_none_iff,
    List.map_reverse, List.mem_reverse]

/-- A map made from a list without repeated keys has the entries of the list. -/
theorem toList_ofList_perm {entries : List (String × α)} (h : (entries.map (·.1)).Nodup) :
    (ofList entries).toList.Perm entries := by
  refine (List.perm_ext_iff_of_nodup (toList_nodup _) (List.Nodup.of_map _ h)).2 fun entry => ?_
  obtain ⟨key, a⟩ := entry
  rw [mem_toList_iff, find?_ofList_of_nodup h]

/-- The order of a list without repeated keys doesn't matter. -/
theorem ofList_eq_of_perm {entries entries' : List (String × α)} (hperm : entries.Perm entries')
    (h : (entries.map (·.1)).Nodup) : ofList entries = ofList entries' := by
  refine ext_find? fun key => Option.ext fun a => ?_
  rw [find?_ofList_of_nodup h, find?_ofList_of_nodup ((hperm.map _).nodup_iff.1 h), hperm.mem_iff]

theorem ofList_toList (m : SortedMap α) : ofList m.toList = m := by
  refine ext_find? fun key => Option.ext fun a => ?_
  rw [find?_ofList_of_nodup m.keys_nodup, mem_toList_iff]

theorem isEmpty_iff {m : SortedMap α} : m.isEmpty = true ↔ m = empty := by
  rw [isEmpty, List.isEmpty_iff]
  exact ⟨fun h => SortedMap.ext h, fun h => h ▸ rfl⟩

/-! ### Filling a map -/

/-- A map with some more entries, where the last value of a key counts. -/
def insertAll (m : SortedMap α) (entries : List (String × α)) : SortedMap α :=
  entries.foldl (fun m entry => m.insert entry.1 entry.2) m

theorem insertAll_append (m : SortedMap α) (front back : List (String × α)) :
    m.insertAll (front ++ back) = (m.insertAll front).insertAll back :=
  List.foldl_append

theorem mem_keys_insert {m : SortedMap α} {key k : String} {a : α} :
    k ∈ (m.insert key a).keys ↔ k = key ∨ k ∈ m.keys := by
  rw [mem_keys_iff, mem_keys_iff, find?_insert]
  by_cases h : key = k
  · simp [h]
  · simp [h, Ne.symm h]

/-- Entries with new keys, of which none comes twice, are all there afterwards, and so are those
that were there before. -/
theorem find?_insertAll {m : SortedMap α} {entries : List (String × α)}
    (hnodup : (entries.map (·.1)).Nodup) (hnew : ∀ entry ∈ entries, entry.1 ∉ m.keys)
    {key : String} {a : α} :
    (m.insertAll entries).find? key = some a ↔ m.find? key = some a ∨ (key, a) ∈ entries := by
  induction entries generalizing m with
  | nil => simp [insertAll]
  | cons entry rest ih =>
      obtain ⟨k, b⟩ := entry
      rw [List.map_cons, List.nodup_cons] at hnodup
      rw [List.forall_mem_cons] at hnew
      have hrest : ∀ entry ∈ rest, entry.1 ∉ (m.insert k b).keys := by
        intro entry hentry hmem
        rcases mem_keys_insert.1 hmem with hk | hmem
        · exact hnodup.1 (List.mem_map.2 ⟨entry, hentry, hk⟩)
        · exact hnew.2 entry hentry hmem
      rw [insertAll, List.foldl_cons, ← insertAll, ih hnodup.2 hrest, find?_insert, List.mem_cons]
      by_cases hk : k = key
      · have hnone : m.find? key = none := find?_eq_none_iff.2 (hk ▸ hnew.1)
        simp [hk, hnone, eq_comm]
      · simp [hk, Ne.symm hk]

/-- Steps that each insert an entry, which has to be acceptable and to have a new key, all succeed
exactly when the entries are acceptable, new and different from each other. -/
theorem foldlM_eq_ok_iff_insertAll {ε : Type v} {γ : Type u} {f : SortedMap α → γ →
    Except ε (SortedMap α)} {entry : γ → String × α} {IsAcceptable : γ → Prop}
    (hstep : ∀ (m : SortedMap α) c result, f m c = .ok result ↔
      IsAcceptable c ∧ (entry c).1 ∉ m.keys ∧ result = m.insert (entry c).1 (entry c).2)
    {l : List γ} {m result : SortedMap α} :
    l.foldlM f m = .ok result ↔
      (∀ c ∈ l, IsAcceptable c) ∧ (l.map fun c => (entry c).1).Nodup ∧
        (∀ c ∈ l, (entry c).1 ∉ m.keys) ∧ result = m.insertAll (l.map entry) := by
  induction l generalizing m with
  | nil =>
      simp only [List.foldlM_nil, pure, Except.pure, Except.ok.injEq]
      exact ⟨fun h => ⟨by simp, by simp, by simp, h.symm⟩, fun h => h.2.2.2.symm⟩
  | cons c rest ih =>
      rw [List.foldlM_cons, bind_eq_ok_iff, List.forall_mem_cons, List.forall_mem_cons,
        List.map_cons, List.nodup_cons]
      constructor
      · rintro ⟨next, hfirst, hrest⟩
        obtain ⟨hacceptable, hnew, rfl⟩ := (hstep m c next).1 hfirst
        obtain ⟨hall, hnodup, hfresh, rfl⟩ := ih.1 hrest
        simp only [mem_keys_insert, not_or] at hfresh
        refine ⟨⟨hacceptable, hall⟩, ⟨fun hmem => ?_, hnodup⟩,
          ⟨hnew, fun d hd => (hfresh d hd).2⟩, rfl⟩
        obtain ⟨d, hd, hkey⟩ := List.mem_map.1 hmem
        exact (hfresh d hd).1 hkey
      · rintro ⟨⟨hacceptable, hall⟩, ⟨hrepeat, hnodup⟩, ⟨hnew, hfresh⟩, rfl⟩
        refine ⟨_, (hstep m c _).2 ⟨hacceptable, hnew, rfl⟩, ih.2 ⟨hall, hnodup, ?_, rfl⟩⟩
        intro d hd
        rw [mem_keys_insert, not_or]
        exact ⟨fun hkey => hrepeat (List.mem_map.2 ⟨d, hd, hkey⟩), hfresh d hd⟩

end SortedMap

end InfraGraph
