import Mathlib
import InfraGraph.FileTree.System
import InfraGraph.Proofs.Path

/-!
# Absolute paths made of names

Every place in a file system has one path that starts at the root and is made of names only.  For
such paths joining, leaving out slashes at the end and going one level up are list operations.
-/

namespace InfraGraph.Path

/-- The path from the root through some names. -/
def absolute (names : List String) : String :=
  "/" ++ unsplit names

section Absolute

variable {names : List String}

theorem absolute_ne_empty (names : List String) : absolute names ≠ "" := by
  intro h
  have hchars := congrArg String.toList h
  simp [absolute] at hchars

theorem isAbsolute_absolute (names : List String) : isAbsolute (absolute names) = true := by
  simp [isAbsolute, absolute]

theorem split_absolute (hne : names ≠ []) (h : ∀ name ∈ names, IsPlain name) :
    split (absolute names) = "" :: names := by
  have hsplit := split_append_slash "" (unsplit names)
  have hempty : split "" = [""] := split_of_not_mem (by simp)
  rw [String.empty_append, hempty, split_unsplit_of_plain hne h] at hsplit
  exact hsplit

theorem exists_split_absolute_append (hne : names ≠ []) (h : ∀ name ∈ names, IsPlain name)
    {ending : String} (hending : ending = "" ∨ ending = "/") :
    ∃ rest, split (absolute names ++ ending) = "" :: (names ++ rest) := by
  rcases hending with rfl | rfl
  · refine ⟨[], ?_⟩
    rw [String.append_empty, split_absolute hne h, List.append_nil]
  · refine ⟨[""], ?_⟩
    have hslash := split_append_slash (absolute names) ""
    have hend : split "" = [""] := split_of_not_mem (by simp)
    rw [String.append_empty, split_absolute hne h, hend] at hslash
    rw [hslash, List.cons_append]

theorem split_absolute_nil : split (absolute []) = ["", ""] := by
  simp [absolute, split]

theorem components_absolute (h : ∀ name ∈ names, IsPlain name) :
    components (absolute names) = "/" :: names := by
  have hkeep : (names.filter fun part => part ≠ "" ∧ part ≠ ".") = names := by
    rw [List.filter_eq_self]
    intro part hpart
    simp [(h part hpart).ne_empty, (h part hpart).ne_dot]
  unfold components
  rw [isAbsolute_absolute, if_pos rfl]
  by_cases hne : names = []
  · rw [hne, split_absolute_nil]
    simp
  · rw [split_absolute hne h, List.filter_cons_of_neg (by simp), hkeep]

theorem parent?_absolute {front : List String} {last : String}
    (h : ∀ name ∈ front ++ [last], IsPlain name) :
    parent? (absolute (front ++ [last])) = some (absolute front) := by
  unfold parent?
  rw [components_absolute h]
  cases front with
  | nil => rfl
  | cons name front =>
      simp only [List.cons_append]
      rw [← List.cons_append, ← List.cons_append, List.dropLast_concat]
      rfl

theorem join_absolute {front : List String} (hfront : ∀ name ∈ front, IsPlain name)
    {path : String} (hpath : isAbsolute path = false) :
    join (absolute front) path =
      if front = [] then "/" ++ path else absolute front ++ "/" ++ path := by
  by_cases hne : front = []
  · subst hne
    simp [join, hpath, absolute]
  · have hend : (absolute front).toList.getLast? ≠ some '/' := by
      have hlast := getLast?_unsplit_ne_slash hne hfront
      have hchars : (unsplit front).toList ≠ [] := by
        simpa using unsplit_ne_empty hne hfront
      rw [absolute, String.toList_append, List.getLast?_append_of_ne_nil _ hchars]
      exact hlast
    simp only [join, hpath, absolute_ne_empty, hend, hne, if_false, Bool.false_eq_true]

/-- A path of names below an absolute path is the absolute path through all names. -/
theorem join_absolute_unsplit {front : List String} (hfront : ∀ name ∈ front, IsPlain name)
    (hne : names ≠ []) (h : ∀ name ∈ names, IsPlain name) :
    join (absolute front) (unsplit names) = absolute (front ++ names) := by
  rw [join_absolute hfront (isAbsolute_unsplit h)]
  by_cases hnil : front = []
  · simp [hnil, absolute]
  · rw [if_neg hnil, absolute, absolute, unsplit_append hnil hne]
    simp [String.append_assoc]

theorem join_absolute_unsplit_slash {front : List String}
    (hfront : ∀ name ∈ front, IsPlain name) (hne : names ≠ []) (h : ∀ name ∈ names, IsPlain name) :
    join (absolute front) (unsplit names ++ "/") = absolute (front ++ names) ++ "/" := by
  have hpath : isAbsolute (unsplit names ++ "/") = false := by
    rw [isAbsolute_append (unsplit_ne_empty hne h), isAbsolute_unsplit h]
  rw [← join_absolute_unsplit hfront hne h, join_absolute hfront hpath,
    join_absolute hfront (isAbsolute_unsplit h)]
  split <;> simp [String.append_assoc]

theorem join_absolute_name {front : List String} (hfront : ∀ name ∈ front, IsPlain name)
    {name : String} (hname : IsPlain name) :
    join (absolute front) name = absolute (front ++ [name]) := by
  have hjoin := join_absolute_unsplit hfront (List.cons_ne_nil name [])
    (List.forall_mem_singleton.2 hname)
  rwa [unsplit_singleton] at hjoin

theorem absolute_concat (front : List String) (name : String) :
    absolute (front ++ [name]) =
      if front = [] then "/" ++ name else absolute front ++ "/" ++ name := by
  by_cases hnil : front = []
  · simp [hnil, absolute]
  · rw [if_neg hnil, absolute, absolute, unsplit_concat hnil]
    simp [String.append_assoc]

/-- A path is no longer than that of a folder above it, the names in between and their slashes. -/
theorem utf8ByteSize_absolute_append (front names : List String) :
    (absolute (front ++ names)).utf8ByteSize ≤
      (absolute front).utf8ByteSize + (names.map fun name => name.utf8ByteSize + 1).sum := by
  induction names generalizing front with
  | nil => simp
  | cons name names ih =>
      have hrest := ih (front ++ [name])
      have hslash : ("/" : String).utf8ByteSize = 1 := by decide
      have hname : (absolute (front ++ [name])).utf8ByteSize ≤
          (absolute front).utf8ByteSize + (name.utf8ByteSize + 1) := by
        rw [absolute_concat front]
        split
        · rw [String.utf8ByteSize_append]
          omega
        · rw [String.utf8ByteSize_append, String.utf8ByteSize_append]
          omega
      rw [List.append_cons, List.map_cons, List.sum_cons]
      omega

theorem toList_absolute_of_mem {name : String} (hname : name ∈ names) {c : Char}
    (hc : c ∈ name.toList) : c ∈ (absolute names).toList := by
  obtain ⟨front, back, rfl⟩ := List.append_of_mem hname
  have hrest : c ∈ (unsplit (name :: back)).toList := by
    by_cases hback : back = []
    · rwa [hback, unsplit_singleton]
    · rw [unsplit_cons hback, String.toList_append, String.toList_append]
      simp [hc]
  rw [absolute, String.toList_append]
  refine List.mem_append_right _ ?_
  by_cases hfront : front = []
  · rwa [hfront]
  · rw [unsplit_append hfront (List.cons_ne_nil _ _), String.toList_append]
    exact List.mem_append_right _ hrest

theorem mem_toList_absolute {c : Char} (h : c ∈ (absolute names).toList) :
    c = '/' ∨ ∃ name ∈ names, c ∈ name.toList := by
  rw [absolute, String.toList_append, List.mem_append] at h
  rcases h with h | h
  · exact .inl (by simpa using h)
  · induction names with
    | nil => simp at h
    | cons name names ih =>
        by_cases hnil : names = []
        · subst hnil
          rw [unsplit_singleton] at h
          exact .inr ⟨name, by simp, h⟩
        · rw [unsplit_cons hnil] at h
          simp only [String.toList_append, List.mem_append] at h
          rcases h with (h | h) | h
          · exact .inr ⟨name, by simp, h⟩
          · exact .inl (by simpa using h)
          · rcases ih h with hslash | ⟨other, hother, hc⟩
            · exact .inl hslash
            · exact .inr ⟨other, by simp [hother], hc⟩

end Absolute

end InfraGraph.Path

namespace InfraGraph.FileSystem

open InfraGraph.Path

theorem withoutTrailingSlashes_append {path : String} {cs : List Char} {c : Char} (hc : c ≠ '/')
    (h : path.toList = cs ++ [c]) :
    withoutTrailingSlashes path = path ∧ withoutTrailingSlashes (path ++ "/") = path := by
  obtain rfl : path = String.ofList (cs ++ [c]) := by rw [← h, String.ofList_toList]
  constructor
  · simp [withoutTrailingSlashes, hc]
  · simp [withoutTrailingSlashes, hc]

/-- Slashes at its end are all that is left out of a path. -/
theorem withoutTrailingSlashes_absolute {names : List String} (hne : names ≠ [])
    (h : ∀ name ∈ names, IsPlain name) :
    withoutTrailingSlashes (absolute names) = absolute names ∧
      withoutTrailingSlashes (absolute names ++ "/") = absolute names := by
  have hchars : (unsplit names).toList ≠ [] := by simpa using unsplit_ne_empty hne h
  have hlast := getLast?_unsplit_ne_slash hne h
  obtain ⟨cs, c, hcs⟩ := (List.eq_nil_or_concat' (unsplit names).toList).resolve_left hchars
  rw [hcs, List.getLast?_concat] at hlast
  refine @withoutTrailingSlashes_append _ ('/' :: cs) c ?_ ?_
  · intro hc
    exact hlast (congrArg some hc)
  · simp [absolute, hcs]

end InfraGraph.FileSystem
