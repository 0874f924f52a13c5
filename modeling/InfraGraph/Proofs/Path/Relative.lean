import InfraGraph.Proofs.Path

/-!
# Relative paths

The path of a target as seen from a source leads out of the parts that aren't shared and then down
to the target.  Walking it from the source takes away exactly the parts that were left and adds
exactly those that were missing, so it ends at the target.

No other path to the target leads up less often.  A `..` takes at most one part off the stack, so
of the source all parts but as many as there are `..` stay at the front of what results; if that is
the target, they are shared.
-/

namespace InfraGraph.Path

/-- How often a path leads one level up. -/
def levelsUp (path : String) : Nat :=
  (split path).count ".."

/-- Two lists start with the same elements, and with no more than these. -/
structure IsLongestShared (shared a b : List String) : Prop where
  left : shared <+: a
  right : shared <+: b
  longest : ∀ other, other <+: a → other <+: b → other.length ≤ shared.length

/-! ### Cleaning with a stack -/

/-- A name is put on the stack. -/
theorem cleanParts_plain (rooted : Bool) {names : List String} (kept rest : List String)
    (h : ∀ name ∈ names, IsPlain name) :
    cleanParts rooted kept (names ++ rest) = cleanParts rooted (names.reverse ++ kept) rest := by
  induction names generalizing kept with
  | nil => rfl
  | cons name names ih =>
      have hname : IsPlain name := h name (by simp)
      have hstep : cleanParts rooted kept (name :: (names ++ rest)) =
          cleanParts rooted (name :: kept) (names ++ rest) := by
        simp [cleanParts, hname.ne_empty, hname.ne_dot, hname.ne_dotDot]
      rw [List.cons_append, hstep, ih _ fun n hn => h n (List.mem_cons_of_mem _ hn)]
      simp

/-- Each `..` takes one name off the stack. -/
theorem cleanParts_dotDot (rooted : Bool) {names : List String} (kept rest : List String)
    (h : ∀ name ∈ names, IsPlain name) :
    cleanParts rooted (names ++ kept) (List.replicate names.length ".." ++ rest) =
      cleanParts rooted kept rest := by
  induction names with
  | nil => rfl
  | cons name names ih =>
      have hname : IsPlain name := h name (by simp)
      have hstep : cleanParts rooted (name :: (names ++ kept))
          (".." :: (List.replicate names.length ".." ++ rest)) =
            cleanParts rooted (names ++ kept) (List.replicate names.length ".." ++ rest) := by
        simp [cleanParts, hname.ne_dotDot]
      rw [List.cons_append, List.length_cons, List.replicate_succ, List.cons_append, hstep]
      exact ih fun n hn => h n (List.mem_cons_of_mem _ hn)

/-- Putting one more part on the stack leaves no less of what lies below it. -/
theorem exists_drop_of_cons {part : String} {kept result : List String} {n : Nat}
    (h : ∃ k ≤ n, ((part :: kept).drop k).reverse <+: result) :
    ∃ k ≤ n, (kept.drop k).reverse <+: result := by
  obtain ⟨k, hk, hfront⟩ := h
  cases k with
  | zero =>
      refine ⟨0, hk, List.IsPrefix.trans ?_ hfront⟩
      rw [List.drop_zero, List.drop_zero, List.reverse_cons]
      exact List.prefix_append _ _
  | succ k => exact ⟨k, Nat.le_of_succ_le hk, hfront⟩

/-- No more parts than there are `..` are taken off the stack; the others stay in front. -/
theorem exists_drop_cleanParts (rooted : Bool) (kept parts : List String) :
    ∃ k ≤ parts.count "..", (kept.drop k).reverse <+: cleanParts rooted kept parts := by
  induction parts generalizing kept with
  | nil => exact ⟨0, Nat.zero_le _, List.prefix_rfl⟩
  | cons part rest ih =>
      unfold cleanParts
      split
      · obtain ⟨k, hk, hfront⟩ := ih kept
        exact ⟨k, Nat.le_trans hk List.count_le_count_cons, hfront⟩
      · split
        · rename_i hup
          subst hup
          rw [List.count_cons_self]
          cases kept with
          | nil => exact ⟨0, Nat.zero_le _, List.nil_prefix⟩
          | cons top under =>
              by_cases hup : top = ".."
              · obtain ⟨k, hk, hfront⟩ := exists_drop_of_cons (ih (".." :: top :: under))
                simp only [hup, if_true] at hfront ⊢
                exact ⟨k, Nat.le_succ_of_le hk, hfront⟩
              · obtain ⟨k, hk, hfront⟩ := ih under
                simp only [hup, if_false]
                exact ⟨k + 1, Nat.succ_le_succ hk, hfront⟩
        · obtain ⟨k, hk, hfront⟩ := exists_drop_of_cons (ih (part :: kept))
          exact ⟨k, Nat.le_trans hk List.count_le_count_cons, hfront⟩

/-- Nothing but names and `..` is left. -/
theorem isStep_cleanParts {rooted : Bool} {kept parts : List String}
    (hkept : ∀ part ∈ kept, IsStep part) (hparts : ∀ part ∈ parts, '/' ∉ part.toList) :
    ∀ part ∈ cleanParts rooted kept parts, IsStep part := by
  induction parts generalizing kept with
  | nil =>
      intro part hpart
      exact hkept part (List.mem_reverse.1 hpart)
  | cons part rest ih =>
      rw [List.forall_mem_cons] at hparts
      unfold cleanParts
      split
      · exact ih hkept hparts.2
      · rename_i hne
        rw [not_or] at hne
        split
        · cases kept with
          | nil =>
              refine ih ?_ hparts.2
              split
              · exact fun _ h => absurd h List.not_mem_nil
              · exact List.forall_mem_singleton.2 isStep_dotDot
          | cons top under =>
              dsimp only
              split
              · exact ih (List.forall_mem_cons.2 ⟨isStep_dotDot, hkept⟩) hparts.2
              · exact ih (List.forall_mem_cons.1 hkept).2 hparts.2
        · exact ih (List.forall_mem_cons.2 ⟨⟨hne.1, hne.2, hparts.1⟩, hkept⟩) hparts.2

/-! ### The shared part of two paths -/

theorem take_commonLength (a b : List String) :
    a.take (commonLength a b) = b.take (commonLength a b) := by
  induction a generalizing b with
  | nil => simp [commonLength]
  | cons x a ih =>
      cases b with
      | nil => simp [commonLength]
      | cons y b =>
          unfold commonLength
          split
          · rename_i hxy
            simp [hxy, ih b]
          · rfl

theorem length_le_commonLength {shared a b : List String} (ha : shared <+: a) (hb : shared <+: b) :
    shared.length ≤ commonLength a b := by
  induction shared generalizing a b with
  | nil => exact Nat.zero_le _
  | cons x shared ih =>
      obtain ⟨resta, rfl⟩ := ha
      obtain ⟨restb, rfl⟩ := hb
      rw [List.cons_append, List.cons_append, commonLength, if_pos rfl]
      exact Nat.succ_le_succ (ih (List.prefix_append _ _) (List.prefix_append _ _))

theorem commonLength_le_length (a b : List String) : commonLength a b ≤ a.length := by
  induction a generalizing b with
  | nil => simp [commonLength]
  | cons x a ih =>
      cases b with
      | nil => simp [commonLength]
      | cons y b =>
          unfold commonLength
          split
          · exact Nat.succ_le_succ (ih b)
          · exact Nat.zero_le _

theorem length_take_commonLength (a b : List String) :
    (a.take (commonLength a b)).length = commonLength a b :=
  List.length_take_of_le (commonLength_le_length a b)

theorem isLongestShared_take (a b : List String) :
    IsLongestShared (a.take (commonLength a b)) a b where
  left := List.take_prefix _ _
  right := take_commonLength a b ▸ List.take_prefix _ _
  longest other ha hb := by
    rw [length_take_commonLength]
    exact length_le_commonLength ha hb

/-- The parts of the path that leads from one directory to another one. -/
def steps (source target : List String) : List String :=
  List.replicate (source.length - commonLength source target) ".." ++
    target.drop (commonLength source target)

theorem mem_steps {source target : List String} {part : String}
    (h : part ∈ steps source target) : part = ".." ∨ part ∈ target := by
  rcases List.mem_append.1 h with h | h
  · exact .inl (List.eq_of_mem_replicate h)
  · exact .inr (List.mem_of_mem_drop h)

/-- Walking the steps with the source on the stack ends with the target on it. -/
theorem cleanParts_steps {source target : List String} (hs : ∀ part ∈ source, IsPlain part)
    (ht : ∀ part ∈ target, IsPlain part) :
    cleanParts false source.reverse (steps source target) = target := by
  let shared := commonLength source target
  have hleft : source.reverse =
      (source.drop shared).reverse ++ (source.take shared).reverse := by
    rw [← List.reverse_append, List.take_append_drop]
  have hcount : source.length - shared = (source.drop shared).reverse.length := by simp
  have hdown : cleanParts false (target.take shared).reverse (target.drop shared) = target := by
    have hdrop : ∀ part ∈ target.drop shared, IsPlain part :=
      fun part hpart => ht part (List.mem_of_mem_drop hpart)
    have h := cleanParts_plain false (target.take shared).reverse [] hdrop
    rw [List.append_nil] at h
    rw [h, cleanParts, List.reverse_append, List.reverse_reverse, List.reverse_reverse,
      List.take_append_drop]
  calc cleanParts false source.reverse (steps source target)
      = cleanParts false (source.take shared).reverse (target.drop shared) := by
        rw [hleft, steps, hcount]
        exact cleanParts_dotDot false _ _ fun part hpart =>
          hs part (List.mem_of_mem_drop (List.mem_reverse.1 hpart))
    _ = target := by rw [take_commonLength, hdown]

theorem count_steps {source target : List String} (ht : ∀ part ∈ target, IsPlain part) :
    (steps source target).count ".." = source.length - commonLength source target := by
  have hdown : (target.drop (commonLength source target)).count ".." = 0 :=
    List.count_eq_zero.2 fun hmem => (ht ".." (List.mem_of_mem_drop hmem)).ne_dotDot rfl
  rw [steps, List.count_append, List.count_replicate_self, hdown, Nat.add_zero]

/-! ### The relative path -/

section Relative

variable {source target : List String}

theorem filter_split_unsplit {parts : List String} (h : ∀ part ∈ parts, IsPlain part) :
    ((split (unsplit parts)).filter fun part => part ≠ "") = parts := by
  by_cases hne : parts = []
  · simp [hne, split]
  · rw [split_unsplit_of_plain hne h, List.filter_eq_self]
    intro part hpart
    simpa using (h part hpart).ne_empty

theorem relative_unsplit (hs : ∀ part ∈ source, IsPlain part) (ht : ∀ part ∈ target, IsPlain part) :
    relative (unsplit source) (unsplit target) =
      if steps source target = [] then "." else unsplit (steps source target) := by
  simp only [relative, filter_split_unsplit hs, filter_split_unsplit ht]
  rfl

theorem isStep_steps (ht : ∀ part ∈ target, IsPlain part) :
    ∀ part ∈ steps source target, IsStep part := by
  intro part hpart
  rcases mem_steps hpart with rfl | hpart
  · exact isStep_dotDot
  · exact (ht part hpart).isStep

theorem split_relative (hs : ∀ part ∈ source, IsPlain part) (ht : ∀ part ∈ target, IsPlain part) :
    split (relative (unsplit source) (unsplit target)) =
      if steps source target = [] then ["."] else steps source target := by
  rw [relative_unsplit hs ht]
  split
  · exact split_of_not_mem (by simp)
  · rename_i hne
    exact split_unsplit hne fun part hpart => (isStep_steps ht part hpart).no_slash

theorem isAbsolute_relative (hs : ∀ part ∈ source, IsPlain part)
    (ht : ∀ part ∈ target, IsPlain part) :
    isAbsolute (relative (unsplit source) (unsplit target)) = false := by
  rw [relative_unsplit hs ht]
  split
  · simp [isAbsolute]
  · rename_i hne
    obtain ⟨part, rest, hcons⟩ := List.exists_cons_of_ne_nil hne
    have hmem : part ∈ steps source target := by simp [hcons]
    have hpart : IsStep part := isStep_steps ht part hmem
    rw [hcons]
    exact isAbsolute_unsplit_cons rest hpart.ne_empty hpart.no_slash

theorem levelsUp_relative (hs : ∀ part ∈ source, IsPlain part)
    (ht : ∀ part ∈ target, IsPlain part) :
    levelsUp (relative (unsplit source) (unsplit target)) =
      source.length - commonLength source target := by
  rw [← count_steps ht, levelsUp, split_relative hs ht]
  split
  · rename_i hnil
    rw [hnil]
    rfl
  · rfl

/-! ### Walking a path from a directory -/

theorem isStep_left {path : String} (hs : ∀ part ∈ source, IsPlain part) {left : List String}
    (hleft : cleanParts false source.reverse (split path) = left) :
    ∀ part ∈ left, IsStep part := by
  rw [← hleft]
  exact isStep_cleanParts (fun part hpart => (hs part (List.mem_reverse.1 hpart)).isStep)
    fun part hpart => slash_not_mem_of_mem_split hpart

/-- A path that doesn't start at the root is walked with the directory on the stack. -/
theorem resolve_unsplit {path : String} (hne : source ≠ []) (hs : ∀ part ∈ source, IsPlain part)
    (hpath : isAbsolute path = false) {left : List String}
    (hleft : cleanParts false source.reverse (split path) = left) :
    resolve (unsplit source) path = if left = [] then "." else unsplit left := by
  have hempty : unsplit source ≠ "" := unsplit_ne_empty hne hs
  have hend := getLast?_unsplit_ne_slash hne hs
  have hjoin : join (unsplit source) path = unsplit source ++ "/" ++ path := by
    simp [join, hpath, hempty, hend]
  have habsolute : isAbsolute (unsplit source ++ "/" ++ path) = false := by
    rw [String.append_assoc, isAbsolute_append hempty, isAbsolute_unsplit hs]
  have hclean : clean (join (unsplit source) path) =
      if unsplit left = "" then "." else unsplit left := by
    have hstack := cleanParts_plain false [] (split path) hs
    rw [List.append_nil, hleft] at hstack
    simp only [clean, hjoin, habsolute, split_append_slash, split_unsplit_of_plain hne hs, hstack,
      Bool.false_eq_true, if_false]
  rw [resolve, hclean]
  by_cases hnil : left = []
  · simp [hnil]
  · have hcomponents := components_unsplit_of_isStep hnil (isStep_left hs hleft)
    have hkept : unsplit left ≠ "" := by
      intro hkept
      rw [hkept, components_empty] at hcomponents
      exact hnil hcomponents.symm
    rw [if_neg hkept, if_neg hnil, hcomponents]

/-- A path that starts at the root leads to one that does. -/
theorem isAbsolute_resolve {path : String} (base : String) (hpath : isAbsolute path = true) :
    isAbsolute (resolve base path) = true := by
  have hjoin : join base path = path := by simp [join, hpath]
  have hclean : isAbsolute (clean path) = true := by
    simp only [clean, hpath, if_true]
    simp [isAbsolute]
  rw [resolve, hjoin, components, if_pos hclean]
  generalize (split (clean path)).filter _ = names
  by_cases hnil : names = []
  · simp [hnil, isAbsolute]
  · simp [unsplit_cons hnil, isAbsolute]

/-- Seen from the source, the relative path leads to the target again. -/
theorem resolve_relative (hsne : source ≠ []) (htne : target ≠ [])
    (hs : ∀ part ∈ source, IsPlain part) (ht : ∀ part ∈ target, IsPlain part) :
    resolve (unsplit source) (relative (unsplit source) (unsplit target)) = unsplit target := by
  have hwalk : cleanParts false source.reverse
      (split (relative (unsplit source) (unsplit target))) = target := by
    have hsteps := cleanParts_steps hs ht
    rw [split_relative hs ht]
    split
    · rename_i hnil
      rw [hnil] at hsteps
      simpa [cleanParts] using hsteps
    · exact hsteps
  rw [resolve_unsplit hsne hs (isAbsolute_relative hs ht) hwalk, if_neg htne]

/-- Every path from the source to the target leads out of the parts that aren't shared. -/
theorem le_levelsUp_of_resolve {path : String} (hsne : source ≠ [])
    (hs : ∀ part ∈ source, IsPlain part) (ht : ∀ part ∈ target, IsPlain part)
    (h : resolve (unsplit source) path = unsplit target) :
    source.length - commonLength source target ≤ levelsUp path := by
  have hpath : isAbsolute path = false := by
    rw [Bool.eq_false_iff]
    intro hroot
    have habsolute := isAbsolute_resolve (unsplit source) hroot
    rw [h, isAbsolute_unsplit ht] at habsolute
    cases habsolute
  obtain ⟨k, hk, hfront⟩ := exists_drop_cleanParts false source.reverse (split path)
  generalize hleft : cleanParts false source.reverse (split path) = left at hfront
  have hresolve := resolve_unsplit hsne hs hpath hleft
  rw [h] at hresolve
  have hend : target = if left = [] then ["."] else left := by
    rw [← components_unsplit ht, hresolve]
    split
    · exact components_dot
    · rename_i hne
      exact components_unsplit_of_isStep hne (isStep_left hs hleft)
  have hne : left ≠ [] := by
    intro hnil
    rw [if_pos hnil] at hend
    exact (ht "." (by simp [hend])).ne_dot rfl
  rw [if_neg hne] at hend
  -- What stays of the source is shared with the target.
  rw [← hend, List.drop_reverse, List.reverse_reverse] at hfront
  have hshared := length_le_commonLength (List.take_prefix (source.length - k) source) hfront
  rw [List.length_take] at hshared
  rw [levelsUp]
  omega

/-- The path from one directory to another one leads there, and it leads up as often as there are
parts of the first directory that the other one doesn't share.  No path there leads up less
often. -/
theorem relative_leadsUpLeast (hsne : source ≠ []) (htne : target ≠ [])
    (hs : ∀ part ∈ source, IsPlain part) (ht : ∀ part ∈ target, IsPlain part) :
    resolve (unsplit source) (relative (unsplit source) (unsplit target)) = unsplit target ∧
      (∃ shared, IsLongestShared shared source target ∧
        levelsUp (relative (unsplit source) (unsplit target)) = source.length - shared.length) ∧
      ∀ path, resolve (unsplit source) path = unsplit target →
        levelsUp (relative (unsplit source) (unsplit target)) ≤ levelsUp path := by
  refine ⟨resolve_relative hsne htne hs ht, ⟨_, isLongestShared_take source target, ?_⟩, ?_⟩
  · rw [levelsUp_relative hs ht, length_take_commonLength]
  · intro path hpath
    rw [levelsUp_relative hs ht]
    exact le_levelsUp_of_resolve hsne hs ht hpath

end Relative

/-! ### Two branches of a tree -/

namespace TwoBranches

/-- The name ends in two dots, which lead nowhere. -/
def database : List String := ["live", "prod..", "web", "database"]

def network : List String := ["live", "stage", "network"]

theorem isPlain_database : ∀ part ∈ database, IsPlain part := by
  decide

theorem isPlain_network : ∀ part ∈ network, IsPlain part := by
  decide

/-- Three of the four parts are left, although the first parts of both paths are the same. -/
theorem leadsUpLeast_database_network :
    database ≠ [] ∧ network ≠ [] ∧ (∀ part ∈ database, IsPlain part) ∧
      (∀ part ∈ network, IsPlain part) ∧
      resolve "live/prod../web/database" "../../../stage/network" = "live/stage/network" ∧
      (∃ shared, IsLongestShared shared database network ∧ 3 = database.length - shared.length) ∧
      ∀ path, resolve "live/prod../web/database" path = "live/stage/network" →
        3 ≤ levelsUp path := by
  have hsource : unsplit database = "live/prod../web/database" := by decide
  have htarget : unsplit network = "live/stage/network" := by decide
  have hpath : relative (unsplit database) (unsplit network) = "../../../stage/network" := by
    decide
  have hlevels : levelsUp "../../../stage/network" = 3 := by decide
  have hsne : database ≠ [] := by decide
  have htne : network ≠ [] := by decide
  have hleads := relative_leadsUpLeast hsne htne isPlain_database isPlain_network
  rw [hpath, hsource, htarget, hlevels] at hleads
  exact ⟨hsne, htne, isPlain_database, isPlain_network, hleads⟩

end TwoBranches

end InfraGraph.Path
