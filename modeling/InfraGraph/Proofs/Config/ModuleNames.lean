import Mathlib.Algebra.Group.Nat.Defs
import Mathlib.Order.MinMax
import InfraGraph.Proofs.Config.ReadBack

/-!
# Names of modules that are read again

A name is read from a source by making pairs of slashes single, once from the left.  That halves
every run of slashes, and rounds up.  So a name that was read is read as it is from the source that
is generated for it only if there were no more than two slashes in a row.  From a longer run some
slashes are left beside each other, and the name changes when it is generated and read again.  It
settles after as many rounds as it takes to halve the run down to one slash.
-/

namespace InfraGraph.ModuleSource

/-- The number of slashes that a text starts with. -/
def leadingSlashes (text : List Char) : Nat :=
  (text.takeWhile (· = '/')).length

/-- The length of the longest run of slashes in a text. -/
def longestRun : List Char → Nat
  | [] => 0
  | c :: rest => max (leadingSlashes (c :: rest)) (longestRun rest)

/-- The name that is read after a name was put behind a base and read from there, again and
again. -/
def reread (base : String) : (rounds : Nat) → (module : String) → Option String
  | 0, module => some module
  | rounds + 1, module => (name? (ofName base module)).bind (reread base rounds)

/-! ### Runs of slashes -/

section Runs

variable {text rest : List Char} {c : Char}

@[simp]
theorem leadingSlashes_nil : leadingSlashes [] = 0 :=
  rfl

@[simp]
theorem leadingSlashes_cons_slash : leadingSlashes ('/' :: rest) = leadingSlashes rest + 1 := by
  simp [leadingSlashes]

theorem leadingSlashes_cons_of_ne (h : c ≠ '/') : leadingSlashes (c :: rest) = 0 := by
  simp [leadingSlashes, h]

theorem le_leadingSlashes_iff {k : Nat} :
    k ≤ leadingSlashes text ↔ List.replicate k '/' <+: text := by
  induction text generalizing k with
  | nil => simp
  | cons c rest ih =>
      cases k with
      | zero => simp
      | succ k =>
          rw [List.replicate_succ, List.cons_prefix_cons]
          by_cases hc : c = '/'
          · subst hc
            simp [ih]
          · simp [leadingSlashes_cons_of_ne hc, Ne.symm hc]

/-- There are runs of slashes up to the longest one. -/
theorem le_longestRun_iff {k : Nat} :
    k ≤ longestRun text ↔ List.replicate k '/' <:+: text := by
  induction text with
  | nil => simp [longestRun]
  | cons c rest ih => rw [longestRun, le_max_iff, le_leadingSlashes_iff, ih, List.infix_cons_iff]

theorem longestRun_le_cons : longestRun rest ≤ longestRun (c :: rest) :=
  Nat.le_max_right _ _

/-- A slash that isn't followed by another one stands alone. -/
theorem leadingSlashes_eq_zero_of_not_cons (h : ∀ more, rest = '/' :: more → False) :
    leadingSlashes rest = 0 := by
  cases rest with
  | nil => rfl
  | cons d more => exact leadingSlashes_cons_of_ne fun hd => h more (hd ▸ rfl)

end Runs

/-! ### Pairs of slashes made single -/

section Joined

variable {text : List Char}

theorem leadingSlashes_joinSlashes :
    leadingSlashes (joinSlashes text) = (leadingSlashes text + 1) / 2 := by
  induction text using joinSlashes.induct with
  | case1 rest ih =>
      rw [joinSlashes, leadingSlashes_cons_slash, ih, leadingSlashes_cons_slash,
        leadingSlashes_cons_slash]
      omega
  | case2 c rest hpair ih =>
      rw [joinSlashes.eq_2 c rest hpair]
      by_cases hc : c = '/'
      · subst hc
        rw [leadingSlashes_cons_slash, leadingSlashes_cons_slash, ih,
          leadingSlashes_eq_zero_of_not_cons fun more => hpair more rfl]
      · rw [leadingSlashes_cons_of_ne hc, leadingSlashes_cons_of_ne hc]
  | case3 => rfl

/-- Every run of slashes is halved and rounded up, and so is the longest one. -/
theorem longestRun_joinSlashes : longestRun (joinSlashes text) = (longestRun text + 1) / 2 := by
  induction text using joinSlashes.induct with
  | case1 rest ih =>
      rw [joinSlashes, longestRun, longestRun, longestRun, ih, leadingSlashes_cons_slash,
        leadingSlashes_joinSlashes, leadingSlashes_cons_slash, leadingSlashes_cons_slash]
      omega
  | case2 c rest hpair ih =>
      have hleading := @leadingSlashes_joinSlashes (c :: rest)
      rw [joinSlashes.eq_2 c rest hpair] at hleading ⊢
      rw [longestRun, longestRun, ih, hleading]
      omega
  | case3 => rfl

/-- A text stays as it is exactly if no two slashes are beside each other. -/
theorem joinSlashes_eq_self_iff : joinSlashes text = text ↔ longestRun text ≤ 1 := by
  constructor
  · intro h
    have hhalved := @longestRun_joinSlashes text
    rw [h] at hhalved
    omega
  · intro h
    induction text using joinSlashes.induct with
    | case1 rest ih =>
        have hpair : 2 ≤ longestRun ('/' :: '/' :: rest) :=
          le_longestRun_iff.2 (List.prefix_append ['/', '/'] rest).isInfix
        omega
    | case2 c rest hpair ih =>
        rw [joinSlashes.eq_2 c rest hpair, ih (longestRun_le_cons.trans h)]
    | case3 => rfl

end Joined

/-! ### Reading names again -/

section Names

variable {base source module : String}

/-- A name is read from what stands behind the first marker, if that is anything. -/
theorem name?_eq_some_iff :
    name? source = some module ↔ ∃ found, behindFirst? marker.toList source.toList = some found ∧
      module ≠ "" ∧ module.toList = joinSlashes found := by
  rw [name?]
  split
  · simp [*]
  · rename_i found hfound
    simp only [hfound, Option.some.injEq, exists_eq_left', Option.ite_none_left_eq_some]
    have hname : String.ofList (joinSlashes found) = module ↔
        module.toList = joinSlashes found := by
      rw [← String.toList_inj, String.toList_ofList, eq_comm]
    rw [hname]
    exact and_congr_left fun h => by rw [← h, String.toList_eq_nil_iff]

/-- A name is read as it was put behind a base exactly if no two slashes in it are beside each
other. -/
theorem name?_ofName_eq_self_iff (hbase : IsBase base) (hne : module ≠ "") :
    name? (ofName base module) = some module ↔ longestRun module.toList ≤ 1 := by
  rw [name?_ofName_eq hbase hne, Option.some.injEq, ← joinSlashes_eq_self_iff,
    ← String.toList_inj, String.toList_ofList]

/-- With every round the longest run is halved. -/
theorem exists_reread (hbase : IsBase base) (hne : module ≠ "") (rounds : Nat) :
    ∃ again, reread base rounds module = some again ∧ again ≠ "" ∧
      ∀ k, longestRun again.toList ≤ 2 ^ k ↔ longestRun module.toList ≤ 2 ^ (k + rounds) := by
  induction rounds generalizing module with
  | zero => exact ⟨module, rfl, hne, fun k => Iff.rfl⟩
  | succ rounds ih =>
      have hread := name?_ofName_eq hbase hne
      obtain ⟨_, _, hnext, hjoined⟩ := name?_eq_some_iff.1 hread
      obtain ⟨again, hagain, hne', hruns⟩ := ih hnext
      refine ⟨again, ?_, hne', fun k => ?_⟩
      · rw [reread, hread, Option.bind_some, hagain]
      · rw [hruns, String.toList_ofList, longestRun_joinSlashes, ← Nat.add_assoc, Nat.pow_succ]
        omega

/-- A name is read as it is from its own source exactly if it was read from at most two slashes in
a row, and after more rounds exactly if these are enough to halve the longest run down to one. -/
theorem reread_settles_iff (hbase : IsBase base) (h : name? source = some module) :
    ∃ found, behindFirst? marker.toList source.toList = some found ∧
      (name? (ofName base module) = some module ↔ longestRun found ≤ 2) ∧
      (∀ rounds, ∃ again, reread base rounds module = some again ∧
        (name? (ofName base again) = some again ↔ longestRun found ≤ 2 ^ (rounds + 1))) ∧
      ∃ rounds again, reread base rounds module = some again ∧
        name? (ofName base again) = some again := by
  obtain ⟨found, hfound, hne, hmodule⟩ := name?_eq_some_iff.1 h
  have hrounds (rounds : Nat) : ∃ again, reread base rounds module = some again ∧
      (name? (ofName base again) = some again ↔ longestRun found ≤ 2 ^ (rounds + 1)) := by
    obtain ⟨again, hagain, hne', hruns⟩ := exists_reread hbase hne rounds
    refine ⟨again, hagain, (name?_ofName_eq_self_iff hbase hne').trans ?_⟩
    have hrun := hruns 0
    rw [hmodule, longestRun_joinSlashes, Nat.zero_add, Nat.pow_zero] at hrun
    rw [hrun, Nat.pow_succ]
    omega
  refine ⟨found, hfound, ?_, hrounds, longestRun found, ?_⟩
  · rw [name?_ofName_eq_self_iff hbase hne, hmodule, longestRun_joinSlashes]
    omega
  · -- There are more rounds than slashes.
    obtain ⟨again, hagain, hsettled⟩ := hrounds (longestRun found)
    refine ⟨again, hagain, hsettled.2 ?_⟩
    exact (Nat.le_succ _).trans Nat.lt_two_pow_self.le

end Names

/-! ### Bases -/

section Bases

variable {mark text found : List Char}

theorem exists_of_behindFirst? (h : behindFirst? mark text = some found) :
    ∃ front, text = front ++ (mark ++ found) := by
  induction text with
  | nil =>
      rw [behindFirst?] at h
      split at h
      · rename_i hmark
        obtain rfl := Option.some.inj h
        exact ⟨[], by rw [hmark, List.append_nil, List.append_nil]⟩
      · cases h
  | cons c rest ih =>
      rw [behindFirst?] at h
      split at h
      · rename_i hstart
        obtain rfl := Option.some.inj h
        obtain ⟨behind, hbehind⟩ := List.isPrefixOf_iff_prefix.1 hstart
        exact ⟨[], by rw [← hbehind, List.drop_left, List.nil_append]⟩
      · obtain ⟨front, rfl⟩ := ih h
        exact ⟨c :: front, rfl⟩

/-- No occurrence has more behind it than the first one. -/
theorem length_le_of_behindFirst? {front behind : List Char}
    (h : behindFirst? mark (front ++ (mark ++ behind)) = some found) :
    behind.length ≤ found.length := by
  induction front with
  | nil =>
      rw [List.nil_append] at h
      cases hmark : mark ++ behind with
      | nil => simp [(List.append_eq_nil_iff.1 hmark).2]
      | cons c rest =>
          rw [hmark, behindFirst?, ← hmark, if_pos (by simp), List.drop_left] at h
          exact (congrArg List.length (Option.some.inj h)).le
  | cons c front ih =>
      rw [List.cons_append, behindFirst?] at h
      split at h
      · rw [← Option.some.inj h]
        simp only [List.length_drop, List.length_cons, List.length_append]
        omega
      · exact ih h

/-- A text is a base if there's nothing behind the first marker in it. -/
theorem isBase_of_behindFirst? {base : String}
    (h : behindFirst? marker.toList base.toList = some []) : IsBase base := by
  refine ⟨?_, fun front behind hbase => ?_⟩
  · obtain ⟨front, hfront⟩ := exists_of_behindFirst? h
    exact ⟨front, by rw [hfront, List.append_nil]⟩
  · rw [hbase] at h
    exact List.length_eq_zero_iff.1 (Nat.le_zero.1 (length_le_of_behindFirst? h))

theorem isBase_defaultBase : IsBase defaultBase :=
  isBase_of_behindFirst? (by decide +kernel)

end Bases

/-! ### Three slashes in a row -/

/-- Of three slashes two are left, and when the name is read again one more is lost. -/
theorem name?_ofName_tripled : IsBase defaultBase ∧
    name? "git::x.git//tg-modules//a///b" = some "a//b" ∧
    name? (ofName defaultBase "a//b") = some "a/b" ∧
    name? (ofName defaultBase "a//b") ≠ some "a//b" := by
  have hread : name? (ofName defaultBase "a//b") = some "a/b" :=
    name?_ofName_eq isBase_defaultBase (by decide)
  refine ⟨isBase_defaultBase, by decide, hread, ?_⟩
  rw [hread]
  decide

/-- With two slashes in a row the name is settled at once. -/
theorem reread_settles_doubled : IsBase defaultBase ∧
    name? "git::x.git//tg-modules//compute//ecs" = some "compute/ecs" ∧
    name? (ofName defaultBase "compute/ecs") = some "compute/ecs" := by
  have hread : name? "git::x.git//tg-modules//compute//ecs" = some "compute/ecs" := by decide
  have hbehind : behindFirst? marker.toList "git::x.git//tg-modules//compute//ecs".toList =
      some "compute//ecs".toList := by decide
  obtain ⟨found, hfound, hsettled, _⟩ := reread_settles_iff isBase_defaultBase hread
  obtain rfl := Option.some.inj (hbehind.symm.trans hfound)
  exact ⟨isBase_defaultBase, hread, hsettled.2 (by decide)⟩

end InfraGraph.ModuleSource
