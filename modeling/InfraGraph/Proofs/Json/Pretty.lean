import InfraGraph.Proofs.Json.RoundTrip

/-!
# Reading what was written over several lines

Over several lines a value has the same characters as without blanks, but for blanks in front of
elements and members, of closing brackets, and of the values of members.  Reading passes over them,
so the value reads back all the same.
-/

namespace InfraGraph.Json

/-! ### Blanks -/

theorem skipBlanks_newLine (level : Nat) (cs : List Char) :
    skipBlanks (newLine level ++ cs) = skipBlanks cs := by
  refine List.dropWhile_append_of_pos fun c hc => ?_
  rcases List.mem_cons.1 hc with rfl | hspace
  · decide
  · rw [List.eq_of_mem_replicate hspace]
    decide

theorem skipBlanks_space (cs : List Char) : skipBlanks (' ' :: cs) = skipBlanks cs := rfl

theorem endsValue_newLine (level : Nat) (cs : List Char) : EndsValue (newLine level ++ cs) :=
  endsValue_cons (by decide) _

section Blanks

variable {cs cs' : List Char} (h : skipBlanks cs = skipBlanks cs') (fuel : Nat)

include h

/-- Blanks in front of a value don't matter. -/
theorem readValue_of_skipBlanks : readValue fuel cs = readValue fuel cs' := by
  cases fuel with
  | zero => rfl
  | succ fuel => rw [readValue, readValue, h]

theorem readElements_of_skipBlanks : readElements fuel cs = readElements fuel cs' := by
  cases fuel with
  | zero => rfl
  | succ fuel => rw [readElements, readElements, readValue_of_skipBlanks h]

theorem readMembers_of_skipBlanks : readMembers fuel cs = readMembers fuel cs' := by
  cases fuel with
  | zero => rfl
  | succ fuel => rw [readMembers, readMembers, h]

end Blanks

/-! ### Lines -/

theorem pretty_array_cons (level : Nat) (element : Json) (rest : List Json) :
    pretty level (.array (element :: rest)) =
      '[' :: (prettyElements (level + 1) (element :: rest) ++ (newLine level ++ [']'])) := by
  rw [pretty, List.cons_append, List.cons_append, List.append_assoc]
  simp

theorem pretty_object_cons (level : Nat) (member : Option String × Json)
    (rest : List (Option String × Json)) :
    pretty level (.object (member :: rest)) =
      '\x7b' :: (prettyMembers (level + 1) (member :: rest) ++ (newLine level ++ ['\x7d'])) := by
  rw [pretty, List.cons_append, List.cons_append, List.append_assoc]
  simp

/-- The lines of elements, of which the first one has its indentation in front. -/
theorem prettyElements_cons (level : Nat) (element : Json) (rest : List Json) :
    ∃ more, prettyElements level (element :: rest) =
      newLine level ++ (pretty level element ++ more) := by
  cases rest with
  | nil => exact ⟨[], by rw [prettyElements, List.append_nil]⟩
  | cons next rest => exact ⟨_, by rw [prettyElements, List.append_assoc]; simp⟩

theorem prettyElements_cons_cons (level : Nat) (element next : Json) (rest : List Json) :
    prettyElements level (element :: next :: rest) =
      newLine level ++ (pretty level element ++ ',' :: prettyElements level (next :: rest)) := by
  rw [prettyElements, List.append_assoc]
  simp

theorem prettyMembers_singleton (level : Nat) (key : String) (value : Json) :
    prettyMembers level [(some key, value)] =
      newLine level ++ (writeString key ++ ':' :: ' ' :: pretty level value) := by
  simp [prettyMembers]

theorem prettyMembers_cons_cons (level : Nat) (key : String) (value : Json)
    (next : Option String × Json) (rest : List (Option String × Json)) :
    prettyMembers level ((some key, value) :: next :: rest) =
      newLine level ++ (writeString key ++
        ':' :: ' ' :: (pretty level value ++ ',' :: prettyMembers level (next :: rest))) := by
  simp [prettyMembers]

theorem prettyMembers_cons (level : Nat) (member : Option String × Json)
    (rest : List (Option String × Json)) :
    ∃ more, prettyMembers level (member :: rest) = newLine level ++ '"' :: more := by
  cases rest with
  | nil => exact ⟨_, by rw [prettyMembers, List.append_assoc, List.append_assoc]; rfl⟩
  | cons next rest =>
      exact ⟨_, by
        rw [prettyMembers, List.append_assoc, List.append_assoc, List.append_assoc]
        · rfl
        · simp⟩

theorem exists_pretty_eq_cons {j : Json} (h : j.Readable) (level : Nat) :
    ∃ c rest, j.pretty level = c :: rest ∧ isBlank c = false ∧ c ≠ ']' := by
  cases j with
  | array elements =>
      cases elements with
      | nil => exact ⟨'[', _, rfl, by decide, by decide⟩
      | cons element rest => exact ⟨'[', _, pretty_array_cons _ _ _, by decide, by decide⟩
  | object members =>
      cases members with
      | nil => exact ⟨'\x7b', _, rfl, by decide, by decide⟩
      | cons member rest => exact ⟨'\x7b', _, pretty_object_cons _ _ _, by decide, by decide⟩
  | null => exact exists_write_eq_cons h
  | bool b => exact exists_write_eq_cons h
  | number literal => exact exists_write_eq_cons h
  | string s => exact exists_write_eq_cons h

/-- The value is taken off a text that starts with its lines. -/
def ReadsPretty (j : Json) : Prop :=
  ∀ level fuel after, 2 * (j.pretty level).length ≤ fuel → EndsValue after →
    readValue fuel (j.pretty level ++ after) = some (j, after)

theorem readElements_pretty (element : Json) (rest : List Json)
    (h : ∀ j ∈ element :: rest, j.ReadsPretty) (level outer : Nat) {fuel : Nat}
    {after : List Char}
    (hfuel : 2 * (prettyElements level (element :: rest)).length + 1 ≤ fuel) :
    readElements fuel (prettyElements level (element :: rest) ++ (newLine outer ++ ']' :: after)) =
      some (element :: rest, after) := by
  obtain ⟨fuel, rfl⟩ : ∃ n, fuel = n + 1 := ⟨fuel - 1, by omega⟩
  rw [List.forall_mem_cons] at h
  induction rest generalizing element fuel with
  | nil =>
      rw [prettyElements, List.length_append] at hfuel
      rw [prettyElements, List.append_assoc, readElements_of_skipBlanks (skipBlanks_newLine _ _)]
      exact readElements_last (h.1 _ _ _ (by omega) (endsValue_newLine _ _))
        ((skipBlanks_newLine _ _).trans (skipBlanks_cons (by decide) after))
  | cons next rest ih =>
      rw [prettyElements_cons_cons, List.length_append, List.length_append, List.length_cons]
        at hfuel
      rw [prettyElements_cons_cons, List.append_assoc, List.append_assoc, List.cons_append,
        readElements_of_skipBlanks (skipBlanks_newLine _ _)]
      obtain ⟨fuel, rfl⟩ : ∃ n, fuel = n + 1 := ⟨fuel - 1, by omega⟩
      exact readElements_cons (h.1 _ _ _ (by omega) (endsValue_cons (by decide) _))
        (ih next (List.forall_mem_cons.1 h.2) fuel (by omega))

theorem readMembers_pretty (member : Option String × Json) (rest : List (Option String × Json))
    (hkeys : ∀ m ∈ member :: rest, m.1.isSome = true)
    (hvalues : ∀ m ∈ member :: rest, m.2.ReadsPretty) (level outer : Nat) {fuel : Nat}
    {after : List Char} (hfuel : 2 * (prettyMembers level (member :: rest)).length + 1 ≤ fuel) :
    readMembers fuel (prettyMembers level (member :: rest) ++ (newLine outer ++ '\x7d' :: after)) =
      some (member :: rest, after) := by
  obtain ⟨fuel, rfl⟩ : ∃ n, fuel = n + 1 := ⟨fuel - 1, by omega⟩
  rw [List.forall_mem_cons] at hkeys hvalues
  obtain ⟨_ | key, value⟩ := member
  · cases hkeys.1
  have hvalue : value.ReadsPretty := hvalues.1
  have hspaced (text : List Char) (fuel : Nat) :
      readValue fuel (' ' :: text) = readValue fuel text :=
    readValue_of_skipBlanks (skipBlanks_space text) fuel
  cases rest with
  | nil =>
      rw [prettyMembers_singleton] at hfuel ⊢
      simp only [List.length_append, List.length_cons] at hfuel
      rw [List.append_assoc, List.append_assoc, List.cons_append, List.cons_append,
        readMembers_of_skipBlanks (skipBlanks_newLine _ _)]
      refine readMembers_last ?_ ((skipBlanks_newLine outer _).trans
        (skipBlanks_cons (by decide) after))
      rw [hspaced]
      exact hvalue _ _ _ (by omega) (endsValue_newLine _ _)
  | cons next rest =>
      rw [prettyMembers_cons_cons] at hfuel ⊢
      simp only [List.length_append, List.length_cons] at hfuel
      rw [List.append_assoc, List.append_assoc, List.cons_append, List.cons_append,
        List.append_assoc, List.cons_append, readMembers_of_skipBlanks (skipBlanks_newLine _ _)]
      refine readMembers_cons ?_ (readMembers_pretty next rest hkeys.2 hvalues.2 level outer
        (by omega))
      rw [hspaced]
      exact hvalue _ _ _ (by omega) (endsValue_cons (by decide) _)

theorem Readable.exists_pretty_fuel_eq {j : Json} (h : j.Readable) {level fuel : Nat}
    (hfuel : 2 * (j.pretty level).length ≤ fuel) : ∃ n, fuel = n + 1 := by
  obtain ⟨c, rest, hcons, _⟩ := exists_pretty_eq_cons h level
  rw [hcons, List.length_cons] at hfuel
  exact ⟨fuel - 1, by omega⟩

theorem readsPretty_array {elements : List Json} (hreadable : ∀ j ∈ elements, j.Readable)
    (h : ∀ j ∈ elements, j.ReadsPretty) : ReadsPretty (.array elements) := by
  intro level fuel after hfuel _
  obtain ⟨fuel, rfl⟩ := (Readable.array hreadable).exists_pretty_fuel_eq hfuel
  cases elements with
  | nil => simp [readValue, pretty, skipBlanks, isBlank]
  | cons element rest =>
      rw [pretty_array_cons] at hfuel ⊢
      simp only [List.length_append, List.length_cons] at hfuel
      rw [List.cons_append, List.append_assoc, List.append_assoc, List.singleton_append]
      refine readValue_array ?_ (readElements_pretty element rest h _ _ (by omega))
      obtain ⟨more, hmore⟩ := prettyElements_cons (level + 1) element rest
      obtain ⟨c, text, hcons, hblank, hc⟩ :=
        exists_pretty_eq_cons (hreadable element (by simp)) (level + 1)
      rw [hmore, hcons, List.append_assoc, skipBlanks_newLine, List.cons_append, List.cons_append,
        skipBlanks_cons hblank]
      simpa using hc

theorem readsPretty_object {members : List (Option String × Json)}
    (hkeys : ∀ m ∈ members, m.1.isSome = true) (h : ∀ m ∈ members, m.2.ReadsPretty) :
    ReadsPretty (.object members) := by
  intro level fuel after hfuel _
  cases members with
  | nil =>
      obtain ⟨fuel, rfl⟩ := (Readable.object hkeys (by simp)).exists_pretty_fuel_eq hfuel
      simp [readValue, pretty, skipBlanks, isBlank]
  | cons member rest =>
      rw [pretty_object_cons] at hfuel ⊢
      simp only [List.length_append, List.length_cons] at hfuel
      obtain ⟨fuel, rfl⟩ : ∃ n, fuel = n + 1 := ⟨fuel - 1, by omega⟩
      rw [List.cons_append, List.append_assoc, List.append_assoc, List.singleton_append]
      refine readValue_object ?_ (readMembers_pretty member rest hkeys h _ _ (by omega))
      obtain ⟨more, hmore⟩ := prettyMembers_cons (level + 1) member rest
      rw [hmore, List.append_assoc, skipBlanks_newLine, List.cons_append,
        skipBlanks_cons (by decide)]
      simp

theorem Readable.readsPretty {j : Json} (h : j.Readable) : j.ReadsPretty := by
  induction h with
  | null =>
      intro level fuel after hfuel _
      obtain ⟨fuel, rfl⟩ := Readable.null.exists_pretty_fuel_eq hfuel
      simp [readValue, pretty, skipBlanks, isBlank]
  | bool b =>
      intro level fuel after hfuel _
      obtain ⟨fuel, rfl⟩ := (Readable.bool b).exists_pretty_fuel_eq hfuel
      cases b <;> simp [readValue, pretty, skipBlanks, isBlank]
  | number hnumeral =>
      intro level fuel after hfuel hafter
      obtain ⟨fuel, rfl⟩ := (Readable.number hnumeral).exists_pretty_fuel_eq hfuel
      exact readValue_number hnumeral hafter fuel
  | string s =>
      intro level fuel after hfuel _
      obtain ⟨fuel, rfl⟩ := (Readable.string s).exists_pretty_fuel_eq hfuel
      exact readValue_string s after fuel
  | array h ih => exact readsPretty_array h ih
  | object keys _ ih => exact readsPretty_object keys ih

/-- The lines of a value are read as the value. -/
theorem parse?_prettyText {j : Json} (h : j.Readable) : parse? j.prettyText = some j := by
  have hread := h.readsPretty 0 (2 * (j.pretty 0).length + 2) [] (by omega) endsValue_nil
  rw [List.append_nil] at hread
  simp [parse?, prettyText, hread, skipBlanks]

end InfraGraph.Json
