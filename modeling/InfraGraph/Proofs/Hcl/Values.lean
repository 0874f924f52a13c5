import InfraGraph.Proofs.Hcl.Terms

/-!
# Reading plain values

Plain values come back from their texts, by induction: each collection from its elements, one after
the other.  The fuel that reading takes grows with the length of the text.
-/

namespace InfraGraph.Hcl

namespace Expression

/-- A text is read as an expression wherever a value may stand. -/
structure ReadsAsValue (text : List Char) (e : Expression) : Prop where
  starts : StartsValue text
  reads : ∀ fuel lines after, 8 * text.length + 16 ≤ fuel → EndsValue lines after →
    readExpression fuel lines (text ++ after) = some (e, after)

theorem ReadsAsValue.readsAs {text : List Char} {e : Expression} (h : ReadsAsValue text e)
    {ending : List Char} (hends : ∀ rest, EndsValue false (ending ++ rest)) :
    ReadsAs text ending e :=
  ⟨fun lines _ => h.starts.skipBlanks_append lines _,
    fun fuel rest hfuel => h.reads fuel false _ hfuel (hends rest)⟩

/-! ### Collections -/

section Elements

variable {e : Expression} {es : List Expression} {text rest after : List Char} {fuel : Nat}

theorem readElements_last (hstart : StartsValue text)
    (he : readExpression fuel true (text ++ ']' :: after) = some (e, ']' :: after)) :
    readElements (fuel + 1) (text ++ ']' :: after) = some ([e], after) := by
  rw [readElements, he]
  · simp only [Option.bind_eq_bind, Option.bind_some, skipBlanks_of_isSolid
      (show IsSolid ']' by decide)]
    rfl
  · exact fun rest => hstart.ne_closing (by decide) _ rest

theorem readElements_cons (hstart : StartsValue text)
    (he : readExpression fuel true (text ++ ',' :: ' ' :: rest) = some (e, ',' :: ' ' :: rest))
    (hrest : readElements fuel (skipBlanks true rest) = some (es, after)) :
    readElements (fuel + 1) (text ++ ',' :: ' ' :: rest) = some (e :: es, after) := by
  rw [readElements, he]
  · simp only [Option.bind_eq_bind, Option.bind_some, skipBlanks_space, hrest,
      skipBlanks_of_isSolid (show IsSolid ',' by decide)]
    rfl
  · exact fun rest => hstart.ne_closing (by decide) _ rest

theorem readArguments_last (hstart : StartsValue text)
    (he : readExpression fuel true (text ++ ')' :: after) = some (e, ')' :: after)) :
    readArguments (fuel + 1) (text ++ ')' :: after) = some ([e], false, after) := by
  rw [readArguments, he]
  · simp only [Option.bind_eq_bind, Option.bind_some, skipBlanks_of_isSolid
      (show IsSolid ')' by decide)]
    rfl
  · exact fun rest => hstart.ne_closing (by decide) _ rest

theorem readArguments_cons (hstart : StartsValue text)
    (he : readExpression fuel true (text ++ ',' :: ' ' :: rest) = some (e, ',' :: ' ' :: rest))
    (hrest : readArguments fuel (skipBlanks true rest) = some (es, false, after)) :
    readArguments (fuel + 1) (text ++ ',' :: ' ' :: rest) = some (e :: es, false, after) := by
  rw [readArguments, he]
  · simp only [Option.bind_eq_bind, Option.bind_some, skipBlanks_space, hrest,
      skipBlanks_of_isSolid (show IsSolid ',' by decide)]
    rfl
  · exact fun rest => hstart.ne_closing (by decide) _ rest

/-- An element behind another one, by the text that it is read from. -/
def listedText (item : List Char × Expression) : List Char :=
  ',' :: ' ' :: item.1

/-- Elements come back from their texts, whether or not these are what is written for them. -/
theorem readElements_items {item : List Char × Expression} {items : List (List Char × Expression)}
    (h : ∀ other ∈ item :: items, ReadsAsValue other.1 other.2)
    (hfuel : 8 * (item.1 ++ items.flatMap listedText).length + 17 ≤ fuel) :
    readElements fuel (item.1 ++ (items.flatMap listedText ++ ']' :: after)) =
      some (item.2 :: items.map (·.2), after) := by
  obtain ⟨fuel, rfl⟩ : ∃ n, fuel = n + 1 := ⟨fuel - 1, by omega⟩
  induction items generalizing item fuel with
  | nil =>
      obtain ⟨⟨hstart, hread⟩, _⟩ := List.forall_mem_cons.1 h
      rw [List.flatMap_nil, List.append_nil] at hfuel
      exact readElements_last hstart (hread fuel true _ (by omega)
        (IsClosing.endsValue (by decide) true after))
  | cons next items ih =>
      obtain ⟨⟨hstart, hread⟩, hitems⟩ := List.forall_mem_cons.1 h
      simp only [List.flatMap_cons, listedText, List.length_append, List.length_cons] at hfuel ih
      obtain ⟨fuel, rfl⟩ : ∃ n, fuel = n + 1 := ⟨fuel - 1, by omega⟩
      have hrest := ih hitems fuel (by omega)
      rw [← (hitems next List.mem_cons_self).starts.skipBlanks_append true] at hrest
      have hcons := readElements_cons hstart (hread (fuel + 1) true _ (by omega)
        (IsClosing.endsValue (by decide) true _)) hrest
      simpa [listedText] using hcons

theorem readArguments_listed
    (h : ∀ other ∈ e :: es, StartsValue other.text.toList ∧ other.ReadsBack)
    (hfuel : 8 * (e.text.toList ++ es.flatMap listed).length + 17 ≤ fuel) :
    readArguments fuel (e.text.toList ++ (es.flatMap listed ++ ')' :: after)) =
      some (e :: es, false, after) := by
  obtain ⟨fuel, rfl⟩ : ∃ n, fuel = n + 1 := ⟨fuel - 1, by omega⟩
  induction es generalizing e fuel with
  | nil =>
      obtain ⟨⟨hstart, hread⟩, _⟩ := List.forall_mem_cons.1 h
      rw [List.flatMap_nil, List.append_nil] at hfuel
      exact readArguments_last hstart (hread fuel true _ (by omega)
        (IsClosing.endsValue (by decide) true after))
  | cons next es ih =>
      obtain ⟨⟨hstart, hread⟩, hes⟩ := List.forall_mem_cons.1 h
      simp only [List.flatMap_cons, listed, List.length_append, List.length_cons] at hfuel ih
      obtain ⟨fuel, rfl⟩ : ∃ n, fuel = n + 1 := ⟨fuel - 1, by omega⟩
      have hrest := ih hes fuel (by omega)
      rw [← (hes next List.mem_cons_self).1.skipBlanks_append true] at hrest
      have hcons := readArguments_cons hstart (hread (fuel + 1) true _ (by omega)
        (IsClosing.endsValue (by decide) true _)) hrest
      simpa [listed] using hcons

/-- The arguments of a call come back. -/
theorem readArguments_argumentsText
    (h : ∀ other ∈ es, StartsValue other.text.toList ∧ other.ReadsBack)
    (hfuel : 8 * (argumentsText es).length + 17 ≤ fuel) :
    readArguments fuel (skipBlanks true (argumentsText es ++ ')' :: after)) =
      some (es, false, after) := by
  cases es with
  | nil =>
      obtain ⟨fuel, rfl⟩ : ∃ n, fuel = n + 1 := ⟨fuel - 1, by omega⟩
      rw [argumentsText, List.nil_append, skipBlanks_of_isSolid (by decide), readArguments]
      simp
  | cons e es =>
      rw [argumentsText, List.append_assoc, (h e List.mem_cons_self).1.skipBlanks_append true]
      exact readArguments_listed h hfuel

end Elements

section Items

variable {item : Expression × Expression} {items : List (Expression × Expression)}
  {found : List (Key × Expression)} {rest after : List Char} {fuel : Nat}

/-- What an item needs to be read. -/
structure IsReadItem (item : Expression × Expression) : Prop where
  key : StartsValue item.1.text.toList
  readsKey : item.1.ReadsBack
  value : StartsValue item.2.text.toList
  readsValue : item.2.ReadsBack

/-- Reading an item goes on behind it, where its line does not end. -/
theorem readItems_item (h : IsReadItem item) {more : List Char}
    (hfuel : 8 * (itemText item).length + 16 ≤ fuel) (hmore : EndsValue false more) :
    readItems (fuel + 1) (itemText item ++ more) =
      match skipBlanks false more with
      | ',' :: rest => (readItems fuel (skipBlanks true rest)).bind fun (found, rest) =>
          some ((Key.ofExpression item.1, item.2) :: found, rest)
      | '\x7d' :: rest => some ([(Key.ofExpression item.1, item.2)], rest)
      | _ => (skipToNextLine? more).bind fun rest =>
          (readItems fuel (skipBlanks true rest)).bind fun (found, rest) =>
            some ((Key.ofExpression item.1, item.2) :: found, rest) := by
  simp only [itemText, List.length_append, List.length_cons, List.length_nil] at hfuel
  have hkey := h.readsKey fuel false (' ' :: '=' :: ' ' :: (item.2.text.toList ++ more))
    (by omega) (endsValue_equals _)
  have hvalue := h.readsValue fuel false more (by omega) hmore
  have hsign : keySign? (' ' :: '=' :: ' ' :: (item.2.text.toList ++ more)) =
      some (' ' :: (item.2.text.toList ++ more)) := by
    rw [keySign?, skipBlanks_space, skipBlanks_of_isSolid (by decide)]
    rfl
  have htext : itemText item ++ more =
      item.1.text.toList ++ ' ' :: '=' :: ' ' :: (item.2.text.toList ++ more) := by
    simp [itemText]
  rw [htext, readItems, hkey]
  · simp only [Option.bind_eq_bind, Option.bind_some, hsign, skipBlanks_space,
      h.value.skipBlanks_append, hvalue]
    rfl
  · exact fun rest => h.key.ne_closing (by decide) _ rest

/-- The items of an object come back. -/
theorem readItems_listedItem (h : ∀ other ∈ item :: items, IsReadItem other)
    (hfuel : 8 * (itemText item ++ items.flatMap listedItem).length + 17 ≤ fuel) :
    readItems fuel (itemText item ++ (items.flatMap listedItem ++ ' ' :: '\x7d' :: after)) =
      some ((item :: items).map fun item => (Key.ofExpression item.1, item.2), after) := by
  obtain ⟨fuel, rfl⟩ : ∃ n, fuel = n + 1 := ⟨fuel - 1, by omega⟩
  induction items generalizing item fuel with
  | nil =>
      rw [List.flatMap_nil, List.append_nil] at hfuel
      rw [List.flatMap_nil, List.nil_append, readItems_item (h item List.mem_cons_self) (by omega)
        (endsValue_brace after), skipBlanks_space, skipBlanks_of_isSolid (by decide)]
      rfl
  | cons next items ih =>
      obtain ⟨hitem, hitems⟩ := List.forall_mem_cons.1 h
      simp only [List.flatMap_cons, listedItem, List.length_append, List.length_cons] at hfuel ih
      obtain ⟨fuel, rfl⟩ : ∃ n, fuel = n + 1 := ⟨fuel - 1, by omega⟩
      have hrest := ih hitems fuel (by omega)
      have hskip : ∀ tail, skipBlanks true (itemText next ++ tail) = itemText next ++ tail := by
        intro tail
        rw [itemText, List.append_assoc]
        exact (hitems next List.mem_cons_self).key.skipBlanks_append true _
      rw [List.flatMap_cons, listedItem, List.append_assoc, List.cons_append, List.cons_append,
        readItems_item hitem (by omega) (IsClosing.endsValue (by decide) false _),
        skipBlanks_of_isSolid (by decide)]
      simp only [skipBlanks_space, hskip, hrest, Option.bind_some]
      rfl

end Items

/-! ### Plain values -/

theorem text_array {e : Expression} {es : List Expression}
    (h : ∀ other ∈ e :: es, other.IsPlain) :
    (array (e :: es)).text.toList = '[' :: (e.text.toList ++ (es.flatMap listed ++ [']'])) := by
  rw [toList_text, writeExpression_array fun other hother => (h other hother).writesAlike,
    List.append_assoc]

theorem text_object {item : Expression × Expression} {items : List (Expression × Expression)}
    (hkeys : ∀ other ∈ item :: items, other.1.IsPlainKey)
    (hvalues : ∀ other ∈ item :: items, other.2.IsPlain) :
    (object ((item :: items).map fun item => (Key.ofExpression item.1, item.2))).text.toList =
      '\x7b' :: ' ' :: (itemText item ++ (items.flatMap listedItem ++ [' ', '\x7d'])) := by
  rw [toList_text, writeExpression_object fun other hother =>
    ⟨(hkeys other hother).writesAlike, (hvalues other hother).writesAlike⟩, List.append_assoc]

theorem startsValue_string (s : String) : StartsValue (string s).text.toList := by
  rw [text_string_eq]
  exact startsValue_of_ne (by decide) (by decide) (by decide)

theorem IsPlain.startsValue {e : Expression} (h : e.IsPlain) : StartsValue e.text.toList := by
  cases h with
  | @reference name steps hname hsteps =>
      rw [toList_text, writeExpression_reference]
      refine startsValue_name hname ?_
      cases steps with
      | nil => rintro c ⟨⟩
      | cons step steps =>
          rintro c ⟨⟩
          decide
  | @integer n hlow hhigh =>
      have htext : (number (.integer n)).text.toList = Decimal.integerText n := toList_text _
      rw [htext, Decimal.integerText]
      split
      · exact startsValue_of_ne (by decide) (by decide) (by decide)
      · obtain ⟨d, ds, hcons, hdigit⟩ := exists_digitsOf_eq_cons n.natAbs
        rw [hcons]
        have hf : d ∉ ['f'] := not_mem_of_isDigit hdigit (by decide)
        exact startsValue_of_ne (not_mem_of_isDigit hdigit (by decide))
          (not_mem_of_isDigit hdigit (by decide)) (by simpa using hf)
  | string s => exact startsValue_string s
  | @call name arguments hname h =>
      rw [(writesAlike_call fun e he => (h e he).writesAlike).2]
      refine startsValue_name hname ?_
      rintro c ⟨⟩
      decide
  | @array elements hne h =>
      obtain ⟨e, es, rfl⟩ := List.exists_cons_of_ne_nil hne
      rw [text_array h]
      exact startsValue_of_ne (by decide) (by decide) (by decide)
  | @object items hne hkeys _ hvalues =>
      obtain ⟨item, items, rfl⟩ := List.exists_cons_of_ne_nil hne
      rw [text_object hkeys hvalues]
      exact startsValue_of_ne (by decide) (by decide) (by decide)

theorem IsPlainKey.isReadItem {item : Expression × Expression} (hkey : item.1.IsPlainKey)
    (hvalue : item.2.IsPlain) (hread : item.2.ReadsBack) : IsReadItem item := by
  obtain ⟨key, value⟩ := item
  cases hkey with
  | @name name h _ =>
      exact ⟨(@IsPlain.reference name [] h (by simp)).startsValue,
        @readsBack_reference name [] h (by simp), hvalue.startsValue, hread⟩
  | string s => exact ⟨startsValue_string s, readsBack_string s, hvalue.startsValue, hread⟩

theorem IsPlainKey.noFor {key : Expression} (h : key.IsPlainKey) (rest : List Char) :
    startsFor (key.text.toList ++ ' ' :: rest) = false := by
  cases h with
  | @name name h hfor =>
      rw [toList_text, writeExpression_ofName]
      refine startsFor_append h ?_ (.inl fun hcs => hfor (String.toList_injective hcs))
      rintro c ⟨⟩
      decide
  | string s =>
      rw [text_string_eq, List.cons_append]
      exact startsFor_of_ne (by decide) _

theorem readsBack_call {name : String} {es : List Expression} (hname : IsIdentifier name.toList)
    (hes : ∀ e ∈ es, e.IsPlain) (h : ∀ e ∈ es, e.ReadsBack) :
    (call name es false).ReadsBack := by
  intro fuel lines after hfuel hafter
  rw [(writesAlike_call fun e he => (hes e he).writesAlike).2] at hfuel ⊢
  simp only [List.length_append, List.length_cons, List.length_nil] at hfuel
  obtain ⟨fuel, rfl⟩ : ∃ n, fuel = n + 3 := ⟨fuel - 3, by omega⟩
  obtain ⟨first, cs, hcs, hfirst⟩ := hname.exists_cons
  have hnone := isIdentifierStart_ne hfirst
  have hinner := @readArguments_argumentsText es after fuel
    (fun e he => ⟨(hes e he).startsValue, h e he⟩) (by omega)
  have hterm := readTerm_call hname hinner
  rw [hcs, List.cons_append] at hterm
  have hread := readExpression_of_readTerm (fun fuel => readUnary_of_isSolid
    (isSolid_of_isIdentifierStart hfirst) (by simp_all) fuel _) hterm hafter.toEndsExpression
  simpa [hcs] using hread

/-- A list is read from the texts of its elements. -/
theorem readsAsValue_list {item : List Char × Expression} {items : List (List Char × Expression)}
    (h : ∀ other ∈ item :: items, ReadsAsValue other.1 other.2) :
    ReadsAsValue ('[' :: (item.1 ++ (items.flatMap listedText ++ [']'])))
      (.array (item.2 :: items.map (·.2))) := by
  refine ⟨startsValue_of_ne (by decide) (by decide) (by decide),
    fun fuel lines after hfuel hafter => ?_⟩
  simp only [List.length_append, List.length_cons, List.length_nil] at hfuel
  obtain ⟨fuel, rfl⟩ : ∃ n, fuel = n + 3 := ⟨fuel - 3, by omega⟩
  have hstart := (h item List.mem_cons_self).starts
  have hfor : startsFor (item.1 ++ (items.flatMap listedText ++ ']' :: after)) = false := by
    refine hstart.noFor _ ?_
    cases items with
    | nil =>
        rintro c ⟨⟩
        decide
    | cons next items =>
        rintro c ⟨⟩
        decide
  have hinner := @readElements_items after fuel item items h (by rw [List.length_append]; omega)
  have hterm : readTerm (fuel + 1) ('[' :: (item.1 ++ (items.flatMap listedText ++ ']' :: after))) =
      some (array (item.2 :: items.map (·.2)), after) := by
    rw [readTerm, hstart.skipBlanks_append true]
    simp only [hfor, hinner, Bool.false_eq_true, if_false, Option.bind_eq_bind, Option.bind_some]
    rfl
  have hread := readExpression_of_readTerm (fun fuel => readUnary_of_isSolid (by decide) (by decide)
    fuel _) hterm hafter.toEndsExpression
  simpa using hread

theorem readsBack_array {e : Expression} {es : List Expression}
    (hes : ∀ other ∈ e :: es, other.IsPlain) (h : ∀ other ∈ e :: es, other.ReadsBack) :
    (array (e :: es)).ReadsBack := by
  have hitems : ∀ item ∈ (e :: es).map fun e => (e.text.toList, e), ReadsAsValue item.1 item.2 :=
    List.forall_mem_map.2 fun other hother => ⟨(hes other hother).startsValue, h other hother⟩
  have hlist := @readsAsValue_list (e.text.toList, e)
    (es.map fun e : Expression => (e.text.toList, e)) hitems
  have htexts : (es.map fun e => (e.text.toList, e)).flatMap listedText = es.flatMap listed := by
    rw [List.flatMap_map]
    rfl
  rw [htexts, ← text_array hes, List.map_map, Function.comp_def, List.map_id'] at hlist
  exact hlist.reads

theorem readsBack_object {item : Expression × Expression} {items : List (Expression × Expression)}
    (hkeys : ∀ other ∈ item :: items, other.1.IsPlainKey)
    (hnodup : ((item :: items).map fun item => item.1.text).Nodup)
    (hvalues : ∀ other ∈ item :: items, other.2.IsPlain)
    (h : ∀ other ∈ item :: items, other.2.ReadsBack) :
    (object ((item :: items).map fun item => (Key.ofExpression item.1, item.2))).ReadsBack := by
  intro fuel lines after hfuel hafter
  rw [text_object hkeys hvalues] at hfuel ⊢
  simp only [List.length_append, List.length_cons, List.length_nil] at hfuel
  obtain ⟨fuel, rfl⟩ : ∃ n, fuel = n + 3 := ⟨fuel - 3, by omega⟩
  have hitems : ∀ other ∈ item :: items, IsReadItem other := fun other hother =>
    (hkeys other hother).isReadItem (hvalues other hother) (h other hother)
  have hskip : ∀ tail, skipBlanks true (' ' :: (itemText item ++ tail)) =
      itemText item ++ tail := by
    intro tail
    rw [skipBlanks_space, itemText, List.append_assoc]
    exact (hitems item List.mem_cons_self).key.skipBlanks_append true _
  have hfor : ∀ tail, startsFor (itemText item ++ tail) = false := by
    intro tail
    rw [itemText, List.append_assoc, List.append_assoc]
    exact (hkeys item List.mem_cons_self).noFor _
  have hinner := @readItems_listedItem item items after fuel hitems
    (by rw [List.length_append]; omega)
  have hfold := @foldl_insertItem ((item :: items).map fun item =>
    (Key.ofExpression item.1, item.2)) (by
      rw [List.map_map]
      simpa only [Function.comp_def, Key.text_ofExpression] using hnodup)
  have hterm : readTerm (fuel + 1)
      ('\x7b' :: ' ' :: (itemText item ++ (items.flatMap listedItem ++ ' ' :: '\x7d' :: after))) =
        some (object ((item :: items).map fun item => (Key.ofExpression item.1, item.2)),
          after) := by
    rw [readTerm, hskip]
    simp only [hfor, hinner, hfold, Bool.false_eq_true, if_false, Option.bind_eq_bind,
      Option.bind_some]
    rfl
  have hread := readExpression_of_readTerm (fun fuel => readUnary_of_isSolid (by decide) (by decide)
    fuel _) hterm hafter.toEndsExpression
  simpa using hread

/-- A plain value comes back from its text. -/
theorem IsPlain.readsBack {e : Expression} (h : e.IsPlain) : e.ReadsBack := by
  induction h with
  | reference hname hsteps => exact readsBack_reference hname hsteps
  | integer hlow hhigh => exact readsBack_integer hlow hhigh
  | string s => exact readsBack_string s
  | call hname h ih => exact readsBack_call hname h ih
  | @array elements hne h ih =>
      obtain ⟨e, es, rfl⟩ := List.exists_cons_of_ne_nil hne
      exact readsBack_array h ih
  | @object items hne hkeys hnodup hvalues ih =>
      obtain ⟨item, items, rfl⟩ := List.exists_cons_of_ne_nil hne
      exact readsBack_object hkeys hnodup hvalues ih

theorem IsPlain.readsAsValue {e : Expression} (h : e.IsPlain) : ReadsAsValue e.text.toList e :=
  ⟨h.startsValue, h.readsBack⟩

theorem IsPlain.readsAs {e : Expression} (h : e.IsPlain) {ending : List Char}
    (hends : ∀ rest, EndsValue false (ending ++ rest)) : ReadsAs e.text.toList ending e :=
  h.readsAsValue.readsAs hends

theorem ofName_ne_string (name s : String) : ofName name ≠ .string s := by
  unfold ofName
  split
  · simp
  · split
    · simp
    · split
      · simp
      · simp

end Expression

/-- The text of a plain value can stand at the end of a line. -/
theorem isValueText_text {e : Expression} (h : e.IsPlain) : IsValueText e.text :=
  ⟨e, h.readsAs endsValue_newline, rfl⟩

theorem isKeyText_of_isIdentifier {name : String} (h : IsIdentifier name.toList)
    (hfor : name ≠ "for") : IsKeyText name := by
  have hplain : (Expression.ofName name).IsPlain :=
    @Expression.IsPlain.reference name [] h (by simp)
  have htext : (Expression.ofName name).text = name := by
    rw [← String.toList_inj, Expression.toList_text, Expression.writeExpression_ofName]
  have hnoFor := (Expression.IsPlainKey.name h hfor).noFor
  have hreads := @Expression.IsPlain.readsAs _ hplain [' ', '=', ' '] endsValue_equals
  rw [htext] at hreads hnoFor
  exact ⟨⟨_, hreads, htext, Expression.ofName_ne_string name⟩, hnoFor⟩

end InfraGraph.Hcl
