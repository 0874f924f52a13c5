import InfraGraph.Proofs.Hcl.Escapes
import InfraGraph.Proofs.Hcl.Written

/-!
# Plain values

References, calls, integers and strings come back from their texts, and so do lists and objects of
them.  A collection in a plain value has something in it: the writer leaves the comma behind an
empty one out.
-/

namespace InfraGraph.Hcl

namespace Expression

/-- A name, with the names of the parts that lead from what it stands for to a value in it. -/
def reference (name : String) (steps : List String) : Expression :=
  if steps.isEmpty then .ofName name else .traversal (.ofName name) (steps.map .attribute)

/-- A name or a quoted text. -/
inductive IsPlainKey : Expression → Prop
  | name {name : String} (h : IsIdentifier name.toList) (hfor : name ≠ "for") :
      IsPlainKey (.ofName name)
  | string (s : String) : IsPlainKey (.string s)

/-- A value without operators, templates and for expressions. -/
inductive IsPlain : Expression → Prop
  | reference {name : String} {steps : List String} (hname : IsIdentifier name.toList)
      (hsteps : ∀ step ∈ steps, IsIdentifier step.toList) : IsPlain (.reference name steps)
  | integer {n : Int} (hlow : -(Number.signedBound : Int) < n)
      (hhigh : n < Number.unsignedBound) : IsPlain (.number (.integer n))
  | string (s : String) : IsPlain (.string s)
  | call {name : String} {arguments : List Expression} (hname : IsIdentifier name.toList)
      (h : ∀ e ∈ arguments, IsPlain e) : IsPlain (.call name arguments false)
  | array {elements : List Expression} (hne : elements ≠ []) (h : ∀ e ∈ elements, IsPlain e) :
      IsPlain (.array elements)
  | object {items : List (Expression × Expression)} (hne : items ≠ [])
      (hkeys : ∀ item ∈ items, item.1.IsPlainKey)
      (hnodup : (items.map fun item => item.1.text).Nodup)
      (hvalues : ∀ item ∈ items, IsPlain item.2) :
      IsPlain (.object (items.map fun item => (Key.ofExpression item.1, item.2)))

/-! ### Texts -/

/-- The text of an expression does not depend on the flag, and leaves it clear. -/
structure WritesAlike (e : Expression) : Prop where
  text : ∀ first, (writeExpression first e).text = e.text.toList
  first : (writeExpression false e).first = false

theorem toList_text (e : Expression) : e.text.toList = (writeExpression true e).text :=
  String.toList_ofList

/-- An element behind another one. -/
def listed (e : Expression) : List Char :=
  ',' :: ' ' :: e.text.toList

/-- An item of an object. -/
def itemText (item : Expression × Expression) : List Char :=
  item.1.text.toList ++ ([' ', '=', ' '] ++ item.2.text.toList)

/-- An item behind another one. -/
def listedItem (item : Expression × Expression) : List Char :=
  ',' :: ' ' :: itemText item

theorem writesAlike_of_eq {e : Expression} {text : List Char}
    (h : ∀ first, writeExpression first e = ⟨text, first⟩) : e.WritesAlike := by
  refine ⟨fun first => ?_, ?_⟩
  · rw [toList_text, h, h]
  · rw [h]

theorem writeExpression_ofName (first : Bool) (name : String) :
    writeExpression first (.ofName name) = ⟨name.toList, first⟩ := by
  unfold ofName
  split
  · subst_vars
    rfl
  · split
    · subst_vars
      rfl
    · split
      · subst_vars
        rfl
      · rfl

theorem writeSteps_attributes (first : Bool) (steps : List String) :
    writeSteps first (steps.map .attribute) =
      ⟨steps.flatMap fun step => '.' :: step.toList, first⟩ := by
  induction steps with
  | nil => rfl
  | cons step steps ih =>
      have hcons : writeSteps first ((step :: steps).map .attribute) =
          ⟨'.' :: step.toList ++ (writeSteps first (steps.map .attribute)).text,
            (writeSteps first (steps.map .attribute)).first⟩ := rfl
      rw [hcons, ih, List.flatMap_cons]

theorem writeExpression_reference (first : Bool) (name : String) (steps : List String) :
    writeExpression first (.reference name steps) =
      ⟨name.toList ++ steps.flatMap fun step => '.' :: step.toList, first⟩ := by
  unfold reference
  split
  · rename_i hempty
    rw [List.isEmpty_iff.1 hempty, writeExpression_ofName, List.flatMap_nil, List.append_nil]
  · have htraversal : writeExpression first (.traversal (.ofName name) (steps.map .attribute)) =
        ⟨(writeExpression first (.ofName name)).text ++
            (writeSteps (writeExpression first (.ofName name)).first
              (steps.map .attribute)).text,
          (writeSteps (writeExpression first (.ofName name)).first
            (steps.map .attribute)).first⟩ := rfl
    rw [htraversal, writeExpression_ofName, writeSteps_attributes]

theorem writeKey_ofExpression (first : Bool) (e : Expression) :
    writeKey first (Key.ofExpression e) = writeExpression first e := by
  cases e <;> rfl

section Collections

variable {e : Expression} {es : List Expression} {item : Expression × Expression}
  {items : List (Expression × Expression)}

theorem writeElements_cons (first : Bool) (e : Expression) (es : List Expression) :
    writeElements first (e :: es) =
      ⟨(if first then [] else [',', ' ']) ++ (writeExpression false e).text ++
          (writeElements (writeExpression false e).first es).text,
        (writeElements (writeExpression false e).first es).first⟩ := rfl

theorem writeElements_listed (h : ∀ e ∈ es, e.WritesAlike) :
    writeElements false es = ⟨es.flatMap listed, false⟩ := by
  induction es with
  | nil => rfl
  | cons e es ih =>
      obtain ⟨he, hes⟩ := List.forall_mem_cons.1 h
      rw [writeElements_cons, he.first, he.text, ih hes]
      rfl

theorem writeElements_eq (h : ∀ other ∈ e :: es, other.WritesAlike) :
    writeElements true (e :: es) = ⟨e.text.toList ++ es.flatMap listed, false⟩ := by
  obtain ⟨he, hes⟩ := List.forall_mem_cons.1 h
  rw [writeElements_cons, he.first, he.text, writeElements_listed hes]
  rfl

theorem writeExpression_array (h : ∀ other ∈ e :: es, other.WritesAlike) (first : Bool) :
    writeExpression first (.array (e :: es)) =
      ⟨'[' :: (e.text.toList ++ es.flatMap listed ++ [']']), false⟩ := by
  have harray : writeExpression first (.array (e :: es)) =
      ⟨'[' :: (writeElements true (e :: es)).text ++ [']'],
        (writeElements true (e :: es)).first⟩ := rfl
  rw [harray, writeElements_eq h]
  rfl

theorem writeArguments_eq (h : ∀ other ∈ e :: es, other.WritesAlike) :
    (∀ first, (writeArguments first (e :: es)).text = e.text.toList ++ es.flatMap listed) ∧
      (writeArguments false (e :: es)).first = false := by
  induction es generalizing e with
  | nil =>
      have he : e.WritesAlike := h e List.mem_cons_self
      rw [List.flatMap_nil, List.append_nil]
      exact ⟨he.text, he.first⟩
  | cons next es ih =>
      obtain ⟨he, hes⟩ := List.forall_mem_cons.1 h
      have hcons : ∀ first, writeArguments first (e :: next :: es) =
          ⟨(writeExpression first e).text ++ ',' :: ' ' ::
              (writeArguments (writeExpression first e).first (next :: es)).text,
            (writeArguments (writeExpression first e).first (next :: es)).first⟩ := fun _ => rfl
      obtain ⟨htext, hfirst⟩ := ih hes
      refine ⟨fun first => ?_, ?_⟩
      · rw [hcons, he.text]
        simp only [htext]
        rfl
      · rw [hcons, he.first]
        exact hfirst

/-- The text of the arguments of a call. -/
def argumentsText : List Expression → List Char
  | [] => []
  | e :: es => e.text.toList ++ es.flatMap listed

theorem writesAlike_call {name : String} (h : ∀ e ∈ es, e.WritesAlike) :
    (Expression.call name es false).WritesAlike ∧
      (Expression.call name es false).text.toList =
        name.toList ++ '(' :: (argumentsText es ++ [')']) := by
  have hcall : ∀ first, writeExpression first (.call name es false) =
      ⟨name.toList ++ '(' :: (writeArguments first es).text ++ [')'],
        (writeArguments first es).first⟩ := fun _ => rfl
  have harguments : (∀ first, (writeArguments first es).text = argumentsText es) ∧
      (writeArguments false es).first = false := by
    cases es with
    | nil => exact ⟨fun _ => rfl, rfl⟩
    | cons e es => exact writeArguments_eq h
  have htext : (Expression.call name es false).text.toList =
      name.toList ++ '(' :: (argumentsText es ++ [')']) := by
    rw [toList_text, hcall, harguments.1, List.append_assoc]
    rfl
  refine ⟨⟨fun first => ?_, ?_⟩, htext⟩
  · rw [htext, hcall, harguments.1, List.append_assoc]
    rfl
  · rw [hcall]
    exact harguments.2

theorem writeItems_cons (first : Bool) (item : Expression × Expression)
    (items : List (Expression × Expression)) :
    writeItems first ((item :: items).map fun item => (Key.ofExpression item.1, item.2)) =
      ⟨(if first then [' '] else [',', ' ']) ++ (writeExpression false item.1).text ++
          [' ', '=', ' '] ++
          (writeExpression (writeExpression false item.1).first item.2).text ++
          (writeItems (writeExpression (writeExpression false item.1).first item.2).first
            (items.map fun item => (Key.ofExpression item.1, item.2))).text,
        (writeItems (writeExpression (writeExpression false item.1).first item.2).first
          (items.map fun item => (Key.ofExpression item.1, item.2))).first⟩ := by
  rw [← writeKey_ofExpression]
  rfl

theorem writeItems_listed (h : ∀ item ∈ items, item.1.WritesAlike ∧ item.2.WritesAlike) :
    writeItems false (items.map fun item => (Key.ofExpression item.1, item.2)) =
      ⟨items.flatMap listedItem, false⟩ := by
  induction items with
  | nil => rfl
  | cons item items ih =>
      obtain ⟨⟨hkey, hvalue⟩, hitems⟩ := List.forall_mem_cons.1 h
      rw [writeItems_cons, hkey.first, hvalue.first, hkey.text, hvalue.text, ih hitems]
      simp [listedItem, itemText]

theorem writeExpression_object
    (h : ∀ other ∈ item :: items, other.1.WritesAlike ∧ other.2.WritesAlike) (first : Bool) :
    writeExpression first (.object ((item :: items).map fun item =>
        (Key.ofExpression item.1, item.2))) =
      ⟨'\x7b' :: ' ' :: (itemText item ++ items.flatMap listedItem ++ [' ', '\x7d']), false⟩ := by
  obtain ⟨⟨hkey, hvalue⟩, hitems⟩ := List.forall_mem_cons.1 h
  have hobject : writeExpression first (.object ((item :: items).map fun item =>
        (Key.ofExpression item.1, item.2))) =
      ⟨'\x7b' :: (writeItems true ((item :: items).map fun item =>
            (Key.ofExpression item.1, item.2))).text ++ [' ', '\x7d'],
        (writeItems true ((item :: items).map fun item =>
          (Key.ofExpression item.1, item.2))).first⟩ := rfl
  rw [hobject, writeItems_cons, hkey.first, hvalue.first, hkey.text, hvalue.text,
    writeItems_listed hitems]
  simp [itemText]

end Collections

theorem writesAlike_string (s : String) : (Expression.string s).WritesAlike :=
  @writesAlike_of_eq _ ('"' :: escapeText s.toList ++ ['"']) fun _ => rfl

theorem IsPlainKey.writesAlike {e : Expression} (h : e.IsPlainKey) : e.WritesAlike := by
  cases h with
  | @name name _ _ => exact writesAlike_of_eq fun first => writeExpression_ofName first name
  | string s => exact writesAlike_string s

theorem IsPlain.writesAlike {e : Expression} (h : e.IsPlain) : e.WritesAlike := by
  induction h with
  | @reference name steps _ _ =>
      exact writesAlike_of_eq fun first => writeExpression_reference first name steps
  | @integer n _ _ => exact @writesAlike_of_eq _ (Decimal.integerText n) fun _ => rfl
  | string s => exact writesAlike_string s
  | call _ _ ih => exact (writesAlike_call ih).1
  | @array elements hne _ ih =>
      obtain ⟨e, es, rfl⟩ := List.exists_cons_of_ne_nil hne
      refine ⟨fun first => ?_, ?_⟩
      · rw [toList_text, writeExpression_array ih, writeExpression_array ih]
      · rw [writeExpression_array ih]
  | @object items hne hkeys _ _ ih =>
      obtain ⟨item, items, rfl⟩ := List.exists_cons_of_ne_nil hne
      have hitems := fun item hitem => And.intro (hkeys item hitem).writesAlike (ih item hitem)
      refine ⟨fun first => ?_, ?_⟩
      · rw [toList_text, writeExpression_object hitems, writeExpression_object hitems]
      · rw [writeExpression_object hitems]

end Expression

end InfraGraph.Hcl
