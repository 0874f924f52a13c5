import Mathlib.Data.List.Forall2
import Mathlib.Data.List.Perm.Basic
import Mathlib.Tactic.Common

/-!
# Computations that may fail

A sequence of steps gives a result exactly when each step does, and otherwise the failure is that of
the first step that fails.  These lemmas take sequences apart once and for all.
-/

namespace InfraGraph

universe u v w

variable {ε : Type u} {α : Type v} {β : Type v} {γ : Type v}

theorem bind_eq_ok_iff {x : Except ε α} {f : α → Except ε β} {b : β} :
    x >>= f = .ok b ↔ ∃ a, x = .ok a ∧ f a = .ok b := by
  cases x with
  | error e => simp [bind, Except.bind]
  | ok a => simp [bind, Except.bind]

theorem bind_eq_error_iff {x : Except ε α} {f : α → Except ε β} {e : ε} :
    x >>= f = .error e ↔ x = .error e ∨ ∃ a, x = .ok a ∧ f a = .error e := by
  cases x with
  | error e' => simp [bind, Except.bind]
  | ok a => simp [bind, Except.bind]

theorem map_eq_ok_iff {x : Except ε α} {f : α → β} {b : β} :
    x.map f = .ok b ↔ ∃ a, x = .ok a ∧ f a = b := by
  cases x with
  | error e => simp [Except.map]
  | ok a => simp [Except.map]

theorem map_eq_error_iff {x : Except ε α} {f : α → β} {e : ε} :
    x.map f = .error e ↔ x = .error e := by
  cases x with
  | error e => simp [Except.map]
  | ok a => simp [Except.map]

theorem exists_ok_of_isOk {x : Except ε α} (h : x.isOk = true) : ∃ a, x = .ok a := by
  cases x with
  | error e => cases h
  | ok a => exact ⟨a, rfl⟩

theorem exists_ok_of_isOk_fst {σ : Type w} {r : Except ε α × σ} (h : r.1.isOk = true) :
    ∃ a s, r = (.ok a, s) := by
  obtain ⟨a, ha⟩ := exists_ok_of_isOk h
  exact ⟨a, r.2, Prod.ext ha rfl⟩

theorem foldlM_concat_eq_ok_iff {δ : Type w} {f : α → δ → Except ε α} {l : List δ} {d : δ}
    {a c : α} :
    (l ++ [d]).foldlM f a = .ok c ↔ ∃ b, l.foldlM f a = .ok b ∧ f b d = .ok c := by
  rw [List.foldlM_append, bind_eq_ok_iff]
  refine exists_congr fun b => and_congr_right fun _ => ?_
  rw [List.foldlM_cons, bind_eq_ok_iff]
  constructor
  · intro ⟨c', hc, hrest⟩
    rwa [← Except.ok.inj hrest]
  · intro hc
    exact ⟨c, hc, rfl⟩

theorem map_eq_map_of_forall₂ {α β γ : Type} {f : α → γ} {h : β → γ} {l : List α} {m : List β}
    (hall : List.Forall₂ (fun a b => f a = h b) l m) : l.map f = m.map h := by
  have hmapped : List.Forall₂ (fun a b => a = b) (l.map f) (m.map h) := by
    rw [List.forall₂_map_left_iff, List.forall₂_map_right_iff]
    exact hall
  rwa [List.forall₂_eq_eq_eq] at hmapped

theorem exists_mem_of_forall₂ {α β : Type} {R : α → β → Prop} {l : List α} {m : List β}
    (hall : List.Forall₂ R l m) {a : α} (ha : a ∈ l) : ∃ b ∈ m, R a b := by
  induction hall with
  | nil => cases ha
  | cons hab _ ih =>
      rcases List.mem_cons.1 ha with rfl | ha
      · exact ⟨_, List.mem_cons_self, hab⟩
      · obtain ⟨b, hb, hr⟩ := ih ha
        exact ⟨b, List.mem_cons_of_mem _ hb, hr⟩

/-- What is found for some of the members of a list comes in the order of the list. -/
theorem sublist_map_filterMap {α β γ : Type} {R : α → Option β → Prop} {f : α → γ} {g : β → γ}
    {as : List α} {found : List (Option β)} (h : List.Forall₂ R as found)
    (hR : ∀ a ∈ as, ∀ b, R a (some b) → g b = f a) :
    ((found.filterMap id).map g).Sublist (as.map f) := by
  induction h with
  | nil => exact List.Sublist.refl _
  | @cons a read as found hfirst _ ih =>
      rw [List.forall_mem_cons] at hR
      cases read with
      | none => exact (ih hR.2).cons (f a)
      | some b =>
          have hcons : (some b :: found).filterMap id = b :: found.filterMap id := rfl
          rw [hcons, List.map_cons, List.map_cons, hR.1 b hfirst]
          exact (ih hR.2).cons_cons (f a)

/-- Lists with the same images in some order can be put into an order in which images agree. -/
theorem exists_perm_of_map_perm_map {α β γ : Type} {f : α → γ} {h : β → γ} {l : List α}
    {m : List β} (hperm : (l.map f).Perm (m.map h)) :
    ∃ order, order.Perm l ∧ List.Forall₂ (fun a b => f a = h b) order m := by
  have hcomp : Relation.Comp (List.Forall₂ fun a c => f a = c) List.Perm l (m.map h) :=
    ⟨l.map f, List.forall₂_map_right_iff.2 (List.forall₂_same.2 fun _ _ => rfl), hperm⟩
  rw [List.forall₂_comp_perm_eq_perm_comp_forall₂] at hcomp
  obtain ⟨order, horder, hall⟩ := hcomp
  exact ⟨order, horder.symm, List.forall₂_map_right_iff.1 hall⟩

theorem exists_forall₂ {α β : Type} {R : α → β → Prop} {l : List α}
    (h : ∀ a ∈ l, ∃ b, R a b) : ∃ bs, List.Forall₂ R l bs := by
  induction l with
  | nil => exact ⟨[], .nil⟩
  | cons a l ih =>
      rw [List.forall_mem_cons] at h
      obtain ⟨b, hb⟩ := h.1
      obtain ⟨bs, hbs⟩ := ih h.2
      exact ⟨b :: bs, .cons hb hbs⟩

/-- A sequence of steps fails as the first of them that does. -/
theorem foldlM_eq_error_iff {δ : Type w} {f : α → δ → Except ε α} {l : List δ} {a : α} {e : ε} :
    l.foldlM f a = .error e ↔
      ∃ front d back b, l = front ++ d :: back ∧ front.foldlM f a = .ok b ∧ f b d = .error e := by
  constructor
  · intro h
    induction l generalizing a with
    | nil => cases h
    | cons d l ih =>
        rw [List.foldlM_cons, bind_eq_error_iff] at h
        rcases h with hfirst | ⟨next, hnext, hrest⟩
        · exact ⟨[], d, l, a, rfl, rfl, hfirst⟩
        · obtain ⟨front, d', back, b, rfl, hfront, hstep⟩ := ih hrest
          refine ⟨d :: front, d', back, b, rfl, ?_, hstep⟩
          rw [List.foldlM_cons, bind_eq_ok_iff]
          exact ⟨next, hnext, hfront⟩
  · rintro ⟨front, d, back, b, rfl, hfront, hstep⟩
    rw [List.foldlM_append, bind_eq_error_iff]
    refine .inr ⟨b, hfront, ?_⟩
    rw [List.foldlM_cons, bind_eq_error_iff]
    exact .inl hstep

theorem exists_of_foldlM_eq_error {δ : Type w} {f : α → δ → Except ε α} {l : List δ} {a : α}
    {e : ε} (h : l.foldlM f a = .error e) : ∃ b, ∃ d ∈ l, f b d = .error e := by
  obtain ⟨front, d, back, b, rfl, _, hstep⟩ := foldlM_eq_error_iff.1 h
  exact ⟨b, d, by simp, hstep⟩

/-- What no step of a sequence destroys holds at its end. -/
theorem foldlM_invariant_of_mem {δ : Type w} {P : α → Prop} {f : α → δ → Except ε α} {l : List δ}
    (hstep : ∀ a, ∀ d ∈ l, ∀ b, P a → f a d = .ok b → P b) {a b : α} (ha : P a)
    (h : l.foldlM f a = .ok b) : P b := by
  induction l generalizing a with
  | nil => exact Except.ok.inj h ▸ ha
  | cons d l ih =>
      rw [List.foldlM_cons, bind_eq_ok_iff] at h
      obtain ⟨next, hnext, hrest⟩ := h
      exact ih (fun a d hd => hstep a d (List.mem_cons_of_mem _ hd))
        (hstep a d List.mem_cons_self next ha hnext) hrest

theorem foldlM_invariant {δ : Type w} {P : α → Prop} {f : α → δ → Except ε α}
    (hstep : ∀ a d b, P a → f a d = .ok b → P b) {l : List δ} {a b : α} (ha : P a)
    (h : l.foldlM f a = .ok b) : P b :=
  foldlM_invariant_of_mem (fun a d _ => hstep a d) ha h

/-- A sequence of steps has a result exactly when every step has the one in its place. -/
theorem mapM_eq_ok_iff {f : α → Except ε β} {l : List α} {bs : List β} :
    l.mapM f = .ok bs ↔ List.Forall₂ (fun a b => f a = .ok b) l bs := by
  induction l generalizing bs with
  | nil =>
      rw [List.mapM_nil, List.forall₂_nil_left_iff]
      exact ⟨fun h => (Except.ok.inj h).symm, fun h => h ▸ rfl⟩
  | cons a l ih =>
      rw [List.mapM_cons, bind_eq_ok_iff, List.forall₂_cons_left_iff]
      constructor
      · rintro ⟨b, hb, h⟩
        obtain ⟨rest, hrest, h⟩ := bind_eq_ok_iff.1 h
        exact ⟨b, rest, hb, ih.1 hrest, (Except.ok.inj h).symm⟩
      · rintro ⟨b, rest, hb, hrest, rfl⟩
        exact ⟨b, hb, bind_eq_ok_iff.2 ⟨rest, ih.2 hrest, rfl⟩⟩

/-- Steps that have no result at all instead of failing. -/
theorem mapM_eq_some_iff {α β : Type} {f : α → Option β} {l : List α} {bs : List β} :
    l.mapM f = some bs ↔ List.Forall₂ (fun a b => f a = some b) l bs := by
  induction l generalizing bs with
  | nil =>
      rw [List.mapM_nil, List.forall₂_nil_left_iff]
      exact ⟨fun h => (Option.some.inj h).symm, fun h => h ▸ rfl⟩
  | cons a l ih =>
      simp only [List.mapM_cons, Option.bind_eq_bind, Option.bind_eq_some_iff,
        List.forall₂_cons_left_iff, ih]
      constructor
      · rintro ⟨b, hb, rest, hrest, h⟩
        exact ⟨b, rest, hb, hrest, (Option.some.inj h).symm⟩
      · rintro ⟨b, rest, hb, hrest, rfl⟩
        exact ⟨b, hb, rest, hrest, rfl⟩

theorem mapM_eq_some_iff_map_eq {α β : Type} {f : α → Option β} {l : List α} {bs : List β} :
    l.mapM f = some bs ↔ l.map f = bs.map some := by
  rw [mapM_eq_some_iff, ← List.forall₂_eq_eq_eq, List.forall₂_map_left_iff,
    List.forall₂_map_right_iff]

/-- Steps of which each has a known result. -/
theorem mapM_eq_ok_map {f : α → Except ε β} {g : α → β} {l : List α}
    (h : ∀ a ∈ l, f a = .ok (g a)) : l.mapM f = .ok (l.map g) := by
  rw [mapM_eq_ok_iff, List.forall₂_map_right_iff, List.forall₂_same]
  exact h

theorem exists_mapM_eq_ok_iff {f : α → Except ε β} {l : List α} :
    (∃ bs, l.mapM f = .ok bs) ↔ ∀ a ∈ l, ∃ b, f a = .ok b := by
  induction l with
  | nil => simp [pure, Except.pure]
  | cons a l ih =>
      rw [List.forall_mem_cons, ← ih]
      constructor
      · rintro ⟨bs, h⟩
        obtain ⟨b, rest, hb, hrest, _⟩ := List.forall₂_cons_left_iff.1 (mapM_eq_ok_iff.1 h)
        exact ⟨⟨b, hb⟩, rest, mapM_eq_ok_iff.2 hrest⟩
      · rintro ⟨⟨b, hb⟩, rest, hrest⟩
        exact ⟨b :: rest, mapM_eq_ok_iff.2 (.cons hb (mapM_eq_ok_iff.1 hrest))⟩

/-- A sequence fails as the first of its steps that fails. -/
theorem mapM_eq_error_iff {f : α → Except ε β} {l : List α} {e : ε} :
    l.mapM f = .error e ↔
      ∃ front a back, l = front ++ a :: back ∧ (∀ b ∈ front, ∃ c, f b = .ok c) ∧
        f a = .error e := by
  induction l with
  | nil => simp [pure, Except.pure]
  | cons x l ih =>
      rw [List.mapM_cons]
      cases hx : f x with
      | error e' =>
          simp only [bind, Except.bind, Except.error.injEq]
          constructor
          · rintro rfl
            exact ⟨[], x, l, rfl, by simp, hx⟩
          · rintro ⟨front, a, back, hl, hfront, ha⟩
            cases front with
            | nil =>
                obtain ⟨rfl, rfl⟩ := List.cons.inj hl
                exact Except.error.inj (hx.symm.trans ha)
            | cons y front =>
                obtain ⟨rfl, rfl⟩ := List.cons.inj hl
                obtain ⟨c, hc⟩ := hfront x (by simp)
                simp [hx] at hc
      | ok y =>
          have hmap : (do let rest ← l.mapM f; pure (y :: rest) : Except ε (List β)) = .error e ↔
              l.mapM f = .error e := by
            cases l.mapM f <;> simp [bind, Except.bind, pure, Except.pure]
          simp only [bind, Except.bind] at hmap ⊢
          rw [hmap, ih]
          constructor
          · rintro ⟨front, a, back, rfl, hfront, ha⟩
            refine ⟨x :: front, a, back, rfl, ?_, ha⟩
            rw [List.forall_mem_cons]
            exact ⟨⟨y, hx⟩, hfront⟩
          · rintro ⟨front, a, back, hl, hfront, ha⟩
            cases front with
            | nil =>
                obtain ⟨rfl, rfl⟩ := List.cons.inj hl
                simp [hx] at ha
            | cons z front =>
                obtain ⟨rfl, rfl⟩ := List.cons.inj hl
                exact ⟨front, a, back, rfl, fun b hb => hfront b (by simp [hb]), ha⟩

/-- Steps that come in groups may be taken group by group. -/
theorem flatten_mapM_flatMap {f : α → Except ε (List β)} (g : γ → List α) (l : List γ) :
    ((l.flatMap g).mapM f).map List.flatten =
      (l.mapM fun c => ((g c).mapM f).map List.flatten).map List.flatten := by
  induction l with
  | nil => rfl
  | cons c l ih =>
      rw [List.flatMap_cons, List.mapM_append, List.mapM_cons]
      cases (g c).mapM f with
      | error e => rfl
      | ok front =>
          revert ih
          cases (l.flatMap g).mapM f <;>
            cases l.mapM fun c => ((g c).mapM f).map List.flatten <;>
              simp [Except.map, bind, Except.bind, pure, Except.pure]

end InfraGraph
