import Mathlib
import InfraGraph.Catalog.Refresher

/-!
# What a refresher serves

A refresher serves the catalog of the last fetch that succeeded, however many failed since.  The
first fetch comes with the first moment that passes and one more with every interval that is over,
so how many there were only depends on the time.  A moment is the end of a sleep; as a sleep can be
cut in two without a difference, what holds at the end of all sleeps holds at all times.
-/

namespace InfraGraph

/-- The catalog is that of the last one of the first fetches that succeeded.  It is empty if none
did. -/
def IsLastGood (outcome : Nat → Option (List CatalogEntry)) (count : Nat)
    (catalog : List CatalogEntry) : Prop :=
  (∃ last < count, outcome last = some catalog ∧ ∀ k, last < k → k < count → outcome k = none) ∨
    (∀ k < count, outcome k = none) ∧ catalog = []

namespace RefresherRequest

/-- The refresher is stopped for good. -/
def IsStop : RefresherRequest → Prop
  | shutdown => True
  | drop => True
  | _ => False

/-- Time passes, be it only a moment. -/
def IsSleep : RefresherRequest → Prop
  | sleep _ => True
  | _ => False

instance : DecidablePred IsSleep
  | sleep _ => inferInstanceAs (Decidable True)
  | snapshot => inferInstanceAs (Decidable False)
  | get _ => inferInstanceAs (Decidable False)
  | shutdown => inferInstanceAs (Decidable False)
  | drop => inferInstanceAs (Decidable False)

/-- The time that passes. -/
def seconds : RefresherRequest → Nat
  | sleep seconds => seconds
  | _ => 0

end RefresherRequest

/-- The time that passes in a list of requests. -/
def elapsed (requests : List RefresherRequest) : Nat :=
  (requests.map (·.seconds)).sum

/-- The number of fetches that a list of requests leaves time for. -/
def fetchesDue (interval : Nat) (requests : List RefresherRequest) : Nat :=
  if ∃ request ∈ requests, request.IsSleep then elapsed requests / interval + 1 else 0

namespace RefresherState

/-- A refresher that starts now. -/
def start (interval : Nat) (outcome : Nat → Option (List CatalogEntry)) : RefresherState :=
  running (.start interval outcome)

/-- The state after a list of requests. -/
def afterAll (state : RefresherState) (requests : List RefresherRequest) : RefresherState :=
  requests.foldl (fun state request => (state.step request).2) state

end RefresherState

section Time

variable {requests : List RefresherRequest} {interval : Nat}

theorem elapsed_concat (request : RefresherRequest) :
    elapsed (requests ++ [request]) = elapsed requests + request.seconds := by
  simp [elapsed]

theorem fetchesDue_concat_sleep (seconds : Nat) :
    fetchesDue interval (requests ++ [.sleep seconds]) =
      (elapsed requests + seconds) / interval + 1 := by
  have hsleep : ∃ request ∈ requests ++ [.sleep seconds], request.IsSleep :=
    ⟨.sleep seconds, by simp, trivial⟩
  rw [fetchesDue, if_pos hsleep, elapsed_concat]
  rfl

theorem fetchesDue_concat_of_not_isSleep {request : RefresherRequest} (h : ¬ request.IsSleep) :
    fetchesDue interval (requests ++ [request]) = fetchesDue interval requests := by
  have hseconds : request.seconds = 0 := by
    cases request <;> first | rfl | exact absurd trivial h
  have hsleep : (∃ r ∈ requests ++ [request], r.IsSleep) ↔ ∃ r ∈ requests, r.IsSleep := by
    simp [or_and_right, exists_or, h]
  simp only [fetchesDue, hsleep, elapsed_concat, hseconds, Nat.add_zero]

theorem fetchesDue_le : fetchesDue interval requests ≤ elapsed requests / interval + 1 := by
  unfold fetchesDue
  split
  · exact Nat.le_refl _
  · exact Nat.zero_le _

end Time

/-! ### Fetches -/

/-- One more fetch replaces the catalog if it succeeds. -/
theorem IsLastGood.succ {outcome : Nat → Option (List CatalogEntry)} {count : Nat}
    {catalog : List CatalogEntry} (h : IsLastGood outcome count catalog) :
    IsLastGood outcome (count + 1) ((outcome count).getD catalog) := by
  cases hcount : outcome count with
  | some fresh => exact .inl ⟨count, Nat.lt_succ_self _, hcount, fun k hlt hle => by omega⟩
  | none =>
      have hnone : ∀ k, k < count + 1 → k = count ∨ k < count := fun k hk => by omega
      rcases h with ⟨last, hlast, hgood, hbad⟩ | ⟨hbad, hempty⟩
      · refine .inl ⟨last, Nat.lt_succ_of_lt hlast, hgood, fun k hlt hk => ?_⟩
        rcases hnone k hk with rfl | hk
        · exact hcount
        · exact hbad k hlt hk
      · refine .inr ⟨fun k hk => ?_, hempty⟩
        rcases hnone k hk with rfl | hk
        · exact hcount
        · exact hbad k hk

namespace Refresher

/-- The refresher at another moment. -/
def withNow (now : Nat) (r : Refresher) : Refresher :=
  { r with now := now }

section Fetches

variable {r : Refresher}

@[simp] theorem fetchTimes_interval (count : Nat) :
    (fetchTimes count r).interval = r.interval := by
  induction count generalizing r with
  | zero => rfl
  | succ count ih => exact ih

@[simp] theorem fetchTimes_outcome (count : Nat) : (fetchTimes count r).outcome = r.outcome := by
  induction count generalizing r with
  | zero => rfl
  | succ count ih => exact ih

@[simp] theorem fetchTimes_now (count : Nat) : (fetchTimes count r).now = r.now := by
  induction count generalizing r with
  | zero => rfl
  | succ count ih => exact ih

@[simp] theorem fetchTimes_fetched (count : Nat) :
    (fetchTimes count r).fetched = r.fetched + count := by
  induction count generalizing r with
  | zero => rfl
  | succ count ih => rw [fetchTimes, ih, fetch, Nat.add_assoc, Nat.add_comm 1]

theorem isLastGood_fetchTimes (h : IsLastGood r.outcome r.fetched r.snapshot) (count : Nat) :
    IsLastGood r.outcome (r.fetched + count) (fetchTimes count r).snapshot := by
  induction count generalizing r with
  | zero => exact h
  | succ count ih =>
      have hfetch := ih (r := r.fetch) h.succ
      rwa [fetch, Nat.add_assoc, Nat.add_comm 1] at hfetch

/-- What a fetch does doesn't depend on the moment. -/
theorem fetchTimes_withNow (count now : Nat) :
    fetchTimes count (r.withNow now) = (fetchTimes count r).withNow now := by
  induction count generalizing r with
  | zero => rfl
  | succ count ih => exact ih (r := r.fetch)

/-- A sleep makes the fetches that became due, at the moment when it is over. -/
theorem sleep_eq (seconds : Nat) : r.sleep seconds =
    (fetchTimes (due r.interval (r.now + seconds) - r.fetched) r).withNow (r.now + seconds) :=
  fetchTimes_withNow _ _

theorem sleep_interval (seconds : Nat) : (r.sleep seconds).interval = r.interval :=
  fetchTimes_interval _

theorem sleep_outcome (seconds : Nat) : (r.sleep seconds).outcome = r.outcome :=
  fetchTimes_outcome _

theorem sleep_now (seconds : Nat) : (r.sleep seconds).now = r.now + seconds :=
  fetchTimes_now _

theorem sleep_fetched (seconds : Nat) : (r.sleep seconds).fetched =
    r.fetched + (due r.interval (r.now + seconds) - r.fetched) :=
  fetchTimes_fetched _

theorem due_le_due (interval : Nat) {now later : Nat} (h : now ≤ later) :
    due interval now ≤ due interval later :=
  Nat.succ_le_succ (Nat.div_le_div_right h)

end Fetches

/-- The state of a refresher that was started and got some requests, none of which stopped it. -/
structure IsAfter (interval : Nat) (outcome : Nat → Option (List CatalogEntry))
    (requests : List RefresherRequest) (r : Refresher) : Prop where
  interval_eq : r.interval = interval
  outcome_eq : r.outcome = outcome
  now_eq : r.now = elapsed requests
  fetched_eq : r.fetched = fetchesDue interval requests
  isLastGood : IsLastGood outcome r.fetched r.snapshot

section IsAfter

variable {interval : Nat} {outcome : Nat → Option (List CatalogEntry)}
  {requests : List RefresherRequest} {r : Refresher}

theorem IsAfter.sleep (h : IsAfter interval outcome requests r) (seconds : Nat) :
    IsAfter interval outcome (requests ++ [.sleep seconds]) (r.sleep seconds) := by
  obtain ⟨rfl, rfl, hnow, hfetched, hgood⟩ := h
  have hle : r.fetched ≤ due r.interval (r.now + seconds) := by
    rw [hfetched, hnow]
    exact Nat.le_trans fetchesDue_le (due_le_due _ (Nat.le_add_right _ _))
  refine ⟨sleep_interval _, sleep_outcome _, ?_, ?_, ?_⟩
  · rw [sleep_now, hnow, elapsed_concat]
    rfl
  · rw [sleep_fetched, Nat.add_sub_cancel' hle, fetchesDue_concat_sleep, ← hnow]
    rfl
  · rw [sleep_fetched, sleep_eq]
    exact isLastGood_fetchTimes hgood _

/-- Where no time passes nothing is fetched. -/
theorem IsAfter.concat (h : IsAfter interval outcome requests r) (request : RefresherRequest)
    (hsleep : ¬ request.IsSleep) : IsAfter interval outcome (requests ++ [request]) r := by
  have hseconds : request.seconds = 0 := by
    cases request <;> first | rfl | exact absurd trivial hsleep
  refine ⟨h.interval_eq, h.outcome_eq, ?_, ?_, h.isLastGood⟩
  · rw [elapsed_concat, hseconds, Nat.add_zero, h.now_eq]
  · rw [fetchesDue_concat_of_not_isSleep hsleep, h.fetched_eq]

end IsAfter

end Refresher

namespace RefresherState

/-- The state of a refresher that was started and got some requests. -/
def IsAfter (interval : Nat) (outcome : Nat → Option (List CatalogEntry))
    (requests : List RefresherRequest) : RefresherState → Prop
  | running r => (∀ request ∈ requests, ¬ request.IsStop) ∧ r.IsAfter interval outcome requests
  | stopped count => ∃ front stop back, requests = front ++ stop :: back ∧ stop.IsStop ∧
      count = fetchesDue interval front

section Run

variable {interval : Nat} {outcome : Nat → Option (List CatalogEntry)}
  {requests : List RefresherRequest} {state : RefresherState}

/-- Every request keeps the account of the requests so far. -/
theorem IsAfter.step (h : state.IsAfter interval outcome requests) (request : RefresherRequest) :
    (state.step request).2.IsAfter interval outcome (requests ++ [request]) := by
  cases state with
  | stopped count =>
      obtain ⟨front, stop, back, rfl, hstop, hcount⟩ := h
      exact ⟨front, stop, back ++ [request], by simp, hstop, hcount⟩
  | running r =>
      obtain ⟨hrunning, hr⟩ := h
      have hconcat : ¬ request.IsStop → ∀ r ∈ requests ++ [request], ¬ r.IsStop := by
        intro hrequest r hmem
        rcases List.mem_append.1 hmem with hmem | hmem
        · exact hrunning r hmem
        · rwa [List.mem_singleton.1 hmem]
      cases request with
      | sleep seconds => exact ⟨hconcat not_false, hr.sleep seconds⟩
      | snapshot => exact ⟨hconcat not_false, hr.concat _ not_false⟩
      | get name => exact ⟨hconcat not_false, hr.concat _ not_false⟩
      | shutdown => exact ⟨requests, .shutdown, [], rfl, trivial, hr.fetched_eq⟩
      | drop => exact ⟨requests, .drop, [], rfl, trivial, hr.fetched_eq⟩

@[simp] theorem afterAll_nil (state : RefresherState) : state.afterAll [] = state := rfl

theorem afterAll_append (state : RefresherState) (before after : List RefresherRequest) :
    state.afterAll (before ++ after) = (state.afterAll before).afterAll after :=
  List.foldl_append

theorem afterAll_concat (state : RefresherState) (before : List RefresherRequest)
    (request : RefresherRequest) :
    state.afterAll (before ++ [request]) = ((state.afterAll before).step request).2 := by
  rw [afterAll_append]
  rfl

end Run

/-! ### A fetch that fails -/

namespace OneOutage

def network : CatalogEntry := ⟨"network/vpc", []⟩

/-- The second fetch fails, the third one finds nothing. -/
def outcome : Nat → Option (List CatalogEntry)
  | 0 => some [network]
  | 1 => none
  | _ => some []

def requests : List RefresherRequest :=
  [.sleep 100, .get "network/vpc", .shutdown, .sleep 500]

end OneOutage

end RefresherState

end InfraGraph
