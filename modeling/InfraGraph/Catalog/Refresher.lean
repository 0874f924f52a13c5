import InfraGraph.Catalog.Basic

/-!
# Keeping a catalog up to date

A refresher fetches the catalog when it starts and again after every interval.  It serves the last
catalog that was fetched successfully, and stops for good when it is told to.
-/

namespace InfraGraph

/-- A refresher at a moment of time. -/
structure Refresher where
  /-- The seconds between two fetches. -/
  interval : Nat
  /-- What the fetches yield, counted from zero.  A fetch may fail. -/
  outcome : Nat → Option (List CatalogEntry)
  /-- The seconds since the start. -/
  now : Nat
  /-- How many fetches were made. -/
  fetched : Nat
  /-- The catalog that is served. -/
  snapshot : List CatalogEntry

namespace Refresher

/-- The seconds between two fetches if nothing else is said: half a day. -/
def defaultInterval : Nat := 12 * 60 * 60

/-- A refresher that starts now. -/
def start (interval : Nat) (outcome : Nat → Option (List CatalogEntry)) : Refresher :=
  ⟨interval, outcome, 0, 0, []⟩

/-- Makes the next fetch.  If it fails the catalog stays as it is. -/
def fetch (r : Refresher) : Refresher :=
  { r with fetched := r.fetched + 1, snapshot := (r.outcome r.fetched).getD r.snapshot }

/-- The number of fetches that are due at a moment: one at the start and one after each interval. -/
def due (interval now : Nat) : Nat :=
  now / interval + 1

/-- Makes a number of fetches. -/
def fetchTimes : (count : Nat) → Refresher → Refresher
  | 0, r => r
  | count + 1, r => fetchTimes count r.fetch

/-- Lets time pass, in which the fetches that become due are made. -/
def sleep (seconds : Nat) (r : Refresher) : Refresher :=
  let now := r.now + seconds
  fetchTimes (due r.interval now - r.fetched) { r with now := now }

/-- The first module of the catalog with a name. -/
def get? (r : Refresher) (name : String) : Option CatalogEntry :=
  r.snapshot.find? fun e => e.moduleName = name

end Refresher

/-- A refresher that runs or was stopped.  A stopped one keeps the number of its fetches. -/
inductive RefresherState where
  | running (refresher : Refresher)
  | stopped (fetched : Nat)

/-- What a refresher is asked to do. -/
inductive RefresherRequest where
  /-- To let seconds pass. -/
  | sleep (seconds : Nat)
  /-- To show the catalog that is served. -/
  | snapshot
  /-- To look up a module by its name. -/
  | get (name : String)
  /-- To stop for good and show the last catalog. -/
  | shutdown
  /-- To stop for good. -/
  | drop
  deriving DecidableEq, Repr

/-- What a refresher answers. -/
inductive RefresherAnswer where
  /-- It was done. -/
  | done
  /-- There is nothing to show. -/
  | nothing
  | catalog (entries : List CatalogEntry)
  | entry (entry : CatalogEntry)
  deriving DecidableEq, Repr

namespace RefresherState

/-- How many fetches were made. -/
def fetched : RefresherState → Nat
  | running r => r.fetched
  | stopped n => n

/-- What a running refresher answers, and the state it is in then. -/
def respond (r : Refresher) : RefresherRequest → RefresherAnswer × RefresherState
  | .sleep seconds => (.done, running (r.sleep seconds))
  | .snapshot => (.catalog r.snapshot, running r)
  | .get name => (((r.get? name).map .entry).getD .nothing, running r)
  | .shutdown => (.catalog r.snapshot, stopped r.fetched)
  | .drop => (.done, stopped r.fetched)

/-- What a stopped refresher answers.  It serves no catalog, and time changes nothing for it. -/
def respondStopped : RefresherRequest → RefresherAnswer
  | .snapshot => .nothing
  | .get _ => .nothing
  | _ => .done

/-- Answers a request. -/
def step (state : RefresherState) (request : RefresherRequest) :
    RefresherAnswer × RefresherState :=
  match state with
  | running r => respond r request
  | stopped n => (respondStopped request, stopped n)

/-- Answers requests one after the other, and says after each how many fetches were made. -/
def answers (state : RefresherState) : List RefresherRequest → List (RefresherAnswer × Nat)
  | [] => []
  | request :: rest =>
    let (answer, next) := state.step request
    (answer, next.fetched) :: next.answers rest

end RefresherState

end InfraGraph
