import Mathlib.Logic.Relation
import InfraGraph.Proofs.Import.Directories
import InfraGraph.Proofs.Import.PathIds

/-!
# Scans side by side

A scan of a directory takes an id into use, reads the configuration, waits for the scans of the
directories in it, and then keeps the directory or gives the id back.  Scans of directories beside
one another run at the same time and share the ids in use.  Claiming an id and giving one back are
single steps; which scan makes the next step is open, and so is what is drawn at random.

At any time the ids in use are those that scans hold, each of them once.  So whatever the schedule,
no two nodes get the same id.  If no two directories to be scanned make the same id, then nothing is
drawn at random, and every node has the id of its directory.  Going through the directories one
after the other is one of the schedules.
-/

namespace InfraGraph

/-! ### Claiming an id -/

/-- The id that a claim comes to.  As long as an id is in use another one is drawn at random. -/
inductive NodeIds.Draws (used : List String) : (id drawn : String) → Prop
  | unused {id : String} (h : id ∉ used) : Draws used id id
  | inUse {id random drawn : String} (h : id ∈ used) (hrest : Draws used random drawn) :
    Draws used id drawn

theorem NodeIds.Draws.not_mem {used : List String} {id drawn : String}
    (h : Draws used id drawn) : drawn ∉ used := by
  induction h with
  | unused h => exact h
  | inUse _ _ ih => exact ih

theorem NodeIds.Draws.eq_of_not_mem {used : List String} {id drawn : String}
    (h : Draws used id drawn) (hnew : id ∉ used) : drawn = id := by
  cases h with
  | unused _ => rfl
  | inUse h _ => exact absurd h hnew

theorem NodeIds.draws_claim {draw : Nat → String} {ids claimed : NodeIds} {path id : String}
    (h : ids.claim draw path = (id, claimed)) : Draws ids.used (ofPath path) id := by
  have hnew := (claim_new h).1
  by_cases hused : ofPath path ∈ ids.used
  · exact .inUse hused (.unused hnew)
  · rw [← claim_of_new h hused]
    exact .unused hnew

/-! ### Steps -/

/-- A directory to be scanned, as a place to start from and the names that lead on from there. -/
structure Call where
  top : String
  parts : List String
  depth : Nat
  parentId : Option String
  entries : List (String × FileTree)

namespace Call

def path (call : Call) : String :=
  Path.walk call.top call.parts

def files (call : Call) : List (String × ByteArray) :=
  FileTree.plainFiles call.entries

def classification (call : Call) : Classification :=
  .ofEntries call.entries

/-- The folders among the entries of a directory. -/
def within (top : String) (parts : List String) (depth : Nat) (parentId : Option String) :
    List (String × FileTree) → List Call
  | [] => []
  | (name, .folder entries) :: rest =>
    ⟨top, parts ++ [name], depth, parentId, entries⟩ :: within top parts depth parentId rest
  | _ :: rest => within top parts depth parentId rest

/-- The directories that have to be scanned before this one is. -/
def below (call : Call) (id : String) : List Call :=
  within call.top call.parts (call.depth + 1) (some id) call.entries

/-- What the directory itself yields. -/
def yields (scanner : Scanner) (call : Call) (id : String) (settled : Scanner.Settled) : Scanned :=
  Scanner.ownOutput id (scanner.relative call.path)
    ((Path.fileName? call.path).getD (scanner.relative call.path)) call.parentId call.depth settled
    (Scanner.uploadsOf id call.classification call.files)

end Call

/-- The node of the directory comes before those that are found below. -/
theorem Call.nodes_yields_append (scanner : Scanner) (call : Call) (id : String)
    (settled : Scanner.Settled) (found : Scanned) :
    ∃ node fault, node.id = id ∧ (call.yields scanner id settled ++ found).output.nodes =
      ⟨node, scanner.relative call.path, fault⟩ :: found.output.nodes :=
  ⟨_, _, rfl, rfl⟩

/-- How far the scan of a directory has come. -/
inductive Run where
  | called (call : Call)
  | claimed (call : Call) (id : String)
  /-- The directories in it are scanned. -/
  | waiting (call : Call) (id : String) (settled : Scanner.Settled) (below : List Run)
  | finished (scanned : Scanned)
  /-- The scan has failed or isn't waited for any more.  Its ids stay in use. -/
  | failed (held : List String)

namespace Run

mutual

/-- The ids that a scan has claimed and not given back, with those of the scans it waits for. -/
def held : Run → List String
  | .called _ => []
  | .claimed _ id => [id]
  | .waiting _ id _ below => id :: allHeld below
  | .finished scanned => scanned.output.nodes.map (·.node.id)
  | .failed held => held

def allHeld : List Run → List String
  | [] => []
  | run :: rest => run.held ++ allHeld rest

end

/-- The nodes of a scan that has come to its end. -/
def nodes : Run → List ScannedNode
  | .finished scanned => scanned.output.nodes
  | _ => []

end Run

/-- One step of one scan, and what it does to the ids in use. -/
inductive Scanner.Step (scanner : Scanner) :
    (used : List String) → Run → (used' : List String) → Run → Prop
  /-- A directory at depth zero without configuration file is refused before. -/
  | claim {used : List String} {call : Call} {id : String}
    (hroot : call.depth = 0 → call.classification ≠ .folder)
    (hid : NodeIds.Draws used (NodeIds.ofPath (scanner.relative call.path)) id) :
    Step scanner used (.called call) (id :: used) (.claimed call id)
  | settle {used : List String} {call : Call} {id : String} {settled : Settled}
    (hsettle : settleFolder call.classification call.path call.files = .ok settled) :
    Step scanner used (.claimed call id) used
      (.waiting call id settled ((call.below id).map .called))
  /-- Any of the scans that are waited for goes on. -/
  | inner {used used' : List String} {call : Call} {id : String} {settled : Settled}
    {front back : List Run} {run run' : Run} (hstep : Step scanner used run used' run') :
    Step scanner used (.waiting call id settled (front ++ run :: back)) used'
      (.waiting call id settled (front ++ run' :: back))
  /-- A directory with nothing in it gives its id back. -/
  | prune {used : List String} {call : Call} {id : String} {settled : Settled}
    {found : List Scanned} (hfiles : call.files = [])
    (hfound : (Scanned.join found).output.nodes = []) :
    Step scanner used (.waiting call id settled (found.map .finished)) (used.erase id)
      (.finished .empty)
  | keep {used : List String} {call : Call} {id : String} {settled : Settled}
    {found : List Scanned}
    (hused : call.files ≠ [] ∨ (Scanned.join found).output.nodes ≠ [])
    (hvalid : ∀ upload ∈ uploadsOf id call.classification call.files,
      Attachment.isValidName upload.name = true) :
    Step scanner used (.waiting call id settled (found.map .finished)) used
      (.finished (call.yields scanner id settled ++ Scanned.join found))
  /-- A scan may fail at any time before its end. -/
  | fail {used : List String} {run : Run} (hrunning : ∀ scanned, run ≠ .finished scanned) :
    Step scanner used run used (.failed run.held)

/-- Scans that run side by side, and the ids in use. -/
structure Scans where
  used : List String
  runs : List Run

namespace Scans

/-- No scan has made a step. -/
def start (calls : List Call) : Scans := ⟨[], calls.map .called⟩

/-- All nodes of the scans that have come to their end. -/
def nodes (s : Scans) : List ScannedNode := s.runs.flatMap Run.nodes

/-- One of the scans makes a step. -/
inductive Step (scanner : Scanner) : Scans → Scans → Prop
  | of {used used' : List String} {front back : List Run} {run run' : Run}
    (hstep : scanner.Step used run used' run') :
    Step scanner ⟨used, front ++ run :: back⟩ ⟨used', front ++ run' :: back⟩

/-- What some scans can come to. -/
def Reaches (scanner : Scanner) : Scans → Scans → Prop :=
  Relation.ReflTransGen (Step scanner)

end Scans

/-! ### The ids in use -/

section Held

variable {scanner : Scanner} {used used' rest : List String} {run run' : Run}

namespace Run

@[simp] theorem allHeld_nil : allHeld [] = [] := by
  rw [allHeld]

@[simp] theorem allHeld_cons (run : Run) (rest : List Run) :
    allHeld (run :: rest) = run.held ++ allHeld rest := by
  rw [allHeld]

@[simp] theorem allHeld_append (front back : List Run) :
    allHeld (front ++ back) = allHeld front ++ allHeld back := by
  induction front with
  | nil => simp
  | cons run front ih => simp [ih]

@[simp] theorem allHeld_called (calls : List Call) : allHeld (calls.map .called) = [] := by
  induction calls with
  | nil => simp
  | cons call calls ih => simp [ih, held]

theorem allHeld_finished (found : List Scanned) :
    allHeld (found.map .finished) = (Scanned.join found).output.nodes.map (·.node.id) := by
  rw [Scanned.nodes_join]
  induction found with
  | nil => simp
  | cons scanned found ih => simp [ih, held]

theorem allHeld_perm (front back : List Run) (run : Run) :
    (allHeld (front ++ run :: back)).Perm (run.held ++ allHeld (front ++ back)) := by
  rw [allHeld_append, allHeld_cons, allHeld_append]
  exact List.perm_append_comm_assoc _ _ _

end Run

/-- The ids in use are those that are held, each of them once. -/
structure Matches (used held : List String) : Prop where
  nodup : used.Nodup
  perm : used.Perm held

theorem Matches.of_perm {held held' : List String} (h : Matches used held)
    (hperm : held.Perm held') : Matches used held' :=
  ⟨h.nodup, h.perm.trans hperm⟩

/-- One step of one scan, beside which others hold the rest of the ids. -/
theorem Scanner.Step.matches (h : scanner.Step used run used' run')
    (hmatches : Matches used (run.held ++ rest)) : Matches used' (run'.held ++ rest) := by
  induction h generalizing rest with
  | claim _ hid =>
      rw [Run.held, List.nil_append] at hmatches
      exact ⟨List.nodup_cons.2 ⟨hid.not_mem, hmatches.nodup⟩, hmatches.perm.cons _⟩
  | settle _ => simpa [Run.held] using hmatches
  | @inner used' call id settled front back run run' _ ih =>
      have hheld : ∀ run, ((Run.waiting call id settled (front ++ run :: back)).held ++ rest).Perm
          (run.held ++ (id :: Run.allHeld (front ++ back) ++ rest)) := by
        intro run
        have hinner := ((Run.allHeld_perm front back run).append_right rest).cons id
        rw [List.append_assoc] at hinner
        exact hinner.trans List.perm_middle.symm
      exact (ih (hmatches.of_perm (hheld run))).of_perm (hheld run').symm
  | @prune call id settled found _ hfound =>
      rw [Run.held, Run.allHeld_finished, hfound] at hmatches
      refine ⟨hmatches.nodup.erase id, ?_⟩
      have herased := hmatches.perm.erase id
      rwa [List.map_nil, List.singleton_append, List.erase_cons_head] at herased
  | @keep call id settled found _ _ =>
      obtain ⟨node, fault, hid, hnodes⟩ :=
        call.nodes_yields_append scanner id settled (Scanned.join found)
      simpa [Run.held, Run.allHeld_finished, hnodes, hid] using hmatches
  | fail _ => exact hmatches

/-- One step of one of some scans. -/
theorem Scans.Step.matches {s t : Scans} (h : Step scanner s t)
    (hmatches : Matches s.used (Run.allHeld s.runs)) : Matches t.used (Run.allHeld t.runs) := by
  obtain ⟨hstep⟩ := h
  exact (hstep.matches (hmatches.of_perm (Run.allHeld_perm _ _ _))).of_perm
    (Run.allHeld_perm _ _ _).symm

/-- Any number of steps of any scans. -/
theorem Scans.Reaches.matches {calls : List Call} {s : Scans}
    (h : Reaches scanner (start calls) s) : Matches s.used (Run.allHeld s.runs) := by
  induction h with
  | refl => exact ⟨List.nodup_nil, by simp [start]⟩
  | tail _ hstep ih => exact hstep.matches ih

/-- The ids of nodes are among those that are held. -/
theorem Scans.ids_sublist (s : Scans) :
    (s.nodes.map (·.node.id)).Sublist (Run.allHeld s.runs) := by
  obtain ⟨used, runs⟩ := s
  rw [nodes]
  induction runs with
  | nil => simp
  | cons run runs ih =>
      rw [List.flatMap_cons, List.map_append, Run.allHeld_cons]
      refine List.Sublist.append ?_ ih
      cases run with
      | finished scanned => rw [Run.held, Run.nodes]
      | called _ | claimed _ _ | waiting _ _ _ _ | failed _ =>
          exact List.nil_sublist _

theorem Scans.Reaches.nodup_ids {calls : List Call} {s : Scans}
    (h : Reaches scanner (start calls) s) : (s.nodes.map (·.node.id)).Nodup :=
  (h.matches.perm.nodup_iff.1 h.matches.nodup).sublist s.ids_sublist

end Held

/-! ### One after the other -/

section Sequential

variable {scanner : Scanner} {used used' : List String} {run run' : Run}

/-- Any number of steps of one scan. -/
def Scanner.Steps (scanner : Scanner) (used : List String) (run : Run) (used' : List String)
    (run' : Run) : Prop :=
  Relation.ReflTransGen (fun before after : List String × Run =>
    scanner.Step before.1 before.2 after.1 after.2) (used, run) (used', run')

theorem Scanner.Steps.reaches (h : scanner.Steps used run used' run') (front back : List Run) :
    Scans.Reaches scanner ⟨used, front ++ run :: back⟩ ⟨used', front ++ run' :: back⟩ := by
  refine Relation.ReflTransGen.lift (p := Scans.Step scanner)
    (fun at' : List String × Run => ⟨at'.1, front ++ at'.2 :: back⟩) ?_ _ _ h
  exact fun _ _ hstep => .of hstep

theorem Scans.Reaches.cons {s t : Scans} (h : Reaches scanner s t) (run : Run) :
    Reaches scanner ⟨s.used, run :: s.runs⟩ ⟨t.used, run :: t.runs⟩ := by
  refine Relation.ReflTransGen.lift (p := Scans.Step scanner)
    (fun s : Scans => ⟨s.used, run :: s.runs⟩) ?_ _ _ h
  rintro _ _ @⟨used, used', front, back, before, after, hstep⟩
  exact @Step.of _ used used' (run :: front) back before after hstep

/-- What some scans can come to they can come to while another one waits for them. -/
theorem Scans.Reaches.waiting {s t : Scans} (h : Reaches scanner s t) (call : Call) (id : String)
    (settled : Scanner.Settled) :
    scanner.Steps s.used (.waiting call id settled s.runs) t.used
      (.waiting call id settled t.runs) := by
  refine Relation.ReflTransGen.lift
    (p := fun before after : List String × Run => scanner.Step before.1 before.2 after.1 after.2)
    (fun s : Scans => (s.used, Run.waiting call id settled s.runs)) ?_ _ _ h
  rintro _ _ ⟨hstep⟩
  exact .inner hstep

/-- A folder can be scanned by going through all folders in it one after the other. -/
def Scanner.IsSchedule (scanner : Scanner) (t : FileTree) : Prop :=
  ∀ (top : String) (parts : List String) (depth : Nat) (parentId : Option String) (ids : NodeIds)
    (entries : List (String × FileTree)), t = .folder entries →
    (scanFolder scanner (Path.walk top parts) depth parentId ids t).1.faults = [] →
    scanner.Steps ids.used (.called ⟨top, parts, depth, parentId, entries⟩)
      (scanFolder scanner (Path.walk top parts) depth parentId ids t).2.used
      (.finished (scanFolder scanner (Path.walk top parts) depth parentId ids t).1)

variable {top : String} {parts : List String} {depth : Nat} {parentId : Option String}
  {ids : NodeIds} {entries : List (String × FileTree)}

theorem Scanner.exists_reaches_of_forall (hall : ∀ entry ∈ entries, scanner.IsSchedule entry.2)
    (h : (scanSubfolders scanner (Path.walk top parts) depth parentId ids entries).1.faults = []) :
    ∃ found, Scans.Reaches scanner
        ⟨ids.used, (Call.within top parts depth parentId entries).map .called⟩
        ⟨(scanSubfolders scanner (Path.walk top parts) depth parentId ids entries).2.used,
          found.map .finished⟩ ∧
      Scanned.join found =
        (scanSubfolders scanner (Path.walk top parts) depth parentId ids entries).1 := by
  induction entries generalizing ids with
  | nil => exact ⟨[], by rw [scanSubfolders]; exact .refl, by rw [scanSubfolders, Scanned.join]⟩
  | cons entry rest ih =>
      obtain ⟨name, t⟩ := entry
      rw [List.forall_mem_cons] at hall
      rw [scanSubfolders, ← Path.walk_concat] at h ⊢
      obtain ⟨hfirst, hrest⟩ := faults_append_eq_nil.1 h
      obtain ⟨found, hreaches, hjoin⟩ := ih hall.2 hrest
      cases t with
      | folder entries =>
          have hsteps := hall.1 top (parts ++ [name]) depth parentId ids entries rfl hfirst
          refine ⟨_ :: found, ?_, by rw [Scanned.join, hjoin]⟩
          exact (hsteps.reaches [] _).trans (hreaches.cons _)
      | file contents =>
          simp only [scanFolder] at hreaches hjoin ⊢
          exact ⟨found, hreaches, hjoin⟩
      | link target =>
          simp only [scanFolder] at hreaches hjoin ⊢
          exact ⟨found, hreaches, hjoin⟩

theorem Scanner.isSchedule (scanner : Scanner) (t : FileTree) : scanner.IsSchedule t := by
  induction t using FileTree.inductionOn with
  | file contents =>
      intro _ _ _ _ _ _ hfolder
      cases hfolder
  | link target =>
      intro _ _ _ _ _ _ hfolder
      cases hfolder
  | folder entries ih =>
      intro top parts depth parentId ids _ heq h
      obtain rfl := FileTree.folder.inj heq
      cases hclaim : ids.claim scanner.draw (scanner.relative (Path.walk top parts)) with
      | mk id claimed =>
          obtain ⟨settled, below, left, hsettle, hroot, hbelow, hfaults, hcases⟩ :=
            scanFolder_cases hclaim h
          obtain ⟨found, hreaches, hjoin⟩ := @exists_reaches_of_forall scanner top parts
            (depth + 1) (some id) claimed entries ih (by rw [hbelow]; exact hfaults)
          rw [hbelow, (NodeIds.claim_new hclaim).2] at hreaches
          rw [hbelow] at hjoin
          simp only at hreaches hjoin
          subst hjoin
          let call : Call := ⟨top, parts, depth, parentId, entries⟩
          have hclaimed : scanner.Steps ids.used (.called call) (id :: ids.used)
              (.claimed call id) := .single (.claim hroot (NodeIds.draws_claim hclaim))
          have hsettled : scanner.Steps (id :: ids.used) (.claimed call id) (id :: ids.used)
              (.waiting call id settled ((call.below id).map .called)) :=
            .single (.settle hsettle)
          have hwait : scanner.Steps ids.used (.called call) left.used
              (.waiting call id settled (found.map .finished)) :=
            (hclaimed.trans hsettled).trans (hreaches.waiting call id settled)
          rcases hcases with ⟨hfiles, hnodes, hscan⟩ | ⟨hused, hscan⟩
          · rw [hscan]
            exact hwait.tail (.prune hfiles hnodes)
          · rw [hscan] at h ⊢
            have hvalid : refusedUploads depth (uploadsOf id call.classification call.files) = [] :=
              (faults_append_eq_nil.1 h).1
            exact hwait.tail (.keep hused (refusedUploads_eq_nil_iff.1 hvalid))

/-- A scan of a tree is one of the schedules. -/
theorem exists_reaches_of_scanTree {fs : FileSystem} {root : String} {draw : Nat → String}
    {output : ScanOutput} {uploads : List Upload}
    (h : scanTree fs root draw = .ok (output, uploads)) :
    ∃ entries used, ∃ found : List Scanned, fs.list root = .ok entries ∧
      Scans.Reaches (Scanner.mk root draw) (.start (Call.within root [] 0 none entries))
        ⟨used, found.map .finished⟩ ∧
      (Scans.mk used (found.map .finished)).nodes = output.nodes := by
  unfold scanTree at h
  split at h
  · split at h
    · cases h
    · rename_i entries hlist
      obtain ⟨hfaults, houtput, _⟩ := Scanned.result_eq_ok_iff.1 h
      obtain ⟨found, hreaches, hjoin⟩ :=
        @Scanner.exists_reaches_of_forall (Scanner.mk root draw) root [] 0 none .empty entries
          (fun entry _ => Scanner.isSchedule _ entry.2) hfaults
      rw [Path.walk_nil] at hjoin
      refine ⟨entries, _, found, hlist, hreaches, ?_⟩
      rw [← houtput, ← hjoin, Scanned.nodes_join, Scans.nodes, List.flatMap_map]
      rfl
  · cases h

end Sequential

end InfraGraph
