import InfraGraph.Attachment.Directory
import InfraGraph.Proofs.Import.Upload

/-!
# Asking stores

A store is used by asking it one thing after the other, and a store in a directory may be opened
again in between.  Two stores that answer every request alike, and are alike again afterwards,
answer every sequence of requests alike.
-/

namespace InfraGraph

namespace StoreM

variable {σ : Type} {s t : σ} {next : σ → Except StoreError σ}

theorem runIn_changeOrFail (h : next s = .ok t) :
    runIn s (changeOrFail next) = (.ok (), t) := by
  simp only [runIn, changeOrFail, ExceptT.run_mk, StateT.run, h]

theorem runIn_changeOrFail_error {e : StoreError} (h : next s = .error e) :
    runIn s (changeOrFail next) = (.error e, s) := by
  simp only [runIn, changeOrFail, ExceptT.run_mk, StateT.run, h]

end StoreM

/-- What a store gives back for a request. -/
inductive StoreAnswer where
  | id (id : String)
  | record (record : Option Attachment)
  | contents (contents : Option ByteArray)
  | records (records : List Attachment)
  | done

/-- The answer to a request, or the failure. -/
def StoreRequest.answer {σ : Type} [AttachmentStore σ] (s : σ) :
    StoreRequest → Except StoreError StoreAnswer
  | put name nodeId contents =>
    (StoreM.runIn s (AttachmentStore.put name nodeId contents)).1.map .id
  | stat id => (StoreM.runIn s (AttachmentStore.stat id)).1.map .record
  | get id => (StoreM.runIn s (AttachmentStore.get id)).1.map .contents
  | list => (StoreM.runIn s AttachmentStore.list).1.map .records
  | deleteAll => (StoreM.runIn s AttachmentStore.deleteAll).1.map fun _ => .done
  | deleteOne id => (StoreM.runIn s (AttachmentStore.deleteOne id)).1.map fun _ => .done
  | deleteOfNode nodeId =>
    (StoreM.runIn s (AttachmentStore.deleteOfNode nodeId)).1.map fun _ => .done

/-- A store that can be opened again. -/
class ReopenableStore (σ : Type) extends AttachmentStore σ where
  reopen : StoreM σ Unit

instance : ReopenableStore MemoryStore where
  reopen := pure ()

instance : ReopenableStore DirectoryStore where
  reopen := StoreM.changeOrFail fun store =>
    (DirectoryStore.openAt store.files store.path).mapError .file

/-- One step in the use of a store. -/
inductive StoreStep where
  | request (request : StoreRequest)
  | reopen

section Steps

variable {σ τ : Type} [ReopenableStore σ] [ReopenableStore τ]

def StoreStep.answer (s : σ) : StoreStep → Except StoreError StoreAnswer
  | request r => r.answer s
  | reopen => (StoreM.runIn s ReopenableStore.reopen).1.map fun _ => .done

def StoreStep.next (s : σ) : StoreStep → σ
  | request r => r.perform s
  | reopen => (StoreM.runIn s ReopenableStore.reopen).2

/-- The answers to all steps. -/
def answers (s : σ) : List StoreStep → List (Except StoreError StoreAnswer)
  | [] => []
  | step :: rest => step.answer s :: answers (step.next s) rest

/-- The state after all steps. -/
def afterAll (s : σ) (steps : List StoreStep) : σ :=
  steps.foldl StoreStep.next s

theorem afterAll_concat (s : σ) (steps : List StoreStep) (step : StoreStep) :
    afterAll s (steps ++ [step]) = step.next (afterAll s steps) :=
  List.foldl_concat _ _ _ _

/-- Stores that stay alike give the same answers. -/
theorem answers_eq_of_alike {Alike : σ → τ → Prop} {Allowed : StoreStep → Prop}
    (hstep : ∀ s t step, Alike s t → Allowed step →
      step.answer s = step.answer t ∧ Alike (step.next s) (step.next t))
    {s : σ} {t : τ} (h : Alike s t) {steps : List StoreStep}
    (hsteps : ∀ step ∈ steps, Allowed step) : answers s steps = answers t steps := by
  induction steps generalizing s t with
  | nil => rfl
  | cons step rest ih =>
      rw [List.forall_mem_cons] at hsteps
      obtain ⟨hanswer, hnext⟩ := hstep s t step h hsteps.1
      rw [answers, answers, hanswer, ih hnext hsteps.2]

end Steps

/-! ### What is uploaded -/

/-- The file that a step uploads.  A file without a valid name isn't uploaded. -/
def StoreStep.upload? : StoreStep → Option Upload
  | request (.put name nodeId contents) =>
    if Attachment.isValidName name then some ⟨nodeId, name, contents⟩ else none
  | _ => none

/-- The files that are uploaded by some steps. -/
def uploadsOf (steps : List StoreStep) : List Upload :=
  steps.filterMap StoreStep.upload?

theorem toList_upload?_subset {steps : List StoreStep} {step : StoreStep} (h : step ∈ steps) :
    step.upload?.toList ⊆ uploadsOf steps :=
  fun _ hu => List.mem_filterMap.2 ⟨step, h, Option.mem_toList.1 hu⟩

theorem uploadsOf_cons_subset {step : StoreStep} {rest : List StoreStep} {uploads : List Upload}
    (h : uploadsOf (step :: rest) ⊆ uploads) :
    step.upload?.toList ⊆ uploads ∧ uploadsOf rest ⊆ uploads :=
  ⟨List.Subset.trans (toList_upload?_subset List.mem_cons_self) h,
    List.Subset.trans ((List.sublist_cons_self step rest).filterMap _).subset h⟩

end InfraGraph
