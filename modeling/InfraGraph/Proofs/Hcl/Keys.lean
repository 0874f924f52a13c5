import Mathlib.Data.List.TakeWhile
import InfraGraph.Proofs.Hcl.Lexical

/-!
# Keys of attributes are identifiers

Whatever the text of a file is, the attributes that are read from it have identifiers as keys, at
the top of the file and in its blocks.
-/

namespace InfraGraph.Hcl

theorem isIdentifier_of_readIdentifier {cs rest : List Char} {name : String}
    (h : readIdentifier cs = some (name, rest)) : IsIdentifier name.toList := by
  unfold readIdentifier at h
  split at h
  · cases h
  · split at h
    · rename_i first more hfirst
      obtain ⟨rfl, _⟩ := Prod.mk.inj (Option.some.inj h)
      rw [String.toList_ofList]
      exact ⟨hfirst, fun c hc => List.mem_takeWhile_imp hc⟩
    · cases h

/-- The keys of a part, and of what a block holds directly, are identifiers. -/
def Structure.HasIdentifiers : Structure → Prop
  | .attribute key _ => IsIdentifier key.toList
  | .block _ _ body => ∀ entry ∈ Body.attributes body, IsIdentifier entry.1.toList

theorem isIdentifier_of_mem_attributes {body : Body}
    (h : ∀ part ∈ body, part.HasIdentifiers) :
    ∀ entry ∈ body.attributes, IsIdentifier entry.1.toList := by
  intro entry hentry
  obtain ⟨part, hpart, hentry⟩ := List.mem_filterMap.1 hentry
  obtain ⟨key, e⟩ | ⟨type, labels, inner⟩ := part
  · obtain rfl := Option.some.inj hentry
    exact h _ hpart
  · cases hentry

theorem isIdentifier_of_mem_blocks {body : Body} (h : ∀ part ∈ body, part.HasIdentifiers) :
    ∀ block ∈ body.blocks, ∀ entry ∈ block.body.attributes, IsIdentifier entry.1.toList := by
  intro block hblock
  obtain ⟨part, hpart, hblock⟩ := List.mem_filterMap.1 hblock
  obtain ⟨key, e⟩ | ⟨type, labels, inner⟩ := part
  · cases hblock
  · obtain rfl := Option.some.inj hblock
    exact h _ hpart

theorem addStructure_eq_some {part : Structure} {body result : Body}
    (h : addStructure part body = some result) : result = part :: body := by
  obtain ⟨key, e⟩ | ⟨type, labels, inner⟩ := part
  · rw [addStructure] at h
    split at h
    · cases h
    · exact (Option.some.inj h).symm
  · exact (Option.some.inj h).symm

/-- The induction is on the fuel, which bodies, parts and blocks share. -/
theorem hasIdentifiers_of_read (fuel : Nat) :
    (∀ cs body rest, readBody fuel cs = some (body, rest) →
        ∀ part ∈ body, part.HasIdentifiers) ∧
      (∀ cs part rest, readStructure fuel cs = some (part, rest) → part.HasIdentifiers) ∧
      ∀ cs body rest, readBlockBody fuel cs = some (body, rest) →
        ∀ part ∈ body, part.HasIdentifiers := by
  induction fuel with
  | zero => simp [readBody, readStructure, readBlockBody]
  | succ fuel ih =>
      obtain ⟨hbody, hpart, hblock⟩ := ih
      refine ⟨fun cs body rest h => ?_, fun cs part rest h => ?_, fun cs body rest h => ?_⟩
      · rw [readBody] at h
        split at h
        · simp_all
        · simp_all
        · simp only [Option.bind_eq_bind, Option.bind_eq_some_iff, Prod.exists] at h
          obtain ⟨part, after, hread, line, hline, body', rest', hmore, body'', hadd, hpure⟩ := h
          obtain ⟨rfl, rfl⟩ := Prod.mk.inj (Option.some.inj hpure)
          obtain rfl := addStructure_eq_some hadd
          exact List.forall_mem_cons.2 ⟨hpart _ _ _ hread, hbody _ _ _ hmore⟩
      · rw [readStructure] at h
        simp only [Option.bind_eq_bind, Option.bind_eq_some_iff, Prod.exists] at h
        obtain ⟨name, after, hname, h⟩ := h
        split at h
        · simp only [Option.bind_eq_some_iff, Prod.exists] at h
          obtain ⟨value, after', _, hpure⟩ := h
          obtain ⟨rfl, rfl⟩ := Prod.mk.inj (Option.some.inj hpure)
          exact isIdentifier_of_readIdentifier hname
        · simp only [Option.bind_eq_some_iff, Prod.exists] at h
          obtain ⟨labels, after', _, body, rest', hinner, hpure⟩ := h
          obtain ⟨rfl, rfl⟩ := Prod.mk.inj (Option.some.inj hpure)
          exact isIdentifier_of_mem_attributes (hblock _ _ _ hinner)
      · rw [readBlockBody] at h
        split at h
        · simp_all
        · split at h
          · simp only [Option.bind_eq_bind, Option.bind_eq_some_iff, Prod.exists] at h
            obtain ⟨body', rest', hread, _, _, hpure⟩ := h
            obtain ⟨rfl, rfl⟩ := Prod.mk.inj (Option.some.inj hpure)
            exact hbody _ _ _ hread
          · simp only [readAttribute, Option.bind_eq_bind, Option.bind_eq_some_iff,
              Prod.exists] at h
            obtain ⟨part, after, ⟨key, after', hkey, value, _, _, hattribute⟩, _, _, hpure⟩ := h
            obtain ⟨rfl, rfl⟩ := Prod.mk.inj (Option.some.inj hpure)
            obtain ⟨rfl, rfl⟩ := Prod.mk.inj (Option.some.inj hattribute)
            exact List.forall_mem_singleton.2 (isIdentifier_of_readIdentifier hkey)

theorem hasIdentifiers_of_parse? {text : String} {body : Body} (h : parse? text = some body) :
    ∀ part ∈ body, part.HasIdentifiers := by
  unfold parse? at h
  simp only at h
  split at h
  · rename_i body' hread
    obtain rfl := Option.some.inj h
    exact (hasIdentifiers_of_read _).1 _ _ _ hread
  · cases h

end InfraGraph.Hcl
