import InfraGraph.Config.Extract
import InfraGraph.Proofs.Failure
import InfraGraph.Proofs.Hcl.Keys
import InfraGraph.Proofs.SortedMap

/-!
# Declarations of a configuration file

Blocks are gone through one after the other, and a dependency counts only if no block before it has
its name.  So the dependencies that a file declares have different names, however often it repeats
them.
-/

namespace InfraGraph.ParsedConfig

theorem nodup_addDependency {dependencies result : List (String × String)} {block : Hcl.Block}
    (hnodup : (dependencies.map (·.1)).Nodup)
    (h : addDependency dependencies block = .ok result) : (result.map (·.1)).Nodup := by
  unfold addDependency at h
  split at h
  · cases h
  · rename_i name _ _
    split at h
    · obtain rfl := Except.ok.inj h
      exact hnodup
    · rename_i hnew
      split at h
      · cases h
      · obtain rfl := Except.ok.inj h
        simp only [List.any_eq_true, decide_eq_true_eq, not_exists, not_and] at hnew
        rw [List.map_append, List.nodup_append]
        refine ⟨hnodup, by simp, ?_⟩
        rintro taken htaken _ hown rfl
        obtain ⟨d, hd, hname⟩ := List.mem_map.1 htaken
        exact hnew d hd (hname.trans (List.mem_singleton.1 hown))

theorem nodup_addBlock {config result : ParsedConfig} {block : Hcl.Block}
    (hnodup : (config.dependencies.map (·.1)).Nodup) (h : addBlock config block = .ok result) :
    (result.dependencies.map (·.1)).Nodup := by
  unfold addBlock at h
  split at h
  · exact Except.ok.inj h ▸ hnodup
  · split at h
    · exact Except.ok.inj h ▸ hnodup
    · split at h
      · obtain ⟨dependencies, hadd, rfl⟩ := map_eq_ok_iff.1 h
        exact nodup_addDependency hnodup hadd
      · exact Except.ok.inj h ▸ hnodup

/-- No two dependencies that a file declares have the same name. -/
theorem nodup_names {text : String} {config : ParsedConfig} (h : parse text = .ok config) :
    (config.dependencies.map (·.1)).Nodup := by
  unfold parse at h
  split at h
  · cases h
  · obtain ⟨inputs, _, hblocks⟩ := bind_eq_ok_iff.1 h
    exact foldlM_invariant (P := fun config => (config.dependencies.map (·.1)).Nodup)
      (fun _ _ _ => nodup_addBlock) List.nodup_nil hblocks

/-! ### Names of variables -/

theorem isIdentifier_of_mem_addLocals {locals : SortedMap String} {block : Hcl.Block}
    (hlocals : ∀ key ∈ locals.keys, Hcl.IsIdentifier key.toList)
    (hblock : ∀ entry ∈ block.body.attributes, Hcl.IsIdentifier entry.1.toList) :
    ∀ key ∈ (addLocals locals block).keys, Hcl.IsIdentifier key.toList := by
  unfold addLocals
  generalize block.body.attributes = entries at hblock
  induction entries generalizing locals with
  | nil => exact hlocals
  | cons entry entries ih =>
      obtain ⟨hentry, hentries⟩ := List.forall_mem_cons.1 hblock
      refine ih (fun key hkey => ?_) hentries
      rcases SortedMap.mem_keys_insert.1 hkey with rfl | hkey
      · exact hentry
      · exact hlocals key hkey

theorem isIdentifier_of_mem_addBlock {config result : ParsedConfig} {block : Hcl.Block}
    (hlocals : ∀ key ∈ config.locals.keys, Hcl.IsIdentifier key.toList)
    (hblock : ∀ entry ∈ block.body.attributes, Hcl.IsIdentifier entry.1.toList)
    (h : addBlock config block = .ok result) :
    ∀ key ∈ result.locals.keys, Hcl.IsIdentifier key.toList := by
  unfold addBlock at h
  split at h
  · exact Except.ok.inj h ▸ isIdentifier_of_mem_addLocals hlocals hblock
  · split at h
    · exact Except.ok.inj h ▸ hlocals
    · split at h
      · obtain ⟨dependencies, _, rfl⟩ := map_eq_ok_iff.1 h
        exact hlocals
      · exact Except.ok.inj h ▸ hlocals

/-- The local variables that a file declares have identifiers as names. -/
theorem isIdentifier_of_mem_locals {text : String} {config : ParsedConfig}
    (h : parse text = .ok config) : ∀ key ∈ config.locals.keys, Hcl.IsIdentifier key.toList := by
  unfold parse at h
  split at h
  · cases h
  · rename_i body hbody
    obtain ⟨inputs, _, hblocks⟩ := bind_eq_ok_iff.1 h
    have hnamed := Hcl.isIdentifier_of_mem_blocks (Hcl.hasIdentifiers_of_parse? hbody)
    exact foldlM_invariant_of_mem (P := fun config => ∀ key ∈ config.locals.keys,
      Hcl.IsIdentifier key.toList) (fun _ block hblock _ hlocals hadd =>
        isIdentifier_of_mem_addBlock hlocals (hnamed block hblock) hadd)
      (fun _ hkey => absurd hkey List.not_mem_nil) hblocks

end InfraGraph.ParsedConfig
