import InfraGraph.Proofs.Config.ReadBack
import InfraGraph.Proofs.Hcl.Literals

/-!
# Reading a generated file with literals

A generated file whose values are literals is always read, and declares the source, the keys and the
dependencies that it was made from.  Its values are written again, which gives the same texts back
unless a list goes on behind an element that ends in an empty list.
-/

namespace InfraGraph

open Hcl (IsIdentifier IsPrintable KeepsCommas Expression)
open Hcl.Expression (IsLiteral)

/-- Each value of a map is a literal, and what is written for it stands in the other map. -/
structure RewritesEach (values rewritten : SortedMap String) : Prop where
  keys : rewritten.keys = values.keys
  literal : ∀ key value, values.find? key = some value →
    ∃ e, IsLiteral value.toList e ∧ rewritten.find? key = some e.text ∧
      (e.text = value ↔ e.keepsCommas = true)

section Values

variable {values : String → Expression} {m : SortedMap String}
  (h : ∀ entry ∈ m.toList, IsLiteral entry.2.toList (values entry.2))

include h

theorem rewritesEach_map : RewritesEach m (m.map fun value => (values value).text) := by
  refine ⟨SortedMap.keys_map _ m, fun key value hfind => ?_⟩
  have hliteral := h _ (SortedMap.mem_toList_iff.2 hfind)
  exact ⟨values value, hliteral, by rw [SortedMap.find?_map, hfind, Option.map_some],
    hliteral.text_eq_iff⟩

theorem map_text_eq_self_iff :
    (m.map fun value => (values value).text) = m ↔ ∀ value ∈ m.values, KeepsCommas value := by
  refine ⟨fun heq value hvalue => ?_, fun hkeeps => SortedMap.map_eq_self fun entry hentry => ?_⟩
  · obtain ⟨key, hfind⟩ := SortedMap.mem_values_iff.1 hvalue
    have hsame := SortedMap.find?_map (fun value => (values value).text) m key
    rw [heq, hfind, Option.map_some, Option.some_inj] at hsame
    exact (Hcl.keepsCommas_iff (h _ (SortedMap.mem_toList_iff.2 hfind))).2 hsame.symm
  · exact (Hcl.keepsCommas_iff (h entry hentry)).1 (hkeeps _ (List.mem_map_of_mem hentry))

end Values

namespace ConfigFile

/-- The keys of a file are identifiers, its values are literals, and every other text in it is
printable.  Of the words of the language only `for` is left out, as the key of an input. -/
structure HoldsLiterals (file : ConfigFile) : Prop where
  fileName : ∀ c ∈ file.fileName.toList, c ≠ '\n' ∧ c ≠ '\r'
  source : ∀ source ∈ file.moduleSource, ∀ c ∈ source.toList, IsPrintable c
  locals : ∀ entry ∈ file.locals.toList,
    IsIdentifier entry.1.toList ∧ ∃ e, IsLiteral entry.2.toList e
  inputs : ∀ entry ∈ file.inputs.toList,
    (IsIdentifier entry.1.toList ∧ entry.1 ≠ "for") ∧ ∃ e, IsLiteral entry.2.toList e
  dependencies : ∀ entry ∈ file.dependencies.toList,
    (∀ c ∈ entry.1.toList, IsPrintable c) ∧ ∀ c ∈ entry.2.toList, IsPrintable c

theorem HoldsLiterals.isReadAs {file : ConfigFile} (h : file.HoldsLiterals)
    {values : String → Expression}
    (hlocals : ∀ entry ∈ file.locals.toList, IsLiteral entry.2.toList (values entry.2))
    (hinputs : ∀ entry ∈ file.inputs.toList, IsLiteral entry.2.toList (values entry.2)) :
    file.IsReadAs values where
  fileName := h.fileName
  source source hsource := Hcl.isVerbatim_of_isPrintable (h.source source hsource)
  locals entry hentry := ⟨(h.locals entry hentry).1,
    (hlocals entry hentry).readsAsValue.readsAs Hcl.endsValue_newline⟩
  inputs entry hentry := (h.inputs entry hentry).imp
    (fun hkey => Hcl.isKeyText_of_isIdentifier hkey.1 hkey.2) fun _ =>
      (hinputs entry hentry).readsAsValue.readsAs Hcl.endsValue_newline
  dependencies entry hentry := (h.dependencies entry hentry).imp
    Hcl.isVerbatim_of_isPrintable Hcl.isVerbatim_of_isPrintable

/-- A file with literals is read as what it was made from, with its values written again.  These are
the same exactly if all of them keep their commas. -/
theorem parse_text_literals {file : ConfigFile} (h : file.HoldsLiterals) :
    ∃ config, ParsedConfig.parse file.text = .ok config ∧
      config.source = file.moduleSource ∧ config.dependencies = file.dependencies.toList ∧
      RewritesEach file.locals config.locals ∧ RewritesEach file.inputs config.inputs ∧
      (config = ⟨file.moduleSource, file.locals, file.inputs, file.dependencies.toList⟩ ↔
        ∀ value ∈ file.locals.values ++ file.inputs.values, KeepsCommas value) := by
  choose! values hvalues using
    fun value (hvalue : ∃ e, IsLiteral (String.toList value) e) => hvalue
  have hlocals := fun entry hentry => hvalues _ (h.locals entry hentry).2
  have hinputs := fun entry hentry => hvalues _ (h.inputs entry hentry).2
  refine ⟨_, parse_text_map (h.isReadAs hlocals hinputs), rfl, rfl, rewritesEach_map hlocals,
    rewritesEach_map hinputs, ?_⟩
  rw [List.forall_mem_append, ← map_text_eq_self_iff hlocals, ← map_text_eq_self_iff hinputs]
  simp

end ConfigFile

namespace NestedLists

/-- A file with a list that goes on behind an empty one. -/
def file : ConfigFile where
  fileName := "tier.hcl"
  moduleSource := some "tg-modules//vpc"
  locals := SortedMap.empty.insert "gaps" "[[], 1]"
  inputs := SortedMap.empty.insert "size" "3"
  dependencies := SortedMap.empty.insert "net" "../net"

/-- What the values stand for. -/
def values (value : String) : Expression :=
  if value = "3" then .number (.integer 3) else .array [.array [], .number (.integer 1)]

theorem isLiteral_gaps : IsLiteral "[[], 1]".toList (values "[[], 1]") := by
  have hempty : IsLiteral ['[', ']'] (.array []) := @IsLiteral.list [] (by simp)
  have hone : IsLiteral ['1'] (.number (.integer 1)) := @IsLiteral.integer 1 (by decide)
  exact @IsLiteral.list [(['[', ']'], .array []), (['1'], .number (.integer 1))]
    (by simp [hempty, hone])

theorem isLiteral_size : IsLiteral "3".toList (values "3") :=
  @IsLiteral.integer 3 (by decide)

theorem holdsLiterals_file : file.HoldsLiterals where
  fileName := by simp [file]
  source := by simp [file]; decide
  locals := List.forall_mem_singleton.2 ⟨by decide, _, isLiteral_gaps⟩
  inputs := List.forall_mem_singleton.2 ⟨by decide, _, isLiteral_size⟩
  dependencies := List.forall_mem_singleton.2 (by simp; decide)

theorem parse_text_file : file.HoldsLiterals ∧ ∃ config, ParsedConfig.parse file.text = .ok config ∧
      config.source = file.moduleSource ∧ config.dependencies = file.dependencies.toList ∧
      RewritesEach file.locals config.locals ∧ RewritesEach file.inputs config.inputs ∧
      (config = ⟨file.moduleSource, file.locals, file.inputs, file.dependencies.toList⟩ ↔
        ∀ value ∈ file.locals.values ++ file.inputs.values, KeepsCommas value) :=
  ⟨holdsLiterals_file, ConfigFile.parse_text_literals holdsLiterals_file⟩

/-- Behind the empty list the comma is lost, and a file with what is left is not read. -/
theorem parse_text_ne : file.HoldsLiterals ∧
    ParsedConfig.parse file.text ≠
      .ok ⟨file.moduleSource, file.locals, file.inputs, file.dependencies.toList⟩ ∧
    ((ParsedConfig.parse file.text).toOption.bind fun config => config.locals.find? "gaps") =
      some "[[]1]" ∧
    (ParsedConfig.parse { file with locals := SortedMap.empty.insert "gaps" "[[]1]" }.text).isOk =
      false := by
  have hread : ((ParsedConfig.parse file.text).toOption.bind fun config =>
      config.locals.find? "gaps") = some "[[]1]" := by
    rw [ConfigFile.parse_text_map (holdsLiterals_file.isReadAs
      (List.forall_mem_singleton.2 isLiteral_gaps) (List.forall_mem_singleton.2 isLiteral_size))]
    decide
  refine ⟨holdsLiterals_file, fun hsame => ?_, hread, ?_⟩
  · rw [hsame] at hread
    revert hread
    decide
  · rw [ParsedConfig.parse, Hcl.parse?, ConfigFile.toList_text .ofName values]
    decide +kernel

end NestedLists

end InfraGraph
