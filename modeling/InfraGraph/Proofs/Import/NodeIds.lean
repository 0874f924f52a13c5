import Mathlib.Tactic.Common
import InfraGraph.Import.NodeIds
import InfraGraph.Proofs.Text.Hex

/-!
# Ids that are claimed are new

Whatever is drawn, a claimed id is none of those in use: after as many draws as there are ids in use
and one more, an id is made that is longer than all of them.  If drawn ids are hexadecimal digits in
groups, then so is every id.
-/

namespace InfraGraph.NodeIds

theorem length_le_join {used : List String} {id : String} (h : id ∈ used) :
    id.length ≤ (String.join used).length := by
  induction used with
  | nil => cases h
  | cons first rest ih =>
      rw [String.join_cons, String.length_append]
      rcases List.mem_cons.1 h with rfl | h
      · exact Nat.le_add_right _ _
      · have hrest := ih h
        omega

theorem pickFresh_not_mem (draw : Nat → String) (used : List String) (attempts next : Nat) :
    (pickFresh draw used attempts next).1 ∉ used := by
  induction attempts generalizing next with
  | zero =>
      intro hmem
      have hlength := length_le_join hmem
      simp only [pickFresh, String.length_append] at hlength
      have hdash : "-".length = 1 := rfl
      omega
  | succ attempts ih =>
      unfold pickFresh
      by_cases hused : used.contains (draw next) = true
      · rw [if_pos hused]
        exact ih (next + 1)
      · rw [if_neg hused]
        simpa using hused

/-- A claimed id wasn't in use before, and is the only one that is added. -/
theorem claim_spec (draw : Nat → String) (ids : NodeIds) (path : String) :
    (ids.claim draw path).1 ∉ ids.used ∧
      (ids.claim draw path).2.used = (ids.claim draw path).1 :: ids.used := by
  unfold claim
  by_cases hused : ids.used.contains (ofPath path) = true
  · rw [if_pos hused]
    exact ⟨pickFresh_not_mem draw ids.used _ _, rfl⟩
  · rw [if_neg hused]
    exact ⟨by simpa using hused, rfl⟩

theorem claim_new {draw : Nat → String} {ids claimed : NodeIds} {path id : String}
    (h : ids.claim draw path = (id, claimed)) :
    id ∉ ids.used ∧ claimed.used = id :: ids.used := by
  have hspec := claim_spec draw ids path
  rwa [h] at hspec

/-! ### The characters of ids -/

/-- The text is made of hexadecimal digits, and of dashes between groups of them. -/
def IsHexText (id : String) : Prop :=
  ∀ c ∈ id.toList, c = '-' ∨ c ∈ Text.hexAlphabet

theorem IsHexText.underscore_not_mem {id : String} (h : IsHexText id) : '_' ∉ id.toList := by
  intro hmem
  exact absurd (h _ hmem) (by decide)

theorem isHexText_ofPath (path : String) : IsHexText (ofPath path) :=
  fun _ hc => .inr (Text.mem_hexOfBytes hc)

theorem isHexText_ofSeed (seed : String) (number : Nat) : IsHexText (ofSeed seed number) := by
  have hgroup : ∀ start length, ∀ c ∈ ((Text.hexOfBytes
      (Digest.Md5.hash (seed ++ toString number).toUTF8)).toList.drop start).take length,
      c = '-' ∨ c ∈ Text.hexAlphabet :=
    fun start length c hc => .inr (Text.mem_hexOfBytes (List.mem_of_mem_drop
      (List.mem_of_mem_take hc)))
  have hversion : '4' ∈ Text.hexAlphabet := by decide
  have hvariant : '8' ∈ Text.hexAlphabet := by decide
  simp only [IsHexText, ofSeed, String.toList_ofList, List.forall_mem_append, List.forall_mem_cons,
    true_or, true_and]
  exact ⟨⟨⟨⟨hgroup _ _, hgroup _ _⟩, .inr hversion, hgroup _ _⟩, .inr hvariant, hgroup _ _⟩,
    hgroup _ _⟩

theorem isHexText_pickFresh {draw : Nat → String} {used : List String}
    (hdraw : ∀ n, IsHexText (draw n)) (hused : ∀ id ∈ used, IsHexText id) (attempts next : Nat) :
    IsHexText (pickFresh draw used attempts next).1 := by
  induction attempts generalizing next with
  | zero =>
      -- All ids in use, one after the other, and a dash.
      intro c hc
      rw [pickFresh, String.toList_append, List.mem_append, String.toList_join,
        List.mem_flatMap] at hc
      rcases hc with ⟨id, hid, hc⟩ | hc
      · exact hused id hid c hc
      · exact .inl (List.mem_singleton.1 hc)
  | succ attempts ih =>
      rw [pickFresh]
      split
      · exact ih (next + 1)
      · exact hdraw next

theorem isHexText_claim {draw : Nat → String} {ids : NodeIds} (hdraw : ∀ n, IsHexText (draw n))
    (hused : ∀ id ∈ ids.used, IsHexText id) (path : String) :
    IsHexText (ids.claim draw path).1 := by
  rw [claim]
  split
  · exact isHexText_pickFresh hdraw hused _ _
  · exact isHexText_ofPath path

end InfraGraph.NodeIds
