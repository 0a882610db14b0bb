import Mathlib.Data.List.Sort
import Terakoya.Proofs.ByteOrder
import Terakoya.Proofs.EditDistance

/-! The hint for an unknown name: the candidate that the fewest edits lead to, once case is set aside, and of
those the first by its bytes. In what order or how often the candidates are given makes no difference. -/
namespace Terakoya.Closest

def apart (name : List Char) (c : String) : Nat := distance name (Text.lower c).toList

structure Nearest (name : List Char) (candidates : List String) (d : Nat) (c : String) : Prop where
  given : c ∈ candidates
  away : apart name c = d
  least : ∀ c' ∈ candidates, d ≤ apart name c'
  first : ∀ c' ∈ candidates, apart name c' = d → c ≤ c'

variable {name : List Char} {candidates others : List String} {d d' : Nat} {c c' : String}

theorem Nearest.unique (one : Nearest name candidates d c) (other : Nearest name candidates d' c') : d = d' ∧ c = c' := by
  obtain rfl : d = d' := Nat.le_antisymm (other.away ▸ one.least c' other.given) (one.away ▸ other.least c one.given)
  exact ⟨rfl,le_antisymm (one.first c' other.given other.away) (other.first c one.given one.away)⟩

theorem Nearest.same (nearest : Nearest name candidates d c) (same : ∀ c, c ∈ others ↔ c ∈ candidates) :
    Nearest name others d c :=
  ⟨(same c).mpr nearest.given,nearest.away,fun c' inside => nearest.least c' ((same c').mp inside),
    fun c' inside => nearest.first c' ((same c').mp inside)⟩

theorem bestNearest (ordered : (c :: candidates).Pairwise (· ≤ ·)) :
    ∃ d c', best name (c :: candidates) = some (d,c') ∧ Nearest name (c :: candidates) d c' := by
  induction candidates generalizing c with
  | nil =>
    refine ⟨_,_,rfl,List.mem_cons_self,rfl,fun c' inside => ?_,fun c' inside _ => ?_⟩
    all_goals obtain rfl := List.mem_singleton.mp inside
    · exact Nat.le_refl _
    · exact le_refl _
  | cons next candidates ih =>
    obtain ⟨before,ordered⟩ := List.pairwise_cons.mp ordered
    obtain ⟨e,other,found,nearest⟩ := ih ordered
    rw [best,found]
    by_cases nearer : e < apart name c
    · refine ⟨e,other,if_pos nearer,List.mem_cons_of_mem _ nearest.given,nearest.away,fun c' inside => ?_,fun c' inside same => ?_⟩
      all_goals rcases List.mem_cons.mp inside with rfl | inside
      · exact Nat.le_of_lt nearer
      · exact nearest.least c' inside
      · omega
      · exact nearest.first c' inside same
    · refine ⟨apart name c,c,if_neg nearer,List.mem_cons_self,rfl,fun c' inside => ?_,fun c' inside same => ?_⟩
      all_goals rcases List.mem_cons.mp inside with rfl | inside
      · exact Nat.le_refl _
      · exact Nat.le_trans (Nat.le_of_not_lt nearer) (nearest.least c' inside)
      · exact le_refl _
      · exact before c' inside

theorem bestOf (name : List Char) (some : candidates ≠ []) :
    ∃ d c, best name (candidates.mergeSort (· ≤ ·)) = .some (d,c) ∧ Nearest name candidates d c := by
  have ordered : (candidates.mergeSort (· ≤ ·)).Pairwise (· ≤ ·) := List.pairwise_mergeSort' (· ≤ ·) candidates
  have members : ∀ c, c ∈ candidates ↔ c ∈ candidates.mergeSort (· ≤ ·) := fun c => List.mem_mergeSort.symm
  cases sorted : candidates.mergeSort (· ≤ ·) with
  | nil =>
    rw [sorted] at members
    exact absurd (List.eq_nil_iff_forall_not_mem.mpr fun c inside => List.not_mem_nil ((members c).mp inside)) some
  | cons c rest =>
    rw [sorted] at ordered members
    obtain ⟨d,c',found,nearest⟩ := bestNearest ordered
    exact ⟨d,c',found,nearest.same members⟩

theorem findNearest {name : String} (named : name ≠ "") (nearest : Nearest (Text.lower name).toList candidates d c) :
    find? name candidates = if 0 < d ∧ d ≤ threshold (Text.lower name).toList.length ∧ c ≠ "" then some c else none := by
  obtain ⟨e,c',found,other⟩ := bestOf (Text.lower name).toList (List.ne_nil_of_mem nearest.given)
  obtain ⟨rfl,rfl⟩ := nearest.unique other
  have proper : name.isEmpty = false := by simpa using named
  rw [find?,proper]
  simp only [Bool.false_eq_true,if_false,found]

theorem findNone (name : String) : find? name [] = none := by
  simp [find?,best]

theorem Nearest.isLeast (nearest : Nearest name candidates d c) :
    IsLeast {n | ∃ c ∈ candidates, Edits n name (Text.lower c).toList} d := by
  constructor
  · exact ⟨c,nearest.given,nearest.away ▸ distanceReached _ _⟩
  · rintro n ⟨c',inside,edits⟩
    exact Nat.le_trans (nearest.least c' inside) (distanceUnbeaten edits)

theorem hintIsTheNearest (name : String) (named : name ≠ "") (candidates : List String) (proper : ∀ c ∈ candidates, c ≠ "") :
    let low := (Text.lower name).toList
    let limit := if low.length ≤ 3 then 1 else if low.length ≤ 6 then 2 else 3
    (candidates ≠ [] → ∃ d, IsLeast {n | ∃ c ∈ candidates, Edits n low (Text.lower c).toList} d ∧
      if 1 ≤ d ∧ d ≤ limit then
        ∃ c, find? name candidates = some c ∧ (c ∈ candidates ∧ Edits d low (Text.lower c).toList) ∧
          ∀ c' ∈ candidates, Edits d low (Text.lower c').toList →
            Text.encode (Text.ofString c) ≤ Text.encode (Text.ofString c')
      else find? name candidates = none) ∧
    (candidates = [] → find? name candidates = none) ∧
    ((∃ c ∈ candidates, Text.lower c = Text.lower name) → find? name candidates = none) ∧
    ∀ others, (∀ c, c ∈ others ↔ c ∈ candidates) → find? name others = find? name candidates := by
  intro low limit
  have limited : threshold low.length = limit := by
    simp only [threshold,limit,Nat.lt_succ_iff]
  refine ⟨fun some => ?_,fun none => none ▸ findNone name,fun ⟨c,inside,same⟩ => ?_,fun others same => ?_⟩
  · obtain ⟨d,c,_,nearest⟩ := bestOf low some
    have found := findNearest named nearest
    rw [limited] at found
    refine ⟨d,nearest.isLeast,?_⟩
    split
    · rename_i near
      refine ⟨c,found.trans (if_pos ⟨near.1,near.2,proper c nearest.given⟩),⟨nearest.given,nearest.away ▸ distanceReached _ _⟩,
        fun c' inside edits less => ?_⟩
      have away : apart low c' = d := Nat.le_antisymm (distanceUnbeaten edits) (nearest.least c' inside)
      exact not_lt.mpr (nearest.first c' inside away) (Text.bytesBefore.mp less)
    · rename_i far
      exact found.trans (if_neg fun near => far ⟨near.1,near.2.1⟩)
  · obtain ⟨d,_,_,nearest⟩ := bestOf low (List.ne_nil_of_mem inside)
    have least : d ≤ 0 := Nat.le_trans (nearest.least c inside) (distanceUnbeaten (same ▸ .none _))
    exact (findNearest named nearest).trans (if_neg fun near => Nat.not_lt.mpr least near.1)
  · by_cases none : candidates = []
    · have none' : others = [] := List.eq_nil_iff_forall_not_mem.mpr fun c inside =>
        List.not_mem_nil (none ▸ (same c).mp inside)
      rw [none,none']
    · obtain ⟨d,c,_,nearest⟩ := bestOf low none
      rw [findNearest named nearest,findNearest named (nearest.same same)]

theorem capitalsComeFirst : find? "Totl" ["totals","TOTAL","total"] = some "TOTAL" ∧
    find? "Totl" ["total","total","TOTAL","totals"] = some "TOTAL" := by
  have nearest : Nearest (Text.lower "Totl").toList ["totals","TOTAL","total"] 1 "TOTAL" :=
    ⟨by decide,by decide +kernel,by decide +kernel,by decide +kernel⟩
  have found := (findNearest (by decide) nearest).trans (if_pos (by decide +kernel))
  refine ⟨found,Eq.trans ?_ found⟩
  exact (hintIsTheNearest "Totl" (by decide) _ (by decide)).2.2.2 _ fun c => by simp only [List.mem_cons]; tauto

end Terakoya.Closest
