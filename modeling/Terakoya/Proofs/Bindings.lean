import Mathlib.Data.Finmap
import Mathlib.Data.Finset.Sort
import Mathlib.Data.String.Basic
import Terakoya.Machine.Environment

/-! The names of a table as a finite map. A table keeps its names in increasing order; everything
that can be asked of it is then what the map answers. -/
namespace Terakoya.Bindings

variable {α : Type}

abbrev Map (α : Type) := Finmap fun _ : String => α

structure Matches (b : Bindings α) (m : Map α) : Prop where
  ordered : b.names.Pairwise (· < ·)
  agrees : ∀ name, get? name b = m.lookup name

theorem getNone {b : Bindings α} {name} : get? name b = none ↔ name ∉ b.names := by
  induction b with
  | nil => simp [get?,names]
  | cons head rest ih =>
    obtain ⟨key,value⟩ := head
    by_cases same : name = key
    · simp [get?,names,same]
    · simpa [get?,names,same] using ih

theorem getSome {b : Bindings α} {name} : (get? name b).isSome ↔ name ∈ b.names := by
  rw [Option.isSome_iff_ne_none,ne_eq,getNone,not_not]

theorem getMember {b name} {v : α} (found : get? name b = some v) : (name,v) ∈ b := by
  induction b with
  | nil => simp [get?] at found
  | cons head rest ih =>
    obtain ⟨key,value⟩ := head
    simp only [get?] at found
    split at found
    · rename_i same
      cases Option.some.inj found
      subst same
      exact List.mem_cons_self
    · exact List.mem_cons_of_mem _ (ih found)

theorem mem_set {b name v} {entry : String × α} (inside : entry ∈ set name v b) : entry = (name,v) ∨ entry ∈ b := by
  induction b with
  | nil => exact .inl (by simpa [set] using inside)
  | cons head rest ih =>
    obtain ⟨key,value⟩ := head
    simp only [set] at inside
    split at inside
    · simpa using inside
    · split at inside
      · rcases List.mem_cons.mp inside with same | old
        · exact .inl same
        · exact .inr (List.mem_cons_of_mem _ old)
      · rcases List.mem_cons.mp inside with same | later
        · exact .inr (same ▸ List.mem_cons_self)
        · exact (ih later).imp_right (List.mem_cons_of_mem _)

theorem getSet (b : Bindings α) (name other : String) (v : α) :
    get? other (set name v b) = if other = name then some v else get? other b := by
  induction b with
  | nil => rfl
  | cons head rest ih =>
    obtain ⟨key,value⟩ := head
    simp only [set]
    split
    · rfl
    · split
      · rename_i same
        subst same
        by_cases h : other = name <;> simp [get?,h]
      · rename_i different
        by_cases h : other = key
        · subst h
          have : ¬other = name := fun same => different same.symm
          simp [get?,this]
        · simp only [get?,if_neg h,ih]

theorem namesSet (b : Bindings α) (name : String) (v : α) {other : String} :
    other ∈ names (set name v b) ↔ other = name ∨ other ∈ b.names := by
  rw [← getSome,← getSome,getSet]
  split <;> simp [*]

theorem orderedSet {b} (ordered : b.names.Pairwise (· < ·)) (name : String) (v : α) :
    (names (set name v b)).Pairwise (· < ·) := by
  induction b with
  | nil => exact List.pairwise_singleton _ _
  | cons head rest ih =>
    obtain ⟨key,value⟩ := head
    obtain ⟨first,later⟩ := List.pairwise_cons.mp ordered
    simp only [set]
    split
    · rename_i below
      refine List.pairwise_cons.mpr ⟨fun other inside => ?_,ordered⟩
      rcases List.mem_cons.mp inside with same | inside
      · exact same ▸ below
      · exact lt_trans below (first other inside)
    · rename_i notBelow
      split
      · rename_i same
        exact List.pairwise_cons.mpr ⟨same ▸ first,later⟩
      · rename_i different
        refine List.pairwise_cons.mpr ⟨fun other inside => ?_,ih later⟩
        rcases (namesSet rest name v).mp inside with same | inside
        · exact same ▸ lt_of_le_of_ne (not_lt.mp notBelow) (Ne.symm different)
        · exact first other inside

theorem namesErase (b : Bindings α) (name : String) : (erase name b).names = b.names.erase name := by
  induction b with
  | nil => rfl
  | cons head rest ih =>
    obtain ⟨key,value⟩ := head
    by_cases same : name = key
    · simp [erase,names,same]
    · have different : ¬key = name := fun h => same h.symm
      simp only [erase,if_neg same,names,List.map_cons] at ih ⊢
      rw [List.erase_cons_tail (by simpa using different),ih]

theorem getErase {b : Bindings α} (ordered : b.names.Pairwise (· < ·)) (name other : String) :
    get? other (erase name b) = if other = name then none else get? other b := by
  induction b with
  | nil => simp [erase,get?]
  | cons head rest ih =>
    obtain ⟨key,value⟩ := head
    obtain ⟨first,later⟩ := List.pairwise_cons.mp ordered
    simp only [erase]
    split
    · rename_i same
      subst same
      split
      · rename_i asked
        subst asked
        exact getNone.mpr fun inside => lt_irrefl _ (first _ inside)
      · rename_i different
        simp [get?,different]
    · rename_i different
      by_cases h : other = key
      · subst h
        have : ¬other = name := fun same => different same.symm
        simp [get?,this]
      · simp only [get?,if_neg h,ih later]

theorem matchesNew : Matches ([] : Bindings α) ∅ :=
  ⟨List.Pairwise.nil,fun name => by rw [Finmap.lookup_empty]; rfl⟩

theorem matchesSet {b m} (same : Matches b m) (name : String) (v : α) : Matches (set name v b) (m.insert name v) := by
  refine ⟨orderedSet same.ordered name v,fun other => ?_⟩
  rw [getSet,same.agrees]
  split
  · rename_i h
    rw [h,Finmap.lookup_insert]
  · rename_i h
    rw [Finmap.lookup_insert_of_ne _ h]

theorem matchesErase {b : Bindings α} {m} (same : Matches b m) (name : String) : Matches (erase name b) (m.erase name) := by
  refine ⟨?_,fun other => ?_⟩
  · rw [namesErase]
    exact same.ordered.sublist List.erase_sublist
  · rw [getErase same.ordered,same.agrees]
    split
    · rename_i h
      rw [h,Finmap.lookup_erase]
    · rename_i h
      rw [Finmap.lookup_erase_ne h]

theorem matchesHas {b} {m : Map α} (same : Matches b m) (name : String) : (get? name b).isSome = decide (name ∈ m) := by
  rw [same.agrees,Bool.eq_iff_iff,Finmap.lookup_isSome,decide_eq_true_iff]

theorem matchesNames {b : Bindings α} {m} (same : Matches b m) : b.names = m.keys.sort (· ≤ ·) := by
  have nodup : b.names.Nodup := same.ordered.imp ne_of_lt
  have keys : m.keys = b.names.toFinset := by
    ext name
    rw [Finmap.mem_keys,← Finmap.lookup_isSome,← same.agrees,getSome,List.mem_toFinset]
  rw [keys]
  exact ((List.toFinset_sort (· ≤ ·) nodup).mpr (same.ordered.imp le_of_lt)).symm

theorem matchesSize {b} {m : Map α} (same : Matches b m) : b.length = m.keys.card := by
  rw [← Finset.length_sort (· ≤ ·),← matchesNames same,names,List.length_map]

end Terakoya.Bindings
