import Mathlib.Logic.Function.Basic
import Terakoya.Machine.Environment

/-! Tables as a shelf: the tables that some environment holds, by number. A table that nobody holds
counts as absent, so dropping it changes nothing. Each operation on tables is one or two updates of
the shelf; which number a new table gets matters only in that it was free. -/
namespace Terakoya

variable {α : Type}

abbrev Shelf (α : Type) := Nat → Option (Table α)

namespace Tables

def live (ts : Tables α) : Shelf α := fun i => ts.slots[i]?.filter fun t => 0 < t.refs

theorem liveSome {ts : Tables α} {i t} : ts.live i = some t ↔ ts.slots[i]? = some t ∧ 0 < t.refs := by
  simp [live,Option.filter_eq_some_iff]

theorem liveFresh (ts : Tables α) : ts.live ts.slots.size = none := by
  simp [live]

theorem liveModify (ts : Tables α) (i : Nat) (f : Table α → Table α) :
    live ⟨ts.slots.modify i f⟩ =
      Function.update ts.live i ((ts.slots[i]?.map f).filter fun t => 0 < t.refs) := by
  funext j
  by_cases same : j = i
  · subst same
    simp [live,Array.getElem?_modify]
  · have different : ¬i = j := fun h => same h.symm
    simp [live,Array.getElem?_modify,same,different]

theorem liveAdd (ts : Tables α) (b : Bindings α) :
    (ts.add b).1.live = Function.update ts.live ts.slots.size (some ⟨b,1⟩) := by
  funext j
  by_cases same : j = ts.slots.size
  · subst same
    simp [live,add]
  · simp [live,add,Array.getElem?_push,same]

theorem liveTrim (ts : Tables α) : ts.trim.live = ts.live := by
  unfold trim
  split
  · rename_i t last
    split
    · rename_i dead
      funext j
      simp only [live,Array.getElem?_pop]
      split
      · rfl
      · rename_i outside
        -- only the last table can be missing now, and nobody held it
        by_cases dropped : j = ts.slots.size - 1
        · rw [Array.back?,← dropped] at last
          simp [last,Option.filter_some,dead]
        · have beyond : ts.slots[j]? = none := Array.getElem?_eq_none (by omega)
          simp [beyond]
    · rfl
  · rfl

theorem liveCopy {ts : Tables α} {i t} (held : ts.live i = some t) :
    (ts.copy ⟨some i⟩).1.live = Function.update ts.live i (some ⟨t.bindings,t.refs + 1⟩) ∧
      (ts.copy ⟨some i⟩).2 = ⟨some i⟩ := by
  refine ⟨?_,rfl⟩
  simp only [copy,liveModify,(liveSome.mp held).1]
  simp [Option.filter_some]

theorem liveRelease {ts : Tables α} {i t} (held : ts.live i = some t) :
    (ts.release ⟨some i⟩).1.live = Function.update ts.live i
      (if t.refs = 1 then none else some ⟨t.bindings,t.refs - 1⟩) := by
  obtain ⟨there,positive⟩ := liveSome.mp held
  simp only [release,liveTrim,liveModify,there,Option.map_some]
  congr 1
  split
  · rename_i last
    simp [last]
  · have more : 0 < t.refs - 1 := by omega
    simp [more]

theorem liveUpdate {ts : Tables α} {i t} (held : ts.live i = some t) (f : Bindings α → Bindings α) :
    (ts.update ⟨some i⟩ f).live = Function.update ts.live i (some ⟨f t.bindings,t.refs⟩) := by
  obtain ⟨there,positive⟩ := liveSome.mp held
  simp [update,liveModify,there,Option.filter_some,positive]

theorem ownAlone {ts : Tables α} {i t} (held : ts.live i = some t)
    (alone : t.refs = 1) : ts.own ⟨some i⟩ = (ts,⟨some i⟩) := by
  simp [own,(liveSome.mp held).1,alone]

theorem ownShared {ts : Tables α} {i n b} (held : ts.live i = some ⟨b,n + 2⟩) :
    ∃ k, ts.live k = none ∧ (ts.own ⟨some i⟩).2 = ⟨some k⟩ ∧ (ts.own ⟨some i⟩).1.live =
      Function.update (Function.update ts.live i (some ⟨b,n + 1⟩)) k (some ⟨b,1⟩) := by
  have there := (liveSome.mp held).1
  refine ⟨ts.slots.size,liveFresh ts,?_,?_⟩
  · simp [own,there,add]
  · simp only [own,there]
    rw [if_neg (by omega),liveAdd,liveModify,there]
    simp [Option.filter_some]

end Tables

/- What writing to the table of an environment does to the shelf. A table that no other environment
holds changes in place; of any other one a changed clone is taken. -/
inductive Written (f : Bindings α → Bindings α) (s : Shelf α) :
    Environment → Shelf α → Environment → Prop where
  | alone {i b} (held : s i = some ⟨b,1⟩) :
      Written f s ⟨some i⟩ (Function.update s i (some ⟨f b,1⟩)) ⟨some i⟩
  | cloned {i b n k} (held : s i = some ⟨b,n + 2⟩) (free : s k = none) :
      Written f s ⟨some i⟩
        (Function.update (Function.update s i (some ⟨b,n + 1⟩)) k (some ⟨f b,1⟩)) ⟨some k⟩

namespace Environment

def Held (s : Shelf α) (e : Environment) : Prop := ∃ i t, e = ⟨some i⟩ ∧ s i = some t

theorem Held.bindings {ts : Tables α} {i t} (held : ts.live i = some t) :
    Environment.bindings ts ⟨some i⟩ = t.bindings := by
  simp [Environment.bindings,(Tables.liveSome.mp held).1]

end Environment

namespace Tables

theorem ownWritten {ts : Tables α} {e} (held : e.Held ts.live) (f : Bindings α → Bindings α) :
    Written f ts.live e ((ts.own e).1.update (ts.own e).2 f).live (ts.own e).2 := by
  obtain ⟨i,⟨b,refs⟩,rfl,found⟩ := held
  have positive : 0 < refs := (liveSome.mp found).2
  by_cases alone : refs = 1
  · subst alone
    rw [ownAlone found rfl,liveUpdate found]
    exact .alone found
  · obtain ⟨n,rfl⟩ : ∃ n, refs = n + 2 := ⟨refs - 2,by omega⟩
    obtain ⟨k,free,moved,shelf⟩ := ownShared found
    have placed : (ts.own ⟨some i⟩).1.live k = some ⟨b,1⟩ := by simp [shelf]
    rw [moved,liveUpdate placed,shelf,Function.update_idem]
    exact .cloned found free

theorem setWritten {ts : Tables α} {e} (held : e.Held ts.live) (name : String) (v : α) :
    Written (Bindings.set name v) ts.live e (ts.set e name v).1.live (ts.set e name v).2 :=
  ownWritten held (Bindings.set name v)

theorem eraseWritten {ts : Tables α} {e} (held : e.Held ts.live) (name : String) (has : e.has ts name = true) :
    Written (Bindings.erase name) ts.live e (ts.erase e name).1.live (ts.erase e name).2 := by
  simp only [erase,has,if_true]
  exact ownWritten held (Bindings.erase name)

end Tables
end Terakoya
