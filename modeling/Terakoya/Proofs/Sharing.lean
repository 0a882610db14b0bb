import Terakoya.Machine.Bench
import Terakoya.Proofs.Bindings
import Terakoya.Proofs.Tables

/-! Any number of environments that share tables, against environments that share nothing: a copy
there is a copy of all names. Both carry out the same requests. An environment that was released may
only be released again, and one that was dropped is gone; a request to any other use of it ends the
history, on both sides.
The counter of a table is the number of environments that were not released and point to it, those
dropped without a release included. -/
namespace Terakoya

variable {α : Type}

inductive Request (α : Type) where
  | new
  | copy (k : Nat)
  | release (k : Nat)
  | drop (k : Nat)
  | set (k : Nat) (name : String) (value : α)
  | erase (k : Nat) (name : String)
  | get (k : Nat) (name : String)
  | has (k : Nat) (name : String)
  | names (k : Nat)
  | size (k : Nat)

structure Holder where
  env : Environment
  kept : Bool
  deriving DecidableEq

structure Pool (α : Type) where
  tables : Tables α := {}
  holders : List Holder := []

namespace Pool

def kept? (p : Pool α) (k : Nat) : Option Environment := do
  let h ← p.holders[k]?
  if h.kept then some h.env else none

def usable? (p : Pool α) (k : Nat) : Option Environment := do
  let e ← p.kept? k
  if e.table.isSome then some e else none

def grow (p : Pool α) (made : Tables α × Environment) : Pool α :=
  ⟨made.1,p.holders ++ [⟨made.2,true⟩]⟩

def put (p : Pool α) (k : Nat) (changed : Tables α × Environment) : Pool α :=
  ⟨changed.1,p.holders.set k ⟨changed.2,true⟩⟩

def step (p : Pool α) : Request α → Option (BenchAnswer α × Pool α)
  | .new => some (.nothing,p.grow p.tables.new)
  | .copy k => do
      let e ← p.usable? k
      some (.nothing,p.grow (p.tables.copy e))
  | .release k => do
      let e ← p.kept? k
      some (.nothing,p.put k (p.tables.release e))
  | .drop k => do
      let e ← p.kept? k
      some (.nothing,⟨p.tables,p.holders.set k ⟨e,false⟩⟩)
  | .set k name v => do
      let e ← p.usable? k
      some (.value (some v),p.put k (p.tables.set e name v))
  | .erase k name => do
      let e ← p.usable? k
      some (.nothing,p.put k (p.tables.erase e name))
  | .get k name => do
      let e ← p.usable? k
      some (.value (e.get? p.tables name),p)
  | .has k name => do
      let e ← p.usable? k
      some (.flag (e.has p.tables name),p)
  | .names k => do
      let e ← p.usable? k
      some (.names (e.names p.tables),p)
  | .size k => do
      let e ← p.usable? k
      some (.count (e.size p.tables),p)

def run : List (Request α) → Pool α → Option (List (BenchAnswer α) × Pool α)
  | [],p => some ([],p)
  | r :: rest,p => do
      let (answer,p) ← p.step r
      let (answers,p) ← run rest p
      some (answer :: answers,p)

def pointing (p : Pool α) (i : Nat) : Nat :=
  p.holders.countP fun h => h.kept ∧ h.env.table = some i

def NoneLost (p : Pool α) : Prop := ∀ h ∈ p.holders, h.kept = false → h.env.table = none

end Pool

structure Private (α : Type) where
  map : Option (Bindings.Map α)
  kept : Bool

structure Plain (α : Type) where
  envs : List (Private α) := []

namespace Plain

def kept? (q : Plain α) (k : Nat) : Option (Option (Bindings.Map α)) := do
  let e ← q.envs[k]?
  if e.kept then some e.map else none

def usable? (q : Plain α) (k : Nat) : Option (Bindings.Map α) := (q.kept? k).join

def grow (q : Plain α) (m : Bindings.Map α) : Plain α := ⟨q.envs ++ [⟨some m,true⟩]⟩

def put (q : Plain α) (k : Nat) (m : Option (Bindings.Map α)) : Plain α := ⟨q.envs.set k ⟨m,true⟩⟩

def step (q : Plain α) : Request α → Option (BenchAnswer α × Plain α)
  | .new => some (.nothing,q.grow ∅)
  | .copy k => do
      let m ← q.usable? k
      some (.nothing,q.grow m)
  | .release k => do
      let _ ← q.kept? k
      some (.nothing,q.put k none)
  | .drop k => do
      let m ← q.kept? k
      some (.nothing,⟨q.envs.set k ⟨m,false⟩⟩)
  | .set k name v => do
      let m ← q.usable? k
      some (.value (some v),q.put k (some (m.insert name v)))
  | .erase k name => do
      let m ← q.usable? k
      some (.nothing,q.put k (some (m.erase name)))
  | .get k name => do
      let m ← q.usable? k
      some (.value (m.lookup name),q)
  | .has k name => do
      let m ← q.usable? k
      some (.flag (decide (name ∈ m)),q)
  | .names k => do
      let m ← q.usable? k
      some (.names (m.keys.sort (· ≤ ·)),q)
  | .size k => do
      let m ← q.usable? k
      some (.count m.keys.card,q)

def run : List (Request α) → Plain α → Option (List (BenchAnswer α) × Plain α)
  | [],q => some ([],q)
  | r :: rest,q => do
      let (answer,q) ← q.step r
      let (answers,q) ← run rest q
      some (answer :: answers,q)

end Plain

theorem countSet {β : Type} (P : β → Bool) {l : List β} {k : Nat} {old : β} (new : β)
    (there : l[k]? = some old) :
    (l.set k new).countP P + (P old).toNat = l.countP P + (P new).toNat := by
  induction l generalizing k with
  | nil => simp at there
  | cons head rest ih =>
    cases k with
    | zero =>
      cases Option.some.inj there
      cases h : P old <;> cases h' : P new <;> simp [h,h']
    | succ k =>
      have step := ih (k := k) there
      simp only [List.set_cons_succ,List.countP_cons]
      omega

inductive Alike (s : Shelf α) : Holder → Private α → Prop where
  | released (kept : Bool) : Alike s ⟨⟨none⟩,kept⟩ ⟨none,kept⟩
  | held {i t m} (kept : Bool) (there : s i = some t) (same : Bindings.Matches t.bindings m) :
      Alike s ⟨⟨some i⟩,kept⟩ ⟨some m,kept⟩

def refsOn (s : Shelf α) (i : Nat) : Nat := (s i).elim 0 Table.refs

def pointsTo (i : Nat) (h : Holder) : Bool := h.env.table = some i

def Counted (s : Shelf α) (hs : List Holder) : Prop := ∀ i, refsOn s i = hs.countP (pointsTo i)

structure Simulates (p : Pool α) (q : Plain α) : Prop where
  length : p.holders.length = q.envs.length
  alike : ∀ (k : Nat) h e, p.holders[k]? = some h → q.envs[k]? = some e → Alike p.tables.live h e
  counted : Counted p.tables.live p.holders

theorem refsPositive {s : Shelf α} {i : Nat} (used : 0 < refsOn s i) : ∃ t, s i = some t := by
  cases h : s i with
  | none => simp [refsOn,h] at used
  | some t => exact ⟨t,rfl⟩

theorem countedHolder {s : Shelf α} {hs : List Holder} (counted : Counted s hs) {k : Nat} {h : Holder}
    {i : Nat} (there : hs[k]? = some h) (points : h.env.table = some i) : 0 < refsOn s i := by
  rw [counted i,List.countP_pos_iff]
  exact ⟨h,List.mem_of_getElem? there,by simp [pointsTo,points]⟩

theorem aloneCounts {s : Shelf α} {hs : List Holder} (counted : Counted s hs) {k i : Nat} {t : Table α}
    (place : hs[k]? = some ⟨⟨some i⟩,true⟩) (there : s i = some t)
    (alone : ∀ (j : Nat) h, j ≠ k → hs[j]? = some h → h.env.table ≠ some i) : t.refs = 1 := by
  have total := countSet (pointsTo i) ⟨⟨none⟩,true⟩ place
  have none : (hs.set k ⟨⟨none⟩,true⟩).countP (pointsTo i) = 0 := by
    rw [List.countP_eq_zero]
    intro h inside
    obtain ⟨j,atH⟩ := List.mem_iff_getElem?.mp inside
    by_cases same : j = k
    · subst same
      rw [List.getElem?_set_self (List.getElem?_eq_some_iff.mp place).1] at atH
      cases atH
      simp [pointsTo]
    · rw [List.getElem?_set_ne fun h => same h.symm] at atH
      simpa [pointsTo] using alone j h same atH
  have refs : t.refs = hs.countP (pointsTo i) := by rw [← counted i]; simp [refsOn,there]
  simp [none,pointsTo] at total
  omega

theorem countedAlone {s : Shelf α} {hs : List Holder} (counted : Counted s hs) {i : Nat} {b : Bindings α}
    (one : s i = some ⟨b,1⟩) {k j : Nat} {h g : Holder} (first : hs[k]? = some h)
    (second : hs[j]? = some g) (pointsH : h.env.table = some i) (pointsG : g.env.table = some i) :
    j = k := by
  by_contra different
  have total := countSet (pointsTo i) ⟨⟨none⟩,true⟩ first
  have one' : hs.countP (pointsTo i) = 1 := by rw [← counted i]; simp [refsOn,one]
  have left : 0 < (hs.set k ⟨⟨none⟩,true⟩).countP (pointsTo i) := by
    rw [List.countP_pos_iff]
    refine ⟨g,List.mem_of_getElem? (i := j) ?_,by simp [pointsTo,pointsG]⟩
    rw [List.getElem?_set_ne (fun h => different h.symm)]
    exact second
  have gone : pointsTo i ⟨⟨none⟩,true⟩ = false := rfl
  have was : pointsTo i h = true := by simp [pointsTo,pointsH]
  simp only [gone,was,Bool.toNat_true,Bool.toNat_false] at total
  omega

theorem alikeMoved {s s' : Shelf α} {h : Holder} {e : Private α} (alike : Alike s h e)
    (kept : ∀ i t, h.env.table = some i → s i = some t →
      ∃ t', s' i = some t' ∧ t'.bindings = t.bindings) : Alike s' h e := by
  cases alike with
  | released k => exact .released k
  | held k there same =>
    obtain ⟨t',there',names⟩ := kept _ _ rfl there
    exact .held k there' (names ▸ same)

theorem simulatesGrow {p : Pool α} {q : Plain α} (sim : Simulates p q) {ts : Tables α} {i : Nat}
    {t : Table α} {m : Bindings.Map α} (there : ts.live i = some t) (same : Bindings.Matches t.bindings m)
    (counted : Counted ts.live (p.holders ++ [⟨⟨some i⟩,true⟩]))
    (kept : ∀ j t, p.tables.live j = some t → ∃ t', ts.live j = some t' ∧ t'.bindings = t.bindings) :
    Simulates (p.grow (ts,⟨some i⟩)) (q.grow m) := by
  refine ⟨by simp [Pool.grow,Plain.grow,sim.length],?_,counted⟩
  intro k h e atH atE
  simp only [Pool.grow,Plain.grow,List.getElem?_append,← sim.length] at atH atE ⊢
  split at atH
  · rename_i old
    rw [if_pos old] at atE
    exact alikeMoved (sim.alike k h e atH atE) fun j t _ => kept j t
  · rename_i new
    rw [if_neg new] at atE
    have last : k - p.holders.length = 0 := by
      by_contra later
      have : ([⟨⟨some i⟩,true⟩] : List Holder)[k - p.holders.length]? = none := by
        simp; omega
      simp [this] at atH
    simp only [last,List.getElem?_cons_zero,Option.some.injEq] at atH atE
    subst atH atE
    exact .held true there same

theorem simulatesPut {p : Pool α} {q : Plain α} (sim : Simulates p q) {ts : Tables α} {k : Nat}
    {h : Holder} {e : Private α} (new : Alike ts.live h e)
    (counted : Counted ts.live (p.holders.set k h))
    (kept : ∀ (j : Nat) g i t, j ≠ k → p.holders[j]? = some g → g.env.table = some i →
      p.tables.live i = some t → ∃ t', ts.live i = some t' ∧ t'.bindings = t.bindings) :
    Simulates ⟨ts,p.holders.set k h⟩ ⟨q.envs.set k e⟩ := by
  refine ⟨by simp [sim.length],?_,counted⟩
  intro j g f atG atF
  simp only [List.getElem?_set] at atG atF
  by_cases same : k = j
  · simp only [same,if_true] at atG atF
    split at atG <;> try contradiction
    split at atF <;> try contradiction
    cases Option.some.inj atG
    cases Option.some.inj atF
    exact new
  · rw [if_neg same] at atG atF
    exact alikeMoved (sim.alike j g f atG atF) fun i t points there =>
      kept j g i t (fun h => same h.symm) atG points there

theorem countedGrow {s s' : Shelf α} {hs : List Holder} (counted : Counted s hs) {i : Nat}
    (more : refsOn s' i = refsOn s i + 1) (others : ∀ j, j ≠ i → s' j = s j) :
    Counted s' (hs ++ [⟨⟨some i⟩,true⟩]) := by
  intro j
  rw [List.countP_append,← counted j]
  by_cases same : j = i
  · subst same
    simp [more,pointsTo]
  · have different : ¬i = j := fun h => same h.symm
    simp [refsOn,others j same,pointsTo,different]

theorem countedMove {s s' : Shelf α} {hs : List Holder} (counted : Counted s hs) {k : Nat} {h h' : Holder}
    (there : hs[k]? = some h)
    (moved : ∀ j, refsOn s' j + (pointsTo j h).toNat = refsOn s j + (pointsTo j h').toNat) :
    Counted s' (hs.set k h') := by
  intro j
  have total := countSet (pointsTo j) h' there
  have shift := moved j
  rw [counted j] at shift
  omega

theorem simulatesNew {p : Pool α} {q : Plain α} (sim : Simulates p q) :
    Simulates (p.grow p.tables.new) (q.grow ∅) := by
  have shelf := Tables.liveAdd p.tables ([] : Bindings α)
  have fresh := Tables.liveFresh p.tables
  change Simulates (p.grow ((p.tables.add []).1,⟨some p.tables.slots.size⟩)) _
  generalize (p.tables.add []).1 = ts at shelf
  refine simulatesGrow sim (t := ⟨[],1⟩) (by simp [shelf]) Bindings.matchesNew ?_ ?_
  · refine countedGrow sim.counted (by simp [shelf,refsOn,fresh]) fun j different => ?_
    simp [shelf,different]
  · intro j t there
    have different : j ≠ p.tables.slots.size := by
      intro same
      rw [same,fresh] at there
      contradiction
    exact ⟨t,by simp [shelf,different,there],rfl⟩

theorem simulatesCopy {p : Pool α} {q : Plain α} (sim : Simulates p q) {i : Nat} {t : Table α}
    {m : Bindings.Map α} (there : p.tables.live i = some t) (same : Bindings.Matches t.bindings m) :
    Simulates (p.grow (p.tables.copy ⟨some i⟩)) (q.grow m) := by
  have shelf := (Tables.liveCopy there).1
  change Simulates (p.grow ((p.tables.copy ⟨some i⟩).1,⟨some i⟩)) _
  generalize (p.tables.copy ⟨some i⟩).1 = ts at shelf
  refine simulatesGrow sim (t := ⟨t.bindings,t.refs + 1⟩) (by simp [shelf]) same ?_ ?_
  · refine countedGrow sim.counted (by simp [shelf,refsOn,there]) fun j different => ?_
    simp [shelf,different]
  · intro j u atJ
    by_cases shared : j = i
    · subst shared
      cases Option.some.inj (there.symm.trans atJ)
      exact ⟨⟨t.bindings,t.refs + 1⟩,by simp [shelf],rfl⟩
    · exact ⟨u,by simp [shelf,shared,atJ],rfl⟩

theorem simulatesRelease {p : Pool α} {q : Plain α} (sim : Simulates p q) {k i : Nat} {t : Table α}
    (place : p.holders[k]? = some ⟨⟨some i⟩,true⟩) (there : p.tables.live i = some t) :
    Simulates (p.put k (p.tables.release ⟨some i⟩)) (q.put k none) := by
  have shelf := Tables.liveRelease there
  have positive := (Tables.liveSome.mp there).2
  have counted : Counted (p.tables.release ⟨some i⟩).1.live (p.holders.set k ⟨⟨none⟩,true⟩) := by
    refine countedMove sim.counted place fun j => ?_
    by_cases same : j = i
    · subst same
      simp only [shelf,refsOn,Function.update_self,there,pointsTo]
      split <;> simp <;> omega
    · have different : ¬i = j := fun h => same h.symm
      simp [shelf,refsOn,pointsTo,same,different]
  refine simulatesPut sim (.released true) counted ?_
  intro j g l u different atG points atL
  -- whoever still points to the table is counted, so the table was not dropped
  have still : 0 < refsOn (p.tables.release ⟨some i⟩).1.live l := by
    refine countedHolder counted (k := j) ?_ points
    rw [List.getElem?_set_ne fun h => different h.symm]
    exact atG
  obtain ⟨u',atL'⟩ := refsPositive still
  refine ⟨u',atL',?_⟩
  by_cases same : l = i
  · subst same
    cases Option.some.inj (there.symm.trans atL)
    simp only [shelf,Function.update_self] at atL'
    split at atL' <;> cases atL'
    rfl
  · rw [shelf,Function.update_of_ne same,atL] at atL'
    exact congrArg Table.bindings (Option.some.inj atL'.symm)

theorem simulatesWrite {p : Pool α} {q : Plain α} (sim : Simulates p q) {k : Nat} {e e' : Environment}
    {ts : Tables α} {f : Bindings α → Bindings α} {m m' : Bindings.Map α}
    (place : p.holders[k]? = some ⟨e,true⟩) (alike : Alike p.tables.live ⟨e,true⟩ ⟨some m,true⟩)
    (image : ∀ b, Bindings.Matches b m → Bindings.Matches (f b) m')
    (written : Written f p.tables.live e ts.live e') :
    Simulates (p.put k (ts,e')) (q.put k (some m')) := by
  generalize shelf : ts.live = s' at written
  cases alike with
  | @held i t _ _ there same =>
    cases written with
    | @alone _ b one =>
      cases Option.some.inj (there.symm.trans one)
      refine simulatesPut sim (.held (t := ⟨f b,1⟩) true (by simp [shelf]) (image b same)) ?_ ?_
      · refine countedMove sim.counted place fun j => ?_
        by_cases here : j = i
        · subst here
          simp [shelf,refsOn,there]
        · simp [shelf,refsOn,here]
      · intro j g l u different atG points atL
        have elsewhere : l ≠ i := by
          intro here
          subst here
          exact different (countedAlone sim.counted one place atG rfl points)
        exact ⟨u,by simp [shelf,elsewhere,atL],rfl⟩
    | @cloned _ b n c shared free =>
      cases Option.some.inj (there.symm.trans shared)
      have apart : i ≠ c := by
        intro here
        rw [← here,there] at free
        contradiction
      refine simulatesPut sim (.held (t := ⟨f b,1⟩) true (by simp [shelf]) (image b same)) ?_ ?_
      · refine countedMove sim.counted place fun j => ?_
        by_cases here : j = i
        · subst here
          have : ¬c = j := fun h => apart h.symm
          simp [shelf,refsOn,there,pointsTo,apart,this]
        · have notHere : ¬i = j := fun h => here h.symm
          by_cases new : j = c
          · subst new
            simp [shelf,refsOn,free,pointsTo,notHere]
          · have notNew : ¬c = j := fun h => new h.symm
            simp [shelf,refsOn,pointsTo,here,notHere,new,notNew]
      · intro j g l u different atG points atL
        have old : l ≠ c := by
          intro here
          rw [here,free] at atL
          contradiction
        by_cases here : l = i
        · subst here
          cases Option.some.inj (there.symm.trans atL)
          exact ⟨⟨b,n + 1⟩,by simp [shelf,old],rfl⟩
        · exact ⟨u,by simp [shelf,old,here,atL],rfl⟩

theorem simulatesKept {p : Pool α} {q : Plain α} (sim : Simulates p q) (k : Nat) :
    p.kept? k = none ∧ q.kept? k = none ∨
      ∃ e m, p.kept? k = some e ∧ q.kept? k = some m ∧ p.holders[k]? = some ⟨e,true⟩ ∧
        q.envs[k]? = some ⟨m,true⟩ ∧ Alike p.tables.live ⟨e,true⟩ ⟨m,true⟩ := by
  cases place : p.holders[k]? with
  | none =>
    have outside : q.envs[k]? = none := by
      rw [List.getElem?_eq_none_iff] at place ⊢
      rw [← sim.length]
      exact place
    exact .inl (by simp [Pool.kept?,Plain.kept?,place,outside])
  | some h =>
    have inside : k < q.envs.length := by
      rw [← sim.length]
      exact (List.getElem?_eq_some_iff.mp place).1
    have there : q.envs[k]? = some q.envs[k] := List.getElem?_eq_getElem inside
    have alike := sim.alike k h _ place there
    generalize q.envs[k] = e at there alike
    cases alike with
    | released kept =>
      cases kept with
      | false => exact .inl (by simp [Pool.kept?,Plain.kept?,place,there])
      | true =>
        exact .inr ⟨⟨none⟩,none,by simp [Pool.kept?,place],by simp [Plain.kept?,there],rfl,there,
          .released true⟩
    | @held i t m kept live same =>
      cases kept with
      | false => exact .inl (by simp [Pool.kept?,Plain.kept?,place,there])
      | true =>
        exact .inr ⟨⟨some i⟩,some m,by simp [Pool.kept?,place],by simp [Plain.kept?,there],rfl,there,
          .held true live same⟩

theorem simulatesUsable {p : Pool α} {q : Plain α} (sim : Simulates p q) (k : Nat) :
    p.usable? k = none ∧ q.usable? k = none ∨
      ∃ i t m, p.usable? k = some ⟨some i⟩ ∧ q.usable? k = some m ∧
        p.holders[k]? = some ⟨⟨some i⟩,true⟩ ∧ p.tables.live i = some t ∧
        Bindings.Matches t.bindings m := by
  rcases simulatesKept sim k with ⟨none₁,none₂⟩ | ⟨e,m,kept₁,kept₂,place,_,alike⟩
  · exact .inl (by simp [Pool.usable?,Plain.usable?,none₁,none₂])
  · cases alike with
    | released => exact .inl (by simp [Pool.usable?,Plain.usable?,kept₁,kept₂])
    | @held i t m _ live same =>
      exact .inr ⟨i,t,m,by simp [Pool.usable?,kept₁],by simp [Plain.usable?,kept₂],place,live,same⟩

inductive SameOutcome : Option (BenchAnswer α × Pool α) → Option (BenchAnswer α × Plain α) → Prop where
  | ended : SameOutcome none none
  | answered (a : BenchAnswer α) {p q} (sim : Simulates p q) : SameOutcome (some (a,p)) (some (a,q))

theorem simulatesDrop {p : Pool α} {q : Plain α} (sim : Simulates p q) {k : Nat} {e : Environment}
    {m : Option (Bindings.Map α)} (place : p.holders[k]? = some ⟨e,true⟩)
    (alike : Alike p.tables.live ⟨e,true⟩ ⟨m,true⟩) :
    Simulates ⟨p.tables,p.holders.set k ⟨e,false⟩⟩ ⟨q.envs.set k ⟨m,false⟩⟩ := by
  refine simulatesPut sim ?_ (countedMove sim.counted place fun _ => rfl) fun _ _ i t _ _ _ there =>
    ⟨t,there,rfl⟩
  cases alike with
  | released => exact .released false
  | held _ there same => exact .held false there same

theorem simulatesErase {p : Pool α} {q : Plain α} (sim : Simulates p q) {k i : Nat} {t : Table α}
    {m : Bindings.Map α} (place : p.holders[k]? = some ⟨⟨some i⟩,true⟩)
    (there : p.tables.live i = some t) (same : Bindings.Matches t.bindings m) (name : String) :
    Simulates (p.put k (p.tables.erase ⟨some i⟩ name)) (q.put k (some (m.erase name))) := by
  have image : ∀ b, Bindings.Matches b m → Bindings.Matches (b.erase name) (m.erase name) :=
    fun b same => Bindings.matchesErase same name
  by_cases has : Environment.has p.tables ⟨some i⟩ name = true
  · exact simulatesWrite sim place (.held true there same) image
      (Tables.eraseWritten ⟨i,t,rfl,there⟩ name has)
  · -- the name is not there, and the map without it is the map itself
    have absent : name ∉ m := by
      have h := Bindings.matchesHas same name
      simp only [Environment.has,Environment.get?,Environment.Held.bindings there,h,
        decide_eq_true_eq] at has
      exact has
    have unchanged : m.erase name = m := by
      refine Finmap.ext_lookup fun other => ?_
      by_cases asked : other = name
      · rw [asked,Finmap.lookup_erase,Finmap.lookup_eq_none.mpr absent]
      · rw [Finmap.lookup_erase_ne asked]
    simp only [Tables.erase,has,unchanged]
    exact simulatesPut sim (.held true there same) (countedMove sim.counted place fun _ => rfl)
      fun _ _ i t _ _ _ there => ⟨t,there,rfl⟩

theorem simulatesStep {p : Pool α} {q : Plain α} (sim : Simulates p q) (r : Request α) :
    SameOutcome (p.step r) (q.step r) := by
  cases r with
  | new => exact .answered .nothing (simulatesNew sim)
  | copy k =>
    rcases simulatesUsable sim k with ⟨none₁,none₂⟩ | ⟨i,t,m,some₁,some₂,place,there,same⟩
    · simpa [Pool.step,Plain.step,none₁,none₂] using .ended
    · simpa [Pool.step,Plain.step,some₁,some₂] using
        .answered .nothing (simulatesCopy sim there same)
  | release k =>
    rcases simulatesKept sim k with ⟨none₁,none₂⟩ | ⟨e,m,some₁,some₂,place,place',alike⟩
    · simpa [Pool.step,Plain.step,none₁,none₂] using .ended
    · cases alike with
      | released =>
        -- the second release changes nothing
        have again : Simulates (p.put k (p.tables.release ⟨none⟩)) (q.put k none) :=
          simulatesPut sim (.released true) (countedMove sim.counted place fun _ => rfl)
            fun _ _ i t _ _ _ there => ⟨t,there,rfl⟩
        simpa [Pool.step,Plain.step,some₁,some₂] using .answered .nothing again
      | held _ there same =>
        simpa [Pool.step,Plain.step,some₁,some₂] using
          .answered .nothing (simulatesRelease sim place there)
  | drop k =>
    rcases simulatesKept sim k with ⟨none₁,none₂⟩ | ⟨e,m,some₁,some₂,place,_,alike⟩
    · simpa [Pool.step,Plain.step,none₁,none₂] using .ended
    · simpa [Pool.step,Plain.step,some₁,some₂] using
        .answered .nothing (simulatesDrop sim place alike)
  | set k name v =>
    rcases simulatesUsable sim k with ⟨none₁,none₂⟩ | ⟨i,t,m,some₁,some₂,place,there,same⟩
    · simpa [Pool.step,Plain.step,none₁,none₂] using .ended
    · have written := Tables.setWritten ⟨i,t,rfl,there⟩ name v
      have next := simulatesWrite sim place (.held true there same)
        (fun b same => Bindings.matchesSet same name v) written
      simpa [Pool.step,Plain.step,some₁,some₂] using .answered (.value (some v)) next
  | erase k name =>
    rcases simulatesUsable sim k with ⟨none₁,none₂⟩ | ⟨i,t,m,some₁,some₂,place,there,same⟩
    · simpa [Pool.step,Plain.step,none₁,none₂] using .ended
    · simpa [Pool.step,Plain.step,some₁,some₂] using
        .answered .nothing (simulatesErase sim place there same name)
  | get k name =>
    rcases simulatesUsable sim k with ⟨none₁,none₂⟩ | ⟨i,t,m,some₁,some₂,_,there,same⟩
    · simpa [Pool.step,Plain.step,none₁,none₂] using .ended
    · have answer := same.agrees name
      simpa [Pool.step,Plain.step,some₁,some₂,Environment.get?,Environment.Held.bindings there,answer]
        using .answered (.value (m.lookup name)) sim
  | has k name =>
    rcases simulatesUsable sim k with ⟨none₁,none₂⟩ | ⟨i,t,m,some₁,some₂,_,there,same⟩
    · simpa [Pool.step,Plain.step,none₁,none₂] using .ended
    · have answer := Bindings.matchesHas same name
      simpa [Pool.step,Plain.step,some₁,some₂,Environment.has,Environment.get?,
        Environment.Held.bindings there,answer] using .answered (.flag (decide (name ∈ m))) sim
  | names k =>
    rcases simulatesUsable sim k with ⟨none₁,none₂⟩ | ⟨i,t,m,some₁,some₂,_,there,same⟩
    · simpa [Pool.step,Plain.step,none₁,none₂] using .ended
    · have answer := Bindings.matchesNames same
      simpa [Pool.step,Plain.step,some₁,some₂,Environment.names,Environment.Held.bindings there,answer]
        using .answered (.names (m.keys.sort (· ≤ ·))) sim
  | size k =>
    rcases simulatesUsable sim k with ⟨none₁,none₂⟩ | ⟨i,t,m,some₁,some₂,_,there,same⟩
    · simpa [Pool.step,Plain.step,none₁,none₂] using .ended
    · have answer := Bindings.matchesSize same
      simpa [Pool.step,Plain.step,some₁,some₂,Environment.size,Environment.Held.bindings there,answer]
        using .answered (.count m.keys.card) sim

theorem simulatesRun (requests : List (Request α)) {p : Pool α} {q : Plain α} (sim : Simulates p q) :
    Pool.run requests p = none ∧ Plain.run requests q = none ∨
      ∃ answers p' q', Pool.run requests p = some (answers,p') ∧
        Plain.run requests q = some (answers,q') ∧ Simulates p' q' := by
  induction requests generalizing p q with
  | nil => exact .inr ⟨[],p,q,rfl,rfl,sim⟩
  | cons r rest ih =>
    have step := simulatesStep sim r
    generalize first : p.step r = a, first' : q.step r = b at step
    cases step with
    | ended => exact .inl (by simp [Pool.run,Plain.run,first,first'])
    | @answered answer p₁ q₁ next =>
      rcases ih next with ⟨none₁,none₂⟩ | ⟨answers,p₂,q₂,some₁,some₂,last⟩
      · exact .inl (by simp [Pool.run,Plain.run,first,first',none₁,none₂])
      · exact .inr ⟨answer :: answers,p₂,q₂,by simp [Pool.run,first,some₁],
          by simp [Plain.run,first',some₂],last⟩

theorem simulatesStart : Simulates ({} : Pool α) ({} : Plain α) :=
  ⟨rfl,by simp,fun i => by simp [refsOn,Tables.live]⟩

theorem pointingBound {p : Pool α} (counted : Counted p.tables.live p.holders) {i : Nat} {t : Table α}
    (there : p.tables.slots[i]? = some t) :
    p.pointing i ≤ t.refs ∧ (p.NoneLost → t.refs = p.pointing i) := by
  have exact : t.refs = p.holders.countP (pointsTo i) := by
    rw [← counted i]
    by_cases used : 0 < t.refs
    · simp [refsOn,Tables.liveSome.mpr ⟨there,used⟩]
    · have dead : t.refs = 0 := by omega
      simp [refsOn,Tables.live,there,Option.filter_some,dead]
  rw [exact]
  refine ⟨List.countP_mono_left fun h _ points => ?_,fun noneLost => List.countP_congr fun h inside => ?_⟩
  · simp only [decide_eq_true_eq] at points
    simp [pointsTo,points.2]
  · simp only [pointsTo,decide_eq_true_eq]
    refine ⟨fun points => ⟨?_,points⟩,And.right⟩
    by_contra lost
    rw [noneLost h inside (by simpa using lost)] at points
    contradiction

theorem sharedAnswersAreCopiedAnswers (requests : List (Request α)) :
    (Pool.run requests {}).map Prod.fst = (Plain.run requests {}).map Prod.fst ∧
    ∀ answers p, Pool.run requests {} = some (answers,p) →
      (∀ (i : Nat) t, p.tables.slots[i]? = some t →
        p.pointing i ≤ t.refs ∧ (p.NoneLost → t.refs = p.pointing i)) ∧
      ∀ (k : Nat) e, p.usable? k = some e →
        (∀ (j : Nat) h, j ≠ k → p.holders[j]? = some h → h.env.table ≠ e.table) →
        p.tables.own e = (p.tables,e) := by
  rcases simulatesRun requests simulatesStart with ⟨none₁,none₂⟩ | ⟨answers,p',q',some₁,some₂,sim⟩
  · exact ⟨by rw [none₁,none₂]; rfl,fun answers p reached => by rw [none₁] at reached; contradiction⟩
  · refine ⟨by rw [some₁,some₂]; rfl,fun answers' p reached => ?_⟩
    rw [some₁] at reached
    cases reached
    refine ⟨fun i t there => pointingBound sim.counted there,fun k e usable alone => ?_⟩
    rcases simulatesUsable sim k with ⟨none₁,_⟩ | ⟨i,t,m,some',_,place,there,_⟩
    · rw [none₁] at usable; contradiction
    · rw [some'] at usable
      cases usable
      exact Tables.ownAlone there (aloneCounts sim.counted place there alone)

def lentAndReturned : List (Request Nat) :=
  [.new,.set 0 "a" 1,.copy 0,.set 1 "a" 2,.release 1,.copy 0,.release 2,.release 2,.get 0 "a"]

def afterReturn : Pool Nat :=
  ⟨⟨#[⟨[("a",1)],1⟩]⟩,[⟨⟨some 0⟩,true⟩,⟨⟨none⟩,true⟩,⟨⟨none⟩,true⟩]⟩

theorem returnedTableIsWrittenInPlace :
    Pool.run lentAndReturned {} = some ([.nothing,.value (some 1),.nothing,.value (some 2),.nothing,
      .nothing,.nothing,.nothing,.value (some 1)],afterReturn) ∧
    afterReturn.pointing 0 = 1 ∧ afterReturn.tables.own ⟨some 0⟩ = (afterReturn.tables,⟨some 0⟩) := by
  have reached : Pool.run lentAndReturned {} = some ([.nothing,.value (some 1),.nothing,
    .value (some 2),.nothing,.nothing,.nothing,.nothing,.value (some 1)],afterReturn) := by rfl
  obtain ⟨counters,inPlace⟩ := (sharedAnswersAreCopiedAnswers lentAndReturned).2 _ _ reached
  have noneLost : afterReturn.NoneLost := by unfold Pool.NoneLost; decide
  refine ⟨reached,((counters 0 ⟨[("a",1)],1⟩ rfl).2 noneLost).symm,inPlace 0 ⟨some 0⟩ rfl ?_⟩
  intro j h different there
  match j with
  | 0 => contradiction
  | 1 | 2 => cases there; simp
  | j + 3 => simp [afterReturn] at there

end Terakoya
