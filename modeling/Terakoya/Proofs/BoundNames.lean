import Terakoya.Proofs.Bindings
import Terakoya.Proofs.Confinement
import Terakoya.Seed.Read

/-! Names bound one after the other, as parameters are on the way into a call and as a seed is before
a run. The last value given for a name counts; nothing else in scope changes, and nothing at all in
another environment, even in one that shared the table. -/
namespace Terakoya

variable {α : Type}

namespace Bindings

def setAll (pairs : List (String × α)) (b : Bindings α) : Bindings α :=
  pairs.foldl (fun b (name,v) => b.set name v) b

theorem getSetAll (pairs : List (String × α)) (b : Bindings α) (name : String) :
    (∃ v, (name,v) ∈ pairs ∧ get? name (b.setAll pairs) = some v) ∨
      name ∉ pairs.map Prod.fst ∧ get? name (b.setAll pairs) = get? name b := by
  induction pairs generalizing b with
  | nil => exact .inr ⟨List.not_mem_nil,rfl⟩
  | cons pair pairs ih =>
    obtain ⟨key,w⟩ := pair
    rw [show b.setAll ((key,w) :: pairs) = (b.set key w).setAll pairs from rfl]
    rcases ih (b.set key w) with ⟨v,inside,found⟩ | ⟨outside,same⟩
    · exact .inl ⟨v,List.mem_cons_of_mem _ inside,found⟩
    · rw [getSet] at same
      by_cases here : name = key
      · subst here
        exact .inl ⟨w,List.mem_cons_self,by simpa using same⟩
      · exact .inr ⟨by simpa [here] using outside,by simpa [here] using same⟩

theorem getSetAllLast {pairs after : List (String × α)} {name v} (last : name ∉ after.map Prod.fst) (b : Bindings α) :
    get? name (b.setAll (pairs ++ (name,v) :: after)) = some v := by
  rw [setAll,List.foldl_append,List.foldl_cons]
  rcases getSetAll after ((b.setAll pairs).set name v) name with ⟨w,there,_⟩ | ⟨_,same⟩
  · exact absurd (List.mem_map_of_mem there) last
  · exact same.trans (by rw [getSet,if_pos rfl])

end Bindings

theorem rewrittenElsewhere {ts ts' : Tables α} {e e' i t} (rewritten : Rewritten ts.live e ts'.live e')
    (held : ts.live i = some t) (other : e = ⟨some i⟩ → 1 < t.refs) :
    Environment.bindings ts' ⟨some i⟩ = Environment.bindings ts ⟨some i⟩ := by
  rw [Environment.Held.bindings held]
  rcases rewritten with ⟨shelf,_⟩ | ⟨f,written⟩
  · exact Environment.Held.bindings (shelf ▸ held)
  · generalize before : ts.live = s at written held
    generalize after : ts'.live = s' at written
    cases written with
    | @alone j b own =>
      have apart : i ≠ j := by
        rintro rfl
        obtain rfl := Option.some.inj (own.symm.trans held)
        exact absurd (other rfl) (by simp)
      exact Environment.Held.bindings (by rw [after,Function.update_of_ne apart,held])
    | @cloned j b n k shared free =>
      have apart : i ≠ k := by
        rintro rfl
        rw [free] at held
        contradiction
      by_cases here : i = j
      · subst here
        obtain rfl := Option.some.inj (shared.symm.trans held)
        exact Environment.Held.bindings (t := ⟨b,n + 1⟩) (by rw [after,Function.update_of_ne apart,Function.update_self])
      · exact Environment.Held.bindings (by
          rw [after,Function.update_of_ne apart,Function.update_of_ne here,held])

namespace Machine

variable {m : Machine}

def setAll (m : Machine) (pairs : List (String × Value)) : Machine :=
  pairs.foldl (fun (m : Machine) (name,v) => m.set name v) m

theorem setAllBindings (inScope : m.InScope) (pairs : List (String × Value)) :
    (m.setAll pairs).scope.bindings (m.setAll pairs).tables = (m.scope.bindings m.tables).setAll pairs := by
  induction pairs generalizing m with
  | nil => rfl
  | cons pair pairs ih =>
    have written := Tables.setWritten inScope pair.1 pair.2
    exact (ih (m := m.set pair.1 pair.2) (writtenHeld written)).trans
      (congrArg (Bindings.setAll pairs) (writtenBindings written))

theorem setAllGet (inScope : m.InScope) (pairs : List (String × Value)) (name : String) :
    (∃ v, (name,v) ∈ pairs ∧ (m.setAll pairs).get? name = some v) ∨
      name ∉ pairs.map Prod.fst ∧ (m.setAll pairs).get? name = m.get? name := by
  simp only [get?,Environment.get?,setAllBindings inScope]
  exact Bindings.getSetAll pairs _ name

theorem setAllEach (inScope : m.InScope) {names : List String} (distinct : names.Nodup) {values : List Value}
    (sameLength : values.length = names.length) (i : Nat) (inside : i < names.length) :
    (m.setAll (names.zip values)).get? names[i] = values[i]? := by
  rcases setAllGet inScope (names.zip values) names[i] with ⟨v,given,found⟩ | ⟨outside,_⟩
  · obtain ⟨j,there⟩ := List.getElem?_of_mem given
    obtain ⟨name,value⟩ := List.getElem?_zip_eq_some.mp there
    obtain ⟨bound,name⟩ := List.getElem?_eq_some_iff.mp name
    obtain rfl : j = i := (List.Nodup.getElem_inj_iff distinct).mp name
    rw [found,value]
  · exact absurd (by rw [List.map_fst_zip (Nat.le_of_eq sameLength.symm)]; exact List.getElem_mem inside) outside

theorem setAllNames (inScope : m.InScope) (pairs : List (String × Value)) (name : String) :
    name ∈ (m.setAll pairs).names ↔ name ∈ m.names ∨ name ∈ pairs.map Prod.fst := by
  have bound (m : Machine) : name ∈ m.names ↔ (m.get? name).isSome := Bindings.getSome.symm
  rw [bound,bound]
  rcases setAllGet inScope pairs name with ⟨v,given,found⟩ | ⟨outside,same⟩
  · simp only [found,Option.isSome_some,true_iff]
    exact .inr (List.mem_map_of_mem given)
  · rw [same]
    exact (or_iff_left outside).symm

end Machine

namespace Planted

variable {m : Machine}

def pairs (p : Planted) : List (String × Value) := p.map fun (name,v) => (bound name,v)

theorem bindAllPairs (m : Machine) (p : Planted) : p.bindAll m = m.setAll p.pairs := by
  unfold bindAll pairs Machine.setAll
  rw [List.foldl_map]

def check (p : Planted) : EStateM BadName Machine Unit :=
  p.forM fun (name,_) => if isIdentifier (Text.normalize name) then pure () else throw ⟨name⟩

def sow (p : Planted) : EStateM BadName Machine Unit := do
  p.check
  p.forM fun (name,v) => modify fun m => m.set (bound name) v

theorem checkRun (p : Planted) (m : Machine) : p.check m =
    match p.badName? with
    | some b => .error b m
    | none => .ok () m := by
  induction p with
  | nil => rfl
  | cons entry p ih =>
    obtain ⟨name,v⟩ := entry
    have step : check ((name,v) :: p) m =
      ((if isIdentifier (Text.normalize name) then pure () else throw ⟨name⟩) >>= fun _ => check p) m := rfl
    by_cases good : isIdentifier (Text.normalize name)
    · have later : badName? ((name,v) :: p) = badName? p := by simp [badName?,good]
      rw [later,← ih,step,if_pos good]
      rfl
    · have here : badName? ((name,v) :: p) = some ⟨name⟩ := by simp [badName?,good]
      rw [here,step,if_neg good]
      rfl

theorem bindRun (p : Planted) (m : Machine) :
    (p.forM fun (name,v) => modify fun m => m.set (bound name) v : EStateM BadName Machine Unit) m = .ok () (p.bindAll m) := by
  induction p generalizing m with
  | nil => rfl
  | cons entry p ih => exact ih (m.set (bound entry.1) entry.2)

theorem sowRun (p : Planted) (m : Machine) : p.sow m =
    match p.apply m with
    | .error b => .error b m
    | .ok m' => .ok () m' := by
  simp only [sow,bind,EStateM.bind,checkRun,apply]
  cases p.badName? with
  | some b => rfl
  | none => exact bindRun p m

theorem badNameSome {p : Planted} {b} (bad : p.badName? = some b) :
    ∃ e ∈ p, e.1 = b.name ∧ isIdentifier (Text.normalize e.1) = false := by
  obtain ⟨e,found,rfl⟩ := Option.map_eq_some_iff.mp bad
  exact ⟨e,List.mem_of_find?_eq_some found,rfl,by simpa using List.find?_some found⟩

theorem badNameNone {p : Planted} : p.badName? = none ↔ ∀ e ∈ p, isIdentifier (Text.normalize e.1) := by
  simp [badName?]

theorem applyGood {p : Planted} (good : p.all fun e => isIdentifier (Text.normalize e.1)) (m : Machine) :
    p.apply m = .ok (p.bindAll m) := by
  rw [apply,badNameNone.mpr (List.all_eq_true.mp good)]

theorem seedsAreBoundTogether (m : Machine) (inScope : m.InScope) (p : Planted) :
    ((∃ b, p.apply m = .error b) ↔ ∃ e ∈ p, isIdentifier (Text.normalize e.1) = false) ∧
    (∀ b, p.apply m = .error b → p.sow m = .error b m ∧
      ∃ e ∈ p, e.1 = b.name ∧ isIdentifier (Text.normalize e.1) = false) ∧
    ∀ n, p.apply m = .ok n → p.sow m = .ok () n ∧
      (∀ name, name ∈ n.names ↔ name ∈ m.names ∨ ∃ e ∈ p, bound e.1 = name) ∧
      (∀ e ∈ p, ∃ e' ∈ p, bound e'.1 = bound e.1 ∧ n.get? (bound e.1) = some e'.2) ∧
      (∀ name, (∀ e ∈ p, bound e.1 ≠ name) → n.get? name = m.get? name) ∧
      ∀ i t, m.tables.live i = some t → (m.scope = ⟨some i⟩ → 1 < t.refs) →
        Environment.bindings n.tables ⟨some i⟩ = Environment.bindings m.tables ⟨some i⟩ := by
  have given (name : String) : name ∈ p.pairs.map Prod.fst ↔ ∃ e ∈ p, bound e.1 = name := by simp [pairs]
  cases bad : p.badName? with
  | some b =>
    have fails : p.apply m = .error b := by rw [apply,bad]
    obtain ⟨e,inside,named,other⟩ := badNameSome bad
    refine ⟨⟨fun _ => ⟨e,inside,other⟩,fun _ => ⟨b,fails⟩⟩,fun b' failed => ?_,fun n bound => ?_⟩
    · obtain rfl := Except.error.inj (fails.symm.trans failed)
      exact ⟨by rw [sowRun,fails],e,inside,named,other⟩
    · rw [fails] at bound
      contradiction
  | none =>
    have succeeds : p.apply m = .ok (m.setAll p.pairs) := by rw [apply,bad,← bindAllPairs]
    refine ⟨⟨fun ⟨b,failed⟩ => ?_,fun ⟨e,inside,other⟩ => ?_⟩,fun b failed => ?_,fun n planted => ?_⟩
    · rw [succeeds] at failed
      contradiction
    · rw [badNameNone.mp bad e inside] at other
      contradiction
    · rw [succeeds] at failed
      contradiction
    · obtain rfl := Except.ok.inj (succeeds.symm.trans planted)
      refine ⟨by rw [sowRun,succeeds],fun name => ?_,fun e inside => ?_,fun name outside => ?_,fun i t held other => ?_⟩
      · rw [Machine.setAllNames inScope,given]
      · rcases Machine.setAllGet inScope p.pairs (bound e.1) with ⟨v,there,found⟩ | ⟨outside,_⟩
        · obtain ⟨e',inside',same⟩ := List.mem_map.mp there
          obtain ⟨name,rfl⟩ := Prod.mk.inj same
          exact ⟨e',inside',name,found⟩
        · exact absurd ((given _).mpr ⟨e,inside,rfl⟩) outside
      · rcases Machine.setAllGet inScope p.pairs name with ⟨v,there,_⟩ | ⟨_,same⟩
        · obtain ⟨e,inside,here⟩ := (given name).mp (List.mem_map_of_mem there)
          exact absurd here (outside e inside)
        · exact same
      · exact rewrittenElsewhere (writesParameters p.pairs m inScope).names held other

def sharing : Machine := { tables := ⟨#[⟨[("x",.int 1),("y",.int 2)],2⟩]⟩,scope := ⟨some 0⟩ }

def widths : Planted := [(Text.ofString "x",.int 5),(Text.ofString "ｘ",.int 7)]

theorem widthsAreBound : sharing.InScope ∧ ∃ n, widths.apply sharing = .ok n ∧ widths.sow sharing = .ok () n ∧
    n.get? "y" = some (.int 2) ∧ Environment.bindings n.tables ⟨some 0⟩ = [("x",.int 1),("y",.int 2)] := by
  have inScope : sharing.InScope := ⟨0,⟨[("x",.int 1),("y",.int 2)],2⟩,rfl,rfl⟩
  have bound : widths.apply sharing = .ok (widths.bindAll sharing) := applyGood (by decide +kernel) _
  have foreign : widths.all fun e => Planted.bound e.1 ≠ "y" := by decide +kernel
  obtain ⟨sown,_,_,others,elsewhere⟩ := (seedsAreBoundTogether sharing inScope widths).2.2 _ bound
  refine ⟨inScope,_,bound,sown,others "y" fun e inside => ?_,elsewhere 0 _ rfl fun _ => Nat.one_lt_two⟩
  simpa using List.all_eq_true.mp foreign e inside

theorem spellingsShareOneValue (m : Machine) (inScope : m.InScope) (p : Planted) (n : Machine)
    (planted : p.apply m = .ok n) :
    ((∀ e ∈ p, n.get? (bound e.1) = some e.2) ↔ ∀ e ∈ p, ∀ e' ∈ p, bound e.1 = bound e'.1 → e.2 = e'.2) ∧
    ∀ before e after, p = before ++ e :: after → (∀ e' ∈ after, bound e'.1 ≠ bound e.1) →
      n.get? (bound e.1) = some e.2 := by
  obtain rfl : n = m.setAll p.pairs := by
    unfold apply at planted
    split at planted
    · contradiction
    · rw [← Except.ok.inj planted,bindAllPairs]
  refine ⟨⟨fun kept e inside e' inside' same => ?_,fun agree e inside => ?_⟩,fun before e after parts last => ?_⟩
  · exact Option.some.inj ((kept e inside).symm.trans (same ▸ kept e' inside'))
  · rcases Machine.setAllGet inScope p.pairs (bound e.1) with ⟨v,there,found⟩ | ⟨outside,_⟩
    · obtain ⟨e',inside',same⟩ := List.mem_map.mp there
      obtain ⟨name,rfl⟩ := Prod.mk.inj same
      rw [found,agree e inside e' inside' name.symm]
    · exact absurd (List.mem_map_of_mem (List.mem_map_of_mem inside)) outside
  · have last : bound e.1 ∉ (pairs after).map Prod.fst := by simpa [pairs] using fun a b there => last (a,b) there
    rw [Machine.get?,Environment.get?,Machine.setAllBindings inScope,parts,pairs,List.map_append,List.map_cons]
    exact Bindings.getSetAllLast last _

def spelled : Planted := [(Text.ofString "x",.int 5),(Text.ofString "ｙ",.int 7)]

theorem bothSpellingsAreFound : ∃ n, spelled.apply sharing = .ok n ∧ ∀ e ∈ spelled, n.get? (bound e.1) = some e.2 := by
  have inScope : sharing.InScope := ⟨0,⟨[("x",.int 1),("y",.int 2)],2⟩,rfl,rfl⟩
  have planted : spelled.apply sharing = .ok (spelled.bindAll sharing) := applyGood (by decide +kernel) _
  have apart : (spelled.map fun e => bound e.1).Nodup := by decide +kernel
  refine ⟨_,planted,(spellingsShareOneValue sharing inScope spelled _ planted).1.mpr fun e inside e' inside' same => ?_⟩
  rw [List.inj_on_of_nodup_map apart inside inside' same]

theorem wideColumnReplacesNarrow : ∃ s, Seed.ofTable (Text.ofString "x,ｘ\n1,2\n") = .ok s ∧
    ∃ n, (Machine.empty.plant s).2.apply (Machine.empty.plant s).1 = .ok n ∧
      ∃ e ∈ (Machine.empty.plant s).2, n.get? (bound e.1) ≠ some e.2 := by
  have lost : (Seed.ofTable (Text.ofString "x,ｘ\n1,2\n")).toOption.any fun s =>
      (Machine.empty.plant s).2.all (fun e => isIdentifier (Text.normalize e.1)) &&
        (Machine.empty.plant s).2.any fun e =>
          ((Machine.empty.plant s).2.bindAll (Machine.empty.plant s).1).get? (bound e.1) ≠ some e.2 := by
    decide +kernel
  cases read : Seed.ofTable (Text.ofString "x,ｘ\n1,2\n") with
  | error e =>
    rw [read] at lost
    contradiction
  | ok s =>
    rw [read] at lost
    obtain ⟨good,other⟩ := (Bool.and_eq_true _ _).mp lost
    obtain ⟨e,inside,other⟩ := List.any_eq_true.mp other
    exact ⟨s,rfl,_,applyGood good _,e,inside,of_decide_eq_true other⟩

end Planted
end Terakoya
