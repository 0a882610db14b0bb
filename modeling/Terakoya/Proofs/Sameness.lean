import Terakoya.Proofs.Renaming
import Terakoya.Proofs.Safety

/-! Equality of values that may contain themselves. Comparing is laid down once more, as a relation without a bound on
how far it goes down: the pairs that are assumed grow along the way and are never taken back. Comparing always comes to
an end, and it finds two values equal just if they are alike under a relation of sequences that all elements keep. -/
namespace Terakoya.Heap

def Closed (h : Heap) : Prop := ∀ s ∈ h.sequences, ∀ v ∈ s.elements, h.Proper v

inductive Resembles (R : Nat → Nat → Prop) : Value → Value → Prop where
  | int (n : Int) : Resembles R (.int n) (.int n)
  | null : Resembles R .null .null
  | fn (id : Nat) : Resembles R (.fn id) (.fn id)
  | seq {i j} (related : R i j) : Resembles R (.seq i) (.seq j)

def Meets (h : Heap) (R : Nat → Nat → Prop) (i j : Nat) : Prop :=
  ∃ s t, h.sequences[i]? = some s ∧ h.sequences[j]? = some t ∧
    List.Forall₂ (Resembles R) s.elements.toList t.elements.toList

def Likeness (h : Heap) (R : Nat → Nat → Prop) : Prop := ∀ i j, R i j → h.Meets R i j

inductive Differs (h : Heap) : Value → Value → Prop where
  | kinds {v w} (other : v.typeName ≠ w.typeName) : Differs h v w
  | ints {m n} (other : m ≠ n) : Differs h (.int m) (.int n)
  | fns {i j} (other : i ≠ j) : Differs h (.fn i) (.fn j)
  | sizes {i j s t} (left : h.sequences[i]? = some s) (right : h.sequences[j]? = some t)
      (other : s.elements.size ≠ t.elements.size) : Differs h (.seq i) (.seq j)

def Even (h : Heap) (i j : Nat) (s t : Sequence) : Prop :=
  h.sequences[i]? = some s ∧ h.sequences[j]? = some t ∧ s.elements.size = t.elements.size

inductive Passes (h : Heap) (A : Assumed) : Value → Value → Prop where
  | int (n : Int) : Passes h A (.int n) (.int n)
  | null : Passes h A .null .null
  | fn (id : Nat) : Passes h A (.fn id) (.fn id)
  | seq {i j s t} (even : h.Even i j s t) (known : i = j ∨ (i,j) ∈ A) : Passes h A (.seq i) (.seq j)

inductive Compares (h : Heap) : Assumed → List Value → List Value → Bool → Assumed → Prop where
  | done {A : Assumed} : Compares h A [] [] true A
  | differ {A : Assumed} {v w : Value} {vs ws : List Value} (differs : h.Differs v w) : Compares h A (v :: vs) (w :: ws) false A
  | pass {A B : Assumed} {v w : Value} {vs ws : List Value} {r : Bool} (passes : h.Passes A v w) (rest : Compares h A vs ws r B) :
      Compares h A (v :: vs) (w :: ws) r B
  | unlike {A B : Assumed} {i j : Nat} {s t : Sequence} {vs ws : List Value} (even : h.Even i j s t)
      (fresh : ¬ (i = j ∨ (i,j) ∈ A)) (inside : Compares h ((i,j) :: A) s.elements.toList t.elements.toList false B) :
      Compares h A (.seq i :: vs) (.seq j :: ws) false B
  | like {A B C : Assumed} {i j : Nat} {s t : Sequence} {vs ws : List Value} {r : Bool} (even : h.Even i j s t)
      (fresh : ¬ (i = j ∨ (i,j) ∈ A)) (inside : Compares h ((i,j) :: A) s.elements.toList t.elements.toList true B)
      (rest : Compares h B vs ws r C) : Compares h A (.seq i :: vs) (.seq j :: ws) r C

variable {h : Heap} {A B C : Assumed} {v w : Value} {vs ws : List Value} {r : Bool}

/-! Comparing with a bound and without one -/

theorem differsEqualAt (differs : h.Differs v w) (depth : Nat) (A : Assumed) : h.equalAt depth A v w = (false,A) := by
  cases differs with
  | kinds other => cases v <;> cases w <;> first | contradiction | simp only [equalAt]
  | ints other => simp only [equalAt,other,decide_false]
  | fns other => simp only [equalAt,other,decide_false]
  | sizes left right other => rw [Renaming.equalAtSequences h depth A _ _ left right,if_pos other]

theorem passesEqualAt (passes : h.Passes A v w) (depth : Nat) : h.equalAt depth A v w = (true,A) := by
  cases passes with
  | int n => simp only [equalAt,decide_true]
  | null => simp only [equalAt]
  | fn id => simp only [equalAt,decide_true]
  | seq even known =>
    rw [Renaming.equalAtSequences h depth A _ _ even.1 even.2.1,if_neg (not_not.mpr even.2.2),if_pos known]

theorem freshEqualAt {i j s t} (even : h.Even i j s t) (fresh : ¬ (i = j ∨ (i,j) ∈ A)) (depth : Nat) :
    h.equalAt (depth + 1) A (.seq i) (.seq j) =
      equalElements (h.equalAt depth) ((i,j) :: A) s.elements.toList t.elements.toList := by
  rw [Renaming.equalAtSequences h (depth + 1) A _ _ even.1 even.2.1,if_neg (not_not.mpr even.2.2),if_neg fresh]

theorem elementsDiffer {equal : Assumed → Value → Value → Bool × Assumed} (first : equal A v w = (false,B)) :
    equalElements equal A (v :: vs) (w :: ws) = (false,B) := by
  simp only [equalElements,first]

theorem elementsPass {equal : Assumed → Value → Value → Bool × Assumed} (first : equal A v w = (true,B)) :
    equalElements equal A (v :: vs) (w :: ws) = equalElements equal B vs ws := by
  simp only [equalElements,first]

theorem comparesElements (run : Compares h A vs ws r B) :
    ∃ least, ∀ depth, least ≤ depth → equalElements (h.equalAt depth) A vs ws = (r,B) := by
  induction run with
  | done => exact ⟨0,fun depth _ => rfl⟩
  | differ differs => exact ⟨0,fun depth _ => elementsDiffer (differsEqualAt differs depth _)⟩
  | pass passes _ ih =>
    obtain ⟨least,enough⟩ := ih
    exact ⟨least,fun depth deep => (elementsPass (passesEqualAt passes depth)).trans (enough depth deep)⟩
  | unlike even fresh _ ih =>
    obtain ⟨least,enough⟩ := ih
    refine ⟨least + 1,fun depth deep => ?_⟩
    obtain ⟨depth,rfl⟩ : ∃ k, depth = k + 1 := ⟨depth - 1,by omega⟩
    exact elementsDiffer ((freshEqualAt even fresh depth).trans (enough depth (by omega)))
  | like even fresh _ _ ih ih' =>
    obtain ⟨least,enough⟩ := ih
    obtain ⟨least',enough'⟩ := ih'
    refine ⟨max least least' + 1,fun depth deep => ?_⟩
    obtain ⟨depth,rfl⟩ : ∃ k, depth = k + 1 := ⟨depth - 1,by omega⟩
    rw [elementsPass ((freshEqualAt even fresh depth).trans (enough depth (by omega)))]
    exact enough' (depth + 1) (by omega)

theorem comparesOnce {r'} (run : Compares h A vs ws r B) (run' : Compares h A vs ws r' C) : r' = r ∧ C = B := by
  obtain ⟨least,enough⟩ := comparesElements run
  obtain ⟨least',enough'⟩ := comparesElements run'
  have same := (enough' (max least least') (by omega)).symm.trans (enough (max least least') (by omega))
  exact Prod.mk.inj same

theorem sightCases (A : Assumed) (proper : h.Proper v) (proper' : h.Proper w) : h.Differs v w ∨ h.Passes A v w ∨
    ∃ i j s t, v = .seq i ∧ w = .seq j ∧ h.Even i j s t ∧ ¬ (i = j ∨ (i,j) ∈ A) := by
  by_cases kinds : v.typeName = w.typeName
  · cases v with
    | int m =>
      cases w with
      | int n =>
        by_cases same : m = n
        · exact .inr (.inl (same ▸ .int m))
        · exact .inl (.ints same)
      | _ => exact absurd kinds (by simp [Value.typeName])
    | null =>
      cases w with
      | null => exact .inr (.inl .null)
      | _ => exact absurd kinds (by simp [Value.typeName])
    | fn i =>
      cases w with
      | fn j =>
        by_cases same : i = j
        · exact .inr (.inl (same ▸ .fn i))
        · exact .inl (.fns same)
      | _ => exact absurd kinds (by simp [Value.typeName])
    | seq i =>
      cases w with
      | seq j =>
        obtain ⟨s,left⟩ : ∃ s, h.sequences[i]? = some s := ⟨_,Array.getElem?_eq_getElem proper⟩
        obtain ⟨t,right⟩ : ∃ t, h.sequences[j]? = some t := ⟨_,Array.getElem?_eq_getElem proper'⟩
        by_cases sizes : s.elements.size = t.elements.size
        · by_cases known : i = j ∨ (i,j) ∈ A
          · exact .inr (.inl (.seq ⟨left,right,sizes⟩ known))
          · exact .inr (.inr ⟨i,j,s,t,rfl,rfl,⟨left,right,sizes⟩,known⟩)
        · exact .inl (.sizes left right sizes)
      | _ => exact absurd kinds (by simp [Value.typeName])
  · exact .inl (.kinds kinds)

/-! Comparing ends -/

theorem insideProper (closed : h.Closed) {id : Nat} {s}
    (there : h.sequences[id]? = some s) : ∀ v ∈ s.elements.toList, h.Proper v :=
  fun v inside => closed s (Array.mem_of_getElem? there) v (Array.mem_def.mpr inside)

def Ends (h : Heap) (depth : Nat) : Prop :=
  ∀ A vs ws, vs.length = ws.length → (∀ v ∈ vs, h.Proper v) → (∀ w ∈ ws, h.Proper w) → Renaming.Listed h A →
    h.sequences.size * h.sequences.size ≤ depth + A.length →
    ∃ r B, equalElements (h.equalAt depth) A vs ws = (r,B) ∧ Compares h A vs ws r B ∧ Renaming.Listed h B ∧ A.length ≤ B.length

theorem endsDeeper (closed : h.Closed) {depth : Nat}
    (lower : ∀ k, depth = k + 1 → h.Ends k) : h.Ends depth := by
  intro A vs
  induction vs generalizing A with
  | nil =>
    intro ws lengths _ _ listed _
    obtain rfl : ws = [] := List.length_eq_zero_iff.mp lengths.symm
    exact ⟨true,A,rfl,.done,listed,Nat.le_refl _⟩
  | cons v vs ih =>
    intro ws lengths proper proper' listed enough
    obtain ⟨w,ws,rfl⟩ : ∃ w ws', ws = w :: ws' := List.exists_cons_of_length_eq_add_one lengths.symm
    obtain ⟨first,rest⟩ := List.forall_mem_cons.mp proper
    obtain ⟨first',rest'⟩ := List.forall_mem_cons.mp proper'
    have later (B : Assumed) (listed : Renaming.Listed h B) (longer : A.length ≤ B.length) :=
      ih B ws (Nat.succ.inj lengths) rest rest' listed (by omega)
    rcases sightCases A first first' with differs | passes | ⟨i,j,s,t,rfl,rfl,even,fresh⟩
    · exact ⟨false,A,elementsDiffer (differsEqualAt differs depth A),.differ differs,listed,Nat.le_refl _⟩
    · obtain ⟨r,B,same,run,listed',longer⟩ := later A listed (Nat.le_refl _)
      exact ⟨r,B,(elementsPass (passesEqualAt passes depth)).trans same,.pass passes run,listed',longer⟩
    · have more : Renaming.Listed h ((i,j) :: A) :=
        ⟨List.nodup_cons.mpr ⟨fun there => fresh (.inr there),listed.nodup⟩,
          List.forall_mem_cons.mpr ⟨⟨first,first'⟩,listed.inside⟩⟩
      have room := Renaming.listedShort more
      rw [List.length_cons] at room
      obtain ⟨k,rfl⟩ : ∃ k, depth = k + 1 := ⟨depth - 1,by omega⟩
      obtain ⟨r,B,same,run,listed',longer⟩ := lower k rfl ((i,j) :: A) s.elements.toList t.elements.toList even.2.2
        (insideProper closed even.1) (insideProper closed even.2.1) more (by rw [List.length_cons]; omega)
      have same := (freshEqualAt even fresh k).trans same
      rw [List.length_cons] at longer
      cases r with
      | false => exact ⟨false,B,elementsDiffer same,.unlike even fresh run,listed',by omega⟩
      | true =>
        obtain ⟨r,C,same',run',listed'',longer'⟩ := later B listed' (by omega)
        exact ⟨r,C,(elementsPass same).trans same',.like even fresh run run',listed'',by omega⟩

theorem endsWithin (closed : h.Closed) (depth : Nat) : h.Ends depth := by
  induction depth with
  | zero => exact endsDeeper closed fun k below => by omega
  | succ depth ih => exact endsDeeper closed fun k same => Nat.succ.inj same ▸ ih

theorem comparesEqual (closed : h.Closed) (proper : h.Proper v) (proper' : h.Proper w) :
    ∃ B, Compares h [] [v] [w] (h.equal v w) B := by
  obtain ⟨r,B,same,run,_,_⟩ := endsWithin closed (h.sequences.size * h.sequences.size) [] [v] [w] rfl
    (List.forall_mem_singleton.mpr proper) (List.forall_mem_singleton.mpr proper') ⟨List.nodup_nil,by simp⟩ (Nat.le_refl _)
  have answer : h.equal v w = r := by
    simp only [equalElements] at same
    rw [equal]
    split at same
    · rename_i found
      rw [found,(Prod.mk.inj same).1]
    · rename_i found
      rw [found,(Prod.mk.inj same).1]
  exact ⟨B,answer ▸ run⟩

/-! What is found equal -/

theorem resemblesMono {R S : Nat → Nat → Prop} (more : ∀ i j, R i j → S i j) (alike : Resembles R v w) : Resembles S v w := by
  cases alike with
  | int n => exact .int n
  | null => exact .null
  | fn id => exact .fn id
  | seq related => exact .seq (more _ _ related)

theorem meetsMono {R S : Nat → Nat → Prop} (more : ∀ i j, R i j → S i j) {i j} (meets : h.Meets R i j) : h.Meets S i j := by
  obtain ⟨s,t,left,right,elements⟩ := meets
  exact ⟨s,t,left,right,elements.imp fun _ _ => resemblesMono more⟩

def Granted (h : Heap) (A : Assumed) (i j : Nat) : Prop := (i = j ∧ i < h.sequences.size) ∨ (i,j) ∈ A

theorem grantedMono (more : A ⊆ B) (i j : Nat) (granted : h.Granted A i j) : h.Granted B i j :=
  granted.imp_right fun there => more there

theorem comparesTrue (run : Compares h A vs ws r B) (found : r = true) :
    A ⊆ B ∧ List.Forall₂ (Resembles (h.Granted B)) vs ws ∧ ∀ i j, (i,j) ∈ B → (i,j) ∈ A ∨ h.Meets (h.Granted B) i j := by
  induction run with
  | done => exact ⟨List.Subset.refl _,.nil,fun _ _ there => .inl there⟩
  | differ differs => contradiction
  | unlike even fresh inside ih => contradiction
  | @pass A B v w vs ws r passes rest ih =>
    obtain ⟨more,alike,kept⟩ := ih found
    refine ⟨more,.cons ?_ alike,kept⟩
    cases passes with
    | int n => exact .int n
    | null => exact .null
    | fn id => exact .fn id
    | seq even known =>
      have inside := (Array.getElem?_eq_some_iff.mp even.1).1
      exact .seq (grantedMono more _ _ (known.imp_left fun same => ⟨same,inside⟩))
  | @like A B C i j s t vs ws r even fresh inside rest ih ih' =>
    obtain ⟨more,alike,kept⟩ := ih rfl
    obtain ⟨more',alike',kept'⟩ := ih' found
    have grows : ∀ k l, h.Granted B k l → h.Granted C k l := grantedMono more'
    have here : h.Granted C i j := .inr (more' (more List.mem_cons_self))
    refine ⟨fun p there => more' (more (List.mem_cons_of_mem _ there)),.cons (.seq here) alike',fun k l there => ?_⟩
    rcases kept' k l there with before | meets
    · rcases kept k l before with first | meets
      · rcases List.mem_cons.mp first with same | first
        · cases same
          exact .inr ⟨s,t,even.1,even.2.1,alike.imp fun _ _ => resemblesMono grows⟩
        · exact .inl first
      · exact .inr (meetsMono grows meets)
    · exact .inr meets

theorem alikeMeets {R : Nat → Nat → Prop} (likeness : h.Likeness R) {i j} (alike : Resembles R (.seq i) (.seq j))
    {s t} (left : h.sequences[i]? = some s) (right : h.sequences[j]? = some t) :
    List.Forall₂ (Resembles R) s.elements.toList t.elements.toList := by
  cases alike with
  | seq related =>
    obtain ⟨s',t',left',right',elements⟩ := likeness i j related
    cases left.symm.trans left'
    cases right.symm.trans right'
    exact elements

theorem differsUnlike {R : Nat → Nat → Prop} (likeness : h.Likeness R) (differs : h.Differs v w) : ¬ Resembles R v w := by
  intro alike
  cases differs with
  | kinds other => cases alike <;> exact other rfl
  | ints other => cases alike; exact other rfl
  | fns other => cases alike; exact other rfl
  | sizes left right other => exact other (alikeMeets likeness alike left right).length_eq

theorem comparesAlike {R : Nat → Nat → Prop} (likeness : h.Likeness R) (run : Compares h A vs ws r B)
    (alike : List.Forall₂ (Resembles R) vs ws) : r = true := by
  induction run with
  | done => rfl
  | differ differs => exact absurd (List.forall₂_cons.mp alike).1 (differsUnlike likeness differs)
  | pass passes rest ih => exact ih (List.forall₂_cons.mp alike).2
  | unlike even fresh inside ih => exact ih (alikeMeets likeness (List.forall₂_cons.mp alike).1 even.1 even.2.1)
  | like even fresh inside rest ih ih' => exact ih' (List.forall₂_cons.mp alike).2

/-! Relations that elements keep -/

theorem resemblesSelf (R : Nat → Nat → Prop) (same : ∀ i, v = .seq i → R i i) : Resembles R v v := by
  cases v with
  | int n => exact .int n
  | null => exact .null
  | fn id => exact .fn id
  | seq id => exact .seq (same id rfl)

theorem resemblesSwap {R : Nat → Nat → Prop} (alike : Resembles R v w) : Resembles (fun i j => R j i) w v := by
  cases alike with
  | int n => exact .int n
  | null => exact .null
  | fn id => exact .fn id
  | seq related => exact .seq related

theorem resemblesComp {R S : Nat → Nat → Prop} {u v w} (first : Resembles R u v) (second : Resembles S v w) :
    Resembles (Relation.Comp R S) u w := by
  cases first with
  | int n => cases second; exact .int n
  | null => cases second; exact .null
  | fn id => cases second; exact .fn id
  | seq related => cases second with | seq related' => exact .seq ⟨_,related,related'⟩

theorem meetsSelf (closed : h.Closed) {R : Nat → Nat → Prop}
    (same : ∀ i, i < h.sequences.size → R i i) {i} (inside : i < h.sequences.size) : h.Meets R i i := by
  have there := Array.getElem?_eq_getElem inside
  refine ⟨_,_,there,there,List.forall₂_same.mpr fun v element => resemblesSelf R fun j seq => same j ?_⟩
  subst seq
  exact insideProper closed there _ element

theorem likenessSwap {R : Nat → Nat → Prop} (likeness : h.Likeness R) : h.Likeness fun i j => R j i := by
  intro i j related
  obtain ⟨s,t,left,right,elements⟩ := likeness j i related
  exact ⟨t,s,right,left,(elements.imp fun _ _ => resemblesSwap).flip⟩

theorem elementsComp {R S : Nat → Nat → Prop} {us vs ws} (first : List.Forall₂ (Resembles R) us vs)
    (second : List.Forall₂ (Resembles S) vs ws) : List.Forall₂ (Resembles (Relation.Comp R S)) us ws := by
  induction first generalizing ws with
  | nil => cases second; exact .nil
  | cons head _ ih => cases second with | cons head' tail' => exact .cons (resemblesComp head head') (ih tail')

theorem likenessComp {R S : Nat → Nat → Prop} (first : h.Likeness R) (second : h.Likeness S) :
    h.Likeness (Relation.Comp R S) := by
  rintro i k ⟨j,related,related'⟩
  obtain ⟨s,t,left,middle,elements⟩ := first i j related
  obtain ⟨t',u,middle',right,elements'⟩ := second j k related'
  cases middle.symm.trans middle'
  exact ⟨s,u,left,right,elementsComp elements elements'⟩

theorem likenessGranted (closed : h.Closed)
    (kept : ∀ i j, (i,j) ∈ B → h.Meets (h.Granted B) i j) : h.Likeness (h.Granted B) := by
  rintro i j (⟨rfl,inside⟩ | assumed)
  · exact meetsSelf closed (fun i inside => .inl ⟨rfl,inside⟩) inside
  · exact kept i j assumed

theorem equalAlike (closed : h.Closed) (proper : h.Proper v) (proper' : h.Proper w) :
    h.equal v w ↔ ∃ R, h.Likeness R ∧ Resembles R v w := by
  obtain ⟨B,run⟩ := comparesEqual closed proper proper'
  constructor
  · intro found
    obtain ⟨_,alike,kept⟩ := comparesTrue run found
    exact ⟨h.Granted B,likenessGranted closed fun i j there => (kept i j there).resolve_left List.not_mem_nil,
      (List.forall₂_cons.mp alike).1⟩
  · rintro ⟨R,likeness,alike⟩
    exact comparesAlike likeness run (.cons alike .nil)

theorem equalityIsLikeness (h : Heap) (closed : h.Closed) :
    (∀ v w, h.Proper v → h.Proper w →
      (∃! r, ∃ B, Compares h [] [v] [w] r B) ∧ (∃ B, Compares h [] [v] [w] (h.equal v w) B) ∧
      (h.equal v w ↔ ∃ R, h.Likeness R ∧ Resembles R v w)) ∧
    (∀ v, h.Proper v → h.equal v v) ∧
    (∀ v w, h.Proper v → h.Proper w → h.equal v w → h.equal w v) ∧
    (∀ u v w, h.Proper u → h.Proper v → h.Proper w → h.equal u v → h.equal v w → h.equal u w) := by
  refine ⟨fun v w proper proper' => ?_,fun v proper => ?_,fun v w proper proper' found => ?_,
    fun u v w first second third found found' => ?_⟩
  · have run := comparesEqual closed proper proper'
    refine ⟨⟨h.equal v w,run,?_⟩,run,equalAlike closed proper proper'⟩
    rintro r ⟨C,run'⟩
    obtain ⟨B,run⟩ := run
    exact (comparesOnce run run').1
  · have itself : h.Likeness (h.Granted []) := likenessGranted closed fun i j there => absurd there List.not_mem_nil
    refine (equalAlike closed proper proper).mpr ⟨_,itself,resemblesSelf _ fun i same => .inl ⟨rfl,?_⟩⟩
    subst same
    exact proper
  · obtain ⟨R,likeness,alike⟩ := (equalAlike closed proper proper').mp found
    exact (equalAlike closed proper' proper).mpr ⟨_,likenessSwap likeness,resemblesSwap alike⟩
  · obtain ⟨R,likeness,alike⟩ := (equalAlike closed first second).mp found
    obtain ⟨S,likeness',alike'⟩ := (equalAlike closed second third).mp found'
    exact (equalAlike closed first third).mpr ⟨_,likenessComp likeness likeness',resemblesComp alike alike'⟩

def knots : Heap :=
  { sequences := #[⟨#[.int 7,.seq 0],false⟩,⟨#[.int 7,.seq 2],false⟩,⟨#[.int 7,.seq 1],true⟩] }

theorem knotsAreEqual : knots.Closed ∧ knots.equal (.seq 0) (.seq 1) ∧
    ∃ R, knots.Likeness R ∧ Resembles R (.seq 0) (.seq 1) := by
  have closed : knots.Closed := by simp [Closed,knots,Proper]
  have found : knots.equal (.seq 0) (.seq 1) := by decide +kernel
  have inside : knots.Proper (.seq 0) ∧ knots.Proper (.seq 1) := by
    constructor <;> (show _ < 3; decide)
  exact ⟨closed,found,((equalityIsLikeness knots closed).1 _ _ inside.1 inside.2).2.2.mp found⟩

end Terakoya.Heap
