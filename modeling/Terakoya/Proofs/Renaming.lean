import Mathlib.Data.List.Nodup
import Mathlib.Data.List.Perm.Subperm
import Mathlib.Data.List.ProdSigma
import Terakoya.Proofs.Accord

/-! Which numbers stand for the sequences and functions of a heap does not show. A run is mirrored, step by
step, by the same run on a machine that numbers them otherwise. The second machine may hold more of them,
that nothing leads to, and may have picked at random before. -/
namespace Terakoya

variable {α β γ δ : Type}

structure Renaming where
  seq : Nat → Nat
  fn : Nat → Nat
  seqInjective : Function.Injective seq
  fnInjective : Function.Injective fn

namespace Renaming

variable (ρ : Renaming)

def value : Value → Value
  | .int n => .int n
  | .null => .null
  | .seq id => .seq (ρ.seq id)
  | .fn id => .fn (ρ.fn id)

def sequence (s : Sequence) : Sequence := { s with elements := s.elements.map ρ.value }

def slot : Slot → Slot
  | .name name => .name name
  | .element id index => .element (ρ.seq id) index
  | .tail id => .tail (ρ.seq id)

def flow : Flow → Flow
  | .next => .next
  | .answered v span => .answered (ρ.value v) span
  | .left span => .left span

def frame (f : Frame) : Frame := { f with args := f.args.map ρ.value }

def shown (s : Shown) : Shown := { s with value := ρ.value s.value }

structure Heaps (h h' : Heap) : Prop where
  sequences : ∀ id : Nat, h'.sequences[ρ.seq id]? = h.sequences[id]?.map ρ.sequence
  functions : ∀ id : Nat, h'.functions[ρ.fn id]? = h.functions[id]?
  newSequence : ∀ n, ρ.seq (h.sequences.size + n) = h'.sequences.size + n
  newFunction : ∀ n, ρ.fn (h.functions.size + n) = h'.functions.size + n

variable {ρ} {h h' : Heap}

theorem heapsAddSequence (heaps : ρ.Heaps h h') (s : Sequence) :
    ρ.Heaps (h.addSequence s).1 (h'.addSequence (ρ.sequence s)).1 ∧
      (h'.addSequence (ρ.sequence s)).2 = ρ.value (h.addSequence s).2 := by
  have last : ρ.seq h.sequences.size = h'.sequences.size := heaps.newSequence 0
  refine ⟨⟨fun id => ?_,heaps.functions,fun n => ?_,heaps.newFunction⟩,?_⟩
  · simp only [Heap.addSequence,Array.getElem?_push]
    by_cases new : id = h.sequences.size
    · rw [if_pos new,if_pos (by rw [new,last])]
      rfl
    · have old : ρ.seq id ≠ h'.sequences.size := fun same => new (ρ.seqInjective (same.trans last.symm))
      rw [if_neg new,if_neg old,heaps.sequences]
  · simp only [Heap.addSequence,Array.size_push]
    rw [Nat.add_assoc,heaps.newSequence,Nat.add_assoc]
  · simp only [Heap.addSequence,value,last]

theorem heapsAddFunction (heaps : ρ.Heaps h h') (f : Function) :
    ρ.Heaps (h.addFunction f).1 (h'.addFunction f).1 ∧ (h'.addFunction f).2 = ρ.value (h.addFunction f).2 := by
  have last : ρ.fn h.functions.size = h'.functions.size := heaps.newFunction 0
  refine ⟨⟨heaps.sequences,fun id => ?_,heaps.newSequence,fun n => ?_⟩,?_⟩
  · simp only [Heap.addFunction,Array.getElem?_push]
    by_cases new : id = h.functions.size
    · rw [if_pos new,if_pos (by rw [new,last])]
    · have old : ρ.fn id ≠ h'.functions.size := fun same => new (ρ.fnInjective (same.trans last.symm))
      rw [if_neg new,if_neg old,heaps.functions]
  · simp only [Heap.addFunction,Array.size_push]
    rw [Nat.add_assoc,heaps.newFunction,Nat.add_assoc]
  · simp only [Heap.addFunction,value,last]

theorem heapsModify (heaps : ρ.Heaps h h') (id : Nat) {f f' : Sequence → Sequence}
    (same : ∀ s, f' (ρ.sequence s) = ρ.sequence (f s)) :
    ρ.Heaps { h with sequences := h.sequences.modify id f } { h' with sequences := h'.sequences.modify (ρ.seq id) f' } := by
  refine ⟨fun j => ?_,heaps.functions,fun n => ?_,heaps.newFunction⟩
  · simp only [Array.getElem?_modify,heaps.sequences]
    by_cases here : id = j
    · subst here
      simp only [if_true,Option.map_map]
      cases h.sequences[id]? with
      | none => rfl
      | some s => exact congrArg some (same s)
    · have there : ρ.seq id ≠ ρ.seq j := fun eq => here (ρ.seqInjective eq)
      rw [if_neg here,if_neg there]
  · simp only [Array.size_modify]
    exact heaps.newSequence n

theorem heapsPush (heaps : ρ.Heaps h h') (id : Nat) (v : Value) :
    ρ.Heaps (h.push id v) (h'.push (ρ.seq id) (ρ.value v)) :=
  heapsModify heaps id fun s => by simp only [sequence,Array.map_push]

theorem heapsSet (heaps : ρ.Heaps h h') (id index : Nat) (v : Value) :
    ρ.Heaps (h.set id index v) (h'.set (ρ.seq id) index (ρ.value v)) :=
  heapsModify heaps id fun s => by simp only [sequence,Array.map_setIfInBounds]

theorem lengthSame (heaps : ρ.Heaps h h') (id : Nat) : h'.length (ρ.seq id) = h.length id := by
  simp only [Heap.length,heaps.sequences]
  cases h.sequences[id]? with
  | none => rfl
  | some s => simp only [Option.map_some,sequence,Array.size_map]

/-! Values as text -/

theorem shortPath {path : List Nat} {size} (nodup : path.Nodup) (inside : ∀ id ∈ path, id < size) : path.length ≤ size := by
  have sub : path ⊆ List.range size := fun id there => List.mem_range.mpr (inside id there)
  simpa using (nodup.subperm sub).length_le

theorem showElementSame {literal literal' : Value → String} {v} (same : literal' (ρ.value v) = literal v) :
    Heap.showElement literal' (ρ.value v) = Heap.showElement literal v := by
  cases v with
  | int n =>
    simp only [Heap.showElement,value] at same ⊢
    rw [same]
  | null => exact same
  | seq id => exact same
  | fn id => exact same

theorem insideRenamed (heaps : ρ.Heaps h h') {id} (inside : id < h.sequences.size) : ρ.seq id < h'.sequences.size := by
  have there := heaps.sequences id
  rw [Array.getElem?_eq_getElem inside] at there
  exact (Array.getElem?_eq_some_iff.mp there).1

theorem literalAtSame (heaps : ρ.Heaps h h') (depth depth' : Nat) (path : List Nat) (v : Value) (nodup : path.Nodup)
    (inside : ∀ id ∈ path, id < h.sequences.size) (enough : h.sequences.size < depth + path.length)
    (enough' : h'.sequences.size < depth' + path.length) :
    h'.literalAt depth' (path.map ρ.seq) (ρ.value v) = h.literalAt depth path v := by
  induction depth generalizing depth' path v with
  | zero =>
    have short := shortPath nodup inside
    omega
  | succ depth ih =>
    cases depth' with
    | zero =>
      have nodup' : (path.map ρ.seq).Nodup := nodup.map ρ.seqInjective
      have short := shortPath nodup' fun id there => by
        obtain ⟨i,member,rfl⟩ := List.mem_map.mp there
        exact insideRenamed heaps (inside i member)
      rw [List.length_map] at short
      omega
    | succ depth' =>
      cases v with
      | int n => rfl
      | null => rfl
      | fn id => simp only [value,Heap.literalAt,heaps.functions]
      | seq id =>
        have member : ρ.seq id ∈ path.map ρ.seq ↔ id ∈ path :=
          List.mem_map_of_injective ρ.seqInjective
        simp only [value,Heap.literalAt,member,heaps.sequences]
        split
        · rfl
        · rename_i fresh
          cases there : h.sequences[id]? with
          | none => rfl
          | some s =>
            have inner (w : Value) : h'.literalAt depth' (ρ.seq id :: path.map ρ.seq) (ρ.value w) =
                h.literalAt depth (id :: path) w := by
              refine ih depth' (id :: path) w (List.nodup_cons.mpr ⟨fresh,nodup⟩)
                (List.forall_mem_cons.mpr ⟨(Array.getElem?_eq_some_iff.mp there).1,inside⟩) ?_ ?_
              · rw [List.length_cons]
                omega
              · rw [List.length_cons]
                omega
            simp only [Option.map_some,sequence,Array.toList_map,List.map_map]
            have listed : s.elements.toList.map (h'.literalAt depth' (ρ.seq id :: path.map ρ.seq) ∘ ρ.value) =
                s.elements.toList.map (h.literalAt depth (id :: path)) :=
              List.map_congr_left fun w _ => inner w
            have spelled : s.elements.toList.map (Heap.showElement (h'.literalAt depth' (ρ.seq id :: path.map ρ.seq)) ∘ ρ.value) =
                s.elements.toList.map (Heap.showElement (h.literalAt depth (id :: path))) :=
              List.map_congr_left fun w _ => showElementSame (inner w)
            rw [listed,spelled]

theorem literalSame (heaps : ρ.Heaps h h') (v : Value) : h'.literal (ρ.value v) = h.literal v :=
  literalAtSame heaps _ _ [] v List.nodup_nil (by simp) (Nat.lt_succ_self _) (Nat.lt_succ_self _)

theorem printedSame (heaps : ρ.Heaps h h') (v : Value) : h'.printed (ρ.value v) = h.printed v := by
  cases v with
  | seq id =>
    have whole := literalSame heaps (.seq id)
    simp only [value,Heap.printed,heaps.sequences] at whole ⊢
    cases there : h.sequences[id]? with
    | none => exact whole
    | some s =>
      have spelled : s.elements.toList.map (Heap.showElement (h'.literalAt h'.sequences.size [ρ.seq id]) ∘ ρ.value) =
          s.elements.toList.map (Heap.showElement (h.literalAt h.sequences.size [id])) := by
        refine List.map_congr_left fun w _ => showElementSame ?_
        exact literalAtSame heaps _ _ [id] w (List.nodup_singleton id)
          (List.forall_mem_singleton.mpr (Array.getElem?_eq_some_iff.mp there).1) (Nat.lt_succ_self _) (Nat.lt_succ_self _)
      simp only [Option.map_some,sequence,Array.toList_map,List.map_map,whole,spelled]
  | int n => exact literalSame heaps (.int n)
  | null => exact literalSame heaps .null
  | fn id => exact literalSame heaps (.fn id)

theorem describeSame (heaps : ρ.Heaps h h') (v : Value) : h'.describe (ρ.value v) = h.describe v := by
  simp only [Heap.describe,literalSame heaps]

theorem typeWordSame (heaps : ρ.Heaps h h') (v : Value) : h'.typeWord (ρ.value v) = h.typeWord v := by
  cases v with
  | seq id =>
    simp only [value,Heap.typeWord,heaps.sequences]
    cases h.sequences[id]? with
    | none => rfl
    | some s => rfl
  | _ => rfl

/-! Equality of values -/

structure Listed (h : Heap) (assumed : Heap.Assumed) : Prop where
  nodup : assumed.Nodup
  inside : ∀ p ∈ assumed, p.1 < h.sequences.size ∧ p.2 < h.sequences.size

def pair (ρ : Renaming) (p : Nat × Nat) : Nat × Nat := (ρ.seq p.1,ρ.seq p.2)

theorem pairInjective : Function.Injective ρ.pair := by
  rintro ⟨i,j⟩ ⟨i',j'⟩ same
  obtain ⟨first,second⟩ := Prod.mk.inj same
  exact Prod.ext (ρ.seqInjective first) (ρ.seqInjective second)

theorem listedShort {assumed} (listed : Listed h assumed) : assumed.length ≤ h.sequences.size * h.sequences.size := by
  have sub : assumed ⊆ List.range h.sequences.size ×ˢ List.range h.sequences.size := by
    rintro ⟨i,j⟩ there
    obtain ⟨left,right⟩ := listed.inside _ there
    exact List.mem_product.mpr ⟨List.mem_range.mpr left,List.mem_range.mpr right⟩
  simpa [List.length_product] using (listed.nodup.subperm sub).length_le

def Compares (ρ : Renaming) (h : Heap) (assumed : Heap.Assumed) (result result' : Bool × Heap.Assumed) : Prop :=
  result' = (result.1,result.2.map ρ.pair) ∧ Listed h result.2 ∧ assumed.length ≤ result.2.length

theorem comparesElements (equal equal' : Heap.Assumed → Value → Value → Bool × Heap.Assumed) (least : Nat)
    (same : ∀ assumed v w, Listed h assumed → least ≤ assumed.length →
      Compares ρ h assumed (equal assumed v w) (equal' (assumed.map ρ.pair) (ρ.value v) (ρ.value w)))
    (assumed : Heap.Assumed) (vs ws : List Value) (listed : Listed h assumed) (enough : least ≤ assumed.length) :
    Compares ρ h assumed (Heap.equalElements equal assumed vs ws)
      (Heap.equalElements equal' (assumed.map ρ.pair) (vs.map ρ.value) (ws.map ρ.value)) := by
  induction vs generalizing assumed ws with
  | nil => exact ⟨rfl,listed,Nat.le_refl _⟩
  | cons v vs ih =>
    cases ws with
    | nil => exact ⟨rfl,listed,Nat.le_refl _⟩
    | cons w ws =>
      obtain ⟨first,listed',longer⟩ := same assumed v w listed enough
      simp only [List.map_cons,Heap.equalElements,first]
      generalize equal assumed v w = result at listed' longer
      obtain ⟨holds,assumed'⟩ := result
      cases holds with
      | true =>
        obtain ⟨rest,listed'',longer'⟩ := ih assumed' ws listed' (Nat.le_trans enough longer)
        exact ⟨rest,listed'',Nat.le_trans longer longer'⟩
      | false => exact ⟨rfl,listed',longer⟩

theorem listedRenamed (heaps : ρ.Heaps h h') {assumed} (listed : Listed h assumed) : Listed h' (assumed.map ρ.pair) := by
  refine ⟨listed.nodup.map pairInjective,fun p there => ?_⟩
  obtain ⟨q,member,rfl⟩ := List.mem_map.mp there
  obtain ⟨left,right⟩ := listed.inside q member
  exact ⟨insideRenamed heaps left,insideRenamed heaps right⟩

theorem equalAtOnce (ρ : Renaming) (h h' : Heap) (v w : Value) (other : ∀ i j, ¬ (v = .seq i ∧ w = .seq j)) :
    ∃ b, (∀ depth assumed, h.equalAt depth assumed v w = (b,assumed)) ∧
      ∀ depth assumed, h'.equalAt depth assumed (ρ.value v) (ρ.value w) = (b,assumed) := by
  cases v with
  | int m =>
    cases w with
    | int n => refine ⟨decide (m = n),?_,?_⟩ <;> intros <;> simp only [value,Heap.equalAt]
    | _ => refine ⟨false,?_,?_⟩ <;> intros <;> simp only [value,Heap.equalAt]
  | null =>
    cases w with
    | null => refine ⟨true,?_,?_⟩ <;> intros <;> simp only [value,Heap.equalAt]
    | _ => refine ⟨false,?_,?_⟩ <;> intros <;> simp only [value,Heap.equalAt]
  | fn i =>
    cases w with
    | fn j =>
      have same : ρ.fn i = ρ.fn j ↔ i = j := ρ.fnInjective.eq_iff
      refine ⟨decide (i = j),?_,?_⟩ <;> intros <;> simp only [value,Heap.equalAt,same]
    | _ => refine ⟨false,?_,?_⟩ <;> intros <;> simp only [value,Heap.equalAt]
  | seq i =>
    cases w with
    | seq j => exact absurd ⟨rfl,rfl⟩ (other i j)
    | _ => refine ⟨false,?_,?_⟩ <;> intros <;> simp only [value,Heap.equalAt]

theorem equalAtNone (h : Heap) (depth : Nat) (assumed : Heap.Assumed) (i j : Nat)
    (none : h.sequences[i]? = none ∨ h.sequences[j]? = none) :
    h.equalAt depth assumed (.seq i) (.seq j) = (false,assumed) := by
  rcases none with none | none
  · simp only [Heap.equalAt,none]
  · cases h.sequences[i]? <;> simp [Heap.equalAt,none]

theorem equalAtSequences (h : Heap) (depth : Nat) (assumed : Heap.Assumed) (i j : Nat) {s t}
    (left : h.sequences[i]? = some s) (right : h.sequences[j]? = some t) :
    h.equalAt depth assumed (.seq i) (.seq j) =
      if s.elements.size ≠ t.elements.size then (false,assumed)
      else if i = j ∨ (i,j) ∈ assumed then (true,assumed)
      else
        match depth with
        | 0 => (true,assumed)
        | depth + 1 =>
          Heap.equalElements (h.equalAt depth) ((i,j) :: assumed) s.elements.toList t.elements.toList := by
  cases depth <;> simp only [Heap.equalAt,left,right]

theorem comparesAt (heaps : ρ.Heaps h h') (depth depth' : Nat) (assumed : Heap.Assumed) (v w : Value)
    (listed : Listed h assumed) (enough : h.sequences.size * h.sequences.size ≤ depth + assumed.length)
    (enough' : h'.sequences.size * h'.sequences.size ≤ depth' + assumed.length) :
    Compares ρ h assumed (h.equalAt depth assumed v w)
      (h'.equalAt depth' (assumed.map ρ.pair) (ρ.value v) (ρ.value w)) := by
  by_cases both : ∃ i j, v = .seq i ∧ w = .seq j
  · obtain ⟨i,j,rfl,rfl⟩ := both
    have left' := heaps.sequences i
    have right' := heaps.sequences j
    simp only [value]
    cases left : h.sequences[i]? with
    | none =>
      rw [left] at left'
      rw [equalAtNone h depth assumed i j (.inl left),equalAtNone h' depth' _ _ _ (.inl left')]
      exact ⟨rfl,listed,Nat.le_refl _⟩
    | some s =>
      cases right : h.sequences[j]? with
      | none =>
        rw [right] at right'
        rw [equalAtNone h depth assumed i j (.inr right),equalAtNone h' depth' _ _ _ (.inr right')]
        exact ⟨rfl,listed,Nat.le_refl _⟩
      | some t =>
        rw [left] at left'
        rw [right] at right'
        have inside : i < h.sequences.size ∧ j < h.sequences.size :=
          ⟨(Array.getElem?_eq_some_iff.mp left).1,(Array.getElem?_eq_some_iff.mp right).1⟩
        have member : (ρ.seq i,ρ.seq j) ∈ assumed.map ρ.pair ↔ (i,j) ∈ assumed :=
          List.mem_map_of_injective (a := (i,j)) pairInjective
        have same : ρ.seq i = ρ.seq j ↔ i = j := ρ.seqInjective.eq_iff
        rw [equalAtSequences h depth assumed i j left right,
          equalAtSequences h' depth' _ _ _ left' right']
        simp only [sequence,Array.size_map,Array.toList_map,member,same]
        split
        · exact ⟨rfl,listed,Nat.le_refl _⟩
        · split
          · exact ⟨rfl,listed,Nat.le_refl _⟩
          · rename_i fresh
            have fresh := fun there => fresh (Or.inr there)
            have more : Listed h ((i,j) :: assumed) :=
              ⟨List.nodup_cons.mpr ⟨fresh,listed.nodup⟩,List.forall_mem_cons.mpr ⟨inside,listed.inside⟩⟩
            -- the pair is new, so there is room left for it on both heaps
            have room := listedShort more
            have room' := listedShort (listedRenamed heaps more)
            rw [List.length_cons] at room
            rw [List.length_map,List.length_cons] at room'
            obtain ⟨depth,rfl⟩ : ∃ k, depth = k + 1 := ⟨depth - 1,by omega⟩
            obtain ⟨depth',rfl⟩ : ∃ k, depth' = k + 1 := ⟨depth' - 1,by omega⟩
            have elements := comparesElements (h.equalAt depth) (h'.equalAt depth') (assumed.length + 1)
              (fun assumed' v w listed' long => comparesAt heaps depth depth' assumed' v w listed' (by omega) (by omega))
              ((i,j) :: assumed) s.elements.toList t.elements.toList more (Nat.le_refl _)
            exact ⟨elements.1,elements.2.1,Nat.le_of_succ_le elements.2.2⟩
  · obtain ⟨b,left,right⟩ := equalAtOnce ρ h h' v w fun i j same => both ⟨i,j,same⟩
    rw [left,right]
    exact ⟨rfl,listed,Nat.le_refl _⟩
termination_by depth

theorem equalSame (heaps : ρ.Heaps h h') (v w : Value) : h'.equal (ρ.value v) (ρ.value w) = h.equal v w := by
  obtain ⟨same,_,_⟩ := comparesAt heaps (h.sequences.size * h.sequences.size) (h'.sequences.size * h'.sequences.size) [] v w
    ⟨List.nodup_nil,by simp⟩ (Nat.le_refl _) (Nat.le_refl _)
  rw [List.map_nil] at same
  rw [Heap.equal,Heap.equal,same]

end Renaming

/-! Names bound to values that are mapped -/

namespace Bindings

variable (f : α → β)

def mapValues (b : Bindings α) : Bindings β := b.map fun p => (p.1,f p.2)

theorem getMapValues (name : String) (b : Bindings α) : (b.mapValues f).get? name = (b.get? name).map f := by
  induction b with
  | nil => rfl
  | cons p b ih =>
    simp only [mapValues,List.map_cons,get?] at ih ⊢
    split
    · rfl
    · exact ih

theorem setMapValues (name : String) (v : α) (b : Bindings α) :
    (b.mapValues f).set name (f v) = (b.set name v).mapValues f := by
  induction b with
  | nil => rfl
  | cons p b ih =>
    simp only [mapValues,List.map_cons,set] at ih ⊢
    split
    · rfl
    · split
      · rfl
      · rw [ih]
        rfl

end Bindings

namespace Tables

variable (f : α → β) (ts : Tables α) (e : Environment)

def mapTable (t : Table α) : Table β := ⟨t.bindings.mapValues f,t.refs⟩

def mapValues : Tables β := ⟨ts.slots.map (mapTable f)⟩

theorem bindingsMapValues : e.bindings (ts.mapValues f) = (e.bindings ts).mapValues f := by
  obtain ⟨table⟩ := e
  cases table with
  | none => rfl
  | some i =>
    simp only [Environment.bindings,mapValues,Option.bind_some,Array.getElem?_map]
    cases ts.slots[i]? with
    | none => rfl
    | some t => rfl

theorem modifyMapValues (i : Nat) {g : Table α → Table α} {g' : Table β → Table β}
    (same : ∀ t, g' (mapTable f t) = mapTable f (g t)) :
    (ts.mapValues f).slots.modify i g' = (ts.slots.modify i g).map (mapTable f) := by
  refine Array.ext_getElem? fun j => ?_
  simp only [mapValues,Array.getElem?_modify,Array.getElem?_map]
  split
  · cases ts.slots[j]? with
    | none => rfl
    | some t => exact congrArg some (same t)
  · rfl

theorem copyMapValues : (ts.mapValues f).copy e = ((ts.copy e).1.mapValues f,(ts.copy e).2) := by
  obtain ⟨table⟩ := e
  cases table with
  | none => rfl
  | some i =>
    simp only [copy]
    rw [modifyMapValues f ts i (g := fun t => { t with refs := t.refs + 1 }) fun t => rfl]
    rfl

theorem trimMapValues : (ts.mapValues f).trim = ts.trim.mapValues f := by
  simp only [trim,mapValues,Array.back?_map]
  cases ts.slots.back? with
  | none => rfl
  | some t =>
    simp only [Option.map_some,mapTable]
    split
    · simp only [Array.map_pop]
    · rfl

theorem releaseMapValues : (ts.mapValues f).release e = ((ts.release e).1.mapValues f,(ts.release e).2) := by
  obtain ⟨table⟩ := e
  cases table with
  | none => rfl
  | some i =>
    simp only [release]
    rw [modifyMapValues f ts i (g := fun t => { t with refs := t.refs - 1 }) fun t => rfl,← trimMapValues]
    rfl

theorem ownMapValues : (ts.mapValues f).own e = ((ts.own e).1.mapValues f,(ts.own e).2) := by
  obtain ⟨table⟩ := e
  cases table with
  | none => rfl
  | some i =>
    have there : (ts.mapValues f).slots[i]? = ts.slots[i]?.map (mapTable f) := by
      rw [mapValues,Array.getElem?_map]
    simp only [own,there]
    cases ts.slots[i]? with
    | none => rfl
    | some t =>
      simp only [Option.map_some,mapTable]
      split
      · rfl
      · simp only [add]
        rw [modifyMapValues f ts i (g := fun t => { t with refs := t.refs - 1 }) fun t => rfl]
        simp only [mapValues,Array.map_push,Array.size_map]
        rfl

theorem updateMapValues {g : Bindings α → Bindings α} {g' : Bindings β → Bindings β}
    (same : ∀ b : Bindings α, g' (b.mapValues f) = (g b).mapValues f) :
    (ts.mapValues f).update e g' = (ts.update e g).mapValues f := by
  obtain ⟨table⟩ := e
  cases table with
  | none => rfl
  | some i =>
    simp only [update]
    rw [modifyMapValues f ts i (g := fun t => { t with bindings := g t.bindings }) fun t => by simp only [mapTable,same]]
    rfl

theorem setMapValues (name : String) (v : α) :
    (ts.mapValues f).set e name (f v) = ((ts.set e name v).1.mapValues f,(ts.set e name v).2) := by
  simp only [set,ownMapValues]
  rw [updateMapValues f _ _ fun b => Bindings.setMapValues f name v b]

end Tables

namespace Renaming

variable (ρ : Renaming) (past : Array Nat)

structure Machines (m m' : Machine) : Prop where
  heap : ρ.Heaps m.heap m'.heap
  tables : m'.tables = m.tables.mapValues ρ.value
  scope : m'.scope = m.scope
  stats : m'.stats = m.stats
  frames : m'.frames = m.frames.map ρ.frame
  shown : m'.shown = m.shown.map ρ.shown
  picks : m'.picks = past ++ m.picks
  looks : m'.looks = m.looks
  stopped : m'.stopped = m.stopped

variable {ρ past} {m m' : Machine}

theorem machinesHeap (machines : ρ.Machines past m m') {h h'} (heaps : ρ.Heaps h h') :
    ρ.Machines past { m with heap := h } { m' with heap := h' } :=
  { machines with heap := heaps }

theorem getSame (machines : ρ.Machines past m m') (name : String) : m'.get? name = (m.get? name).map ρ.value := by
  simp only [Machine.get?,Environment.get?,machines.tables,machines.scope,Tables.bindingsMapValues,Bindings.getMapValues]

theorem namesSame (machines : ρ.Machines past m m') : m'.names = m.names := by
  simp only [Machine.names,Environment.names,machines.tables,machines.scope,Tables.bindingsMapValues,Bindings.names,
    Bindings.mapValues,List.map_map]
  rfl

theorem machinesSet (machines : ρ.Machines past m m') (name : String) (v : Value) :
    ρ.Machines past (m.set name v) (m'.set name (ρ.value v)) := by
  have both : m'.tables.set m'.scope name (ρ.value v) =
      ((m.tables.set m.scope name v).1.mapValues ρ.value,(m.tables.set m.scope name v).2) := by
    rw [machines.tables,machines.scope,Tables.setMapValues]
  exact { machines with
    tables := (Prod.ext_iff.mp both).1
    scope := (Prod.ext_iff.mp both).2 }

theorem dumpSame (machines : ρ.Machines past m m') : m'.dump = m.dump := by
  simp only [Machine.dump,machines.tables,machines.scope,Tables.bindingsMapValues,Bindings.mapValues,List.map_map]
  refine List.map_congr_left fun p _ => ?_
  simp only [Function.comp_apply,literalSame machines.heap]
  cases p.2 <;> rfl

theorem framesSame (heaps : ρ.Heaps h h') (frames : List Frame) :
    (frames.map ρ.frame).map (Machine.showFrame h') = frames.map (Machine.showFrame h) := by
  rw [List.map_map]
  refine List.map_congr_left fun f _ => ?_
  have args : (f.args.map ρ.value).map h'.describe = f.args.map h.describe := by
    rw [List.map_map]
    exact List.map_congr_left fun v _ => describeSame heaps v
  simp only [Function.comp_apply,Machine.showFrame,frame,args]

theorem traceSame (machines : ρ.Machines past m m') : m'.trace = m.trace := by
  simp only [Machine.trace,machines.frames,← List.map_take,framesSame machines.heap,List.length_map]

theorem machinesEnter (machines : ρ.Machines past m m') (site : CallSite) (params : List String) (args : List Value) :
    ρ.Machines past (m.enter site params args) (m'.enter site params (args.map ρ.value)) := by
  have bound (pairs : List (String × Value)) (m m' : Machine) (machines : ρ.Machines past m m') :
      ρ.Machines past (pairs.foldl (fun m pair => m.set pair.1 pair.2) m)
        ((pairs.map fun pair => (pair.1,ρ.value pair.2)).foldl (fun m pair => m.set pair.1 pair.2) m') := by
    induction pairs generalizing m m' with
    | nil => exact machines
    | cons pair pairs ih => exact ih _ _ (machinesSet machines pair.1 pair.2)
  have both : m'.tables.copy m'.scope = ((m.tables.copy m.scope).1.mapValues ρ.value,(m.tables.copy m.scope).2) := by
    rw [machines.tables,machines.scope,Tables.copyMapValues]
  have copied : ρ.Machines past { m with tables := (m.tables.copy m.scope).1,scope := (m.tables.copy m.scope).2 }
      { m' with tables := (m'.tables.copy m'.scope).1,scope := (m'.tables.copy m'.scope).2 } :=
    { machines with
      tables := (Prod.ext_iff.mp both).1
      scope := (Prod.ext_iff.mp both).2 }
  have inner := bound (params.zip args) _ _ copied
  have zipped : (params.zip args).map (fun pair => (pair.1,ρ.value pair.2)) = params.zip (args.map ρ.value) := by
    rw [List.zip_map_right]
    rfl
  rw [zipped] at inner
  exact { inner with frames := congrArg (List.cons _) inner.frames }

theorem machinesExit (machines : ρ.Machines past m m') (caller : Environment) (frames : List Frame) :
    ρ.Machines past (m.exit caller frames) (m'.exit caller (frames.map ρ.frame)) := by
  have both : m'.tables.release m'.scope =
      ((m.tables.release m.scope).1.mapValues ρ.value,(m.tables.release m.scope).2) := by
    rw [machines.tables,machines.scope,Tables.releaseMapValues]
  exact { machines with
    tables := (Prod.ext_iff.mp both).1
    scope := rfl
    frames := rfl }

end Renaming

def Host.after (host : Host) (past : Nat) : Host := { host with random := fun i n => host.random (past + i) n }

namespace Run

variable (ρ : Renaming) (past : Array Nat)

inductive Mirrors (P : Common α) : EStateM.Result Halt Machine α → EStateM.Result Halt Machine α → Prop
  | ok {a b n n'} (holds : P a b n n') (machines : ρ.Machines past n n') : Mirrors P (.ok a n) (.ok b n')
  | error {halt halt' n n'} (same : halt' = halt) (machines : ρ.Machines past n n') : Mirrors P (.error halt n) (.error halt' n')

variable {ρ past} {P : Common α} {m m' : Machine}

theorem mirrorsBind {Q : Common β} {r r'} {next next' : α → Run β} (first : Mirrors ρ past P (r m) (r' m'))
    (later : ∀ a b n n', ρ.Machines past n n' → P a b n n' → Mirrors ρ past Q (next a n) (next' b n')) :
    Mirrors ρ past Q ((r >>= next) m) ((r' >>= next') m') := by
  simp only [bind,EStateM.bind]
  generalize r m = result at first
  generalize r' m' = result' at first
  cases first with
  | ok holds machines => exact later _ _ _ _ machines holds
  | error same machines => exact .error same machines

theorem mirrorsRaise (machines : ρ.Machines past m m') {source source' : Text} (same : source = source') (offset : Nat)
    {fault fault' : RuntimeFault} (told : fault' = fault) :
    Mirrors ρ past P (raiseAt source offset fault m) (raiseAt source' offset fault' m') := by
  refine .error ?_ machines
  rw [same,told,Renaming.traceSame machines]

theorem mirrorsSequence (machines : ρ.Machines past m m') {s s'} (same : s' = ρ.sequence s) :
    Mirrors ρ past (fun v v' _ _ => v' = ρ.value v) (.ok (m.heap.addSequence s).2 { m with heap := (m.heap.addSequence s).1 })
      (.ok (m'.heap.addSequence s').2 { m' with heap := (m'.heap.addSequence s').1 }) := by
  obtain ⟨heaps,number⟩ := Renaming.heapsAddSequence machines.heap s
  subst same
  exact .ok number (Renaming.machinesHeap machines heaps)

theorem mirrorsElementAt {P : Common Value} (machines : ρ.Machines past m m') (id index : Nat)
    (holds : ∀ v n n', P v (ρ.value v) n n') :
    Mirrors ρ past P (elementAt id index m) (elementAt (ρ.seq id) index m') := by
  simp only [elementAt,machines.heap.sequences]
  cases m.heap.sequences[id]? with
  | none => exact .error rfl machines
  | some s =>
    simp only [Option.map_some,Renaming.sequence,Array.getElem?_map]
    cases s.elements[index]? with
    | none => exact .error rfl machines
    | some v => exact .ok (holds _ _ _) machines

theorem mirrorsRead {P : Common Value} (machines : ρ.Machines past m m') (slot : Slot)
    (holds : ∀ v n n', P v (ρ.value v) n n') : Mirrors ρ past P (read slot m) (read (ρ.slot slot) m') := by
  cases slot with
  | name name =>
    simp only [Renaming.slot,read,lookup,bind,EStateM.bind,Renaming.getSame machines]
    cases m.get? name with
    | none => exact .error rfl machines
    | some v => exact .ok (holds _ _ _) machines
  | element id index => exact mirrorsElementAt machines id index holds
  | tail id => exact .ok (holds _ _ _) machines

theorem mirrorsWrite (machines : ρ.Machines past m m') (slot : Slot) (v : Value) :
    Mirrors ρ past (fun _ _ _ _ => True) (write slot v m) (write (ρ.slot slot) (ρ.value v) m') := by
  cases slot with
  | name name => exact .ok trivial (Renaming.machinesSet machines name v)
  | element id index =>
    simp only [Renaming.slot,write,Renaming.lengthSame machines.heap]
    by_cases inside : index < m.heap.length id
    · rw [if_pos inside,if_pos inside]
      exact .ok trivial (Renaming.machinesHeap machines (Renaming.heapsSet machines.heap id index v))
    · rw [if_neg inside,if_neg inside]
      exact .error rfl machines
  | tail id => exact .ok trivial (Renaming.machinesHeap machines (Renaming.heapsPush machines.heap id v))

theorem mirrorsPick {P : Common Nat} (machines : ρ.Machines past m m') (host : Host) {n : Nat} (some : n ≠ 0)
    (holds : ∀ i n n', P i i n n') : Mirrors ρ past P (pick (host.after past.size) n m) (pick host n m') := by
  have picked : ρ.Machines past { m with picks := m.picks.push n } { m' with picks := m'.picks.push n } :=
    { machines with picks := by rw [machines.picks,Array.append_push] }
  have index : host.random m'.picks.size n = (host.after past.size).random m.picks.size n := by
    rw [machines.picks,Array.size_append]
    rfl
  simp only [pick,if_neg some]
  rw [index]
  exact .ok (holds _ _ _) picked

theorem mirrorsCheck (machines : ρ.Machines past m m') (host : Host) (source : Text) (offset : Nat) :
    Mirrors ρ past (fun _ _ _ _ => True) (check host source offset m) (check host source offset m') := by
  have looked : ρ.Machines past { m with looks := m.looks + 1 } { m' with looks := m'.looks + 1 } :=
    { machines with looks := by rw [machines.looks] }
  have failed {n n'} (machines : ρ.Machines past n n') (fault : RuntimeFault) :
      Mirrors ρ past (fun _ _ _ _ => True) (raiseAt source offset fault n : EStateM.Result Halt Machine Unit)
        (raiseAt source offset fault n') := mirrorsRaise machines rfl offset rfl
  simp only [check,machines.stopped,machines.looks] at looked ⊢
  by_cases halted : (m.stopped || host.cancelled) = true
  · rw [if_pos halted,if_pos halted]
    exact failed machines .stopped
  · rw [if_neg halted,if_neg halted]
    by_cases late : 0 < host.budget ∧ host.budget < host.clock m.looks
    · rw [if_pos late,if_pos late]
      exact failed looked _
    · rw [if_neg late,if_neg late]
      exact .ok trivial looked

theorem mirrorsObserve (machines : ρ.Machines past m m') (host : Host) (v : Value) :
    Mirrors ρ past (fun _ _ _ _ => True) (observe host v m) (observe host (ρ.value v) m') := by
  have calls : (if host.notesCalls then m'.frames.reverse.map (Machine.showFrame m'.heap) else []) =
      if host.notesCalls then m.frames.reverse.map (Machine.showFrame m.heap) else [] := by
    rw [machines.frames,← List.map_reverse,Renaming.framesSame machines.heap]
  have size : m'.shown.size = m.shown.size := by rw [machines.shown,Array.size_map]
  exact .ok trivial { machines with
    shown := by
      simp only [calls,Renaming.printedSame machines.heap,machines.shown,Array.map_push]
      rfl
    stopped := by simp only [Array.size_push,size,machines.stopped] }

theorem mirrorsLeaving {body body'} (ended : Mirrors ρ past (fun v v' _ _ => v' = ρ.value v) (body m) (body' m'))
    (caller : Environment) :
    Mirrors ρ past (fun v v' _ _ => v' = ρ.value v) (leaving caller body m) (leaving caller body' m') := by
  simp only [leaving]
  generalize body m = result at ended
  generalize body' m' = result' at ended
  cases ended with
  | @ok v v' n n' same machines =>
    rcases active : n.frames with _ | ⟨frame,frames⟩
    · simp only [machines.frames,active,List.map_nil]
      exact .error rfl machines
    · simp only [machines.frames,active,List.map_cons]
      exact .ok same (Renaming.machinesExit machines caller frames)
  | @error halt halt' n n' same machines =>
    rcases active : n.frames with _ | ⟨frame,frames⟩
    · simp only [machines.frames,active,List.map_nil]
      exact .error rfl machines
    · simp only [machines.frames,active,List.map_cons]
      exact .error same (Renaming.machinesExit machines caller frames)

end Run

theorem mirroredValues {ρ : Renaming} {vs vs' : List Value} (values : List.Forall₂ (fun v v' => v' = ρ.value v) vs vs') :
    vs' = vs.map ρ.value := by
  induction values with
  | nil => rfl
  | cons same _ ih => rw [same,ih,List.map_cons]

namespace Context

open Run

structure Mirrored (ρ : Renaming) (past : Array Nat) (ctx ctx' : Context) : Prop where
  host : ctx.host = ctx'.host.after past.size
  source : ctx.source = ctx'.source
  calls : ∀ site f args m m', ρ.Machines past m m' →
    Mirrors ρ past (fun v v' _ _ => v' = ρ.value v) (ctx.invoke site f args m) (ctx'.invoke site f (args.map ρ.value) m')

variable {ρ : Renaming} {past : Array Nat} {ctx ctx' : Context}

abbrev mirroring (ρ : Renaming) (past : Array Nat) : Accord where
  shift := id
  Pairs m m' := ρ.Machines past m m'
  Later _ _ _ _ := True
  Go P r r' m m' := Mirrors ρ past P (r m) (r' m')
  Allows _ _ _ := True
  value v v' _ _ := v' = ρ.value v
  slot s s' _ _ := s' = ρ.slot s
  function f f' := f' = f
  Leaves _ := True
  Answers _ := True

theorem statementsMirror (mirrored : ctx.Mirrored ρ past ctx') : (mirroring ρ past).Statements ctx ctx' where
  done machines holds := .ok holds machines
  andThen _ first next := mirrorsBind first fun a b n n' machines holds => next a b n n' machines trivial holds
  below _ _ _ := trivial
  alike := by
    rintro v _ _ _ rfl
    cases v <;> constructor
  int _ _ _ := rfl
  null _ _ := rfl
  keeps _ := id
  tail same := congrArg Slot.tail (Value.seq.inj same)
  header same := same ▸ ⟨rfl,rfl⟩
  christened same _ := by rw [same]
  literal _ := by rw [Block.movedId,mirrored.source]
  missing _ _ machines := .error rfl machines
  raise machines span _ _ := mirrorsRaise machines mirrored.source span.start rfl
  reject machines same span fault _ := by
    subst same
    exact mirrorsRaise machines mirrored.source span.start (by simp only [Renaming.describeSame machines.heap])
  lookup {m _} machines name := by
    refine .ok ?_ machines
    rw [Renaming.getSame machines]
    cases m.get? name with
    | none => exact .none
    | some v => exact .some ⟨rfl,rfl⟩
  names machines := .ok (Renaming.namesSame machines).symm machines
  newText machines s := mirrorsSequence machines (by
    simp only [Renaming.sequence,List.map_toArray,List.map_map]
    rfl)
  newList machines values := mirrorsSequence machines (by
    rw [mirroredValues values]
    simp only [Renaming.sequence,List.map_toArray])
  newFunction {_ _ f _} machines same := by
    obtain ⟨heaps,number⟩ := Renaming.heapsAddFunction machines.heap f
    subst same
    exact .ok number (Renaming.machinesHeap machines heaps)
  functionAt {m _ id _} machines same := by
    cases Value.fn.inj same
    simp only [functionAt,machines.heap.functions]
    cases m.heap.functions[id]? with
    | none => exact .error rfl machines
    | some f => exact .ok rfl machines
  elementAt machines same := by
    obtain ⟨rfl,_⟩ := Slot.element.inj same
    exact mirrorsElementAt machines _ _ fun _ _ _ => ⟨rfl,rfl⟩
  lengthOf machines same := by
    cases Value.seq.inj same
    exact .ok ⟨(Renaming.lengthSame machines.heap _).symm,fun _ _ => rfl⟩ machines
  pick machines some same := by
    obtain ⟨rfl,_⟩ := Slot.element.inj (same 0 (Nat.pos_of_ne_zero some))
    rw [mirrored.host]
    exact mirrorsPick machines _ some fun _ _ _ => ⟨rfl,rfl⟩
  read machines same := by
    subst same
    exact mirrorsRead machines _ fun _ _ _ => ⟨rfl,rfl⟩
  call machines same values name span := by
    subst same
    rw [mirroredValues values,mirrored.source]
    exact mirrored.calls _ _ _ _ _ machines
  leave _ := trivial
  answer _ := trivial
  leaveOutside machines _ span := mirrorsRaise machines mirrored.source span.start rfl
  answerOutside machines _ span := mirrorsRaise machines mirrored.source span.start rfl
  write machines slots values := by
    subst slots values
    exact mirrorsWrite machines _ _
  assign machines values name := by
    subst values
    exact .ok trivial (Renaming.machinesSet machines name _)
  count := by
    rintro m m' c machines (rfl | rfl | rfl) <;> exact .ok trivial { machines with stats := by rw [machines.stats] }
  equal machines values others := by
    subst values others
    exact .ok (Renaming.equalSame machines.heap _ _).symm machines
  incomparable machines values others span _ := by
    subst values others
    exact mirrorsRaise machines mirrored.source span.start (by simp only [Renaming.typeWordSame machines.heap])
  badCount machines values span := by
    subst values
    exact mirrorsRaise machines mirrored.source span.start (by simp only [Renaming.typeWordSame machines.heap])
  mismatch machines values others span := by
    subst values others
    refine .error ?_ machines
    simp only [mirrored.source,Renaming.describeSame machines.heap,Renaming.literalSame machines.heap,
      Renaming.traceSame machines]
    rfl
  observe machines values := by
    subst values
    rw [mirrored.host]
    exact mirrorsObserve machines ctx'.host _
  check machines span := by
    rw [mirrored.host,mirrored.source]
    exact mirrorsCheck machines ctx'.host _ _
  horizon := by
    rw [mirrored.host]
    rfl
  unfinished machines := .error rfl machines

end Context

section Calls

variable {ρ : Renaming} {past : Array Nat}

theorem mirrorsInvoke (host : Host) (depth : Nat) (site : CallSite) (f : Function) (args : List Value) (m m' : Machine)
    (machines : ρ.Machines past m m') : Run.Mirrors ρ past (fun v v' _ _ => v' = ρ.value v)
      (invoke (host.after past.size) depth site f args m) (invoke host depth site f (args.map ρ.value) m') := by
  induction depth generalizing site f args m m' with
  | zero => exact Run.mirrorsRaise machines rfl _ rfl
  | succ depth ih =>
    have inner : Context.Mirrored ρ past ⟨host.after past.size,f.source,invoke (host.after past.size) depth⟩
      ⟨host,f.source,invoke host depth⟩ := ⟨rfl,rfl,ih⟩
    have entered := Renaming.machinesEnter machines site f.params args
    have answer := (Context.statementsMirror inner).goAnswerOf f.body trivial entered
    rw [Block.movedId] at answer
    simp only [invoke,machines.scope]
    exact Run.mirrorsLeaving answer m.scope

theorem Context.mirrorsProgram {ctx ctx' : Context} (mirrored : ctx.Mirrored ρ past ctx') (body : List Stmt) {m m' : Machine}
    (machines : ρ.Machines past m m') :
    Run.Mirrors ρ past (fun _ _ _ _ => True) (ctx.program body m) (ctx'.program body m') := by
  have ended := (statementsMirror mirrored).goProgram body (fun _ _ => trivial) machines
  rwa [← bodyMovedMap,bodyMovedId] at ended

theorem Context.mirroredTop (host : Host) (source : Text) : (top (host.after past.size) source).Mirrored ρ past (top host source) :=
  ⟨rfl,rfl,mirrorsInvoke host host.maxDepth⟩

end Calls

end Terakoya
