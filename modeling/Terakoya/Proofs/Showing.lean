import Terakoya.Proofs.Confinement
import Terakoya.Proofs.Sameness

/-! Values as text, also values that contain themselves. What a value is shown as depends on the sequences around it, the path
from the value that is shown as a whole. Showing keeps this path as a set that it changes in place, and gives it back as it
was. A sequence is cut short just where it stands inside itself; a value without cycles is shown as if there were no path. -/
namespace Terakoya.Heap

def shown (literal : Value → String) (s : Sequence) : String :=
  if s.isText then Text.quoted (Text.ofString (String.join (s.elements.toList.map (showElement literal))))
  else "[" ++ ", ".intercalate (s.elements.toList.map literal) ++ "]"

structure Path (h : Heap) (path : List Nat) : Prop where
  nodup : path.Nodup
  inside : ∀ id ∈ path, id < h.sequences.size

def below (h : Heap) (path : List Nat) (v : Value) : String := h.literalAt (h.sequences.size + 1 - path.length) path v

variable {h : Heap} {path : List Nat} {id : Nat} {s : Sequence} {v w root : Value}

section Below

theorem pathNil : h.Path [] := ⟨List.nodup_nil,by simp⟩

theorem pathCons (fit : h.Path path) (fresh : id ∉ path) (there : id < h.sequences.size) : h.Path (id :: path) :=
  ⟨List.nodup_cons.mpr ⟨fresh,fit.nodup⟩,List.forall_mem_cons.mpr ⟨there,fit.inside⟩⟩

theorem pathInduction {motive : (path : List Nat) → h.Path path → Prop} (step : ∀ path (fit : h.Path path),
      (∀ id (fresh : id ∉ path) (there : id < h.sequences.size), motive (id :: path) (pathCons fit fresh there)) →
        motive path fit) {path} (fit : h.Path path) : motive path fit := by
  generalize room : h.sequences.size - path.length = n
  induction n generalizing path with
  | zero =>
    refine step path fit fun id fresh there => ?_
    have short := Renaming.shortPath (pathCons fit fresh there).nodup (pathCons fit fresh there).inside
    rw [List.length_cons] at short
    omega
  | succ n ih =>
    refine step path fit fun id fresh there => ih (pathCons fit fresh there) ?_
    rw [List.length_cons]
    omega

theorem belowDeep (fit : h.Path path) (v : Value) :
    h.below path v = h.literalAt (h.sequences.size - path.length + 1) path v := by
  have short := Renaming.shortPath fit.nodup fit.inside
  rw [below,Nat.sub_add_comm short]

theorem belowInt (n : Int) : h.below path (.int n) = toString n := by
  rw [below]
  cases h.sequences.size + 1 - path.length <;> rfl

theorem belowNull : h.below path .null = "?" := by
  rw [below]
  cases h.sequences.size + 1 - path.length <;> rfl

theorem belowFunction {f} (there : h.functions[id]? = some f) : h.below path (.fn id) = showFunction f := by
  rw [below]
  cases h.sequences.size + 1 - path.length <;> simp only [literalAt,there]

theorem belowCut (fit : h.Path path) (again : id ∈ path) : h.below path (.seq id) = "[...]" := by
  rw [belowDeep fit,literalAt,if_pos again]

theorem belowInside (fit : h.Path path) (fresh : id ∉ path) (there : h.sequences[id]? = some s) :
    h.below path (.seq id) = shown (h.below (id :: path)) s := by
  have inside := (Array.getElem?_eq_some_iff.mp there).1
  have short := Renaming.shortPath (pathCons fit fresh inside).nodup (pathCons fit fresh inside).inside
  rw [List.length_cons] at short
  have depth : h.sequences.size - path.length = h.sequences.size + 1 - (id :: path).length := by
    rw [List.length_cons]
    omega
  rw [belowDeep fit,literalAt,if_neg fresh,there,depth]
  rfl

theorem literalBelow (v : Value) : h.literal v = h.below [] v := rfl

theorem printedText (there : h.sequences[id]? = some s) (text : s.isText) :
    h.printed (.seq id) = String.join (s.elements.toList.map (showElement (h.below [id]))) := by
  rw [printed,there]
  simp only [text,if_true]
  rfl

theorem printedOther (other : ∀ id s, v = .seq id → h.sequences[id]? = some s → s.isText = false) :
    h.printed v = h.literal v := by
  cases v with
  | seq id =>
    simp only [printed]
    cases there : h.sequences[id]? with
    | none => rfl
    | some s => simp only [other id s rfl there,Bool.false_eq_true,if_false]
  | _ => rfl

end Below

/-! Showing with a set that is changed in place -/

/-- Showing values in turn, with the set of sequences that are being shown before and after. A sequence is put into the set
before its elements are shown and taken out behind them. Inside a text, integers are shown as characters where they can. -/
inductive Renders (h : Heap) : (letters : Bool) → Finset Nat → List Value → List String → Finset Nat → Prop where
  | done {letters seen} : Renders h letters seen [] [] seen
  | letter {seen seen' n c vs texts} (valid : char? n = some c) (rest : Renders h true seen vs texts seen') :
      Renders h true seen (.int n :: vs) (String.singleton c :: texts) seen'
  | int {letters seen seen' n vs texts} (other : letters = true → char? n = none) (rest : Renders h letters seen vs texts seen') :
      Renders h letters seen (.int n :: vs) (toString n :: texts) seen'
  | null {letters seen seen' vs texts} (rest : Renders h letters seen vs texts seen') :
      Renders h letters seen (.null :: vs) ("?" :: texts) seen'
  | fn {letters seen seen' id vs texts f} (there : h.functions[id]? = some f)
      (rest : Renders h letters seen vs texts seen') : Renders h letters seen (.fn id :: vs) (showFunction f :: texts) seen'
  | cut {letters seen seen' id vs texts} (again : id ∈ seen) (rest : Renders h letters seen vs texts seen') :
      Renders h letters seen (.seq id :: vs) ("[...]" :: texts) seen'
  | text {letters seen inner seen' id vs parts texts s} (fresh : id ∉ seen) (there : h.sequences[id]? = some s)
      (text : s.isText) (elements : Renders h true (insert id seen) s.elements.toList parts inner)
      (rest : Renders h letters (inner.erase id) vs texts seen') :
      Renders h letters seen (.seq id :: vs) (Text.quoted (Text.ofString (String.join parts)) :: texts) seen'
  | list {letters seen inner seen' id vs parts texts s} (fresh : id ∉ seen) (there : h.sequences[id]? = some s)
      (list : s.isText = false) (elements : Renders h false (insert id seen) s.elements.toList parts inner)
      (rest : Renders h letters (inner.erase id) vs texts seen') :
      Renders h letters seen (.seq id :: vs) (("[" ++ ", ".intercalate parts ++ "]") :: texts) seen'

def Inspects (h : Heap) (v : Value) (text : String) : Prop := ∃ seen, Renders h false ∅ [v] [text] seen

inductive Prints (h : Heap) : Value → String → Prop where
  | text {id parts seen s} (there : h.sequences[id]? = some s) (text : s.isText)
      (elements : Renders h true (insert id ∅) s.elements.toList parts seen) : Prints h (.seq id) (String.join parts)
  | other {v text} (other : ∀ id s, v = .seq id → h.sequences[id]? = some s → s.isText = false)
      (inspects : h.Inspects v text) : Prints h v text

section Renders

variable {letters : Bool} {seen seen' : Finset Nat} {vs : List Value} {texts : List String}

theorem rendersRestore (run : Renders h letters seen vs texts seen') : seen' = seen := by
  induction run with
  | done => rfl
  | text fresh _ _ _ _ inner rest => rw [rest,inner,Finset.erase_insert fresh]
  | list fresh _ _ _ _ inner rest => rw [rest,inner,Finset.erase_insert fresh]
  | _ => assumption

def spelled (letters : Bool) (literal : Value → String) : Value → String := if letters then showElement literal else literal

theorem spelledOther (letters : Bool) (literal : Value → String) (other : ∀ n, v ≠ .int n) :
    spelled letters literal v = literal v := by
  cases letters with
  | false => rfl
  | true =>
    cases v with
    | int n => exact absurd rfl (other n)
    | _ => rfl

theorem shownText (literal : Value → String) (text : s.isText) :
    shown literal s = Text.quoted (Text.ofString (String.join (s.elements.toList.map (spelled true literal)))) := by
  rw [shown,if_pos text]
  rfl

theorem shownList (literal : Value → String) (list : s.isText = false) :
    shown literal s = "[" ++ ", ".intercalate (s.elements.toList.map (spelled false literal)) ++ "]" := by
  rw [shown,list,if_neg Bool.false_ne_true]
  rfl

theorem rendersBelow (run : Renders h letters seen vs texts seen') (fit : h.Path path) (same : path.toFinset = seen) :
    texts = vs.map (spelled letters (h.below path)) := by
  induction run generalizing path with
  | done => rfl
  | letter valid _ ih =>
    rw [List.map_cons,← ih fit same]
    simp only [spelled,if_true,showElement,valid]
  | @int letters seen seen' n vs texts other _ ih =>
    have here : spelled letters (h.below path) (.int n) = toString n := by
      cases letters with
      | false => exact belowInt n
      | true =>
        simp only [spelled,if_true,showElement,other rfl]
        exact belowInt n
    rw [List.map_cons,← ih fit same,here]
  | null _ ih => rw [List.map_cons,← ih fit same,spelledOther _ _ (by simp),belowNull]
  | fn there _ ih => rw [List.map_cons,← ih fit same,spelledOther _ _ (by simp),belowFunction there]
  | cut again _ ih =>
    have again := List.mem_toFinset.mp (same ▸ again)
    rw [List.map_cons,← ih fit same,spelledOther _ _ (by simp),belowCut fit again]
  | @text letters seen inner seen' id vs parts texts s fresh there text elements rest ih ih' =>
    have fresh' : id ∉ path := fun again => fresh (same ▸ List.mem_toFinset.mpr again)
    have deeper := pathCons fit fresh' (Array.getElem?_eq_some_iff.mp there).1
    rw [rendersRestore elements,Finset.erase_insert fresh] at ih'
    rw [List.map_cons,← ih' fit same,spelledOther _ _ (by simp),belowInside fit fresh' there,shownText _ text,
      ← ih deeper (by rw [List.toFinset_cons,same])]
  | @list letters seen inner seen' id vs parts texts s fresh there list elements rest ih ih' =>
    have fresh' : id ∉ path := fun again => fresh (same ▸ List.mem_toFinset.mpr again)
    have deeper := pathCons fit fresh' (Array.getElem?_eq_some_iff.mp there).1
    rw [rendersRestore elements,Finset.erase_insert fresh] at ih'
    rw [List.map_cons,← ih' fit same,spelledOther _ _ (by simp),belowInside fit fresh' there,shownList _ list,
      ← ih deeper (by rw [List.toFinset_cons,same])]

theorem rendersPath (closed : h.Closed) (fit : h.Path path) : ∀ letters vs, (∀ v ∈ vs, h.Proper v) →
    Renders h letters path.toFinset vs (vs.map (spelled letters (h.below path))) path.toFinset := by
  induction fit using pathInduction with | step path fit ih
  intro letters vs proper
  induction vs with
  | nil => exact .done
  | cons v vs later =>
    obtain ⟨first,rest⟩ := List.forall_mem_cons.mp proper
    have later := later rest
    rw [List.map_cons]
    cases v with
    | int n =>
      cases letters with
      | false =>
        simp only [spelled,Bool.false_eq_true,if_false,belowInt]
        exact .int (fun letters => absurd letters Bool.false_ne_true) later
      | true =>
        simp only [spelled,if_true,showElement]
        cases valid : char? n with
        | some c => exact .letter valid later
        | none =>
          rw [belowInt]
          exact .int (fun _ => valid) later
    | null =>
      rw [spelledOther _ _ (by simp),belowNull]
      exact .null later
    | fn id =>
      have there := Array.getElem?_eq_getElem first
      rw [spelledOther _ _ (by simp),belowFunction there]
      exact .fn there later
    | seq id =>
      rw [spelledOther _ _ (by simp)]
      by_cases again : id ∈ path
      · rw [belowCut fit again]
        exact .cut (List.mem_toFinset.mpr again) later
      · have there := Array.getElem?_eq_getElem first
        have fresh : id ∉ path.toFinset := fun there => again (List.mem_toFinset.mp there)
        have inner := ih id again first
        rw [List.toFinset_cons] at inner
        have later : Renders h letters ((insert id path.toFinset).erase id) vs (vs.map (spelled letters (h.below path)))
            path.toFinset := by
          rwa [Finset.erase_insert fresh]
        rw [belowInside fit again there]
        cases text : h.sequences[id].isText with
        | true =>
          rw [shownText _ text]
          exact .text fresh there text (inner true _ (insideProper closed there)) later
        | false =>
          rw [shownList _ text]
          exact .list fresh there text (inner false _ (insideProper closed there)) later

theorem inspectsLiteral (closed : h.Closed) (proper : h.Proper v) (text : String) : h.Inspects v text ↔ text = h.literal v := by
  constructor
  · rintro ⟨seen,run⟩
    exact (List.cons.inj (rendersBelow run pathNil rfl)).1
  · rintro rfl
    exact ⟨∅,rendersPath closed pathNil false [v] (List.forall_mem_singleton.mpr proper)⟩

theorem printsPrinted (closed : h.Closed) (proper : h.Proper v) (text : String) : h.Prints v text ↔ text = h.printed v := by
  constructor
  · intro prints
    cases prints with
    | text there text elements =>
      rw [printedText there text]
      have fit := pathCons pathNil List.not_mem_nil (Array.getElem?_eq_some_iff.mp there).1
      rw [rendersBelow elements fit (by simp)]
      rfl
    | other other inspects => rw [printedOther other,(inspectsLiteral closed proper text).mp inspects]
  · rintro rfl
    by_cases other : ∀ id s, v = .seq id → h.sequences[id]? = some s → s.isText = false
    · exact .other other ((inspectsLiteral closed proper _).mpr (printedOther other))
    · simp only [not_forall,Bool.not_eq_false] at other
      obtain ⟨id,s,rfl,there,text⟩ := other
      rw [printedText there text]
      have fit := pathCons pathNil List.not_mem_nil proper
      have run := rendersPath closed fit true s.elements.toList (insideProper closed there)
      rw [List.toFinset_cons,List.toFinset_nil] at run
      exact .text there text run

end Renders

/-! Where sequences are cut short -/

inductive Visits (h : Heap) (root : Value) : List Nat → Value → Prop where
  | root : Visits h root [] root
  | inside {path : List Nat} {id s v} (visits : Visits h root path (.seq id)) (fresh : id ∉ path)
      (there : h.sequences[id]? = some s) (element : v ∈ s.elements) : Visits h root (id :: path) v

theorem visitsPath (visits : h.Visits root path v) : h.Path path := by
  induction visits with
  | root => exact pathNil
  | inside _ fresh there _ ih => exact pathCons ih fresh (Array.getElem?_eq_some_iff.mp there).1

theorem visitsReach (visits : h.Visits root path v) : ∀ id ∈ path, Relation.TransGen h.Holds (.seq id) v := by
  induction visits with
  | root => exact fun id there => absurd there List.not_mem_nil
  | @inside path id s v _ _ there element ih =>
    have holds : h.Holds (.seq id) v := ⟨id,s,rfl,there,element⟩
    exact List.forall_mem_cons.mpr ⟨.single holds,fun k between => (ih k between).tail holds⟩

theorem visitsProper (closed : h.Closed) (proper : h.Proper root) (visits : h.Visits root path v) : h.Proper v := by
  cases visits with
  | root => exact proper
  | inside _ _ there element => exact closed _ (Array.mem_of_getElem? there) v element

def Undotted (text : String) : Prop := ∃ c cs, text.toList = c :: cs ∧ c ≠ '.'

theorem undottedNumber (n : Nat) : Undotted (toString n) := by
  obtain ⟨c,cs,digits⟩ := List.exists_cons_of_ne_nil (Nat.toDigits_ne_nil : Nat.toDigits 10 n ≠ [])
  refine ⟨c,cs,by rw [Nat.toString_eq_ofList_toDigits,String.toList_ofList,digits],?_⟩
  rintro rfl
  have digit : '.' ∈ Nat.toDigits 10 n := digits ▸ List.mem_cons_self
  exact absurd (Nat.isDigit_of_mem_toDigits (by decide) (by decide) digit) (by decide)

theorem undottedInt (n : Int) : Undotted (toString n) := by
  cases n with
  | ofNat n => exact undottedNumber n
  | negSucc n =>
    have sign : toString (Int.negSucc n) = "-" ++ toString (n + 1) := rfl
    rw [sign,Undotted,String.toList_append]
    exact ⟨'-',_,rfl,by decide⟩

theorem undottedShown (literal : Value → String) (s : Sequence) : Undotted (shown literal s) := by
  rw [shown]
  split
  · exact ⟨'"',_,String.toList_ofList,by decide⟩
  · rw [Undotted,String.toList_append,String.toList_append]
    exact ⟨'[',_,rfl,by decide⟩

theorem undottedBelow (fit : h.Path path) (proper : h.Proper v) : Undotted (h.below path v) := by
  cases v with
  | int n => exact belowInt n ▸ undottedInt n
  | null => exact belowNull ▸ ⟨'?',[],rfl,by decide⟩
  | fn id =>
    rw [belowFunction (Array.getElem?_eq_getElem proper),showFunction,Undotted]
    simp only [String.toList_append,List.append_assoc]
    exact ⟨'<',_,rfl,by decide⟩
  | seq id =>
    by_cases again : id ∈ path
    · exact belowCut fit again ▸ ⟨'[',_,rfl,by decide⟩
    · rw [belowInside fit again (Array.getElem?_eq_getElem proper)]
      exact undottedShown _ _

theorem cutIff (closed : h.Closed) (fit : h.Path path) (proper : h.Proper (.seq id)) :
    h.below path (.seq id) = "[...]" ↔ id ∈ path := by
  refine ⟨fun dots => by_contra fun fresh => ?_,belowCut fit⟩
  have there := Array.getElem?_eq_getElem proper
  have deeper := pathCons fit fresh proper
  have dots := congrArg String.toList dots
  rw [belowInside fit fresh there,shown] at dots
  split at dots
  · rw [Text.quoted,String.toList_ofList] at dots
    exact absurd (List.cons.inj dots).1 (by decide)
  · have brackets : "[...]".toList = "[".toList ++ "...".toList ++ "]".toList := by decide
    rw [brackets,String.toList_append,String.toList_append] at dots
    have dots := List.append_cancel_left (List.append_cancel_right dots)
    rw [String.toList_intercalate] at dots
    cases elements : h.sequences[id].elements.toList with
    | nil => simp [elements] at dots
    | cons v vs =>
      obtain ⟨c,cs,text,other⟩ := undottedBelow deeper (insideProper closed there v (elements ▸ List.mem_cons_self))
      rw [elements,List.map_cons,List.map_cons,text] at dots
      cases rest : (vs.map (h.below (id :: path))).map String.toList with
      | nil =>
        rw [rest,List.intercalate_singleton] at dots
        exact other (List.cons.inj dots).1
      | cons t ts =>
        rw [rest,List.intercalate_cons_cons,List.append_assoc] at dots
        exact other (List.cons.inj dots).1

/-! Values without cycles -/

def Acyclic (h : Heap) (v : Value) : Prop :=
  ∀ id, Relation.ReflTransGen h.Holds v (.seq id) → ¬ Relation.TransGen h.Holds (.seq id) (.seq id)

def PlainAt (h : Heap) (literal : Value → String) : Value → Prop
  | .int n => literal (.int n) = toString n
  | .null => literal .null = "?"
  | .fn id => ∀ f, h.functions[id]? = some f → literal (.fn id) = showFunction f
  | .seq id => ∀ s, h.sequences[id]? = some s → literal (.seq id) = shown literal s

theorem acyclicFresh (acyclic : h.Acyclic (.seq id)) (around : ∀ k ∈ path, Relation.TransGen h.Holds (.seq k) (.seq id)) :
    id ∉ path :=
  fun again => acyclic id .refl (around id again)

theorem acyclicHeld (acyclic : h.Acyclic v) (holds : h.Holds v w) : h.Acyclic w :=
  fun id reaches => acyclic id (.head holds reaches)

theorem aroundHeld (around : ∀ k ∈ path, Relation.TransGen h.Holds (.seq k) (.seq id)) (holds : h.Holds (.seq id) v) :
    ∀ k ∈ id :: path, Relation.TransGen h.Holds (.seq k) v :=
  List.forall_mem_cons.mpr ⟨.single holds,fun k between => (around k between).tail holds⟩

theorem shownSame {literal literal' : Value → String} (same : ∀ v ∈ s.elements, literal v = literal' v) :
    shown literal s = shown literal' s := by
  have listed : s.elements.toList.map literal = s.elements.toList.map literal' :=
    List.map_congr_left fun v inside => same v (Array.mem_def.mpr inside)
  have spelled : s.elements.toList.map (showElement literal) = s.elements.toList.map (showElement literal') := by
    refine List.map_congr_left fun v inside => ?_
    have same := same v (Array.mem_def.mpr inside)
    cases v with
    | int n => simp only [showElement,same]
    | _ => exact same
  rw [shown,shown,listed,spelled]

theorem plainBelow {literal : Value → String} (closed : h.Closed) (fit : h.Path path) : ∀ v, h.Proper v → h.Acyclic v →
    (∀ k ∈ path, Relation.TransGen h.Holds (.seq k) v) → (∀ w, Relation.ReflTransGen h.Holds v w → h.PlainAt literal w) →
    h.below path v = literal v := by
  induction fit using pathInduction with | step path fit ih
  intro v proper acyclic around plain
  cases v with
  | int n => exact (belowInt n).trans (plain _ .refl).symm
  | null => exact belowNull.trans (plain _ .refl).symm
  | fn id =>
    have there := Array.getElem?_eq_getElem proper
    exact (belowFunction there).trans (plain _ .refl _ there).symm
  | seq id =>
    have there := Array.getElem?_eq_getElem proper
    have fresh := acyclicFresh acyclic around
    rw [belowInside fit fresh there,plain _ .refl _ there]
    refine shownSame fun w element => ?_
    have holds : h.Holds (.seq id) w := ⟨id,_,rfl,there,element⟩
    exact ih id fresh proper w (closed _ (Array.mem_of_getElem? there) w element) (acyclicHeld acyclic holds)
      (aroundHeld around holds)
      fun u reaches => plain u (.head holds reaches)

theorem acyclicBelow (closed : h.Closed) (fit : h.Path path) : ∀ path' v, h.Path path' → h.Proper v → h.Acyclic v →
    (∀ k ∈ path, Relation.TransGen h.Holds (.seq k) v) → (∀ k ∈ path', Relation.TransGen h.Holds (.seq k) v) →
    h.below path v = h.below path' v := by
  induction fit using pathInduction with | step path fit ih
  intro path' v fit' proper acyclic around around'
  cases v with
  | int n => rw [belowInt,belowInt]
  | null => rw [belowNull,belowNull]
  | fn id => rw [belowFunction (Array.getElem?_eq_getElem proper),belowFunction (Array.getElem?_eq_getElem proper)]
  | seq id =>
    have there := Array.getElem?_eq_getElem proper
    have fresh := acyclicFresh acyclic around
    have fresh' := acyclicFresh acyclic around'
    rw [belowInside fit fresh there,belowInside fit' fresh' there]
    refine shownSame fun w element => ?_
    have holds : h.Holds (.seq id) w := ⟨id,_,rfl,there,element⟩
    exact ih id fresh proper _ w (pathCons fit' fresh' proper) (closed _ (Array.mem_of_getElem? there) w element)
      (acyclicHeld acyclic holds) (aroundHeld around holds) (aroundHeld around' holds)

theorem acyclicPlain (closed : h.Closed) (proper : h.Proper v) (acyclic : h.Acyclic v) : h.PlainAt h.literal v := by
  cases v with
  | int n => exact (literalBelow _).trans (belowInt n)
  | null => exact (literalBelow _).trans belowNull
  | fn id => exact fun f there => (literalBelow _).trans (belowFunction there)
  | seq id =>
    intro s there
    rw [literalBelow,belowInside pathNil List.not_mem_nil there]
    refine shownSame fun w element => ?_
    have holds : h.Holds (.seq id) w := ⟨id,s,rfl,there,element⟩
    have within : h.Proper w := closed _ (Array.mem_of_getElem? there) w element
    exact acyclicBelow closed (pathCons pathNil List.not_mem_nil proper) [] w pathNil within (acyclicHeld acyclic holds) (aroundHeld (by simp) holds) (by simp)

theorem reachedProper (closed : h.Closed) (proper : h.Proper v) (reaches : Relation.ReflTransGen h.Holds v w) : h.Proper w := by
  induction reaches with
  | refl => exact proper
  | tail _ holds _ =>
    obtain ⟨id,s,_,there,element⟩ := holds
    exact closed s (Array.mem_of_getElem? there) _ element

theorem reachedAcyclic (acyclic : h.Acyclic v) (reaches : Relation.ReflTransGen h.Holds v w) : h.Acyclic w :=
  fun id further => acyclic id (reaches.trans further)

theorem showingCutsOnlyCycles (h : Heap) (closed : h.Closed) (root : Value) (proper : h.Proper root) :
    (∀ text, h.Inspects root text ↔ text = h.literal root) ∧ (∀ text, h.Prints root text ↔ text = h.printed root) ∧
    (∀ letters seen vs texts seen', Renders h letters seen vs texts seen' → seen' = seen) ∧
    h.literal root = h.below [] root ∧
    (∀ id s, root = .seq id → h.sequences[id]? = some s → s.isText →
      h.printed root = String.join (s.elements.toList.map (showElement (h.below [id])))) ∧
    (∀ path id s, h.Visits root path (.seq id) → h.sequences[id]? = some s →
      (h.below path (.seq id) = "[...]" ↔ id ∈ path) ∧ (id ∈ path → Relation.TransGen h.Holds (.seq id) (.seq id)) ∧
      (id ∉ path → h.below path (.seq id) = shown (h.below (id :: path)) s)) ∧
    (∀ path v, h.Visits root path v → h.Acyclic v → h.below path v = h.literal v) ∧
    (h.Acyclic root → (∀ v, Relation.ReflTransGen h.Holds root v → h.PlainAt h.literal v) ∧
      ∀ literal, (∀ v, Relation.ReflTransGen h.Holds root v → h.PlainAt literal v) → literal root = h.literal root) := by
  refine ⟨inspectsLiteral closed proper,printsPrinted closed proper,fun _ _ _ _ _ => rendersRestore,literalBelow root,?_,?_,?_,?_⟩
  · rintro id s rfl there text
    exact printedText there text
  · intro path id s visits there
    have fit := visitsPath visits
    exact ⟨cutIff closed fit (visitsProper closed proper visits),visitsReach visits id,fun fresh => belowInside fit fresh there⟩
  · intro path v visits acyclic
    exact acyclicBelow closed (visitsPath visits) [] v pathNil (visitsProper closed proper visits) acyclic
      (visitsReach visits) (by simp)
  · intro acyclic
    refine ⟨fun v reaches => acyclicPlain closed (reachedProper closed proper reaches) (reachedAcyclic acyclic reaches),?_⟩
    exact fun literal plain => (plainBelow closed pathNil root proper acyclic (by simp) plain).symm

def twiceAndItself : Heap :=
  { sequences := #[⟨#[.seq 1,.seq 1,.seq 0],false⟩,⟨#[.int 97,.int 98],true⟩] }

theorem twiceAndItselfIsShown : twiceAndItself.literal (.seq 0) = "[\"ab\", \"ab\", [...]]" ∧
    twiceAndItself.Inspects (.seq 0) (twiceAndItself.literal (.seq 0)) ∧
    Relation.TransGen twiceAndItself.Holds (.seq 0) (.seq 0) := by
  have closed : twiceAndItself.Closed := by simp [Closed,twiceAndItself,Proper]
  have proper : twiceAndItself.Proper (.seq 0) := by
    show _ < 2
    decide
  have text : twiceAndItself.literal (.seq 0) = "[\"ab\", \"ab\", [...]]" := by decide +kernel
  have all := showingCutsOnlyCycles twiceAndItself closed (.seq 0) proper
  have again : twiceAndItself.Visits (.seq 0) [0] (.seq 0) := .inside .root List.not_mem_nil rfl (by simp [twiceAndItself])
  exact ⟨text,(all.1 _).mpr rfl,(all.2.2.2.2.2.1 [0] 0 _ again rfl).2.1 List.mem_cons_self⟩

end Terakoya.Heap
