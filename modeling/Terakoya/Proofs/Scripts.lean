import Terakoya.Proofs.WrittenCalls

/-! What the dialect of braces writes for an expression without functions: characters that do not depend on where the
expression stands, and that begin with a sign of their own. -/
namespace Terakoya

mutual

def Expr.isSimple : Expr → Bool
  | .int _ _ => true
  | .null _ => true
  | .text _ _ _ => true
  | .seq _ items => allSimple items
  | .var p => p.isSimple
  | .fn _ _ _ => false
  | .call _ name args => name != "null" && allSimple args
  | .neg _ e => e.isSimple
  | .len _ e => e.isSimple

def allSimple : List Expr → Bool
  | [] => true
  | e :: rest => e.isSimple && allSimple rest

def Place.isSimple : Place → Bool
  | .mk _ name indices => name != "null" && allSimple indices

end

def Expr.leads : Expr → Bool
  | .neg _ _ => true
  | .len _ e => e.leads
  | _ => false

def Leaf.Wordy : Leaf → Prop
  | .call f => Wordlike f
  | .name x => Wordlike x
  | .text _ _ => True

structure Expr.Fit (e : Expr) : Prop where
  simple : e.isSimple
  names : Bears Leaf.Wordy e.leaves

section Fit

theorem allSimpleEach {es} (simple : allSimple es) : ∀ e ∈ es, e.isSimple := by
  induction es with
  | nil => exact fun e there => absurd there List.not_mem_nil
  | cons e es ih =>
    obtain ⟨first,rest⟩ := Bool.and_eq_true_iff.mp simple
    exact List.forall_mem_cons.mpr ⟨first,ih rest⟩

theorem leavesAmong {es e} (there : e ∈ es) : e.leaves ⊆ allLeaves es := by
  induction es with
  | nil => exact absurd there List.not_mem_nil
  | cons first es ih =>
    rcases List.mem_cons.mp there with rfl | later
    · exact List.subset_append_left _ _
    · exact List.subset_append_of_subset_right _ (ih later)

theorem fitAll {es} (simple : allSimple es) (names : Bears Leaf.Wordy (allLeaves es)) : ∀ e ∈ es, e.Fit :=
  fun e there => ⟨allSimpleEach simple e there,fun l inside => names l (leavesAmong there inside)⟩

variable {span place : Span} {name : String} {es : List Expr} {e : Expr}

theorem fitSeq (fit : (Expr.seq span es).Fit) : ∀ e ∈ es, e.Fit := fitAll fit.simple fit.names

theorem fitVar (fit : (Expr.var (.mk place name es)).Fit) : (Wordlike name ∧ name ≠ "null") ∧ ∀ e ∈ es, e.Fit := by
  obtain ⟨other,simple⟩ := Bool.and_eq_true_iff.mp fit.simple
  obtain ⟨wordy,names⟩ := List.forall_mem_cons.mp fit.names
  exact ⟨⟨wordy,by simpa using other⟩,fitAll simple names⟩

theorem fitCall (fit : (Expr.call span name es).Fit) : (Wordlike name ∧ name ≠ "null") ∧ ∀ e ∈ es, e.Fit := by
  obtain ⟨other,simple⟩ := Bool.and_eq_true_iff.mp fit.simple
  obtain ⟨wordy,names⟩ := List.forall_mem_cons.mp fit.names
  exact ⟨⟨wordy,by simpa using other⟩,fitAll simple names⟩

theorem fitNeg (fit : (Expr.neg span e).Fit) : e.Fit := ⟨fit.simple,fit.names⟩

theorem fitLen (fit : (Expr.len span e).Fit) : e.Fit := ⟨fit.simple,fit.names⟩

end Fit

namespace Emit.Braced

/-! How pages begin -/

def isOpening (c : Char) : Bool := c = '-' || c = '"' || c = '[' || isNameChar c

structure Opening (p : Page) (minus : Bool) (c : Char) : Prop where
  page : ∃ s t rest, p = .words s :: rest ∧ s.toList = c :: t
  opens : isOpening c
  sign : c = '-' ↔ minus

theorem minusOfOpening {p minus c} (opening : Opening p minus c) : startsWithMinus p = minus := by
  obtain ⟨⟨s,t,rest,rfl,text⟩,_,sign⟩ := opening
  rw [startsWithMinus,Bool.eq_iff_iff,String.startsWith_string_iff,text,← sign]
  simp [eq_comm]

theorem indexedOpening {level depth s} (rest : Page) (es : List Expr) :
    ∃ rest', indexed level depth (.words s :: rest) es = .words s :: rest' := by
  induction es generalizing rest with
  | nil => exact ⟨rest,rfl⟩
  | cons e es ih =>
    rw [indexedCons]
    split
    · exact ih _
    · exact ih _

theorem charOpens {c} (char : isNameChar c) : isOpening c ∧ c ≠ '-' := by
  refine ⟨by simp [isOpening,char],?_⟩
  rintro rfl
  exact absurd char (by decide +kernel)

theorem wordOpening {name} (wordlike : Wordlike name) : ∃ c t, name.toList = c :: t ∧ isOpening c ∧ c ≠ '-' := by
  obtain ⟨l,there,_⟩ := wordlike.letter
  obtain ⟨c,t,shape⟩ := List.exists_cons_of_ne_nil (List.ne_nil_of_mem there)
  exact ⟨c,t,shape,charOpens (wordlike.chars c (shape ▸ List.mem_cons_self))⟩

theorem digitChars (n : Nat) : ∀ c ∈ (toString n).toList, isNameChar c := by
  intro c there
  rw [Nat.toString_eq_ofList_toDigits,String.toList_ofList] at there
  simp [isNameChar,Nat.isDigit_of_mem_toDigits (by decide) (by decide) there]

theorem opening (level depth : Nat) {e} (fit : e.Fit) : ∃ c, Opening (expr level depth e) e.leads c := by
  have plain {p : Page} {s : String} {c : Char} {t : List Char} {rest : Page} (page : p = .words s :: rest)
      (text : s.toList = c :: t) (opens : isOpening c ∧ c ≠ '-') : ∃ c, Opening p false c :=
    ⟨c,⟨s,t,rest,page,text⟩,opens.1,⟨fun same => absurd same opens.2,fun none => absurd none Bool.false_ne_true⟩⟩
  cases e with
  | int span n =>
    have some : (toString n).toList ≠ [] := by simp
    obtain ⟨c,t,shape⟩ := List.exists_cons_of_ne_nil some
    exact plain rfl shape (charOpens (digitChars n c (shape ▸ List.mem_cons_self)))
  | null span => exact plain rfl rfl (by decide +kernel)
  | text span s index =>
    cases index with
    | none => exact plain rfl String.toList_ofList (by decide +kernel)
    | some i => exact plain (c := '[') rfl (by simp only [String.toList_append]; rfl) (by decide +kernel)
  | seq span es => exact plain rfl rfl (by decide +kernel)
  | var place =>
    obtain ⟨span,name,es⟩ := place
    obtain ⟨c,t,shape,opens⟩ := wordOpening (fitVar fit).1.1
    obtain ⟨rest,page⟩ : ∃ rest, indexed level depth [.words name] es = .words name :: rest := indexedOpening [] es
    exact plain page shape opens
  | fn span params body => exact absurd fit.simple Bool.false_ne_true
  | call span name es =>
    obtain ⟨c,t,shape,opens⟩ := wordOpening (fitCall fit).1.1
    exact plain rfl (by rw [String.toList_append,shape]; rfl) opens
  | neg span e =>
    refine ⟨'-',?_,by decide +kernel,⟨fun _ => rfl,fun _ => rfl⟩⟩
    simp only [expr]
    split
    · exact ⟨_,_,_,rfl,rfl⟩
    · exact ⟨_,_,_,rfl,rfl⟩
  | len span e =>
    obtain ⟨c,⟨s,t,rest,page,text⟩,opens,sign⟩ := opening level depth (fitLen fit)
    exact ⟨c,⟨s,t,rest ++ [.words ".length"],by rw [expr,page]; rfl,text⟩,opens,sign⟩

theorem minusLeads (level depth : Nat) {e} (fit : e.Fit) : startsWithMinus (expr level depth e) = e.leads := by
  obtain ⟨c,opening⟩ := opening level depth fit
  exact minusOfOpening opening

/-! Expressions as characters -/

def indexText (base : List Char) (null : Bool) (index : List Char) : List Char :=
  if null then "[Math.floor(Math.random() * ".toList ++ (base ++ ".length)]".toList) else '[' :: (index ++ [']'])

mutual

def script : Expr → List Char
  | .int _ n => (toString n).toList
  | .null _ => "null".toList
  | .text _ s none => (quote s).toList
  | .text _ s (some i) =>
    "[...".toList ++ ((quote s).toList ++ ("][".toList ++ ((toString i).toList ++ "].codePointAt(0)".toList)))
  | .seq _ items => '[' :: (listScript items ++ [']'])
  | .var p => placeScript p
  | .fn _ _ _ => []
  | .call _ name args => name.toList ++ '(' :: (listScript args ++ [')'])
  | .neg _ e => if e.leads then '-' :: '(' :: (script e ++ [')']) else '-' :: script e
  | .len _ e => script e ++ ".length".toList

def listScript : List Expr → List Char
  | [] => []
  | e :: rest => script e ++ moreScript rest

def moreScript : List Expr → List Char
  | [] => []
  | e :: rest => ", ".toList ++ (script e ++ moreScript rest)

def placeScript : Place → List Char
  | .mk _ name indices => name.toList ++ chainScript name.toList indices

def chainScript (base : List Char) : List Expr → List Char
  | [] => []
  | e :: rest => indexText base e.isNull (script e) ++ chainScript (base ++ indexText base e.isNull (script e)) rest

end

section Pages

variable {base level depth : Nat}

theorem inkedWords (s : String) (p : Page) : inked base (.words s :: p) = s.toList ++ inked base p := rfl

theorem inkedLast (p : Page) (s : String) : inked base (p ++ [.words s]) = inked base p ++ s.toList := by
  rw [inkedAppend,inkedWords,inkedNil,List.append_nil]

theorem inkedFirst (p : Page) (ps : List Page) :
    inked base (commas (p :: ps)) = inked base p ++ ps.flatMap fun q => ", ".toList ++ inked base q := by
  induction ps generalizing p with
  | nil => rw [commas,List.flatMap_nil,List.append_nil]
  | cons q ps ih =>
    have both : commas (p :: q :: ps) = p ++ .words ", " :: commas (q :: ps) := rfl
    rw [both,inkedAppend,inkedCons,ih,List.flatMap_cons,List.append_assoc]
    rfl

mutual

theorem inkedScript {e} (fit : e.Fit) : inked base (expr level depth e) = script e := by
  cases e with
  | int span n => rw [expr,script,inkedWords,inkedNil,List.append_nil]
  | null span => rw [expr,script,inkedWords,inkedNil,List.append_nil]
  | text span s index =>
    cases index with
    | none => rw [expr,script,inkedWords,inkedNil,List.append_nil]
    | some i =>
      rw [expr,script,inkedWords,inkedNil,List.append_nil]
      simp only [String.toList_append,List.append_assoc]
  | seq span es => rw [expr,script,List.cons_append,inkedWords,inkedLast,inkedList (fitSeq fit)]; rfl
  | var place =>
    obtain ⟨span,name,es⟩ := place
    have single : inked base [.words name] = name.toList := by rw [inkedWords,inkedNil,List.append_nil]
    rw [expr,place,script,placeScript,inkedChain (fitVar fit).2,single]
  | fn span params body => exact absurd fit.simple Bool.false_ne_true
  | call span name es =>
    rw [expr,script,List.cons_append,inkedWords,inkedLast,inkedList (fitCall fit).2,String.toList_append,List.append_assoc]
    rfl
  | neg span e =>
    simp only [expr,script,minusLeads level depth (fitNeg fit)]
    split
    · rw [List.cons_append,inkedWords,inkedLast,inkedScript (fitNeg fit)]
      rfl
    · rw [inkedWords,inkedScript (fitNeg fit)]
      rfl
  | len span e => rw [expr,script,inkedLast,inkedScript (fitLen fit)]

theorem inkedList {es} (fits : ∀ e ∈ es, e.Fit) : inked base (commas (exprs level depth es)) = listScript es := by
  cases es with
  | nil => rfl
  | cons e es =>
    obtain ⟨first,rest⟩ := List.forall_mem_cons.mp fits
    rw [exprs,inkedFirst,listScript,inkedScript first,inkedMore rest]

theorem inkedMore {es} (fits : ∀ e ∈ es, e.Fit) :
    ((exprs level depth es).flatMap fun p => ", ".toList ++ inked base p) = moreScript es := by
  cases es with
  | nil => rfl
  | cons e es =>
    obtain ⟨first,rest⟩ := List.forall_mem_cons.mp fits
    rw [exprs,List.flatMap_cons,moreScript,inkedScript first,inkedMore rest,List.append_assoc]

theorem inkedChain {es} (fits : ∀ e ∈ es, e.Fit) (p : Page) :
    inked base (indexed level depth p es) = inked base p ++ chainScript (inked base p) es := by
  cases es with
  | nil => rw [indexed,chainScript,List.append_nil]
  | cons e es =>
    obtain ⟨first,rest⟩ := List.forall_mem_cons.mp fits
    have index : inked base (if e.isNull then picked p else p ++ .words "[" :: expr level depth e ++ [.words "]"]) =
        inked base p ++ indexText (inked base p) e.isNull (script e) := by
      unfold indexText
      split
      · simp only [picked,inkedAppend,inkedCons,inkedNil,List.append_nil,List.append_assoc,List.cons_append,Ink.render]
      · rw [List.append_assoc,List.cons_append,inkedAppend,inkedWords,inkedLast,inkedScript first]
        rfl
    rw [indexedCons,inkedChain rest,index,chainScript,List.append_assoc]

end

end Pages

end Emit.Braced
end Terakoya
