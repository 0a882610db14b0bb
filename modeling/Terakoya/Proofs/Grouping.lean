import Mathlib
import Terakoya.Proofs.Scripts
import Terakoya.Proofs.Trees

/-! Which expressions the dialect of braces tells apart. A length is written behind its operand and a minus sign
before it, so that the length of a negation is written like the negation of a length, unless the operand of the
negation stands in parentheses. Apart from that, expressions that are written alike are the same. -/
namespace Terakoya

def Expr.lengthened (span : Span) : Expr → Expr
  | .neg place e => if e.leads then .len span (.neg place e) else .neg place (.len span e)
  | e => .len span e

mutual

def Expr.regrouped : Expr → Expr
  | .int span n => .int span n
  | .null span => .null span
  | .text span s index => .text span s index
  | .seq span items => .seq span (allRegrouped items)
  | .var p => .var p.regrouped
  | .fn span params body => .fn span params body
  | .call span name args => .call span name (allRegrouped args)
  | .neg span e => .neg span e.regrouped
  | .len span e => e.regrouped.lengthened span

def allRegrouped : List Expr → List Expr
  | [] => []
  | e :: rest => e.regrouped :: allRegrouped rest

def Place.regrouped : Place → Place
  | .mk span name indices => .mk span name (allRegrouped indices)

end

namespace Emit.Braced

/-! Writing does not tell regrouped expressions apart -/

theorem leadsLengthened (span : Span) (e : Expr) : (e.lengthened span).leads = e.leads := by
  cases e with
  | neg place e =>
    rw [Expr.lengthened]
    split <;> rfl
  | _ => rfl

theorem leadsRegrouped (e : Expr) : e.regrouped.leads = e.leads := by
  cases e with
  | len span e => rw [Expr.regrouped,leadsLengthened,leadsRegrouped e,Expr.leads]
  | _ => rfl

theorem leadsBare (e : Expr) : e.bare.leads = e.leads := by
  cases e with
  | len span e => rw [Expr.bare,Expr.leads,leadsBare e,Expr.leads]
  | _ => rfl

theorem nullLengthened (span : Span) (e : Expr) : (e.lengthened span).isNull = false := by
  cases e with
  | neg place e =>
    rw [Expr.lengthened]
    split <;> rfl
  | _ => rfl

theorem nullRegrouped (e : Expr) : e.regrouped.isNull = e.isNull := by
  cases e with
  | len span e => exact nullLengthened span _
  | _ => rfl

theorem scriptLen (span : Span) (e : Expr) : script (.len span e) = script e ++ ".length".toList := by rw [script]

theorem scriptLengthened (span : Span) (e : Expr) : script (e.lengthened span) = script e ++ ".length".toList := by
  cases e with
  | neg place e =>
    rw [Expr.lengthened]
    split
    · exact scriptLen _ _
    · rename_i plain
      have operand : (Expr.len span e).leads = false := by simpa [Expr.leads] using plain
      rw [script,script,scriptLen,operand,if_neg Bool.false_ne_true,if_neg plain]
      rfl
  | _ => exact scriptLen _ _

mutual

theorem scriptRegrouped (e : Expr) : script e.regrouped = script e := by
  cases e with
  | int span n => rfl
  | null span => rfl
  | text span s index => rfl
  | seq span es => rw [Expr.regrouped,script,script,listRegrouped es]
  | var p =>
    obtain ⟨span,name,es⟩ := p
    rw [Expr.regrouped,Place.regrouped,script,script,placeScript,placeScript,chainRegrouped _ es]
  | fn span params body => rfl
  | call span name es => rw [Expr.regrouped,script,script,listRegrouped es]
  | neg span e => rw [Expr.regrouped,script,script,leadsRegrouped,scriptRegrouped e]
  | len span e => rw [Expr.regrouped,scriptLengthened,script,scriptRegrouped e]

theorem listRegrouped (es : List Expr) : listScript (allRegrouped es) = listScript es := by
  cases es with
  | nil => rfl
  | cons e es => rw [allRegrouped,listScript,listScript,scriptRegrouped e,moreRegrouped es]

theorem moreRegrouped (es : List Expr) : moreScript (allRegrouped es) = moreScript es := by
  cases es with
  | nil => rfl
  | cons e es => rw [allRegrouped,moreScript,moreScript,scriptRegrouped e,moreRegrouped es]

theorem chainRegrouped (base : List Char) (es : List Expr) :
    chainScript base (allRegrouped es) = chainScript base es := by
  cases es with
  | nil => rfl
  | cons e es => rw [allRegrouped,chainScript,chainScript,scriptRegrouped e,nullRegrouped,chainRegrouped _ es]

end

mutual

theorem scriptBare (e : Expr) : script e.bare = script e := by
  cases e with
  | int span n => rfl
  | null span => rfl
  | text span s index => cases index <;> rfl
  | seq span es => rw [Expr.bare,script,script,listBare es]
  | var p =>
    obtain ⟨span,name,es⟩ := p
    rw [Expr.bare,Place.bare,script,script,placeScript,placeScript,chainBare _ es]
  | fn span params body => rfl
  | call span name es => rw [Expr.bare,script,script,listBare es]
  | neg span e => rw [Expr.bare,script,script,leadsBare,scriptBare e]
  | len span e => rw [Expr.bare,script,script,scriptBare e]

theorem listBare (es : List Expr) : listScript (allBare es) = listScript es := by
  cases es with
  | nil => rfl
  | cons e es => rw [allBare,listScript,listScript,scriptBare e,moreBare es]

theorem moreBare (es : List Expr) : moreScript (allBare es) = moreScript es := by
  cases es with
  | nil => rfl
  | cons e es => rw [allBare,moreScript,moreScript,scriptBare e,moreBare es]

theorem chainBare (base : List Char) (es : List Expr) : chainScript base (allBare es) = chainScript base es := by
  cases es with
  | nil => rfl
  | cons e es => rw [allBare,chainScript,chainScript,scriptBare e,Expr.nullBare,chainBare _ es]

end

/-! Unique decomposition: from what is written, the pieces that it was written for can be told, as long as what
comes behind cannot go on with them -/

def Stops (cs : List Char) (u : List Char) : Prop := ∀ c t, u = c :: t → c ∈ cs

def closers : List Char := [',',']',')']

def enders : List Char := '.' :: closers

section Stops

variable {cs ds : List Char} {c : Char} {u v x y : List Char}

theorem stopsCons (inside : c ∈ cs) (u : List Char) : Stops cs (c :: u) := by
  intro d t same
  cases same
  exact inside

theorem stopsNil (cs : List Char) : Stops cs [] := fun _ _ same => by cases same

theorem stopsMono (wider : cs ⊆ ds) (stops : Stops cs u) : Stops ds u := fun c t same => wider (stops c t same)

theorem stopsAppend (first : Stops cs x) (second : Stops cs u) : Stops cs (x ++ u) := by
  cases x with
  | nil => exact second
  | cons c x => exact stopsCons (first c x rfl) _

theorem runsApart {p : Char → Bool} (all : ∀ c ∈ x, p c) (all' : ∀ c ∈ y, p c) (apart : cs.all (!p ·))
    (stops : Stops cs u) (stops' : Stops cs v) (same : x ++ u = y ++ v) : x = y ∧ u = v := by
  induction x generalizing y with
  | nil =>
    cases y with
    | nil => exact ⟨rfl,same⟩
    | cons d y =>
      have other := List.all_eq_true.mp apart d (stops d (y ++ v) same)
      rw [all' d List.mem_cons_self] at other
      contradiction
  | cons c x ih =>
    cases y with
    | nil =>
      have other := List.all_eq_true.mp apart c (stops' c (x ++ u) same.symm)
      rw [all c List.mem_cons_self] at other
      contradiction
    | cons d y =>
      obtain ⟨rfl,rest⟩ := List.cons.inj same
      obtain ⟨rfl,behind⟩ := ih (fun e there => all e (List.mem_cons_of_mem c there))
        (fun e there => all' e (List.mem_cons_of_mem c there)) rest
      exact ⟨rfl,behind⟩

end Stops

/-! Quoted texts -/

def unescaped : List Char → Char × List Char
  | [] => ('"',[])
  | c :: t =>
    if c = '\\' then
      match t with
      | 'n' :: t => ('\n',t)
      | 't' :: t => ('\t',t)
      | 'r' :: t => ('\r',t)
      | c :: t => (c,t)
      | [] => ('"',[])
    else (c,t)

theorem unescapedEscape (c : Char) (t : List Char) : unescaped (escape c ++ t) = (c,t) := by
  unfold escape
  split
  · rfl
  · rfl
  · rfl
  · rfl
  · rfl
  · rename_i slash _ _ _
    exact if_neg slash

theorem escapeBegins (c : Char) : ∃ d t, escape c = d :: t ∧ d ≠ '"' := by
  unfold escape
  split
  · exact ⟨_,_,rfl,by decide⟩
  · exact ⟨_,_,rfl,by decide⟩
  · exact ⟨_,_,rfl,by decide⟩
  · exact ⟨_,_,rfl,by decide⟩
  · exact ⟨_,_,rfl,by decide⟩
  · rename_i other _ _ _ _
    exact ⟨_,_,rfl,other⟩

theorem escapesApart {cs ds u v : List Char} (same : cs.flatMap escape ++ '"' :: u = ds.flatMap escape ++ '"' :: v) :
    cs = ds ∧ u = v := by
  induction cs generalizing ds with
  | nil =>
    cases ds with
    | nil => exact ⟨rfl,(List.cons.inj same).2⟩
    | cons d ds =>
      obtain ⟨e,t,begins,other⟩ := escapeBegins d
      rw [List.flatMap_cons,begins] at same
      exact absurd (List.cons.inj same).1.symm other
  | cons c cs ih =>
    cases ds with
    | nil =>
      obtain ⟨e,t,begins,other⟩ := escapeBegins c
      rw [List.flatMap_cons,begins] at same
      exact absurd (List.cons.inj same).1 other
    | cons d ds =>
      have first := congrArg unescaped same
      rw [List.flatMap_cons,List.flatMap_cons,List.append_assoc,List.append_assoc,unescapedEscape,unescapedEscape] at first
      obtain ⟨rfl,rest⟩ := Prod.mk.inj first
      obtain ⟨rfl,behind⟩ := ih rest
      exact ⟨rfl,behind⟩

theorem quotesApart {s s' : String} {u v} (same : (quote s).toList ++ u = (quote s').toList ++ v) : s = s' ∧ u = v := by
  simp only [quote,String.toList_ofList,List.cons_append,List.append_assoc] at same
  obtain ⟨chars,behind⟩ := escapesApart (List.cons.inj same).2
  exact ⟨String.toList_inj.mp chars,behind⟩

/-! Lengths -/

theorem lengthChars : ".length".toList = ['.','l','e','n','g','t','h'] := by decide

def tails : Nat → List Char
  | 0 => []
  | k + 1 => ['.','l','e','n','g','t','h'] ++ tails k

theorem tailsNext (k : Nat) : tails k ++ ".length".toList = tails (k + 1) := by
  rw [lengthChars]
  induction k with
  | zero => rfl
  | succ k ih =>
    rw [tails,List.append_assoc,ih]
    rfl

theorem tailsStop (k : Nat) {u} (stops : Stops closers u) : Stops enders (tails k ++ u) := by
  cases k with
  | zero => exact stopsMono (List.subset_cons_self _ _) stops
  | succ k => exact stopsCons List.mem_cons_self _

theorem tailsApart {k j u v} (stops : Stops closers u) (halts : Stops closers v)
    (same : tails k ++ u = tails j ++ v) : k = j ∧ u = v := by
  induction k generalizing j with
  | zero =>
    cases j with
    | zero => exact ⟨rfl,same⟩
    | succ j => exact absurd (stops '.' _ same) (by decide)
  | succ k ih =>
    cases j with
    | zero => exact absurd (halts '.' _ same.symm) (by decide)
    | succ j =>
      rw [tails,tails,List.append_assoc,List.append_assoc] at same
      obtain ⟨rfl,behind⟩ := ih (List.append_cancel_left same)
      exact ⟨rfl,behind⟩

def lens : Nat → Expr → Expr
  | 0,e => e
  | k + 1,e => .len nowhere (lens k e)

/-! Shapes -/

def isAtom : Expr → Bool
  | .neg _ _ => false
  | .len _ _ => false
  | _ => true

inductive Shape (x : Expr) : Prop where
  | plain (a : Expr) (k : Nat) (atom : isAtom a) (fit : a.Fit) (small : sizeOf a ≤ sizeOf x) (none : x.leads = false)
      (text : script x = script a ++ tails k) (form : x.regrouped.bare = lens k a.regrouped.bare)
  | minus (a : Expr) (k : Nat) (atom : isAtom a) (fit : a.Fit) (small : sizeOf a ≤ sizeOf x) (leads : x.leads)
      (text : script x = '-' :: (script a ++ tails k)) (form : x.regrouped.bare = .neg nowhere (lens k a.regrouped.bare))
  | wrapped (b : Expr) (k : Nat) (fit : b.Fit) (small : sizeOf b < sizeOf x) (inner : b.leads) (leads : x.leads)
      (text : script x = '-' :: '(' :: (script b ++ ')' :: tails k))
      (form : x.regrouped.bare = lens k (.neg nowhere b.regrouped.bare))

theorem lengthenedPlain {f g : Expr} {k} (span : Span) (form : f.bare = lens k g) (atom : isAtom g) :
    (f.lengthened span).bare = lens (k + 1) g := by
  have same : f.lengthened span = .len span f := by
    cases f with
    | neg place e =>
      cases k with
      | zero =>
        rw [← show Expr.bare _ = g from form] at atom
        contradiction
      | succ k => cases form
    | _ => rfl
  rw [same,Expr.bare,form,lens]

theorem atomRegrouped {a} (atom : isAtom a) : isAtom a.regrouped.bare := by
  cases a with
  | neg span e => contradiction
  | len span e => contradiction
  | _ => rfl

theorem lensLeads {g} (k : Nat) : (lens k g).leads = g.leads := by
  induction k with
  | zero => rfl
  | succ k ih => rw [lens,Expr.leads,ih]

theorem atomLeads {a} (atom : isAtom a) : a.leads = false := by
  cases a with
  | neg span e => contradiction
  | len span e => contradiction
  | _ => rfl

theorem negOfBare {f g : Expr} (form : f.bare = .neg nowhere g) : ∃ span e, f = .neg span e ∧ e.bare = g := by
  cases f with
  | neg span e => exact ⟨span,e,rfl,(Expr.neg.inj form).2⟩
  | _ => cases form

theorem shape (x : Expr) (fit : x.Fit) : Shape x := by
  cases x with
  | neg span e =>
    cases leads : e.leads with
    | true =>
      refine .wrapped e 0 (fitNeg fit) (by simp only [Expr.neg.sizeOf_spec]; omega) leads rfl ?_ rfl
      rw [script,leads,if_pos rfl]
      rfl
    | false =>
      cases shape e (fitNeg fit) with
      | plain a k atom fit small none text form =>
        refine .minus a k atom fit (by simp only [Expr.neg.sizeOf_spec]; omega) rfl ?_
          (by rw [Expr.regrouped,Expr.bare,form])
        rw [script,leads,if_neg Bool.false_ne_true,text]
      | minus a k atom fit small leads' text form => rw [leads] at leads'; contradiction
      | wrapped b k fit small inner leads' text form => rw [leads] at leads'; contradiction
  | len span e =>
    cases shape e (fitLen fit) with
    | plain a k atom fit small none text form =>
      refine .plain a (k + 1) atom fit (by simp only [Expr.len.sizeOf_spec]; omega) none ?_
        (lengthenedPlain span form (atomRegrouped atom))
      rw [scriptLen,text,List.append_assoc,tailsNext]
    | minus a k atom fit small leads text form =>
      refine .minus a (k + 1) atom fit (by simp only [Expr.len.sizeOf_spec]; omega) leads ?_ ?_
      · rw [scriptLen,text,List.cons_append,List.append_assoc,tailsNext]
      · obtain ⟨place,f,same,operand⟩ := negOfBare form
        have none : f.leads = false := by
          rw [← leadsBare,operand,lensLeads,atomLeads (atomRegrouped atom)]
        rw [Expr.regrouped,same,Expr.lengthened,none,if_neg Bool.false_ne_true,Expr.bare,Expr.bare,operand,lens]
    | wrapped b k fit small inner leads text form =>
      refine .wrapped b (k + 1) fit (by simp only [Expr.len.sizeOf_spec]; omega) inner leads ?_ ?_
      · rw [scriptLen,text,List.cons_append,List.cons_append,List.append_assoc,List.cons_append,tailsNext]
      · cases k with
        | zero =>
          obtain ⟨place,f,same,operand⟩ := negOfBare form
          have leads : f.leads = true := by rw [← leadsBare,operand,leadsBare,leadsRegrouped,inner]
          rw [Expr.regrouped,same,Expr.lengthened,leads,if_pos rfl,Expr.bare,Expr.bare,operand]
          rfl
        | succ k =>
          rw [Expr.regrouped]
          generalize e.regrouped = f at form
          cases f with
          | len place f =>
            show (Expr.len span (.len place f)).bare = _
            rw [Expr.bare,form]
            rfl
          | _ => cases form
  | fn span params body => exact absurd fit.simple Bool.false_ne_true
  | _ => exact .plain _ 0 rfl fit (Nat.le_refl _) rfl (List.append_nil _).symm rfl

/-! Atoms -/

inductive Worded : Expr → List Char → List Char → Prop where
  | int (span : Span) (n : Nat) : Worded (.int span n) (toString n).toList []
  | null (span : Span) : Worded (.null span) "null".toList []
  | var (span : Span) (name : String) (es : List Expr) :
      Worded (.var (.mk span name es)) name.toList (chainScript name.toList es)
  | call (span : Span) (name : String) (es : List Expr) :
      Worded (.call span name es) name.toList ('(' :: (listScript es ++ [')']))

def initial : List Char → Nat
  | [] => 4
  | c :: t => if isNameChar c then 0 else if c = '"' then 1 else if c = '[' then if t.head? = some '.' then 2 else 3 else 4

def kind : Expr → Nat
  | .text _ _ none => 1
  | .text _ _ (some _) => 2
  | .seq _ _ => 3
  | _ => 0

theorem kindCases {a} (atom : isAtom a) (fit : a.Fit) : (kind a = 0 ∧ ∃ w r, Worded a w r) ∨
    (kind a = 1 ∧ ∃ span s, a = .text span s none) ∨ (kind a = 2 ∧ ∃ span s i, a = .text span s (some i)) ∨
    (kind a = 3 ∧ ∃ span es, a = .seq span es) := by
  cases a with
  | int span n => exact .inl ⟨rfl,_,_,.int span n⟩
  | null span => exact .inl ⟨rfl,_,_,.null span⟩
  | text span s index =>
    cases index with
    | none => exact .inr (.inl ⟨rfl,span,s,rfl⟩)
    | some i => exact .inr (.inr (.inl ⟨rfl,span,s,i,rfl⟩))
  | seq span es => exact .inr (.inr (.inr ⟨rfl,span,es,rfl⟩))
  | var p =>
    obtain ⟨span,name,es⟩ := p
    exact .inl ⟨rfl,_,_,.var span name es⟩
  | fn span params body => exact absurd fit.simple Bool.false_ne_true
  | call span name es => exact .inl ⟨rfl,_,_,.call span name es⟩
  | neg span e => contradiction
  | len span e => contradiction

theorem chainStops (base : List Char) (es : List Expr) : Stops ['['] (chainScript base es) := by
  cases es with
  | nil => exact stopsNil _
  | cons e es =>
    rw [chainScript,indexText]
    split
    · exact stopsCons List.mem_cons_self _
    · exact stopsCons List.mem_cons_self _

theorem nullWordlike : Wordlike "null" :=
  ⟨List.all_eq_true.mp (by decide +kernel),⟨'n',by decide,by decide +kernel⟩⟩

theorem wordedText {a : Expr} {w r : List Char} (worded : Worded a w r) (fit : a.Fit) :
    script a = w ++ r ∧ (∀ c ∈ w, isNameChar c) ∧ w ≠ [] ∧ Stops ['[','('] r := by
  cases worded with
  | int span n => exact ⟨by rw [script,List.append_nil],digitChars n,by simp,stopsNil _⟩
  | null span => exact ⟨by rw [script,List.append_nil],nullWordlike.chars,by decide,stopsNil _⟩
  | var span name es =>
    obtain ⟨wordlike,_⟩ := (fitVar fit).1
    obtain ⟨c,t,shape,_⟩ := wordOpening wordlike
    refine ⟨by rw [script,placeScript],wordlike.chars,by rw [shape]; exact List.cons_ne_nil _ _,?_⟩
    exact stopsMono (by decide) (chainStops _ es)
  | call span name es =>
    obtain ⟨wordlike,_⟩ := (fitCall fit).1
    obtain ⟨c,t,shape,_⟩ := wordOpening wordlike
    exact ⟨by rw [script],wordlike.chars,by rw [shape]; exact List.cons_ne_nil _ _,stopsCons (by decide) _⟩

theorem scriptOpening {e} (fit : e.Fit) : ∃ c t, script e = c :: t ∧ isOpening c := by
  obtain ⟨c,⟨s,t,rest,page,text⟩,opens,_⟩ := opening 0 0 fit
  refine ⟨c,t ++ inked 0 rest,?_,opens⟩
  have same : inked 0 (expr 0 0 e) = script e := inkedScript fit
  rw [← same,page,inkedWords,text,List.cons_append]

theorem initialAtom {a} (atom : isAtom a) (fit : a.Fit) (u : List Char) : initial (script a ++ u) = kind a := by
  have quoted : isNameChar '"' = false := by decide +kernel
  have bracket : isNameChar '[' = false := by decide +kernel
  rcases kindCases atom fit with ⟨same,w,r,worded⟩ | ⟨same,span,s,rfl⟩ | ⟨same,span,s,i,rfl⟩ | ⟨same,span,es,rfl⟩
  · obtain ⟨text,chars,some,_⟩ := wordedText worded fit
    obtain ⟨c,t,rfl⟩ := List.exists_cons_of_ne_nil some
    rw [same,text,List.cons_append,List.cons_append]
    exact if_pos (chars c List.mem_cons_self)
  · rw [script,quote,String.toList_ofList]
    show initial ('"' :: _) = 1
    rw [initial,quoted]
    rfl
  · rw [script]
    show initial ('[' :: '.' :: _) = 2
    rw [initial,bracket]
    rfl
  · have second : (listScript es ++ [']'] ++ u).head? ≠ some '.' := by
      cases es with
      | nil => exact fun same => absurd (Option.some.inj same) (by decide)
      | cons e es =>
        obtain ⟨c,t,text,opens⟩ := scriptOpening (fitSeq fit e List.mem_cons_self)
        rw [listScript,text]
        rintro ⟨⟩
        exact absurd opens (by decide +kernel)
    rw [script,List.cons_append,initial,bracket,if_neg Bool.false_ne_true,if_neg (by decide),if_pos rfl,if_neg second]
    rfl

def Apart (x : Expr) : Prop := ∀ y u v, y.Fit → Stops closers u → Stops closers v → script x ++ u = script y ++ v →
  x.regrouped.bare = y.regrouped.bare ∧ u = v

theorem moreStops (es : List Expr) {c} (closes : c ∈ closers) (u : List Char) : Stops closers (moreScript es ++ c :: u) := by
  cases es with
  | nil => exact stopsCons closes u
  | cons e es => exact stopsCons (by decide) _

theorem moreApart {es es'} (each : ∀ e ∈ es, Apart e) (fits : ∀ e ∈ es', e.Fit) {c} (closes : c ∈ closers)
    (other : c ≠ ',') {u v} (same : moreScript es ++ c :: u = moreScript es' ++ c :: v) :
    allBare (allRegrouped es) = allBare (allRegrouped es') ∧ u = v := by
  induction es generalizing es' with
  | nil =>
    cases es' with
    | nil => exact ⟨rfl,(List.cons.inj same).2⟩
    | cons e' es' => exact absurd (List.cons.inj same).1 other
  | cons e es ih =>
    obtain ⟨first,rest⟩ := List.forall_mem_cons.mp each
    cases es' with
    | nil => exact absurd (List.cons.inj same).1.symm other
    | cons e' es' =>
      obtain ⟨fit,fits⟩ := List.forall_mem_cons.mp fits
      rw [moreScript,moreScript,List.append_assoc,List.append_assoc,List.append_assoc,List.append_assoc] at same
      obtain ⟨form,behind⟩ := first e' _ _ fit (moreStops es closes u) (moreStops es' closes v) (List.append_cancel_left same)
      obtain ⟨forms,behind⟩ := ih rest fits behind
      exact ⟨by rw [allRegrouped,allRegrouped,allBare,allBare,form,forms],behind⟩

theorem listApart {es es'} (each : ∀ e ∈ es, Apart e) (fits : ∀ e ∈ es, e.Fit) (fits' : ∀ e ∈ es', e.Fit) {c}
    (closes : c ∈ closers) (other : c ≠ ',') {u v} (same : listScript es ++ c :: u = listScript es' ++ c :: v) :
    allBare (allRegrouped es) = allBare (allRegrouped es') ∧ u = v := by
  -- an expression does not begin with what closes the list
  have begins {e : Expr} (fit : e.Fit) (x y : List Char) : c :: x ≠ script e ++ y := by
    obtain ⟨d,t,text,opens⟩ := scriptOpening fit
    rw [text]
    intro same
    rw [← (List.cons.inj same).1] at opens
    have none : closers.all fun c => !isOpening c := by decide +kernel
    exact absurd opens (by simpa using List.all_eq_true.mp none c closes)
  cases es with
  | nil =>
    cases es' with
    | nil => exact ⟨rfl,(List.cons.inj same).2⟩
    | cons e' es' =>
      rw [listScript,listScript,List.append_assoc] at same
      exact absurd same (begins (fits' e' List.mem_cons_self) _ _)
  | cons e es =>
    obtain ⟨first,rest⟩ := List.forall_mem_cons.mp each
    cases es' with
    | nil =>
      rw [listScript,listScript,List.append_assoc] at same
      exact absurd same.symm (begins (fits e List.mem_cons_self) _ _)
    | cons e' es' =>
      obtain ⟨fit,fits'⟩ := List.forall_mem_cons.mp fits'
      rw [listScript,listScript,List.append_assoc,List.append_assoc] at same
      obtain ⟨form,behind⟩ := first e' _ _ fit (moreStops es closes u) (moreStops es' closes v) same
      obtain ⟨forms,behind⟩ := moreApart rest fits' closes other behind
      exact ⟨by rw [allRegrouped,allRegrouped,allBare,allBare,form,forms],behind⟩

theorem choiceApart {e : Expr} (fit : e.Fit) (u v : List Char) : script e ++ ']' :: u ≠ "Math.floor(".toList ++ v := by
  intro same
  have word : isNameChar 'M' := by decide +kernel
  have split : "Math.floor(".toList ++ v = ['M','a','t','h'] ++ ('.' :: 'f' :: ("loor(".toList ++ v)) := rfl
  have minus (t : List Char) : '-' :: t ≠ "Math.floor(".toList ++ v := fun same => absurd (List.cons.inj same).1 (by decide)
  cases shape e fit with
  | minus a k atom fit small leads text form => exact minus _ (by rw [← same,text,List.cons_append])
  | wrapped b k fit small inner leads text form => exact minus _ (by rw [← same,text,List.cons_append])
  | plain a k atom fit small none text form =>
    rw [text,List.append_assoc] at same
    have first : kind a = 0 := by
      rw [← initialAtom atom fit (tails k ++ ']' :: u),same,split,List.cons_append,initial,if_pos word]
    rcases kindCases atom fit with ⟨_,w,r,worded⟩ | ⟨other,_⟩ | ⟨other,_⟩ | ⟨other,_⟩
    · obtain ⟨text,chars,_,stops⟩ := wordedText worded fit
      have ends : Stops ('[' :: '(' :: enders) (r ++ (tails k ++ ']' :: u)) :=
        stopsAppend (stopsMono (by decide) stops) (stopsMono (by decide) (tailsStop k (stopsCons (by decide) u)))
      rw [text,List.append_assoc,split] at same
      have name : ['M','a','t','h'].all isNameChar := by decide +kernel
      obtain ⟨_,behind⟩ := runsApart chars (List.all_eq_true.mp name) (by decide +kernel) ends
        (stopsCons (by decide) _) same
      cases r with
      | cons c r =>
        have bracket := stops c r rfl
        rw [(List.cons.inj behind).1] at bracket
        exact absurd bracket (by decide)
      | nil =>
        cases k with
        | zero => exact absurd (List.cons.inj behind).1 (by decide)
        | succ k => exact absurd (List.cons.inj (List.cons.inj behind).2).1 (by decide)
    · omega
    · omega
    · omega

theorem nullForm {e : Expr} (null : e.isNull) : e.regrouped.bare = .null nowhere := by
  cases e with
  | null span => rfl
  | _ => contradiction

theorem indexBegins (base : List Char) (null : Bool) (x : List Char) : ∃ t, indexText base null x = '[' :: t := by
  unfold indexText
  split
  · exact ⟨_,rfl⟩
  · exact ⟨_,rfl⟩

theorem indexChosen (base x u : List Char) : ∃ w, indexText base true x ++ u = '[' :: ("Math.floor(".toList ++ w) := by
  have parts : "[Math.floor(Math.random() * ".toList = '[' :: ("Math.floor(".toList ++ "Math.random() * ".toList) := by decide
  exact ⟨_,by rw [indexText,if_pos rfl,parts,List.cons_append,List.cons_append,List.append_assoc,List.append_assoc]⟩

theorem indexPlain (base x u : List Char) : indexText base false x ++ u = '[' :: (x ++ ']' :: u) := by
  rw [indexText,if_neg Bool.false_ne_true,List.cons_append,List.append_assoc]
  rfl

theorem indexApart {e e' : Expr} (apart : Apart e) (fit : e.Fit) (fit' : e'.Fit) (base u v : List Char)
    (same : indexText base e.isNull (script e) ++ u = indexText base e'.isNull (script e') ++ v) :
    e.regrouped.bare = e'.regrouped.bare ∧ indexText base e.isNull (script e) = indexText base e'.isNull (script e') ∧ u = v := by
  cases null : e.isNull with
  | true =>
    cases null' : e'.isNull with
    | true =>
      rw [null,null'] at same
      exact ⟨by rw [nullForm null,nullForm null'],rfl,List.append_cancel_left same⟩
    | false =>
      obtain ⟨w,chosen⟩ := indexChosen base (script e) u
      rw [null,null',chosen,indexPlain] at same
      exact absurd (List.cons.inj same).2.symm (choiceApart fit' v w)
  | false =>
    cases null' : e'.isNull with
    | true =>
      obtain ⟨w,chosen⟩ := indexChosen base (script e') v
      rw [null,null',chosen,indexPlain] at same
      exact absurd (List.cons.inj same).2 (choiceApart fit u w)
    | false =>
      rw [null,null',indexPlain,indexPlain] at same
      obtain ⟨form,behind⟩ := apart e' _ _ fit' (stopsCons (by decide) u) (stopsCons (by decide) v) (List.cons.inj same).2
      obtain rfl := (List.cons.inj behind).2
      have text : script e = script e' := List.append_cancel_right (List.cons.inj same).2
      exact ⟨form,by rw [text],rfl⟩

theorem chainApart {es es'} (each : ∀ e ∈ es, Apart e) (fits : ∀ e ∈ es, e.Fit) (fits' : ∀ e ∈ es', e.Fit)
    (base : List Char) {u v} (stops : Stops enders u) (stops' : Stops enders v)
    (same : chainScript base es ++ u = chainScript base es' ++ v) :
    allBare (allRegrouped es) = allBare (allRegrouped es') ∧ u = v := by
  induction es generalizing es' base with
  | nil =>
    cases es' with
    | nil => exact ⟨rfl,same⟩
    | cons e' es' =>
      obtain ⟨t,begins⟩ := indexBegins base e'.isNull (script e')
      rw [chainScript,chainScript,begins] at same
      exact absurd (stops _ _ same) (by decide)
  | cons e es ih =>
    obtain ⟨first,rest⟩ := List.forall_mem_cons.mp each
    obtain ⟨fit,fits⟩ := List.forall_mem_cons.mp fits
    cases es' with
    | nil =>
      obtain ⟨t,begins⟩ := indexBegins base e.isNull (script e)
      rw [chainScript,chainScript,begins] at same
      exact absurd (stops' _ _ same.symm) (by decide)
    | cons e' es' =>
      obtain ⟨fit',fits'⟩ := List.forall_mem_cons.mp fits'
      rw [chainScript,chainScript,List.append_assoc,List.append_assoc] at same
      obtain ⟨form,index,behind⟩ := indexApart first fit fit' base _ _ same
      rw [index] at behind
      obtain ⟨forms,behind⟩ := ih rest fits fits' _ behind
      exact ⟨by rw [allRegrouped,allRegrouped,allBare,allBare,form,forms],behind⟩

theorem numberNoName {n : Nat} {name} (wordlike : Wordlike name) : (toString n).toList ≠ name.toList :=
  fun same => wordlike.noNumber n (same ▸ List.infix_rfl)

theorem chainUncalled {base u t : List Char} {es : List Expr} (stops : Stops enders u) :
    chainScript base es ++ u ≠ '(' :: t := by
  intro same
  have begins := stopsAppend (stopsMono (by decide : ['['] ⊆ '[' :: enders) (chainStops base es))
    (stopsMono (List.subset_cons_self _ _) stops) _ _ same
  exact absurd begins (by decide)

theorem wordsApart {a b : Expr} {w w' r r'} (worded : Worded a w r) (worded' : Worded b w' r') (fit : a.Fit)
    (fit' : b.Fit) (kids : ∀ e, .expr e ∈ (Tree.expr a).children → Apart e) {u v} (stops : Stops enders u)
    (stops' : Stops enders v) (same : script a ++ u = script b ++ v) : a.regrouped.bare = b.regrouped.bare ∧ u = v := by
  obtain ⟨text,chars,_,after⟩ := wordedText worded fit
  obtain ⟨text',chars',_,after'⟩ := wordedText worded' fit'
  rw [text,text',List.append_assoc,List.append_assoc] at same
  obtain ⟨word,behind⟩ := runsApart chars chars' (by decide +kernel : ('[' :: '(' :: enders).all (!isNameChar ·))
    (stopsAppend (stopsMono (by decide) after) (stopsMono (by decide) stops))
    (stopsAppend (stopsMono (by decide) after') (stopsMono (by decide) stops')) same
  cases worded with
  | int span n =>
    cases worded' with
    | int span' n' =>
      obtain rfl := numeralsInjective word
      exact ⟨rfl,behind⟩
    | null span' => exact absurd word (numberNoName nullWordlike)
    | var span' name es => exact absurd word (numberNoName (fitVar fit').1.1)
    | call span' name es => exact absurd word (numberNoName (fitCall fit').1.1)
  | null span =>
    cases worded' with
    | int span' n' => exact absurd word.symm (numberNoName nullWordlike)
    | null span' => exact ⟨rfl,behind⟩
    | var span' name es => exact absurd (String.toList_inj.mp word).symm (fitVar fit').1.2
    | call span' name es => exact absurd (String.toList_inj.mp word).symm (fitCall fit').1.2
  | var span name es =>
    obtain ⟨⟨wordlike,other⟩,fits⟩ := fitVar fit
    cases worded' with
    | int span' n' => exact absurd word.symm (numberNoName wordlike)
    | null span' => exact absurd (String.toList_inj.mp word) other
    | var span' name' es' =>
      obtain rfl := String.toList_inj.mp word
      have each : ∀ e ∈ es, Apart e := fun e there => kids e (List.mem_map_of_mem there)
      obtain ⟨forms,behind⟩ := chainApart each fits (fitVar fit').2 _ stops stops' behind
      exact ⟨by rw [Expr.regrouped,Expr.regrouped,Place.regrouped,Place.regrouped,Expr.bare,Expr.bare,Place.bare,Place.bare,forms],
        behind⟩
    | call span' name' es' => exact absurd behind (chainUncalled stops)
  | call span name es =>
    obtain ⟨⟨wordlike,other⟩,fits⟩ := fitCall fit
    cases worded' with
    | int span' n' => exact absurd word.symm (numberNoName wordlike)
    | null span' => exact absurd (String.toList_inj.mp word) other
    | var span' name' es' => exact absurd behind.symm (chainUncalled stops')
    | call span' name' es' =>
      obtain rfl := String.toList_inj.mp word
      have each : ∀ e ∈ es, Apart e := fun e there => kids e (List.mem_map_of_mem there)
      rw [List.cons_append,List.cons_append,List.append_assoc,List.append_assoc] at behind
      obtain ⟨forms,behind⟩ := listApart each fits (fitCall fit').2 (by decide) (by decide) (List.cons.inj behind).2
      exact ⟨by rw [Expr.regrouped,Expr.regrouped,Expr.bare,Expr.bare,forms],behind⟩

theorem atomsApart {a b : Expr} (atom : isAtom a) (atom' : isAtom b) (fit : a.Fit) (fit' : b.Fit)
    (kids : ∀ e, .expr e ∈ (Tree.expr a).children → Apart e) {u v} (stops : Stops enders u) (stops' : Stops enders v)
    (same : script a ++ u = script b ++ v) : a.regrouped.bare = b.regrouped.bare ∧ u = v := by
  have kinds : kind a = kind b := by rw [← initialAtom atom fit u,same,initialAtom atom' fit' v]
  rcases kindCases atom fit with ⟨first,w,r,worded⟩ | ⟨first,span,s,rfl⟩ | ⟨first,span,s,i,rfl⟩ | ⟨first,span,es,rfl⟩ <;>
    rcases kindCases atom' fit' with ⟨second,w',r',worded'⟩ | ⟨second,span',s',rfl⟩ | ⟨second,span',s',i',rfl⟩ |
      ⟨second,span',es',rfl⟩ <;> first | (exfalso; omega) | skip
  · exact wordsApart worded worded' fit fit' kids stops stops' same
  · rw [script,script] at same
    obtain ⟨rfl,behind⟩ := quotesApart same
    exact ⟨rfl,behind⟩
  · have last : "].codePointAt(0)".toList = ']' :: ".codePointAt(0)".toList := by decide
    simp only [script,List.append_assoc,last,List.cons_append] at same
    obtain ⟨rfl,number⟩ := quotesApart (List.append_cancel_left same)
    obtain ⟨digits,behind⟩ := runsApart (digitChars i) (digitChars i') (by decide +kernel : [']'].all (!isNameChar ·))
      (stopsCons List.mem_cons_self _) (stopsCons List.mem_cons_self _) (List.append_cancel_left number)
    obtain rfl := numeralsInjective digits
    exact ⟨rfl,List.append_cancel_left (List.cons.inj behind).2⟩
  · have each : ∀ e ∈ es, Apart e := fun e there => kids e (List.mem_map_of_mem there)
    rw [script,script,List.cons_append,List.cons_append,List.append_assoc,List.append_assoc] at same
    obtain ⟨forms,behind⟩ := listApart each (fitSeq fit) (fitSeq fit') (by decide) (by decide) (List.cons.inj same).2
    exact ⟨by rw [Expr.regrouped,Expr.regrouped,Expr.bare,Expr.bare,forms],behind⟩

theorem kidsOf {a e} (kid : .expr e ∈ (Tree.expr a).children) (fit : a.Fit) : sizeOf e < sizeOf a ∧ e.Fit := by
  cases a with
  | seq span es =>
    obtain ⟨_,there,⟨⟩⟩ := List.mem_map.mp kid
    have small := List.sizeOf_lt_of_mem there
    exact ⟨by simp only [Expr.seq.sizeOf_spec]; omega,fitSeq fit e there⟩
  | var p =>
    obtain ⟨span,name,es⟩ := p
    obtain ⟨_,there,⟨⟩⟩ := List.mem_map.mp kid
    have small : sizeOf e < sizeOf es := List.sizeOf_lt_of_mem there
    exact ⟨by simp only [Expr.var.sizeOf_spec,Place.mk.sizeOf_spec]; omega,(fitVar fit).2 e there⟩
  | call span name es =>
    obtain ⟨_,there,⟨⟩⟩ := List.mem_map.mp kid
    have small := List.sizeOf_lt_of_mem there
    exact ⟨by simp only [Expr.call.sizeOf_spec]; omega,(fitCall fit).2 e there⟩
  | fn span params body => exact absurd fit.simple Bool.false_ne_true
  | neg span e' =>
    obtain ⟨⟩ := List.mem_singleton.mp kid
    exact ⟨by simp only [Expr.neg.sizeOf_spec]; omega,fitNeg fit⟩
  | len span e' =>
    obtain ⟨⟩ := List.mem_singleton.mp kid
    exact ⟨by simp only [Expr.len.sizeOf_spec]; omega,fitLen fit⟩
  | _ => exact absurd kid List.not_mem_nil

theorem atomUnsigned {a : Expr} (atom : isAtom a) (fit : a.Fit) {c : Char}
    (sign : c = '-' ∨ c = '(') (u t : List Char) : script a ++ u ≠ c :: t := by
  intro same
  have first := initialAtom atom fit u
  have none : initial (c :: t) = 4 := by
    have plain : isNameChar '-' = false ∧ isNameChar '(' = false := by decide +kernel
    rcases sign with rfl | rfl
    · rw [initial,plain.1]
      rfl
    · rw [initial,plain.2]
      rfl
  rw [same,none] at first
  rcases kindCases atom fit with ⟨kind,_⟩ | ⟨kind,_⟩ | ⟨kind,_⟩ | ⟨kind,_⟩ <;> omega

theorem apart (x : Expr) (fit : x.Fit) : Apart x := by
  intro y u v fit' stops stops' same
  have operands {a b : Expr} {k j : Nat} (atom : isAtom a) (atom' : isAtom b) (fitA : a.Fit) (fitB : b.Fit)
      (small : sizeOf a ≤ sizeOf x) (same : script a ++ (tails k ++ u) = script b ++ (tails j ++ v)) :
      lens k a.regrouped.bare = lens j b.regrouped.bare ∧ u = v := by
    have kids (e : Expr) (kid : .expr e ∈ (Tree.expr a).children) : Apart e := by
      have smaller := (kidsOf kid fitA).1
      exact apart e (kidsOf kid fitA).2
    obtain ⟨form,behind⟩ := atomsApart atom atom' fitA fitB kids (tailsStop k stops) (tailsStop j stops') same
    obtain ⟨rfl,rest⟩ := tailsApart stops stops' behind
    exact ⟨by rw [form],rest⟩
  cases shape x fit with
  | plain a k atom fitA small none text form =>
    rw [text,List.append_assoc] at same
    cases shape y fit' with
    | plain b j atom' fitB small' none' text' form' =>
      rw [text',List.append_assoc] at same
      rw [form,form']
      exact operands atom atom' fitA fitB small same
    | minus b j atom' fitB small' leads' text' form' =>
      rw [text',List.cons_append] at same
      exact absurd same (atomUnsigned atom fitA (.inl rfl) _ _)
    | wrapped b j fitB small' inner' leads' text' form' =>
      rw [text',List.cons_append] at same
      exact absurd same (atomUnsigned atom fitA (.inl rfl) _ _)
  | minus a k atom fitA small leads text form =>
    rw [text,List.cons_append,List.append_assoc] at same
    cases shape y fit' with
    | plain b j atom' fitB small' none' text' form' =>
      rw [text',List.append_assoc] at same
      exact absurd same.symm (atomUnsigned atom' fitB (.inl rfl) _ _)
    | minus b j atom' fitB small' leads' text' form' =>
      rw [text',List.cons_append,List.append_assoc] at same
      obtain ⟨forms,behind⟩ := operands atom atom' fitA fitB small (List.cons.inj same).2
      exact ⟨by rw [form,form',forms],behind⟩
    | wrapped b j fitB small' inner' leads' text' form' =>
      rw [text',List.cons_append,List.cons_append] at same
      exact absurd (List.cons.inj same).2 (atomUnsigned atom fitA (.inr rfl) _ _)
  | wrapped a k fitA small inner leads text form =>
    rw [text,List.cons_append,List.cons_append,List.append_assoc,List.cons_append] at same
    cases shape y fit' with
    | plain b j atom' fitB small' none' text' form' =>
      rw [text',List.append_assoc] at same
      exact absurd same.symm (atomUnsigned atom' fitB (.inl rfl) _ _)
    | minus b j atom' fitB small' leads' text' form' =>
      rw [text',List.cons_append,List.append_assoc] at same
      exact absurd (List.cons.inj same).2.symm (atomUnsigned atom' fitB (.inr rfl) _ _)
    | wrapped b j fitB small' inner' leads' text' form' =>
      rw [text',List.cons_append,List.cons_append,List.append_assoc,List.cons_append] at same
      obtain ⟨forms,behind⟩ := apart a fitA b _ _ fitB (stopsCons (by decide) _) (stopsCons (by decide) _)
        (List.cons.inj (List.cons.inj same).2).2
      obtain ⟨rfl,rest⟩ := tailsApart stops stops' (List.cons.inj behind).2
      exact ⟨by rw [form,form',forms],rest⟩
termination_by sizeOf x
decreasing_by
  · omega
  · omega

theorem writtenAlike {x y} (fit : x.Fit) (fit' : y.Fit) : script x = script y ↔ x.regrouped.bare = y.regrouped.bare := by
  refine ⟨fun same => ?_,fun same => ?_⟩
  · exact (apart x fit y [] [] fit' (stopsNil _) (stopsNil _) (by rw [same])).1
  · rw [← scriptRegrouped x,← scriptBare,same,scriptBare,scriptRegrouped]

end Emit.Braced

/-! Expressions of a program -/

namespace Tree

inductive Within (m : Tree) : Tree → Prop where
  | here : Within m m
  | under {n k} (kid : k ∈ n.children) (within : Within m k) : Within m n

theorem leavesOfChild {n m : Tree} (kid : m ∈ n.children) : m.leaves ⊆ n.leaves := by
  rw [leavesSplit n]
  exact fun l there => List.mem_append_right _ (List.mem_flatMap.mpr ⟨m,kid,there⟩)

theorem leavesWithin {n m : Tree} (within : Within m n) : m.leaves ⊆ n.leaves := by
  induction within with
  | here => exact List.Subset.refl _
  | under kid _ ih => exact List.Subset.trans ih (leavesOfChild kid)

def Wrapped (n : Tree) : Prop := ∀ span place e, n = .expr (.len span (.neg place e)) → e.leads

end Tree

def Parse.Holds (p : Parse) (e : Expr) : Prop := ∃ s ∈ p.program.body, Tree.Within (.expr e) (.stmt s)

theorem wordlikeParameter (name : Text) (named : isIdentifier name) : Wordlike (Text.toString name) := by
  simp only [isIdentifier,Bool.and_eq_true,decide_eq_true_eq] at named
  obtain ⟨⟨some,same⟩,_⟩ := named
  have wordlike := Cursor.wordlikeRead (Cursor.start (Text.normalize name))
  generalize (Cursor.start (Text.normalize name)).readIdentifier.1 = read at *
  have back : Text.toString name = read := by
    rw [← same,Text.toString,Text.ofString,List.map_map]
    exact (congrArg String.ofList (List.map_id _)).trans String.ofList_toList
  rw [back]
  refine wordlike fun empty => some ?_
  rw [← same,empty]
  rfl

theorem Parse.namesWordy (recover : Bool) (source : Text) :
    Bears Leaf.Wordy (bodyLeaves (ofNormal recover source).program.body) := by
  refine programBears ⟨fun c name next found => ?_,wordlikeParameter,Phrases.quotedBears fun _ _ _ => trivial⟩ recover source
  exact ⟨Phrases.wordlikeIdentifier c name next found,Phrases.wordlikeIdentifier c name next found⟩

theorem Parse.fitOfHolds {recover source e} (there : (ofNormal recover source).Holds e)
    (simple : e.isSimple) : e.Fit := by
  obtain ⟨s,inside,within⟩ := there
  refine ⟨simple,fun l leaf => Parse.namesWordy recover source l ?_⟩
  rw [Tree.bodyLeavesFlat]
  exact List.mem_flatMap.mpr ⟨_,List.mem_map_of_mem inside,Tree.leavesWithin within leaf⟩

/-! Expressions whose lengths stay where they are -/

theorem regroupedAll {es} (each : ∀ e ∈ es, e.regrouped = e) : allRegrouped es = es := by
  induction es with
  | nil => rfl
  | cons e es ih =>
    obtain ⟨first,rest⟩ := List.forall_mem_cons.mp each
    rw [allRegrouped,first,ih rest]

theorem regroupedWrapped (e : Expr) (wrapped : Tree.All Tree.Wrapped (.expr e)) : e.regrouped = e := by
  have each {es : List Expr} (kids : ∀ m ∈ es.map Tree.expr, Tree.All Tree.Wrapped m) (smaller : sizeOf es < sizeOf e) :
      allRegrouped es = es := by
    refine regroupedAll fun kid there => ?_
    have small := List.sizeOf_lt_of_mem there
    exact regroupedWrapped kid (kids _ (List.mem_map_of_mem there))
  cases e with
  | seq span es => rw [Expr.regrouped,each wrapped.under (by simp only [Expr.seq.sizeOf_spec]; omega)]
  | var p =>
    obtain ⟨span,name,es⟩ := p
    have same : allRegrouped es = es :=
      each wrapped.under (by simp only [Expr.var.sizeOf_spec,Place.mk.sizeOf_spec]; omega)
    rw [Expr.regrouped,Place.regrouped,same]
  | call span name es => rw [Expr.regrouped,each wrapped.under (by simp only [Expr.call.sizeOf_spec]; omega)]
  | neg span e => rw [Expr.regrouped,regroupedWrapped e (wrapped.under _ List.mem_cons_self)]
  | len span e =>
    rw [Expr.regrouped,regroupedWrapped e (wrapped.under _ List.mem_cons_self)]
    cases e with
    | neg place e => rw [Expr.lengthened,wrapped.here _ _ _ rfl,if_pos rfl]
    | _ => rfl
  | _ => rfl
termination_by sizeOf e

namespace Emit.Braced

theorem groupingIsKeptButForLengths (recover recover' : Bool) (s t : Text) (x y : Expr)
    (there : (Parse.ofNormal recover s).Holds x) (there' : (Parse.ofNormal recover' t).Holds y)
    (simple : x.isSimple) (simple' : y.isSimple) (base level depth base' level' depth' : Nat) :
    (render base (expr level depth x) = render base' (expr level' depth' y) ↔ x.regrouped.bare = y.regrouped.bare) ∧
    (Tree.All Tree.Wrapped (.expr x) → Tree.All Tree.Wrapped (.expr y) →
      (render base (expr level depth x) = render base' (expr level' depth' y) ↔ x.bare = y.bare)) := by
  have fit := Parse.fitOfHolds there simple
  have fit' := Parse.fitOfHolds there' simple'
  have alike : render base (expr level depth x) = render base' (expr level' depth' y) ↔ x.regrouped.bare = y.regrouped.bare := by
    rw [← String.toList_inj,renderInked,renderInked,inkedScript fit,inkedScript fit']
    exact writtenAlike fit fit'
  refine ⟨alike,fun wrapped wrapped' => ?_⟩
  rw [alike,regroupedWrapped x wrapped,regroupedWrapped y wrapped']

theorem listsWithLengthsAreWrittenAlike : ∃ x y : Expr,
    (Parse.strict (Text.ofString "y = [f(1), |-表[?]|]")).Holds x ∧
    (Parse.strict (Text.ofString "[f(1), -|表[?]|]が答え")).Holds y ∧
    x.isSimple ∧ y.isSimple ∧ x.bare ≠ y.bare ∧ render 0 (expr 1 0 x) = render 2 (expr 0 0 y) := by
  have first : (Parse.strict (Text.ofString "y = [f(1), |-表[?]|]")).program.body =
      [.assign ⟨0,21⟩ (.mk ⟨0,1⟩ "y" []) (.seq ⟨4,21⟩ [.call ⟨5,9⟩ "f" [.int ⟨7,8⟩ 1],
        .len ⟨11,20⟩ (.neg ⟨12,19⟩ (.var (.mk ⟨13,19⟩ "表" [.null ⟨17,18⟩])))])] := by cbv
  have second : (Parse.strict (Text.ofString "[f(1), -|表[?]|]が答え")).program.body =
      [.answer ⟨0,26⟩ (.seq ⟨0,17⟩ [.call ⟨1,5⟩ "f" [.int ⟨3,4⟩ 1],
        .neg ⟨7,16⟩ (.len ⟨8,16⟩ (.var (.mk ⟨9,15⟩ "表" [.null ⟨13,14⟩])))])] := by cbv
  let x : Expr := .seq ⟨4,21⟩ [.call ⟨5,9⟩ "f" [.int ⟨7,8⟩ 1],
    .len ⟨11,20⟩ (.neg ⟨12,19⟩ (.var (.mk ⟨13,19⟩ "表" [.null ⟨17,18⟩])))]
  let y : Expr := .seq ⟨0,17⟩ [.call ⟨1,5⟩ "f" [.int ⟨3,4⟩ 1],
    .neg ⟨7,16⟩ (.len ⟨8,16⟩ (.var (.mk ⟨9,15⟩ "表" [.null ⟨13,14⟩])))]
  have there : (Parse.strict (Text.ofString "y = [f(1), |-表[?]|]")).Holds x :=
    ⟨_,first ▸ List.mem_cons_self,.under (List.mem_cons_of_mem _ List.mem_cons_self) .here⟩
  have there' : (Parse.strict (Text.ofString "[f(1), -|表[?]|]が答え")).Holds y :=
    ⟨_,second ▸ List.mem_cons_self,.under List.mem_cons_self .here⟩
  have alike := (groupingIsKeptButForLengths false false _ _ x y there there' rfl rfl 0 1 0 2 0 0).1
  exact ⟨x,y,there,there',rfl,rfl,(fun same => by cases same),alike.mpr rfl⟩

theorem lengthOfNegationIsNotToldApart :
    Dialect.translate .braced 0 (Text.ofString "|-x|\n-|x|") =
      .ok "console.log(-x.length);\nconsole.log(-x.length);\n" ∧
    bodyBare (Parse.strict (Text.ofString "|-x|\n-|x|")).program.body =
      [.observe nowhere (.len nowhere (.neg nowhere (.var (.mk nowhere "x" [])))),
       .observe nowhere (.neg nowhere (.len nowhere (.var (.mk nowhere "x" []))))] := by
  refine ⟨?_,by cbv⟩
  exact (Dialect.translateFine .braced 0 (by decide +kernel)).trans (congrArg Except.ok (by decide +kernel))

end Emit.Braced

end Terakoya
