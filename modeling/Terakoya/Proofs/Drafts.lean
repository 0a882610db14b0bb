import Terakoya.Proofs.OutputText

/-! What a draft in the dialect of indented blocks does to a sheet, step by step. Texts are put together from the leaves of
a program and from texts that were made before them, and they go into lines. Whatever holds of sheets through all of a
draft is shown of these steps. -/
namespace Terakoya.Emit.Indented

open Brackets

def hoistedName (k : Nat) : String := (Coined.hoisted k).name

/-! Texts around others -/

/-- Pieces that other texts may be put behind: brackets match around them, no name runs on at an end of them, the first does
not begin with a blank, none ends with a colon, and none has the name of a hoisted function. -/
def isFrame (ps : List String) : Bool :=
  opened [] ps == some [] &&
    ((ps.all fun p => (isInline p.toList && Closes p.toList) && (p.toList.getLast? != some ':' &&
      (wordsOf p.toList).all fun w => !"_lambda".toList.isPrefixOf w)) &&
    ((ps.tail.all fun p => Opens p.toList && !p.toList.isEmpty) && ps.head?.all fun p => p.toList.head? != some ' '))

def isFilled : List String → List (List Char) → Bool
  | [],_ => false
  | p :: ps,xs => (p != "" || !xs.isEmpty) && Nat.ble xs.length (ps.length + 1)

section Frames

variable {ps : List String} {xs : List (List Char)} {x w : List Char}

theorem opensWeave (opens : ∀ p ∈ ps, Opens p.toList ∧ p.toList ≠ []) (xs : List (List Char)) : Opens (weave ps xs) := by
  cases ps with
  | nil => rfl
  | cons p ps =>
    obtain ⟨first,some⟩ := opens p List.mem_cons_self
    exact opensOver first some _

theorem wordsWeave (closes : ∀ p ∈ ps, Closes p.toList) (opens : ∀ p ∈ ps.tail, Opens p.toList ∧ p.toList ≠ [])
    (there : w ∈ wordsOf (weave ps xs)) : (∃ p ∈ ps, w ∈ wordsOf p.toList) ∨ ∃ x ∈ xs, w ∈ wordsOf x := by
  induction ps generalizing xs with
  | nil =>
    rw [weave,wordsNil] at there
    exact absurd there List.not_mem_nil
  | cons p ps ih =>
    obtain ⟨first,rest⟩ := List.forall_mem_cons.mp closes
    have behind (ys : List (List Char)) : Opens (weave ps ys) := opensWeave opens ys
    rw [weave,wordsAppend (.inl first),wordsAppend (.inr (behind _)),List.mem_append,List.mem_append] at there
    rcases there with there | there | there
    · exact .inl ⟨p,List.mem_cons_self,there⟩
    · cases xs with
      | nil => exact absurd there (by simp [wordsNil])
      | cons x xs => exact .inr ⟨x,List.mem_cons_self,there⟩
    · rcases ih rest (fun q among => opens q (List.mem_of_mem_tail among)) there with ⟨q,among,there⟩ | ⟨x,among,there⟩
      · exact .inl ⟨q,List.mem_cons_of_mem _ among,there⟩
      · exact .inr ⟨x,List.mem_of_mem_tail among,there⟩

theorem standsWeave (closes : ∀ p ∈ ps, Closes p.toList) (opens : ∀ p ∈ ps.tail, Opens p.toList ∧ p.toList ≠ [])
    (short : xs.length ≤ ps.length) (there : x ∈ xs) :
    ∃ a b, weave ps xs = a ++ (x ++ b) ∧ Closes a ∧ Opens b ∧ ((∀ p ∈ ps.head?, p.toList ≠ []) → a ≠ []) := by
  induction ps generalizing xs with
  | nil => exact absurd there (by simp [List.length_eq_zero_iff.mp (Nat.le_zero.mp short)])
  | cons p ps ih =>
    obtain ⟨first,rest⟩ := List.forall_mem_cons.mp closes
    obtain ⟨y,ys,rfl⟩ := List.exists_cons_of_ne_nil (List.ne_nil_of_mem there)
    rcases List.mem_cons.mp there with rfl | later
    · exact ⟨p.toList,weave ps ys,rfl,first,opensWeave opens _,fun some => some p rfl⟩
    · obtain ⟨a,b,shape,closes',opens',some⟩ := ih rest (fun q among => opens q (List.mem_of_mem_tail among))
        (by simpa using short) later
      have filled : a ≠ [] := some fun q among => (opens q (List.mem_of_mem_head? among)).2
      refine ⟨p.toList ++ (y ++ a),b,?_,?_,opens',fun _ => ?_⟩
      · simp only [weave,List.headD_cons,List.tail_cons,shape,List.append_assoc]
      · rw [← List.append_assoc]
        exact closesOver closes' filled _
      · exact List.append_ne_nil_of_right_ne_nil _ (List.append_ne_nil_of_right_ne_nil _ filled)

theorem inlineWeave (pieces : ∀ p ∈ ps, isInline p.toList) (each : ∀ x ∈ xs, isInline x) : isInline (weave ps xs) := by
  induction ps generalizing xs with
  | nil => rfl
  | cons p ps ih =>
    obtain ⟨first,rest⟩ := List.forall_mem_cons.mp pieces
    exact inlineAppend first (inlineAppend (headHolds each rfl) (ih rest fun x there => each x (List.mem_of_mem_tail there)))

theorem colonAppend {x y : List Char} (first : x.getLast? ≠ some ':') (second : y.getLast? ≠ some ':') :
    (x ++ y).getLast? ≠ some ':' := by
  rw [List.getLast?_append]
  cases last : y.getLast? with
  | none => exact first
  | some c => rwa [last] at second

theorem colonWeave (pieces : ∀ p ∈ ps, p.toList.getLast? ≠ some ':') (each : ∀ x ∈ xs, x.getLast? ≠ some ':') :
    (weave ps xs).getLast? ≠ some ':' := by
  induction ps generalizing xs with
  | nil => simp [weave]
  | cons p ps ih =>
    obtain ⟨first,rest⟩ := List.forall_mem_cons.mp pieces
    exact colonAppend first (colonAppend (headHolds each (by simp)) (ih rest fun x there => each x (List.mem_of_mem_tail there)))

structure Frame (ps : List String) : Prop where
  matched : opened [] ps = some []
  inline : ∀ p ∈ ps, isInline p.toList
  closes : ∀ p ∈ ps, Closes p.toList
  colon : ∀ p ∈ ps, p.toList.getLast? ≠ some ':'
  foreign : ∀ p ∈ ps, ∀ w ∈ wordsOf p.toList, ¬ "_lambda".toList <+: w
  opens : ∀ p ∈ ps.tail, Opens p.toList ∧ p.toList ≠ []
  flush : ∀ p ∈ ps.head?, p.toList.head? ≠ some ' '

theorem frameChecked (fits : isFrame ps) : Frame ps := by
  simp only [isFrame,Bool.and_eq_true,List.all_eq_true,Option.all_eq_true,beq_iff_eq,bne_iff_ne,ne_eq,Bool.not_eq_true',
    List.isEmpty_eq_false_iff] at fits
  obtain ⟨matched,pieces,opens,flush⟩ := fits
  refine ⟨matched,fun p there => (pieces p there).1.1,fun p there => (pieces p there).1.2,fun p there => (pieces p there).2.1,
    fun p there w among stem => ?_,opens,flush⟩
  have other := (pieces p there).2.2 w among
  rw [List.isPrefixOf_iff_prefix.mpr stem] at other
  contradiction

theorem tidyWeave (frame : Frame ps) (filled : isFilled ps xs) (each : ∀ x ∈ xs, isTidy x) : isTidy (weave ps xs) := by
  have inline := inlineWeave frame.inline fun x there => flushInline (tidyFlush (each x there))
  have colon := colonWeave frame.colon fun x there => tidyColon (each x there)
  have begins : ∃ c cs, weave ps xs = c :: cs ∧ c ≠ ' ' := by
    cases ps with
    | nil => contradiction
    | cons p ps =>
      cases piece : p.toList with
      | cons c cs =>
        refine ⟨c,cs ++ (xs.headD [] ++ weave ps xs.tail),by rw [weave,piece,List.cons_append],fun blank => ?_⟩
        exact frame.flush p rfl (by rw [piece,blank,List.head?_cons])
      | nil =>
        cases xs with
        | nil =>
          obtain rfl : p = "" := String.toList_eq_nil_iff.mp piece
          contradiction
        | cons x xs =>
          have flush := (Bool.and_eq_true_iff.mp (tidyFlush (each x List.mem_cons_self))).2
          cases x with
          | nil => contradiction
          | cons c cs => exact ⟨c,cs ++ weave ps xs,by rw [weave,piece]; rfl,by simpa using flush⟩
  obtain ⟨c,cs,shape,other⟩ := begins
  refine Bool.and_eq_true_iff.mpr ⟨Bool.and_eq_true_iff.mpr ⟨inline,by simpa [shape] using other⟩,?_⟩
  obtain ⟨d,last⟩ : ∃ d, (weave ps xs).getLast? = some d := by simp [shape,List.getLast?_cons]
  rw [last] at colon ⊢
  simpa using colon

end Frames

def isMarked (cs : List Char) : Bool := cs.any fun c => !"import random".toList.contains c

/-! What a draft can do -/

section Works

variable (leaves : List Leaf)

inductive Woven (texts : List (List Char)) : List Char → Prop where
  | held {x} (there : x ∈ texts) : Woven texts x
  | leaf {l} (there : l ∈ leaves) : Woven texts l.written
  | number (n : Nat) : Woven texts (toString n).toList
  | own {s} (known : s ∈ Dialect.vocabulary .indented) : Woven texts s.toList
  | framed {ps xs} (fits : isFrame ps) (filled : isFilled ps xs)
      (each : ∀ x ∈ xs, Woven texts x) : Woven texts (weave ps xs)

structure Carries (texts : List (List Char)) (t : String) : Prop where
  woven : Woven leaves texts t.toList
  inside : ∀ x ∈ texts, StandsIn x t.toList

inductive Announced : List (List Char) → String → Prop where
  | other {texts t} (carries : Carries leaves texts t) (first : t.toList.head? ≠ some 'd') :
      Announced texts (t ++ ":")
  | named {name params} (there : .name name ∈ leaves) (each : ∀ p ∈ params, .name p ∈ leaves) :
      Announced [] (definition name params)

/-- The steps of a draft at a level, with the texts that are there before and after them. -/
inductive Works : Nat → List (List Char) → Sheet → List (List Char) → Sheet → Prop where
  | texts {level before after s} (each : ∀ x ∈ after, Woven leaves before x)
      (kept : ∀ x ∈ before, ∃ y ∈ after, StandsIn x y) : Works level before s after s
  | line {level before s text} (carries : Carries leaves before text)
      (marked : isMarked text.toList) : Works level before s [] (write level text s).2
  | block {level before s s' head} (announced : Announced leaves before head)
      (inner : Works (level + 1) [] (write level head s).2 [] s') (some : (write level head s).2.lines.size < s'.lines.size) :
      Works level before s [] s'
  | hoist {level s t s' params} (each : ∀ p ∈ params, .name p ∈ leaves)
      (defined : t = (write level (definition (hoistedName (s.lambdas + 1)) params) { s with lambdas := s.lambdas + 1 }).2)
      (inner : Works (level + 1) [] t [] s') (some : t.lines.size < s'.lines.size) :
      Works level [] s [(hoistedName (s.lambdas + 1)).toList] s'
  | random {level texts s} : Works level texts s texts { s with usesRandom := true }
  | beside {level before after s s'} (inner : Works level [] s after s') :
      Works level before s (before ++ after) s'
  | trans {level before between after s s' s''} (first : Works level before s between s')
      (second : Works level between s' after s'') : Works level before s after s''

variable {α : Type}

def Makes (level : Nat) (before : List (List Char)) (shown : α → List (List Char)) (r : Draft α) : Prop :=
  ∀ s, Works leaves level before s (shown (r s).1) (r s).2

abbrev Offers (level : Nat) (before : List (List Char)) (r : Draft String) : Prop :=
  Makes leaves level before (fun t => [t.toList]) r

def Ends (level : Nat) (before : List (List Char)) (r : Draft Unit) : Prop :=
  ∀ s, Works leaves level before s [] (r s).2 ∧ s.lines.size < (r s).2.lines.size

end Works

section Makes

variable {leaves : List Leaf} {α β : Type} {level : Nat} {before : List (List Char)} {shown : α → List (List Char)}
  {shown' : β → List (List Char)} {t : String}

theorem linesWritten (level : Nat) (text : String) (s : Sheet) :
    (write level text s).2.lines.toList = s.lines.toList ++ [⟨level,text⟩] := Array.toList_push

theorem sizeWritten (level : Nat) (text : String) (s : Sheet) : (write level text s).2.lines.size = s.lines.size + 1 :=
  Array.size_push _

theorem worksSize {after s s'} (works : Works leaves level before s after s') : s.lines.size ≤ s'.lines.size := by
  induction works with
  | texts each kept => exact le_refl _
  | line carries marked => exact (Nat.le_succ _).trans (sizeWritten _ _ _).ge
  | block announced inner some ih => exact (Nat.le_succ _).trans ((sizeWritten _ _ _).ge.trans ih)
  | hoist each defined inner some ih =>
    subst defined
    exact (Nat.le_succ _).trans ((sizeWritten _ _ _).ge.trans ih)
  | random => exact le_refl _
  | beside inner ih => exact ih
  | trans first second ih ih' => exact ih.trans ih'

theorem carriesNothing (woven : Woven leaves [] t.toList) : Carries leaves [] t := ⟨woven,List.forall_mem_nil _⟩

theorem carriesFrom (ps : List String) (xs : List (List Char)) (each : ∀ x ∈ xs, Woven leaves before x)
    (all : ∀ x ∈ before, ∃ y ∈ xs, StandsIn x y) (shape : t.toList = weave ps xs := by simp [weave])
    (filled : isFilled ps xs := by rfl) (fits : isFrame ps := by decide +kernel) : Carries leaves before t := by
  have frame := frameChecked fits
  refine ⟨shape ▸ .framed fits filled each,fun x there => ?_⟩
  have short : xs.length ≤ ps.length := by
    cases ps with
    | nil => contradiction
    | cons p ps => exact Nat.le_of_ble_eq_true (Bool.and_eq_true_iff.mp filled).2
  obtain ⟨y,among,stands⟩ := all x there
  obtain ⟨a,b,around,closes,opens,_⟩ := standsWeave frame.closes frame.opens short among
  exact standsTrans stands ⟨a,b,shape.trans around,closes,opens⟩

theorem carriesHeld (ps : List String) (shape : t.toList = weave ps before := by simp [weave])
    (filled : isFilled ps before := by rfl) (fits : isFrame ps := by decide +kernel) : Carries leaves before t :=
  carriesFrom ps before (fun _ => .held) (fun x there => ⟨x,there,standsSelf x⟩) shape filled fits

theorem wovenFrom (ps : List String) (xs : List (List Char)) (each : ∀ x ∈ xs, Woven leaves before x)
    (shape : t.toList = weave ps xs := by simp [weave]) (filled : isFilled ps xs := by rfl)
    (fits : isFrame ps := by decide +kernel) : Woven leaves before t.toList := shape ▸ .framed fits filled each

def listed (ts : List String) : List (List Char) := if ts.isEmpty then [] else [(", ".intercalate ts).toList]

theorem wovenListed {ts} (each : ∀ t ∈ ts, Woven leaves before t.toList) : ∀ x ∈ listed ts, Woven leaves before x := by
  cases ts with
  | nil => exact List.forall_mem_nil _
  | cons t ts =>
    refine List.forall_mem_singleton.mpr ?_
    induction ts generalizing t with
    | nil => simpa using each
    | cons u us ih =>
      obtain ⟨first,rest⟩ := List.forall_mem_cons.mp each
      refine wovenFrom ["",", "] [t.toList,(", ".intercalate (u :: us)).toList] ?_ ?_
      · exact List.forall_mem_cons.mpr ⟨first,List.forall_mem_singleton.mpr (ih u rest)⟩
      · rw [String.toList_intercalate,String.toList_intercalate,List.map_cons,List.map_cons,List.intercalate_cons_cons]
        simp [weave]

theorem carriesListed (ps : List String) (front : List (List Char)) {ts}
    (each : ∀ x ∈ front, Woven leaves (ts.map String.toList) x) (shape : t.toList = weave ps (front ++ listed ts))
    (bare : isFilled ps front := by rfl) (filled : ∀ x, isFilled ps (front ++ [x]) := by exact fun _ => rfl)
    (fits : isFrame ps := by decide +kernel) : Carries leaves (ts.map String.toList) t := by
  have items : ∀ x ∈ listed ts, Woven leaves (ts.map String.toList) x :=
    wovenListed fun t there => .held (List.mem_map_of_mem there)
  refine carriesFrom ps _ (List.forall_mem_append.mpr ⟨each,items⟩) (fun x there => ?_) shape ?_ fits
  · obtain ⟨u,among,rfl⟩ := List.mem_map.mp there
    obtain ⟨first,rest,rfl⟩ := List.exists_cons_of_ne_nil (List.ne_nil_of_mem among)
    exact ⟨_,List.mem_append_right _ List.mem_cons_self,standsListed among⟩
  · cases ts with
    | nil => simpa [listed] using bare
    | cons u us => exact filled _

theorem wovenDefinition {name params} (named : Woven leaves before name.toList)
    (each : ∀ p ∈ params, .name p ∈ leaves) : Woven leaves before ("def " ++ name ++ "(" ++ parameters params ++ ")").toList := by
  refine wovenFrom ["def ","(",")"] (name.toList :: listed params) ?_ ?_ ?_
  · exact List.forall_mem_cons.mpr ⟨named,wovenListed fun p there => .leaf (each p there)⟩
  · cases params <;> simp [weave,listed,parameters]
  · cases params <;> rfl

theorem definitionColon (name : String) (params : List String) :
    definition name params = "def " ++ name ++ "(" ++ parameters params ++ ")" ++ ":" := by
  rw [String.append_assoc]
  rfl

theorem makesPure {a} (each : ∀ x ∈ shown a, Woven leaves before x) (kept : ∀ x ∈ before, ∃ y ∈ shown a, StandsIn x y) :
    Makes leaves level before shown (pure a) := fun _ => .texts each kept

theorem makesSame {a} (same : shown a = before) : Makes leaves level before shown (pure a) :=
  makesPure (fun _ there => .held (same ▸ there)) fun x there => ⟨x,same ▸ there,standsSelf x⟩

theorem makesBind {r} {f : α → Draft β} (first : Makes leaves level before shown r)
    (next : ∀ a, Makes leaves level (shown a) shown' (f a)) : Makes leaves level before shown' (r >>= f) :=
  fun s => .trans (first s) (next _ _)

theorem makesBeside {r} (makes : Makes leaves level [] shown r) :
    Makes leaves level before (fun a => before ++ shown a) r := fun s => .beside (makes s)

theorem makesFrom {r} (carries : Carries leaves before t) (makes : Makes leaves level [t.toList] shown r) :
    Makes leaves level before shown r := by
  refine fun s => .trans (.texts (List.forall_mem_singleton.mpr carries.woven) fun x there => ?_) (makes s)
  exact ⟨_,List.mem_cons_self,carries.inside x there⟩

theorem makesRandom {r} (makes : Makes leaves level before shown r) :
    Makes leaves level before shown (noteRandom >>= fun _ => r) := fun _ => .trans .random (makes _)

theorem offersText (carries : Carries leaves before t) : Offers leaves level before (pure t) :=
  makesFrom carries (makesSame rfl)

theorem endsMakes {r} (ends : Ends leaves level before r) : Makes leaves level before (fun _ => []) r :=
  fun s => (ends s).1

theorem endsBind {r} {f : α → Draft Unit} (first : Makes leaves level before shown r)
    (next : ∀ a, Ends leaves level (shown a) (f a)) : Ends leaves level before (r >>= f) :=
  fun s => ⟨.trans (first s) (next _ _).1,(worksSize (first s)).trans_lt (next _ _).2⟩

theorem endsThen {r q} (ends : Ends leaves level before r) (next : Makes leaves level [] (fun _ => []) q) :
    Ends leaves level before (r >>= fun _ => q) :=
  fun s => ⟨.trans (ends s).1 (next _),(ends s).2.trans_le (worksSize (next _))⟩

theorem endsLine (carries : Carries leaves before t) (marked : isMarked t.toList) : Ends leaves level before (write level t) :=
  fun s => ⟨.line carries marked,(Nat.lt_succ_self _).trans_eq (sizeWritten level t s).symm⟩

theorem endsBlock {r} (announced : Announced leaves before t) (inner : Ends leaves (level + 1) [] r) :
    Ends leaves level before (write level t >>= fun _ => r) :=
  fun s => ⟨.block announced (inner _).1 (inner _).2,
    ((Nat.lt_succ_self _).trans_eq (sizeWritten level t s).symm).trans (inner _).2⟩

theorem offersHoisted {params r} (each : ∀ p ∈ params, .name p ∈ leaves)
    (inner : Ends leaves (level + 1) [] r) : Offers leaves level []
      (freshName >>= fun name => write level (definition name params) >>= fun _ => r >>= fun _ => pure name) :=
  fun _ => .hoist each rfl (inner _).1 (inner _).2

theorem markedBy (c : Char) (there : c ∈ t.toList := by simp) (odd : c ∉ "import random".toList := by decide) :
    isMarked t.toList := List.any_eq_true.mpr ⟨c,there,by simpa using odd⟩

theorem carriesPicked (assigned : Bool) (base : String) : Carries leaves [base.toList] (randomPick assigned base) := by
  cases assigned with
  | true =>
    refine carriesFrom ["","[random.randrange(len(","))]"] [base.toList,base.toList] ?_ ?_ (by simp [randomPick,weave])
    · simpa using .held List.mem_cons_self
    · exact List.forall_mem_singleton.mpr ⟨_,List.mem_cons_self,standsSelf _⟩
  | false => exact carriesHeld ["random.choice(",")"] (by simp [randomPick,weave])

theorem carriesLambda {params text} (each : ∀ p ∈ params, .name p ∈ leaves) :
    Carries leaves [text.toList] (lambdaHead params ++ text) := by
  cases params with
  | nil => exact carriesHeld ["lambda: "] (by simp [lambdaHead,weave])
  | cons p ps =>
    refine carriesFrom ["lambda ",": "] (listed (p :: ps) ++ [text.toList]) ?_ ?_ (by simp [lambdaHead,weave,listed,parameters])
    · exact List.forall_mem_append.mpr ⟨wovenListed fun p there => .leaf (each p there),fun _ => .held⟩
    · exact fun x there => ⟨x,List.mem_append_right _ there,standsSelf x⟩

theorem paramsAmong {params : List String} {rest} (inside : Bears (· ∈ leaves) (params.map .name ++ rest)) :
    ∀ p ∈ params, .name p ∈ leaves := fun _ there => inside _ (List.mem_append_left _ (List.mem_map_of_mem there))

end Makes

section Program

variable {leaves : List Leaf}

mutual

theorem offersExpr (level : Nat) (e : Expr) (inside : Bears (· ∈ leaves) e.leaves) : Offers leaves level [] (expr level e) := by
  cases e with
  | int span n => exact offersText (carriesNothing (.number n))
  | null span => exact offersText (carriesNothing (.own (by decide)))
  | text span s index =>
    have quoted : Woven leaves [] (quote s).toList := .leaf (l := .text s index) (inside _ List.mem_cons_self)
    cases index with
    | none => exact offersText (carriesNothing quoted)
    | some i =>
      refine offersText (carriesNothing (wovenFrom ["ord(","[","])"] [(quote s).toList,(toString i).toList] ?_))
      exact List.forall_mem_cons.mpr ⟨quoted,List.forall_mem_singleton.mpr (.number i)⟩
  | seq span items =>
    refine makesBind (makesExprs level items inside) fun texts => offersText (carriesListed ["[","]"] [] (List.forall_mem_nil _) ?_)
    cases texts <;> simp [weave,listed]
  | var p => exact offersPlace level false p inside
  | fn span params body =>
    have named := paramsAmong inside
    have inner : Bears (· ∈ leaves) body.leaves := (List.forall_mem_append.mp inside).2
    have hoisted : Offers leaves level []
        (do
          let name ← freshName
          write level (definition name params)
          block (level + 1) body
          return name) := offersHoisted named (endsBody (level + 1) body inner)
    obtain ⟨place,body⟩ := body
    rcases body with _ | ⟨s,_ | ⟨s',rest⟩⟩
    · exact hoisted
    · cases s with
      | answer span value =>
        have bears : Bears (· ∈ leaves) value.leaves := fun l there => inner l (List.mem_append_left _ there)
        simp only [expr]
        split
        · exact makesBind (offersExpr level value bears) fun text => offersText (carriesLambda named)
        · have answer : Ends leaves (level + 1) [] (expr (level + 1) value >>= fun text => write (level + 1) ("return " ++ text)) :=
            endsBind (offersExpr (level + 1) value bears) fun text => endsLine (carriesHeld ["return "]) (markedBy 'u')
          have all := offersHoisted named answer
          simp only [bind_assoc] at all
          exact all
      | _ => exact hoisted
    · cases s <;> exact hoisted
  | call span name args =>
    obtain ⟨called,rest⟩ := List.forall_mem_cons.mp inside
    refine makesBind (makesExprs level args rest) fun texts =>
      offersText (carriesListed ["","(",")"] [name.toList] (List.forall_mem_singleton.mpr (.leaf called)) ?_)
    cases texts <;> simp [weave,listed]
  | neg span e =>
    refine makesBind (offersExpr level e inside) fun operand => offersText ?_
    split
    · exact carriesHeld ["-(",")"]
    · exact carriesHeld ["-"]
  | len span e => exact makesBind (offersExpr level e inside) fun text => offersText (carriesHeld ["len(",")"])

theorem makesExprs (level : Nat) (es : List Expr) (inside : Bears (· ∈ leaves) (allLeaves es)) :
    Makes leaves level [] (fun ts => ts.map String.toList) (exprs level es) := by
  cases es with
  | nil => exact makesSame rfl
  | cons e rest =>
    obtain ⟨first,later⟩ := List.forall_mem_append.mp inside
    exact makesBind (offersExpr level e first) fun text => makesBind (makesBeside (makesExprs level rest later)) fun texts =>
      makesSame rfl

theorem offersPlace (level : Nat) (assigned : Bool) (p : Place) (inside : Bears (· ∈ leaves) p.leaves) :
    Offers leaves level [] (place level assigned p) := by
  obtain ⟨span,name,indices⟩ := p
  obtain ⟨named,rest⟩ := List.forall_mem_cons.mp inside
  exact makesFrom (carriesNothing (.leaf named)) (offersIndexed level assigned name indices rest)

theorem offersIndexed (level : Nat) (assigned : Bool) (base : String) (indices : List Expr)
    (inside : Bears (· ∈ leaves) (allLeaves indices)) : Offers leaves level [base.toList] (indexed level assigned base indices) := by
  cases indices with
  | nil => exact makesSame rfl
  | cons e rest =>
    obtain ⟨first,later⟩ := List.forall_mem_append.mp inside
    rw [indexedCons]
    split
    · exact makesRandom (makesFrom (carriesPicked _ base) (offersIndexed level assigned _ rest later))
    · exact makesBind (makesBeside (offersExpr level e first)) fun index =>
        makesFrom (carriesHeld ["","[","]"]) (offersIndexed level assigned _ rest later)

theorem makesTarget (level : Nat) (base : String) (indices : List Expr) (inside : Bears (· ∈ leaves) (allLeaves indices)) :
    Makes leaves level [base.toList] (fun pair => [pair.1.toList]) (target level base indices) := by
  cases indices with
  | nil => exact makesSame rfl
  | cons e rest =>
    obtain ⟨first,later⟩ := List.forall_mem_append.mp inside
    rw [targetCons]
    split
    · split
      · exact makesSame rfl
      · exact makesRandom (makesFrom (carriesPicked _ base) (makesTarget level _ rest later))
    · exact makesBind (makesBeside (offersExpr level e first)) fun index =>
        makesFrom (carriesHeld ["","[","]"]) (makesTarget level _ rest later)

theorem endsStmt (level : Nat) (s : Stmt) (inside : Bears (· ∈ leaves) s.leaves) : Ends leaves level [] (stmt level s) := by
  have push {base text : String} : Ends leaves level ([base.toList] ++ [text.toList])
      (write level (base ++ ".append(" ++ text ++ ")")) := endsLine (carriesHeld ["",".append(",")"]) (markedBy '(')
  have counts {base text : String} (piece : String) (fits : isFrame ["",piece]) (marked : isMarked text.toList)
      (shape : text.toList = weave ["",piece] [base.toList,"1".toList]) : Ends leaves level [base.toList] (write level text) := by
    refine endsLine (carriesFrom ["",piece] [base.toList,"1".toList] ?_ ?_ shape rfl fits) marked
    · exact List.forall_mem_cons.mpr ⟨.held List.mem_cons_self,List.forall_mem_singleton.mpr (.own (by decide))⟩
    · exact List.forall_mem_singleton.mpr ⟨_,List.mem_cons_self,standsSelf _⟩
  cases s with
  | assign span target value =>
    obtain ⟨place,name,indices⟩ := target
    obtain ⟨there,valued⟩ := List.forall_mem_append.mp inside
    obtain ⟨named,inner⟩ := List.forall_mem_cons.mp there
    -- anything but a function that is given to a bare name
    have general : Ends leaves level []
        (do
          let (base,appends) ← target level name indices
          let text ← expr level value
          if appends then write level (base ++ ".append(" ++ text ++ ")") else write level (base ++ " = " ++ text)) := by
      refine endsBind (makesFrom (carriesNothing (.leaf named)) (makesTarget level name indices inner)) fun pair =>
        endsBind (makesBeside (offersExpr level value valued)) fun text => ?_
      cases pair.2 with
      | true => exact push
      | false => exact endsLine (carriesHeld [""," = "]) (markedBy '=')
    cases indices with
    | cons e rest => exact general
    | nil =>
      cases value with
      | fn span params body =>
        exact endsBlock (.named named (paramsAmong valued)) (endsBody (level + 1) body (List.forall_mem_append.mp valued).2)
      | _ => exact general
  | append span target value =>
    obtain ⟨there,valued⟩ := List.forall_mem_append.mp inside
    exact endsBind (offersPlace level false target there) fun base => endsBind (makesBeside (offersExpr level value valued)) fun text => push
  | increment span target =>
    exact endsBind (offersPlace level true target inside) fun base => counts " += " (by decide +kernel) (markedBy '+') (by simp [weave])
  | decrement span target =>
    exact endsBind (offersPlace level true target inside) fun base => counts " -= " (by decide +kernel) (markedBy '-') (by simp [weave])
  | cond span left right cmp yes no =>
    obtain ⟨first,others⟩ := List.forall_mem_append.mp inside
    obtain ⟨second,branches⟩ := List.forall_mem_append.mp others
    obtain ⟨chosen,otherwise⟩ := List.forall_mem_append.mp branches
    have branch {other : Draft Unit} (ends : Makes leaves level [] (fun _ => []) other) : Ends leaves level []
        (do
          let l ← expr level left
          let r ← expr level right
          write level ("if " ++ l ++ " " ++ comparator cmp ++ " " ++ r ++ ":")
          block (level + 1) yes
          other) := by
      refine endsBind (offersExpr level left first) fun l => endsBind (makesBeside (offersExpr level right second)) fun r => ?_
      have head : Carries leaves ([l.toList] ++ [r.toList]) ("if " ++ l ++ " " ++ comparator cmp ++ " " ++ r) :=
        carriesHeld ["if "," " ++ comparator cmp ++ " "] (by simp [weave]) rfl (by cases cmp <;> decide +kernel)
      have all := endsThen (endsBlock (.other head (by simp)) (endsBody (level + 1) yes chosen)) ends
      rwa [bind_assoc] at all
    cases no with
    | none => exact branch (makesSame rfl)
    | some b =>
      exact branch (endsMakes (endsBlock (.other (t := "else") (carriesNothing (.own (by decide))) (by decide))
        (endsBody (level + 1) b otherwise)))
  | loop span times body =>
    obtain ⟨first,inner⟩ := List.forall_mem_append.mp inside
    have counted : Ends leaves level []
        (do
          let text ← expr level times
          write level ("for _ in range(" ++ text ++ "):")
          block (level + 1) body) := by
      refine endsBind (offersExpr level times first) fun text => ?_
      have head : Carries leaves [text.toList] ("for _ in range(" ++ text ++ ")") := carriesHeld ["for _ in range(",")"]
      have all := endsBlock (.other head (by simp)) (endsBody (level + 1) body inner)
      rwa [String.append_assoc] at all
    cases times with
    | null span =>
      refine endsBlock (.other (t := "while True") (carriesNothing (wovenFrom ["while "] ["True".toList] ?_)) (by decide))
        (endsBody (level + 1) body inner)
      exact List.forall_mem_singleton.mpr (.own (by decide))
    | _ => exact counted
  | leave span => exact endsLine (carriesNothing (.own (by decide))) (by decide)
  | answer span value =>
    exact endsBind (offersExpr level value inside) fun text => endsLine (carriesHeld ["return "]) (markedBy 'u')
  | observe span value =>
    exact endsBind (offersExpr level value inside) fun text => endsLine (carriesHeld ["print(",")"]) (markedBy '(')
  | doctest span value expected =>
    obtain ⟨first,second⟩ := List.forall_mem_append.mp inside
    exact endsBind (offersExpr level value first) fun actual => endsBind (makesBeside (offersExpr level expected second)) fun wanted =>
      endsLine (carriesHeld ["assert "," == "]) (markedBy '=')

theorem endsBody (level : Nat) (b : Block) (inside : Bears (· ∈ leaves) b.leaves) : Ends leaves level [] (block level b) := by
  obtain ⟨span,body⟩ := b
  cases body with
  | nil => exact endsLine (carriesNothing (.own (by decide))) (by decide)
  | cons s rest =>
    obtain ⟨first,later⟩ := List.forall_mem_append.mp inside
    exact endsThen (endsStmt level s first) (makesStmts level rest later)

theorem makesStmts (level : Nat) (body : List Stmt) (inside : Bears (· ∈ leaves) (bodyLeaves body)) :
    Makes leaves level [] (fun _ => []) (stmts level body) := by
  cases body with
  | nil => exact makesSame rfl
  | cons s rest =>
    obtain ⟨first,later⟩ := List.forall_mem_append.mp inside
    exact endsMakes (endsThen (endsStmt level s first) (makesStmts level rest later))

end

end Program

end Terakoya.Emit.Indented
