import Terakoya.Proofs.Grouping

/-! What can be seen of written text alone: where a name stands in it, what a line begins and ends with, which brackets
match, and what a margin does to it. -/
namespace Terakoya.Emit

def StandsIn (x y : List Char) : Prop := ∃ a b, y = a ++ (x ++ b) ∧ Closes a ∧ Opens b

section StandsIn

variable {x y z : List Char}

theorem standsSelf (x : List Char) : StandsIn x x := ⟨[],[],by simp,rfl,rfl⟩

theorem standsBetween (a b : List Char) (closes : Closes a) (opens : Opens b) : StandsIn x (a ++ (x ++ b)) :=
  ⟨a,b,rfl,closes,opens⟩

theorem standsTrans (first : StandsIn x y) (second : StandsIn y z) : StandsIn x z := by
  obtain ⟨a,b,rfl,closes,opens⟩ := first
  obtain ⟨a',b',rfl,closes',opens'⟩ := second
  refine ⟨a' ++ a,b ++ b',by simp only [List.append_assoc],?_,?_⟩
  · by_cases none : a = []
    · rwa [none,List.append_nil]
    · exact closesOver closes none a'
  · by_cases none : b = []
    · rwa [none,List.nil_append]
    · exact opensOver opens none b'

theorem standsFirst (x b : List Char) (opens : Opens b) : StandsIn x (x ++ b) := standsBetween [] b rfl opens

theorem standsLast (a x : List Char) (closes : Closes a) : StandsIn x (a ++ x) := by
  simpa using standsBetween (x := x) a [] closes rfl

theorem standsListed {texts text} (there : text ∈ texts) : StandsIn text.toList (", ".intercalate texts).toList := by
  rw [String.toList_intercalate]
  induction texts with
  | nil => exact absurd there List.not_mem_nil
  | cons t ts ih =>
    cases ts with
    | nil =>
      rw [List.mem_singleton.mp there,List.map_cons,List.map_nil,List.intercalate_singleton]
      exact standsSelf _
    | cons u us =>
      rw [List.map_cons,List.map_cons,List.intercalate_cons_cons]
      rcases List.mem_cons.mp there with rfl | later
      · rw [List.append_assoc]
        exact standsFirst _ _ rfl
      · exact standsTrans (ih later) (standsLast _ _ (closesOver (by decide +kernel) (by decide) _))

end StandsIn

/-! Characters of one line -/

def isInline (cs : List Char) : Bool := cs.all fun c => c != '\n' && c != '\r'

def isFlush (cs : List Char) : Bool := isInline cs && cs.head?.any (· != ' ')

def isTidy (cs : List Char) : Bool := isFlush cs && cs.getLast?.any (· != ':')

def isHead (cs : List Char) : Bool := isFlush cs && cs.getLast? == some ':'

section Tidy

variable {x y s : List Char}

theorem inlineAppend (first : isInline x) (second : isInline y) : isInline (x ++ y) := by
  rw [isInline,List.all_append]
  exact Bool.and_eq_true_iff.mpr ⟨first,second⟩

theorem flushInline (flush : isFlush x) : isInline x := (Bool.and_eq_true_iff.mp flush).1

theorem tidyFlush (tidy : isTidy x) : isFlush x := (Bool.and_eq_true_iff.mp tidy).1

theorem flushAppend (flush : isFlush x) (rest : isInline y) : isFlush (x ++ y) := by
  obtain ⟨inline,begins⟩ := Bool.and_eq_true_iff.mp flush
  refine Bool.and_eq_true_iff.mpr ⟨inlineAppend inline rest,?_⟩
  cases x with
  | nil => contradiction
  | cons c x => exact begins

theorem tidyEnd (flush : isFlush x) (rest : isInline s) (ends : s.getLast?.any (· != ':')) : isTidy (x ++ s) := by
  refine Bool.and_eq_true_iff.mpr ⟨flushAppend flush rest,?_⟩
  rcases List.eq_nil_or_concat s with rfl | ⟨s,c,rfl⟩
  · contradiction
  · simpa using ends

theorem headEnd (flush : isFlush x) (head : isHead y) : isHead (x ++ y) := by
  obtain ⟨rest,colon⟩ := Bool.and_eq_true_iff.mp head
  refine Bool.and_eq_true_iff.mpr ⟨flushAppend flush (flushInline rest),?_⟩
  rcases List.eq_nil_or_concat y with rfl | ⟨y,c,rfl⟩
  · contradiction
  · simpa using colon

theorem headColon (head : isHead x) : x.getLast? = some ':' := by simpa using (Bool.and_eq_true_iff.mp head).2

theorem tidyColon (tidy : isTidy x) : x.getLast? ≠ some ':' := by
  intro colon
  have ends := (Bool.and_eq_true_iff.mp tidy).2
  rw [colon] at ends
  contradiction

theorem tidyWord {cs} (some : cs ≠ []) (chars : ∀ c ∈ cs, isNameChar c) : isTidy cs := by
  have other {c d : Char} (there : c ∈ cs) (foreign : isNameChar d = false) : (c != d) = true := by
    refine bne_iff_ne.mpr fun same => ?_
    rw [← same,chars c there] at foreign
    contradiction
  have inline : isInline cs := List.all_eq_true.mpr fun c there =>
    Bool.and_eq_true_iff.mpr ⟨other there (by decide +kernel),other there (by decide +kernel)⟩
  refine Bool.and_eq_true_iff.mpr ⟨Bool.and_eq_true_iff.mpr ⟨inline,?_⟩,?_⟩
  · rw [List.head?_eq_some_head some]
    exact other (List.head_mem some) (by decide +kernel)
  · rw [List.getLast?_eq_some_getLast some]
    exact other (List.getLast_mem some) (by decide +kernel)

theorem tidyName {name} (wordy : Wordlike name) : isTidy name.toList := by
  obtain ⟨c,there,_⟩ := wordy.letter
  exact tidyWord (List.ne_nil_of_mem there) wordy.chars

theorem tidyNumber (n : Nat) : isTidy (toString n).toList := tidyWord (by simp) (Braced.digitChars n)

theorem inlineEscape (c : Char) : isInline (escape c) := by
  unfold escape
  split <;> try decide
  rename_i newline _ return'
  simpa [isInline] using ⟨newline,return'⟩

theorem tidyQuote (s : String) : isTidy (quote s).toList := by
  have inside : isInline (s.toList.flatMap escape) := by
    rw [isInline,List.all_flatMap]
    exact List.all_eq_true.mpr fun c _ => inlineEscape c
  rw [quote,String.toList_ofList]
  have begins : isFlush ('"' :: s.toList.flatMap escape) := flushAppend (x := ['"']) (by decide +kernel) inside
  exact tidyEnd begins (by decide +kernel) (by decide +kernel)

end Tidy

/-! Brackets are matched by reading a text once, with those that are still to be closed on a stack, and literals in double
quotes are skipped. -/
namespace Brackets

inductive Mode where
  | plain | quoted | escaped
  deriving DecidableEq, Repr

def closer? : Char → Option Char
  | '(' => some ')'
  | '[' => some ']'
  | '\x7b' => some '\x7d'
  | _ => none

def isCloser (c : Char) : Bool := c = ')' || c = ']' || c = '\x7d'

def step : Mode × List Char → Char → Option (Mode × List Char)
  | (.plain,waiting),c =>
    if c = '"' then some (.quoted,waiting)
    else match closer? c with
      | some close => some (.plain,close :: waiting)
      | none =>
        if isCloser c then
          match waiting with
          | close :: rest => if c = close then some (.plain,rest) else none
          | [] => none
        else some (.plain,waiting)
  | (.quoted,waiting),c =>
    if c = '\n' then none else if c = '"' then some (.plain,waiting)
    else some (if c = '\\' then .escaped else .quoted,waiting)
  | (.escaped,waiting),c => if c = '\n' then none else some (.quoted,waiting)

def scan (s : Mode × List Char) (cs : List Char) : Option (Mode × List Char) := cs.foldlM step s

def Matched (cs : List Char) : Prop := scan (.plain,[]) cs = some (.plain,[])

instance (cs : List Char) : Decidable (Matched cs) := by
  unfold Matched
  infer_instance

structure Reads (o o' cs : List Char) : Prop where
  nests : ∀ waiting, scan (.plain,o ++ waiting) cs = some (.plain,o' ++ waiting)
  inline : '\n' ∉ cs

section Scan

variable {o o' o'' x y cs waiting : List Char} {m m' : Mode}

theorem scanAppend (s : Mode × List Char) (x y : List Char) : scan s (x ++ y) = (scan s x).bind (scan · y) :=
  List.foldlM_append

theorem stepUnder {c} (steps : step (m,o) c = some (m',o')) (waiting : List Char) :
    step (m,o ++ waiting) c = some (m',o' ++ waiting) := by
  cases m with
  | plain =>
    simp only [step] at steps ⊢
    split at steps
    · cases steps
      simp_all
    · split at steps
      · cases steps
        simp_all
      · split at steps
        · cases o with
          | nil => contradiction
          | cons close o => simp_all
        · cases steps
          simp_all
  | quoted => grind [step]
  | escaped => grind [step]

theorem scanUnder (scans : scan (m,o) cs = some (m',o')) (waiting : List Char) :
    scan (m,o ++ waiting) cs = some (m',o' ++ waiting) := by
  induction cs generalizing m o with
  | nil =>
    cases scans
    rfl
  | cons c cs ih =>
    simp only [scan,List.foldlM_cons,Option.bind_eq_bind,Option.bind_eq_some_iff] at scans ⊢
    obtain ⟨⟨m'',o''⟩,first,rest⟩ := scans
    exact ⟨_,stepUnder first waiting,ih rest⟩

theorem readsAppend (first : Reads o o' x) (second : Reads o' o'' y) : Reads o o'' (x ++ y) := by
  refine ⟨fun waiting => ?_,fun there => ?_⟩
  · rw [scanAppend,first.nests,Option.bind_some,second.nests]
  · rcases List.mem_append.mp there with there | there
    · exact first.inline there
    · exact second.inline there

theorem readsNothing : Reads o o [] := ⟨fun _ => rfl,List.not_mem_nil⟩

theorem readsUnder (reads : Reads [] [] x) (o : List Char) : Reads o o x :=
  ⟨fun waiting => reads.nests (o ++ waiting),reads.inline⟩

theorem readsFixed {s : String} (scans : scan (.plain,o) s.toList = some (.plain,o') := by decide +kernel)
    (inline : '\n' ∉ s.toList := by decide +kernel) : Reads o o' s.toList := ⟨scanUnder scans,inline⟩

theorem matchedReads (reads : Reads [] [] cs) : Matched cs := reads.nests []

theorem matchedAppend (first : Matched x) (second : Matched y) : Matched (x ++ y) := by
  rw [Matched,scanAppend,first]
  exact second

theorem readsEach (each : ∀ c ∈ cs, step (.plain,[]) c = some (.plain,[]) ∧ c ≠ '\n') : Reads [] [] cs := by
  refine ⟨fun waiting => ?_,fun there => (each _ there).2 rfl⟩
  induction cs with
  | nil => rfl
  | cons c cs ih =>
    obtain ⟨first,rest⟩ := List.forall_mem_cons.mp each
    have stays : step (.plain,waiting) c = some (.plain,waiting) := stepUnder first.1 waiting
    simp only [scan,List.nil_append,List.foldlM_cons,stays,Option.bind_eq_bind,Option.bind_some]
    exact ih rest

theorem readsWord (chars : ∀ c ∈ cs, isNameChar c) : Reads [] [] cs := by
  refine readsEach fun c there => ?_
  have other {d : Char} (foreign : isNameChar d = false) : c ≠ d := by
    rintro rfl
    rw [chars c there] at foreign
    contradiction
  have outer : closer? c = none := by
    unfold closer?
    split <;> first | rfl | exact absurd rfl (other (by decide +kernel))
  have inner : isCloser c = false := by
    simp [isCloser,other (d := ')') (by decide +kernel),other (d := ']') (by decide +kernel),
      other (d := '\x7d') (by decide +kernel)]
  refine ⟨?_,other (by decide +kernel)⟩
  simp [step,other (d := '"') (by decide +kernel),outer,inner]

theorem readsNumber (n : Nat) : Reads [] [] (toString n).toList := readsWord (Braced.digitChars n)

theorem readsBlank (n : Nat) : Reads [] [] (List.replicate n ' ') := by
  refine readsEach fun c there => ?_
  rw [List.eq_of_mem_replicate there]
  decide

theorem readsIndentation (level : Nat) : Reads [] [] (indentation level).toList := by
  rw [indentation,String.toList_ofList]
  exact readsBlank _

theorem scanEscape (c : Char) (waiting : List Char) : scan (.quoted,waiting) (escape c) = some (.quoted,waiting) := by
  unfold escape
  split <;> first | rfl | simp_all [scan,step]

theorem readsQuote (s : String) : Reads [] [] (quote s).toList := by
  refine ⟨fun waiting => ?_,fun there => ?_⟩
  · have inside (t : List Char) : scan (.quoted,waiting) (t.flatMap escape) = some (.quoted,waiting) := by
      induction t with
      | nil => rfl
      | cons c t ih => rw [List.flatMap_cons,scanAppend,scanEscape,Option.bind_some,ih]
    rw [quote,String.toList_ofList,List.cons_append]
    change scan (.quoted,waiting) (s.toList.flatMap escape ++ ['"']) = _
    rw [scanAppend,inside,Option.bind_some]
    rfl
  · have inline := List.all_eq_true.mp (flushInline (tidyFlush (tidyQuote s))) _ there
    simp at inline

theorem readsLeaf {l : Leaf} (wordy : l.Wordy) : Reads [] [] l.written := by
  cases l with
  | call f => exact readsWord wordy.chars
  | name x => exact readsWord wordy.chars
  | text s index => exact readsQuote s

end Scan

/-! Texts around others -/

def weave : List String → List (List Char) → List Char
  | [],_ => []
  | p :: ps,xs => p.toList ++ (xs.headD [] ++ weave ps xs.tail)

def opened (o : List Char) : List String → Option (List Char)
  | [] => some o
  | p :: ps =>
    match scan (.plain,o) p.toList with
    | some (.plain,o') => if p.toList.contains '\n' then none else opened o' ps
    | _ => none

theorem headHolds {P : List Char → Prop} {xs : List (List Char)} (each : ∀ x ∈ xs, P x) (none : P []) : P (xs.headD []) := by
  cases xs with
  | nil => exact none
  | cons x xs => exact each x List.mem_cons_self

theorem readsWeave {ps : List String} {xs : List (List Char)} {o o'} (opens : opened o ps = some o')
    (each : ∀ x ∈ xs, Reads [] [] x) : Reads o o' (weave ps xs) := by
  induction ps generalizing o xs with
  | nil =>
    cases opens
    exact readsNothing
  | cons p ps ih =>
    simp only [opened] at opens
    split at opens <;> try contradiction
    rename_i o'' scans
    split at opens <;> try contradiction
    rename_i inline
    have piece : Reads o o'' p.toList := ⟨scanUnder scans,by simpa using inline⟩
    exact readsAppend piece (readsAppend (readsUnder (headHolds each readsNothing) o'')
      (ih opens fun x there => each x (List.mem_of_mem_tail there)))

theorem readsParameters {params : List String} {rest} (wordy : Bears Leaf.Wordy (params.map .name ++ rest)) :
    Reads [] [] (parameters params).toList := by
  rw [parameters,String.toList_intercalate]
  induction params with
  | nil => exact readsNothing
  | cons p ps ih =>
    obtain ⟨first,later⟩ := List.forall_mem_cons.mp wordy
    cases ps with
    | nil =>
      rw [List.map_cons,List.map_nil,List.intercalate_singleton]
      exact readsLeaf first
    | cons q ps =>
      rw [List.map_cons,List.map_cons,List.intercalate_cons_cons]
      exact readsAppend (readsAppend (readsLeaf first) readsFixed) (ih later)

/-! Margins -/

section Margins

variable (n : Nat) {x : List Char}

end Margins

end Brackets

end Terakoya.Emit
