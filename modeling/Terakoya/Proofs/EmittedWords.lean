import Terakoya.Emit.Dialect
import Terakoya.Proofs.Leaves

/-! The words of a program that was written out in a dialect, and where each of them comes from: from the few
that the dialect always writes, from a leaf of the program, from a number of it, or from nowhere, as a name that is
made up. Between words stand only characters that no name has. -/
namespace Terakoya

def Dialect.vocabulary : Dialect → List String
  | .braced =>
    ["null","codePointAt","0","length","Math","floor","random","function","push","1","if","else","while","true","for","let",
      "break","return","console","log","assert","JSON","stringify"]
  | .indented =>
    ["None","ord","lambda","def","random","randrange","choice","len","append","1","if","else","while","True","for","in",
      "range","break","return","print","assert","pass","import"]

inductive Coined : Dialect → Type where
  /-- The counter of a loop inside `depth` others. -/
  | counter (depth : Nat) : Coined .braced
  | bound (depth : Nat) : Coined .braced
  | hoisted (n : Nat) : Coined .indented
  | ignored : Coined .indented
  deriving DecidableEq, Repr

def Coined.name {d : Dialect} : Coined d → String
  | .counter depth => Emit.Braced.counter depth
  | .bound depth => Emit.Braced.counter depth ++ "End"
  | .hoisted n => "_lambda" ++ toString n
  | .ignored => "_"

inductive Word (d : Dialect) where
  | own (s : String) (known : s ∈ d.vocabulary)
  | leaf (l : Leaf)
  | number (n : Nat)
  | coined (c : Coined d)

def Leaf.written : Leaf → List Char
  | .call f => f.toList
  | .name x => x.toList
  | .text s _ => (Emit.quote s).toList

namespace Emit

def isNameChar (c : Char) : Bool := Cursor.isNameLetter c || c.isDigit

def wordsOf (cs : List Char) : List (List Char) := (cs.splitOnP fun c => !isNameChar c).filter fun w => !w.isEmpty

def Opens (cs : List Char) : Bool := cs.head?.all fun c => !isNameChar c

def Closes (cs : List Char) : Bool := cs.getLast?.all fun c => !isNameChar c

def Blank (cs : List Char) : Bool := cs.all fun c => !isNameChar c

section Words

variable {x y p : List Char} {c : Char}

theorem wordsSplit (sep : isNameChar c = false) : wordsOf (x ++ c :: y) = wordsOf x ++ wordsOf y := by
  rw [wordsOf,List.splitOnP_append_cons x y (by rw [sep]; rfl),List.filter_append]
  rfl

theorem wordsNil : wordsOf [] = [] := by
  rw [wordsOf,List.splitOnP_nil]
  rfl

theorem wordsCons (sep : isNameChar c = false) : wordsOf (c :: y) = wordsOf y := by
  have split := wordsSplit (x := []) (y := y) sep
  rw [wordsNil] at split
  exact split

theorem wordsAppend (apart : Closes x ∨ Opens y) : wordsOf (x ++ y) = wordsOf x ++ wordsOf y := by
  rcases apart with closes | opens
  · rcases List.eq_nil_or_concat x with rfl | ⟨x,c,rfl⟩
    · rw [wordsNil,List.nil_append,List.nil_append]
    · have sep : isNameChar c = false := by simpa [Closes] using closes
      rw [List.concat_eq_append,List.append_assoc,List.singleton_append,wordsSplit sep,wordsSplit sep,wordsNil,List.append_nil]
  · cases y with
    | nil => rw [wordsNil,List.append_nil,List.append_nil]
    | cons c y =>
      have sep : isNameChar c = false := by simpa [Opens] using opens
      rw [wordsSplit sep,wordsCons sep]

theorem wordsBlank (blank : Blank p) : wordsOf p = [] := by
  induction p with
  | nil => exact wordsNil
  | cons c p ih =>
    simp only [Blank,List.all_cons,Bool.and_eq_true,Bool.not_eq_true'] at blank ih
    rw [wordsCons blank.1,ih blank.2]

theorem closesBlank (blank : Blank p) : Closes p := by
  simp only [Closes,Option.all_eq_true,Blank,List.all_eq_true] at blank ⊢
  exact fun c last => blank c (List.mem_of_getLast? last)

theorem opensBlank (blank : Blank p) : Opens p := by
  simp only [Opens,Option.all_eq_true,Blank,List.all_eq_true] at blank ⊢
  exact fun c first => blank c (List.mem_of_head? first)

theorem opensOver (opens : Opens p) (some : p ≠ []) (y : List Char) : Opens (p ++ y) := by
  obtain ⟨c,p,rfl⟩ := List.exists_cons_of_ne_nil some
  exact opens

theorem closesOver (closes : Closes p) (some : p ≠ []) (x : List Char) : Closes (x ++ p) := by
  rcases List.eq_nil_or_concat p with rfl | ⟨p,c,rfl⟩
  · contradiction
  · simpa [Closes] using closes

end Words

end Emit

namespace Word

variable {d : Dialect}

def written : Word d → List Char
  | .own s _ => s.toList
  | .leaf l => l.written
  | .number n => (toString n).toList
  | .coined c => c.name.toList

def fixed (ss : List String) (known : ∀ s ∈ ss, s ∈ d.vocabulary := by decide) : List (Word d) := ss.pmap .own known

def names (params : List String) : List (Word d) := params.map fun p => .leaf (.name p)

end Word

namespace Emit

variable {d : Dialect}

structure Spells (ws : List (Word d)) (cs : List Char) : Prop where
  words : wordsOf cs = ws.flatMap fun w => wordsOf w.written

section Spells

variable {vs ws : List (Word d)} {x y p : List Char}

theorem spellsAppend (first : Spells vs x) (second : Spells ws y) (apart : Closes x ∨ Opens y) :
    Spells (vs ++ ws) (x ++ y) := ⟨by rw [wordsAppend apart,first.words,second.words,List.flatMap_append]⟩

-- what is asked of the text around words is asked of fixed texts in nearly all places, and is evaluated there
theorem spellsBefore (spells : Spells ws x) (blank : Blank p := by decide +kernel) : Spells ws (p ++ x) :=
  ⟨by rw [wordsAppend (.inl (closesBlank blank)),wordsBlank blank,spells.words,List.nil_append]⟩

theorem spellsAfter (spells : Spells ws x) (blank : Blank p := by decide +kernel) : Spells ws (x ++ p) :=
  ⟨by rw [wordsAppend (.inr (opensBlank blank)),wordsBlank blank,spells.words,List.append_nil]⟩

theorem spellsNothing : Spells ([] : List (Word d)) [] := ⟨wordsNil⟩

theorem spellsWord (w : Word d) : Spells [w] w.written := ⟨by rw [List.flatMap_singleton]⟩

theorem vocabularyWords : ∀ d : Dialect, d.vocabulary.all fun s => wordsOf s.toList == [s.toList] := by
  intro d
  cases d with
  | braced => decide +kernel
  | indented => decide +kernel

theorem spellsFixed {ss} (known : ∀ s ∈ ss, s ∈ d.vocabulary)
    (same : wordsOf x = ss.map String.toList := by decide +kernel) : Spells (Word.fixed ss known) x := by
  refine ⟨same.trans ?_⟩
  clear same
  induction ss with
  | nil => rfl
  | cons s ss ih =>
    have word : wordsOf s.toList = [s.toList] := by
      have all := List.all_eq_true.mp (vocabularyWords d) s (known s (List.mem_cons_self ..))
      simpa using all
    have rest := ih fun t there => known t (List.mem_cons_of_mem _ there)
    rw [List.map_cons,rest]
    simp only [Word.fixed,List.pmap_cons,List.flatMap_cons,Word.written,word]
    rfl

theorem spellsOwn {ss known} (rest : Spells ws y)
    (same : wordsOf x = ss.map String.toList := by decide +kernel) (closes : Closes x := by decide +kernel) :
    Spells (Word.fixed ss known ++ ws) (x ++ y) := spellsAppend (spellsFixed known same) rest (.inl closes)

theorem spellsNext (first : Spells vs x) (rest : Spells ws (p ++ y)) (opens : Opens p := by decide +kernel)
    (some : p ≠ [] := by decide) : Spells (vs ++ ws) (x ++ (p ++ y)) := spellsAppend first rest (.inr (opensOver opens some y))

theorem spellsBetween (first : Spells vs x) (rest : Spells ws y) (blank : Blank p := by decide +kernel)
    (some : p ≠ [] := by decide) : Spells (vs ++ ws) (x ++ (p ++ y)) :=
  spellsNext first (spellsBefore rest blank) (opensBlank blank) some

theorem spellsCons {xs} (first : Spells vs x) (rest : Spells ws (", ".toList.intercalate xs)) :
    Spells (vs ++ ws) (", ".toList.intercalate (x :: xs)) := by
  cases xs with
  | nil =>
    rw [List.intercalate_singleton]
    have alone := spellsAppend first rest (.inr rfl)
    rwa [List.intercalate_nil,List.append_nil] at alone
  | cons y ys =>
    rw [List.intercalate_cons_cons,List.append_assoc]
    exact spellsBetween first rest

theorem spellsParameters (params : List String) : Spells (Word.names (d := d) params) (parameters params).toList := by
  rw [parameters,String.toList_intercalate]
  induction params with
  | nil => exact spellsNothing
  | cons param params ih => exact spellsCons (spellsWord (.leaf (.name param))) ih

theorem blankIndentation (level : Nat) : Blank (indentation level).toList := by
  simp only [Blank,indentation,String.toList_ofList,List.all_replicate]
  have blank : isNameChar ' ' = false := by decide +kernel
  simp [blank]

def Lines (ws : List (Word d)) (cs : List Char) : Prop := Spells ws cs ∧ Closes cs

theorem linesAppend (first : Lines vs x) (second : Lines ws y) : Lines (vs ++ ws) (x ++ y) := by
  refine ⟨spellsAppend first.1 second.1 (.inl first.2),?_⟩
  by_cases none : y = []
  · subst none
    rw [List.append_nil]
    exact first.2
  · exact closesOver second.2 none x

theorem linesNone : Lines ([] : List (Word d)) [] := ⟨spellsNothing,rfl⟩

theorem linesOne (blank : Blank p) (spells : Spells ws x) : Lines ws (p ++ (x ++ "\n".toList)) := by
  have newline : Blank "\n".toList := by decide +kernel
  refine ⟨spellsBefore (spellsAfter spells newline) blank,?_⟩
  rw [← List.append_assoc]
  exact closesOver (by decide +kernel) (by decide) _

end Spells

end Emit

end Terakoya
