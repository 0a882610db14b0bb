import Terakoya.Proofs.Passage
import Terakoya.Proofs.Reading

/-! An expression written out in a layout is read back as it was, but for its spans. Every phrase is
looked at with readers for the phrases nested in it that are known to read back shorter texts. -/
namespace Terakoya

open Text (ofString)
open Layout

def operators : List Char := [' ','\t','\r','#','+','-','*','/','%']

def Ends (t : Text) : Prop := Among closers t ∧ ∃ n u, t = blanks n ++ u ∧ Avoids operators u

theorem endsGap {t} (avoids : Avoids operators t) : Ends (gap ++ t) :=
  ⟨⟨' ',t,rfl,by decide⟩,1,t,rfl,avoids⟩

theorem endsAt {t : Text} (among : Among ['\n',',',')',']','|'] t) (n : Nat) : Ends (blanks n ++ t) :=
  ⟨(among.mono (by decide)).blanks (by decide) n,n,t,rfl,among.avoids (by decide)⟩

theorem endsClose {t : Text} (among : Among ['\n',',',')',']','|'] t) : Ends t := endsAt among 0

def unopened : List Char := [' ','\t','\r','#','\n',')',']','\x7d','>']

def reserved : List String := ["もし","そうでなければ","くり返しを抜ける","繰り返しを抜ける"]

def reservedHeads : List Char := ['も','そ','く','繰']

structure Opens (t : Text) : Prop where
  head : Avoids unopened t
  words : ∀ w ∈ reserved, Cursor.dropWord w.toList t = none

theorem Opens.solid {t} (opens : Opens t) : Solid t := opens.head.mono (by decide)

theorem Opens.line {t} (opens : Opens t) : Avoids ['\n'] t := opens.head.mono (by decide)

theorem opensHead {t} (avoids : Avoids (unopened ++ reservedHeads) t) : Opens t := by
  have begins : ∀ w ∈ reserved, w.toList.head?.any (reservedHeads.contains ·) := by decide
  refine ⟨avoids.mono (by decide),fun w inside => ?_⟩
  exact Cursor.dropWordAvoids (avoids.mono (by decide)) (begins w inside)

theorem opensName {name} (named : Nameable name) {rest} (seam : Among seams rest) : Opens (ofString name ++ rest) := by
  obtain ⟨whole,unlike⟩ := named
  refine ⟨Cursor.nameAvoids whole (by decide) rest,fun w inside => ?_⟩
  simp only [reserved,List.mem_cons,List.not_mem_nil,or_false] at inside
  rcases inside with rfl | rfl | rfl | rfl
  · exact Cursor.dropWordName (unlike "もし" (by decide)) seam (by decide)
  · exact Cursor.dropWordName (unlike "そうでなければ" (by decide)) seam (by decide)
  · exact Cursor.nameNoParticle whole (p := "くり返") (by decide) (by decide) (by decide) seam
  · exact Cursor.nameNoParticle whole (p := "繰り返") (by decide) (by decide) (by decide) seam

theorem amongIndices (l : Layout) (is : List Expr) {rest : Text} (closed : Among closers rest) :
    Among ('[' :: closers) (indicesWritten l is ++ rest) := by
  cases is with
  | nil => exact closed.mono (by decide)
  | cons i is => exact ⟨'[',_,rfl,by decide⟩

theorem digitsHead (n : Nat) (rest : Text) :
    ∃ c u, digits n ++ rest = .char c :: u ∧ Cursor.isDigit (.char c) := by
  obtain ⟨c,cs,same⟩ := List.exists_cons_of_ne_nil (Nat.toDigits_ne_nil : Nat.toDigits 10 n ≠ [])
  have digit := Cursor.digitsAreDigits n c (by simp [same])
  exact ⟨c,cs.map .char ++ rest,by simp [digits,same],digit⟩

theorem opensDigits (n : Nat) (rest : Text) : Opens (digits n ++ rest) := by
  obtain ⟨c,u,same,digit⟩ := digitsHead n rest
  have others : (unopened ++ reservedHeads).all fun d => !Cursor.isDigit (.char d) := by decide
  refine opensHead ⟨c,u,same,fun inside => ?_⟩
  have none := List.all_eq_true.mp others c inside
  rw [digit] at none
  contradiction

theorem opensExpr (l : Layout) (e : Expr) (ok : e.Writable) {rest} (closed : Among closers rest) :
    Opens (e.written l ++ rest) := by
  cases e with
  | int span n => exact opensDigits n rest
  | null span => exact opensHead ⟨'?',rest,rfl,by decide⟩
  | text span s index => exact opensHead ⟨'"',_,rfl,by decide⟩
  | seq span es => exact opensHead ⟨'[',_,rfl,by decide⟩
  | var p =>
    obtain ⟨span,name,is⟩ := p
    simp only [Expr.written,Place.written,List.append_assoc]
    exact opensName ok.1 ((amongIndices l is closed).mono (by decide))
  | fn span ps body => exact opensHead ⟨'入',_,rfl,by decide⟩
  | call span name es =>
    simp only [Expr.written,List.append_assoc]
    exact opensName ok.1 ⟨'(',_,rfl,by decide⟩
  | neg span e => exact opensHead ⟨'-',_,rfl,by decide⟩
  | len span e => exact opensHead ⟨'|',_,rfl,by decide⟩

namespace Phrases

open Reader

def NoBranch (t : Text) : Prop :=
  ∃ u, Passes blank () t u ∧ Cursor.dropWord "そうでなければ".toList u = none

def Foreign (t : Text) : Prop :=
  ∃ c u, t = .char c :: u ∧ c ∈ ['>','く','繰'] ∧ (Cursor.isNameLetter c && !Cursor.atParticle true t) = false

structure Complete (nested : Phrases) (l : Layout) (size : Nat) : Prop where
  primary : ∀ e : Expr, e.Writable → (e.written l).length < size → ∀ rest, Among closers rest →
    Reads nested.primary (fun a => a.bare = e.bare) (e.written l ++ rest) rest
  foreign : 0 < size → ∀ t, Foreign t → Misses nested.primary t
  statement : ∀ s : Stmt, s.Writable → (s.written l).length + 1 < size → ∀ rest,
    NoBranch (.char '\n' :: rest) →
    Reads nested.statement (fun a => a.bare = s.bare) (s.written l ++ .char '\n' :: rest)
      (.char '\n' :: rest)

theorem passesIdentifier {name} (named : isIdentifier (ofString name)) {rest}
    (seam : Among seams rest) : Passes identifier name (ofString name ++ rest) rest := by
  intro pos
  obtain ⟨last,reading⟩ := Cursor.nameReads named seam pos
  have some := (Cursor.identifierRead named).1
  refine ⟨name,last,?_,rfl⟩
  simp only [identifier,reading]

theorem missesIdentifier {c : Char} {u : Text}
    (none : (Cursor.isNameLetter c && !Cursor.atParticle true (.char c :: u)) = false) :
    Misses identifier (.char c :: u) := by
  intro pos
  refine ⟨⟨pos,.char c :: u⟩,?_⟩
  have letters : Cursor.readLetters true pos (.char c :: u) = ([],⟨pos,.char c :: u⟩) := by
    simp only [Cursor.readLetters,Glyph.toChar,none]
    rfl
  simp only [identifier,Cursor.readIdentifier,letters]

theorem amongClosing {close : String} (closing : close ∈ [")","]"]) (rest : Text) :
    Among [')',']'] (ofString close ++ rest) := by
  simp only [List.mem_cons,List.not_mem_nil,or_false] at closing
  rcases closing with rfl | rfl
  · exact ⟨')',rest,rfl,by decide⟩
  · exact ⟨']',rest,rfl,by decide⟩

theorem amongMore (l : Layout) {close : String} (closing : close ∈ [")","]"]) (es : List Expr) (rest : Text) :
    Among closers (moreWritten l es ++ (ofString close ++ rest)) := by
  cases es with
  | nil => exact (amongClosing closing rest).mono (by decide)
  | cons e es => exact ⟨',',_,rfl,by decide⟩

section Expressions

variable {nested : Phrases} {l : Layout} {size : Nat} (complete : nested.Complete l size)

include complete

theorem readsExpression (e : Expr) (ok : e.Writable) (small : (e.written l).length < size) {rest}
    (ends : Ends rest) : Reads nested.expression (fun a => a.bare = e.bare) (e.written l ++ rest) rest := by
  refine readsBind (complete.primary e ok small rest ends.1) fun a same pos => ?_
  obtain ⟨n,u,rfl,avoids⟩ := ends.2
  have skipped := skipBlanks (avoids.mono (by decide)) n pos
  have quiet : Cursor.isInfixOperator (Cursor.peek ⟨pos + n,u⟩) = false := by
    obtain ⟨c,v,rfl,outside⟩ := avoids
    simp only [operators,List.mem_cons,List.not_mem_nil,or_false,not_or] at outside
    simp [Cursor.isInfixOperator,Cursor.peek,Glyph.toChar,outside]
  refine ⟨a,pos,?_,same⟩
  simp only [skipped,quiet]
  rfl

theorem readsIndices (is : List Expr) (ok : allWritable is) {n}
    (fuel : (indicesWritten l is).length < n) (small : (indicesWritten l is).length < size)
    {rest} (outside : Avoids ['['] rest) :
    Reads (nested.indices n) (fun a => allBare a = allBare is) (indicesWritten l is ++ rest) rest := by
  induction is generalizing n with
  | nil =>
    obtain ⟨n,rfl⟩ := Nat.exists_eq_add_one.mpr (Nat.zero_lt_of_lt fuel)
    exact readsAfter (passesNot (Cursor.dropWordAvoids outside (by decide))) (readsPure rfl)
  | cons i is ih =>
    obtain ⟨n,rfl⟩ := Nat.exists_eq_add_one.mpr (Nat.zero_lt_of_lt fuel)
    simp only [indicesWritten,List.length_cons,List.length_append] at fuel small
    simp only [indicesWritten,List.cons_append,List.append_assoc]
    have closing : Ends (.char ']' :: (indicesWritten l is ++ rest)) := endsClose ⟨']',_,rfl,by decide⟩
    refine readsAfter (passesTry "[") ?_
    refine readsAfter (passesNoSpaces (opensExpr l i ok.1 closing.1).solid) ?_
    refine readsBind (readsRequire _ (readsExpression complete i ok.1 (by omega) closing)) fun a same => ?_
    refine readsAfter (passesNoSpaces ⟨']',_,rfl,by decide⟩) ?_
    refine readsAfter (readsRequire _ (passesWord "]")) ?_
    refine readsBind (ih ok.2 (by omega) (by omega)) fun as later => readsPure ?_
    simp only [allBare,same,later]

theorem readsAllIndices (is : List Expr) (ok : allWritable is) (small : (indicesWritten l is).length < size)
    {rest} (closed : Among closers rest) :
    Reads (fuelled nested.indices) (fun a => allBare a = allBare is) (indicesWritten l is ++ rest) rest := by
  refine readsFuelled (readsIndices complete is ok ?_ small (closed.avoids (by decide)))
  simp only [List.length_append]
  omega

theorem readsTarget (span : Span) (name : String) (is : List Expr) (named : isIdentifier (ofString name))
    (ok : allWritable is) (small : (indicesWritten l is).length < size) {rest} (closed : Among closers rest) :
    Reads nested.target (fun a => a.bare = (Place.mk span name is).bare)
      (ofString name ++ (indicesWritten l is ++ rest)) rest := by
  have among := amongIndices l is closed
  have indices := readsAllIndices complete is ok small closed
  refine readsHere fun start => readsAfter (passesIdentifier named (among.mono (by decide))) ?_
  obtain ⟨c,u,same,noCall⟩ : Avoids ['('] (indicesWritten l is ++ rest) := among.avoids (by decide)
  rw [same] at indices ⊢
  refine readsAfter passesPeek ?_
  rw [if_neg (by simpa using noCall)]
  refine readsBind indices fun as bare => readsHere fun stop => readsPure ?_
  simp only [Place.bare,bare]

theorem readsVariable (span : Span) (name : String) (is : List Expr) (named : isIdentifier (ofString name))
    (ok : allWritable is) (small : (indicesWritten l is).length < size) {rest} (closed : Among closers rest) :
    Reads nested.named (fun a => a.bare = (Expr.var (.mk span name is)).bare)
      (ofString name ++ (indicesWritten l is ++ rest)) rest := by
  have among := amongIndices l is closed
  refine readsHere fun start => readsAfter (passesIdentifier named (among.mono (by decide))) ?_
  have noCall : Avoids ['('] (indicesWritten l is ++ rest) := among.avoids (by decide)
  refine readsAfter (passesNot (Cursor.dropWordAvoids noCall (by decide))) ?_
  refine readsBind (readsAllIndices complete is ok small closed) fun as bare =>
    readsHere fun stop => readsPure ?_
  simp only [Expr.bare,Place.bare,bare]

theorem readsItems {close : String} (closing : close ∈ [")","]"]) (e : Expr) (es : List Expr)
    (ok : allWritable (e :: es)) {n : Nat} (fuel : (itemsWritten l (e :: es)).length < n)
    (small : (itemsWritten l (e :: es)).length < size) (rest : Text) :
    Reads (nested.items close n) (fun a => allBare a = allBare (e :: es))
      (itemsWritten l (e :: es) ++ (ofString close ++ rest)) rest := by
  induction es generalizing e n with
  | nil =>
    obtain ⟨n,rfl⟩ := Nat.exists_eq_add_one.mpr (Nat.zero_lt_of_lt fuel)
    simp only [itemsWritten,moreWritten,List.append_nil] at small ⊢
    have among := amongClosing closing rest
    refine readsBind (readsRequire _ (readsExpression complete e ok.1 small
      (endsClose (among.mono (by decide))))) fun a same => ?_
    refine readsAfter (passesNoBlank (among.avoids (by decide)) (among.avoids (by decide))) ?_
    refine readsAfter (passesNoComma (among.avoids (by decide))) ?_
    refine readsAfter (passesTry close) (readsPure ?_)
    simp only [allBare,same]
  | cons e' es ih =>
    obtain ⟨n,rfl⟩ := Nat.exists_eq_add_one.mpr (Nat.zero_lt_of_lt fuel)
    simp only [itemsWritten,moreWritten,comma,List.length_append,List.length_cons] at fuel small ih
    simp only [itemsWritten,moreWritten,comma,List.append_assoc,List.cons_append] at ih ⊢
    have opens := opensExpr l e' ok.2.1 (amongMore l closing es rest)
    refine readsBind (readsRequire _ (readsExpression complete e ok.1 (by omega)
      (endsClose ⟨',',_,rfl,by decide⟩))) fun a same => ?_
    refine readsAfter (passesNoBlank ⟨',',_,rfl,by decide⟩ ⟨',',_,rfl,by decide⟩) ?_
    refine readsAfter passesComma ?_
    refine readsAfter (passesBlank opens.solid opens.line _) ?_
    refine readsBind (ih e' ok.2 (by omega) (by omega)) fun as later => readsPure ?_
    simp only [allBare,same,later]

theorem readsItemsUpTo (close : String) (closing : close ∈ [")","]"]) (es : List Expr) (ok : allWritable es)
    (small : (itemsWritten l es).length < size) (rest : Text) :
    Reads (nested.itemsUpTo close) (fun a => allBare a = allBare es)
      (itemsWritten l es ++ (ofString close ++ rest)) rest := by
  cases es with
  | nil =>
    have among := amongClosing closing rest
    refine readsAfter (passesNoBlank (among.avoids (by decide)) (among.avoids (by decide))) ?_
    exact readsAfter (passesTry close) (readsPure rfl)
  | cons e es =>
    have items := readsFuelled (readsItems complete closing e es ok
      (n := (itemsWritten l (e :: es) ++ (ofString close ++ rest)).length + 1)
      (by simp only [List.length_append]; omega) small rest)
    have begins : ∀ w ∈ [")","]"], w.toList.head?.any ([')',']'].contains ·) := by decide
    have opens := opensExpr l e ok.1 (amongMore l closing es rest)
    simp only [itemsWritten,List.append_assoc] at items ⊢
    refine readsAfter (passesNoBlank opens.solid opens.line) ?_
    refine readsAfter (passesNot ?_) items
    exact Cursor.dropWordAvoids (opens.head.mono (by decide)) (begins close closing)

theorem readsSequence (span : Span) (es : List Expr) (ok : allWritable es)
    (small : (itemsWritten l es).length < size) (rest : Text) :
    Reads nested.sequence (fun a => a.bare = (Expr.seq span es).bare)
      (.char '[' :: (itemsWritten l es ++ .char ']' :: rest)) rest := by
  refine readsHere fun start => readsAfter passesAdvance ?_
  refine readsBind (readsItemsUpTo complete "]" (by decide) es ok small rest) fun as bare =>
    readsHere fun stop => readsPure ?_
  simp only [Expr.bare,bare]

theorem readsCall (span : Span) (name : String) (es : List Expr) (named : Nameable name)
    (ok : allWritable es) (small : (itemsWritten l es).length < size) (rest : Text) :
    Reads nested.named (fun a => a.bare = (Expr.call span name es).bare)
      (ofString name ++ .char '(' :: (itemsWritten l es ++ .char ')' :: rest)) rest := by
  refine readsHere fun start => readsAfter (passesIdentifier named.1 ⟨'(',_,rfl,by decide⟩) ?_
  refine readsAfter (passesTry "(") ?_
  refine readsBind (readsItemsUpTo complete ")" (by decide) es ok small rest) fun as bare =>
    readsHere fun stop => readsPure ?_
  simp only [Expr.bare,bare]

theorem readsLength (span : Span) (e : Expr) (ok : e.Writable) (small : (e.written l).length < size)
    (n : Nat) (rest : Text) :
    Reads nested.length (fun a => a.bare = (Expr.len span e).bare)
      (.char '|' :: (blanks n ++ (e.written l ++ (blanks n ++ .char '|' :: rest)))) rest := by
  have ends : Ends (blanks n ++ .char '|' :: rest) := endsAt ⟨'|',rest,rfl,by decide⟩ n
  have opens := opensExpr l e ok ends.1
  refine readsHere fun start => readsAfter passesAdvance ?_
  refine readsAfter (passesSpaces opens.solid n) ?_
  refine readsBind (readsRequire _ (readsExpression complete e ok small ends)) fun a bare => ?_
  refine readsAfter (passesSpaces ⟨'|',rest,rfl,by decide⟩ n) ?_
  refine readsAfter (readsRequire _ (passesWord "|")) (readsHere fun stop => readsPure ?_)
  simp only [Expr.bare,bare]

theorem readsNegation (span : Span) (e : Expr) (ok : e.Writable) (small : (e.written l).length < size)
    (n : Nat) {rest} (closed : Among closers rest) : Reads nested.negation (fun a => a.bare = (Expr.neg span e).bare)
      (.char '-' :: (blanks n ++ (e.written l ++ rest))) rest := by
  have opens := opensExpr l e ok closed
  refine readsHere fun start => readsAfter passesAdvance ?_
  refine readsAfter (passesSpaces opens.solid n) ?_
  refine readsBind (complete.primary e ok small rest closed) fun a bare =>
    readsHere fun stop => readsPure ?_
  simp only [Expr.bare,bare]

end Expressions

theorem passesDigits (n : Nat) {rest} (seam : Among seams rest) :
    Passes (fun c => .found c.readDigits.1 c.readDigits.2) (String.ofList (Nat.toDigits 10 n))
      (digits n ++ rest) rest := by
  intro pos
  obtain ⟨last,reading⟩ := Cursor.digitsRead n seam pos
  exact ⟨_,last,by simp only [reading],rfl⟩

theorem digitsBack (n : Nat) : Nat.ofDigitChars 10 (String.ofList (Nat.toDigits 10 n)).toList 0 = n := by
  rw [String.toList_ofList]
  exact Nat.ofDigitChars_toDigits (by decide) (by decide)

theorem readsInteger (span : Span) (n : Nat) {rest} (closed : Among closers rest) :
    Reads integer (fun a => a.bare = (Expr.int span n).bare) (digits n ++ rest) rest := by
  refine readsHere fun start => readsAfter (passesDigits n (closed.mono (by decide))) ?_
  obtain ⟨c,u,rfl,noPoint⟩ : Avoids ['.'] rest := closed.avoids (by decide)
  refine readsAfter passesPeek ?_
  rw [if_neg (by simpa using noPoint)]
  refine readsHere fun stop => readsPure ?_
  simp only [Expr.bare,digitsBack]

theorem readsNull (span : Span) (rest : Text) :
    Reads nullMark (fun a => a.bare = (Expr.null span).bare) (.char '?' :: rest) rest :=
  readsHere fun _ => readsAfter passesAdvance (readsHere fun _ => readsPure rfl)

theorem readsQuote (s : String) (t : Text) :
    Reads (fun c => .found c.readText c.readText.next) (fun q => q.content = s.toList ∧ q.closed)
      (quoted s ++ t) t := by
  intro pos
  obtain ⟨last,reading⟩ := Cursor.quotedRead s t pos
  exact ⟨⟨s.toList,true,⟨last,t⟩⟩,last,by simp only [reading],rfl,rfl⟩

theorem readsTextIndex (i : Nat) (rest : Text) :
    Reads textIndex (fun a => a.2 = String.ofList (Nat.toDigits 10 i))
      (.char '[' :: (digits i ++ .char ']' :: rest)) rest := by
  have opens := opensDigits i (.char ']' :: rest)
  refine readsAfter (passesWord "[") ?_
  refine readsAfter (passesNoSpaces opens.solid) (readsHere fun start => ?_)
  refine readsAfter (passesDigits i ⟨']',rest,rfl,by decide⟩) ?_
  refine readsAfter (passesNoSpaces ⟨']',rest,rfl,by decide⟩) ?_
  have some : String.ofList (Nat.toDigits 10 i) ≠ "" := by
    intro empty
    have none := congrArg String.toList empty
    rw [String.toList_ofList] at none
    exact Nat.toDigits_ne_nil none
  rw [if_neg some]
  exact readsAfter (passesWord "]") (readsPure rfl)

theorem missesTextIndex {rest} (closed : Among closers rest) : Misses textIndex rest := by
  have outside : Avoids ['['] rest := closed.avoids (by decide)
  exact missesFirst (missesWord (Cursor.dropWordAvoids outside (by decide))) _

theorem readsQuotedText (span : Span) (s : String) (index : Option Nat)
    (inRange : ∀ i, index = some i → i < s.toList.length) {rest} (closed : Among closers rest) :
    Reads quotedText (fun a => a.bare = (Expr.text span s index).bare)
      (quoted s ++ (picked index ++ rest)) rest := by
  refine readsHere fun start => readsBind (readsQuote s _) fun q found => ?_
  obtain ⟨content,closed'⟩ := found
  rw [closed']
  cases index with
  | none =>
    have none : Passes (orElse (some <$> textIndex) (return none)) none rest rest :=
      readsElse (missesFirst (missesTextIndex closed) _) (readsPure rfl)
    refine readsAfter none (readsHere fun stop => readsPure ?_)
    simp only [Expr.bare,content,String.ofList_toList]
  | some i =>
    have picks : Reads (orElse (some <$> textIndex) (return none))
        (fun a => ∃ offset, a = some (offset,String.ofList (Nat.toDigits 10 i)))
        (.char '[' :: (digits i ++ .char ']' :: rest)) rest :=
      readsOrElse (readsBind (readsTextIndex i rest) fun a same => readsPure ⟨a.1,by rw [← same]⟩)
    simp only [picked,List.cons_append,List.append_assoc,List.nil_append]
    refine readsBind picks fun a found => ?_
    obtain ⟨offset,rfl⟩ := found
    simp only [digitsBack,content,inRange i rfl,if_true]
    refine readsHere fun stop => readsPure ?_
    simp only [Expr.bare,String.ofList_toList]

/-! Functions -/

theorem passesPause {t} (solid : Solid t) (outside : Avoids ['、'] t) (n : Nat) : Passes pause () (blanks n ++ t) t :=
  readsAfter (passesSpaces solid n)
    (readsAfter (passesNot (Cursor.dropWordAvoids outside (by decide))) (readsPure rfl))

theorem passesName {p} (named : Nameable p) (unbroken : ∀ w ∈ Cursor.bindingStops, ¬ w.toList <:+: p.toList) {rest}
    (ended : Among [',',' '] rest) :
    Passes (fun c => .found c.readName.1 c.readName.2) (ofString p) (ofString p ++ rest) rest := by
  intro pos
  obtain ⟨last,reading⟩ := Cursor.bindingRead (Cursor.nameChars named.1) unbroken ended pos
  exact ⟨_,last,by simp only [Cursor.readName,ofString,reading],rfl⟩

theorem nameSome {p} (named : Nameable p) : ofString p ≠ [] := by
  obtain ⟨c,u,same,_⟩ := Cursor.nameHead named.1 []
  rw [List.append_nil] at same
  simp [same]

theorem readsParameters (l : Layout) (p : String) (ps : List String) (ok : ∀ q ∈ p :: ps, Nameable q)
    (unbroken : ∀ q ∈ p :: ps, ∀ w ∈ Cursor.bindingStops, ¬ w.toList <:+: q.toList) {n}
    (fuel : (l.params (p :: ps)).length < n) {rest} (solid : Avoids [' ','\t','\r','#',',','、'] rest) :
    Reads (parameters n) (fun a => a.map Prod.snd = (p :: ps).map ofString)
      (l.params (p :: ps) ++ rest) rest := by
  have named := ok p List.mem_cons_self
  have stops := unbroken p List.mem_cons_self
  induction ps generalizing p n with
  | nil =>
    obtain ⟨n,rfl⟩ := Nat.exists_eq_add_one.mpr (Nat.zero_lt_of_lt fuel)
    simp only [params,moreParams,List.append_assoc]
    refine readsHere fun start => readsAfter (passesName named stops ⟨' ',_,rfl,by decide⟩) ?_
    rw [if_neg (nameSome named)]
    refine readsAfter (passesSpaces (solid.mono (by decide)) 1) ?_
    exact readsAfter (passesNoComma (solid.mono (by decide))) (readsPure rfl)
  | cons q ps ih =>
    obtain ⟨n,rfl⟩ := Nat.exists_eq_add_one.mpr (Nat.zero_lt_of_lt fuel)
    simp only [params,moreParams,comma,List.length_append,List.length_cons] at fuel ih
    simp only [params,moreParams,comma,List.append_assoc,List.cons_append] at ih ⊢
    have named' := ok q (by simp)
    have letters : ∀ t, Solid (ofString q ++ t) := Cursor.nameAvoids named'.1 (by decide)
    refine readsHere fun start => readsAfter (passesName named stops ⟨',',_,rfl,by decide⟩) ?_
    rw [if_neg (nameSome named)]
    refine readsAfter (passesNoSpaces ⟨',',_,rfl,by decide⟩) (readsAfter passesComma ?_)
    refine readsAfter (passesSpaces (letters _) _) ?_
    refine readsBind (ih q (fun r inside => ok r (List.mem_cons_of_mem p inside))
      (fun r inside => unbroken r (List.mem_cons_of_mem p inside)) (by omega) named'
      (unbroken q (by simp))) fun as later => readsPure ?_
    simp only [List.map_cons,later]

theorem passesCheck {ps : List String} (ok : Bindable ps) {as}
    (same : as.map Prod.snd = ps.map ofString) (t : Text) : Passes (checkParameters as) () t t := by
  have proper : Proper (as.map Prod.snd) := by
    rw [same]
    refine ⟨List.forall_mem_map.mpr fun p inside => (ok.names p inside).1,List.pairwise_map.mpr ?_⟩
    exact ok.distinct.imp fun differ equal => differ (Cursor.ofStringInjective equal)
  intro pos
  obtain ⟨_,found⟩ := (checkedProper _ _).resolve_right fun other => other.1 proper
  exact ⟨(),pos,found,rfl⟩

theorem passesLooksAt {w found t} (looks : (Cursor.dropWord w.toList t).isSome = found) :
    Passes (fun c => .found (c.looksAt w) c) found t t :=
  fun pos => ⟨_,pos,rfl,looks⟩

theorem amongParams (l : Layout) (ps : List String) (rest : Text) :
    Among [',',' '] (l.moreParams ps ++ rest) := by
  cases ps with
  | nil => exact ⟨' ',_,rfl,by decide⟩
  | cons p ps => exact ⟨',',_,rfl,by decide⟩

theorem solidParams (l : Layout) {ps} (ok : Bindable ps) {rest} (solid : Solid rest) : Solid (l.params ps ++ rest) := by
  cases ps with
  | nil => exact solid
  | cons p ps =>
    simp only [params,List.append_assoc]
    exact Cursor.nameAvoids (ok.names p List.mem_cons_self).1 (by decide) _

theorem looksAtParams (l : Layout) {ps} (ok : Bindable ps) (rest : Text) :
    (Cursor.dropWord "に対し".toList (l.params ps ++ (ofString "に対し" ++ rest))).isSome = ps.isEmpty := by
  cases ps with
  | nil => exact congrArg Option.isSome (Cursor.dropWordSame _ rest)
  | cons p ps =>
    have seam : Among seams (l.moreParams ps ++ (ofString "に対し" ++ rest)) :=
      (amongParams l ps _).mono (by decide)
    have unlike : ¬ "に対し".toList <+: p.toList := fun begins =>
      ok.unbroken p List.mem_cons_self "に対し" (by decide) begins.isInfix
    simp only [params,List.append_assoc]
    exact congrArg Option.isSome (Cursor.dropWordName unlike seam (by decide))

theorem readsAllParameters (l : Layout) (p : String) (ps : List String) (ok : Bindable (p :: ps))
    (rest : Text) :
    Reads (fuelled parameters) (fun a => a.map Prod.snd = (p :: ps).map ofString)
      (l.params (p :: ps) ++ (ofString "に対し" ++ rest)) (ofString "に対し" ++ rest) := by
  refine readsFuelled (readsParameters l p ps ok.names ok.unbroken ?_ ⟨'に',_,rfl,by decide⟩)
  simp only [List.length_append]
  omega

theorem textBack (s : String) : Text.toString (ofString s) = s := by simp [Text.toString,ofString,Function.comp_def,Glyph.toChar]

theorem namesBack {ps} {as : List (Nat × Text)} (same : as.map Prod.snd = ps.map ofString) :
    as.map (fun p => Text.toString p.2) = ps := by
  calc as.map (fun p => Text.toString p.2) = (as.map Prod.snd).map Text.toString := by rw [List.map_map]; rfl
    _ = ps := by simp [same,Function.comp_def,textBack]

/-! Blocks -/

structure Fresh (t : Text) : Prop where
  blank : Passes blank () t t
  branch : Cursor.dropWord "そうでなければ".toList t = none

theorem Fresh.noBranch {t} (fresh : Fresh t) : NoBranch (.char '\n' :: t) :=
  ⟨t,passesLine fresh.blank,fresh.branch⟩

theorem freshHead {t} (avoids : Avoids [' ','\t','\r','#','\n','そ'] t) : Fresh t where
  blank := passesNoBlank (avoids.mono (by decide)) (avoids.mono (by decide))
  branch := Cursor.dropWordAvoids avoids (by decide)

structure Begins (t : Text) : Prop extends Fresh t where
  brace : Avoids ['\x7d'] t

theorem beginsOpens {t} (opens : Opens t) : Begins t where
  blank := passesNoBlank opens.solid opens.line
  branch := opens.words _ (by decide)
  brace := opens.head.mono (by decide)

theorem beginsHead {t} (avoids : Avoids [' ','\t','\r','#','\n','そ','\x7d'] t) : Begins t :=
  ⟨freshHead (avoids.mono (by decide)),avoids.mono (by decide)⟩

theorem beginsStmt (l : Layout) (s : Stmt) (ok : s.Writable) (rest : Text) :
    Begins (s.written l ++ .char '\n' :: rest) := by
  have target (p : Place) (named : p.Writable) (u : Text) : Begins (p.written l ++ (gap ++ u)) :=
    beginsOpens (opensExpr l (.var p) named ⟨' ',u,rfl,by decide⟩)
  have value (e : Expr) (writable : e.Writable) (u : Text) : Begins (e.written l ++ (gap ++ u)) :=
    beginsOpens (opensExpr l e writable ⟨' ',u,rfl,by decide⟩)
  cases s with
  | assign span t v =>
    simp only [Stmt.written]
    split <;> simp only [List.append_assoc] <;> exact target t ok.1 _
  | append span t v =>
    simp only [Stmt.written,List.append_assoc]
    exact target t ok.1 _
  | increment span t =>
    simp only [Stmt.written,List.append_assoc]
    exact target t ok _
  | decrement span t =>
    simp only [Stmt.written,List.append_assoc]
    exact target t ok _
  | cond span a b cmp yes no => exact beginsHead ⟨'も',_,rfl,by decide⟩
  | loop span n body =>
    simp only [Stmt.written,List.append_assoc]
    exact value n ok.1 _
  | leave span =>
    simp only [Stmt.written,leaveWord]
    split
    · exact beginsHead ⟨'繰',_,rfl,by decide⟩
    · exact beginsHead ⟨'く',_,rfl,by decide⟩
  | answer span e =>
    simp only [Stmt.written,List.append_assoc]
    exact value e ok _
  | observe span e => exact beginsOpens (opensExpr l e ok ⟨'\n',rest,rfl,by decide⟩)
  | doctest span e expected => exact beginsHead ⟨'>',_,rfl,by decide⟩

theorem freshBody (l : Layout) (body : List Stmt) (ok : bodyWritable body) {rest}
    (fresh : Fresh rest) : Fresh (bodyWritten l body ++ rest) := by
  cases body with
  | nil => exact fresh
  | cons s body =>
    simp only [bodyWritten,List.append_assoc,List.cons_append]
    exact (beginsStmt l s ok.1 _).toFresh

theorem passesMore {cs t} (avoids : Avoids cs t) : Passes (fun c => .found c.atEnd c) false t t := by
  obtain ⟨c,u,rfl,_⟩ := avoids
  exact fun pos => ⟨false,pos,rfl,rfl⟩

section Blocks

variable {nested : Phrases} {l : Layout} {size : Nat} (complete : nested.Complete l size)

include complete

theorem readsStatements (start : Nat) (body : List Stmt) (ok : bodyWritable body) {n}
    (fuel : (bodyWritten l body).length < n) (small : (bodyWritten l body).length < size) {t}
    (rest : Text) (begin' : Passes blank () t (bodyWritten l body ++ .char '\x7d' :: rest)) :
    Reads (nested.statements start n) (fun a => bodyBare a = bodyBare body) t rest := by
  induction body generalizing n t with
  | nil =>
    obtain ⟨n,rfl⟩ := Nat.exists_eq_add_one.mpr (Nat.zero_lt_of_lt fuel)
    exact readsAfter begin' (readsAfter (passesTry "\x7d") (readsPure rfl))
  | cons s body ih =>
    obtain ⟨n,rfl⟩ := Nat.exists_eq_add_one.mpr (Nat.zero_lt_of_lt fuel)
    simp only [bodyWritten,List.length_append,List.length_cons] at fuel small
    simp only [bodyWritten,List.append_assoc,List.cons_append] at begin'
    have begins := beginsStmt l s ok.1 (bodyWritten l body ++ .char '\x7d' :: rest)
    have fresh : Fresh (bodyWritten l body ++ .char '\x7d' :: rest) :=
      freshBody l body ok.2 (freshHead ⟨'\x7d',rest,rfl,by decide⟩)
    refine readsAfter begin' (readsAfter (passesNot (Cursor.dropWordAvoids begins.brace (by decide))) ?_)
    refine readsAfter (passesMore begins.brace) ?_
    refine readsBind (complete.statement s ok.1 (by omega) _ fresh.noBranch) fun a same => ?_
    refine readsBind (ih ok.2 (by omega) (by omega) (passesLine fresh.blank)) fun as later => readsPure ?_
    simp only [bodyBare,same,later]

theorem readsBlock (b : Block) (ok : b.Writable) (small : (b.written l).length < size) (rest : Text) :
    Reads nested.block (fun a => a.bare = b.bare) (b.written l ++ rest) rest := by
  obtain ⟨span,body⟩ := b
  simp only [Block.written,List.length_append,List.length_cons] at small
  simp only [Block.written,List.append_assoc,List.cons_append,List.nil_append]
  have fresh : Fresh (bodyWritten l body ++ .char '\x7d' :: rest) :=
    freshBody l body ok (freshHead ⟨'\x7d',rest,rfl,by decide⟩)
  refine readsHere fun start => readsAfter (readsRequire _ (passesWord "\x7b")) ?_
  refine readsBind (readsFuelled (readsStatements complete start body ok ?_ (by omega) rest
    (passesLine fresh.blank))) fun as bare => readsHere fun stop => readsPure ?_
  · simp only [List.length_cons,List.length_append]
    omega
  · simp only [Block.bare,bare]

theorem readsPaused (b : Block) (ok : b.Writable) (small : (b.written l).length < size) {rest t}
    {α : Type} {f : Block → Reader α} {Q : α → Prop} (next : ∀ a, a.bare = b.bare → Reads (f a) Q rest t) :
    Reads (pause >>= fun _ => nested.block >>= f) Q (gap ++ (b.written l ++ rest)) t := by
  have block := readsBlock complete b ok small rest
  obtain ⟨span,body⟩ := b
  exact readsAfter (passesPause ⟨'\x7b',_,rfl,by decide⟩ ⟨'\x7b',_,rfl,by decide⟩ 1) (readsBind block next)

theorem readsBound {ps} {body : Block} (bindable : Bindable ps) (ok : body.Writable)
    (small : (body.written l).length < size) (rest : Text) {as : List (Nat × Text)}
    (same : as.map Prod.snd = ps.map ofString) {f : Block → Reader Expr} {Q : Expr → Prop}
    (next : ∀ b, b.bare = body.bare → Reads (f b) Q rest rest) :
    Reads (word "に対し" >>= fun _ => checkParameters as >>= fun _ => tryWord "て" >>= fun _ =>
      pause >>= fun _ => nested.block >>= f) Q
      (ofString "に対し" ++ (gap ++ (body.written l ++ rest))) rest := by
  refine readsAfter (passesWord "に対し") (readsAfter (passesCheck bindable same _) ?_)
  have noEnding : Avoids ['て'] (gap ++ (body.written l ++ rest)) := ⟨' ',_,rfl,by decide⟩
  refine readsAfter (passesNot (Cursor.dropWordAvoids noEnding (by decide))) ?_
  exact readsPaused complete body ok small next

theorem readsFunction (span : Span) (ps : List String) (body : Block) (bindable : Bindable ps)
    (ok : body.Writable) (small : (body.written l).length < size) (rest : Text) :
    Reads nested.function (fun a => a.bare = (Expr.fn span ps body).bare)
      ((Expr.fn span ps body).written l ++ rest) rest := by
  simp only [Expr.written,List.append_assoc]
  refine readsHere fun start => readsAfter (passesWord "入力") ?_
  refine readsAfter (passesSpaces (solidParams l bindable ⟨'に',_,rfl,by decide⟩) 1) ?_
  refine readsAfter (passesLooksAt (looksAtParams l bindable _)) ?_
  cases ps with
  | nil =>
    refine readsAfter (readsPure rfl) (readsBound complete bindable ok small rest rfl fun b bare => ?_)
    refine readsHere fun stop => readsPure ?_
    simp only [Expr.bare,bare,List.map_nil]
  | cons p ps =>
    refine readsBind (readsAllParameters l p ps bindable _) fun as same => ?_
    refine readsBound complete bindable ok small rest same fun b bare => ?_
    refine readsHere fun stop => readsPure ?_
    simp only [Expr.bare,bare,namesBack same]

end Blocks

/-! Expressions -/

section Primary

variable {nested : Phrases}

theorem onePrimaryWordy {c : Char} (digit : Cursor.isDigit (.char c) = false)
    (others : c ∉ ['"','|','-','[','?']) (pos : Nat) (u : Text) :
    nested.onePrimary ⟨pos,.char c :: u⟩ = orElse nested.function nested.named ⟨pos,.char c :: u⟩ := by
  have number : ('0' ≤ c && c ≤ '9') = false := digit
  simp only [List.mem_cons,List.not_mem_nil,or_false,not_or] at others
  obtain ⟨quote,bar,minus,bracket,mark⟩ := others
  simp only [onePrimary,Bind.bind,Reader.bind,peek,Cursor.peek,Glyph.toChar,number,if_neg quote,if_neg bar,
    if_neg minus,if_neg bracket,if_neg mark]
  rfl

theorem missesFunction {t} (missing : Cursor.dropWord "入力".toList t = none) : Misses nested.function t :=
  missesHere fun _ => missesFirst (missesWord missing) _

theorem readsWordy {name} (named : Nameable name) {rest t} (seam : Among seams rest)
    {P : Expr → Prop} (reads : Reads nested.named P (ofString name ++ rest) t) :
    Reads nested.onePrimary P (ofString name ++ rest) t := by
  have noFunction := Cursor.dropWordName (named.2 "入力" (by decide)) seam (by decide)
  have others : Avoids ['"','|','-','[','?'] (ofString name ++ rest) :=
    Cursor.nameAvoids named.1 (by decide) rest
  obtain ⟨c,u,same,letter⟩ := Cursor.nameHead named.1 rest
  obtain ⟨c',u',same',outside⟩ := others
  rw [same] at same' noFunction reads ⊢
  cases same'
  have digit : Cursor.isDigit (.char c) = false := by
    refine Bool.eq_false_iff.mpr fun digit => ?_
    rw [Cursor.digitNoLetter digit] at letter
    contradiction
  have misses : Misses nested.function (.char c :: u) := missesFunction noFunction
  intro pos
  rw [onePrimaryWordy digit outside]
  exact readsElse misses reads pos

theorem missesForeign {t} (foreign : Foreign t) : Misses nested.onePrimary t := by
  obtain ⟨c,u,rfl,inside,none⟩ := foreign
  have digits : ['>','く','繰'].all fun d => !Cursor.isDigit (.char d) := by decide
  have digit : Cursor.isDigit (.char c) = false := by simpa using List.all_eq_true.mp digits c inside
  have begins : Among ['>','く','繰'] (.char c :: u) := ⟨c,u,rfl,inside⟩
  obtain ⟨_,_,same,others⟩ : Avoids ['"','|','-','[','?'] (.char c :: u) := begins.avoids (by decide)
  cases same
  have noFunction : Avoids ['入'] (.char c :: u) := begins.avoids (by decide)
  have function : Misses nested.function (.char c :: u) :=
    missesFunction (Cursor.dropWordAvoids noFunction (by decide))
  have named : Misses nested.named (.char c :: u) := missesHere fun _ => missesFirst (missesIdentifier none) _
  intro pos
  rw [onePrimaryWordy digit others]
  exact missesOrElse function named pos

variable {l : Layout} {size : Nat} (complete : nested.Complete l size)

include complete

theorem readsOnePrimary (e : Expr) (ok : e.Writable) (small : (e.written l).length < size + 1) {rest}
    (closed : Among closers rest) : Reads nested.onePrimary (fun a => a.bare = e.bare) (e.written l ++ rest) rest := by
  cases e with
  | int span n =>
    have reads := readsInteger span n closed
    obtain ⟨c,u,same,digit⟩ := digitsHead n rest
    simp only [Expr.written]
    rw [same] at reads ⊢
    have number : ('0' ≤ c && c ≤ '9') = true := digit
    refine readsAfter passesPeek ?_
    rw [if_pos number]
    exact reads
  | null span => exact readsAfter passesPeek (readsNull span rest)
  | text span s index =>
    simp only [Expr.written,List.append_assoc]
    exact readsAfter passesPeek (readsQuotedText span s index ok closed)
  | seq span es =>
    simp only [Expr.written,List.length_append,List.length_cons] at small
    simp only [Expr.written,List.append_assoc,List.cons_append,List.nil_append]
    exact readsAfter passesPeek (readsSequence complete span es ok (by omega) rest)
  | var p =>
    obtain ⟨span,name,is⟩ := p
    have some : 0 < (ofString name).length := List.length_pos_iff.mpr (nameSome ok.1)
    simp only [Expr.written,Place.written,List.length_append] at small
    simp only [Expr.written,Place.written,List.append_assoc]
    exact readsWordy ok.1 ((amongIndices l is closed).mono (by decide))
      (readsVariable complete span name is ok.1.1 ok.2 (by omega) closed)
  | fn span ps body =>
    have one : gap.length = 1 := rfl
    simp only [Expr.written,List.length_append] at small
    exact readsAfter passesPeek (readsOrElse (readsFunction complete span ps body ok.1 ok.2 (by omega) rest))
  | call span name es =>
    simp only [Expr.written,List.length_append,List.length_cons] at small
    simp only [Expr.written,List.append_assoc,List.cons_append,List.nil_append]
    exact readsWordy ok.1 ⟨'(',_,rfl,by decide⟩ (readsCall complete span name es ok.1 ok.2 (by omega) rest)
  | neg span e =>
    simp only [Expr.written,List.length_append,List.length_cons] at small
    simp only [Expr.written,List.append_assoc,List.cons_append]
    exact readsAfter passesPeek (readsNegation complete span e ok (by omega) _ closed)
  | len span e =>
    simp only [Expr.written,List.length_append,List.length_cons] at small
    simp only [Expr.written,List.append_assoc,List.cons_append,List.nil_append]
    exact readsAfter passesPeek (readsLength complete span e ok (by omega) _ rest)

end Primary

end Phrases

end Terakoya
