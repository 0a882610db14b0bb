import Terakoya.Proofs.Passage
import Terakoya.Session.Pending

/-! Brackets shelter what stands between them. Reading and the count of open brackets agree: a phrase
leaves as many brackets open as it found, in no literal and in no comment. The fence of a place is the
first newline or closing brace after it that no bracket shelters; no expression reads past the fence,
nor does the search for a phrase that turns out to be missing. A quality of texts that runs through
their pieces is carried along. -/
namespace Terakoya

variable {α β : Type}

namespace Pending

def scan (n : Count) (t : Text) : Count := (t.map Glyph.toChar).foldl step n

def stops (n : Count) (g : Glyph) : Bool :=
  n.depth ≤ 0 && (g.toChar = '\n' && (n.place = .code || n.place = .comment) ||
    g.toChar = '\x7d' && n.place = .code)

/-- The rest of a text from the first glyph on with which a line or the block around it ends. -/
def fence (n : Count) : Text → Text
  | [] => []
  | g :: t => if stops n g then g :: t else fence (step n g.toChar) t

def Ends (t : Text) : Prop := t = [] ∨ ∃ u, t = .newline :: u

structure Sealed (n : Count) (e : Int) (u t : Text) : Prop where
  settled : scan n u = ⟨.code,e⟩ ∨ scan n u = ⟨.comment,e⟩ ∧ Ends t
  fenced : fence n (u ++ t) = fence ⟨.code,e⟩ t

variable {b e k : Int} {u v t : Text} {m n : Count}

theorem scanAppend (n : Count) (s t : Text) : scan n (s ++ t) = scan (scan n s) t := by
  simp [scan]

theorem scanCons (n : Count) (g : Glyph) (t : Text) : scan n (g :: t) = scan (step n g.toChar) t := rfl

theorem fenceLength (n : Count) (t : Text) : (fence n t).length ≤ t.length := by
  induction t generalizing n with
  | nil => exact Nat.le_refl _
  | cons g t ih =>
    unfold fence
    split
    · exact Nat.le_refl _
    · exact Nat.le_succ_of_le (ih _)

theorem fenceComment (ends : Ends t) (b : Int) : fence ⟨.comment,b⟩ t = fence ⟨.code,b⟩ t := by
  rcases ends with rfl | ⟨u,rfl⟩
  · rfl
  · simp [fence,stops,step,isOpening,isClosing,Glyph.newline,Glyph.toChar]

theorem scanComment (ends : Ends (v ++ t)) (some : v ≠ []) (b : Int) : scan ⟨.comment,b⟩ v = scan ⟨.code,b⟩ v := by
  rcases v with _ | ⟨g,v⟩
  · contradiction
  · obtain none | ⟨u,same⟩ := ends
    · contradiction
    · obtain ⟨rfl,_⟩ := List.cons.inj same
      rfl

theorem scanShift (n : Count) (k : Int) (u : Text) :
    scan ⟨n.place,n.depth + k⟩ u = ⟨(scan n u).place,(scan n u).depth + k⟩ := by
  induction u generalizing n with
  | nil => rfl
  | cons g u ih =>
    have same : step ⟨n.place,n.depth + k⟩ g.toChar = ⟨(step n g.toChar).place,(step n g.toChar).depth + k⟩ := by
      obtain ⟨place,depth⟩ := n
      unfold step
      cases place <;> dsimp only <;> split_ifs <;> simp only [Count.mk.injEq,true_and] <;> omega
    rw [scanCons,scanCons,same,ih]

theorem sealedNone (b : Int) (t : Text) : Sealed ⟨.code,b⟩ b [] t := ⟨Or.inl rfl,rfl⟩

theorem sealedEnd (ends : Ends t) (b : Int) : Sealed ⟨.comment,b⟩ b [] t := ⟨Or.inr ⟨rfl,ends⟩,fenceComment ends b⟩

theorem sealedGlyph {g} (stepped : step n g.toChar = m) (goes : stops n g = false)
    (rest : Sealed m e u t) : Sealed n e (g :: u) t := by
  subst stepped
  refine ⟨rest.settled,?_⟩
  rw [List.cons_append,fence,goes]
  exact rest.fenced

theorem sealedSame {g} (stepped : step m g.toChar = step n g.toChar) (goes : stops n g = false)
    (goes' : stops m g = false) (known : Sealed n e (g :: u) t) : Sealed m e (g :: u) t := by
  refine ⟨?_,Eq.trans ?_ known.fenced⟩
  · rw [scanCons,stepped]
    exact known.settled
  · rw [List.cons_append,fence,fence,goes,goes',stepped]

theorem sealedAppend (first : Sealed n e u (v ++ t)) (second : Sealed ⟨.code,e⟩ k v t) : Sealed n k (u ++ v) t := by
  refine ⟨?_,by rw [List.append_assoc,first.fenced,second.fenced]⟩
  rw [scanAppend]
  rcases first.settled with code | ⟨comment,ends⟩
  · rw [code]
    exact second.settled
  · rw [comment]
    by_cases none : v = []
    · subst none
      rcases second.settled with same | ⟨other,_⟩
      · cases same
        exact Or.inr ⟨rfl,ends⟩
      · cases other
    · rw [scanComment ends none]
      exact second.settled

def signs : List Char := ['"','#','(','[','\x7b',')',']','\x7d','\n']

def isPlain (c : Char) : Bool := !signs.contains c

theorem plainUnless {c} (foreign : c ∉ signs) : isPlain c := by
  simpa [isPlain] using foreign

theorem stepPlain {c} (plain : isPlain c) : step ⟨.code,b⟩ c = ⟨.code,b⟩ := by
  simp only [isPlain,signs,List.contains_cons,List.contains_nil,Bool.not_eq_true',Bool.or_eq_false_iff,
    beq_eq_false_iff_ne,Bool.or_false] at plain
  simp [step,isOpening,isClosing,plain]

theorem stopsPlain {g} (plain : isPlain g.toChar) : stops n g = false := by
  simp only [isPlain,signs,List.contains_cons,List.contains_nil,Bool.not_eq_true',Bool.or_eq_false_iff,
    beq_eq_false_iff_ne,Bool.or_false] at plain
  simp [stops,plain]

theorem stopsInside (inside : 1 ≤ n.depth) (g : Glyph) : stops n g = false := by
  have deep : ¬ n.depth ≤ 0 := by omega
  simp [stops,deep]

theorem sealedPlain (plain : ∀ g ∈ u, isPlain g.toChar) (b : Int) (t : Text) : Sealed ⟨.code,b⟩ b u t := by
  induction u with
  | nil => exact sealedNone b t
  | cons g u ih =>
    obtain ⟨first,rest⟩ := List.forall_mem_cons.mp plain
    exact sealedGlyph (stepPlain first) (stopsPlain first) (ih rest)

theorem sealedOpening {c} (opening : isOpening c) (b : Int) (t : Text) : Sealed ⟨.code,b⟩ (b + 1) [.char c] t := by
  simp only [isOpening,Bool.or_eq_true,decide_eq_true_eq] at opening
  refine sealedGlyph ?_ ?_ (sealedNone _ t)
  · rcases opening with (rfl | rfl) | rfl <;> rfl
  · rcases opening with (rfl | rfl) | rfl <;> simp [stops,Glyph.toChar]

theorem sealedClosing {c} (closing : isClosing c) (inside : 1 ≤ b) (t : Text) : Sealed ⟨.code,b⟩ (b - 1) [.char c] t := by
  simp only [isClosing,Bool.or_eq_true,decide_eq_true_eq] at closing
  refine sealedGlyph ?_ (stopsInside inside _) (sealedNone _ t)
  rcases closing with (rfl | rfl) | rfl <;> rfl

end Pending

namespace Cursor

open Pending

variable {c d : Cursor} {b : Int}

def skipPlace : Bool → Pending.Place
  | true => .comment
  | false => .code

theorem skipPlaceEnd {comment t} (ends : comment = true → Ends t) : Sealed ⟨skipPlace comment,b⟩ b [] t := by
  cases comment with
  | true => exact sealedEnd (ends rfl) b
  | false => exact sealedNone b t

theorem plainOfBlank {lines c} (blank : isBlank lines c) (other : c ≠ '\n') : isPlain c := by
  simp only [isBlank,Bool.or_eq_true,Bool.and_eq_true,decide_eq_true_eq,other,and_false,or_false] at blank
  rcases blank with (rfl | rfl) | rfl <;> decide

theorem sealedSkip (lines comment : Bool) (inside : lines = true → 1 ≤ b) (pos : Nat) (t : Text) :
    ∃ u, Over ⟨pos,t⟩ u (skipFrom lines comment pos t) ∧
      Sealed ⟨skipPlace comment,b⟩ b u (skipFrom lines comment pos t).rest := by
  induction t generalizing comment pos with
  | nil => exact ⟨[],overNone _,skipPlaceEnd fun _ => Or.inl rfl⟩
  | cons g t ih =>
    unfold skipFrom
    split_ifs with newline line skipped blank
    · obtain ⟨u,across,rest⟩ := ih false (pos + g.width)
      refine ⟨g :: u,overTrans (overGlyph pos g t) across,sealedGlyph ?_ (stopsInside (inside line) g) rest⟩
      rw [Glyph.charOfIs newline]
      cases comment <;> rfl
    · exact ⟨[],overNone _,skipPlaceEnd fun _ => Or.inr ⟨t,by rw [Glyph.isNewline newline]⟩⟩
    · obtain ⟨u,across,rest⟩ := ih true (pos + g.width)
      have other : g.toChar ≠ '\n' := fun same => newline (Glyph.eqOfChar same (by decide) ▸ rfl)
      refine ⟨g :: u,overTrans (overGlyph pos g t) across,?_⟩
      cases comment with
      | true => exact sealedGlyph (by simp [step,skipPlace,other]) (by simp [stops,skipPlace,other]) rest
      | false =>
        have hash : g.toChar = '#' := Glyph.charOfIs skipped
        exact sealedGlyph (by simp [step,skipPlace,hash]) (by simp [stops,skipPlace,hash]) rest
    · obtain ⟨u,across,rest⟩ := ih false (pos + g.width)
      have other : g.toChar ≠ '\n' := fun same => newline (Glyph.eqOfChar same (by decide) ▸ rfl)
      have plain := plainOfBlank blank other
      obtain ⟨rfl,_⟩ := Bool.or_eq_false_iff.mp (Bool.eq_false_iff.mpr skipped)
      exact ⟨g :: u,overTrans (overGlyph pos g t) across,sealedGlyph (stepPlain plain) (stopsPlain plain) rest⟩
    · refine ⟨[],overNone _,skipPlaceEnd fun commented => ?_⟩
      rw [commented] at skipped
      exact absurd rfl skipped

def Only (p : Char → Bool) (c d : Cursor) : Prop := ∃ u, c.Over u d ∧ ∀ g ∈ u, p g.toChar

section Only

variable {p q : Char → Bool}

theorem onlyRefl (p : Char → Bool) (c : Cursor) : c.Only p c := ⟨[],overNone c,fun _ none => absurd none List.not_mem_nil⟩

theorem onlyTrans {e} (first : c.Only p d) (second : d.Only p e) : c.Only p e := by
  obtain ⟨u,across,passes⟩ := first
  obtain ⟨v,across',passes'⟩ := second
  exact ⟨u ++ v,overTrans across across',fun g inside => (List.mem_append.mp inside).elim (passes g) (passes' g)⟩

theorem onlyGlyph {pos g t} (passes : p g.toChar) (later : Only p ⟨pos + g.width,t⟩ d) : Only p ⟨pos,g :: t⟩ d :=
  onlyTrans ⟨[g],overGlyph pos g t,List.forall_mem_singleton.mpr passes⟩ later

end Only

def isWordy (c : Char) : Bool := isNameLetter c || ('0' ≤ c && c ≤ '9')

theorem wordyLetter {c} (letter : isNameLetter c) : isWordy c := by
  rw [isWordy,letter,Bool.true_or]

theorem wordyDigit {g} (digit : isDigit g) : isWordy g.toChar := Bool.or_eq_true_iff.mpr (Or.inr digit)

theorem wordyOutside {c} {cs : List Char} (wordy : isWordy c) (foreign : cs.all (!isWordy ·)) : c ∉ cs := by
  intro inside
  have none := List.all_eq_true.mp foreign c inside
  rw [wordy] at none
  contradiction

theorem bindingOutside {g : Glyph} {t : Text} {cs : List Char} (going : ¬ endsBinding (g :: t))
    (ending : cs.all fun d => Text.isSpace d || bindingPunctuation.contains d) : g.toChar ∉ cs := by
  intro inside
  have ends := List.all_eq_true.mp ending _ inside
  exact going (by rw [endsBinding,ends,Bool.true_or])

theorem plainOfWordy (c : Char) (wordy : isWordy c) : isPlain c := plainUnless (wordyOutside wordy (by decide))

theorem plainOfBinding {g : Glyph} {t : Text} (going : ¬ endsBinding (g :: t)) : isPlain g.toChar :=
  plainUnless (bindingOutside going (by decide))

theorem wordyDigits (pos : Nat) (t : Text) : Only isWordy ⟨pos,t⟩ (readWhile isDigit pos t).2 := by
  induction t generalizing pos with
  | nil => exact onlyRefl _ _
  | cons g t ih =>
    unfold readWhile
    split
    · rename_i digit
      exact onlyGlyph (wordyDigit digit) (ih _)
    · exact onlyRefl _ _

theorem wordyLetters (first : Bool) (pos : Nat) (t : Text) : Only isWordy ⟨pos,t⟩ (readLetters first pos t).2 := by
  induction t generalizing first pos with
  | nil => exact onlyRefl _ _
  | cons g t ih =>
    unfold readLetters
    split
    · rename_i letter
      exact onlyGlyph (wordyLetter (Bool.and_eq_true_iff.mp letter).1) (ih false _)
    · exact onlyRefl _ _

theorem wordyIdentifier (c : Cursor) : c.Only isWordy c.readIdentifier.2 := by
  unfold readIdentifier
  split
  · exact onlyRefl _ c
  · rename_i letters next _ reading
    have first := wordyLetters true c.pos c.rest
    rw [reading] at first
    exact onlyTrans first (wordyDigits next.pos next.rest)

theorem plainName (c : Cursor) : c.Only isPlain c.readName.2 := by
  obtain ⟨pos,t⟩ := c
  simp only [readName]
  induction t generalizing pos with
  | nil => exact onlyRefl _ _
  | cons g t ih =>
    unfold readBinding
    split
    · exact onlyRefl _ _
    · rename_i going
      exact onlyGlyph (plainOfBinding going) (ih _)

theorem sealedOnly (only : c.Only isPlain d) : ∃ u, c.Over u d ∧ Sealed ⟨.code,b⟩ b u d.rest := by
  obtain ⟨u,across,plain⟩ := only
  exact ⟨u,across,sealedPlain plain b d.rest⟩

theorem overBoth {P R : Text → Prop} (first : ∃ u, c.Over u d ∧ P u) (second : ∃ u, c.Over u d ∧ R u) :
    ∃ u, c.Over u d ∧ P u ∧ R u := by
  obtain ⟨u,across,known⟩ := first
  obtain ⟨v,across',known'⟩ := second
  obtain rfl : v = u := List.append_cancel_right (across'.rest.symm.trans across.rest)
  exact ⟨v,across,known,known'⟩

theorem sealedQuoted (pos : Nat) (t : Text) (closed : (readQuoted pos t).closed) :
    ∃ u, Over ⟨pos,t⟩ u (readQuoted pos t).next ∧ Sealed ⟨.literal,b⟩ b u (readQuoted pos t).next.rest := by
  have goes (place : Pending.Place) (quoted : place = .literal ∨ place = .escape) (g : Glyph) :
      stops ⟨place,b⟩ g = false := by
    rcases quoted with rfl | rfl <;> simp [stops]
  fun_induction readQuoted pos t with
  | case1 => contradiction
  | case2 pos t =>
    exact ⟨_,overGlyph pos _ t,sealedGlyph rfl (goes _ (Or.inl rfl) _) (sealedNone b t)⟩
  | case3 => contradiction
  | case4 pos => contradiction
  | case5 pos g t c escape ih =>
    obtain ⟨u,across,rest⟩ := ih closed
    refine ⟨_,overTrans (overGlyph pos _ _) (overTrans (overGlyph _ g t) across),?_⟩
    exact sealedGlyph rfl (goes _ (Or.inl rfl) _) (sealedGlyph rfl (goes _ (Or.inr rfl) _) rest)
  | case6 pos g t none early ih =>
    -- a newline leaves the text open; behind a backslash the null character counts as any other
    obtain ⟨u,across,rest⟩ := ih closed
    refine ⟨_,overTrans (overGlyph pos _ _) across,sealedGlyph rfl (goes _ (Or.inl rfl) _) ?_⟩
    rcases u with _ | ⟨g',u⟩
    · rcases rest.settled with same | ⟨same,_⟩ <;> cases same
    · obtain ⟨rfl,_⟩ := List.cons.inj across.rest
      rcases Bool.or_eq_true_iff.mp early with newline | null
      · rw [Glyph.isNewline newline] at closed
        contradiction
      · have stepped : step ⟨.escape,b⟩ g.toChar = step ⟨.literal,b⟩ g.toChar := by
          rw [Glyph.charOfIs null]
          rfl
        exact sealedSame stepped (goes _ (Or.inl rfl) _) (goes _ (Or.inr rfl) _) rest
  | case7 pos g t none late ih =>
    obtain ⟨u,across,rest⟩ := ih closed
    refine ⟨_,overTrans (overGlyph pos _ _) (overTrans (overGlyph _ g t) across),?_⟩
    exact sealedGlyph rfl (goes _ (Or.inl rfl) _) (sealedGlyph rfl (goes _ (Or.inr rfl) _) rest)
  | case8 pos g t quote newline last escape ih =>
    obtain ⟨u,across,rest⟩ := ih closed
    refine ⟨_,overTrans (overGlyph pos g t) across,sealedGlyph ?_ (goes _ (Or.inl rfl) _) rest⟩
    have differs : g.toChar ≠ '"' ∧ g.toChar ≠ '\n' := ⟨fun same => quote (Glyph.eqOfChar same (by decide)),
      fun same => newline (Glyph.eqOfChar same (by decide))⟩
    have other : g.toChar ≠ '\\' := by
      intro same
      cases t with
      | nil => exact last (Glyph.eqOfChar same (by decide)) rfl
      | cons g' t => exact escape g' t (Glyph.eqOfChar same (by decide)) rfl
    simp [step,differs,other]

end Cursor

namespace Pending

variable {b e k : Int} {u v t : Text} {Q : Text → Prop}

def isMild (c : Char) : Bool := isPlain c && c ≠ '>'

/-- A quality of texts that their pieces hand on, and that plain text has as long as it asks nothing. -/
class Thread (Q : Text → Prop) : Prop where
  mild : ∀ {u}, (∀ g ∈ u, isMild g.toChar) → Q u
  append : ∀ {u v}, Q u → Q v → Q (u ++ v)
  spaces : ∀ c : Cursor, ∃ u, c.Over u c.skipSpaces ∧ Q u

class Line (Q : Text → Prop) : Prop extends Thread Q where
  name : ∀ c : Cursor, Q c.readName.1

/-- Signs, blanks, heads and quoted texts have the quality, and so phrases of several lines do. -/
class Texture (Q : Text → Prop) : Prop extends Thread Q where
  sign : ∀ {c}, c ≠ '>' → Q [.char c]
  blank : ∀ c : Cursor, ∃ u, c.Over u c.skipBlank ∧ Q u
  header : ∀ {c ps d}, Phrases.header c = .found ps d → ∃ u, c.Over u d ∧ Q u
  quoted : ∀ {pos t}, (Cursor.readQuoted pos t).closed →
    ∃ u, Cursor.Over ⟨pos,t⟩ u (Cursor.readQuoted pos t).next ∧ Q (.char '"' :: u)

def Any (_ : Text) : Prop := True

instance : Line Any where
  mild _ := trivial
  append _ _ := trivial
  spaces c := (Cursor.aheadSpaces c).imp fun _ across => ⟨across,trivial⟩
  name _ := trivial

instance : Texture Any where
  sign _ := trivial
  blank c := (Cursor.aheadBlank c).imp fun _ across => ⟨across,trivial⟩
  header {c _ _} found := by
    have eats : Reader.Eats c 0 Phrases.header := Phrases.eatsHeader
    exact (Reader.movesFound eats.1 (Cursor.aheadRefl c) found).imp fun _ across => ⟨across,trivial⟩
  quoted _ := (Cursor.aheadQuoted _ _).imp fun _ across => ⟨across,trivial⟩

def Passed (Q : Text → Prop) (b e : Int) (u t : Text) : Prop := Sealed ⟨.code,b⟩ e u t ∧ Q u

section Thread

variable [Thread Q]

theorem passedMild (mild : ∀ g ∈ u, isMild g.toChar) (b : Int) (t : Text) : Passed Q b b u t :=
  ⟨sealedPlain (fun g inside => (Bool.and_eq_true_iff.mp (mild g inside)).1) b t,Thread.mild mild⟩

theorem passedNone (b : Int) (t : Text) : Passed Q b b [] t := passedMild (List.forall_mem_nil _) b t

theorem passedAppend (first : Passed Q b e u (v ++ t)) (second : Passed Q e k v t) : Passed Q b k (u ++ v) t :=
  ⟨sealedAppend first.1 second.1,Thread.append first.2 second.2⟩

end Thread

section Texture

variable [Texture Q]

theorem passedOpening {c} (opening : isOpening c) (b : Int) (t : Text) : Passed Q b (b + 1) [.char c] t :=
  ⟨sealedOpening opening b t,Texture.sign (by rintro rfl; contradiction)⟩

theorem passedClosing {c} (closing : isClosing c) (inside : 1 ≤ b) (t : Text) : Passed Q b (b - 1) [.char c] t :=
  ⟨sealedClosing closing inside t,Texture.sign (by rintro rfl; contradiction)⟩

end Texture

end Pending

namespace Reader

open Pending Text

variable {b e k : Int} {Q : Text → Prop} {r s : Reader α} {f : α → Reader β}

def Stays (b : Int) (r : Reader α) : Prop :=
  ∀ c d, r c = .absent d → ∃ n, fence ⟨.code,b⟩ c.rest = fence n d.rest

/-- What is found takes the number of open brackets from one to another, without reaching the fence. -/
def Shelters (Q : Text → Prop) (b e : Int) (r : Reader α) : Prop :=
  (∀ c a d, r c = .found a d → ∃ u, c.Over u d ∧ Passed Q b e u d.rest) ∧ Stays b r

def Certain (r : Reader α) : Prop := ∀ c d, r c ≠ .absent d

theorem absentBind {c d} (missing : (r >>= f) c = .absent d) :
    r c = .absent d ∨ ∃ a x, r c = .found a x ∧ f a x = .absent d := by
  simp only [Bind.bind,Reader.bind] at missing
  split at missing <;> try contradiction
  · rename_i a x first
    exact Or.inr ⟨a,x,first,missing⟩
  · rename_i x first
    cases missing
    exact Or.inl first

theorem certainFound (total : ∀ c, ∃ a d, r c = .found a d) : Certain r := by
  intro c d missing
  obtain ⟨a,x,found⟩ := total c
  rw [found] at missing
  contradiction

theorem certainBind (first : Certain r) (next : ∀ a, Certain (f a)) : Certain (r >>= f) := by
  intro c d missing
  rcases absentBind missing with missing | ⟨a,x,_,missing⟩
  · exact first c d missing
  · exact next a x d missing

theorem certainRequire (what : Expectation) (r : Reader α) : Certain (require what r) := by
  intro c d missing
  simp only [require] at missing
  split at missing
  · contradiction
  · rename_i other
    exact other d missing

theorem certainOrElse (second : Certain s) : Certain (orElse r s) := by
  intro c d missing
  simp only [orElse] at missing
  split at missing
  · exact second c d missing
  · rename_i other
    exact other d missing

theorem certainTry (w : String) : Certain (tryWord w) := by
  intro c d missing
  simp only [tryWord] at missing
  split at missing <;> contradiction

theorem certainTryAny (ws : List String) : Certain (tryWords ws) := by
  refine certainFound fun c => ?_
  simp only [tryWords]
  split
  · exact ⟨_,_,rfl⟩
  · exact ⟨_,_,rfl⟩

theorem certainIf {asks : Reader Bool} {r s : Reader β} (first : Certain asks) (yes : Certain r) (no : Certain s) :
    Certain (asks >>= fun there => if there then r else s) := by
  refine certainBind first fun there => ?_
  cases there with
  | true => exact yes
  | false => exact no

theorem certainHere {f : Nat → Reader β} (next : ∀ n, Certain (f n)) : Certain (here >>= f) :=
  certainBind (certainFound fun _ => ⟨_,_,rfl⟩) next

theorem certainPure (a : α) : Certain (Pure.pure a : Reader α) := certainFound fun _ => ⟨_,_,rfl⟩

theorem certainSpaces : Certain spaces := certainFound fun _ => ⟨_,_,rfl⟩

theorem certainBlank : Certain blank := certainFound fun _ => ⟨_,_,rfl⟩

theorem certainStatementEnd : Certain statementEnd := by
  intro c d missing
  simp only [statementEnd] at missing
  split at missing <;> contradiction

theorem staysCertain (certain : Certain r) : Stays b r := fun c d missing => absurd missing (certain c d)

theorem staysBind (first : Shelters Q b e r) (next : ∀ a, Stays e (f a)) : Stays b (r >>= f) := by
  intro c d missing
  rcases absentBind missing with missing | ⟨a,x,found,missing⟩
  · exact first.2 c d missing
  · obtain ⟨u,across,closed⟩ := first.1 c a x found
    obtain ⟨n,fenced⟩ := next a x d missing
    exact ⟨n,by rw [across.rest,closed.1.fenced,fenced]⟩

section Thread

variable [Thread Q]

theorem sheltersBind (first : Shelters Q b e r) (next : ∀ a, Shelters Q e k (f a)) : Shelters Q b k (r >>= f) := by
  refine ⟨fun c a d found => ?_,staysBind first fun a => (next a).2⟩
  obtain ⟨a',x,found₁,found₂⟩ := foundBind found
  obtain ⟨u,across₁,sealed₁⟩ := first.1 c a' x found₁
  obtain ⟨v,across₂,sealed₂⟩ := (next a').1 x a d found₂
  rw [across₂.rest] at sealed₁
  exact ⟨u ++ v,Cursor.overTrans across₁ across₂,passedAppend sealed₁ sealed₂⟩

theorem sheltersStill (still : ∀ c, ∃ a, r c = .found a c) : Shelters Q b b r := by
  refine ⟨fun c a d found => ?_,fun c d missing => ?_⟩
  · obtain ⟨a',same⟩ := still c
    rw [same] at found
    cases found
    exact ⟨[],Cursor.overNone c,passedNone b c.rest⟩
  · obtain ⟨a',same⟩ := still c
    rw [same] at missing
    contradiction

theorem sheltersPure (a : α) : Shelters Q b b (Pure.pure a : Reader α) := sheltersStill fun _ => ⟨a,rfl⟩

theorem sheltersHere {f : Nat → Reader β} (next : ∀ n, Shelters Q b k (f n)) : Shelters Q b k (here >>= f) :=
  sheltersBind (sheltersStill fun c => ⟨c.pos,rfl⟩) next

end Thread

theorem sheltersNever (none : ∀ c a d, r c ≠ .found a d) (certain : Certain r) : Shelters Q b e r :=
  ⟨fun c a d found => absurd found (none c a d),staysCertain certain⟩

theorem sheltersRefuse (offset : Nat) (fault : SyntaxFault) : Shelters Q b e (refuse offset fault : Reader α) :=
  sheltersNever (fun _ _ _ found => by contradiction) fun _ _ missing => by contradiction

theorem sheltersUnfinished : Shelters Q b e (unfinished : Reader α) :=
  sheltersNever (fun _ _ _ found => by contradiction) fun _ _ missing => by contradiction

theorem sheltersAbsent : Shelters Q b e (absent : Reader α) := by
  refine ⟨fun _ _ _ found => by contradiction,fun c d missing => ?_⟩
  cases missing
  exact ⟨_,rfl⟩

theorem staysOrElse (second : Stays b s) : Stays b (orElse r s) := by
  intro c d missing
  simp only [orElse] at missing
  split at missing
  · exact second c d missing
  · rename_i other
    exact (other d missing).elim

theorem sheltersOrElse (first : Shelters Q b e r) (second : Shelters Q b e s) : Shelters Q b e (orElse r s) := by
  refine ⟨fun c a d found => ?_,staysOrElse second.2⟩
  simp only [orElse] at found
  split at found
  · exact second.1 c a d found
  · exact first.1 c a d found

theorem sheltersRequire (what : Expectation) (shelters : Shelters Q b e r) : Shelters Q b e (require what r) := by
  refine ⟨fun c a d found => ?_,staysCertain (certainRequire what r)⟩
  simp only [require] at found
  split at found
  · contradiction
  · exact shelters.1 c a d found

theorem sheltersFuelled {loop : Nat → Reader α} (rounds : ∀ n, Shelters Q b e (loop n)) : Shelters Q b e (fuelled loop) :=
  ⟨fun c a d found => (rounds _).1 c a d found,fun c d missing => (rounds _).2 c d missing⟩

/-! Words, blanks and lexemes -/

theorem sheltersTotal {g : Cursor → α × Cursor}
    (total : ∀ c : Cursor, ∃ u, c.Over u (g c).2 ∧ Passed Q b e u (g c).2.rest) :
    Shelters Q b e (fun c => .found (g c).1 (g c).2) := by
  refine ⟨fun c a d found => ?_,fun c d missing => by contradiction⟩
  cases found
  exact total c

theorem sheltersWord {w} (closed : ∀ t, Passed Q b e (ofString w) t) : Shelters Q b e (word w) := by
  refine ⟨fun c a d found => ?_,fun c d missing => ?_⟩
  · simp only [word] at found
    split at found
    · rename_i next consumed
      cases found
      exact ⟨_,Cursor.overWord consumed,closed _⟩
    · contradiction
  · simp only [word] at missing
    split at missing
    · contradiction
    · cases missing
      exact ⟨_,rfl⟩

theorem sheltersBlank [Texture Q] (inside : 1 ≤ b) : Shelters Q b b blank :=
  sheltersTotal (g := fun c => ((),c.skipBlank)) fun c =>
    Cursor.overBoth (Cursor.sealedSkip true false (fun _ => inside) c.pos c.rest) (Texture.blank c)

variable [Thread Q]

theorem sheltersSpaces : Shelters Q b b spaces :=
  sheltersTotal (g := fun c => ((),c.skipSpaces)) fun c =>
    Cursor.overBoth (Cursor.sealedSkip false false (fun none => by contradiction) c.pos c.rest) (Thread.spaces c)

theorem mildWord {w} (mild : w.toList.all isMild) (b : Int) (t : Text) : Passed Q b b (ofString w) t := by
  refine passedMild (fun g inside => ?_) b t
  obtain ⟨c,member,rfl⟩ := List.mem_map.mp inside
  exact List.all_eq_true.mp mild c member

theorem sheltersMild {w} (mild : w.toList.all isMild) : Shelters Q b b (word w) := sheltersWord (mildWord mild b)

theorem sheltersTry {w} {f : Bool → Reader β} (closed : ∀ t, Passed Q b e (ofString w) t)
    (hit : Shelters Q e k (f true)) (miss : Shelters Q b k (f false)) : Shelters Q b k (tryWord w >>= f) := by
  have shelters (c : Cursor) : (tryWord w >>= f) c = f false c ∨
      ∃ d, c.Over (ofString w) d ∧ (tryWord w >>= f) c = f true d := by
    simp only [Bind.bind,Reader.bind,tryWord]
    cases consumed : c.consume? w with
    | none => exact Or.inl rfl
    | some d => exact Or.inr ⟨d,Cursor.overWord consumed,rfl⟩
  refine ⟨fun c a d found => ?_,fun c d missing => ?_⟩
  · rcases shelters c with same | ⟨x,across,same⟩
    · exact miss.1 c a d (same ▸ found)
    · obtain ⟨v,across',rest⟩ := hit.1 x a d (same ▸ found)
      have first := closed x.rest
      rw [across'.rest] at first
      exact ⟨_,Cursor.overTrans across across',passedAppend first rest⟩
  · rcases shelters c with same | ⟨x,across,same⟩
    · exact miss.2 c d (same ▸ missing)
    · obtain ⟨n,fenced⟩ := hit.2 x d (same ▸ missing)
      exact ⟨n,by rw [across.rest,(closed x.rest).1.fenced,fenced]⟩

theorem sheltersTryMild {w} (mild : w.toList.all isMild) : Shelters Q b b (tryWord w) := by
  refine ⟨fun c a d found => ?_,fun c d missing => ?_⟩
  · simp only [tryWord] at found
    split at found
    · rename_i next consumed
      cases found
      exact ⟨_,Cursor.overWord consumed,mildWord mild b _⟩
    · cases found
      exact ⟨[],Cursor.overNone _,passedNone b _⟩
  · exact absurd missing (certainTry w c d)

theorem sheltersTryAny {ws} (mild : ∀ w ∈ ws, w.toList.all isMild) : Shelters Q b b (tryWords ws) := by
  refine ⟨fun c a d found => ?_,fun c d missing => ?_⟩
  · simp only [tryWords] at found
    split at found
    · rename_i w next consumed
      cases found
      obtain ⟨inside,across⟩ := Cursor.overAnyWord consumed
      exact ⟨_,across,mildWord (mild w inside) b _⟩
    · cases found
      exact ⟨[],Cursor.overNone _,passedNone b _⟩
  · simp only [tryWords] at missing
    split at missing <;> contradiction

theorem sheltersStatementEnd : Shelters Q b b statementEnd := by
  refine ⟨fun c a d found => ?_,fun c d missing => ?_⟩
  · simp only [statementEnd] at found
    split at found
    · cases found
      exact ⟨[],Cursor.overNone _,passedNone b _⟩
    · contradiction
  · exact absurd missing (certainStatementEnd c d)

end Reader

namespace Phrases

open Reader Pending

structure Sheltered (Q : Text → Prop) (nested : Phrases) : Prop where
  primary : ∀ b, 0 ≤ b → Shelters Q b b nested.primary
  statement : ∀ b, 1 ≤ b → Shelters Q b b nested.statement
  certain : Certain nested.statement

def expected (nested : Phrases) (start : Nat) (value : Expr) : Reader Stmt := do
  require .expectedOnNextLine (word "\n")
  spaces
  let expected ← require .expectedValue nested.expression
  return .doctest ⟨start,← here⟩ value expected

theorem doctestSplit (nested : Phrases) : nested.doctest = here >>= fun start =>
    (word ">>>" >>= fun _ => spaces >>= fun _ => require .expression nested.expression) >>= fun value =>
      statementEnd >>= fun _ => spaces >>= fun _ => nested.expected start value := by
  simp only [doctest,expected,bindAssoc]

/-! Parts without nested phrases -/

section Thread

variable {Q : Text → Prop} [Thread Q] {b : Int}

theorem sheltersPause : Shelters Q b b pause := by
  refine sheltersBind sheltersSpaces fun _ => sheltersTry (mildWord (by decide) b) ?_ ?_
  · exact sheltersSpaces
  · exact sheltersPure _

theorem sheltersComparator (words : List (String × Comparator)) (mild : ∀ w ∈ words, w.1.toList.all isMild) :
    Shelters Q b b (comparator words) := by
  induction words with
  | nil => exact sheltersPure _
  | cons pair words ih =>
    obtain ⟨first,rest⟩ := List.forall_mem_cons.mp mild
    refine sheltersTry (mildWord first b) ?_ (ih rest)
    exact sheltersBind sheltersSpaces fun _ => sheltersPure _

theorem passedWordy {c d : Cursor} (only : c.Only Cursor.isWordy d) : ∃ u, c.Over u d ∧ Passed Q b b u d.rest := by
  obtain ⟨u,across,wordy⟩ := only
  refine ⟨u,across,passedMild (fun g inside => ?_) b d.rest⟩
  have mild : g.toChar ∉ '>' :: signs := Cursor.wordyOutside (wordy g inside) (by decide)
  obtain ⟨other,plain⟩ := not_or.mp (mt List.mem_cons.mpr mild)
  exact Bool.and_eq_true_iff.mpr ⟨plainUnless plain,decide_eq_true other⟩

theorem sheltersIdentifier : Shelters Q b b identifier := by
  have reads (c : Cursor) := passedWordy (Q := Q) (b := b) (Cursor.wordyIdentifier c)
  refine ⟨fun c a d found => ?_,fun c d missing => ?_⟩
  · have closed := reads c
    unfold identifier at found
    split at found
    · contradiction
    · rename_i name next _ reading
      cases found
      rwa [reading] at closed
  · unfold identifier at missing
    split at missing
    · cases missing
      exact ⟨_,rfl⟩
    · contradiction

theorem sheltersDigits : Shelters Q b b (fun c => .found c.readDigits.1 c.readDigits.2 : Reader String) :=
  sheltersTotal (g := Cursor.readDigits) fun c => passedWordy (Cursor.wordyDigits c.pos c.rest)

theorem certainCheckParameters (ps : List (Nat × Text)) : Certain (checkParameters ps) := by
  unfold checkParameters
  split <;> exact fun _ _ missing => by contradiction

theorem sheltersCheckParameters (ps : List (Nat × Text)) : Shelters Q b b (checkParameters ps) := by
  unfold checkParameters
  split
  · exact sheltersRefuse _ _
  · exact sheltersRefuse _ _
  · exact sheltersPure _

theorem sheltersInteger : Shelters Q b b integer := by
  refine sheltersHere fun start => sheltersBind sheltersDigits fun digits =>
    sheltersBind (sheltersStill fun c => ⟨c.peek,rfl⟩) fun next => ?_
  split
  · exact sheltersRefuse _ _
  · exact sheltersHere fun _ => sheltersPure _

end Thread

section Line

variable {Q : Text → Prop} [Line Q] {b : Int}

theorem sheltersName : Shelters Q b b (fun c => .found c.readName.1 c.readName.2 : Reader Text) :=
  sheltersTotal (g := Cursor.readName) fun c =>
    Cursor.overBoth (Cursor.sealedOnly (Cursor.plainName c)) ⟨_,Cursor.overName c,Line.name c⟩

theorem sheltersParameters (n : Nat) : Shelters Q b b (parameters n) := by
  induction n with
  | zero => exact sheltersUnfinished
  | succ n ih =>
    refine sheltersHere fun start => sheltersBind sheltersName fun name => ?_
    split
    · exact sheltersAbsent
    · refine sheltersBind sheltersSpaces fun _ => sheltersBind (sheltersTryAny (by decide)) fun more => ?_
      cases more with
      | true => exact sheltersBind sheltersSpaces fun _ => sheltersBind ih fun _ => sheltersPure _
      | false => exact sheltersPure _

theorem sheltersHeader : Shelters Q b b header := by
  refine sheltersBind (sheltersMild (by decide)) fun _ => sheltersBind sheltersSpaces fun _ =>
    sheltersBind (sheltersStill fun c => ⟨c.looksAt "に対し",rfl⟩) fun empty => ?_
  have last (ps : List (Nat × Text)) : Shelters Q b b (word "に対し" >>= fun _ => Pure.pure ps) :=
    sheltersBind (sheltersMild (by decide)) fun _ => sheltersPure _
  cases empty with
  | true => exact sheltersBind (sheltersPure _) last
  | false => exact sheltersBind (sheltersFuelled sheltersParameters) last

end Line

section Sheltered

variable {Q : Text → Prop} [Texture Q] {nested : Phrases} (sheltered : nested.Sheltered Q) {b : Int} (outside : 0 ≤ b)
  (inside : 1 ≤ b)

theorem sheltersHeading : Shelters Q b b header := by
  refine ⟨fun c ps d found => Cursor.overBoth ?_ (Texture.header found),(sheltersHeader (Q := Any)).2⟩
  obtain ⟨u,across,closed,_⟩ := (sheltersHeader (Q := Any)).1 c ps d found
  exact ⟨u,across,closed⟩

include outside

theorem sheltersTextIndex : Shelters Q b b textIndex := by
  refine sheltersBind (sheltersWord (passedOpening (by decide) b)) fun _ => sheltersBind sheltersSpaces fun _ =>
    sheltersHere fun start => sheltersBind sheltersDigits fun digits => sheltersBind sheltersSpaces fun _ => ?_
  split
  · exact sheltersAbsent
  · have closing (t : Text) := passedClosing (Q := Q) (c := ']') (by decide) (show 1 ≤ b + 1 by omega) t
    simp only [Int.add_sub_cancel] at closing
    exact sheltersBind (sheltersWord closing) fun _ => sheltersPure _

theorem sheltersQuotedText {c d e} (quote : c.peek = '"') (found : quotedText c = .found e d) :
    ∃ u, c.Over u d ∧ Passed Q b b u d.rest := by
  obtain ⟨closed,index,last⟩ := quotedTextFound found
  have behind : Shelters Q b b (orElse (some <$> textIndex) (return none)) :=
    sheltersOrElse (sheltersBind (sheltersTextIndex outside) fun _ => sheltersPure _) (sheltersPure _)
  obtain ⟨v,across',rest⟩ := behind.1 _ _ _ last
  obtain ⟨pos,t⟩ := c
  rcases t with _ | ⟨g,t⟩
  · contradiction
  · obtain rfl : g = .char '"' := Glyph.eqOfChar quote (by decide)
    obtain ⟨u,across,closed',known⟩ := Cursor.overBoth (Cursor.sealedQuoted (b := b) _ t closed) (Texture.quoted (Q := Q) closed)
    have opened : Passed Q b b (.char '"' :: u) (Cursor.readQuoted _ t).next.rest :=
      ⟨sealedGlyph rfl (by simp [stops,Glyph.toChar]) closed',known⟩
    have across₀ := Cursor.overTrans (Cursor.overGlyph pos _ t) across
    rw [show (Cursor.readQuoted _ t).next.rest = v ++ d.rest from across'.rest] at opened
    exact ⟨_,Cursor.overTrans across₀ across',passedAppend opened rest⟩

omit outside in
theorem certainQuotedText : Certain quotedText := by
  refine certainHere fun start => certainBind (certainFound fun _ => ⟨_,_,rfl⟩) fun quote => ?_
  split
  · exact fun _ _ missing => by contradiction
  · refine certainBind (certainOrElse (certainPure _)) fun index => ?_
    cases index with
    | none => exact certainHere fun _ => certainPure _
    | some picked =>
      dsimp only
      split
      · exact certainHere fun _ => certainPure _
      · exact fun _ _ missing => by contradiction

include sheltered

theorem sheltersExpression : Shelters Q b b nested.expression := by
  refine sheltersBind (sheltered.primary b outside) fun e => ⟨fun c a d found => ?_,fun c d missing => ?_⟩
  · dsimp only at found
    split at found
    · contradiction
    · cases found
      exact ⟨[],Cursor.overNone _,passedNone b _⟩
  · dsimp only at missing
    split at missing <;> contradiction

theorem sheltersRequired (what : Expectation) : Shelters Q b b (require what nested.expression) :=
  sheltersRequire what (sheltersExpression sheltered outside)

omit outside

include inside in
theorem sheltersStatements (start n : Nat) : Shelters Q b (b - 1) (nested.statements start n) := by
  induction n with
  | zero => exact sheltersUnfinished
  | succ n ih =>
    refine sheltersBind (sheltersBlank inside) fun _ => sheltersTry (passedClosing (by decide) inside) ?_ ?_
    · exact sheltersPure _
    · refine sheltersBind (sheltersStill fun c => ⟨c.atEnd,rfl⟩) fun ended => ?_
      cases ended with
      | true => exact sheltersRefuse _ _
      | false => exact sheltersBind (sheltered.statement b inside) fun _ => sheltersBind ih fun _ => sheltersPure _

include outside

theorem sheltersBlock : Shelters Q b b nested.block := by
  have body (start n : Nat) := sheltersStatements sheltered (show 1 ≤ b + 1 by omega) start n
  simp only [Int.add_sub_cancel] at body
  refine sheltersHere fun start => sheltersBind (sheltersRequire _ (sheltersWord (passedOpening (by decide) b)))
    fun _ => sheltersBind (sheltersFuelled (body start)) fun _ => sheltersHere fun _ => sheltersPure _

theorem sheltersIndices (n : Nat) : Shelters Q b b (nested.indices n) := by
  induction n with
  | zero => exact sheltersUnfinished
  | succ n ih =>
    have closing (t : Text) := passedClosing (Q := Q) (c := ']') (by decide) (show 1 ≤ b + 1 by omega) t
    simp only [Int.add_sub_cancel] at closing
    refine sheltersTry (passedOpening (by decide) b) ?_ (sheltersPure _)
    exact sheltersBind sheltersSpaces fun _ => sheltersBind (sheltersRequired sheltered (by omega) _) fun _ =>
      sheltersBind sheltersSpaces fun _ => sheltersBind (sheltersRequire _ (sheltersWord closing)) fun _ =>
      sheltersBind ih fun _ => sheltersPure _

omit outside

include inside in
theorem sheltersItems {close} (closes : ∀ t, Passed Q b (b - 1) (Text.ofString close) t) (n : Nat) :
    Shelters Q b (b - 1) (nested.items close n) := by
  induction n with
  | zero => exact sheltersUnfinished
  | succ n ih =>
    refine sheltersBind (sheltersRequired sheltered (by omega) _) fun _ => sheltersBind (sheltersBlank inside) fun _ =>
      sheltersBind (sheltersTryAny (by decide)) fun more => ?_
    cases more with
    | true =>
      exact sheltersBind (sheltersBlank inside) fun _ => sheltersBind ih fun _ => sheltersPure _
    | false =>
      refine sheltersTry closes (sheltersPure _) ?_
      exact sheltersNever (fun _ _ _ found => by contradiction) fun _ _ missing => by contradiction

include inside in
theorem sheltersItemsUpTo {close : String} (closes : ∀ t, Passed Q b (b - 1) (Text.ofString close) t) :
    Shelters Q b (b - 1) (nested.itemsUpTo close) :=
  sheltersBind (sheltersBlank inside) fun _ =>
    sheltersTry closes (sheltersPure _) (sheltersFuelled (sheltersItems sheltered inside closes))

omit sheltered in
theorem certainPause : Certain pause :=
  certainBind certainSpaces fun _ => certainIf (certainTry _) certainSpaces (certainPure _)

omit [Texture Q] in
theorem certainStatements (start n : Nat) : Certain (nested.statements start n) := by
  induction n with
  | zero => exact fun _ _ missing => by contradiction
  | succ n ih =>
    exact certainBind certainBlank fun _ => certainIf (certainTry _) (certainPure _) <|
      certainIf (certainFound fun _ => ⟨_,_,rfl⟩) (fun _ _ missing => by contradiction) <|
      certainBind sheltered.certain fun _ => certainBind ih fun _ => certainPure _

omit [Texture Q] in
theorem certainBlock : Certain nested.block :=
  certainHere fun _ => certainBind (certainRequire _ _) fun _ =>
    certainBind (fun c d missing => certainStatements sheltered _ _ c d missing) fun _ =>
    certainHere fun _ => certainPure _

omit [Texture Q] in
theorem certainBehind (start : Nat) (ps : List (Nat × Text)) : Certain (nested.behind start ps) :=
  certainBind (certainCheckParameters ps) fun _ => certainBind (certainTry _) fun _ => certainBind certainPause fun _ =>
    certainBind (certainBlock sheltered) fun _ => certainHere fun _ => certainPure _

omit sheltered in
theorem certainItems (close : String) (n : Nat) : Certain (nested.items close n) := by
  induction n with
  | zero => exact fun _ _ missing => by contradiction
  | succ n ih =>
    refine certainBind (certainRequire _ _) fun _ => certainBind certainBlank fun _ => certainIf (certainTryAny _) ?_ ?_
    · exact certainBind certainBlank fun _ => certainBind ih fun _ => certainPure _
    · exact certainIf (certainTry _) (certainPure _) fun _ _ missing => by contradiction

omit sheltered in
theorem certainAlternative : Certain nested.alternative := certainOrElse (certainPure _)

omit sheltered in
theorem certainOneStatement : Certain nested.oneStatement :=
  certainHere fun _ => certainBind (certainOrElse fun _ _ missing => by contradiction) fun _ =>
    certainBind certainStatementEnd fun _ => certainPure _

/-! Statements -/

include outside

theorem sheltersTarget : Shelters Q b b nested.target := by
  refine sheltersHere fun start => sheltersBind sheltersIdentifier fun name =>
    sheltersBind (sheltersStill fun c => ⟨c.peek,rfl⟩) fun next => ?_
  split
  · exact sheltersAbsent
  · exact sheltersBind (sheltersFuelled (sheltersIndices sheltered outside)) fun _ =>
      sheltersHere fun _ => sheltersPure _

theorem sheltersOnTarget : Shelters Q b b nested.onTarget := by
  refine sheltersHere fun start => sheltersBind (sheltersTarget sheltered outside) fun t =>
    sheltersBind sheltersSpaces fun _ => sheltersTry (mildWord (by decide) b) ?_ <|
    sheltersTry (mildWord (by decide) b) ?_ <| sheltersTry (mildWord (by decide) b) ?_ <|
    sheltersTry (mildWord (by decide) b) ?_ ?_
  · exact sheltersHere fun _ => sheltersPure _
  · exact sheltersHere fun _ => sheltersPure _
  · exact sheltersBind sheltersSpaces fun _ => sheltersBind (sheltersRequired sheltered outside _) fun _ =>
      sheltersBind sheltersSpaces fun _ =>
      sheltersBind (sheltersRequire _ (sheltersMild (by decide))) fun _ =>
      sheltersHere fun _ => sheltersPure _
  · exact sheltersBind sheltersSpaces fun _ => sheltersBind (sheltersRequired sheltered outside _) fun _ =>
      sheltersHere fun _ => sheltersPure _
  · exact sheltersBind (sheltersMild (by decide)) fun _ => sheltersBind sheltersSpaces fun _ =>
      sheltersBind (sheltersExpression sheltered outside) fun _ => sheltersBind sheltersSpaces fun _ =>
      sheltersBind (sheltersMild (by decide)) fun _ => sheltersHere fun _ => sheltersPure _

theorem sheltersAnswer : Shelters Q b b nested.answer :=
  sheltersHere fun _ => sheltersBind (sheltersExpression sheltered outside) fun _ =>
    sheltersBind sheltersSpaces fun _ => sheltersBind (sheltersMild (by decide)) fun _ =>
    sheltersHere fun _ => sheltersPure _

theorem sheltersObserve : Shelters Q b b nested.observe :=
  sheltersHere fun _ => sheltersBind (sheltersExpression sheltered outside) fun _ =>
    sheltersHere fun _ => sheltersPure _

omit sheltered outside in
theorem sheltersLeave : Shelters Q b b leave :=
  sheltersHere fun _ => sheltersBind (sheltersOrElse (sheltersMild (by decide))
    (sheltersMild (by decide))) fun _ => sheltersHere fun _ => sheltersPure _

theorem sheltersLoop : Shelters Q b b nested.loop :=
  sheltersHere fun _ => sheltersBind (sheltersExpression sheltered outside) fun _ =>
    sheltersBind sheltersSpaces fun _ => sheltersBind (sheltersMild (by decide)) fun _ =>
    sheltersBind sheltersSpaces fun _ => sheltersBind (sheltersOrElse (sheltersMild (by decide))
      (sheltersMild (by decide))) fun _ => sheltersBind sheltersPause fun _ =>
    sheltersBind (sheltersBlock sheltered outside) fun _ => sheltersHere fun _ => sheltersPure _

theorem staysConditional : Stays b nested.conditional := by
  have operand := sheltersExpression sheltered outside
  have blanks : Shelters Q b b spaces := sheltersSpaces
  have mark {w : String} (mild : w.toList.all isMild) : Shelters Q b b (word w) := sheltersMild mild
  have compared : Shelters Q b b (comparator comparators) := sheltersComparator _ (by decide)
  refine staysBind (Q := Q) (sheltersStill fun c => ⟨c.pos,rfl⟩) fun start => staysBind (mark (by decide)) fun _ =>
    staysBind blanks fun _ => staysBind operand fun _ => staysBind blanks fun _ => staysBind (mark (by decide)) fun _ =>
    staysBind blanks fun _ => staysBind operand fun _ => staysBind blanks fun _ => staysBind compared fun _ =>
    staysBind (mark (by decide)) fun _ => staysCertain ?_
  exact certainBind certainPause fun _ => certainBind (certainBlock sheltered) fun _ =>
    certainBind certainAlternative fun _ => certainHere fun _ => certainPure _

omit outside

include inside

theorem sheltersAlternative : Shelters Q b b nested.alternative :=
  sheltersOrElse (sheltersBind (sheltersBlank inside) fun _ =>
    sheltersBind (sheltersMild (by decide)) fun _ => sheltersBind sheltersPause fun _ =>
    sheltersBind (sheltersBlock sheltered (by omega)) fun _ => sheltersPure _) (sheltersPure _)

theorem sheltersConditional : Shelters Q b b nested.conditional :=
  have outside : 0 ≤ b := by omega
  sheltersHere fun _ => sheltersBind (sheltersMild (by decide)) fun _ =>
    sheltersBind sheltersSpaces fun _ => sheltersBind (sheltersExpression sheltered outside) fun _ =>
    sheltersBind sheltersSpaces fun _ => sheltersBind (sheltersMild (by decide)) fun _ =>
    sheltersBind sheltersSpaces fun _ => sheltersBind (sheltersExpression sheltered outside) fun _ =>
    sheltersBind sheltersSpaces fun _ => sheltersBind (sheltersComparator _ (by decide)) fun _ =>
    sheltersBind (sheltersMild (by decide)) fun _ => sheltersBind sheltersPause fun _ =>
    sheltersBind (sheltersBlock sheltered outside) fun _ =>
    sheltersBind (sheltersAlternative sheltered inside) fun _ => sheltersHere fun _ => sheltersPure _

theorem sheltersExpected (start : Nat) (value : Expr) : Shelters Q b b (nested.expected start value) := by
  have outside : 0 ≤ b := by omega
  have newline (t : Text) : Passed Q b b (Text.ofString "\n") t :=
    ⟨sealedGlyph rfl (stopsInside inside _) (sealedNone b t),Texture.sign (by decide)⟩
  exact sheltersBind (sheltersRequire _ (sheltersWord newline)) fun _ => sheltersBind sheltersSpaces fun _ =>
    sheltersBind (sheltersRequired sheltered outside _) fun _ => sheltersHere fun _ => sheltersPure _

theorem sheltersDoctest (mark : Q (Text.ofString ">>>")) : Shelters Q b b nested.doctest := by
  have outside : 0 ≤ b := by omega
  exact sheltersHere fun start => sheltersBind (sheltersWord fun t => ⟨sealedPlain (by decide) b t,mark⟩) fun _ =>
    sheltersBind sheltersSpaces fun _ => sheltersBind (sheltersRequired sheltered outside _) fun value =>
    sheltersBind sheltersStatementEnd fun _ => sheltersBind sheltersSpaces fun _ =>
    sheltersExpected sheltered inside start value

theorem sheltersOneStatement (doctest : Shelters Q b b nested.doctest) : Shelters Q b b nested.oneStatement := by
  have outside : 0 ≤ b := by omega
  refine sheltersHere fun start => sheltersBind (sheltersOrElse ?_ (sheltersRefuse _ _)) fun _ =>
    sheltersBind sheltersStatementEnd fun _ => sheltersPure _
  exact sheltersOrElse (sheltersConditional sheltered inside) <|
    sheltersOrElse (sheltersLoop sheltered outside) <| sheltersOrElse doctest <|
    sheltersOrElse (sheltersOnTarget sheltered outside) <| sheltersOrElse (sheltersAnswer sheltered outside) <|
    sheltersOrElse sheltersLeave <| sheltersOrElse (sheltersObserve sheltered outside) sheltersAbsent

/-! Expressions -/

omit inside

include outside

theorem sheltersFunction : Shelters Q b b nested.function := by
  rw [functionSplit]
  exact sheltersHere fun _ => sheltersBind sheltersHeading fun ps => sheltersBind (sheltersCheckParameters ps) fun _ =>
    sheltersBind (sheltersTryMild (by decide)) fun _ => sheltersBind sheltersPause fun _ =>
    sheltersBind (sheltersBlock sheltered outside) fun _ => sheltersHere fun _ => sheltersPure _

theorem sheltersBracketed {close sign} (same : Text.ofString close = [.char sign])
    (closes : isClosing sign) : Shelters Q (b + 1) b (nested.itemsUpTo close) := by
  have closing (t : Text) := passedClosing (Q := Q) closes (show 1 ≤ b + 1 by omega) t
  simp only [← same] at closing
  have items := sheltersItemsUpTo sheltered (by omega) closing
  rwa [Int.add_sub_cancel] at items

theorem sheltersNamed : Shelters Q b b nested.named := by
  refine sheltersHere fun start => sheltersBind sheltersIdentifier fun name =>
    sheltersTry (passedOpening (by decide) b) ?_ ?_
  · exact sheltersBind (sheltersBracketed sheltered outside rfl (by decide)) fun _ =>
      sheltersHere fun _ => sheltersPure _
  · exact sheltersBind (sheltersFuelled (sheltersIndices sheltered outside)) fun _ =>
      sheltersHere fun _ => sheltersPure _

omit sheltered outside in
theorem sheltersSign {c k} {f : Nat → Reader Expr} {sign} (here' : c.peek = sign)
    (known : sign ≠ '\x00' ∧ sign ≠ '�') (closed : ∀ t, Passed Q b k [.char sign] t)
    (next : ∀ n, Shelters Q k b (f n)) :
    (∀ a d, (do let start ← here; advance; f start) c = .found a d → ∃ u, c.Over u d ∧ Passed Q b b u d.rest) ∧
      ∀ d, (do let start ← here; advance; f start) c = .absent d → ∃ n, fence ⟨.code,b⟩ c.rest = fence n d.rest := by
  obtain ⟨pos,t⟩ := c
  rcases t with _ | ⟨g,t⟩
  · exact absurd here'.symm known.1
  · have same : g = .char sign := Glyph.eqOfChar here' known.2
    subst same
    refine ⟨fun a d found => ?_,fun d missing => ?_⟩
    · obtain ⟨u,across,rest⟩ := (next pos).1 _ a d found
      have first := closed t
      rw [show t = u ++ d.rest from across.rest] at first
      exact ⟨_,Cursor.overTrans (Cursor.overGlyph pos _ t) across,passedAppend first rest⟩
    · obtain ⟨n,fenced⟩ := (next pos).2 _ d missing
      exact ⟨n,((closed t).1.fenced).trans fenced⟩

theorem sheltersOnePrimary : Shelters Q b b nested.onePrimary := by
  have both (c : Cursor) : (∀ e d, nested.onePrimary c = .found e d → ∃ u, c.Over u d ∧ Passed Q b b u d.rest) ∧
      ∀ d, nested.onePrimary c = .absent d → ∃ n, fence ⟨.code,b⟩ c.rest = fence n d.rest := by
    simp only [onePrimary,Bind.bind,Reader.bind,peek]
    split_ifs with digit quote bar minus bracket mark
    · have shelters : Shelters Q b b integer := sheltersInteger
      exact ⟨fun e d => shelters.1 c e d,fun d => shelters.2 c d⟩
    · refine ⟨fun e d found => sheltersQuotedText outside quote found,fun d missing => ?_⟩
      exact absurd missing (certainQuotedText c d)
    · exact sheltersSign bar (by decide) (mildWord (w := "|") (by decide) b) fun _ =>
        sheltersBind sheltersSpaces fun _ => sheltersBind (sheltersRequired sheltered outside _) fun _ =>
        sheltersBind sheltersSpaces fun _ =>
        sheltersBind (sheltersRequire _ (sheltersMild (by decide))) fun _ =>
        sheltersHere fun _ => sheltersPure _
    · exact sheltersSign minus (by decide) (mildWord (w := "-") (by decide) b) fun _ =>
        sheltersBind sheltersSpaces fun _ => sheltersBind (sheltered.primary b outside) fun _ =>
        sheltersHere fun _ => sheltersPure _
    · exact sheltersSign bracket (by decide) (passedOpening (by decide) b) fun _ =>
        sheltersBind (sheltersBracketed sheltered outside rfl (by decide)) fun _ =>
        sheltersHere fun _ => sheltersPure _
    · exact sheltersSign mark (by decide) (mildWord (w := "?") (by decide) b) fun _ =>
        sheltersHere fun _ => sheltersPure _
    · have shelters := sheltersOrElse (sheltersFunction sheltered outside) (sheltersNamed sheltered outside)
      exact ⟨fun e d => shelters.1 c e d,fun d => shelters.2 c d⟩
  exact ⟨fun c => (both c).1,fun c => (both c).2⟩

end Sheltered

theorem shelteredBy {Q : Text → Prop} [Texture Q]
    (doctest : ∀ n b, (upTo n).Sheltered Q → 1 ≤ b → Shelters Q b b (upTo n).doctest) (n : Nat) : (upTo n).Sheltered Q := by
  induction n with
  | zero => exact ⟨fun _ _ => sheltersUnfinished,fun _ _ => sheltersUnfinished,fun _ _ missing => by contradiction⟩
  | succ n ih =>
    exact ⟨fun b outside => sheltersOnePrimary ih outside,
      fun b inside => sheltersOneStatement ih inside (doctest n b ih inside),certainOneStatement⟩

theorem shelteredUpTo (n : Nat) : (upTo n).Sheltered Any :=
  shelteredBy (fun _ _ sheltered inside => sheltersDoctest sheltered inside trivial) n

end Phrases

theorem Cursor.fenceEnd {c : Cursor} (ended : c.atStatementEnd) :
    Pending.fence ⟨.code,0⟩ c.rest = c.skipSpaces.rest := by
  obtain ⟨u,across,closed⟩ := (Reader.sheltersSpaces (Q := Pending.Any)).1 c () c.skipSpaces rfl
  rw [across.rest,closed.1.fenced]
  unfold atStatementEnd at ended
  cases rest : c.skipSpaces.rest with
  | nil => rfl
  | cons g t =>
    rw [rest] at ended
    have stop : Pending.stops ⟨.code,0⟩ g := by
      rcases Bool.or_eq_true_iff.mp ended with newline | brace
      · simp [Pending.stops,Glyph.charOfIs newline]
      · simp [Pending.stops,Glyph.charOfIs brace]
    rw [Pending.fence,if_pos stop]

namespace Reader

open Pending

variable {c x : Cursor} {r s : Reader α}

def Within (r : Reader α) : Prop :=
  ∀ c a d, r c = .found a d → d.atStatementEnd → d.skipSpaces.rest.length ≤ (fence ⟨.code,0⟩ c.rest).length

theorem withinShelters (shelters : Shelters Any 0 0 r) : Within r := by
  intro c a d found ended
  obtain ⟨u,across,closed⟩ := shelters.1 c a d found
  exact Nat.le_of_eq (by rw [across.rest,closed.1.fenced,Cursor.fenceEnd ended])

theorem withinOrElse (first : Within r) (second : Within s) : Within (orElse r s) := by
  intro c a d found
  simp only [orElse] at found
  split at found
  · exact second c a d found
  · exact first c a d found

theorem staysBefore (stays : Stays 0 r) (missing : r c = .absent x) :
    (fence ⟨.code,0⟩ c.rest).length ≤ x.rest.length := by
  obtain ⟨n,fenced⟩ := stays c x missing
  rw [fenced]
  exact fenceLength n x.rest

end Reader

namespace Phrases

open Reader

variable {nested : Phrases}

theorem staysDoctest : Stays 0 nested.doctest := by
  refine staysBind (Q := Pending.Any) (sheltersStill fun c => ⟨c.pos,rfl⟩) fun start =>
    staysBind (Q := Pending.Any) (sheltersWord fun t => ⟨Pending.sealedPlain (by decide) 0 t,trivial⟩) fun _ => staysCertain ?_
  exact certainBind certainSpaces fun _ => certainBind (certainRequire _ _) fun _ => certainBind certainStatementEnd fun _ =>
    certainBind certainSpaces fun _ => certainBind (certainRequire _ _) fun _ => certainBind certainSpaces fun _ =>
    certainBind (certainRequire _ _) fun _ => certainHere fun _ => certainPure _

theorem withinDoctest (sheltered : nested.Sheltered Pending.Any) : Within nested.doctest := by
  intro c a d found _
  rw [doctestSplit] at found
  obtain ⟨start,_,begun,found⟩ := foundBind found
  cases begun
  obtain ⟨value,e,first,found⟩ := foundBind found
  have reads : Shelters Pending.Any 0 0 (word ">>>" >>= fun _ => spaces >>= fun _ => require .expression nested.expression) :=
    sheltersBind (sheltersWord fun t => ⟨Pending.sealedPlain (by decide) 0 t,trivial⟩) fun _ => sheltersBind sheltersSpaces fun _ =>
      sheltersRequired sheltered (Int.le_refl 0) _
  obtain ⟨_,e',ended,found⟩ := foundBind found
  simp only [statementEnd] at ended
  split at ended
  · rename_i lineEnds
    cases ended
    obtain ⟨_,_,skipped,found⟩ := foundBind found
    cases skipped
    obtain ⟨u,across,_⟩ := (sheltersExpected sheltered (Int.le_refl 1) _ value).1 _ a d found
    calc d.skipSpaces.rest.length
      _ ≤ d.rest.length := Cursor.aheadLength (Cursor.aheadSpaces d)
      _ ≤ e.skipSpaces.rest.length := Cursor.aheadLength ⟨u,across⟩
      _ ≤ (Pending.fence ⟨.code,0⟩ c.rest).length := withinShelters reads c value e first lineEnds
  · contradiction

end Phrases

end Terakoya
