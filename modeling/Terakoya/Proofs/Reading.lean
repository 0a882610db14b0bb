import Terakoya.Proofs.Lexemes

/-! What readers make of a text, wherever it stands: one text is read up to another, or the phrase
does not begin there and others may be tried. Offsets are left out of all of this. -/
namespace Terakoya

open Text (ofString)
open Layout

namespace Reader

variable {α β : Type} {P : α → Prop} {Q : β → Prop} {s t u : Text}

def Reads (r : Reader α) (P : α → Prop) (s t : Text) : Prop :=
  ∀ pos, ∃ a last, r ⟨pos,s⟩ = .found a ⟨last,t⟩ ∧ P a

def Passes (r : Reader α) (a : α) (s t : Text) : Prop := Reads r (· = a) s t

def Misses (r : Reader α) (s : Text) : Prop := ∀ pos, ∃ reached, r ⟨pos,s⟩ = .absent reached

theorem readsPure {a} (holds : P a) : Reads (Pure.pure a : Reader α) P s s :=
  fun pos => ⟨a,pos,rfl,holds⟩

theorem readsBind {r} {f : α → Reader β} (first : Reads r P s t)
    (next : ∀ a, P a → Reads (f a) Q t u) : Reads (r >>= f) Q s u := by
  intro pos
  obtain ⟨a,mid,found,holds⟩ := first pos
  obtain ⟨b,last,found',holds'⟩ := next a holds mid
  exact ⟨b,last,by simp only [Bind.bind,Reader.bind,found,found'],holds'⟩

theorem readsAfter {r a} {f : α → Reader β} (first : Passes r a s t)
    (next : Reads (f a) Q t u) : Reads (r >>= f) Q s u := by
  refine readsBind first fun b same => ?_
  subst same
  exact next

theorem readsHere {f : Nat → Reader β} (next : ∀ n, Reads (f n) Q s u) : Reads (here >>= f) Q s u :=
  fun pos => next pos pos

theorem missesFirst {r} (misses : Misses r s) (f : α → Reader β) : Misses (r >>= f) s := by
  intro pos
  obtain ⟨reached,absent⟩ := misses pos
  exact ⟨reached,by simp only [Bind.bind,Reader.bind,absent]⟩

theorem missesBind {r} {f : α → Reader β} (first : Reads r P s t)
    (next : ∀ a, P a → Misses (f a) t) : Misses (r >>= f) s := by
  intro pos
  obtain ⟨a,mid,found,holds⟩ := first pos
  obtain ⟨reached,absent⟩ := next a holds mid
  exact ⟨reached,by simp only [Bind.bind,Reader.bind,found,absent]⟩

theorem missesAfter {r a} {f : α → Reader β} (first : Passes r a s t) (next : Misses (f a) t) : Misses (r >>= f) s := by
  refine missesBind first fun b same => ?_
  subst same
  exact next

theorem missesHere {f : Nat → Reader β} (next : ∀ n, Misses (f n) s) : Misses (here >>= f) s :=
  fun pos => next pos pos

theorem missesAbsent : Misses (absent : Reader α) s := fun _ => ⟨_,rfl⟩

theorem readsOrElse {r r'} (reads : Reads r P s t) : Reads (orElse r r') P s t := by
  intro pos
  obtain ⟨a,last,found,holds⟩ := reads pos
  exact ⟨a,last,by simp only [orElse,found],holds⟩

theorem readsElse {r r'} (misses : Misses r s) (reads : Reads r' P s t) : Reads (orElse r r') P s t := by
  intro pos
  obtain ⟨reached,absent⟩ := misses pos
  obtain ⟨a,last,found,holds⟩ := reads pos
  exact ⟨a,last,by simp only [orElse,absent,found],holds⟩

theorem missesOrElse {r r' : Reader α} (misses : Misses r s) (misses' : Misses r' s) :
    Misses (orElse r r') s := by
  intro pos
  obtain ⟨reached,absent⟩ := misses pos
  obtain ⟨reached',absent'⟩ := misses' pos
  exact ⟨reached',by simp only [orElse,absent,absent']⟩

theorem readsRequire {r} (what : Expectation) (reads : Reads r P s t) : Reads (require what r) P s t := by
  intro pos
  obtain ⟨a,last,found,holds⟩ := reads pos
  exact ⟨a,last,by simp only [require,found],holds⟩

theorem readsFuelled {loop : Nat → Reader α} (reads : Reads (loop (s.length + 1)) P s t) :
    Reads (fuelled loop) P s t := fun pos => reads pos

/-! Words and blanks -/

theorem skipBlanks (solid : Solid t) (n pos : Nat) :
    Cursor.skipSpaces ⟨pos,blanks n ++ t⟩ = ⟨pos + n,t⟩ := by
  simp only [Cursor.skipSpaces,Cursor.skipFromBlanks]
  exact Cursor.skipFromSolid _ solid fun impossible => by contradiction

theorem passesSpaces (solid : Solid t) (n : Nat) : Passes spaces () (blanks n ++ t) t :=
  fun pos => ⟨(),pos + n,by simp only [spaces,skipBlanks solid],rfl⟩

theorem passesBlank (solid : Solid t) (line : Avoids ['\n'] t) (n : Nat) :
    Passes blank () (blanks n ++ t) t := by
  intro pos
  refine ⟨(),pos + n,?_,rfl⟩
  simp only [blank,Cursor.skipBlank,Cursor.skipFromBlanks]
  rw [Cursor.skipFromSolid _ solid fun _ => line]

theorem passesNoSpaces (solid : Solid t) : Passes spaces () t t := passesSpaces solid 0

theorem passesNoBlank (solid : Solid t) (line : Avoids ['\n'] t) : Passes blank () t t :=
  passesBlank solid line 0

theorem passesLine (passes : Passes blank () t u) : Passes blank () (.char '\n' :: t) u :=
  fun pos => passes (pos + (Glyph.char '\n').width)

theorem consumeWord (w : String) (pos : Nat) (t : Text) :
    Cursor.consume? w ⟨pos,ofString w ++ t⟩ = some ⟨pos + w.utf8ByteSize,t⟩ := by
  simp only [Cursor.consume?,ofString,Cursor.dropWordSame]
  rfl

theorem consumeNone {w t} (missing : Cursor.dropWord w.toList t = none) (pos : Nat) : Cursor.consume? w ⟨pos,t⟩ = none := by
  simp only [Cursor.consume?,missing]
  rfl

theorem passesWord (w : String) : Passes (word w) () (ofString w ++ t) t :=
  fun pos => ⟨(),pos + w.utf8ByteSize,by simp only [word,consumeWord],rfl⟩

theorem missesWord {w} (missing : Cursor.dropWord w.toList t = none) : Misses (word w) t :=
  fun pos => ⟨⟨pos,t⟩,by simp only [word,consumeNone missing]⟩

theorem passesTry (w : String) : Passes (tryWord w) true (ofString w ++ t) t :=
  fun pos => ⟨true,pos + w.utf8ByteSize,by simp only [tryWord,consumeWord],rfl⟩

theorem passesNot {w} (missing : Cursor.dropWord w.toList t = none) : Passes (tryWord w) false t t :=
  fun pos => ⟨false,pos,by simp only [tryWord,consumeNone missing],rfl⟩

theorem readsNot {w} {f : Bool → Reader β} (next : Reads (f false) Q t u)
    (missing : Cursor.dropWord w.toList t = none := by rfl) : Reads (tryWord w >>= f) Q t u := readsAfter (passesNot missing) next

theorem passesComma : Passes (tryWords [",","、"]) true (.char ',' :: t) t :=
  fun _ => ⟨true,_,rfl,rfl⟩

theorem passesNoComma (avoids : Avoids [',','、'] t) : Passes (tryWords [",","、"]) false t t := by
  intro pos
  have comma : Cursor.dropWord ",".toList t = none := Cursor.dropWordAvoids avoids (by decide)
  have pause : Cursor.dropWord "、".toList t = none := Cursor.dropWordAvoids avoids (by decide)
  refine ⟨false,pos,?_,rfl⟩
  simp only [tryWords,Cursor.consumeAny?,consumeNone comma,consumeNone pause]

theorem passesPeek {c} : Passes peek c (.char c :: t) (.char c :: t) :=
  fun pos => ⟨c,pos,rfl,rfl⟩

theorem passesAdvance {c} : Passes advance () (.char c :: t) t := fun _ => ⟨(),_,rfl,rfl⟩

theorem passesStatementEnd : Passes statementEnd () (.char '\n' :: t) (.char '\n' :: t) :=
  fun pos => ⟨(),pos,rfl,rfl⟩

end Reader

end Terakoya
