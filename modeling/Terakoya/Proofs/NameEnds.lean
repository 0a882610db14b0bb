import Mathlib.Order.Bounds.Basic
import Terakoya.Proofs.Seam

/-! Where a name ends. It is the longest run of letters in which no particle begins, with the digits
behind it, so a particle right behind a name is left whole. -/
namespace Terakoya.Cursor

open Text (ofString)

/-- A name goes on over a glyph of a text, given by its index: it is a letter, and no particle begins
there. Where a name begins, particles of one character do not count. -/
def GoesOn (first : Bool) (t : Text) (i : Nat) : Prop :=
  (∃ g ∈ t[i]?, isNameLetter g.toChar) ∧
    ∀ p ∈ particles, ofString p <+: t.drop i → first ∧ i = 0 ∧ p.length = 1

def DigitAt (t : Text) (i : Nat) : Prop := ∃ g ∈ t[i]?, isDigit g

theorem greatestRun {Q : Nat → Prop} {k} : IsGreatest {k | ∀ i < k, Q i} k ↔ (∀ i < k, Q i) ∧ ¬ Q k := by
  refine ⟨fun ⟨run,most⟩ => ⟨run,fun more => ?_⟩,fun ⟨run,ends⟩ => ⟨run,fun j longer => ?_⟩⟩
  · have longer : k + 1 ≤ k := most fun i below => by
      rcases Nat.lt_succ_iff_lt_or_eq.mp below with within | rfl
      · exact run i within
      · exact more
    omega
  · by_contra beyond
    exact ends (longer k (Nat.lt_of_not_le beyond))

theorem particleFree {first : Bool} {t : Text} : atParticle first t = false ↔
    ∀ p ∈ particles, ofString p <+: t → first ∧ p.length = 1 := by
  simp only [atParticle,List.any_eq_false]
  refine forall₂_congr fun p _ => ?_
  rw [Bool.and_eq_true,not_and,Seam.dropWordPrefix]
  cases first with
  | false => simp [ofString]
  | true =>
    simp only [Bool.true_and,Bool.not_eq_true',beq_eq_false_iff_ne,true_and,ofString]
    exact ⟨fun long begins => by_contra fun other => long other begins,fun short other begins => other (short begins)⟩

theorem goesOnHere {first : Bool} {g : Glyph} {t : Text} :
    GoesOn first (g :: t) 0 ↔ isNameLetter g.toChar ∧ atParticle first (g :: t) = false := by
  simp [GoesOn,particleFree]

theorem goesOnLater {first : Bool} {g : Glyph} {t : Text} {i : Nat} :
    GoesOn first (g :: t) (i + 1) ↔ GoesOn false t i := by simp [GoesOn]

theorem runCons {Q R : Nat → Prop} {k} (here : Q 0) (later : ∀ i, Q (i + 1) ↔ R i)
    (run : (∀ i < k, R i) ∧ ¬ R k) : (∀ i < k + 1, Q i) ∧ ¬ Q (k + 1) := by
  refine ⟨fun i below => ?_,fun more => run.2 ((later k).mp more)⟩
  cases i with
  | zero => exact here
  | succ i => exact (later i).mpr (run.1 i (Nat.lt_of_succ_lt_succ below))

theorem lettersRun (first : Bool) (pos : Nat) (t : Text) :
    ∃ k, ((∀ i < k, GoesOn first t i) ∧ ¬ GoesOn first t k) ∧ readLetters first pos t =
      ((t.take k).map Glyph.toChar,⟨pos + Text.width (t.take k),t.drop k⟩) := by
  induction t generalizing first pos with
  | nil => exact ⟨0,⟨by simp,by simp [GoesOn]⟩,rfl⟩
  | cons g t ih =>
    by_cases here : GoesOn first (g :: t) 0
    · obtain ⟨k,run,reading⟩ := ih false (pos + g.width)
      refine ⟨k + 1,runCons here (fun _ => goesOnLater) run,?_⟩
      obtain ⟨letter,free⟩ := goesOnHere.mp here
      simp [readLetters,letter,free,reading,Text.width,Nat.add_assoc]
    · refine ⟨0,⟨by simp,here⟩,?_⟩
      have stops : (isNameLetter g.toChar && !atParticle first (g :: t)) = false := by
        simpa [goesOnHere] using here
      simp [readLetters,stops,Text.width]

theorem digitsRun (pos : Nat) (t : Text) :
    ∃ d, ((∀ i < d, DigitAt t i) ∧ ¬ DigitAt t d) ∧ readWhile isDigit pos t =
      ((t.take d).map Glyph.toChar,⟨pos + Text.width (t.take d),t.drop d⟩) := by
  induction t generalizing pos with
  | nil => exact ⟨0,⟨by simp,by simp [DigitAt]⟩,rfl⟩
  | cons g t ih =>
    by_cases digit : isDigit g
    · obtain ⟨d,run,reading⟩ := ih (pos + g.width)
      refine ⟨d + 1,runCons (by simpa [DigitAt] using digit) (fun _ => by simp [DigitAt]) run,?_⟩
      simp [readWhile,digit,reading,Text.width,Nat.add_assoc]
    · exact ⟨0,⟨by simp,by simpa [DigitAt] using digit⟩,by simp [readWhile,digit,Text.width]⟩

theorem runInside {first : Bool} {t : Text} {k} (run : ∀ i < k, GoesOn first t i) : k ≤ t.length := by
  by_contra beyond
  obtain ⟨⟨g,there,_⟩,_⟩ := run t.length (Nat.lt_of_not_le beyond)
  simp at there

theorem digitsInside {t : Text} {d} (run : ∀ i < d, DigitAt t i) : d ≤ t.length := by
  by_contra beyond
  obtain ⟨g,there,_⟩ := run t.length (Nat.lt_of_not_le beyond)
  simp at there

def taken (c : Cursor) (k d : Nat) : String × Cursor :=
  if k = 0 then ("",c)
  else (Text.toString (c.rest.take (k + d)),⟨c.pos + Text.width (c.rest.take (k + d)),c.rest.drop (k + d)⟩)

theorem identifierRun (c : Cursor) : ∃ k d, ((∀ i < k, GoesOn true c.rest i) ∧ ¬ GoesOn true c.rest k) ∧
    ((∀ i < d, DigitAt (c.rest.drop k) i) ∧ ¬ DigitAt (c.rest.drop k) d) ∧ c.readIdentifier = c.taken k d := by
  obtain ⟨k,letters,reading⟩ := lettersRun true c.pos c.rest
  obtain ⟨d,digits,digitsRead⟩ := digitsRun (c.pos + Text.width (c.rest.take k)) (c.rest.drop k)
  refine ⟨k,d,letters,digits,?_⟩
  have inside := runInside letters.1
  simp only [Seam.identifierParts,reading,digitsRead,taken,List.map_eq_nil_iff,List.take_eq_nil_iff]
  by_cases none : k = 0
  · simp [none]
  · have some : ¬ (k = 0 ∨ c.rest = []) := by
      rintro (zero | empty)
      · exact none zero
      · rw [empty] at inside
        exact none (Nat.le_zero.mp inside)
    rw [if_neg some,if_neg none,List.take_add,List.drop_drop,Text.widthAppend,Text.toString,List.map_append,Nat.add_assoc]

theorem identifierTaken {c : Cursor} {k d} (letters : (∀ i < k, GoesOn true c.rest i) ∧ ¬ GoesOn true c.rest k)
    (digits : (∀ i < d, DigitAt (c.rest.drop k) i) ∧ ¬ DigitAt (c.rest.drop k) d) : c.readIdentifier = c.taken k d := by
  obtain ⟨j,e,letters',digits',reading⟩ := identifierRun c
  obtain rfl := (greatestRun.mpr letters').unique (greatestRun.mpr letters)
  obtain rfl := (greatestRun.mpr digits').unique (greatestRun.mpr digits)
  exact reading

theorem particleHead {k} (particle : k ∈ particles) : ∃ c w, k.toList = c :: w ∧ isDigit (.char c) = false ∧
    ∀ p ∈ particles, c ∉ p.toList.tail := by
  have heads : ∀ k ∈ particles, k.toList.head?.any (fun c => !isDigit (.char c) &&
      particles.all fun p => !p.toList.tail.contains c) := by decide
  have head := heads k particle
  generalize k.toList = w at head ⊢
  cases w with
  | nil => simp at head
  | cons c w => exact ⟨c,w,rfl,by simpa using head⟩

section Behind

variable {n r : Text} {k : String} (particle : k ∈ particles)

include particle

theorem beginsInName {p} (other : p ∈ particles) {s : Text} (some : s ≠ []) :
    ofString p <+: s ++ (ofString k ++ r) ↔ ofString p <+: s := by
  obtain ⟨c,w,head,_,foreign⟩ := particleHead particle
  obtain ⟨g,s,rfl⟩ := List.exists_cons_of_ne_nil some
  rw [ofString,← Seam.dropWordPrefix]
  refine Seam.wordBefore (fun h u begins => ?_) g s
  rw [ofString,head] at begins
  obtain rfl : .char c = h := (List.cons.inj begins).1
  exact foreign p other

theorem goesOnBefore {i} (before : i < n.length) : GoesOn true (n ++ (ofString k ++ r)) i ↔ GoesOn true n i := by
  have some : n.drop i ≠ [] := by simpa [List.drop_eq_nil_iff] using before
  unfold GoesOn
  rw [List.getElem?_append_left before,List.drop_append_of_le_length (Nat.le_of_lt before)]
  exact and_congr_right fun _ => forall₂_congr fun p other => by rw [beginsInName particle other some]

theorem stopsBehind (some : n ≠ []) : ¬ GoesOn true (n ++ (ofString k ++ r)) n.length := by
  rintro ⟨_,free⟩
  obtain ⟨_,first,_⟩ := free k particle (by simp)
  exact some (List.length_eq_zero_iff.mp first)

theorem identifierBehind (some : n ≠ []) (whole : (start n).readIdentifier.2.atEnd) (pos : Nat) :
    readIdentifier ⟨pos,n ++ (ofString k ++ r)⟩ = (Text.toString n,⟨pos + Text.width n,ofString k ++ r⟩) := by
  obtain ⟨j,d,letters,digits,reading⟩ := identifierRun (start n)
  simp only [start] at letters digits
  have letterly := runInside letters.1
  have digitly := digitsInside digits.1
  rw [List.length_drop] at digitly
  rw [reading,taken,start] at whole
  have named : j ≠ 0 := by
    rintro rfl
    exact some (by simpa [atEnd] using whole)
  rw [if_neg named] at whole
  have length : j + d = n.length := by
    have short : n.length ≤ j + d := List.drop_eq_nil_iff.mp (List.isEmpty_iff.mp whole)
    omega
  have head : (ofString k ++ r).head?.any (!isDigit ·) := by
    obtain ⟨c,w,spelled,digit,_⟩ := particleHead particle
    simp [ofString,spelled,digit]
  refine (identifierTaken (k := j) (d := d) ⟨fun i below => ?_,fun more => ?_⟩ ⟨fun i below => ?_,fun more => ?_⟩).trans ?_
  · exact (goesOnBefore particle (by omega)).mpr (letters.1 i below)
  · rcases Nat.lt_or_eq_of_le letterly with before | rfl
    · exact letters.2 ((goesOnBefore particle before).mp more)
    · exact stopsBehind particle some more
  · obtain ⟨g,there,digit⟩ := digits.1 i below
    rw [List.getElem?_drop] at there
    refine ⟨g,?_,digit⟩
    rw [List.getElem?_drop,List.getElem?_append_left (by omega)]
    exact there
  · obtain ⟨g,there,digit⟩ := more
    rw [List.getElem?_drop,length,List.getElem?_append_right (Nat.le_refl _),Nat.sub_self] at there
    rw [List.head?_eq_getElem?,there] at head
    simp [digit] at head
  · rw [taken,if_neg named,length]
    simp

end Behind

theorem namesEndBeforeParticles :
    (∀ n r : Text, ∀ k ∈ particles, n ≠ [] → (start n).readIdentifier.2.atEnd →
      ∀ pos, readIdentifier ⟨pos,n ++ (ofString k ++ r)⟩ = (Text.toString n,⟨pos + Text.width n,ofString k ++ r⟩)) ∧
    ∀ c : Cursor, ∃ k d, IsGreatest {k | ∀ i < k, GoesOn true c.rest i} k ∧
      IsGreatest {d | ∀ i < d, DigitAt (c.rest.drop k) i} d ∧ c.readIdentifier =
        if k = 0 then ("",c)
        else (Text.toString (c.rest.take (k + d)),⟨c.pos + Text.width (c.rest.take (k + d)),c.rest.drop (k + d)⟩) := by
  refine ⟨fun n r k particle some whole pos => identifierBehind particle some whole pos,fun c => ?_⟩
  obtain ⟨k,d,letters,digits,reading⟩ := identifierRun c
  exact ⟨k,d,greatestRun.mpr letters,greatestRun.mpr digits,reading⟩

theorem countEndsBeforeTail : (start (ofString "回数2")).readIdentifier.2.atEnd ∧
    readIdentifier ⟨0,ofString "回数2" ++ (ofString "の末尾" ++ ofString "に")⟩ =
      (Text.toString (ofString "回数2"),⟨0 + Text.width (ofString "回数2"),ofString "の末尾" ++ ofString "に"⟩) :=
  ⟨by decide +kernel,namesEndBeforeParticles.1 _ _ _ (by decide) (by decide) (by decide +kernel) 0⟩

end Terakoya.Cursor
