import Terakoya.Proofs.Lines
import Terakoya.Proofs.Lockstep

/-! Lines that end with a carriage return and a newline. Carriage returns are blanks, and a quoted text
ends with its line; so a text and the same text with such lines are read side by side. While a line
is not left, one side may still stand before the carriage return and the other side behind it. -/
namespace Terakoya

open Text (ofString)

namespace Text

def crlf (t : Text) : Text := t.flatMap fun g => if g = .newline then [.char '\r',.newline] else [g]

variable {g : Glyph} {t : Text}

theorem crlfLine (t : Text) : crlf (.newline :: t) = .char '\r' :: .newline :: crlf t := by simp [crlf]

theorem crlfGlyph (other : g ≠ .newline) (t : Text) : crlf (g :: t) = g :: crlf t := by simp [crlf,other]

theorem crlfAppend (s t : Text) : crlf (s ++ t) = crlf s ++ crlf t := List.flatMap_append

theorem crlfNone (none : .newline ∉ t) : crlf t = t := by
  induction t with
  | nil => rfl
  | cons g t ih =>
    simp only [List.mem_cons,not_or] at none
    rw [crlfGlyph (Ne.symm none.1),ih none.2]

theorem crlfLength (t : Text) : t.length ≤ (crlf t).length := by
  induction t with
  | nil => exact Nat.le_refl _
  | cons g t ih =>
    by_cases line : g = .newline
    · subst line
      rw [crlfLine]
      simp only [List.length_cons]
      omega
    · rw [crlfGlyph line]
      exact Nat.succ_le_succ ih

theorem crlfEmpty (t : Text) : (crlf t).isEmpty = t.isEmpty := by
  cases t with
  | nil => rfl
  | cons g t =>
    by_cases line : g = .newline
    · subst line
      rw [crlfLine]
      rfl
    · rw [crlfGlyph line]
      rfl

theorem normalizeCrlf (t : Text) : normalize (crlf t) = crlf (normalize t) := by
  induction size : t.length using Nat.strong_induction_on generalizing t with
  | h n ih =>
    by_cases line : .newline ∈ t
    · obtain ⟨s,u,rfl⟩ := List.append_of_mem line
      have shorter : s.length < n ∧ u.length < n := by
        simp only [List.length_append,List.length_cons] at size
        omega
      have later : normalize (.newline :: crlf u) = .newline :: normalize (crlf u) := normalizeJoined [] (crlf u)
      rw [crlfAppend,crlfLine,normalizeAround (aloneBreak (.inr rfl)),later,normalizeJoined,crlfAppend,crlfLine,
        ih _ shorter.1 s rfl,ih _ shorter.2 u rfl]
    · rw [crlfNone line,crlfNone (mt normalizeNewline line)]

end Text

open Text (crlf crlfLine crlfGlyph crlfLength crlfEmpty)

namespace Cursor

variable {c c' : Cursor}

def Returned (c c' : Cursor) : Prop :=
  c'.rest = crlf c.rest ∨ ∃ t, c.rest = .newline :: t ∧ c'.rest = .newline :: crlf t

def Level (c c' : Cursor) : Prop :=
  c'.rest = crlf c.rest ∧ c.peek ≠ '\n' ∨ ∃ t, c.rest = .newline :: t ∧ c'.rest = .newline :: crlf t

theorem Level.returned (level : Level c c') : Returned c c' := level.imp_left And.left

theorem glyphNoLine {g : Glyph} (other : g ≠ .newline) : g.is '\n' = false ∧ g.toChar ≠ '\n' := by
  cases g with
  | stray b => exact ⟨rfl,by simp [Glyph.toChar]⟩
  | char x =>
    have differs : x ≠ '\n' := fun same => other (same ▸ rfl)
    exact ⟨by simpa [Glyph.is] using differs.symm,differs⟩

theorem peekNoLine {g t} (rest : c.rest = g :: t) (other : c.peek ≠ '\n') : g ≠ .newline := by
  rintro rfl
  simp [peek,rest,Glyph.newline,Glyph.toChar] at other

theorem skipLine (lines comment : Bool) (pos : Nat) (t : Text) : skipFrom lines comment pos (.newline :: t) =
    if lines then skipFrom lines false (pos + 1) t else ⟨pos,.newline :: t⟩ := rfl

theorem skipReturn (lines comment : Bool) (pos : Nat) (t : Text) :
    skipFrom lines comment pos (.char '\r' :: .newline :: t) =
      if lines then skipFrom lines false (pos + 1 + 1) t else ⟨pos + 1,.newline :: t⟩ := by
  cases comment with
  | true => exact skipLine lines true (pos + 1) t
  | false => exact skipLine lines false (pos + 1) t

theorem skipCrlf (lines comment : Bool) (pos pos' : Nat) (t : Text) :
    Level (skipFrom lines comment pos t) (skipFrom lines comment pos' (crlf t)) := by
  induction t generalizing comment pos pos' with
  | nil => exact .inl ⟨rfl,by simp [skipFrom,peek]⟩
  | cons g t ih =>
    by_cases line : g = .newline
    · subst line
      rw [crlfLine,skipReturn,skipLine]
      cases lines with
      | true => exact ih _ _ _
      | false => exact .inr ⟨t,rfl,rfl⟩
    · obtain ⟨none,char⟩ := glyphNoLine line
      rw [crlfGlyph line]
      simp only [skipFrom,none,Bool.false_eq_true,if_false]
      split_ifs
      · exact ih _ _ _
      · exact ih _ _ _
      · exact .inl ⟨(crlfGlyph line t).symm,char⟩

theorem skipReturned (near : Returned c c') (lines : Bool) :
    Level (skipFrom lines false c.pos c.rest) (skipFrom lines false c'.pos c'.rest) := by
  rcases near with same | ⟨t,line,line'⟩
  · rw [same]
    exact skipCrlf _ _ _ _ _
  · rw [line,line',skipLine,skipLine]
    cases lines with
    | true => exact skipCrlf _ _ _ _ _
    | false => exact .inr ⟨t,rfl,rfl⟩

theorem dropCrlf {w : List Char} (plain : ∀ c ∈ w, c ≠ '\n' ∧ c ≠ '\r') (t : Text) :
    dropWord w (crlf t) = (dropWord w t).map crlf := by
  induction w generalizing t with
  | nil => rfl
  | cons x w ih =>
    obtain ⟨here,later⟩ := List.forall_mem_cons.mp plain
    cases t with
    | nil => rfl
    | cons g t =>
      by_cases line : g = .newline
      · subst line
        rw [crlfLine]
        simp [dropWord,Glyph.newline,here.1,here.2]
      · rw [crlfGlyph line]
        cases g with
        | stray b => rfl
        | char y =>
          simp only [dropWord]
          split
          · exact ih later t
          · rfl

theorem unbrokenChars {w : String} (plain : unbroken w) :
    (∀ c ∈ w.toList, c ≠ '\n' ∧ c ≠ '\r') ∧ ∀ t, dropWord w.toList (.newline :: t) = none := by
  obtain ⟨some,chars⟩ := Bool.and_eq_true_iff.mp plain
  have each : ∀ c ∈ w.toList, c ≠ '\n' ∧ c ≠ '\r' := by simpa using chars
  refine ⟨each,fun t => ?_⟩
  generalize w.toList = cs at some each
  cases cs with
  | nil => contradiction
  | cons x cs => simp [dropWord,Glyph.newline,(each x List.mem_cons_self).1]

theorem consumeReturned {w} (plain : unbroken w) (near : Returned c c') :
    Option.Rel Returned (c.consume? w) (c'.consume? w) := by
  obtain ⟨chars,none⟩ := unbrokenChars plain
  unfold consume?
  rcases near with same | ⟨t,line,line'⟩
  · rw [same,dropCrlf chars]
    cases dropWord w.toList c.rest with
    | none => exact .none
    | some rest => exact .some (.inl rfl)
  · rw [line,line',none,none]
    exact .none

theorem newlineReturned (level : Level c c') : Option.Rel Returned (c.consume? "\n") (c'.consume? "\n") := by
  rcases level with ⟨same,other⟩ | ⟨t,line,line'⟩
  · unfold consume?
    rw [same]
    cases rest : c.rest with
    | nil => exact .none
    | cons g t =>
      have differs := peekNoLine rest other
      have none (u : Text) : dropWord "\n".toList (g :: u) = none := by
        cases g with
        | stray b => rfl
        | char x =>
          have apart : ¬ '\n' = x := fun same => differs (same ▸ rfl)
          simp [dropWord,apart]
      rw [crlfGlyph differs,none,none]
      exact .none
  · unfold consume?
    rw [line,line']
    exact .some (.inl rfl)

theorem peekReturned (near : Returned c c') : c'.peek = c.peek ∨ c.peek = '\n' ∧ c'.peek = '\r' := by
  unfold peek
  rcases near with same | ⟨t,line,line'⟩
  · rw [same]
    cases c.rest with
    | nil => exact .inl rfl
    | cons g t =>
      by_cases line : g = .newline
      · subst line
        rw [crlfLine]
        exact .inr ⟨rfl,rfl⟩
      · rw [crlfGlyph line]
        exact .inl rfl
  · rw [line,line']
    exact .inl rfl

theorem advanceReturned (near : Returned c c') (solid : c.peek ≠ '\n') : c'.advance.rest = crlf c.advance.rest := by
  rcases near with same | ⟨t,line,_⟩
  · unfold advance
    cases rest : c.rest with
    | nil =>
      rw [rest] at same
      rw [show c'.rest = [] from same]
      exact same.trans (by rw [rest])
    | cons g t =>
      rw [rest,crlfGlyph (peekNoLine rest solid)] at same
      rw [same]
  · exact absurd rfl (peekNoLine line solid)

def ScannedAlike {β : Type} (x x' : β × Cursor) : Prop := x'.1 = x.1 ∧ x'.2.rest = crlf x.2.rest

theorem scanReturned {β : Type} (scan : Nat → Text → β × Cursor) {nothing}
    (stops : ∀ pos t, scan pos (.newline :: t) = (nothing,⟨pos,.newline :: t⟩))
    (goes : ∀ pos pos' t, ScannedAlike (scan pos t) (scan pos' (crlf t)))
    (near : Returned c c') : (scan c'.pos c'.rest).1 = (scan c.pos c.rest).1 ∧
      Returned (scan c.pos c.rest).2 (scan c'.pos c'.rest).2 := by
  rcases near with same | ⟨t,line,line'⟩
  · rw [same]
    exact ⟨(goes _ _ _).1,.inl (goes _ _ _).2⟩
  · rw [line,line',stops,stops]
    exact ⟨rfl,.inr ⟨t,rfl,rfl⟩⟩

theorem digitsCrlf (pos pos' : Nat) (t : Text) : ScannedAlike (readWhile isDigit pos t) (readWhile isDigit pos' (crlf t)) := by
  induction t generalizing pos pos' with
  | nil => exact ⟨rfl,rfl⟩
  | cons g t ih =>
    by_cases line : g = .newline
    · subst line
      rw [crlfLine]
      exact ⟨rfl,(crlfLine t).symm⟩
    · rw [crlfGlyph line]
      simp only [readWhile]
      split
      · exact ⟨congrArg (g.toChar :: ·) (ih _ _).1,(ih _ _).2⟩
      · exact ⟨rfl,(crlfGlyph line t).symm⟩

theorem anyCrlf (ws : List String) (plain : ws.all unbroken) (counts : String → Bool) (t : Text) :
    (ws.any fun w => counts w && (dropWord w.toList (crlf t)).isSome) = ws.any fun w => counts w && (dropWord w.toList t).isSome := by
  rw [Bool.eq_iff_iff,List.any_eq_true,List.any_eq_true]
  refine exists_congr fun w => and_congr_right fun inside => ?_
  rw [dropCrlf (unbrokenChars (List.all_eq_true.mp plain w inside)).1,Option.isSome_map]

theorem lettersCrlf (first : Bool) (pos pos' : Nat) (t : Text) :
    ScannedAlike (readLetters first pos t) (readLetters first pos' (crlf t)) := by
  induction t generalizing first pos pos' with
  | nil => exact ⟨rfl,rfl⟩
  | cons g t ih =>
    by_cases line : g = .newline
    · subst line
      rw [crlfLine]
      exact ⟨rfl,(crlfLine t).symm⟩
    · have particle : atParticle first (crlf (g :: t)) = atParticle first (g :: t) := anyCrlf _ (by decide) _ _
      rw [crlfGlyph line] at particle ⊢
      simp only [readLetters,particle]
      split
      · exact ⟨congrArg (g.toChar :: ·) (ih _ _ _).1,(ih _ _ _).2⟩
      · exact ⟨rfl,(crlfGlyph line t).symm⟩

theorem identifierCrlf (pos pos' : Nat) (t : Text) :
    ScannedAlike (readIdentifier ⟨pos,t⟩) (readIdentifier ⟨pos',crlf t⟩) := by
  obtain ⟨letters,rest⟩ := lettersCrlf true pos pos' t
  rw [Seam.identifierParts,Seam.identifierParts]
  simp only [letters,rest]
  split
  · exact ⟨rfl,rfl⟩
  · obtain ⟨digits,after⟩ := digitsCrlf (readLetters true pos t).2.pos (readLetters true pos' (crlf t)).2.pos
      (readLetters true pos t).2.rest
    exact ⟨by rw [digits],after⟩

theorem bindingCrlf (pos pos' : Nat) (t : Text) : ScannedAlike (readBinding pos t) (readBinding pos' (crlf t)) := by
  induction t generalizing pos pos' with
  | nil => exact ⟨rfl,rfl⟩
  | cons g t ih =>
    by_cases line : g = .newline
    · subst line
      rw [crlfLine]
      exact ⟨rfl,(crlfLine t).symm⟩
    · have stops : endsBinding (g :: crlf t) = endsBinding (g :: t) := by
        have words := anyCrlf bindingStops (by decide) (fun _ => true) (g :: t)
        simp only [Bool.true_and,crlfGlyph line] at words
        simp only [endsBinding,words]
      rw [crlfGlyph line]
      simp only [readBinding,stops]
      split
      · exact ⟨rfl,(crlfGlyph line t).symm⟩
      · exact ⟨congrArg (g :: ·) (ih _ _).1,(ih _ _).2⟩

def QuotedAlike (q q' : Quote) : Prop :=
  q'.closed = q.closed ∧ (q.closed → q'.content = q.content ∧ q'.next.rest = crlf q.next.rest)

theorem QuotedAlike.push {q q' : Quote} (alike : QuotedAlike q q') (c : Char) : QuotedAlike (q.push c) (q'.push c) :=
  ⟨alike.1,fun closed => ⟨congrArg (c :: ·) (alike.2 closed).1,(alike.2 closed).2⟩⟩

theorem quotedCrlf (pos pos' : Nat) (t : Text) : QuotedAlike (readQuoted pos t) (readQuoted pos' (crlf t)) := by
  have opened {q q' : Quote} (first : q.closed = false) (second : q'.closed = false) : QuotedAlike q q' := by
    simp [QuotedAlike,first,second]
  fun_induction readQuoted pos t generalizing pos' with
  | case1 pos => exact opened rfl rfl
  | case2 pos t => exact ⟨rfl,fun _ => ⟨rfl,rfl⟩⟩
  | case3 pos t => exact opened rfl rfl
  | case4 pos => exact opened rfl rfl
  | case5 pos g t c escape ih =>
    have line : g ≠ .newline := by
      rintro rfl
      contradiction
    rw [crlfGlyph (by decide),crlfGlyph line,readQuoted,escape]
    exact (ih _).push c
  | case6 pos g t none early ih =>
    by_cases line : g = .newline
    · subst line
      exact opened rfl rfl
    · have back := ih (pos' + 1)
      rw [crlfGlyph line] at back
      rw [crlfGlyph (by decide),crlfGlyph line,readQuoted,none]
      simp only [early,if_true]
      exact back.push _
  | case7 pos g t none late ih =>
    have line : g ≠ .newline := by
      rintro rfl
      contradiction
    rw [crlfGlyph (by decide),crlfGlyph line,readQuoted,none]
    simp only [late]
    exact ((ih _).push _).push _
  | case8 pos g t quote line last escape ih =>
    have plain : g ≠ .char '\\' := by
      intro slash
      cases t with
      | nil => exact last slash rfl
      | cons h t => exact escape h t slash rfl
    rw [crlfGlyph line,readQuoted]
    · exact (ih _).push _
    · exact quote
    · exact line
    · exact fun slash _ => plain slash
    · exact fun _ _ slash _ => plain slash

theorem endedReturned (level : Level c.skipSpaces c'.skipSpaces) : c'.atStatementEnd = c.atStatementEnd := by
  unfold atStatementEnd
  rcases level with ⟨same,other⟩ | ⟨t,line,line'⟩
  · rw [same]
    cases rest : c.skipSpaces.rest with
    | nil => rfl
    | cons g t => rw [crlfGlyph (peekNoLine rest other)]
  · rw [line,line']

theorem lockstepReturned : Lockstep Returned where
  spaces near := (skipReturned near false).returned
  blank near := (skipReturned near true).returned
  word plain near := consumeReturned plain near
  newline near := newlineReturned (skipReturned near false)
  peek near := peekReturned near
  advance near solid := .inl (advanceReturned near solid)
  digits near := by
    obtain ⟨run,near'⟩ := scanReturned (readWhile isDigit) (fun _ _ => rfl) digitsCrlf near
    exact ⟨congrArg String.ofList run,near'⟩
  identifier near := scanReturned (fun pos t => readIdentifier ⟨pos,t⟩) (fun _ _ => rfl) identifierCrlf near
  name near := scanReturned readBinding (fun _ _ => rfl) bindingCrlf near
  text {c c'} near solid := by
    obtain ⟨closed,inside⟩ := quotedCrlf c.advance.pos c'.advance.pos c.advance.rest
    rw [← advanceReturned near solid] at closed inside
    exact ⟨closed,fun ends => ⟨(inside ends).1,.inl (inside ends).2⟩⟩
  ended near := endedReturned (skipReturned near false)
  atEnd near := by
    unfold atEnd
    rcases near with same | ⟨t,line,line'⟩
    · rw [same,crlfEmpty]
    · rw [line,line']
      rfl
  length near := by
    rcases near with same | ⟨t,line,line'⟩
    · rw [same]
      exact crlfLength _
    · rw [line,line']
      exact Nat.succ_le_succ (crlfLength t)

end Cursor

theorem lineEndingsReadAlike (t : Text) :
    ((Parse.strict (crlf t)).errors = [] ↔ (Parse.strict t).errors = []) ∧
      bodyBare (Parse.strict (crlf t)).program.body = bodyBare (Parse.strict t).program.body := by
  have longer : (Text.normalize t).length ≤ (crlf (Text.normalize t)).length := crlfLength _
  have grants : Phrases.Grants fun _ => True := ⟨fun _ _ => trivial,fun _ _ _ => trivial,fun _ _ _ => trivial,
    fun _ => trivial,fun _ _ _ _ => trivial⟩
  unfold Parse.strict
  rw [Text.normalizeCrlf]
  refine Parse.runStep Cursor.lockstepReturned (Phrases.pairedUpTo Cursor.lockstepReturned grants ?_) _ _ (Nat.succ_le_succ longer)
    (.inl rfl) (Parse.ofNormalFinished false (Text.normalize t))
  unfold Phrases.depthFor
  omega

end Terakoya
