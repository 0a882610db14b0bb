import Mathlib.Data.List.TakeWhile
import Terakoya.Proofs.Joined
import Terakoya.Proofs.Lexemes
import Terakoya.Proofs.Targets

/-! A session does not wait for more once a text can be read. The count of brackets comes out even,
since each phrase leaves as many brackets open as it found. No line that asks a question is the last
one: a question mark at the beginning of a line can only be read as part of a doctest, and a doctest
goes on in the line below with a value, which is not blank. -/
namespace Terakoya

open Text (isSpace ofString)

variable {α β : Type}

namespace Pending

/-! Questions in a piece of text -/

def freshAfter : Bool → Text → Bool
  | fresh,[] => fresh
  | fresh,g :: t => freshAfter (g = .newline || fresh && isSpace g.toChar) t

def Replied (t : Text) : Prop := ∃ x y, t = x ++ .newline :: y ∧ ∃ g ∈ y, isSpace g.toChar = false

/-- Behind each question mark with which a line begins there is a reply. -/
def Answered (u : Text) : Prop := ∀ a b, u = a ++ .char '>' :: b → freshAfter true a → Replied b

variable {u v t : Text} {g : Glyph}

theorem freshAppend (fresh : Bool) (u v : Text) : freshAfter fresh (u ++ v) = freshAfter (freshAfter fresh u) v := by
  induction u generalizing fresh with
  | nil => rfl
  | cons g u ih => exact ih _

theorem freshWeaker (u : Text) (fresh : freshAfter false u) : freshAfter true u := by
  cases u with
  | nil => contradiction
  | cons g u =>
    unfold freshAfter at fresh ⊢
    by_cases newline : g = .newline
    · simpa [newline] using fresh
    · simp only [newline,decide_false,Bool.false_or,Bool.false_and,Bool.true_and] at fresh ⊢
      cases isSpace g.toChar with
      | true => exact freshWeaker u fresh
      | false => exact fresh

theorem freshOfAppend (fresh : freshAfter true (u ++ v)) : freshAfter true v := by
  rw [freshAppend] at fresh
  cases before : freshAfter true u with
  | true => rwa [before] at fresh
  | false =>
    rw [before] at fresh
    exact freshWeaker v fresh

theorem freshBlank (blank : ∀ g ∈ u, isSpace g.toChar) : freshAfter true u := by
  induction u with
  | nil => rfl
  | cons g u ih =>
    obtain ⟨first,rest⟩ := List.forall_mem_cons.mp blank
    simpa [freshAfter,first] using ih rest

theorem staleLine (line : .newline ∉ u) : freshAfter false u = false := by
  induction u with
  | nil => rfl
  | cons g u ih =>
    obtain ⟨first,rest⟩ := not_or.mp (mt List.mem_cons.mpr line)
    simpa [freshAfter,Ne.symm first] using ih rest

theorem repliedAppend (replied : Replied u) (v : Text) : Replied (u ++ v) := by
  obtain ⟨x,y,rfl,g,inside,solid⟩ := replied
  exact ⟨x,y ++ v,by simp,g,List.mem_append_left v inside,solid⟩

theorem repliedBehind (u : Text) (replied : Replied v) : Replied (u ++ v) := by
  obtain ⟨x,y,rfl,some⟩ := replied
  exact ⟨u ++ x,y,by simp,some⟩

theorem answeredAppend (first : Answered u) (second : Answered v) : Answered (u ++ v) := by
  intro a b same fresh
  rcases List.append_eq_append_iff.mp same with ⟨x,rfl,rest⟩ | ⟨x,rfl,rest⟩
  · exact second x b rest (freshOfAppend fresh)
  · rcases x with _ | ⟨g,x⟩
    · exact second [] b rest.symm rfl
    · obtain ⟨rfl,rfl⟩ := List.cons.inj rest
      exact repliedAppend (first a x rfl fresh) v

theorem answeredWithout (none : .char '>' ∉ u) : Answered u := by
  intro a b same
  rw [same] at none
  simp at none

theorem answeredNone : Answered [] := answeredWithout List.not_mem_nil

theorem answeredLed (solid : isSpace g.toChar = false) (other : g ≠ .char '>') (line : .newline ∉ u) :
    Answered (g :: u) := by
  intro a b same fresh
  rcases a with _ | ⟨h,a⟩
  · exact absurd (List.cons.inj same).1 other
  · obtain ⟨rfl,rfl⟩ := List.cons.inj same
    have begun : g ≠ .newline := by
      rintro rfl
      exact absurd solid (by decide)
    have stale : freshAfter false a = false := staleLine fun inside => line (List.mem_append_left _ inside)
    simp [freshAfter,begun,solid,stale] at fresh

end Pending

namespace Cursor

open Pending

theorem staleSkip (lines comment : Bool) (pos : Nat) (t : Text) :
    ∃ u, Over ⟨pos,t⟩ u (skipFrom lines comment pos t) ∧
      ∀ a b, u = a ++ .char '>' :: b → freshAfter (!comment) a = false := by
  induction t generalizing comment pos with
  | nil => exact ⟨[],overNone _,fun a b same => by simp at same⟩
  | cons g t ih =>
    have going {comment : Bool} {d : Cursor} {u : Text} {fresh : Bool} (across : Over ⟨pos + g.width,t⟩ u d)
        (marked : ∀ a b, u = a ++ .char '>' :: b → freshAfter comment a = false)
        (stepped : (g = .newline || fresh && isSpace g.toChar) = comment) (first : g = .char '>' → fresh = false) :
        ∃ u, Over ⟨pos,g :: t⟩ u d ∧ ∀ a b, u = a ++ .char '>' :: b → freshAfter fresh a = false := by
      refine ⟨g :: u,overTrans (overGlyph pos g t) across,fun a b same => ?_⟩
      rcases a with _ | ⟨h,a⟩
      · exact first (List.cons.inj same).1
      · obtain ⟨rfl,rest⟩ := List.cons.inj same
        rw [freshAfter,stepped]
        exact marked a b rest
    unfold skipFrom
    split_ifs with newline line skipped blank
    · obtain ⟨u,across,marked⟩ := ih false (pos + g.width)
      have same := Glyph.isNewline newline
      exact going across marked (by simp [same]) fun mark => by
        rw [same] at mark
        contradiction
    · exact ⟨[],overNone _,fun a b same => by simp at same⟩
    · obtain ⟨u,across,marked⟩ := ih true (pos + g.width)
      have other : g ≠ .newline := fun same => newline (same ▸ rfl)
      cases comment with
      | true => exact going across marked (by simp [other]) fun _ => rfl
      | false =>
        have hash : g = .char '#' := Glyph.eqOfIs skipped
        exact going across marked (by rw [hash]; decide) fun mark => by
          rw [hash] at mark
          contradiction
    · obtain ⟨u,across,marked⟩ := ih false (pos + g.width)
      obtain ⟨rfl,_⟩ := Bool.or_eq_false_iff.mp (Bool.eq_false_iff.mpr skipped)
      have space : isSpace g.toChar := by
        simp only [isBlank,Bool.or_eq_true,Bool.and_eq_true,decide_eq_true_eq] at blank
        rcases blank with ((same | same) | same) | ⟨_,same⟩ <;> rw [same] <;> decide
      refine going across marked (by simp [space]) fun mark => ?_
      rw [mark] at space
      exact absurd space (by decide)
    · exact ⟨[],overNone _,fun a b same => by simp at same⟩

theorem answeredSkip (lines : Bool) (pos : Nat) (t : Text) :
    ∃ u, Over ⟨pos,t⟩ u (skipFrom lines false pos t) ∧ Answered u := by
  obtain ⟨u,across,marked⟩ := staleSkip lines false pos t
  refine ⟨u,across,fun a b same fresh => ?_⟩
  have stale : freshAfter true a = false := marked a b same
  rw [stale] at fresh
  contradiction

end Cursor

namespace Phrases

open Reader Pending

variable {c d : Cursor}

/-! Phrases that stay in one line -/

def OneLine (u : Text) : Prop := .newline ∉ u

theorem lineSkip (comment : Bool) (pos : Nat) (t : Text) :
    ∃ u, Cursor.Over ⟨pos,t⟩ u (Cursor.skipFrom false comment pos t) ∧ .newline ∉ u := by
  induction t generalizing comment pos with
  | nil => exact ⟨[],Cursor.overNone _,List.not_mem_nil⟩
  | cons g t ih =>
    have going {d : Cursor} {u : Text} (other : ¬ g.is '\n') (across : Cursor.Over ⟨pos + g.width,t⟩ u d)
        (line : .newline ∉ u) : ∃ u, Cursor.Over ⟨pos,g :: t⟩ u d ∧ .newline ∉ u := by
      refine ⟨g :: u,Cursor.overTrans (Cursor.overGlyph pos g t) across,fun inside => ?_⟩
      rcases List.mem_cons.mp inside with same | later
      · exact other (same ▸ rfl)
      · exact line later
    unfold Cursor.skipFrom
    split_ifs with newline none skipped blank
    · contradiction
    · exact ⟨[],Cursor.overNone _,List.not_mem_nil⟩
    · obtain ⟨u,across,line⟩ := ih true (pos + g.width)
      exact going newline across line
    · obtain ⟨u,across,line⟩ := ih false (pos + g.width)
      exact going newline across line
    · exact ⟨[],Cursor.overNone _,List.not_mem_nil⟩

instance : Line OneLine where
  mild mild inside := absurd (mild _ inside) (by decide)
  append first second inside := (List.mem_append.mp inside).elim first second
  spaces c := lineSkip false c.pos c.rest
  name c inside := by
    obtain ⟨u,_,plain,rfl⟩ := Cursor.overBoth (Cursor.plainName c) ⟨_,Cursor.overName c,Eq.refl c.readName.1⟩
    exact absurd (plain _ inside) (by decide)

theorem lineQuoted (pos : Nat) (t : Text) (closed : (Cursor.readQuoted pos t).closed) :
    ∃ u, Cursor.Over ⟨pos,t⟩ u (Cursor.readQuoted pos t).next ∧ .newline ∉ u := by
  fun_induction Cursor.readQuoted pos t with
  | case1 => contradiction
  | case2 pos t => exact ⟨_,Cursor.overGlyph pos _ t,by decide⟩
  | case3 => contradiction
  | case4 pos => contradiction
  | case5 pos g t c escape ih =>
    obtain ⟨u,across,line⟩ := ih closed
    refine ⟨_,Cursor.overTrans (Cursor.overGlyph pos _ _) (Cursor.overTrans (Cursor.overGlyph _ g t) across),?_⟩
    have other : .char '\n' ≠ g := by
      rintro rfl
      simp [Cursor.unescape?,Glyph.toChar] at escape
    simpa [other,Glyph.newline] using line
  | case6 pos g t none early ih =>
    obtain ⟨u,across,line⟩ := ih closed
    exact ⟨_,Cursor.overTrans (Cursor.overGlyph pos _ _) across,by simpa [Glyph.newline] using line⟩
  | case7 pos g t none late ih =>
    obtain ⟨u,across,line⟩ := ih closed
    refine ⟨_,Cursor.overTrans (Cursor.overGlyph pos _ _) (Cursor.overTrans (Cursor.overGlyph _ g t) across),?_⟩
    have other : .char '\n' ≠ g := by
      rintro rfl
      simp [Glyph.is] at late
    simpa [other,Glyph.newline] using line
  | case8 pos g t quote newline last escape ih =>
    obtain ⟨u,across,line⟩ := ih closed
    refine ⟨_,Cursor.overTrans (Cursor.overGlyph pos g t) across,?_⟩
    simpa [Ne.symm newline] using ⟨fun same => newline same.symm,line⟩

/-! Phrases and questions -/

theorem answeredHeader {ps} (found : header c = .found ps d) : ∃ u, c.Over u d ∧ Answered u := by
  obtain ⟨u,across,_,line⟩ := (sheltersHeader (Q := OneLine) (b := 0)).1 c ps d found
  have shorter := (show Eats c 0 header from eatsHeader).2 c (Cursor.aheadRefl c) ps d found
  obtain ⟨_,x,first,_⟩ := foundBind found
  have begins := (Cursor.overWord (wordConsumed first)).rest
  cases u with
  | nil =>
    rw [across.rest] at shorter
    exact absurd shorter (Nat.lt_irrefl _)
  | cons g u =>
    obtain ⟨rfl,_⟩ := List.cons.inj (across.rest.symm.trans begins)
    exact ⟨_,across,answeredLed (by decide) (by decide) fun inside => line (List.mem_cons_of_mem _ inside)⟩

instance : Texture Answered where
  mild mild := answeredWithout fun inside => absurd (mild _ inside) (by decide)
  append := answeredAppend
  spaces c := Cursor.answeredSkip false c.pos c.rest
  sign other := answeredWithout (by simpa using Ne.symm other)
  blank c := Cursor.answeredSkip true c.pos c.rest
  header := answeredHeader
  quoted closed := by
    obtain ⟨u,across,line⟩ := lineQuoted _ _ closed
    exact ⟨u,across,answeredLed (by decide) (by decide) line⟩

section Solid

variable {nested : Phrases}

theorem solidNamed {e} (found : orElse nested.function nested.named c = .found e d) : isSpace c.peek = false := by
  have letter : Cursor.isNameLetter c.peek := by
    simp only [orElse] at found
    split at found
    · obtain ⟨start,_,begun,found⟩ := foundBind found
      cases begun
      obtain ⟨name,x,first,_⟩ := foundBind found
      exact letterHead first
    · rw [functionSplit] at found
      obtain ⟨start,_,begun,found⟩ := foundBind found
      cases begun
      obtain ⟨ps,x,first,_⟩ := foundBind found
      obtain ⟨_,y,marked,_⟩ := foundBind first
      simp only [word] at marked
      split at marked
      · rename_i next consumed
        obtain ⟨t,rest⟩ := Cursor.headConsumed (x := '入') rfl consumed
        rw [Cursor.peek,rest]
        exact (by decide : Cursor.isNameLetter '入')
      · contradiction
  by_contra space
  rw [(Cursor.spaceNoName (Bool.not_eq_false _ ▸ space)).1] at letter
  contradiction

theorem solidOnePrimary {e} (found : nested.onePrimary c = .found e d) : isSpace c.peek = false := by
  simp only [onePrimary,Bind.bind,Reader.bind,peek] at found
  split_ifs at found with digit quote bar minus bracket mark
  · by_contra space
    have none := (Cursor.spaceNoName (Bool.not_eq_false _ ▸ space)).2
    rw [Cursor.isDigit,Glyph.toChar,digit] at none
    contradiction
  · rw [quote]; decide
  · rw [bar]; decide
  · rw [minus]; decide
  · rw [bracket]; decide
  · rw [mark]; decide
  · exact solidNamed found

end Solid

theorem solidUpTo {n e} (found : (upTo n).primary c = .found e d) : isSpace c.peek = false := by
  cases n with
  | zero => contradiction
  | succ n => exact solidOnePrimary found

theorem valueFound {nested : Phrases} {what e} (found : require what nested.expression c = .found e d) :
    nested.primary c = .found e d := by
  simp only [require] at found
  split at found
  · contradiction
  · obtain ⟨e',x,first,second⟩ := foundBind found
    dsimp only at second
    split at second
    · contradiction
    · cases second
      exact first

theorem repliedExpected {n start value s} (sheltered : (upTo n).Sheltered Answered)
    (found : (upTo n).expected start value c = .found s d) : ∃ u, c.Over u d ∧ Answered u ∧ Replied u := by
  obtain ⟨u,across,_,answered⟩ := (sheltersExpected sheltered (Int.le_refl 1) start value).1 c s d found
  refine ⟨u,across,answered,?_⟩
  obtain ⟨_,c₁,first,found⟩ := foundBind found
  obtain ⟨_,c₂,second,found⟩ := foundBind found
  obtain ⟨wanted,c₃,third,found⟩ := foundBind found
  cases found
  cases second
  have line : c.Over [.newline] c₁ := by
    simp only [require] at first
    split at first
    · contradiction
    · exact Cursor.overWord (wordConsumed first)
  have reads := valueFound third
  obtain ⟨x,blank⟩ := Cursor.aheadSpaces c₁
  obtain ⟨y,value⟩ := movesFound ((sizedUpTo n).primary _).1 (Cursor.aheadRefl _) reads
  have shorter := ((sizedUpTo n).primary _).2 _ (Cursor.aheadRefl _) wanted d reads
  have whole := Cursor.overTrans line (Cursor.overTrans blank value)
  obtain rfl := List.append_cancel_right (across.rest.symm.trans whole.rest)
  refine ⟨[],x ++ y,rfl,?_⟩
  cases y with
  | nil =>
    rw [value.rest] at shorter
    exact absurd shorter (Nat.lt_irrefl _)
  | cons g y =>
    refine ⟨g,List.mem_append_right x List.mem_cons_self,?_⟩
    simpa [Cursor.peek,value.rest] using solidUpTo reads

theorem sheltersQuestion {n b} (sheltered : (upTo n).Sheltered Answered) (inside : 1 ≤ b) :
    Shelters Answered b b (upTo n).doctest := by
  have sealing : Shelters Any b b (upTo n).doctest := sheltersDoctest (shelteredUpTo n) inside trivial
  refine ⟨fun c s d found => Cursor.overBoth ?_ ?_,sealing.2⟩
  · obtain ⟨u,across,closed,_⟩ := sealing.1 c s d found
    exact ⟨u,across,closed⟩
  rw [doctestSplit] at found
  obtain ⟨start,_,begun,found⟩ := foundBind found
  cases begun
  obtain ⟨value,c₁,first,found⟩ := foundBind found
  obtain ⟨_,c₂,marked,first⟩ := foundBind first
  have across₁ := Cursor.overWord (wordConsumed marked)
  have asked : Shelters Answered 0 0 (spaces >>= fun _ => require .expression (upTo n).expression) :=
    sheltersBind sheltersSpaces fun _ => sheltersRequired sheltered (Int.le_refl 0) _
  have ended : Shelters Answered 0 0 (statementEnd >>= fun _ => spaces) :=
    sheltersBind sheltersStatementEnd fun _ => sheltersSpaces
  obtain ⟨y,across₂,_,answered₂⟩ := asked.1 c₂ value c₁ first
  rw [← bindAssoc] at found
  obtain ⟨_,c₃,second,found⟩ := foundBind found
  obtain ⟨w,across₃,_,answered₃⟩ := ended.1 c₁ () c₃ second
  obtain ⟨v,across₄,answered₄,replied⟩ := repliedExpected sheltered found
  have behind : Answered (y ++ (w ++ v)) := answeredAppend answered₂ (answeredAppend answered₃ answered₄)
  have reply : Replied (y ++ (w ++ v)) := repliedBehind y (repliedBehind w replied)
  refine ⟨_,Cursor.overTrans across₁ (Cursor.overTrans across₂ (Cursor.overTrans across₃ across₄)),fun a b same fresh => ?_⟩
  -- the mark itself is answered by the value below, all that comes behind it on its own
  rcases List.append_eq_append_iff.mp same with ⟨x,rfl,rest⟩ | ⟨x,_,rest⟩
  · exact behind x b rest (freshOfAppend fresh)
  · rcases x with _ | ⟨g,x⟩
    · exact behind [] b rest.symm rfl
    · obtain ⟨_,rfl⟩ := List.cons.inj rest
      exact repliedBehind x reply

end Phrases

namespace Pending

variable {u t : Text}

/-! White space at the ends of a text -/

theorem stepSpace (n : Count) {c} (space : isSpace c) : (step n c).depth = n.depth ∧ (n.place = .code → step n c = n) := by
  have plain : ∀ x ∈ ['"','#','(','[','\x7b',')',']','\x7d'], c ≠ x := by
    rintro x inside rfl
    have none : ['"','#','(','[','\x7b',')',']','\x7d'].all (!isSpace ·) = true := by decide
    have solid := List.all_eq_true.mp none c inside
    rw [space] at solid
    contradiction
  simp only [List.forall_mem_cons] at plain
  obtain ⟨place,depth⟩ := n
  cases place <;> simp [step,isOpening,isClosing,plain] <;> split_ifs <;> rfl

theorem scanBlank (n : Count) (blank : ∀ g ∈ u, isSpace g.toChar) : (scan n u).depth = n.depth ∧
    (n.place = .code → scan n u = n) := by
  induction u generalizing n with
  | nil => exact ⟨rfl,fun _ => rfl⟩
  | cons g u ih =>
    obtain ⟨first,rest⟩ := List.forall_mem_cons.mp blank
    obtain ⟨depth,still⟩ := stepSpace n first
    rw [scanCons]
    refine ⟨(ih _ rest).1.trans depth,fun code => ?_⟩
    rw [still code]
    exact (ih n rest).2 code

theorem trimmedParts (t : Text) : ∃ x y, t = x ++ (Text.trimmed t ++ y) ∧ (∀ g ∈ x, isSpace g.toChar) ∧
    ∀ g ∈ y, isSpace g.toChar := by
  let blank (g : Glyph) : Bool := isSpace g.toChar
  let rest := t.dropWhile blank
  refine ⟨t.takeWhile blank,(rest.reverse.takeWhile blank).reverse,?_,fun g inside => ?_,fun g inside => ?_⟩
  · have whole : rest = Text.trimmed t ++ (rest.reverse.takeWhile blank).reverse := by
      unfold Text.trimmed Text.trimRight
      rw [← List.reverse_append,List.takeWhile_append_dropWhile,List.reverse_reverse]
    exact (List.takeWhile_append_dropWhile).symm.trans (congrArg _ whole)
  · exact List.mem_takeWhile_imp (p := blank) inside
  · exact List.mem_takeWhile_imp (p := blank) (List.mem_reverse.mp inside)

theorem lastLineParts (t : Text) : ∃ x, t = x ++ lastLine t ∧ freshAfter true x ∧ .newline ∉ lastLine t := by
  let inside (g : Glyph) : Bool := g ≠ .newline
  refine ⟨(t.reverse.dropWhile inside).reverse,?_,?_,fun newline => ?_⟩
  · unfold lastLine
    rw [← List.reverse_append,List.takeWhile_append_dropWhile,List.reverse_reverse]
  · cases rest : t.reverse.dropWhile inside with
    | nil => rfl
    | cons g x =>
      have stop : inside g = false := by
        have head := List.head?_dropWhile_not inside t.reverse
        simpa [rest] using head
      have same : g = .newline := by simpa [inside] using stop
      rw [List.reverse_cons,freshAppend,same]
      simp [freshAfter]
  · have other := List.mem_takeWhile_imp (List.mem_reverse.mp newline)
    simp at other

theorem questionParts {line} (asks : isQuestion line) : ∃ x y, line = x ++ .char '>' :: y ∧ ∀ g ∈ x, isSpace g.toChar := by
  obtain ⟨y,same⟩ := List.isPrefixOf_iff_prefix.mp asks
  let blank (g : Glyph) : Bool := isSpace g.toChar
  refine ⟨line.takeWhile blank,ofString ">>" ++ y,?_,fun g inside => List.mem_takeWhile_imp (p := blank) inside⟩
  rw [show .char '>' :: (ofString ">>" ++ y) = ofString ">>>" ++ y from rfl,same,List.takeWhile_append_dropWhile]

theorem lastLineAnswered (answered : Answered t) : isQuestion (lastLine (Text.trimmed t)) = false := by
  refine Bool.eq_false_iff.mpr fun asks => ?_
  obtain ⟨x,y,whole,blank,blank'⟩ := trimmedParts t
  obtain ⟨z,lines,fresh,line⟩ := lastLineParts (Text.trimmed t)
  obtain ⟨s,r,last,indent⟩ := questionParts asks
  have text : t = (x ++ (z ++ s)) ++ .char '>' :: (r ++ y) := by
    rw [whole,lines,last]
    simp
  have begins : freshAfter true (x ++ (z ++ s)) := by
    rw [freshAppend,freshBlank blank,freshAppend,fresh]
    exact freshBlank indent
  obtain ⟨before,after,same,g,inside,solid⟩ := answered _ _ text begins
  have space : isSpace g.toChar := by
    rcases List.append_eq_append_iff.mp same with ⟨w,_,rest⟩ | ⟨w,_,rest⟩
    · exact blank' g (rest ▸ List.mem_append_right w (List.mem_cons_of_mem _ inside))
    · rcases w with _ | ⟨h,w⟩
      · rw [List.nil_append] at rest
        exact blank' g (rest ▸ List.mem_cons_of_mem _ inside)
      · -- the newline would stand in the last line itself
        obtain ⟨rfl,_⟩ := List.cons.inj rest
        refine absurd ?_ line
        rw [last,‹r = _›]
        simp
  rw [solid] at space
  contradiction

end Pending

namespace Parse

open Pending

variable {c d : Cursor} {body : List Stmt} {n : Nat}

def Closed (c d : Cursor) : Prop := ∃ u, c.Over u d ∧ Sealed ⟨.code,1⟩ 1 u d.rest ∧ Answered u

theorem closedTrans {e} (first : Closed c d) (second : Closed d e) : Closed c e := by
  obtain ⟨u,across,closed,answered⟩ := first
  obtain ⟨v,across',closed',answered'⟩ := second
  rw [across'.rest] at closed
  exact ⟨u ++ v,Cursor.overTrans across across',sealedAppend closed closed',answeredAppend answered answered'⟩

theorem closedBlank (c : Cursor) : Closed c c.skipBlank :=
  (Reader.sheltersBlank (Q := Answered) (Int.le_refl 1)).1 c () c.skipBlank rfl

theorem closedThrough (through : Through (Phrases.upTo n) c body d) : Closed c d := by
  induction through with
  | none c => exact ⟨[],Cursor.overNone c,sealedNone 1 c.rest,answeredNone⟩
  | @more c d e s body _ found _ ih =>
    have sheltered := Phrases.shelteredBy (fun _ _ => Phrases.sheltersQuestion) n
    have statement : Closed _ _ := (sheltered.statement 1 (Int.le_refl 1)).1 _ _ _ found
    exact closedTrans (closedBlank c) (closedTrans statement ih)

theorem closedText {source} (faultless : (ofNormal false source).errors = []) :
    (scan {} source).depth = 0 ∧ (scan {} source).place ≠ .literal ∧ (scan {} source).place ≠ .escape ∧ Answered source := by
  obtain ⟨d,through,ended⟩ := readThrough faultless
  obtain ⟨u,across,closed,answered⟩ := closedTrans (closedThrough through) (closedBlank d)
  obtain rfl : source = u := by simpa [ended,Cursor.start] using across.rest
  have shifted : scan ⟨.code,1⟩ source = ⟨(scan {} source).place,(scan {} source).depth + 1⟩ := scanShift {} 1 source
  have settled := closed.settled
  simp only [shifted,Count.mk.injEq] at settled
  refine ⟨by omega,?_,?_,answered⟩
  · rcases settled with ⟨place,_⟩ | ⟨⟨place,_⟩,_⟩ <;> simp [place]
  · rcases settled with ⟨place,_⟩ | ⟨⟨place,_⟩,_⟩ <;> simp [place]

theorem readableTextsAreComplete (t : Text) (faultless : (strict t).errors = []) :
    needsMore t = false ∧ (scan {} (Text.normalize t)).depth = 0 ∧
      (scan {} (Text.normalize t)).place ≠ .literal ∧ (scan {} (Text.normalize t)).place ≠ .escape := by
  obtain ⟨depth,literal,escape,answered⟩ := closedText faultless
  refine ⟨?_,depth,literal,escape⟩
  obtain ⟨x,y,whole,blank,blank'⟩ := trimmedParts (Text.normalize t)
  have count : (scan {} (Text.trimmed (Text.normalize t))).depth = 0 := by
    rw [whole,scanAppend,(scanBlank {} blank).2 rfl,scanAppend,(scanBlank _ blank').1] at depth
    exact depth
  unfold needsMore
  dsimp only
  split
  · rfl
  · rw [lastLineAnswered answered,Bool.false_or]
    exact decide_eq_false fun more => by
      rw [show (((Text.trimmed (Text.normalize t)).map Glyph.toChar).foldl step {}).depth = 0 from count] at more
      exact absurd more (by decide)

theorem repliedQuestionIsComplete :
    let t := Text.ofString "x = \"\\q(\\\\\" # \"[\n>>> [x,\n  2] # \x7b\n [x, 2]  \n"
    (strict t).errors = [] ∧ needsMore t = false :=
  have faultless : (strict (Text.ofString
    "x = \"\\q(\\\\\" # \"[\n>>> [x,\n  2] # \x7b\n [x, 2]  \n")).errors = [] := by decide +kernel
  ⟨faultless,(readableTextsAreComplete _ faultless).1⟩

end Parse
end Terakoya
