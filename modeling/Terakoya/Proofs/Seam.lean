import Mathlib.Tactic.ByContra
import Terakoya.Proofs.Trees
import Terakoya.Proofs.Reading
import Terakoya.Proofs.Shelter

/-! A text is cut, and another rest is put behind the cut: nothing, or a new line. What is read before
the cut is read again, as long as reading the first text does not need what was behind the cut. Two
cursors that stand at the same place before the cut, or at the first glyph behind the cut that is no
blank and at the cut, go on together until one of them is lost behind the cut. -/
namespace Terakoya

open Pending
open Text (ofString)

variable {α β : Type}

def interiors : List Char :=
  '(' :: (Cursor.particles ++ Cursor.bindingStops).flatMap fun w => w.toList.tail

def Apart (t : Text) : Prop := ∀ g u, t = g :: u → g.toChar ∉ interiors

def Clear (place : Pending.Place) (s t : Text) : Prop :=
  (scan ⟨place,0⟩ s).place = .code ∨ (scan ⟨place,0⟩ s).place = .comment ∧ Ends t

theorem scanPlace (n : Count) (s : Text) : (scan ⟨n.place,0⟩ s).place = (scan n s).place := by
  have shifted := scanShift ⟨n.place,0⟩ n.depth s
  rw [show (0 : Int) + n.depth = n.depth by omega] at shifted
  exact (congrArg Count.place shifted).symm

theorem clearAfter {place after u s t} (stepped : (scan ⟨place,0⟩ u).place = after)
    (clear : Clear place (u ++ s) t) : Clear after s t := by
  unfold Clear at clear ⊢
  rwa [scanAppend,← scanPlace,stepped] at clear

structure Seam where
  shared : Text
  /-- What is behind the cut on the left, and what is put there on the right. -/
  old : Text
  new : Text
  /-- Where the shared text begins. -/
  left : Nat
  right : Nat
  ends : new = [] ∨ old = [] ∧ ∃ t, new = .newline :: t
  apart : Apart old

namespace Seam

variable (m : Seam)

def beyond : Text := (Cursor.skipSpaces ⟨0,m.old⟩).rest

def Lost (c : Cursor) : Prop := c.rest.length < m.beyond.length

def move (p : Nat) : Nat := m.right + min (p - m.left) (Text.width m.shared)

def At (s : Text) (pos pos' : Nat) : Prop :=
  ∃ v, m.shared = v ++ s ∧ pos = m.left + Text.width v ∧ pos' = m.right + Text.width v

structure Inside (s : Text) (c c' : Cursor) : Prop where
  whole : m.At s c.pos c'.pos
  rest : c.rest = s ++ m.old
  rest' : c'.rest = s ++ m.new
  clear : m.old ≠ [] → Clear .code s m.old

structure Past (c c' : Cursor) : Prop where
  pos : m.left + Text.width m.shared ≤ c.pos
  pos' : c'.pos = m.right + Text.width m.shared
  rest : c.rest = m.beyond
  rest' : c'.rest = m.new

def Pairs (c c' : Cursor) : Prop := (∃ s, m.Inside s c c') ∨ m.Past c c'

variable {m} {c c' d d' : Cursor} {s u : Text}

theorem skipRest (lines comment : Bool) (pos pos' : Nat) (t : Text) :
    (Cursor.skipFrom lines comment pos t).rest = (Cursor.skipFrom lines comment pos' t).rest := by
  induction t generalizing comment pos pos' with
  | nil => rfl
  | cons g t ih =>
    unfold Cursor.skipFrom
    split_ifs
    · exact ih _ _ _
    · rfl
    · exact ih _ _ _
    · exact ih _ _ _
    · rfl

theorem beyondLength (m : Seam) : m.beyond.length ≤ m.old.length := Cursor.aheadLength (Cursor.aheadSpaces ⟨0,m.old⟩)

theorem pairsMove (pairs : m.Pairs c c') : c'.pos = m.move c.pos := by
  unfold move
  rcases pairs with ⟨s,inside⟩ | past
  · obtain ⟨v,whole,pos,pos'⟩ := inside.whole
    rw [pos,pos',whole,Text.widthAppend]
    omega
  · have pos := past.pos
    rw [past.pos']
    omega

theorem pairsLength (pairs : m.Pairs c c') : m.beyond.length ≤ c.rest.length := by
  rcases pairs with ⟨s,inside⟩ | past
  · rw [inside.rest,List.length_append]
    have := m.beyondLength
    omega
  · exact Nat.le_of_eq (congrArg List.length past.rest.symm)

theorem notLost (pairs : m.Pairs c c') : ¬ m.Lost c := Nat.not_lt.mpr (pairsLength pairs)

theorem neverLost (all : m.old = []) (c : Cursor) : ¬ m.Lost c := by
  have none := m.beyondLength
  rw [all] at none
  exact fun lost => Nat.not_lt_zero _ (Nat.lt_of_lt_of_le lost none)

theorem newHead (m : Seam) : m.new = [] ∨ ∃ t, m.new = .newline :: t := m.ends.imp_right And.right

theorem atOver {pos pos'} (whole : m.At (u ++ s) pos pos') : m.At s (pos + Text.width u) (pos' + Text.width u) := by
  obtain ⟨v,shared,left,right⟩ := whole
  refine ⟨v ++ u,by rw [shared,List.append_assoc],?_,?_⟩
  · rw [left,Text.widthAppend,Nat.add_assoc]
  · rw [right,Text.widthAppend,Nat.add_assoc]

theorem atGlyph {pos pos' g} (whole : m.At (g :: s) pos pos') :
    m.At s (pos + g.width) (pos' + g.width) := atOver (u := [g]) whole

theorem insideOver (inside : m.Inside (u ++ s) c c') (settled : (scan ⟨.code,0⟩ u).place = .code) :
    m.Inside s ⟨c.pos + Text.width u,s ++ m.old⟩ ⟨c'.pos + Text.width u,s ++ m.new⟩ :=
  ⟨atOver inside.whole,rfl,rfl,fun some => clearAfter settled (inside.clear some)⟩

def isSolid (g : Glyph) : Bool := !Cursor.isBlank false g.toChar && g.toChar ≠ '#'

theorem skipSolid {g : Glyph} {t : Text} (solid : isSolid g) (pos : Nat) :
    Cursor.skipSpaces ⟨pos,g :: t⟩ = ⟨pos,g :: t⟩ := by
  have hash : g.is '#' = false := by
    by_contra same
    simp [isSolid,Glyph.charOfIs (by simpa using same)] at solid
  have blank : Cursor.isBlank false g.toChar = false := by
    simp only [isSolid,Bool.and_eq_true,Bool.not_eq_true'] at solid
    exact solid.1
  simp [Cursor.skipSpaces,Cursor.skipFrom,hash,blank]

theorem beyondSolid {g : Glyph} {t : Text} (old : m.old = g :: t) (solid : isSolid g) : m.beyond = m.old := by
  rw [beyond,old,skipSolid solid]

/-! Words -/

def isToken (w : String) : Bool :=
  !w.toList.isEmpty && w.toList.all (fun c => isSolid (.char c)) && (scan ⟨.code,0⟩ (ofString w)).place = .code

theorem wordLost {w x rest} (token : isToken w) (old : m.old = x ++ rest) (some : x ≠ [])
    (part : ∀ g ∈ x, g ∈ ofString w) : rest.length < m.beyond.length := by
  rcases x with _ | ⟨g,x⟩
  · contradiction
  · obtain ⟨c,member,rfl⟩ := List.mem_map.mp (part g List.mem_cons_self)
    simp only [isToken,Bool.and_eq_true] at token
    have solid : isSolid (.char c) := List.all_eq_true.mp token.1.2 c member
    rw [beyondSolid old solid,old]
    simp only [List.length_append,List.length_cons]
    omega

theorem tokenSome {w} (token : isToken w) : ofString w ≠ [] := by
  simp only [isToken,Bool.and_eq_true] at token
  intro none
  have empty : w.toList = [] := List.map_eq_nil_iff.mp none
  simp [empty] at token

theorem tokenSettled {w} (token : isToken w) : (scan ⟨.code,0⟩ (ofString w)).place = .code := by
  simp only [isToken,Bool.and_eq_true,decide_eq_true_eq] at token
  exact token.2

theorem consumeOver {w t} (rest : c.rest = ofString w ++ t) : c.consume? w = some ⟨c.pos + Text.width (ofString w),t⟩ := by
  obtain ⟨pos,_⟩ := c
  dsimp only at rest ⊢
  rw [rest,Reader.consumeWord,Text.widthOfString]

theorem consumeInside {w} (token : isToken w) (inside : m.Inside (ofString w ++ s) c c') :
    ∃ d d', c.consume? w = some d ∧ c'.consume? w = some d' ∧ m.Inside s d d' :=
  ⟨_,_,consumeOver (inside.rest.trans (List.append_assoc _ _ _)),
    consumeOver (inside.rest'.trans (List.append_assoc _ _ _)),insideOver inside (tokenSettled token)⟩

theorem wordFound {w} (token : isToken w) (pairs : m.Pairs c c') (found : c.consume? w = some d) :
    m.Lost d ∨ ∃ s d', c'.consume? w = some d' ∧ m.Inside s d d' := by
  have across := Cursor.overWord found
  rcases pairs with ⟨s,inside⟩ | past
  · have split : s ++ m.old = ofString w ++ d.rest := inside.rest ▸ across.rest
    -- the word ends behind the cut, or before it
    rcases List.append_eq_append_iff.mp split with ⟨x,word,old⟩ | ⟨s',rfl,_⟩
    · by_cases none : x = []
      · rw [none,List.append_nil] at word
        rw [← List.append_nil s,← word] at inside
        obtain ⟨e,e',found₁,found₂,after⟩ := consumeInside token inside
        cases found.symm.trans found₁
        exact Or.inr ⟨[],e',found₂,after⟩
      · refine Or.inl (wordLost token old none fun g inside => ?_)
        rw [word]
        exact List.mem_append_right s inside
    · obtain ⟨e,e',found₁,found₂,after⟩ := consumeInside token inside
      cases found.symm.trans found₁
      exact Or.inr ⟨s',e',found₂,after⟩
  · left
    have long := List.length_pos_iff.mpr (tokenSome token)
    rw [Lost,← past.rest,across.rest,List.length_append]
    omega

theorem newWord {w x t} (line : '\n' ∉ w.toList) (new : m.new = x ++ t) (part : ∀ g ∈ x, g ∈ ofString w) : x = [] := by
  rcases x with _ | ⟨g,x⟩
  · rfl
  · rcases m.newHead with none | ⟨t',head⟩
    · rw [none] at new
      contradiction
    · obtain ⟨rfl,_⟩ := List.cons.inj (head.symm.trans new)
      obtain ⟨c,member,same⟩ := List.mem_map.mp (part _ List.mem_cons_self)
      cases same
      exact absurd member line

theorem wordCut {w} (token : isToken w) (line : '\n' ∉ w.toList) (cut : c'.rest = m.new) : c'.consume? w = none := by
  cases found : c'.consume? w with
  | none => rfl
  | some d' =>
    have whole : m.new = ofString w ++ d'.rest := cut ▸ (Cursor.overWord found).rest
    exact absurd (newWord line whole fun _ inside => inside) (tokenSome token)

theorem wordBack {w} (token : isToken w) (line : '\n' ∉ w.toList) (pairs : m.Pairs c c')
    (found : c'.consume? w = some d') : ∃ s d, m.Inside (ofString w ++ s) c c' ∧ c.consume? w = some d ∧ m.Inside s d d' := by
  have across := Cursor.overWord found
  rcases pairs with ⟨s,inside⟩ | past
  · have split : s ++ m.new = ofString w ++ d'.rest := inside.rest' ▸ across.rest
    have whole : ∃ s', s = ofString w ++ s' := by
      rcases List.append_eq_append_iff.mp split with ⟨x,word,new⟩ | ⟨s',same,_⟩
      · have none := newWord line new fun g inside => word ▸ List.mem_append_right s inside
        exact ⟨[],by rw [word,none,List.append_nil,List.append_nil]⟩
      · exact ⟨s',same⟩
    obtain ⟨s',rfl⟩ := whole
    obtain ⟨e,e',found₁,found₂,after⟩ := consumeInside token inside
    cases found.symm.trans found₂
    exact ⟨s',e,inside,found₁,after⟩
  · rw [wordCut token line past.rest'] at found
    contradiction

theorem wordMissing {w} (token : isToken w) (line : '\n' ∉ w.toList) (pairs : m.Pairs c c')
    (missing : c.consume? w = none) : c'.consume? w = none := by
  cases found : c'.consume? w with
  | none => rfl
  | some d' =>
    obtain ⟨s,d,_,found',_⟩ := wordBack token line pairs found
    rw [missing] at found'
    contradiction

/-! Blanks -/

theorem skipEnds (lines comment : Bool) (pos : Nat) {t} (ends : comment = true → Ends t) :
    Cursor.skipFrom lines comment pos t = Cursor.skipFrom lines false pos t := by
  cases comment with
  | false => rfl
  | true =>
    rcases ends rfl with rfl | ⟨u,rfl⟩
    · rfl
    · rfl

theorem clearEnds {comment} (clear : m.old ≠ [] → Clear (Cursor.skipPlace comment) [] m.old)
    (commented : comment = true) : Ends m.old := by
  by_cases none : m.old = []
  · exact Or.inl none
  · subst commented
    rcases clear none with code | ⟨_,ends⟩
    · contradiction
    · exact ends

theorem skipSeam (lines comment : Bool) {s pos pos'} (whole : m.At s pos pos')
    (clear : m.old ≠ [] → Clear (Cursor.skipPlace comment) s m.old) :
    (∃ g s', m.Inside (g :: s') (Cursor.skipFrom lines comment pos (s ++ m.old))
        (Cursor.skipFrom lines comment pos' (s ++ m.new))) ∨
      m.left + Text.width m.shared ≤ (Cursor.skipFrom lines comment pos (s ++ m.old)).pos ∧
      (Cursor.skipFrom lines comment pos (s ++ m.old)).rest = (Cursor.skipFrom lines false 0 m.old).rest ∧
      Cursor.skipFrom lines comment pos' (s ++ m.new) =
        Cursor.skipFrom lines false (m.right + Text.width m.shared) m.new := by
  induction s generalizing comment pos pos' with
  | nil =>
    obtain ⟨v,shared,rfl,rfl⟩ := whole
    rw [List.append_nil] at shared
    subst shared
    refine Or.inr ⟨Cursor.aheadPos (Cursor.aheadSkip lines comment _ m.old),?_,?_⟩
    · rw [List.nil_append,skipEnds lines comment _ (clearEnds clear)]
      exact skipRest _ _ _ _ _
    · exact skipEnds lines comment _ fun _ => m.newHead
  | cons g s ih =>
    have onward (after : Bool) (stepped : (step ⟨Cursor.skipPlace comment,0⟩ g.toChar).place = Cursor.skipPlace after) :=
      ih after (atGlyph whole) fun some => clearAfter (u := [g]) stepped (clear some)
    have stay (code : (step ⟨Cursor.skipPlace comment,0⟩ g.toChar) = step ⟨.code,0⟩ g.toChar) :
        m.Inside (g :: s) ⟨pos,g :: s ++ m.old⟩ ⟨pos',g :: s ++ m.new⟩ := by
      refine ⟨whole,rfl,rfl,fun some => ?_⟩
      have known := clear some
      unfold Clear at known ⊢
      rwa [scanCons,code] at known
    simp only [List.cons_append,Cursor.skipFrom]
    split_ifs with newline line skipped blank
    · refine onward false ?_
      rw [Glyph.charOfIs newline]
      cases comment <;> rfl
    · refine Or.inl ⟨g,s,stay ?_⟩
      rw [Glyph.charOfIs newline]
      cases comment <;> rfl
    · refine onward true ?_
      have other : g.toChar ≠ '\n' := fun same => newline (Glyph.eqOfChar same (by decide) ▸ rfl)
      cases comment with
      | true => simp [step,Cursor.skipPlace,other]
      | false => simp [step,Cursor.skipPlace,Glyph.charOfIs (show g.is '#' from skipped)]
    · obtain ⟨rfl,_⟩ := Bool.or_eq_false_iff.mp (Bool.eq_false_iff.mpr skipped)
      refine onward false ?_
      have other : g.toChar ≠ '\n' := fun same => newline (Glyph.eqOfChar same (by decide) ▸ rfl)
      exact congrArg Count.place (stepPlain (Cursor.plainOfBlank blank other))
    · obtain ⟨rfl,_⟩ := Bool.or_eq_false_iff.mp (Bool.eq_false_iff.mpr skipped)
      exact Or.inl ⟨g,s,stay rfl⟩

theorem blankLines {lines} {g : Glyph} (other : ¬ g.is '\n') :
    Cursor.isBlank lines g.toChar = Cursor.isBlank false g.toChar := by
  have char : g.toChar ≠ '\n' := fun same => other (Glyph.eqOfChar same (by decide) ▸ rfl)
  simp [Cursor.isBlank,char]

theorem skipTwice (lines comment : Bool) (pos pos' : Nat) (t : Text) :
    (Cursor.skipFrom lines false pos (Cursor.skipFrom false comment pos' t).rest).rest =
      (Cursor.skipFrom lines comment pos' t).rest := by
  induction t generalizing comment pos' with
  | nil => rfl
  | cons g t ih =>
    by_cases newline : g.is '\n'
    · cases lines with
      | true =>
        simp only [Cursor.skipFrom,newline,if_true,Bool.false_eq_true,if_false]
        exact skipRest _ _ _ _ _
      | false => simp [Cursor.skipFrom,newline]
    · by_cases skipped : comment || g.is '#'
      · simpa [Cursor.skipFrom,newline,skipped] using ih true (pos' + g.width)
      · by_cases blank : Cursor.isBlank false g.toChar
        · simpa [Cursor.skipFrom,newline,skipped,blankLines newline,blank] using ih false (pos' + g.width)
        · obtain ⟨code,hash⟩ : comment = false ∧ g.is '#' = false := by simpa using skipped
          simp [Cursor.skipFrom,newline,blankLines newline,blank,code,hash]

theorem skipStays (lines comment : Bool) {pos t}
    (same : (Cursor.skipFrom lines comment pos t).rest = t) : Cursor.skipFrom lines comment pos t = ⟨pos,t⟩ := by
  obtain ⟨u,across⟩ := Cursor.aheadSkip lines comment pos t
  have none : u = [] := by
    have whole : t = u ++ (Cursor.skipFrom lines comment pos t).rest := across.rest
    rw [same] at whole
    exact List.self_eq_append_left.mp whole
  have pos' := across.pos
  rw [none] at pos'
  generalize Cursor.skipFrom lines comment pos t = d at same pos'
  obtain ⟨p,r⟩ := d
  cases same
  cases pos'
  rfl

theorem beyondStays (m : Seam) (pos : Nat) : Cursor.skipFrom false false pos m.beyond = ⟨pos,m.beyond⟩ :=
  skipStays false false (skipTwice false false pos 0 m.old)

theorem newStays (m : Seam) (pos : Nat) : Cursor.skipFrom false false pos m.new = ⟨pos,m.new⟩ := by
  rcases m.newHead with none | ⟨t,head⟩
  · rw [none]
    rfl
  · rw [head]
    rfl

theorem spacesPaired (pairs : m.Pairs c c') :
    (∃ g s, m.Inside (g :: s) c.skipSpaces c'.skipSpaces) ∨ m.Past c.skipSpaces c'.skipSpaces := by
  rcases pairs with ⟨s,inside⟩ | past
  · have skipped := skipSeam false false inside.whole inside.clear
    rw [← inside.rest,← inside.rest',newStays] at skipped
    refine skipped.imp_right ?_
    rintro ⟨pos,rest,same⟩
    exact ⟨pos,congrArg Cursor.pos same,rest,congrArg Cursor.rest same⟩
  · right
    have left : c.skipSpaces = c := by
      rw [Cursor.skipSpaces,past.rest,beyondStays,← past.rest]
    have right : c'.skipSpaces = c' := by
      rw [Cursor.skipSpaces,past.rest',newStays,← past.rest']
    rw [left,right]
    exact past

theorem spacesPairs (pairs : m.Pairs c c') : m.Pairs c.skipSpaces c'.skipSpaces := by
  rcases spacesPaired pairs with ⟨g,s,inside⟩ | past
  · exact Or.inl ⟨g :: s,inside⟩
  · exact Or.inr past

theorem blankPaired (pairs : m.Pairs c c') :
    (∃ g s, m.Inside (g :: s) c.skipBlank c'.skipBlank) ∨
      c.skipBlank.rest = (Cursor.skipFrom true false 0 m.old).rest ∧
      c'.skipBlank = Cursor.skipFrom true false (m.right + Text.width m.shared) m.new := by
  rcases pairs with ⟨s,inside⟩ | past
  · have skipped := skipSeam true false inside.whole inside.clear
    rw [← inside.rest,← inside.rest'] at skipped
    exact skipped.imp_right And.right
  · right
    refine ⟨?_,by rw [Cursor.skipBlank,past.rest',past.pos']⟩
    rw [Cursor.skipBlank,past.rest]
    exact skipTwice true false _ _ _

theorem spentLength (m : Seam) : (Cursor.skipFrom true false 0 m.old).rest.length ≤ m.beyond.length := by
  rw [← skipTwice true false 0 0 m.old]
  exact Cursor.aheadLength (c := ⟨0,m.beyond⟩) (Cursor.aheadSkip true false 0 m.beyond)

/-! Names and numbers -/

theorem dropWordPrefix (w : List Char) (t : Text) : (Cursor.dropWord w t).isSome ↔ w.map Glyph.char <+: t := by
  refine ⟨fun found => ?_,fun ⟨rest,same⟩ => ?_⟩
  · obtain ⟨rest,found⟩ := Option.isSome_iff_exists.mp found
    exact ⟨rest,(Cursor.dropWordSome found).symm⟩
  · rw [← same,Cursor.dropWordSame]
    rfl

theorem wordBefore {w : List Char} {t : Text} (apart : ∀ g u, t = g :: u → g.toChar ∉ w.tail) (g : Glyph) (s : Text) :
    (Cursor.dropWord w (g :: s ++ t)).isSome ↔ w.map Glyph.char <+: g :: s := by
  rw [dropWordPrefix]
  refine ⟨fun ⟨rest,same⟩ => ?_,fun ⟨rest,same⟩ => ⟨rest ++ t,by rw [← List.append_assoc,same]⟩⟩
  rcases List.append_eq_append_iff.mp same with ⟨s',whole,_⟩ | ⟨x,whole,old⟩
  · exact ⟨s',whole.symm⟩
  · rcases x with _ | ⟨h,x⟩
    · exact ⟨[],by rw [whole,List.append_nil,List.append_nil]⟩
    · rcases w with _ | ⟨c,w⟩
      · contradiction
      · have tail : w.map Glyph.char = s ++ h :: x := (List.cons.inj whole).2
        obtain ⟨d,member,rfl⟩ := List.mem_map.mp (tail ▸ List.mem_append_right s List.mem_cons_self)
        exact absurd member (apart _ _ old)

theorem wordSeam {w} (word : w ∈ Cursor.particles ++ Cursor.bindingStops) (m : Seam) (g : Glyph) (s : Text) :
    (Cursor.dropWord w.toList (g :: s ++ m.old)).isSome = (Cursor.dropWord w.toList (g :: s ++ m.new)).isSome := by
  have left (h : Glyph) (u : Text) (old : m.old = h :: u) : h.toChar ∉ w.toList.tail := fun inside =>
    m.apart h u old (List.mem_cons_of_mem _ (List.mem_flatMap.mpr ⟨w,word,inside⟩))
  have right (h : Glyph) (u : Text) (new : m.new = h :: u) : h.toChar ∉ w.toList.tail := by
    have lineless : ∀ w ∈ Cursor.particles ++ Cursor.bindingStops, '\n' ∉ w.toList.tail := by decide
    rcases m.newHead with none | ⟨t,head⟩
    · rw [none] at new
      contradiction
    · obtain ⟨rfl,_⟩ := List.cons.inj (head.symm.trans new)
      exact lineless w word
  rw [Bool.eq_iff_iff,wordBefore left,wordBefore right]

theorem particleSeam (m : Seam) (first : Bool) (g : Glyph) (s : Text) :
    Cursor.atParticle first (g :: s ++ m.old) = Cursor.atParticle first (g :: s ++ m.new) := by
  unfold Cursor.atParticle
  rw [Bool.eq_iff_iff,List.any_eq_true,List.any_eq_true]
  refine exists_congr fun p => and_congr_right fun member => ?_
  rw [wordSeam (List.mem_append_left _ member)]

theorem bindingSeam (m : Seam) (g : Glyph) (s : Text) :
    Cursor.endsBinding (g :: s ++ m.old) = Cursor.endsBinding (g :: s ++ m.new) := by
  simp only [Cursor.endsBinding,List.cons_append]
  congr 1
  rw [Bool.eq_iff_iff,List.any_eq_true,List.any_eq_true]
  refine exists_congr fun w => and_congr_right fun member => ?_
  rw [← List.cons_append,← List.cons_append,wordSeam (List.mem_append_right _ member)]

/-- Two readings of a lexeme are equal, or the first one is lost where the second one stops at the cut. -/
def Alike (m : Seam) (x x' : α × Cursor) : Prop :=
  m.Lost x.2 ∧ x'.2.rest = m.new ∨ x'.1 = x.1 ∧ ∃ s, m.Inside s x.2 x'.2

theorem alikeMap {x x'} (alike : m.Alike x x') (f : α → β) : m.Alike (f x.1,x.2) (f x'.1,x'.2) :=
  alike.imp_right (And.imp_left fun same => congrArg f same)

theorem alikeStay {a : α} (inside : m.Inside s c c') : m.Alike (a,c) (a,c') := Or.inr ⟨rfl,s,inside⟩

theorem insideGlyph {g pos pos'} (plain : isPlain g.toChar)
    (inside : m.Inside (g :: s) ⟨pos,g :: (s ++ m.old)⟩ ⟨pos',g :: (s ++ m.new)⟩) :
    m.Inside s ⟨pos + g.width,s ++ m.old⟩ ⟨pos' + g.width,s ++ m.new⟩ :=
  insideOver (u := [g]) inside (congrArg Count.place (stepPlain plain))

theorem cutLost {g : Glyph} {t : Text} (old : m.old = g :: t) (solid : isSolid g) (shorter : d.rest.length ≤ t.length) :
    m.Lost d := by
  rw [Lost,beyondSolid old solid,old]
  exact Nat.lt_succ_of_le shorter

theorem alikeCut {F : Nat → Text → α × Cursor} {a pos pos'} (none : ∀ pos, F pos [] = (a,⟨pos,[]⟩))
    (line : ∀ pos t, F pos (.newline :: t) = (a,⟨pos,.newline :: t⟩))
    (glyph : ∀ pos g t, F pos (g :: t) = (a,⟨pos,g :: t⟩) ∨ isSolid g ∧ (F pos (g :: t)).2.rest.length ≤ t.length)
    (inside : m.Inside [] ⟨pos,m.old⟩ ⟨pos',m.new⟩) : m.Alike (F pos m.old) (F pos' m.new) := by
  have right : F pos' m.new = (a,⟨pos',m.new⟩) := by
    rcases m.newHead with new | ⟨t,head⟩
    · rw [new,none]
    · rw [head,line]
  rw [right]
  rcases old : m.old with _ | ⟨g,t⟩
  · rw [none,← old]
    exact alikeStay inside
  · rcases glyph pos g t with same | ⟨solid,shorter⟩
    · rw [same,← old]
      exact alikeStay inside
    · exact Or.inl ⟨cutLost old solid shorter,rfl⟩

theorem solidUnless {g} (foreign : g.toChar ∉ [' ','\t','\r','#']) : isSolid g := by
  simp only [List.mem_cons,List.not_mem_nil,or_false,not_or] at foreign
  simp [isSolid,Cursor.isBlank,foreign]

theorem solidWordy {g} (wordy : Cursor.isWordy g.toChar) : isSolid g :=
  solidUnless (Cursor.wordyOutside wordy (by decide))

theorem solidBinding {g : Glyph} {t : Text} (going : ¬ Cursor.endsBinding (g :: t)) : isSolid g :=
  solidUnless (Cursor.bindingOutside going (by decide))

theorem digitsAlike {pos pos' : Nat} (inside : m.Inside s ⟨pos,s ++ m.old⟩ ⟨pos',s ++ m.new⟩) :
    m.Alike (Cursor.readWhile Cursor.isDigit pos (s ++ m.old)) (Cursor.readWhile Cursor.isDigit pos' (s ++ m.new)) := by
  induction s generalizing pos pos' with
  | nil =>
    refine alikeCut (F := Cursor.readWhile Cursor.isDigit) (fun _ => rfl) (fun _ _ => rfl) (fun pos g t => ?_) inside
    unfold Cursor.readWhile
    split
    · rename_i digit
      exact Or.inr ⟨solidWordy (Cursor.wordyDigit digit),Cursor.aheadLength (Cursor.aheadWhile _ _ t)⟩
    · exact Or.inl rfl
  | cons g s ih =>
    simp only [List.cons_append,Cursor.readWhile]
    split
    · rename_i digit
      exact alikeMap (ih (insideGlyph (Cursor.plainOfWordy _ (Cursor.wordyDigit digit)) inside)) (g.toChar :: ·)
    · exact alikeStay inside

theorem lettersAlike (first : Bool) {pos pos' : Nat} (inside : m.Inside s ⟨pos,s ++ m.old⟩ ⟨pos',s ++ m.new⟩) :
    m.Alike (Cursor.readLetters first pos (s ++ m.old)) (Cursor.readLetters first pos' (s ++ m.new)) := by
  induction s generalizing first pos pos' with
  | nil =>
    have line (pos : Nat) (t : Text) : Cursor.readLetters first pos (.newline :: t) = ([],⟨pos,.newline :: t⟩) := by
      unfold Cursor.readLetters
      rw [show Cursor.isNameLetter Glyph.newline.toChar = false by decide]
      rfl
    refine alikeCut (F := Cursor.readLetters first) (fun _ => rfl) line (fun pos g t => ?_) inside
    unfold Cursor.readLetters
    split
    · rename_i letter
      exact Or.inr ⟨solidWordy (Cursor.wordyLetter (Bool.and_eq_true_iff.mp letter).1),Cursor.aheadLength (Cursor.aheadLetters _ _ t)⟩
    · exact Or.inl rfl
  | cons g s ih =>
    have same := particleSeam m first g s
    simp only [List.cons_append] at same ⊢
    simp only [Cursor.readLetters,same]
    split
    · rename_i letter
      have plain := Cursor.plainOfWordy _ (Cursor.wordyLetter (Bool.and_eq_true_iff.mp letter).1)
      exact alikeMap (ih false (insideGlyph plain inside)) (g.toChar :: ·)
    · exact alikeStay inside

theorem nameAlike {pos pos' : Nat} (inside : m.Inside s ⟨pos,s ++ m.old⟩ ⟨pos',s ++ m.new⟩) :
    m.Alike (Cursor.readBinding pos (s ++ m.old)) (Cursor.readBinding pos' (s ++ m.new)) := by
  induction s generalizing pos pos' with
  | nil =>
    refine alikeCut (F := Cursor.readBinding) (fun _ => rfl) (fun _ _ => rfl) (fun pos g t => ?_) inside
    unfold Cursor.readBinding
    split
    · exact Or.inl rfl
    · rename_i going
      exact Or.inr ⟨solidBinding going,Cursor.aheadLength ⟨_,Cursor.overBinding _ t⟩⟩
  | cons g s ih =>
    have same := bindingSeam m g s
    simp only [List.cons_append] at same ⊢
    simp only [Cursor.readBinding,same]
    split
    · exact alikeStay inside
    · rename_i going
      exact alikeMap (ih (insideGlyph (Cursor.plainOfBinding going) inside)) (g :: ·)

theorem insideEta (inside : m.Inside s c c') :
    m.Inside s ⟨c.pos,s ++ m.old⟩ ⟨c'.pos,s ++ m.new⟩ := ⟨inside.whole,rfl,rfl,inside.clear⟩

theorem lettersNone {first pos t} (none : (Cursor.readLetters first pos t).1 = []) :
    (Cursor.readLetters first pos t).2 = ⟨pos,t⟩ := by
  cases t with
  | nil => rfl
  | cons g t =>
    unfold Cursor.readLetters at none ⊢
    split at none
    · exact absurd none (List.cons_ne_nil _ _)
    · rename_i foreign
      rw [if_neg foreign]

theorem identifierParts (c : Cursor) : c.readIdentifier =
    if (Cursor.readLetters true c.pos c.rest).1 = [] then ("",c)
    else
      let next := (Cursor.readLetters true c.pos c.rest).2
      let digits := Cursor.readWhile Cursor.isDigit next.pos next.rest
      (String.ofList ((Cursor.readLetters true c.pos c.rest).1 ++ digits.1),digits.2) := by
  unfold Cursor.readIdentifier
  split
  · rename_i next none
    rw [none]
    rfl
  · rename_i letters next some reading
    rw [reading,if_neg some]

theorem identifierAlike (inside : m.Inside s c c') : m.Lost c.readIdentifier.2 ∨
    c'.readIdentifier.1 = c.readIdentifier.1 ∧ ∃ s, m.Inside s c.readIdentifier.2 c'.readIdentifier.2 := by
  have letters := lettersAlike true (insideEta inside)
  rw [← inside.rest,← inside.rest'] at letters
  rw [identifierParts c,identifierParts c']
  rcases letters with ⟨lost,_⟩ | ⟨same,s',after⟩
  · have some : (Cursor.readLetters true c.pos c.rest).1 ≠ [] := fun none => by
      rw [lettersNone none] at lost
      exact notLost (Or.inl ⟨s,inside⟩) lost
    rw [if_neg some]
    exact Or.inl (Nat.lt_of_le_of_lt (Cursor.aheadLength (Cursor.aheadWhile _ _ _)) lost)
  · rw [same]
    split
    · exact Or.inr ⟨rfl,s,inside⟩
    · have digits := digitsAlike (insideEta after)
      rw [← after.rest,← after.rest'] at digits
      exact (alikeMap digits fun run => String.ofList (_ ++ run)).imp_left And.left

/-! Quoted texts -/

theorem clearGlyph {place after g t} (stepped : (step ⟨place,0⟩ g.toChar).place = after)
    (clear : Clear place (g :: s) t) : Clear after s t := clearAfter (u := [g]) stepped clear

theorem quotedEscape (pos : Nat) (g : Glyph) (t : Text) : Cursor.readQuoted pos (.char '\\' :: g :: t) =
    match Cursor.unescape? g.toChar with
    | some c => (Cursor.readQuoted (pos + 1 + g.width) t).push c
    | none =>
      if g.is '\n' || g.is '\x00' then (Cursor.readQuoted (pos + 1) (g :: t)).push '\\'
      else ((Cursor.readQuoted (pos + 1 + g.width) t).push g.toChar).push '\\' := by
  rw [Cursor.readQuoted.eq_def]
  rfl

theorem quotedOther {g} (quote : g ≠ .char '"') (newline : g ≠ .char '\n') (escape : g ≠ .char '\\') (pos : Nat)
    (t : Text) : Cursor.readQuoted pos (g :: t) = (Cursor.readQuoted (pos + g.width) t).push g.toChar := by
  rw [Cursor.readQuoted]
  · exact quote
  · exact newline
  · exact fun same => absurd same escape
  · exact fun _ _ same => absurd same escape

def Quoted (m : Seam) (q q' : Cursor.Quote) : Prop :=
  ∃ s next', q' = ⟨q.content,true,next'⟩ ∧ m.Inside s q.next next'

theorem quotedPush {q q'} (quoted : m.Quoted q q') (c : Char) : m.Quoted (q.push c) (q'.push c) := by
  obtain ⟨s,next',rfl,inside⟩ := quoted
  exact ⟨s,next',rfl,inside⟩

theorem quotedSeam {pos pos'} (whole : m.At s pos pos') (clear : m.old ≠ [] → Clear .literal s m.old)
    (closed : (Cursor.readQuoted pos (s ++ m.old)).closed) :
    m.Quoted (Cursor.readQuoted pos (s ++ m.old)) (Cursor.readQuoted pos' (s ++ m.new)) := by
  -- a text that is open at the cut cannot be closed: nothing follows, or the count is in code there
  have open' {place : Pending.Place} (inner : place = .literal ∨ place = .escape)
      (clear : m.old ≠ [] → Clear place [] m.old) : m.old = [] := by
    by_contra some
    rcases clear some with code | ⟨comment,_⟩
    · rcases inner with rfl | rfl <;> contradiction
    · rcases inner with rfl | rfl <;> contradiction
  fun_induction Cursor.readQuoted pos s generalizing pos' with
  | case1 pos =>
    rw [open' (Or.inl rfl) clear] at closed
    contradiction
  | case2 pos t =>
    exact ⟨t,_,rfl,atGlyph whole,rfl,rfl,fun some => clearGlyph rfl (clear some)⟩
  | case3 pos t => contradiction
  | case4 pos =>
    rw [open' (Or.inr rfl) fun some => clearGlyph rfl (clear some)] at closed
    contradiction
  | case5 pos g t c escape ih =>
    simp only [List.cons_append,quotedEscape,escape] at closed ⊢
    exact quotedPush (ih (atGlyph (atGlyph whole)) (fun some => clearGlyph rfl (clearGlyph rfl (clear some))) closed) c
  | case6 pos g t none early ih =>
    simp only [List.cons_append,quotedEscape,none,early,if_true] at closed ⊢
    refine quotedPush (ih (atGlyph whole) (fun some => ?_) closed) '\\'
    rcases Bool.or_eq_true_iff.mp early with newline | null
    · rw [Glyph.isNewline newline] at closed
      contradiction
    · have same : g = .char '\x00' := Glyph.eqOfIs null
      subst same
      exact clear some
  | case7 pos g t none late ih =>
    simp only [List.cons_append,quotedEscape,none,late] at closed ⊢
    exact quotedPush (quotedPush (ih (atGlyph (atGlyph whole))
      (fun some => clearGlyph rfl (clearGlyph rfl (clear some))) closed) _) _
  | case8 pos g t quote newline last escape ih =>
    have other : g ≠ .char '\\' := by
      intro same
      cases t with
      | nil => exact last same rfl
      | cons g' t => exact escape g' t same rfl
    rw [List.cons_append,quotedOther quote newline other] at closed ⊢
    rw [List.cons_append,quotedOther quote newline other]
    refine quotedPush (ih (atGlyph whole) (fun some => clearGlyph ?_ (clear some)) closed) _
    have differs : g.toChar ≠ '"' ∧ g.toChar ≠ '\n' ∧ g.toChar ≠ '\\' :=
      ⟨fun same => quote (Glyph.eqOfChar same (by decide)),fun same => newline (Glyph.eqOfChar same (by decide)),
        fun same => other (Glyph.eqOfChar same (by decide))⟩
    simp [step,differs]

/-! Readers -/

def Follows (m : Seam) (off : α → Cursor → Prop) (move : α → α) (c' : Cursor) : Reading α → Reading α → Prop
  | .found a d,x => off a d ∨ ∃ d', x = .found (move a) d' ∧ m.Pairs d d' ∧ d'.rest.length ≤ c'.rest.length
  | .absent d,x => m.Lost d ∨ ∃ d', x = .absent d'
  | _,_ => True

def Strays (m : Seam) (off : α → Cursor → Prop) : Reading α → Prop
  | .found a d => off a d
  | .absent d => m.Lost d
  | _ => True

def lost (m : Seam) : α → Cursor → Prop := fun _ d => m.Lost d

structure Tracks (m : Seam) (off : α → Cursor → Prop) (size : Nat) (move : α → α) (r r' : Reader α) : Prop where
  agrees : ∀ c c', m.Pairs c c' → c'.rest.length < size → m.Follows off move c' (r c) (r' c')
  drifts : ∀ c, m.Lost c → m.Strays off (r c)

variable {off : β → Cursor → Prop} {size n : Nat} {move : α → α} {move' : β → β} {r r' : Reader α} {f f' : α → Reader β}

theorem followsStrays {off : α → Cursor → Prop} {x x'} (strays : m.Strays off x) : m.Follows off move c' x x' := by
  cases x with
  | found a d => exact Or.inl strays
  | absent d => exact Or.inl strays
  | refused e => trivial
  | unfinished => trivial

theorem followsShorter {off : α → Cursor → Prop} {x x'} (d' : Cursor) {e'}
    (follows : m.Follows off move d' x x') (shorter : d'.rest.length ≤ e'.rest.length) : m.Follows off move e' x x' := by
  cases x with
  | found a d => exact follows.imp_right fun ⟨e,found,pairs,atMost⟩ => ⟨e,found,pairs,Nat.le_trans atMost shorter⟩
  | _ => exact follows

theorem followsBind {off' : α → Cursor → Prop} (first : m.Follows off' move c' (r c) (r' c'))
    (next : ∀ a d d', r c = .found a d → r' c' = .found (move a) d' → m.Pairs d d' → d'.rest.length ≤ c'.rest.length →
      m.Follows off move' d' (f a d) (f' (move a) d'))
    (strays : ∀ a d, off' a d → m.Strays off (f a d)) : m.Follows off move' c' ((r >>= f) c) ((r' >>= f') c') := by
  simp only [Bind.bind,Reader.bind]
  cases result : r c with
  | found a d =>
    rw [result] at first
    rcases first with astray | ⟨d',found,after,atMost⟩
    · exact followsStrays (strays a d astray)
    · rw [found]
      exact followsShorter d' (next a d d' result found after atMost) atMost
  | absent d =>
    rw [result] at first
    refine first.imp_right ?_
    rintro ⟨d',missing⟩
    refine ⟨d',?_⟩
    rw [missing]
  | refused e => trivial
  | unfinished => trivial

theorem straysBind {off' : α → Cursor → Prop} (first : m.Strays off' (r c))
    (next : ∀ a d, r c = .found a d → off' a d → m.Strays off (f a d)) : m.Strays off ((r >>= f) c) := by
  simp only [Bind.bind,Reader.bind]
  cases result : r c with
  | found a d =>
    rw [result] at first
    exact next a d result first
  | absent d =>
    rw [result] at first
    exact first
  | refused e => trivial
  | unfinished => trivial

theorem tracksBindOff {off' : α → Cursor → Prop} (first : m.Tracks off' size move r r')
    (shorter : ∀ c', c'.rest.length < size → ∀ a d', r' c' = .found a d' → d'.rest.length ≤ c'.rest.length → d'.rest.length < n)
    (next : ∀ a, m.Tracks off n move' (f a) (f' (move a))) (strays : ∀ a d, off' a d → m.Strays off (f a d)) :
    m.Tracks off size move' (r >>= f) (r' >>= f') := by
  refine ⟨fun c c' pairs bound => ?_,fun c lost => straysBind (first.drifts c lost) fun a d _ => strays a d⟩
  refine followsBind (first.agrees c c' pairs bound) (fun a d d' _ found after atMost => ?_) strays
  exact (next a).agrees d d' after (shorter c' bound _ d' found atMost)

theorem tracksBind (first : m.Tracks m.lost size move r r') (next : ∀ a, m.Tracks off size move' (f a) (f' (move a))) :
    m.Tracks off size move' (r >>= f) (r' >>= f') :=
  tracksBindOff first (fun _ bound _ _ _ atMost => Nat.lt_of_le_of_lt atMost bound) next
    fun a d lost => (next a).drifts d lost

theorem tracksEats (first : m.Tracks m.lost size move r r') (eats : ∀ c, Reader.Eats c 0 r') (less : size ≤ n + 1)
    (next : ∀ a, m.Tracks off n move' (f a) (f' (move a))) :
    m.Tracks off size move' (r >>= f) (r' >>= f') := by
  refine tracksBindOff first (fun c' bound a d' found _ => ?_) next fun a d lost => (next a).drifts d lost
  have shorter := (eats c').2 c' (Cursor.aheadRefl c') a d' found
  omega

theorem tracksThen (first : m.Tracks m.lost size id r r') (next : ∀ a, m.Tracks off size move' (f a) (f' a)) :
    m.Tracks off size move' (r >>= f) (r' >>= f') := tracksBind first next

theorem tracksIf {asks asks' : Reader Bool} {s s' : Reader β} {r r' : Reader β} (first : m.Tracks m.lost size id asks asks')
    (yes : m.Tracks off size move' r r') (no : m.Tracks off size move' s s') :
    m.Tracks off size move' (asks >>= fun there => if there then r else s) (asks' >>= fun there => if there then r' else s') := by
  refine tracksThen first fun there => ?_
  cases there with
  | true => exact yes
  | false => exact no

theorem tracksHere {f f' : Nat → Reader β} (next : ∀ p, m.Tracks off size move' (f p) (f' (m.move p))) :
    m.Tracks off size move' (Reader.here >>= f) (Reader.here >>= f') := by
  have first : m.Tracks m.lost size m.move Reader.here Reader.here := by
    refine ⟨fun c c' pairs _ => Or.inr ⟨c',?_,pairs,Nat.le_refl _⟩,fun c lost => lost⟩
    rw [← pairsMove pairs]
    rfl
  exact tracksBind first next

theorem tracksOf {off : α → Cursor → Prop} (moves : ∀ c, Reader.Moves c 0 r) (weaker : ∀ a d, m.Lost d → off a d)
    (agrees : ∀ c c', m.Pairs c c' → c'.rest.length < size → m.Follows off move c' (r c) (r' c')) :
    m.Tracks off size move r r' := by
  refine ⟨agrees,fun c lost => ?_⟩
  have outcome := moves c c (Cursor.aheadRefl c)
  cases result : r c with
  | found a d =>
    rw [result] at outcome
    exact weaker a d (Nat.lt_of_le_of_lt (Cursor.aheadLength outcome) lost)
  | absent d =>
    rw [result] at outcome
    exact Nat.lt_of_le_of_lt (Cursor.aheadLength outcome) lost
  | refused e => trivial
  | unfinished => trivial

theorem tracksStill {off : α → Cursor → Prop} {a a'} (same : a' = move a) (weaker : ∀ a d, m.Lost d → off a d) :
    m.Tracks off size move (Pure.pure a) (Pure.pure a') :=
  ⟨fun c c' pairs _ => Or.inr ⟨c',by rw [same]; rfl,pairs,Nat.le_refl _⟩,fun c lost => weaker a c lost⟩

theorem tracksPure {a a'} (same : a' = move a) : m.Tracks m.lost size move (Pure.pure a) (Pure.pure a') :=
  tracksStill same fun _ _ lost => lost

theorem tracksRefuse {off : α → Cursor → Prop} (offset : Nat) (fault : SyntaxFault) :
    m.Tracks off size move (Reader.refuse offset fault) r' :=
  ⟨fun _ _ _ _ => trivial,fun _ _ => trivial⟩

theorem tracksExpecting {off : α → Cursor → Prop} (what : Expectation) :
    m.Tracks off size move (Reader.expecting what) r' :=
  ⟨fun _ _ _ _ => trivial,fun _ _ => trivial⟩

theorem tracksUnfinished {off : α → Cursor → Prop} : m.Tracks off size move Reader.unfinished r' :=
  ⟨fun _ _ _ _ => trivial,fun _ _ => trivial⟩

theorem tracksAbsent {off : α → Cursor → Prop} : m.Tracks off size move Reader.absent Reader.absent :=
  ⟨fun _ c' _ _ => Or.inr ⟨c',rfl⟩,fun _ lost => lost⟩

theorem tracksRequire {off : α → Cursor → Prop} (what : Expectation) (tracks : m.Tracks off size move r r') :
    m.Tracks off size move (Reader.require what r) (Reader.require what r') := by
  refine ⟨fun c c' pairs bound => ?_,fun c lost => ?_⟩
  · have agrees := tracks.agrees c c' pairs bound
    simp only [Reader.require]
    cases result : r c with
    | found a d =>
      rw [result] at agrees
      refine agrees.imp_right ?_
      rintro ⟨d',found,rest⟩
      refine ⟨d',?_,rest⟩
      rw [found]
    | _ => trivial
  · have drifts := tracks.drifts c lost
    simp only [Reader.require]
    cases result : r c with
    | found a d =>
      rw [result] at drifts
      exact drifts
    | _ => trivial

theorem tracksFuelled {loop loop' : Nat → Reader α}
    (rounds : ∀ k n : Nat, m.Tracks m.lost (min size n) move (loop k) (loop' n)) :
    m.Tracks m.lost size move (Reader.fuelled loop) (Reader.fuelled loop') := by
  refine ⟨fun c c' pairs bound => ?_,fun c lost => (rounds (c.rest.length + 1) 0).drifts c lost⟩
  exact (rounds _ (c'.rest.length + 1)).agrees c c' pairs (by omega)

theorem tracksNoRounds (moves : ∀ c : Cursor, Reader.Moves c 0 r) : m.Tracks m.lost (min size 0) move r r' :=
  tracksOf moves (fun _ _ lost => lost) fun _ _ _ bound => absurd bound (by omega)

theorem tracksSpaces : m.Tracks m.lost size id Reader.spaces Reader.spaces := by
  refine tracksOf (fun c => Reader.movesSpaces) (fun _ _ lost => lost) fun c c' pairs _ => Or.inr ?_
  exact ⟨_,rfl,spacesPairs pairs,Cursor.aheadLength (Cursor.aheadSpaces c')⟩

theorem tracksWord {w} (token : isToken w) (line : '\n' ∉ w.toList) :
    m.Tracks m.lost size id (Reader.word w) (Reader.word w) := by
  refine tracksOf (fun c => Reader.movesWord w) (fun _ _ lost => lost) fun c c' pairs _ => ?_
  simp only [Reader.word]
  cases found : c.consume? w with
  | none =>
    rw [wordMissing token line pairs found]
    exact Or.inr ⟨c',rfl⟩
  | some d =>
    refine (wordFound token pairs found).imp_right ?_
    rintro ⟨s,d',found',inside⟩
    rw [found']
    exact ⟨d',rfl,Or.inl ⟨s,inside⟩,Cursor.aheadLength ⟨_,Cursor.overWord found'⟩⟩

theorem tracksTry {w} (token : isToken w) (line : '\n' ∉ w.toList) :
    m.Tracks m.lost size id (Reader.tryWord w) (Reader.tryWord w) := by
  refine tracksOf (fun c => Reader.movesTry w) (fun _ _ lost => lost) fun c c' pairs _ => ?_
  simp only [Reader.tryWord]
  cases found : c.consume? w with
  | none =>
    rw [wordMissing token line pairs found]
    exact Or.inr ⟨c',rfl,pairs,Nat.le_refl _⟩
  | some d =>
    refine (wordFound token pairs found).imp_right ?_
    rintro ⟨s,d',found',inside⟩
    rw [found']
    exact ⟨d',rfl,Or.inl ⟨s,inside⟩,Cursor.aheadLength ⟨_,Cursor.overWord found'⟩⟩

theorem tracksRequiredWord {w} (token : isToken w) (what : Expectation) :
    m.Tracks m.lost size id (Reader.require what (Reader.word w)) (Reader.require what (Reader.word w)) := by
  refine tracksOf (fun _ => Reader.movesRequire what (Reader.movesWord w)) (fun _ _ lost => lost) fun c c' pairs _ => ?_
  simp only [Reader.require,Reader.word]
  cases found : c.consume? w with
  | none => trivial
  | some d =>
    refine (wordFound token pairs found).imp_right ?_
    rintro ⟨s,d',found',inside⟩
    rw [found']
    exact ⟨d',rfl,Or.inl ⟨s,inside⟩,Cursor.aheadLength ⟨_,Cursor.overWord found'⟩⟩

theorem tracksTryAny {ws} (tokens : ∀ w ∈ ws, isToken w ∧ '\n' ∉ w.toList) :
    m.Tracks m.lost size id (Reader.tryWords ws) (Reader.tryWords ws) := by
  refine tracksOf (fun _ => Reader.movesTryAny ws) (fun _ _ lost => lost) fun c c' pairs _ => ?_
  induction ws with
  | nil => exact Or.inr ⟨c',rfl,pairs,Nat.le_refl _⟩
  | cons w ws ih =>
    obtain ⟨⟨token,line⟩,rest⟩ := List.forall_mem_cons.mp tokens
    simp only [Reader.tryWords,Cursor.consumeAny?] at ih ⊢
    cases found : c.consume? w with
    | none =>
      rw [wordMissing token line pairs found]
      exact ih rest
    | some d =>
      refine (wordFound token pairs found).imp_right ?_
      rintro ⟨s,d',found',inside⟩
      rw [found']
      exact ⟨d',rfl,Or.inl ⟨s,inside⟩,Cursor.aheadLength ⟨_,Cursor.overWord found'⟩⟩

theorem tracksOrElse {off : α → Cursor → Prop} {s s'} (near : ∀ c x, r c = .absent x → x = c)
    (first : m.Tracks off size move r r') (second : m.Tracks off size move s s') :
    m.Tracks off size move (Reader.orElse r s) (Reader.orElse r' s') := by
  refine ⟨fun c c' pairs bound => ?_,fun c lost => ?_⟩
  · have agrees := first.agrees c c' pairs bound
    simp only [Reader.orElse]
    cases result : r c with
    | found a d =>
      rw [result] at agrees
      refine agrees.imp_right ?_
      rintro ⟨d',found,rest⟩
      refine ⟨d',?_,rest⟩
      rw [found]
    | absent d =>
      rw [result] at agrees
      rcases agrees with lost | ⟨d',missing⟩
      · rw [near c d result] at lost
        exact absurd lost (notLost pairs)
      · rw [missing]
        exact second.agrees c c' pairs bound
    | refused e => trivial
    | unfinished => trivial
  · have drifts := first.drifts c lost
    simp only [Reader.orElse]
    cases result : r c with
    | absent d => exact second.drifts c lost
    | _ =>
      rw [result] at drifts
      exact drifts

theorem wordNear (w : String) (c x : Cursor) (missing : Reader.word w c = .absent x) : x = c := by
  simp only [Reader.word] at missing
  split at missing
  · contradiction
  · cases missing
    rfl

theorem endPaired (pairs : m.Pairs c c') (ended : c.atStatementEnd) : c'.atStatementEnd := by
  unfold Cursor.atStatementEnd at ended ⊢
  rcases spacesPaired pairs with ⟨g,s,inside⟩ | past
  · rw [inside.rest] at ended
    rw [inside.rest']
    exact ended
  · rw [past.rest']
    rcases m.newHead with none | ⟨t,head⟩
    · rw [none]
    · rw [head]
      rfl

theorem tracksStatementEnd : m.Tracks m.lost size id Reader.statementEnd Reader.statementEnd := by
  refine tracksOf (fun _ => Reader.movesStatementEnd) (fun _ _ lost => lost) fun c c' pairs _ => ?_
  simp only [Reader.statementEnd]
  split
  · rename_i ended
    rw [if_pos (endPaired pairs ended)]
    exact Or.inr ⟨c',rfl,pairs,Nat.le_refl _⟩
  · trivial

theorem tracksLexeme {F : Nat → Text → α × Cursor} {a} (ahead : ∀ pos t, Cursor.Ahead ⟨pos,t⟩ (F pos t).2)
    (none : ∀ pos, F pos [] = (a,⟨pos,[]⟩)) (line : ∀ pos t, F pos (.newline :: t) = (a,⟨pos,.newline :: t⟩))
    (glyph : ∀ pos g t, F pos (g :: t) = (a,⟨pos,g :: t⟩) ∨ (F pos (g :: t)).2.rest.length ≤ t.length)
    (alike : ∀ s pos pos', m.Inside s ⟨pos,s ++ m.old⟩ ⟨pos',s ++ m.new⟩ →
      m.Alike (F pos (s ++ m.old)) (F pos' (s ++ m.new))) :
    m.Tracks m.lost size id (fun c => .found (F c.pos c.rest).1 (F c.pos c.rest).2)
      (fun c => .found (F c.pos c.rest).1 (F c.pos c.rest).2) := by
  refine tracksOf (fun _ c _ => ahead c.pos c.rest) (fun _ _ lost => lost) fun c c' pairs _ => ?_
  have shorter := Cursor.aheadLength (ahead c'.pos c'.rest)
  rcases pairs with ⟨s,inside⟩ | past
  · have both := alike s c.pos c'.pos (insideEta inside)
    rw [← inside.rest,← inside.rest'] at both
    refine both.imp And.left fun ⟨same,s',after⟩ => ⟨_,?_,Or.inl ⟨s',after⟩,shorter⟩
    rw [same]
    rfl
  · have right : F c'.pos c'.rest = (a,c') := by
      obtain ⟨pos',rest'⟩ := c'
      cases past.rest'
      rcases m.newHead with new | ⟨t,head⟩
      · simp only [new,none]
      · simp only [head,line]
    have left : m.Lost (F c.pos c.rest).2 ∨ F c.pos c.rest = (a,c) := by
      obtain ⟨pos,rest⟩ := c
      cases rest with
      | nil => exact Or.inr (none pos)
      | cons g t =>
        refine (glyph pos g t).symm.imp_left fun shorter => ?_
        rw [Lost,← past.rest]
        exact Nat.lt_succ_of_le shorter
    refine left.imp_right fun stays => ⟨c',?_,?_,Nat.le_refl _⟩
    · rw [stays,right]
      rfl
    · rw [stays]
      exact Or.inr past

theorem tracksDigits : m.Tracks m.lost size id (fun c => .found c.readDigits.1 c.readDigits.2)
    (fun c => .found c.readDigits.1 c.readDigits.2) := by
  refine tracksLexeme (F := fun pos t => (String.ofList (Cursor.readWhile Cursor.isDigit pos t).1,
      (Cursor.readWhile Cursor.isDigit pos t).2)) (a := "") (fun pos t => Cursor.aheadWhile _ pos t) (fun _ => rfl)
    (fun _ _ => rfl) (fun pos g t => ?_) fun s pos pos' inside => alikeMap (digitsAlike inside) String.ofList
  unfold Cursor.readWhile
  split
  · exact Or.inr (Cursor.aheadLength (Cursor.aheadWhile _ _ t))
  · exact Or.inl rfl

theorem tracksName : m.Tracks m.lost size id (fun c => .found c.readName.1 c.readName.2)
    (fun c => .found c.readName.1 c.readName.2) := by
  refine tracksLexeme (F := Cursor.readBinding) (a := []) (fun pos t => ⟨_,Cursor.overBinding pos t⟩) (fun _ => rfl)
    (fun _ _ => rfl) (fun pos g t => ?_) fun s pos pos' inside => nameAlike inside
  unfold Cursor.readBinding
  split
  · exact Or.inl rfl
  · exact Or.inr (Cursor.aheadLength ⟨_,Cursor.overBinding _ t⟩)

theorem identifierReading (c : Cursor) :
    c.readIdentifier = ("",c) ∧ Phrases.identifier c = .absent c ∨
      c.readIdentifier.1 ≠ "" ∧ Phrases.identifier c = .found c.readIdentifier.1 c.readIdentifier.2 := by
  have nothing : c.readIdentifier.1 = "" → c.readIdentifier = ("",c) := by
    rw [identifierParts]
    split
    · exact fun _ => rfl
    · rename_i some
      intro none
      have letters := List.append_eq_nil_iff.mp (String.ofList_eq_empty_iff.mp none)
      exact absurd letters.1 some
  unfold Phrases.identifier
  split
  · rename_i next reading
    exact Or.inl ⟨nothing (by rw [reading]),rfl⟩
  · rename_i name next some reading
    rw [reading]
    exact Or.inr ⟨some,rfl⟩

theorem identifierFollows (pairs : m.Pairs c c') :
    (∃ name d, Phrases.identifier c = .found name d ∧ m.Lost d) ∨
      Phrases.identifier c = .absent c ∧ Phrases.identifier c' = .absent c' ∨
      ∃ name d d' s, Phrases.identifier c = .found name d ∧ Phrases.identifier c' = .found name d' ∧
        m.Inside s d d' ∧ d'.rest.length ≤ c'.rest.length := by
  rcases pairs with ⟨s,inside⟩ | past
  · rcases identifierAlike inside with lost | ⟨same,s',after⟩
    · rcases identifierReading c with ⟨none,_⟩ | ⟨_,found⟩
      · rw [none] at lost
        exact absurd lost (notLost (Or.inl ⟨s,inside⟩))
      · exact Or.inl ⟨_,_,found,lost⟩
    · rcases identifierReading c with ⟨none,missing⟩ | ⟨some,found⟩
      · rcases identifierReading c' with ⟨_,missing'⟩ | ⟨some',_⟩
        · exact Or.inr (Or.inl ⟨missing,missing'⟩)
        · rw [same,none] at some'
          contradiction
      · rcases identifierReading c' with ⟨none',_⟩ | ⟨some',found'⟩
        · rw [← same,none'] at some
          contradiction
        · have shorter := Cursor.aheadLength (Cursor.identifierShorter (Prod.eta c'.readIdentifier).symm some').1
          refine Or.inr (Or.inr ⟨_,_,_,s',found,?_,after,shorter⟩)
          rw [found',same]
  · have right : Phrases.identifier c' = .absent c' := by
      rcases identifierReading c' with ⟨_,missing⟩ | ⟨some,_⟩
      · exact missing
      · have none : c'.readIdentifier.1 = "" := by
          rw [identifierParts,past.rest']
          rcases m.newHead with new | ⟨t,head⟩
          · rw [new]
            rfl
          · have letter : Cursor.isNameLetter Glyph.newline.toChar = false := by decide
            rw [head]
            simp [Cursor.readLetters,letter]
        exact absurd none some
    rcases identifierReading c with ⟨_,missing⟩ | ⟨some,found⟩
    · exact Or.inr (Or.inl ⟨missing,right⟩)
    · have shorter := (Cursor.identifierShorter (Prod.eta c.readIdentifier).symm some).2
      rw [past.rest] at shorter
      exact Or.inl ⟨_,_,found,shorter⟩

theorem tracksIdentifier : m.Tracks m.lost size id Phrases.identifier Phrases.identifier := by
  refine tracksOf (fun _ => Phrases.eatsIdentifier.1) (fun _ _ lost => lost) fun c c' pairs _ => ?_
  rcases identifierFollows pairs with ⟨name,d,found,lost⟩ | ⟨missing,missing'⟩ | ⟨name,d,d',s,found,found',inside,shorter⟩
  · rw [found]
    exact Or.inl lost
  · rw [missing]
    exact Or.inr ⟨c',missing'⟩
  · rw [found]
    exact Or.inr ⟨d',found',Or.inl ⟨s,inside⟩,shorter⟩

end Seam

end Terakoya
