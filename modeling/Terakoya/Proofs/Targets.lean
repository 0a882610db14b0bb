import Terakoya.Proofs.Splice

/-! A target that is cut out of its statement begins no function. The head of a function in its text would
end inside the name, and then the statement would have been read as a function as well, up to a block that
is not there. -/
namespace Terakoya

open Text (ofString)

namespace Cursor

variable {tail : Text} {c d : Cursor}

theorem skipHead (lines : Bool) (pos : Nat) (g : Glyph) (t : Text) :
    skipFrom lines false pos (g :: t) = ⟨pos,g :: t⟩ ∨ g.toChar ∈ ['\n','#',' ','\t','\r'] := by
  by_contra other
  simp only [List.mem_cons,List.not_mem_nil,or_false,not_or] at other
  have newline : g.is '\n' = false := Bool.eq_false_iff.mpr fun same => other.2.1 (Glyph.charOfIs same)
  have hash : g.is '#' = false := Bool.eq_false_iff.mpr fun same => other.2.2.1 (Glyph.charOfIs same)
  exact other.1 (by simp [skipFrom,newline,hash,isBlank,other])

theorem headConsumed {w x} (first : w.toList.head? = some x) (found : c.consume? w = some d) :
    ∃ t, c.rest = .char x :: t := by
  obtain ⟨letters,same⟩ : ∃ letters, w.toList = x :: letters := List.head?_eq_some_iff.mp first
  have across := (overWord found).rest
  rw [ofString,same,List.map_cons,List.cons_append] at across
  exact ⟨_,across⟩

theorem consumeHead {w : String} {x : Char} {g : Glyph} {t : Text} (first : w.toList.head? = some x) (rest : c.rest = g :: t)
    (other : g.toChar ≠ x) : c.consume? w = none := by
  cases found : c.consume? w with
  | none => rfl
  | some d =>
    obtain ⟨u,same⟩ := headConsumed first found
    obtain ⟨rfl,_⟩ := List.cons.inj (rest.symm.trans same)
    contradiction

def Worded (tail : Text) (c : Cursor) : Prop := ∃ w, c.rest = w ++ tail ∧ ∀ g ∈ w, isWordy g.toChar

theorem wordedTail (rest : c.rest = tail) : c.Worded tail := ⟨[],rest,fun _ none => absurd none List.not_mem_nil⟩

theorem wordedHead (worded : c.Worded tail) : c.rest = tail ∨ ∃ g t, c.rest = g :: t ∧ isWordy g.toChar := by
  obtain ⟨w,rest,wordy⟩ := worded
  cases w with
  | nil => exact Or.inl rest
  | cons g w => exact Or.inr ⟨g,w ++ tail,rest,wordy g List.mem_cons_self⟩

theorem wordedWord {w} (apart : ∀ g t, tail = g :: t → g.toChar ∉ w.toList) (worded : c.Worded tail)
    (found : c.consume? w = some d) : d.Worded tail := by
  obtain ⟨v,rest,wordy⟩ := worded
  have split : ofString w ++ d.rest = v ++ tail := (overWord found).rest.symm.trans rest
  rcases List.append_eq_append_iff.mp split with ⟨x,front,after⟩ | ⟨x,front,after⟩
  · exact ⟨x,after,fun g inside => wordy g (front ▸ List.mem_append_right _ inside)⟩
  · cases x with
    | nil => exact wordedTail after.symm
    | cons g x =>
      have part : g ∈ ofString w := front ▸ List.mem_append_right v List.mem_cons_self
      obtain ⟨letter,inside,same⟩ := List.mem_map.mp part
      subst same
      exact absurd inside (apart _ _ after)

/-! The head of a function that begins with a name ends before the indices of the name. -/

def Bracketed (t : Text) : Prop := t = [] ∨ ∃ u, t = .char '[' :: u

theorem bracketedApart {w : String} (bracketed : Bracketed tail) (other : '[' ∉ w.toList) :
    ∀ g t, tail = g :: t → g.toChar ∉ w.toList := by
  rintro g t rfl
  rcases bracketed with none | ⟨u,same⟩
  · contradiction
  · obtain ⟨rfl,_⟩ := List.cons.inj same
    exact other

theorem bracketedHead (bracketed : Bracketed tail) (worded : c.Worded tail) :
    c.rest = [] ∨ ∃ g t, c.rest = g :: t ∧ (isWordy g.toChar ∨ g.toChar = '[') := by
  rcases wordedHead worded with rest | ⟨g,t,rest,wordy⟩
  · rcases bracketed with none | ⟨u,same⟩
    · exact Or.inl (rest.trans none)
    · exact Or.inr ⟨_,u,rest.trans same,Or.inr rfl⟩
  · exact Or.inr ⟨g,t,rest,Or.inl wordy⟩

theorem bracketedSpaces (bracketed : Bracketed tail) (worded : c.Worded tail) : c.skipSpaces = c := by
  obtain ⟨pos,_⟩ := c
  rcases bracketedHead bracketed worded with rfl | ⟨g,t,rfl,head⟩
  · rfl
  · refine Seam.skipSolid ?_ pos
    rcases head with wordy | bracket
    · exact Seam.solidWordy wordy
    · rw [Seam.isSolid,bracket]
      decide

theorem bracketedMiss {w : String} {x : Char} (bracketed : Bracketed tail) (worded : c.Worded tail)
    (first : w.toList.head? = some x) (foreign : isWordy x = false) (other : x ≠ '[') : c.consume? w = none := by
  rcases bracketedHead bracketed worded with rest | ⟨g,t,rest,head⟩
  · obtain ⟨letters,same⟩ : ∃ letters, w.toList = x :: letters := List.head?_eq_some_iff.mp first
    rw [consume?,rest,same]
    rfl
  · refine consumeHead first rest fun same => ?_
    rcases head with wordy | bracket
    · rw [same,foreign] at wordy
      contradiction
    · exact other (same.symm.trans bracket)

theorem bracketedName (bracketed : Bracketed tail) (worded : c.Worded tail) : c.readName.2.Worded tail := by
  obtain ⟨pos,t⟩ := c
  obtain ⟨w,rest,wordy⟩ := worded
  dsimp only at rest
  subst rest
  simp only [readName]
  induction w generalizing pos with
  | nil =>
    have stays : (readBinding pos tail).2 = ⟨pos,tail⟩ := by
      rcases bracketed with rfl | ⟨u,rfl⟩
      · rfl
      · rfl
    rw [List.nil_append,stays]
    exact wordedTail rfl
  | cons g w ih =>
    rw [List.cons_append]
    unfold readBinding
    split
    · exact ⟨g :: w,rfl,wordy⟩
    · exact ih _ fun h inside => wordy h (List.mem_cons_of_mem _ inside)

end Cursor

theorem Reader.wordConsumed {w c d a} (found : word w c = .found a d) : c.consume? w = some d := by
  simp only [word] at found
  split at found
  · cases found
    assumption
  · contradiction

namespace Phrases

open Reader

variable {c d : Cursor} {tail : Text}

theorem checkedStill (ps : List (Nat × Text)) : ∀ c a d, checkParameters ps c = .found a d → d = c := by
  intro c a d found
  rcases checkedProper ps c with ⟨_,good⟩ | ⟨_,_,bad⟩
  · rw [good] at found
    cases found
    rfl
  · rw [bad] at found
    contradiction

theorem bracketedParameters {n ps} (bracketed : Cursor.Bracketed tail) (worded : c.Worded tail)
    (found : parameters n c = .found ps d) : d.Worded tail := by
  cases n with
  | zero => contradiction
  | succ n =>
    rw [parametersRound] at found
    obtain ⟨_,_,here',found⟩ := foundBind found
    cases here'
    obtain ⟨name,e,named,found⟩ := foundBind found
    have after : e.Worded tail := by
      obtain ⟨_,_,read,last⟩ := foundBind named
      cases read
      split at last
      · contradiction
      · cases last
        exact Cursor.bracketedName bracketed worded
    obtain ⟨_,_,spaced,found⟩ := foundBind found
    cases spaced
    rw [Cursor.bracketedSpaces bracketed after] at found
    have comma : e.consumeAny? [",","、"] = none := by
      simp only [Cursor.consumeAny?,Cursor.bracketedMiss bracketed after (w := ",") rfl (by decide) (by decide),
        Cursor.bracketedMiss bracketed after (w := "、") rfl (by decide) (by decide)]
    simp only [Bind.bind,Reader.bind,tryWords,comma] at found
    cases found
    exact after

theorem bracketedHeader {ps} (bracketed : Cursor.Bracketed tail) (worded : c.Worded tail)
    (found : header c = .found ps d) : d.Worded tail := by
  rw [headerSplit] at found
  obtain ⟨_,e,input,found⟩ := foundBind found
  have after := Cursor.wordedWord (Cursor.bracketedApart bracketed (by decide)) worded (wordConsumed input)
  obtain ⟨_,_,spaced,found⟩ := foundBind found
  cases spaced
  rw [Cursor.bracketedSpaces bracketed after] at found
  obtain ⟨qs,f,list,found⟩ := foundBind found
  have behind : f.Worded tail := by
    split at list
    · cases list
      exact after
    · exact bracketedParameters bracketed after list
  obtain ⟨_,g,for',last⟩ := foundBind found
  cases last
  exact Cursor.wordedWord (Cursor.bracketedApart bracketed (by decide)) behind (wordConsumed for')

/-! Behind a target -/

def Ruled (c : Cursor) : Prop := ∃ g t, c.skipSpaces.rest = g :: t ∧ g.toChar ∈ ['を','の','=']

def Walled (c : Cursor) : Prop := ∃ g t, c.skipSpaces.rest = g :: t ∧ g.toChar ∉ ['、','\x7b']

theorem walledWorded {is old} (bracketed : Cursor.Bracketed is) (ruled : ∀ pos, Ruled ⟨pos,old⟩)
    (worded : c.Worded (is ++ old)) : Walled c := by
  have stay {g : Glyph} {t : Text} (rest : c.rest = g :: t) (solid : Seam.isSolid g) : c.skipSpaces.rest = g :: t := by
    obtain ⟨pos,_⟩ := c
    dsimp only at rest
    rw [rest,Seam.skipSolid solid]
  rcases Cursor.wordedHead worded with rest | ⟨g,t,rest,wordy⟩
  · rcases bracketed with rfl | ⟨u,rfl⟩
    · obtain ⟨g,t,next,inside⟩ := ruled c.pos
      refine ⟨g,t,?_,outsideOf inside (by decide)⟩
      rw [← next,Cursor.skipSpaces,rest]
      rfl
    · exact ⟨_,_,stay rest (by decide),by decide⟩
  · exact ⟨g,t,stay rest (Seam.solidWordy wordy),Cursor.wordyOutside wordy (by decide)⟩

theorem walledPause {f : Block → Reader Expr} {nested : Phrases} {e : Expr} (walled : Walled c) :
    (pause >>= fun _ => nested.block >>= f) c ≠ .found e d := by
  obtain ⟨g,t,rest,other⟩ := walled
  simp only [List.mem_cons,List.not_mem_nil,or_false,not_or] at other
  have noComma : c.skipSpaces.consume? "、" = none := Cursor.consumeHead rfl rest other.1
  have noBrace : c.skipSpaces.consume? "\x7b" = none := Cursor.consumeHead rfl rest other.2
  intro found
  obtain ⟨_,e,paused,found⟩ := foundBind found
  have same : e = c.skipSpaces := by
    simp only [pause,Bind.bind,Reader.bind,spaces,tryWord,noComma] at paused
    cases paused
    rfl
  subst same
  obtain ⟨b,f,block,_⟩ := foundBind found
  obtain ⟨_,_,begun,block⟩ := foundBind block
  cases begun
  obtain ⟨_,_,opened,_⟩ := foundBind block
  simp only [require,word,noBrace] at opened
  contradiction

theorem walledBehind {nested : Phrases} {start : Nat} {ps is} (old : Text) {e}
    (bracketed : Cursor.Bracketed is) (ruled : ∀ pos, Ruled ⟨pos,old⟩) (worded : c.Worded (is ++ old)) :
    nested.behind start ps c ≠ .found e d := by
  intro found
  obtain ⟨_,x,checked,later⟩ := foundBind found
  rw [checkedStill ps c _ x checked] at later
  obtain ⟨_,y,tried,last⟩ := foundBind later
  simp only [tryWord] at tried
  split at tried
  · rename_i next te
    cases tried
    refine walledPause (walledWorded bracketed ruled (Cursor.wordedWord ?_ worded te)) last
    -- what rules out a block does not go on with the word
    rintro g t same
    rcases bracketed with rfl | ⟨u,rfl⟩
    · obtain ⟨h,v,next,inside⟩ := ruled 0
      rw [List.nil_append] at same
      subst same
      rcases Cursor.skipHead false 0 g t with stays | blank
      · rw [Cursor.skipSpaces,stays] at next
        obtain ⟨rfl,_⟩ := List.cons.inj next
        exact outsideOf inside (by decide)
      · exact outsideOf blank (by decide)
    · obtain ⟨rfl,_⟩ := List.cons.inj same
      decide
  · cases tried
    exact walledPause (walledWorded bracketed ruled worded) last

/-! Targets -/

section Target

variable {nested : Phrases} {e : Cursor}

theorem indicesBracketed {n is u} (found : nested.indices n c = .found is d) (across : c.Over u d) :
    Cursor.Bracketed u := by
  cases n with
  | zero => contradiction
  | succ n =>
    cases opened : c.consume? "[" with
    | none =>
      simp only [indices,Bind.bind,Reader.bind,tryWord,opened] at found
      cases found
      exact Or.inl (List.self_eq_append_left.mp across.rest)
    | some next =>
      cases u with
      | nil => exact Or.inl rfl
      | cons g u =>
        have head : g :: u ++ d.rest = .char '[' :: next.rest := across.rest.symm.trans (Cursor.overWord opened).rest
        obtain ⟨rfl,_⟩ := List.cons.inj head
        exact Or.inr ⟨u,rfl⟩

theorem letterHead {name} (found : identifier c = .found name d) : Cursor.isNameLetter c.peek := by
  rcases Seam.identifierReading c with ⟨_,missing⟩ | ⟨some,_⟩
  · rw [found] at missing
    contradiction
  · rw [Seam.identifierParts] at some
    by_cases none : (Cursor.readLetters true c.pos c.rest).1 = []
    · rw [if_pos none] at some
      contradiction
    · rw [Cursor.peek]
      split
      · rename_i rest
        rw [rest] at none
        contradiction
      · rename_i g t rest
        rw [rest,Cursor.readLetters] at none
        by_contra other
        simp [other] at none

theorem targetParts {place} (sized : nested.Sized 0 0) (found : nested.target c = .found place e) :
    Cursor.isNameLetter c.peek ∧ ∃ w is, c.Over (w ++ is) e ∧ Cursor.Bracketed is ∧ ∀ g ∈ w, Cursor.isWordy g.toChar := by
  obtain ⟨_,_,begun,found⟩ := foundBind found
  cases begun
  obtain ⟨name,x,named,found⟩ := foundBind found
  refine ⟨letterHead named,?_⟩
  have wordy : c.Only Cursor.isWordy x := by
    rcases Seam.identifierReading c with ⟨_,missing⟩ | ⟨_,read⟩
    · rw [named] at missing
      contradiction
    · cases named.symm.trans read
      exact Cursor.wordyIdentifier c
  obtain ⟨w,across,each⟩ := wordy
  obtain ⟨_,_,next,found⟩ := foundBind found
  cases next
  split at found
  · contradiction
  · obtain ⟨is,y,indexed,last⟩ := foundBind found
    cases last
    obtain ⟨v,across'⟩ := movesFound (movesIndices sized (x.rest.length + 1)) (Cursor.aheadRefl x) indexed
    exact ⟨w,v,Cursor.overTrans across across',indicesBracketed indexed across',each⟩

theorem primaryNamed (letter : Cursor.isNameLetter c.peek) : nested.onePrimary c = orElse nested.function nested.named c := by
  have signs : c.peek ∉ ['"','|','-','[','?'] := Cursor.wordyOutside (Cursor.wordyLetter letter) (by decide)
  simp only [List.mem_cons,List.not_mem_nil,or_false,not_or] at signs
  obtain ⟨quote,bar,minus,bracket,mark⟩ := signs
  have digit : ('0' ≤ c.peek && c.peek ≤ '9') = false := by
    refine Bool.eq_false_iff.mpr fun digit => ?_
    have same : Cursor.isNameLetter c.peek = false := Cursor.digitNoLetter digit
    rw [same] at letter
    contradiction
  simp only [onePrimary,Bind.bind,Reader.bind,peek,digit,quote,bar,minus,bracket,mark,if_false,Bool.false_eq_true]

theorem headerFollowed {k x ps} (missing : (upTo (k + 1)).loop c = .absent x)
    (letter : Cursor.isNameLetter c.peek) (found : header c = .found ps d) :
    ∃ e f, (upTo k).behind c.pos ps d = .found e f := by
  have function : (upTo k).function c = (upTo k).behind c.pos ps d := by
    rw [functionSplit]
    simp only [Bind.bind,Reader.bind,here,found]
  have first : (upTo (k + 1)).primary c = orElse (upTo k).function (upTo k).named c := primaryNamed letter
  have certain : ∀ y, (upTo k).behind c.pos ps d ≠ .absent y := certainBehind (shelteredUpTo k) c.pos ps d
  cases result : (upTo k).behind c.pos ps d with
  | found e f => exact ⟨e,f,rfl⟩
  | absent y => exact absurd result (certain y)
  | refused error =>
    simp only [loop,expression,guarded,Bind.bind,Reader.bind,here,first,orElse,function,result] at missing
    contradiction
  | unfinished =>
    simp only [loop,expression,guarded,Bind.bind,Reader.bind,here,first,orElse,function,result] at missing
    contradiction

theorem targetNoFunction {m : Seam} {n u c' x place} (inside : m.Inside u c c')
    (cut : m.new = []) (across : c.Over u e) (missing : (upTo n).loop c = .absent x)
    (found : (upTo n).target c = .found place e) (ruled : Ruled e) (phrases : Phrases) :
    ∃ x', phrases.function c' = .absent x' := by
  have old : m.old = e.rest := List.append_cancel_left (inside.rest.symm.trans across.rest)
  obtain ⟨letter,w,is,parts,bracketed,wordy⟩ := targetParts (trackedUpTo m n n).forward found
  have whole : u = w ++ is := List.append_cancel_right (across.rest.symm.trans parts.rest)
  have none : ∃ x', header c' = .absent x' := by
    have mild := mildHeader c'
    cases result : header c' with
    | absent x' => exact ⟨x',rfl⟩
    | found ps d' =>
      have worded : c'.Worded is := ⟨w,by rw [inside.rest',cut,List.append_nil,whole],wordy⟩
      obtain ⟨v,rest',wordy'⟩ := bracketedHeader bracketed worded result
      obtain ⟨qs,d,v',header',after⟩ := recoversHeader u c c' ps d' inside result
      have same : v' = v ++ is := by rw [← rest',after.rest',cut,List.append_nil]
      cases n with
      | zero => contradiction
      | succ k =>
        obtain ⟨f,y,behind⟩ := headerFollowed missing letter header'
        refine absurd behind (walledBehind e.rest bracketed (fun pos => ?_) ⟨v,?_,wordy'⟩)
        · obtain ⟨g,t,rest,member⟩ := ruled
          exact ⟨g,t,(Seam.skipRest false false pos e.pos e.rest).trans rest,member⟩
        · rw [after.rest,same,old,List.append_assoc]
    | refused error =>
      rw [result] at mild
      exact mild.elim
    | unfinished =>
      rw [result] at mild
      exact mild.elim
  obtain ⟨x',none⟩ := none
  refine ⟨x',?_⟩
  rw [functionSplit]
  simp only [Bind.bind,Reader.bind,here,none]

end Target

end Phrases

end Terakoya
