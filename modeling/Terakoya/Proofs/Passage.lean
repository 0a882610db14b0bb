import Mathlib.Tactic.SplitIfs
import Terakoya.Grammar.Program

/-! How reading gets on. A phrase that is found, and the place where one turns out to be missing, lie
ahead of the cursor in the same text; a fault lies there too. Expressions and statements take up at
least one glyph, so that the nesting allowed for a text and the rounds allowed for a loop are never
used up. -/
namespace Terakoya

open Text (ofString)

variable {α β : Type}

theorem outsideOf {x} {cs ds : List Char} (inside : x ∈ cs) (apart : cs.all (!ds.contains ·)) : x ∉ ds := by
  simpa using List.all_eq_true.mp apart x inside

namespace Glyph

theorem widthPos (g : Glyph) : 0 < g.width := by
  cases g with
  | char c => exact c.utf8Size_pos
  | stray b => exact Nat.one_pos

theorem eqOfIs {g : Glyph} {c} (same : g.is c) : g = .char c := by
  cases g with
  | char d => exact congrArg _ (by simpa [is] using same : c = d).symm
  | stray b => contradiction

theorem isNewline {g : Glyph} (newline : g.is '\n') : g = .newline := eqOfIs newline

theorem charOfIs {g : Glyph} {c} (same : g.is c) : g.toChar = c := by
  rw [eqOfIs same]
  rfl

theorem eqOfChar {g : Glyph} {c} (same : g.toChar = c) (known : c ≠ '�') : g = .char c := by
  cases g with
  | char d => exact congrArg _ same
  | stray b => exact absurd same.symm known

end Glyph

namespace Text

theorem widthAppend (s t : Text) : width (s ++ t) = width s + width t := by
  induction s with
  | nil => simp [width]
  | cons g s ih => simp [width,ih,Nat.add_assoc]

theorem widthOfString (w : String) : width (ofString w) = w.utf8ByteSize := by
  rw [← String.ofList_toList (s := w)]
  generalize w.toList = cs
  induction cs with
  | nil => rfl
  | cons c cs ih =>
    simp only [ofString,String.toList_ofList] at ih ⊢
    simp [width,Glyph.width,ih,String.ofList_cons]

end Text

namespace Cursor

/-- The second cursor stands where a piece of text has been read from the first one on. -/
structure Over (c : Cursor) (u : Text) (d : Cursor) : Prop where
  rest : c.rest = u ++ d.rest
  pos : d.pos = c.pos + Text.width u

def Ahead (c d : Cursor) : Prop := ∃ u, c.Over u d

variable {c d e : Cursor} {u v : Text}

theorem overNone (c : Cursor) : c.Over [] c := ⟨rfl,rfl⟩

theorem overTrans (first : c.Over u d) (second : d.Over v e) : c.Over (u ++ v) e := by
  refine ⟨?_,?_⟩
  · rw [first.rest,second.rest,List.append_assoc]
  · rw [second.pos,first.pos,Text.widthAppend,Nat.add_assoc]

theorem overGlyph (pos : Nat) (g : Glyph) (t : Text) : Over ⟨pos,g :: t⟩ [g] ⟨pos + g.width,t⟩ :=
  ⟨rfl,rfl⟩

theorem aheadRefl (c : Cursor) : c.Ahead c := ⟨[],overNone c⟩

theorem aheadTrans (first : c.Ahead d) (second : d.Ahead e) : c.Ahead e := by
  obtain ⟨u,across⟩ := first
  obtain ⟨v,across'⟩ := second
  exact ⟨u ++ v,overTrans across across'⟩

theorem aheadGlyph {pos g t} (later : Ahead ⟨pos + g.width,t⟩ d) :
    Ahead ⟨pos,g :: t⟩ d := aheadTrans ⟨[g],overGlyph pos g t⟩ later

theorem aheadLength (ahead : c.Ahead d) : d.rest.length ≤ c.rest.length := by
  obtain ⟨u,across⟩ := ahead
  rw [across.rest,List.length_append]
  omega

theorem aheadPos (ahead : c.Ahead d) : c.pos ≤ d.pos := by
  obtain ⟨u,across⟩ := ahead
  rw [across.pos]
  omega

/-! Lexemes -/

theorem aheadSkip (lines comment : Bool) (pos : Nat) (t : Text) :
    Ahead ⟨pos,t⟩ (skipFrom lines comment pos t) := by
  induction t generalizing comment pos with
  | nil => exact aheadRefl _
  | cons g t ih =>
    simp only [skipFrom]
    split_ifs
    · exact aheadGlyph (ih false _)
    · exact aheadRefl _
    · exact aheadGlyph (ih true _)
    · exact aheadGlyph (ih false _)
    · exact aheadRefl _

theorem aheadSpaces (c : Cursor) : c.Ahead c.skipSpaces := aheadSkip false false c.pos c.rest

theorem aheadBlank (c : Cursor) : c.Ahead c.skipBlank := aheadSkip true false c.pos c.rest

theorem dropWordSome {w t rest} (found : dropWord w t = some rest) : t = w.map .char ++ rest := by
  induction w generalizing t with
  | nil => simpa [dropWord] using found
  | cons d w ih =>
    rcases t with _ | ⟨g,t⟩
    · contradiction
    · cases g with
      | stray b => contradiction
      | char e =>
        simp only [dropWord] at found
        split at found
        · rename_i same
          rw [List.map_cons,List.cons_append,← ih found,same]
        · contradiction

theorem overWord {w} (found : c.consume? w = some d) : c.Over (ofString w) d := by
  unfold consume? at found
  obtain ⟨rest,dropped,rfl⟩ := Option.map_eq_some_iff.mp found
  exact ⟨dropWordSome dropped,by rw [Text.widthOfString]⟩

theorem overAnyWord {ws w} (found : c.consumeAny? ws = some (w,d)) : w ∈ ws ∧ c.Over (ofString w) d := by
  induction ws with
  | nil => contradiction
  | cons v ws ih =>
    unfold consumeAny? at found
    split at found
    · rename_i next here
      cases found
      exact ⟨List.mem_cons_self,overWord here⟩
    · obtain ⟨inside,across⟩ := ih found
      exact ⟨List.mem_cons_of_mem v inside,across⟩

theorem aheadWhile (p : Glyph → Bool) (pos : Nat) (t : Text) : Ahead ⟨pos,t⟩ (readWhile p pos t).2 := by
  induction t generalizing pos with
  | nil => exact aheadRefl _
  | cons g t ih =>
    unfold readWhile
    split
    · exact aheadGlyph (ih _)
    · exact aheadRefl _

theorem aheadDigits (c : Cursor) : c.Ahead c.readDigits.2 := aheadWhile isDigit c.pos c.rest

theorem aheadLetters (first : Bool) (pos : Nat) (t : Text) :
    Ahead ⟨pos,t⟩ (readLetters first pos t).2 := by
  induction t generalizing first pos with
  | nil => exact aheadRefl _
  | cons g t ih =>
    unfold readLetters
    split
    · exact aheadGlyph (ih false _)
    · exact aheadRefl _

theorem lettersShorter (first : Bool) (pos : Nat) (t : Text) (some : (readLetters first pos t).1 ≠ []) :
    (readLetters first pos t).2.rest.length < t.length := by
  cases t with
  | nil => simp [readLetters] at some
  | cons g t =>
    unfold readLetters at some ⊢
    split at some
    · rename_i letter
      rw [if_pos letter]
      exact Nat.lt_succ_of_le (aheadLength (aheadLetters false (pos + g.width) t))
    · simp at some

theorem aheadIdentifier (c : Cursor) : c.Ahead c.readIdentifier.2 := by
  unfold readIdentifier
  split
  · exact aheadRefl c
  · rename_i letters next nonempty reading
    have first := aheadLetters true c.pos c.rest
    rw [reading] at first
    exact aheadTrans first (aheadWhile isDigit next.pos next.rest)

theorem identifierShorter {name} (found : c.readIdentifier = (name,d)) (some : name ≠ "") :
    c.Ahead d ∧ d.rest.length < c.rest.length := by
  have ahead := aheadIdentifier c
  rw [found] at ahead
  refine ⟨ahead,?_⟩
  unfold readIdentifier at found
  split at found
  · cases found
    contradiction
  · rename_i letters next nonempty reading
    cases found
    have shorter := lettersShorter true c.pos c.rest
    rw [reading] at shorter
    exact Nat.lt_of_le_of_lt (aheadLength (aheadWhile isDigit next.pos next.rest)) (shorter nonempty)

theorem overBinding (pos : Nat) (t : Text) :
    Over ⟨pos,t⟩ (readBinding pos t).1 (readBinding pos t).2 := by
  induction t generalizing pos with
  | nil => exact overNone _
  | cons g t ih =>
    unfold readBinding
    split
    · exact overNone _
    · exact overTrans (overGlyph pos g t) (ih _)

theorem overName (c : Cursor) : c.Over c.readName.1 c.readName.2 := overBinding c.pos c.rest

theorem aheadQuoted (pos : Nat) (t : Text) : Ahead ⟨pos,t⟩ (readQuoted pos t).next := by
  fun_induction readQuoted pos t with
  | case1 => exact aheadRefl _
  | case2 pos t => exact aheadGlyph (aheadRefl _)
  | case3 => exact aheadRefl _
  | case4 pos => exact aheadGlyph (aheadRefl _)
  | case5 pos g t c escape ih => exact aheadGlyph (aheadGlyph ih)
  | case6 pos g t none early ih => exact aheadGlyph ih
  | case7 pos g t none late ih => exact aheadGlyph (aheadGlyph ih)
  | case8 pos g t _ _ _ _ ih => exact aheadGlyph ih

theorem aheadAdvance (c : Cursor) : c.Ahead c.advance := by
  obtain ⟨pos,t⟩ := c
  cases t with
  | nil => exact aheadRefl _
  | cons g t => exact aheadGlyph (aheadRefl _)

theorem advanceShorter (some : c.rest ≠ []) : c.advance.rest.length < c.rest.length := by
  obtain ⟨pos,t⟩ := c
  cases t with
  | nil => contradiction
  | cons g t => exact Nat.lt_succ_self _

theorem aheadText (c : Cursor) : c.Ahead c.readText.next :=
  aheadTrans (aheadAdvance c) (aheadQuoted _ _)

theorem peekSome {c : Cursor} {sign : Char} (here : c.peek = sign) (other : sign ≠ '\x00') : c.rest ≠ [] := by
  intro none
  simp [peek,none] at here
  exact other here.symm

end Cursor

namespace Reader

def Outcome (base : Cursor) (size : Nat) (c : Cursor) : Reading α → Prop
  | .found _ d => c.Ahead d
  | .absent d => c.Ahead d
  | .refused e => ∃ d, base.Ahead d ∧ e.offset = d.pos
  | .unfinished => size ≤ c.rest.length

def Moves (base : Cursor) (size : Nat) (r : Reader α) : Prop :=
  ∀ c, base.Ahead c → Outcome base size c (r c)

def Eats (base : Cursor) (size : Nat) (r : Reader α) : Prop :=
  Moves base size r ∧ ∀ c, base.Ahead c → ∀ a d, r c = .found a d → d.rest.length < c.rest.length

variable {base c d : Cursor} {size : Nat} {r s : Reader α} {f : α → Reader β}

theorem bindAssoc {γ : Type} (r : Reader α) (f : α → Reader β) (g : β → Reader γ) :
    (r >>= f) >>= g = r >>= fun a => f a >>= g := by
  funext c
  simp only [Bind.bind,Reader.bind]
  cases r c <;> rfl

theorem foundBind {b e} (found : (r >>= f) c = .found b e) : ∃ a d, r c = .found a d ∧ f a d = .found b e := by
  simp only [Bind.bind,Reader.bind] at found
  split at found <;> try contradiction
  rename_i a d first
  exact ⟨a,d,first,found⟩

theorem movesFound {a} (moves : Moves base size r) (from' : base.Ahead c) (found : r c = .found a d) : c.Ahead d := by
  have outcome := moves c from'
  rwa [found] at outcome

theorem movesMono {small} (less : small ≤ size) (moves : Moves base size r) : Moves base small r := by
  intro c from'
  have outcome := moves c from'
  cases result : r c with
  | unfinished =>
    rw [result] at outcome
    exact Nat.le_trans less outcome
  | _ =>
    rw [result] at outcome
    exact outcome

theorem outcomeBind (n : Nat) (first : Outcome base size c (r c))
    (next : ∀ a d, r c = .found a d → Outcome base n d (f a d))
    (enough : ∀ a d, r c = .found a d → n ≤ d.rest.length → size ≤ c.rest.length) :
    Outcome base size c ((r >>= f) c) := by
  simp only [Bind.bind,Reader.bind]
  cases result : r c with
  | found a d =>
    have ahead : c.Ahead d := by rwa [result] at first
    have outcome := next a d result
    dsimp only
    cases second : f a d with
    | found b e =>
      rw [second] at outcome
      exact Cursor.aheadTrans ahead outcome
    | absent e =>
      rw [second] at outcome
      exact Cursor.aheadTrans ahead outcome
    | refused e =>
      rw [second] at outcome
      exact outcome
    | unfinished =>
      rw [second] at outcome
      exact enough a d result outcome
  | _ =>
    rw [result] at first
    exact first

def Gives (base : Cursor) (P : α → Prop) (r : Reader α) : Prop :=
  ∀ c, base.Ahead c → ∀ a d, r c = .found a d → P a

theorem movesGiven {P : α → Prop} (first : Moves base size r) (gives : Gives base P r)
    (next : ∀ a, P a → Moves base size (f a)) : Moves base size (r >>= f) := by
  intro c from'
  have ahead (a : α) (d : Cursor) (found : r c = .found a d) : c.Ahead d := movesFound first from' found
  refine outcomeBind size (first c from') (fun a d found => ?_) fun a d found enough => ?_
  · exact next a (gives c from' a d found) d (Cursor.aheadTrans from' (ahead a d found))
  · exact Nat.le_trans enough (Cursor.aheadLength (ahead a d found))

theorem movesBind (first : Moves base size r) (next : ∀ a, Moves base size (f a)) : Moves base size (r >>= f) :=
  movesGiven (P := fun _ => True) first (fun _ _ _ _ _ => trivial) fun a _ => next a

theorem movesIf {asks : Reader Bool} (first : Moves base size asks) (yes : Moves base size r) (no : Moves base size s) :
    Moves base size (asks >>= fun there => if there then r else s) := by
  refine movesBind first fun there => ?_
  cases there with
  | true => exact yes
  | false => exact no

theorem eatsGiven {n} {P : α → Prop} (first : Eats base size r) (gives : Gives base P r) (less : size ≤ n + 1)
    (next : ∀ a, P a → Moves base n (f a)) : Eats base size (r >>= f) := by
  obtain ⟨moves,shorter⟩ := first
  refine ⟨fun c from' => ?_,fun c from' b e found => ?_⟩
  · refine outcomeBind n (moves c from') (fun a d found => ?_) fun a d found enough => ?_
    · exact next a (gives c from' a d found) d (Cursor.aheadTrans from' (movesFound moves from' found))
    · have less' := shorter c from' a d found
      omega
  · obtain ⟨a,d,before,after⟩ := foundBind found
    have later := Cursor.aheadTrans from' (movesFound moves from' before)
    have ahead := movesFound (next a (gives c from' a d before)) later after
    exact Nat.lt_of_le_of_lt (Cursor.aheadLength ahead) (shorter c from' a d before)

theorem eatsBind {n} (first : Eats base size r) (less : size ≤ n + 1) (next : ∀ a, Moves base n (f a)) :
    Eats base size (r >>= f) :=
  eatsGiven (P := fun _ => True) first (fun _ _ _ _ _ => trivial) less fun a _ => next a

theorem eatsNext (first : Moves base size r) (next : ∀ a, Eats base size (f a)) :
    Eats base size (r >>= f) := by
  refine ⟨movesBind first fun a => (next a).1,fun c from' b e found => ?_⟩
  obtain ⟨a,d,before,after⟩ := foundBind found
  have ahead := movesFound first from' before
  have shorter := (next a).2 d (Cursor.aheadTrans from' ahead) b e after
  exact Nat.lt_of_lt_of_le shorter (Cursor.aheadLength ahead)

theorem outcomeHere {f : Nat → Reader β} (from' : base.Ahead c) (next : Outcome c size c (f c.pos c)) :
    Outcome base size c ((here >>= f) c) := by
  show Outcome base size c (f c.pos c)
  cases result : f c.pos c with
  | refused e =>
    rw [result] at next
    obtain ⟨d,ahead,same⟩ := next
    exact ⟨d,Cursor.aheadTrans from' ahead,same⟩
  | _ =>
    rw [result] at next
    exact next

theorem movesHere {f : Nat → Reader β} (next : ∀ c : Cursor, Moves c size (f c.pos)) :
    Moves base size (here >>= f) :=
  fun c from' => outcomeHere from' (next c c (Cursor.aheadRefl c))

theorem eatsHere {f : Nat → Reader β} (next : ∀ c : Cursor, Eats c size (f c.pos)) :
    Eats base size (here >>= f) :=
  ⟨movesHere fun c => (next c).1,fun c _ b e found => (next c).2 c (Cursor.aheadRefl c) b e found⟩

theorem eatsMono {small} (less : small ≤ size) (eats : Eats base size r) : Eats base small r :=
  ⟨movesMono less eats.1,eats.2⟩

theorem movesPure (a : α) : Moves base size (Pure.pure a : Reader α) := fun c _ => Cursor.aheadRefl c

theorem movesAbsent : Moves base size (absent : Reader α) := fun c _ => Cursor.aheadRefl c

theorem movesExpecting (what : Expectation) : Moves base size (expecting what : Reader α) :=
  fun c from' => ⟨c,from',rfl⟩

theorem movesOrElse (first : Moves base size r) (second : Moves base size s) :
    Moves base size (orElse r s) := by
  intro c from'
  have outcome := first c from'
  simp only [orElse]
  cases result : r c with
  | absent d => exact second c from'
  | _ =>
    rw [result] at outcome
    exact outcome

theorem eatsOrElse (first : Eats base size r) (second : Eats base size s) :
    Eats base size (orElse r s) := by
  refine ⟨movesOrElse first.1 second.1,fun c from' a d found => ?_⟩
  simp only [orElse] at found
  split at found
  · exact second.2 c from' a d found
  · exact first.2 c from' a d found

theorem movesRequire (what : Expectation) (moves : Moves base size r) :
    Moves base size (require what r) := by
  intro c from'
  have outcome := moves c from'
  simp only [require]
  cases result : r c with
  | absent d =>
    rw [result] at outcome
    exact ⟨d,Cursor.aheadTrans from' outcome,rfl⟩
  | _ =>
    rw [result] at outcome
    exact outcome

theorem eatsRequire (what : Expectation) (eats : Eats base size r) : Eats base size (require what r) := by
  refine ⟨movesRequire what eats.1,fun c from' a d found => ?_⟩
  simp only [require] at found
  split at found
  · contradiction
  · exact eats.2 c from' a d found

theorem eatsNothing (none : ∀ c a d, r c ≠ .found a d) (moves : Moves base size r) : Eats base size r :=
  ⟨moves,fun c _ a d found => absurd found (none c a d)⟩

theorem movesFuelled {loop : Nat → Reader α} (rounds : ∀ n, Moves base (min size n) (loop n)) :
    Moves base size (fuelled loop) := by
  intro c from'
  have outcome := rounds (c.rest.length + 1) c from'
  unfold fuelled
  cases result : loop (c.rest.length + 1) c with
  | unfinished =>
    rw [result] at outcome
    have bound : min size (c.rest.length + 1) ≤ c.rest.length := outcome
    exact show size ≤ c.rest.length by omega
  | _ =>
    rw [result] at outcome
    exact outcome

theorem movesNoRounds : Moves base (min size 0) (unfinished : Reader α) :=
  fun c _ => show min size 0 ≤ c.rest.length by omega

theorem givesBind {P : α → Prop} {Q : β → Prop} (first : Moves base 0 r) (gives : Gives base P r)
    (next : ∀ a, P a → Gives base Q (f a)) : Gives base Q (r >>= f) := by
  intro c from' b e found
  obtain ⟨a,d,before,after⟩ := foundBind found
  have ahead := Cursor.aheadTrans from' (movesFound first from' before)
  exact next a (gives c from' a d before) d ahead b e after

theorem givesThen {Q : β → Prop} (first : Moves base 0 r) (next : ∀ a, Gives base Q (f a)) :
    Gives base Q (r >>= f) :=
  givesBind (P := fun _ => True) first (fun _ _ _ _ _ => trivial) fun a _ => next a

theorem givesPure {P : α → Prop} {a} (holds : P a) : Gives base P (Pure.pure a : Reader α) := by
  intro c _ b d found
  cases found
  exact holds

theorem givesOrElse {P : α → Prop} (first : Gives base P r) (second : Gives base P s) :
    Gives base P (orElse r s) := by
  intro c from' a d found
  simp only [orElse] at found
  split at found
  · exact second c from' a d found
  · exact first c from' a d found

theorem givesAbsent {P : α → Prop} : Gives base P (absent : Reader α) := by
  intro c _ a d found
  contradiction

def Marks (base : Cursor) (offset : Nat) : Prop := ∃ d, base.Ahead d ∧ offset = d.pos

theorem givesHere {Q : β → Prop} {f : Nat → Reader β}
    (next : ∀ offset, Marks base offset → Gives base Q (f offset)) : Gives base Q (here >>= f) :=
  fun c from' b d found => next c.pos ⟨c,from',rfl⟩ c from' b d found

theorem movesRefuseAt {offset} (marks : Marks base offset) (fault : SyntaxFault) :
    Moves base size (refuse offset fault : Reader α) := fun _ _ => marks

theorem movesRefuse (fault : SyntaxFault) : Moves base size (refuse base.pos fault : Reader α) :=
  movesRefuseAt ⟨base,Cursor.aheadRefl base,rfl⟩ fault

/-! Words, blanks and lexemes -/

theorem movesPeek : Moves base size peek := fun c _ => Cursor.aheadRefl c

theorem movesSpaces : Moves base size spaces := fun c _ => Cursor.aheadSpaces c

theorem movesBlank : Moves base size blank := fun c _ => Cursor.aheadBlank c

theorem movesWord (w : String) : Moves base size (word w) := by
  intro c _
  simp only [word]
  cases found : c.consume? w with
  | none => exact Cursor.aheadRefl c
  | some d => exact ⟨_,Cursor.overWord found⟩

theorem eatsWord {w} (some : ofString w ≠ []) : Eats base size (word w) := by
  refine ⟨movesWord w,fun c _ a d found => ?_⟩
  simp only [word] at found
  split at found
  · rename_i next consumed
    cases found
    have across := Cursor.overWord consumed
    have long := List.length_pos_iff.mpr some
    rw [across.rest,List.length_append]
    omega
  · contradiction

theorem movesTry (w : String) : Moves base size (tryWord w) := by
  intro c _
  simp only [tryWord]
  cases found : c.consume? w with
  | none => exact Cursor.aheadRefl c
  | some d => exact ⟨_,Cursor.overWord found⟩

theorem movesTryAny (ws : List String) : Moves base size (tryWords ws) := by
  intro c _
  simp only [tryWords]
  cases found : c.consumeAny? ws with
  | none => exact Cursor.aheadRefl c
  | some pair => exact ⟨_,(Cursor.overAnyWord found).2⟩

theorem movesAdvance : Moves base size advance := fun c _ => Cursor.aheadAdvance c

theorem movesStatementEnd : Moves base size statementEnd := by
  intro c from'
  simp only [statementEnd]
  split
  · exact Cursor.aheadRefl c
  · exact ⟨_,Cursor.aheadTrans from' (Cursor.aheadSpaces c),rfl⟩

theorem movesDigits : Moves base size (fun c => .found c.readDigits.1 c.readDigits.2 : Reader String) :=
  fun c _ => Cursor.aheadDigits c

end Reader

namespace Phrases

open Reader

theorem duplicateNone {seen ps} : duplicate? seen ps = none ↔
    (ps.map Prod.snd).Nodup ∧ ∀ name ∈ ps.map Prod.snd, name ∉ seen := by
  induction ps generalizing seen with
  | nil => simp [duplicate?]
  | cons p ps ih =>
    simp only [duplicate?,List.map_cons,List.nodup_cons,List.forall_mem_cons]
    by_cases there : p.2 ∈ seen
    · simp [there]
    · rw [if_neg there,ih]
      constructor
      · intro ⟨distinct,fresh⟩
        exact ⟨⟨fun again => fresh _ again List.mem_cons_self,distinct⟩,there,
          fun name inside old => fresh name inside (List.mem_cons_of_mem _ old)⟩
      · intro ⟨⟨once,distinct⟩,_,fresh⟩
        refine ⟨distinct,fun name inside old => ?_⟩
        rcases List.mem_cons.mp old with rfl | old
        · exact once inside
        · exact fresh name inside old

def Proper (names : List Text) : Prop := (∀ name ∈ names, isIdentifier name) ∧ names.Nodup

theorem checkedProper (ps : List (Nat × Text)) (c : Cursor) : (Proper (ps.map Prod.snd) ∧ checkParameters ps c = .found () c) ∨
    ¬ Proper (ps.map Prod.snd) ∧ ∃ e, checkParameters ps c = .refused e := by
  have readable : unreadable? ps = none ↔ ∀ name ∈ ps.map Prod.snd, isIdentifier name := by
    rw [unreadable?,List.find?_eq_none,List.forall_mem_map]
    simp
  cases unread : unreadable? ps with
  | some p =>
    refine .inr ⟨fun proper => ?_,_,by simp only [checkParameters,unread]; rfl⟩
    rw [readable.mpr proper.1] at unread
    contradiction
  | none =>
    cases twice : duplicate? [] ps with
    | some p =>
      refine .inr ⟨fun proper => ?_,_,by simp only [checkParameters,unread,twice]; rfl⟩
      rw [duplicateNone.mpr ⟨proper.2,by simp⟩] at twice
      contradiction
    | none =>
      exact .inl ⟨⟨readable.mp unread,(duplicateNone.mp twice).1⟩,by simp only [checkParameters,unread,twice]; rfl⟩

def header : Reader (List (Nat × Text)) := do
  word "入力"
  spaces
  let empty ← fun c => .found (c.looksAt "に対し") c
  let ps ← if empty then Reader.pure [] else fuelled parameters
  word "に対し"
  return ps

def behind (nested : Phrases) (start : Nat) (ps : List (Nat × Text)) : Reader Expr := do
  checkParameters ps
  let _ ← tryWord "て"
  pause
  let body ← nested.block
  return .fn ⟨start,← here⟩ (ps.map fun p => Text.toString p.2) body

theorem functionSplit (nested : Phrases) :
    nested.function = here >>= fun start => header >>= nested.behind start := by
  unfold function header
  simp only [bindAssoc]
  refine congrArg _ (funext fun start => congrArg _ (funext fun _ => congrArg _ (funext fun _ => ?_)))
  refine Eq.trans (congrArg _ (funext fun empty => ?_)) (bindAssoc _ _ _).symm
  have tail (ps : List (Nat × Text)) : (word "に対し" >>= fun _ => nested.behind start ps) =
      (word "に対し" >>= fun _ => Pure.pure ps) >>= nested.behind start :=
    (bindAssoc (word "に対し") (fun _ => Pure.pure ps) (nested.behind start)).symm
  cases empty with
  | true => exact tail []
  | false => exact (congrArg _ (funext tail)).trans (bindAssoc _ _ _).symm

theorem eatsIdentifier {base size} : Eats base size identifier := by
  refine ⟨fun c _ => ?_,fun c _ a d found => ?_⟩
  · unfold identifier
    split
    · exact Cursor.aheadRefl c
    · rename_i name next some reading
      exact (Cursor.identifierShorter reading some).1
  · unfold identifier at found
    split at found
    · contradiction
    · rename_i name next some reading
      cases found
      exact (Cursor.identifierShorter reading some).2

/-- How long a text has to be to use up the nesting of expressions and of statements. -/
structure Sized (p s : Nat) (nested : Phrases) : Prop where
  primary : ∀ base, Eats base p nested.primary
  statement : ∀ base, Eats base s nested.statement

section Sized

variable {p s : Nat} {nested : Phrases} (sized : nested.Sized p s) {base : Cursor}

include sized

theorem eatsExpression : Eats base p nested.expression := by
  refine ⟨movesBind (sized.primary base).1 fun e c from' => ?_,fun c from' e d found => ?_⟩
  · dsimp only
    split
    · exact ⟨_,Cursor.aheadTrans from' (Cursor.aheadSpaces c),rfl⟩
    · exact Cursor.aheadRefl c
  · obtain ⟨e',d',first,second⟩ := foundBind found
    dsimp only at second
    split at second
    · contradiction
    · cases second
      exact (sized.primary base).2 c from' e d first

theorem eatsRequired (what : Expectation) : Eats base p (require what nested.expression) :=
  eatsRequire what (eatsExpression sized)

theorem movesStatements (n : Nat) : Moves base (min s n) (nested.statements base.pos n) := by
  induction n with
  | zero => exact movesNoRounds
  | succ n ih =>
    have eats := eatsMono (Nat.min_le_left s (n + 1)) (sized.statement base)
    exact movesBind movesBlank fun _ => movesIf (movesTry _) (movesPure _) <|
      movesIf (fun c _ => Cursor.aheadRefl c) (movesRefuse _)
      (eatsBind (n := min s n) eats (by omega) fun _ => movesBind ih fun _ => movesPure _).1

theorem eatsBlock : Eats base (s + 1) nested.block := by
  refine eatsHere fun c => eatsBind (eatsRequire _ (eatsWord (by decide))) (Nat.le_refl _) fun _ => ?_
  exact movesBind (movesFuelled (movesStatements sized)) fun _ => movesHere fun _ => movesPure _

omit sized in
theorem movesPause {size} : Moves base size pause :=
  movesBind movesSpaces fun _ => movesIf (movesTry _) movesSpaces (movesPure _)

omit sized in
theorem movesComparator {size} (words : List (String × Comparator)) : Moves base size (comparator words) := by
  induction words with
  | nil => exact movesPure _
  | cons pair words ih => exact movesIf (movesTry _) (movesBind movesSpaces fun _ => movesPure _) ih

theorem movesAlternative : Moves base (s + 1) nested.alternative := by
  refine movesOrElse ?_ (movesPure _)
  exact movesBind movesBlank fun _ => movesBind (movesWord _) fun _ => movesBind movesPause fun _ =>
    movesBind (eatsBlock sized).1 fun _ => movesPure _

theorem movesIndices (n : Nat) : Moves base (min p n) (nested.indices n) := by
  induction n with
  | zero => exact movesNoRounds
  | succ n ih =>
    refine movesIf (movesTry _) ?_ (movesPure _)
    refine movesBind movesSpaces fun _ => (eatsBind (n := min p n) ?_ (by omega) fun _ => ?_).1
    · exact eatsMono (Nat.min_le_left p (n + 1)) (eatsRequired sized _)
    · exact movesBind movesSpaces fun _ => movesBind (movesRequire _ (movesWord _)) fun _ =>
        movesBind ih fun _ => movesPure _

theorem eatsItems (close : String) (n : Nat) : Eats base (min p n) (nested.items close n) := by
  induction n with
  | zero => exact eatsNothing (fun _ _ _ found => by contradiction) movesNoRounds
  | succ n ih =>
    have eats : Eats base (min p (n + 1)) (require .expression nested.expression) :=
      eatsMono (Nat.min_le_left p (n + 1)) (eatsRequired sized .expression)
    exact eatsBind (n := min p n) eats (by omega) fun _ => movesBind movesBlank fun _ =>
      movesIf (movesTryAny _) (movesBind movesBlank fun _ => movesBind ih.1 fun _ => movesPure _)
      (movesIf (movesTry _) (movesPure _) (movesExpecting _))

theorem movesItemsUpTo (close : String) : Moves base p (nested.itemsUpTo close) :=
  movesBind movesBlank fun _ => movesIf (movesTry _) (movesPure _) (movesFuelled fun n => (eatsItems sized close n).1)

/-! Statements -/

section Statement

variable {k : Nat} (expressions : k ≤ p) (blocks : k ≤ s + 1)

include expressions

theorem eatsValue : Eats base k nested.expression := eatsMono expressions (eatsExpression sized)

theorem movesRequiredValue (what : Expectation) : Moves base k (require what nested.expression) :=
  movesMono expressions (eatsRequired sized what).1

theorem eatsTarget : Eats base k nested.target := by
  refine eatsHere fun c => eatsBind eatsIdentifier (Nat.le_succ k) fun _ => movesBind movesPeek fun next => ?_
  split
  · exact movesAbsent
  · exact movesBind (movesFuelled fun n => movesMono (by omega) (movesIndices sized n)) fun _ =>
      movesHere fun _ => movesPure _

theorem eatsDoctest : Eats base k nested.doctest :=
  eatsHere fun _ => eatsBind (eatsWord (by decide)) (Nat.le_succ k) fun _ => movesBind movesSpaces fun _ =>
    movesBind (movesRequiredValue sized expressions _) fun _ => movesBind movesStatementEnd fun _ =>
    movesBind movesSpaces fun _ => movesBind (movesRequire _ (movesWord _)) fun _ =>
    movesBind movesSpaces fun _ => movesBind (movesRequiredValue sized expressions _) fun _ =>
    movesHere fun _ => movesPure _

theorem eatsOnTarget : Eats base k nested.onTarget := by
  refine eatsHere fun _ => eatsBind (eatsTarget sized expressions) (Nat.le_succ k) fun t =>
    movesBind movesSpaces fun _ => movesIf (movesTry _) (movesHere fun _ => movesPure _) <|
    movesIf (movesTry _) (movesHere fun _ => movesPure _) <| movesIf (movesTry _) ?_ <| movesIf (movesTry _) ?_ ?_
  · exact movesBind movesSpaces fun _ => movesBind (movesRequiredValue sized expressions _) fun _ =>
      movesBind movesSpaces fun _ => movesBind (movesRequire _ (movesWord _)) fun _ =>
      movesHere fun _ => movesPure _
  · exact movesBind movesSpaces fun _ => movesBind (movesRequiredValue sized expressions _) fun _ =>
      movesHere fun _ => movesPure _
  · exact movesBind (movesWord _) fun _ => movesBind movesSpaces fun _ =>
      movesBind (eatsValue sized expressions).1 fun _ => movesBind movesSpaces fun _ =>
      movesBind (movesWord _) fun _ => movesHere fun _ => movesPure _

theorem eatsAnswer : Eats base k nested.answer :=
  eatsHere fun _ => eatsBind (eatsValue sized expressions) (Nat.le_succ k) fun _ =>
    movesBind movesSpaces fun _ => movesBind (movesWord _) fun _ => movesHere fun _ => movesPure _

theorem eatsObserve : Eats base k nested.observe :=
  eatsHere fun _ => eatsBind (eatsValue sized expressions) (Nat.le_succ k) fun _ =>
    movesHere fun _ => movesPure _

omit sized expressions in
theorem eatsLeave : Eats base k leave :=
  eatsHere fun _ => eatsBind (eatsOrElse (eatsWord (by decide)) (eatsWord (by decide))) (Nat.le_succ k)
    fun _ => movesHere fun _ => movesPure _

include blocks

theorem eatsConditional : Eats base k nested.conditional :=
  eatsHere fun _ => eatsBind (eatsWord (by decide)) (Nat.le_succ k) fun _ => movesBind movesSpaces fun _ =>
    movesBind (eatsValue sized expressions).1 fun _ => movesBind movesSpaces fun _ =>
    movesBind (movesWord _) fun _ => movesBind movesSpaces fun _ =>
    movesBind (eatsValue sized expressions).1 fun _ => movesBind movesSpaces fun _ =>
    movesBind (movesComparator _) fun _ => movesBind (movesWord _) fun _ => movesBind movesPause fun _ =>
    movesBind (movesMono blocks (eatsBlock sized).1) fun _ =>
    movesBind (movesMono blocks (movesAlternative sized)) fun _ => movesHere fun _ => movesPure _

theorem eatsLoop : Eats base k nested.loop :=
  eatsHere fun _ => eatsBind (eatsValue sized expressions) (Nat.le_succ k) fun _ =>
    movesBind movesSpaces fun _ => movesBind (movesWord _) fun _ => movesBind movesSpaces fun _ =>
    movesBind (movesOrElse (movesWord _) (movesWord _)) fun _ => movesBind movesPause fun _ =>
    movesBind (movesMono blocks (eatsBlock sized).1) fun _ => movesHere fun _ => movesPure _

theorem eatsOneStatement : Eats base k nested.oneStatement := by
  refine eatsHere fun c => eatsBind (eatsOrElse ?_ ?_) (Nat.le_succ k) fun _ =>
    movesBind movesStatementEnd fun _ => movesPure _
  · exact eatsOrElse (eatsConditional sized expressions blocks) <|
      eatsOrElse (eatsLoop sized expressions blocks) <| eatsOrElse (eatsDoctest sized expressions) <|
      eatsOrElse (eatsOnTarget sized expressions) <| eatsOrElse (eatsAnswer sized expressions) <|
      eatsOrElse eatsLeave <| eatsOrElse (eatsObserve sized expressions) <|
      eatsNothing (fun _ _ _ found => by contradiction) movesAbsent
  · exact eatsNothing (fun _ _ _ found => by contradiction) (movesRefuse _)

end Statement

/-! Expressions -/

omit sized in
theorem digitsShorter {c : Cursor} (digit : '0' ≤ c.peek && c.peek ≤ '9') :
    c.readDigits.2.rest.length < c.rest.length := by
  obtain ⟨pos,t⟩ := c
  cases t with
  | nil => contradiction
  | cons g t =>
    have here : Cursor.isDigit g := digit
    simp only [Cursor.readDigits,Cursor.readWhile,here,if_true]
    exact Nat.lt_succ_of_le (Cursor.aheadLength (Cursor.aheadWhile _ _ t))

omit sized in
theorem movesInteger {size : Nat} : Moves base size integer := by
  refine movesHere fun c => movesBind movesDigits fun digits => movesBind movesPeek fun next => ?_
  split
  · exact movesRefuse _
  · exact movesHere fun _ => movesPure _

omit sized in
theorem movesTextIndex {size : Nat} : Moves base size textIndex := by
  refine movesBind (movesWord _) fun _ => movesBind movesSpaces fun _ => movesHere fun c =>
    movesBind movesDigits fun digits => movesBind movesSpaces fun _ => ?_
  split
  · exact movesAbsent
  · exact movesBind (movesWord _) fun _ => movesPure _

omit sized in
theorem givesTextIndex : Gives base (fun picked => Marks base picked.1) textIndex := by
  refine givesThen (movesWord _) fun _ => givesThen movesSpaces fun _ => givesHere fun start marks =>
    givesThen movesDigits fun digits => givesThen movesSpaces fun _ => ?_
  split
  · exact givesAbsent
  · exact givesThen (movesWord _) fun _ => givesPure marks

omit sized in
theorem movesQuotedText {size : Nat} : Moves base size quotedText := by
  refine movesHere fun c => movesBind (fun c _ => Cursor.aheadText c) fun quote => ?_
  split
  · exact movesRefuse _
  · refine movesGiven (P := fun index => ∀ picked, index = some picked → Marks c picked.1)
      (movesOrElse (movesBind movesTextIndex fun _ => movesPure _) (movesPure _))
      (givesOrElse (givesBind movesTextIndex givesTextIndex fun picked marks => givesPure ?_)
        (givesPure fun picked none => by contradiction)) fun index marks => ?_
    · rintro _ ⟨⟩
      exact marks
    · cases index with
      | none => exact movesHere fun _ => movesPure _
      | some picked =>
        dsimp only
        split
        · exact movesHere fun _ => movesPure _
        · exact movesRefuseAt (marks picked rfl) _

omit sized in
theorem quotedTextFound {c d e} (found : quotedText c = .found e d) :
    c.readText.closed ∧ ∃ index, orElse (some <$> textIndex) (return none) c.readText.next = .found index d := by
  obtain ⟨start,c₁,first,found⟩ := foundBind found
  cases first
  obtain ⟨quote,c₂,second,found⟩ := foundBind found
  cases second
  split at found
  · contradiction
  · rename_i closed
    obtain ⟨index,c₃,third,found⟩ := foundBind found
    refine ⟨by simpa using closed,index,?_⟩
    cases index with
    | none =>
      cases found
      exact third
    | some picked =>
      dsimp only at found
      split at found
      · cases found
        exact third
      · contradiction

omit sized in
theorem quotedTextShorter {c d : Cursor} {e : Expr} (some : c.rest ≠ []) (found : quotedText c = .found e d) :
    d.rest.length < c.rest.length := by
  obtain ⟨_,index,last⟩ := quotedTextFound found
  have quoted : c.readText.next.rest.length < c.rest.length :=
    Nat.lt_of_le_of_lt (Cursor.aheadLength (Cursor.aheadQuoted _ _)) (Cursor.advanceShorter some)
  have moves : Moves c.readText.next 0 (orElse (Option.some <$> textIndex) (return none)) :=
    movesOrElse (movesBind movesTextIndex fun _ => movesPure _) (movesPure _)
  exact Nat.lt_of_le_of_lt (Cursor.aheadLength (movesFound moves (Cursor.aheadRefl _) last)) quoted

omit sized in
theorem movesName {size} : Moves base size (fun c => .found c.readName.1 c.readName.2 : Reader Text) :=
  fun c _ => ⟨_,Cursor.overName c⟩

omit sized in
theorem movesParameters (size n : Nat) : Moves base (min size n) (parameters n) := by
  induction n generalizing base with
  | zero => exact movesNoRounds
  | succ n ih =>
    refine movesHere fun c d from' => ?_
    by_cases empty : d.readName.1 = []
    · simp only [Bind.bind,Reader.bind,empty,if_true]
      exact ⟨_,Cursor.overName d⟩
    · refine outcomeBind (min size n) (movesName d from') (fun name e found => ?_) fun name e found enough => ?_
      · cases found
        have later := Cursor.aheadTrans from' ⟨_,Cursor.overName d⟩
        rw [if_neg empty]
        refine movesBind movesSpaces (fun _ => movesIf (movesTryAny _) ?_ (movesPure _)) _ later
        exact movesBind movesSpaces fun _ => movesBind ih fun _ => movesPure _
      · cases found
        have long := List.length_pos_iff.mpr empty
        rw [(Cursor.overName d).rest,List.length_append]
        omega

omit sized in
theorem givesParameters (n : Nat) : Gives base (fun ps => ∀ q ∈ ps, Marks base q.1) (parameters n) := by
  induction n with
  | zero =>
    intro c _ ps d found
    contradiction
  | succ n ih =>
    refine givesHere fun start marks => givesThen movesName fun name => ?_
    split
    · exact givesAbsent
    · refine givesThen movesSpaces fun _ => givesThen (movesTryAny _) fun more => ?_
      cases more with
      | true =>
        refine givesThen movesSpaces fun _ => givesBind (movesMono (Nat.zero_le _) (movesParameters 0 n)) ih
          fun rest all => givesPure ?_
        exact List.forall_mem_cons.mpr ⟨marks,all⟩
      | false => exact givesPure (List.forall_mem_singleton.mpr marks)

omit sized in
theorem duplicateMember {seen ps q} (found : duplicate? seen ps = some q) : q ∈ ps := by
  induction ps generalizing seen with
  | nil => contradiction
  | cons p ps ih =>
    unfold duplicate? at found
    split at found
    · cases found
      exact List.mem_cons_self
    · exact List.mem_cons_of_mem p (ih found)

omit sized in
theorem movesCheckParameters {size ps} (marks : ∀ q ∈ ps, Marks base q.1) : Moves base size (checkParameters ps) := by
  unfold checkParameters
  split
  · rename_i start name unreadable
    exact movesRefuseAt (marks _ (List.mem_of_find?_eq_some unreadable)) _
  · rename_i start name _ duplicate
    exact movesRefuseAt (marks _ (duplicateMember duplicate)) _
  · exact movesPure _

omit sized in
theorem eatsHeader {size : Nat} : Eats base size header := by
  refine eatsBind (eatsWord (by decide)) (Nat.le_succ size) fun _ => movesBind movesSpaces fun _ =>
    movesBind (fun d _ => Cursor.aheadRefl d) fun empty => ?_
  have last (ps : List (Nat × Text)) : Moves base size (word "に対し" >>= fun _ => Pure.pure ps) :=
    movesBind (movesWord _) fun _ => movesPure _
  cases empty with
  | true => exact movesBind (movesPure _) last
  | false => exact movesBind (movesFuelled (movesParameters size)) last

omit sized in
theorem givesHeader : Gives base (fun ps => ∀ q ∈ ps, Marks base q.1) header := by
  refine givesThen (movesWord _) fun _ => givesThen movesSpaces fun _ =>
    givesThen (fun d _ => Cursor.aheadRefl d) fun empty => ?_
  have last (ps : List (Nat × Text)) (marks : ∀ q ∈ ps, Marks base q.1) :
      Gives base (fun ps => ∀ q ∈ ps, Marks base q.1) (word "に対し" >>= fun _ => Pure.pure ps) :=
    givesThen (movesWord _) fun _ => givesPure marks
  cases empty with
  | true => exact givesBind (movesPure _) (givesPure fun _ none => by contradiction) last
  | false => exact givesBind (movesFuelled (movesParameters 0)) (fun c => givesParameters _ c) last

section Primary

variable {k : Nat} (expressions : k ≤ p + 1) (blocks : k ≤ s + 1)

include blocks in
theorem eatsFunction : Eats base k nested.function := by
  rw [functionSplit]
  refine eatsHere fun c => eatsGiven eatsHeader givesHeader (Nat.le_succ _) fun ps marks => ?_
  exact movesBind (movesCheckParameters marks) fun _ => movesBind (movesTry _) fun _ =>
    movesBind movesPause fun _ => movesBind (movesMono blocks (eatsBlock sized).1) fun _ =>
    movesHere fun _ => movesPure _

include expressions in
theorem eatsNamed : Eats base k nested.named := by
  refine eatsHere fun c => eatsBind eatsIdentifier expressions fun _ => movesIf (movesTry _) ?_ ?_
  · exact movesBind (movesItemsUpTo sized _) fun _ => movesHere fun _ => movesPure _
  · exact movesBind (movesFuelled (movesIndices sized)) fun _ => movesHere fun _ => movesPure _

omit sized in
theorem eatsSign {n : Nat} {f : Nat → Reader Expr} {c} (from' : base.Ahead c) (some : c.rest ≠ [])
    (less : k ≤ n + 1) (next : Moves c n (f c.pos)) :
    Outcome base k c ((do let start ← here; advance; f start) c) ∧
      ∀ e d, (do let start ← here; advance; f start) c = .found e d → d.rest.length < c.rest.length := by
  have later := Cursor.aheadAdvance c
  have shorter := Cursor.advanceShorter some
  refine ⟨outcomeHere from' (outcomeBind n (Cursor.aheadAdvance c) (fun _ d found => ?_) fun _ d found enough => ?_),
    fun e d found => ?_⟩
  · cases found
    exact next _ later
  · cases found
    omega
  · exact Nat.lt_of_le_of_lt (Cursor.aheadLength (movesFound next later found)) shorter

include expressions blocks in
theorem eatsOnePrimary : Eats base k nested.onePrimary := by
  have both (c : Cursor) (from' : base.Ahead c) : Outcome base k c (nested.onePrimary c) ∧
      ∀ e d, nested.onePrimary c = .found e d → d.rest.length < c.rest.length := by
    simp only [onePrimary,Bind.bind,Reader.bind,peek]
    split_ifs with digit quote bar minus bracket mark
    · refine ⟨movesInteger c from',fun e d found => ?_⟩
      simp only [integer,Bind.bind,Reader.bind,here,peek] at found
      split at found
      · contradiction
      · cases found
        exact digitsShorter digit
    · exact ⟨movesQuotedText c from',fun e d found => quotedTextShorter (Cursor.peekSome quote (by decide)) found⟩
    · exact eatsSign from' (Cursor.peekSome bar (by decide)) expressions (movesBind movesSpaces fun _ =>
        movesBind (eatsRequired sized _).1 fun _ => movesBind movesSpaces fun _ =>
        movesBind (movesRequire _ (movesWord _)) fun _ => movesHere fun _ => movesPure _)
    · exact eatsSign from' (Cursor.peekSome minus (by decide)) expressions (movesBind movesSpaces fun _ =>
        movesBind (sized.primary _).1 fun _ => movesHere fun _ => movesPure _)
    · exact eatsSign from' (Cursor.peekSome bracket (by decide)) expressions
        (movesBind (movesItemsUpTo sized _) fun _ => movesHere fun _ => movesPure _)
    · exact eatsSign from' (Cursor.peekSome mark (by decide)) expressions (movesHere fun _ => movesPure _)
    · have eats : Eats base k (orElse nested.function nested.named) :=
        eatsOrElse (eatsFunction sized blocks) (eatsNamed sized expressions)
      exact ⟨eats.1 c from',eats.2 c from'⟩
  exact ⟨fun c from' => (both c from').1,fun c from' => (both c from').2⟩

end Primary

end Sized

/- Each level of nesting that is allowed for takes up a glyph, except that a statement may begin with
an expression. -/
theorem sizedUpTo (n : Nat) : (upTo n).Sized ((n + 1) / 2) (n / 2) := by
  induction n with
  | zero =>
    refine ⟨fun base => eatsNothing (fun _ _ _ found => by contradiction) fun c _ => ?_,
      fun base => eatsNothing (fun _ _ _ found => by contradiction) fun c _ => ?_⟩
    · exact Nat.zero_le _
    · exact Nat.zero_le _
  | succ n ih =>
    refine ⟨fun base => eatsOnePrimary ih ?_ ?_,fun base => eatsOneStatement ih ?_ ?_⟩ <;> omega

theorem sizedDepth (length : Nat) :
    (upTo (depthFor length)).Sized (length + 1) (length + 1) := by
  obtain ⟨primary,statement⟩ := sizedUpTo (depthFor length)
  unfold depthFor at *
  exact ⟨fun base => eatsMono (by omega) (primary base),fun base => eatsMono (by omega) (statement base)⟩

end Phrases

end Terakoya
