import Terakoya.Proofs.Recovery
import Terakoya.Proofs.Splice

/-! Reading two texts that are joined by a newline. Normalizing keeps the newline and works on both
sides of it apart; the statements of the first text are read before it and those of the second text
behind it. -/
namespace Terakoya

namespace Text

/-! Normalizing -/

theorem CodeMap.findRange {α : Type} {p : Nat → Nat → α → Bool} {m : CodeMap α} (all : m.all p) {n : Nat} {found : Nat × α}
    (lookup : m.find? n = some found) : ∃ last, found.1 ≤ n ∧ n ≤ last ∧ p found.1 last found.2 := by
  induction m with
  | leaf => contradiction
  | node left first last value right ihLeft ihRight =>
    simp only [CodeMap.all,Bool.and_eq_true] at all
    simp only [CodeMap.find?] at lookup
    split_ifs at lookup with before inside
    · exact ihLeft all.1.1 lookup
    · cases lookup
      exact ⟨last,Nat.le_of_not_lt before,inside,all.1.2⟩
    · exact ihRight all.2 lookup

def isFree (skipped : List Char) (c : Char) : Bool :=
  match skipped with
  | [] => true
  | last :: _ => glyphClass (.char last) < glyphClass (.char c)

theorem composeChar (starter : Char) (skipped : List Char) (c : Char) (t : Text) :
    composeFrom starter skipped (.char c :: t) =
      match if isFree skipped c then composePair? starter c else none with
      | some joined => composeFrom joined skipped t
      | none =>
        if glyphClass (.char c) = 0 then .char starter :: (skipped.reverse.map .char ++ composeFrom c [] t)
        else composeFrom starter (c :: skipped) t := by
  rw [composeFrom.eq_def]
  rfl

/-- A glyph that parts a text: what stands before it and what stands behind it are normalized apart. -/
structure Alone (b : Glyph) : Prop where
  starter : glyphClass b = 0
  unmarked : marks b = (0,0)
  whole : decomposeGlyph b = [b]
  ends : ∀ starter skipped t, composeFrom starter skipped (b :: t) = composeFrom starter skipped [] ++ b :: compose t
  begins : ∀ t, compose (b :: t) = b :: compose t
  kept : mapChars straighten (mapChars foldChar [b]) = [b]

theorem composeUnpaired {b : Char} (unpaired : ∀ c, composePair? b c = none) (skipped : List Char) (t : Text) :
    composeFrom b skipped t = .char b :: (skipped.reverse.map .char ++ compose t) := by
  induction t generalizing skipped with
  | nil => rw [composeFrom,compose,composeFrom.composeStart,List.append_nil]
  | cons g t ih =>
    cases g with
    | stray b => rw [composeFrom,compose,composeFrom.composeStart]
    | char c =>
      rw [composeChar,unpaired,ite_self,compose,composeFrom.composeStart]
      dsimp only
      split
      · rfl
      · rw [ih]
        simp [compose]

theorem aloneBreak {b} (line : b = '\n' ∨ b = '\r') : Alone (.char b) := by
  have after (c : Char) : composePair? c b = none := by
    have unpaired : composites.all fun _ _ made => (paired made).all fun pair => 0xD < pair.1.toNat := by decide +kernel
    have hangul : Hangul.compose? c.toNat b.toNat = none := by
      rcases line with rfl | rfl <;> simp [Hangul.compose?,Hangul.isVowel,Hangul.isTail]
    rw [composePair?,hangul]
    simp only [CodeMap.value?]
    cases found : composites.find? c.toNat with
    | none => rfl
    | some entry =>
      obtain ⟨_,_,_,above⟩ := CodeMap.findRange unpaired found
      refine List.lookup_eq_none_iff.mpr fun pair there => ?_
      have other : b ≠ pair.1 := by
        rintro rfl
        have high := List.all_eq_true.mp above pair there
        rcases line with same | same <;> simp [same] at high
      simpa using other
  have before (c : Char) : composePair? b c = none := by
    have hangul : Hangul.compose? b.toNat c.toNat = none := by
      rcases line with rfl | rfl <;> simp [Hangul.compose?,Hangul.isLead,Hangul.isOpen,Hangul.isSyllable]
    have unpaired : composites.value? b.toNat = none := by rcases line with rfl | rfl <;> decide +kernel
    rw [composePair?,hangul,unpaired]
    rfl
  have starter : glyphClass (.char b) = 0 := by rcases line with rfl | rfl <;> rfl
  refine ⟨starter,?_,?_,fun first skipped t => ?_,fun t => ?_,?_⟩
  · rcases line with rfl | rfl <;> rfl
  · rcases line with rfl | rfl <;> decide +kernel
  · rw [composeChar,after,ite_self,composeFrom]
    refine (if_pos starter).trans ?_
    rw [composeUnpaired before]
    rfl
  · rw [compose,composeFrom.composeStart,if_pos starter,composeUnpaired before]
    rfl
  · rcases line with rfl | rfl <;> decide +kernel

section Alone

variable {b : Glyph} (alone : Alone b)

include alone

theorem streamSafeJoined (run : Nat) (s t : Text) :
    streamSafe run (s ++ b :: t) = streamSafe run s ++ b :: streamSafe 0 t := by
  induction s generalizing run with
  | nil => simp only [List.nil_append,streamSafe,alone.unmarked]
  | cons g s ih =>
    simp only [List.cons_append,streamSafe]
    split
    · rw [ih,List.cons_append]
    · split
      · rw [ih,List.cons_append,List.cons_append]
      · rw [ih,List.cons_append]

theorem placeJoined (g : Glyph) (s t : Text) : place g (s ++ b :: t) = place g s ++ b :: t := by
  induction s with
  | nil => simp [place,alone.starter]
  | cons h s ih =>
    simp only [List.cons_append,place]
    split
    · rw [ih,List.cons_append]
    · rfl

theorem reorderJoined (s t : Text) : reorder (s ++ b :: t) = reorder s ++ b :: reorder t := by
  induction s with
  | nil =>
    show place b (reorder t) = b :: reorder t
    cases reorder t with
    | nil => rfl
    | cons h t => rw [place,alone.starter,if_neg fun below => Nat.not_lt_zero _ below.2]
  | cons g s ih => rw [List.cons_append,reorder,ih,placeJoined alone,reorder]

theorem composeBothJoined (s t : Text) : (∀ starter skipped, composeFrom starter skipped (s ++ b :: t) =
      composeFrom starter skipped s ++ b :: compose t) ∧ compose (s ++ b :: t) = compose s ++ b :: compose t := by
  induction s with
  | nil => exact ⟨fun starter skipped => alone.ends starter skipped t,alone.begins t⟩
  | cons g s ih =>
    unfold compose at ih ⊢
    cases g with
    | stray b =>
      refine ⟨fun starter skipped => ?_,?_⟩
      · simp only [List.cons_append,composeFrom,ih.2,List.append_assoc]
      · simp only [List.cons_append,composeFrom.composeStart,ih.2]
    | char c =>
      refine ⟨fun starter skipped => ?_,?_⟩
      · rw [List.cons_append,composeChar,composeChar]
        split
        · exact ih.1 _ _
        · split
          · simp [ih.1]
          · exact ih.1 _ _
      · rw [List.cons_append,composeFrom.composeStart,composeFrom.composeStart]
        split
        · exact ih.1 _ _
        · rw [ih.2,List.cons_append]

theorem normalizeAround (s t : Text) : normalize (s ++ b :: t) = normalize s ++ b :: normalize t := by
  have split : decompose (streamSafe 0 s ++ b :: streamSafe 0 t) =
      decompose (streamSafe 0 s) ++ b :: decompose (streamSafe 0 t) := by
    simp only [decompose,List.flatMap_append,List.flatMap_cons,alone.whole,List.singleton_append]
  have kept (u : Text) : mapChars straighten (mapChars foldChar (b :: u)) = b :: mapChars straighten (mapChars foldChar u) :=
    congrArg (· ++ mapChars straighten (mapChars foldChar u)) alone.kept
  simp only [normalize,canonical,streamSafeJoined alone,split,reorderJoined alone,(composeBothJoined alone _ _).2]
  rw [← kept]
  simp only [mapChars,List.map_append]

end Alone

theorem normalizeJoined (s t : Text) : normalize (s ++ .newline :: t) = normalize s ++ .newline :: normalize t :=
  normalizeAround (aloneBreak (.inl rfl)) s t

end Text

namespace Parse

/-! Reading -/

inductive Through (phrases : Phrases) : Cursor → List Stmt → Cursor → Prop where
  | none (c : Cursor) : Through phrases c [] c
  | more {c d e : Cursor} {s : Stmt} {body : List Stmt} (some : c.skipBlank.rest ≠ [])
      (found : phrases.statement c.skipBlank = .found s d) (rest : Through phrases d body e) :
      Through phrases c (s :: body) e

variable {phrases : Phrases} {c d e : Cursor} {body : List Stmt} {source : Text}

theorem throughTrans {more} (first : Through phrases c body d) (second : Through phrases d more e) :
    Through phrases c (body ++ more) e := by
  induction first with
  | none c => exact second
  | more some found _ ih => exact .more some found (ih second)

theorem throughBlank (same : c.skipBlank = d.skipBlank) (through : Through phrases d body e) :
    ∃ e', Through phrases c body e' ∧ e'.skipBlank = e.skipBlank := by
  cases through with
  | none => exact ⟨c,.none c,same⟩
  | more some found rest =>
    rw [← same] at some found
    exact ⟨e,.more some found rest,rfl⟩

theorem throughAhead (eats : ∀ base, Reader.Eats base 0 phrases.statement) (through : Through phrases c body d) :
    c.Ahead d ∧ d.rest.length + body.length ≤ c.rest.length := by
  induction through with
  | none c => exact ⟨Cursor.aheadRefl c,Nat.le_refl _⟩
  | @more c d e s body some found rest ih =>
    have blank := Cursor.aheadBlank c
    have shorter := (eats c.skipBlank).2 _ (Cursor.aheadRefl _) s d found
    have ahead := Reader.movesFound (eats c.skipBlank).1 (Cursor.aheadRefl _) found
    have less := Cursor.aheadLength blank
    refine ⟨Cursor.aheadTrans blank (Cursor.aheadTrans ahead ih.1),?_⟩
    rw [List.length_cons]
    omega

theorem runEnded (ended : c.skipBlank.rest = []) (recover : Bool) (n : Nat) :
    run phrases recover source (n + 1) c = ⟨[],[],c.skipBlank.pos,true⟩ := by
  simp [run,Cursor.atEnd,ended]

theorem runGoing (some : c.skipBlank.rest ≠ []) (n : Nat) :
    run phrases false source (n + 1) c =
      match phrases.statement c.skipBlank with
      | .found s d => { run phrases false source n d with body := s :: (run phrases false source n d).body }
      | .refused e => ⟨[],[e],c.skipBlank.pos,true⟩
      | .absent _ => ⟨[],[],c.skipBlank.pos,true⟩
      | .unfinished => ⟨[],[],c.skipBlank.pos,false⟩ := by
  have going : c.skipBlank.atEnd = false := by simpa [Cursor.atEnd] using some
  cases result : phrases.statement c.skipBlank <;> simp [run,going,result]

theorem runThrough (certain : Reader.Certain phrases.statement) {n}
    (faultless : (run phrases false source n c).errors = []) (finished : (run phrases false source n c).finished) :
    ∃ d, Through phrases c (run phrases false source n c).body d ∧ d.skipBlank.rest = [] := by
  induction n generalizing c with
  | zero => contradiction
  | succ n ih =>
    by_cases ended : c.skipBlank.rest = []
    · rw [runEnded ended]
      exact ⟨c,.none c,ended⟩
    · rw [runGoing ended] at faultless finished ⊢
      cases result : phrases.statement c.skipBlank with
      | found s d =>
        rw [result] at faultless finished
        obtain ⟨e,through,last⟩ := ih faultless finished
        exact ⟨e,.more ended result through,last⟩
      | refused e =>
        rw [result] at faultless
        contradiction
      | absent d => exact absurd result (certain _ d)
      | unfinished =>
        rw [result] at finished
        contradiction

theorem throughRun {n} (through : Through phrases c body d) (ended : d.skipBlank.rest = [])
    (enough : body.length < n) : run phrases false source n c = ⟨body,[],d.skipBlank.pos,true⟩ := by
  induction through generalizing n with
  | none c =>
    obtain ⟨n,rfl⟩ : ∃ j, n = j + 1 := ⟨n - 1,by omega⟩
    exact runEnded ended false n
  | more some found rest ih =>
    obtain ⟨n,rfl⟩ : ∃ j, n = j + 1 := ⟨n - 1,by omega⟩
    rw [runGoing some,found]
    dsimp only
    rw [ih ended (Nat.lt_of_succ_lt_succ enough)]

theorem readThrough (faultless : (ofNormal false source).errors = []) :
    ∃ d, Through (Phrases.upTo (Phrases.depthFor source.length)) (.start source) (ofNormal false source).program.body d ∧
      d.skipBlank.rest = [] :=
  runThrough (Phrases.shelteredUpTo _).certain faultless (ofNormalFinished false source)

theorem throughRead (through : Through (Phrases.upTo (Phrases.depthFor source.length)) (.start source) body d)
    (ended : d.skipBlank.rest = []) : ofNormal false source = ⟨source,⟨body,Text.width source⟩,[],true⟩ := by
  have eats (base : Cursor) : Reader.Eats base 0 (Phrases.upTo (Phrases.depthFor source.length)).statement :=
    Reader.eatsMono (Nat.zero_le _) ((Phrases.sizedUpTo _).statement base)
  obtain ⟨ahead,short⟩ := throughAhead eats through
  have enough : body.length < source.length + 1 := Nat.lt_succ_of_le (Nat.le_trans (Nat.le_add_left _ _) short)
  have whole : run _ false source _ _ = _ := throughRun through ended enough
  obtain ⟨u,across⟩ := Cursor.aheadTrans ahead (Cursor.aheadBlank d)
  have stop : d.skipBlank.pos = Text.width source := by
    have rest : source = u ++ d.skipBlank.rest := across.rest
    rw [ended,List.append_nil] at rest
    rw [across.pos,rest]
    exact Nat.zero_add _
  rw [ofNormal,whole,stop]

end Parse

namespace Seam

def shifted (t : Text) (right : Nat) : Seam where
  shared := t
  old := []
  new := []
  left := 0
  right := right
  ends := Or.inl rfl
  apart := fun _ _ some => by contradiction

def before (t u : Text) : Seam where
  shared := t
  old := []
  new := .newline :: u
  left := 0
  right := 0
  ends := Or.inr ⟨rfl,u,rfl⟩
  apart := fun _ _ some => by contradiction

variable {m : Seam} {c c' d : Cursor} {body : List Stmt} {n : Nat} {t u : Text}

theorem tracksThrough (n' : Nat) (all : m.old = []) (through : Parse.Through (Phrases.upTo n) c body d)
    (settled : m.Quiet ∨ ∀ s, body.getLast? = some s → s.isOpen = false) (pairs : m.Pairs c c')
    (bound : c'.rest.length < n' / 2) :
    ∃ d', Parse.Through (Phrases.upTo n') c' (bodyMoved m.move body) d' ∧ m.Pairs d d' := by
  induction through generalizing c' with
  | none c => exact ⟨c',.none c',pairs⟩
  | @more c d e s body some found rest ih =>
    have shorter := Cursor.aheadLength (Cursor.aheadBlank c')
    rcases blankPaired pairs with ⟨g,u,inside⟩ | ⟨spent,_⟩
    · have agrees := (Phrases.trackedUpTo m n n').statement.agrees _ _ (Or.inl ⟨_,inside⟩) (Nat.lt_of_le_of_lt shorter bound)
      rw [found] at agrees
      rcases agrees with adrift | ⟨d',found',after,atMost⟩
      · exfalso
        rcases adrift with lost | ⟨isOpen,unquiet,ended⟩
        · exact neverLost all _ lost
        -- nothing follows the condition, so it is the last statement
        · cases rest with
          | none =>
            rcases settled with quiet | last
            · exact unquiet quiet
            · exact absurd isOpen (Bool.eq_false_iff.mp (last s rfl))
          | more some' _ _ => exact some' ended
      · have settled' : m.Quiet ∨ ∀ s, body.getLast? = Option.some s → s.isOpen = false := by
          refine settled.imp_right fun last t final => last t ?_
          cases body with
          | nil => contradiction
          | cons s' body => rwa [List.getLast?_cons_cons]
        obtain ⟨e',through',last⟩ := ih settled' after (by omega)
        refine ⟨e',.more ?_ found' through',last⟩
        rw [inside.rest']
        exact List.cons_ne_nil _ _
    · rw [spent,all] at some
      exact absurd rfl some

theorem shiftedThrough (right n' : Nat) (through : Parse.Through (Phrases.upTo n) (.start t) body d)
    (ended : d.skipBlank.rest = []) (bound : t.length < n' / 2) :
    ∃ d', Parse.Through (Phrases.upTo n') ⟨right,t⟩ (bodyMoved (fun p => right + min p (Text.width t)) body) d' ∧
      d'.skipBlank.rest = [] := by
  have start : (shifted t right).Pairs (.start t) ⟨right,t⟩ :=
    Or.inl ⟨t,⟨[],rfl,rfl,rfl⟩,(List.append_nil t).symm,(List.append_nil t).symm,fun some => absurd rfl some⟩
  have quiet : (shifted t right).Quiet := rfl
  obtain ⟨d',again,pairs⟩ := tracksThrough n' rfl through (Or.inl quiet) start bound
  refine ⟨d',again,?_⟩
  rcases blankPaired pairs with ⟨g,v,inside⟩ | ⟨_,spent⟩
  · rw [inside.rest] at ended
    contradiction
  · rw [spent]
    rfl

theorem beforeThrough (n' : Nat) (through : Parse.Through (Phrases.upTo n) (.start t) body d) (ended : d.skipBlank.rest = [])
    (settled : ¬ (Cursor.start u).skipBlank.looksAt "そうでなければ" ∨ ∀ s, body.getLast? = some s → s.isOpen = false)
    (bound : (t ++ .newline :: u).length < n' / 2) :
    ∃ d', Parse.Through (Phrases.upTo n') (.start (t ++ .newline :: u)) (bodyMoved (min · (Text.width t)) body) d' ∧
      d'.skipBlank = Cursor.skipBlank ⟨Text.width t + 1,u⟩ := by
  have start : (before t u).Pairs (.start t) (.start (t ++ .newline :: u)) :=
    Or.inl ⟨t,⟨[],rfl,rfl,rfl⟩,(List.append_nil t).symm,rfl,fun some => absurd rfl some⟩
  have settled' : (before t u).Quiet ∨ ∀ s, body.getLast? = some s → s.isOpen = false := by
    refine settled.imp_left fun quiet => ?_
    change Cursor.dropWord _ (Cursor.skipFrom true false 1 u).rest = none
    rw [skipRest true false 1 0]
    simpa [Cursor.looksAt,Cursor.start,Cursor.skipBlank] using quiet
  obtain ⟨d',again,pairs⟩ := tracksThrough n' rfl through settled' start bound
  have moved : (before t u).move = (min · (Text.width t)) := funext fun p => Nat.zero_add _
  rw [moved] at again
  refine ⟨d',again,?_⟩
  rcases blankPaired pairs with ⟨g,v,inside⟩ | ⟨_,spent⟩
  · rw [inside.rest] at ended
    contradiction
  · rw [spent]
    have width : (before t u).right + Text.width (before t u).shared = Text.width t := Nat.zero_add _
    rw [width]
    rfl

end Seam

namespace Parse

theorem offsetsWithin {source} (faultless : (ofNormal false source).errors = []) :
    bodyMoved (min · (Text.width source)) (ofNormal false source).program.body = (ofNormal false source).program.body := by
  obtain ⟨d,through,ended⟩ := readThrough faultless
  obtain ⟨d',again,ended'⟩ := Seam.shiftedThrough 0 (Phrases.depthFor source.length) through ended
    (by unfold Phrases.depthFor; omega)
  have same := congrArg (fun p => p.program.body) ((throughRead again ended').symm.trans (throughRead through ended))
  simpa only [Nat.zero_add] using same

theorem offsetsShifted {source} (faultless : (ofNormal false source).errors = []) (by' : Nat) :
    bodyMoved (fun p => by' + min p (Text.width source)) (ofNormal false source).program.body =
      (ofNormal false source).program.body.map (Stmt.moved (· + by')) := by
  have twice : bodyMoved (fun p => by' + min p (Text.width source)) (ofNormal false source).program.body =
      bodyMoved (· + by') (bodyMoved (min · (Text.width source)) (ofNormal false source).program.body) := by
    rw [Tree.bodyMovedTwice fun m _ => Tree.movedTwice _ _ m]
    congr 1
    funext p
    exact Nat.add_comm _ _
  rw [twice,offsetsWithin faultless,bodyMovedMap]

theorem ofNormalJoined {s t} (first : (ofNormal false s).errors = []) (second : (ofNormal false t).errors = [])
    (settled : ¬ (Cursor.start t).skipBlank.looksAt "そうでなければ" ∨
      ∀ last, (ofNormal false s).program.body.getLast? = some last → last.isOpen = false) :
    ofNormal false (s ++ .newline :: t) = ⟨s ++ .newline :: t,⟨(ofNormal false s).program.body ++
      (ofNormal false t).program.body.map (Stmt.moved (· + (Text.width s + 1))),Text.width (s ++ .newline :: t)⟩,[],true⟩ := by
  obtain ⟨d,through,ended⟩ := readThrough first
  obtain ⟨e,through',ended'⟩ := readThrough second
  have depth : (s ++ .newline :: t).length < Phrases.depthFor (s ++ .newline :: t).length / 2 := by
    unfold Phrases.depthFor
    omega
  have shorter : t.length < Phrases.depthFor (s ++ .newline :: t).length / 2 := by
    refine Nat.lt_of_le_of_lt ?_ depth
    simp only [List.length_append,List.length_cons]
    omega
  obtain ⟨d₁,before,same⟩ := Seam.beforeThrough _ through ended settled depth
  obtain ⟨e₁,behind,last⟩ := Seam.shiftedThrough (Text.width s + 1) _ through' ended' shorter
  obtain ⟨e₂,behind',last'⟩ := throughBlank same behind
  rw [offsetsWithin first] at before
  rw [offsetsShifted second] at behind'
  exact throughRead (throughTrans before behind') (by rw [last',last])

end Parse

open Parse
open Text (ofString)

/- Texts that are read without a fault are read without a fault if a newline joins them, unless the
second one goes on with an alternative of a condition that ends the first one. -/
theorem joinedTextsAreReadInTurn (a b : Text) (first : (strict a).errors = []) (second : (strict b).errors = [])
    (settled : ¬ ((strict a).program.body.getLast?.any Stmt.isOpen ∧
      (Cursor.start (Text.normalize b)).skipBlank.looksAt "そうでなければ")) :
    (strict (a ++ .newline :: b)).errors = [] ∧ (strict (a ++ .newline :: b)).finished ∧
    (strict (a ++ .newline :: b)).program =
      ⟨(strict a).program.body ++ (strict b).program.body.map (Stmt.moved (· + (Text.width (Text.normalize a) + 1))),
        Text.width (Text.normalize a) + 1 + Text.width (Text.normalize b)⟩ := by
  have settled' : ¬ (Cursor.start (Text.normalize b)).skipBlank.looksAt "そうでなければ" ∨
      ∀ last, (ofNormal false (Text.normalize a)).program.body.getLast? = some last → last.isOpen = false := by
    by_cases alternative : (Cursor.start (Text.normalize b)).skipBlank.looksAt "そうでなければ"
    · refine Or.inr fun last final => Bool.eq_false_iff.mpr fun isOpen => ?_
      exact settled ⟨by rw [strict,final]; exact isOpen,alternative⟩
    · exact Or.inl alternative
  have joined := ofNormalJoined first second settled'
  rw [strict,Text.normalizeJoined,joined]
  refine ⟨rfl,rfl,?_⟩
  rw [Text.widthAppend,Nat.add_assoc]
  rfl

def openCondition : Text := ofString "もし 1 が 2 ならば \x7b \x7d # 終"

def namedAlternative : Text := ofString "# そうでなければ\nx = 3"

theorem conditionIsNotContinuedByAComment :
    (strict openCondition).errors = [] ∧ (strict namedAlternative).errors = [] ∧
    (strict openCondition).program.body.getLast?.any Stmt.isOpen ∧
    (Cursor.start (Text.normalize namedAlternative)).skipBlank.looksAt "そうでなければ" = false ∧
    (strict (openCondition ++ .newline :: namedAlternative)).errors = [] ∧
    (strict (openCondition ++ .newline :: namedAlternative)).finished ∧
    (strict (openCondition ++ .newline :: namedAlternative)).program =
      ⟨(strict openCondition).program.body ++ (strict namedAlternative).program.body.map
        (Stmt.moved (· + (Text.width (Text.normalize openCondition) + 1))),
        Text.width (Text.normalize openCondition) + 1 + Text.width (Text.normalize namedAlternative)⟩ := by
  have first : (strict openCondition).errors = [] := by decide +kernel
  have second : (strict namedAlternative).errors = [] := by decide +kernel
  have comment : (Cursor.start (Text.normalize namedAlternative)).skipBlank.looksAt "そうでなければ" = false := by
    decide +kernel
  exact ⟨first,second,by decide +kernel,comment,joinedTextsAreReadInTurn _ _ first second fun both =>
    Bool.false_ne_true (comment.symm.trans both.2)⟩

end Terakoya
