import Terakoya.Proofs.Fragments
import Terakoya.Proofs.Leaves
import Terakoya.Proofs.LoneNames

/-! The word of an alternative at the beginning of a fragment. Alone such a fragment is read as long as no block comes
behind the word, which is a name then. Behind a condition that has no alternative the word is taken for one, and as no
block comes behind it the joined text is refused. -/
namespace Terakoya

open Reader
open Text (ofString)

/-! A fragment alone -/

def afterSpaces (t : Text) : Text := (Cursor.skipSpaces (.start t)).rest

theorem afterSpacesAt (t : Text) (pos : Nat) : ∃ last, Cursor.skipSpaces ⟨pos,t⟩ = ⟨last,afterSpaces t⟩ := by
  refine ⟨(Cursor.skipSpaces ⟨pos,t⟩).pos,?_⟩
  have same : (Cursor.skipSpaces ⟨pos,t⟩).rest = afterSpaces t := Seam.skipRest false false pos 0 t
  rw [← same]

theorem passesAfterSpaces (t : Text) : Passes spaces () t (afterSpaces t) := by
  intro pos
  obtain ⟨last,same⟩ := afterSpacesAt t pos
  exact ⟨(),last,by rw [spaces,same],rfl⟩

def AtBrace (t : Text) : Prop := Among ['、','\x7b'] (afterSpaces t)

theorem Among.foreign {cs} {p : Char → Bool} {t pos} (among : Among cs t)
    (none : cs.all (!p ·)) : p (Cursor.peek ⟨pos,t⟩) = false := by
  obtain ⟨c,u,rfl,inside⟩ := among
  simpa [Cursor.peek,Glyph.toChar] using List.all_eq_true.mp none c inside

theorem Among.noWord {cs} {w : String} {t} (among : Among cs t)
    (foreign : w.toList.head?.any (!cs.contains ·)) : Cursor.dropWord w.toList t = none := by
  obtain ⟨c,u,rfl,inside⟩ := among
  generalize w.toList = w at foreign
  cases w with
  | nil => contradiction
  | cons x w =>
    have other : x ≠ c := by
      rintro rfl
      simp [inside] at foreign
    simp [Cursor.dropWord,other]

theorem braceHead {t} (brace : AtBrace t) : Among [' ','\t','\r','#','、','\x7b'] t := by
  obtain ⟨k,u,rest,inside⟩ := brace
  rw [afterSpaces,Cursor.skipSpaces,Cursor.start] at rest
  cases t with
  | nil => contradiction
  | cons g t =>
    cases g with
    | stray b =>
      have stays : (Cursor.skipFrom false false 0 (.stray b :: t)).rest = .stray b :: t := rfl
      rw [stays] at rest
      cases rest
    | char x =>
      by_cases blank : x ∈ [' ','\t','\r','#']
      · exact ⟨x,t,rfl,List.mem_append_left ['、','\x7b'] blank⟩
      · rw [Cursor.skipFromSolid 0 ⟨x,t,rfl,blank⟩ Bool.false_ne_true.elim] at rest
        cases rest
        exact ⟨k,u,rfl,List.mem_append_right [' ','\t','\r','#'] inside⟩

theorem wordHead (t : Text) : Among ['そ'] (ofString "そうでなければ" ++ t) := ⟨'そ',_,rfl,List.mem_cons_self⟩

namespace Phrases

variable {nested : Phrases} {t : Text} (brace : AtBrace t)

include brace

theorem passesWordName : Passes identifier "そうでなければ" (ofString "そうでなければ" ++ t) t := by
  intro pos
  have alone : (Cursor.start (ofString "そうでなければ")).readIdentifier = ("そうでなければ",⟨21,[]⟩) := by decide +kernel
  obtain ⟨last,reading⟩ := Cursor.readIdentifierSeam (Cursor.partedAmong (by decide) (braceHead brace))
    (t := ofString "そうでなければ") (by rw [alone]; decide) pos
  rw [alone] at reading
  exact ⟨_,last,by rw [identifier,reading]; rfl,rfl⟩

theorem passesUnindexed (nested : Phrases) : Passes (fuelled nested.indices) [] t t :=
  readsFuelled (readsAfter (passesNot ((braceHead brace).noWord (by decide))) (readsPure rfl))

theorem readsWordPrimary : Reads nested.onePrimary (fun _ => True) (ofString "そうでなければ" ++ t) t := by
  have named : Reads nested.named (fun _ => True) (ofString "そうでなければ" ++ t) t :=
    readsHere fun _ => readsAfter (passesWordName brace) <| readsAfter (passesNot ((braceHead brace).noWord (by decide))) <|
      readsAfter (passesUnindexed brace nested) <| readsHere fun _ => readsPure trivial
  intro pos
  have letter : Cursor.isNameLetter (Cursor.peek ⟨pos,ofString "そうでなければ" ++ t⟩) :=
    (by decide +kernel : Cursor.isNameLetter 'そ')
  obtain ⟨e,last,found,_⟩ := readsElse (missesFunction ((wordHead t).noWord (by decide))) named pos
  exact ⟨e,last,(primaryNamed letter).trans found,trivial⟩

theorem readsWordExpression {primary} (reads : Reads primary (fun _ => True) (ofString "そうでなければ" ++ t) t) :
    Reads (guarded primary) (fun _ => True) (ofString "そうでなければ" ++ t) t := by
  refine readsBind reads fun e _ pos => ⟨e,pos,?_,trivial⟩
  obtain ⟨last,same⟩ := afterSpacesAt t pos
  have quiet : Cursor.isInfixOperator (Cursor.peek ⟨last,afterSpaces t⟩) = false := brace.foreign (by decide)
  simp only [same,quiet]
  rfl

theorem readsWordTarget : Reads nested.target (fun _ => True) (ofString "そうでなければ" ++ t) t := by
  refine readsHere fun _ => readsAfter (passesWordName brace) fun pos => ?_
  have uncalled : Cursor.peek ⟨pos,t⟩ ≠ '(' := by simpa using (braceHead brace).foreign (p := (· = '(')) (by decide)
  simp only [Bind.bind,Reader.bind,peek,if_neg uncalled]
  obtain ⟨is,last,found,_⟩ := passesUnindexed brace nested pos
  exact ⟨_,last,by rw [found]; rfl,trivial⟩

theorem refusesLeftover : Refuses statementEnd t := by
  intro pos
  obtain ⟨last,same⟩ := afterSpacesAt t pos
  have going : Cursor.atStatementEnd ⟨pos,t⟩ = false := by
    obtain ⟨x,v,shape,inside⟩ := brace
    rw [Cursor.atStatementEnd,same,shape]
    simp only [List.mem_cons,List.not_mem_nil,or_false] at inside
    rcases inside with rfl | rfl <;> rfl
  exact ⟨_,if_neg (Bool.eq_false_iff.mp going)⟩

theorem refusesBeforeBrace (k : Nat) : Refuses (upTo (k + 2)).statement (ofString "そうでなければ" ++ t) := by
  have expression : Reads (upTo (k + 1)).expression (fun _ => True) (ofString "そうでなければ" ++ t) t :=
    readsWordExpression brace (readsWordPrimary brace)
  have behind {w : String} {α : Type} (f : Unit → Reader α) (foreign : w.toList.head?.any (! ['、','\x7b'].contains ·)) :
      Misses (spaces >>= fun _ => word w >>= f) t :=
    missesAfter (passesAfterSpaces t) (missesFirst (missesWord (brace.noWord foreign)) f)
  have conditional : Misses (upTo (k + 1)).conditional (ofString "そうでなければ" ++ t) :=
    missesConditional ((wordHead t).noWord (by decide))
  have loop : Misses (upTo (k + 1)).loop (ofString "そうでなければ" ++ t) :=
    missesHere fun _ => missesBind expression fun _ _ => behind _ (by decide)
  have doctest : Misses (upTo (k + 1)).doctest (ofString "そうでなければ" ++ t) := missesDoctest ((wordHead t).avoids (by decide))
  have onTarget : Misses (upTo (k + 1)).onTarget (ofString "そうでなければ" ++ t) :=
    missesBehindTarget (readsWordTarget brace) (passesAfterSpaces t) (noTargetWord (brace.avoids (by decide)))
  have answer : Misses (upTo (k + 1)).answer (ofString "そうでなければ" ++ t) :=
    missesHere fun _ => missesBind expression fun _ _ => behind _ (by decide)
  have leave : Misses leave (ofString "そうでなければ" ++ t) :=
    missesLeave ((wordHead t).noWord (by decide)) ((wordHead t).noWord (by decide))
  have observe : Reads (upTo (k + 1)).observe (fun _ => True) (ofString "そうでなければ" ++ t) t :=
    readsHere fun _ => readsBind expression fun _ _ => readsHere fun _ => readsPure trivial
  have last : Reads (orElse (upTo (k + 1)).observe (firstOf [])) _ (ofString "そうでなければ" ++ t) t := readsOrElse observe
  have alternatives := readsElse conditional <| readsElse loop <| readsElse doctest <| readsElse onTarget <|
    readsElse answer <| readsElse leave last
  exact refusesHere fun _ => refusesBind (readsOrElse alternatives) fun _ _ => refusesFirst (refusesLeftover brace) _

end Phrases

theorem Parse.runRefused {phrases : Phrases} {source : Text} {c : Cursor} {e : SyntaxError}
    (some : c.skipBlank.rest ≠ [])
    (refused : phrases.statement c.skipBlank = .refused e) (n : Nat) : (run phrases false source (n + 1) c).errors = [e] := by
  rw [runGoing some,refused]

theorem Parse.noBraceAlone {source t} (faultless : (ofNormal false source).errors = [])
    (begins : (Cursor.start source).skipBlank.rest = ofString "そうでなければ" ++ t) : ¬ AtBrace t := by
  intro brace
  obtain ⟨e,refused⟩ := Phrases.refusesBeforeBrace brace (2 * source.length) (Cursor.start source).skipBlank.pos
  rw [← begins] at refused
  have some : (Cursor.start source).skipBlank.rest ≠ [] := by
    rw [begins]
    exact List.cons_ne_nil _ _
  have errors : (run _ false source _ _).errors = [e] := runRefused some refused source.length
  exact absurd (errors.symm.trans faultless) (List.cons_ne_nil _ _)

/-! A longer text -/

theorem skipOver (lines comment : Bool) (pos : Nat) (t more : Text)
    (stops : (Cursor.skipFrom lines comment pos t).rest ≠ [] ∨ lines = false ∧ ∃ u, more = .newline :: u) :
    (Cursor.skipFrom lines comment pos (t ++ more)).rest = (Cursor.skipFrom lines comment pos t).rest ++ more := by
  induction t generalizing comment pos with
  | nil =>
    rcases stops with some | ⟨rfl,u,rfl⟩
    · exact absurd rfl some
    · rfl
  | cons g t ih =>
    simp only [List.cons_append,Cursor.skipFrom] at stops ⊢
    split_ifs at stops ⊢
    · exact ih _ _ stops
    · rfl
    · exact ih _ _ stops
    · exact ih _ _ stops
    · rfl

theorem noBraceOnLine {t} (unopened : ¬ AtBrace t) (more : Text) : ¬ AtBrace (t ++ .newline :: more) := by
  rintro ⟨c,u,rest,inside⟩
  have split : afterSpaces (t ++ .newline :: more) = afterSpaces t ++ .newline :: more :=
    skipOver false false 0 t _ (Or.inr ⟨rfl,more,rfl⟩)
  rw [rest] at split
  cases before : afterSpaces t with
  | nil =>
    rw [before] at split
    cases split
    exact absurd inside (by decide)
  | cons g v =>
    rw [before] at split
    cases split
    exact unopened ⟨c,v,before,inside⟩

theorem Phrases.refusesOtherwise (nested : Phrases) {t} (unopened : ¬ AtBrace t) :
    Refuses nested.otherwise (ofString "そうでなければ" ++ t) := by
  have noPause : Cursor.dropWord "、".toList (afterSpaces t) = none := by
    cases found : Cursor.dropWord "、".toList (afterSpaces t) with
    | none => rfl
    | some u => exact absurd ⟨'、',u,Cursor.dropWordSome found,by decide⟩ unopened
  have noBrace : Cursor.dropWord "\x7b".toList (afterSpaces t) = none := by
    cases found : Cursor.dropWord "\x7b".toList (afterSpaces t) with
    | none => rfl
    | some u => exact absurd ⟨'\x7b',u,Cursor.dropWordSome found,by decide⟩ unopened
  have pauses : Passes pause () t (afterSpaces t) :=
    readsAfter (passesAfterSpaces t) (readsAfter (passesNot noPause) (readsPure rfl))
  refine refusesBind (passesWord _) fun _ _ => refusesBind pauses fun _ _ => ?_
  exact refusesFirst (refusesHere fun _ => refusesFirst (refusesMissing noBrace _) _) _

/-! Behind a condition -/

namespace Phrases

open Seam

theorem chosenFirst {α : Type} {rs c d} {a : α} (found : firstOf rs c = .found a d) : ∃ r ∈ rs, r c = .found a d := by
  induction rs with
  | nil => contradiction
  | cons r rs ih =>
    simp only [firstOf,orElse] at found
    split at found
    · obtain ⟨r',there,chosen⟩ := ih found
      exact ⟨r',List.mem_cons_of_mem r there,chosen⟩
    · exact ⟨r,List.mem_cons_self,found⟩

theorem onTargetShut (nested : Phrases) : Yields (fun a => a.isOpen = false) nested.onTarget := by
  have choice {asks : Reader Bool} {r s : Reader Stmt} (yes : Yields (fun a => a.isOpen = false) r)
      (no : Yields (fun a => a.isOpen = false) s) :
      Yields (fun a => a.isOpen = false) (asks >>= fun there => if there then r else s) := by
    refine yieldsThen fun there => ?_
    cases there with
    | true => exact yes
    | false => exact no
  refine yieldsThen fun _ => yieldsThen fun _ => yieldsThen fun _ => choice (yieldsThen fun _ => yieldsPure rfl) <|
    choice (yieldsThen fun _ => yieldsPure rfl) <| choice ?_ <| choice ?_ ?_
  · exact yieldsThen fun _ => yieldsThen fun _ => yieldsThen fun _ => yieldsThen fun _ => yieldsThen fun _ => yieldsPure rfl
  · exact yieldsThen fun _ => yieldsThen fun _ => yieldsThen fun _ => yieldsPure rfl
  · exact yieldsThen fun _ => yieldsThen fun _ => yieldsThen fun _ => yieldsThen fun _ => yieldsThen fun _ =>
      yieldsThen fun _ => yieldsPure rfl

theorem openConditional {nested : Phrases} {c d} {a : Stmt} (isOpen : a.isOpen)
    (found : nested.oneStatement c = .found a d) : nested.conditional c = .found a d := by
  obtain ⟨r,there,chosen⟩ := chosenFirst (oneStatementFound found).1
  have shut {r : Reader Stmt} (yields : Yields (fun a => a.isOpen = false) r) (chosen : r c = .found a d) :
      nested.conditional c = .found a d := absurd isOpen (Bool.eq_false_iff.mp (yields c a d chosen))
  simp only [List.mem_cons,List.not_mem_nil,or_false] at there
  rcases there with rfl | rfl | rfl | rfl | rfl | rfl | rfl
  · exact chosen
  · exact shut (yieldsThen fun _ => yieldsThen fun _ => yieldsThen fun _ => yieldsThen fun _ => yieldsThen fun _ =>
      yieldsThen fun _ => yieldsThen fun _ => yieldsThen fun _ => yieldsThen fun _ => yieldsPure rfl) chosen
  · exact shut (yieldsThen fun _ => yieldsThen fun _ => yieldsThen fun _ => yieldsThen fun _ => yieldsThen fun _ =>
      yieldsThen fun _ => yieldsThen fun _ => yieldsThen fun _ => yieldsThen fun _ => yieldsThen fun _ => yieldsPure rfl) chosen
  · exact shut (onTargetShut nested) chosen
  · exact shut (yieldsThen fun _ => yieldsThen fun _ => yieldsThen fun _ => yieldsThen fun _ => yieldsThen fun _ =>
      yieldsPure rfl) chosen
  · exact shut (yieldsThen fun _ => yieldsThen fun _ => yieldsThen fun _ => yieldsPure rfl) chosen
  · exact shut (yieldsThen fun _ => yieldsThen fun _ => yieldsThen fun _ => yieldsPure rfl) chosen

variable {m : Seam} {p s k : Nat} {nested nested' : Phrases} (tracked : Tracked m p s nested nested')
  (expressions : k ≤ p) (blocks : k ≤ s + 1)

include tracked expressions blocks

theorem refusesHanging {c c' d a} (all : m.old = []) (found : nested.conditional c = .found a d)
    (isOpen : a.isOpen) (ended : d.skipBlank.rest = [])
    (refuses : Refuses nested'.otherwise (Cursor.skipFrom true false 0 m.new).rest) (pairs : m.Pairs c c')
    (bound : c'.rest.length < k) : ∃ e, nested'.conditional c' = .refused e := by
  rw [conditionalSplit] at found ⊢
  obtain ⟨q,x,begun,found⟩ := foundBind found
  obtain ⟨start,left,right,cmp,yes⟩ := q
  obtain ⟨no,y,undecided,found⟩ := foundBind found
  obtain ⟨stop,_,⟨⟩,⟨⟩⟩ := foundBind found
  obtain rfl : no = none := by
    cases no with
    | none => rfl
    | some b => contradiction
  -- no alternative was found, and nothing was read in looking for it
  obtain rfl : x = d := by
    rw [alternativeFrom] at undecided
    split at undecided
    · cases undecided
      rfl
    · have some : Yields (fun no => no.isSome) nested.otherwise :=
        yieldsThen fun _ => yieldsThen fun _ => yieldsThen fun _ => yieldsPure rfl
      exact absurd (some _ _ _ undecided) Bool.false_ne_true
  have agrees := (tracksCondition tracked expressions blocks).agrees c c' pairs bound
  rw [begun] at agrees
  rcases agrees with lost | ⟨x',begun',after,_⟩
  · exact absurd lost (neverLost all _)
  · rcases blankPaired after with ⟨g,u,inside⟩ | ⟨_,spent⟩
    · rw [inside.rest] at ended
      contradiction
    · obtain ⟨e,refused⟩ := refuses x'.skipBlank.pos
      have same : x'.skipBlank.rest = (Cursor.skipFrom true false 0 m.new).rest := by
        rw [spent,skipRest true false _ 0]
      rw [← same] at refused
      have refused' : nested'.alternative x' = .refused e := by rw [alternativeFrom,refused]
      refine ⟨e,?_⟩
      simp only [Bind.bind,Reader.bind,begun',decided,refused']

omit tracked expressions blocks in
theorem refusedConditional {c e} (refused : nested.conditional c = .refused e) : nested.oneStatement c = .refused e := by
  simp only [oneStatement,Bind.bind,Reader.bind,here,orElse,firstOf,refused]

end Phrases

namespace Seam

variable {m : Seam} {c c' d : Cursor} {body : List Stmt} {n : Nat}

theorem hangingRun (n' : Nat) (all : m.old = []) (through : Parse.Through (Phrases.upTo n) c body d)
    (ended : d.skipBlank.rest = []) (isOpen : body.getLast?.any Stmt.isOpen)
    (refuses : ∀ k, Refuses (Phrases.upTo k).otherwise (Cursor.skipFrom true false 0 m.new).rest) (pairs : m.Pairs c c')
    (bound : c'.rest.length < n' / 2) {fuel : Nat} (enough : body.length ≤ fuel) (source : Text) :
    (Parse.run (Phrases.upTo n') false source fuel c').errors ≠ [] := by
  induction through generalizing c' fuel with
  | none c => contradiction
  | @more c d e s body some found rest ih =>
    obtain ⟨fuel,rfl⟩ : ∃ j, fuel = j + 1 := ⟨fuel - 1,by simp at enough; omega⟩
    have shorter := Cursor.aheadLength (Cursor.aheadBlank c')
    rcases blankPaired pairs with ⟨g,u,inside⟩ | ⟨spent,_⟩
    · have some' : c'.skipBlank.rest ≠ [] := by
        rw [inside.rest']
        exact List.cons_ne_nil _ _
      cases rest with
      | none =>
        obtain ⟨j,rfl⟩ : ∃ j, n = j + 1 := by
          cases n with
          | zero => contradiction
          | succ j => exact ⟨j,rfl⟩
        obtain ⟨j',rfl⟩ : ∃ j', n' = j' + 1 := ⟨n' - 1,by omega⟩
        have isOpen : s.isOpen := isOpen
        obtain ⟨e,refused⟩ :=
          Phrases.refusesHanging (k := (j' + 1) / 2) (Phrases.trackedUpTo m j j') (Nat.le_refl _) (by omega)
          all (Phrases.openConditional isOpen found) isOpen ended (refuses j') (Or.inl ⟨_,inside⟩) (by omega)
        have statement : (Phrases.upTo (j' + 1)).statement c'.skipBlank = .refused e := Phrases.refusedConditional refused
        rw [Parse.runRefused some' statement]
        exact List.cons_ne_nil _ _
      | more others found' rest' =>
        have agrees := (Phrases.trackedUpTo m n n').statement.agrees _ _ (Or.inl ⟨_,inside⟩) (Nat.lt_of_le_of_lt shorter bound)
        rw [found] at agrees
        rcases agrees with (lost | ⟨_,_,nothing⟩) | ⟨d',again,after,atMost⟩
        · exact absurd lost (neverLost all _)
        · exact absurd nothing others
        · rw [Parse.runGoing some',again]
          rw [List.getLast?_cons_cons] at isOpen
          exact ih ended isOpen after (by omega) (Nat.le_of_succ_le_succ enough)
    · rw [spent,all] at some
      exact absurd rfl some

end Seam

namespace Parse

theorem hangingRefused {s v t} (first : (ofNormal false s).errors = [])
    (isOpen : (ofNormal false s).program.body.getLast?.any Stmt.isOpen)
    (begins : (Cursor.start v).skipBlank.rest = ofString "そうでなければ" ++ t) (unopened : ¬ AtBrace t) :
    (ofNormal false (s ++ .newline :: v)).errors ≠ [] := by
  obtain ⟨d,through,ended⟩ := readThrough first
  have depth : (s ++ .newline :: v).length < Phrases.depthFor (s ++ .newline :: v).length / 2 := by
    unfold Phrases.depthFor
    omega
  have start : (Seam.before s v).Pairs (.start s) (.start (s ++ .newline :: v)) :=
    Or.inl ⟨s,⟨[],rfl,rfl,rfl⟩,(List.append_nil s).symm,rfl,fun some => absurd rfl some⟩
  have behind : (Cursor.skipFrom true false 0 (Seam.before s v).new).rest = ofString "そうでなければ" ++ t := by
    rw [← begins]
    exact Seam.skipRest true false 1 0 v
  have eats (base : Cursor) : Reader.Eats base 0 (Phrases.upTo (Phrases.depthFor s.length)).statement :=
    Reader.eatsMono (Nat.zero_le _) ((Phrases.sizedUpTo _).statement base)
  have enough : (ofNormal false s).program.body.length ≤ (s ++ .newline :: v).length + 1 := by
    have short : d.rest.length + _ ≤ s.length := (throughAhead eats through).2
    rw [List.length_append]
    omega
  exact Seam.hangingRun _ rfl through ended isOpen (fun k => behind ▸ Phrases.refusesOtherwise (Phrases.upTo k) unopened)
    start depth enough _

end Parse

/-! Fragments -/

theorem settledSnoc {ts t} (settled : Settled ts) (last : alternates t → ¬ hanging ts) : Settled (ts ++ [t]) := by
  intro i inside begins
  rw [List.length_append] at inside
  by_cases low : i < ts.length
  · rw [List.take_append_of_le_length (Nat.le_of_lt low)]
    exact settled i low (by simpa [List.getElem_append_left low] using begins)
  · obtain rfl : i = ts.length := by
      simp only [List.length_cons,List.length_nil] at inside
      omega
    rw [List.take_left]
    exact last (by simpa using begins)

theorem unsettledSplit {ts} (unsettled : ¬ Settled ts) :
    ∃ us t rest, ts = us ++ t :: rest ∧ Settled us ∧ alternates t ∧ hanging us := by
  induction ts using List.reverseRecOn with
  | nil => exact absurd (fun i inside => absurd inside (Nat.not_lt_zero i)) unsettled
  | append_singleton ts t ih =>
    by_cases settled : Settled ts
    · by_cases begins : alternates t
      · by_cases hangs : hanging ts
        · exact ⟨ts,t,[],rfl,settled,begins,hangs⟩
        · exact absurd (settledSnoc settled fun _ => hangs) unsettled
      · exact absurd (settledSnoc settled fun begins' => absurd begins' begins) unsettled
    · obtain ⟨us,u,rest,rfl,first⟩ := ih settled
      exact ⟨us,u,rest ++ [t],by rw [List.append_assoc,List.cons_append],first⟩

theorem alternatesWithoutBrace {t} (faultless : (Parse.strict t).errors = []) (begins : alternates t) (rest : List Text) :
    ∃ u, (Cursor.start (Text.normalize (List.intercalate [.newline] (t :: rest)))).skipBlank.rest =
        ofString "そうでなければ" ++ u ∧
      ¬ AtBrace u := by
  obtain ⟨u,found⟩ := Option.isSome_iff_exists.mp begins
  have split : (Cursor.start (Text.normalize t)).skipBlank.rest = ofString "そうでなければ" ++ u := Cursor.dropWordSome found
  have unopened := Parse.noBraceAlone faultless split
  cases rest with
  | nil =>
    refine ⟨u,?_,unopened⟩
    rw [← split]
    simp [List.intercalate]
  | cons v rest =>
    refine ⟨u ++ .newline :: Text.normalize (List.intercalate [.newline] (v :: rest)),?_,noBraceOnLine unopened _⟩
    rw [joinedCons,Text.normalizeJoined,← List.append_assoc,← split]
    refine skipOver true false 0 _ _ (Or.inl fun none => ?_)
    rw [Cursor.skipBlank,Cursor.start,none] at split
    contradiction

theorem unsettledRefused {ts} (faultless : ∀ t ∈ ts, (Parse.strict t).errors = [])
    (unsettled : ¬ Settled ts) : (Parse.strict (List.intercalate [.newline] ts)).errors ≠ [] := by
  obtain ⟨us,t,rest,rfl,settled,begins,hangs⟩ := unsettledSplit unsettled
  have some : us ≠ [] := by
    rintro rfl
    contradiction
  obtain ⟨first,bodies,parts,body⟩ := partsJoined (fun u inside => faultless u (List.mem_append_left _ inside)) settled
  have readable := faultless t (List.mem_append_right us List.mem_cons_self)
  obtain ⟨u,split,unopened⟩ := alternatesWithoutBrace readable begins rest
  rw [← partsHanging parts,← body] at hangs
  rw [joinedAppend some (List.cons_ne_nil t rest),Parse.strict,Text.normalizeJoined]
  exact Parse.hangingRefused first hangs split unopened

end Terakoya
