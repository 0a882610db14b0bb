import Mathlib.Data.List.Infix
import Terakoya.Proofs.Targets
import Terakoya.Proofs.WrittenPrograms

/-! A program that is nothing but a name. The name is looked at as a condition, a loop, a target and an
answer before it is a variable on its own, and most of these read it as an expression first. It is a
variable in the end, unless it holds the whole head of a function: from there on a block has to come, and
the name is refused. -/
namespace Terakoya

open Text (ofString)

def heads (t : Text) : Bool :=
  (Cursor.dropWord "入力".toList t).any fun rest => decide (ofString "に対し" <:+: rest)

def announcesFunction (name : Text) : Bool := heads name || (Cursor.dropWord "もし".toList name).any heads

namespace Cursor

inductive Unbroken : (first : Bool) → Text → Prop where
  | digits {first : Bool} {t : Text} (all : ∀ g ∈ t, isDigit g) : Unbroken first t
  | letter {first : Bool} {g : Glyph} {t : Text} (letter : isNameLetter g.toChar)
      (free : atParticle first (g :: t) = false) (rest : Unbroken false t) : Unbroken first (g :: t)

theorem digitsNoWord {t} (all : ∀ g ∈ t, isDigit g) {w : String}
    (begins : w.toList.head?.any (fun c => !isDigit (.char c))) : dropWord w.toList t = none := by
  generalize w.toList = w at begins
  cases w with
  | nil => simp at begins
  | cons c w =>
    cases t with
    | nil => rfl
    | cons g t =>
      have digit := all g List.mem_cons_self
      have other : c ≠ g.toChar := by
        rintro rfl
        rw [charOfDigit digit] at digit
        simp [digit] at begins
      rw [charOfDigit digit]
      simp [dropWord,other]

theorem digitsWhole {t} (all : ∀ g ∈ t, isDigit g) (pos : Nat) :
    ∃ last, readWhile isDigit pos t = (t.map Glyph.toChar,⟨last,[]⟩) := by
  induction t generalizing pos with
  | nil => exact ⟨pos,rfl⟩
  | cons g t ih =>
    obtain ⟨last,later⟩ := ih (fun h inside => all h (List.mem_cons_of_mem g inside)) (pos + g.width)
    exact ⟨last,by simp [readWhile,all g List.mem_cons_self,later]⟩

namespace Unbroken

variable {first : Bool} {t u : Text}

theorem wordy (unbroken : Unbroken first t) : ∀ g ∈ t, isWordy g.toChar := by
  induction unbroken with
  | digits all => exact fun g inside => wordyDigit (all g inside)
  | letter letter _ _ ih => exact List.forall_mem_cons.mpr ⟨wordyLetter letter,ih⟩

theorem begin (unbroken : Unbroken false t) : Unbroken true t := by
  cases unbroken with
  | digits all => exact .digits all
  | letter letter free rest =>
    refine .letter letter ?_ rest
    simp only [atParticle,List.any_eq_false,Bool.and_eq_true,not_and] at free ⊢
    exact fun p particle _ => free p particle rfl

theorem tail {g} (unbroken : Unbroken first (g :: t)) : Unbroken false t := by
  cases unbroken with
  | digits all => exact .digits fun h inside => all h (List.mem_cons_of_mem g inside)
  | letter _ _ rest => exact rest

theorem after (s : Text) (unbroken : Unbroken false (s ++ t)) : Unbroken false t := by
  induction s with
  | nil => exact unbroken
  | cons g s ih => exact ih unbroken.tail

theorem letters (unbroken : Unbroken first t) (pos : Nat) :
    ∃ run mid digits, readLetters first pos t = (run,⟨mid,digits⟩) ∧ t = run.map .char ++ digits ∧
      ∀ g ∈ digits, isDigit g := by
  induction unbroken generalizing pos with
  | @digits first t all =>
    refine ⟨[],pos,t,?_,rfl,all⟩
    cases t with
    | nil => rfl
    | cons g t =>
      have digit := all g List.mem_cons_self
      have none : isNameLetter g.toChar = false := digitNoLetter (charOfDigit digit ▸ digit)
      simp [readLetters,none]
  | @letter first g t letter free rest ih =>
    obtain ⟨run,mid,digits,reading,whole,all⟩ := ih (pos + g.width)
    refine ⟨g.toChar :: run,mid,digits,?_,?_,all⟩
    · simp [readLetters,letter,free,reading]
    · rw [List.map_cons,List.cons_append,← whole,← charOfLetter letter]

theorem particleFree (unbroken : Unbroken first t) {p} (particle : p ∈ particles)
    (long : first = true → p.length ≠ 1) (begins : p.toList.head?.any (fun c => !isDigit (.char c))) : dropWord p.toList t = none := by
  cases unbroken with
  | digits all => exact digitsNoWord all begins
  | letter _ free _ =>
    have none := List.any_eq_false.mp free p particle
    cases first with
    | false => simpa using none
    | true => simpa [long rfl] using none

theorem goesOn {g} (unbroken : Unbroken false (g :: t))
    (stop : dropWord "に対し".toList (g :: t) = none) : endsBinding (g :: t) = false := by
  have wordy := unbroken.wordy g List.mem_cons_self
  have solid : (Text.isSpace g.toChar || bindingPunctuation.contains g.toChar) = false := by
    rw [Bool.or_eq_false_iff]
    refine ⟨Bool.eq_false_iff.mpr fun space => ?_,Bool.eq_false_iff.mpr fun punctuation => ?_⟩
    · obtain ⟨letter,digit⟩ := spaceNoName space
      rw [isWordy,letter,Bool.false_or] at wordy
      exact absurd wordy (Bool.eq_false_iff.mp digit)
    · exact wordyOutside wordy (by decide) (List.contains_iff_mem.mp punctuation)
  have free : ∀ w ∈ bindingStops, dropWord w.toList (g :: t) = none := by
    have others : ∀ w ∈ bindingStops, w = "に対し" ∨ ∃ p ∈ particles, p.toList <+: w.toList ∧
        p.toList.head?.any (fun c => !isDigit (.char c)) := by decide
    intro w inside
    rcases others w inside with rfl | ⟨p,particle,⟨v,begins⟩,letters⟩
    · exact stop
    · rw [← begins,dropWordAppend,unbroken.particleFree particle (by simp) letters]
      rfl
  simp only [endsBinding,solid,Bool.false_or,List.any_eq_false]
  exact fun w inside => by simp [free w inside]

theorem identifier {g} (unbroken : Unbroken true (g :: t)) (letter : isNameLetter g.toChar) (pos : Nat) :
    ∃ last, readIdentifier ⟨pos,g :: t⟩ = (Text.toString (g :: t),⟨last,[]⟩) := by
  obtain ⟨run,mid,digits,reading,whole,all⟩ := unbroken.letters pos
  have some : run ≠ [] := by
    rintro rfl
    rw [List.map_nil,List.nil_append] at whole
    have digit := all g (whole ▸ List.mem_cons_self)
    rw [digitNoLetter (charOfDigit digit ▸ digit)] at letter
    contradiction
  obtain ⟨last,digitsRead⟩ := digitsWhole all mid
  refine ⟨last,?_⟩
  have spelled : Text.toString (g :: t) = String.ofList (run ++ digits.map Glyph.toChar) := by
    rw [whole,Text.toString,List.map_append,List.map_map]
    simp [Function.comp_def,Glyph.toChar]
  rw [Seam.identifierParts,reading,if_neg some,spelled]
  simp only [digitsRead]

theorem binding (unbroken : Unbroken false t) :
    (¬ ofString "に対し" <:+: t ∧ ∀ pos, ∃ last, readBinding pos t = (t,⟨last,[]⟩)) ∨
    ∃ p q, t = p ++ (ofString "に対し" ++ q) ∧
      ∀ pos, ∃ last, readBinding pos t = (p,⟨last,ofString "に対し" ++ q⟩) := by
  induction t with
  | nil => exact Or.inl ⟨by decide,fun pos => ⟨pos,rfl⟩⟩
  | cons g t ih =>
    by_cases stop : (dropWord "に対し".toList (g :: t)).isSome
    · obtain ⟨q,found⟩ := Option.isSome_iff_exists.mp stop
      have ends : endsBinding (g :: t) := by
        simp only [endsBinding,bindingStops,List.any_cons,stop,Bool.true_or,Bool.or_true]
      have split : g :: t = ofString "に対し" ++ q := dropWordSome found
      refine Or.inr ⟨[],q,split,fun pos => ⟨pos,?_⟩⟩
      rw [← split]
      simp [readBinding,ends]
    · have goes : endsBinding (g :: t) = false := unbroken.goesOn (by simpa using stop)
      rcases ih unbroken.tail with ⟨none,reading⟩ | ⟨p,q,whole,reading⟩
      · refine Or.inl ⟨fun inside => ?_,fun pos => ?_⟩
        · rcases List.infix_cons_iff.mp inside with first | later
          · exact stop ((Seam.dropWordPrefix _ _).mpr first)
          · exact none later
        · obtain ⟨last,later⟩ := reading (pos + g.width)
          exact ⟨last,by simp [readBinding,goes,later]⟩
      · refine Or.inr ⟨g :: p,q,by rw [whole]; rfl,fun pos => ?_⟩
        obtain ⟨last,later⟩ := reading (pos + g.width)
        exact ⟨last,by simp [readBinding,goes,later]⟩

end Unbroken

theorem unbrokenOfLetters (first : Bool) (pos : Nat) (t : Text)
    (all : ∀ g ∈ (readLetters first pos t).2.rest, isDigit g) : Unbroken first t := by
  induction t generalizing first pos with
  | nil => exact .digits (by simp)
  | cons g t ih =>
    simp only [readLetters] at all
    split at all
    · rename_i letter
      obtain ⟨here,free⟩ := Bool.and_eq_true_iff.mp letter
      exact .letter here (by simpa using free) (ih _ _ all)
    · exact .digits all

theorem unbrokenName {name} (named : isIdentifier (ofString name)) :
    ∃ g t, ofString name = g :: t ∧ isNameLetter g.toChar ∧ Unbroken true (g :: t) := by
  obtain ⟨some,last,reading⟩ := identifierRead named
  obtain ⟨c,u,head,letter,_⟩ := readIdentifierHead (t := ofString name) (by rw [reading]; exact some)
  refine ⟨.char c,u,head,letter,head ▸ unbrokenOfLetters true 0 _ ?_⟩
  rw [Seam.identifierParts] at reading
  split at reading
  · exact absurd (Prod.ext_iff.mp reading).1.symm some
  · obtain ⟨whole,all⟩ := readDigitsSplit (readLetters true 0 (ofString name)).2.pos
      (readLetters true 0 (ofString name)).2.rest
    have ended : (readWhile isDigit (readLetters true 0 (ofString name)).2.pos
      (readLetters true 0 (ofString name)).2.rest).2.rest = [] := congrArg Cursor.rest (Prod.ext_iff.mp reading).2
    rw [ended,List.append_nil] at whole
    rw [whole]
    intro g inside
    obtain ⟨d,digit,rfl⟩ := List.mem_map.mp inside
    exact all d digit

theorem wordyNoWord {t} (wordy : ∀ g ∈ t, isWordy g.toChar) {w : String}
    (foreign : w.toList.head?.any (!isWordy ·)) : dropWord w.toList t = none := by
  generalize w.toList = w at foreign
  cases w with
  | nil => simp at foreign
  | cons c w =>
    cases t with
    | nil => rfl
    | cons g t =>
      cases g with
      | stray b => rfl
      | char d =>
        have other : c ≠ d := by
          rintro rfl
          have here : isWordy c := wordy _ List.mem_cons_self
          simp [here] at foreign
        simp [dropWord,other]

end Cursor

namespace Reader

variable {α β : Type} {P : α → Prop} {s t : Text}

def Refuses (r : Reader α) (s : Text) : Prop := ∀ pos, ∃ e, r ⟨pos,s⟩ = .refused e

theorem refusesFirst {r} (refuses : Refuses r s) (f : α → Reader β) : Refuses (r >>= f) s := by
  intro pos
  obtain ⟨e,refused⟩ := refuses pos
  exact ⟨e,by simp only [Bind.bind,Reader.bind,refused]⟩

theorem refusesBind {r} {f : α → Reader β} (first : Reads r P s t)
    (next : ∀ a, P a → Refuses (f a) t) : Refuses (r >>= f) s := by
  intro pos
  obtain ⟨a,mid,found,holds⟩ := first pos
  obtain ⟨e,refused⟩ := next a holds mid
  exact ⟨e,by simp only [Bind.bind,Reader.bind,found,refused]⟩

theorem refusesHere {f : Nat → Reader β} (next : ∀ n, Refuses (f n) s) : Refuses (here >>= f) s :=
  fun pos => next pos pos

theorem refusesOrElse {r r' : Reader α} (refuses : Refuses r s) : Refuses (orElse r r') s := by
  intro pos
  obtain ⟨e,refused⟩ := refuses pos
  exact ⟨e,by simp only [orElse,refused]⟩

theorem refusesElse {r r' : Reader α} (misses : Misses r s) (refuses : Refuses r' s) :
    Refuses (orElse r r') s := by
  intro pos
  obtain ⟨reached,absent⟩ := misses pos
  obtain ⟨e,refused⟩ := refuses pos
  exact ⟨e,by simp only [orElse,absent,refused]⟩

theorem refusesMissing {w} (missing : Cursor.dropWord w.toList t = none) (what : Expectation) :
    Refuses (require what (word w)) t :=
  fun pos => ⟨⟨pos,.missing what (describeNext ⟨pos,t⟩)⟩,by
    simp only [require,word,consumeNone missing,expecting]⟩

theorem passesWordySpaces (wordy : ∀ g ∈ t, Cursor.isWordy g.toChar) : Passes spaces () t t := by
  cases t with
  | nil => exact fun pos => ⟨(),pos,rfl,rfl⟩
  | cons g t =>
    cases g with
    | stray b => exact absurd (wordy _ List.mem_cons_self) (by decide : ¬ Cursor.isWordy '�' = true)
    | char c =>
      exact passesNoSpaces ⟨c,t,rfl,Cursor.wordyOutside (wordy _ List.mem_cons_self) (by decide)⟩

theorem passesWordyComma (wordy : ∀ g ∈ t, Cursor.isWordy g.toChar) :
    Passes (tryWords [",","、"]) false t t := by
  intro pos
  have comma := Cursor.wordyNoWord wordy (w := ",") (by decide)
  have pause := Cursor.wordyNoWord wordy (w := "、") (by decide)
  refine ⟨false,pos,?_,rfl⟩
  simp only [tryWords,Cursor.consumeAny?,consumeNone comma,consumeNone pause]

end Reader

namespace Phrases

open Reader

variable {nested : Phrases} {t : Text}

theorem readsParameter {p u} (reading : ∀ pos, ∃ last, Cursor.readBinding pos t = (p,⟨last,u⟩))
    (some : p ≠ []) (wordy : ∀ g ∈ u, Cursor.isWordy g.toChar) : Reads (fuelled parameters) (fun _ => True) t u := by
  have name : Passes parameterName p t u := by
    intro pos
    obtain ⟨last,read⟩ := reading pos
    refine ⟨p,last,?_,rfl⟩
    simp only [parameterName,Bind.bind,Reader.bind,Cursor.readName,read,if_neg some]
    rfl
  refine readsFuelled ?_
  rw [parametersRound]
  exact readsHere fun _ => readsAfter name <| readsAfter (passesWordySpaces wordy) <|
    readsAfter (passesWordyComma wordy) (readsPure trivial)

theorem listedName (unbroken : Cursor.Unbroken false t) :
    (¬ ofString "に対し" <:+: t ∧ Misses listed t) ∨
    (ofString "に対し" <:+: t ∧ ∃ q, (∀ g ∈ q, Cursor.isWordy g.toChar) ∧ Reads listed (fun _ => True) t q) := by
  have wordy := unbroken.wordy
  cases looks : Cursor.dropWord "に対し".toList t with
  | some q =>
    have split : t = ofString "に対し" ++ q := Cursor.dropWordSome looks
    refine Or.inr ⟨⟨[],q,split.symm⟩,q,fun g inside => wordy g (split ▸ List.mem_append_right _ inside),fun pos => ?_⟩
    have reads : Reads (listing true) (fun _ => True) (ofString "に対し" ++ q) q :=
      readsAfter (readsPure rfl) (readsAfter (passesWord "に対し") (readsPure trivial))
    simp only [listed,Cursor.looksAt,looks]
    rw [split]
    exact reads pos
  | none =>
    have listing : ∀ pos, listed ⟨pos,t⟩ = listing false ⟨pos,t⟩ := by
      intro pos
      simp only [listed,Cursor.looksAt,looks]
      rfl
    rcases unbroken.binding with ⟨none,reading⟩ | ⟨p,q,whole,reading⟩
    · refine Or.inl ⟨none,fun pos => ?_⟩
      rw [listing]
      by_cases empty : t = []
      · subst empty
        exact ⟨_,rfl⟩
      · exact missesBind (readsParameter reading empty (by simp)) (fun _ _ => missesFirst (missesWord rfl) _) pos
    · have some : p ≠ [] := by
        rintro rfl
        rw [whole,List.nil_append,ofString,Cursor.dropWordSame] at looks
        contradiction
      have rest : ∀ g ∈ ofString "に対し" ++ q, Cursor.isWordy g.toChar := fun g inside =>
        wordy g (whole ▸ List.mem_append_right _ inside)
      have reads : Reads (Phrases.listing false) (fun _ => True) t q :=
        readsBind (readsParameter reading some rest) fun _ _ => readsAfter (passesWord "に対し") (readsPure trivial)
      refine Or.inr ⟨⟨p,q,by rw [whole,List.append_assoc]⟩,q,fun g inside => rest g (List.mem_append_right _ inside),?_⟩
      exact fun pos => listing pos ▸ reads pos

theorem refusesBehind (wordy : ∀ g ∈ t, Cursor.isWordy g.toChar) (start : Nat) (ps : List (Nat × Text)) :
    Refuses (nested.behind start ps) t := by
  have block {u : Text} (wordy : ∀ g ∈ u, Cursor.isWordy g.toChar) (f : Block → Reader Expr) :
      Refuses (pause >>= fun _ => nested.block >>= f) u := by
    have pauses : Passes pause () u u :=
      readsAfter (passesWordySpaces wordy) (readsAfter (passesNot (Cursor.wordyNoWord wordy (by decide))) (readsPure rfl))
    refine refusesBind pauses fun _ _ => refusesFirst (refusesHere fun _ => refusesFirst ?_ _) f
    exact refusesMissing (Cursor.wordyNoWord wordy (by decide)) _
  have optional : ∃ b u, Passes (tryWord "て") b t u ∧ ∀ g ∈ u, Cursor.isWordy g.toChar := by
    cases found : Cursor.dropWord "て".toList t with
    | none => exact ⟨false,t,passesNot found,wordy⟩
    | some u =>
      have split : t = ofString "て" ++ u := Cursor.dropWordSome found
      exact ⟨true,u,split ▸ passesTry "て",fun g inside => wordy g (split ▸ List.mem_append_right _ inside)⟩
  obtain ⟨b,u,passes,wordy'⟩ := optional
  have checked : Refuses (checkParameters ps) t ∨ Passes (checkParameters ps) () t t := by
    unfold checkParameters
    split
    · exact Or.inl fun _ => ⟨_,rfl⟩
    · exact Or.inl fun _ => ⟨_,rfl⟩
    · exact Or.inr (readsPure rfl)
  rcases checked with refused | checked
  · exact refusesFirst refused _
  · exact refusesBind checked fun _ _ => refusesBind passes fun _ _ => block wordy' _

theorem functionName (nested : Phrases) (unbroken : Cursor.Unbroken true t) :
    (heads t = false ∧ Misses nested.function t) ∨ (heads t = true ∧ Refuses nested.function t) := by
  cases found : Cursor.dropWord "入力".toList t with
  | none => exact Or.inl ⟨by rw [heads,found]; rfl,missesFunction found⟩
  | some r =>
    obtain rfl : t = ofString "入力" ++ r := Cursor.dropWordSome found
    have rest : Cursor.Unbroken false r := unbroken.tail.tail
    have same : heads (ofString "入力" ++ r) = decide (ofString "に対し" <:+: r) := by rw [heads,found]; rfl
    have opens : Passes (word "入力") () (ofString "入力" ++ r) r := passesWord "入力"
    rw [same,functionSplit,headerSplit]
    rcases listedName rest with ⟨none,misses⟩ | ⟨some,q,wordy,reads⟩
    · refine Or.inl ⟨by simpa using none,missesHere fun _ => missesFirst ?_ _⟩
      exact missesAfter opens (missesAfter (passesWordySpaces rest.wordy) misses)
    · refine Or.inr ⟨by simpa using some,refusesHere fun start => ?_⟩
      refine refusesBind (readsAfter opens (readsAfter (passesWordySpaces rest.wordy) reads)) fun ps _ => ?_
      exact refusesBehind wordy start ps

def IsVariable (name : String) (e : Expr) : Prop := ∃ span, e = .var (.mk span name [])

theorem passesNoIndices : Passes (fuelled nested.indices) [] [] [] :=
  readsFuelled (readsNot (readsPure rfl))

theorem passesWhole {g} (letter : Cursor.isNameLetter g.toChar) (unbroken : Cursor.Unbroken true (g :: t)) :
    Passes identifier (Text.toString (g :: t)) (g :: t) [] := by
  intro pos
  obtain ⟨last,reading⟩ := unbroken.identifier letter pos
  have some : Text.toString (g :: t) ≠ "" := fun empty => by
    have none := congrArg String.toList empty
    simp [Text.toString] at none
  refine ⟨_,last,?_,rfl⟩
  simp only [identifier,reading]

theorem primaryName (nested : Phrases) {g} (letter : Cursor.isNameLetter g.toChar) (unbroken : Cursor.Unbroken true (g :: t)) :
    (heads (g :: t) = false ∧ Reads nested.onePrimary (IsVariable (Text.toString (g :: t))) (g :: t) []) ∨
    (heads (g :: t) = true ∧ Refuses nested.onePrimary (g :: t)) := by
  have named : Reads nested.named (IsVariable (Text.toString (g :: t))) (g :: t) [] :=
    readsHere fun _ => readsAfter (passesWhole letter unbroken) <| readsNot <|
      readsAfter passesNoIndices <| readsHere fun _ => readsPure ⟨_,rfl⟩
  have split (pos : Nat) : nested.onePrimary ⟨pos,g :: t⟩ = orElse nested.function nested.named ⟨pos,g :: t⟩ :=
    primaryNamed letter
  rcases functionName nested unbroken with ⟨none,misses⟩ | ⟨some,refuses⟩
  · exact Or.inl ⟨none,fun pos => split pos ▸ readsElse misses named pos⟩
  · exact Or.inr ⟨some,fun pos => split pos ▸ refusesOrElse refuses pos⟩

theorem digitsPrimary (all : ∀ g ∈ t, Cursor.isDigit g) (some : t ≠ []) :
    Reads nested.onePrimary (fun _ => True) t [] := by
  obtain ⟨g,u,rfl⟩ := List.exists_cons_of_ne_nil some
  have integer : Reads integer (fun _ => True) (g :: u) [] := by
    refine readsHere fun start => readsBind (P := fun _ => True) (t := []) (fun pos => ?_) fun digits _ => ?_
    · obtain ⟨last,reading⟩ := Cursor.digitsWhole all pos
      exact ⟨String.ofList ((g :: u).map Glyph.toChar),last,by simp only [Cursor.readDigits,reading],trivial⟩
    · exact fun pos => ⟨_,_,rfl,trivial⟩
  intro pos
  have digit : ('0' ≤ g.toChar && g.toChar ≤ '9') = true := all g List.mem_cons_self
  simp only [onePrimary,Bind.bind,Reader.bind,peek,Cursor.peek,digit,if_true]
  exact integer pos

theorem primaryRest (nested : Phrases) (unbroken : Cursor.Unbroken true t) :
    (heads t = false ∧ (Misses nested.onePrimary t ∨ Reads nested.onePrimary (fun _ => True) t [])) ∨
    (heads t = true ∧ Refuses nested.onePrimary t) := by
  cases t with
  | nil => exact Or.inl ⟨rfl,Or.inl fun pos => ⟨⟨pos,[]⟩,rfl⟩⟩
  | cons g t =>
    cases unbroken with
    | digits all =>
      have none : Cursor.dropWord "入力".toList (g :: t) = none := Cursor.digitsNoWord all (by decide)
      exact Or.inl ⟨by rw [heads,none]; rfl,Or.inr (digitsPrimary all (List.cons_ne_nil g t))⟩
    | letter letter free rest =>
      rcases primaryName nested letter (.letter letter free rest) with ⟨none,reads⟩ | refuses
      · exact Or.inl ⟨none,Or.inr fun pos => by
          obtain ⟨a,last,found,_⟩ := reads pos
          exact ⟨a,last,found,trivial⟩⟩
      · exact Or.inr refuses

theorem readsGuarded {P : Expr → Prop} {primary} (reads : Reads primary P t []) : Reads (guarded primary) P t [] :=
  readsBind reads fun e holds pos => ⟨e,pos,rfl,holds⟩

theorem oneStatementRefuses (refuses : Refuses nested.alternatives t) : Refuses nested.oneStatement t :=
  refusesHere fun _ => refusesFirst (refusesOrElse refuses) _

section Statement

variable {k : Nat} {g : Glyph} (letter : Cursor.isNameLetter g.toChar) (unbroken : Cursor.Unbroken true (g :: t))

include letter unbroken

omit letter in
theorem noLeave {w p : String} (particle : p ∈ Cursor.particles) (long : p.length ≠ 1)
    (begins : p.toList.head?.any (fun c => !Cursor.isDigit (.char c))) (leads : p.toList <+: w.toList) :
    Cursor.dropWord w.toList (g :: t) = none := by
  obtain ⟨v,same⟩ := leads
  rw [← same,Cursor.dropWordAppend,unbroken.particleFree particle (fun _ => long) begins]
  rfl

theorem readsLone (plain : announcesFunction (g :: t) = false) :
    Reads (upTo (k + 1)).oneStatement (fun s => ∃ span e, s = .observe span e ∧ IsVariable (Text.toString (g :: t)) e)
      (g :: t) [] := by
  obtain ⟨noHead,noCondition⟩ := Bool.or_eq_false_iff.mp plain
  have ended : Passes spaces () ([] : Text) [] := passesWordySpaces (by simp)
  have expression : Reads (upTo (k + 1)).expression (IsVariable (Text.toString (g :: t))) (g :: t) [] := by
    rcases primaryName (upTo k) letter unbroken with ⟨_,reads⟩ | ⟨head,_⟩
    · exact readsGuarded reads
    · rw [noHead] at head
      contradiction
  have conditional : Misses (upTo (k + 1)).conditional (g :: t) := by
    cases found : Cursor.dropWord "もし".toList (g :: t) with
    | none => exact missesConditional found
    | some r =>
      have whole : g :: t = ofString "もし" ++ r := Cursor.dropWordSome found
      rw [found] at noCondition
      rw [whole] at unbroken ⊢
      have rest : Cursor.Unbroken false r := unbroken.tail.tail
      refine missesHere fun _ => missesAfter (passesWord "もし") (missesAfter (passesWordySpaces rest.wordy) ?_)
      rcases primaryRest (upTo k) rest.begin with ⟨_,misses | reads⟩ | ⟨head,_⟩
      · exact missesFirst (missesFirst misses _) _
      · exact missesBind (readsGuarded reads) fun _ _ => missesAfter ended (missesFirst (missesWord rfl) _)
      · exact absurd head (Bool.eq_false_iff.mp noCondition)
  have loop : Misses (upTo (k + 1)).loop (g :: t) :=
    missesHere fun _ => missesBind expression fun _ _ => missesAfter ended (missesFirst (missesWord rfl) _)
  have doctest : Misses (upTo (k + 1)).doctest (g :: t) :=
    missesHere fun _ => missesFirst (missesWord (Cursor.wordyNoWord unbroken.wordy (by decide))) _
  have target : Reads (upTo (k + 1)).target (fun _ => True) (g :: t) [] :=
    readsHere fun _ => readsAfter (passesWhole letter unbroken) fun pos =>
      ⟨_,pos,rfl,trivial⟩
  have onTarget : Misses (upTo (k + 1)).onTarget (g :: t) :=
    missesHere fun _ => missesBind target fun _ _ => missesAfter ended <| missesAfter (passesNot rfl) <|
      missesAfter (passesNot rfl) <| missesAfter (passesNot rfl) <| missesAfter (passesNot rfl) <|
      missesFirst (missesWord rfl) _
  have answer : Misses (upTo (k + 1)).answer (g :: t) :=
    missesHere fun _ => missesBind expression fun _ _ => missesAfter ended (missesFirst (missesWord rfl) _)
  have leave : Misses leave (g :: t) :=
    missesLeave (noLeave unbroken (p := "くり返") (by decide) (by decide) (by decide) (by decide))
      (noLeave unbroken (p := "繰り返") (by decide) (by decide) (by decide) (by decide))
  have observe : Reads (upTo (k + 1)).observe
      (fun s => ∃ span e, s = .observe span e ∧ IsVariable (Text.toString (g :: t)) e) (g :: t) [] :=
    readsHere fun _ => readsBind expression fun e bare => readsHere fun _ => readsPure ⟨_,e,rfl,bare⟩
  have last : Reads (orElse (upTo (k + 1)).observe (firstOf [])) _ (g :: t) [] := readsOrElse observe
  have alternatives := readsElse conditional <| readsElse loop <| readsElse doctest <| readsElse onTarget <|
    readsElse answer <| readsElse leave last
  exact readsHere fun _ => readsBind (readsOrElse alternatives) fun s holds => readsAfter
    (fun pos => ⟨(),pos,rfl,rfl⟩ : Passes statementEnd () [] []) (readsPure holds)

theorem refusesLone (announces : announcesFunction (g :: t) = true) : Refuses (upTo (k + 1)).oneStatement (g :: t) := by
  refine oneStatementRefuses ?_
  cases found : Cursor.dropWord "もし".toList (g :: t) with
  | none =>
    refine refusesElse (missesConditional found) (refusesOrElse ?_)
    have head : heads (g :: t) = true := by
      rw [announcesFunction,found,Option.any_none,Bool.or_false] at announces
      exact announces
    rcases primaryName (upTo k) letter unbroken with ⟨none,_⟩ | ⟨_,refuses⟩
    · rw [head] at none
      contradiction
    · exact refusesHere fun _ => refusesFirst (refusesFirst refuses _) _
  | some r =>
    have whole : g :: t = ofString "もし" ++ r := Cursor.dropWordSome found
    have none : heads (ofString "もし" ++ r) = false := rfl
    have head : heads r = true := by
      rw [announcesFunction,found,whole,none,Bool.false_or] at announces
      exact announces
    rw [whole] at unbroken ⊢
    have rest : Cursor.Unbroken false r := unbroken.tail.tail
    refine refusesOrElse (refusesHere fun _ => refusesBind (passesWord "もし") fun _ _ => ?_)
    refine refusesBind (passesWordySpaces rest.wordy) fun _ _ => ?_
    rcases primaryRest (upTo k) rest.begin with ⟨none,_⟩ | ⟨_,refuses⟩
    · rw [head] at none
      contradiction
    · exact refusesFirst (refusesFirst refuses _) _

end Statement

end Phrases

namespace Parse

def ShowsVariable (p : Parse) (name : String) : Prop :=
  p.finished ∧ p.errors = [] ∧ ∃ outer inner, p.program.body = [.observe outer (.var (.mk inner name []))]

variable {name : String} (named : isIdentifier (ofString name))

include named

theorem normalName : Text.normalize (ofString name) = ofString name := by
  simp only [isIdentifier,Bool.and_eq_true,decide_eq_true_eq] at named
  obtain ⟨⟨_,same⟩,ended⟩ := named
  have whole := (Cursor.readIdentifierSplit (.start (Text.normalize (ofString name)))).1
  rw [same,List.isEmpty_iff.mp ended,List.append_nil] at whole
  exact whole

theorem loneStart : ∃ g t n k, ofString name = g :: t ∧ Cursor.isNameLetter g.toChar ∧
    Cursor.Unbroken true (g :: t) ∧ (Cursor.start (g :: t)).skipBlank = .start (g :: t) ∧
    strict (ofString name) =
      let p := run (Phrases.upTo (k + 2)) false (g :: t) (n + 2) (.start (g :: t))
      { source := g :: t, program := ⟨p.body,p.stop⟩, errors := p.errors, finished := p.finished } := by
  obtain ⟨g,t,whole,letter,unbroken⟩ := Cursor.unbrokenName named
  refine ⟨g,t,t.length,2 * (t.length + 1),whole,letter,unbroken,?_,?_⟩
  · have char : g :: t = .char g.toChar :: t := by rw [← Cursor.charOfLetter letter]
    have outside {cs : List Char} (foreign : cs.all (!Cursor.isWordy ·)) : Avoids cs (g :: t) :=
      ⟨g.toChar,t,char,Cursor.wordyOutside (Cursor.wordyLetter letter) foreign⟩
    exact Cursor.skipFromSolid 0 (outside (by decide)) fun _ => outside (by decide)
  · rw [strict,normalName named,whole]
    rfl

theorem showsLone (plain : announcesFunction (ofString name) = false) :
    (strict (ofString name)).ShowsVariable name := by
  obtain ⟨g,t,n,k,whole,letter,unbroken,start,parse⟩ := loneStart named
  have spelled : Text.toString (g :: t) = name := by rw [← whole,Phrases.textBack]
  obtain ⟨s,last,found,outer,e,rfl,inner,rfl⟩ := Phrases.readsLone (k := k) letter unbroken (whole ▸ plain) 0
  have statement : (Phrases.upTo (k + 2)).statement (.start (g :: t)) =
      .found (.observe outer (.var (.mk inner (Text.toString (g :: t)) []))) ⟨last,[]⟩ := found
  rw [parse]
  simp only [ShowsVariable,run,start,statement]
  exact ⟨rfl,rfl,outer,inner,by rw [spelled]; rfl⟩

theorem refusesLone (announces : announcesFunction (ofString name) = true) :
    (strict (ofString name)).program.body = [] ∧ ∃ e, (strict (ofString name)).errors = [e] := by
  obtain ⟨g,t,n,k,whole,letter,unbroken,start,parse⟩ := loneStart named
  obtain ⟨e,refused⟩ := Phrases.refusesLone (k := k) letter unbroken (whole ▸ announces) 0
  have statement : (Phrases.upTo (k + 2)).statement (.start (g :: t)) = .refused e := refused
  rw [parse]
  simp only [run,start,statement]
  exact ⟨rfl,e,rfl⟩

end Parse

theorem loneNamesAreVariables (name : Text) (named : isIdentifier name) :
    ((Parse.strict name).ShowsVariable (Text.toString name) ↔ announcesFunction name = false) ∧
    (announcesFunction name = true →
      (Parse.strict name).program.body = [] ∧ ∃ e, (Parse.strict name).errors = [e]) := by
  obtain ⟨s,rfl⟩ : ∃ s, ofString s = name := by
    simp only [isIdentifier,Bool.and_eq_true,decide_eq_true_eq] at named
    exact ⟨_,named.1.2⟩
  have spelled : Text.toString (ofString s) = s := by
    simp [Text.toString,ofString,Function.comp_def,Glyph.toChar]
  refine ⟨⟨fun shows => ?_,fun plain => spelled.symm ▸ Parse.showsLone named plain⟩,Parse.refusesLone named⟩
  refine Bool.eq_false_iff.mpr fun announces => ?_
  obtain ⟨_,e,faulty⟩ := Parse.refusesLone named announces
  rw [shows.2.1] at faulty
  contradiction

theorem inputValueIsAVariable :
    isIdentifier (ofString "入力値") ∧ announcesFunction (ofString "入力値") = false ∧
    (Parse.strict (ofString "入力値")).ShowsVariable "入力値" := by
  have named : isIdentifier (ofString "入力値") := by decide +kernel
  have plain : announcesFunction (ofString "入力値") = false := by decide +kernel
  exact ⟨named,plain,(loneNamesAreVariables (ofString "入力値") named).1.mpr plain⟩

theorem headIsNoVariable :
    isIdentifier (ofString "入力に対し") ∧ (Parse.strict (ofString "入力に対し")).errors ≠ [] ∧
    ¬ (Parse.strict (ofString "入力に対し")).ShowsVariable "入力に対し" := by
  have named : isIdentifier (ofString "入力に対し") := by decide +kernel
  have faulty : (Parse.strict (ofString "入力に対し")).errors ≠ [] := by decide +kernel
  exact ⟨named,faulty,fun shows => faulty shows.2.1⟩

end Terakoya
