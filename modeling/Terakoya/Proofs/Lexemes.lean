import Terakoya.Proofs.Layout

/-! Words, names, numbers and quoted texts are read back as they were written. What comes after one
of them has to end it, and in a layout only few characters come there; that no word spans such a
place is what keeps a name whole. -/
namespace Terakoya

open Text (ofString)
open Layout

def Among (cs : List Char) (t : Text) : Prop := ∃ c u, t = .char c :: u ∧ c ∈ cs

def Avoids (cs : List Char) (t : Text) : Prop := ∃ c u, t = .char c :: u ∧ c ∉ cs

theorem Among.mono {cs ds t} (among : Among cs t) (sub : cs ⊆ ds) : Among ds t := by
  obtain ⟨c,u,rfl,inside⟩ := among
  exact ⟨c,u,rfl,sub inside⟩

theorem Avoids.mono {cs ds t} (avoids : Avoids cs t) (sub : ds ⊆ cs) : Avoids ds t := by
  obtain ⟨c,u,rfl,outside⟩ := avoids
  exact ⟨c,u,rfl,fun inside => outside (sub inside)⟩

theorem Among.avoids {cs ds t} (among : Among cs t) (apart : cs.all (!ds.contains ·)) : Avoids ds t := by
  obtain ⟨c,u,rfl,inside⟩ := among
  exact ⟨c,u,rfl,by simpa using List.all_eq_true.mp apart c inside⟩

def Solid (t : Text) : Prop := Avoids [' ','\t','\r','#'] t

def closers : List Char := [' ','\n',',',')',']','|']

def seams : List Char := '(' :: '[' :: closers

theorem Among.blanks {cs t} (among : Among cs t) (blank : ' ' ∈ cs) (n : Nat) : Among cs (blanks n ++ t) := by
  cases n with
  | zero => exact among
  | succ n => exact ⟨' ',_,rfl,blank⟩

namespace Cursor

theorem dropWordSame (w : List Char) (t : Text) : dropWord w (w.map .char ++ t) = some t := by
  induction w with
  | nil => rfl
  | cons c w ih => simp [dropWord,ih]

theorem dropWordAvoids {w : String} {cs t} (avoids : Avoids cs t)
    (begins : w.toList.head?.any (cs.contains ·)) : dropWord w.toList t = none := by
  obtain ⟨d,u,rfl,outside⟩ := avoids
  generalize w.toList = w at begins
  cases w with
  | nil => simp at begins
  | cons c w =>
    have inside : c ∈ cs := by simpa using begins
    have other : c ≠ d := fun same => outside (same ▸ inside)
    simp [dropWord,other]

theorem dropWordAppend (v w : List Char) (t : Text) :
    dropWord (v ++ w) t = (dropWord v t).bind (dropWord w) := by
  induction v generalizing t with
  | nil => rfl
  | cons c v ih =>
    cases t with
    | nil => rfl
    | cons g t =>
      cases g with
      | stray b => rfl
      | char d =>
        simp only [List.cons_append,dropWord]
        split
        · exact ih t
        · rfl

theorem dropWordSeam {w c} (outside : c ∉ w) (s t : Text) :
    (dropWord w (s ++ .char c :: t)).isSome = (dropWord w s).isSome := by
  induction w generalizing s with
  | nil => rfl
  | cons d w ih =>
    obtain ⟨here,later⟩ : c ≠ d ∧ c ∉ w := by simpa using outside
    cases s with
    | nil => simp [dropWord,Ne.symm here]
    | cons g s =>
      cases g with
      | stray b => rfl
      | char e =>
        simp only [List.cons_append,dropWord]
        split
        · exact ih later s
        · rfl

theorem prefixOfDropWord {w s} (found : (dropWord w (s.map .char)).isSome) : w <+: s := by
  induction w generalizing s with
  | nil => exact List.nil_prefix
  | cons c w ih =>
    cases s with
    | nil => simp [dropWord] at found
    | cons d s =>
      simp only [List.map_cons,dropWord] at found
      split at found
      · rename_i same
        subst same
        exact (List.prefix_cons_inj c).mpr (ih found)
      · simp at found

theorem skipFromBlanks (lines : Bool) (n pos : Nat) (t : Text) :
    skipFrom lines false pos (blanks n ++ t) = skipFrom lines false (pos + n) t := by
  induction n generalizing pos with
  | zero => rfl
  | succ n ih =>
    have step : skipFrom lines false pos (.char ' ' :: (blanks n ++ t)) =
        skipFrom lines false (pos + 1) (blanks n ++ t) := by
      have width : (Glyph.char ' ').width = 1 := rfl
      simp [skipFrom,Glyph.is,Glyph.toChar,isBlank,width]
    simp only [blanks,List.replicate_succ,List.cons_append] at step ⊢
    rw [step]
    exact (ih (pos + 1)).trans (by rw [Nat.add_assoc,Nat.add_comm 1 n])

theorem skipFromSolid {lines : Bool} (pos : Nat) {t} (solid : Solid t)
    (line : lines → Avoids ['\n'] t) : skipFrom lines false pos t = ⟨pos,t⟩ := by
  obtain ⟨c,u,rfl,outside⟩ := solid
  simp only [List.mem_cons,List.not_mem_nil,or_false,not_or] at outside
  obtain ⟨blank,tab,feed,hash⟩ := outside
  by_cases newline : c = '\n'
  · subst newline
    cases lines with
    | false => rfl
    | true =>
      obtain ⟨d,v,same,differ⟩ := line rfl
      cases same
      simp at differ
  · simp [skipFrom,Glyph.is,Glyph.toChar,isBlank,blank,tab,feed,Ne.symm hash,newline,Ne.symm newline]

/-! Names -/

theorem charOfLetter {g : Glyph} (letter : isNameLetter g.toChar) : g = .char g.toChar := by
  cases g with
  | char c => rfl
  | stray b =>
    have none : isNameLetter '�' = false := by decide
    rw [Glyph.toChar,none] at letter
    contradiction

theorem charOfDigit {g} (digit : isDigit g) : g = .char g.toChar := by
  cases g with
  | char c => rfl
  | stray b => exact absurd digit (by simp [isDigit,Glyph.toChar])

theorem readLettersSplit (first : Bool) (pos : Nat) (t : Text) :
    t = (readLetters first pos t).1.map .char ++ (readLetters first pos t).2.rest ∧
      ∀ c ∈ (readLetters first pos t).1, isNameLetter c := by
  induction t generalizing first pos with
  | nil => simp [readLetters]
  | cons g t ih =>
    simp only [readLetters]
    split
    · rename_i letter
      have here : isNameLetter g.toChar := (Bool.and_eq_true_iff.mp letter).1
      obtain ⟨whole,letters⟩ := ih false (pos + g.width)
      refine ⟨?_,by simpa using ⟨here,letters⟩⟩
      simp only [List.map_cons,List.cons_append]
      exact congr (congrArg List.cons (charOfLetter here)) whole
    · simp

theorem readDigitsSplit (pos : Nat) (t : Text) :
    t = (readWhile isDigit pos t).1.map .char ++ (readWhile isDigit pos t).2.rest ∧
      ∀ c ∈ (readWhile isDigit pos t).1, isDigit (.char c) := by
  induction t generalizing pos with
  | nil => simp [readWhile]
  | cons g t ih =>
    simp only [readWhile]
    split
    · rename_i digit
      obtain ⟨whole,digits⟩ := ih (pos + g.width)
      have here : isDigit (.char g.toChar) := charOfDigit digit ▸ digit
      refine ⟨?_,by simpa using ⟨here,digits⟩⟩
      simp only [List.map_cons,List.cons_append]
      exact congr (congrArg List.cons (charOfDigit digit)) whole
    · simp

def endsNames (c : Char) : Bool := !isNameLetter c && !isDigit (.char c) && particles.all fun p => !p.toList.contains c

def Parted (t : Text) : Prop := ∃ c u, t = .char c :: u ∧ endsNames c

theorem partedAmong {cs} (foreign : cs.all endsNames) {t} (among : Among cs t) : Parted t := by
  obtain ⟨c,u,rfl,inside⟩ := among
  exact ⟨c,u,rfl,List.all_eq_true.mp foreign c inside⟩

theorem partedSeam {t} (seam : Among seams t) : Parted t := partedAmong (by decide) seam

theorem endsForeign {c} (ends : endsNames c) :
    isNameLetter c = false ∧ isDigit (.char c) = false ∧ ∀ p ∈ particles, c ∉ p.toList := by
  simpa [endsNames,and_assoc] using ends

theorem atParticleSeam {rest} (parted : Parted rest) (first : Bool) (t : Text) :
    atParticle first (t ++ rest) = atParticle first t := by
  obtain ⟨c,u,rfl,ends⟩ := parted
  have same : ∀ p ∈ particles, (dropWord p.toList (t ++ .char c :: u)).isSome =
      (dropWord p.toList t).isSome :=
    fun p member => dropWordSeam ((endsForeign ends).2.2 p member) t u
  rw [Bool.eq_iff_iff]
  simp only [atParticle,List.any_eq_true]
  exact exists_congr fun p => and_congr_right fun member => by rw [same p member]

theorem readLettersSeam {rest} (parted : Parted rest) (first : Bool) (pos pos₁ : Nat) (t : Text) :
    ∃ last, readLetters first pos₁ (t ++ rest) =
      ((readLetters first pos t).1,⟨last,(readLetters first pos t).2.rest ++ rest⟩) := by
  induction t generalizing first pos pos₁ with
  | nil =>
    obtain ⟨c,u,rfl,ends⟩ := parted
    exact ⟨pos₁,by simp [readLetters,Glyph.toChar,(endsForeign ends).1]⟩
  | cons g t ih =>
    have particle := atParticleSeam parted first (g :: t)
    simp only [List.cons_append] at particle
    simp only [List.cons_append,readLetters,particle]
    split
    · obtain ⟨last,later⟩ := ih false (pos + g.width) (pos₁ + g.width)
      exact ⟨last,by rw [later]⟩
    · exact ⟨pos₁,rfl⟩

theorem readDigitsSeam {rest} (parted : Parted rest) (pos pos₁ : Nat) (t : Text) :
    ∃ last, readWhile isDigit pos₁ (t ++ rest) =
      ((readWhile isDigit pos t).1,⟨last,(readWhile isDigit pos t).2.rest ++ rest⟩) := by
  induction t generalizing pos pos₁ with
  | nil =>
    obtain ⟨c,u,rfl,ends⟩ := parted
    exact ⟨pos₁,by simp [readWhile,(endsForeign ends).2.1]⟩
  | cons g t ih =>
    simp only [List.cons_append,readWhile]
    split
    · obtain ⟨last,later⟩ := ih (pos + g.width) (pos₁ + g.width)
      exact ⟨last,by rw [later]⟩
    · exact ⟨pos₁,rfl⟩

theorem readIdentifierSplit (c : Cursor) :
    c.rest = ofString c.readIdentifier.1 ++ c.readIdentifier.2.rest ∧
      ∀ d ∈ c.readIdentifier.1.toList, isNameLetter d ∨ isDigit (.char d) := by
  obtain ⟨whole,letters⟩ := readLettersSplit true c.pos c.rest
  simp only [readIdentifier]
  split
  · simp [ofString]
  · rename_i run next _ reading
    rw [reading] at whole letters
    obtain ⟨rest,digits⟩ := readDigitsSplit next.pos next.rest
    refine ⟨?_,fun d inside => ?_⟩
    · simp only [ofString,String.toList_ofList,List.map_append,List.append_assoc,← rest]
      exact whole
    · rcases List.mem_append.mp (String.toList_ofList ▸ inside) with letter | digit
      · exact .inl (letters d letter)
      · exact .inr (digits d digit)

theorem readIdentifierSeam {rest} (parted : Parted rest) {t} (some : (start t).readIdentifier.1 ≠ "") (pos : Nat) :
    ∃ last, readIdentifier ⟨pos,t ++ rest⟩ =
      ((start t).readIdentifier.1,⟨last,(start t).readIdentifier.2.rest ++ rest⟩) := by
  obtain ⟨last,letters⟩ := readLettersSeam parted true 0 pos t
  simp only [readIdentifier,start,letters] at some ⊢
  generalize readLetters true 0 t = reading at some
  obtain ⟨run,next⟩ := reading
  cases run with
  | nil => simp at some
  | cons c run =>
    obtain ⟨last,digits⟩ := readDigitsSeam parted next.pos last next.rest
    exact ⟨last,by simp only [digits]⟩

theorem readIdentifierHead {t : Text} (some : (start t).readIdentifier.1 ≠ "") :
    ∃ c u, t = .char c :: u ∧ isNameLetter c ∧ atParticle true t = false := by
  cases t with
  | nil => simp [start,readIdentifier,readLetters] at some
  | cons g u =>
    simp only [start,readIdentifier,readLetters] at some
    split at some
    · simp at some
    · rename_i reading
      split at reading
      · rename_i letter
        obtain ⟨here,free⟩ := Bool.and_eq_true_iff.mp letter
        exact ⟨g.toChar,u,by rw [← charOfLetter here],here,by simpa using free⟩
      · cases reading
        simp_all

theorem ofStringInjective {s t} (same : ofString s = ofString t) : s = t := by
  exact String.toList_inj.mp ((List.map_inj_right fun _ _ => Glyph.char.inj).mp same)

theorem identifierRead {name} (named : isIdentifier (ofString name)) :
    name ≠ "" ∧ ∃ last, (start (ofString name)).readIdentifier = (name,⟨last,[]⟩) := by
  simp only [isIdentifier,Bool.and_eq_true,decide_eq_true_eq] at named
  obtain ⟨⟨some,same⟩,ended⟩ := named
  have read := ofStringInjective same
  have normal := (readIdentifierSplit (start (Text.normalize (ofString name)))).1
  generalize reading : (start (Text.normalize (ofString name))).readIdentifier = result at *
  obtain ⟨whole,last,rest⟩ := result
  obtain rfl : rest = [] := by simpa [atEnd] using ended
  cases read
  rw [List.append_nil] at normal
  rw [show Text.normalize (ofString whole) = ofString whole from normal] at reading
  exact ⟨fun empty => some (by rw [empty]; rfl),last,reading⟩

section Name

variable {name : String} (named : isIdentifier (ofString name))

include named

theorem nameReads {rest} (seam : Among seams rest) (pos : Nat) :
    ∃ last, readIdentifier ⟨pos,ofString name ++ rest⟩ = (name,⟨last,rest⟩) := by
  obtain ⟨some,last,reading⟩ := identifierRead named
  have whole := readIdentifierSeam (partedSeam seam) (t := ofString name) (by rw [reading]; exact some) pos
  rw [reading] at whole
  exact whole

theorem nameHead (rest : Text) : ∃ c u, ofString name ++ rest = .char c :: u ∧ isNameLetter c := by
  obtain ⟨some,last,reading⟩ := identifierRead named
  obtain ⟨c,u,same,letter,_⟩ := readIdentifierHead (t := ofString name) (by rw [reading]; exact some)
  exact ⟨c,u ++ rest,by rw [same]; rfl,letter⟩

theorem nameAvoids {cs} (foreign : cs.all (!isNameLetter ·)) (rest : Text) : Avoids cs (ofString name ++ rest) := by
  obtain ⟨c,u,same,letter⟩ := nameHead named rest
  refine ⟨c,u,same,fun inside => ?_⟩
  have none := List.all_eq_true.mp foreign c inside
  rw [letter] at none
  contradiction

theorem nameNoParticle {p w : String} (particle : p ∈ particles) (long : p.length ≠ 1)
    (begins : p.toList <+: w.toList) {rest} (seam : Among seams rest) : dropWord w.toList (ofString name ++ rest) = none := by
  obtain ⟨some,last,reading⟩ := identifierRead named
  obtain ⟨_,_,_,_,free⟩ := readIdentifierHead (t := ofString name) (by rw [reading]; exact some)
  have free' := atParticleSeam (partedSeam seam) true (ofString name)
  rw [free] at free'
  have none := List.any_eq_false.mp free' p particle
  have missing : dropWord p.toList (ofString name ++ rest) = .none := by simpa [long] using none
  obtain ⟨v,same⟩ := begins
  rw [← same,dropWordAppend,missing]
  rfl

theorem nameChars : ∀ c ∈ name.toList, isNameLetter c ∨ isDigit (.char c) := by
  obtain ⟨_,last,reading⟩ := identifierRead named
  have chars := (readIdentifierSplit (start (ofString name))).2
  rwa [reading] at chars

end Name

theorem dropWordName {w name : String} (unlike : ¬ w.toList <+: name.toList) {rest}
    (seam : Among seams rest) (foreign : seams.all (!w.toList.contains ·)) :
    dropWord w.toList (ofString name ++ rest) = none := by
  obtain ⟨c,u,rfl,inside⟩ := seam
  have outside : c ∉ w.toList := by simpa using List.all_eq_true.mp foreign c inside
  have same := dropWordSeam outside (ofString name) u
  refine Option.not_isSome_iff_eq_none.mp fun found => unlike (prefixOfDropWord ?_)
  exact same ▸ found

/-! Numbers -/

theorem digitsAreDigits (n : Nat) : ∀ c ∈ Nat.toDigits 10 n, isDigit (.char c) := by
  intro c inside
  have digit := Nat.isDigit_of_mem_toDigits (by decide) (by decide) inside
  simpa [Char.isDigit,isDigit,Glyph.toChar,Char.le_def] using digit

theorem digitNoLetter {c} (digit : isDigit (.char c)) : isNameLetter c = false := by
  have none : ∀ n ∈ List.range' 48 10, Text.letters.contains n = false ∧ n ≠ 95 := by decide
  have code : c.toNat ∈ List.range' 48 10 := by
    simp [isDigit,Glyph.toChar,Char.le_def,UInt32.le_iff_toNat_le] at digit
    simp [List.mem_range'_1]
    omega
  obtain ⟨letter,line⟩ := none _ code
  simpa [isNameLetter,Text.isLetter,← Char.toNat_inj] using ⟨line,letter⟩

theorem readWhileAll {p : Glyph → Bool} {cs : List Char} (all : ∀ c ∈ cs, p (.char c)) {rest : Text}
    (ended : ∃ c u, rest = .char c :: u ∧ p (.char c) = false) (pos : Nat) :
    ∃ last, readWhile p pos (cs.map .char ++ rest) = (cs,⟨last,rest⟩) := by
  induction cs generalizing pos with
  | nil =>
    obtain ⟨c,u,rfl,other⟩ := ended
    exact ⟨pos,by simp [readWhile,other]⟩
  | cons c cs ih =>
    obtain ⟨last,later⟩ := ih (fun d inside => all d (List.mem_cons_of_mem c inside)) (pos + c.utf8Size)
    refine ⟨last,?_⟩
    simp only [List.map_cons,List.cons_append,readWhile,all c List.mem_cons_self,if_true]
    rw [show (Glyph.char c).width = c.utf8Size from rfl,later]
    rfl

theorem digitsRead (n : Nat) {rest} (seam : Among seams rest) (pos : Nat) :
    ∃ last, readDigits ⟨pos,digits n ++ rest⟩ = (String.ofList (Nat.toDigits 10 n),⟨last,rest⟩) := by
  obtain ⟨c,u,rfl,ends⟩ := partedSeam seam
  obtain ⟨last,reading⟩ := readWhileAll (digitsAreDigits n) ⟨c,u,rfl,(endsForeign ends).2.1⟩ pos
  exact ⟨last,by simp only [readDigits,digits,reading]⟩

/-! Quoted texts -/

theorem readQuotedEscape (c : Char) (pos : Nat) (t : Text) :
    ∃ next, readQuoted pos (escape c ++ t) = (readQuoted next t).push c := by
  by_cases slash : c = '\\'
  · subst slash
    exact ⟨_,rfl⟩
  by_cases quote : c = '"'
  · subst quote
    exact ⟨_,rfl⟩
  by_cases newline : c = '\n'
  · subst newline
    exact ⟨_,rfl⟩
  by_cases tab : c = '\t'
  · subst tab
    exact ⟨_,rfl⟩
  exact ⟨_,by simp [escape,slash,quote,newline,tab,readQuoted,Glyph.toChar]; rfl⟩

theorem readQuotedAll (cs : List Char) (pos : Nat) (t : Text) :
    ∃ last, readQuoted pos (cs.flatMap escape ++ .char '"' :: t) = ⟨cs,true,⟨last,t⟩⟩ := by
  induction cs generalizing pos with
  | nil => exact ⟨pos + 1,by simp [readQuoted]⟩
  | cons c cs ih =>
    obtain ⟨next,first⟩ := readQuotedEscape c pos (cs.flatMap escape ++ .char '"' :: t)
    obtain ⟨last,later⟩ := ih next
    exact ⟨last,by rw [List.flatMap_cons,List.append_assoc,first,later]; rfl⟩

theorem quotedRead (s : String) (t : Text) (pos : Nat) :
    ∃ last, readText ⟨pos,quoted s ++ t⟩ = ⟨s.toList,true,⟨last,t⟩⟩ := by
  obtain ⟨last,reading⟩ := readQuotedAll s.toList (pos + 1) t
  refine ⟨last,?_⟩
  simp only [readText,quoted,List.cons_append,List.append_assoc,List.nil_append]
  exact reading

/-! Names of parameters -/

def spaceCodes : List Nat :=
  [0x20,0x85,0xA0,0x1680,0x2028,0x2029,0x202F,0x205F,0x3000] ++ List.range' 9 5 ++ List.range' 0x2000 11

theorem spaceCode {c} (space : Text.isSpace c) : c.toNat ∈ spaceCodes := by
  simp [Text.isSpace,Char.le_def,UInt32.le_iff_toNat_le,← Char.toNat_inj] at space
  simp [spaceCodes,List.mem_range'_1]
  omega

theorem spaceNoName {c} (space : Text.isSpace c) : isNameLetter c = false ∧ isDigit (.char c) = false := by
  have none : ∀ n ∈ spaceCodes, Text.letters.contains n = false ∧ n ≠ 95 ∧ (48 ≤ n → 57 < n) := by decide
  obtain ⟨letter,line,digit⟩ := none _ (spaceCode space)
  refine ⟨?_,?_⟩
  · simpa [isNameLetter,Text.isLetter,← Char.toNat_inj] using ⟨line,letter⟩
  · simpa [isDigit,Glyph.toChar,Char.lt_def,Char.le_def,UInt32.le_iff_toNat_le,
      UInt32.lt_iff_toNat_lt] using digit

theorem punctuationNoName (c : Char) (inside : c ∈ bindingPunctuation) :
    isNameLetter c = false ∧ isDigit (.char c) = false := by
  have all : bindingPunctuation.all fun c => !isNameLetter c && !isDigit (.char c) := by decide
  simpa using List.all_eq_true.mp all c inside

theorem stopsForeign (c : Char) (inside : c ∈ [',',' ']) : ∀ w ∈ bindingStops, c ∉ w.toList := by
  have all : [',',' '].all fun c => bindingStops.all fun w => !w.toList.contains c := by decide
  simpa using List.all_eq_true.mp all c inside

theorem bindingGoesOn {c cs} (char : isNameLetter c ∨ isDigit (.char c))
    (unbroken : ∀ w ∈ bindingStops, ¬ w.toList <:+: c :: cs) {rest} (ended : Among [',',' '] rest) :
    endsBinding ((c :: cs).map .char ++ rest) = false := by
  have noSpace : Text.isSpace c = false := by
    refine Bool.eq_false_iff.mpr fun space => ?_
    obtain ⟨letter,digit⟩ := spaceNoName space
    simp [letter,digit] at char
  have noPunctuation : bindingPunctuation.contains c = false := by
    refine Bool.eq_false_iff.mpr fun punctuation => ?_
    obtain ⟨letter,digit⟩ := punctuationNoName c (List.contains_iff_mem.mp punctuation)
    simp [letter,digit] at char
  have noStop : ∀ w ∈ bindingStops, dropWord w.toList ((c :: cs).map .char ++ rest) = none := by
    obtain ⟨d,u,rfl,inside⟩ := ended
    intro w stop
    refine Option.not_isSome_iff_eq_none.mp fun found => unbroken w stop ?_
    rw [dropWordSeam (stopsForeign d inside w stop)] at found
    exact (prefixOfDropWord found).isInfix
  simp only [endsBinding,List.map_cons,List.cons_append,Glyph.toChar,noSpace,noPunctuation]
  simp only [List.map_cons,List.cons_append] at noStop
  simpa using noStop

theorem bindingRead {cs} (chars : ∀ c ∈ cs, isNameLetter c ∨ isDigit (.char c))
    (unbroken : ∀ w ∈ bindingStops, ¬ w.toList <:+: cs) {rest} (ended : Among [',',' '] rest)
    (pos : Nat) : ∃ last, readBinding pos (cs.map .char ++ rest) = (cs.map .char,⟨last,rest⟩) := by
  induction cs generalizing pos with
  | nil =>
    obtain ⟨c,u,rfl,inside⟩ := ended
    have all : [',',' '].all fun c => Text.isSpace c || bindingPunctuation.contains c := by decide
    have stops := List.all_eq_true.mp all c inside
    have ends : endsBinding (.char c :: u) := by simp only [endsBinding,Glyph.toChar,stops,Bool.true_or]
    exact ⟨pos,by simp [readBinding,ends]⟩
  | cons c cs ih =>
    have goesOn := bindingGoesOn (chars c List.mem_cons_self) unbroken ended
    obtain ⟨last,later⟩ := ih (fun d inside => chars d (List.mem_cons_of_mem c inside))
      (fun w stop inside => unbroken w stop (List.infix_cons inside)) (pos + (Glyph.char c).width)
    refine ⟨last,?_⟩
    simp only [List.map_cons,List.cons_append,readBinding] at goesOn later ⊢
    simp only [goesOn,later]
    rfl

end Cursor

end Terakoya
