import Mathlib.Data.List.Chain
import Terakoya.Proofs.Lines

/-! What the tables of characters agree on: what a character is taken apart into cannot be taken apart further, is in
order and has as many marks as the character, and what is joined is taken apart again. Characters of another width are
outside of all this, except for two sound marks. -/
namespace Terakoya.Text

/-! Runs of marks -/

def runAfter (run : Nat) (g : Glyph) : Nat := if (marks g).1 = 0 then (marks g).2 else run + (marks g).1

def Calm : Nat → Text → Prop
  | _,[] => True
  | run,g :: t => runAfter run g ≤ maxMarks ∧ Calm (runAfter run g) t

instance decidableCalm : (run : Nat) → (t : Text) → Decidable (Calm run t)
  | _,[] => isTrue trivial
  | run,g :: t =>
    have := decidableCalm (runAfter run g) t
    inferInstanceAs (Decidable (_ ∧ _))

def Ordered (t : Text) : Prop := t.IsChain fun g h => glyphClass h = 0 ∨ glyphClass g ≤ glyphClass h

instance (t : Text) : Decidable (Ordered t) := inferInstanceAs (Decidable (t.IsChain _))

def normalChar (c : Char) : Char := straighten (foldChar c)

section Runs

variable {run : Nat} {s t : Text}

theorem calmAppend : Calm run (s ++ t) ↔ Calm run s ∧ Calm (s.foldl runAfter run) t := by
  induction s generalizing run with
  | nil => exact ⟨fun calm => ⟨trivial,calm⟩,And.right⟩
  | cons g s ih => rw [List.cons_append,Calm,Calm,ih,List.foldl_cons,and_assoc]

theorem runAfterMark {g : Glyph} (mark : (marks g).1 ≠ 0) (run : Nat) : runAfter run g = run + (marks g).1 := if_neg mark

theorem runAfterStarter {g : Glyph} (starter : (marks g).1 = 0) (run : Nat) : runAfter run g = (marks g).2 := if_pos starter

theorem runAfterMono {run run' : Nat} (less : run ≤ run') (g : Glyph) : runAfter run g ≤ runAfter run' g := by
  unfold runAfter
  split
  · exact le_refl _
  · exact Nat.add_le_add_right less _

theorem calmMono {run run' : Nat} (less : run ≤ run') (calm : Calm run' t) : Calm run t := by
  induction t generalizing run run' with
  | nil => trivial
  | cons g t ih => exact ⟨(runAfterMono less g).trans calm.1,ih (runAfterMono less g) calm.2⟩

theorem marksRun (all : ∀ g ∈ t, (marks g).1 ≠ 0) (run : Nat) :
    t.foldl runAfter run = run + (t.map fun g => (marks g).1).sum ∧
      (run + (t.map fun g => (marks g).1).sum ≤ maxMarks → Calm run t) := by
  induction t generalizing run with
  | nil => exact ⟨rfl,fun _ => trivial⟩
  | cons g t ih =>
    obtain ⟨mark,rest⟩ := List.forall_mem_cons.mp all
    obtain ⟨count,calm⟩ := ih rest (runAfter run g)
    rw [List.foldl_cons,count,runAfterMark mark,List.map_cons,List.sum_cons,Nat.add_assoc]
    refine ⟨rfl,fun short => ⟨?_,calm ?_⟩⟩ <;> rw [runAfterMark mark] <;> omega

theorem calmShort (short : run + (t.map fun g => (marks g).1 + (marks g).2).sum ≤ maxMarks) : Calm run t := by
  induction t generalizing run with
  | nil => trivial
  | cons g t ih =>
    have step : runAfter run g ≤ run + ((marks g).1 + (marks g).2) := by
      unfold runAfter
      split <;> omega
    rw [List.map_cons,List.sum_cons] at short
    exact ⟨by omega,ih (by omega)⟩

end Runs

/-! Tables -/

def CodeMap.each {α : Type} (p : Char → α → Bool) (m : CodeMap α) : Bool :=
  m.all fun first last value => (List.range' first (last + 1 - first)).all fun n => p (Char.ofNat n) value

theorem rangeEach {p : Char → Bool} {first count : Nat} (all : (List.range' first count).all fun n => p (Char.ofNat n)) {c : Char}
    (low : first ≤ c.toNat) (high : c.toNat < first + count) : p c := by
  have here := List.all_eq_true.mp all c.toNat (List.mem_range'_1.mpr ⟨low,high⟩)
  rwa [Char.ofNat_toNat] at here

theorem CodeMap.findEach {α : Type} {p : Char → α → Bool} {m : CodeMap α} (all : m.each p) {c : Char}
    {found : Nat × α} (lookup : m.find? c.toNat = some found) : p c found.2 := by
  obtain ⟨last,low,high,each⟩ := CodeMap.findRange all lookup
  exact rangeEach (p := fun c => p c found.2) each low (by omega)

/-- The same search by the recursor itself, which the kernel evaluates much faster. -/
noncomputable def CodeMap.seek {α : Type} (n : Nat) (m : CodeMap α) : Option (Nat × α) :=
  m.rec none fun _ first last value _ left right =>
    bif n.blt first then left else bif n.ble last then some (first,value) else right

theorem CodeMap.seekFind {α : Type} (m : CodeMap α) (n : Nat) : m.seek n = m.find? n := by
  induction m with
  | leaf => rfl
  | node left first last value right ihLeft ihRight =>
    have step : (node left first last value right).seek n =
      bif n.blt first then left.seek n else bif n.ble last then some (first,value) else right.seek n := rfl
    simp only [step,ihLeft,ihRight,find?,cond_eq_ite,Nat.blt_eq,Nat.ble_eq]

theorem toNatOfNat {n : Nat} (valid : n.isValidChar) : (Char.ofNat n).toNat = n := by
  have number : Char.ofNat n = Char.ofNatAux n valid := dif_pos valid
  rw [number]
  rfl

/-! Checks of the tables -/

def isUsual (n : Nat) : Bool := n < 0x3000 && n != 0x201C && n != 0x201D || 0x3000 < n && n < 0xFF01 || 0xFFEE < n

noncomputable def isFinal (c : Char) : Bool := !Hangul.isSyllable c.toNat && (decompositions.seek c.toNat).isNone

noncomputable def quickClass (c : Char) : Nat := ((combiningClasses.seek c.toNat).map Prod.snd).getD 0

noncomputable def isMarked (c : Char) : Bool := quickClass c ≠ 0 || (attached.seek c.toNat).isSome

noncomputable def isWord (c : Char) : Bool := c = '_' || (letters.seek c.toNat).isSome

noncomputable def listed (c : Char) : Option (List Char) := (decompositions.seek c.toNat).map Prod.snd

noncomputable def quickParts (c : Char) : List Char :=
  bif c.toNat.blt 0xC0 then [c] else bif Hangul.isSyllable c.toNat then Hangul.decompose c.toNat else (listed c).getD [c]

noncomputable def quickMarks (c : Char) : Nat × Nat :=
  let parts := (listed c).getD [c]
  bif c.toNat.blt 0xA8 then (0,0)
  else bif Hangul.isSyllable c.toNat then (0,if Hangul.isOpen c.toNat then 1 else 2)
  else ((compatible.seek c.toNat).map Prod.snd).getD ((parts.takeWhile isMarked).length,(parts.reverse.takeWhile isMarked).length)

noncomputable def fitPieces (c : Char) (parts : List Char) : Bool :=
  (parts.all fun d => isFinal d && isUsual d.toNat) && decide (Ordered (parts.map .char)) &&
    if (quickMarks c).1 = 0 then
      (parts.head?.any fun d => (quickMarks d).1 = 0) && (parts.map fun d => (quickMarks d).1 + (quickMarks d).2).sum ≤ maxMarks &&
        parts.foldl (fun run d => if (quickMarks d).1 = 0 then (quickMarks d).2 else run + (quickMarks d).1) 0 = (quickMarks c).2
    else
      (parts.all fun d => (quickMarks d).1 ≠ 0) && (parts.map fun d => (quickMarks d).1).sum = (quickMarks c).1 &&
        !isWord c

def fitJamo (count : Nat) (c : Char) : Bool :=
  decomposeChar c = [c] ∧ glyphClass (.char c) = 0 ∧ normalChar c = c ∧ marks (.char c) = (count,count)

noncomputable def fitJoins (a b c : Char) : Bool :=
  quickParts c = quickParts a ++ [b] ∧ isUsual c.toNat ∧ (quickMarks a).1 = 0 ∧ (quickMarks b).1 ≠ 0 ∧ isWord b = false ∧
    quickMarks c = (0,(quickMarks a).2 + (quickMarks b).1)

def isSoundMark (c : Char) : Bool := c = 'ﾞ' || c = 'ﾟ'

def isForeign (n : Nat) : Bool := n < 0x1100 || 0x11C2 < n && n < 0xAC00 || 0xD7A3 < n

noncomputable def fitMoves (c : Char) : Bool :=
  isFinal c && isFinal (normalChar c) && isUsual (normalChar c).toNat && isForeign c.toNat && isForeign (normalChar c).toNat &&
    decide (quickClass c = 0 ∧ (composites.seek c.toNat).isNone ∧ quickMarks (normalChar c) = quickMarks c) &&
    (isSoundMark c || quickClass (normalChar c) = 0 && ((quickMarks c).1 = 0 || isWord (normalChar c)))

structure TablesFit : Prop where
  folds : foldRuns.all fun first last _ => first == 0x3000 && last == 0x3000 || 0xFF01 ≤ first && last ≤ 0xFFEE
  leads : (List.range' 0x1100 19).all fun n => fitJamo 0 (Char.ofNat n)
  vowels : (List.range' 0x1161 21).all fun n => fitJamo 1 (Char.ofNat n)
  tails : (List.range' 0x11A8 27).all fun n => fitJamo 1 (Char.ofNat n)
  parts : decompositions.each fitPieces
  pairs : composites.each fun a made => made.all fun c => ((listed c).getD []).reverse.head?.any fun b => fitJoins a b c
  classes : combiningClasses.each fun c _ => (quickMarks c).1 ≠ 0 && !isWord c
  moves : foldRuns.each fun c _ => fitMoves c
  quotes : fitMoves '“' ∧ fitMoves '”'

theorem tablesFit : TablesFit := by constructor <;> decide +kernel

theorem usualNormal {c : Char} (usual : isUsual c.toNat) : normalChar c = c := by
  have same : foldChar c = c := by
    rw [foldChar,CodeMap.shift]
    cases found : foldRuns.find? c.toNat with
    | none => rfl
    | some entry =>
      obtain ⟨last,low,high,inside⟩ := CodeMap.findRange tablesFit.folds found
      simp only [Bool.or_eq_true,Bool.and_eq_true,beq_iff_eq,decide_eq_true_eq] at inside
      simp only [isUsual,Bool.or_eq_true,Bool.and_eq_true,bne_iff_ne,decide_eq_true_eq] at usual
      omega
  have other : ¬(c = '“' ∨ c = '”') := by
    rintro (rfl | rfl) <;> exact absurd usual (by decide)
  rw [normalChar,same,straighten,if_neg other]

/-! Taking apart -/

theorem finalAlone {c : Char} (final : isFinal c) : decomposeChar c = [c] := by
  obtain ⟨other,none⟩ := Bool.and_eq_true_iff.mp final
  rw [Bool.not_eq_true'] at other
  rw [Option.isNone_iff_eq_none,CodeMap.seekFind] at none
  simp [decomposeChar,other,CodeMap.value?,none]

theorem classAgrees (c : Char) : quickClass c = combiningClass c := by
  rw [quickClass,CodeMap.seekFind,combiningClass,CodeMap.value?]

theorem wordAgrees (c : Char) : isWord c = Cursor.isNameLetter c := by
  rw [isWord,CodeMap.seekFind,Cursor.isNameLetter,isLetter,CodeMap.contains]

theorem listedAgrees (c : Char) : listed c = decompositions.value? c.toNat := by rw [listed,CodeMap.seekFind,CodeMap.value?]

theorem partsAgree (c : Char) : quickParts c = decomposeChar c := by
  simp only [quickParts,decomposeChar,listedAgrees,cond_eq_ite,Nat.blt_eq]

theorem quickAgrees (c : Char) : quickMarks c = marks (.char c) := by
  have marked : isMarked = isMark := by
    funext c
    simp only [isMarked,isMark,classAgrees,CodeMap.contains,CodeMap.seekFind]
  simp only [quickMarks,marks,markCounts,listedAgrees,CodeMap.value?,CodeMap.seekFind,marked,cond_eq_ite,Nat.blt_eq]
  cases compatible.find? c.toNat <;> rfl

structure Pieces (c : Char) (parts : List Char) : Prop where
  final : ∀ d ∈ parts, decomposeChar d = [d]
  ordered : Ordered (parts.map .char)
  plain : parts = [c] ∨ ∀ d ∈ parts, normalChar d = d
  starts : (marks (.char c)).1 = 0 → ∃ d ds, parts = d :: ds ∧ (marks (.char d)).1 = 0
  runs : ∀ run, runAfter run (.char c) ≤ maxMarks →
    Calm run (parts.map .char) ∧ (parts.map .char).foldl runAfter run = runAfter run (.char c)
  letter : (marks (.char c)).1 ≠ 0 → Cursor.isNameLetter c → parts = [c]

theorem piecesFit {c : Char} {parts : List Char} (fit : fitPieces c parts) : Pieces c parts := by
  simp only [fitPieces,quickAgrees,wordAgrees,Bool.and_eq_true,List.all_eq_true,decide_eq_true_eq] at fit
  obtain ⟨⟨each,ordered⟩,counts⟩ := fit
  refine ⟨fun d there => finalAlone (each d there).1,ordered,.inr fun d there => usualNormal (each d there).2,fun starter => ?_,
    fun run short => ?_,fun mark letter => ?_⟩
  · rw [if_pos starter] at counts
    cases parts with
    | nil => simp at counts
    | cons d ds =>
      obtain ⟨⟨first,_⟩,_⟩ := by simpa using counts
      exact ⟨d,ds,rfl,first⟩
  · by_cases starter : (marks (.char c)).1 = 0
    · rw [if_pos starter] at counts
      simp only [Bool.and_eq_true,decide_eq_true_eq] at counts
      obtain ⟨⟨first,few⟩,count⟩ := counts
      have calm : Calm 0 (parts.map .char) := calmShort (by rwa [Nat.zero_add,List.map_map])
      have fold : (parts.map Glyph.char).foldl runAfter 0 = (marks (.char c)).2 := by rwa [List.foldl_map]
      cases parts with
      | nil => simp at first
      | cons d ds =>
        have starts : (marks (.char d)).1 = 0 := by simpa using first
        have fresh : runAfter run (.char d) = runAfter 0 (.char d) := by rw [runAfterStarter starts,runAfterStarter starts]
        rw [runAfterStarter starter,List.map_cons,Calm,List.foldl_cons,fresh]
        exact ⟨calm,fold⟩
    · rw [if_neg starter] at counts
      simp only [Bool.and_eq_true,List.all_eq_true,decide_eq_true_eq] at counts
      have all : ∀ g ∈ parts.map Glyph.char, (marks g).1 ≠ 0 := by
        intro g there
        obtain ⟨d,among,rfl⟩ := List.mem_map.mp there
        exact counts.1.1 d among
      obtain ⟨count,calm⟩ := marksRun all run
      rw [List.map_map] at count calm
      have sum : (parts.map ((fun g => (marks g).1) ∘ Glyph.char)).sum = (marks (.char c)).1 := counts.1.2
      rw [sum] at count calm
      rw [runAfterMark starter] at short ⊢
      exact ⟨calm short,count⟩
  · rw [if_neg mark] at counts
    simp [letter] at counts

theorem piecesSelf {c : Char} (final : decomposeChar c = [c]) : Pieces c [c] := by
  refine ⟨List.forall_mem_singleton.mpr final,List.isChain_singleton _,.inl rfl,fun starter => ⟨c,[],rfl,starter⟩,?_,?_⟩
  · exact fun run short => ⟨⟨short,trivial⟩,rfl⟩
  · exact fun _ _ => rfl

namespace Hangul

structure Jamo (c : Char) (count : Nat) : Prop where
  final : decomposeChar c = [c]
  starter : glyphClass (.char c) = 0
  plain : normalChar c = c
  marks : marks (.char c) = (count,count)

theorem jamoFit {c : Char} {count : Nat} (fit : fitJamo count c) : Jamo c count := by
  obtain ⟨final,starter,plain,marks⟩ := of_decide_eq_true fit
  exact ⟨final,starter,plain,marks⟩

section Jamo

variable {c : Char}

theorem jamoLead (low : 0x1100 ≤ c.toNat) (high : c.toNat < 0x1100 + 19) : Jamo c 0 :=
  jamoFit (rangeEach tablesFit.leads low high)

theorem jamoVowel (low : 0x1161 ≤ c.toNat) (high : c.toNat < 0x1161 + 21) : Jamo c 1 :=
  jamoFit (rangeEach tablesFit.vowels low high)

theorem jamoTail (low : 0x11A8 ≤ c.toNat) (high : c.toNat < 0x11A8 + 27) : Jamo c 1 :=
  jamoFit (rangeEach tablesFit.tails low high)

end Jamo

theorem syllableRange {n : Nat} (syllable : isSyllable n) : 0xAC00 ≤ n ∧ n ≤ 0xD7A3 := by simpa [isSyllable] using syllable

theorem syllableParts {n : Nat} (syllable : isSyllable n) : ∃ l v, Jamo l 0 ∧ Jamo v 1 ∧
    (isOpen n = true ∧ decompose n = [l,v] ∨ isOpen n = false ∧ ∃ t, Jamo t 1 ∧ decompose n = [l,v,t]) := by
  have range := syllableRange syllable
  have lead : (Char.ofNat (0x1100 + (n - 0xAC00) / 588)).toNat = 0x1100 + (n - 0xAC00) / 588 := toNatOfNat (.inl (by omega))
  have vowel : (Char.ofNat (0x1161 + (n - 0xAC00) % 588 / 28)).toNat = 0x1161 + (n - 0xAC00) % 588 / 28 :=
    toNatOfNat (.inl (by omega))
  have tail : (Char.ofNat (0x11A7 + (n - 0xAC00) % 28)).toNat = 0x11A7 + (n - 0xAC00) % 28 := toNatOfNat (.inl (by omega))
  refine ⟨_,_,jamoLead (by rw [lead]; omega) (by rw [lead]; omega),jamoVowel (by rw [vowel]; omega) (by rw [vowel]; omega),?_⟩
  by_cases none : (n - 0xAC00) % 28 = 0
  · exact .inl ⟨by simp [isOpen,syllable,none],by simp only [decompose,if_pos none]⟩
  · exact .inr ⟨by simp [isOpen,none],_,jamoTail (by rw [tail]; omega) (by rw [tail]; omega),by simp only [decompose,if_neg none]⟩

end Hangul

theorem marksSyllable {c : Char} (syllable : Hangul.isSyllable c.toNat) :
    marks (.char c) = (0,if Hangul.isOpen c.toNat then 1 else 2) := by
  have range := Hangul.syllableRange syllable
  simp only [marks]
  rw [if_neg (by omega),if_pos syllable]

theorem piecesSyllable {c : Char} (syllable : Hangul.isSyllable c.toNat) : Pieces c (Hangul.decompose c.toNat) := by
  have counts := marksSyllable syllable
  obtain ⟨l,v,lead,vowel,⟨hasNone,parts⟩ | ⟨hasTail,t,tail,parts⟩⟩ := Hangul.syllableParts syllable
  · rw [parts]
    rw [hasNone,if_pos rfl] at counts
    refine ⟨by simp [lead.final,vowel.final],by simp [Ordered,vowel.starter],.inr (by simp [lead.plain,vowel.plain]),
      fun _ => ⟨l,[v],rfl,by rw [lead.marks]⟩,fun run _ => ?_,fun mark => absurd (by rw [counts]) mark⟩
    simp [Calm,runAfter,lead.marks,vowel.marks,counts,maxMarks]
  · rw [parts]
    rw [hasTail,if_neg Bool.false_ne_true] at counts
    refine ⟨by simp [lead.final,vowel.final,tail.final],by simp [Ordered,vowel.starter,tail.starter],
      .inr (by simp [lead.plain,vowel.plain,tail.plain]),fun _ => ⟨l,[v,t],rfl,by rw [lead.marks]⟩,fun run _ => ?_,
      fun mark => absurd (by rw [counts]) mark⟩
    simp [Calm,runAfter,lead.marks,vowel.marks,tail.marks,counts,maxMarks]

theorem piecesOf (c : Char) : Pieces c (decomposeChar c) := by
  by_cases small : c.toNat < 0xC0
  · have final : decomposeChar c = [c] := if_pos small
    rw [final]
    exact piecesSelf final
  · by_cases syllable : Hangul.isSyllable c.toNat
    · have parts : decomposeChar c = Hangul.decompose c.toNat := by rw [decomposeChar,if_neg small,if_pos syllable]
      rw [parts]
      exact piecesSyllable syllable
    · have parts : decomposeChar c = (decompositions.value? c.toNat).getD [c] := by
        rw [decomposeChar,if_neg small,if_neg syllable]
      cases found : decompositions.find? c.toNat with
      | none =>
        rw [CodeMap.value?,found] at parts
        have final : decomposeChar c = [c] := parts
        rw [final]
        exact piecesSelf final
      | some entry =>
        rw [CodeMap.value?,found] at parts
        rw [parts]
        exact piecesFit (CodeMap.findEach tablesFit.parts found)

/-! Joining -/

structure Joins (a b c : Char) : Prop where
  parts : decomposeChar c = decomposeChar a ++ [b]
  plain : normalChar c = c
  first : (marks (.char a)).1 = 0
  second : (marks (.char b)).1 ≠ 0
  marks : marks (.char c) = (0,(marks (.char a)).2 + (marks (.char b)).1)

theorem joinsFit {a b c : Char} (fit : fitJoins a b c) : Joins a b c := by
  obtain ⟨parts,usual,first,second,_,marks⟩ := of_decide_eq_true fit
  rw [partsAgree,partsAgree] at parts
  rw [quickAgrees] at first second marks
  rw [quickAgrees,quickAgrees] at marks
  exact ⟨parts,usualNormal usual,first,second,marks⟩

namespace Hangul

theorem syllableUsual {c : Char} (syllable : isSyllable c.toNat) : normalChar c = c := by
  have range := syllableRange syllable
  refine usualNormal ?_
  simp only [isUsual,Bool.or_eq_true,Bool.and_eq_true,bne_iff_ne,decide_eq_true_eq]
  omega

theorem decomposeSyllable {c : Char} (syllable : isSyllable c.toNat) : decomposeChar c = decompose c.toNat := by
  have range := syllableRange syllable
  rw [decomposeChar,if_neg (by omega),if_pos syllable]

theorem syllableOf {n : Nat} (low : 0xAC00 ≤ n) (high : n ≤ 0xD7A3) : (Char.ofNat n).toNat = n ∧ isSyllable (Char.ofNat n).toNat := by
  have same : (Char.ofNat n).toNat = n := toNatOfNat (.inl (by omega))
  exact ⟨same,by simp [same,isSyllable,low,high]⟩

theorem joinsOpen {a b : Char} (lead : isLead a.toNat) (vowel : isVowel b.toNat) :
    Joins a b (Char.ofNat (0xAC00 + (a.toNat - 0x1100) * 588 + (b.toNat - 0x1161) * 28)) := by
  have first : 0x1100 ≤ a.toNat ∧ a.toNat ≤ 0x1112 := by simpa [isLead] using lead
  have second : 0x1161 ≤ b.toNat ∧ b.toNat ≤ 0x1175 := by simpa [isVowel] using vowel
  obtain ⟨n,number⟩ : ∃ n, n = 0xAC00 + (a.toNat - 0x1100) * 588 + (b.toNat - 0x1161) * 28 := ⟨_,rfl⟩
  rw [← number]
  obtain ⟨same,syllable⟩ := syllableOf (n := n) (by omega) (by omega)
  have whole : (n - 0xAC00) % 28 = 0 := by omega
  have opened : isOpen (Char.ofNat n).toNat = true := by
    rw [isOpen,syllable,same,whole]
    rfl
  have jamo := jamoLead first.1 (by omega)
  have jamo' := jamoVowel second.1 (by omega)
  have parts : decompose n = [a,b] := by
    have lead : 0x1100 + (n - 0xAC00) / 588 = a.toNat := by omega
    have vowel : 0x1161 + (n - 0xAC00) % 588 / 28 = b.toNat := by omega
    simp only [decompose,if_pos whole,lead,vowel,Char.ofNat_toNat]
  refine ⟨?_,syllableUsual syllable,by rw [jamo.marks],by rw [jamo'.marks]; decide,?_⟩
  · rw [decomposeSyllable syllable,same,parts,jamo.final]
    rfl
  · rw [marksSyllable syllable,opened,jamo.marks,jamo'.marks]
    rfl

theorem joinsTail {a b : Char} (opened : isOpen a.toNat) (tail : isTail b.toNat) :
    Joins a b (Char.ofNat (a.toNat + (b.toNat - 0x11A7))) := by
  obtain ⟨base,zero⟩ := Bool.and_eq_true_iff.mp opened
  have whole : (a.toNat - 0xAC00) % 28 = 0 := by simpa using zero
  have first := syllableRange base
  have second : 0x11A8 ≤ b.toNat ∧ b.toNat ≤ 0x11C2 := by simpa [isTail] using tail
  obtain ⟨n,number⟩ : ∃ n, n = a.toNat + (b.toNat - 0x11A7) := ⟨_,rfl⟩
  rw [← number]
  obtain ⟨same,syllable⟩ := syllableOf (n := n) (by omega) (by omega)
  have rest : (n - 0xAC00) % 28 ≠ 0 := by omega
  have closed : isOpen (Char.ofNat n).toNat = false := by simp [isOpen,same,rest]
  have jamo := jamoTail second.1 (by omega)
  have parts : decompose n = decompose a.toNat ++ [b] := by
    have lead : 0x1100 + (n - 0xAC00) / 588 = 0x1100 + (a.toNat - 0xAC00) / 588 := by omega
    have vowel : 0x1161 + (n - 0xAC00) % 588 / 28 = 0x1161 + (a.toNat - 0xAC00) % 588 / 28 := by omega
    have tail : 0x11A7 + (n - 0xAC00) % 28 = b.toNat := by omega
    simp only [decompose,if_pos whole,if_neg rest,lead,vowel,tail,Char.ofNat_toNat,List.cons_append,List.nil_append]
  have counts : Text.marks (.char a) = (0,1) := by rw [marksSyllable base,opened]; rfl
  refine ⟨?_,syllableUsual syllable,by rw [counts],by rw [jamo.marks]; decide,?_⟩
  · rw [decomposeSyllable syllable,decomposeSyllable base,same,parts]
  · rw [marksSyllable syllable,closed,counts,jamo.marks]
    rfl

theorem joinsSyllable {a b c : Char} (joined : compose? a.toNat b.toNat = some c) : Joins a b c := by
  unfold compose? at joined
  split_ifs at joined with lead opened
  · obtain ⟨lead,vowel⟩ := Bool.and_eq_true_iff.mp lead
    exact Option.some.inj joined ▸ joinsOpen lead vowel
  · obtain ⟨opened,tail⟩ := Bool.and_eq_true_iff.mp opened
    exact Option.some.inj joined ▸ joinsTail opened tail

end Hangul

theorem pairFit {a b c : Char} (joined : composePair? a b = some c) :
    Hangul.compose? a.toNat b.toNat = some c ∨ fitJoins a b c := by
  cases hangul : Hangul.compose? a.toNat b.toNat with
  | some d =>
    have same : composePair? a b = some d := by rw [composePair?,hangul]
    exact .inl (same.symm.trans joined)
  | none =>
    rw [composePair?,hangul] at joined
    cases found : composites.find? a.toNat with
    | none =>
      rw [CodeMap.value?,found] at joined
      contradiction
    | some entry =>
      rw [CodeMap.value?,found] at joined
      obtain ⟨before,after,listed,_⟩ := List.lookup_eq_some_iff.mp joined
      have pairs : (b,c) ∈ paired entry.2 := by
        rw [show paired entry.2 = before ++ (b,c) :: after from listed]
        exact List.mem_append_right _ List.mem_cons_self
      obtain ⟨d,there,same⟩ := List.mem_map.mp pairs
      cases same
      have fits := List.all_eq_true.mp (CodeMap.findEach tablesFit.pairs found) c there
      rw [listedAgrees,List.head?_reverse] at fits
      obtain ⟨b,last,fit⟩ := (Option.any_eq_true _ _).mp fits
      rw [List.getLastD_eq_getLast?,last]
      exact .inr fit

section Pair

variable {a b c : Char}

theorem joinsPair (joined : composePair? a b = some c) : Joins a b c := by
  rcases pairFit joined with hangul | fit
  · exact Hangul.joinsSyllable hangul
  · exact joinsFit fit

theorem letterPair (letter : Cursor.isNameLetter b) (joined : composePair? a b = some c) :
    Hangul.compose? a.toNat b.toNat = some c := by
  rcases pairFit joined with hangul | fit
  · exact hangul
  · obtain ⟨_,_,_,_,other,_⟩ := of_decide_eq_true fit
    exact absurd letter (Bool.eq_false_iff.mp (wordAgrees b ▸ other))

theorem starterUnpaired (starter : (marks (.char b)).1 = 0) (a : Char) : composePair? a b = none := by
  cases joined : composePair? a b with
  | none => rfl
  | some c => exact absurd starter (joinsPair joined).second

theorem pairSecondPlain (joined : composePair? a b = some c) : normalChar b = b := by
  have joins := joinsPair joined
  have pieces := piecesOf c
  obtain ⟨d,ds,first,_⟩ := (piecesOf a).starts joins.first
  rw [joins.parts,first] at pieces
  rcases pieces.plain with one | each
  · simp at one
  · exact each b (by simp)

end Pair

/-! Classes -/

theorem unclassed {c : Char} (none : combiningClass c = 0) : glyphClass (.char c) = 0 := by rw [glyphClass,none,ite_self]

theorem classFit {c : Char} (classed : glyphClass (.char c) ≠ 0) : (marks (.char c)).1 ≠ 0 ∧ Cursor.isNameLetter c = false := by
  have ranked : combiningClass c ≠ 0 := fun none => classed (unclassed none)
  cases found : combiningClasses.find? c.toNat with
  | none => simp [combiningClass,CodeMap.value?,found] at ranked
  | some entry => simpa [quickAgrees,wordAgrees] using CodeMap.findEach tablesFit.classes found

theorem classMark {g : Glyph} (classed : glyphClass g ≠ 0) : (marks g).1 ≠ 0 := by
  cases g with
  | stray b => exact absurd rfl classed
  | char c => exact (classFit classed).1

theorem starterClass {g : Glyph} (starter : (marks g).1 = 0) : glyphClass g = 0 := by
  by_contra classed
  exact classMark classed starter

theorem letterClass {c : Char} (letter : Cursor.isNameLetter c) : glyphClass (.char c) = 0 := by
  by_contra classed
  exact absurd letter (Bool.eq_false_iff.mp (classFit classed).2)

/-! Other widths -/

structure Moves (c : Char) : Prop where
  final : decomposeChar c = [c]
  starter : glyphClass (.char c) = 0
  alone : ∀ b, composePair? c b = none
  final' : decomposeChar (normalChar c) = [normalChar c]
  marks : marks (.char (normalChar c)) = marks (.char c)
  settled : normalChar (normalChar c) = normalChar c
  starter' : isSoundMark c = false → glyphClass (.char (normalChar c)) = 0
  unpaired' : isSoundMark c = false → ∀ a, composePair? a (normalChar c) = none
  foreign : ∀ b, Hangul.compose? (normalChar c).toNat b = none
  foreign' : ∀ a, Hangul.compose? a (normalChar c).toNat = none

theorem foreignApart {n : Nat} (foreign : isForeign n) (m : Nat) : Hangul.compose? n m = none ∧ Hangul.compose? m n = none := by
  have outside {low high : Nat} (within : 0x1100 ≤ low ∧ high ≤ 0x11C2 ∨ 0xAC00 ≤ low ∧ high ≤ 0xD7A3) :
      (decide (low ≤ n) && decide (n ≤ high)) = false := by
    simp only [isForeign,Bool.or_eq_true,Bool.and_eq_true,decide_eq_true_eq] at foreign
    simp only [Bool.and_eq_false_iff,decide_eq_false_iff_not]
    omega
  have lead : Hangul.isLead n = false := outside (by decide)
  have syllable : Hangul.isSyllable n = false := outside (by decide)
  have vowel : Hangul.isVowel n = false := outside (by decide)
  have tail : Hangul.isTail n = false := outside (by decide)
  simp [Hangul.compose?,Hangul.isOpen,lead,syllable,vowel,tail]

theorem movesFit {c : Char} (fit : fitMoves c) : Moves c := by
  simp only [fitMoves,quickAgrees,wordAgrees,classAgrees,CodeMap.seekFind,Option.isNone_iff_eq_none,Bool.and_eq_true,
    decide_eq_true_eq] at fit
  obtain ⟨⟨⟨⟨⟨⟨final,final'⟩,usual⟩,foreign⟩,foreign'⟩,starter,unlisted,marks⟩,others⟩ := fit
  have rest (other : isSoundMark c = false) : combiningClass (normalChar c) = 0 ∧
      ((Text.marks (.char c)).1 = 0 ∨ Cursor.isNameLetter (normalChar c)) := by simpa [other] using others
  refine ⟨finalAlone final,unclassed starter,fun b => ?_,finalAlone final',marks,usualNormal usual,
    fun other => unclassed (rest other).1,fun other a => ?_,fun b => (foreignApart foreign' b).1,fun a => (foreignApart foreign' a).2⟩
  · rw [composePair?,(foreignApart foreign b.toNat).1,CodeMap.value?,unlisted]
    rfl
  · rcases (rest other).2 with single | letter
    · exact starterUnpaired (by rw [marks]; exact single) a
    · cases joined : composePair? a (normalChar c) with
      | none => rfl
      | some d =>
        have hangul := letterPair letter joined
        rw [(foreignApart foreign' a.toNat).2] at hangul
        contradiction

theorem movesOf {c : Char} (moved : normalChar c ≠ c) : Moves c := by
  cases found : foldRuns.find? c.toNat with
  | some entry => exact movesFit (CodeMap.findEach tablesFit.moves found)
  | none =>
    have same : foldChar c = c := by rw [foldChar,CodeMap.shift,found]
    rw [normalChar,same,straighten] at moved
    split_ifs at moved with quote
    · rcases quote with rfl | rfl
      · exact movesFit tablesFit.quotes.1
      · exact movesFit tablesFit.quotes.2
    · exact absurd rfl moved

end Terakoya.Text
