import Mathlib.Algebra.GroupWithZero.Nat
import Mathlib.Data.List.TakeWhile
import Terakoya.Proofs.Decoding
import Terakoya.Proofs.Joined

/-! The lines of a text. Normalizing makes no newline and takes none away, so that the lines of a normalized
text are the lines of the text, each normalized by itself. A place that is found in the normalized text lies
on the line of the same number in the text that was written. -/
namespace Terakoya

section Split

variable {α β : Type} [BEq α] [LawfulBEq α] [BEq β] [LawfulBEq β] {x : α} {y : β}

theorem splitPartHasNone {t l : List α} (there : l ∈ t.splitOn x) : x ∉ l := by
  induction t generalizing l with
  | nil =>
    rw [List.splitOn_nil,List.mem_singleton] at there
    rw [there]
    exact List.not_mem_nil
  | cons a t ih =>
    rw [List.splitOn_cons_eq_if_modifyHead] at there
    split at there
    · rcases List.mem_cons.mp there with rfl | later
      · exact List.not_mem_nil
      · exact ih later
    · rename_i other
      obtain ⟨first,more,rest⟩ := List.exists_cons_of_ne_nil (List.splitOn_ne_nil x t)
      rw [rest,List.modifyHead_cons] at there
      rw [rest] at ih
      rcases List.mem_cons.mp there with rfl | later
      · exact List.not_mem_cons_of_ne_of_not_mem (fun same => other (beq_iff_eq.mpr same.symm)) (ih List.mem_cons_self)
      · exact ih (List.mem_cons_of_mem first later)

variable {f : List α → List β} (joined : ∀ s t, f (s ++ x :: t) = f s ++ y :: f t)

include joined

omit [BEq α] [LawfulBEq α] [BEq β] [LawfulBEq β] in
theorem mappedParts {ls} (some : ls ≠ []) : f ([x].intercalate ls) = [y].intercalate (ls.map f) := by
  induction ls with
  | nil => contradiction
  | cons l ls ih =>
    cases ls with
    | nil => simp only [List.map_cons,List.map_nil,List.intercalate_singleton]
    | cons k ls =>
      have inner := ih (List.cons_ne_nil k ls)
      simp only [List.map_cons,List.intercalate_cons_cons,List.append_assoc,List.singleton_append] at inner ⊢
      rw [joined,inner]

theorem splitMapped (made : ∀ {s}, y ∈ f s → x ∈ s) (t : List α) : (f t).splitOn y = (t.splitOn x).map f := by
  have some := List.splitOn_ne_nil x t
  have parts := mappedParts joined some
  rw [List.intercalate_splitOn] at parts
  rw [parts]
  refine List.splitOn_intercalate _ (fun l there => ?_) (by simp)
  obtain ⟨k,inside,rfl⟩ := List.mem_map.mp there
  exact fun separator => splitPartHasNone inside (made separator)

end Split

namespace Text

def lines (t : Text) : List Text := t.splitOn .newline

/-! What composing keeps -/

theorem memPlace {g h t} : h ∈ place g t ↔ h = g ∨ h ∈ t := by
  induction t with
  | nil => rw [place,List.mem_singleton,or_iff_left List.not_mem_nil]
  | cons k t ih =>
    rw [place]
    split
    · rw [List.mem_cons,ih,List.mem_cons]
      exact or_left_comm
    · rw [List.mem_cons]

theorem memReorder {h t} : h ∈ reorder t ↔ h ∈ t := by
  induction t with
  | nil => exact Iff.rfl
  | cons g t ih => rw [reorder,memPlace,ih,List.mem_cons]

structure Lasting (P : Glyph → Prop) : Prop where
  joiner : P joiner
  parts : ∀ {g}, P g → ∀ h ∈ decomposeGlyph g, P h
  joins : ∀ {a b c}, P (.char a) → composePair? a b = some c → P (.char c)

section Lasting

variable {P : Glyph → Prop} {t : Text}

theorem streamSafeAll (join : P joiner) {run} (all : ∀ g ∈ t, P g) : ∀ g ∈ streamSafe run t, P g := by
  induction t generalizing run with
  | nil => exact all
  | cons g t ih =>
    obtain ⟨first,rest⟩ := List.forall_mem_cons.mp all
    simp only [streamSafe]
    split
    · exact List.forall_mem_cons.mpr ⟨first,ih rest⟩
    · split
      · exact List.forall_mem_cons.mpr ⟨join,List.forall_mem_cons.mpr ⟨first,ih rest⟩⟩
      · exact List.forall_mem_cons.mpr ⟨first,ih rest⟩

theorem composeBothAll (joins : ∀ {a b c}, P (.char a) → composePair? a b = some c → P (.char c)) (all : ∀ g ∈ t, P g) :
    (∀ starter skipped, P (.char starter) → (∀ c ∈ skipped, P (.char c)) → ∀ g ∈ composeFrom starter skipped t, P g) ∧
      ∀ g ∈ compose t, P g := by
  have written {starter : Char} {skipped : List Char} {u : Text} (first : P (.char starter))
      (others : ∀ c ∈ skipped, P (.char c)) (rest : ∀ g ∈ u, P g) :
      ∀ g ∈ Glyph.char starter :: (skipped.reverse.map .char ++ u), P g := by
    simp only [List.forall_mem_cons,List.forall_mem_append,List.forall_mem_map,List.mem_reverse]
    exact ⟨first,others,rest⟩
  unfold compose
  induction t with
  | nil =>
    refine ⟨fun starter skipped first others => ?_,all⟩
    rw [composeFrom,← List.append_nil (List.map _ _)]
    exact written first others all
  | cons g t ih =>
    obtain ⟨here,later⟩ := List.forall_mem_cons.mp all
    obtain ⟨behind,fresh⟩ := ih later
    have rest := List.forall_mem_cons.mpr ⟨here,fresh⟩
    cases g with
    | stray b =>
      refine ⟨fun starter skipped first others => ?_,?_⟩
      · rw [composeFrom]
        exact written first others rest
      · rw [composeFrom.composeStart]
        exact rest
    | char c =>
      have alone := behind c [] here (List.forall_mem_nil _)
      refine ⟨fun starter skipped first others => ?_,?_⟩
      · rw [composeChar]
        split
        · rename_i joined found
          split at found
          · exact behind joined skipped (joins first found) others
          · contradiction
        · split
          · exact written first others alone
          · exact behind starter (c :: skipped) first (List.forall_mem_cons.mpr ⟨here,others⟩)
      · rw [composeFrom.composeStart]
        split
        · exact alone
        · exact rest

theorem lastingCanonical (lasting : Lasting P) (all : ∀ g ∈ t, P g) : ∀ g ∈ canonical t, P g := by
  refine (composeBothAll lasting.joins fun h there => ?_).2
  obtain ⟨g,inside,part⟩ := List.mem_flatMap.mp (memReorder.mp there)
  exact lasting.parts (streamSafeAll lasting.joiner all g inside) h part

end Lasting

/-! Normalizing makes no newline -/

theorem numberOfNewline {n} (same : Char.ofNat n = '\n') : n = 10 := by
  by_cases valid : n.isValidChar
  · have number : Char.ofNat n = Char.ofNatAux n valid := dif_pos valid
    exact congrArg Char.toNat (number.symm.trans same)
  · have other : Char.ofNat n = '\x00' := dif_neg valid
    rw [same] at other
    contradiction

theorem decomposeCharNewline {c} (there : '\n' ∈ decomposeChar c) : c = '\n' := by
  have plain : decompositions.all fun _ _ cs => !cs.contains '\n' := by decide +kernel
  unfold decomposeChar at there
  split at there
  · exact (List.mem_singleton.mp there).symm
  · split at there
    · unfold Hangul.decompose at there
      dsimp only at there
      -- the parts of a syllable are far from a newline
      split at there
      · simp only [List.mem_cons,List.not_mem_nil,or_false] at there
        rcases there with same | same <;> exact absurd (numberOfNewline same.symm) (by omega)
      · simp only [List.mem_cons,List.not_mem_nil,or_false] at there
        rcases there with same | same | same <;> exact absurd (numberOfNewline same.symm) (by omega)
    · cases found : decompositions.find? c.toNat with
      | none =>
        rw [CodeMap.value?,found,Option.map_none,Option.getD_none] at there
        exact (List.mem_singleton.mp there).symm
      | some entry =>
        obtain ⟨_,_,_,none⟩ := CodeMap.findRange plain found
        rw [CodeMap.value?,found,Option.map_some,Option.getD_some] at there
        simp [there] at none

theorem composedIsNoNewline {a b c} (joined : composePair? a b = some c) : c ≠ '\n' := by
  have plain : composites.all fun _ _ made => (paired made).all fun pair => pair.2 != '\n' := by decide +kernel
  rintro rfl
  unfold composePair? at joined
  split at joined
  · rename_i d hangul
    rw [joined] at hangul
    unfold Hangul.compose? at hangul
    split at hangul
    · exact absurd (numberOfNewline (Option.some.inj hangul)) (by omega)
    · split at hangul
      · rename_i both
        have syllable : 0xAC00 ≤ a.toNat := by
          simp only [Hangul.isOpen,Hangul.isSyllable,Bool.and_eq_true,decide_eq_true_eq] at both
          exact both.1.1.1
        exact absurd (numberOfNewline (Option.some.inj hangul)) (by omega)
      · contradiction
  · cases found : composites.find? a.toNat with
    | none =>
      rw [CodeMap.value?,found] at joined
      contradiction
    | some entry =>
      obtain ⟨_,_,_,none⟩ := CodeMap.findRange plain found
      rw [CodeMap.value?,found,Option.map_some,Option.getD_some] at joined
      obtain ⟨before,after,pairs,_⟩ := List.lookup_eq_some_iff.mp joined
      simp [pairs] at none

theorem lastingNoNewline : Lasting (· ≠ .newline) where
  joiner := by decide
  parts {g} other h part := by
    rintro rfl
    cases g with
    | stray b => simp [decomposeGlyph,Glyph.newline] at part
    | char c =>
      obtain ⟨d,from',same⟩ := List.mem_map.mp part
      cases same
      exact other (congrArg _ (decomposeCharNewline from'))
  joins _ joined same := composedIsNoNewline joined (Glyph.char.inj same)

theorem foldNewline {c} (same : foldChar c = '\n') : c = '\n' := by
  have high : foldRuns.all fun _ _ run => 10 < run.target := by decide +kernel
  unfold foldChar CodeMap.shift at same
  split at same
  · exact same
  · rename_i first run found
    obtain ⟨_,_,_,above⟩ := CodeMap.findRange high found
    simp only [decide_eq_true_eq] at above
    split at same
    · exact absurd (numberOfNewline same) (by omega)
    · exact same

theorem straightenNewline {c} (same : straighten c = '\n') : c = '\n' := by
  unfold straighten at same
  split at same
  · contradiction
  · exact same

theorem mapNewline {f : Char → Char} (only : ∀ {c}, f c = '\n' → c = '\n') {t}
    (there : .newline ∈ mapChars f t) : .newline ∈ t := by
  obtain ⟨g,inside,same⟩ := List.mem_map.mp there
  cases g with
  | stray b => contradiction
  | char c =>
    rw [only (Glyph.char.inj same)] at inside
    exact inside

theorem normalizeNewline {t} (there : .newline ∈ normalize t) : .newline ∈ t := by
  have composed := mapNewline foldNewline (mapNewline straightenNewline there)
  by_contra absent
  exact lastingCanonical lastingNoNewline (fun g inside same => absent (same ▸ inside)) _ composed rfl

theorem linesNormalized (t : Text) : lines (normalize t) = (lines t).map normalize :=
  splitMapped normalizeJoined normalizeNewline t

/-! Lines of a file -/

theorem decodeAfterJoined (skip : Nat) (x y : List UInt8) (within : skip ≤ x.length) :
    decodeAfter skip (x ++ 10 :: y) = decodeAfter skip x ++ .newline :: decode y := by
  induction x generalizing skip with
  | nil =>
    obtain rfl : skip = 0 := Nat.le_zero.mp within
    rfl
  | cons b x ih =>
    cases skip with
    | succ skip => exact ih skip (Nat.le_of_succ_le_succ within)
    | zero =>
      simp only [List.cons_append,decodeAfter,leadingStops b x (s := 10) rfl]
      cases leads : leading? b x with
      | none => exact congrArg _ (ih 0 (Nat.zero_le _))
      | some first => exact congrArg _ (ih first.2 (leadingBytes leads).1)

theorem leadingNewline {b x more} (leads : leading? b x = some ('\n',more)) : b = 10 := by
  have bytes : [10] = b :: x.take more := (leadingBytes leads).2
  exact (List.cons.inj bytes).1.symm

theorem decodeNewline {skip x} (there : .newline ∈ decodeAfter skip x) : 10 ∈ x := by
  induction x generalizing skip with
  | nil => cases skip <;> contradiction
  | cons b x ih =>
    cases skip with
    | succ skip => exact List.mem_cons_of_mem b (ih there)
    | zero =>
      simp only [decodeAfter] at there
      split at there
      · rename_i c more leads
        rcases List.mem_cons.mp there with same | later
        · cases same
          rw [leadingNewline leads]
          exact List.mem_cons_self
        · exact List.mem_cons_of_mem b (ih later)
      · exact List.mem_cons_of_mem b (ih ((List.mem_cons.mp there).resolve_left fun same => by cases same))

theorem linesDecoded (bytes : List UInt8) : lines (decode bytes) = (bytes.splitOn 10).map decode :=
  splitMapped (fun x y => decodeAfterJoined 0 x y (Nat.zero_le _)) decodeNewline bytes

end Text

namespace Text

theorem linesCons (g : Glyph) (t : Text) :
    lines (g :: t) = if g = .newline then [] :: lines t else (lines t).modifyHead (g :: ·) := by
  rw [lines,List.splitOn_cons_eq_if_modifyHead]
  simp only [beq_iff_eq]
  rfl

theorem linesCount (t : Text) : (lines t).length = t.count .newline + 1 := by
  induction t with
  | nil => rfl
  | cons g t ih =>
    rw [linesCons,List.count_cons]
    split
    · rename_i newline
      rw [List.length_cons,ih,newline,beq_self_eq_true,if_pos rfl]
    · rename_i other
      rw [List.length_modifyHead,ih,beq_eq_false_iff_ne.mpr other,if_neg Bool.false_ne_true]

theorem linesWidth (t : Text) : ((lines t).map fun l => width l + 1).sum = width t + 1 := by
  induction t with
  | nil => rfl
  | cons g t ih =>
    rw [linesCons]
    split
    · rename_i newline
      have one : Glyph.width .newline = 1 := rfl
      rw [List.map_cons,List.sum_cons,ih,newline,width,width,one]
      omega
    · obtain ⟨first,more,rest⟩ := List.exists_cons_of_ne_nil (List.splitOn_ne_nil Glyph.newline t)
      have rest : lines t = first :: more := rest
      rw [rest,List.map_cons,List.sum_cons] at ih
      rw [rest,List.modifyHead_cons,List.map_cons,List.sum_cons,width,width]
      omega

theorem takeWhileNewline {l : Text} (plain : .newline ∉ l) (t : Text) :
    (l ++ .newline :: t).takeWhile (· ≠ .newline) = l := by
  rw [List.takeWhile_append_of_pos fun g there => ?_,List.takeWhile_cons]
  · simp
  · exact decide_eq_true fun same => plain (same ▸ there)

theorem takeWhilePlain {l : Text} (plain : .newline ∉ l) : l.takeWhile (· ≠ .newline) = l := by
  rw [List.takeWhile_eq_self_iff]
  exact fun g there => decide_eq_true fun same => plain (same ▸ there)

theorem firstOfLines {u : Text} (plain : .newline ∉ u) (v : Text) : (lines (u ++ v))[0]? = some (u ++ firstLine v) := by
  by_cases newline : .newline ∈ v
  · obtain ⟨f,rest,rfl,none⟩ := List.eq_append_cons_of_mem newline
    have both : Glyph.newline ∉ u ++ f := fun there => (List.mem_append.mp there).elim plain none
    rw [firstLine,takeWhileNewline none,← List.append_assoc,lines,List.splitOn_append_cons_self_of_not_mem both,
      List.getElem?_cons_zero]
  · have both : Glyph.newline ∉ u ++ v := fun there => (List.mem_append.mp there).elim plain newline
    rw [firstLine,takeWhilePlain newline,lines,List.splitOn_eq_singleton both,List.getElem?_cons_zero]

end Text

namespace Location

open Text (lines width firstLine)

theorem lastLineCases (u : Text) : (.newline ∉ u ∧ lastLine u = u) ∨
    ∃ w l, u = w ++ .newline :: l ∧ .newline ∉ l ∧ lastLine u = l := by
  by_cases newline : .newline ∈ u
  · obtain ⟨l,w,whole,none⟩ := List.eq_append_cons_of_mem (List.mem_reverse.mpr newline)
    refine .inr ⟨w.reverse,l.reverse,?_,by rwa [List.mem_reverse],by rw [lastLine,whole,Text.takeWhileNewline none]⟩
    rw [← List.reverse_reverse u,whole,List.reverse_append,List.reverse_cons,List.append_assoc,List.singleton_append]
  · refine .inl ⟨newline,?_⟩
    rw [lastLine,Text.takeWhilePlain (by rwa [List.mem_reverse]),List.reverse_reverse]

theorem lineAt (u v : Text) : (lines (u ++ v))[u.count .newline]? = some (lastLine u ++ firstLine v) ∧
    (((lines (u ++ v)).take (u.count .newline)).map fun l => width l + 1).sum + width (lastLine u) = width u := by
  rcases lastLineCases u with ⟨none,last⟩ | ⟨w,l,rfl,none,last⟩
  · rw [last,List.count_eq_zero_of_not_mem none]
    exact ⟨Text.firstOfLines none v,Nat.zero_add _⟩
  · have split : lines (w ++ .newline :: l ++ v) = lines w ++ lines (l ++ v) := by
      rw [List.append_assoc,List.cons_append,lines,List.splitOn_append_cons_self]
      rfl
    have count : (w ++ .newline :: l).count .newline = (lines w).length := by
      rw [Text.linesCount,List.count_append,List.count_cons_self,List.count_eq_zero_of_not_mem none]
    rw [last,split,count,List.getElem?_append_right (Nat.le_refl _),Nat.sub_self,List.take_left]
    refine ⟨Text.firstOfLines none v,?_⟩
    rw [Text.linesWidth,Text.widthAppend,Text.width,Nat.add_assoc]
    rfl

theorem cutParts {offset t} (within : offset ≤ width t) :
    t = (cut offset t).1 ++ (cut offset t).2.2 ∧ width (cut offset t).1 + (cut offset t).2.1 = offset ∧
      ((cut offset t).2.1 = 0 ∨ ∃ g u, (cut offset t).2.2 = g :: u ∧ (cut offset t).2.1 < g.width) := by
  induction t generalizing offset with
  | nil => exact ⟨rfl,(Nat.le_zero.mp within).symm,.inl rfl⟩
  | cons g t ih =>
    rw [width] at within
    rw [cut]
    split
    · have within : offset - g.width ≤ width t := by omega
      obtain ⟨parts,sum,last⟩ := ih within
      refine ⟨congrArg (g :: ·) parts,?_,last⟩
      dsimp only
      rw [width,Nat.add_assoc,sum,Nat.add_sub_cancel' ‹_›]
    · rename_i above
      exact ⟨rfl,Nat.zero_add _,.inr ⟨g,t,rfl,Nat.lt_of_not_le above⟩⟩

/-- A place lies on a line of a text as it was written: the line of its number is the one that is shown, once
it is normalized, and the offset is not before it and not behind it. -/
structure OnLine (l : Location) (t line : Text) : Prop where
  counted : 0 < l.line ∧ (lines t)[l.line - 1]? = some line
  shown : l.lineText = Text.trimRight (Glyph.is '\r') (Text.normalize line)
  begins : (((lines t).take (l.line - 1)).map fun k => width (Text.normalize k) + 1).sum ≤ l.offset
  ends : l.offset ≤ (((lines t).take (l.line - 1)).map fun k => width (Text.normalize k) + 1).sum + width (Text.normalize line)

theorem partOfLine {partly : Nat} {rest : Text} (inside : partly = 0 ∨ ∃ g u, rest = g :: u ∧ partly < g.width) :
    partly = 0 ∨ ∃ g u, firstLine rest = g :: u ∧ partly < g.width := by
  rcases inside with none | ⟨g,u,rfl,below⟩
  · exact .inl none
  · by_cases newline : g = .newline
    · subst newline
      exact .inl (Nat.lt_one_iff.mp below)
    · have other : decide (g ≠ .newline) = true := decide_eq_true newline
      exact .inr ⟨g,firstLine u,by rw [firstLine,List.takeWhile_cons,if_pos other,firstLine],below⟩

theorem partWithin {partly : Nat} {v : Text} (inside : partly = 0 ∨ ∃ g w, v = g :: w ∧ partly < g.width) :
    partly ≤ width v := by
  rcases inside with rfl | ⟨g,w,rfl,below⟩
  · exact Nat.zero_le _
  · exact Nat.le_trans (Nat.le_of_lt below) (Nat.le_add_right _ _)

theorem lineParts (t : Text) (offset : Int) : ∃ k u partly v, (lines t)[k]? = some (u ++ v) ∧
    (((lines t).take k).map fun l => width l + 1).sum + width u + partly = min offset.toNat (width t) ∧
    (partly = 0 ∨ ∃ g w, v = g :: w ∧ partly < g.width) ∧ ofOffset t offset =
      ⟨k + 1,u.length + partly + 1,min offset.toNat (width t),Text.trimRight (Glyph.is '\r') (u ++ v)⟩ := by
  obtain ⟨parts,sum,inside⟩ := cutParts (Nat.min_le_right offset.toNat (width t))
  unfold ofOffset
  dsimp only
  generalize min offset.toNat (width t) = o at *
  generalize cut o t = c at *
  obtain ⟨before,partly,rest⟩ := c
  dsimp only at *
  obtain ⟨here,start⟩ := lineAt before rest
  rw [← parts] at here start
  exact ⟨_,lastLine before,partly,firstLine rest,here,by rw [start,sum],partOfLine inside,rfl⟩

theorem onLine (t : Text) (offset : Int) : ∃ line, (ofOffset (Text.normalize t) offset).OnLine t line := by
  obtain ⟨k,u,partly,v,here,sum,inside,place⟩ := lineParts (Text.normalize t) offset
  rw [Text.linesNormalized] at here sum
  obtain ⟨line,there,normal⟩ := Option.map_eq_some_iff.mp (List.getElem?_map ▸ here)
  rw [← List.map_take,List.map_map] at sum
  have long : width (Text.normalize line) = width u + width v := by rw [normal,Text.widthAppend]
  have part := partWithin inside
  rw [place]
  refine ⟨line,⟨Nat.succ_pos _,there⟩,by rw [normal],?_,?_⟩
  · show (((lines t).take k).map ((fun l => width l + 1) ∘ Text.normalize)).sum ≤ min _ _
    omega
  · show min _ _ ≤ (((lines t).take k).map ((fun l => width l + 1) ∘ Text.normalize)).sum + _
    omega

end Location
end Terakoya
