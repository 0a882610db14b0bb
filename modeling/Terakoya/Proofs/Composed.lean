import Terakoya.Proofs.Characters

/-! Composing twice is composing once. What is composed is taken apart and put in order into the text that it was
composed of, and no run of marks gets longer on the way. -/
namespace Terakoya.Text

/-! Order -/

section Order

variable {g h : Glyph} {s t : Text}

theorem placeStarter (starter : glyphClass g = 0) (t : Text) : place g t = g :: t := by
  cases t with
  | nil => rfl
  | cons h t => rw [place,starter,if_neg fun below => Nat.not_lt_zero _ below.2]

theorem orderedCons : Ordered (g :: h :: t) ↔ (glyphClass h = 0 ∨ glyphClass g ≤ glyphClass h) ∧ Ordered (h :: t) :=
  List.isChain_cons_cons

theorem reorderAppend (s t : Text) : reorder (s ++ t) = s.foldr place (reorder t) := by
  induction s with
  | nil => rfl
  | cons g s ih => rw [List.cons_append,reorder,ih,List.foldr_cons]

theorem orderedPlace (ordered : Ordered t) : Ordered (place g t) := by
  induction t with
  | nil => exact List.isChain_singleton _
  | cons h t ih =>
    rw [place]
    split
    · rename_i below
      cases t with
      | nil => exact orderedCons.mpr ⟨.inr below.2.le,List.isChain_singleton _⟩
      | cons k t =>
        obtain ⟨first,rest⟩ := orderedCons.mp ordered
        have later := ih rest
        rw [place] at later ⊢
        split_ifs at later ⊢
        · exact orderedCons.mpr ⟨first,later⟩
        · exact orderedCons.mpr ⟨.inr below.2.le,later⟩
    · rename_i stays
      refine orderedCons.mpr ⟨?_,ordered⟩
      rcases Nat.eq_zero_or_pos (glyphClass h) with zero | classed
      · exact .inl zero
      · exact .inr (Nat.le_of_not_lt fun below => stays ⟨Nat.pos_iff_ne_zero.mp classed,below⟩)

theorem orderedReorder (t : Text) : Ordered (reorder t) := by
  induction t with
  | nil => exact List.isChain_nil
  | cons g t ih => exact orderedPlace ih

theorem reorderOrdered (ordered : Ordered t) : reorder t = t := by
  induction t with
  | nil => rfl
  | cons g t ih =>
    rw [reorder,ih ordered.tail]
    cases t with
    | nil => rfl
    | cons h t =>
      have first := (orderedCons.mp ordered).1
      rw [place,if_neg fun below => first.elim below.1 (Nat.not_le_of_lt below.2)]

theorem placeSwap (classed : glyphClass h ≠ 0) (below : glyphClass h < glyphClass g) (t : Text) :
    place g (place h t) = place h (place g t) := by
  induction t with
  | nil =>
    have stays : ¬(glyphClass g ≠ 0 ∧ glyphClass g < glyphClass h) := fun above => Nat.lt_asymm below above.2
    simp only [place,if_pos (And.intro classed below),if_neg stays]
  | cons k t ih =>
    by_cases passed : glyphClass k ≠ 0 ∧ glyphClass k < glyphClass h
    · have further : glyphClass k ≠ 0 ∧ glyphClass k < glyphClass g := ⟨passed.1,passed.2.trans below⟩
      rw [place,if_pos passed,place,if_pos further,ih,place,if_pos further,place,if_pos passed]
    · have stays : place h (k :: t) = h :: k :: t := by rw [place,if_neg passed]
      rw [stays,place,if_pos ⟨classed,below⟩,place]
      split
      · rw [place,if_neg passed]
      · rw [place,if_neg fun above => Nat.lt_asymm below above.2]

theorem placeAcross (above : ∀ h ∈ s, glyphClass h ≠ 0 ∧ glyphClass h < glyphClass g) (t : Text) :
    place g (s.foldr place t) = s.foldr place (place g t) := by
  induction s with
  | nil => rfl
  | cons h s ih =>
    obtain ⟨first,rest⟩ := List.forall_mem_cons.mp above
    rw [List.foldr_cons,List.foldr_cons,placeSwap first.1 first.2,ih rest]

theorem orderedRight (ordered : Ordered (s ++ t)) : Ordered t := (List.isChain_append.mp ordered).2.1

theorem orderedWithout (ordered : Ordered (s ++ g :: t)) (classed : s ≠ [] → glyphClass g ≠ 0) : Ordered (s ++ t) := by
  obtain ⟨first,rest,seam⟩ := List.isChain_append.mp ordered
  refine List.isChain_append.mpr ⟨first,rest.tail,fun x last y next => ?_⟩
  have some : s ≠ [] := fun none => by simp [none] at last
  cases t with
  | nil => contradiction
  | cons h t =>
    obtain rfl : h = y := Option.some.inj next
    rcases (orderedCons.mp rest).1 with zero | above
    · exact .inl zero
    · exact .inr (((seam x last g rfl).resolve_left (classed some)).trans above)

theorem orderedBelow (ordered : Ordered (s ++ [g])) (classed : ∀ h ∈ s ++ [g], glyphClass h ≠ 0) :
    ∀ h ∈ s, glyphClass h ≤ glyphClass g := by
  induction s with
  | nil => exact List.forall_mem_nil _
  | cons h s ih =>
    have later := ih ordered.tail (List.forall_mem_cons.mp classed).2
    refine List.forall_mem_cons.mpr ⟨?_,later⟩
    cases s with
    | nil => exact (orderedCons.mp ordered).1.resolve_left (classed g (by simp))
    | cons k s => exact ((orderedCons.mp ordered).1.resolve_left (classed k (by simp))).trans (later k List.mem_cons_self)

end Order

/-! Composing, one glyph after the other -/

abbrev Pending := Option (Char × List Char)

namespace Pending

def written : Pending → Text
  | none => []
  | some (starter,skipped) => .char starter :: skipped.reverse.map .char

def skipped (p : Pending) : Text := p.written.tail

def Marked (p : Pending) : Prop := ∀ g ∈ p.skipped, glyphClass g ≠ 0

def compose : Pending → Text → Text
  | none,t => composeFrom.composeStart t
  | some (starter,skipped),t => composeFrom starter skipped t

theorem composeNil (p : Pending) : p.compose [] = p.written := by
  rcases p with _ | ⟨starter,skipped⟩
  · rfl
  · rw [compose,composeFrom]
    rfl

theorem composeStray (p : Pending) (b : UInt8) (t : Text) :
    p.compose (.stray b :: t) = p.written ++ .stray b :: compose none t := by
  rcases p with _ | ⟨starter,skipped⟩
  · rfl
  · simp only [compose,composeFrom,written,List.cons_append]

theorem composeLeading (c : Char) (t : Text) :
    compose none (.char c :: t) = if glyphClass (.char c) = 0 then compose (some (c,[])) t else .char c :: compose none t := by
  rw [compose,composeFrom.composeStart]
  rfl

theorem composeNext (starter : Char) (skipped : List Char) (c : Char) (t : Text) :
    compose (some (starter,skipped)) (.char c :: t) =
      match if isFree skipped c then composePair? starter c else none with
      | some joined => compose (some (joined,skipped)) t
      | none =>
        if glyphClass (.char c) = 0 then written (some (starter,skipped)) ++ compose (some (c,[])) t
        else compose (some (starter,c :: skipped)) t := composeChar starter skipped c t

end Pending

inductive Composes : Pending → Text → Text → Prop where
  | ended (p : Pending) : Composes p [] p.written
  | stray (p : Pending) {b t u} (rest : Composes none t u) :
      Composes p (.stray b :: t) (p.written ++ .stray b :: u)
  | joined {starter c joined skipped t u}
      (above : ∀ k ∈ skipped, glyphClass (.char k) < glyphClass (.char c)) (pair : composePair? starter c = some joined)
      (rest : Composes (some (joined,skipped)) t u) : Composes (some (starter,skipped)) (.char c :: t) u
  | fresh (p : Pending) {c t u} (starter : glyphClass (.char c) = 0)
      (unpaired : ∀ s, p = some (s,[]) → composePair? s c = none) (rest : Composes (some (c,[])) t u) :
      Composes p (.char c :: t) (p.written ++ u)
  | skips {starter c skipped t u} (mark : glyphClass (.char c) ≠ 0)
      (rest : Composes (some (starter,c :: skipped)) t u) : Composes (some (starter,skipped)) (.char c :: t) u
  | leads {c t u} (mark : glyphClass (.char c) ≠ 0) (rest : Composes none t u) :
      Composes none (.char c :: t) (.char c :: u)

section Composes

variable {starter c : Char} {skipped : List Char} {p : Pending} {t u : Text}

theorem skippedMore : Pending.skipped (some (starter,c :: skipped)) = Pending.skipped (some (starter,skipped)) ++ [.char c] := by
  simp [Pending.skipped,Pending.written]

theorem writtenMore : Pending.written (some (starter,c :: skipped)) = Pending.written (some (starter,skipped)) ++ [.char c] := by
  simp [Pending.written]

theorem markedMore (marked : Pending.Marked (some (starter,skipped))) (mark : glyphClass (.char c) ≠ 0) :
    Pending.Marked (some (starter,c :: skipped)) := by
  rw [Pending.Marked,skippedMore]
  exact List.forall_mem_append.mpr ⟨marked,List.forall_mem_singleton.mpr mark⟩

theorem freeAbove (marked : Pending.Marked (some (starter,skipped)))
    (ordered : Ordered (Pending.skipped (some (starter,skipped)))) (free : isFree skipped c) :
    ∀ k ∈ skipped, glyphClass (.char k) < glyphClass (.char c) := by
  cases skipped with
  | nil => exact List.forall_mem_nil _
  | cons last older =>
    have below : glyphClass (.char last) < glyphClass (.char c) := by simpa [isFree] using free
    rw [Pending.Marked,skippedMore] at marked
    rw [skippedMore] at ordered
    refine List.forall_mem_cons.mpr ⟨below,fun k there => (orderedBelow ordered marked _ ?_).trans_lt below⟩
    simpa [Pending.skipped,Pending.written] using there

theorem composesText (t : Text) (p : Pending) (marked : p.Marked) (ordered : Ordered (p.skipped ++ t)) :
    Composes p t (p.compose t) := by
  induction t generalizing p with
  | nil =>
    rw [p.composeNil]
    exact .ended p
  | cons g t ih =>
    have later : Ordered t := (orderedRight ordered).tail
    cases g with
    | stray b =>
      rw [p.composeStray]
      exact .stray p (ih none (List.forall_mem_nil _) later)
    | char c =>
      have anew := ih (some (c,[])) (List.forall_mem_nil _) later
      rcases p with _ | ⟨starter,skipped⟩
      · rw [Pending.composeLeading]
        split
        · rename_i zero
          exact .fresh none zero (fun s none => absurd none (by simp)) anew
        · rename_i mark
          exact .leads mark (ih none (List.forall_mem_nil _) later)
      · have runs : Ordered (Pending.skipped (some (starter,skipped))) := (List.isChain_append.mp ordered).1
        rw [Pending.composeNext]
        split
        · rename_i joined found
          split_ifs at found with free
          have above := freeAbove marked runs free
          refine .joined above found (ih (some (joined,skipped)) marked (orderedWithout ordered fun some => ?_))
          obtain ⟨k,there⟩ : ∃ k, k ∈ skipped := List.exists_mem_of_ne_nil skipped (by rintro rfl; exact some rfl)
          exact Nat.ne_of_gt (Nat.zero_lt_of_lt (above k there))
        · rename_i found
          split
          · rename_i zero
            refine .fresh (some (starter,skipped)) zero (fun s same => ?_) anew
            cases same
            simpa [isFree] using found
          · rename_i mark
            refine .skips mark (ih (some (starter,c :: skipped)) (markedMore marked mark) ?_)
            rw [skippedMore,List.append_assoc]
            exact ordered

theorem decomposeFinal (final : ∀ g ∈ t, decomposeGlyph g = [g]) : decompose t = t := by
  induction t with
  | nil => rfl
  | cons g t ih =>
    obtain ⟨first,rest⟩ := List.forall_mem_cons.mp final
    have later : t.flatMap decomposeGlyph = t := ih rest
    rw [decompose,List.flatMap_cons,first,later,List.singleton_append]

theorem decomposeAppend (t u : Text) : decompose (t ++ u) = decompose t ++ decompose u := List.flatMap_append

theorem decomposeWritten (final : ∀ g ∈ Pending.skipped (some (starter,skipped)), decomposeGlyph g = [g]) :
    decompose (Pending.written (some (starter,skipped))) =
      (decomposeChar starter).map .char ++ Pending.skipped (some (starter,skipped)) := by
  have same := decomposeFinal final
  have whole : decompose (Pending.written (some (starter,skipped))) =
      decomposeGlyph (.char starter) ++ decompose (Pending.skipped (some (starter,skipped))) := List.flatMap_cons
  rw [whole,same]
  rfl

theorem composesBack (composes : Composes p t u) (marked : p.Marked)
    (final : ∀ g ∈ p.skipped ++ t, decomposeGlyph g = [g]) : reorder (decompose u) = reorder (decompose p.written ++ t) := by
  induction composes with
  | ended p => rw [List.append_nil]
  | @stray p b t u rest ih =>
    have back : reorder (decompose u) = reorder t :=
      ih (List.forall_mem_nil _) fun g there => final g (List.mem_append_right _ (List.mem_cons_of_mem _ there))
    have single : decompose (.stray b :: u) = .stray b :: decompose u := rfl
    rw [decomposeAppend,single,reorderAppend,reorder,back,reorderAppend,reorder]
  | @joined starter c joined skipped t u above pair rest ih =>
    obtain ⟨kept,others⟩ := List.forall_mem_append.mp final
    have back := ih marked (List.forall_mem_append.mpr ⟨kept,(List.forall_mem_cons.mp others).2⟩)
    have kept' : ∀ g ∈ Pending.skipped (some (joined,skipped)), decomposeGlyph g = [g] := kept
    have same : Pending.skipped (some (joined,skipped)) = Pending.skipped (some (starter,skipped)) := rfl
    have across : ∀ h ∈ Pending.skipped (some (starter,skipped)), glyphClass h ≠ 0 ∧ glyphClass h < glyphClass (.char c) := by
      intro h there
      refine ⟨marked h there,?_⟩
      obtain ⟨k,among,rfl⟩ : ∃ k ∈ skipped, Glyph.char k = h := by simpa [Pending.skipped,Pending.written] using there
      exact above k among
    rw [back,decomposeWritten kept',decomposeWritten kept,(joinsPair pair).parts,same]
    simp only [List.map_append,List.map_cons,List.map_nil,List.append_assoc,reorderAppend,List.foldr_cons,List.foldr_nil,
      reorder]
    rw [placeAcross across]
  | @fresh p c t u starter unpaired rest ih =>
    have others := (List.forall_mem_append.mp final).2
    have back := ih (List.forall_mem_nil _) (List.forall_mem_cons.mp others).2
    have single : decompose (Pending.written (some (c,[]))) = [.char c] := by
      rw [decomposeWritten (List.forall_mem_nil _)]
      have alone : (decomposeChar c).map Glyph.char = [.char c] := others (.char c) List.mem_cons_self
      rw [alone]
      rfl
    rw [decomposeAppend,reorderAppend,back,single,List.singleton_append,reorderAppend]
  | @skips starter c skipped t u mark rest ih =>
    have more : Pending.skipped (some (starter,c :: skipped)) ++ t =
        Pending.skipped (some (starter,skipped)) ++ .char c :: t := by
      rw [skippedMore,List.append_assoc,List.singleton_append]
    rw [← more] at final
    have kept := (List.forall_mem_append.mp final).1
    rw [ih (markedMore marked mark) final,decomposeWritten kept,List.append_assoc,more,← List.append_assoc,decomposeWritten]
    rw [skippedMore] at kept
    exact (List.forall_mem_append.mp kept).1
  | @leads c t u mark rest ih =>
    obtain ⟨first,others⟩ := List.forall_mem_cons.mp final
    have back := ih (List.forall_mem_nil _) others
    have single : decompose (.char c :: u) = .char c :: decompose u := by
      rw [decompose,List.flatMap_cons,first]
      rfl
    rw [single,reorder,back]
    rfl

/-! Runs of marks -/

theorem calmSlide {s g} (all : ∀ h ∈ s, (marks h).1 ≠ 0) (mark : (marks g).1 ≠ 0) {run}
    (calm : Calm run (s ++ g :: t)) : run + (marks g).1 ≤ maxMarks ∧ Calm (run + (marks g).1) (s ++ t) := by
  induction s generalizing run with
  | nil =>
    obtain ⟨short,rest⟩ := calm
    rw [runAfterMark mark] at short rest
    exact ⟨short,rest⟩
  | cons h s ih =>
    obtain ⟨first,others⟩ := List.forall_mem_cons.mp all
    obtain ⟨_,rest⟩ := calm
    obtain ⟨short,later⟩ := ih others rest
    rw [runAfterMark first,Nat.add_right_comm] at short later
    refine ⟨(Nat.le_add_right _ _).trans short,?_,?_⟩ <;> rw [runAfterMark first]
    · exact short
    · exact later

theorem composesCalm (composes : Composes p t u) (marked : p.Marked) {run}
    (calm : Calm run (p.written ++ t)) : Calm run u := by
  induction composes generalizing run with
  | ended p => rwa [List.append_nil] at calm
  | stray p rest ih =>
    obtain ⟨first,single,later⟩ := calmAppend.mp calm
    exact calmAppend.mpr ⟨first,single,ih (List.forall_mem_nil _) later⟩
  | @joined starter c joined skipped t u above pair rest ih =>
    have joins := joinsPair pair
    have marks' : ∀ g ∈ Pending.skipped (some (starter,skipped)), (marks g).1 ≠ 0 := fun g there => classMark (marked g there)
    obtain ⟨_,others⟩ := calm
    obtain ⟨short,later⟩ := calmSlide marks' joins.second others
    refine ih marked ?_
    have count : runAfter run (.char joined) = runAfter run (.char starter) + (marks (.char c)).1 := by
      rw [runAfterStarter joins.first,runAfterStarter (by rw [joins.marks]),joins.marks]
    rw [← count] at short later
    exact ⟨short,later⟩
  | @fresh p c t u starter unpaired rest ih =>
    obtain ⟨first,later⟩ := calmAppend.mp calm
    exact calmAppend.mpr ⟨first,ih (List.forall_mem_nil _) later⟩
  | @skips starter c skipped t u mark rest ih =>
    refine ih (markedMore marked mark) ?_
    rw [writtenMore,List.append_assoc]
    exact calm
  | leads mark rest ih => exact ⟨calm.1,ih (List.forall_mem_nil _) calm.2⟩

end Composes

section Calm

variable {run : Nat} {g : Glyph} {t : Text}

theorem calmPlace (calm : Calm run (g :: t)) : Calm run (place g t) := by
  induction t generalizing run with
  | nil => exact calm
  | cons h t ih =>
    rw [place]
    split
    · rename_i below
      have first : (marks g).1 ≠ 0 := classMark (Nat.ne_of_gt (Nat.zero_lt_of_lt below.2))
      obtain ⟨_,short,later⟩ := calm
      rw [runAfterMark first,runAfterMark (classMark below.1)] at short later
      refine ⟨?_,ih ⟨?_,?_⟩⟩ <;> rw [runAfterMark (classMark below.1)]
      · omega
      · rw [runAfterMark first]
        omega
      · rwa [runAfterMark first,Nat.add_right_comm]
    · exact calm

theorem calmReorder (calm : Calm run t) : Calm run (reorder t) := by
  induction t generalizing run with
  | nil => exact calm
  | cons g t ih => exact calmPlace ⟨calm.1,ih calm.2⟩

theorem calmDecompose (calm : Calm run t) : Calm run (decompose t) := by
  induction t generalizing run with
  | nil => exact calm
  | cons g t ih =>
    have parts : Calm run (decomposeGlyph g) ∧ (decomposeGlyph g).foldl runAfter run = runAfter run g := by
      cases g with
      | stray b => exact ⟨⟨calm.1,trivial⟩,rfl⟩
      | char c => exact (piecesOf c).runs run calm.1
    refine calmAppend.mpr ⟨parts.1,?_⟩
    rw [parts.2]
    exact ih calm.2

theorem marksFew (g : Glyph) : (marks g).1 ≤ maxMarks ∧ (marks g).2 ≤ maxMarks := by
  have forms : compatible.all fun _ _ counts => counts.1 ≤ maxMarks ∧ counts.2 ≤ maxMarks := by decide +kernel
  have few : decompositions.all fun _ _ parts => parts.length ≤ maxMarks := by decide +kernel
  cases g with
  | stray b => exact ⟨Nat.zero_le _,Nat.zero_le _⟩
  | char c =>
    simp only [marks]
    split
    · exact ⟨Nat.zero_le _,Nat.zero_le _⟩
    · split
      · refine ⟨Nat.zero_le _,?_⟩
        dsimp only
        split <;> decide
      · cases found : compatible.find? c.toNat with
        | some entry =>
          obtain ⟨_,_,_,counts⟩ := CodeMap.findRange forms found
          rw [markCounts,CodeMap.value?,found]
          simpa using counts
        | none =>
          have parts : ((decompositions.value? c.toNat).getD [c]).length ≤ maxMarks := by
            cases there : decompositions.find? c.toNat with
            | none =>
              rw [CodeMap.value?,there]
              exact Nat.succ_le_succ (Nat.zero_le _)
            | some entry =>
              obtain ⟨_,_,_,short⟩ := CodeMap.findRange few there
              rw [CodeMap.value?,there]
              simpa using short
          rw [markCounts,CodeMap.value?,found]
          refine ⟨(List.takeWhile_prefix _).length_le.trans parts,(List.takeWhile_prefix _).length_le.trans ?_⟩
          rwa [List.length_reverse]

theorem streamSafeCons (run : Nat) (g : Glyph) (t : Text) : streamSafe run (g :: t) =
    if (marks g).1 = 0 ∨ run + (marks g).1 ≤ maxMarks then g :: streamSafe (runAfter run g) t
    else joiner :: g :: streamSafe (marks g).1 t := by
  rw [streamSafe]
  split
  · rename_i trailing counts
    simp [runAfter,counts]
  · rename_i leading trailing other counts
    have mark : (marks g).1 ≠ 0 := by
      rw [counts]
      exact fun none => other none
    rw [runAfterMark mark,counts]
    rw [counts] at mark
    by_cases long : maxMarks < run + leading
    · rw [if_pos long,if_neg (not_or.mpr ⟨mark,Nat.not_le_of_lt long⟩)]
    · rw [if_neg long,if_pos (.inr (Nat.le_of_not_lt long))]

theorem calmStreamSafe (run : Nat) (t : Text) : Calm run (streamSafe run t) := by
  induction t generalizing run with
  | nil => trivial
  | cons g t ih =>
    rw [streamSafeCons]
    split
    · rename_i short
      refine ⟨?_,ih _⟩
      unfold runAfter
      split
      · exact (marksFew g).2
      · exact short.resolve_left ‹_›
    · rename_i long
      have mark : (marks g).1 ≠ 0 := fun none => long (.inl none)
      have none : marks joiner = (0,0) := by decide +kernel
      have fresh : runAfter run joiner = 0 := by rw [runAfterStarter (by rw [none]),none]
      refine ⟨fresh ▸ Nat.zero_le _,?_⟩
      rw [fresh]
      refine ⟨?_,?_⟩ <;> rw [runAfterMark mark,Nat.zero_add]
      · exact (marksFew g).1
      · exact ih _

theorem streamSafeCalm (calm : Calm run t) : streamSafe run t = t := by
  induction t generalizing run with
  | nil => rfl
  | cons g t ih =>
    rw [streamSafeCons,if_pos,ih calm.2]
    rcases Nat.eq_zero_or_pos (marks g).1 with none | some
    · exact .inl none
    · have mark := Nat.pos_iff_ne_zero.mp some
      exact .inr (runAfterMark mark run ▸ calm.1)

end Calm

theorem decomposeTwice (t : Text) : ∀ g ∈ reorder (decompose t), decomposeGlyph g = [g] := by
  intro g there
  obtain ⟨h,_,part⟩ := List.mem_flatMap.mp (memReorder.mp there)
  cases h with
  | stray b =>
    rw [decomposeGlyph,List.mem_singleton] at part
    rw [part]
    rfl
  | char c =>
    obtain ⟨d,among,rfl⟩ := List.mem_map.mp part
    rw [decomposeGlyph,(piecesOf c).final d among]
    rfl

theorem composesCanonical (t : Text) : Composes none (reorder (decompose (streamSafe 0 t))) (canonical t) :=
  composesText _ none (List.forall_mem_nil _) (orderedReorder _)

theorem calmCanonical (t : Text) : Calm 0 (canonical t) :=
  composesCalm (composesCanonical t) (List.forall_mem_nil _) (calmReorder (calmDecompose (calmStreamSafe 0 t)))

theorem canonicalTwice (t : Text) : canonical (canonical t) = canonical t := by
  have back : reorder (decompose (canonical t)) = reorder (reorder (decompose (streamSafe 0 t))) :=
    composesBack (composesCanonical t) (List.forall_mem_nil _) (decomposeTwice _)
  rw [reorderOrdered (orderedReorder _)] at back
  rw [canonical.eq_def (canonical t),streamSafeCalm (calmCanonical t),back]
  rfl

end Terakoya.Text
