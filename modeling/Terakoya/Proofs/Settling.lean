import Terakoya.Proofs.Composed

/-! Normalizing again. Characters get their normal width only after marks were joined, so that a mark may come to stand
behind a character that it joins with; normalizing a second time joins the two, and a third time changes nothing. Names
are not affected: a mark is in no name. -/
namespace Terakoya.Text

def normalGlyph : Glyph → Glyph
  | .char c => .char (normalChar c)
  | .stray b => .stray b

def isMoved (g : Glyph) : Bool := normalGlyph g ≠ g

theorem normalizeMap (t : Text) : normalize t = (canonical t).map normalGlyph := by
  rw [normalize,mapChars,mapChars,List.map_map]
  refine List.map_congr_left fun g _ => ?_
  cases g <;> rfl

/-! Texts in which nothing gets another form -/

def Formed (t : Text) : Prop := ∀ g ∈ t, normalGlyph g = g

section Formed

variable {c : Char} {g : Glyph} {t u : Text} {p : Pending}

theorem normalSettled (g : Glyph) : normalGlyph (normalGlyph g) = normalGlyph g := by
  cases g with
  | stray b => rfl
  | char c =>
    by_cases moved : normalChar c = c
    · rw [normalGlyph,moved,normalGlyph,moved]
    · exact congrArg Glyph.char (movesOf moved).settled

theorem formedChar : normalGlyph (.char c) = .char c ↔ normalChar c = c := by
  rw [normalGlyph,Glyph.char.injEq]

theorem joinerFormed : normalGlyph joiner = joiner := by decide +kernel

theorem partsFormed (formed : normalGlyph g = g) : ∀ h ∈ decomposeGlyph g, normalGlyph h = h := by
  cases g with
  | stray b => exact List.forall_mem_singleton.mpr rfl
  | char c =>
    intro h part
    obtain ⟨d,among,rfl⟩ := List.mem_map.mp part
    rcases (piecesOf c).plain with single | each
    · rw [single,List.mem_singleton] at among
      rwa [among]
    · exact formedChar.mpr (each d among)

theorem lastingFormed : Lasting fun g => normalGlyph g = g :=
  ⟨joinerFormed,partsFormed,fun _ pair => formedChar.mpr (joinsPair pair).plain⟩

theorem formedCanonical (formed : Formed t) : Formed (canonical t) := lastingCanonical lastingFormed formed

theorem mapFormed (formed : Formed t) : t.map normalGlyph = t :=
  (List.map_congr_left formed).trans (List.map_id t)

theorem normalizeFormed (formed : Formed t) : normalize t = canonical t := by
  rw [normalizeMap,mapFormed (formedCanonical formed)]

theorem formedNormalize (t : Text) : Formed (normalize t) := by
  intro g there
  rw [normalizeMap] at there
  obtain ⟨h,_,rfl⟩ := List.mem_map.mp there
  exact normalSettled h

end Formed

theorem normalizeTwice (t : Text) : normalize (normalize t) = canonical (normalize t) := normalizeFormed (formedNormalize t)

theorem normalizeThrice (t : Text) : normalize (normalize (normalize t)) = normalize (normalize t) := by
  rw [normalizeTwice (normalize t),normalizeTwice,canonicalTwice]

/-! Texts that are normalized at once -/

def isSilent : Glyph → Bool
  | .char c => !isSoundMark c
  | .stray _ => true

def Spaced (g h : Glyph) : Prop := isMoved g → (marks h).1 = 0 ∨ isMoved h

instance (g h : Glyph) : Decidable (Spaced g h) := inferInstanceAs (Decidable (_ → _))

def Loose (t : Text) : Prop := t.IsChain Spaced

instance (t : Text) : Decidable (Loose t) := inferInstanceAs (Decidable (t.IsChain Spaced))

structure Unmarked (t : Text) : Prop where
  silent : ∀ g ∈ t, isSilent g
  loose : Loose t

instance (t : Text) : Decidable (Unmarked t) :=
  decidable_of_iff ((∀ g ∈ t, isSilent g) ∧ Loose t)
    ⟨fun both => ⟨both.1,both.2⟩,fun unmarked => ⟨unmarked.silent,unmarked.loose⟩⟩

section Moved

variable {g h : Glyph} {s t : Text}

theorem unmoved : isMoved g = false ↔ normalGlyph g = g := by rw [isMoved,decide_eq_false_iff_not,not_not]

theorem movedChar (moved : isMoved g) : ∃ c, g = .char c ∧ Moves c := by
  have other : normalGlyph g ≠ g := of_decide_eq_true moved
  cases g with
  | stray b => exact absurd rfl other
  | char c => exact ⟨c,rfl,movesOf fun same => other (formedChar.mpr same)⟩

theorem movedClass (moved : isMoved g) : glyphClass g = 0 := by
  obtain ⟨c,rfl,moves⟩ := movedChar moved
  exact moves.starter

theorem movedAlone (moved : isMoved g) : decomposeGlyph g = [g] := by
  obtain ⟨c,rfl,moves⟩ := movedChar moved
  rw [decomposeGlyph,moves.final]
  rfl

theorem marksNormal (g : Glyph) : marks (normalGlyph g) = marks g := by
  cases moved : isMoved g with
  | true =>
    obtain ⟨c,rfl,moves⟩ := movedChar moved
    exact moves.marks
  | false => rw [unmoved.mp moved]

theorem runAfterNormal (run : Nat) (g : Glyph) : runAfter run (normalGlyph g) = runAfter run g := by
  rw [runAfter,marksNormal,runAfter]

theorem decomposeNormal (g : Glyph) : decomposeGlyph (normalGlyph g) = (decomposeGlyph g).map normalGlyph := by
  cases moved : isMoved g with
  | true =>
    obtain ⟨c,rfl,moves⟩ := movedChar moved
    rw [normalGlyph,decomposeGlyph,moves.final',decomposeGlyph,moves.final]
    rfl
  | false =>
    have same := unmoved.mp moved
    rw [same]
    exact (mapFormed (partsFormed same)).symm

theorem classNormal (silent : isSilent g) : glyphClass (normalGlyph g) = glyphClass g := by
  cases moved : isMoved g with
  | true =>
    obtain ⟨c,rfl,moves⟩ := movedChar moved
    exact (moves.starter' (by simpa [isSilent] using silent)).trans moves.starter.symm
  | false => rw [unmoved.mp moved]

theorem pairNormal {a b} (silent : isSilent (.char b)) (apart : Spaced (.char a) (.char b)) :
    composePair? (normalChar a) (normalChar b) = composePair? a b := by
  cases second : isMoved (.char b) with
  | true =>
    obtain ⟨c,same,moves⟩ := movedChar second
    cases same
    rw [moves.unpaired' (by simpa [isSilent] using silent)]
    cases joined : composePair? a b with
    | none => rfl
    | some c => exact absurd (formedChar.mpr (pairSecondPlain joined)) (of_decide_eq_true second)
  | false =>
    have same := formedChar.mp (unmoved.mp second)
    cases first : isMoved (.char a) with
    | true =>
      have starter : (marks (.char b)).1 = 0 := (apart first).resolve_right (Bool.eq_false_iff.mp second)
      rw [same,starterUnpaired starter,starterUnpaired starter]
    | false => rw [same,formedChar.mp (unmoved.mp first)]

theorem formedSilent (formed : normalGlyph g = g) : isSilent g := by
  cases g with
  | stray b => rfl
  | char c =>
    rw [isSilent,Bool.not_eq_true']
    refine Bool.eq_false_iff.mpr fun sounds => ?_
    simp only [isSoundMark,Bool.or_eq_true,decide_eq_true_eq] at sounds
    rcases sounds with rfl | rfl <;> revert formed <;> decide +kernel

/-! Each pass keeps what is known of the text, and changes the same whether forms are changed before it or after. -/

theorem looseCons : Loose (g :: h :: t) ↔ Spaced g h ∧ Loose (h :: t) := List.isChain_cons_cons

theorem looseStill (still : ∀ h ∈ s, isMoved h = false) (loose : Loose t) : Loose (s ++ t) := by
  induction s with
  | nil => exact loose
  | cons g s ih =>
    obtain ⟨first,rest⟩ := List.forall_mem_cons.mp still
    exact (ih rest).cons fun h _ moved => absurd moved (Bool.eq_false_iff.mp first)

theorem streamSafeNormal (run : Nat) (t : Text) : streamSafe run (t.map normalGlyph) = (streamSafe run t).map normalGlyph := by
  induction t generalizing run with
  | nil => rfl
  | cons g t ih =>
    rw [List.map_cons,streamSafeCons,streamSafeCons,marksNormal,runAfterNormal]
    split
    · rw [ih,List.map_cons]
    · rw [ih,List.map_cons,List.map_cons,joinerFormed]

theorem unmarkedStreamSafe (unmarked : Unmarked t) (run : Nat) : Unmarked (streamSafe run t) := by
  have none : (marks joiner).1 = 0 := by decide +kernel
  have still : isMoved joiner = false := unmoved.mpr joinerFormed
  obtain ⟨silent,loose⟩ := unmarked
  suffices all : (∀ g ∈ streamSafe run t, isSilent g) ∧ Loose (streamSafe run t) ∧
      ∀ h, (streamSafe run t).head? = some h → h = joiner ∨ t.head? = some h from ⟨all.1,all.2.1⟩
  induction t generalizing run with
  | nil => exact ⟨silent,loose,fun h none => absurd none (by simp [streamSafe])⟩
  | cons g t ih =>
    obtain ⟨first,rest⟩ := List.forall_mem_cons.mp silent
    have step (run : Nat) : (∀ h ∈ g :: streamSafe run t, isSilent h) ∧ Loose (g :: streamSafe run t) := by
      obtain ⟨silent',loose',head⟩ := ih run rest loose.tail
      refine ⟨List.forall_mem_cons.mpr ⟨first,silent'⟩,loose'.cons fun h next moved => ?_⟩
      rcases head h next with rfl | same
      · exact .inl none
      · exact loose.rel_head? same moved
    rw [streamSafeCons]
    split
    · exact ⟨(step _).1,(step _).2,fun h same => .inr same⟩
    · refine ⟨List.forall_mem_cons.mpr ⟨rfl,(step _).1⟩,looseCons.mpr ⟨fun moved => ?_,(step _).2⟩,fun h same => .inl ?_⟩
      · rw [still] at moved
        contradiction
      · exact (Option.some.inj same).symm

theorem decomposeAllNormal (t : Text) : decompose (t.map normalGlyph) = (decompose t).map normalGlyph := by
  simp only [decompose,List.flatMap_map,List.map_flatMap,decomposeNormal]

theorem partsSilent (silent : isSilent g) : ∀ h ∈ decomposeGlyph g, isSilent h := by
  cases moved : isMoved g with
  | true =>
    rw [movedAlone moved]
    exact List.forall_mem_singleton.mpr silent
  | false => exact fun h part => formedSilent (partsFormed (unmoved.mp moved) h part)

theorem starterParts (starter : (marks g).1 = 0) : ∃ h s, decomposeGlyph g = h :: s ∧ (marks h).1 = 0 := by
  cases g with
  | stray b => exact ⟨_,_,rfl,rfl⟩
  | char c =>
    obtain ⟨d,ds,parts,first⟩ := (piecesOf c).starts starter
    refine ⟨.char d,ds.map .char,?_,first⟩
    rw [decomposeGlyph,parts,List.map_cons]

theorem partsFirst (first : (marks g).1 = 0 ∨ isMoved g) (t : Text) :
    ∃ h s, decompose (g :: t) = h :: s ∧ ((marks h).1 = 0 ∨ isMoved h) := by
  rcases first with starter | moved
  · obtain ⟨h,s,parts,first⟩ := starterParts starter
    refine ⟨h,s ++ decompose t,?_,.inl first⟩
    rw [decompose,List.flatMap_cons,parts]
    rfl
  · refine ⟨g,decompose t,?_,.inr moved⟩
    rw [decompose,List.flatMap_cons,movedAlone moved]
    rfl

theorem unmarkedDecompose (unmarked : Unmarked t) : Unmarked (decompose t) := by
  obtain ⟨silent,loose⟩ := unmarked
  refine ⟨fun h part => ?_,?_⟩
  · obtain ⟨g,there,among⟩ := List.mem_flatMap.mp part
    exact partsSilent (silent g there) h among
  · induction t with
    | nil => exact List.isChain_nil
    | cons g t ih =>
      have later := ih (List.forall_mem_cons.mp silent).2 loose.tail
      cases moved : isMoved g with
      | true =>
        have single : decompose (g :: t) = g :: decompose t := by
          rw [decompose,List.flatMap_cons,movedAlone moved]
          rfl
        rw [single]
        cases t with
        | nil => exact List.isChain_singleton _
        | cons h t =>
          obtain ⟨k,u,next,apart⟩ := partsFirst ((looseCons.mp loose).1 moved) t
          rw [next] at later ⊢
          exact looseCons.mpr ⟨fun _ => apart,later⟩
      | false =>
        have still : ∀ h ∈ decomposeGlyph g, isMoved h = false := fun h part =>
          unmoved.mpr (partsFormed (unmoved.mp moved) h part)
        exact looseStill still later

theorem placeNormal (silent : isSilent g) (others : ∀ h ∈ t, isSilent h) :
    place (normalGlyph g) (t.map normalGlyph) = (place g t).map normalGlyph := by
  induction t with
  | nil => rfl
  | cons h t ih =>
    obtain ⟨first,rest⟩ := List.forall_mem_cons.mp others
    rw [List.map_cons,place,place,classNormal silent,classNormal first]
    split
    · rw [ih rest,List.map_cons]
    · rw [List.map_cons,List.map_cons]

theorem reorderNormal (silent : ∀ g ∈ t, isSilent g) : reorder (t.map normalGlyph) = (reorder t).map normalGlyph := by
  induction t with
  | nil => rfl
  | cons g t ih =>
    obtain ⟨first,rest⟩ := List.forall_mem_cons.mp silent
    rw [List.map_cons,reorder,ih rest,placeNormal first fun h there => rest h (memReorder.mp there),reorder]

theorem loosePlace (loose : Loose (g :: t)) : Loose (place g t) := by
  induction t with
  | nil => exact loose
  | cons h t ih =>
    rw [place]
    split
    · rename_i below
      -- marks are passed by a mark, and neither gets another form
      have still {k : Glyph} (classed : glyphClass k ≠ 0) : ∀ h ∈ [k], isMoved h = false :=
        List.forall_mem_singleton.mpr (Bool.eq_false_iff.mpr fun moved => classed (movedClass moved))
      have rest : Loose (g :: t) := looseStill (still (Nat.ne_of_gt (Nat.zero_lt_of_lt below.2))) loose.tail.tail
      exact looseStill (still below.1) (ih rest)
    · exact loose

theorem unmarkedReorder (unmarked : Unmarked t) : Unmarked (reorder t) := by
  obtain ⟨silent,loose⟩ := unmarked
  refine ⟨fun g there => silent g (memReorder.mp there),?_⟩
  induction t with
  | nil => exact List.isChain_nil
  | cons g t ih =>
    have later := ih (List.forall_mem_cons.mp silent).2 loose.tail
    refine loosePlace ?_
    cases moved : isMoved g with
    | false => exact looseStill (List.forall_mem_singleton.mpr moved) later
    | true =>
      cases t with
      | nil => exact List.isChain_singleton _
      | cons h t =>
        have apart := (looseCons.mp loose).1 moved
        have starter : glyphClass h = 0 := apart.elim starterClass movedClass
        have stays : reorder (h :: t) = h :: reorder t := placeStarter starter _
        rw [stays] at later ⊢
        exact looseCons.mpr ⟨fun _ => apart,later⟩

def Pending.normal : Pending → Pending
  | none => none
  | some (starter,skipped) => some (normalChar starter,skipped)

theorem classedFormed (classed : glyphClass g ≠ 0) : normalGlyph g = g :=
  unmoved.mp (Bool.eq_false_iff.mpr fun moved => classed (movedClass moved))

theorem writtenNormal {p : Pending} (marked : p.Marked) : p.normal.written = p.written.map normalGlyph := by
  rcases p with _ | ⟨starter,skipped⟩
  · rfl
  · have same : (Pending.skipped (some (starter,skipped))).map normalGlyph = Pending.skipped (some (starter,skipped)) :=
      mapFormed fun g there => classedFormed (marked g there)
    exact congrArg (Glyph.char (normalChar starter) :: ·) same.symm

theorem spacedPending {starter skipped} (marked : Pending.Marked (some (starter,skipped)))
    (loose : Loose (Pending.written (some (starter,skipped)) ++ h :: t)) : Spaced (.char starter) h := by
  intro moved
  have chain : Loose (.char starter :: (Pending.skipped (some (starter,skipped)) ++ h :: t)) := loose
  cases behind : Pending.skipped (some (starter,skipped)) with
  | nil =>
    rw [behind] at chain
    exact (looseCons.mp chain).1 moved
  | cons k ks =>
    rw [Pending.Marked,behind] at marked
    rw [behind] at chain
    have starts : glyphClass k = 0 := ((looseCons.mp chain).1 moved).elim starterClass movedClass
    exact absurd starts (marked k List.mem_cons_self)

theorem composeNormal (t : Text) (p : Pending) (marked : p.Marked) (silent : ∀ g ∈ t, isSilent g)
    (loose : Loose (p.written ++ t)) : p.normal.compose (t.map normalGlyph) = (p.compose t).map normalGlyph := by
  induction t generalizing p with
  | nil => rw [List.map_nil,Pending.composeNil,Pending.composeNil,writtenNormal marked]
  | cons g t ih =>
    obtain ⟨first,rest⟩ := List.forall_mem_cons.mp silent
    have later : Loose (g :: t) := (List.isChain_append.mp loose).2.1
    have nothing := ih none (List.forall_mem_nil _) rest later.tail
    cases g with
    | stray b =>
      rw [List.map_cons,normalGlyph,Pending.composeStray,Pending.composeStray,writtenNormal marked,List.map_append,List.map_cons]
      exact congrArg (_ ++ .stray b :: ·) nothing
    | char c =>
      have anew := ih (some (c,[])) (List.forall_mem_nil _) rest later
      have same : glyphClass (.char (normalChar c)) = glyphClass (.char c) := classNormal first
      rcases p with _ | ⟨starter,skipped⟩
      · rw [List.map_cons,normalGlyph,Pending.normal,Pending.composeLeading,Pending.composeLeading,same]
        split
        · exact anew
        · exact congrArg (Glyph.char (normalChar c) :: ·) nothing
      · have free : isFree skipped (normalChar c) = isFree skipped c := by
          cases skipped with
          | nil => rfl
          | cons last older => simp only [isFree,same]
        have pair := pairNormal first (spacedPending marked loose)
        rw [List.map_cons,normalGlyph,Pending.normal,Pending.composeNext,Pending.composeNext,free,pair,same]
        split
        · rename_i joined found
          split_ifs at found
          have plain := (joinsPair found).plain
          have still : ∀ g ∈ Pending.written (some (joined,skipped)), isMoved g = false := by
            refine List.forall_mem_cons.mpr ⟨unmoved.mpr (formedChar.mpr plain),fun g there => ?_⟩
            exact unmoved.mpr (classedFormed (marked g there))
          have next := ih (some (joined,skipped)) marked rest (looseStill still later.tail)
          rwa [Pending.normal,plain] at next
        · split
          · rw [List.map_append,← writtenNormal marked]
            exact congrArg (_ ++ ·) anew
          · rename_i mark
            rw [formedChar.mp (classedFormed mark)]
            refine ih (some (starter,c :: skipped)) (markedMore marked mark) rest ?_
            rw [writtenMore,List.append_assoc]
            exact loose

theorem canonicalNormal (unmarked : Unmarked t) : canonical (t.map normalGlyph) = (canonical t).map normalGlyph := by
  have safe := unmarkedStreamSafe unmarked 0
  have parts := unmarkedDecompose safe
  have ordered := unmarkedReorder parts
  rw [canonical,streamSafeNormal,decomposeAllNormal,reorderNormal parts.silent]
  exact composeNormal _ none (List.forall_mem_nil _) ordered.silent ordered.loose

end Moved

theorem normalizeUnmarked {t} (unmarked : Unmarked t) : normalize (normalize t) = normalize t := by
  rw [normalizeTwice,normalizeMap,← canonicalNormal unmarked,canonicalTwice]

end Terakoya.Text
