import Terakoya.Proofs.Settling

/-! Names in normalized texts. What is composed is made of characters that are joined again when they are taken apart,
and letters that follow each other in it are not joined; so a run of letters and digits is not changed by normalizing
it again, wherever it is cut out. -/
namespace Terakoya.Text

def Whole (c : Char) : Prop := ∃ s bs, decomposeChar c = s :: bs ∧ bs.foldlM composePair? s = some c

section Names

variable {c : Char} {g : Glyph} {t u : Text} {p : Pending}

theorem wholeFinal (final : decomposeChar c = [c]) : Whole c := ⟨c,[],final,rfl⟩

theorem wholeJoined {a b} (whole : Whole a) (joined : composePair? a b = some c) : Whole c := by
  obtain ⟨s,bs,parts,joins⟩ := whole
  refine ⟨s,bs ++ [b],?_,?_⟩
  · rw [(joinsPair joined).parts,parts,List.cons_append]
  · rw [List.foldlM_append,joins]
    simpa using joined

theorem wholeCanonical (t : Text) (there : .char c ∈ canonical t) : Whole c := by
  have whole : ∀ g ∈ canonical t, ∀ c, g = .char c → Whole c := by
    refine (composeBothAll (fun first joined d same => ?_) fun g inside d same => ?_).2
    · cases same
      exact wholeJoined (first _ rfl) joined
    · exact wholeFinal (by simpa [same,decomposeGlyph] using decomposeTwice _ g inside)
  exact whole _ there c rfl

def Unjoined (g h : Glyph) : Prop :=
  ∀ a b, g = .char a → h = .char b → glyphClass g = 0 → glyphClass h = 0 → composePair? a b = none

theorem unjoinedMark {g h} (classed : glyphClass g ≠ 0 ∨ glyphClass h ≠ 0) : Unjoined g h :=
  fun _ _ _ _ first second => absurd second (classed.resolve_left (not_not.mpr first))

theorem unjoinedMarks (g : Glyph) (marked : ∀ h ∈ t, glyphClass h ≠ 0) : (g :: t).IsChain Unjoined := by
  induction t generalizing g with
  | nil => exact List.isChain_singleton _
  | cons h t ih =>
    obtain ⟨first,rest⟩ := List.forall_mem_cons.mp marked
    exact List.isChain_cons_cons.mpr ⟨unjoinedMark (.inr first),ih h rest⟩

theorem unjoinedWritten (marked : p.Marked) : p.written.IsChain Unjoined := by
  rcases p with _ | ⟨starter,skipped⟩
  · exact List.isChain_nil
  · exact unjoinedMarks _ marked

theorem writtenLast (marked : p.Marked) (last : g ∈ p.written.getLast?) :
    glyphClass g ≠ 0 ∨ ∃ starter, g = .char starter ∧ p = some (starter,[]) := by
  rcases p with _ | ⟨starter,skipped⟩
  · contradiction
  · have shape : Pending.written (some (starter,skipped)) = .char starter :: Pending.skipped (some (starter,skipped)) := rfl
    cases behind : Pending.skipped (some (starter,skipped)) with
    | nil =>
      rw [shape,behind] at last
      refine .inr ⟨starter,(Option.some.inj last).symm,?_⟩
      have none : skipped = [] := by simpa [Pending.skipped,Pending.written] using behind
      rw [none]
    | cons k ks =>
      rw [shape,behind,List.getLast?_cons_cons,← behind] at last
      exact .inl (marked g (List.mem_of_getLast? last))

theorem unjoinedComposes (composes : Composes p t u) (marked : p.Marked) :
    u.IsChain Unjoined ∧ ∀ starter skipped, p = some (starter,skipped) →
      ∃ c rest, u = .char c :: rest ∧ (c = starter ∨ (marks (.char c)).1 = 0) := by
  induction composes with
  | ended p =>
    refine ⟨unjoinedWritten marked,?_⟩
    rintro starter skipped rfl
    exact ⟨starter,_,rfl,.inl rfl⟩
  | @stray p b t u rest ih =>
    have later : (.stray b :: u : Text).IsChain Unjoined := by
      refine (ih (List.forall_mem_nil _)).1.cons fun h _ a b none => ?_
      contradiction
    refine ⟨List.isChain_append.mpr ⟨unjoinedWritten marked,later,fun x _ y next a b _ other => ?_⟩,?_⟩
    · cases Option.some.inj next
      contradiction
    · rintro starter skipped rfl
      exact ⟨starter,_,rfl,.inl rfl⟩
  | @joined starter c joined skipped t u above pair rest ih =>
    obtain ⟨chain,head⟩ := ih marked
    refine ⟨chain,?_⟩
    rintro _ _ ⟨⟩
    obtain ⟨d,v,same,first⟩ := head joined skipped rfl
    refine ⟨d,v,same,.inr ?_⟩
    rcases first with rfl | none
    · rw [(joinsPair pair).marks]
    · exact none
  | @fresh p c t u starter unpaired rest ih =>
    obtain ⟨chain,head⟩ := ih (List.forall_mem_nil _)
    obtain ⟨d,v,rfl,first⟩ := head c [] rfl
    refine ⟨List.isChain_append.mpr ⟨unjoinedWritten marked,chain,fun x last y next => ?_⟩,?_⟩
    · cases Option.some.inj next
      rcases writtenLast marked last with classed | ⟨s,rfl,only⟩
      · exact unjoinedMark (.inl classed)
      · rintro a b ⟨⟩ ⟨⟩ _ _
        rcases first with rfl | none
        · exact unpaired s only
        · exact starterUnpaired none s
    · rintro s skipped rfl
      exact ⟨s,_,rfl,.inl rfl⟩
  | @skips starter c skipped t u mark rest ih =>
    obtain ⟨chain,head⟩ := ih (markedMore marked mark)
    refine ⟨chain,?_⟩
    rintro _ _ ⟨⟩
    exact head starter _ rfl
  | leads mark rest ih =>
    refine ⟨(ih (List.forall_mem_nil _)).1.cons fun h _ => unjoinedMark (.inl mark),?_⟩
    rintro starter skipped none
    contradiction

/-! Characters that are not joined with each other -/

structure Rebuilt (c s : Char) (bs : List Char) : Prop where
  parts : decomposeChar c = s :: bs
  starter : glyphClass (.char s) = 0
  joins : bs.foldlM composePair? s = some c

def Follows (a b : Char) : Prop := ∃ s bs, Rebuilt b s bs ∧ composePair? a s = none

theorem composeJoining {s b} {bs : List Char} (joins : bs.foldlM composePair? s = some b) (t : Text) :
    Pending.compose (some (s,[])) (bs.map .char ++ t) = Pending.compose (some (b,[])) t := by
  induction bs generalizing s with
  | nil =>
    cases Option.some.inj joins
    rfl
  | cons d ds ih =>
    rw [List.foldlM_cons] at joins
    obtain ⟨joined,pair,later⟩ := Option.bind_eq_some_iff.mp joins
    rw [List.map_cons,List.cons_append,Pending.composeNext]
    simp only [isFree,if_true,pair]
    exact ih later

theorem decomposeRebuilt {x s bs} (rebuilt : Rebuilt x s bs) (xs : List Char) :
    decompose ((x :: xs).map .char) = .char s :: (bs.map .char ++ decompose (xs.map .char)) := by
  rw [List.map_cons,decompose,List.flatMap_cons,decomposeGlyph,rebuilt.parts]
  rfl

theorem composeFollowing {x} {xs : List Char} (chain : (x :: xs).IsChain Follows) :
    Pending.compose (some (x,[])) (decompose (xs.map .char)) = .char x :: xs.map .char := by
  induction xs generalizing x with
  | nil =>
    rw [List.map_nil]
    exact Pending.composeNil _
  | cons y ys ih =>
    obtain ⟨⟨s,bs,rebuilt,unpaired⟩,rest⟩ := List.isChain_cons_cons.mp chain
    rw [decomposeRebuilt rebuilt,Pending.composeNext]
    simp only [isFree,if_true,unpaired,rebuilt.starter]
    rw [composeJoining rebuilt.joins,ih rest]
    rfl

theorem orderedFollowing {x xs} (chain : (x :: xs).IsChain Follows) : Ordered (decompose ((x :: xs).map .char)) := by
  induction xs generalizing x with
  | nil =>
    have single : decompose ([x].map .char) = (decomposeChar x).map .char := List.append_nil _
    rw [single]
    exact (piecesOf x).ordered
  | cons y ys ih =>
    obtain ⟨⟨s,bs,rebuilt,_⟩,rest⟩ := List.isChain_cons_cons.mp chain
    refine List.isChain_append.mpr ⟨(piecesOf x).ordered,ih rest,fun g _ h next => ?_⟩
    have next : (decompose ((y :: ys).map .char)).head? = some h := next
    rw [decomposeRebuilt rebuilt] at next
    cases Option.some.inj next
    exact .inl rebuilt.starter

theorem canonicalFollowing {x s} {xs bs : List Char} (calm : Calm 0 ((x :: xs).map .char)) (rebuilt : Rebuilt x s bs)
    (chain : (x :: xs).IsChain Follows) : canonical ((x :: xs).map .char) = (x :: xs).map .char := by
  rw [canonical,streamSafeCalm calm,reorderOrdered (orderedFollowing chain),decomposeRebuilt rebuilt]
  have first : compose (.char s :: (bs.map .char ++ decompose (xs.map .char))) =
      Pending.compose (some (s,[])) (bs.map .char ++ decompose (xs.map .char)) := by
    have start := Pending.composeLeading s (bs.map .char ++ decompose (xs.map .char))
    rwa [if_pos rebuilt.starter] at start
  rw [first,composeJoining rebuilt.joins,composeFollowing chain,List.map_cons]

/-! Characters of names -/

theorem wordyMarks (wordy : Cursor.isWordy c) (mark : (marks (.char c)).1 ≠ 0) : Cursor.isNameLetter c := by
  rcases Bool.or_eq_true_iff.mp wordy with letter | digit
  · exact letter
  · have small : c.toNat < 0xA8 := by
      have range := (Bool.and_eq_true_iff.mp digit).2
      have high : c ≤ '9' := of_decide_eq_true range
      exact Nat.lt_of_le_of_lt (Char.le_def.mp high) (by decide)
    have none : marks (.char c) = (0,0) := if_pos small
    rw [none] at mark
    exact absurd rfl mark

theorem wordyRebuilt (wordy : Cursor.isWordy c) (whole : Whole c) :
    ∃ s bs, Rebuilt c s bs ∧ ((marks (.char s)).1 = 0 ∨ s = c) := by
  obtain ⟨s,bs,parts,joins⟩ := whole
  by_cases starter : (marks (.char c)).1 = 0
  · obtain ⟨d,ds,same,first⟩ := (piecesOf c).starts starter
    obtain ⟨rfl,rfl⟩ := List.cons.inj (same.symm.trans parts)
    exact ⟨d,ds,⟨parts,starterClass first,joins⟩,.inl first⟩
  · have letter := wordyMarks wordy starter
    have single := (piecesOf c).letter starter letter
    obtain ⟨rfl,rfl⟩ := List.cons.inj (parts.symm.trans single)
    exact ⟨s,[],⟨parts,letterClass letter,joins⟩,.inr rfl⟩

theorem wordyClass (wordy : Cursor.isWordy c) : glyphClass (.char c) = 0 := by
  by_cases starter : (marks (.char c)).1 = 0
  · exact starterClass starter
  · exact letterClass (wordyMarks wordy starter)

theorem wholeNormal (t : Text) (there : .char c ∈ normalize t) : Whole c := by
  rw [normalizeMap] at there
  obtain ⟨g,among,same⟩ := List.mem_map.mp there
  cases moved : isMoved g with
  | true =>
    obtain ⟨d,rfl,moves⟩ := movedChar moved
    cases same
    exact wholeFinal moves.final'
  | false =>
    rw [unmoved.mp moved] at same
    rw [same] at among
    exact wholeCanonical t among

theorem wordyUnjoined {g h a b} (unjoined : Unjoined g h) (first : normalGlyph g = .char a)
    (second : normalGlyph h = .char b) (wordy : Cursor.isWordy a) (wordy' : Cursor.isWordy b) : composePair? a b = none := by
  cases joined : composePair? a b with
  | none => rfl
  | some c =>
    have hangul := letterPair (wordyMarks wordy' (joinsPair joined).second) joined
    cases moved : isMoved g with
    | true =>
      obtain ⟨d,rfl,moves⟩ := movedChar moved
      cases first
      rw [moves.foreign] at hangul
      contradiction
    | false =>
      cases moved' : isMoved h with
      | true =>
        obtain ⟨d,rfl,moves⟩ := movedChar moved'
        cases second
        rw [moves.foreign'] at hangul
        contradiction
      | false =>
        rw [unmoved.mp moved] at first
        rw [unmoved.mp moved'] at second
        have apart := unjoined a b first second (first ▸ wordyClass wordy) (second ▸ wordyClass wordy')
        rw [← joined,apart]

theorem calmNormal (run : Nat) (t : Text) : Calm run (t.map normalGlyph) ↔ Calm run t := by
  induction t generalizing run with
  | nil => exact Iff.rfl
  | cons g t ih => rw [List.map_cons,Calm,Calm,runAfterNormal,ih]

theorem calmWithin {run : Nat} {w : Text} (calm : Calm run t) (inside : w <:+: t) : Calm 0 w := by
  obtain ⟨before,after,rfl⟩ := inside
  exact calmMono (Nat.zero_le _) (calmAppend.mp (calmAppend.mp calm).1).2

theorem wordyChars {w : Text} (wordy : ∀ g ∈ w, Cursor.isWordy g.toChar) :
    ∃ xs : List Char, w = xs.map .char ∧ ∀ x ∈ xs, Cursor.isWordy x := by
  refine ⟨w.map Glyph.toChar,?_,fun x there => ?_⟩
  · rw [List.map_map]
    refine ((List.map_congr_left fun g there => ?_).trans (List.map_id w)).symm
    cases g with
    | stray b => exact absurd (wordy _ there) (by decide : ¬ Cursor.isWordy '�' = true)
    | char c => rfl
  · obtain ⟨g,among,rfl⟩ := List.mem_map.mp there
    exact wordy g among

theorem nameKept (t : Text) {w : Text} (inside : w <:+: normalize t) (wordy : ∀ g ∈ w, Cursor.isWordy g.toChar) :
    normalize w = w := by
  have formed : Formed w := fun g there => formedNormalize t g (inside.subset there)
  obtain ⟨xs,rfl,each⟩ := wordyChars wordy
  have whole : ∀ x ∈ xs, Whole x := fun x there => wholeNormal t (inside.subset (List.mem_map_of_mem there))
  have calm : Calm 0 (xs.map .char) := calmWithin (by rw [normalizeMap]; exact (calmNormal 0 _).mpr (calmCanonical t)) inside
  have pairs : (normalize t).IsChain fun g h => ∃ g' h', Unjoined g' h' ∧ normalGlyph g' = g ∧ normalGlyph h' = h := by
    rw [normalizeMap]
    exact List.isChain_map_of_isChain normalGlyph (fun g h unjoined => ⟨g,h,unjoined,rfl,rfl⟩)
      (unjoinedComposes (composesCanonical t) (List.forall_mem_nil _)).1
  have chain : xs.IsChain Follows := by
    have neighbours := (List.isChain_map Glyph.char).mp ( List.IsChain.infix pairs inside)
    refine neighbours.imp_of_mem_imp fun a b first second related => ?_
    obtain ⟨g,h,unjoined,same,same'⟩ := related
    obtain ⟨s,bs,rebuilt,starts⟩ := wordyRebuilt (each b second) (whole b second)
    refine ⟨s,bs,rebuilt,?_⟩
    rcases starts with none | rfl
    · exact starterUnpaired none a
    · exact wordyUnjoined unjoined same same' (each a first) (each s second)
  rw [normalizeFormed formed]
  cases xs with
  | nil => rfl
  | cons x xs =>
    obtain ⟨s,bs,rebuilt,_⟩ := wordyRebuilt (each x List.mem_cons_self) (whole x List.mem_cons_self)
    exact canonicalFollowing calm rebuilt chain

end Names

/- The second time, normalizing only composes, and the third time it changes nothing. The second time changes nothing
either where no mark comes to stand behind a character that it can be joined with; and the names that are read from a
normalized text stay as they are. -/
theorem secondNormalizingIsTheLast (t : Text) :
    normalize (normalize t) = canonical (normalize t) ∧
    normalize (normalize (normalize t)) = normalize (normalize t) ∧
    (Unmarked t → normalize (normalize t) = normalize t) ∧
    ∀ w, w <:+: normalize t → (∀ g ∈ w, Cursor.isWordy g.toChar) → normalize w = w :=
  ⟨normalizeTwice t,normalizeThrice t,normalizeUnmarked,fun _ inside wordy => nameKept t inside wordy⟩

theorem wideLettersSettleAtOnce : normalize (normalize (ofString "点Ａ＝｢ｶﾅ｣")) = normalize (ofString "点Ａ＝｢ｶﾅ｣") ∧
    normalize (ofString "点A") = ofString "点A" := by
  obtain ⟨_,_,once,names⟩ := secondNormalizingIsTheLast (ofString "点Ａ＝｢ｶﾅ｣")
  exact ⟨once (by decide +kernel),names _ (by decide +kernel) (by decide +kernel)⟩

theorem halfWidthKanaIsJoinedLater : normalize (ofString "ｶﾞ") = ofString "カ\u3099" ∧
    normalize (normalize (ofString "ｶﾞ")) = ofString "ガ" ∧
    normalize (normalize (ofString "ｶﾞ")) ≠ normalize (ofString "ｶﾞ") := by
  decide +kernel

end Terakoya.Text
