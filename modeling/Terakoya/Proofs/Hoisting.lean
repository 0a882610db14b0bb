import Terakoya.Proofs.Indentation

/-! Functions that are defined above the statements that use them. They are numbered in the order of their definitions, and
a line that has the name of one of them is further down in the block of its definition. -/
namespace Terakoya

def Leaf.said : Leaf → String
  | .call f => f
  | .name x => x
  | .text s _ => s

namespace Emit

theorem wordsWhole {x} (some : x ≠ []) (chars : ∀ c ∈ x, isNameChar c) : wordsOf x = [x] := by
  rw [wordsOf,List.splitOnP_eq_singleton fun c there => by rw [chars c there]; rfl]
  simpa using some

theorem wordsInfix {w} (x : List Char) (there : w ∈ wordsOf x) : w <:+: x := by
  induction x using wordInduction with
  | word x chars =>
    by_cases none : x = []
    · rw [none,wordsNil] at there
      exact absurd there List.not_mem_nil
    · rw [wordsWhole none chars] at there
      exact List.mem_singleton.mp there ▸ List.infix_rfl
  | split x c y sep left right =>
    rw [wordsSplit sep] at there
    rcases List.mem_append.mp there with there | there
    · exact (left there).trans (List.prefix_append x _).isInfix
    · exact (right there).trans ((List.suffix_cons c y).trans (List.suffix_append x _)).isInfix

def isAdded (c : Char) : Bool := ['"','\\','n','t','r'].contains c

section Literals

variable {w t : List Char} (other : ∀ c ∈ w, isAdded c = false)

include other

theorem prefixUnescaped (starts : w <+: t.flatMap escape) : w <+: t := by
  induction t generalizing w with
  | nil => exact starts
  | cons c t ih =>
    cases w with
    | nil => exact List.nil_prefix
    | cons d w =>
      obtain ⟨first,rest⟩ := List.forall_mem_cons.mp other
      rw [List.flatMap_cons] at starts
      unfold escape at starts
      split at starts <;> obtain ⟨rfl,later⟩ := List.cons_prefix_cons.mp starts <;> try contradiction
      exact List.cons_prefix_cons.mpr ⟨rfl,ih rest later⟩

theorem infixBehind {c s} (some : w ≠ []) (added : isAdded c) (inside : w <:+: c :: s) : w <:+: s := by
  rcases List.infix_cons_iff.mp inside with starts | later
  · obtain ⟨d,w,rfl⟩ := List.exists_cons_of_ne_nil some
    rw [← (List.cons_prefix_cons.mp starts).1,other d List.mem_cons_self] at added
    contradiction
  · exact later

theorem infixUnescaped (some : w ≠ []) (inside : w <:+: t.flatMap escape) : w <:+: t := by
  induction t with
  | nil => exact inside
  | cons c t ih =>
    have split : escape c = [c] ∨ ∃ d, isAdded d ∧ escape c = ['\\',d] := by
      unfold escape
      split <;> simp [isAdded]
    rw [List.flatMap_cons] at inside
    rcases split with same | ⟨d,added,pair⟩
    · rw [same] at inside
      rcases List.infix_cons_iff.mp inside with starts | later
      · exact (prefixUnescaped other (by rwa [List.flatMap_cons,same])).isInfix
      · exact (ih later).trans (List.suffix_cons c t).isInfix
    · rw [pair] at inside
      have later := infixBehind other some added (infixBehind other some (by decide) inside)
      exact (ih later).trans (List.suffix_cons c t).isInfix

end Literals

namespace Indented

/-! Names of hoisted functions in texts -/

abbrev stem : List Char := "_lambda".toList

theorem stemWritten {l : Leaf} (inside : stem <:+: l.written) : stem <:+: l.said.toList := by
  cases l with
  | call f => exact inside
  | name x => exact inside
  | text s index =>
    have other : ∀ c ∈ stem, isAdded c = false := by simp [stem,isAdded]
    refine infixUnescaped other (by decide) ?_
    rw [Leaf.written,quote,String.toList_ofList] at inside
    rcases List.infix_concat_iff.mp (infixBehind other (by decide) (by decide) inside) with ends | inner
    · have last := ends.getLast (by decide)
      rw [List.getLast_concat] at last
      exact absurd last (by decide)
    · exact inner

def Mentions (k : Nat) (cs : List Char) : Prop := (hoistedName k).toList ∈ wordsOf cs

def Defines (k : Nat) (cs : List Char) : Prop := ("def " ++ hoistedName k ++ "(").toList <+: cs ∧ cs.getLast? = some ':'

section Mentions

variable {j k : Nat} {x : List Char} {leaves : List Leaf} {before : List (List Char)}

theorem stemHoisted (k : Nat) : stem <+: (hoistedName k).toList := ⟨_,String.toList_append.symm⟩

theorem wordsHoisted (k : Nat) : wordsOf (hoistedName k).toList = [(hoistedName k).toList] :=
  wordsWhole (hoistedChars k).1 (hoistedChars k).2

theorem mentionsSame (mentions : Mentions j (hoistedName k).toList) : j = k := by
  rw [Mentions,wordsHoisted,List.mem_singleton] at mentions
  exact Coined.hoisted.inj (coinedInjective (String.toList_inj.mp mentions))

theorem mentionsStem (mentions : Mentions k x) : stem <:+: x :=
  (stemHoisted k).isInfix.trans (wordsInfix x mentions)

theorem standsMentions (stands : StandsIn (hoistedName k).toList x) : Mentions k x := by
  obtain ⟨a,b,rfl,closes,opens⟩ := stands
  rw [Mentions,wordsAppend (.inl closes),wordsAppend (.inr opens),wordsHoisted]
  exact List.mem_append_right _ (List.mem_append_left _ List.mem_cons_self)

theorem definesMentions (defines : Defines k x) : Mentions k x := by
  obtain ⟨⟨rest,shape⟩,_⟩ := defines
  rw [← shape]
  simp only [String.toList_append,List.append_assoc]
  exact standsMentions (standsBetween _ _ (by decide +kernel) (opensOver (by decide +kernel) (by decide) _))

theorem mentionsColon (t : String) (mentions : Mentions k (t ++ ":").toList) : Mentions k t.toList := by
  have blank : Blank ":".toList := by decide +kernel
  rwa [Mentions,String.toList_append,wordsAppend (.inr (opensBlank blank)),wordsBlank blank,List.append_nil] at mentions

theorem underscoreOwn {w} (known : w ∈ Dialect.vocabulary .indented) : '_' ∉ w.toList := by
  have all : (Dialect.vocabulary .indented).all fun w => !w.toList.contains '_' := by decide
  simpa using List.all_eq_true.mp all w known

theorem underscoreNumber (n : Nat) : '_' ∉ (toString n).toList := by
  intro there
  rw [Nat.toString_eq_ofList_toDigits,String.toList_ofList] at there
  exact absurd (Nat.isDigit_of_mem_toDigits (by decide) (by decide) there) (by decide)

theorem wovenMentions {P : Nat → Prop} (calm : ∀ l ∈ leaves, ¬ stem <:+: l.written)
    (held : ∀ x ∈ before, ∀ k, Mentions k x → P k) (woven : Woven leaves before x) : ∀ k, Mentions k x → P k := by
  have underscore {k : Nat} {x : List Char} (mentions : Mentions k x) : '_' ∈ x := (mentionsStem mentions).mem (by decide)
  induction woven with
  | held there => exact held _ there
  | leaf there => exact fun k mentions => absurd (mentionsStem mentions) (calm _ there)
  | number n => exact fun k mentions => absurd (underscore mentions) (underscoreNumber n)
  | own known => exact fun k mentions => absurd (underscore mentions) (underscoreOwn known)
  | framed fits filled each ih =>
    have frame := frameChecked fits
    intro k mentions
    rcases wordsWeave frame.closes frame.opens mentions with ⟨p,there,among⟩ | ⟨x,there,among⟩
    · exact absurd (stemHoisted k) (frame.foreign p there _ among)
    · exact ih x there k among

end Mentions

/-! Definitions and the lines that they reach -/

structure Numbered (count : Nat) (ls : List Line) (place : Nat → Nat) : Prop where
  defined : ∀ i k, (∃ l, ls[i]? = some l ∧ Defines k l.text.toList) ↔ 1 ≤ k ∧ k ≤ count ∧ i = place k
  ordered : ∀ j k, 1 ≤ j → j < k → k ≤ count → place j < place k

def InReach (k level : Nat) (ls : List Line) : Prop := ∃ above l since,
  ls = above ++ l :: since ∧ Defines k l.text.toList ∧ l.level = level ∧ ∀ m ∈ since, level ≤ m.level

def Grounded (ls : List Line) : Prop :=
  ∀ above l since k, ls = above ++ l :: since → Mentions k l.text.toList → Defines k l.text.toList ∨ InReach k l.level above

section Reach

variable {k level count : Nat} {ls ms : List Line} {l m : Line} {place : Nat → Nat}

theorem pushedAt (i : Nat) : (ls ++ [l])[i]? = some m ↔ ls[i]? = some m ∨ i = ls.length ∧ l = m := by
  rw [List.getElem?_append,List.getElem?_singleton]
  grind

theorem numberedOther (numbered : Numbered count ls place) (none : ∀ k, ¬ Defines k l.text.toList) :
    Numbered count (ls ++ [l]) place := by
  refine ⟨fun i k => ?_,numbered.ordered⟩
  rw [← numbered.defined i k]
  simp only [pushedAt,or_and_right,exists_or]
  refine or_iff_left ?_
  rintro ⟨m,⟨_,rfl⟩,defines⟩
  exact none k defines

theorem numberedNext (numbered : Numbered count ls place) (next : ∀ k, Defines k l.text.toList ↔ k = count + 1) :
    Numbered (count + 1) (ls ++ [l]) fun k => if k = count + 1 then ls.length else place k := by
  have earlier {j : Nat} (least : 1 ≤ j) (most : j ≤ count) : place j < ls.length := by
    obtain ⟨l,here,_⟩ := (numbered.defined (place j) j).mpr ⟨least,most,rfl⟩
    exact (List.getElem?_eq_some_iff.mp here).1
  refine ⟨fun i k => ?_,fun j k least before most => ?_⟩
  · have old := numbered.defined i k
    have new : (∃ m, (i = ls.length ∧ l = m) ∧ Defines k m.text.toList) ↔ i = ls.length ∧ k = count + 1 := by
      rw [← next k]
      exact ⟨by rintro ⟨m,⟨here,rfl⟩,defines⟩; exact ⟨here,defines⟩,fun both => ⟨l,⟨both.1,rfl⟩,both.2⟩⟩
    simp only [pushedAt,or_and_right,exists_or,old,new]
    split <;> omega
  · have known := numbered.ordered j k least before
    have below := earlier least
    split <;> split <;> omega

theorem reachGrows (reach : InReach k level ls) (deep : ∀ m ∈ ms, level ≤ m.level) : InReach k level (ls ++ ms) := by
  obtain ⟨above,l,since,rfl,defines,same,least⟩ := reach
  exact ⟨above,l,since ++ ms,by simp,defines,same,List.forall_mem_append.mpr ⟨least,deep⟩⟩

theorem groundedNext (grounded : Grounded ls)
    (next : ∀ k, Mentions k l.text.toList → Defines k l.text.toList ∨ InReach k l.level ls) : Grounded (ls ++ [l]) := by
  intro above m since k shape mentions
  rcases List.eq_nil_or_concat since with rfl | ⟨since,last,rfl⟩
  · obtain ⟨rfl,same⟩ := List.append_inj' shape rfl
    cases same
    exact next k mentions
  · rw [List.concat_eq_append,← List.cons_append,← List.append_assoc] at shape
    exact grounded above m since k (List.append_inj' shape rfl).1 mentions

end Reach

structure Orderly (s : Sheet) : Prop where
  numbered : ∃ place, Numbered s.lambdas s.lines.toList place
  grounded : Grounded s.lines.toList

structure Ready (level : Nat) (ls : List Line) (cs : List Char) : Prop where
  neat : Neat cs
  reach : ∀ k, Mentions k cs → InReach k level ls

section Orderly

variable {leaves : List Leaf} {level : Nat} {before after : List (List Char)} {s s' : Sheet} {text : String}

theorem orderlyWritten (orderly : Orderly s) (other : ∀ k, ¬ Defines k text.toList)
    (reach : ∀ k, Mentions k text.toList → InReach k level s.lines.toList) : Orderly (write level text s).2 := by
  obtain ⟨place,numbered⟩ := orderly.numbered
  constructor
  · rw [linesWritten]
    exact ⟨place,numberedOther numbered other⟩
  · rw [linesWritten]
    exact groundedNext orderly.grounded fun k mentions => .inr (reach k mentions)

theorem definesHoisted (k : Nat) (params : List String) : Defines k (definition (hoistedName k) params).toList := by
  rw [definitionColon]
  refine ⟨?_,by rw [String.toList_append]; exact List.getLast?_concat⟩
  simp only [String.toList_append,List.append_assoc]
  exact ⟨(parameters params).toList ++ (")".toList ++ ":".toList),by simp only [List.append_assoc]⟩

variable (wordy : Bears Leaf.Wordy leaves) (calm : ∀ l ∈ leaves, ¬ stem <:+: l.written)

include calm

theorem mentionsDefinition {j k : Nat} {params} (each : ∀ p ∈ params, .name p ∈ leaves)
    (mentions : Mentions j (definition (hoistedName k) params).toList) : j = k := by
  rw [definitionColon] at mentions
  have held : ∀ x ∈ [(hoistedName k).toList], ∀ j, Mentions j x → j = k := List.forall_mem_singleton.mpr fun _ => mentionsSame
  exact wovenMentions calm held (wovenDefinition (.held List.mem_cons_self) each) j (mentionsColon _ mentions)

theorem orderlyHoisted {params} (each : ∀ p ∈ params, .name p ∈ leaves) (orderly : Orderly s) :
    Orderly (write level (definition (hoistedName (s.lambdas + 1)) params) { s with lambdas := s.lambdas + 1 }).2 := by
  obtain ⟨place,numbered⟩ := orderly.numbered
  have defines (k : Nat) : Defines k (definition (hoistedName (s.lambdas + 1)) params).toList ↔ k = s.lambdas + 1 :=
    ⟨fun defines => mentionsDefinition calm each (definesMentions defines),fun same => same ▸ definesHoisted k params⟩
  constructor
  · rw [linesWritten]
    exact ⟨_,numberedNext numbered defines⟩
  · rw [linesWritten]
    exact groundedNext orderly.grounded fun k mentions => .inl ((defines k).mpr (mentionsDefinition calm each mentions))

include wordy

theorem wovenReady {ls : List Line} {x} (held : ∀ x ∈ before, Ready level ls x) (woven : Woven leaves before x) :
    Ready level ls x :=
  ⟨wovenNeat wordy (fun x there => (held x there).neat) woven,wovenMentions calm (fun x there => (held x there).reach) woven⟩

theorem orderlyAnnounced (announced : Announced leaves before text) (held : ∀ x ∈ before, Ready level s.lines.toList x)
    (orderly : Orderly s) : Orderly (write level text s).2 := by
  cases announced with
  | @other _ t carries first =>
    refine orderlyWritten orderly (fun k defines => ?_) fun k mentions =>
      (wovenReady wordy calm held carries.woven).reach k (mentionsColon t mentions)
    obtain ⟨⟨rest,shape⟩,_⟩ := defines
    have begins := congrArg List.head? shape
    cases list : t.toList with
    | nil => simp [list] at begins
    | cons c cs =>
      rw [list] at first
      simp [list] at begins first
      exact first begins.symm
  | @named name params there each =>
    have none (k : Nat) (mentions : Mentions k (definition name params).toList) : False := by
      rw [definitionColon] at mentions
      have held : ∀ x ∈ ([] : List (List Char)), ∀ k, Mentions k x → False := List.forall_mem_nil _
      exact wovenMentions calm held (wovenDefinition (.leaf there) each) k (mentionsColon _ mentions)
    exact orderlyWritten orderly (fun k defines => none k (definesMentions defines)) fun k mentions => (none k mentions).elim

theorem worksOrderly (works : Works leaves level before s after s') (held : ∀ x ∈ before, Ready level s.lines.toList x)
    (orderly : Orderly s) : Orderly s' ∧ ∀ x ∈ after, Ready level s'.lines.toList x := by
  -- what was in reach stays so, since the lines of a draft are not less deep
  have grows {level : Nat} {before after : List (List Char)} {s s' : Sheet} (works : Works leaves level before s after s')
      (held : ∀ x ∈ before, Neat x) : ∃ ls, s'.lines.toList = s.lines.toList ++ ls ∧ ∀ l ∈ ls, level ≤ l.level := by
    obtain ⟨_,ls,lines,_,adds⟩ := worksAdds wordy works held
    exact ⟨ls,lines,suiteLeast adds.suite⟩
  induction works with
  | texts each kept => exact ⟨orderly,fun x there => wovenReady wordy calm held (each x there)⟩
  | @line level before s text carries marked =>
    have ready := wovenReady wordy calm held carries.woven
    exact ⟨orderlyWritten orderly (fun k defines => tidyColon ready.neat.tidy defines.2) ready.reach,List.forall_mem_nil _⟩
  | block announced inner some ih =>
    exact ⟨(ih (List.forall_mem_nil _) (orderlyAnnounced wordy calm announced held orderly)).1,List.forall_mem_nil _⟩
  | @hoist level s t s' params each defined inner some ih =>
    subst defined
    obtain ⟨ls,lines,deep⟩ := grows inner (List.forall_mem_nil _)
    refine ⟨(ih (List.forall_mem_nil _) (orderlyHoisted calm each orderly)).1,List.forall_mem_singleton.mpr ⟨neatHoisted _,?_⟩⟩
    intro k mentions
    obtain rfl := mentionsSame mentions
    rw [lines,linesWritten]
    exact reachGrows ⟨_,_,[],rfl,definesHoisted _ _,rfl,List.forall_mem_nil _⟩ fun l there => Nat.le_of_succ_le (deep l there)
  | random => exact ⟨⟨orderly.numbered,orderly.grounded⟩,held⟩
  | beside inner ih =>
    obtain ⟨ls,lines,deep⟩ := grows inner (List.forall_mem_nil _)
    obtain ⟨orderly',ready⟩ := ih (List.forall_mem_nil _) orderly
    refine ⟨orderly',List.forall_mem_append.mpr ⟨fun x there => ⟨(held x there).neat,fun k mentions => ?_⟩,ready⟩⟩
    rw [lines]
    exact reachGrows ((held x there).reach k mentions) deep
  | trans first second ih ih' =>
    obtain ⟨orderly',ready⟩ := ih held orderly
    exact ih' ready orderly'

end Orderly

def Below (ls : List Line) (i j : Nat) : Prop := i < j ∧ ∃ l m, ls[i]? = some l ∧ ls[j]? = some m ∧ m.level = l.level ∧
  ∀ h between, i < h → h < j → ls[h]? = some between → l.level ≤ between.level

theorem belowReach {place : Nat → Nat} {count k j ls m} (numbered : Numbered count ls place)
    (here : ls[j]? = some m) (reach : InReach k m.level (ls.take j)) : Below ls (place k) j := by
  obtain ⟨above,l,since,shape,defines,same,least⟩ := reach
  have taken {h : Nat} (early : h < j) : ls[h]? = (above ++ l :: since)[h]? := by rw [← shape,List.getElem?_take_of_lt early]
  have length : above.length < j := by
    have bound := (congrArg List.length shape).symm.trans_le (List.length_take_le j ls)
    simp at bound
    omega
  have first : ls[above.length]? = some l := by simp [taken length]
  obtain ⟨_,_,at'⟩ := (numbered.defined above.length k).mp ⟨l,first,defines⟩
  rw [← at']
  refine ⟨length,l,m,first,here,same.symm,fun h between later early found => ?_⟩
  rw [taken early,List.getElem?_append_right later.le] at found
  obtain ⟨i,next⟩ := Nat.exists_eq_add_of_lt later
  rw [next,Nat.add_assoc,Nat.add_sub_cancel_left,List.getElem?_cons_succ] at found
  exact same ▸ least between (List.mem_of_getElem? found)

theorem servesUsed {place : Nat → Nat} {count k ls} (numbered : Numbered count ls place) (serves : Serves k ls) :
    ∃ j l, place k < j ∧ ls[j]? = some l ∧ Mentions k l.text.toList := by
  obtain ⟨params,level,text,above,between,since,rfl,_,uses⟩ := serves
  have first : (above ++ ⟨level,definition (hoistedName k) params⟩ :: (between ++ ⟨level,text⟩ :: since))[above.length]? =
      some ⟨level,definition (hoistedName k) params⟩ := by simp
  obtain ⟨_,_,at'⟩ := (numbered.defined above.length k).mp ⟨_,first,definesHoisted k params⟩
  exact ⟨above.length + (between.length + 1),⟨level,text⟩,by omega,by simp,standsMentions uses⟩

theorem orderlyEmpty : Orderly {} := by
  refine ⟨⟨fun _ => 0,fun i k => ?_,fun j k least before most => ?_⟩,fun above l since k shape => ?_⟩
  · exact ⟨by simp,fun bounds => absurd bounds.1 (Nat.not_le.mpr (Nat.lt_succ_of_le bounds.2.1))⟩
  · exact absurd before (Nat.not_lt.mpr (Nat.le_trans most (Nat.zero_le j)))
  · simp at shape

theorem stemWords {body} (n : Nat) (calm : ∀ l ∈ bodyLeaves body, ¬ stem <:+: l.written) (w : List Char) :
    w ∈ wordsOf (emit n body).toList ∧ stem <:+: w ↔ ∃ k, 1 ≤ k ∧ k ≤ (sheet body).lambdas ∧ w = (hoistedName k).toList := by
  have numbers (k : Nat) : .coined (.hoisted k) ∈ programWords body ↔ 1 ≤ k ∧ k ≤ (sheet body).lambdas := by
    refine (Dialect.coined .indented body (.hoisted k)).trans ?_
    rw [lambdasHoists,Dialect.coins,List.mem_append,or_iff_right (by split <;> simp)]
    simp only [List.mem_map,List.mem_range'_1,Coined.hoisted.injEq,exists_eq_right]
    omega
  rw [(emitSpells n body).words,List.mem_flatMap]
  constructor
  · rintro ⟨⟨v,there,among⟩,inside⟩
    have within := inside.trans (wordsInfix _ among)
    have underscore := within.mem (by decide : '_' ∈ stem)
    cases v with
    | own s known => exact absurd underscore (underscoreOwn known)
    | leaf l => exact absurd within (calm l ((leafWritten .indented body l).mp there))
    | number m => exact absurd underscore (underscoreNumber m)
    | coined c =>
      cases c with
      | hoisted k => exact ⟨k,((numbers k).mp there).1,((numbers k).mp there).2,List.mem_singleton.mp (wordsHoisted k ▸ among)⟩
      | ignored => exact absurd (within.length_le) (by decide)
  · rintro ⟨k,least,most,rfl⟩
    refine ⟨⟨_,(numbers k).mpr ⟨least,most⟩,?_⟩,(stemHoisted k).isInfix⟩
    exact (wordsHoisted k).symm ▸ List.mem_singleton_self _

/-- Where a program that is written with `n` levels in front of it defines its hoisted functions, and where it uses them. The
function `k` is defined on the line `place k`. -/
structure Hoists (n : Nat) (body : List Stmt) (count : Nat) (place : Nat → Nat) (ls : List Line) : Prop where
  lines : emit n body = (if (sheet body).usesRandom then header n body else "") ++ String.join (ls.map (renderLine n))
  flush : ∀ l ∈ ls, isFlush l.text.toList
  names : ∀ w, w ∈ wordsOf (emit n body).toList ∧ stem <:+: w ↔ ∃ k, 1 ≤ k ∧ k ≤ count ∧ w = (hoistedName k).toList
  numbered : Numbered count ls place
  used : ∀ k, 1 ≤ k → k ≤ count → ∃ j l, place k < j ∧ ls[j]? = some l ∧ Mentions k l.text.toList
  reached : ∀ j k l, ls[j]? = some l → Mentions k l.text.toList → j = place k ∨ Below ls (place k) j

/- If no name and no text of a program has `_lambda` in it, the words that have it are the names of the hoisted functions,
counted from one. Each is defined on one line, in the order of the numbers, and is used further down. Every other line that
has it is further down in the block of the definition. -/
theorem hoistedFunctionsStandAboveTheirUses (recover : Bool) (source : Text) (n : Nat)
    (calm : ∀ l ∈ bodyLeaves (Parse.ofNormal recover source).program.body, ¬ stem <:+: l.said.toList) :
    ∃ count place ls, Hoists n (Parse.ofNormal recover source).program.body count place ls := by
  let body := (Parse.ofNormal recover source).program.body
  have wordy : Bears Leaf.Wordy (bodyLeaves body) := Parse.namesWordy recover source
  have free : ∀ l ∈ bodyLeaves body, ¬ stem <:+: l.written := fun l there inside => calm l there (stemWritten inside)
  have works : Works (bodyLeaves body) 0 [] {} [] (sheet body) := makesStmts 0 body (fun _ there => there) {}
  obtain ⟨⟨⟨place,numbered⟩,grounded⟩,_⟩ := worksOrderly wordy free works (List.forall_mem_nil _) orderlyEmpty
  obtain ⟨ls,lines,_,adds⟩ := settlesStmts 0 body wordy {}
  have written : (sheet body).lines.toList = ls := lines
  rw [written] at numbered grounded
  refine ⟨_,place,ls,written ▸ rfl,suiteFlush adds.suite,stemWords n free,numbered,fun k least most => ?_,fun j k l here mentions => ?_⟩
  · rcases adds.hoisted k least most with serves | ⟨_,y,none,_⟩
    · exact servesUsed numbered serves
    · exact absurd none List.not_mem_nil
  · have shape : ls = ls.take j ++ l :: ls.drop (j + 1) := by
      obtain ⟨bound,rfl⟩ := List.getElem?_eq_some_iff.mp here
      rw [← List.drop_eq_getElem_cons bound,List.take_append_drop]
    rcases grounded _ _ _ k shape mentions with defines | reach
    · exact .inl ((numbered.defined j k).mp ⟨l,here,defines⟩).2.2
    · exact .inr (belowReach numbered here reach)

def nested : Text := Text.ofString "f([入力 a に対し \x7b\n  g(入力 に対し \x7b a を増やす \x7d)\n\x7d], 入力 に対し \x7b\x7d)"

theorem nestedFunctionsStandAboveTheirUses :
    (∀ l ∈ bodyLeaves (Parse.ofNormal false nested).program.body, ¬ stem <:+: l.said.toList) ∧
    emit 0 (Parse.ofNormal false nested).program.body =
      "def _lambda1(a):\n    def _lambda2():\n        a += 1\n    print(g(_lambda2))\ndef _lambda3():\n    pass\nprint(f([_lambda1], _lambda3))\n" ∧
    ∃ count place ls, Hoists 0 (Parse.ofNormal false nested).program.body count place ls := by
  have said : (bodyLeaves (Parse.ofNormal false nested).program.body).all fun l => !l.said.toList.contains '_' := by decide +kernel
  have calm : ∀ l ∈ bodyLeaves (Parse.ofNormal false nested).program.body, ¬ stem <:+: l.said.toList := fun l there inside => by
    have none := List.all_eq_true.mp said l there
    simp [inside.mem (by decide : '_' ∈ stem)] at none
  exact ⟨calm,by decide +kernel,hoistedFunctionsStandAboveTheirUses false nested 0 calm⟩

end Indented

end Emit

end Terakoya
