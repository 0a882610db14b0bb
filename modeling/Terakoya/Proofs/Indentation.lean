import Terakoya.Proofs.Drafts

/-! Levels of the lines in the dialect of indented blocks. A line that ends with a colon is followed by a block one level
deeper, and every block has a line. A function that is defined above a statement is defined at the level of the
statement, and nothing less deep stands between its definition and the line that uses it. -/
namespace Terakoya.Emit.Indented

open Brackets

variable {α : Type}

inductive Suite : Nat → List Line → Prop where
  | none (level : Nat) : Suite level []
  | line {level text rest} (tidy : isTidy text.toList) (later : Suite level rest) :
      Suite level (⟨level,text⟩ :: rest)
  | block {level text body rest} (head : isHead text.toList) (some : body ≠ [])
      (deeper : Suite (level + 1) body) (later : Suite level rest) : Suite level (⟨level,text⟩ :: (body ++ rest))

def Serves (k : Nat) (ls : List Line) : Prop := ∃ params level text before between after,
  ls = before ++ ⟨level,definition (hoistedName k) params⟩ :: (between ++ ⟨level,text⟩ :: after) ∧
    (∀ l ∈ between, level ≤ l.level) ∧ StandsIn (hoistedName k).toList text.toList

def Awaits (level k : Nat) (ls : List Line) (texts : List (List Char)) : Prop :=
  (∃ params, ⟨level,definition (hoistedName k) params⟩ ∈ ls) ∧ ∃ y ∈ texts, StandsIn (hoistedName k).toList y

section Suite

variable {level k : Nat} {ls ms : List Line}

theorem suiteAppend (first : Suite level ls) (second : Suite level ms) : Suite level (ls ++ ms) := by
  induction first with
  | none => exact second
  | line tidy later ih => exact .line tidy (ih second)
  | block head some deeper later ihDeeper ih =>
    rw [List.cons_append,List.append_assoc]
    exact .block head some deeper (ih second)

theorem suiteLeast (suite : Suite level ls) : ∀ l ∈ ls, level ≤ l.level := by
  induction suite with
  | none => exact fun l there => absurd there List.not_mem_nil
  | line tidy later ih => exact List.forall_mem_cons.mpr ⟨le_refl _,ih⟩
  | block head some deeper later ihDeeper ih =>
    exact List.forall_mem_cons.mpr ⟨le_refl _,List.forall_mem_append.mpr ⟨fun l there => Nat.le_of_succ_le (ihDeeper l there),ih⟩⟩

theorem suiteFirst (suite : Suite level ls) : ∀ l, ls.head? = some l → l.level = level := by
  cases suite with
  | none => exact fun l none => absurd none (by simp)
  | line tidy later => exact fun l same => (Option.some.inj same) ▸ rfl
  | block head some deeper later => exact fun l same => (Option.some.inj same) ▸ rfl

theorem suiteFlush (suite : Suite level ls) : ∀ l ∈ ls, isFlush l.text.toList := by
  induction suite with
  | none => exact List.forall_mem_nil _
  | line tidy later ih => exact List.forall_mem_cons.mpr ⟨tidyFlush tidy,ih⟩
  | block head some deeper later ihDeeper ih =>
    exact List.forall_mem_cons.mpr ⟨(Bool.and_eq_true_iff.mp head).1,List.forall_mem_append.mpr ⟨ihDeeper,ih⟩⟩

def Steps : List Line → Prop
  | [] => True
  | [l] => l.text.toList.getLast? ≠ some ':'
  | l :: m :: rest =>
    (if l.text.toList.getLast? = some ':' then m.level = l.level + 1 else m.level ≤ l.level) ∧ Steps (m :: rest)

theorem suiteSteps (suite : Suite level ls) (after : Steps ms) (shallow : ∀ m, ms.head? = some m → m.level ≤ level) :
    Steps (ls ++ ms) := by
  induction suite generalizing ms with
  | none => exact after
  | @line level text rest tidy later ih =>
    have steps := ih after shallow
    have next : ∀ m, (rest ++ ms).head? = some m → m.level ≤ level := by
      cases rest with
      | nil => exact shallow
      | cons l rest => exact fun m same => (suiteFirst later m same).le
    rw [List.cons_append]
    cases list : rest ++ ms with
    | nil => exact tidyColon tidy
    | cons m _ =>
      rw [list] at next steps
      exact ⟨by rw [if_neg (tidyColon tidy)]; exact next m rfl,steps⟩
  | @block level text body rest head some deeper later ihDeeper ih =>
    have next : ∀ m, (rest ++ ms).head? = Option.some m → m.level ≤ level := by
      cases rest with
      | nil => exact shallow
      | cons l rest => exact fun m same => (suiteFirst later m same).le
    have steps := ihDeeper (ih after shallow) fun m same => (next m same).trans (Nat.le_succ _)
    rw [List.cons_append,List.append_assoc]
    obtain ⟨m,body,rfl⟩ := List.exists_cons_of_ne_nil some
    exact ⟨by rw [if_pos (headColon head)]; exact suiteFirst deeper m rfl,steps⟩

theorem stepsAt {l i} (steps : Steps ls) (here : ls[i]? = some l) :
    if l.text.toList.getLast? = some ':' then ∃ m, ls[i + 1]? = some m ∧ m.level = l.level + 1
    else ∀ m, ls[i + 1]? = some m → m.level ≤ l.level := by
  induction ls generalizing i with
  | nil => contradiction
  | cons first rest ih =>
    cases i with
    | zero =>
      obtain rfl : first = l := by simpa using here
      cases rest with
      | nil =>
        rw [if_neg steps]
        exact fun m none => absurd none (by simp)
      | cons m rest =>
        obtain ⟨step,_⟩ := steps
        by_cases colon : first.text.toList.getLast? = some ':'
        · rw [if_pos colon] at step ⊢
          exact ⟨m,rfl,step⟩
        · rw [if_neg colon] at step ⊢
          intro m' same
          obtain rfl : m = m' := by simpa using same
          exact step
    | succ i =>
      cases rest with
      | nil => contradiction
      | cons m rest => exact ih steps.2 here

theorem servesWithin (serves : Serves k ls) (xs ys : List Line) : Serves k (xs ++ (ls ++ ys)) := by
  obtain ⟨params,level,text,before,between,after,rfl,deep,used⟩ := serves
  exact ⟨params,level,text,xs ++ before,between,after ++ ys,by simp,deep,used⟩

theorem servesBefore (serves : Serves k ls) (ms : List Line) : Serves k (ls ++ ms) := servesWithin serves [] ms

theorem servesAfter (serves : Serves k ms) (ls : List Line) : Serves k (ls ++ ms) := by
  simpa using servesWithin serves ls []

end Suite

structure Adds (level : Nat) (before after : List (List Char)) (n n' : Nat) (ls : List Line) : Prop where
  suite : Suite level ls
  kept : ∀ x ∈ before, (∃ y ∈ after, StandsIn x y) ∨ ∃ l ∈ ls, l.level = level ∧ StandsIn x l.text.toList
  more : n ≤ n'
  hoisted : ∀ k, n < k → k ≤ n' → Serves k ls ∨ Awaits level k ls after

theorem awaitsServed {level k ls ms l} (first : Suite level ls) (second : Suite level ms)
    (defined : ∃ params, ⟨level,definition (hoistedName k) params⟩ ∈ ls) (uses : StandsIn (hoistedName k).toList l.text.toList)
    (there : l ∈ ms) (same : l.level = level) : Serves k (ls ++ ms) := by
  obtain ⟨params,above⟩ := defined
  obtain ⟨before,between,rfl⟩ := List.append_of_mem above
  obtain ⟨between',after,rfl⟩ := List.append_of_mem there
  subst same
  refine ⟨params,l.level,l.text,before,between ++ between',after,by simp,?_,uses⟩
  refine List.forall_mem_append.mpr ⟨fun l inside => suiteLeast first l ?_,fun l inside => suiteLeast second l ?_⟩
  · exact List.mem_append_right _ (List.mem_cons_of_mem _ inside)
  · exact List.mem_append_left _ inside

theorem addsAppend {level n n' n'' before between after ls ms}
    (first : Adds level before between n n' ls) (second : Adds level between after n' n'' ms) :
    Adds level before after n n'' (ls ++ ms) := by
  refine ⟨suiteAppend first.suite second.suite,fun x there => ?_,first.more.trans second.more,fun k above below => ?_⟩
  · rcases first.kept x there with ⟨y,left,inside⟩ | ⟨l,written,same,inside⟩
    · rcases second.kept y left with ⟨z,left',inside'⟩ | ⟨l,written,same,inside'⟩
      · exact .inl ⟨z,left',standsTrans inside inside'⟩
      · exact .inr ⟨l,List.mem_append_right _ written,same,standsTrans inside inside'⟩
    · exact .inr ⟨l,List.mem_append_left _ written,same,inside⟩
  · rcases Nat.lt_or_ge n' k with late | early
    · rcases second.hoisted k late below with serves | ⟨⟨params,defined⟩,waits⟩
      · exact .inl (servesAfter serves ls)
      · exact .inr ⟨⟨params,List.mem_append_right _ defined⟩,waits⟩
    · rcases first.hoisted k above early with serves | ⟨⟨params,defined⟩,y,left,uses⟩
      · exact .inl (servesBefore serves ms)
      · rcases second.kept y left with ⟨z,left',inside⟩ | ⟨l,written,same,inside⟩
        · exact .inr ⟨⟨params,List.mem_append_left _ defined⟩,z,left',standsTrans uses inside⟩
        · exact .inl (awaitsServed first.suite second.suite ⟨params,defined⟩ (standsTrans uses inside) written same)

def Lays (level : Nat) (before : List (List Char)) (shown : α → List (List Char)) (Q : α → Prop) (r : Draft α) : Prop :=
  ∀ s : Sheet, ∃ ls, (r s).2.lines.toList = s.lines.toList ++ ls ∧ Q (r s).1 ∧
    Adds level before (shown (r s).1) s.lambdas (r s).2.lambdas ls

abbrev Settles (level : Nat) (r : Draft Unit) : Prop := Lays level [] (fun _ => []) (fun _ => True) r

/-! Lines of every draft -/

structure Neat (cs : List Char) : Prop where
  reads : Reads [] [] cs
  tidy : isTidy cs

structure Proper (l : Line) : Prop where
  reads : Reads [] [] l.text.toList
  marked : isMarked l.text.toList

section Works

variable {leaves : List Leaf} {level : Nat} {before after : List (List Char)} {s s' : Sheet} {x : List Char} {t : String}

theorem neatWord (some : x ≠ []) (chars : ∀ c ∈ x, isNameChar c) : Neat x := ⟨readsWord chars,tidyWord some chars⟩

theorem neatLeaf {l : Leaf} (wordy : l.Wordy) : Neat l.written := by
  refine ⟨readsLeaf wordy,?_⟩
  cases l with
  | call f => exact tidyName wordy
  | name x => exact tidyName wordy
  | text s index => exact tidyQuote s

theorem neatOwn {w} (known : w ∈ Dialect.vocabulary .indented) : Neat w.toList := by
  have all : (Dialect.vocabulary .indented).all fun w => !w.toList.isEmpty && w.toList.all isNameChar := by decide +kernel
  obtain ⟨some,chars⟩ := Bool.and_eq_true_iff.mp (List.all_eq_true.mp all w known)
  exact neatWord (by simpa using some) (List.all_eq_true.mp chars)

theorem hoistedChars (k : Nat) : (hoistedName k).toList ≠ [] ∧ ∀ c ∈ (hoistedName k).toList, isNameChar c := by
  have shape : (hoistedName k).toList = "_lambda".toList ++ (toString k).toList := String.toList_append
  have stem : "_lambda".toList.all isNameChar := by decide +kernel
  rw [shape]
  exact ⟨by simp,List.forall_mem_append.mpr ⟨List.all_eq_true.mp stem,Braced.digitChars k⟩⟩

theorem neatHoisted (k : Nat) : Neat (hoistedName k).toList := neatWord (hoistedChars k).1 (hoistedChars k).2

theorem wovenNeat (wordy : Bears Leaf.Wordy leaves) (held : ∀ x ∈ before, Neat x) (woven : Woven leaves before x) : Neat x := by
  induction woven with
  | held there => exact held _ there
  | leaf there => exact neatLeaf (wordy _ there)
  | number n => exact ⟨readsNumber n,tidyNumber n⟩
  | own known => exact neatOwn known
  | framed fits filled each ih =>
    have frame := frameChecked fits
    exact ⟨readsWeave frame.matched fun x there => (ih x there).reads,tidyWeave frame filled fun x there => (ih x there).tidy⟩

theorem headNeat (level : Nat) (neat : Neat t.toList) : isHead (t ++ ":").toList ∧ Proper ⟨level,t ++ ":"⟩ := by
  refine ⟨?_,?_,markedBy ':'⟩ <;> rw [String.toList_append]
  · exact headEnd (tidyFlush neat.tidy) (by decide +kernel)
  · exact readsAppend neat.reads readsFixed

theorem headDefinition (level : Nat) (wordy : Bears Leaf.Wordy leaves) {name params}
    (neat : Neat name.toList) (each : ∀ p ∈ params, .name p ∈ leaves) :
    isHead (definition name params).toList ∧ Proper ⟨level,definition name params⟩ := by
  rw [definitionColon]
  exact headNeat level (wovenNeat wordy (List.forall_mem_singleton.mpr neat) (wovenDefinition (.held List.mem_cons_self) each))

theorem addsBlock {n n' body} (head : isHead t.toList) (inside : ∀ x ∈ before, StandsIn x t.toList)
    (some : body ≠ []) (adds : Adds (level + 1) [] [] n n' body) : Adds level before [] n n' (⟨level,t⟩ :: body) := by
  refine ⟨?_,fun x there => .inr ⟨_,List.mem_cons_self,rfl,inside x there⟩,adds.more,fun k above below => .inl ?_⟩
  · have suite := Suite.block head some adds.suite (.none level)
    rwa [List.append_nil] at suite
  · rcases adds.hoisted k above below with serves | ⟨_,y,none,_⟩
    · exact servesAfter serves [_]
    · exact absurd none List.not_mem_nil

theorem worksAdds (wordy : Bears Leaf.Wordy leaves) (works : Works leaves level before s after s') (held : ∀ x ∈ before, Neat x) :
    (∀ x ∈ after, Neat x) ∧ ∃ ls, s'.lines.toList = s.lines.toList ++ ls ∧ (∀ l ∈ ls, Proper l) ∧
      Adds level before after s.lambdas s'.lambdas ls := by
  have nothing {level n : Nat} {before after : List (List Char)} (kept : ∀ x ∈ before, ∃ y ∈ after, StandsIn x y) :
      Adds level before after n n [] :=
    ⟨.none level,fun x there => .inl (kept x there),le_refl _,fun _ above below => absurd above (Nat.not_lt.mpr below)⟩
  -- the lines of a block are at least one
  have filled {level : Nat} {text : String} {s s' : Sheet} {body : List Line} (some : (write level text s).2.lines.size < s'.lines.size)
      (lines : s'.lines.toList = (write level text s).2.lines.toList ++ body) :
      body ≠ [] ∧ s'.lines.toList = s.lines.toList ++ ⟨level,text⟩ :: body := by
    refine ⟨?_,by rw [lines,linesWritten,List.append_assoc,List.singleton_append]⟩
    rintro rfl
    rw [List.append_nil] at lines
    have same := congrArg List.length lines
    rw [Array.length_toList,Array.length_toList] at same
    omega
  induction works with
  | texts each kept =>
    exact ⟨fun x there => wovenNeat wordy held (each x there),[],(List.append_nil _).symm,List.forall_mem_nil _,nothing kept⟩
  | @line level before s text carries marked =>
    have neat := wovenNeat wordy held carries.woven
    refine ⟨List.forall_mem_nil _,_,linesWritten level text s,List.forall_mem_singleton.mpr ⟨neat.reads,marked⟩,
      .line neat.tidy (.none level),fun x there => .inr ?_,le_refl _,fun _ above below => absurd above (Nat.not_lt.mpr below)⟩
    exact ⟨_,List.mem_singleton_self _,rfl,carries.inside x there⟩
  | @block level before s s' head announced inner some ih =>
    obtain ⟨_,body,lines,proper,adds⟩ := ih (List.forall_mem_nil _)
    obtain ⟨some,lines⟩ := filled some lines
    obtain ⟨head,announces,inside⟩ : isHead head.toList ∧ Proper ⟨level,head⟩ ∧ ∀ x ∈ before, StandsIn x head.toList := by
      cases announced with
      | @other before t carries first =>
        obtain ⟨head,announces⟩ := headNeat level (wovenNeat wordy held carries.woven)
        refine ⟨head,announces,fun x there => standsTrans (carries.inside x there) ?_⟩
        rw [String.toList_append]
        exact standsFirst _ _ (by decide +kernel)
      | named there each =>
        obtain ⟨head,announces⟩ := headDefinition level wordy (neatLeaf (wordy _ there)) each
        exact ⟨head,announces,List.forall_mem_nil _⟩
    exact ⟨List.forall_mem_nil _,_,lines,List.forall_mem_cons.mpr ⟨announces,proper⟩,addsBlock head inside some adds⟩
  | @hoist level s t s' params each defined inner some ih =>
    subst defined
    obtain ⟨_,body,lines,proper,adds⟩ := ih (List.forall_mem_nil _)
    obtain ⟨some,lines⟩ := filled some lines
    obtain ⟨head,announces⟩ := headDefinition level wordy (neatHoisted (s.lambdas + 1)) each
    have all : Adds level [] [] (s.lambdas + 1) s'.lambdas _ := addsBlock head (List.forall_mem_nil _) some adds
    refine ⟨List.forall_mem_singleton.mpr (neatHoisted _),_,lines,List.forall_mem_cons.mpr ⟨announces,proper⟩,all.suite,
      List.forall_mem_nil _,(Nat.le_succ _).trans all.more,fun k above below => ?_⟩
    rcases Nat.eq_or_lt_of_le above with rfl | later
    · exact .inr ⟨⟨params,List.mem_cons_self⟩,_,List.mem_singleton_self _,standsSelf _⟩
    · rcases all.hoisted k later below with serves | ⟨_,y,none,_⟩
      · exact .inl serves
      · exact absurd none List.not_mem_nil
  | random =>
    exact ⟨held,[],(List.append_nil _).symm,List.forall_mem_nil _,nothing fun x there => ⟨x,there,standsSelf x⟩⟩
  | beside inner ih =>
    obtain ⟨neat,ls,lines,proper,adds⟩ := ih (List.forall_mem_nil _)
    refine ⟨List.forall_mem_append.mpr ⟨held,neat⟩,ls,lines,proper,adds.suite,
      fun x there => .inl ⟨x,List.mem_append_left _ there,standsSelf x⟩,adds.more,fun k above below => ?_⟩
    rcases adds.hoisted k above below with serves | ⟨defined,y,left,uses⟩
    · exact .inl serves
    · exact .inr ⟨defined,y,List.mem_append_right _ left,uses⟩
  | trans first second ih ih' =>
    obtain ⟨neat,ls,lines,proper,adds⟩ := ih held
    obtain ⟨neat',ms,lines',proper',adds'⟩ := ih' neat
    refine ⟨neat',ls ++ ms,?_,List.forall_mem_append.mpr ⟨proper,proper'⟩,addsAppend adds adds'⟩
    rw [lines',lines,List.append_assoc]

theorem settlesStmts (level : Nat) (body : List Stmt) (wordy : Bears Leaf.Wordy (bodyLeaves body)) :
    Settles level (stmts level body) := by
  intro s
  obtain ⟨_,ls,lines,_,adds⟩ := worksAdds wordy (makesStmts level body (fun _ there => there) s) (List.forall_mem_nil _)
  exact ⟨ls,lines,trivial,adds⟩

theorem sheetLines {body} (wordy : Bears Leaf.Wordy (bodyLeaves body)) :
    ∀ l ∈ (sheet body).lines.toList, Proper l ∧ isFlush l.text.toList := by
  obtain ⟨_,ls,lines,proper,adds⟩ := worksAdds wordy (makesStmts 0 body (fun _ there => there) {}) (List.forall_mem_nil _)
  have all : (sheet body).lines.toList = ls := lines
  rw [all]
  exact fun l there => ⟨proper l there,suiteFlush adds.suite l there⟩

end Works

/-! Lines as they are written -/

def Line.raised (n : Nat) (l : Line) : Line := ⟨n + l.level,l.text⟩

theorem suiteRaised (n : Nat) {level ls} (suite : Suite level ls) : Suite (n + level) (ls.map (.raised n)) := by
  induction suite with
  | none => exact .none _
  | line tidy later ih => exact .line tidy ih
  | block head some deeper later ihDeeper ih =>
    rw [List.map_cons,List.map_append]
    exact .block head (fun none => some (List.map_eq_nil_iff.mp none)) ihDeeper ih

theorem servesRaised (n : Nat) {k ls} (serves : Serves k ls) : Serves k (ls.map (.raised n)) := by
  obtain ⟨params,level,text,before,between,after,rfl,deep,used⟩ := serves
  refine ⟨params,n + level,text,before.map (.raised n),between.map (.raised n),after.map (.raised n),?_,?_,used⟩
  · simp only [List.map_append,List.map_cons,Line.raised]
  · intro l there
    obtain ⟨l,among,rfl⟩ := List.mem_map.mp there
    exact Nat.add_le_add_left (deep l among) n

theorem lambdasHoists (body : List Stmt) : (sheet body).lambdas = bodyHoists body := by
  obtain ⟨_,same,_⟩ := drawsStmts 0 body {}
  have count := (mintsStmts 0 body 0).1
  rw [Nat.zero_add] at count
  exact same.trans count

/-- How lines may be indented: the first is of level `n` and none is less deep, a line announces a block if and only if
the next one is a level deeper, and after any other line the next one is not deeper. -/
structure Stepped (n : Nat) (ls : List Line) : Prop where
  first : ∀ l, ls[0]? = some l → l.level = n
  least : ∀ l ∈ ls, n ≤ l.level
  deeper : ∀ i l, ls[i]? = some l →
    (l.text.toList.getLast? = some ':' ↔ ∃ m, ls[i + 1]? = some m ∧ m.level = l.level + 1)
  others : ∀ i l m, ls[i]? = some l → l.text.toList.getLast? ≠ some ':' → ls[i + 1]? = some m → m.level ≤ l.level

theorem steppedSuite {n ls} (suite : Suite n ls) : Stepped n ls := by
  have steps : Steps (ls ++ []) := suiteSteps suite trivial fun m none => absurd none (by simp)
  rw [List.append_nil] at steps
  refine ⟨fun l here => ?_,suiteLeast suite,fun i l here => ?_,fun i l m here other next => ?_⟩
  · exact suiteFirst suite l (by rwa [List.head?_eq_getElem?])
  · have step := stepsAt steps here
    split at step
    · rename_i colon
      exact ⟨fun _ => step,fun _ => colon⟩
    · rename_i other
      refine ⟨fun colon => absurd colon other,?_⟩
      rintro ⟨m,next,deep⟩
      exact absurd (step m next) (by omega)
  · have step := stepsAt steps here
    rw [if_neg other] at step
    exact step m next

/- Whatever program is read and however deep it is written, after the import that random picks need there are lines
without breaks and without blanks of their own, each after four blanks for every level. They are indented as blocks are,
and every function that is defined above a statement is used there. -/
theorem indentedLinesFormBlocks (recover : Bool) (source : Text) (n : Nat) :
    let body := (Parse.ofNormal recover source).program.body
    ∃ ls : List Line,
      emit n body = (if (sheet body).usesRandom then header n body else "") ++ String.join (ls.map (renderLine 0)) ∧
      (∀ l ∈ ls, isFlush l.text.toList) ∧ Stepped n ls ∧
      ∀ k, .hoisted k ∈ Dialect.coins .indented body → Serves k ls := by
  intro body
  obtain ⟨ls,lines,_,adds⟩ := settlesStmts 0 body (Parse.namesWordy recover source) {}
  have written : (sheet body).lines.toList = ls := lines
  have suite : Suite n (ls.map (.raised n)) := suiteRaised n adds.suite
  refine ⟨ls.map (.raised n),?_,suiteFlush suite,steppedSuite suite,fun k coined => ?_⟩
  · have rendered : (ls.map (.raised n)).map (renderLine 0) = ls.map (renderLine n) := by
      rw [List.map_map]
      refine List.map_congr_left fun l _ => ?_
      simp only [Function.comp_apply,renderLine,Line.raised,Nat.zero_add]
    rw [rendered,← written]
    rfl
  · have range : 0 < k ∧ k ≤ (sheet body).lambdas := by
      rw [lambdasHoists]
      rcases List.mem_append.mp coined with ignored | hoisted
      · split at ignored <;> simp at ignored
      · simp only [List.mem_map,List.mem_range',Coined.hoisted.injEq] at hoisted
        obtain ⟨_,⟨i,below,rfl⟩,rfl⟩ := hoisted
        omega
    rcases adds.hoisted k range.1 range.2 with serves | ⟨_,y,none,_⟩
    · exact servesRaised n serves
    · exact absurd none List.not_mem_nil

end Terakoya.Emit.Indented
