import Terakoya.Proofs.WrittenExpressions

/-! A program written out in a layout is read back as it was, but for its spans. The alternatives of
a statement are tried in turn on the same text; those before the right one must miss, and none of
them may refuse. -/
namespace Terakoya

open Text (ofString)
open Layout

namespace Phrases

open Reader

def alternatives (nested : Phrases) : Reader Stmt :=
  firstOf [nested.conditional,nested.loop,nested.doctest,nested.onTarget,nested.answer,leave,nested.observe]

variable {nested : Phrases} {l : Layout} {size : Nat} {P : Stmt → Prop} {t : Text}

/-! Alternatives that miss -/

theorem missesConditional (missing : Cursor.dropWord "もし".toList t = none) : Misses nested.conditional t :=
  missesHere fun _ => missesFirst (missesWord missing) _

theorem missesDoctest (avoids : Avoids ['>'] t) : Misses nested.doctest t :=
  missesHere fun _ => missesFirst (missesWord (Cursor.dropWordAvoids avoids (by decide))) _

theorem missesLeave (hiragana : Cursor.dropWord "くり返しを抜ける".toList t = none)
    (kanji : Cursor.dropWord "繰り返しを抜ける".toList t = none) : Misses leave t :=
  missesHere fun _ => missesFirst (missesOrElse (missesWord hiragana) (missesWord kanji)) _

def targetWords : List String := ["を増やす","を減らす","の末尾に","=","を"]

theorem noTargetWord {u} (avoids : Avoids ['を','の','='] u) : ∀ w ∈ targetWords, Cursor.dropWord w.toList u = none := by
  have begins : ∀ w ∈ targetWords, w.toList.head?.any (['を','の','='].contains ·) := by decide
  exact fun w inside => Cursor.dropWordAvoids avoids (begins w inside)

theorem paramsNoTarget {ps} (ok : Bindable ps) {u} (avoids : Avoids ['を','の','='] u) :
    ∀ w ∈ targetWords, Cursor.dropWord w.toList (l.params ps ++ u) = none := by
  cases ps with
  | nil => exact noTargetWord avoids
  | cons p ps =>
    have named := ok.names p List.mem_cons_self
    have unbroken := ok.unbroken p List.mem_cons_self
    have seam : Among seams (l.moreParams ps ++ u) := (amongParams l ps u).mono (by decide)
    simp only [params,List.append_assoc]
    intro w inside
    have particle (begins : "を".toList <+: w.toList) (foreign : seams.all (!w.toList.contains ·)) :
        Cursor.dropWord w.toList (ofString p ++ (l.moreParams ps ++ u)) = none :=
      Cursor.dropWordName (fun whole => named.2 "を" (by decide) (begins.trans whole)) seam foreign
    simp only [targetWords,List.mem_cons,List.not_mem_nil,or_false] at inside
    rcases inside with rfl | rfl | rfl | rfl | rfl
    · exact particle (by decide) (by decide)
    · exact particle (by decide) (by decide)
    · exact Cursor.dropWordName (fun whole => unbroken "の末尾に" (by decide) whole.isInfix) seam (by decide)
    · have noSign : Avoids ['='] (ofString p ++ (l.moreParams ps ++ u)) :=
        Cursor.nameAvoids named.1 (by decide) _
      exact Cursor.dropWordAvoids noSign (by decide)
    · exact particle (by decide) (by decide)

theorem missesBehindTarget {Q : Place → Prop} {u v} (target : Reads nested.target Q t v) (skips : Passes spaces () v u)
    (missing : ∀ w ∈ targetWords, Cursor.dropWord w.toList u = none) : Misses nested.onTarget t := by
  refine missesHere fun start => missesBind target fun p _ => missesAfter skips ?_
  refine missesAfter (passesNot (missing "を増やす" (by decide))) ?_
  refine missesAfter (passesNot (missing "を減らす" (by decide))) ?_
  refine missesAfter (passesNot (missing "の末尾に" (by decide))) ?_
  refine missesAfter (passesNot (missing "=" (by decide))) ?_
  exact missesFirst (missesWord (missing "を" (by decide))) _

theorem missesAfterTarget {Q : Place → Prop} {u n} (target : Reads nested.target Q t (blanks n ++ u)) (solid : Solid u)
    (missing : ∀ w ∈ targetWords, Cursor.dropWord w.toList u = none) :
    Misses nested.onTarget t := missesBehindTarget target (passesSpaces solid n) missing

theorem missesNoTarget {c : Char} {u : Text} (none : Cursor.isNameLetter c = false) :
    Misses nested.onTarget (.char c :: u) := by
  have identifier : Misses identifier (.char c :: u) := missesIdentifier (by rw [none]; rfl)
  exact missesHere fun _ => missesFirst (missesHere fun _ => missesFirst identifier _) _

theorem missesTargetForeign (foreign : Foreign t) : Misses nested.onTarget t := by
  obtain ⟨c,u,rfl,_,none⟩ := foreign
  exact missesHere fun _ => missesFirst (missesHere fun _ => missesFirst (missesIdentifier none) _) _

/-! Words of statements -/

theorem passesLoopWord (t : Text) :
    Passes (orElse (word "くり返す") (word "繰り返す")) () (ofString l.loopWord ++ t) t := by
  unfold loopWord
  split
  · exact readsElse (missesWord rfl) (passesWord _)
  · exact readsOrElse (passesWord _)

theorem passesComparator (cmp : Comparator) (u : Text) :
    Passes (comparator comparators) cmp (l.comparison cmp ++ (ofString "ならば" ++ u))
      (ofString "ならば" ++ u) := by
  have solid : Solid (ofString "ならば" ++ u) := ⟨'な',_,rfl,by decide⟩
  cases cmp with
  | greater =>
    simp only [comparison,List.append_assoc]
    exact readsAfter (passesTry "より大きい") (readsAfter (passesSpaces solid _) (readsPure rfl))
  | less =>
    cases under : l.under with
    | true =>
      simp only [comparison,lessWord,under,if_true,List.append_assoc]
      refine readsNot (readsNot (readsNot (readsNot ?_)))
      exact readsAfter (passesTry "未満") (readsAfter (passesSpaces solid _) (readsPure rfl))
    | false =>
      simp only [comparison,lessWord,under,Bool.false_eq_true,if_false,List.append_assoc]
      refine readsNot ?_
      exact readsAfter (passesTry "より小さい") (readsAfter (passesSpaces solid _) (readsPure rfl))
  | greaterEqual =>
    simp only [comparison,List.append_assoc]
    refine readsNot (readsNot ?_)
    exact readsAfter (passesTry "以上") (readsAfter (passesSpaces solid _) (readsPure rfl))
  | lessEqual =>
    simp only [comparison,List.append_assoc]
    refine readsNot (readsNot (readsNot ?_))
    exact readsAfter (passesTry "以下") (readsAfter (passesSpaces solid _) (readsPure rfl))
  | notEqual =>
    simp only [comparison,List.append_assoc]
    refine readsNot (readsNot (readsNot (readsNot (readsNot ?_))))
    exact readsAfter (passesTry "以外") (readsAfter (passesSpaces solid _) (readsPure rfl))
  | equal =>
    exact readsNot (readsNot (readsNot (readsNot (readsNot (readsNot (readsPure rfl))))))

theorem comparisonAvoids (cmp : Comparator) (u : Text) :
    Avoids operators (l.comparison cmp ++ (ofString "ならば" ++ u)) := by
  cases cmp with
  | greater => exact ⟨'よ',_,rfl,by decide⟩
  | less =>
    cases under : l.under with
    | true =>
      simp only [comparison,lessWord,under,if_true]
      exact ⟨'未',_,rfl,by decide⟩
    | false =>
      simp only [comparison,lessWord,under]
      exact ⟨'よ',_,rfl,by decide⟩
  | equal => exact ⟨'な',_,rfl,by decide⟩
  | _ => exact ⟨'以',_,rfl,by decide⟩

theorem readsOneStatement {rest : Text}
    (reads : Reads nested.alternatives P t (.char '\n' :: rest)) :
    Reads nested.oneStatement P t (.char '\n' :: rest) :=
  readsHere fun _ => readsBind (readsOrElse reads) fun _ holds =>
    readsAfter passesStatementEnd (readsPure holds)

section Complete

variable (complete : nested.Complete l size)

include complete

theorem missesSuffix {e : Expr} (ok : e.Writable) (small : (e.written l).length < size) {w}
    {f : Nat → Expr → Unit → Reader Stmt} {n u} (ends : Ends (blanks n ++ u))
    (solid : Solid u) (missing : Cursor.dropWord w.toList u = none) :
    Misses (here >>= fun start => nested.expression >>= fun a => spaces >>= fun _ => word w >>= f start a)
      (e.written l ++ (blanks n ++ u)) :=
  missesHere fun _ => missesBind (readsExpression complete e ok small ends) fun _ _ =>
    missesAfter (passesSpaces solid n) (missesFirst (missesWord missing) _)

theorem missesForeignExpression (foreign : Foreign t) (some : 0 < size) : Misses nested.expression t :=
  missesFirst (complete.foreign some t foreign) _

theorem missesOnValue (e : Expr) (ok : e.Writable) (small : (e.written l).length < size) {n u}
    (ends : Ends (blanks n ++ u)) (solid : Solid u) (avoids : Avoids ['を','の','='] u) :
    Misses nested.onTarget (e.written l ++ (blanks n ++ u)) := by
  cases e with
  | int span k =>
    obtain ⟨c,v,same,digit⟩ := digitsHead k (blanks n ++ u)
    simp only [Expr.written]
    rw [same]
    exact missesNoTarget (Cursor.digitNoLetter digit)
  | null span => exact missesNoTarget (c := '?') (by decide)
  | text span s index => exact missesNoTarget (c := '"') (by decide)
  | seq span es => exact missesNoTarget (c := '[') (by decide)
  | neg span e => exact missesNoTarget (c := '-') (by decide)
  | len span e => exact missesNoTarget (c := '|') (by decide)
  | var p =>
    obtain ⟨span,name,is⟩ := p
    simp only [Expr.written,Place.written,List.length_append] at small
    simp only [Expr.written,Place.written,List.append_assoc]
    exact missesAfterTarget (readsTarget complete span name is ok.1.1 ok.2 (by omega) ends.1) solid
      (noTargetWord avoids)
  | call span name es =>
    simp only [Expr.written,List.append_assoc,List.cons_append]
    refine missesHere fun _ => missesFirst (missesHere fun _ => ?_) _
    refine missesAfter (passesIdentifier ok.1.1 ⟨'(',_,rfl,by decide⟩) ?_
    exact missesAfter passesPeek missesAbsent
  | fn span ps body =>
    simp only [Expr.written,List.append_assoc]
    -- The word that the function begins with is read as a name.
    have word : isIdentifier (ofString "入力") := by decide +kernel
    have target {v : Text} := readsTarget complete nowhere "入力" [] word trivial (Nat.zero_lt_of_lt small)
      (⟨' ',v,rfl,by decide⟩ : Among closers (gap ++ v))
    exact missesAfterTarget target (solidParams l ok.1 ⟨'に',_,rfl,by decide⟩)
      (paramsNoTarget ok.1 ⟨'に',_,rfl,by decide⟩)

/-! The alternatives in turn -/

theorem readsOnPlace (p : Place) (ok : p.Writable) (small : (p.written l).length < size) {u : Text}
    (begins : Among ['=','を','の'] u) (reads : Reads nested.onTarget P (p.written l ++ (gap ++ u)) t) :
    Reads nested.alternatives P (p.written l ++ (gap ++ u)) t := by
  have ends : Ends (gap ++ u) := endsGap (begins.avoids (by decide))
  have opens : Opens (p.written l ++ (gap ++ u)) := opensExpr l (.var p) ok ends.1
  have noLoop : Avoids ['回'] u := begins.avoids (by decide)
  refine readsElse (missesConditional (opens.words "もし" (by decide))) ?_
  refine readsElse (missesSuffix complete (e := .var p) ok small ends (begins.avoids (by decide))
    (Cursor.dropWordAvoids noLoop (by decide))) ?_
  exact readsElse (missesDoctest (opens.head.mono (by decide))) (readsOrElse reads)

theorem readsOnExpression (e : Expr) (ok : e.Writable) (small : (e.written l).length < size) {n : Nat}
    {u} (ends : Ends (blanks n ++ u)) (solid : Solid u) (avoids : Avoids ['を','の','=','回'] u)
    (reads : Reads (firstOf [nested.answer,leave,nested.observe]) P (e.written l ++ (blanks n ++ u)) t) :
    Reads nested.alternatives P (e.written l ++ (blanks n ++ u)) t := by
  have opens := opensExpr l e ok ends.1
  refine readsElse (missesConditional (opens.words "もし" (by decide))) ?_
  refine readsElse (missesSuffix complete ok small ends solid (Cursor.dropWordAvoids avoids (by decide))) ?_
  refine readsElse (missesDoctest (opens.head.mono (by decide))) ?_
  exact readsElse (missesOnValue complete e ok small ends solid (avoids.mono (by decide))) reads

theorem readsPlace (p : Place) (ok : p.Writable) (small : (p.written l).length < size) {rest} (closed : Among closers rest) :
    Reads nested.target (fun a => a.bare = p.bare) (p.written l ++ rest) rest := by
  obtain ⟨span,name,is⟩ := p
  simp only [Place.written,List.length_append] at small
  simp only [Place.written,List.append_assoc]
  exact readsTarget complete span name is ok.1.1 ok.2 (by omega) closed

section Targets

variable (span : Span) {p : Place} (target : p.Writable) (small : (p.written l).length < size)

include target small

theorem readsOnTarget {f : Nat → Place → Reader Stmt} {u} (begins : Among ['=','を','の'] u)
    (next : ∀ start q, q.bare = p.bare → Reads (f start q) P u t) :
    Reads (here >>= fun start => nested.target >>= fun q => spaces >>= fun _ => f start q) P
      (p.written l ++ (gap ++ u)) t :=
  readsHere fun start => readsBind (readsPlace complete p target small ⟨' ',u,rfl,by decide⟩)
    fun q bare => readsAfter (passesSpaces (begins.avoids (by decide)) 1) (next start q bare)

theorem readsIncrement (rest : Text) :
    Reads nested.onTarget (fun a => a.bare = (Stmt.increment span p).bare)
      (p.written l ++ (gap ++ (ofString "を増やす" ++ rest))) rest := by
  refine readsOnTarget complete target small ⟨'を',_,rfl,by decide⟩ fun start q bare => ?_
  refine readsAfter (passesTry "を増やす") (readsHere fun stop => readsPure ?_)
  simp only [Stmt.bare,bare]

theorem readsDecrement (rest : Text) :
    Reads nested.onTarget (fun a => a.bare = (Stmt.decrement span p).bare)
      (p.written l ++ (gap ++ (ofString "を減らす" ++ rest))) rest := by
  refine readsOnTarget complete target small ⟨'を',_,rfl,by decide⟩ fun start q bare => ?_
  refine readsNot ?_
  refine readsAfter (passesTry "を減らす") (readsHere fun stop => readsPure ?_)
  simp only [Stmt.bare,bare]

variable {v : Expr} (ok : v.Writable) (fits : (v.written l).length < size)

include ok fits

theorem readsAppend (rest : Text) :
    Reads nested.onTarget (fun a => a.bare = (Stmt.append span p v).bare)
      (p.written l ++ (gap ++ (ofString "の末尾に" ++ (gap ++ (v.written l ++ (gap ++
        (ofString "を追加する" ++ rest))))))) rest := by
  have ends : Ends (gap ++ (ofString "を追加する" ++ rest)) := endsGap ⟨'を',_,rfl,by decide⟩
  refine readsOnTarget complete target small ⟨'の',_,rfl,by decide⟩ fun start q bare => ?_
  refine readsNot (readsNot (readsAfter (passesTry "の末尾に") ?_))
  refine readsAfter (passesSpaces (opensExpr l v ok ends.1).solid 1) ?_
  refine readsBind (readsRequire _ (readsExpression complete v ok fits ends)) fun a same => ?_
  refine readsAfter (passesSpaces ⟨'を',_,rfl,by decide⟩ 1) ?_
  refine readsAfter (readsRequire _ (passesWord "を追加する")) (readsHere fun stop => readsPure ?_)
  simp only [Stmt.bare,bare,same]

theorem readsSigned {rest : Text} (ends : Ends rest) :
    Reads nested.onTarget (fun a => a.bare = (Stmt.assign span p v).bare)
      (p.written l ++ (gap ++ (ofString "=" ++ (gap ++ (v.written l ++ rest))))) rest := by
  refine readsOnTarget complete target small ⟨'=',_,rfl,by decide⟩ fun start q bare => ?_
  refine readsNot (readsNot (readsNot ?_))
  refine readsAfter (passesTry "=") ?_
  refine readsAfter (passesSpaces (opensExpr l v ok ends.1).solid 1) ?_
  refine readsBind (readsRequire _ (readsExpression complete v ok fits ends)) fun a same =>
    readsHere fun stop => readsPure ?_
  simp only [Stmt.bare,bare,same]

theorem readsSpelled (rest : Text) :
    Reads nested.onTarget (fun a => a.bare = (Stmt.assign span p v).bare)
      (p.written l ++ (gap ++ (ofString "を" ++ (gap ++ (v.written l ++ (gap ++ (ofString "とする" ++ rest)))))))
      rest := by
  have ends : Ends (gap ++ (ofString "とする" ++ rest)) := endsGap ⟨'と',_,rfl,by decide⟩
  refine readsOnTarget complete target small ⟨'を',_,rfl,by decide⟩ fun start q bare => ?_
  refine readsNot (readsNot (readsNot (readsNot (readsAfter (passesWord "を") ?_))))
  refine readsAfter (passesSpaces (opensExpr l v ok ends.1).solid 1) ?_
  refine readsBind (readsExpression complete v ok fits ends) fun a same => ?_
  refine readsAfter (passesSpaces ⟨'と',_,rfl,by decide⟩ 1) ?_
  refine readsAfter (passesWord "とする") (readsHere fun stop => readsPure ?_)
  simp only [Stmt.bare,bare,same]

end Targets

/-! Conditions, loops and the rest -/

theorem readsAlternative (no : Option Block) (ok : otherwiseWritable no)
    (small : (otherwiseWritten l no).length < size) {rest} (noBranch : NoBranch rest) :
    Reads nested.alternative (fun a => otherwiseBare a = otherwiseBare no)
      (otherwiseWritten l no ++ rest) rest := by
  cases no with
  | none =>
    obtain ⟨u,passes,missing⟩ := noBranch
    exact readsElse (missesAfter passes (missesFirst (missesWord missing) _)) (readsPure rfl)
  | some b =>
    simp only [otherwiseWritten,List.length_append] at small
    simp only [otherwiseWritten,List.append_assoc]
    refine readsOrElse (readsAfter (passesBlank ⟨'そ',_,rfl,by decide⟩ ⟨'そ',_,rfl,by decide⟩ 1) ?_)
    refine readsAfter (passesWord "そうでなければ") ?_
    refine readsPaused complete b ok (by omega) fun a bare => readsPure ?_
    simp only [otherwiseBare,bare]

theorem readsConditional (span : Span) (a b : Expr) (cmp : Comparator) (yes : Block) (no : Option Block)
    (ok : (Stmt.cond span a b cmp yes no).Writable) (small : ((Stmt.cond span a b cmp yes no).written l).length < size) {rest}
    (noBranch : NoBranch rest) : Reads nested.conditional (fun s => s.bare = (Stmt.cond span a b cmp yes no).bare)
      ((Stmt.cond span a b cmp yes no).written l ++ rest) rest := by
  obtain ⟨left,right,first,second⟩ := ok
  simp only [Stmt.written,List.length_append] at small
  simp only [Stmt.written,List.append_assoc]
  refine readsHere fun start => readsAfter (passesWord "もし") ?_
  refine readsAfter (passesSpaces (opensExpr l a left ⟨' ',_,rfl,by decide⟩).solid 1) ?_
  refine readsBind (readsExpression complete a left (by omega) (endsGap ⟨'が',_,rfl,by decide⟩))
    fun a' same => ?_
  refine readsAfter (passesSpaces ⟨'が',_,rfl,by decide⟩ 1) (readsAfter (passesWord "が") ?_)
  refine readsAfter (passesSpaces (opensExpr l b right ⟨' ',_,rfl,by decide⟩).solid 1) ?_
  refine readsBind (readsExpression complete b right (by omega) (endsGap (comparisonAvoids cmp _)))
    fun b' same' => ?_
  refine readsAfter (passesSpaces ((comparisonAvoids cmp _).mono (by decide)) 1) ?_
  refine readsAfter (passesComparator cmp _) (readsAfter (passesWord "ならば") ?_)
  refine readsPaused complete yes first (by omega) fun yes' bare => ?_
  refine readsBind (readsAlternative complete no second (by omega) noBranch) fun no' bare' =>
    readsHere fun stop => readsPure ?_
  simp only [Stmt.bare,same,same',bare,bare']

theorem readsLoop (span : Span) (n : Expr) (body : Block) (ok : (Stmt.loop span n body).Writable)
    (small : ((Stmt.loop span n body).written l).length < size) (rest : Text) :
    Reads nested.loop (fun s => s.bare = (Stmt.loop span n body).bare)
      ((Stmt.loop span n body).written l ++ rest) rest := by
  obtain ⟨count,inner⟩ := ok
  simp only [Stmt.written,List.length_append] at small
  simp only [Stmt.written,List.append_assoc]
  have again : ∀ u, Solid (ofString l.loopWord ++ u) := by
    intro u
    unfold loopWord
    split
    · exact ⟨'繰',_,rfl,by decide⟩
    · exact ⟨'く',_,rfl,by decide⟩
  refine readsHere fun start => ?_
  refine readsBind (readsExpression complete n count (by omega) (endsGap ⟨'回',_,rfl,by decide⟩))
    fun n' same => ?_
  refine readsAfter (passesSpaces ⟨'回',_,rfl,by decide⟩ 1) (readsAfter (passesWord "回") ?_)
  refine readsAfter (passesSpaces (again _) l.joint) (readsAfter (passesLoopWord _) ?_)
  refine readsPaused complete body inner (by omega) fun b bare => readsHere fun stop => readsPure ?_
  simp only [Stmt.bare,same,bare]

theorem readsDoctest (span : Span) (e expected : Expr) (ok : (Stmt.doctest span e expected).Writable)
    (small : ((Stmt.doctest span e expected).written l).length < size) {rest} (ends : Ends rest) :
    Reads nested.doctest (fun s => s.bare = (Stmt.doctest span e expected).bare)
      ((Stmt.doctest span e expected).written l ++ rest) rest := by
  obtain ⟨value,wanted⟩ := ok
  simp only [Stmt.written,List.length_append,List.length_cons] at small
  simp only [Stmt.written,List.append_assoc,List.cons_append]
  have line : Ends (.char '\n' :: (expected.written l ++ rest)) := endsClose ⟨'\n',_,rfl,by decide⟩
  refine readsHere fun start => readsAfter (passesWord ">>>") ?_
  refine readsAfter (passesSpaces (opensExpr l e value line.1).solid 1) ?_
  refine readsBind (readsRequire _ (readsExpression complete e value (by omega) line)) fun e' same => ?_
  refine readsAfter passesStatementEnd (readsAfter (passesNoSpaces ⟨'\n',_,rfl,by decide⟩) ?_)
  refine readsAfter (readsRequire _ (passesWord "\n")) ?_
  refine readsAfter (passesNoSpaces (opensExpr l expected wanted ends.1).solid) ?_
  refine readsBind (readsRequire _ (readsExpression complete expected wanted (by omega) ends)) fun x' same' =>
    readsHere fun stop => readsPure ?_
  simp only [Stmt.bare,same,same']

theorem readsAnswer (span : Span) (e : Expr) (ok : e.Writable) (small : (e.written l).length < size)
    (rest : Text) :
    Reads nested.alternatives (fun a => a.bare = (Stmt.answer span e).bare)
      (e.written l ++ (gap ++ (ofString "が答え" ++ rest))) rest := by
  have ends : Ends (gap ++ (ofString "が答え" ++ rest)) := endsGap ⟨'が',_,rfl,by decide⟩
  refine readsOnExpression complete e ok small ends ⟨'が',_,rfl,by decide⟩ ⟨'が',_,rfl,by decide⟩
    (readsOrElse (readsHere fun start => ?_))
  refine readsBind (readsExpression complete e ok small ends) fun e' same => ?_
  refine readsAfter (passesSpaces ⟨'が',_,rfl,by decide⟩ 1) ?_
  refine readsAfter (passesWord "が答え") (readsHere fun stop => readsPure ?_)
  simp only [Stmt.bare,same]

theorem readsObserve (span : Span) (e : Expr) (ok : e.Writable) (small : (e.written l).length < size)
    {rest : Text} (line : Among ['\n'] rest) :
    Reads nested.alternatives (fun a => a.bare = (Stmt.observe span e).bare) (e.written l ++ rest) rest := by
  have ends : Ends rest := endsClose (line.mono (by decide))
  have solid : Solid rest := line.avoids (by decide)
  have others : Avoids ['を','の','=','回','が'] rest := line.avoids (by decide)
  have opens := opensExpr l e ok ends.1
  refine readsOnExpression complete e ok small (n := 0) ends solid (others.mono (by decide)) ?_
  refine readsElse (missesSuffix complete (n := 0) ok small ends solid
    (Cursor.dropWordAvoids others (by decide))) ?_
  refine readsElse (missesLeave (opens.words _ (by decide)) (opens.words _ (by decide))) ?_
  refine readsOrElse (readsHere fun start => ?_)
  refine readsBind (readsExpression complete e ok small ends) fun e' same =>
    readsHere fun stop => readsPure ?_
  simp only [Stmt.bare,same]

theorem missesLoopForeign (foreign : Foreign t) (some : 0 < size) : Misses nested.loop t :=
  missesHere fun _ => missesFirst (missesForeignExpression complete foreign some) _

theorem missesAnswerForeign (foreign : Foreign t) (some : 0 < size) : Misses nested.answer t :=
  missesHere fun _ => missesFirst (missesForeignExpression complete foreign some) _

theorem readsOnLeave {rest} (foreign : Foreign t) (avoids : Avoids ['も','>'] t) (some : 0 < size)
    (reads : Reads leave P t rest) : Reads nested.alternatives P t rest := by
  refine readsElse (missesConditional (Cursor.dropWordAvoids avoids (by decide))) ?_
  refine readsElse (missesLoopForeign complete foreign some) ?_
  refine readsElse (missesDoctest (avoids.mono (by decide))) (readsElse (missesTargetForeign foreign) ?_)
  exact readsElse (missesAnswerForeign complete foreign some) (readsOrElse reads)

theorem readsStatement (s : Stmt) (ok : s.Writable) (small : (s.written l).length < size) {rest : Text}
    (noBranch : NoBranch (.char '\n' :: rest)) :
    Reads nested.oneStatement (fun a => a.bare = s.bare) (s.written l ++ .char '\n' :: rest)
      (.char '\n' :: rest) := by
  have line : Ends (.char '\n' :: rest) := endsClose ⟨'\n',rest,rfl,by decide⟩
  refine readsOneStatement ?_
  cases s with
  | assign span p v =>
    cases sign : l.sign with
    | true =>
      simp only [Stmt.written,sign,if_true,List.length_append] at small
      simp only [Stmt.written,sign,if_true,List.append_assoc]
      exact readsOnPlace complete p ok.1 (by omega) ⟨'=',_,rfl,by decide⟩
        (readsSigned complete span ok.1 (by omega) ok.2 (by omega) line)
    | false =>
      simp only [Stmt.written,sign,Bool.false_eq_true,if_false,List.length_append] at small
      simp only [Stmt.written,sign,Bool.false_eq_true,if_false,List.append_assoc]
      exact readsOnPlace complete p ok.1 (by omega) ⟨'を',_,rfl,by decide⟩
        (readsSpelled complete span ok.1 (by omega) ok.2 (by omega) _)
  | append span p v =>
    simp only [Stmt.written,List.length_append] at small
    simp only [Stmt.written,List.append_assoc]
    exact readsOnPlace complete p ok.1 (by omega) ⟨'の',_,rfl,by decide⟩
      (readsAppend complete span ok.1 (by omega) ok.2 (by omega) _)
  | increment span p =>
    simp only [Stmt.written,List.length_append] at small
    simp only [Stmt.written,List.append_assoc]
    exact readsOnPlace complete p ok (by omega) ⟨'を',_,rfl,by decide⟩
      (readsIncrement complete span ok (by omega) _)
  | decrement span p =>
    simp only [Stmt.written,List.length_append] at small
    simp only [Stmt.written,List.append_assoc]
    exact readsOnPlace complete p ok (by omega) ⟨'を',_,rfl,by decide⟩
      (readsDecrement complete span ok (by omega) _)
  | cond span a b cmp yes no =>
    exact readsOrElse (readsConditional complete span a b cmp yes no ok small noBranch)
  | loop span n body =>
    have reads := readsLoop complete span n body ok small (.char '\n' :: rest)
    have opens : Opens ((Stmt.loop span n body).written l ++ .char '\n' :: rest) := by
      simp only [Stmt.written,List.append_assoc]
      exact opensExpr l n ok.1 ⟨' ',_,rfl,by decide⟩
    exact readsElse (missesConditional (opens.words "もし" (by decide))) (readsOrElse reads)
  | leave span =>
    have some : 0 < size := by omega
    simp only [Stmt.written,leaveWord]
    split
    · refine readsOnLeave complete ⟨'繰',_,rfl,by decide,rfl⟩ ⟨'繰',_,rfl,by decide⟩ some
        (readsHere fun start => ?_)
      exact readsAfter (readsElse (missesWord rfl) (passesWord _)) (readsHere fun stop => readsPure rfl)
    · refine readsOnLeave complete ⟨'く',_,rfl,by decide,rfl⟩ ⟨'く',_,rfl,by decide⟩ some
        (readsHere fun start => ?_)
      exact readsAfter (readsOrElse (passesWord _)) (readsHere fun stop => readsPure rfl)
  | answer span e =>
    simp only [Stmt.written,List.length_append] at small
    simp only [Stmt.written,List.append_assoc]
    exact readsAnswer complete span e ok (by omega) _
  | observe span e => exact readsObserve complete span e ok small ⟨'\n',rest,rfl,by decide⟩
  | doctest span e expected =>
    have foreign : Foreign ((Stmt.doctest span e expected).written l ++ .char '\n' :: rest) :=
      ⟨'>',_,rfl,by decide,rfl⟩
    refine readsElse (missesConditional rfl) (readsElse (missesLoopForeign complete foreign (by omega)) ?_)
    exact readsOrElse (readsDoctest complete span e expected ok small line)

end Complete

theorem completeUpTo (l : Layout) (size : Nat) : (upTo size).Complete l size := by
  induction size with
  | zero => exact ⟨fun _ _ small => absurd small (by omega),fun some => absurd some (by omega),
      fun _ _ small => absurd small (by omega)⟩
  | succ size ih =>
    refine ⟨fun e ok small rest closed => readsOnePrimary ih e ok small closed,
      fun _ t foreign => missesForeign foreign,fun s ok small rest noBranch => ?_⟩
    exact readsStatement ih s ok (by omega) noBranch

end Phrases

namespace Parse

open Phrases Reader

def Gives (p : Parse) (body : List Stmt) : Prop :=
  p.errors = [] ∧ p.finished ∧ bodyBare p.program.body = bodyBare body

theorem freshProgram (l : Layout) (body : List Stmt) (ok : bodyWritable body) :
    Fresh (bodyWritten l body) := by
  have ended : Fresh [] := ⟨fun pos => ⟨(),pos,rfl,rfl⟩,rfl⟩
  have fresh := freshBody l body ok ended
  rwa [List.append_nil] at fresh

theorem runReads {phrases l size} (complete : phrases.Complete l size)
    (recover : Bool) (source : Text) (body : List Stmt) (ok : bodyWritable body)
    (small : (bodyWritten l body).length < size) {n} (fuel : (bodyWritten l body).length < n)
    {t} (begins : Passes blank () t (bodyWritten l body)) (pos : Nat) :
    (run phrases recover source n ⟨pos,t⟩).errors = [] ∧ (run phrases recover source n ⟨pos,t⟩).finished ∧
      bodyBare (run phrases recover source n ⟨pos,t⟩).body = bodyBare body := by
  induction body generalizing n t pos with
  | nil =>
    obtain ⟨n,rfl⟩ := Nat.exists_eq_add_one.mpr (Nat.zero_lt_of_lt fuel)
    obtain ⟨_,start,skipped,_⟩ := begins pos
    have skips : Cursor.skipBlank ⟨pos,t⟩ = ⟨start,[]⟩ := by simpa [blank,bodyWritten] using skipped
    simp [run,skips,Cursor.atEnd]
  | cons s body ih =>
    obtain ⟨n,rfl⟩ := Nat.exists_eq_add_one.mpr (Nat.zero_lt_of_lt fuel)
    obtain ⟨_,start,skipped,_⟩ := begins pos
    have skips : Cursor.skipBlank ⟨pos,t⟩ = ⟨start,s.written l ++ .char '\n' :: bodyWritten l body⟩ := by
      simpa [blank,bodyWritten] using skipped
    have more : Cursor.atEnd ⟨start,s.written l ++ .char '\n' :: bodyWritten l body⟩ = false := by
      simp [Cursor.atEnd]
    have fresh := freshProgram l body ok.2
    simp only [bodyWritten,List.length_append,List.length_cons] at small fuel
    obtain ⟨a,next,found,same⟩ := complete.statement s ok.1 (by omega) _ fresh.noBranch start
    obtain ⟨errors,finished,later⟩ := ih ok.2 (by omega) (n := n) (by omega) (passesLine fresh.blank) next
    simp only [run,skips,more,found]
    refine ⟨errors,finished,?_⟩
    simp only [Bool.false_eq_true,if_false,bodyBare,same,later]

theorem ofNormalGives (l : Layout) (body : List Stmt) (ok : bodyWritable body) (recover : Bool) :
    (ofNormal recover (bodyWritten l body)).Gives body := by
  have complete := completeUpTo l (depthFor (bodyWritten l body).length)
  exact runReads complete recover _ body ok (by simp only [depthFor]; omega) (Nat.lt_succ_self _)
    (freshProgram l body ok).blank 0

end Parse

theorem writtenProgramsAreReadBack (l : Layout) (body : List Stmt) (ok : bodyWritable body) :
    (∀ recover, (Parse.ofNormal recover (bodyWritten l body)).Gives body) ∧
    ∀ t, Text.normalize t = bodyWritten l body →
      (Parse.strict t).Gives body ∧ (Parse.recovering t).Gives body := by
  have back := Parse.ofNormalGives l body ok
  refine ⟨back,fun t normal => ?_⟩
  simp only [Parse.strict,Parse.recovering,normal]
  exact ⟨back false,back true⟩

def particleNames : List Stmt :=
  [.assign nowhere (.mk nowhere "が" [.var (.mk nowhere "回" [])])
      (.fn nowhere ["x","回"] (.mk nowhere [.answer nowhere (.neg nowhere (.int nowhere 50))])),
    .cond nowhere (.len nowhere (.var (.mk nowhere "が" []))) (.text nowhere "a\"b" (some 1)) .less
      (.mk nowhere [.leave nowhere]) (some (.mk nowhere []))]

theorem particleNamesWritable : bodyWritable particleNames := by
  have named : ∀ name ∈ ["が","回","x"], Nameable name := by decide +kernel
  have bindable : Bindable ["x","回"] := ⟨by decide,fun p inside => named p (by revert p; decide),by decide⟩
  have inRange : ∀ i, some 1 = some i → i < "a\"b".toList.length := by
    intro i same
    cases same
    decide
  refine ⟨⟨⟨named _ (by decide),⟨named _ (by decide),trivial⟩,trivial⟩,bindable,trivial,trivial⟩,?_,trivial⟩
  exact ⟨⟨named _ (by decide),trivial⟩,inRange,⟨trivial,trivial⟩,trivial⟩

theorem particleNamesAreReadBack :
    bodyWritable particleNames ∧
    bodyWritten ⟨true,true,false,1,0,0,1⟩ particleNames =
      ofString "が[回] = 入力 x, 回 に対し \x7b\n-50 が答え\n\x7d\n" ++
      ofString "もし |が| が \"a\\\"b\"[1] 未満 ならば \x7b\nくり返しを抜ける\n\x7d そうでなければ \x7b\n\x7d\n" ∧
    (Parse.ofNormal true (bodyWritten ⟨true,true,false,1,0,0,1⟩ particleNames)).Gives particleNames :=
  ⟨particleNamesWritable,by decide +kernel,(writtenProgramsAreReadBack _ _ particleNamesWritable).1 true⟩

end Terakoya
