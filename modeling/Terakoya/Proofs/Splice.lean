import Terakoya.Proofs.Seam

/-! Phrases at a seam: what is read before the cut of one text is read again before the cut of the
other one, phrase by phrase. The right text may be shorter or longer; the nesting and the rounds that
are allowed for are enough for what is left of it. -/
namespace Terakoya

open Pending Reader

variable {α β : Type}

namespace Seam

variable {m : Seam} {c c' d d' : Cursor} {s u : Text} {off : α → Cursor → Prop} {size n : Nat} {move : α → α}
  {r r' : Reader α}

theorem tracksMono (less : n ≤ size) (tracks : m.Tracks off size move r r') : m.Tracks off n move r r' :=
  ⟨fun c c' pairs bound => tracks.agrees c c' pairs (by omega),tracks.drifts⟩

theorem tracksWeaken {off' : α → Cursor → Prop} (weaker : ∀ a d, off a d → off' a d) (tracks : m.Tracks off size move r r') :
    m.Tracks off' size move r r' := by
  refine ⟨fun c c' pairs bound => ?_,fun c lost => ?_⟩
  · have agrees := tracks.agrees c c' pairs bound
    cases result : r c with
    | found a d =>
      rw [result] at agrees
      exact agrees.imp_left (weaker a d)
    | _ =>
      rw [result] at agrees
      exact agrees
  · have drifts := tracks.drifts c lost
    cases result : r c with
    | found a d =>
      rw [result] at drifts
      exact weaker a d drifts
    | _ =>
      rw [result] at drifts
      exact drifts

theorem straysEats (eats : Eats c 0 r) (certain : Certain r) (behind : c.rest.length ≤ m.beyond.length) :
    m.Strays m.lost (r c) := by
  cases result : r c with
  | found a d => exact Nat.lt_of_lt_of_le (eats.2 c (Cursor.aheadRefl c) a d result) behind
  | absent d => exact absurd result (certain c d)
  | refused e => trivial
  | unfinished => trivial

theorem straysTry {off' : β → Cursor → Prop} {w} {f : Bool → Reader β} (some : Text.ofString w ≠ [])
    (behind : c.rest.length ≤ m.beyond.length) (hit : ∀ d, m.Lost d → m.Strays off' (f true d))
    (miss : m.Strays off' (f false c)) : m.Strays off' ((tryWord w >>= f) c) := by
  simp only [Bind.bind,Reader.bind,tryWord]
  cases found : c.consume? w with
  | none => exact miss
  | some d =>
    refine hit d (Nat.lt_of_lt_of_le ?_ behind)
    rw [(Cursor.overWord found).rest,List.length_append]
    exact Nat.lt_add_of_pos_left (List.length_pos_iff.mpr some)

theorem straysTryAny {off' : β → Cursor → Prop} {ws} {f : Bool → Reader β}
    (some : ∀ w ∈ ws, Text.ofString w ≠ []) (behind : c.rest.length ≤ m.beyond.length)
    (hit : ∀ d, m.Lost d → m.Strays off' (f true d)) (miss : m.Strays off' (f false c)) :
    m.Strays off' ((tryWords ws >>= f) c) := by
  simp only [Bind.bind,Reader.bind,tryWords]
  cases found : c.consumeAny? ws with
  | none => exact miss
  | some picked =>
    obtain ⟨w,d⟩ := picked
    obtain ⟨member,across⟩ := Cursor.overAnyWord found
    refine hit d (Nat.lt_of_lt_of_le ?_ behind)
    rw [across.rest,List.length_append]
    exact Nat.lt_add_of_pos_left (List.length_pos_iff.mpr (some w member))

theorem tracksAfterSpaces (moves : ∀ c, Moves c 0 r) (weaker : ∀ a d, m.Lost d → off a d)
    (proper : ∀ g s c c', m.Inside (g :: s) c c' → c'.rest.length < size → m.Follows off move c' (r c) (r' c'))
    (past : ∀ c c', m.Past c c' → m.Follows off move c' (r c) (r' c')) :
    m.Tracks off size move (spaces >>= fun _ => r) (spaces >>= fun _ => r') := by
  refine tracksOf (fun c => movesBind movesSpaces fun _ => moves c) weaker fun c c' pairs bound => ?_
  have shorter := Cursor.aheadLength (Cursor.aheadSpaces c')
  refine followsShorter c'.skipSpaces ?_ shorter
  rcases spacesPaired pairs with ⟨g,s,inside⟩ | behind
  · exact proper g s _ _ inside (by omega)
  · exact past _ _ behind

theorem tracksAfterBlank (strays : ∀ c : Cursor, c.rest.length ≤ m.beyond.length → m.Strays off (r c))
    (proper : ∀ g s c c', m.Inside (g :: s) c c' → c'.rest.length < size → m.Follows off move c' (r c) (r' c')) :
    m.Tracks off size move (blank >>= fun _ => r) (blank >>= fun _ => r') := by
  refine ⟨fun c c' pairs bound => ?_,fun c lost => ?_⟩
  · have shorter := Cursor.aheadLength (Cursor.aheadBlank c')
    refine followsShorter c'.skipBlank ?_ shorter
    rcases blankPaired pairs with ⟨g,s,inside⟩ | ⟨spent,_⟩
    · exact proper g s _ _ inside (by omega)
    · exact followsStrays (strays c.skipBlank (spent ▸ m.spentLength))
  · exact strays c.skipBlank (Nat.le_trans (Cursor.aheadLength (Cursor.aheadBlank c)) (Nat.le_of_lt lost))

theorem cutPeek (cut : c'.rest = m.new) : c'.peek = '\n' ∨ c'.peek = '\x00' := by
  unfold Cursor.peek
  rw [cut]
  rcases m.newHead with none | ⟨t,head⟩
  · rw [none]
    exact Or.inr rfl
  · rw [head]
    exact Or.inl rfl

theorem peekPaired (pairs : m.Pairs c c') : (∃ g s, m.Inside (g :: s) c c' ∧ c.peek = g.toChar ∧ c'.peek = g.toChar) ∨
    c'.rest = m.new ∧ (c'.peek = '\n' ∨ c'.peek = '\x00') := by
  rcases pairs with ⟨s,inside⟩ | past
  · rcases s with _ | ⟨g,s⟩
    · exact Or.inr ⟨inside.rest',cutPeek inside.rest'⟩
    · refine Or.inl ⟨g,s,inside,?_,?_⟩
      · rw [Cursor.peek,inside.rest]
        rfl
      · rw [Cursor.peek,inside.rest']
        rfl
  · exact Or.inr ⟨past.rest',cutPeek past.rest'⟩

theorem callPaired (inside : m.Inside s c c') : c.peek = '(' ↔ c'.peek = '(' := by
  rcases s with _ | ⟨g,s⟩
  · refine iff_of_false (fun call => ?_) fun call => ?_
    · rw [Cursor.peek,inside.rest,List.nil_append] at call
      rcases old : m.old with _ | ⟨g,t⟩
      · rw [old] at call
        contradiction
      · rw [old] at call
        have head : g.toChar = '(' := call
        exact m.apart g t old (head ▸ List.mem_cons_self)
    · have ending := cutPeek inside.rest'
      rw [call] at ending
      exact absurd ending (by decide)
  · rw [Cursor.peek,Cursor.peek,inside.rest,inside.rest']
    rfl

theorem tracksPeek {f f' : Char → Reader α} (same : ∀ x, m.Tracks off size move (f x) (f' x))
    (cut : ∀ x x', x' = '\n' ∨ x' = '\x00' → m.Tracks off size move (f x) (f' x')) :
    m.Tracks off size move (peek >>= f) (peek >>= f') := by
  refine ⟨fun c c' pairs bound => ?_,fun c lost => (same c.peek).drifts c lost⟩
  change m.Follows off move c' (f c.peek c) (f' c'.peek c')
  rcases peekPaired pairs with ⟨g,s,_,left,right⟩ | ⟨_,ending⟩
  · rw [left,right]
    exact (same g.toChar).agrees c c' pairs bound
  · exact (cut c.peek c'.peek ending).agrees c c' pairs bound

/-! The way back: what is found before the cut on the right is found on the left. -/

def Backs (m : Seam) (same : α → α → Prop) (r r' : Reader α) : Prop :=
  ∀ s c c' a d', m.Inside s c c' → r' c' = .found a d' →
    d'.rest = m.new ∨ ∃ b d u, r c = .found b d ∧ same b a ∧ m.Inside u d d'

def Recovers (m : Seam) (r r' : Reader α) : Prop :=
  ∀ s c c' a d', m.Inside s c c' → r' c' = .found a d' → ∃ b d u, r c = .found b d ∧ m.Inside u d d'

def Idles (m : Seam) (r' : Reader α) : Prop := ∀ c' a d', c'.rest = m.new → r' c' ≠ .found a d'

theorem recoversBind {same : α → α → Prop} {f f' : α → Reader β} (first : m.Backs same r r')
    (next : ∀ b a, same b a → m.Recovers (f b) (f' a)) (cut : ∀ a, m.Idles (f' a)) :
    m.Recovers (r >>= f) (r' >>= f') := by
  intro s c c' a e' inside found
  obtain ⟨x,d',first',found⟩ := foundBind found
  rcases first s c c' x d' inside first' with ended | ⟨b,d,u,read,related,after⟩
  · exact absurd found (cut x d' a e' ended)
  · obtain ⟨y,e,v,second,last⟩ := next b x related u d d' a e' after found
    refine ⟨y,e,v,?_,last⟩
    simp only [Bind.bind,Reader.bind,read]
    exact second

theorem backsWord {w} (token : isToken w) (line : '\n' ∉ w.toList) : m.Backs Eq (word w) (word w) := by
  intro s c c' a d' inside found
  simp only [word] at found
  split at found
  · rename_i next consumed
    cases found
    obtain ⟨u,d,_,left,after⟩ := wordBack token line (Or.inl ⟨s,inside⟩) consumed
    refine Or.inr ⟨(),d,u,?_,rfl,after⟩
    simp only [word,left]
  · contradiction

theorem backsSpaces : m.Backs Eq spaces spaces := by
  intro s c c' a d' inside found
  cases found
  rcases spacesPaired (Or.inl ⟨s,inside⟩) with ⟨g,u,after⟩ | past
  · exact Or.inr ⟨(),_,g :: u,rfl,rfl,after⟩
  · exact Or.inl past.rest'

theorem backsHere : m.Backs (fun _ _ => True) here here := by
  intro s c c' a d' inside found
  cases found
  exact Or.inr ⟨_,_,s,rfl,trivial,inside⟩

theorem backsDigits : m.Backs Eq (fun c => .found c.readDigits.1 c.readDigits.2)
    (fun c => .found c.readDigits.1 c.readDigits.2) := by
  intro s c c' a d' inside found
  cases found
  have alike := digitsAlike (insideEta inside)
  rw [← inside.rest,← inside.rest'] at alike
  refine (alikeMap alike String.ofList).imp And.right fun ⟨same,u,after⟩ => ⟨_,_,u,rfl,same.symm,after⟩

theorem idlesWord {w} (token : isToken w) (line : '\n' ∉ w.toList) {f : Unit → Reader β} : m.Idles (word w >>= f) := by
  intro c' a d' cut found
  obtain ⟨_,_,consumed,_⟩ := foundBind found
  simp only [word,wordCut token line cut] at consumed
  contradiction

theorem idlesSpaces {f : Unit → Reader β} (next : m.Idles (f ())) : m.Idles (spaces >>= f) := by
  intro c' a d' cut found
  have stays : c'.skipSpaces.rest = m.new := by
    rw [Cursor.skipSpaces,cut,newStays]
  exact next c'.skipSpaces a d' stays found

theorem recoversWord {w} (token : isToken w) (line : '\n' ∉ w.toList) (a a' : α) :
    m.Recovers (word w >>= fun _ => Pure.pure a) (word w >>= fun _ => Pure.pure a') := by
  intro s c c' x d' inside found
  obtain ⟨_,e',read,done⟩ := foundBind found
  cases done
  simp only [word] at read
  split at read
  · rename_i next consumed
    cases read
    obtain ⟨u,d,_,left,after⟩ := wordBack token line (Or.inl ⟨s,inside⟩) consumed
    refine ⟨a,d,u,?_,after⟩
    simp only [Bind.bind,Reader.bind,word,left]
    rfl
  · contradiction

def isSingle (w : String) : Bool := isToken w && !w.toList.contains '\n' && w.toList.length = 1

theorem singlePaired (ws : List String) {g} (singles : ∀ w ∈ ws, isSingle w) (inside : m.Inside (g :: s) c c') :
    (∃ w w' d d' u, c.consumeAny? ws = some (w,d) ∧ c'.consumeAny? ws = some (w',d') ∧ m.Inside u d d') ∨
      c.consumeAny? ws = none ∧ c'.consumeAny? ws = none := by
  induction ws with
  | nil => exact Or.inr ⟨rfl,rfl⟩
  | cons w ws ih =>
    obtain ⟨single,rest⟩ := List.forall_mem_cons.mp singles
    simp only [isSingle,Bool.and_eq_true,Bool.not_eq_true',decide_eq_true_eq] at single
    have line : '\n' ∉ w.toList := by simpa using single.1.2
    simp only [Cursor.consumeAny?]
    cases found : c.consume? w with
    | none =>
      rw [wordMissing single.1.1 line (Or.inl ⟨_,inside⟩) found]
      exact ih rest
    | some d =>
      have before : ¬ m.Lost d := by
        have across := congrArg List.length ((Cursor.overWord found).rest.symm.trans inside.rest)
        simp only [List.length_append,List.length_cons,Text.ofString,List.length_map,single.2] at across
        have short := m.beyondLength
        rw [Lost]
        omega
      obtain ⟨u,d',found',after⟩ := (wordFound single.1.1 (Or.inl ⟨_,inside⟩) found).resolve_left before
      rw [found']
      exact Or.inl ⟨w,w,d,d',u,rfl,rfl,after⟩

theorem singleCut (ws : List String) (singles : ∀ w ∈ ws, isSingle w) (cut : c'.rest = m.new) : c'.consumeAny? ws = none := by
  induction ws with
  | nil => rfl
  | cons w ws ih =>
    obtain ⟨single,rest⟩ := List.forall_mem_cons.mp singles
    simp only [isSingle,Bool.and_eq_true,Bool.not_eq_true',decide_eq_true_eq] at single
    rw [Cursor.consumeAny?,wordCut single.1.1 (by simpa using single.1.2) cut]
    exact ih rest

def Mild : Reading α → Prop
  | .found _ _ => True
  | .absent _ => True
  | _ => False

theorem mildBind {f : α → Reader β} (first : Mild (r c)) (next : ∀ a d, r c = .found a d → Mild (f a d)) :
    Mild ((r >>= f) c) := by
  simp only [Bind.bind,Reader.bind]
  cases result : r c with
  | found a d => exact next a d result
  | absent d => trivial
  | refused e =>
    rw [result] at first
    contradiction
  | unfinished =>
    rw [result] at first
    contradiction

theorem mildWord (w : String) (c : Cursor) : Mild (word w c) := by
  simp only [word]
  split
  · trivial
  · trivial

theorem missingBack (recovers : m.Recovers r r') (mild : Mild (r' c')) (inside : m.Inside s c c') {x}
    (missing : r c = .absent x) : ∃ x', r' c' = .absent x' := by
  cases result : r' c' with
  | found a d' =>
    obtain ⟨b,d,_,found,_⟩ := recovers s c c' a d' inside result
    rw [missing] at found
    contradiction
  | absent x' => exact ⟨x',rfl⟩
  | refused e =>
    rw [result] at mild
    contradiction
  | unfinished =>
    rw [result] at mild
    contradiction

def Chooses (m : Seam) (off : α → Cursor → Prop) (move : α → α) (c c' : Cursor) (r r' : Reader α) : Prop :=
  ∀ a d, r c = .found a d → d.atStatementEnd →
    off a d ∨ ∃ d', r' c' = .found (move a) d' ∧ m.Pairs d d' ∧ d'.rest.length ≤ c'.rest.length

theorem choosesOrElse {s s'} (pairs : m.Pairs c c') (bound : c'.rest.length < size)
    (first : m.Tracks off size move r r') (stays : Stays 0 r) (within : Within s)
    (second : m.Chooses off move c c' s s') : m.Chooses off move c c' (orElse r s) (orElse r' s') := by
  intro a d found ended
  have agrees := first.agrees c c' pairs bound
  simp only [orElse] at found ⊢
  cases result : r c with
  | found b e =>
    rw [result] at found agrees
    cases found
    refine agrees.imp_right ?_
    rintro ⟨d',found',rest⟩
    refine ⟨d',?_,rest⟩
    rw [found']
  | absent x =>
    rw [result] at found agrees
    refine (second a d found ended).imp_right ?_
    rintro ⟨d',found',after,atMost⟩
    refine ⟨d',?_,after,atMost⟩
    have before : m.beyond.length ≤ x.rest.length :=
      calc m.beyond.length
        _ ≤ d.skipSpaces.rest.length := pairsLength (spacesPairs after)
        _ ≤ (fence ⟨.code,0⟩ c.rest).length := within c a d found ended
        _ ≤ x.rest.length := staysBefore stays result
    obtain ⟨x',missing⟩ := agrees.resolve_left (Nat.not_lt.mpr before)
    rw [missing]
    exact found'
  | refused e =>
    rw [result] at found
    contradiction
  | unfinished =>
    rw [result] at found
    contradiction

theorem choosesTracks (pairs : m.Pairs c c') (bound : c'.rest.length < size) (tracks : m.Tracks off size move r r') :
    m.Chooses off move c c' r r' := by
  intro a d found _
  have agrees := tracks.agrees c c' pairs bound
  rw [found] at agrees
  exact agrees

def Quiet (m : Seam) : Prop :=
  Cursor.dropWord "そうでなければ".toList (Cursor.skipFrom true false 0 m.new).rest = none

def Hanging (m : Seam) (d : Cursor) : Prop := ¬ m.Quiet ∧ d.skipBlank.rest = []

def adrift (m : Seam) (s : Stmt) (d : Cursor) : Prop := m.Lost d ∨ s.isOpen ∧ m.Hanging d

def undecided (m : Seam) (no : Option Block) (d : Cursor) : Prop := m.Lost d ∨ no = none ∧ m.Hanging d

end Seam

namespace Phrases

open Seam

def round (nested : Phrases) (start : Nat) (further : Reader (List Stmt)) : Reader (List Stmt) := do
  if ← tryWord "\x7d" then return []
  if (← fun c => .found c.atEnd c) then refuse start .unclosedBlock
  else
    let s ← nested.statement
    let rest ← further
    return s :: rest

theorem roundClosed {nested : Phrases} {start further c d}
    (closed : c.consume? "\x7d" = some d) : nested.round start further c = .found [] d := by
  simp only [round,Bind.bind,Reader.bind,tryWord,closed]
  rfl

theorem roundEnded {nested : Phrases} {start further c} (going : c.consume? "\x7d" = none) (ended : c.atEnd) :
    nested.round start further c = .refused ⟨start,.unclosedBlock⟩ := by
  simp [round,Bind.bind,Reader.bind,tryWord,going,ended,refuse]

theorem roundGoing {nested : Phrases} {start further c}
    (going : c.consume? "\x7d" = none) (some : c.atEnd = false) :
    nested.round start further c = (do let s ← nested.statement; let rest ← further; return s :: rest) c := by
  simp [round,Bind.bind,Reader.bind,tryWord,going,some]

def otherwise (nested : Phrases) : Reader (Option Block) := do
  word "そうでなければ"
  pause
  return some (← nested.block)

theorem alternativeFrom (nested : Phrases) (c : Cursor) : nested.alternative c =
    match nested.otherwise c.skipBlank with
    | .absent _ => .found none c
    | found => found := by
  change orElse (blank >>= fun _ => nested.otherwise) (Pure.pure none) c = _
  simp only [orElse,Bind.bind,Reader.bind,blank]
  cases nested.otherwise c.skipBlank <;> rfl

def condition (nested : Phrases) : Reader (Nat × Expr × Expr × Comparator × Block) := do
  let start ← here
  word "もし"
  spaces
  let left ← nested.expression
  spaces
  word "が"
  spaces
  let right ← nested.expression
  spaces
  let cmp ← comparator comparators
  word "ならば"
  pause
  let yes ← nested.block
  return (start,left,right,cmp,yes)

def decided (nested : Phrases) : Nat × Expr × Expr × Comparator × Block → Reader Stmt
  | (start,left,right,cmp,yes) => do
    let no ← nested.alternative
    return .cond ⟨start,← here⟩ left right cmp yes no

theorem conditionalSplit (nested : Phrases) : nested.conditional = nested.condition >>= nested.decided := by
  simp only [conditional,condition,bindAssoc]
  rfl

theorem oneStatementFound {nested : Phrases} {c d a} (found : nested.oneStatement c = .found a d) :
    firstOf [nested.conditional,nested.loop,nested.doctest,nested.onTarget,nested.answer,leave,nested.observe] c =
      .found a d ∧ d.atStatementEnd := by
  obtain ⟨start,_,begun,found⟩ := foundBind found
  cases begun
  obtain ⟨b,e,chosen,found⟩ := foundBind found
  obtain ⟨_,e',ended,done⟩ := foundBind found
  simp only [statementEnd] at ended
  split at ended
  · rename_i lineEnds
    cases ended
    cases done
    simp only [orElse] at chosen
    split at chosen
    · contradiction
    · exact ⟨chosen,lineEnds⟩
  · contradiction

theorem foundOneStatement {nested : Phrases} {c d a}
    (found : firstOf [nested.conditional,nested.loop,nested.doctest,nested.onTarget,nested.answer,leave,nested.observe] c =
      .found a d) (ended : d.atStatementEnd) : nested.oneStatement c = .found a d := by
  simp only [oneStatement,Bind.bind,Reader.bind,here]
  rw [orElse,found]
  simp only [statementEnd,ended,if_true]
  rfl

def pickedText (start : Nat) (content : List Char) : Option (Nat × String) → Reader Expr
  | none => do return .text ⟨start,← here⟩ (String.ofList content) none
  | some (offset,digits) =>
    let i := Nat.ofDigitChars 10 digits.toList 0
    if i < content.length then do return .text ⟨start,← here⟩ (String.ofList content) (some i)
    else refuse offset (.textIndex digits content.length)

theorem quotedTextFrom (c : Cursor) : quotedText c =
    if c.readText.closed then
      (orElse (some <$> textIndex) (Pure.pure none) >>= pickedText c.pos c.readText.content) c.readText.next
    else .refused ⟨c.pos,.unclosedText⟩ := by
  simp only [quotedText,Bind.bind,Reader.bind,here]
  cases c.readText.closed with
  | false => rfl
  | true =>
    simp only [Bool.not_true,Bool.false_eq_true,if_false,if_true,Reader.bind]
    cases orElse (some <$> textIndex) (Pure.pure none) c.readText.next with
    | found index d =>
      cases index with
      | none => rfl
      | some number => rfl
    | _ => rfl

theorem pickFrom (c : Cursor) : orElse (some <$> textIndex) (Pure.pure none) c =
    match textIndex c with
    | .found number d => .found (some number) d
    | .absent _ => .found none c
    | .refused e => .refused e
    | .unfinished => .unfinished := by
  have mapped : (some <$> textIndex) c = Reader.bind textIndex (fun number => Pure.pure (some number)) c := rfl
  simp only [orElse,mapped,Reader.bind]
  cases textIndex c <;> rfl

structure Tracked (m : Seam) (p s : Nat) (nested nested' : Phrases) : Prop where
  primary : m.Tracks m.lost p (Expr.moved m.move) nested.primary nested'.primary
  statement : m.Tracks m.adrift s (Stmt.moved m.move) nested.statement nested'.statement
  sheltered : nested.Sheltered Pending.Any
  forward : nested.Sized 0 0
  sized : nested'.Sized p s

def parameterName : Reader Text := do
  let name ← fun c => .found c.readName.1 c.readName.2
  if name = [] then absent else return name

theorem parametersRound (n : Nat) : parameters (n + 1) = (do
    let start ← here
    let name ← parameterName
    spaces
    if ← tryWords [",","、"] then
      spaces
      let rest ← parameters n
      return (start,name) :: rest
    else return [(start,name)]) := by
  funext c
  simp only [parameters,parameterName,Bind.bind,Reader.bind,here]
  by_cases none : c.readName.1 = []
  · rw [if_pos none,if_pos none]
    rfl
  · rw [if_neg none,if_neg none]
    rfl

def listing (empty : Bool) : Reader (List (Nat × Text)) :=
  (if empty then Reader.pure [] else fuelled parameters) >>= fun ps => word "に対し" >>= fun _ => Pure.pure ps

def listed : Reader (List (Nat × Text)) := fun c => listing (c.looksAt "に対し") c

theorem headerSplit : header = word "入力" >>= fun _ => spaces >>= fun _ => listed := by
  funext c
  simp only [header,Bind.bind,Reader.bind,spaces,listed]
  cases word "入力" c with
  | found _ d =>
    dsimp only
    cases d.skipSpaces.looksAt "に対し" <;> rfl
  | _ => rfl

theorem eatsListing {base size} (empty : Bool) : Eats base size (listing empty) := by
  have last (ps : List (Nat × Text)) : Eats base size (word "に対し" >>= fun _ => Pure.pure ps) :=
    eatsBind (eatsWord (by decide)) (Nat.le_succ size) fun _ => movesPure _
  refine eatsNext ?_ last
  cases empty with
  | true => exact movesPure _
  | false => exact movesFuelled (movesParameters size)

theorem eatsParameterName {base size} : Eats base size parameterName := by
  have moves : Moves base size parameterName := by
    refine movesBind movesName fun name => ?_
    split
    · exact movesAbsent
    · exact movesPure _
  refine ⟨moves,fun c _ name d found => ?_⟩
  obtain ⟨_,_,read,found⟩ := foundBind found
  cases read
  split at found
  · contradiction
  · rename_i some
    cases found
    rw [(Cursor.overName c).rest,List.length_append]
    exact Nat.lt_add_of_pos_left (List.length_pos_iff.mpr some)

theorem tracksParameterName {m : Seam} {size} : m.Tracks m.lost size id parameterName parameterName := by
  refine tracksThen tracksName fun name => ?_
  split
  · exact tracksAbsent
  · exact tracksPure rfl

section Tracked

variable {m : Seam} {p s : Nat} {nested nested' : Phrases} (tracked : Tracked m p s nested nested')

include tracked

theorem tracksExpression : m.Tracks m.lost p (Expr.moved m.move) nested.expression nested'.expression := by
  refine tracksBind tracked.primary fun e => tracksOf (fun _ c from' => ?_) (fun _ _ lost => lost) fun c c' pairs _ => ?_
  · dsimp only
    split
    · exact ⟨_,Cursor.aheadTrans from' (Cursor.aheadSpaces c),rfl⟩
    · exact Cursor.aheadRefl c
  · dsimp only
    split
    · trivial
    · rename_i proper
      have proper' : ¬ Cursor.isInfixOperator c'.skipSpaces.peek := by
        rcases peekPaired (spacesPairs pairs) with ⟨g,s,_,left,right⟩ | ⟨_,ending⟩
        · rwa [right,← left]
        · rcases ending with line | none
          · rw [line]
            decide
          · rw [none]
            decide
      rw [if_neg proper']
      exact Or.inr ⟨c',rfl,pairs,Nat.le_refl _⟩

theorem tracksRequired (what : Expectation) :
    m.Tracks m.lost p (Expr.moved m.move) (require what nested.expression) (require what nested'.expression) :=
  tracksRequire what (tracksExpression tracked)

omit tracked in
theorem statementsEnded {c : Cursor} (ended : c.skipBlank.rest = []) (start n : Nat) :
    nested.statements start n c = .unfinished ∨ ∃ e, nested.statements start n c = .refused e := by
  cases n with
  | zero => exact Or.inl rfl
  | succ n =>
    have going : c.skipBlank.consume? "\x7d" = none := by
      rw [Cursor.consume?,ended]
      rfl
    exact Or.inr ⟨_,roundEnded going (by rw [Cursor.atEnd,ended]; rfl)⟩

theorem straysRound {start : Nat} {further} (rest : ∀ c, m.Lost c → m.Strays m.lost (further c))
    {c} (behind : c.rest.length ≤ m.beyond.length) : m.Strays m.lost (nested.round start further c) := by
  cases closed : c.consume? "\x7d" with
  | some d =>
    rw [roundClosed closed]
    refine Nat.lt_of_lt_of_le ?_ behind
    rw [(Cursor.overWord closed).rest,List.length_append]
    exact Nat.lt_add_of_pos_left (by decide)
  | none =>
    cases ended : c.atEnd with
    | true =>
      rw [roundEnded closed ended]
      trivial
    | false =>
      rw [roundGoing closed ended]
      refine straysBind (straysEats (tracked.forward.statement c) tracked.sheltered.certain behind) fun s d _ lost => ?_
      exact straysBind (rest d lost) fun _ _ _ lost => lost

theorem followsRound {start start' n : Nat} {further further' : Reader (List Stmt)}
    (rest : m.Tracks m.lost (min s n) (bodyMoved m.move) further further')
    (ended : ∀ d : Cursor, d.skipBlank.rest = [] → further d = .unfinished ∨ ∃ e, further d = .refused e)
    {g : Glyph} {u : Text} {c c' : Cursor} (inside : m.Inside (g :: u) c c') (bound : c'.rest.length < min s (n + 1)) :
    m.Follows m.lost (bodyMoved m.move) c' (nested.round start further c) (nested'.round start' further' c') := by
  have pairs : m.Pairs c c' := Or.inl ⟨g :: u,inside⟩
  cases closed : c.consume? "\x7d" with
  | some d =>
    rw [roundClosed closed]
    refine (wordFound (by decide) pairs closed).imp_right fun ⟨v,d',closed',after⟩ => ?_
    exact ⟨d',roundClosed closed',Or.inl ⟨v,after⟩,Cursor.aheadLength ⟨_,Cursor.overWord closed'⟩⟩
  | none =>
    have some : c.atEnd = false := by
      rw [Cursor.atEnd,inside.rest]
      rfl
    have some' : c'.atEnd = false := by
      rw [Cursor.atEnd,inside.rest']
      rfl
    rw [roundGoing closed some,roundGoing (wordMissing (by decide) (by decide) pairs closed) some']
    have statement := tracksMono (Nat.min_le_left s (n + 1)) tracked.statement
    have further (a : Stmt) : m.Tracks m.lost (min s n) (bodyMoved m.move) (further >>= fun rest => Pure.pure (a :: rest))
        (further' >>= fun rest => Pure.pure (a.moved m.move :: rest)) := tracksBind rest fun body => tracksPure rfl
    refine (tracksBindOff statement (fun e' bound a d' found _ => ?_) further fun a d adrift => ?_).agrees c c' pairs bound
    · have shorter := (tracked.sized.statement e').2 e' (Cursor.aheadRefl e') a d' found
      omega
    · rcases adrift with lost | ⟨_,_,hanging⟩
      · exact (further a).drifts d lost
      -- the block that holds a condition at the very end is not closed
      · simp only [Bind.bind,Reader.bind]
        rcases ended d hanging with none | ⟨e,refused⟩
        · rw [none]
          trivial
        · rw [refused]
          trivial

theorem tracksStatements (start start' k n : Nat) : m.Tracks m.lost (min s n) (bodyMoved m.move)
    (nested.statements start k) (nested'.statements start' n) := by
  induction k generalizing n with
  | zero => exact tracksUnfinished
  | succ k ih =>
    have next (n : Nat) : m.Tracks m.lost (min s (n + 1)) (bodyMoved m.move)
        (nested.statements start (k + 1)) (nested'.statements start' (n + 1)) :=
      tracksAfterBlank (fun c => straysRound tracked (ih 0).drifts) fun g u c c' =>
        followsRound tracked (ih n) fun d ended => statementsEnded ended start k
    cases n with
    | zero => exact ⟨fun _ _ _ bound => absurd bound (by omega),(next 0).drifts⟩
    | succ n => exact next n

theorem tracksBlock : m.Tracks m.lost (s + 1) (Block.moved m.move) nested.block nested'.block := by
  refine tracksHere fun start => tracksEats (tracksRequiredWord (by decide) _)
    (fun _ => eatsRequire _ (eatsWord (by decide))) (Nat.le_refl _) fun _ => ?_
  exact tracksBind (tracksFuelled fun k n => tracksStatements tracked start _ k n) fun body =>
    tracksHere fun stop => tracksPure rfl

omit tracked in
theorem tracksPause {size} : m.Tracks m.lost size id pause pause :=
  tracksThen tracksSpaces fun _ => tracksIf (tracksTry (by decide) (by decide)) tracksSpaces (tracksPure rfl)

omit tracked in
theorem tracksComparator {size} (words : List (String × Comparator)) (tokens : ∀ w ∈ words, isToken w.1 ∧ '\n' ∉ w.1.toList) :
    m.Tracks m.lost size id (comparator words) (comparator words) := by
  induction words with
  | nil => exact tracksPure rfl
  | cons pair words ih =>
    obtain ⟨⟨token,line⟩,rest⟩ := List.forall_mem_cons.mp tokens
    exact tracksIf (tracksTry token line) (tracksThen tracksSpaces fun _ => tracksPure rfl) (ih rest)

theorem tracksAlternative : m.Tracks m.undecided (s + 1) (otherwiseMoved m.move) nested.alternative nested'.alternative := by
  have inner : m.Tracks m.lost (s + 1) (otherwiseMoved m.move) nested.otherwise nested'.otherwise :=
    tracksThen (tracksWord (by decide) (by decide)) fun _ => tracksThen tracksPause fun _ =>
      tracksBind (tracksBlock tracked) fun block => tracksPure rfl
  have eats (c : Cursor) : Eats c 0 nested.otherwise :=
    eatsBind (eatsWord (by decide)) (Nat.zero_le _) fun _ => movesBind movesPause fun _ =>
      movesBind (movesMono (Nat.zero_le _) (eatsBlock tracked.forward).1) fun _ => movesPure _
  have near (c x : Cursor) (missing : nested.otherwise c = .absent x) : x = c := by
    rcases absentBind missing with none | ⟨_,d,_,later⟩
    · exact wordNear _ c x none
    · refine absurd later (certainBind certainPause (fun _ => ?_) d x)
      exact certainBind (certainBlock tracked.sheltered) fun _ => certainPure _
  refine ⟨fun c c' pairs bound => ?_,fun c lost => ?_⟩
  · rw [alternativeFrom,alternativeFrom]
    have shorter := Cursor.aheadLength (Cursor.aheadBlank c')
    cases result : nested.otherwise c.skipBlank with
    | found no d =>
      rcases blankPaired pairs with ⟨g,u,inside⟩ | ⟨spent,_⟩
      · have agrees := inner.agrees _ _ (Or.inl ⟨_,inside⟩) (by omega)
        rw [result] at agrees
        rcases agrees with lost | ⟨d',found,after,atMost⟩
        · exact Or.inl (Or.inl lost)
        · refine Or.inr ⟨d',?_,after,by omega⟩
          rw [found]
      · have less := (eats c.skipBlank).2 _ (Cursor.aheadRefl _) no d result
        rw [spent] at less
        exact Or.inl (Or.inl (Nat.lt_of_lt_of_le less m.spentLength))
    | absent x =>
      have stay (missing : ∃ x', nested'.otherwise c'.skipBlank = .absent x') :
          m.Follows m.undecided (otherwiseMoved m.move) c' (.found none c)
            (match nested'.otherwise c'.skipBlank with | .absent _ => .found none c' | found => found) := by
        obtain ⟨x',missing⟩ := missing
        refine Or.inr ⟨c',?_,pairs,Nat.le_refl _⟩
        rw [missing]
        rfl
      rcases blankPaired pairs with ⟨g,u,inside⟩ | ⟨spent,spent'⟩
      · have agrees := inner.agrees _ _ (Or.inl ⟨_,inside⟩) (by omega)
        rw [result] at agrees
        refine stay (agrees.resolve_left ?_)
        rw [near _ x result]
        exact notLost (Or.inl ⟨_,inside⟩)
      · by_cases quiet : m.Quiet
        · refine stay ⟨c'.skipBlank,?_⟩
          have missing : c'.skipBlank.consume? "そうでなければ" = none := by
            rw [Cursor.consume?,spent',skipRest true false _ 0,quiet]
            rfl
          simp only [otherwise,Bind.bind,Reader.bind,word,missing]
        · refine Or.inl (Or.inr ⟨rfl,quiet,?_⟩)
          rcases m.ends with none | ⟨none,_⟩
          · rw [Quiet,none] at quiet
            exact absurd rfl quiet
          · rw [spent,none]
            rfl
    | refused e => trivial
    | unfinished => trivial
  · rw [alternativeFrom]
    have drifts := inner.drifts c.skipBlank (Nat.lt_of_le_of_lt (Cursor.aheadLength (Cursor.aheadBlank c)) lost)
    cases result : nested.otherwise c.skipBlank with
    | found no d =>
      rw [result] at drifts
      exact Or.inl drifts
    | absent x => exact Or.inl lost
    | refused e => trivial
    | unfinished => trivial

theorem tracksIndices (k n : Nat) : m.Tracks m.lost (min p n) (allMoved m.move) (nested.indices k) (nested'.indices n) := by
  induction k generalizing n with
  | zero => exact tracksUnfinished
  | succ k ih =>
    cases n with
    | zero => exact tracksNoRounds fun c => movesMono (Nat.zero_le _) (movesIndices tracked.forward _)
    | succ n =>
      refine tracksIf (tracksTry (by decide) (by decide)) ?_ (tracksPure rfl)
      refine tracksThen tracksSpaces fun _ => tracksEats (n := min p n)
        (tracksMono (Nat.min_le_left _ _) (tracksRequired tracked _))
        (fun c => eatsMono (Nat.zero_le _) (eatsRequired tracked.sized _)) (by omega) fun e => ?_
      exact tracksThen tracksSpaces fun _ => tracksThen (tracksRequiredWord (by decide) _) fun _ =>
        tracksBind (ih n) fun is => tracksPure rfl

omit tracked in
theorem tracksUncalled {α : Type} {size : Nat} {move : α → α} {f f' : String → Reader α}
    (next : ∀ name, m.Tracks m.lost size move (f name) (f' name)) :
    m.Tracks m.lost size move (do let name ← identifier; if (← peek) = '(' then absent else f name)
      (do let name ← identifier; if (← peek) = '(' then absent else f' name) := by
  have strays (name : String) (d : Cursor) (lost : m.Lost d) :
      m.Strays m.lost ((if d.peek = '(' then absent else f name) d) := by
    split
    · exact lost
    · exact (next name).drifts d lost
  refine ⟨fun c c' pairs bound => ?_,fun c lost => ?_⟩
  · simp only [Bind.bind,Reader.bind,peek]
    rcases identifierFollows pairs with ⟨name,d,found,lost⟩ | ⟨missing,missing'⟩ |
      ⟨name,d,d',u,found,found',inside,shorter⟩
    · rw [found]
      exact followsStrays (strays name d lost)
    · rw [missing,missing']
      exact Or.inr ⟨c',rfl⟩
    · rw [found,found']
      dsimp only
      refine followsShorter d' ?_ shorter
      by_cases call : d.peek = '('
      · rw [if_pos call,if_pos ((callPaired inside).mp call)]
        exact Or.inr ⟨d',rfl⟩
      · rw [if_neg call,if_neg (mt (callPaired inside).mpr call)]
        exact (next name).agrees d d' (Or.inl ⟨u,inside⟩) (by omega)
  · have named : m.Tracks m.lost size id identifier identifier := tracksIdentifier
    exact straysBind (named.drifts c lost) fun name d _ lost => strays name d lost

section Statement

variable {k : Nat} (expressions : k ≤ p) (blocks : k ≤ s + 1)

include expressions

theorem tracksValue : m.Tracks m.lost k (Expr.moved m.move) nested.expression nested'.expression :=
  tracksMono expressions (tracksExpression tracked)

theorem tracksRequiredValue (what : Expectation) :
    m.Tracks m.lost k (Expr.moved m.move) (require what nested.expression) (require what nested'.expression) :=
  tracksRequire what (tracksValue tracked expressions)

theorem tracksTarget : m.Tracks m.lost k (Place.moved m.move) nested.target nested'.target :=
  tracksHere fun _ => tracksUncalled fun _ =>
    tracksBind (tracksMono expressions (tracksFuelled (tracksIndices tracked))) fun _ =>
      tracksHere fun _ => tracksPure rfl

theorem tracksDoctest : m.Tracks m.lost k (Stmt.moved m.move) nested.doctest nested'.doctest :=
  tracksHere fun start => tracksThen (tracksWord (by decide) (by decide)) fun _ => tracksThen tracksSpaces fun _ =>
    tracksBind (tracksRequiredValue tracked expressions _) fun value => tracksThen tracksStatementEnd fun _ =>
      tracksThen tracksSpaces fun _ => tracksThen (tracksRequiredWord (by decide) _) fun _ =>
        tracksThen tracksSpaces fun _ => tracksBind (tracksRequiredValue tracked expressions _) fun expected =>
          tracksHere fun stop => tracksPure rfl

theorem tracksOnTarget : m.Tracks m.lost k (Stmt.moved m.move) nested.onTarget nested'.onTarget := by
  refine tracksHere fun start => tracksBind (tracksTarget tracked expressions) fun t => tracksThen tracksSpaces fun _ => ?_
  refine tracksIf (tracksTry (by decide) (by decide)) (tracksHere fun stop => tracksPure rfl) <|
    tracksIf (tracksTry (by decide) (by decide)) (tracksHere fun stop => tracksPure rfl) <|
    tracksIf (tracksTry (by decide) (by decide)) ?_ <| tracksIf (tracksTry (by decide) (by decide)) ?_ ?_
  · exact tracksThen tracksSpaces fun _ => tracksBind (tracksRequiredValue tracked expressions _) fun value =>
      tracksThen tracksSpaces fun _ => tracksThen (tracksRequiredWord (by decide) _) fun _ =>
      tracksHere fun stop => tracksPure rfl
  · exact tracksThen tracksSpaces fun _ => tracksBind (tracksRequiredValue tracked expressions _) fun value =>
      tracksHere fun stop => tracksPure rfl
  · exact tracksThen (tracksWord (by decide) (by decide)) fun _ => tracksThen tracksSpaces fun _ =>
      tracksBind (tracksValue tracked expressions) fun value => tracksThen tracksSpaces fun _ =>
      tracksThen (tracksWord (by decide) (by decide)) fun _ => tracksHere fun stop => tracksPure rfl

theorem tracksAnswer : m.Tracks m.lost k (Stmt.moved m.move) nested.answer nested'.answer :=
  tracksHere fun start => tracksBind (tracksValue tracked expressions) fun value => tracksThen tracksSpaces fun _ =>
    tracksThen (tracksWord (by decide) (by decide)) fun _ => tracksHere fun stop => tracksPure rfl

theorem tracksObserve : m.Tracks m.lost k (Stmt.moved m.move) nested.observe nested'.observe :=
  tracksHere fun _ => tracksBind (tracksValue tracked expressions) fun _ => tracksHere fun _ => tracksPure rfl

omit tracked expressions in
theorem tracksSpelling {first second} (token : isToken first) (line : '\n' ∉ first.toList)
    (token' : isToken second) (line' : '\n' ∉ second.toList) :
    m.Tracks m.lost k id (orElse (word first) (word second)) (orElse (word first) (word second)) :=
  tracksOrElse (wordNear first) (tracksWord token line) (tracksWord token' line')

omit tracked expressions in
theorem tracksLeave : m.Tracks m.lost k (Stmt.moved m.move) leave leave :=
  tracksHere fun start => tracksThen (tracksSpelling (by decide) (by decide) (by decide) (by decide)) fun _ =>
    tracksHere fun stop => tracksPure rfl

include blocks

theorem tracksLoop : m.Tracks m.lost k (Stmt.moved m.move) nested.loop nested'.loop :=
  tracksHere fun start => tracksBind (tracksValue tracked expressions) fun count => tracksThen tracksSpaces fun _ =>
    tracksThen (tracksWord (by decide) (by decide)) fun _ => tracksThen tracksSpaces fun _ =>
      tracksThen (tracksSpelling (by decide) (by decide) (by decide) (by decide)) fun _ => tracksThen tracksPause fun _ =>
        tracksBind (tracksMono blocks (tracksBlock tracked)) fun body => tracksHere fun stop => tracksPure rfl

theorem tracksCondition : m.Tracks m.lost k (fun q => (m.move q.1,q.2.1.moved m.move,q.2.2.1.moved m.move,q.2.2.2.1,
    q.2.2.2.2.moved m.move)) nested.condition nested'.condition :=
  tracksHere fun start => tracksThen (tracksWord (by decide) (by decide)) fun _ => tracksThen tracksSpaces fun _ =>
    tracksBind (tracksValue tracked expressions) fun left => tracksThen tracksSpaces fun _ =>
      tracksThen (tracksWord (by decide) (by decide)) fun _ => tracksThen tracksSpaces fun _ =>
        tracksBind (tracksValue tracked expressions) fun right => tracksThen tracksSpaces fun _ =>
          tracksThen (tracksComparator comparators (by decide)) fun cmp =>
            tracksThen (tracksWord (by decide) (by decide)) fun _ => tracksThen tracksPause fun _ =>
              tracksBind (tracksMono blocks (tracksBlock tracked)) fun yes => tracksPure rfl

theorem tracksConditional : m.Tracks m.adrift k (Stmt.moved m.move) nested.conditional nested'.conditional := by
  rw [conditionalSplit,conditionalSplit]
  refine tracksBind (tracksCondition tracked expressions blocks) fun q => ?_
  obtain ⟨start,left,right,cmp,yes⟩ := q
  have done (no : Option Block) : m.Tracks m.adrift k (Stmt.moved m.move)
      (here >>= fun stop => Pure.pure (.cond ⟨start,stop⟩ left right cmp yes no))
      (here >>= fun stop => Pure.pure (.cond ⟨m.move start,stop⟩ (left.moved m.move) (right.moved m.move) cmp
        (yes.moved m.move) (otherwiseMoved m.move no))) :=
    tracksHere fun stop => tracksStill rfl fun _ _ lost => Or.inl lost
  refine tracksBindOff (tracksMono blocks (tracksAlternative tracked))
    (fun _ bound _ _ _ atMost => Nat.lt_of_le_of_lt atMost bound) done fun no d undecided => ?_
  rcases undecided with lost | ⟨rfl,hanging⟩
  · exact (done no).drifts d lost
  · exact Or.inr ⟨rfl,hanging⟩

theorem choosesStatement {c c'} (pairs : m.Pairs c c') (bound : c'.rest.length < k) :
    m.Chooses m.adrift (Stmt.moved m.move) c c'
      (firstOf [nested.conditional,nested.loop,nested.doctest,nested.onTarget,nested.answer,leave,nested.observe])
      (firstOf [nested'.conditional,nested'.loop,nested'.doctest,nested'.onTarget,nested'.answer,leave,
        nested'.observe]) := by
  have sheltered := tracked.sheltered
  have loose {r r' : Reader Stmt} (tracks : m.Tracks m.lost k (Stmt.moved m.move) r r') :
      m.Tracks m.adrift k (Stmt.moved m.move) r r' := tracksWeaken (fun _ _ lost => Or.inl lost) tracks
  -- what comes behind each phrase in the list is found before the fence
  have onObserve : Within (firstOf [nested.observe]) :=
    withinOrElse (withinShelters (sheltersObserve sheltered (Int.le_refl 0))) (withinShelters sheltersAbsent)
  have onLeave : Within (firstOf [leave,nested.observe]) := withinOrElse (withinShelters sheltersLeave) onObserve
  have onAnswer : Within (firstOf [nested.answer,leave,nested.observe]) :=
    withinOrElse (withinShelters (sheltersAnswer sheltered (Int.le_refl 0))) onLeave
  have onTargets : Within (firstOf [nested.onTarget,nested.answer,leave,nested.observe]) :=
    withinOrElse (withinShelters (sheltersOnTarget sheltered (Int.le_refl 0))) onAnswer
  have onDoctest : Within (firstOf [nested.doctest,nested.onTarget,nested.answer,leave,nested.observe]) :=
    withinOrElse (withinDoctest sheltered) onTargets
  have onLoop : Within (firstOf [nested.loop,nested.doctest,nested.onTarget,nested.answer,leave,nested.observe]) :=
    withinOrElse (withinShelters (sheltersLoop sheltered (Int.le_refl 0))) onDoctest
  refine choosesOrElse pairs bound (tracksConditional tracked expressions blocks)
    (staysConditional sheltered (Int.le_refl 0)) onLoop ?_
  refine choosesOrElse pairs bound (loose (tracksLoop tracked expressions blocks))
    (sheltersLoop sheltered (Int.le_refl 0)).2 onDoctest ?_
  refine choosesOrElse pairs bound (loose (tracksDoctest tracked expressions)) staysDoctest onTargets ?_
  refine choosesOrElse pairs bound (loose (tracksOnTarget tracked expressions))
    (sheltersOnTarget sheltered (Int.le_refl 0)).2 onAnswer ?_
  refine choosesOrElse pairs bound (loose (tracksAnswer tracked expressions))
    (sheltersAnswer sheltered (Int.le_refl 0)).2 onLeave ?_
  refine choosesOrElse pairs bound (loose tracksLeave) (sheltersLeave (Q := Pending.Any)).2 onObserve ?_
  exact choosesOrElse pairs bound (loose (tracksObserve tracked expressions))
    (sheltersObserve sheltered (Int.le_refl 0)).2 (withinShelters sheltersAbsent) (choosesTracks pairs bound tracksAbsent)

theorem tracksOneStatement : m.Tracks m.adrift k (Stmt.moved m.move) nested.oneStatement nested'.oneStatement := by
  refine tracksOf (fun _ => (eatsOneStatement tracked.forward (Nat.zero_le _) (Nat.zero_le _)).1)
    (fun _ _ lost => Or.inl lost) fun c c' pairs bound => ?_
  cases result : nested.oneStatement c with
  | found a d =>
    obtain ⟨found,ended⟩ := oneStatementFound result
    refine (choosesStatement tracked expressions blocks pairs bound a d found ended).imp_right
      fun ⟨d',found',after,atMost⟩ => ⟨d',?_,after,atMost⟩
    exact foundOneStatement found' (endPaired after ended)
  | absent d => exact absurd result (certainOneStatement c d)
  | refused e => trivial
  | unfinished => trivial

end Statement

/-! Expressions -/

omit tracked in
theorem tracksInteger {size} : m.Tracks m.lost size (Expr.moved m.move) integer integer := by
  refine tracksHere fun start => tracksThen tracksDigits fun digits => tracksPeek (fun x => ?_) fun x x' ending => ?_
  · split
    · exact tracksRefuse _ _
    · exact tracksHere fun stop => tracksPure rfl
  · have plain : x' ≠ '.' := by
      rintro rfl
      exact absurd ending (by decide)
    rw [if_neg plain]
    split
    · exact tracksRefuse _ _
    · exact tracksHere fun stop => tracksPure rfl

omit tracked in
theorem tracksTextIndex {size} : m.Tracks m.lost size (fun picked => (m.move picked.1,picked.2)) textIndex textIndex := by
  refine tracksThen (tracksWord (by decide) (by decide)) fun _ => tracksThen tracksSpaces fun _ =>
    tracksHere fun start => tracksThen tracksDigits fun digits => tracksThen tracksSpaces fun _ => ?_
  split
  · exact tracksAbsent
  · exact tracksThen (tracksWord (by decide) (by decide)) fun _ => tracksPure rfl

theorem tracksItems {close} (token : isToken close) (line : '\n' ∉ close.toList) (k n : Nat) :
    m.Tracks m.lost (min p n) (allMoved m.move) (nested.items close k) (nested'.items close n) := by
  induction k generalizing n with
  | zero => exact tracksUnfinished
  | succ k ih =>
    cases n with
    | zero => exact tracksNoRounds fun c => movesMono (Nat.zero_le _) (eatsItems tracked.forward _ _).1
    | succ n =>
      refine tracksEats (n := min p n) (tracksMono (Nat.min_le_left _ _) (tracksRequired tracked _))
        (fun c => eatsMono (Nat.zero_le _) (eatsRequired tracked.sized _)) (by omega) fun e => ?_
      have further : m.Tracks m.lost (min p n) (allMoved m.move)
          (blank >>= fun _ => nested.items close k >>= fun rest => Pure.pure (e :: rest))
          (blank >>= fun _ => nested'.items close n >>= fun rest => Pure.pure (e.moved m.move :: rest)) := by
        refine tracksAfterBlank (fun c behind => ?_) fun g u c c' inside bound => ?_
        · have eats : Eats c 0 (nested.items close k) := eatsMono (Nat.zero_le _) (eatsItems tracked.forward _ _)
          exact straysBind (straysEats eats (certainItems _ _) behind) fun _ _ _ lost => lost
        · refine Tracks.agrees ?_ c c' (Or.inl ⟨_,inside⟩) bound
          exact tracksBind (ih n) fun _ => tracksPure rfl
      refine tracksAfterBlank (fun c behind => ?_) fun g u c c' inside bound => ?_
      · refine straysTryAny (by decide) behind further.drifts ?_
        exact straysTry (tokenSome token) behind (fun _ lost => lost) trivial
      · refine Tracks.agrees ?_ c c' (Or.inl ⟨_,inside⟩) bound
        exact tracksIf (tracksTryAny (by decide)) further (tracksIf (tracksTry token line) (tracksPure rfl) (tracksExpecting _))

theorem tracksItemsUpTo {close} (token : isToken close) (line : '\n' ∉ close.toList) :
    m.Tracks m.lost p (allMoved m.move) (nested.itemsUpTo close) (nested'.itemsUpTo close) := by
  refine tracksAfterBlank (fun c behind => ?_) fun g u c c' inside bound => ?_
  · refine straysTry (tokenSome token) behind (fun _ lost => lost) ?_
    have eats (n : Nat) : Eats c 0 (nested.items close n) := eatsMono (Nat.zero_le _) (eatsItems tracked.forward _ _)
    exact straysEats (r := nested.items close (c.rest.length + 1)) (eats _) (certainItems _ _) behind
  · refine Tracks.agrees ?_ c c' (Or.inl ⟨_,inside⟩) bound
    exact tracksIf (tracksTry token line) (tracksPure rfl) (tracksFuelled (tracksItems tracked token line))

/-! Functions -/

omit tracked in
theorem tracksParameters (size k n : Nat) : m.Tracks m.lost (min size n) (List.map fun q => (m.move q.1,q.2)) (parameters k)
    (parameters n) := by
  induction k generalizing n with
  | zero => exact tracksUnfinished
  | succ k ih =>
    cases n with
    | zero => exact tracksNoRounds fun c => movesMono (Nat.zero_le _) (movesParameters 0 _)
    | succ n =>
      rw [parametersRound,parametersRound]
      refine tracksHere fun start => tracksEats (n := min size n) tracksParameterName (fun c => eatsParameterName)
        (by omega) fun name => ?_
      exact tracksThen tracksSpaces fun _ => tracksIf (tracksTryAny (by decide))
        (tracksThen tracksSpaces fun _ => tracksBind (ih n) fun rest => tracksPure rfl) (tracksPure rfl)

omit tracked in
theorem looksPaired {g : Glyph} {u : Text} {c c' : Cursor} (inside : m.Inside (g :: u) c c') :
    c'.looksAt "に対し" = c.looksAt "に対し" := by
  rw [Cursor.looksAt,Cursor.looksAt,inside.rest,inside.rest',wordSeam (by decide)]

omit tracked in
theorem nameCut {c'} (cut : c'.rest = m.new) : parameterName c' = .absent c' := by
  have name : c'.readName = ([],c') := by
    obtain ⟨pos,rest⟩ := c'
    cases cut
    rcases new : m.newHead with none | ⟨t,head⟩
    · simp only [Cursor.readName,none,Cursor.readBinding]
    · simp only [Cursor.readName,head]
      rfl
  simp only [parameterName,Bind.bind,Reader.bind,name]
  rfl

omit tracked in
theorem listedCut {c'} (cut : c'.rest = m.new) : ∃ d', listed c' = .absent d' := by
  have looks : c'.looksAt "に対し" = false := by
    have missing : c'.consume? "に対し" = none := wordCut (m := m) (by decide) (by decide) cut
    rw [Cursor.consume?,Option.map_eq_none_iff] at missing
    rw [Cursor.looksAt,missing]
    rfl
  refine ⟨c',?_⟩
  rw [listed,looks]
  simp only [listing,Bind.bind,Reader.bind,Bool.false_eq_true,if_false,fuelled,parametersRound,here,nameCut (m := m) cut]

omit tracked in
theorem tracksListing {size} (empty : Bool) :
    m.Tracks m.lost size (List.map fun q => (m.move q.1,q.2)) (listing empty) (listing empty) := by
  have first : m.Tracks m.lost size (List.map fun q => (m.move q.1,q.2))
      (if empty then Reader.pure [] else fuelled parameters) (if empty then Reader.pure [] else fuelled parameters) := by
    cases empty with
    | true => exact tracksPure rfl
    | false => exact tracksFuelled (tracksParameters size)
  exact tracksBind first fun ps => tracksThen (tracksWord (by decide) (by decide)) fun _ => tracksPure rfl

omit tracked in
theorem tracksHeader {size} : m.Tracks m.lost size (List.map fun q => (m.move q.1,q.2)) header header := by
  rw [headerSplit]
  refine tracksThen (tracksWord (by decide) (by decide)) fun _ => tracksAfterSpaces (fun _ c => (eatsListing _).1 c)
    (fun _ _ lost => lost) (fun g u c c' inside bound => ?_) fun c c' past => ?_
  · rw [listed,listed,looksPaired inside]
    exact (tracksListing _).agrees c c' (Or.inl ⟨_,inside⟩) bound
  · cases result : listed c with
    | found ps d =>
      have eats : Eats c 0 (listing (c.looksAt "に対し")) := eatsListing _
      have less := eats.2 c (Cursor.aheadRefl c) ps d result
      rw [past.rest] at less
      exact Or.inl less
    | absent d => exact Or.inr (listedCut past.rest')
    | refused e => trivial
    | unfinished => trivial

omit tracked in
theorem parametersCut {c' d' n ps} (cut : c'.rest = m.new) : parameters n c' ≠ .found ps d' := by
  intro found
  cases n with
  | zero => contradiction
  | succ n =>
    rw [parametersRound] at found
    simp only [Bind.bind,Reader.bind,here,nameCut (m := m) cut] at found
    contradiction

omit tracked in
theorem backsParameterName : m.Backs Eq parameterName parameterName := by
  intro s c c' a d' inside found
  obtain ⟨_,_,read,found⟩ := foundBind found
  cases read
  have alike := nameAlike (insideEta inside)
  rw [← inside.rest,← inside.rest'] at alike
  split at found
  · contradiction
  · rename_i some
    cases found
    refine alike.imp And.right fun ⟨same,u,after⟩ => ⟨_,_,u,?_,same.symm,after⟩
    have some' : c.readName.1 ≠ [] := fun none => some (same.trans none)
    simp only [parameterName,Bind.bind,Reader.bind,if_neg some']
    rfl

omit tracked in
theorem backsParameters {k n u c c' d' ps} (inside : m.Inside u c c')
    (enough : c.rest.length < k) (found : parameters n c' = .found ps d') :
    d'.rest = m.new ∨ ∃ qs d v, parameters k c = .found qs d ∧ m.Inside v d d' := by
  induction n generalizing k u c c' d' ps with
  | zero => contradiction
  | succ n ih =>
    obtain ⟨k,rfl⟩ : ∃ j, k = j + 1 := ⟨k - 1,by omega⟩
    rw [parametersRound] at found
    obtain ⟨start,_,begun,found⟩ := foundBind found
    cases begun
    obtain ⟨name,e',named,found⟩ := foundBind found
    obtain ⟨_,_,skipped,found⟩ := foundBind found
    cases skipped
    -- at the cut no comma follows
    have ends (cut : e'.skipSpaces.rest = m.new) : d'.rest = m.new := by
      simp only [Bind.bind,Reader.bind,tryWords,singleCut (m := m) [",","、"] (by decide) cut] at found
      cases found
      exact cut
    rcases backsParameterName u c c' name e' inside named with cut | ⟨name',e,v,named',rfl,after⟩
    · refine Or.inl (ends ?_)
      rw [Cursor.skipSpaces,cut,newStays]
    · rcases spacesPaired (Or.inl ⟨v,after⟩) with ⟨g,w,spaced⟩ | past
      · have eats : Eats c 0 parameterName := eatsParameterName
        have shorter := eats.2 c (Cursor.aheadRefl c) _ e named'
        have skips := Cursor.aheadLength (Cursor.aheadSpaces e)
        rw [parametersRound]
        simp only [Bind.bind,Reader.bind,tryWords] at found
        simp only [Bind.bind,Reader.bind,here,named',spaces,tryWords]
        rcases singlePaired [",","、"] (by decide) spaced with ⟨_,_,f,f',x,comma,comma',next⟩ | ⟨none,none'⟩
        · simp only [comma',if_true] at found
          obtain ⟨_,_,skipped,found⟩ := foundBind (r := spaces) found
          cases skipped
          obtain ⟨rest,_,read,done⟩ := foundBind found
          cases done
          have skips' := Cursor.aheadLength (Cursor.aheadSpaces f)
          have eaten := Cursor.aheadLength ⟨_,(Cursor.overAnyWord comma).2⟩
          rcases spacesPaired (Or.inl ⟨x,next⟩) with ⟨g',y,spaced'⟩ | past
          · refine (ih (k := k) spaced' (by omega) read).imp_right ?_
            rintro ⟨qs,d,z,read',last⟩
            refine ⟨(c.pos,name') :: qs,d,z,?_,last⟩
            simp only [comma,if_true,Reader.bind,spaces,read']
            rfl
          · exact absurd read (parametersCut past.rest')
        · simp only [none'] at found
          cases found
          refine Or.inr ⟨[(c.pos,name')],_,_,?_,spaced⟩
          simp only [none]
          rfl
      · exact Or.inl (ends past.rest')

omit tracked in
theorem recoversHeader : m.Recovers header header := by
  have last (ps ps' : List (Nat × Text)) : m.Recovers (word "に対し" >>= fun _ => Pure.pure ps)
      (word "に対し" >>= fun _ => Pure.pure ps') := recoversWord (by decide) (by decide) ps ps'
  have listing (empty : Bool) : m.Recovers (listing empty) (listing empty) := by
    have first : m.Backs (fun _ _ => True) (if empty then Reader.pure [] else fuelled parameters)
        (if empty then Reader.pure [] else fuelled parameters) := by
      intro s c c' ps d' inside found
      cases empty with
      | true =>
        cases found
        exact Or.inr ⟨_,_,s,rfl,trivial,inside⟩
      | false =>
        refine (backsParameters inside (Nat.lt_succ_self _) found).imp_right fun ⟨qs,d,v,read,after⟩ => ?_
        exact ⟨qs,d,v,read,trivial,after⟩
    exact recoversBind first (fun b a _ => last b a) fun a => idlesWord (by decide) (by decide)
  have idles : m.Idles listed := by
    intro c' a d' cut found
    obtain ⟨x,missing⟩ := listedCut cut
    rw [missing] at found
    contradiction
  rw [headerSplit]
  refine recoversBind (backsWord (by decide) (by decide)) (fun _ _ _ => recoversBind backsSpaces (fun _ _ _ => ?_)
    fun _ => idles) fun _ => idlesSpaces idles
  intro s c c' a d' inside found
  rcases s with _ | ⟨g,s⟩
  · exact absurd found (idles c' a d' inside.rest')
  · rw [listed,looksPaired inside] at found
    exact listing _ _ c c' a d' inside found

omit tracked in
theorem duplicateMoved (f : Nat → Nat) (seen : List Text) (ps : List (Nat × Text)) :
    duplicate? seen (ps.map fun q => (f q.1,q.2)) = (duplicate? seen ps).map fun q => (f q.1,q.2) := by
  induction ps generalizing seen with
  | nil => rfl
  | cons q ps ih =>
    simp only [List.map_cons,duplicate?]
    split
    · rfl
    · exact ih _

omit tracked in
theorem tracksCheckParameters {size} (ps : List (Nat × Text)) :
    m.Tracks m.lost size id (checkParameters ps) (checkParameters (ps.map fun q => (m.move q.1,q.2))) := by
  have readable : unreadable? (ps.map fun q => (m.move q.1,q.2)) = (unreadable? ps).map fun q => (m.move q.1,q.2) := by
    unfold unreadable?
    rw [List.find?_map]
    rfl
  unfold checkParameters
  rw [readable,duplicateMoved]
  cases unreadable? ps with
  | some q => exact tracksRefuse _ _
  | none =>
    cases duplicate? [] ps with
    | some q => exact tracksRefuse _ _
    | none => exact tracksPure rfl

theorem tracksFunction {k} (blocks : k ≤ s + 1) : m.Tracks m.lost k (Expr.moved m.move) nested.function nested'.function := by
  rw [functionSplit,functionSplit]
  refine tracksHere fun start => tracksBind tracksHeader fun ps => tracksThen (tracksCheckParameters ps) fun _ =>
    tracksThen (tracksTry (by decide) (by decide)) fun _ => tracksThen tracksPause fun _ =>
      tracksBind (tracksMono blocks (tracksBlock tracked)) fun body => tracksHere fun stop => tracksPure ?_
  simp [Expr.moved,Span.moved,Function.comp_def]

theorem tracksNamed {k} (expressions : k ≤ p + 1) : m.Tracks m.lost k (Expr.moved m.move) nested.named nested'.named := by
  refine tracksHere fun start => tracksEats tracksIdentifier (fun _ => eatsIdentifier) expressions fun name =>
    tracksIf (tracksTry (by decide) (by decide)) ?_ ?_
  · exact tracksBind (tracksItemsUpTo tracked (by decide) (by decide)) fun args => tracksHere fun stop => tracksPure rfl
  · exact tracksBind (tracksFuelled (tracksIndices tracked)) fun is => tracksHere fun stop => tracksPure rfl

/-! The choice of an expression -/

omit tracked in
theorem mildHeader (c : Cursor) : Mild (header c) := by
  have rounds (n : Nat) (c : Cursor) (enough : c.rest.length < n) : Mild (parameters n c) := by
    induction n generalizing c with
    | zero => omega
    | succ n ih =>
      rw [parametersRound]
      have name : Mild (parameterName c) := by
        refine mildBind (r := fun c => .found c.readName.1 c.readName.2) trivial fun name d _ => ?_
        split
        · trivial
        · trivial
      have eats : Eats c 0 parameterName := eatsParameterName
      refine mildBind trivial fun start d begun => mildBind (by cases begun; exact name) fun name e named => ?_
      cases begun
      have shorter := eats.2 c (Cursor.aheadRefl c) name e named
      have skips := Cursor.aheadLength (Cursor.aheadSpaces e)
      refine mildBind trivial fun _ _ skipped => ?_
      cases skipped
      simp only [Bind.bind,Reader.bind,tryWords]
      cases comma : e.skipSpaces.consumeAny? [",","、"] with
      | none => trivial
      | some picked =>
        have eaten := Cursor.aheadLength ⟨_,(Cursor.overAnyWord comma).2⟩
        have skips' := Cursor.aheadLength (Cursor.aheadSpaces picked.2)
        refine mildBind (r := spaces) trivial fun _ _ skipped => ?_
        cases skipped
        exact mildBind (ih _ (by omega)) fun _ _ _ => trivial
  rw [headerSplit]
  refine mildBind (mildWord _ c) fun _ d _ => mildBind trivial fun _ e _ => ?_
  refine mildBind ?_ fun ps f _ => mildBind (mildWord _ f) fun _ _ _ => trivial
  split
  · trivial
  · exact rounds _ e (Nat.lt_succ_self _)

theorem functionMissing {u c c' x} (inside : m.Inside u c c') (missing : nested.function c = .absent x) :
    ∃ x', nested'.function c' = .absent x' := by
  rw [functionSplit] at missing ⊢
  have none : header c = .absent x := by
    have whole : (header >>= nested.behind c.pos) c = .absent x := missing
    exact (absentBind whole).resolve_right fun ⟨ps,d,_,later⟩ => absurd later (certainBehind tracked.sheltered c.pos ps d x)
  obtain ⟨x',none'⟩ := missingBack recoversHeader (mildHeader c') inside none
  refine ⟨x',?_⟩
  simp only [Bind.bind,Reader.bind,here,none']

omit tracked in
theorem digitsCut {c' : Cursor} (cut : c'.rest = m.new) : c'.readDigits.1 = "" := by
  rw [Cursor.readDigits,cut]
  rcases m.newHead with none | ⟨t,head⟩
  · rw [none]
    rfl
  · rw [head]
    rfl

omit tracked in
theorem recoversTextIndex : m.Recovers textIndex textIndex := by
  have closing (start start' : Nat) (digits : String) : m.Recovers
      (if digits = "" then absent else word "]" >>= fun _ => Pure.pure (start,digits))
      (if digits = "" then absent else word "]" >>= fun _ => Pure.pure (start',digits)) := by
    split
    · intro s c c' a d' inside found
      contradiction
    · exact recoversWord (by decide) (by decide) _ _
  have unclosed (start : Nat) (digits : String) :
      m.Idles (if digits = "" then absent else word "]" >>= fun _ => Pure.pure (start,digits)) := by
    split
    · intro c' a d' _ found
      contradiction
    · exact idlesWord (by decide) (by decide)
  have unnumbered (start : Nat) : m.Idles ((fun c => .found c.readDigits.1 c.readDigits.2) >>= fun digits => spaces >>=
      fun _ => if digits = "" then absent else word "]" >>= fun _ => Pure.pure (start,digits)) := by
    intro c' a d' cut found
    obtain ⟨digits,_,read,found⟩ := foundBind found
    cases read
    obtain ⟨_,_,_,found⟩ := foundBind found
    rw [digitsCut cut,if_pos rfl] at found
    contradiction
  refine recoversBind (backsWord (by decide) (by decide)) (fun _ _ _ => ?_) fun _ => idlesSpaces fun c' => unnumbered c'.pos c'
  refine recoversBind backsSpaces (fun _ _ _ => ?_) fun _ c' => unnumbered c'.pos c'
  refine recoversBind backsHere (fun start start' _ => ?_) unnumbered
  refine recoversBind backsDigits (fun digits _ same => ?_) fun digits => idlesSpaces (unclosed _ digits)
  subst same
  exact recoversBind backsSpaces (fun _ _ _ => closing start start' digits) fun _ => unclosed start' digits

omit tracked in
theorem mildTextIndex (c : Cursor) : Mild (textIndex c) := by
  refine mildBind (mildWord _ c) fun _ _ _ => mildBind trivial fun _ _ _ => mildBind trivial fun _ _ _ =>
    mildBind (r := fun c => .found c.readDigits.1 c.readDigits.2) trivial fun digits _ _ => mildBind trivial fun _ d _ => ?_
  split
  · trivial
  · exact mildBind (mildWord _ d) fun _ _ _ => trivial

omit tracked in
theorem followsPick {u c c'} (inside : m.Inside u c c') :
    m.Follows m.lost (Option.map fun picked => (m.move picked.1,picked.2)) c'
      (orElse (some <$> textIndex) (Pure.pure none) c) (orElse (some <$> textIndex) (Pure.pure none) c') := by
  have pairs : m.Pairs c c' := Or.inl ⟨u,inside⟩
  have agrees := tracksTextIndex.agrees c c' pairs (Nat.lt_succ_self _)
  rw [pickFrom,pickFrom]
  cases result : textIndex c with
  | found picked d =>
    rw [result] at agrees
    refine agrees.imp_right fun ⟨d',found,rest⟩ => ⟨d',?_,rest⟩
    rw [found]
    rfl
  | absent x =>
    obtain ⟨x',missing⟩ := missingBack recoversTextIndex (mildTextIndex c') inside result
    refine Or.inr ⟨c',?_,pairs,Nat.le_refl _⟩
    rw [missing]
    rfl
  | refused e => trivial
  | unfinished => trivial

omit tracked in
theorem tracksPicked (size start : Nat) (content : List Char) (index : Option (Nat × String)) :
    m.Tracks m.lost size (Expr.moved m.move) (pickedText start content index)
      (pickedText (m.move start) content (index.map fun picked => (m.move picked.1,picked.2))) := by
  cases index with
  | none => exact tracksHere fun stop => tracksPure rfl
  | some number =>
    simp only [pickedText,Option.map_some]
    split
    · exact tracksHere fun stop => tracksPure rfl
    · exact tracksRefuse _ _

omit tracked in
theorem followsQuotedText {u : Text} {c c' : Cursor} (inside : m.Inside (.char '"' :: u) c c') :
    m.Follows m.lost (Expr.moved m.move) c' (quotedText c) (quotedText c') := by
  have left : c.readText = Cursor.readQuoted (c.pos + 1) (u ++ m.old) := by
    rw [Cursor.readText,Cursor.advance,inside.rest]
    rfl
  have right : c'.readText = Cursor.readQuoted (c'.pos + 1) (u ++ m.new) := by
    rw [Cursor.readText,Cursor.advance,inside.rest']
    rfl
  rw [quotedTextFrom,quotedTextFrom]
  split
  · rename_i closed
    rw [left] at closed ⊢
    obtain ⟨v,next',quote,after⟩ := quotedSeam (atGlyph inside.whole)
      (fun some => clearGlyph rfl (inside.clear some)) closed
    have shorter := Cursor.aheadLength (Cursor.aheadText c')
    have quote' : c'.readText = ⟨_,true,next'⟩ := right.trans quote
    rw [quote'] at shorter ⊢
    rw [if_pos rfl,pairsMove (Or.inl ⟨_,inside⟩)]
    refine followsShorter next' ?_ shorter
    refine followsBind (followsPick after) (fun index d d' _ _ pairs _ => ?_) fun index => (tracksPicked 0 _ _ index).drifts
    exact (tracksPicked _ _ _ index).agrees d d' pairs (Nat.lt_succ_self _)
  · trivial

omit tracked in
theorem followsSign {sign : Char} {u : Text} {c c' : Cursor} {n : Nat} {f f' : Nat → Reader Expr}
    (settled : (step ⟨.code,0⟩ sign).place = .code) (inside : m.Inside (.char sign :: u) c c')
    (bound : c'.rest.length < n + 1) (next : ∀ start, m.Tracks m.lost n (Expr.moved m.move) (f start) (f' (m.move start))) :
    m.Follows m.lost (Expr.moved m.move) c' ((do let start ← here; advance; f start) c)
      ((do let start ← here; advance; f' start) c') := by
  have left : c.advance = ⟨c.pos + Text.width [.char sign],u ++ m.old⟩ := by
    rw [Cursor.advance,inside.rest]
    rfl
  have right : c'.advance = ⟨c'.pos + Text.width [.char sign],u ++ m.new⟩ := by
    rw [Cursor.advance,inside.rest']
    rfl
  have after : m.Inside u c.advance c'.advance := by
    rw [left,right]
    exact insideOver (u := [.char sign]) inside settled
  have shorter : c'.advance.rest.length < c'.rest.length :=
    Cursor.advanceShorter (by rw [inside.rest']; exact List.cons_ne_nil _ _)
  change m.Follows _ _ c' (f c.pos c.advance) (f' c'.pos c'.advance)
  rw [pairsMove (Or.inl ⟨_,inside⟩)]
  exact followsShorter c'.advance ((next c.pos).agrees _ _ (Or.inl ⟨u,after⟩) (by omega)) (Nat.le_of_lt shorter)

section Primary

variable {k : Nat} (expressions : k ≤ p + 1) (blocks : k ≤ s + 1)

include expressions blocks

theorem followsOnePrimary {g : Glyph} {u : Text} {c c' : Cursor} (inside : m.Inside (g :: u) c c')
    (bound : c'.rest.length < k) :
    m.Follows m.lost (Expr.moved m.move) c' (nested.onePrimary c) (nested'.onePrimary c') := by
  have pairs : m.Pairs c c' := Or.inl ⟨_,inside⟩
  have left : c.peek = g.toChar := by
    rw [Cursor.peek,inside.rest]
    rfl
  have right : c'.peek = g.toChar := by
    rw [Cursor.peek,inside.rest']
    rfl
  simp only [onePrimary,Bind.bind,Reader.bind,peek,left,right]
  split_ifs with digit quote bar minus bracket mark
  · exact tracksInteger.agrees c c' pairs (Nat.lt_succ_self _)
  · rw [Glyph.eqOfChar quote (by decide)] at inside
    exact followsQuotedText inside
  · rw [Glyph.eqOfChar bar (by decide)] at inside
    refine followsSign rfl inside (Nat.lt_of_lt_of_le bound expressions) fun start => ?_
    exact tracksThen tracksSpaces fun _ => tracksBind (tracksRequired tracked _) fun operand => tracksThen tracksSpaces fun _ =>
      tracksThen (tracksRequiredWord (by decide) _) fun _ => tracksHere fun stop => tracksPure rfl
  · rw [Glyph.eqOfChar minus (by decide)] at inside
    refine followsSign rfl inside (Nat.lt_of_lt_of_le bound expressions) fun start => ?_
    exact tracksThen tracksSpaces fun _ => tracksBind tracked.primary fun operand => tracksHere fun stop => tracksPure rfl
  · rw [Glyph.eqOfChar bracket (by decide)] at inside
    refine followsSign rfl inside (Nat.lt_of_lt_of_le bound expressions) fun start => ?_
    exact tracksBind (tracksItemsUpTo tracked (by decide) (by decide)) fun es => tracksHere fun stop => tracksPure rfl
  · rw [Glyph.eqOfChar mark (by decide)] at inside
    refine followsSign rfl inside (Nat.lt_of_lt_of_le bound expressions) fun start => ?_
    exact tracksHere fun stop => tracksPure rfl
  · have agrees := (tracksFunction tracked blocks).agrees c c' pairs bound
    simp only [orElse]
    cases result : nested.function c with
    | found e d =>
      rw [result] at agrees
      refine agrees.imp_right ?_
      rintro ⟨d',found,rest⟩
      refine ⟨d',?_,rest⟩
      rw [found]
    | absent x =>
      obtain ⟨x',missing⟩ := functionMissing tracked inside result
      rw [missing]
      exact (tracksNamed tracked expressions).agrees c c' pairs bound
    | refused e => trivial
    | unfinished => trivial

omit tracked expressions blocks in
theorem primaryAbsent (phrases : Phrases) {c} (foreign : c.peek ∈ [' ','\t','\r','#','\n','\x00']) :
    ∃ x, phrases.onePrimary c = .absent x := by
  have wordless : Cursor.isWordy c.peek = false := by
    have none : [' ','\t','\r','#','\n','\x00'].all (!Cursor.isWordy ·) := by decide
    simpa using List.all_eq_true.mp none _ foreign
  obtain ⟨letter,digit⟩ := Bool.or_eq_false_iff.mp wordless
  have signs : c.peek ∉ ['"','|','-','[','?','入'] := outsideOf foreign (by decide)
  simp only [List.mem_cons,List.not_mem_nil,or_false,not_or] at signs
  obtain ⟨quote,bar,minus,bracket,mark,head⟩ := signs
  have word' : c.consume? "入力" = none := by
    rw [Cursor.consume?,Option.map_eq_none_iff]
    rcases rest : c.rest with _ | ⟨⟨x⟩ | _,t⟩
    · rfl
    · rw [Cursor.peek,rest] at head
      exact if_neg (Ne.symm head)
    · rfl
  have letters : (Cursor.readLetters true c.pos c.rest).1 = [] := by
    rcases rest : c.rest with _ | ⟨g,t⟩
    · rfl
    · rw [Cursor.peek,rest] at letter
      simp only at letter
      rw [Cursor.readLetters,letter]
      rfl
  have name : identifier c = .absent c := by
    rcases identifierReading c with ⟨_,missing⟩ | ⟨named,_⟩
    · exact missing
    · rw [identifierParts,if_pos letters] at named
      contradiction
  have function : phrases.function c = .absent c := by
    rw [functionSplit,headerSplit]
    simp only [Bind.bind,Reader.bind,here,word,word']
  refine ⟨c,?_⟩
  simp only [onePrimary,Bind.bind,Reader.bind,peek,digit,quote,bar,minus,bracket,mark,if_false,orElse,Bool.false_eq_true,
    function]
  simp only [named,Bind.bind,Reader.bind,here,name]

theorem tracksOnePrimary : m.Tracks m.lost k (Expr.moved m.move) nested.onePrimary nested'.onePrimary := by
  have eats (c : Cursor) : Eats c 0 nested.onePrimary := eatsOnePrimary tracked.forward (Nat.zero_le _) (Nat.zero_le _)
  refine tracksOf (fun c => (eats c).1) (fun _ _ lost => lost) fun c c' pairs bound => ?_
  -- at the cut nothing begins on the right, and what begins on the left needs what is behind the cut
  have missing (cut : c'.rest = m.new) : ∃ x', nested'.onePrimary c' = .absent x' := by
    refine primaryAbsent nested' ?_
    rcases cutPeek cut with line | none
    · rw [line]
      decide
    · rw [none]
      decide
  rcases pairs with ⟨_ | ⟨g,u⟩,inside⟩ | past
  · cases result : nested.onePrimary c with
    | found e d =>
      have less := (eats c).2 c (Cursor.aheadRefl c) e d result
      rw [inside.rest,List.nil_append] at less
      rcases old : m.old with _ | ⟨g,t⟩
      · rw [old] at less
        contradiction
      · by_cases solid : isSolid g
        · rw [old] at less
          exact Or.inl (cutLost old solid (Nat.le_of_lt_succ less))
        · have foreign : g.toChar ∈ [' ','\t','\r','#','\n','\x00'] := by
            by_contra other
            refine solid (solidUnless fun inside => other ?_)
            exact List.mem_append_left ['\n','\x00'] inside
          obtain ⟨x,absent⟩ := primaryAbsent nested (c := c)
            (by rw [Cursor.peek,inside.rest,List.nil_append,old]; exact foreign)
          rw [absent] at result
          contradiction
    | absent x => exact Or.inr (missing inside.rest')
    | refused e => trivial
    | unfinished => trivial
  · exact followsOnePrimary tracked expressions blocks inside bound
  · cases result : nested.onePrimary c with
    | found e d =>
      have less := (eats c).2 c (Cursor.aheadRefl c) e d result
      rw [past.rest] at less
      exact Or.inl less
    | absent x => exact Or.inr (missing past.rest')
    | refused e => trivial
    | unfinished => trivial

end Primary

end Tracked

/- Phrases are read again, whatever nesting is allowed for on the left, if the nesting on the right is
enough for what is left there. -/
theorem trackedUpTo (m : Seam) (n n' : Nat) : Tracked m ((n' + 1) / 2) (n' / 2) (upTo n) (upTo n') := by
  have sized (n : Nat) : (upTo n).Sized 0 0 :=
    ⟨fun base => eatsMono (Nat.zero_le _) ((sizedUpTo n).primary base),
      fun base => eatsMono (Nat.zero_le _) ((sizedUpTo n).statement base)⟩
  induction n generalizing n' with
  | zero => exact ⟨tracksUnfinished,tracksUnfinished,shelteredUpTo 0,sized 0,sizedUpTo n'⟩
  | succ n ih =>
    cases n' with
    | zero =>
      have inner := ih 1
      refine ⟨?_,?_,shelteredUpTo _,sized _,sizedUpTo 0⟩
      · exact ⟨fun _ _ _ bound => absurd bound (by omega),(tracksOnePrimary inner (k := 0) (by omega) (by omega)).drifts⟩
      · exact ⟨fun _ _ _ bound => absurd bound (by omega),(tracksOneStatement inner (k := 0) (by omega) (by omega)).drifts⟩
    | succ n' =>
      exact ⟨tracksOnePrimary (ih n') (by omega) (by omega),tracksOneStatement (ih n') (by omega) (by omega),
        shelteredUpTo _,sized _,sizedUpTo _⟩

end Phrases

end Terakoya
