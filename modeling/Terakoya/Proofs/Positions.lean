import Terakoya.Proofs.Joined
import Terakoya.Proofs.Targets

/-! Where the nodes of a program stand. Every node spans the text it was read from: its children lie
inside and in order, only blanks and comments stand between statements, and its text alone is read as
the same node. -/
namespace Terakoya

open Location (slice)
open Text (ofString)

variable {α β : Type}

inductive Idle : Text → Prop where
  | none : Idle []
  | blank (g : Glyph) {t} (skipped : g.toChar ∈ [' ','\t','\r','\n']) (rest : Idle t) : Idle (g :: t)
  | comment (line : Text) {t} (short : Glyph.newline ∉ line) (rest : Idle t) :
      Idle (.char '#' :: line ++ .newline :: t)

def Trailing (t : Text) : Prop := Idle t ∨ ∃ u line, t = u ++ .char '#' :: line ∧ Idle u ∧ Glyph.newline ∉ line

/-- Only blanks and comments stand between two offsets, apart from some statements. -/
def Tiled (t : Text) (last : Text → Prop) (start : Nat) : List Stmt → Nat → Prop
  | [],stop => start ≤ stop ∧ last (slice t start stop)
  | s :: rest,stop => start ≤ s.span.start ∧ Idle (slice t start s.span.start) ∧ Tiled t last s.span.stop rest stop

structure Braced (t : Text) (b : Block) : Prop where
  opens : slice t b.span.start (b.span.start + 1) = ofString "\x7b"
  closes : slice t (b.span.stop - 1) b.span.stop = ofString "\x7d"
  tiled : Tiled t Idle (b.span.start + 1) b.body (b.span.stop - 1)

/-! Blanks and comments -/

def Skipped (P : Text → Prop) (ended : Prop) : Bool → Text → Prop
  | false,u => P u
  | true,u => (∃ line v, u = line ++ .newline :: v ∧ Glyph.newline ∉ line ∧ P v) ∨ ended ∧ Glyph.newline ∉ u

theorem skippedText {P : Text → Prop} (none : P []) (blank : ∀ g t, g.toChar ∈ [' ','\t','\r','\n'] → P t → P (g :: t))
    (comment : ∀ line t, Glyph.newline ∉ line → P t → P (.char '#' :: line ++ .newline :: t)) (inside : Bool) (pos : Nat)
    (t : Text)
    (last : (Cursor.skipFrom true inside pos t).rest = [] → ∀ line, Glyph.newline ∉ line → P (.char '#' :: line)) :
    ∃ u, Cursor.Over ⟨pos,t⟩ u (Cursor.skipFrom true inside pos t) ∧
      Skipped P ((Cursor.skipFrom true inside pos t).rest = []) inside u := by
  induction t generalizing inside pos with
  | nil =>
    refine ⟨[],Cursor.overNone _,?_⟩
    cases inside with
    | false => exact none
    | true => exact Or.inr ⟨rfl,List.not_mem_nil⟩
  | cons g t ih =>
    have across {u : Text} {d : Cursor} (later : Cursor.Over ⟨pos + g.width,t⟩ u d) : Cursor.Over ⟨pos,g :: t⟩ (g :: u) d :=
      Cursor.overTrans (Cursor.overGlyph pos g t) later
    by_cases newline : g.is '\n'
    · have step : Cursor.skipFrom true inside pos (g :: t) = Cursor.skipFrom true false (pos + g.width) t := by
        simp [Cursor.skipFrom,newline]
      rw [step] at last ⊢
      obtain ⟨u,later,skipped⟩ := ih false _ last
      refine ⟨g :: u,across later,?_⟩
      have same := Glyph.isNewline newline
      subst same
      cases inside with
      | false => exact blank _ u (by decide) skipped
      | true => exact Or.inl ⟨[],u,rfl,List.not_mem_nil,skipped⟩
    · have other : g ≠ .newline := fun same => newline (same ▸ rfl)
      by_cases commented : inside || g.is '#'
      · have step : Cursor.skipFrom true inside pos (g :: t) = Cursor.skipFrom true true (pos + g.width) t := by
          simp [Cursor.skipFrom,newline,commented]
        rw [step] at last ⊢
        obtain ⟨u,later,skipped⟩ := ih true _ last
        refine ⟨g :: u,across later,?_⟩
        cases inside with
        | false =>
          have same : g = .char '#' := Glyph.eqOfIs (by simpa using commented)
          subst same
          rcases skipped with ⟨line,v,rfl,short,rest⟩ | ⟨ended,short⟩
          · exact comment line v short rest
          · exact last ended u short
        | true =>
          refine skipped.imp ?_ ?_
          · rintro ⟨line,v,same,short,rest⟩
            exact ⟨g :: line,v,by rw [same,List.cons_append],List.not_mem_cons_of_ne_of_not_mem other.symm short,rest⟩
          · rintro ⟨ended,short⟩
            exact ⟨ended,List.not_mem_cons_of_ne_of_not_mem other.symm short⟩
      · obtain ⟨rfl,hash⟩ : inside = false ∧ g.is '#' = false := by simpa using commented
        by_cases skips : Cursor.isBlank true g.toChar
        · have step : Cursor.skipFrom true false pos (g :: t) = Cursor.skipFrom true false (pos + g.width) t := by
            simp [Cursor.skipFrom,newline,hash,skips]
          rw [step] at last ⊢
          obtain ⟨u,later,skipped⟩ := ih false _ last
          refine ⟨g :: u,across later,blank g u ?_ skipped⟩
          simpa [Cursor.isBlank,or_assoc] using skips
        · have step : Cursor.skipFrom true false pos (g :: t) = ⟨pos,g :: t⟩ := by
            simp [Cursor.skipFrom,newline,hash,skips]
          rw [step]
          exact ⟨[],Cursor.overNone _,none⟩

theorem idleBlank {c : Cursor} (some : c.skipBlank.rest ≠ []) : ∃ u, c.Over u c.skipBlank ∧ Idle u :=
  skippedText .none (fun g _ skipped rest => .blank g skipped rest) (fun line _ short rest => .comment line short rest)
    false c.pos c.rest fun none => absurd none some

theorem trailingBlank (c : Cursor) : ∃ u, c.Over u c.skipBlank ∧ Trailing u := by
  refine skippedText (Or.inl .none) (fun g t skipped rest => ?_) (fun line t short rest => ?_) false c.pos c.rest
    fun _ line short => Or.inr ⟨[],line,rfl,.none,short⟩
  · rcases rest with idle | ⟨u,line,rfl,idle,short⟩
    · exact Or.inl (.blank g skipped idle)
    · exact Or.inr ⟨g :: u,line,rfl,.blank g skipped idle,short⟩
  · rcases rest with idle | ⟨u,line',rfl,idle,short'⟩
    · exact Or.inl (.comment line short idle)
    · refine Or.inr ⟨.char '#' :: line ++ .newline :: u,line',?_,.comment line short idle,short'⟩
      simp only [List.cons_append,List.append_assoc]

/-! A piece of text, cut out -/

namespace Cursor

variable {t u v : Text} {c d : Cursor}

theorem sliceOver (from' : (start t).Over v c) (across : c.Over u d) : slice t c.pos d.pos = u := by
  have rest : t = v ++ c.rest := from'.rest
  have pos : c.pos = Text.width v := from'.pos.trans (Nat.zero_add _)
  rw [slice,across.pos,Nat.add_sub_cancel_left,rest,pos,Location.cutOver,across.rest,Location.cutOver]

theorem aheadStrict (ahead : c.Ahead d) (shorter : d.rest.length < c.rest.length) : c.pos < d.pos := by
  obtain ⟨u,across⟩ := ahead
  cases u with
  | nil =>
    rw [across.rest,List.nil_append] at shorter
    exact absurd shorter (Nat.lt_irrefl _)
  | cons g u =>
    rw [across.pos,Text.width]
    have := g.widthPos
    omega

theorem aheadWidth (from' : (start t).Ahead d) : d.pos ≤ Text.width t := by
  obtain ⟨v,across⟩ := from'
  have rest : t = v ++ d.rest := across.rest
  have pos : d.pos = Text.width v := across.pos.trans (Nat.zero_add _)
  rw [rest,pos,Text.widthAppend]
  exact Nat.le_add_right _ _

end Cursor

namespace Seam

def slicing (u old : Text) (left : Nat) (apart : Apart old) : Seam where
  shared := u
  old := old
  new := []
  left := left
  right := 0
  ends := Or.inl rfl
  apart := apart

variable {u : Text} {c d : Cursor}

theorem slicingStart {b e} (apart : Apart d.rest) (across : c.Over u d) (closed : Pending.Sealed ⟨.code,b⟩ e u d.rest) :
    (slicing u d.rest c.pos apart).Inside u c (.start u) := by
  refine ⟨⟨[],rfl,rfl,rfl⟩,across.rest,(List.append_nil u).symm,fun _ => ?_⟩
  have place := scanPlace ⟨.code,b⟩ u
  rcases closed.settled with code | ⟨comment,ends⟩
  · exact Or.inl (place.trans (congrArg Pending.Count.place code))
  · exact Or.inr ⟨place.trans (congrArg Pending.Count.place comment),ends⟩

theorem slicingEnd {apart left d'} (pairs : (slicing u d.rest left apart).Pairs d d') : d' = ⟨Text.width u,[]⟩ := by
  obtain ⟨pos',rest'⟩ := d'
  rcases pairs with ⟨s,inside⟩ | past
  · have none : s = [] := List.self_eq_append_left.mp inside.rest
    subst none
    obtain ⟨v,shared,_,pos⟩ := inside.whole
    have whole : u = v := shared.trans (List.append_nil v)
    have stop : pos' = Text.width v := pos.trans (Nat.zero_add _)
    have rest : rest' = [] := inside.rest'
    rw [whole,stop,rest]
  · have stop : pos' = Text.width u := past.pos'.trans (Nat.zero_add _)
    have rest : rest' = [] := past.rest'
    rw [stop,rest]

theorem sliced {b e apart} {off : α → Cursor → Prop} {size} {move : α → α} {r r'} {a : α}
    (across : c.Over u d) (closed : Pending.Sealed ⟨.code,b⟩ e u d.rest)
    (tracks : (slicing u d.rest c.pos apart).Tracks off size move r r') (on : ¬ off a d) (bound : u.length < size)
    (found : r c = .found a d) : r' (.start u) = .found (move a) ⟨Text.width u,[]⟩ := by
  have agrees := tracks.agrees c (.start u) (Or.inl ⟨u,slicingStart apart across closed⟩) bound
  rw [found] at agrees
  obtain ⟨d',found',pairs,_⟩ := agrees.resolve_left on
  rw [found',slicingEnd pairs]

theorem slicingKeeps (apart : Apart d.rest) (left : Nat) : ¬ (slicing u d.rest left apart).Lost d :=
  Nat.not_lt.mpr (slicing u d.rest left apart).beyondLength

theorem slicingQuiet (old : Text) (apart : Apart old) (left : Nat) : (slicing u old left apart).Quiet := rfl

end Seam

namespace Tree

def production (phrases : Phrases) : Tree → Reader Tree
  | expr _ => do return expr (← phrases.expression)
  | stmt _ => do return stmt (← phrases.statement)
  | block _ => do return block (← phrases.block)

def ReadAgain (n : Tree) (u : Text) : Prop :=
  ∃ n', n.production (Phrases.upTo (Phrases.depthFor u.length)) (.start u) = .found n' ⟨Text.width u,[]⟩ ∧
    n'.moved (· + n.span.start) = n

structure Exact (t : Text) (n : Tree) : Prop where
  filled : n.span.start < n.span.stop
  within : n.span.stop ≤ Text.width t
  inside : ∀ m ∈ n.children, n.span.start ≤ m.span.start ∧ m.span.stop ≤ n.span.stop
  ordered : n.children.Pairwise fun x y => x.span.stop ≤ y.span.start
  braced : ∀ b, n = block b → Braced t b
  again : n.ReadAgain (slice t n.span.start n.span.stop)

structure Row (t : Text) (start stop : Nat) (ns : List Tree) : Prop where
  forward : start ≤ stop
  each : ∀ n ∈ ns, start ≤ n.span.start ∧ n.span.stop ≤ stop ∧ n.All (Exact t)
  ordered : ns.Pairwise fun x y => x.span.stop ≤ y.span.start

variable {t : Text} {start stop later : Nat} {ns : List Tree} {n : Tree}

theorem rowNone (t : Text) (forward : start ≤ stop) : Row t start stop [] :=
  ⟨forward,fun _ none => absurd none List.not_mem_nil,List.Pairwise.nil⟩

theorem rowLater (row : Row t start stop ns) (forward : stop ≤ later) : Row t start later ns := by
  refine ⟨Nat.le_trans row.forward forward,fun n inside => ?_,row.ordered⟩
  obtain ⟨left,right,all⟩ := row.each n inside
  exact ⟨left,Nat.le_trans right forward,all⟩

theorem rowSnoc (row : Row t start stop ns) (after : stop ≤ n.span.start) (exact' : n.All (Exact t)) :
    Row t start n.span.stop (ns ++ [n]) := by
  have forward : stop ≤ n.span.stop := Nat.le_trans after (Nat.le_of_lt exact'.here.filled)
  have moved := rowLater row forward
  refine ⟨moved.forward,fun m inside => ?_,?_⟩
  · rcases List.mem_append.mp inside with before | last
    · exact moved.each m before
    · rw [List.mem_singleton.mp last]
      exact ⟨Nat.le_trans row.forward after,Nat.le_refl _,exact'⟩
  · refine List.pairwise_append.mpr ⟨row.ordered,List.pairwise_singleton _ _,fun x before y last => ?_⟩
    rw [List.mem_singleton.mp last]
    exact Nat.le_trans (row.each x before).2.1 after

theorem offsetsInside (row : Row t n.span.start n.span.stop n.children) (forward : n.span.start ≤ n.span.stop) :
    n.All fun m => n.span.start ≤ m.span.start ∧ m.span.start ≤ m.span.stop ∧ m.span.stop ≤ n.span.stop := by
  have below {m : Tree} (exact' : m.All (Exact t)) {a b : Nat} (left : a ≤ m.span.start) (right : m.span.stop ≤ b) :
      m.All fun x => a ≤ x.span.start ∧ x.span.start ≤ x.span.stop ∧ x.span.stop ≤ b := by
    induction exact' with
    | intro here _ ih =>
      refine .intro ⟨left,Nat.le_of_lt here.filled,right⟩ fun x child => ?_
      obtain ⟨left',right'⟩ := here.inside x child
      exact ih x child (Nat.le_trans left left') (Nat.le_trans right' right)
  refine .intro ⟨Nat.le_refl _,forward,Nat.le_refl _⟩ fun m child => ?_
  obtain ⟨left,right,exact'⟩ := row.each m child
  exact below exact' left right

theorem readAgain {u} {c d : Cursor} {apart} (across : c.Over u d) (span : n.span = ⟨c.pos,d.pos⟩)
    (row : Row t n.span.start n.span.stop n.children)
    (found : n.production (Phrases.upTo (Phrases.depthFor u.length)) (.start u) =
      .found (n.moved (Seam.slicing u d.rest c.pos apart).move) ⟨Text.width u,[]⟩) : n.ReadAgain u := by
  refine ⟨_,found,?_⟩
  rw [movedTwice]
  refine movedFixed ((offsetsInside row row.forward).imp fun m ⟨left,forward,right⟩ => ?_)
  rw [span] at left right
  have pos := across.pos
  dsimp only at left right
  have fixed (p : Nat) (from' : c.pos ≤ p) (upTo : p ≤ d.pos) :
      (Seam.slicing u d.rest c.pos apart).move p + n.span.start = p := by
    rw [span]
    change 0 + min (p - c.pos) (Text.width u) + c.pos = p
    omega
  have start' := fixed m.span.start left (Nat.le_trans forward right)
  have stop' := fixed m.span.stop (Nat.le_trans left forward) right
  simp only [Span.moved,Function.comp,start',stop']

theorem exactOver {u} {c d : Cursor} (apart : Apart d.rest) (from' : (Cursor.start t).Ahead c) (across : c.Over u d)
    (some : d.rest.length < c.rest.length) (span : n.span = ⟨c.pos,d.pos⟩) (row : Row t c.pos d.pos n.children)
    (braced : ∀ b, n = block b → Braced t b) (found : n.production (Phrases.upTo (Phrases.depthFor u.length)) (.start u) =
      .found (n.moved (Seam.slicing u d.rest c.pos apart).move) ⟨Text.width u,[]⟩) : n.All (Exact t) := by
  have start : n.span.start = c.pos := congrArg Span.start span
  have stop : n.span.stop = d.pos := congrArg Span.stop span
  have text : slice t n.span.start n.span.stop = u := by
    obtain ⟨v,before⟩ := from'
    rw [start,stop,Cursor.sliceOver before across]
  refine .intro ⟨?_,?_,fun m child => ?_,row.ordered,braced,?_⟩ fun m child => (row.each m child).2.2
  · rw [start,stop]
    exact Cursor.aheadStrict ⟨u,across⟩ some
  · rw [stop]
    exact Cursor.aheadWidth (Cursor.aheadTrans from' ⟨u,across⟩)
  · rw [start,stop]
    exact ⟨(row.each m child).1,(row.each m child).2.1⟩
  · rw [text]
    refine readAgain (t := t) across span ?_ found
    rwa [start,stop]

end Tree

/-! What comes before a place where no word and no call goes on -/

theorem apartSkip (lines : Bool) (pos : Nat) {t} (apart : Apart (Cursor.skipFrom lines false pos t).rest) : Apart t := by
  rintro g u rfl
  rcases Cursor.skipHead lines pos g u with stays | blank
  · rw [stays] at apart
    exact apart g u rfl
  · exact outsideOf blank (by decide)

def isFresh (w : String) : Bool := w.toList.head?.any fun x => !interiors.contains x

theorem apartWord {w} {c d : Cursor} (fresh : isFresh w) (found : c.consume? w = some d) : Apart c.rest := by
  intro g u rest
  obtain ⟨x,first,clean⟩ := Option.any_eq_true _ _ |>.mp fresh
  obtain ⟨t,same⟩ := Cursor.headConsumed first found
  obtain ⟨rfl,_⟩ := List.cons.inj (rest.symm.trans same)
  simpa [Glyph.toChar] using clean

theorem apartEnd {c : Cursor} (ended : c.atStatementEnd) : Apart c.rest := by
  refine apartSkip false c.pos ?_
  rintro g u rest
  rw [Cursor.atStatementEnd,Cursor.skipSpaces,rest] at ended
  rcases Bool.or_eq_true_iff.mp ended with newline | brace
  · rw [Glyph.charOfIs newline]
    decide
  · rw [Glyph.charOfIs brace]
    decide

namespace Reader

def Heralds (r : Reader β) : Prop := ∀ c b d, r c = .found b d → Apart d.rest → Apart c.rest

variable {r s : Reader β} {f : α → Reader β} {c d : Cursor}

theorem heraldsPure (b : β) : Heralds (Pure.pure b : Reader β) := by
  intro c a d found apart
  cases found
  exact apart

theorem heraldsHere {f : Nat → Reader β} (next : ∀ p, Heralds (f p)) : Heralds (here >>= f) :=
  fun c b d found apart => next c.pos c b d found apart

theorem heraldsSpaces {f : Unit → Reader β} (next : Heralds (f ())) : Heralds (spaces >>= f) :=
  fun c b d found apart => apartSkip false c.pos (next c.skipSpaces b d found apart)

theorem heraldsBlank {f : Unit → Reader β} (next : Heralds (f ())) : Heralds (blank >>= f) :=
  fun c b d found apart => apartSkip true c.pos (next c.skipBlank b d found apart)

theorem heraldsWord {w} (fresh : isFresh w) {f : Unit → Reader β} : Heralds (word w >>= f) := by
  intro c b d found _
  obtain ⟨_,e,read,_⟩ := foundBind found
  exact apartWord fresh (wordConsumed read)

theorem heraldsRequired {w} (fresh : isFresh w) (what : Expectation) {f : Unit → Reader β} :
    Heralds (require what (word w) >>= f) := by
  intro c b d found _
  obtain ⟨_,e,read,_⟩ := foundBind found
  simp only [require] at read
  split at read
  · contradiction
  · exact apartWord fresh (wordConsumed read)

theorem heraldsTry {w} (fresh : isFresh w) {f : Bool → Reader β} (miss : Heralds (f false)) : Heralds (tryWord w >>= f) := by
  intro c b d found apart
  simp only [Bind.bind,Reader.bind,tryWord] at found
  cases consumed : c.consume? w with
  | some next => exact apartWord fresh consumed
  | none =>
    rw [consumed] at found
    exact miss c b d found apart

theorem heraldsTryAny {ws} (fresh : ∀ w ∈ ws, isFresh w) {f : Bool → Reader β} (miss : Heralds (f false)) :
    Heralds (tryWords ws >>= f) := by
  intro c b d found apart
  simp only [Bind.bind,Reader.bind,tryWords] at found
  induction ws with
  | nil => exact miss c b d found apart
  | cons w ws ih =>
    obtain ⟨first,rest⟩ := List.forall_mem_cons.mp fresh
    rw [Cursor.consumeAny?] at found
    cases consumed : c.consume? w with
    | some next => exact apartWord first consumed
    | none =>
      rw [consumed] at found
      exact ih rest found

theorem heraldsStatementEnd {f : Unit → Reader β} : Heralds (statementEnd >>= f) := by
  intro c b d found _
  obtain ⟨_,e,read,_⟩ := foundBind found
  simp only [statementEnd] at read
  split at read
  · rename_i ended
    exact apartEnd ended
  · contradiction

/-! Readers of nodes -/

def Stands (t : Text) (node : β → Tree) (r : Reader β) : Prop :=
  ∀ c b d, (Cursor.start t).Ahead c → r c = .found b d →
    c.Ahead d ∧ (node b).span = ⟨c.pos,d.pos⟩ ∧ (Apart d.rest → (node b).All (Tree.Exact t))

def Lays (t : Text) (start : Nat) (ks : List Tree) (kids : β → List Tree) (r : Reader β) : Prop :=
  ∀ c b d, (Cursor.start t).Ahead c → r c = .found b d →
    c.Ahead d ∧ (Apart d.rest → Tree.Row t start c.pos ks → Tree.Row t start d.pos (kids b))

variable {t : Text} {start : Nat} {ks : List Tree} {kids : β → List Tree} {mid : α → List Tree} {r' : Reader α}

theorem laysAfter (first : Lays t start ks mid r') (enters : ∀ {c a d b e}, r' c = .found a d → f a d = .found b e →
      Apart e.rest → Apart d.rest) (next : ∀ a, Lays t start (mid a) kids (f a)) : Lays t start ks kids (r' >>= f) := by
  intro c b e from' found
  obtain ⟨a,d,read,found⟩ := foundBind found
  obtain ⟨ahead,row⟩ := first c a d from' read
  obtain ⟨ahead',row'⟩ := next a d b e (Cursor.aheadTrans from' ahead) found
  exact ⟨Cursor.aheadTrans ahead ahead',fun apart before => row' apart (row (enters read found apart) before)⟩

theorem laysBind (first : Lays t start ks mid r') (heralds : ∀ a, Heralds (f a)) (next : ∀ a, Lays t start (mid a) kids (f a)) :
    Lays t start ks kids (r' >>= f) := laysAfter first (fun {_ a d b e} _ found => heralds a d b e found) next

theorem laysThen (moves : ∀ c, Moves c 0 r') (next : ∀ a, Lays t start ks kids (f a)) : Lays t start ks kids (r' >>= f) := by
  intro c b e from' found
  obtain ⟨a,d,read,found⟩ := foundBind found
  have ahead := movesFound (moves c) (Cursor.aheadRefl c) read
  obtain ⟨ahead',row'⟩ := next a d b e (Cursor.aheadTrans from' ahead) found
  exact ⟨Cursor.aheadTrans ahead ahead',fun apart before => row' apart (Tree.rowLater before (Cursor.aheadPos ahead))⟩

theorem laysIf {asks : Reader Bool} {r s : Reader β} (moves : ∀ c, Moves c 0 asks) (yes : Lays t start ks kids r)
    (no : Lays t start ks kids s) : Lays t start ks kids (asks >>= fun there => if there then r else s) := by
  refine laysThen moves fun there => ?_
  cases there with
  | true => exact yes
  | false => exact no

theorem laysStill (still : ∀ c a d, r' c = .found a d → d = c) (next : ∀ a, Lays t start ks kids (f a)) :
    Lays t start ks kids (r' >>= f) := by
  intro c b e from' found
  obtain ⟨a,d,read,found⟩ := foundBind found
  rw [still c a d read] at found
  exact next a c b e from' found

theorem laysClosed (first : Lays t start ks mid r') (closed : ∀ c a d, r' c = .found a d → Apart d.rest)
    (next : ∀ a, Lays t start (mid a) kids (f a)) : Lays t start ks kids (r' >>= f) :=
  laysAfter first (fun {c a d _ _} read _ _ => closed c a d read) next

theorem laysPure {b} (same : kids b = ks) : Lays t start ks kids (Pure.pure b) := by
  intro c a d _ found
  cases found
  refine ⟨Cursor.aheadRefl c,fun _ row => ?_⟩
  rwa [same]

theorem laysStop {node : Nat → β} (same : ∀ stop, kids (node stop) = ks) :
    Lays t start ks kids (here >>= fun stop => Pure.pure (node stop)) :=
  laysThen (fun _ => fun d _ => Cursor.aheadRefl d) fun stop => laysPure (same stop)

theorem laysNever (never : ∀ c b d, r c ≠ .found b d) : Lays t start ks kids r :=
  fun c b d _ found => absurd found (never c b d)

theorem laysRequire (what : Expectation) (lays : Lays t start ks kids r) : Lays t start ks kids (require what r) := by
  intro c b d from' found
  simp only [require] at found
  split at found
  · contradiction
  · exact lays c b d from' found

theorem laysStands {node : β → Tree} (stands : Stands t node r) : Lays t start ks (fun b => ks ++ [node b]) r := by
  intro c b d from' found
  obtain ⟨ahead,span,all⟩ := stands c b d from' found
  refine ⟨ahead,fun apart row => ?_⟩
  have after : c.pos ≤ (node b).span.start := Nat.le_of_eq (by rw [span])
  have snoc := Tree.rowSnoc row after (all apart)
  rwa [span] at snoc

theorem heraldsStop {node : Nat → β} : Heralds (here >>= fun stop => Pure.pure (node stop)) :=
  heraldsHere fun stop => heraldsPure (node stop)

def Parents (t : Text) (node : β → Tree) (r : Reader β) (c : Cursor) : Prop :=
  ∀ b d, (Cursor.start t).Ahead c → r c = .found b d →
    c.Ahead d ∧ (Apart d.rest → Tree.Row t c.pos d.pos (node b).children)

theorem parentsHere {node : β → Tree} {f : Nat → Reader β}
    (lays : ∀ start, Lays t start [] (fun b => (node b).children) (f start)) : Parents t node (here >>= f) c := by
  intro b d from' found
  obtain ⟨ahead,row⟩ := lays c.pos c b d from' found
  exact ⟨ahead,fun apart => row apart (Tree.rowNone t (Nat.le_refl _))⟩

theorem parentsOrElse {node : β → Tree} (first : Parents t node r c) (second : ∀ x, r c = .absent x → Parents t node s c) :
    Parents t node (orElse r s) c := by
  intro b d from' found
  simp only [orElse] at found
  split at found
  · rename_i x missing
    exact second x missing b d from' found
  · exact first b d from' found

theorem parentsNever {node : β → Tree} (never : ∀ b d, r c ≠ .found b d) : Parents t node r c :=
  fun b d _ found => absurd found (never b d)

def Rules (r : Reader β) : Prop := ∀ c b d, r c = .found b d → ∃ g u, c.rest = g :: u ∧ g.toChar ∈ ['を','の','=']

theorem ruledConsumed {w} (ruling : w.toList.head?.any (['を','の','='].contains ·)) (found : c.consume? w = some d) :
    ∃ g u, c.rest = g :: u ∧ g.toChar ∈ ['を','の','='] := by
  obtain ⟨x,first,inside⟩ := Option.any_eq_true _ _ |>.mp ruling
  obtain ⟨t,same⟩ := Cursor.headConsumed first found
  exact ⟨_,t,same,by simpa [Glyph.toChar] using inside⟩

theorem rulesWord {w} (ruling : w.toList.head?.any (['を','の','='].contains ·)) {f : Unit → Reader β} :
    Rules (word w >>= f) := by
  intro c b d found
  obtain ⟨_,_,read,_⟩ := foundBind found
  exact ruledConsumed ruling (wordConsumed read)

theorem rulesTry {w} (ruling : w.toList.head?.any (['を','の','='].contains ·)) {f : Bool → Reader β}
    (miss : Rules (f false)) : Rules (tryWord w >>= f) := by
  intro c b d found
  simp only [Bind.bind,Reader.bind,tryWord] at found
  cases consumed : c.consume? w with
  | some next => exact ruledConsumed ruling consumed
  | none =>
    rw [consumed] at found
    exact miss c b d found

end Reader

namespace Phrases

open Reader

structure Grounded (t : Text) (nested : Phrases) : Prop where
  primary : Stands t .expr nested.primary
  statement : Stands t .stmt nested.statement
  ends : ∀ c s d, nested.statement c = .found s d → d.atStatementEnd

structure Standing (t : Text) (nested : Phrases) : Prop extends Grounded t nested where
  block : Stands t .block nested.block
  /- A target stands where it was read, if nothing that comes first was found there. -/
  target : ∀ c p d x, (Cursor.start t).Ahead c → nested.loop c = .absent x → nested.target c = .found p d → Ruled d →
    c.Ahead d ∧ p.span = ⟨c.pos,d.pos⟩ ∧ (Tree.expr (.var p)).All (Tree.Exact t)

section Grounded

variable {t : Text} {nested : Phrases} (grounded : nested.Grounded t) {start : Nat} {ks : List Tree}

include grounded

theorem standsExpression : Stands t .expr nested.expression := by
  intro c e d from' found
  obtain ⟨e',d',read,guarded⟩ := foundBind found
  dsimp only at guarded
  split at guarded
  · contradiction
  · cases guarded
    exact grounded.primary c e d from' read

theorem laysValue : Lays t start ks (fun e => ks ++ [.expr e]) nested.expression := laysStands (standsExpression grounded)

theorem laysRequired (what : Expectation) : Lays t start ks (fun e => ks ++ [.expr e]) (require what nested.expression) :=
  laysRequire what (laysValue grounded)

theorem laysIndices (n : Nat) : Lays t start ks (fun is => ks ++ is.map .expr) (nested.indices n) := by
  induction n generalizing ks with
  | zero => exact laysNever fun _ _ _ found => by contradiction
  | succ n ih =>
    refine laysIf (fun _ => movesTry _) ?_ (laysPure (List.append_nil ks))
    refine laysThen (fun _ => movesSpaces) fun _ => laysBind (laysRequired grounded _)
      (fun _ => heraldsSpaces (heraldsRequired (by decide) _)) fun i => ?_
    refine laysThen (fun _ => movesSpaces) fun _ => laysThen (fun _ => movesRequire _ (movesWord _)) fun _ => ?_
    refine laysBind ih (fun is => heraldsPure _) fun is => laysPure ?_
    rw [List.map_cons,List.append_cons]

theorem laysItems {close : String} (fresh : isFresh close) (n : Nat) :
    Lays t start ks (fun es => ks ++ es.map .expr) (nested.items close n) := by
  induction n generalizing ks with
  | zero => exact laysNever fun _ _ _ found => by contradiction
  | succ n ih =>
    have further (e : Expr) : Heralds (do
        blank
        if ← tryWords [",","、"] then
          blank
          let rest ← nested.items close n
          return e :: rest
        else if ← tryWord close then return [e]
        else expecting (.commaOr close)) := by
      refine heraldsBlank (heraldsTryAny (by decide) (heraldsTry fresh ?_))
      exact fun _ _ _ found => by contradiction
    refine laysBind (laysRequired grounded _) further fun e => laysThen (fun _ => movesBlank) fun _ =>
      laysIf (fun _ => movesTryAny _) ?_ <| laysIf (fun _ => movesTry _) (laysPure rfl) ?_
    · refine laysThen (fun _ => movesBlank) fun _ => laysBind ih (fun es => heraldsPure _) fun es => laysPure ?_
      rw [List.map_cons,List.append_cons]
    · exact laysNever fun _ _ _ found => by contradiction

theorem laysItemsUpTo {close} (fresh : isFresh close) :
    Lays t start ks (fun es => ks ++ es.map .expr) (nested.itemsUpTo close) := by
  refine laysThen (fun _ => movesBlank) fun _ => laysIf (fun _ => movesTry _) (laysPure (List.append_nil ks)) ?_
  exact fun c => laysItems grounded fresh (c.rest.length + 1) c

theorem laysStatements (offset n : Nat) : Lays t start ks (fun body => ks ++ body.map .stmt) (nested.statements offset n) := by
  induction n generalizing ks with
  | zero => exact laysNever fun _ _ _ found => by contradiction
  | succ n ih =>
    refine laysThen (fun _ => movesBlank) fun _ => laysIf (fun _ => movesTry _) (laysPure (List.append_nil ks)) <|
      laysIf (fun _ d _ => Cursor.aheadRefl d) (laysNever fun _ _ _ found => by contradiction) ?_
    refine laysClosed (laysStands grounded.statement) (fun c s d found => apartEnd (grounded.ends c s d found)) fun s => ?_
    refine laysBind ih (fun body => heraldsPure _) fun body => laysPure ?_
    rw [List.map_cons,List.append_cons]

end Grounded

section Standing

variable {t : Text} {nested : Phrases} (standing : nested.Standing t) {start : Nat} {ks : List Tree} {c : Cursor}

include standing

theorem laysBlock : Lays t start ks (fun b => ks ++ [.block b]) nested.block := laysStands standing.block

omit standing in
theorem alternativeCases {c d} {no : Option Block} (found : nested.alternative c = .found no d) :
    no = none ∧ d = c ∨ nested.otherwise c.skipBlank = .found no d ∧ Apart c.rest := by
  rw [alternativeFrom] at found
  cases result : nested.otherwise c.skipBlank with
  | found no' d' =>
    rw [result] at found
    cases found
    refine Or.inr ⟨rfl,apartSkip true c.pos ?_⟩
    obtain ⟨_,_,read,_⟩ := foundBind result
    exact apartWord (by decide) (wordConsumed read)
  | absent x =>
    rw [result] at found
    cases found
    exact Or.inl ⟨rfl,rfl⟩
  | refused e =>
    rw [result] at found
    contradiction
  | unfinished =>
    rw [result] at found
    contradiction

theorem laysAlternative : Lays t start ks (fun no => ks ++ no.toList.map .block) nested.alternative := by
  have inner : Lays t start ks (fun no => ks ++ no.toList.map .block) nested.otherwise :=
    laysThen (fun _ => movesWord _) fun _ => laysThen (fun _ => movesPause) fun _ =>
      laysBind (laysBlock standing) (fun _ => heraldsPure _) fun _ => laysPure rfl
  intro c no d from' found
  rcases alternativeCases found with ⟨rfl,rfl⟩ | ⟨found,_⟩
  · exact ⟨Cursor.aheadRefl d,fun _ row => by simpa using row⟩
  · have blank := Cursor.aheadBlank c
    obtain ⟨ahead,row⟩ := inner c.skipBlank no d (Cursor.aheadTrans from' blank) found
    exact ⟨Cursor.aheadTrans blank ahead,fun apart before => row apart (Tree.rowLater before (Cursor.aheadPos blank))⟩

omit standing in
theorem heraldsAlternative {f : Option Block → Reader β} (next : Heralds (f none)) : Heralds (nested.alternative >>= f) := by
  intro c b e found apart
  obtain ⟨no,d,read,later⟩ := foundBind found
  rcases alternativeCases read with ⟨rfl,rfl⟩ | ⟨_,before⟩
  · exact next d b e later apart
  · exact before

omit standing in
theorem heraldsComparator {words : List (String × Comparator)} (fresh : ∀ w ∈ words, isFresh w.1) {f : Comparator → Reader β}
    (next : Heralds (f .equal)) : Heralds (comparator words >>= f) := by
  induction words with
  | nil => exact fun c b d found apart => next c b d found apart
  | cons pair words ih =>
    obtain ⟨first,rest⟩ := List.forall_mem_cons.mp fresh
    intro c b e found apart
    cases consumed : c.consume? pair.1 with
    | some next => exact apartWord first consumed
    | none =>
      have missed : comparator (pair :: words) c = comparator words c := by
        simp [comparator,Bind.bind,Reader.bind,tryWord,consumed]
      refine ih rest c b e ?_ apart
      simp only [Bind.bind,Reader.bind,missed] at found ⊢
      exact found

theorem parentsConditional : Parents t .stmt nested.conditional c := by
  refine parentsHere fun start => laysThen (fun _ => movesWord _) fun _ => laysThen (fun _ => movesSpaces) fun _ => ?_
  refine laysBind (laysValue standing.toGrounded) (fun _ => heraldsSpaces (heraldsWord (by decide))) fun left => ?_
  refine laysThen (fun _ => movesSpaces) fun _ => laysThen (fun _ => movesWord _) fun _ =>
    laysThen (fun _ => movesSpaces) fun _ => ?_
  refine laysBind (laysValue standing.toGrounded)
    (fun _ => heraldsSpaces (heraldsComparator (by decide) (heraldsWord (by decide)))) fun right => ?_
  refine laysThen (fun _ => movesSpaces) fun _ => laysThen (fun _ => movesComparator _) fun cmp =>
    laysThen (fun _ => movesWord _) fun _ => laysThen (fun _ => movesPause) fun _ => ?_
  refine laysBind (laysBlock standing) (fun _ => heraldsAlternative heraldsStop) fun yes => ?_
  exact laysBind (laysAlternative standing) (fun _ => heraldsStop) fun no => laysStop fun stop => rfl

theorem parentsLoop : Parents t .stmt nested.loop c := by
  refine parentsHere fun start => laysBind (laysValue standing.toGrounded) (fun _ => heraldsSpaces (heraldsWord (by decide))) fun count => ?_
  refine laysThen (fun _ => movesSpaces) fun _ => laysThen (fun _ => movesWord _) fun _ =>
    laysThen (fun _ => movesSpaces) fun _ => laysThen (fun _ => movesOrElse (movesWord _) (movesWord _)) fun _ =>
      laysThen (fun _ => movesPause) fun _ => ?_
  exact laysBind (laysBlock standing) (fun _ => heraldsStop) fun body => laysStop fun stop => rfl

theorem parentsDoctest : Parents t .stmt nested.doctest c := by
  refine parentsHere fun start => laysThen (fun _ => movesWord _) fun _ => laysThen (fun _ => movesSpaces) fun _ => ?_
  refine laysBind (laysRequired standing.toGrounded _) (fun _ => heraldsStatementEnd) fun value => ?_
  refine laysThen (fun _ => movesStatementEnd) fun _ => laysThen (fun _ => movesSpaces) fun _ =>
    laysThen (fun _ => movesRequire _ (movesWord _)) fun _ => laysThen (fun _ => movesSpaces) fun _ => ?_
  exact laysBind (laysRequired standing.toGrounded _) (fun _ => heraldsStop) fun expected => laysStop fun stop => rfl

theorem parentsAnswer : Parents t .stmt nested.answer c := by
  refine parentsHere fun start => laysBind (laysValue standing.toGrounded) (fun _ => heraldsSpaces (heraldsWord (by decide))) fun value => ?_
  exact laysThen (fun _ => movesSpaces) fun _ => laysThen (fun _ => movesWord _) fun _ => laysStop fun stop => rfl

omit standing in
theorem parentsLeave : Parents t .stmt leave c :=
  parentsHere fun _ => laysThen (fun _ => movesOrElse (movesWord _) (movesWord _)) fun _ => laysStop fun _ => rfl

theorem parentsObserve : Parents t .stmt nested.observe c :=
  parentsHere fun _ => laysBind (laysValue standing.toGrounded) (fun _ => heraldsStop) fun _ => laysStop fun _ => rfl

def onto (nested : Phrases) (start : Nat) (place : Place) : Reader Stmt := do
  if ← tryWord "を増やす" then return .increment ⟨start,← here⟩ place
  if ← tryWord "を減らす" then return .decrement ⟨start,← here⟩ place
  if ← tryWord "の末尾に" then
    spaces
    let value ← require .expression nested.expression
    spaces
    require .appendEnding (word "を追加する")
    return .append ⟨start,← here⟩ place value
  if ← tryWord "=" then
    spaces
    let value ← require .expression nested.expression
    return .assign ⟨start,← here⟩ place value
  word "を"
  spaces
  let value ← nested.expression
  spaces
  word "とする"
  return .assign ⟨start,← here⟩ place value

omit standing in
theorem onTargetSplit : nested.onTarget =
    here >>= fun start => nested.target >>= fun place => spaces >>= fun _ => nested.onto start place := rfl

omit standing in
theorem rulesOnto (place : Place) : Rules (nested.onto start place) :=
  rulesTry (by decide) (rulesTry (by decide) (rulesTry (by decide) (rulesTry (by decide) (rulesWord (by decide)))))

theorem laysOnto (place : Place) :
    Lays t start [.expr (.var place)] (fun s => (Tree.stmt s).children) (nested.onto start place) := by
  refine laysIf (fun _ => movesTry _) (laysStop fun _ => rfl) <| laysIf (fun _ => movesTry _) (laysStop fun _ => rfl) <|
    laysIf (fun _ => movesTry _) ?_ <| laysIf (fun _ => movesTry _) ?_ ?_
  · refine laysThen (fun _ => movesSpaces) fun _ => laysBind (laysRequired standing.toGrounded _)
      (fun _ => heraldsSpaces (heraldsRequired (by decide) _)) fun value => ?_
    exact laysThen (fun _ => movesSpaces) fun _ => laysThen (fun _ => movesRequire _ (movesWord _)) fun _ =>
      laysStop fun _ => rfl
  · exact laysThen (fun _ => movesSpaces) fun _ => laysBind (laysRequired standing.toGrounded _)
      (fun _ => heraldsStop) fun value => laysStop fun _ => rfl
  · refine laysThen (fun _ => movesWord _) fun _ => laysThen (fun _ => movesSpaces) fun _ =>
      laysBind (laysValue standing.toGrounded) (fun _ => heraldsSpaces (heraldsWord (by decide))) fun value => ?_
    exact laysThen (fun _ => movesSpaces) fun _ => laysThen (fun _ => movesWord _) fun _ => laysStop fun _ => rfl

theorem parentsOnTarget {x} (missing : nested.loop c = .absent x) : Parents t .stmt nested.onTarget c := by
  intro s d from' found
  rw [onTargetSplit] at found
  obtain ⟨_,_,begun,found⟩ := foundBind found
  cases begun
  obtain ⟨place,e,read,found⟩ := foundBind found
  obtain ⟨_,_,skipped,found⟩ := foundBind found
  cases skipped
  obtain ⟨ahead,span,exact'⟩ := standing.target c place e x from' missing read (rulesOnto place _ s d found)
  have spaces := Cursor.aheadSpaces e
  have ahead' := Cursor.aheadTrans ahead spaces
  obtain ⟨further,row⟩ := laysOnto standing place e.skipSpaces s d (Cursor.aheadTrans from' ahead') found
  refine ⟨Cursor.aheadTrans ahead' further,fun apart => row apart ?_⟩
  have first : Tree.Row t c.pos (Tree.expr (.var place)).span.stop [.expr (.var place)] :=
    Tree.rowSnoc (Tree.rowNone t (Nat.le_refl c.pos)) (Nat.le_of_eq (congrArg Span.start span).symm) exact'
  have stop : (Tree.expr (.var place)).span.stop = e.pos := congrArg Span.stop span
  rw [stop] at first
  exact Tree.rowLater first (Cursor.aheadPos spaces)

theorem parentsOneStatement : Parents t .stmt nested.oneStatement c := by
  have chosen : Parents t .stmt
      (firstOf [nested.conditional,nested.loop,nested.doctest,nested.onTarget,nested.answer,leave,nested.observe]) c := by
    refine parentsOrElse (parentsConditional standing) fun _ _ => parentsOrElse (parentsLoop standing) fun _ missing =>
      parentsOrElse (parentsDoctest standing) fun _ _ => parentsOrElse (parentsOnTarget standing missing) fun _ _ =>
      parentsOrElse (parentsAnswer standing) fun _ _ => parentsOrElse parentsLeave fun _ _ =>
      parentsOrElse (parentsObserve standing) fun _ _ => ?_
    exact parentsNever fun _ _ found => by contradiction
  exact fun s d from' found => chosen s d from' (oneStatementFound found).1

/-! Expressions -/

omit standing in
theorem parentsInteger : Parents t .expr integer c := by
  refine parentsHere fun start => laysThen (fun _ => movesDigits) fun digits => laysThen (fun _ => movesPeek) fun next => ?_
  split
  · exact laysNever fun _ _ _ found => by contradiction
  · exact laysStop fun _ => rfl

omit standing in
theorem parentsQuotedText : Parents t .expr quotedText c := by
  refine parentsHere fun start => laysThen (fun _ => fun d _ => Cursor.aheadText d) fun quote => ?_
  split
  · exact laysNever fun _ _ _ found => by contradiction
  · refine laysThen (fun _ => movesOrElse (movesBind movesTextIndex fun _ => movesPure _) (movesPure _)) fun index => ?_
    cases index with
    | none => exact laysStop fun _ => rfl
    | some picked =>
      dsimp only
      split
      · exact laysStop fun _ => rfl
      · exact laysNever fun _ _ _ found => by contradiction

theorem parentsFunction : Parents t .expr nested.function c := by
  rw [functionSplit]
  refine parentsHere fun start => laysThen (fun _ => eatsHeader.1) fun ps => laysStill (checkedStill ps) fun _ =>
    laysThen (fun _ => movesTry _) fun _ => laysThen (fun _ => movesPause) fun _ => ?_
  exact laysBind (laysBlock standing) (fun _ => heraldsStop) fun body => laysStop fun _ => rfl

theorem parentsNamed : Parents t .expr nested.named c := by
  refine parentsHere fun start => laysThen (fun _ => eatsIdentifier.1) fun name => laysIf (fun _ => movesTry _) ?_ ?_
  · exact laysBind (laysItemsUpTo standing.toGrounded (by decide)) (fun _ => heraldsStop) fun args => laysStop fun _ => rfl
  · have indices : Lays t start [] (fun is => [] ++ is.map .expr) (fuelled nested.indices) :=
      fun c => laysIndices standing.toGrounded (c.rest.length + 1) c
    exact laysBind indices (fun _ => heraldsStop) fun is => laysStop fun _ => rfl

theorem parentsOnePrimary : Parents t .expr nested.onePrimary c := by
  intro e d from' found
  simp only [onePrimary,Bind.bind,Reader.bind,peek] at found
  split_ifs at found
  · exact parentsInteger e d from' found
  · exact parentsQuotedText e d from' found
  · refine parentsHere (fun start => laysThen (fun _ => movesAdvance) fun _ => laysThen (fun _ => movesSpaces) fun _ => ?_)
      e d from' found
    refine laysBind (laysRequired standing.toGrounded _) (fun _ => heraldsSpaces (heraldsRequired (by decide) _)) fun operand => ?_
    exact laysThen (fun _ => movesSpaces) fun _ => laysThen (fun _ => movesRequire _ (movesWord _)) fun _ =>
      laysStop fun _ => rfl
  · refine parentsHere (fun start => laysThen (fun _ => movesAdvance) fun _ => laysThen (fun _ => movesSpaces) fun _ => ?_)
      e d from' found
    exact laysBind (laysStands standing.primary) (fun _ => heraldsStop) fun operand => laysStop fun _ => rfl
  · refine parentsHere (fun start => laysThen (fun _ => movesAdvance) fun _ => ?_) e d from' found
    exact laysBind (laysItemsUpTo standing.toGrounded (by decide)) (fun _ => heraldsStop) fun es => laysStop fun _ => rfl
  · exact parentsHere (fun start => laysThen (fun _ => movesAdvance) fun _ => laysStop fun _ => rfl) e d from' found
  · exact parentsOrElse (parentsFunction standing) (fun _ _ => parentsNamed standing) e d from' found

end Standing

/-! Nodes that are read on their own -/

theorem expressionAlone {phrases : Phrases} {c : Cursor} {e : Expr} {stop : Nat} (found : phrases.primary c = .found e ⟨stop,[]⟩) :
    phrases.expression c = .found e ⟨stop,[]⟩ := by
  simp only [expression,guarded,Bind.bind,Reader.bind,found]
  rfl

variable {t : Text} {n : Nat}

theorem standsPrimary (parents : ∀ c, Parents t .expr (upTo n).primary c) : Stands t .expr (upTo n).primary := by
  intro c e d from' found
  obtain ⟨u,across,closed,_⟩ := ((shelteredUpTo n).primary 0 (Int.le_refl 0)).1 c e d found
  have span : (Tree.expr e).span = ⟨c.pos,d.pos⟩ := spannedPrimary n c e d found
  have shorter := ((sizedUpTo n).primary c).2 c (Cursor.aheadRefl c) e d found
  refine ⟨⟨u,across⟩,span,fun apart => ?_⟩
  have row := (parents c e d from' found).2 apart
  have tracked := trackedUpTo (Seam.slicing u d.rest c.pos apart) n (depthFor u.length)
  have again := Seam.sliced across closed tracked.primary (Seam.slicingKeeps apart c.pos) (by unfold depthFor; omega) found
  refine Tree.exactOver apart from' across shorter span row (fun _ none => by contradiction) ?_
  simp only [Tree.production,Bind.bind,Reader.bind,expressionAlone again]
  rfl

theorem standsStatement (parents : ∀ c, Parents t .stmt (upTo n).statement c) : Stands t .stmt (upTo n).statement := by
  intro c s d from' found
  obtain ⟨u,across,closed,_⟩ := ((shelteredUpTo n).statement 1 (Int.le_refl 1)).1 c s d found
  have span : (Tree.stmt s).span = ⟨c.pos,d.pos⟩ := spannedStatement n c s d found
  have shorter := ((sizedUpTo n).statement c).2 c (Cursor.aheadRefl c) s d found
  refine ⟨⟨u,across⟩,span,fun apart => ?_⟩
  have row := (parents c s d from' found).2 apart
  have tracked := trackedUpTo (Seam.slicing u d.rest c.pos apart) n (depthFor u.length)
  have on : ¬ (Seam.slicing u d.rest c.pos apart).adrift s d := by
    rintro (lost | ⟨_,hanging⟩)
    · exact Seam.slicingKeeps apart c.pos lost
    · exact hanging.1 (Seam.slicingQuiet d.rest apart c.pos)
  have again := Seam.sliced across closed tracked.statement on (by unfold depthFor; omega) found
  refine Tree.exactOver apart from' across shorter span row (fun _ none => by contradiction) ?_
  simp only [Tree.production,Bind.bind,Reader.bind,again]
  rfl

theorem tiledStatements {nested : Phrases} (grounded : nested.Grounded t) {offset : Nat} {c d : Cursor} {body : List Stmt}
    (from' : (Cursor.start t).Ahead c) (found : nested.statements offset n c = .found body d) :
    slice t (d.pos - 1) d.pos = ofString "\x7d" ∧ Tiled t Idle c.pos body (d.pos - 1) := by
  induction n generalizing c body with
  | zero => contradiction
  | succ n ih =>
    have step : nested.round offset (nested.statements offset n) c.skipBlank = .found body d := found
    have gap (some : c.skipBlank.rest ≠ []) : Idle (slice t c.pos c.skipBlank.pos) := by
      obtain ⟨v,before⟩ := from'
      obtain ⟨u,across,idle⟩ := idleBlank some
      rwa [Cursor.sliceOver before across]
    have blank := Cursor.aheadBlank c
    cases closed : c.skipBlank.consume? "\x7d" with
    | some e =>
      rw [roundClosed closed] at step
      cases step
      have across := Cursor.overWord closed
      obtain ⟨v,before⟩ := Cursor.aheadTrans from' blank
      have pos : d.pos - 1 = c.skipBlank.pos := by rw [across.pos]; rfl
      rw [pos]
      refine ⟨Cursor.sliceOver before across,Cursor.aheadPos blank,gap ?_⟩
      rw [across.rest]
      exact List.cons_ne_nil _ _
    | none =>
      cases ended : c.skipBlank.atEnd with
      | true =>
        rw [roundEnded closed ended] at step
        contradiction
      | false =>
        rw [roundGoing closed ended] at step
        obtain ⟨s,e,read,later⟩ := foundBind step
        obtain ⟨rest,f,reads,last⟩ := foundBind later
        cases last
        obtain ⟨ahead,span,_⟩ := grounded.statement c.skipBlank s e (Cursor.aheadTrans from' blank) read
        have start : s.span.start = c.skipBlank.pos := congrArg Span.start span
        have stop : s.span.stop = e.pos := congrArg Span.stop span
        obtain ⟨brace,tiled⟩ := ih (Cursor.aheadTrans from' (Cursor.aheadTrans blank ahead)) reads
        refine ⟨brace,?_,?_,?_⟩
        · rw [start]
          exact Cursor.aheadPos blank
        · rw [start]
          exact gap fun none => by simp [Cursor.atEnd,none] at ended
        · rwa [stop]

theorem bracedBlock {nested : Phrases} (grounded : nested.Grounded t) {c d : Cursor} {b : Block} (from' : (Cursor.start t).Ahead c)
    (found : nested.block c = .found b d) : Braced t b := by
  obtain ⟨_,_,begun,found⟩ := foundBind found
  cases begun
  obtain ⟨_,e,opened,found⟩ := foundBind found
  simp only [require] at opened
  split at opened
  · contradiction
  · obtain ⟨body,f,read,last⟩ := foundBind found
    cases last
    have across := Cursor.overWord (wordConsumed opened)
    have pos : e.pos = c.pos + 1 := across.pos
    obtain ⟨brace,tiled⟩ := tiledStatements grounded (Cursor.aheadTrans from' ⟨_,across⟩) read
    obtain ⟨v,before⟩ := from'
    rw [pos] at tiled
    refine ⟨?_,brace,tiled⟩
    have text := Cursor.sliceOver before across
    rwa [pos] at text

theorem standsBlock (grounded : (upTo n).Grounded t) : Stands t .block (upTo n).block := by
  intro c b d from' found
  obtain ⟨u,across,closed,_⟩ := (sheltersBlock (shelteredUpTo n) (Int.le_refl 0)).1 c b d found
  have span : (Tree.block b).span = ⟨c.pos,d.pos⟩ := spannedBlock c b d found
  have shorter := (eatsBlock (sizedUpTo n)).2 c (Cursor.aheadRefl c) b d found
  refine ⟨⟨u,across⟩,span,fun apart => ?_⟩
  have parents : Parents t .block (upTo n).block c := by
    refine parentsHere fun start => laysThen (fun _ => movesRequire _ (movesWord _)) fun _ => ?_
    have body : Lays t start [] (fun body => [] ++ body.map .stmt) (fuelled ((upTo n).statements start)) :=
      fun c => laysStatements grounded start (c.rest.length + 1) c
    exact laysBind body (fun _ => heraldsStop) fun body => laysStop fun _ => rfl
  have row := (parents b d from' found).2 apart
  have tracked := trackedUpTo (Seam.slicing u d.rest c.pos apart) n (depthFor u.length)
  have again := Seam.sliced across closed (tracksBlock tracked) (Seam.slicingKeeps apart c.pos) (by unfold depthFor; omega) found
  refine Tree.exactOver apart from' across shorter span row (fun b' same => ?_) ?_
  · cases same
    exact bracedBlock grounded from' found
  · simp only [Tree.production,Bind.bind,Reader.bind,again]
    rfl

theorem ruledApart {c} (ruled : Ruled c) : Apart c.rest := by
  refine apartSkip false c.pos ?_
  rintro g u rest
  obtain ⟨h,v,next,inside⟩ := ruled
  obtain ⟨rfl,_⟩ := List.cons.inj (next.symm.trans rest)
  exact outsideOf inside (by decide)

theorem namedAlone {phrases : Phrases} {c : Cursor} {place : Place} {stop : Nat} (found : phrases.target c = .found place ⟨stop,[]⟩) :
    phrases.named c = .found (.var place) ⟨stop,[]⟩ := by
  obtain ⟨_,_,begun,found⟩ := foundBind found
  cases begun
  obtain ⟨name,x,named,found⟩ := foundBind found
  obtain ⟨_,_,next,found⟩ := foundBind found
  cases next
  split at found
  · contradiction
  · rename_i uncalled
    obtain ⟨is,y,indexed,last⟩ := foundBind found
    cases last
    have closed : x.consume? "(" = none := by
      cases opened : x.consume? "(" with
      | none => rfl
      | some next =>
        obtain ⟨t,rest⟩ := Cursor.headConsumed rfl opened
        exact absurd (by rw [Cursor.peek,rest]; rfl) uncalled
    simp only [Phrases.named,Bind.bind,Reader.bind,here,named,tryWord,closed,Bool.false_eq_true,if_false,indexed]
    rfl

theorem standsTarget (grounded : (upTo n).Grounded t) {c d x : Cursor} {place : Place} (from' : (Cursor.start t).Ahead c)
    (missing : (upTo n).loop c = .absent x) (found : (upTo n).target c = .found place d) (ruled : Ruled d) :
    c.Ahead d ∧ place.span = ⟨c.pos,d.pos⟩ ∧ (Tree.expr (.var place)).All (Tree.Exact t) := by
  obtain ⟨u,across,closed,_⟩ := (sheltersTarget (shelteredUpTo n) (Int.le_refl 0)).1 c place d found
  have span : place.span = ⟨c.pos,d.pos⟩ := spannedTarget c place d found
  have apart : Apart d.rest := ruledApart ruled
  have shorter := (eatsTarget (sizedUpTo n) (Nat.le_refl _)).2 c (Cursor.aheadRefl c) place d found
  have parents : Parents t (fun place => .expr (.var place)) (upTo n).target c := by
    refine parentsHere fun start => laysThen (fun _ => eatsIdentifier.1) fun name => laysThen (fun _ => movesPeek) fun next => ?_
    split
    · exact laysNever fun _ _ _ found => by contradiction
    · have indices : Lays t start [] (fun is => [] ++ is.map .expr) (fuelled (upTo n).indices) :=
        fun c => laysIndices grounded (c.rest.length + 1) c
      exact laysBind indices (fun _ => heraldsStop) fun is => laysStop fun _ => rfl
  have row := (parents place d from' found).2 apart
  have tracked := trackedUpTo (Seam.slicing u d.rest c.pos apart) n (2 * u.length + 1)
  have again := Seam.sliced across closed (tracksTarget tracked (Nat.le_refl _)) (Seam.slicingKeeps apart c.pos) (by omega) found
  refine ⟨⟨u,across⟩,span,Tree.exactOver apart from' across shorter span row (fun _ none => by contradiction) ?_⟩
  obtain ⟨x',function⟩ := targetNoFunction (Seam.slicingStart apart across closed) rfl across missing found ruled
    (upTo (2 * u.length + 1))
  have primary : (upTo (depthFor u.length)).primary (.start u) =
      .found (.var (place.moved (Seam.slicing u d.rest c.pos apart).move)) ⟨Text.width u,[]⟩ := by
    have letter := (targetParts (trackedUpTo (Seam.slicing u d.rest c.pos apart) _ 0).forward again).1
    change (upTo (2 * u.length + 1)).onePrimary (.start u) = _
    rw [primaryNamed letter,orElse,function]
    exact namedAlone again
  simp only [Tree.production,Bind.bind,Reader.bind,expressionAlone primary]
  rfl

theorem standingUpTo (t : Text) (n : Nat) : (upTo n).Standing t := by
  have whole {n : Nat} (grounded : (upTo n).Grounded t) : (upTo n).Standing t :=
    ⟨grounded,standsBlock grounded,fun _ _ _ _ from' missing found ruled => standsTarget grounded from' missing found ruled⟩
  induction n with
  | zero =>
    refine whole ⟨standsPrimary fun _ => parentsNever ?_,standsStatement fun _ => parentsNever ?_,?_⟩
    · exact fun _ _ found => by contradiction
    · exact fun _ _ found => by contradiction
    · exact fun _ _ _ found => by contradiction
  | succ n ih =>
    exact whole ⟨standsPrimary fun _ => parentsOnePrimary ih,standsStatement fun _ => parentsOneStatement ih,
      fun c s d found => (oneStatementFound found).2⟩

end Phrases

/-- A program spans the whole text. Its statements stand in order, with blanks and comments around them, and
each of its nodes stands exactly where it is. -/
structure Program.Exact (t : Text) (p : Program) : Prop where
  whole : p.stop = Text.width t
  inside : ∀ s ∈ p.body, s.span.stop ≤ p.stop
  ordered : p.body.Pairwise fun x y => x.span.stop ≤ y.span.start
  tiled : Tiled t Trailing 0 p.body p.stop
  nodes : ∀ s ∈ p.body, (Tree.stmt s).All (Tree.Exact t)

namespace Parse

variable {t : Text} {phrases : Phrases} {c d : Cursor} {body : List Stmt}

theorem rowThrough (grounded : phrases.Grounded t) {start ks} (through : Through phrases c body d)
    (from' : (Cursor.start t).Ahead c) (row : Tree.Row t start c.pos ks) :
    (Cursor.start t).Ahead d ∧ Tree.Row t start d.pos (ks ++ body.map .stmt) := by
  induction through generalizing ks with
  | none c => exact ⟨from',by simpa using row⟩
  | @more c d e s body some found rest ih =>
    have blank := Cursor.aheadBlank c
    have here' := Cursor.aheadTrans from' blank
    obtain ⟨ahead,span,all⟩ := grounded.statement c.skipBlank s d here' found
    have exact' := all (apartEnd (grounded.ends c.skipBlank s d found))
    have after : c.pos ≤ (Tree.stmt s).span.start := by
      rw [span]
      exact Cursor.aheadPos blank
    have snoc := Tree.rowSnoc row after exact'
    rw [span] at snoc
    rw [List.map_cons,List.append_cons]
    exact ih (Cursor.aheadTrans here' ahead) snoc

theorem tiledThrough (grounded : phrases.Grounded t) (through : Through phrases c body d) (from' : (Cursor.start t).Ahead c)
    (ended : d.skipBlank.rest = []) : Tiled t Trailing c.pos body (Text.width t) := by
  induction through with
  | none c =>
    have blank := Cursor.aheadBlank c
    obtain ⟨u,across,trailing⟩ := trailingBlank c
    obtain ⟨w,whole⟩ := Cursor.aheadTrans from' blank
    have stop : c.skipBlank.pos = Text.width t := by
      have rest : t = w ++ c.skipBlank.rest := whole.rest
      rw [ended,List.append_nil] at rest
      rw [whole.pos,rest]
      exact Nat.zero_add _
    obtain ⟨v,before⟩ := from'
    refine ⟨stop ▸ Cursor.aheadPos blank,?_⟩
    rwa [← stop,Cursor.sliceOver before across]
  | @more c d e s body some found rest ih =>
    have blank := Cursor.aheadBlank c
    have here' := Cursor.aheadTrans from' blank
    obtain ⟨ahead,span,_⟩ := grounded.statement c.skipBlank s d here' found
    have start : s.span.start = c.skipBlank.pos := congrArg Span.start span
    have stop : s.span.stop = d.pos := congrArg Span.stop span
    have gap : Idle (slice t c.pos c.skipBlank.pos) := by
      obtain ⟨v,before⟩ := from'
      obtain ⟨u,across,idle⟩ := idleBlank some
      rwa [Cursor.sliceOver before across]
    refine ⟨?_,?_,?_⟩
    · rw [start]
      exact Cursor.aheadPos blank
    · rwa [start]
    · rw [stop]
      exact ih (Cursor.aheadTrans here' ahead) ended

theorem positionsAreExact (t : Text) (faultless : (ofNormal false t).errors = []) : (ofNormal false t).program.Exact t := by
  obtain ⟨d,through,ended⟩ := readThrough faultless
  have grounded := (Phrases.standingUpTo t (Phrases.depthFor t.length)).toGrounded
  have start : (Cursor.start t).Ahead (.start t) := Cursor.aheadRefl _
  obtain ⟨ahead,row⟩ := rowThrough grounded through start (Tree.rowNone t (Nat.le_refl 0))
  have whole : (ofNormal false t).program.stop = Text.width t := by rw [throughRead through ended]
  rw [List.nil_append] at row
  have each (s : Stmt) (inside : s ∈ (ofNormal false t).program.body) := row.each (.stmt s) (List.mem_map_of_mem inside)
  refine ⟨whole,fun s inside => ?_,List.pairwise_map.mp row.ordered,?_,fun s inside => (each s inside).2.2⟩
  · rw [whole]
    exact Nat.le_trans (each s inside).2.1 (Cursor.aheadWidth ahead)
  · rw [whole]
    exact tiledThrough grounded through start ended

def annotated : Text :=
  ofString ("入力 を 入力 x に対し \x7b -x が答え \x7d とする # 関数\nもし |入力| が 3 以上 ならば、\x7b\n" ++
    "  入力[0] を増やす # 一\n\x7d\nそうでなければ \x7b # なし\n\x7d\n# 終")

theorem annotatedPositionsAreExact : (ofNormal false annotated).program.body.length = 2 ∧
    (ofNormal false annotated).program.Exact annotated := by
  have length : (ofNormal false annotated).program.body.length = 2 := by decide +kernel
  have faultless : (ofNormal false annotated).errors = [] := by decide +kernel
  exact ⟨length,positionsAreExact annotated faultless⟩

end Parse

end Terakoya
