import Terakoya.Proofs.Spans

/-! Reading on behind a fault against stopping at the first one. What a reading comes upon is kept in
order as a log of statements and faults. Reading on gives the statements and the faults of the log;
stopping gives the log up to the first fault. Behind a fault the log goes on with a later line, since
a fault lies ahead of where its statement began and the rest of its line is skipped. -/
namespace Terakoya

namespace Location

theorem cutOver (u t : Text) : cut (Text.width u) (u ++ t) = (u,0,t) := by
  induction u with
  | nil =>
    cases t with
    | nil => rfl
    | cons g t => simp [cut,Text.width,Nat.not_le.mpr g.widthPos]
  | cons g u ih => simp [cut,Text.width,ih]

theorem lineOver {source u d} (across : (Cursor.start source).Over u d) :
    (ofOffset source d.pos).line = u.count .newline + 1 := by
  have text : source = u ++ d.rest := across.rest
  have pos : d.pos = Text.width u := by simpa [Cursor.start] using across.pos
  have inside : min (d.pos : Int).toNat (Text.width source) = Text.width u := by
    rw [text,Text.widthAppend]
    omega
  simp only [ofOffset,inside]
  rw [text,cutOver]

theorem lineAhead {source c d} (from' : (Cursor.start source).Ahead c) (ahead : c.Ahead d) :
    (ofOffset source c.pos).line ≤ (ofOffset source d.pos).line := by
  obtain ⟨u,across⟩ := from'
  obtain ⟨v,across'⟩ := ahead
  rw [lineOver across,lineOver (Cursor.overTrans across across'),List.count_append]
  omega

end Location

namespace Cursor

theorem skipLineOver (pos : Nat) (u t : Text) :
    skipLineFrom (Text.width u) pos (u ++ t) = skipLineFrom 0 (pos + Text.width u) t := by
  induction u generalizing pos with
  | nil => rfl
  | cons g u ih =>
    have wide := g.widthPos
    have within : ¬ (g.width + Text.width u = 0 ∧ g.is '\n') := fun h => by omega
    simp only [List.cons_append,Text.width,skipLineFrom,if_neg within,Nat.add_sub_cancel_left,ih,Nat.add_assoc]

theorem overSkipLine (pos : Nat) (t : Text) :
    ∃ v, Over ⟨pos,t⟩ v (skipLineFrom 0 pos t) ∧ ((skipLineFrom 0 pos t).rest = [] ∨ .newline ∈ v) ∧
      (t ≠ [] → v ≠ []) := by
  induction t generalizing pos with
  | nil => exact ⟨[],overNone _,Or.inl rfl,id⟩
  | cons g t ih =>
    by_cases newline : g.is '\n'
    · refine ⟨[g],?_,Or.inr ?_,fun _ => List.cons_ne_nil _ _⟩
      · simpa [skipLineFrom,newline] using overGlyph pos g t
      · exact List.mem_singleton.mpr (Glyph.isNewline newline).symm
    · obtain ⟨v,across,ended,_⟩ := ih (pos + g.width)
      simp only [skipLineFrom,newline,Nat.zero_sub]
      exact ⟨g :: v,overTrans (overGlyph pos g t) across,ended.imp_right (List.mem_cons_of_mem g),
        fun _ => List.cons_ne_nil _ _⟩

theorem overLineAfter {source d} (from' : (start source).Ahead d) :
    ∃ v, d.Over v (lineAfter source d.pos) ∧ ((lineAfter source d.pos).rest = [] ∨ .newline ∈ v) ∧
      (d.rest ≠ [] → v ≠ []) := by
  obtain ⟨u,across⟩ := from'
  have text : source = u ++ d.rest := across.rest
  have pos : d.pos = Text.width u := by simpa [start] using across.pos
  have after : lineAfter source d.pos = skipLineFrom 0 d.pos d.rest := by
    unfold lineAfter
    rw [text,Int.toNat_natCast,pos,skipLineOver,Nat.zero_add]
  rw [after]
  exact overSkipLine d.pos d.rest

end Cursor

inductive Event where
  | statement (s : Stmt)
  | fault (e : SyntaxError)

namespace Event

def statement? : Event → Option Stmt
  | statement s => some s
  | fault _ => none

def fault? : Event → Option SyntaxError
  | statement _ => none
  | fault e => some e

def isStatement : Event → Bool
  | statement _ => true
  | fault _ => false

def line (source : Text) : Event → Nat
  | statement s => (Location.ofOffset source s.span.start).line
  | fault e => (Location.ofOffset source e.offset).line

end Event

namespace Parse

open Event Phrases

def events (phrases : Phrases) (source : Text) : Nat → Cursor → List Event
  | 0, _ => []
  | n + 1, c =>
    let c := c.skipBlank
    if c.atEnd then []
    else
      match phrases.statement c with
      | .found s next => .statement s :: events phrases source n next
      | .refused e => .fault e :: events phrases source n (Cursor.lineAfter source e.offset)
      | .absent _ => []
      | .unfinished => []

def log (t : Text) : List Event :=
  events (upTo (depthFor t.length)) t (t.length + 1) (.start t)

section Views

variable (phrases : Phrases) (source : Text)

theorem recoveringView (n : Nat) (c : Cursor) :
    (run phrases true source n c).body = (events phrases source n c).filterMap statement? ∧
      (run phrases true source n c).errors = (events phrases source n c).filterMap fault? := by
  induction n generalizing c with
  | zero => exact ⟨rfl,rfl⟩
  | succ n ih =>
    unfold run events
    dsimp only
    split
    · exact ⟨rfl,rfl⟩
    · cases phrases.statement c.skipBlank with
      | found s next => simp [List.filterMap_cons,statement?,fault?,ih next]
      | refused e => simp [List.filterMap_cons,statement?,fault?,ih (Cursor.lineAfter source e.offset)]
      | absent d => exact ⟨rfl,rfl⟩
      | unfinished => exact ⟨rfl,rfl⟩

theorem strictView (n : Nat) (c : Cursor) :
    (run phrases false source n c).body =
        ((events phrases source n c).takeWhile isStatement).filterMap statement? ∧
      (run phrases false source n c).errors = ((events phrases source n c).filterMap fault?).take 1 := by
  induction n generalizing c with
  | zero => exact ⟨rfl,rfl⟩
  | succ n ih =>
    unfold run events
    dsimp only
    split
    · exact ⟨rfl,rfl⟩
    · cases phrases.statement c.skipBlank with
      | found s next => simp [List.filterMap_cons,List.takeWhile_cons,statement?,fault?,isStatement,ih next]
      | refused e => simp [fault?,isStatement]
      | absent d => exact ⟨rfl,rfl⟩
      | unfinished => exact ⟨rfl,rfl⟩

theorem faultlessRun (n : Nat) (c : Cursor) (none : (run phrases true source n c).errors = []) :
    run phrases true source n c = run phrases false source n c := by
  induction n generalizing c with
  | zero => rfl
  | succ n ih =>
    unfold run at none ⊢
    dsimp only at none ⊢
    split
    · rfl
    · rename_i more
      rw [if_neg more] at none
      cases result : phrases.statement c.skipBlank with
      | found s next =>
        rw [result] at none
        simp only [ih next none]
      | refused e =>
        rw [result] at none
        simp at none
      | absent d => rfl
      | unfinished => rfl

end Views

def Complete (source : Text) (phrases : Phrases) : Prop :=
  ∀ base, Reader.Eats base (source.length + 1) phrases.statement

theorem completeDepth (source : Text) : Complete source (upTo (depthFor source.length)) :=
  fun base => (sizedDepth source.length).statement base

section Run

variable {source : Text} {phrases : Phrases} (complete : Complete source phrases) {c : Cursor}

include complete

theorem leftBehind (from' : (Cursor.start source).Ahead c) (more : c.rest ≠ []) :
    match phrases.statement c with
    | .found _ d => c.Ahead d ∧ d.rest.length < c.rest.length
    | .refused e => ∃ d, c.Ahead d ∧ e.offset = d.pos ∧ d.Ahead (Cursor.lineAfter source e.offset) ∧
        (Cursor.lineAfter source e.offset).rest.length < c.rest.length ∧
        ((Cursor.lineAfter source e.offset).rest = [] ∨ (Location.ofOffset source e.offset).line <
          (Location.ofOffset source (Cursor.lineAfter source e.offset).pos).line)
    | .absent _ => True
    | .unfinished => False := by
  obtain ⟨moves,shorter⟩ := complete c
  have outcome := moves c (Cursor.aheadRefl c)
  have bound : c.rest.length ≤ source.length := Cursor.aheadLength from'
  cases result : phrases.statement c with
  | found s d =>
    rw [result] at outcome
    exact ⟨outcome,shorter c (Cursor.aheadRefl c) s d result⟩
  | refused e =>
    rw [result] at outcome
    obtain ⟨d,ahead,same⟩ := outcome
    have fromStart := Cursor.aheadTrans from' ahead
    obtain ⟨v,across,ended,some⟩ := Cursor.overLineAfter fromStart
    refine ⟨d,ahead,same,?_⟩
    rw [same]
    refine ⟨⟨v,across⟩,?_,ended.imp_right fun newline => ?_⟩
    · have atMost := Cursor.aheadLength ahead
      by_cases last : d.rest = []
      · have none : (Cursor.lineAfter source d.pos).rest.length ≤ d.rest.length := Cursor.aheadLength ⟨v,across⟩
        rw [last,List.length_nil] at none
        have long := List.length_pos_iff.mpr more
        omega
      · have long := List.length_pos_iff.mpr (some last)
        rw [across.rest,List.length_append] at atMost
        omega
    · obtain ⟨u,across'⟩ := fromStart
      have counted := List.count_pos_iff.mpr newline
      rw [Location.lineOver across',Location.lineOver (Cursor.overTrans across' across),List.count_append]
      omega
  | absent d => trivial
  | unfinished =>
    rw [result] at outcome
    exact absurd (show source.length + 1 ≤ c.rest.length from outcome) (by omega)

theorem runFinished (recover : Bool) (n : Nat) (from' : (Cursor.start source).Ahead c)
    (rounds : c.rest.length < n) : (run phrases recover source n c).finished := by
  induction n generalizing c with
  | zero => omega
  | succ n ih =>
    have ahead := Cursor.aheadTrans from' (Cursor.aheadBlank c)
    have atMost := Cursor.aheadLength (Cursor.aheadBlank c)
    unfold run
    dsimp only
    split
    · rfl
    · rename_i more
      have some : c.skipBlank.rest ≠ [] := by simpa [Cursor.atEnd] using more
      have left := leftBehind complete ahead some
      cases result : phrases.statement c.skipBlank with
      | found s next =>
        rw [result] at left
        exact ih (Cursor.aheadTrans ahead left.1) (by omega)
      | refused e =>
        rw [result] at left
        obtain ⟨d,reach,_,after,shorter,_⟩ := left
        cases recover with
        | true => exact ih (Cursor.aheadTrans ahead (Cursor.aheadTrans reach after)) (by omega)
        | false => rfl
      | absent d => rfl
      | unfinished =>
        rw [result] at left
        exact left.elim

theorem eventsFrom (spanned : Reader.Spanned Stmt.span phrases.statement) (n : Nat)
    (from' : (Cursor.start source).Ahead c) :
    ∀ x ∈ events phrases source n c, (Location.ofOffset source c.pos).line ≤ x.line source := by
  induction n generalizing c with
  | zero => exact fun x inside => absurd inside List.not_mem_nil
  | succ n ih =>
    have ahead := Cursor.aheadTrans from' (Cursor.aheadBlank c)
    unfold events
    dsimp only
    split
    · exact fun x inside => absurd inside List.not_mem_nil
    · rename_i more
      have some : c.skipBlank.rest ≠ [] := by simpa [Cursor.atEnd] using more
      have left := leftBehind complete ahead some
      have before := Location.lineAhead from' (Cursor.aheadBlank c)
      cases result : phrases.statement c.skipBlank with
      | found s next =>
        rw [result] at left
        refine List.forall_mem_cons.mpr ⟨?_,fun x inside => ?_⟩
        · simpa only [Event.line,spanned _ s next result] using before
        · have later := ih (Cursor.aheadTrans ahead left.1) x inside
          exact Nat.le_trans before (Nat.le_trans (Location.lineAhead ahead left.1) later)
      | refused e =>
        rw [result] at left
        obtain ⟨d,reach,same,after,_⟩ := left
        have fault := Nat.le_trans before (Location.lineAhead ahead reach)
        refine List.forall_mem_cons.mpr ⟨?_,fun x inside => ?_⟩
        · simpa only [Event.line,same] using fault
        · have later := ih (Cursor.aheadTrans ahead (Cursor.aheadTrans reach after)) x inside
          exact Nat.le_trans fault (Nat.le_trans (Location.lineAhead (Cursor.aheadTrans ahead reach) after) later)
      | absent d => exact fun x inside => absurd inside List.not_mem_nil
      | unfinished => exact fun x inside => absurd inside List.not_mem_nil

theorem eventsBehindFaults (spanned : Reader.Spanned Stmt.span phrases.statement) (n : Nat)
    (from' : (Cursor.start source).Ahead c) : (events phrases source n c).Pairwise fun x y =>
      x.isStatement = false → x.line source < y.line source := by
  induction n generalizing c with
  | zero => exact List.Pairwise.nil
  | succ n ih =>
    have ahead := Cursor.aheadTrans from' (Cursor.aheadBlank c)
    unfold events
    dsimp only
    split
    · exact List.Pairwise.nil
    · rename_i more
      have some : c.skipBlank.rest ≠ [] := by simpa [Cursor.atEnd] using more
      have left := leftBehind complete ahead some
      cases result : phrases.statement c.skipBlank with
      | found s next =>
        rw [result] at left
        exact List.Pairwise.cons (fun y _ fault => by contradiction) (ih (Cursor.aheadTrans ahead left.1))
      | refused e =>
        rw [result] at left
        obtain ⟨d,reach,same,after,_,ended⟩ := left
        have onward := Cursor.aheadTrans ahead (Cursor.aheadTrans reach after)
        refine List.Pairwise.cons (fun y inside _ => ?_) (ih onward)
        rcases ended with none | later
        · have nothing : events phrases source n (Cursor.lineAfter source e.offset) = [] := by
            cases n with
            | zero => rfl
            | succ n => simp [events,Cursor.skipBlank,none,Cursor.skipFrom,Cursor.atEnd]
          rw [nothing] at inside
          exact absurd inside List.not_mem_nil
        · exact Nat.lt_of_lt_of_le later (eventsFrom complete spanned n onward y inside)
      | absent d => exact List.Pairwise.nil
      | unfinished => exact List.Pairwise.nil

end Run

theorem faultLines {source} {events : List Event}
    (behind : events.Pairwise fun x y => x.isStatement = false → x.line source < y.line source) :
    (events.filterMap fault?).Pairwise fun e f =>
      (Location.ofOffset source e.offset).line < (Location.ofOffset source f.offset).line := by
  refine List.pairwise_filterMap.mpr (behind.imp ?_)
  rintro (_ | e) (_ | f) later e' ⟨⟩ f' ⟨⟩
  exact later rfl

theorem ofNormalFinished (recover : Bool) (source : Text) : (ofNormal recover source).finished :=
  runFinished (completeDepth source) recover _ (Cursor.aheadRefl _) (Nat.lt_succ_self _)

theorem logBehindFaults (source : Text) : (log source).Pairwise fun x y =>
    x.isStatement = false → x.line source < y.line source :=
  eventsBehindFaults (completeDepth source) (spannedStatement _) _ (Cursor.aheadRefl _)

theorem faultlessAgrees {source} (none : (ofNormal true source).errors = []) :
    ofNormal true source = ofNormal false source := by
  unfold ofNormal at none ⊢
  dsimp only at none ⊢
  rw [faultlessRun _ _ _ _ none]

theorem strictErrors (source : Text) :
    (ofNormal false source).errors = (ofNormal true source).errors.take 1 := by
  have view := (recoveringView (upTo (depthFor source.length)) source (source.length + 1) (.start source)).2
  refine (strictView _ _ _ _).2.trans ?_
  rw [← view]
  rfl

/- Reading on and stopping agree up to the first fault, and reading on comes upon at most one fault on
a line, with nothing accepted on the rest of it. -/
theorem recoveringAgrees (t : Text) :
    (strict t).finished ∧ (recovering t).finished ∧
    ((recovering t).errors = [] ↔ (strict t).errors = []) ∧
    ((strict t).errors = [] → recovering t = strict t) ∧
    (strict t).errors = (recovering t).errors.take 1 ∧
    (recovering t).program.body = (log (Text.normalize t)).filterMap statement? ∧
    (recovering t).errors = (log (Text.normalize t)).filterMap fault? ∧
    (strict t).program.body = ((log (Text.normalize t)).takeWhile isStatement).filterMap statement? ∧
    ((recovering t).errors.Pairwise fun e f => (Location.ofOffset (Text.normalize t) e.offset).line <
      (Location.ofOffset (Text.normalize t) f.offset).line) ∧
    (log (Text.normalize t)).Pairwise fun x y => x.isStatement = false →
      x.line (Text.normalize t) < y.line (Text.normalize t) := by
  have first : (strict t).errors = (recovering t).errors.take 1 := strictErrors _
  have none : (recovering t).errors = [] ↔ (strict t).errors = [] := by
    rw [first]
    simp
  have errors : (recovering t).errors = (log (Text.normalize t)).filterMap fault? := (recoveringView _ _ _ _).2
  have lines := faultLines (logBehindFaults (Text.normalize t))
  rw [← errors] at lines
  exact ⟨ofNormalFinished false _,ofNormalFinished true _,none,fun faultless => faultlessAgrees (none.mpr faultless),
    first,(recoveringView _ _ _ _).1,errors,(strictView _ _ _ _).1,lines,logBehindFaults _⟩

end Parse

end Terakoya
