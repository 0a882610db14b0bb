import Terakoya.Proofs.Passage

/-! The span of a phrase goes from where reading it began to where it ended. -/
namespace Terakoya

variable {α β : Type}

namespace Reader

variable {span : β → Span} {start : Nat} {r : Reader α} {f : α → Reader β}

def Closes (span : β → Span) (start : Nat) (r : Reader β) : Prop :=
  ∀ c b d, r c = .found b d → span b = ⟨start,d.pos⟩

def Spanned (span : β → Span) (r : Reader β) : Prop :=
  ∀ c b d, r c = .found b d → span b = ⟨c.pos,d.pos⟩

theorem closesBind (next : ∀ a, Closes span start (f a)) : Closes span start (r >>= f) := by
  intro c b e found
  obtain ⟨a,d,_,after⟩ := foundBind found
  exact next a d b e after

theorem closesIf {asks : Reader Bool} {r s} (yes : Closes span start r) (no : Closes span start s) :
    Closes span start (asks >>= fun there => if there then r else s) := by
  refine closesBind fun there => ?_
  cases there with
  | true => exact yes
  | false => exact no

theorem closesHere {node : Nat → β} (same : ∀ stop, span (node stop) = ⟨start,stop⟩) :
    Closes span start (do return node (← here)) := by
  intro c b d found
  cases found
  exact same _

theorem closesNever {r} (never : ∀ c b d, r c ≠ .found b d) : Closes span start r :=
  fun c b d found => absurd found (never c b d)

theorem spannedHere {f : Nat → Reader β} (next : ∀ start, Closes span start (f start)) :
    Spanned span (here >>= f) := fun c b d found => next c.pos c b d found

theorem spannedOrElse {r s} (first : Spanned span r) (second : Spanned span s) : Spanned span (orElse r s) := by
  intro c b d found
  simp only [orElse] at found
  split at found
  · exact second c b d found
  · exact first c b d found

end Reader

namespace Phrases

open Reader

variable {nested : Phrases}

theorem spannedBlock : Spanned Block.span nested.block :=
  spannedHere fun _ => closesBind fun _ => closesBind fun _ => closesHere fun _ => rfl

/-! Expressions -/

theorem spannedInteger : Spanned Expr.span integer := by
  refine spannedHere fun start => closesBind fun digits => closesBind fun next => ?_
  split
  · exact closesNever fun _ _ _ found => by contradiction
  · exact closesHere fun _ => rfl

theorem spannedQuotedText : Spanned Expr.span quotedText := by
  refine spannedHere fun start => closesBind fun quote => ?_
  split
  · exact closesNever fun _ _ _ found => by contradiction
  · refine closesBind fun index => ?_
    cases index with
    | none => exact closesHere fun _ => rfl
    | some picked =>
      dsimp only
      split
      · exact closesHere fun _ => rfl
      · exact closesNever fun _ _ _ found => by contradiction

theorem spannedFunction : Spanned Expr.span nested.function := by
  rw [functionSplit]
  exact spannedHere fun _ => closesBind fun _ => closesBind fun _ => closesBind fun _ => closesBind fun _ =>
    closesBind fun _ => closesHere fun _ => rfl

theorem spannedNamed : Spanned Expr.span nested.named := by
  refine spannedHere fun start => closesBind fun name => closesIf ?_ ?_
  · exact closesBind fun _ => closesHere fun _ => rfl
  · exact closesBind fun _ => closesHere fun _ => rfl

theorem spannedOnePrimary : Spanned Expr.span nested.onePrimary := by
  intro c e d found
  simp only [onePrimary,Bind.bind,Reader.bind,peek] at found
  split_ifs at found
  · exact spannedInteger c e d found
  · exact spannedQuotedText c e d found
  · revert found
    exact (spannedHere fun _ => closesBind fun _ => closesBind fun _ => closesBind fun _ =>
      closesBind fun _ => closesBind fun _ => closesHere fun _ => rfl) c e d
  · revert found
    exact (spannedHere fun _ => closesBind fun _ => closesBind fun _ => closesBind fun _ =>
      closesHere fun _ => rfl) c e d
  · revert found
    exact (spannedHere fun _ => closesBind fun _ => closesBind fun _ => closesHere fun _ => rfl) c e d
  · revert found
    exact (spannedHere fun _ => closesBind fun _ => closesHere fun _ => rfl) c e d
  · exact spannedOrElse spannedFunction spannedNamed c e d found

theorem spannedPrimary (n : Nat) : Spanned Expr.span (upTo n).primary := by
  cases n with
  | zero => exact fun _ _ _ found => by contradiction
  | succ n => exact spannedOnePrimary

/-! Statements -/

theorem spannedTarget : Spanned Place.span nested.target := by
  refine spannedHere fun start => closesBind fun name => closesBind fun next => ?_
  split
  · exact closesNever fun _ _ _ found => by contradiction
  · exact closesBind fun _ => closesHere fun _ => rfl

theorem spannedConditional : Spanned Stmt.span nested.conditional :=
  spannedHere fun _ => closesBind fun _ => closesBind fun _ => closesBind fun _ => closesBind fun _ =>
    closesBind fun _ => closesBind fun _ => closesBind fun _ => closesBind fun _ => closesBind fun _ =>
    closesBind fun _ => closesBind fun _ => closesBind fun _ => closesBind fun _ => closesHere fun _ => rfl

theorem spannedLoop : Spanned Stmt.span nested.loop :=
  spannedHere fun _ => closesBind fun _ => closesBind fun _ => closesBind fun _ => closesBind fun _ =>
    closesBind fun _ => closesBind fun _ => closesBind fun _ => closesHere fun _ => rfl

theorem spannedDoctest : Spanned Stmt.span nested.doctest :=
  spannedHere fun _ => closesBind fun _ => closesBind fun _ => closesBind fun _ => closesBind fun _ =>
    closesBind fun _ => closesBind fun _ => closesBind fun _ => closesBind fun _ => closesHere fun _ => rfl

theorem spannedOnTarget : Spanned Stmt.span nested.onTarget := by
  refine spannedHere fun start => closesBind fun t => closesBind fun _ => closesIf (closesHere fun _ => rfl) <|
    closesIf (closesHere fun _ => rfl) <| closesIf ?_ <| closesIf ?_ ?_
  · exact closesBind fun _ => closesBind fun _ => closesBind fun _ => closesBind fun _ => closesHere fun _ => rfl
  · exact closesBind fun _ => closesBind fun _ => closesHere fun _ => rfl
  · exact closesBind fun _ => closesBind fun _ => closesBind fun _ => closesBind fun _ =>
      closesBind fun _ => closesHere fun _ => rfl

theorem spannedAlternatives : Spanned Stmt.span (firstOf [nested.conditional,nested.loop,nested.doctest,
    nested.onTarget,nested.answer,leave,nested.observe]) := by
  refine spannedOrElse spannedConditional (spannedOrElse spannedLoop (spannedOrElse spannedDoctest
    (spannedOrElse spannedOnTarget (spannedOrElse ?_ (spannedOrElse ?_ (spannedOrElse ?_ ?_))))))
  · exact spannedHere fun _ => closesBind fun _ => closesBind fun _ => closesBind fun _ => closesHere fun _ => rfl
  · exact spannedHere fun _ => closesBind fun _ => closesHere fun _ => rfl
  · exact spannedHere fun _ => closesBind fun _ => closesHere fun _ => rfl
  · exact fun _ _ _ found => by contradiction

theorem spannedOneStatement : Spanned Stmt.span nested.oneStatement := by
  intro c s d found
  obtain ⟨start,c₁,first,found⟩ := foundBind found
  cases first
  obtain ⟨s',c₂,chosen,found⟩ := foundBind found
  obtain ⟨_,c₃,ended,last⟩ := foundBind found
  cases last
  simp only [statementEnd] at ended
  split at ended
  · cases ended
    exact spannedOrElse spannedAlternatives (fun _ _ _ found => by contradiction) c s d chosen
  · contradiction

theorem spannedStatement (n : Nat) : Spanned Stmt.span (upTo n).statement := by
  cases n with
  | zero => exact fun _ _ _ found => by contradiction
  | succ n => exact spannedOneStatement

end Phrases

end Terakoya
