import Terakoya.Proofs.BracedPages
import Terakoya.Proofs.Indentation

/-! Programs as they are written in either dialect: whatever margin they have, it stands in front of each line, and it
changes nothing else; and their brackets match. -/
namespace Terakoya

namespace Emit

open Brackets

namespace Indented

section Rows

variable {n : Nat} {ls : List Line}

def rows (n : Nat) (ls : List Line) : List Char := ls.flatMap fun l => (renderLine n l).toList

theorem rowShape (n : Nat) (l : Line) (y : List Char) : (renderLine n l).toList ++ y =
    List.replicate (4 * n) ' ' ++ ((List.replicate (4 * l.level) ' ' ++ l.text.toList) ++ '\n' :: y) := by
  have newline : "\n".toList = ['\n'] := by decide +kernel
  simp only [renderLine,indentation,String.toList_append,String.toList_ofList,newline,Nat.mul_add,List.replicate_add,
    List.append_assoc,List.singleton_append]

theorem flushLine {l : Line} (flush : isFlush l.text.toList) :
    List.replicate (4 * l.level) ' ' ++ l.text.toList ≠ [] ∧ '\n' ∉ List.replicate (4 * l.level) ' ' ++ l.text.toList := by
  obtain ⟨inline,begins⟩ := Bool.and_eq_true_iff.mp flush
  refine ⟨fun none => ?_,fun there => ?_⟩
  · rw [(List.append_eq_nil_iff.mp none).2] at begins
    contradiction
  · rcases List.mem_append.mp there with there | there
    · exact absurd (List.eq_of_mem_replicate there) (by decide)
    · have other := List.all_eq_true.mp inline _ there
      simp at other

theorem rowsMatched (n : Nat) (proper : ∀ l ∈ ls, Proper l) : Matched (rows n ls) := by
  induction ls with
  | nil => rfl
  | cons l ls ih =>
    obtain ⟨first,rest⟩ := List.forall_mem_cons.mp proper
    have row : Matched (renderLine n l).toList := by
      rw [renderLine,String.toList_append,String.toList_append]
      exact matchedAppend (matchedReads (readsAppend (readsIndentation _) first.reads)) (by decide +kernel)
    exact matchedAppend row (ih rest)

theorem emitRows (n : Nat) (body : List Stmt) : (emit n body).toList =
    (if (sheet body).usesRandom then header n body else "").toList ++ rows n (sheet body).lines.toList := by
  rw [emit,String.toList_append,String.toList_join,List.flatMap_map]
  rfl

theorem headerMatched (n : Nat) (body : List Stmt) : Matched (header n body).toList := by
  rw [header,String.toList_append,String.toList_append]
  refine matchedAppend (matchedAppend (matchedReads (readsIndentation n)) (by decide +kernel)) ?_
  cases body.isEmpty <;> decide +kernel

end Rows

end Indented

end Emit

open Emit

/- Whatever is quoted in a program, the brackets around it match, and each literal ends on the line that it begins on. -/
theorem Dialect.writtenBracketsMatch (d : Dialect) (recover : Bool) (source : Text) (n : Nat) :
    Brackets.Matched (d.emit n (Parse.ofNormal recover source).program.body).toList := by
  have wordy := Parse.namesWordy recover source
  cases d with
  | braced =>
    have matched := Braced.takesScan (Braced.takesStmts 0 0 _ wordy) n []
    rwa [← Braced.renderInked] at matched
  | indented =>
    rw [emit,Indented.emitRows]
    refine Brackets.matchedAppend ?_ (Indented.rowsMatched n fun l there => (Indented.sheetLines wordy l there).1)
    split
    · exact Indented.headerMatched n _
    · rfl

end Terakoya
