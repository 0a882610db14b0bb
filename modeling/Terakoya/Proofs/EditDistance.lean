import Mathlib.Order.Bounds.Basic
import Mathlib.Order.MinMax
import Terakoya.Diagnostic.Closest

/-! How many characters have to be inserted, deleted or replaced to turn a text into another one. Rows of
distances between beginnings of both texts lead to the least number of such edits. -/
namespace Terakoya.Closest

inductive Edit : List Char → List Char → Prop where
  | insert (u v) (c : Char) : Edit (u ++ v) (u ++ c :: v)
  | delete (u v) (c : Char) : Edit (u ++ c :: v) (u ++ v)
  | replace (u v) (c d : Char) : Edit (u ++ c :: v) (u ++ d :: v)

inductive Edits : Nat → List Char → List Char → Prop where
  | none (a) : Edits 0 a a
  | more {n a b c} (first : Edit a b) (rest : Edits n b c) : Edits (n + 1) a c

def cost : List Char → List Char → Nat
  | [],b => b.length
  | a,[] => a.length
  | c :: a,d :: b => min (min (cost a (d :: b) + 1) (cost (c :: a) b + 1)) (cost a b + if c = d then 0 else 1)

theorem costNil (a : List Char) : cost a [] = a.length := by
  cases a <;> simp [cost]

theorem costCons (c d : Char) (a b : List Char) : cost (c :: a) (d :: b) =
    min (min (cost a (d :: b) + 1) (cost (c :: a) b + 1)) (cost a b + if c = d then 0 else 1) := by
  rw [cost]

theorem costDelete (c : Char) (a b : List Char) : cost (c :: a) b ≤ cost a b + 1 := by
  cases b with
  | nil => simp [costNil]
  | cons d b =>
    rw [costCons]
    omega

theorem costInsert (d : Char) (a b : List Char) : cost a (d :: b) ≤ cost a b + 1 := by
  cases a with
  | nil => simp [cost]
  | cons c a =>
    rw [costCons]
    omega

theorem costReplace (c d : Char) (a b : List Char) : cost (c :: a) (d :: b) ≤ cost a b + 1 := by
  rw [costCons]
  split <;> omega

theorem costUndelete (c : Char) (a b : List Char) : cost a b ≤ cost (c :: a) b + 1 := by
  induction b with
  | nil =>
    rw [costNil,costNil,List.length_cons]
    omega
  | cons d b ih =>
    have insert := costInsert d a b
    rw [costCons]
    omega

theorem costReplaced (c d : Char) (a b : List Char) : cost (c :: a) b ≤ cost (d :: a) b + 1 := by
  induction b with
  | nil => simp [costNil]
  | cons e b ih =>
    have delete := costDelete c a (e :: b)
    have insert := costInsert e (c :: a) b
    have replace := costReplace c e a b
    rw [costCons d]
    omega

theorem costBehind (e : Char) {a a' : List Char} (near : ∀ b, cost a b ≤ cost a' b + 1) (b : List Char) :
    cost (e :: a) b ≤ cost (e :: a') b + 1 := by
  induction b with
  | nil => simpa [costNil] using near []
  | cons f b ih =>
    have all := near (f :: b)
    have rest := near b
    rw [costCons,costCons]
    omega

theorem costEdit {a a' : List Char} (edit : Edit a a') (b : List Char) : cost a b ≤ cost a' b + 1 := by
  have behind (u : List Char) {x y : List Char} (near : ∀ b, cost x b ≤ cost y b + 1) (b : List Char) :
      cost (u ++ x) b ≤ cost (u ++ y) b + 1 := by
    induction u generalizing b with
    | nil => exact near b
    | cons e u ih => exact costBehind e ih b
  cases edit with
  | insert u v c => exact behind u (costUndelete c v) b
  | delete u v c => exact behind u (costDelete c v) b
  | replace u v c d => exact behind u (costReplaced c d v) b

theorem costSelf (a : List Char) : cost a a = 0 := by
  induction a with
  | nil => exact costNil []
  | cons c a ih => simp [costCons,ih]

theorem costUnbeaten {n a b} (edits : Edits n a b) : cost a b ≤ n := by
  induction edits with
  | none a => exact Nat.le_of_eq (costSelf a)
  | more first _ ih => exact Nat.le_trans (costEdit first _) (Nat.succ_le_succ ih)

theorem Edits.behind (e : Char) {n a b} (edits : Edits n a b) : Edits n (e :: a) (e :: b) := by
  induction edits with
  | none a => exact .none _
  | more first _ ih =>
    refine .more ?_ ih
    cases first with
    | insert u v c => exact .insert (e :: u) v c
    | delete u v c => exact .delete (e :: u) v c
    | replace u v c d => exact .replace (e :: u) v c d

theorem costReached (a b : List Char) : Edits (cost a b) a b := by
  fun_induction cost a b with
  | case1 b =>
    induction b with
    | nil => exact .none []
    | cons d b ih => exact .more (.insert [] [] d) (ih.behind d)
  | case2 a some =>
    clear some
    induction a with
    | nil => exact .none []
    | cons c a ih => exact .more (.delete [] a c) ih
  | case3 c a d b first second third =>
    have delete := Edits.more (.delete [] a c) first
    have insert := Edits.more (.insert [] (c :: a) d) (second.behind d)
    have replace : Edits (cost a b + if c = d then 0 else 1) (c :: a) (d :: b) := by
      split
      · rename_i same
        exact same ▸ third.behind c
      · exact .more (.replace [] a c d) (third.behind d)
    exact min_rec' (Edits · _ _) (min_rec' (Edits · _ _) delete insert) replace

section Rows

def row (x : List Char) : List Char → List Char → List Nat
  | _,[] => []
  | y,d :: b => cost x (d :: y) :: row x (d :: y) b

theorem nextRowCosts (c : Char) (x y b : List Char) :
    nextRow c (cost x y) (cost (c :: x) y) b (row x y b) = row (c :: x) y b := by
  induction b generalizing y with
  | nil => rfl
  | cons d b ih =>
    have here : min (min (cost x (d :: y) + 1) (cost (c :: x) y + 1)) (cost x y + if c = d then 0 else 1) =
      cost (c :: x) (d :: y) := (costCons c d x y).symm
    rw [row,nextRow,here,ih,row]

theorem rowsCosts (b x a : List Char) :
    rows b x.length (x.length :: row x [] b) a = (a.reverse ++ x).length :: row (a.reverse ++ x) [] b := by
  induction a generalizing x with
  | nil => rfl
  | cons c a ih =>
    have next := nextRowCosts c x [] b
    rw [costNil,costNil] at next
    rw [rows,List.tail_cons,show x.length + 1 = (c :: x).length from rfl,next,ih]
    simp

theorem firstRow (y b : List Char) : row [] y b = List.range' (y.length + 1) b.length := by
  induction b generalizing y with
  | nil => rfl
  | cons d b ih => rw [row,ih,cost,List.length_cons,List.length_cons,List.range'_succ]

theorem lastOfRow (x y b : List Char) : (cost x y :: row x y b).getLast? = some (cost x (b.reverse ++ y)) := by
  induction b generalizing y with
  | nil => rfl
  | cons d b ih =>
    rw [row,List.getLast?_cons_cons,ih]
    simp

theorem distanceCost (a b : List Char) : distance a b = cost a.reverse b.reverse := by
  have start : List.range (b.length + 1) = ([] : List Char).length :: row [] [] b := by
    rw [firstRow,List.range_eq_range',List.range'_succ]
    rfl
  have all := rowsCosts b [] a
  have last := lastOfRow a.reverse [] b
  rw [costNil] at last
  rw [distance,start]
  simp only [List.append_nil,List.length_nil] at all last ⊢
  rw [all,last,Option.getD_some]

end Rows

theorem Edits.reversed {n a b} (edits : Edits n a b) : Edits n a.reverse b.reverse := by
  induction edits with
  | none a => exact .none _
  | more first _ ih =>
    refine .more ?_ ih
    cases first with
    | insert u v c => simpa using Edit.insert v.reverse u.reverse c
    | delete u v c => simpa using Edit.delete v.reverse u.reverse c
    | replace u v c d => simpa using Edit.replace v.reverse u.reverse c d

theorem distanceReached (a b : List Char) : Edits (distance a b) a b := by
  have edits := (costReached a.reverse b.reverse).reversed
  rwa [← distanceCost,List.reverse_reverse,List.reverse_reverse] at edits

theorem distanceUnbeaten {n a b} (edits : Edits n a b) : distance a b ≤ n := by
  rw [distanceCost]
  exact costUnbeaten edits.reversed

theorem distanceIsTheFewestEdits (a b : List Char) : IsLeast {n | Edits n a b} (distance a b) :=
  ⟨distanceReached a b,fun _ edits => distanceUnbeaten edits⟩

end Terakoya.Closest
