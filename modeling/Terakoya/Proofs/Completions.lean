import Mathlib.Data.List.TakeWhile
import Terakoya.Proofs.ByteOrder
import Terakoya.Session.Completion

/-! The completions of a line: its last word, or the longest end of it that begins some word, is continued to
that word. They are told apart and stand in the order of their bytes. -/
namespace Terakoya.Completion

section Order

variable {s t : String} {l : List String}

theorem memInsert : t ∈ insert s l ↔ t = s ∨ t ∈ l := by
  induction l with
  | nil => simp [insert]
  | cons u l ih =>
    rw [insert]
    split
    · exact List.mem_cons
    · split
      · rename_i same
        rw [same,List.mem_cons,or_self_left]
      · rw [List.mem_cons,ih,List.mem_cons,or_left_comm]

theorem insertOrdered (ordered : l.Pairwise (· < ·)) : (insert s l).Pairwise (· < ·) := by
  induction l with
  | nil => exact List.pairwise_singleton _ _
  | cons u l ih =>
    obtain ⟨before,rest⟩ := List.pairwise_cons.mp ordered
    rw [insert]
    split
    · rename_i less
      refine List.pairwise_cons.mpr ⟨fun t there => ?_,ordered⟩
      rcases List.mem_cons.mp there with rfl | there
      · exact less
      · exact lt_trans less (before t there)
    · rename_i above
      split
      · exact ordered
      · rename_i other
        refine List.pairwise_cons.mpr ⟨fun t there => ?_,ih rest⟩
        rcases memInsert.mp there with rfl | there
        · exact lt_of_le_of_ne (not_lt.mp above) (Ne.symm other)
        · exact before t there

theorem collected (found : List (List Char)) (l : List String) (ordered : l.Pairwise (· < ·)) :
    (found.foldl (fun out s => insert (String.ofList s) out) l).Pairwise (· < ·) ∧
    ∀ t, t ∈ found.foldl (fun out s => insert (String.ofList s) out) l ↔ t.toList ∈ found ∨ t ∈ l := by
  induction found generalizing l with
  | nil => exact ⟨ordered,fun t => by simp⟩
  | cons s found ih =>
    obtain ⟨later,members⟩ := ih (insert (String.ofList s) l) (insertOrdered ordered)
    refine ⟨later,fun t => ?_⟩
    rw [List.foldl_cons,members,memInsert,List.mem_cons,String.ext_iff,String.toList_ofList,or_left_comm,or_assoc]

end Order

def First (Continued : List Char → Prop) (line before ending : List Char) : Prop :=
  line = before ++ ending ∧ Continued ending ∧
    ∀ before' ending', line = before' ++ ending' → Continued ending' → before.length ≤ before'.length

theorem firstCons {Continued : List Char → Prop} {c : Char} {rest u e : List Char} (other : ¬ Continued (c :: rest)) :
    First Continued (c :: rest) u e ↔ ∃ v, u = c :: v ∧ First Continued rest v e := by
  constructor
  · rintro ⟨parts,whole,first⟩
    cases u with
    | nil => exact absurd (parts ▸ whole) other
    | cons d v =>
      obtain ⟨rfl,tail⟩ := List.cons.inj parts
      exact ⟨v,rfl,tail,whole,fun v' e' parts' whole' =>
        Nat.le_of_succ_le_succ (first (c :: v') e' (congrArg (c :: ·) parts') whole')⟩
  · rintro ⟨v,rfl,parts,whole,first⟩
    refine ⟨congrArg (c :: ·) parts,whole,fun u' e' parts' whole' => ?_⟩
    cases u' with
    | nil => exact absurd (parts' ▸ whole') other
    | cons d u' => exact Nat.succ_le_succ (first u' e' (List.cons.inj parts').2 whole')

def Opens (word ending : List Char) : Prop := ending ≠ [] ∧ ending <+: word ∧ ending ≠ word

theorem opensCons {word : List Char} {c : Char} {rest : List Char} :
    isProperPrefix (c :: rest) word ↔ Opens word (c :: rest) := by
  simp [isProperPrefix,Opens]

theorem extendIff {word before ends r : List Char} : extend? word before ends = some r ↔
    ∃ u e, First (Opens word) ends u e ∧ r = before ++ u ++ word := by
  fun_induction extend? word before ends with
  | case1 before =>
    refine ⟨fun found => by contradiction,fun ⟨u,e,first,_⟩ => ?_⟩
    exact absurd (List.append_eq_nil_iff.mp first.1.symm).2 first.2.1.1
  | case2 before c rest whole =>
    have whole := opensCons.mp whole
    constructor
    · intro found
      exact ⟨[],c :: rest,⟨rfl,whole,fun _ _ _ _ => Nat.zero_le _⟩,by simpa using found.symm⟩
    · rintro ⟨u,e,first,rfl⟩
      obtain rfl : u = [] := List.length_eq_zero_iff.mp (Nat.le_zero.mp (first.2.2 [] _ rfl whole))
      rw [List.append_nil]
  | case3 before c rest other ih =>
    rw [ih]
    constructor
    · rintro ⟨v,e,first,rfl⟩
      exact ⟨c :: v,e,(firstCons fun whole => other (opensCons.mpr whole)).mpr ⟨v,rfl,first⟩,by simp⟩
    · rintro ⟨u,e,first,rfl⟩
      obtain ⟨v,rfl,later⟩ := (firstCons fun whole => other (opensCons.mpr whole)).mp first
      exact ⟨v,e,later,by simp⟩

theorem divideParts (line : List Char) : line = (divide line).1 ++ (divide line).2 ∧
    (∀ c ∈ (divide line).2, isSeparator c = false) ∧ ∀ b c, (divide line).1 = b ++ [c] → isSeparator c := by
  have whole : line = (line.reverse.dropWhile fun c => !isSeparator c).reverse ++ (divide line).2 := by
    rw [divide,← List.reverse_append,List.takeWhile_append_dropWhile,List.reverse_reverse]
  have start : (divide line).1 = (line.reverse.dropWhile fun c => !isSeparator c).reverse := by
    have long := congrArg List.length whole
    rw [List.length_append] at long
    show line.take (line.length - (divide line).2.length) = _
    exact (congrArg _ whole).trans (List.take_left' (by omega))
  refine ⟨by rw [start,← whole],fun c there => ?_,fun b c last => ?_⟩
  · simpa using List.mem_takeWhile_imp (List.mem_reverse.mp there)
  · have other := List.head?_dropWhile_not (fun c => !isSeparator c) line.reverse
    rw [List.reverse_eq_iff.mp (start.symm.trans last)] at other
    simpa using other

theorem firstOfWord {Continued : List Char → Prop} {line before ending : List Char} :
    First (fun e => (∀ c ∈ e, isSeparator c = false) ∧ Continued e) line before ending ↔
      ∃ u, before = (divide line).1 ++ u ∧ First Continued (divide line).2 u ending := by
  obtain ⟨parts,plain,start⟩ := divideParts line
  generalize (divide line).1 = d at *
  generalize (divide line).2 = word at *
  subst parts
  have within {x e : List Char} (split : d ++ word = x ++ e) (unspaced : ∀ c ∈ e, isSeparator c = false) :
      ∃ u, x = d ++ u ∧ word = u ++ e := by
    rcases List.append_eq_append_iff.mp split with ⟨a,longer,rest⟩ | ⟨a,shorter,rest⟩
    · exact ⟨a,longer,rest⟩
    · rcases List.eq_nil_or_concat' a with rfl | ⟨b,c,rfl⟩
      · exact ⟨[],by simpa using shorter.symm,by simpa using rest.symm⟩
      · have blank := start (x ++ b) c (by rw [shorter,List.append_assoc])
        rw [unspaced c (by simp [rest])] at blank
        contradiction
  constructor
  · rintro ⟨split,⟨unspaced,continued⟩,first⟩
    obtain ⟨u,rfl,rfl⟩ := within split unspaced
    refine ⟨u,rfl,rfl,continued,fun u' e' split' continued' => ?_⟩
    have all := first (d ++ u') e' (by rw [split',List.append_assoc])
      ⟨fun c there => plain c (split' ▸ List.mem_append_right u' there),continued'⟩
    simpa using all
  · rintro ⟨u,rfl,rfl,continued,first⟩
    refine ⟨(List.append_assoc d u ending).symm,⟨fun c there => plain c (List.mem_append_right u there),continued⟩,
      fun x e split continued' => ?_⟩
    obtain ⟨u',rfl,rest⟩ := within split continued'.1
    simpa using first u' e rest continued'.2

def open? (line : List Char) : Bool := !(line.all Text.isSpace || line.getLast?.any isSeparator)

theorem completeCollects (line : String) (names : List String) : (complete line names).Pairwise (· < ·) ∧
    ∀ s, s ∈ complete line names ↔ open? line.toList ∧ ∃ w ∈ vocabulary ++ names, ∃ before ending,
      First (fun e => (∀ c ∈ e, isSeparator c = false) ∧ Opens w.toList e) line.toList before ending ∧
      s.toList = before ++ w.toList := by
  rw [complete]
  dsimp only
  split
  · rename_i closed
    exact ⟨.nil,fun s => by simp [open?,closed]⟩
  · rename_i opened
    obtain ⟨ordered,members⟩ := collected ((vocabulary ++ names).filterMap fun w =>
      extend? w.toList (divide line.toList).1 (divide line.toList).2) [] .nil
    refine ⟨ordered,fun s => ?_⟩
    rw [members,or_iff_left List.not_mem_nil,List.mem_filterMap]
    simp only [open?,opened,Bool.not_false,true_and,extendIff,firstOfWord]
    refine exists_congr fun w => and_congr_right fun _ => ⟨?_,?_⟩
    · rintro ⟨u,e,first,result⟩
      exact ⟨_,e,⟨u,rfl,first⟩,result⟩
    · rintro ⟨_,e,⟨u,rfl,first⟩,result⟩
      exact ⟨u,e,first,result⟩

theorem completionsExtendTheLine (line : String) (names : List String) :
    (complete line names).Pairwise (fun s t => Text.encode (Text.ofString s) < Text.encode (Text.ofString t)) ∧
    (∀ s ∈ complete line names, line.toList <+: s.toList ∧ s ≠ line) ∧
    (line.toList.all Text.isSpace = false → (∀ c, line.toList.getLast? = some c → c ≠ ' ' ∧ c ≠ '\t') →
      ∀ s, s ∈ complete line names ↔ ∃ w ∈ vocabulary ++ names, ∃ before ending,
        First (fun e => (∀ c ∈ e, c ≠ ' ' ∧ c ≠ '\t') ∧ Opens w.toList e) line.toList before ending ∧
        s.toList = before ++ w.toList) := by
  obtain ⟨ordered,members⟩ := completeCollects line names
  have unspaced : ∀ c, isSeparator c = false ↔ c ≠ ' ' ∧ c ≠ '\t' := fun c => by simp [isSeparator]
  simp only [unspaced] at members
  refine ⟨ordered.imp Text.bytesBefore.mpr,fun s there => ?_,fun written ends s => ?_⟩
  · obtain ⟨_,w,_,before,ending,⟨split,⟨_,_,⟨more,whole⟩,unfinished⟩,_⟩,result⟩ := (members s).mp there
    refine ⟨⟨more,by rw [split,result,← whole,List.append_assoc]⟩,?_⟩
    rintro rfl
    exact unfinished (List.append_cancel_left (split.symm.trans result))
  · have opened : open? line.toList := by
      rw [open?,written]
      cases last : line.toList.getLast? with
      | none => rfl
      | some c => simp [(unspaced c).mpr (ends c last)]
    rw [members,and_iff_right opened]

theorem endOfTypedWordIsCompleted : "もしま" ∈ complete "もし" ["しま"] := by
  have plain : 'し' ≠ ' ' ∧ 'し' ≠ '\t' := by decide
  have opens : Opens "しま".toList ['し'] := ⟨by decide,by decide,by decide⟩
  refine ((completionsExtendTheLine "もし" ["しま"]).2.2 (by decide +kernel) (fun c last => Option.some.inj last ▸ plain) _).mpr
    ⟨"しま",by decide,['も'],['し'],⟨rfl,⟨fun c there => List.mem_singleton.mp there ▸ plain,opens⟩,
      fun before ending split opens => ?_⟩,rfl⟩
  cases before with
  | nil =>
    obtain rfl : ['も','し'] = ending := split
    exact absurd opens.2.2.1 (by decide)
  | cons c before => exact Nat.succ_le_succ (Nat.zero_le _)

end Terakoya.Completion
