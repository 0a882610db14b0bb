import Terakoya.Proofs.Hygiene
import Terakoya.Proofs.Lexemes

/-! Calls in a text that a program was written out to. A function that is called once is found there at least once, and
exactly once unless its call stands before a `?` that repeats it. -/
namespace Terakoya

namespace Emit

def occurrences (f : List Char) : List Char → Nat
  | [] => 0
  | c :: cs => (if f <+: c :: cs then 1 else 0) + occurrences f cs

def occurrencesAmong (f : List Char) : List (List Char) → Nat
  | [] => 0
  | x :: xs => occurrences f x + occurrencesAmong f xs

section Occurrences

variable {f x y : List Char} {c : Char}

theorem occurrencesNone (none : ¬ f <:+: x) : occurrences f x = 0 := by
  induction x with
  | nil => rfl
  | cons c x ih =>
    rw [occurrences,if_neg fun begins => none begins.isInfix,ih fun inside => none (List.infix_cons inside)]

theorem occurrencesSelf (some : f ≠ []) : occurrences f f = 1 := by
  obtain ⟨c,x,rfl⟩ := List.exists_cons_of_ne_nil some
  have shorter : ¬ c :: x <:+: x := by
    intro inside
    have lengths := inside.length_le
    rw [List.length_cons] at lengths
    omega
  rw [occurrences,if_pos List.prefix_rfl,occurrencesNone shorter]

theorem prefixSplit (apart : c ∉ f) : f <+: x ++ c :: y ↔ f <+: x := by
  refine ⟨fun begins => ?_,fun begins => begins.trans (List.prefix_append _ _)⟩
  rcases Nat.lt_or_ge x.length f.length with longer | shorter
  · have short : x ++ [c] <+: x ++ c :: y := ⟨y,by rw [List.append_assoc,List.singleton_append]⟩
    have inside := List.prefix_of_prefix_length_le short begins (by simpa [Nat.succ_le_iff] using longer)
    exact absurd (inside.subset (by simp)) apart
  · exact List.prefix_of_prefix_length_le begins (List.prefix_append _ _) shorter

theorem occurrencesSplit (some : f ≠ []) (apart : c ∉ f) : occurrences f (x ++ c :: y) = occurrences f x + occurrences f y := by
  induction x with
  | nil =>
    have other : ¬ f <+: [] ++ c :: y := by
      rw [prefixSplit apart,List.prefix_nil]
      exact some
    rw [List.nil_append] at other ⊢
    simp only [occurrences,if_neg other]
  | cons d x ih =>
    have same : f <+: d :: (x ++ c :: y) ↔ f <+: d :: x := prefixSplit (x := d :: x) apart
    rw [List.cons_append,occurrences,occurrences,ih,Nat.add_assoc]
    simp only [same]

theorem wordInduction {P : List Char → Prop} (word : ∀ x, (∀ c ∈ x, isNameChar c) → P x)
    (split : ∀ x c y, isNameChar c = false → P x → P y → P (x ++ c :: y)) (x : List Char) : P x := by
  by_cases all : ∀ c ∈ x, isNameChar c
  · exact word x all
  · obtain ⟨c,there,other⟩ : ∃ c ∈ x, isNameChar c = false := by simpa using all
    obtain ⟨y,z,rfl⟩ := List.append_of_mem there
    exact split y c z other (wordInduction word split y) (wordInduction word split z)
  termination_by x.length
  decreasing_by
    all_goals subst_vars; rw [List.length_append,List.length_cons]; omega

theorem amongAppend (xs ys : List (List Char)) :
    occurrencesAmong f (xs ++ ys) = occurrencesAmong f xs + occurrencesAmong f ys := by
  induction xs with
  | nil => rw [List.nil_append,occurrencesAmong,Nat.zero_add]
  | cons x xs ih => rw [List.cons_append,occurrencesAmong,occurrencesAmong,ih,Nat.add_assoc]

theorem occurrencesWords (some : f ≠ []) (name : ∀ c ∈ f, isNameChar c) (x : List Char) :
    occurrences f x = occurrencesAmong f (wordsOf x) := by
  induction x using wordInduction with
  | word x all =>
    cases x with
    | nil =>
      rw [wordsNil]
      rfl
    | cons c x =>
      have whole : wordsOf (c :: x) = [c :: x] := by
        rw [wordsOf,List.splitOnP_eq_singleton fun d inside => by rw [all d inside]; rfl]
        rfl
      rw [whole]
      rfl
  | split x c y sep left right =>
    have apart : c ∉ f := fun inside => by rw [name c inside] at sep; contradiction
    rw [occurrencesSplit some apart,wordsSplit sep,amongAppend,left,right]

variable {d : Dialect} {ws : List (Word d)}

theorem occurrencesSpelled (some : f ≠ []) (name : ∀ c ∈ f, isNameChar c) (spells : Spells ws x) :
    occurrences f x = occurrencesAmong f (ws.map Word.written) := by
  rw [occurrencesWords some name,spells.words]
  clear spells
  induction ws with
  | nil => rfl
  | cons w ws ih => rw [List.flatMap_cons,amongAppend,List.map_cons,occurrencesAmong,ih,← occurrencesWords some name]

theorem occurrencesCopies {l} (each : ∀ w ∈ ws, occurrences f w.written = if w.isLeaf l then 1 else 0) :
    occurrencesAmong f (ws.map Word.written) = Word.copies l ws := by
  induction ws with
  | nil => rfl
  | cons w ws ih =>
    obtain ⟨first,rest⟩ := List.forall_mem_cons.mp each
    rw [List.map_cons,occurrencesAmong,ih rest,first,Word.copies,Word.copies,List.countP_cons,Nat.add_comm]

end Occurrences

end Emit

structure Wordlike (name : String) : Prop where
  chars : ∀ c ∈ name.toList, Emit.isNameChar c
  letter : ∃ c ∈ name.toList, Cursor.isNameLetter c

def Leaf.Readable : Leaf → Prop
  | .call f => Wordlike f
  | _ => True

theorem Cursor.wordlikeRead (c : Cursor) (some : c.readIdentifier.1 ≠ "") : Wordlike c.readIdentifier.1 := by
  refine ⟨fun d inside => ?_,?_⟩
  · rcases (readIdentifierSplit c).2 d inside with letter | digit
    · simp only [Emit.isNameChar,letter,Bool.true_or]
    · have same : d.isDigit := by simpa [Char.isDigit,isDigit,Glyph.toChar,Char.le_def] using digit
      simp only [Emit.isNameChar,same,Bool.or_true]
  · have letters := (readLettersSplit true c.pos c.rest).2
    revert some
    simp only [readIdentifier]
    split
    · exact fun none => absurd rfl none
    · rename_i run next other reading
      rw [reading] at letters
      intro _
      obtain ⟨d,there⟩ := List.exists_mem_of_ne_nil run other
      refine ⟨d,?_,letters d there⟩
      rw [String.toList_ofList]
      exact List.mem_append_left _ there

namespace Phrases

open Reader

theorem wordlikeIdentifier : Yields Wordlike identifier := by
  intro c name next found
  simp only [identifier] at found
  split at found
  · contradiction
  · rename_i read last other reading
    cases found
    have wordlike := Cursor.wordlikeRead c
    rw [reading] at wordlike
    exact wordlike other

end Phrases

theorem Parse.calledWordlike (recover : Bool) (source : Text) {f}
    (called : .call f ∈ bodyLeaves (ofNormal recover source).program.body) : Wordlike f :=
  programBears (P := Leaf.Readable) ⟨fun c name next found => ⟨Phrases.wordlikeIdentifier c name next found,trivial⟩,
    fun _ _ => trivial,Phrases.quotedBears fun _ _ _ => trivial⟩ recover source _ called

theorem Wordlike.noNumber {f} (wordlike : Wordlike f) (n : Nat) : ¬ f.toList <:+: (toString n).toList := by
  intro inside
  obtain ⟨c,there,letter⟩ := wordlike.letter
  have digit := inside.subset there
  rw [Nat.toString_eq_ofList_toDigits,String.toList_ofList] at digit
  rw [Cursor.digitNoLetter (Cursor.digitsAreDigits n c digit)] at letter
  contradiction

theorem calledOnceIsWrittenOnce (d : Dialect) (indent : Nat) (t : Text) (out f : String)
    (translated : d.translate indent t = .ok out)
    (once : (bodyLeaves (Parse.strict t).program.body).count (.call f) = 1)
    (apart : ∀ l ∈ bodyLeaves (Parse.strict t).program.body, l ≠ .call f → ¬ f.toList <:+: l.written)
    (foreign : ∀ s ∈ d.vocabulary, ¬ f.toList <:+: s.toList)
    (unlike : ∀ c ∈ d.coins (Parse.strict t).program.body, ¬ f.toList <:+: c.name.toList) :
    1 ≤ Emit.occurrences f.toList out.toList ∧
    (Emit.occurrences f.toList out.toList = 1 ↔ bodyRepeats d (.call f) (Parse.strict t).program.body = false) := by
  obtain rfl := Dialect.translateEmits translated
  have called : .call f ∈ bodyLeaves (Parse.strict t).program.body := List.count_pos_iff.mp (by omega)
  have wordlike : Wordlike f := Parse.calledWordlike false (Text.normalize t) called
  have some : f.toList ≠ [] := by
    obtain ⟨c,there,_⟩ := wordlike.letter
    exact List.ne_nil_of_mem there
  generalize (Parse.strict t).program.body = body at *
  have each : ∀ w ∈ d.words body, Emit.occurrences f.toList w.written = if w.isLeaf (.call f) then 1 else 0 := by
    intro w there
    cases w with
    | own s known => exact Emit.occurrencesNone (foreign s known)
    | leaf l =>
      by_cases same : l = .call f
      · rw [same,Word.isLeaf,beq_self_eq_true,if_pos rfl]
        exact Emit.occurrencesSelf some
      · rw [Word.isLeaf,beq_eq_false_iff_ne.mpr same,if_neg Bool.false_ne_true]
        exact Emit.occurrencesNone (apart l ((leafWritten d body l).mp there) same)
    | number n => exact Emit.occurrencesNone (wordlike.noNumber n)
    | coined c => exact Emit.occurrencesNone (unlike c ((d.coined body c).mp there))
  rw [Emit.occurrencesSpelled some wordlike.chars (d.spelled indent body),Emit.occurrencesCopies each]
  obtain ⟨kept,exact',_⟩ := d.tallied (.call f) body
  rw [once] at kept exact'
  exact ⟨kept,exact'⟩

def Emit.picking : Text := Text.ofString
  "3回くり返す \x7b\n  表[?][次(1)] = 入力 x に対し \x7b\n    x を増やす\n    表[続(x)][?]が答え\n  \x7d\n\x7d"

theorem hoistedCallIsWrittenOnce : ∃ out, Dialect.translate .indented 0 Emit.picking = .ok out ∧
    (bodyLeaves (Parse.strict Emit.picking).program.body).count (.call "続") = 1 ∧
    Emit.occurrences "続".toList out.toList = 1 := by
  -- the text is read once for all that is needed of it
  obtain ⟨fine,leaves,coins,single⟩ : ((Parse.strict Emit.picking).diagnostics "").isEmpty ∧
      bodyLeaves (Parse.strict Emit.picking).program.body =
        [.name "表",.call "次",.name "x",.name "x",.name "表",.call "続",.name "x"] ∧
      Dialect.coins .indented (Parse.strict Emit.picking).program.body = [.ignored,.hoisted 1] ∧
      bodyRepeats .indented (.call "続") (Parse.strict Emit.picking).program.body = false := by decide +kernel
  have translated := Dialect.translateFine .indented 0 fine
  have once : (bodyLeaves (Parse.strict Emit.picking).program.body).count (.call "続") = 1 := by
    rw [leaves]
    decide
  have written := calledOnceIsWrittenOnce .indented 0 Emit.picking _ "続" translated once
    (by rw [leaves]; decide +kernel) (by decide +kernel) (by rw [coins]; decide +kernel)
  exact ⟨_,translated,once,written.2.mpr single⟩

theorem indexCallIsWrittenTwice :
    Dialect.translate .braced 0 (Text.ofString "表[次()][?]") =
      .ok "console.log(表[次()][Math.floor(Math.random() * 表[次()].length)]);\n" ∧
    bodyLeaves (Parse.strict (Text.ofString "表[次()][?]")).program.body = [.name "表",.call "次"] ∧
    (∀ s ∈ Dialect.vocabulary .braced, ¬ "次".toList <:+: s.toList) ∧
    Dialect.coins .braced (Parse.strict (Text.ofString "表[次()][?]")).program.body = [] ∧
    Emit.occurrences "次".toList "console.log(表[次()][Math.floor(Math.random() * 表[次()].length)]);\n".toList = 2 := by
  refine ⟨?_,by decide +kernel⟩
  exact (Dialect.translateFine .braced 0 (by decide +kernel)).trans (congrArg Except.ok (by decide +kernel))

end Terakoya
