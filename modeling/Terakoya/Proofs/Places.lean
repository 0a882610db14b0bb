import Terakoya.Proofs.Lines

/-! Where an offset into the bytes of a text lies. Its line is counted in newlines, its column in characters
from the start of the line, so that line and column tell offsets between characters apart and keep their
order; the caret stands below as many cells as these characters take. -/
namespace Terakoya

namespace Location

open Text (lines width firstLine decode)

section Rows

variable (bytes : List UInt8) (o : Nat)

def row : Nat := (bytes.take o).count 10

def rowBytes : List UInt8 := ((bytes.splitOn 10)[row bytes o]?).getD []

def rowStart : Nat := (((bytes.splitOn 10).take (row bytes o)).map fun l => l.length + 1).sum

def OnCharacter : Prop := ∃ k, rowStart bytes o + width ((decode (rowBytes bytes o)).take k) = o

end Rows

theorem rowUnique {bytes : List UInt8} {k o line} (there : (bytes.splitOn 10)[k]? = some line)
    (begins : (((bytes.splitOn 10).take k).map fun l => l.length + 1).sum ≤ o)
    (ends : o ≤ (((bytes.splitOn 10).take k).map fun l => l.length + 1).sum + line.length) : row bytes o = k := by
  induction bytes generalizing k o line with
  | nil =>
    rw [List.splitOn_nil] at there
    cases k with
    | zero => rw [row,List.take_nil,List.count_nil]
    | succ k => contradiction
  | cons b bytes ih =>
    rw [List.splitOn_cons_eq_if_modifyHead] at there begins ends
    obtain ⟨first,more,rest⟩ := List.exists_cons_of_ne_nil (List.splitOn_ne_nil 10 bytes)
    rw [rest] at there begins ends ih
    have next (o : Nat) : row (b :: bytes) (o + 1) = row bytes o + if b == 10 then 1 else 0 := by
      rw [row,List.take_succ_cons,List.count_cons,row]
    cases o with
    | zero =>
      cases k with
      | zero => rfl
      | succ k => split at begins <;> simp at begins
    | succ o =>
      rw [next]
      by_cases newline : b == 10
      · rw [if_pos newline] at there begins ends ⊢
        cases k with
        | zero =>
          obtain rfl : line = [] := by simpa using there.symm
          contradiction
        | succ k =>
          simp only [List.take_succ_cons,List.map_cons,List.sum_cons,List.length_nil] at begins ends
          rw [ih there (by omega) (by omega)]
      · rw [if_neg newline,List.modifyHead_cons] at there begins ends
        rw [if_neg newline,Nat.add_zero]
        cases k with
        | zero =>
          obtain rfl : b :: first = line := by simpa using there
          exact ih rfl (Nat.zero_le _) (by simpa using ends)
        | succ k =>
          simp only [List.take_succ_cons,List.map_cons,List.sum_cons,List.length_cons] at begins ends
          refine ih there ?_ ?_ <;> (rw [List.take_succ_cons,List.map_cons,List.sum_cons]; omega)

theorem rowParts (bytes : List UInt8) (offset : Int) : ∃ u partly v, let o := min offset.toNat bytes.length
    (bytes.splitOn 10)[row bytes o]? = some (rowBytes bytes o) ∧ decode (rowBytes bytes o) = u ++ v ∧
    rowStart bytes o + width u + partly = o ∧ (partly = 0 ∨ ∃ g w, v = g :: w ∧ partly < g.width) ∧
    ofOffset (decode bytes) offset =
      ⟨row bytes o + 1,u.length + partly + 1,o,Text.trimRight (Glyph.is '\r') (u ++ v)⟩ := by
  obtain ⟨k,u,partly,v,here,sum,inside,place⟩ := lineParts (decode bytes) offset
  rw [Text.widthDecoded] at sum place
  rw [Text.linesDecoded] at here sum
  obtain ⟨line,there,same⟩ := Option.map_eq_some_iff.mp (List.getElem?_map ▸ here)
  rw [← List.map_take,List.map_map] at sum
  simp only [Function.comp_def,Text.widthDecoded] at sum
  have part := partWithin inside
  have long : line.length = width u + width v := by rw [← Text.widthDecoded,same,Text.widthAppend]
  obtain rfl : row bytes (min offset.toNat bytes.length) = k := rowUnique there (by omega) (by omega)
  have text : rowBytes bytes (min offset.toNat bytes.length) = line := by rw [rowBytes,there,Option.getD_some]
  exact ⟨u,partly,v,by rw [there,text],by rw [text,same],sum,inside,place⟩

theorem betweenCharacters {u v x : Text} {partly k : Nat} (inside : partly = 0 ∨ ∃ g w, v = g :: w ∧ partly < g.width)
    (parts : x = u ++ v) (same : width (x.take k) = width u + partly) : partly = 0 := by
  by_contra within
  obtain ⟨g,w,rfl,below⟩ := inside.resolve_left within
  have whole : u ++ g :: w = x.take k ++ x.drop k := by rw [List.take_append_drop,parts]
  rcases List.append_eq_append_iff.mp whole with ⟨a,more,rest⟩ | ⟨a,less,_⟩
  · rw [more,Text.widthAppend] at same
    cases a with
    | nil => exact within (by simpa [width] using same.symm)
    | cons h a =>
      obtain ⟨rfl,_⟩ := List.cons.inj rest
      rw [width] at same
      omega
  · rw [less,Text.widthAppend] at same
    omega

theorem characterParts (bytes : List UInt8) (offset : Int) (on : OnCharacter bytes (min offset.toNat bytes.length)) :
    ∃ u v, let o := min offset.toNat bytes.length
    decode (rowBytes bytes o) = u ++ v ∧ .newline ∉ u ++ v ∧ rowStart bytes o + width u = o ∧
    ofOffset (decode bytes) offset = ⟨row bytes o + 1,u.length + 1,o,Text.trimRight (Glyph.is '\r') (u ++ v)⟩ := by
  obtain ⟨u,partly,v,row,parts,sum,inside,place⟩ := rowParts bytes offset
  obtain ⟨k,there⟩ := on
  obtain rfl : partly = 0 := betweenCharacters inside parts (k := k) (by omega)
  refine ⟨u,v,parts,fun newline => ?_,sum,place⟩
  exact splitPartHasNone (List.mem_of_getElem? row) (Text.decodeNewline (parts ▸ newline))

theorem rowMono (bytes : List UInt8) {o o' : Nat} (less : o ≤ o') : row bytes o ≤ row bytes o' :=
  (List.take_sublist_take_left less).count_le 10

theorem narrower {u v u' v' : Text} (same : u ++ v = u' ++ v') : width u < width u' ↔ u.length < u'.length := by
  rcases List.append_eq_append_iff.mp same with ⟨a,rfl,_⟩ | ⟨a,rfl,_⟩
  · rw [Text.widthAppend,List.length_append]
    cases a with
    | nil => simp [width]
    | cons g a =>
      have some := g.widthPos
      rw [width,List.length_cons]
      omega
  · rw [Text.widthAppend,List.length_append]
    omega

theorem orderKept {bytes : List UInt8} {o o' : Nat} {u v u' v' : Text} (parts : decode (rowBytes bytes o) = u ++ v)
    (sum : rowStart bytes o + width u = o) (parts' : decode (rowBytes bytes o') = u' ++ v')
    (sum' : rowStart bytes o' + width u' = o') :
    o < o' ↔ row bytes o < row bytes o' ∨ row bytes o = row bytes o' ∧ u.length < u'.length := by
  have sameRow (same : row bytes o = row bytes o') : o < o' ↔ u.length < u'.length := by
    have start : rowStart bytes o = rowStart bytes o' := by rw [rowStart,rowStart,same]
    have text : rowBytes bytes o = rowBytes bytes o' := by rw [rowBytes,rowBytes,same]
    rw [← narrower (parts.symm.trans (text ▸ parts'))]
    omega
  constructor
  · intro less
    exact (Nat.lt_or_eq_of_le (rowMono bytes (Nat.le_of_lt less))).imp_right fun same => ⟨same,(sameRow same).mp less⟩
  · rintro (above | ⟨same,fewer⟩)
    · exact Nat.lt_of_not_le fun less => Nat.not_le.mpr above (rowMono bytes less)
    · exact (sameRow same).mpr fewer

theorem trimmedReturns (t : Text) : (∃ n, t = Text.trimRight (Glyph.is '\r') t ++ List.replicate n (.char '\r')) ∧
    (Text.trimRight (Glyph.is '\r') t).getLast? ≠ some (.char '\r') := by
  have returns : ∀ g ∈ t.reverse.takeWhile (Glyph.is '\r'), g = .char '\r' := by
    intro g there
    have same := List.mem_takeWhile_imp there
    cases g with
    | char c => exact congrArg _ (beq_iff_eq.mp same).symm
    | stray b => contradiction
  refine ⟨⟨(t.reverse.takeWhile (Glyph.is '\r')).length,?_⟩,fun last => ?_⟩
  · rw [Text.trimRight,← List.reverse_replicate,← List.eq_replicate_of_mem returns,← List.reverse_append,
      List.takeWhile_append_dropWhile,List.reverse_reverse]
  · rw [Text.trimRight,List.getLast?_reverse] at last
    have other := List.head?_dropWhile_not (Glyph.is '\r') t.reverse
    rw [last] at other
    contradiction

theorem shownOnOneLine {t : Text} (plain : .newline ∉ t) : '\n' ∉ (Text.toString t).toList := by
  rw [Text.toString,String.toList_ofList,List.mem_map]
  rintro ⟨g,there,same⟩
  cases g with
  | char c =>
    obtain rfl : c = '\n' := same
    exact plain there
  | stray b => exact absurd (show '�' = '\n' from same) (by decide)

theorem paddingOnOneLine (t : Text) : '\n' ∉ (String.join (t.map fun g => padding g.toChar)).toList := by
  rw [String.toList_join,List.flatMap_map,List.mem_flatMap]
  rintro ⟨g,_,there⟩
  unfold padding at there
  split_ifs at there <;> contradiction

theorem caretBelow {u v : Text} (line offset : Nat) (plain : .newline ∉ u ++ v)
    (inside : width u ≤ width (Text.trimRight (Glyph.is '\r') (u ++ v))) (margin : String) :
    let l : Location := ⟨line + 1,u.length + 1,offset,Text.trimRight (Glyph.is '\r') (u ++ v)⟩
    let second := margin ++ String.join (u.map fun g => padding g.toChar) ++ "^"
    l.caret margin = margin ++ Text.toString l.lineText ++ "\n" ++ second ∧
    ('\n' ∉ margin.toList → ((l.caret margin).toList.splitOn '\n')[1]? = some second.toList) := by
  obtain ⟨⟨n,whole⟩,_⟩ := trimmedReturns (u ++ v)
  generalize Text.trimRight (Glyph.is '\r') (u ++ v) = shown at *
  have long : u.length ≤ shown.length := Nat.le_of_not_lt fun less => Nat.not_lt.mpr inside ((narrower whole.symm).mpr less)
  have start : shown.take u.length = u :=
    (List.prefix_iff_eq_take.mp (List.prefix_of_prefix_length_le (List.prefix_append u v) ⟨_,whole.symm⟩ long)).symm
  have text : '\n' ∉ (Text.toString shown).toList :=
    shownOnOneLine fun there => plain (whole ▸ List.mem_append_left _ there)
  intro l second
  have caret : l.caret margin = margin ++ Text.toString shown ++ "\n" ++ second := by
    simp only [l,second,Location.caret,Nat.add_one_ne_zero,if_false,Nat.add_sub_cancel,start,String.append_assoc]
  refine ⟨caret,fun single => ?_⟩
  have first : '\n' ∉ margin.toList ++ (Text.toString shown).toList := by simp [single,text]
  have last : '\n' ∉ second.toList := by
    simp only [second,String.toList_append,List.mem_append,not_or]
    exact ⟨⟨single,paddingOnOneLine u⟩,by decide⟩
  have chars : (l.caret margin).toList = margin.toList ++ (Text.toString shown).toList ++ '\n' :: second.toList := by
    simp [caret]
  rw [chars,List.splitOn_append_cons_self_of_not_mem first,List.splitOn_eq_singleton last]
  rfl

theorem locationsAreExact (bytes : List UInt8) (offset : Int) :
    let o := min offset.toNat bytes.length
    let l := ofOffset (decode bytes) offset
    l.offset = o ∧ l.line = 1 + (bytes.take o).count 10 ∧
    ((bytes.splitOn 10)[l.line - 1]? = some (rowBytes bytes o) ∧
      (∃ n, decode (rowBytes bytes o) = l.lineText ++ List.replicate n (.char '\r')) ∧
      l.lineText.getLast? ≠ some (.char '\r')) ∧
    (OnCharacter bytes o →
      (0 < l.column ∧ l.column - 1 ≤ (decode (rowBytes bytes o)).length ∧
        rowStart bytes o + width ((decode (rowBytes bytes o)).take (l.column - 1)) = o) ∧
      (∀ offset' : Int, let o' := min offset'.toNat bytes.length
        let l' := ofOffset (decode bytes) offset'
        OnCharacter bytes o' → (o < o' ↔ l.line < l'.line ∨ l.line = l'.line ∧ l.column < l'.column) ∧
          (o = o' ↔ l.line = l'.line ∧ l.column = l'.column)) ∧
      (o ≤ rowStart bytes o + width l.lineText → ∀ margin : String, ∃ second,
        l.caret margin = margin ++ Text.toString l.lineText ++ "\n" ++ second ∧
        second = margin ++ String.join (((decode (rowBytes bytes o)).take (l.column - 1)).map fun g =>
          if g.toChar = '\t' then "\t" else if Text.isWide g.toChar then "  " else " ") ++ "^" ∧
        ('\n' ∉ margin.toList → ((l.caret margin).toList.splitOn '\n')[1]? = some second.toList))) := by
  intro o l
  obtain ⟨u,partly,v,there,parts,_,_,place⟩ := rowParts bytes offset
  obtain ⟨returns,last⟩ := trimmedReturns (u ++ v)
  have place : l = _ := place
  refine ⟨by rw [place],by rw [place]; exact Nat.add_comm _ _,by rw [place,parts]; exact ⟨there,returns,last⟩,fun on => ?_⟩
  clear place
  obtain ⟨u,v,parts,plain,sum,place⟩ := characterParts bytes offset on
  rw [show l = _ from place,parts]
  refine ⟨?_,fun offset' => ?_,fun before margin => ?_⟩
  · rw [Nat.add_sub_cancel,List.take_left' rfl]
    exact ⟨Nat.succ_pos _,by simp,sum⟩
  · intro o' l' on'
    obtain ⟨u',v',parts',_,sum',place'⟩ := characterParts bytes offset' on'
    rw [show l' = _ from place']
    have less := orderKept parts sum parts' sum'
    have more := orderKept parts' sum' parts sum
    simp only [Nat.add_right_cancel_iff,Nat.add_lt_add_iff_right]
    exact ⟨less,by omega⟩
  · rw [Nat.add_sub_cancel,List.take_left' rfl]
    have inside : width u ≤ width (Text.trimRight (Glyph.is '\r') (u ++ v)) :=
      Nat.le_of_add_le_add_left (Nat.le_trans (Nat.le_of_eq sum) before)
    obtain ⟨whole,second⟩ := caretBelow (row bytes o) o plain inside margin
    exact ⟨_,whole,rfl,second⟩

def wideLine : List UInt8 := Text.encode (Text.ofString "x\n一\tb\r\n")

theorem wideCharactersTakeTwoCells : let l := ofOffset (decode wideLine) 6
    OnCharacter wideLine 6 ∧ l.line = 2 ∧ l.column = 3 ∧
      ((l.caret "> ").toList.splitOn '\n')[1]? = some ">   \t^".toList := by
  have on : OnCharacter wideLine 6 := ⟨2,by decide +kernel⟩
  obtain ⟨_,line,_,between⟩ := locationsAreExact wideLine 6
  obtain ⟨_,_,caret⟩ := between on
  obtain ⟨second,_,rfl,shown⟩ := caret (by decide +kernel) "> "
  exact ⟨on,line,by decide +kernel,shown (by decide)⟩

end Location
end Terakoya
