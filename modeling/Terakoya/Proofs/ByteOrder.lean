import Mathlib.Data.String.Basic
import Terakoya.Text.Glyph

/-! Strings in the order of their code points are in the order of their bytes. -/
namespace Terakoya.Text

theorem charBefore {c d : Char} (less : c < d) (x y : List UInt8) :
    String.utf8EncodeChar c ++ x < String.utf8EncodeChar d ++ y := by
  have less : c.val.toNat < d.val.toNat := UInt32.lt_iff_toNat_lt.mp less
  have last : d.val.toNat < 0x110000 := by
    have valid := d.valid
    simp only [UInt32.isValidChar,Nat.isValidChar] at valid
    omega
  have twice (n : Nat) : n / 4096 = n / 64 / 64 := (Nat.div_div_eq_div_mul n 64 64).symm
  have thrice (n : Nat) : n / 262144 = n / 64 / 64 / 64 := by rw [← twice,Nat.div_div_eq_div_mul]
  simp only [String.utf8EncodeChar,twice,thrice]
  generalize c.val.toNat = v at *
  generalize d.val.toNat = w at *
  split_ifs
  all_goals
    simp only [List.cons_append,List.nil_append,List.cons_lt_cons_iff,UInt8.lt_iff_toNat_lt,← UInt8.toNat_inj,
      UInt8.toNat_ofNat']
    omega

theorem encodeBefore {s t : List Char} (less : s < t) : encode (s.map .char) < encode (t.map .char) := by
  induction s generalizing t with
  | nil =>
    cases t with
    | nil => contradiction
    | cons d t =>
      obtain ⟨b,bytes,first⟩ : ∃ b bytes, String.utf8EncodeChar d = b :: bytes := by
        unfold String.utf8EncodeChar
        dsimp only
        split_ifs <;> exact ⟨_,_,rfl⟩
      show [] < String.utf8EncodeChar d ++ _
      rw [first]
      exact List.nil_lt_cons _ _
  | cons c s ih =>
    cases t with
    | nil => contradiction
    | cons d t =>
      rcases List.cons_lt_cons_iff.mp less with before | ⟨rfl,later⟩
      · exact charBefore before _ _
      · exact List.append_left_lt (ih later)

theorem bytesBefore {s t : String} : encode (ofString s) < encode (ofString t) ↔ s < t := by
  refine ⟨fun less => ?_,fun less => encodeBefore (String.lt_iff_toList_lt.mp less)⟩
  rcases lt_trichotomy s t with before | rfl | behind
  · exact before
  · exact absurd less (List.lt_irrefl _)
  · exact absurd less (List.lt_asymm (encodeBefore (String.lt_iff_toList_lt.mp behind)))

end Terakoya.Text
