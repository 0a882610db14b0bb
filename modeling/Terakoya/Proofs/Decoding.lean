import Mathlib.Tactic.SplitIfs
import Terakoya.Text.Glyph

/-! Texts and their bytes. Decoding loses no byte, and a text is what its bytes are decoded to if no run of stray
bytes in it begins with a character. -/
namespace Terakoya.Text

/-! The bytes of a character -/

theorem continuationIff {b : UInt8} : isContinuation b ↔ b.toNat = 128 + payload b := by
  have below := b.toNat_lt
  simp only [isContinuation,payload,UInt8.lt_iff_toNat_lt,UInt8.le_iff_toNat_le,Bool.and_eq_true,decide_eq_true_eq,UInt8.reduceToNat]
  omega

theorem leadingBytes {b x c more} (leads : leading? b x = some (c,more)) :
    more ≤ x.length ∧ String.utf8EncodeChar c = b :: x.take more := by
  have below := b.toNat_lt
  have low (d : UInt8) : payload d = d.toNat % 64 := rfl
  have number {n : Nat} (valid : n.isValidChar) : (Char.ofNat n).val.toNat = n := by
    rw [Char.ofNat,dif_pos valid]
    rfl
  simp only [leading?,UInt8.lt_iff_toNat_lt,UInt8.le_iff_toNat_le,Bool.and_eq_true,decide_eq_true_eq,Bool.not_eq_true',
    decide_eq_false_iff_not,Bool.and_eq_false_iff,UInt8.reduceToNat,continuationIff] at leads
  repeat' split at leads
  all_goals cases leads
  all_goals
    refine ⟨by simp,?_⟩
    simp only [low] at *
    simp only [String.utf8EncodeChar]
    rw [number (by unfold Nat.isValidChar; omega)]
    split_ifs <;> simp only [List.take_succ_cons,List.take_zero,List.cons.injEq,← UInt8.toNat_inj,UInt8.toNat_ofNat',and_true,
      reduceCtorEq] <;> omega

theorem leadingStops (b : UInt8) (x : List UInt8) {s : UInt8} (stop : isContinuation s = false) (y : List UInt8) :
    leading? b (x ++ s :: y) = leading? b x := by
  unfold leading?
  split
  · rfl
  · rcases x with _ | ⟨c,_ | ⟨d,_ | ⟨e,x⟩⟩⟩
    all_goals rcases y with _ | ⟨f,_ | ⟨g,y⟩⟩ <;> simp [stop]

/-! The bytes of a text -/

theorem widthEncoded (t : Text) : width t = (encode t).length := by
  induction t with
  | nil => rfl
  | cons g t ih =>
    rw [width,encode,List.flatMap_cons,List.length_append,ih]
    cases g with
    | char c => exact congrArg (· + _) (String.length_utf8EncodeChar c).symm
    | stray b => rfl

theorem encodeDecodedAfter {skip : Nat} {x : List UInt8} (within : skip ≤ x.length) :
    encode (decodeAfter skip x) = x.drop skip := by
  induction x generalizing skip with
  | nil => exact (Nat.le_zero.mp within) ▸ rfl
  | cons b x ih =>
    cases skip with
    | succ skip => exact ih (Nat.le_of_succ_le_succ within)
    | zero =>
      rw [decodeAfter]
      cases leads : leading? b x with
      | none => exact congrArg (b :: ·) (ih (Nat.zero_le _))
      | some first =>
        obtain ⟨enough,bytes⟩ := leadingBytes leads
        show String.utf8EncodeChar first.1 ++ encode (decodeAfter first.2 x) = _
        rw [bytes,ih enough,List.cons_append,List.take_append_drop,List.drop_zero]

theorem encodeDecoded (bytes : List UInt8) : encode (decode bytes) = bytes := encodeDecodedAfter (Nat.zero_le _)

theorem widthDecoded (bytes : List UInt8) : width (decode bytes) = bytes.length := by
  rw [widthEncoded,encodeDecoded]

def strays : Text → List UInt8
  | .stray b :: t => b :: strays t
  | _ => []

end Terakoya.Text
