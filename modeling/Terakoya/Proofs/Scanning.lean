import Terakoya.Emit.Literal
import Terakoya.Proofs.Lexemes
import Terakoya.Proofs.Lines
import Terakoya.Source.Scanner

/-! A cursor over the bytes of a normalized text. The text is what its bytes are decoded to, stray bytes included, so
that the places which reading leads to lie between characters. A text that is written as a literal is read back, and
the cursor then stands right behind it. -/
namespace Terakoya

/-! Normalizing keeps stray bytes apart -/

namespace Text

end Text

/-! Steps of a scanner -/

def Scanner.after (s : Scanner) (steps : List Scan) : Scanner := steps.foldl (fun s scan => (s.step scan).2) s

def Scan.returns : Scan → Bool
  | .skipLine _ | .restore _ => true
  | _ => false

namespace Cursor

end Cursor

namespace Scanner

open Cursor
open Text (encode decode normalize ofString)

variable {s : Scanner} {t : Text}

structure Placed (t : Text) (s : Scanner) : Prop where
  input : s.input = t
  cursor : (start t).Ahead s.cursor
  saved : ∀ kept ∈ s.saved, (start t).Ahead kept.2

theorem escapeSpelled {c : Char} (other : c ≠ '\r') : (Emit.escape c).map Glyph.char = Layout.escape c := by
  unfold Emit.escape
  split <;> simp_all [Layout.escape]

theorem quoteSpelled {text : String} (plain : '\r' ∉ text.toList) : ofString (Emit.quote text) = Layout.quoted text := by
  have inside : text.toList.flatMap (fun c => (Emit.escape c).map Glyph.char) = text.toList.flatMap Layout.escape :=
    congrArg List.flatten (List.map_congr_left fun c there => escapeSpelled fun same => plain (same ▸ there))
  simp [ofString,Emit.quote,Layout.quoted,List.map_flatMap,inside]

theorem literalsAreReadBack (text : String) (plain : '\r' ∉ text.toList) (r : Text) (s : Scanner) (pos : Nat) :
    (s.goto ⟨pos,ofString (Emit.quote text) ++ r⟩).step .quoted =
      (.reading text true,s.goto ⟨pos + (Emit.quote text).utf8ByteSize,r⟩) := by
  obtain ⟨last,reading⟩ := quotedRead text r pos
  rw [← quoteSpelled plain] at reading
  obtain ⟨u,across⟩ := aheadText ⟨pos,ofString (Emit.quote text) ++ r⟩
  rw [reading] at across
  have same : ofString (Emit.quote text) = u := List.append_cancel_right across.rest
  have behind : last = pos + (Emit.quote text).utf8ByteSize := by
    rw [← Text.widthOfString,same]
    exact across.pos
  simp only [step,goto,reading,behind,String.ofList_toList]

theorem slashesAndQuotesAreReadBack : '\r' ∉ "\\\"\n\t\x00n".toList ∧ ∀ s : Scanner,
    (s.goto ⟨7,ofString (Emit.quote "\\\"\n\t\x00n") ++ ofString "\\n\""⟩).step .quoted =
      (.reading "\\\"\n\t\x00n" true,s.goto ⟨19,ofString "\\n\""⟩) :=
  ⟨by decide,fun s => literalsAreReadBack _ (by decide) _ s 7⟩

end Scanner
end Terakoya
