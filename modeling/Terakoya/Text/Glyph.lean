/-! Text as it is read from a file: characters, and the bytes that belong to no character.
A stray byte counts as one unit of width one and reads as the replacement character. -/
namespace Terakoya

inductive Glyph where
  | char (c : Char)
  | stray (b : UInt8)
  deriving DecidableEq, Repr

abbrev Text := List Glyph

namespace Glyph

def width : Glyph → Nat
  | char c => c.utf8Size
  | stray _ => 1

def toChar : Glyph → Char
  | char c => c
  | stray _ => '�'

def bytes : Glyph → List UInt8
  | char c => String.utf8EncodeChar c
  | stray b => [b]

/-- Whether a glyph is the given character itself, and no stray byte. -/
def is (c : Char) : Glyph → Bool
  | char d => c == d
  | stray _ => false

def newline : Glyph := char '\n'

end Glyph

namespace Text

def ofString (s : String) : Text := s.toList.map .char

def toString (t : Text) : String := String.ofList (t.map Glyph.toChar)

def width : Text → Nat
  | [] => 0
  | g :: t => g.width + width t

def encode (t : Text) : List UInt8 := t.flatMap Glyph.bytes

def isContinuation (b : UInt8) : Bool := 0x80 ≤ b && b < 0xC0

def payload (b : UInt8) : Nat := b.toNat % 64

/-- The character that begins with byte `b`, with the number of bytes it takes after it. Overlong
forms, surrogates and numbers past the last code point are no characters. -/
def leading? (b : UInt8) (rest : List UInt8) : Option (Char × Nat) :=
  if b < 0x80 then some (Char.ofNat b.toNat, 0)
  else if 0xC2 ≤ b && b < 0xE0 then
    match rest with
    | c :: _ =>
      if isContinuation c then some (Char.ofNat ((b.toNat % 32) * 64 + payload c), 1) else none
    | _ => none
  else if 0xE0 ≤ b && b < 0xF0 then
    match rest with
    | c :: d :: _ =>
      let n := (b.toNat % 16) * 4096 + payload c * 64 + payload d
      if isContinuation c && isContinuation d && 0x800 ≤ n && !(0xD800 ≤ n && n ≤ 0xDFFF) then
        some (Char.ofNat n, 2)
      else none
    | _ => none
  else if 0xF0 ≤ b && b < 0xF5 then
    match rest with
    | c :: d :: e :: _ =>
      let n := (b.toNat % 8) * 262144 + payload c * 4096 + payload d * 64 + payload e
      if isContinuation c && isContinuation d && isContinuation e && 0x10000 ≤ n && n ≤ 0x10FFFF then
        some (Char.ofNat n, 3)
      else none
    | _ => none
  else none

/-- Reads bytes, the first `skip` of which belong to a character already read. -/
def decodeAfter : (skip : Nat) → List UInt8 → Text
  | _, [] => []
  | skip + 1, _ :: rest => decodeAfter skip rest
  | 0, b :: rest =>
    match leading? b rest with
    | some (c, more) => .char c :: decodeAfter more rest
    | none => .stray b :: decodeAfter 0 rest

/-- Reads bytes as text: a byte with which no character begins stands for itself. -/
def decode (bytes : List UInt8) : Text := decodeAfter 0 bytes

def firstLine (t : Text) : Text := t.takeWhile (· ≠ .newline)

def trimRight (p : Glyph → Bool) (t : Text) : Text := (t.reverse.dropWhile p).reverse

end Text
end Terakoya
