/-! Bytes read as text: UTF-8, UTF-16 and Latin-1. -/
namespace Galley.Text

/-- The character at a code point; surrogates and numbers beyond the last code point are none. -/
def char? (n : Nat) : Option Char := if n.isValidChar then some (Char.ofNat n) else none

def ofUtf8? (b : List UInt8) : Option (List Char) :=
  (b.toByteArray.utf8Decode?).map Array.toList

def ofLatin1 (b : List UInt8) : List Char := b.map fun x => Char.ofNat x.toNat

/-- Pairs of bytes as numbers, the high byte first; a missing last byte is 0. -/
def bigEndianPairs : List UInt8 → List Nat
  | [] => []
  | [a] => [a.toNat * 256]
  | a :: b :: r => (a.toNat * 256 + b.toNat) :: bigEndianPairs r

def isHighSurrogate (n : Nat) : Bool := 0xD800 ≤ n && n < 0xDC00

def isLowSurrogate (n : Nat) : Bool := 0xDC00 ≤ n && n < 0xE000

def ofSurrogates (high low : Nat) : Char :=
  Char.ofNat (0x10000 + (high - 0xD800) * 0x400 + (low - 0xDC00))

def replacement : Char := '\ufffd'

/-- Reads UTF-16 units; a surrogate without its partner becomes the replacement character. -/
def ofUtf16 : List Nat → List Char
  | [] => []
  | [n] => [if isHighSurrogate n || isLowSurrogate n then replacement else Char.ofNat n]
  | n :: m :: r =>
    if isHighSurrogate n then
      if isLowSurrogate m then ofSurrogates n m :: ofUtf16 r
      else replacement :: ofUtf16 (m :: r)
    else if isLowSurrogate n then replacement :: ofUtf16 (m :: r)
    else Char.ofNat n :: ofUtf16 (m :: r)

def utf8Bytes (c : Char) : List UInt8 := String.utf8EncodeChar c

end Galley.Text
