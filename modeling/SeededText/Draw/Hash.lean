/-!
# From seed material to a hash

Every draw is a pure function of a text.  The text's bytes are taken into a 64-bit word one after
another, by the FNV-1a step; then the word is finished by mixing its high bits into the low ones
and back, so that texts that differ in one character differ in the bits that draws read.

All arithmetic is modulo `2 ^ 64`.
-/

namespace SeededText.Draw

/-- The word before the first byte. -/
def offsetBasis : UInt64 := 0xcbf29ce484222325

/-- The odd factor of one step. -/
def stepFactor : UInt64 := 0x100000001b3

def step (hash : UInt64) (byte : UInt8) : UInt64 :=
  (hash ^^^ byte.toUInt64) * stepFactor

def absorbBytes (bytes : List UInt8) : UInt64 :=
  bytes.foldl step offsetBasis

/-- The high bits mixed into the low ones. -/
def foldHigh (hash : UInt64) : UInt64 :=
  hash ^^^ (hash >>> 33)

def finish (hash : UInt64) : UInt64 :=
  foldHigh (foldHigh (foldHigh hash * 0xff51afd7ed558ccd) * 0xc4ceb9fe1a85ec53)

def textHash (material : String) : UInt64 :=
  absorbBytes material.toUTF8.data.toList

/-- The hash of a text. -/
def seedHash (material : String) : UInt64 :=
  finish (textHash material)

/-! ## Draws -/

/-- A double from 0 up to but not including 1: the top 53 bits of the hash as a binary fraction. -/
def unit (material : String) : Float :=
  (seedHash material >>> 11).toFloat / 9007199254740992

/-- An index below `n`, if there is one: the unit draw spread over `n` places.  The product is cut
to a whole number below `2 ^ 64` and kept below `n`, as rounding may lift it. -/
def index? (material : String) (n : Nat) : Option Nat :=
  if n = 0 then
    none
  else
    let scaled := (unit material * (UInt64.ofNat n).toFloat).toUInt64.toNat
    some (min scaled (n - 1))

end SeededText.Draw
