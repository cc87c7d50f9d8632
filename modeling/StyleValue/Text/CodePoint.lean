/-!
# Classes of code points

The classes that the grammar of tokens is written in. They are predicates on ordinals, so that a
surrogate can be asked about as well; a character is in the class that its ordinal is in.
-/

set_option autoImplicit false

namespace StyleValue

namespace Ordinal

def isSurrogate (n : Nat) : Bool := 0xd800 ≤ n && n ≤ 0xdfff

def isDigit (n : Nat) : Bool := 0x30 ≤ n && n ≤ 0x39

def isHexDigit (n : Nat) : Bool := isDigit n || (0x41 ≤ n && n ≤ 0x46) || (0x61 ≤ n && n ≤ 0x66)

def isNewline (n : Nat) : Bool := n == 0x0a

def isWhitespace (n : Nat) : Bool := isNewline n || n == 0x09 || n == 0x20

def identRanges : List (Nat × Nat) := [
  (0x00b7, 0x00b7), (0x00c0, 0x00d6), (0x00d8, 0x00f6), (0x00f8, 0x037d), (0x037f, 0x1fff),
  (0x200c, 0x200d), (0x203f, 0x2040), (0x2070, 0x218f), (0x2c00, 0x2fef), (0x3001, 0xd7ff),
  (0xf900, 0xfdcf), (0xfdf0, 0xfffd)]

def isNonAsciiIdent (n : Nat) : Bool :=
  0x10000 ≤ n || identRanges.any fun (first, last) => first ≤ n && n ≤ last

def isIdentStart (n : Nat) : Bool :=
  (0x41 ≤ n && n ≤ 0x5a) || (0x61 ≤ n && n ≤ 0x7a) || isNonAsciiIdent n || n == 0x5f

def isIdent (n : Nat) : Bool := isIdentStart n || isDigit n || n == 0x2d

def isNonPrintable (n : Nat) : Bool :=
  n ≤ 0x08 || n == 0x0b || (0x0e ≤ n && n ≤ 0x1f) || n == 0x7f

/-- The class memberships of a code point, or of the end of input, which is in no class: digit,
hexadecimal digit, part of a name, start of a name, newline, part of a name beyond ASCII,
non-printable, white space. -/
def profile : Option Nat → List Bool
  | none => List.replicate 8 false
  | some n => [isDigit n, isHexDigit n, isIdent n, isIdentStart n, isNewline n, isNonAsciiIdent n,
      isNonPrintable n, isWhitespace n]

end Ordinal

def isDigit (c : Char) : Bool := Ordinal.isDigit c.toNat
def isHexDigit (c : Char) : Bool := Ordinal.isHexDigit c.toNat
def isNewline (c : Char) : Bool := Ordinal.isNewline c.toNat
def isWhitespace (c : Char) : Bool := Ordinal.isWhitespace c.toNat
def isIdentStart (c : Char) : Bool := Ordinal.isIdentStart c.toNat
def isIdent (c : Char) : Bool := Ordinal.isIdent c.toNat
def isNonPrintable (c : Char) : Bool := Ordinal.isNonPrintable c.toNat

def replacementChar : Char := Char.ofNat 0xfffd

def hexValue (c : Char) : Nat :=
  if isDigit c then c.toNat - 0x30
  else if c.toNat < 0x61 then c.toNat - 0x41 + 10
  else c.toNat - 0x61 + 10

def ofHexDigits (digits : List Char) : Nat := digits.foldl (fun n c => 16 * n + hexValue c) 0

def charOfOrdinal (n : Nat) : Char :=
  if n = 0 ∨ Ordinal.isSurrogate n ∨ 0x10ffff < n then replacementChar else Char.ofNat n

end StyleValue
