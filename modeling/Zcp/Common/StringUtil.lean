import Mathlib.Data.Int.Notation
import Mathlib.Data.List.Basic

/-!
Reference: `common/stringutil.cpp`.

The parts of the string helpers that recode bytes: the escapes of an url and the two functions that turn Unix line ends
into those of mail. A `std::string` is the list of its bytes, and `char` is the signed type it is on the supported
platforms.
-/

namespace Zcp.Common.StringUtil

/-- The value of a byte held in a `char`. -/
def char (c : UInt8) : ℤ := c.toInt8.toInt

/-- One hexadecimal digit: it "expects sensible input", and what it makes of another character is an `unsigned char`. -/
def x2b (c : UInt8) : UInt8 :=
  if char 48 ≤ char c ∧ char c ≤ char 57 then c - 48
  else if char 97 ≤ char c then c - 97 + 10
  else c - 65 + 10

/-- `static const char digits[] = "0123456789ABCDEF"`. -/
def digits : List UInt8 := [48, 49, 50, 51, 52, 53, 54, 55, 56, 57, 65, 66, 67, 68, 69, 70]

/-- The case labels of `urlEncode`: `: / ? # [ ] @ ! $ & ' ( ) * + , ; =`. -/
def reserved : List UInt8 := [58, 47, 63, 35, 91, 93, 64, 33, 36, 38, 39, 40, 41, 42, 43, 44, 59, 61]

/-- `'%'`, `digits[c >> 4]` and `digits[c & 0x0F]`. -/
def escaped (c : UInt8) : List UInt8 :=
  [37, digits.getD (char c / 16).toNat 0, digits.getD (char c % 16).toNat 0]

/-- What one turn of the loop of `urlEncode` appends. -/
def urlEncodeChar (c : UInt8) : List UInt8 :=
  if char c ≤ 127 then
    if c ∈ reserved then escaped c else [c]
  else
    escaped c

def urlEncode (input : List UInt8) : List UInt8 := input.flatMap urlEncodeChar

/-- `input.length() > i + 2` says that two characters follow the `'%'`. -/
def urlDecode : List UInt8 → List UInt8
  | [] => []
  | [c] => [c]
  | [c, d] => [c, d]
  | c :: h :: l :: rest =>
    if c = 37 then (x2b h <<< 4 ||| x2b l) :: urlDecode rest
    else c :: urlDecode (h :: l :: rest)

/-- The loop of `StringLFtoCRLF`; `last` is `*(i - 1)`, and nothing where `i` is `strInOut.begin()`. -/
def lfToCrlfLoop : Option UInt8 → List UInt8 → List UInt8
  | _, [] => []
  | last, c :: rest =>
    (if c = 10 ∧ last ≠ none ∧ last ≠ some 13 then [13, 10] else [c]) ++ lfToCrlfLoop (some c) rest

def StringLFtoCRLF (strInOut : List UInt8) : List UInt8 := lfToCrlfLoop none strInOut

/-- The bytes written to `output` before its `'\0'`; `*outsize` is their number. -/
def BufferLFtoCRLF : List UInt8 → List UInt8
  | [] => []
  | c :: rest =>
    if c = 13 then
      match rest with
      | [] => [13, 10]
      | d :: rest' =>
        if d = 10 then 13 :: 10 :: BufferLFtoCRLF rest'
        else 13 :: 10 :: BufferLFtoCRLF (d :: rest')
    else if c = 10 then 13 :: 10 :: BufferLFtoCRLF rest
    else c :: BufferLFtoCRLF rest

end Zcp.Common.StringUtil
