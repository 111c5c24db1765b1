import Mhda.Errors
import Mhda.Numeral

set_option autoImplicit false

namespace Mhda.Detail
open Mhda.ByteString Mhda.Errors

def asciiLower (c : Byte) : Byte := if ch 'A' ≤ c ∧ c ≤ ch 'Z' then c + 32 else c

/-- Space, tab, newline, vertical tab, form feed and carriage return. -/
def isAsciiSpace (c : Byte) : Bool :=
  c == 0x20 || c == 0x09 || c == 0x0a || c == 0x0b || c == 0x0c || c == 0x0d

def trim (s : Bytes) : Bytes := (s.dropWhile isAsciiSpace).rdropWhile isAsciiSpace

/-- RFC 3986 pchar or "/", without the separator ":" and without "%". -/
def nssByte (c : Byte) : Bool :=
  (ch 'a' ≤ c && c ≤ ch 'z') || (ch 'A' ≤ c && c ≤ ch 'Z') || (ch '0' ≤ c && c ≤ ch '9') ||
    (lit "-._~!$&'()*+,;=@/").contains c

def trimRight (s : Bytes) : Bytes := s.rdropWhile isAsciiSpace

def toLower (s : Bytes) : Bytes := s.map asciiLower

def normalize (s : Bytes) : Bytes := toLower (trim s)

def equalAsciiFold (a b : Bytes) : Bool :=
  a.length == b.length && (a.zip b).all fun p => asciiLower p.1 == asciiLower p.2

def hasPrefixFold (s pre : Bytes) : Bool :=
  if s.length < pre.length then false else equalAsciiFold (s.take pre.length) pre

def opensRqf (c : Byte) : Bool := c == ch '?' || c == ch '#'

/-- Everything from the first "?" or "#" on is cut off. -/
def stripRqf (nss : Bytes) : Bytes := nss.takeWhile fun c => !opensRqf c

/-- Empty fields between adjacent delimiters are kept. -/
def split (s : Bytes) (sep : Byte) : List Bytes := s.splitOn sep

/-- The value of one digit character, before it is compared with the base. -/
def digitOf (base : UInt64) (c : Byte) : Option UInt64 :=
  if ch '0' ≤ c ∧ c ≤ ch '9' then some (c - ch '0').toUInt64
  else if base = 16 ∧ ch 'a' ≤ c ∧ c ≤ ch 'f' then some ((c - ch 'a').toUInt64 + 10)
  else if base = 16 ∧ ch 'A' ≤ c ∧ c ≤ ch 'F' then some ((c - ch 'A').toUInt64 + 10)
  else none

def uint64Max : UInt64 := 0xFFFFFFFFFFFFFFFF

/-- The loop of `parse_in_base`; overflow is detected before the shift and add. -/
def parseInBaseLoop (base : UInt64) : UInt64 → Bytes → Option UInt64
  | value, [] => some value
  | value, c :: s =>
    match digitOf base c with
    | none => none
    | some digit =>
      if digit ≥ base then none
      else if value > (uint64Max - digit) / base then none
      else parseInBaseLoop base (value * base + digit) s

def parseInBase (s : Bytes) (base : UInt64) : Option UInt64 :=
  if s.isEmpty then none else parseInBaseLoop base 0 s

/-- The range check and the narrowing cast of `parse_uint32`. -/
def narrow32 (value : UInt64) : Option UInt32 :=
  if value > 0xFFFFFFFF then none else some value.toUInt32

/-- Plain decimal, or hexadecimal behind "0x" or "0X". -/
def parseUint32 (s : Bytes) : Option UInt32 :=
  match s with
  | [] => none
  | c₀ :: c₁ :: body =>
    if c₀ = ch '0' ∧ (c₁ = ch 'x' ∨ c₁ = ch 'X') then
      if body.isEmpty then none else (parseInBase body 16).bind narrow32
    else (parseInBase s 10).bind narrow32
  | [_] => (parseInBase s 10).bind narrow32

def parseUint31Dec (s : Bytes) : Option UInt32 :=
  (parseInBase s 10).bind fun value => if value ≥ 0x80000000 then none else some value.toUInt32

def hexChars : Bytes := lit "0123456789abcdef"

def quoteByte (c : Byte) : Bytes :=
  if c = ch '"' then lit "\\\""
  else if c = 0x5c then lit "\\\\"
  else if c = 0x0a then lit "\\n"
  else if c = 0x0d then lit "\\r"
  else if c = 0x09 then lit "\\t"
  else if c < 0x20 ∨ c > 0x7e then
    lit "\\x" ++ [hexChars.getD (c >>> 4).toNat 0, hexChars.getD (c &&& 0xf).toNat 0]
  else [c]

def quote (s : Bytes) : Bytes := ch '"' :: s.flatMap quoteByte ++ [ch '"']

def validateFreeFormValue (component v : Bytes) : Except ParseError Unit :=
  if v.all nssByte then .ok ()
  else .error ⟨.invalidValue, quote v ++ lit " for " ++ quote component⟩

end Mhda.Detail
