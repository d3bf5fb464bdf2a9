import DeclarationChecker.Text.CodePoints

set_option autoImplicit false

namespace DeclarationChecker.Text.Utf8

inductive Flaw where
  | invalidStart
  | invalidContinuation
  | truncated
  deriving DecidableEq, Repr

def Flaw.describe : Flaw → String
  | .invalidStart => "invalid start byte"
  | .invalidContinuation => "invalid continuation byte"
  | .truncated => "unexpected end of data"

structure DecodeError where
  offset : Nat
  first : UInt8
  following : List UInt8
  flaw : Flaw
  deriving DecidableEq, Repr

def hexDigit (n : Nat) : Char := Nat.digitChar (n % 16)

def DecodeError.message (e : DecodeError) : String :=
  let place := match e.following with
    | [] =>
      let code := String.ofList [hexDigit (e.first.toNat / 16), hexDigit e.first.toNat]
      s!"byte 0x{code} in position {e.offset}"
    | _ :: _ => s!"bytes in position {e.offset}-{e.offset + e.following.length}"
  s!"'utf-8' codec can't decode {place}: {e.flaw.describe}"

structure ByteRange where
  low : Nat
  high : Nat
  deriving DecidableEq, Repr

def ByteRange.contains (r : ByteRange) (b : UInt8) : Bool := r.low ≤ b.toNat && b.toNat ≤ r.high

def anyTail : ByteRange := ⟨0x80, 0xBF⟩

/-- What a first byte says about its character: the leading bits of the code point, and the
bytes that have to follow. The narrower ranges keep out surrogates, longer spellings of shorter
code points, and code points above U+10FFFF. -/
def lead? (b : UInt8) : Option (Nat × List ByteRange) :=
  let n := b.toNat
  if n < 0x80 then some (n, [])
  else if n < 0xC2 then none
  else if n < 0xE0 then some (n - 0xC0, [anyTail])
  else if n = 0xE0 then some (0, [⟨0xA0, 0xBF⟩, anyTail])
  else if n = 0xED then some (0xD, [⟨0x80, 0x9F⟩, anyTail])
  else if n < 0xF0 then some (n - 0xE0, [anyTail, anyTail])
  else if n = 0xF0 then some (0, [⟨0x90, 0xBF⟩, anyTail, anyTail])
  else if n < 0xF4 then some (n - 0xF0, [anyTail, anyTail, anyTail])
  else if n = 0xF4 then some (4, [⟨0x80, 0x8F⟩, anyTail, anyTail])
  else none

structure Begun where
  first : UInt8
  following : List UInt8
  code : Nat

mutual

def decodeFrom (offset : Nat) : List UInt8 → Except DecodeError (List Char)
  | [] => .ok []
  | b :: rest =>
    match lead? b with
    | none => .error ⟨offset, b, [], .invalidStart⟩
    | some (code, []) => (decodeFrom (offset + 1) rest).map (Char.ofNat code :: ·)
    | some (code, range :: ranges) => decodeTail offset ⟨b, [], code⟩ range ranges rest

/-- Reads on inside a character that started at `offset` and still needs a byte of `range` and
one of each of `ranges`. -/
def decodeTail (offset : Nat) (begun : Begun) (range : ByteRange) (ranges : List ByteRange) :
    List UInt8 → Except DecodeError (List Char)
  | [] => .error ⟨offset, begun.first, begun.following, .truncated⟩
  | b :: rest =>
    if range.contains b then
      let code := begun.code * 64 + (b.toNat - 0x80)
      let following := begun.following ++ [b]
      match ranges with
      | [] => (decodeFrom (offset + 1 + following.length) rest).map (Char.ofNat code :: ·)
      | next :: later => decodeTail offset ⟨begun.first, following, code⟩ next later rest
    else .error ⟨offset, begun.first, begun.following, .invalidContinuation⟩

end

def decode (bytes : List UInt8) : Except DecodeError (List Char) := decodeFrom 0 bytes

/-! ### Writing -/

/-- Surrogates in a row, the first of a text. -/
structure EncodeError where
  offset : Nat
  first : CodePoint
  length : Nat
  deriving DecidableEq, Repr

def EncodeError.message (e : EncodeError) : String :=
  let place :=
    if e.length = 1 then
      let code := String.ofList (escapeCode e.first.val)
      s!"character '{code}' in position {e.offset}"
    else s!"characters in position {e.offset}-{e.offset + e.length - 1}"
  s!"'utf-8' codec can't encode {place}: surrogates not allowed"

def encode (text : CodePoints) : Except EncodeError String :=
  match text.toList.dropWhile fun p => !p.isSurrogate with
  | [] => .ok (String.ofList (text.toList.map CodePoint.toChar))
  | first :: rest =>
    let before := text.toList.takeWhile fun p => !p.isSurrogate
    .error ⟨before.length, first, (rest.takeWhile CodePoint.isSurrogate).length + 1⟩

end DeclarationChecker.Text.Utf8
