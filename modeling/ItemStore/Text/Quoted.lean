import ItemStore.Text.Printable

/-
  Texts and byte strings as they appear inside printed values: between single quotes, or between
  double quotes when the content has a single quote and no double one. The backslash, the quote in
  use, line feed, carriage return and tab get a backslash; anything else that is not printable is
  written by its code in hexadecimal.
-/

namespace ItemStore.Text

/-- `n` in lower-case hexadecimal, at least `width` digits. -/
def hexDigits (width n : Nat) : List Char :=
  let ds := Nat.toDigits 16 n
  List.replicate (width - ds.length) '0' ++ ds

/-- The quote that surrounds a content with these characters. -/
def quoteFor (hasSingle hasDouble : Bool) : Char :=
  if hasSingle && !hasDouble then '"' else '\''

/-- One character of a quoted text. -/
def quotedChar (quote c : Char) : List Char :=
  let n := c.toNat
  if c == '\\' || c == quote then ['\\', c]
  else if c == '\n' then ['\\', 'n']
  else if c == '\r' then ['\\', 'r']
  else if c == '\t' then ['\\', 't']
  else if isPrintable c then [c]
  else if n < 0x100 then '\\' :: 'x' :: hexDigits 2 n
  else if n < 0x10000 then '\\' :: 'u' :: hexDigits 4 n
  else '\\' :: 'U' :: hexDigits 8 n

/-- A text between quotes. -/
def quoted (s : String) : String :=
  let cs := s.toList
  let q := quoteFor (cs.contains '\'') (cs.contains '"')
  String.ofList (q :: (cs.flatMap (quotedChar q) ++ [q]))

/-- One byte of a quoted byte string; bytes outside printable ASCII are written by their code. -/
def quotedByte (guarded : Char) (b : UInt8) : List Char :=
  let c := Char.ofNat b.toNat
  if c == '\\' || c == guarded then ['\\', c]
  else if c == '\n' then ['\\', 'n']
  else if c == '\r' then ['\\', 'r']
  else if c == '\t' then ['\\', 't']
  else if 32 ≤ b.toNat ∧ b.toNat < 127 then [c]
  else '\\' :: 'x' :: hexDigits 2 b.toNat

/-- The quote that surrounds a byte string. -/
def quoteForBytes (bs : List UInt8) : Char := quoteFor (bs.contains 39) (bs.contains 34)

/-- A byte string between quotes, marked by a leading `b`; the quote with a backslash is `guarded`. -/
def quotedBytesWith (guarded : Char) (bs : List UInt8) : String :=
  let q := quoteForBytes bs
  String.ofList ('b' :: q :: (bs.flatMap (quotedByte guarded) ++ [q]))

/-- A byte string between quotes. -/
def quotedBytes (bs : List UInt8) : String := quotedBytesWith (quoteForBytes bs) bs

/-- A byte string that can grow, between quotes: a single quote has a backslash between either
    quotes. -/
def quotedGrowingBytes (bs : List UInt8) : String := quotedBytesWith '\'' bs

end ItemStore.Text
