import ScriptLink.Text.CodePoint
import ScriptLink.Text.Printable

/-! # Quoted text

    The way in which texts and byte strings stand in messages: between quotes, with escapes. The quote is a single
    one unless the content has a single quote and no double one. Printable characters stand for themselves; in byte
    strings only ASCII is printable. -/

namespace ScriptLink.Quoted

/-- The quote that stands around this content. -/
def quoteFor (content : Text) : CodePoint :=
  if 0x27 ∈ content ∧ 0x22 ∉ content then 0x22 else 0x27

/-- The escapes shared by texts and byte strings: the backslash, the quote itself, tab, newline and return. -/
def shortEscape (quote c : CodePoint) : Option Text :=
  if c = 0x5C ∨ c = quote then some [0x5C, c]
  else if c = 0x09 then some [0x5C, 0x74]
  else if c = 0x0A then some [0x5C, 0x6E]
  else if c = 0x0D then some [0x5C, 0x72]
  else none

/-- A numeric escape: two, four or eight digits after x, u or U. -/
def numericEscape (c : CodePoint) : Text :=
  if c.val < 0x100 then [0x5C, 0x78] ++ Text.hex 2 c.val
  else if c.val < 0x10000 then [0x5C, 0x75] ++ Text.hex 4 c.val
  else [0x5C, 0x55] ++ Text.hex 8 c.val

/-- A character of a text inside the given quotes. -/
def escapeChar (quote c : CodePoint) : Text :=
  match shortEscape quote c with
  | some escaped => escaped
  | none => if Printable.isPrintable c.val then [c] else numericEscape c

/-- A text between quotes. -/
def text (t : Text) : Text :=
  quoteFor t :: t.flatMap (escapeChar (quoteFor t)) ++ [quoteFor t]

/-- A byte of a byte string inside the given quotes. -/
def escapeByte (quote c : CodePoint) : Text :=
  match shortEscape quote c with
  | some escaped => escaped
  | none => if 0x20 ≤ c.val ∧ c.val < 0x7F then [c] else numericEscape c

/-- A byte string between quotes, marked by a leading b. -/
def bytes (bs : List UInt8) : Text :=
  let content := bs.map fun b => CodePoint.ofNat b.toNat
  0x62 :: quoteFor content :: content.flatMap (escapeByte (quoteFor content)) ++ [quoteFor content]

end ScriptLink.Quoted
