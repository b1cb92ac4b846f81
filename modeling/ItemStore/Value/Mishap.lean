import ItemStore.Value.Printer

/-
  What goes wrong with a value by itself: it is of the wrong sort, lacks a part, or stands for nothing
  that was asked of it. A mishap has a name and a text; some texts are about a value. To put a value
  into words can be a mishap too: `printing` and `showing` give its text or this mishap, `unworded?` the
  mishap alone.
-/

namespace ItemStore

/-- A mishap of a value. -/
inductive Mishap where
  /-- a value of the wrong sort; some of these have a wording of their own -/
  | sort (text : Option String)
  /-- a value without the part asked for -/
  | part
  | value (about : Value)
  | key (key : Value)
  /-- a place behind the end of a sequence -/
  | index
  | runtime (about : Value)
  /-- a text that is no decimal number -/
  | numeral
  /-- a sum or a comparison of decimal numbers that is not defined -/
  | undefined
  /-- a decimal sum that is too large -/
  | tooLarge
  | overflow (text : String)
  /-- more bytes than there is room for -/
  | memory

namespace Mishap

/-- A value that stands for nothing, in words. -/
def worded (text : String) : Mishap := value (.text text)

def name : Mishap → String
  | sort _ => "TypeError"
  | part => "AttributeError"
  | value _ => "ValueError"
  | key _ => "KeyError"
  | index => "IndexError"
  | runtime _ => "RuntimeError"
  | numeral | undefined => "InvalidOperation"
  | tooLarge => "Overflow"
  | overflow _ => "OverflowError"
  | memory => "MemoryError"

/-- An integer with too many digits to be written. -/
def tooLong : Mishap :=
  worded ("Exceeds the limit (" ++ toString Numeral.mostDigits ++
    " digits) for integer string conversion; use sys.set_int_max_str_digits() to increase the limit")

end Mishap

namespace Value

/-- The mishap of putting a value into words that has no text of its own: a byte string in a wrapper is
    of the wrong sort, any other value holds an integer that is too long. -/
def wordless : Value → Mishap
  | blob .wrapped _ => .sort none
  | _ => .tooLong

/-- A value inside a container, or the mishap of printing it. -/
def printing (v : Value) : Except Mishap String := v.printed?.elim (.error .tooLong) .ok

/-- A value on its own, or the mishap of showing it. -/
def showing (v : Value) : Except Mishap String := v.shown?.elim (.error v.wordless) .ok

/-- The mishap of putting a value into words, if it has no text. -/
def unworded? (v : Value) : Option Mishap := if v.hasText then none else some v.wordless

end Value

namespace Mishap

/-- The text of a mishap; one without a wording of its own has a stand-in. -/
def text : Mishap → String
  | sort text => text.getD "<TypeError>"
  | part => "<TypeError>"
  | value about | runtime about => about.shown
  | key k => k.printed
  | index => "list index out of range"
  | overflow text => text
  | numeral => "[<class 'decimal.ConversionSyntax'>]"
  | undefined => "[<class 'decimal.InvalidOperation'>]"
  | tooLarge => "[<class 'decimal.Overflow'>]"
  | memory => ""

/-- What a mishap is about, as it is printed between brackets, if that can be printed. -/
def printedArgument? : Mishap → Option String
  | value about | runtime about | key about => about.printed?
  | numeral => some (text numeral)
  | undefined => some (text undefined)
  | tooLarge => some (text tooLarge)
  | m => some (Text.quoted m.text)

/-- The mishap of putting a mishap into words, if it has no text. -/
def unworded? : Mishap → Option Mishap
  | value about | runtime about => about.unworded?
  | key k => if k.isPrintable then none else some tooLong
  | _ => none

/-- Whether a mishap has a text. -/
def hasText (m : Mishap) : Bool := m.unworded?.isNone

end Mishap

end ItemStore
