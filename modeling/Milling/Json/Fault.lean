import Milling.Document.Mismatch

/-!
# What can be wrong with a JSON text

A text can stop too early, break the grammar, or be well formed and not fit what
is read from it. Readers stop at the first fault they meet from the left.
-/

namespace Milling.Json

/-- What a text was in the middle of when it stopped. -/
inductive Part where
  | value
  | list
  | object
  | text
deriving DecidableEq, Repr

/-- How a text breaks the grammar. -/
inductive Breach where
  | noValue
  | noWord
  | noColon
  | noListSeparator
  | noObjectSeparator
  | keyNotText
  | trailingComma
  | trailingCharacters
  | badNumber
  | numberTooLarge
  | badEscape
  | bareControl
  /-- One half of a surrogate pair stands where it has no other half. -/
  | loneSurrogate
  /-- The first half of a surrogate pair is not followed by an escape. -/
  | halfPair
  | tooDeep
deriving DecidableEq, Repr

/-- Why a JSON text could not be read. -/
inductive Fault where
  | stopped (part : Part)
  | breach (b : Breach)
  | mismatch (m : Mismatch)
deriving DecidableEq

/-- What the text was in the middle of, in words. -/
def Part.message : Part → String
  | .value => "EOF while parsing a value"
  | .list => "EOF while parsing a list"
  | .object => "EOF while parsing an object"
  | .text => "EOF while parsing a string"

/-- The breach in words. -/
def Breach.message : Breach → String
  | .noValue => "expected value"
  | .noWord => "expected ident"
  | .noColon => "expected `:`"
  | .noListSeparator => "expected `,` or `]`"
  | .noObjectSeparator => "expected `,` or `\x7d`"
  | .keyNotText => "key must be a string"
  | .trailingComma => "trailing comma"
  | .trailingCharacters => "trailing characters"
  | .badNumber => "invalid number"
  | .numberTooLarge => "number out of range"
  | .badEscape => "invalid escape"
  | .bareControl => "control character (\\u0000-\\u001F) found while parsing a string"
  | .loneSurrogate => "lone leading surrogate in hex escape"
  | .halfPair => "unexpected end of hex escape"
  | .tooDeep => "recursion limit exceeded"

/-- The fault in words. -/
def Fault.message : Fault → String
  | .stopped part => part.message
  | .breach b => b.message
  | .mismatch m => m.message Double.compact

end Milling.Json
