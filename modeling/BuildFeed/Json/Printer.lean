/-
# The compact text of a JSON value

`Value.render` writes a value without any blank, the fields of an object in
their own order. A text escapes the quote, the reverse solidus and the
control characters below U+0020, and nothing else: the five control
characters with a short form take it, the others are written as `u00` and
two hexadecimal digits in lower case.

Key definitions: `escape`, `quote`, `Value.print`, `Value.render`.
-/
import BuildFeed.Json.Value

namespace BuildFeed
namespace Json

/-- The written form of one character inside a text. -/
def escape (c : Char) : List Char :=
  if c = '"' then ['\\', '"']
  else if c = '\\' then ['\\', '\\']
  else if c = '\x08' then ['\\', 'b']
  else if c = '\t' then ['\\', 't']
  else if c = '\n' then ['\\', 'n']
  else if c = '\x0c' then ['\\', 'f']
  else if c = '\r' then ['\\', 'r']
  else if c.toNat < 32 then
    ['\\', 'u', '0', '0', (c.toNat / 16).digitChar, (c.toNat % 16).digitChar]
  else [c]

/-- A text between quotes. -/
def quote (cs : List Char) : List Char :=
  '"' :: (cs.flatMap escape ++ ['"'])

/-- The decimal digits of an integer after its sign. -/
def printInt : Int → List Char
  | .ofNat n => Nat.toDigits 10 n
  | .negSucc n => '-' :: Nat.toDigits 10 (n + 1)

namespace Value

mutual

/-- The compact text of a value. -/
def print : Value → List Char
  | .null => ['n', 'u', 'l', 'l']
  | .bool true => ['t', 'r', 'u', 'e']
  | .bool false => ['f', 'a', 'l', 's', 'e']
  | .int n => printInt n
  | .text s => quote s.toList
  | .array [] => ['[', ']']
  | .array (v :: rest) => '[' :: (print v ++ printItems rest)
  | .object [] => ['\x7b', '\x7d']
  | .object ((name, v) :: rest) =>
    '\x7b' :: (quote name.toList ++ ':' :: (print v ++ printFields rest))

/-- The items after the first, each behind a comma, and the closing bracket. -/
def printItems : List Value → List Char
  | [] => [']']
  | v :: rest => ',' :: (print v ++ printItems rest)

/-- The fields after the first, each behind a comma, and the closing brace. -/
def printFields : List (String × Value) → List Char
  | [] => ['\x7d']
  | (name, v) :: rest => ',' :: (quote name.toList ++ ':' :: (print v ++ printFields rest))

end

/-- The compact text of a value as a string. -/
def render (v : Value) : String := String.ofList v.print

end Value

end Json
end BuildFeed
