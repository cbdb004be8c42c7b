/-
# Locations

Where a problem lies in a source file. A location is there to be shown and
to be navigated to; it is not an identity, and nothing checks that the file
exists.

Key definitions: `Location`, `Location.withColumn`, `Location.render`.
-/
import BuildFeed.Json.Value
import BuildFeed.Wire.Tagged

namespace BuildFeed

open Json Wire

/-- A place in a source file. -/
inductive Location
  | file (path : String)
  /-- A range of a file; the offset counts from zero. -/
  | offsetInFile (path : String) (offset length : UInt32)
  /-- A line of a file, counted from one, and a range of columns in it. -/
  | lineInFile (path : String) (line : UInt32) (column length : Option UInt32)
  deriving Repr, DecidableEq, Inhabited

/-- The decimal digits of a 32-bit number. -/
def renderUInt32 (n : UInt32) : String := String.ofList (Nat.toDigits 10 n.toNat)

namespace Location

/-- Narrows a line to a range of columns; other locations stay as they are. -/
def withColumn (column length : UInt32) : Location → Location
  | .lineInFile path line _ _ => .lineInFile path line (some column) (some length)
  | l => l

def path : Location → String
  | .file path => path
  | .offsetInFile path _ _ => path
  | .lineInFile path _ _ _ => path

/-- The offset and the length of a range. -/
def offset : Location → Option (UInt32 × UInt32)
  | .offsetInFile _ offset length => some (offset, length)
  | _ => none

/-- The location as it is shown. -/
def render : Location → String
  | .file path => path
  | .offsetInFile path offset length =>
    path ++ "@" ++ renderUInt32 offset ++ "+" ++ renderUInt32 length
  | .lineInFile path line none _ => path ++ ":" ++ renderUInt32 line
  | .lineInFile path line (some column) _ =>
    path ++ ":" ++ renderUInt32 line ++ ":" ++ renderUInt32 column

/-! ### Wire form -/

def toValue : Location → Value
  | .file path => .object [("type", .text "file"), ("path", .text path)]
  | .offsetInFile path offset length =>
    .object [("type", .text "offset_in_file"), ("path", .text path),
      ("offset", .uint32 offset), ("length", .uint32 length)]
  | .lineInFile path line column length =>
    .object [("type", .text "line_in_file"), ("path", .text path), ("line", .uint32 line),
      ("column", .ofOption .uint32 column), ("length", .ofOption .uint32 length)]

def decoder : Decoder Location :=
  tagged "type" [
    ("file", .ofRecord (file <$> .required "path" Decoder.text)),
    ("offset_in_file", .ofRecord (offsetInFile <$> .required "path" Decoder.text
      <*> .required "offset" Decoder.uint32 <*> .required "length" Decoder.uint32)),
    ("line_in_file", .ofRecord (lineInFile <$> .required "path" Decoder.text
      <*> .required "line" Decoder.uint32 <*> .optional "column" Decoder.uint32
      <*> .optional "length" Decoder.uint32))]

end Location

end BuildFeed
