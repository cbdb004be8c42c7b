/-
# The tokens of a JSON text

`lex` cuts a text into brackets, separators and scalars, leaving out blanks.
A lexical fault ends the list with the token `fault`, so that whoever reads
the tokens in order meets it at its place in the text.

Two scalars can be passed over but not read: a text with an unpaired
surrogate escape, which stands for no characters, and a number that is too
large when it is read as a float. An integer is a number without fraction and
exponent from -2^63 to 2^64 - 1; the digit 0 behind a sign is a float.

Key definitions: `Scalar`, `Token`, `pieces`, `unsignedNumber`, `lex`.
Key theorems: `token_rest_le`.
-/
import BuildFeed.Json.FloatRange

namespace BuildFeed
namespace Json

/-- A JSON value that holds no other values. -/
inductive Scalar
  | null
  | bool (b : Bool)
  | int (n : Int)
  /-- A number that is not an integer, and whether a float can hold it. -/
  | fraction (inRange : Bool)
  | text (s : String)
  /-- A text with an unpaired surrogate escape. -/
  | unpairedText
  deriving Repr, DecidableEq, Inhabited

/-- The smallest unit of a JSON text. -/
inductive Token
  | openArray
  | closeArray
  | openObject
  | closeObject
  | comma
  | colon
  | scalar (s : Scalar)
  | fault
  deriving Repr, DecidableEq, Inhabited

/-- Blank space between tokens: space, tab, line feed and carriage return. -/
def isBlank (c : Char) : Bool :=
  c = ' ' || c = '\t' || c = '\n' || c = '\r'

/-! ### Texts -/

/-- The character that a short escape stands for. -/
def unescape (c : Char) : Option Char :=
  if c = '"' then some '"'
  else if c = '\\' then some '\\'
  else if c = '/' then some '/'
  else if c = 'b' then some '\x08'
  else if c = 'f' then some '\x0c'
  else if c = 'n' then some '\n'
  else if c = 'r' then some '\r'
  else if c = 't' then some '\t'
  else none

/-- The value of a hexadecimal digit of either case. -/
def hexDigit (c : Char) : Option Nat :=
  if '0' ≤ c ∧ c ≤ '9' then some (c.toNat - 48)
  else if 'a' ≤ c ∧ c ≤ 'f' then some (c.toNat - 87)
  else if 'A' ≤ c ∧ c ≤ 'F' then some (c.toNat - 55)
  else none

/-- The value of four hexadecimal digits. -/
def hexUnit (a b c d : Char) : Option Nat := do
  let a ← hexDigit a
  let b ← hexDigit b
  let c ← hexDigit c
  let d ← hexDigit d
  return ((a * 16 + b) * 16 + c) * 16 + d

/-- A code unit that opens a surrogate pair. -/
def isLead (n : Nat) : Bool := 0xD800 ≤ n && n < 0xDC00

/-- A code unit that closes a surrogate pair. -/
def isTrail (n : Nat) : Bool := 0xDC00 ≤ n && n < 0xE000

/-- The character of a surrogate pair. -/
def pairedChar (lead trail : Nat) : Char :=
  Char.ofNat (0x10000 + (lead - 0xD800) * 0x400 + (trail - 0xDC00))

/-- What a text is written with: a character, plain or behind a short escape,
or the code unit of a hexadecimal escape. -/
inductive Piece
  | char (c : Char)
  | unit (n : Nat)
  deriving Repr, DecidableEq

/-- The pieces of a text up to its closing quote and what follows the quote;
`seen` holds the pieces before, newest first. Nothing if the text has a raw
control character or an unknown escape, or does not end. -/
def pieces (seen : List Piece) : List Char → Option (List Piece × List Char)
  | [] => none
  | '"' :: rest => some (seen.reverse, rest)
  | '\\' :: 'u' :: a :: b :: c :: d :: rest =>
    match hexUnit a b c d with
    | none => none
    | some n => pieces (.unit n :: seen) rest
  | '\\' :: c :: rest =>
    match unescape c with
    | none => none
    | some e => pieces (.char e :: seen) rest
  | c :: rest => if c.toNat < 32 then none else pieces (.char c :: seen) rest

/-- The characters of a text, or nothing if a surrogate stands alone. -/
def joinPieces : List Piece → Option (List Char)
  | [] => some []
  | .char c :: rest => (joinPieces rest).map (c :: ·)
  | .unit n :: .unit m :: rest =>
    if isLead n && isTrail m then (joinPieces rest).map (pairedChar n m :: ·)
    else if isLead n || isTrail n then none
    else (joinPieces (.unit m :: rest)).map (Char.ofNat n :: ·)
  | .unit n :: rest =>
    if isLead n || isTrail n then none
    else (joinPieces rest).map (Char.ofNat n :: ·)

/-- The scalar that the pieces of a text make. -/
def Scalar.ofPieces (ps : List Piece) : Scalar :=
  match joinPieces ps with
  | some cs => .text (String.ofList cs)
  | none => .unpairedText

/-! ### Numbers -/

/-- The longest run of digits and what follows it. -/
def digitRun (cs : List Char) : List Char × List Char :=
  (cs.takeWhile Char.isDigit, cs.dropWhile Char.isDigit)

/-- The digits behind a decimal point, if there is a point. -/
def fractionPart : List Char → Option (Option (List Char) × List Char)
  | '.' :: cs =>
    match digitRun cs with
    | ([], _) => none
    | (ds, rest) => some (some ds, rest)
  | cs => some (none, cs)

/-- The digits of an exponent and what follows them. -/
def exponentDigits (negative : Bool) (cs : List Char) : Option (Option Int × List Char) :=
  match digitRun cs with
  | ([], _) => none
  | (ds, rest) =>
    let n : Int := Nat.ofDigitChars 10 ds 0
    some (some (if negative then -n else n), rest)

/-- The exponent, if there is one. -/
def exponentPart : List Char → Option (Option Int × List Char)
  | e :: cs =>
    if e = 'e' || e = 'E' then
      match cs with
      | '+' :: cs => exponentDigits false cs
      | '-' :: cs => exponentDigits true cs
      | cs => exponentDigits false cs
    else some (none, e :: cs)
  | [] => some (none, [])

/-- The integer of a sign and digits, where 64 bits hold it: two's complement
below zero, unsigned from zero on. A zero behind a sign is a float. -/
def wholeNumber (negative : Bool) (digits : List Char) : Scalar :=
  let n := Nat.ofDigitChars 10 digits 0
  if negative then
    if 0 < n && n ≤ 0x8000000000000000 then .int (-n) else .fraction (fitsFloat digits [] 0)
  else if n < UInt64.size then .int n
  else .fraction (fitsFloat digits [] 0)

/-- A number after its sign. Its whole part has a digit, and no digit behind
a leading zero. -/
def unsignedNumber (negative : Bool) (cs : List Char) : Option (Scalar × List Char) :=
  match digitRun cs with
  | ([], _) => none
  | ('0' :: _ :: _, _) => none
  | (whole, rest) =>
    match fractionPart rest with
    | none => none
    | some (fraction, rest) =>
      match exponentPart rest with
      | none => none
      | some (none, rest) =>
        match fraction with
        | none => some (wholeNumber negative whole, rest)
        | some ds => some (.fraction (fitsFloat whole ds 0), rest)
      | some (some e, rest) => some (.fraction (fitsFloat whole (fraction.getD []) e), rest)

/-! ### The lexer -/

/-- The token whose first character is `c`, with what follows it. -/
def token (c : Char) (rest : List Char) : Option (Token × List Char) :=
  match c, rest with
  | '[', rest => some (.openArray, rest)
  | ']', rest => some (.closeArray, rest)
  | '\x7b', rest => some (.openObject, rest)
  | '\x7d', rest => some (.closeObject, rest)
  | ',', rest => some (.comma, rest)
  | ':', rest => some (.colon, rest)
  | '"', rest => (pieces [] rest).map fun (ps, rest) => (.scalar (.ofPieces ps), rest)
  | 'n', 'u' :: 'l' :: 'l' :: rest => some (.scalar .null, rest)
  | 't', 'r' :: 'u' :: 'e' :: rest => some (.scalar (.bool true), rest)
  | 'f', 'a' :: 'l' :: 's' :: 'e' :: rest => some (.scalar (.bool false), rest)
  | '-', rest => (unsignedNumber true rest).map fun (s, rest) => (.scalar s, rest)
  | c, rest => (unsignedNumber false (c :: rest)).map fun (s, rest) => (.scalar s, rest)

/-! ### Every token takes at least one character -/

theorem pieces_rest_le {seen : List Piece} {cs : List Char} {ps : List Piece} {rest : List Char}
    (h : pieces seen cs = some (ps, rest)) : rest.length ≤ cs.length := by
  fun_induction pieces seen cs with
  | case1 => simp at h
  | case2 => simp_all
  | case3 => simp at h
  | case4 seen a b c d tail n _ ih => have := ih h; simp only [List.length_cons]; omega
  | case5 => simp at h
  | case6 seen c tail _ e _ ih => have := ih h; simp only [List.length_cons]; omega
  | case7 => simp at h
  | case8 seen c tail _ _ _ _ ih => have := ih h; simp only [List.length_cons]; omega

theorem digitRun_rest_le (cs : List Char) : (digitRun cs).2.length ≤ cs.length :=
  (List.dropWhile_suffix _).length_le

theorem digitRun_rest_lt {cs : List Char} (h : (digitRun cs).1 ≠ []) :
    (digitRun cs).2.length < cs.length := by
  have := congrArg List.length (List.takeWhile_append_dropWhile (p := Char.isDigit) (l := cs))
  have := List.length_pos_iff.mpr h
  simp only [digitRun, List.length_append] at *
  omega

theorem fractionPart_rest_le {cs : List Char} {f : Option (List Char)} {rest : List Char}
    (h : fractionPart cs = some (f, rest)) : rest.length ≤ cs.length := by
  unfold fractionPart at h
  split at h
  · rename_i cs
    have := digitRun_rest_le cs
    split at h
    · simp at h
    · rename_i heq
      simp only [heq] at this
      simp only [Option.some.injEq, Prod.mk.injEq] at h
      simp only [List.length_cons, ← h.2]
      omega
  · simp only [Option.some.injEq, Prod.mk.injEq] at h
    simp [h.2]

theorem exponentDigits_rest_le {b : Bool} {cs : List Char} {e : Option Int} {rest : List Char}
    (h : exponentDigits b cs = some (e, rest)) : rest.length ≤ cs.length := by
  unfold exponentDigits at h
  have := digitRun_rest_le cs
  split at h
  · simp at h
  · rename_i heq
    simp only [heq] at this
    simp only [Option.some.injEq, Prod.mk.injEq] at h
    rw [← h.2]
    exact this

theorem exponentPart_rest_le {cs : List Char} {e : Option Int} {rest : List Char}
    (h : exponentPart cs = some (e, rest)) : rest.length ≤ cs.length := by
  unfold exponentPart at h
  split at h
  · split at h
    · split at h <;> have := exponentDigits_rest_le h <;> simp only [List.length_cons] at * <;> omega
    · simp only [Option.some.injEq, Prod.mk.injEq] at h
      simp [← h.2]
  · simp only [Option.some.injEq, Prod.mk.injEq] at h
    simp [← h.2]

theorem unsignedNumber_rest_lt {b : Bool} {cs : List Char} {s : Scalar} {rest : List Char}
    (h : unsignedNumber b cs = some (s, rest)) : rest.length < cs.length := by
  unfold unsignedNumber at h
  have hlt := @digitRun_rest_lt cs
  split at h
  · simp at h
  · simp at h
  · rename_i hne _ heq
    have hlt := hlt (by rw [heq]; exact hne)
    rw [heq] at hlt
    simp only at hlt
    split at h
    · simp at h
    · rename_i hf
      have hf := fractionPart_rest_le hf
      split at h
      · simp at h
      · rename_i he
        have he := exponentPart_rest_le he
        split at h <;> simp only [Option.some.injEq, Prod.mk.injEq] at h <;> rw [← h.2] <;> omega
      · rename_i he
        have he := exponentPart_rest_le he
        simp only [Option.some.injEq, Prod.mk.injEq] at h
        rw [← h.2]
        omega

theorem token_rest_le {c : Char} {cs : List Char} {t : Token} {rest : List Char}
    (h : token c cs = some (t, rest)) : rest.length ≤ cs.length := by
  unfold token at h
  split at h
  case h_7 =>
    obtain ⟨⟨ps, r⟩, hp, h⟩ := Option.map_eq_some_iff.mp h
    simp only [Prod.mk.injEq] at h
    exact h.2 ▸ pieces_rest_le hp
  case h_11 =>
    obtain ⟨⟨s, r⟩, hp, h⟩ := Option.map_eq_some_iff.mp h
    simp only [Prod.mk.injEq] at h
    exact h.2 ▸ Nat.le_of_lt (unsignedNumber_rest_lt hp)
  case h_12 =>
    obtain ⟨⟨s, r⟩, hp, h⟩ := Option.map_eq_some_iff.mp h
    simp only [Prod.mk.injEq] at h
    have := unsignedNumber_rest_lt hp
    rw [h.2, List.length_cons] at this
    omega
  all_goals
    simp only [Option.some.injEq, Prod.mk.injEq] at h
    simp only [← h.2, List.length_cons]
    omega

/-- The tokens of a text. A lexical fault is the last of them. -/
def lex (cs : List Char) : List Token :=
  match _hs : cs.dropWhile isBlank with
  | [] => []
  | c :: rest =>
    match _ht : token c rest with
    | none => [.fault]
    | some (t, rest') => t :: lex rest'
termination_by cs.length
decreasing_by
  have h1 := (List.dropWhile_suffix isBlank (l := cs)).length_le
  have h2 := token_rest_le _ht
  rw [_hs, List.length_cons] at h1
  omega

end Json
end BuildFeed
