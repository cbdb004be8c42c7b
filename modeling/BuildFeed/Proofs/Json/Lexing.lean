/-
# The tokens of a printed value

What `Value.print` writes is cut by `lex` into the tokens that the value is
made of (`lex_print`), if its integers are such as 64 bits hold: an escaped
text gives back its characters (`joinPieces_escaped`), and the digits of a
number end where what follows is a separator, a closing bracket or nothing
(`Delimited`).

Key definitions: `Value.tokens`, `Value.InRange`, `Delimited`.
Key theorems: `pieces_escaped`, `joinPieces_escaped`, `unsignedNumber_toDigits`, `lex_print`.
-/
import BuildFeed.Json.Printer
import BuildFeed.Json.Token
import Mathlib.Data.Nat.Basic

namespace BuildFeed
namespace Json

/-! ### Texts -/

/-- The piece that a character is written with. -/
def pieceOf (c : Char) : Piece :=
  if c = '\x08' ∨ c = '\t' ∨ c = '\n' ∨ c = '\x0c' ∨ c = '\r' then .char c
  else if c.toNat < 32 then .unit c.toNat
  else .char c

theorem hexDigit_digitChar {n : Nat} (h : n < 16) : hexDigit n.digitChar = some n := by
  have hall : ∀ m : Fin 16, hexDigit m.val.digitChar = some m.val := by decide
  exact hall ⟨n, h⟩

/-- A plain character of a text is a piece. -/
theorem pieces_plain {c : Char} (hq : c ≠ '"') (hb : c ≠ '\\') (h : ¬ c.toNat < 32)
    (seen : List Piece) (rest : List Char) :
    pieces seen (c :: rest) = pieces (.char c :: seen) rest := by
  rw [pieces.eq_def]
  split
  · next heq => simp at heq
  · next heq => exact absurd (List.cons.inj heq).1 hq
  · next heq => exact absurd (List.cons.inj heq).1 hb
  · next heq => exact absurd (List.cons.inj heq).1 hb
  · next heq =>
    obtain ⟨rfl, rfl⟩ := List.cons.inj heq
    rw [if_neg h]

/-- The hexadecimal escape of a control character. -/
theorem pieces_unit {n : Nat} (h : n < 256) (seen : List Piece) (rest : List Char) :
    pieces seen ('\\' :: 'u' :: '0' :: '0' :: (n / 16).digitChar :: (n % 16).digitChar :: rest) =
      pieces (.unit n :: seen) rest := by
  have hunit : hexUnit '0' '0' (n / 16).digitChar (n % 16).digitChar = some n := by
    rw [hexUnit, hexDigit_digitChar (by omega), hexDigit_digitChar (by omega)]
    show some (((0 * 16 + 0) * 16 + n / 16) * 16 + n % 16) = some n
    congr 1
    omega
  rw [pieces, hunit]

/-- The written form of a character is read as its piece. -/
theorem pieces_escape (c : Char) (seen : List Piece) (rest : List Char) :
    pieces seen (escape c ++ rest) = pieces (pieceOf c :: seen) rest := by
  unfold escape
  split_ifs with h₁ h₂ h₃ h₄ h₅ h₆ h₇ h
  iterate 7 subst c; rfl
  · have hpiece : pieceOf c = .unit c.toNat := by simp [pieceOf, *]
    rw [hpiece]
    exact pieces_unit (by omega) seen rest
  · have hpiece : pieceOf c = .char c := by simp [pieceOf, h]
    rw [hpiece]
    exact pieces_plain h₁ h₂ h seen rest

/-- A text between quotes is read up to its closing quote. -/
theorem pieces_escaped (cs : List Char) (seen : List Piece) (rest : List Char) :
    pieces seen (cs.flatMap escape ++ '"' :: rest) =
      some (seen.reverse ++ cs.map pieceOf, rest) := by
  induction cs generalizing seen with
  | nil => simp [pieces]
  | cons c cs ih =>
    rw [List.flatMap_cons, List.append_assoc, pieces_escape, ih]
    simp

/-- The piece of a character is that character in a text. -/
theorem joinPieces_pieceOf (c : Char) (ps : List Piece) :
    joinPieces (pieceOf c :: ps) = (joinPieces ps).map (c :: ·) := by
  unfold pieceOf
  split_ifs with h₁ h₂
  · rfl
  · have hlead : isLead c.toNat = false := by simp [isLead]; omega
    have htrail : isTrail c.toNat = false := by simp [isTrail]; omega
    have hchar : Char.ofNat c.toNat = c := Char.ofNat_toNat c
    -- a control character is no half of a pair, whatever follows it
    rcases ps with _ | ⟨_ | m, ps⟩ <;> simp [joinPieces, hlead, htrail, hchar]
  · rfl

theorem joinPieces_escaped (cs : List Char) : joinPieces (cs.map pieceOf) = some cs := by
  induction cs with
  | nil => rfl
  | cons c cs ih => rw [List.map_cons, joinPieces_pieceOf, ih, Option.map_some]

theorem Scalar.ofPieces_escaped (cs : List Char) :
    Scalar.ofPieces (cs.map pieceOf) = .text (String.ofList cs) := by
  unfold Scalar.ofPieces
  rw [joinPieces_escaped]

/-! ### Numbers -/

/-- Whether a number ends before this: a separator, a closing bracket or nothing
follows. -/
def Delimited (rest : List Char) : Prop := ∀ c ∈ rest.head?, c = ',' ∨ c = ']' ∨ c = '\x7d'

theorem digitRun_digits {ds rest : List Char} (hds : ∀ c ∈ ds, c.isDigit = true)
    (hrest : Delimited rest) : digitRun (ds ++ rest) = (ds, rest) := by
  have hstop : rest.takeWhile Char.isDigit = [] ∧ rest.dropWhile Char.isDigit = rest := by
    cases rest with
    | nil => exact ⟨rfl, rfl⟩
    | cons c rest =>
      have hc : c.isDigit = false := by
        rcases hrest c rfl with rfl | rfl | rfl <;> rfl
      simp [hc]
  rw [digitRun, List.takeWhile_append_of_pos hds, List.dropWhile_append_of_pos hds, hstop.1,
    hstop.2,
    List.append_nil]

theorem fractionPart_delimited {rest : List Char} (h : Delimited rest) :
    fractionPart rest = some (none, rest) := by
  unfold fractionPart
  split
  · have := h '.' rfl
    simp at this
  · rfl

theorem exponentPart_delimited {rest : List Char} (h : Delimited rest) :
    exponentPart rest = some (none, rest) := by
  cases rest with
  | nil => rfl
  | cons c rest =>
    rcases h c rfl with rfl | rfl | rfl <;> rfl

/-- Only zero is written with a leading zero. -/
theorem head_toDigits {n : Nat} (h : (Nat.toDigits 10 n).head? = some '0') : n = 0 := by
  induction n using Nat.strong_induction_on with
  | _ n ih =>
    rw [Nat.toDigits_eq_if (by decide)] at h
    by_cases hn : n < 10
    · rw [if_pos hn, List.head?_cons, Option.some.injEq] at h
      exact Nat.digitChar_eq_zero.mp h
    · rw [if_neg hn] at h
      cases hds : Nat.toDigits 10 (n / 10) with
      | nil => exact absurd hds Nat.toDigits_ne_nil
      | cons c ds =>
        have hc : (Nat.toDigits 10 (n / 10)).head? = some '0' := by
          rw [hds] at h ⊢
          exact h
        have := ih (n / 10) (by omega) hc
        omega

/-- No other digits follow a leading zero. -/
theorem toDigits_ne_zero_cons (n : Nat) (c : Char) (ds : List Char) :
    Nat.toDigits 10 n ≠ '0' :: c :: ds := by
  intro h
  obtain rfl := head_toDigits (n := n) (by rw [h]; rfl)
  simp at h

/-- The digits of a number are read as the integer that they make. -/
theorem unsignedNumber_toDigits (negative : Bool) (n : Nat) {rest : List Char}
    (h : Delimited rest) :
    unsignedNumber negative (Nat.toDigits 10 n ++ rest) =
      some (wholeNumber negative (Nat.toDigits 10 n), rest) := by
  have hdigits : ∀ c ∈ Nat.toDigits 10 n, c.isDigit = true := fun c hc =>
    Nat.isDigit_of_mem_toDigits (by decide) (by decide) hc
  unfold unsignedNumber
  rw [digitRun_digits hdigits h]
  split
  · next heq => exact absurd (Prod.mk.inj heq).1 Nat.toDigits_ne_nil
  · next heq => exact absurd (Prod.mk.inj heq).1 (toDigits_ne_zero_cons n _ _)
  · next heq =>
    obtain ⟨rfl, rfl⟩ := Prod.mk.inj heq
    rw [fractionPart_delimited h]
    simp only [exponentPart_delimited h]

/-! ### Values -/

namespace Value

mutual

/-- Whether 64 bits hold the integers of a value, with a sign or without. -/
def InRange : Value → Prop
  | .int n => -0x8000000000000000 ≤ n ∧ n < 0x10000000000000000
  | .array items => ItemsInRange items
  | .object fields => FieldsInRange fields
  | _ => True

def ItemsInRange : List Value → Prop
  | [] => True
  | v :: rest => InRange v ∧ ItemsInRange rest

def FieldsInRange : List (String × Value) → Prop
  | [] => True
  | (_, v) :: rest => InRange v ∧ FieldsInRange rest

end

mutual

/-- The tokens of a value. -/
def tokens : Value → List Token
  | .null => [.scalar .null]
  | .bool b => [.scalar (.bool b)]
  | .int n => [.scalar (.int n)]
  | .text s => [.scalar (.text s)]
  | .array [] => [.openArray, .closeArray]
  | .array (v :: rest) => .openArray :: (tokens v ++ itemTokens rest)
  | .object [] => [.openObject, .closeObject]
  | .object ((name, v) :: rest) =>
    .openObject :: .scalar (.text name) :: .colon :: (tokens v ++ fieldTokens rest)

/-- The tokens of the items after the first and of the closing bracket. -/
def itemTokens : List Value → List Token
  | [] => [.closeArray]
  | v :: rest => .comma :: (tokens v ++ itemTokens rest)

/-- The tokens of the fields after the first and of the closing brace. -/
def fieldTokens : List (String × Value) → List Token
  | [] => [.closeObject]
  | (name, v) :: rest => .comma :: .scalar (.text name) :: .colon :: (tokens v ++ fieldTokens rest)

end

end Value

/-! ### Printed values -/

theorem lex_nil : lex [] = [] := by
  rw [lex]
  split
  · rfl
  · next heq => simp at heq

/-- A token that begins with a character that is not blank is the next. -/
theorem lex_cons {c : Char} {cs rest : List Char} {t : Token} (hc : isBlank c = false)
    (h : token c cs = some (t, rest)) : lex (c :: cs) = t :: lex rest := by
  have hdrop : (c :: cs).dropWhile isBlank = c :: cs := by simp [hc]
  rw [lex]
  split
  · next heq => simp [hdrop] at heq
  · next heq =>
    obtain ⟨rfl, rfl⟩ := List.cons.inj (hdrop.symm.trans heq)
    split
    · next hnone => simp [h] at hnone
    · next hsome =>
      obtain ⟨rfl, rfl⟩ := Prod.mk.inj (Option.some.inj (h.symm.trans hsome))
      rfl

/-- A text between quotes is one token. -/
theorem lex_quote (s : String) (rest : List Char) :
    lex (quote s.toList ++ rest) = .scalar (.text s) :: lex rest := by
  show lex ('"' :: (s.toList.flatMap escape ++ ['"'] ++ rest)) = _
  refine lex_cons rfl ?_
  show (pieces [] (s.toList.flatMap escape ++ ['"'] ++ rest)).map _ = _
  rw [List.append_assoc, List.singleton_append, pieces_escaped, List.reverse_nil, List.nil_append,
    Option.map_some]
  show some (Token.scalar (Scalar.ofPieces (s.toList.map pieceOf)), rest) = _
  rw [Scalar.ofPieces_escaped, String.ofList_toList]

/-- A token that begins with a digit is a number. -/
theorem token_of_isDigit {c : Char} (hc : c.isDigit = true) (rest : List Char) :
    token c rest = (unsignedNumber false (c :: rest)).map fun (s, rest) => (.scalar s, rest) := by
  rw [token.eq_def]
  split <;> first | rfl | exact absurd hc (by decide)

theorem not_isBlank_of_isDigit {c : Char} (hc : c.isDigit = true) : isBlank c = false := by
  rw [Bool.eq_false_iff]
  intro hblank
  simp only [isBlank, Bool.or_eq_true, decide_eq_true_eq] at hblank
  rcases hblank with ((rfl | rfl) | rfl) | rfl <;> exact absurd hc (by decide)

/-- An integer is one token. -/
theorem lex_printInt {n : Int} (h : (Value.int n).InRange) {rest : List Char}
    (hrest : Delimited rest) : lex (printInt n ++ rest) = .scalar (.int n) :: lex rest := by
  obtain ⟨hlow, hhigh⟩ := h
  cases n with
  | ofNat n =>
    have hwhole : wholeNumber false (Nat.toDigits 10 n) = .int n := by
      have hlt : n < UInt64.size := by
        have : (n : Int) < 0x10000000000000000 := hhigh
        simp [UInt64.size]
        omega
      simp [wholeNumber, Nat.ofDigitChars_ten_toDigits, hlt]
    have hread := unsignedNumber_toDigits false n hrest
    rw [hwhole] at hread
    show lex (Nat.toDigits 10 n ++ rest) = _
    cases hds : Nat.toDigits 10 n with
    | nil => exact absurd hds Nat.toDigits_ne_nil
    | cons c ds =>
      rw [hds] at hread
      have hdigit : c.isDigit = true :=
        Nat.isDigit_of_mem_toDigits (b := 10) (n := n) (by decide) (by decide) (by simp [hds])
      refine lex_cons (not_isBlank_of_isDigit hdigit) ?_
      rw [token_of_isDigit hdigit]
      exact congrArg (Option.map _) hread
  | negSucc n =>
    have hwhole : wholeNumber true (Nat.toDigits 10 (n + 1)) = .int (.negSucc n) := by
      have hle : n + 1 ≤ 0x8000000000000000 := by
        have : -0x8000000000000000 ≤ Int.negSucc n := hlow
        omega
      simp [wholeNumber, Nat.ofDigitChars_ten_toDigits, hle]
      omega
    refine lex_cons rfl ?_
    show (unsignedNumber true (Nat.toDigits 10 (n + 1) ++ rest)).map _ = _
    rw [unsignedNumber_toDigits true (n + 1) hrest, hwhole, Option.map_some]

/-! The marks between values. -/

theorem lex_comma (rest : List Char) : lex (',' :: rest) = .comma :: lex rest := lex_cons rfl rfl

theorem lex_colon (rest : List Char) : lex (':' :: rest) = .colon :: lex rest := lex_cons rfl rfl

theorem lex_openArray (rest : List Char) : lex ('[' :: rest) = .openArray :: lex rest :=
  lex_cons rfl rfl

theorem lex_closeArray (rest : List Char) : lex (']' :: rest) = .closeArray :: lex rest :=
  lex_cons rfl rfl

theorem lex_openObject (rest : List Char) : lex ('\x7b' :: rest) = .openObject :: lex rest :=
  lex_cons rfl rfl

theorem lex_closeObject (rest : List Char) : lex ('\x7d' :: rest) = .closeObject :: lex rest :=
  lex_cons rfl rfl

theorem delimited_printItems (items : List Value) (rest : List Char) :
    Delimited (Value.printItems items ++ rest) := by
  cases items <;> simp [Delimited, Value.printItems]

theorem delimited_printFields (fields : List (String × Value)) (rest : List Char) :
    Delimited (Value.printFields fields ++ rest) := by
  cases fields <;> simp [Delimited, Value.printFields]

mutual

/-- A printed value is read as its tokens. -/
theorem lex_print : ∀ {v : Value} {rest : List Char}, v.InRange → Delimited rest →
    lex (v.print ++ rest) = v.tokens ++ lex rest
  | .null, _, _, _ => lex_cons rfl rfl
  | .bool true, _, _, _ => lex_cons rfl rfl
  | .bool false, _, _, _ => lex_cons rfl rfl
  | .int _, _, hv, hrest => lex_printInt hv hrest
  | .text s, rest, _, _ => lex_quote s rest
  | .array [], rest, _, _ => by
    show lex ('[' :: ']' :: rest) = .openArray :: .closeArray :: lex rest
    rw [lex_openArray, lex_closeArray]
  | .array (v :: items), rest, hv, _ => by
    show lex ('[' :: (v.print ++ Value.printItems items) ++ rest) = _
    rw [List.cons_append, lex_openArray, List.append_assoc,
      lex_print hv.1 (delimited_printItems items rest), lex_printItems hv.2, Value.tokens,
      List.cons_append, List.append_assoc]
  | .object [], rest, _, _ => by
    show lex ('\x7b' :: '\x7d' :: rest) = .openObject :: .closeObject :: lex rest
    rw [lex_openObject, lex_closeObject]
  | .object ((name, v) :: fields), rest, hv, _ => by
    show lex ('\x7b' ::
       (quote name.toList ++ ':' :: (v.print ++ Value.printFields fields)) ++ rest) = _
    rw [List.cons_append, lex_openObject, List.append_assoc, lex_quote, List.cons_append, lex_colon,
      List.append_assoc, lex_print hv.1 (delimited_printFields fields rest), lex_printFields hv.2,
      Value.tokens]
    simp

/-- So are items. -/
theorem lex_printItems : ∀ {items : List Value} {rest : List Char}, Value.ItemsInRange items →
    lex (Value.printItems items ++ rest) = Value.itemTokens items ++ lex rest
  | [], rest, _ => lex_closeArray rest
  | v :: items, rest, hv => by
    show lex (',' :: (v.print ++ Value.printItems items) ++ rest) = _
    rw [List.cons_append, lex_comma, List.append_assoc,
      lex_print hv.1 (delimited_printItems items rest), lex_printItems hv.2, Value.itemTokens,
      List.cons_append, List.append_assoc]

/-- So are fields. -/
theorem lex_printFields : ∀ {fields : List (String × Value)} {rest : List Char},
    Value.FieldsInRange fields →
      lex (Value.printFields fields ++ rest) = Value.fieldTokens fields ++ lex rest
  | [], rest, _ => lex_closeObject rest
  | (name, v) :: fields, rest, hv => by
    show lex (',' ::
      (quote name.toList ++ ':' :: (v.print ++ Value.printFields fields)) ++ rest) = _
    rw [List.cons_append, lex_comma, List.append_assoc, lex_quote, List.cons_append, lex_colon,
      List.append_assoc, lex_print hv.1 (delimited_printFields fields rest), lex_printFields hv.2,
      Value.fieldTokens]
    simp

end

end Json
end BuildFeed
