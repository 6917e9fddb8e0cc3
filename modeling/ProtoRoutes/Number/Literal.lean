import ProtoRoutes.Number.Binary64

/-!
# ProtoRoutes.Number.Literal

What a number lexeme means. As a field, enum or reserved number it is an integer: hexadecimal after
`0x`, octal after another leading zero, else decimal with at most 4300 digits. As an option value it
is a floating-point number, where a leading zero has no meaning and only `0x` changes the base.
-/

namespace ProtoRoutes.Number

/-- The value of a digit in bases up to sixteen. -/
def digit? (c : Char) : Option Nat :=
  if c.isDigit then some (c.toNat - '0'.toNat)
  else if 'a' ≤ c ∧ c ≤ 'f' then some (c.toNat - 'a'.toNat + 10)
  else if 'A' ≤ c ∧ c ≤ 'F' then some (c.toNat - 'A'.toNat + 10)
  else none

/-- The number that digits stand for, or nothing if one of them is no digit of the base. -/
def natOfDigits? (base : Nat) (cs : List Char) : Option Nat :=
  cs.foldlM (fun n c => do
    let d ← digit? c
    if d < base then some (n * base + d) else none) 0

/-- The most digits that a decimal integer may have. -/
def maxDecimalDigits : Nat := 4300

/-- The integer that a number lexeme stands for. -/
def integer? : List Char → Option Nat
  | [] => none
  | '0' :: 'x' :: digits => if digits.isEmpty then none else natOfDigits? 16 digits
  | '0' :: 'X' :: digits => if digits.isEmpty then none else natOfDigits? 16 digits
  | '0' :: c :: digits => natOfDigits? 8 (c :: digits)
  | digits => if maxDecimalDigits < digits.length then none else natOfDigits? 10 digits

/-- Why a lexeme stands for no floating-point number. -/
inductive Fault where
  /-- No digit after `0x`. -/
  | noHexDigits
  /-- A hexadecimal number that rounds to more than the greatest finite one. -/
  | hexOverflow
  deriving DecidableEq, Repr

/-- The number that a run of decimal digits stands for. -/
def decimalValue (cs : List Char) : Nat :=
  cs.foldl (fun n c => n * 10 + (c.toNat - '0'.toNat)) 0

/-- The exponent part of a decimal: an optional sign and digits. -/
def exponentValue : List Char → Int
  | '-' :: digits => -(decimalValue digits : Int)
  | '+' :: digits => decimalValue digits
  | digits => decimalValue digits

/-- The floating-point number of a decimal lexeme: digits with an optional fraction and exponent. -/
def ofDecimalLexeme (cs : List Char) : Binary64 :=
  let whole := cs.takeWhile Char.isDigit
  let afterWhole := cs.dropWhile Char.isDigit
  let afterPoint := if afterWhole.head? = some '.' then afterWhole.tail else afterWhole
  let fraction := afterPoint.takeWhile Char.isDigit
  let exponent := exponentValue (afterPoint.dropWhile Char.isDigit).tail
  Binary64.ofDecimal (decimalValue (whole ++ fraction)) (exponent - fraction.length)

/-- The floating-point number of a hexadecimal lexeme, given its digits. -/
def ofHexDigits (digits : List Char) : Except Fault Binary64 :=
  match if digits.isEmpty then none else natOfDigits? 16 digits with
  | none => .error .noHexDigits
  | some n =>
    match Binary64.ofNat n with
    | .infinite _ => .error .hexOverflow
    | x => .ok x

/-- The floating-point number that a number lexeme stands for. -/
def real : List Char → Except Fault Binary64
  | '0' :: 'x' :: digits => ofHexDigits digits
  | '0' :: 'X' :: digits => ofHexDigits digits
  | cs => .ok (ofDecimalLexeme cs)

end ProtoRoutes.Number
