import ProtoRoutes.Number.Literal
import ProtoRoutes.Toml.Reader
import ProtoRoutes.Toml.Value

/-!
# ProtoRoutes.Toml.Scalar

Numbers, dates and times. Each function here finds what it knows at the front of a text and leaves
the rest; whether something sensible follows is for the caller to see. A text in the shape of a date
must be a date of the calendar.
-/

namespace ProtoRoutes.Toml

/-- The part of a text in front of its rest. -/
def spelling (cs rest : List Char) : String :=
  String.ofList (cs.take (cs.length - rest.length))

/-! ### Dates and times -/

/-- The number that two digits stand for. -/
def twoDigits? (a b : Char) : Option Nat :=
  Number.natOfDigits? 10 [a, b]

/-- Passes over a colon and two digits below sixty. -/
def sixtieth? : List Char → Option (List Char)
  | ':' :: a :: b :: rest => (twoDigits? a b).bind fun n => if n < 60 then some rest else none
  | _ => none

/-- Passes over an hour. -/
def hour? : List Char → Option (List Char)
  | a :: b :: rest => (twoDigits? a b).bind fun n => if n < 24 then some rest else none
  | _ => none

/-- Passes over a fraction of a second, if there is one. -/
def dropFraction (cs : List Char) : List Char :=
  match cs with
  | '.' :: d :: rest => if d.isDigit then rest.dropWhile Char.isDigit else cs
  | _ => cs

/-- Passes over a time. -/
def clock? (cs : List Char) : Option (List Char) := do
  let minutes ← hour? cs
  let seconds ← sixtieth? minutes
  let rest ← sixtieth? seconds
  pure (dropFraction rest)

/-- Passes over an offset from universal time, if there is one. -/
def dropOffset (cs : List Char) : List Char :=
  match cs with
  | c :: rest =>
    if c = 'Z' || c = 'z' then rest
    else if c = '+' || c = '-' then ((hour? rest).bind sixtieth?).getD cs
    else cs
  | [] => cs

/-- Whether a year has a 29th of February. -/
def isLeapYear (year : Nat) : Bool :=
  year % 4 = 0 && (year % 100 ≠ 0 || year % 400 = 0)

/-- How many days a month has. -/
def daysIn (year month : Nat) : Nat :=
  if month = 2 then if isLeapYear year then 29 else 28
  else if [4, 6, 9, 11].contains month then 30 else 31

/-- Passes over a text in the shape of a date, and says whether the calendar has that date. -/
def calendarDate? : List Char → Option (Bool × List Char)
  | y1 :: y2 :: y3 :: y4 :: '-' :: m1 :: m2 :: '-' :: d1 :: d2 :: rest => do
    let year ← Number.natOfDigits? 10 [y1, y2, y3, y4]
    let month ← twoDigits? m1 m2
    let day ← twoDigits? d1 d2
    if 1 ≤ month ∧ month ≤ 12 ∧ 1 ≤ day ∧ day ≤ 31 then
      some (1 ≤ year && day ≤ daysIn year month, rest)
    else none
  | _ => none

/-- The time behind a date, if there is one. -/
def clockAfterDate? : List Char → Option (List Char)
  | c :: rest => if c = 'T' || c = 't' || c = ' ' then (clock? rest).map dropOffset else none
  | [] => none

/-- A date, with or without a time, or a time. -/
def moment? (cs : List Char) : Option (Except Fault Value × List Char) :=
  match calendarDate? cs with
  | some (false, rest) => some (.error .malformed, rest)
  | some (true, rest) =>
    match clockAfterDate? rest with
    | some after => some (.ok (.datetime (spelling cs after)), after)
    | none => some (.ok (.date (spelling cs rest)), rest)
  | none => (clock? cs).map fun rest => (.ok (.time (spelling cs rest)), rest)

/-! ### Numbers -/

/-- Digits, between which single underscores may stand: the digits and what is behind them. -/
def digitRun (p : Char → Bool) : List Char → List Char × List Char
  | c :: d :: rest =>
    if p c then
      let (digits, after) := digitRun p (d :: rest)
      (c :: digits, after)
    else if c = '_' && p d then
      let (digits, after) := digitRun p rest
      (d :: digits, after)
    else ([], c :: d :: rest)
  | [c] => if p c then ([c], []) else ([], [c])
  | [] => ([], [])

/-- Whether a character is a digit of a base. -/
def isDigitOf (base : Nat) (c : Char) : Bool :=
  match Number.digit? c with
  | some d => d < base
  | none => false

/-- Digits of a base, of which there is at least one. -/
def digits? (base : Nat) (cs : List Char) : Option (List Char × List Char) :=
  match cs with
  | c :: _ => if isDigitOf base c then some (digitRun (isDigitOf base) cs) else none
  | [] => none

/-- The base that a letter behind a zero stands for. -/
def baseOf? : Char → Option Nat
  | 'x' => some 16
  | 'o' => some 8
  | 'b' => some 2
  | _ => none

/-- An integer in a base other than ten. -/
def based? : List Char → Option (Value × List Char)
  | '0' :: letter :: rest => do
    let base ← baseOf? letter
    let (ds, after) ← digits? base rest
    let n ← Number.natOfDigits? base ds
    pure (.integer n, after)
  | _ => none

/-- Whether a text starts with a minus sign, and what is behind a sign. -/
def signed : List Char → Bool × List Char
  | '-' :: rest => (true, rest)
  | '+' :: rest => (false, rest)
  | cs => (false, cs)

/-- The whole part of a decimal number: no digit stands behind a leading zero. -/
def whole? : List Char → Option (List Char × List Char)
  | '0' :: rest => some (['0'], rest)
  | cs => digits? 10 cs

/-- Passes over a fraction, if there is one. -/
def dropDecimals (cs : List Char) : List Char :=
  match cs with
  | '.' :: rest => ((digits? 10 rest).map (·.2)).getD cs
  | _ => cs

/-- Passes over an exponent, if there is one. -/
def dropExponent (cs : List Char) : List Char :=
  match cs with
  | c :: rest =>
    if c = 'e' || c = 'E' then ((digits? 10 (signed rest).2).map (·.2)).getD cs else cs
  | [] => cs

/-- A decimal number: an integer, unless it has a fraction or an exponent. -/
def decimal? (cs : List Char) : Option (Except Fault Value × List Char) := do
  let (negative, unsigned) := signed cs
  let (ds, afterWhole) ← whole? unsigned
  let rest := dropExponent (dropDecimals afterWhole)
  if rest.length < afterWhole.length then some (.ok (.float (spelling cs rest)), rest)
  else if Number.maxDecimalDigits < ds.length then some (.error .longNumber, rest)
  else
    let n ← Number.natOfDigits? 10 ds
    some (.ok (.integer (if negative then -(n : Int) else n)), rest)

/-- A float that is no number of digits. -/
def specialFloat? (cs : List Char) : Option (Value × List Char) :=
  let (_, unsigned) := signed cs
  if ["inf", "nan"].any fun word => word.toList.isPrefixOf unsigned then
    let rest := unsigned.drop 3
    some (.float (spelling cs rest), rest)
  else none

/-! ### All of them -/

/-- A number, date or time. -/
def scalar : Reader Value := fun cs =>
  match moment? cs with
  | some (v, rest) => v.map (·, rest)
  | none =>
    match based? cs with
    | some result => .ok result
    | none =>
      match decimal? cs with
      | some (v, rest) => v.map (·, rest)
      | none =>
        match specialFloat? cs with
        | some result => .ok result
        | none => .error .malformed

end ProtoRoutes.Toml
