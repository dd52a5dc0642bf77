set_option autoImplicit false

/-!
What a plain scalar means. A plain text may be null, a truth value, an integer or a finite number;
every other text is a string. A string that would be taken for something else has to be quoted.
-/

namespace ClassWeaver.Yaml.Resolution

def isNull (text : String) : Bool :=
  ["null", "Null", "NULL", "~"].contains text

def isTruthValue (text : String) : Bool :=
  ["true", "True", "TRUE", "false", "False", "FALSE"].contains text

def digit? (base : Nat) (c : Char) : Option Nat :=
  let value? :=
    if c.isDigit then some (c.toNat - '0'.toNat)
    else if 'a' ≤ c && c ≤ 'f' then some (c.toNat - 'a'.toNat + 10)
    else if 'A' ≤ c && c ≤ 'F' then some (c.toNat - 'A'.toNat + 10)
    else none
  value?.filter (· < base)

def number? (base : Nat) (digits : List Char) : Option Nat :=
  if digits.isEmpty then none
  else digits.foldlM (fun value c => (digit? base c).map (value * base + ·)) 0

def unsigned : List Char → List Char
  | '+' :: rest => rest
  | text => text

/-- Several digits that begin with zero, perhaps after a sign, are no number. -/
def isZeroLed (text : List Char) : Bool :=
  let digits :=
    match text with
    | '-' :: rest => rest
    | '+' :: rest => rest
    | _ => text
  match digits with
  | '0' :: rest => ! rest.isEmpty && rest.all Char.isDigit
  | _ => false

def radix? : List Char → Option (Nat × List Char)
  | '0' :: 'x' :: rest => some (16, rest)
  | '0' :: 'o' :: rest => some (8, rest)
  | '0' :: 'b' :: rest => some (2, rest)
  | _ => none

/-- The number that a text without a sign denotes. The notation of its base comes first. -/
def magnitude? (zeroLed : Bool) (text : List Char) : Option Nat :=
  match radix? text with
  | some (base, digits) => number? base digits
  | none => if zeroLed then none else number? 10 text

def natural? (text : List Char) : Option Nat :=
  magnitude? (isZeroLed text) (unsigned text)

def isInteger (text : List Char) : Bool :=
  match text with
  | '-' :: rest => (magnitude? (isZeroLed text) rest).any (· ≤ Nat.pow 2 127)
  | _ => (natural? text).any (· < Nat.pow 2 128)

/-- A decimal number: its digits without the point and the power of ten that scales them. -/
structure Decimal where
  digits : Nat
  exponent : Int

private def exponent? : List Char → Option Int
  | [] => some 0
  | mark :: rest =>
    if mark == 'e' || mark == 'E' then
      match rest with
      | '-' :: digits => (number? 10 digits).map fun value => -(value : Int)
      | '+' :: digits => (number? 10 digits).map Int.ofNat
      | digits => (number? 10 digits).map Int.ofNat
    else none

/-- The number in decimal notation with an optional point and an optional power of ten. -/
def decimal? (text : List Char) : Option Decimal :=
  let whole := text.takeWhile Char.isDigit
  let afterWhole := text.dropWhile Char.isDigit
  let fraction :=
    match afterWhole with
    | '.' :: rest => rest.takeWhile Char.isDigit
    | _ => []
  let afterFraction :=
    match afterWhole with
    | '.' :: rest => rest.dropWhile Char.isDigit
    | rest => rest
  (number? 10 (whole ++ fraction)).bind fun digits =>
    (exponent? afterFraction).map fun exponent => ⟨digits, exponent - fraction.length⟩

/-- The least number that rounds to infinity in double precision. -/
def overflow : Nat :=
  Nat.pow 2 1024 - Nat.pow 2 970

def Decimal.isFinite (value : Decimal) : Bool :=
  let places : Int := (Nat.toDigits 10 value.digits).length + value.exponent
  if value.digits == 0 || places < 300 then true
  else if 400 < places then false
  else if 0 ≤ value.exponent then value.digits * Nat.pow 10 value.exponent.toNat < overflow
  else value.digits < overflow * Nat.pow 10 (-value.exponent).toNat

private def isInfinity (text : List Char) : Bool :=
  [".inf", ".Inf", ".INF"].contains (String.ofList text)

/-- Says whether a text denotes a number in floating point notation, an infinity or no number. -/
def isFloat (text : List Char) : Bool :=
  let magnitude :=
    match text with
    | '-' :: rest => rest
    | _ => unsigned text
  isInfinity magnitude || [".nan", ".NaN", ".NAN"].contains (String.ofList text)
    || (decimal? magnitude).any (·.isFinite)

/-- Says whether a plain text stands for something other than the string of its characters, or has
the look of it. -/
def isAmbiguous (text : List Char) : Bool :=
  text.isEmpty || isNull (String.ofList text) || isTruthValue (String.ofList text)
    || isZeroLed text || isInteger text || isFloat text

end ClassWeaver.Yaml.Resolution
