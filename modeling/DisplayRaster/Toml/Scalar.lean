import DisplayRaster.Toml.Quoted
import DisplayRaster.Toml.Value

/-!
# Numbers, truth values and dates in TOML

An unquoted scalar is one word, which ends at a blank, a line break, a comment or a mark with a
meaning of its own.  `scalar?` reads the word: a truth value, an integer in base ten, sixteen, eight
or two, a float, or a date, a time or both.  Single underscores may stand between digits.

Only the shape of a number is checked here.  Numbers of the right shape without a value are
`Value.unreadable`: integers of more than 128 bits, floats beyond double precision, a base with no
digits after it, and integers in base ten that go on with anything but digits after an underscore.
-/

set_option autoImplicit false

namespace DisplayRaster

namespace Toml

/-! ## Digits -/

/-- The digits of a word in a base, where an underscore may stand between two digits; none for any
other word and for the empty one.  `pending` is set before the first digit and after an underscore.
-/
def digits? (base : Nat) (pending : Bool) : List Char → Option (List Nat)
  | [] => if pending then none else some []
  | c :: rest =>
    if c = '_' then if pending then none else digits? base true rest
    else do return (← digit? base c) :: (← digits? base false rest)

/-- The number with the given digits. -/
def ofDigits (base : Nat) (digits : List Nat) : Nat := digits.foldl (fun n d ↦ n * base + d) 0

/-- Whether a character is a digit of base sixteen. -/
def isHexDigit (c : Char) : Bool := (digit? 16 c).isSome

/-- Whether each underscore of a word stands directly between two digits; `after` says whether a
digit comes directly before the word. -/
def underscoresFit (isDigit : Char → Bool) (after : Bool) : (word : List Char) → Bool
  | [] => true
  | c :: rest =>
    if c = '_' then
      after && (rest.head?.map isDigit).getD false && underscoresFit isDigit false rest
    else underscoresFit isDigit (isDigit c) rest

/-- The digits of a word in base ten, with underscores left out; none for any other word and for one
without digits. -/
def plainDigits? (word : List Char) : Option (List Nat) := do
  let digits ← (word.filter (· ≠ '_')).mapM (digit? 10)
  if digits.isEmpty then none else return digits

/-- Whether a word starts with a minus sign, and the word after its sign if it has one. -/
def signed : List Char → Bool × List Char
  | '-' :: rest => (true, rest)
  | '+' :: rest => (false, rest)
  | word => (false, word)

/-- The number with the given digits in base ten. -/
def signedNumber (negative : Bool) (digits : List Nat) : Int :=
  if negative then -ofDigits 10 digits else ofDigits 10 digits

/-! ## Integers -/

/-- Whether an integer fits in 128 bits, signed or unsigned. -/
def integerFits (n : Int) : Bool := -(Nat.pow 2 127 : Nat) ≤ n && n < (Nat.pow 2 128 : Nat)

/-- The value of an integer. -/
def integer (n : Int) : Value := if integerFits n then .integer n else .unreadable

/-- The value of the digits after the mark of a base other than ten; none if they are malformed. -/
def basedInteger? (base : Nat) (word : List Char) : Option Value :=
  if word.isEmpty then some .unreadable
  else return integer (ofDigits base (← digits? base true word))

/-- The value of an integer in base ten after its sign; none if it is malformed.  Up to the first
underscore it is digits, without a zero in front of anything.  After that it may be anything that
keeps each underscore between digits of base sixteen, but only digits have a value. -/
def decimalInteger? (negative : Bool) (word : List Char) : Option Value :=
  let rest := word.dropWhile Char.isDigit
  if word.isEmpty || (word.head? = some '0' && 1 < word.length) || !rest.head?.all (· = '_') ||
      !underscoresFit isHexDigit false word then none
  else
    match plainDigits? word with
    | some digits => some (integer (signedNumber negative digits))
    | none => some .unreadable

/-! ## Floats -/

/-- Whether `mantissa * 10 ^ exponent` rounds to a finite number of double precision. -/
def floatFits (mantissa : Nat) (exponent : Int) : Bool :=
  let length : Int := (Nat.toDigits 10 mantissa).length
  if mantissa = 0 || length + exponent < 300 then true
  else if length + exponent > 400 then false
  else
    let bound := Nat.pow 2 1024 - Nat.pow 2 970
    if 0 ≤ exponent then mantissa * Nat.pow 10 exponent.toNat < bound
    else mantissa < bound * Nat.pow 10 (-exponent).toNat

/-- Whether a character separates a float from its exponent. -/
def isExponentMark (c : Char) : Bool := c = 'e' || c = 'E'

/-- A word cut at the first character that satisfies `p`, which is dropped. -/
def cutAt (p : Char → Bool) (word : List Char) : List Char × Option (List Char) :=
  match word.dropWhile (!p ·) with
  | [] => (word, none)
  | _ :: rest => (word.takeWhile (!p ·), some rest)

/-- The exponent of a float, from the word after its mark. -/
def exponent? (word : List Char) : Option Int := do
  let (negative, rest) := signed word
  return signedNumber negative (← plainDigits? rest)

/-- The value of a float after its sign; none if it is malformed. -/
def decimalFloat? (word : List Char) : Option Value := do
  let (number, exponentPart) := cutAt isExponentMark word
  let (whole, fraction) := cutAt (· = '.') number
  let wholeDigits ← plainDigits? whole
  let fractionDigits ← match fraction with
    | some digits => plainDigits? digits
    | none => some []
  let exponent ← match exponentPart with
    | some digits => exponent? digits
    | none => some 0
  if (word.head? = some '0' && 1 < wholeDigits.length) ||
      !underscoresFit Char.isDigit false word then none
  else
    let mantissa := ofDigits 10 (wholeDigits ++ fractionDigits)
    return if floatFits mantissa (exponent - fractionDigits.length) then .float else .unreadable

/-! ## Dates and times -/

/-- A number of exactly `count` decimal digits, and the rest of the word. -/
def fixedNumber? (count : Nat) (word : List Char) : Option (Nat × List Char) := do
  let digits ← (word.take count).mapM (digit? 10)
  if digits.length = count then return (ofDigits 10 digits, word.drop count) else none

/-- The rest of a word after a given character. -/
def after? (c : Char) : List Char → Option (List Char)
  | d :: rest => if d = c then some rest else none
  | [] => none

/-- The number of days of a month. -/
def daysIn (year month : Nat) : Nat :=
  if month = 2 then
    if year % 4 = 0 && (year % 100 ≠ 0 || year % 400 = 0) then 29 else 28
  else if month = 4 || month = 6 || month = 9 || month = 11 then 30
  else 31

/-- The rest of a word after a date. -/
def dropDate? (word : List Char) : Option (List Char) := do
  let (year, rest) ← fixedNumber? 4 word
  let (month, rest) ← fixedNumber? 2 (← after? '-' rest)
  let (day, rest) ← fixedNumber? 2 (← after? '-' rest)
  if 1 ≤ month && month ≤ 12 && 1 ≤ day && day ≤ daysIn year month then return rest else none

/-- The rest of a word after the seconds of a time and their fraction, both of which may be missing.
-/
def dropSeconds? (word : List Char) : Option (List Char) :=
  match word with
  | ':' :: rest => do
    let (second, rest) ← fixedNumber? 2 rest
    if second > 60 then none
    else
      match rest with
      | '.' :: fraction =>
        let tail := fraction.dropWhile Char.isDigit
        if tail.length < fraction.length then return tail else none
      | _ => return rest
  | _ => some word

/-- The rest of a word after a time of day. -/
def dropTime? (word : List Char) : Option (List Char) := do
  let (hour, rest) ← fixedNumber? 2 word
  let (minute, rest) ← fixedNumber? 2 (← after? ':' rest)
  if hour ≤ 23 && minute ≤ 59 then dropSeconds? rest else none

/-- Whether a word is nothing or an offset from universal time. -/
def isOffset (word : List Char) : Bool :=
  match word with
  | [] => true
  | [c] => c = 'Z' || c = 'z'
  | sign :: rest =>
    let checked : Option Bool := do
      let (hour, rest) ← fixedNumber? 2 rest
      let (minute, rest) ← fixedNumber? 2 (← after? ':' rest)
      return hour ≤ 23 && minute ≤ 59 && rest.isEmpty
    (sign = '+' || sign = '-') && checked.getD false

/-- Whether a character separates a date from a time. -/
def isDateSeparator (c : Char) : Bool := c = 'T' || c = 't' || c = ' '

/-- Whether a word is a date, a time, or a date and a time. -/
def isDate (word : List Char) : Bool :=
  match dropDate? word with
  | some [] => true
  | some (c :: rest) => isDateSeparator c && ((dropTime? rest).map isOffset).getD false
  | none => ((dropTime? word).map List.isEmpty).getD false

/-! ## Words -/

/-- Whether a character can be part of an unquoted scalar. -/
def isScalarChar (c : Char) : Bool :=
  !isBlank c && c ∉ ['=', ',', '[', ']', '{', '}', '#', '\r', '\n']

/-- The value of a number in base ten after its sign, or of the special floats. -/
def decimal? (negative : Bool) (word : List Char) : Option Value :=
  if word = "inf".toList || word = "nan".toList then some .float
  else if word.any fun c ↦ c = '.' || isExponentMark c then decimalFloat? word
  else decimalInteger? negative word

/-- Whether a word goes on like a date or a time after its first digits. -/
def looksLikeDate (word : List Char) : Bool :=
  match word.dropWhile Char.isDigit with
  | c :: _ => c = '-' || c = ':'
  | [] => false

/-- The value of a word; none if it is malformed. -/
def scalar? (word : List Char) : Option Value :=
  if word = "true".toList then some (.boolean true)
  else if word = "false".toList then some (.boolean false)
  else
    match word with
    | '0' :: 'x' :: rest => basedInteger? 16 rest
    | '0' :: 'o' :: rest => basedInteger? 8 rest
    | '0' :: 'b' :: rest => basedInteger? 2 rest
    | _ =>
      let (negative, rest) := signed word
      if looksLikeDate rest then if isDate word then some .date else none
      else decimal? negative rest

/-- The word at the start of the input and the rest.  A blank after a date belongs to the word if a
time follows. -/
def scalarWord (input : List Char) : List Char × List Char :=
  let word := input.takeWhile isScalarChar
  let rest := input.dropWhile isScalarChar
  match dropDate? word, rest with
  | some [], ' ' :: c :: _ =>
    if c.isDigit then
      (word ++ ' ' :: rest.tail.takeWhile isScalarChar, rest.tail.dropWhile isScalarChar)
    else (word, rest)
  | _, _ => (word, rest)

end Toml

end DisplayRaster
