/-!
# Quoted text in TOML

Four kinds of quotation differ in three respects (`Quotation`): the quote mark, whether the text may
run over several lines, and whether a backslash starts an escape.  `Quotation.scan` reads the text
after the opening marks one character at a time and gives it back with the rest of the input.

A quotation over several lines ends at three marks.  One or two more marks directly before those
belong to the text.  A backslash at the end of a line takes the line break and all blanks and line
breaks after it out of the text.
-/

set_option autoImplicit false

namespace DisplayRaster

namespace Toml

/-- Whether a character may stand for itself in a comment or in quoted text: no control character
other than the tab. -/
def isPlain (c : Char) : Bool := c = '\t' || (c.toNat ≥ 0x20 && c.toNat ≠ 0x7F)

/-- Whether a character is a blank. -/
def isBlank (c : Char) : Bool := c = ' ' || c = '\t'

/-- The value of a digit in a base up to sixteen. -/
def digit? (base : Nat) (c : Char) : Option Nat :=
  let value :=
    if '0' ≤ c && c ≤ '9' then c.toNat - 48
    else if 'a' ≤ c && c ≤ 'f' then c.toNat - 87
    else if 'A' ≤ c && c ≤ 'F' then c.toNat - 55
    else 16
  if value < base then some value else none

/-- A kind of quotation. -/
structure Quotation where
  mark : Char
  multiline : Bool
  escapes : Bool
  deriving DecidableEq

namespace Quotation

/-- The double quotation mark. -/
def doubleMark : Char := Char.ofNat 34

/-- The single quotation mark. -/
def singleMark : Char := Char.ofNat 39

/-- The backslash. -/
def backslash : Char := Char.ofNat 92

/-- Where a scan is. -/
inductive Mode where
  /-- In ordinary text. -/
  | plain
  /-- After this many marks in a row. -/
  | marks (count : Nat)
  /-- After a carriage return. -/
  | carriage
  /-- After a backslash. -/
  | escape
  /-- Before `left` more digits of a character code. -/
  | code (left value : Nat)
  /-- In the gap after a backslash at the end of a line; `broken` once the line break is behind. -/
  | gap (broken : Bool)
  /-- After a carriage return in such a gap. -/
  | gapCarriage

/-- The character of a one-letter escape. -/
def letterEscape? (c : Char) : Option Char :=
  if c = 'b' then some (Char.ofNat 8)
  else if c = 't' then some '\t'
  else if c = 'n' then some '\n'
  else if c = 'f' then some (Char.ofNat 12)
  else if c = 'r' then some '\r'
  else if c = 'e' then some (Char.ofNat 27)
  else if c = doubleMark || c = backslash then some c
  else none

/-- The number of digits of an escaped character code. -/
def codeLength? (c : Char) : Option Nat :=
  if c = 'x' then some 2 else if c = 'u' then some 4 else if c = 'U' then some 8 else none

/-- The character of a code; none for surrogates and codes beyond the last character. -/
def char? (code : Nat) : Option Char :=
  if code.isValidChar then some (Char.ofNat code) else none

/-- What one character of ordinary text leads to: the next mode and the text so far, in reverse. -/
def plainStep (q : Quotation) (c : Char) (text : List Char) : Option (Mode × List Char) :=
  if c = q.mark then some (.marks 1, text)
  else if q.escapes && c = backslash then some (.escape, text)
  else if isPlain c then some (.plain, c :: text)
  else if q.multiline && c = '\n' then some (.plain, c :: text)
  else if q.multiline && c = '\r' then some (.carriage, text)
  else none

/-- What a character after a backslash leads to. -/
def escapeStep (q : Quotation) (c : Char) (text : List Char) : Option (Mode × List Char) :=
  match letterEscape? c, codeLength? c with
  | some plain, _ => some (.plain, plain :: text)
  | none, some left => some (.code left 0, text)
  | none, none =>
    if !q.multiline then none
    else if isBlank c then some (.gap false, text)
    else if c = '\n' then some (.gap true, text)
    else if c = '\r' then some (.gapCarriage, text)
    else none

/-- What a character leads to in a mode other than after marks. -/
def step (q : Quotation) (mode : Mode) (c : Char) (text : List Char) :
    Option (Mode × List Char) :=
  match mode with
  | .plain | .marks _ => q.plainStep c text
  | .carriage => if c = '\n' then some (.plain, c :: text) else none
  | .escape => q.escapeStep c text
  | .code left value => do
    let value := value * 16 + (← digit? 16 c)
    if left ≤ 1 then return (.plain, (← char? value) :: text)
    else return (.code (left - 1) value, text)
  | .gap broken =>
    if isBlank c then some (.gap broken, text)
    else if c = '\n' then some (.gap true, text)
    else if c = '\r' then some (.gapCarriage, text)
    else if broken then q.plainStep c text
    else none
  | .gapCarriage => if c = '\n' then some (.gap true, text) else none

/-- The number of marks that end a quotation. -/
def closing (q : Quotation) : Nat := if q.multiline then 3 else 1

/-- The text before `count` marks, of which all but the closing ones belong to it. -/
def close (q : Quotation) (count : Nat) (text : List Char) : String :=
  String.ofList (List.replicate (count - q.closing) q.mark ++ text).reverse

/-- The quoted text and the rest of the input. -/
def scan (q : Quotation) (mode : Mode) (text : List Char) :
    (input : List Char) → Option (String × List Char)
  | [] =>
    match mode with
    | .marks count => if q.closing ≤ count then some (q.close count text, []) else none
    | _ => none
  | c :: rest =>
    match mode with
    | .marks count =>
      if q.closing ≤ count && (c ≠ q.mark || !q.multiline || q.closing + 2 ≤ count) then
        some (q.close count text, c :: rest)
      else if c = q.mark then scan q (.marks (count + 1)) text rest
      else
        match q.plainStep c (List.replicate count q.mark ++ text) with
        | some (mode, text) => scan q mode text rest
        | none => none
    | mode =>
      match q.step mode c text with
      | some (mode, text) => scan q mode text rest
      | none => none

/-- The input after one line break, if it starts with one. -/
def dropBreak : List Char → List Char
  | '\n' :: rest => rest
  | '\r' :: '\n' :: rest => rest
  | input => input

end Quotation

/-- Quoted text on one line, after the opening mark. -/
def scanLine (mark : Char) (input : List Char) : Option (String × List Char) :=
  Quotation.scan ⟨mark, false, mark = Quotation.doubleMark⟩ .plain [] input

/-- Quoted text with the given mark, after its first mark; two further marks make it run over
several lines, and a line break directly after those is dropped. -/
def scanQuoted (mark : Char) (input : List Char) : Option (String × List Char) :=
  match input with
  | a :: b :: rest =>
    if a = mark && b = mark then
      Quotation.scan ⟨mark, true, mark = Quotation.doubleMark⟩ .plain [] (Quotation.dropBreak rest)
    else scanLine mark input
  | _ => scanLine mark input

end Toml

end DisplayRaster
