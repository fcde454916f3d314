import DisplayRaster.Toml.Scalar

/-!
# Reading TOML documents

`Toml.parse` reads a document: lines that are empty or hold a comment, headers of tables, headers of
tables that repeat, and values with a key.  Arrays and inline tables may be nested to a depth of
`maxDepth`, and a key may have as many parts.  A reader takes the input and gives a result with the
rest of the input, or none where the text is malformed; the loops over items and lines are bounded
by the length of the input, of which each round takes at least one character.
-/

set_option autoImplicit false

namespace DisplayRaster

namespace Toml

/-! ## Blanks and comments -/

/-- The input without its leading blanks. -/
def skipBlanks (input : List Char) : List Char := input.dropWhile isBlank

/-- The input after a comment, up to the end of the line; none if the comment holds a character that
may not stand for itself. -/
def skipComment : List Char → Option (List Char)
  | [] => some []
  | '\n' :: rest => some ('\n' :: rest)
  | '\r' :: '\n' :: rest => some ('\r' :: '\n' :: rest)
  | c :: rest => if isPlain c then skipComment rest else none

/-- The input after blanks, line breaks and comments. -/
def skipSpace (inComment : Bool) : List Char → Option (List Char)
  | [] => some []
  | '\n' :: rest => skipSpace false rest
  | '\r' :: '\n' :: rest => skipSpace false rest
  | c :: rest =>
    if inComment then if isPlain c then skipSpace true rest else none
    else if isBlank c then skipSpace false rest
    else if c = '#' then skipSpace true rest
    else some (c :: rest)

/-- The input after the rest of a line: blanks, perhaps a comment, and the line break or the end of
the input. -/
def endLine (input : List Char) : Option (List Char) := do
  let rest ← match skipBlanks input with
    | '#' :: comment => skipComment comment
    | rest => some rest
  match rest with
  | [] => some []
  | '\n' :: rest => some rest
  | '\r' :: '\n' :: rest => some rest
  | _ => none

/-! ## Keys -/

/-- Whether a character may be part of a key without quotes. -/
def isKeyChar (c : Char) : Bool := c.isAlphanum || c = '_' || c = '-'

/-- One part of a key. -/
def keyPart (input : List Char) : Option (String × List Char) :=
  match input with
  | [] => none
  | c :: rest =>
    if c = Quotation.doubleMark || c = Quotation.singleMark then scanLine c rest
    else if isKeyChar c then
      some (String.ofList (input.takeWhile isKeyChar), input.dropWhile isKeyChar)
    else none

/-- A key of at most `parts` parts, with dots between them and blanks around each. -/
def keyPath : (parts : Nat) → List Char → Option (List String × List Char)
  | 0, _ => none
  | parts + 1, input => do
    let (part, rest) ← keyPart (skipBlanks input)
    match skipBlanks rest with
    | '.' :: rest =>
      let (path, rest) ← keyPath parts rest
      return (part :: path, rest)
    | rest => return ([part], rest)

/-- How deep arrays and inline tables may be nested, and how deep a key may lead. -/
def maxDepth : Nat := 80

/-- A key and the input after it. -/
def key (input : List Char) : Option (List String × List Char) := keyPath maxDepth input

/-! ## Values -/

/-- A reader of one thing. -/
abbrev Reader (α : Type) := List Char → Option (α × List Char)

/-- A key, an equals sign and a value; `gap` skips what may stand around the sign. -/
def assignment (gap : List Char → Option (List Char)) (value : Reader Value) :
    Reader (List String × Value) := fun input ↦ do
  let (path, rest) ← key input
  let (content, rest) ← value (← gap (← after? '=' (← gap rest)))
  return ((path, content), rest)

/-- Items up to a closing character, separated by commas, of which one may follow the last item.
Between items the text may run over several lines. -/
def items {α : Type} (item : Reader α) (closing : Char) : (fuel : Nat) → Reader (List α)
  | 0, _ => none
  | fuel + 1, input => do
    match ← skipSpace false input with
    | [] => none
    | c :: rest =>
      if c = closing then return ([], rest)
      else
        let (first, rest) ← item (c :: rest)
        match ← skipSpace false rest with
        | ',' :: rest =>
          let (others, rest) ← items item closing fuel rest
          return (first :: others, rest)
        | c :: rest => if c = closing then return ([first], rest) else none
        | [] => none

/-- The table of the assignments between braces. -/
def inlineTable (assignments : List (List String × Value)) : Option Value := do
  let entries ← assignments.foldlM (fun t a ↦ Table.insert a.2 t a.1) ([] : Table)
  return .table .inline entries

/-- A value without parts: quoted text or one word. -/
def scalar : Reader Value := fun input ↦
  match input with
  | [] => none
  | c :: rest =>
    if c = Quotation.doubleMark || c = Quotation.singleMark then do
      let (content, rest) ← scanQuoted c rest
      return (.text content, rest)
    else do
      let (word, rest) := scalarWord input
      return (← scalar? word, rest)

/-- A value with at most `depth` arrays and inline tables around its innermost parts.  Inside them
the text may run over several lines wherever blanks are allowed, except in a key. -/
def valueTo : (depth : Nat) → Reader Value
  | depth + 1, '[' :: rest => do
    let (elements, rest) ← items (valueTo depth) ']' (rest.length + 1) rest
    return (.array elements, rest)
  | depth + 1, '{' :: rest => do
    let (assignments, rest) ←
      items (assignment (skipSpace false) (valueTo depth)) '}' (rest.length + 1) rest
    return (← inlineTable assignments, rest)
  | _, input => scalar input

/-- A value. -/
def value : Reader Value := valueTo maxDepth

/-! ## Lines -/

/-- A document in the making: its table, and the header of the section that is being read. -/
structure Draft where
  root : Table
  current : List String

/-- The document after one line with content. -/
def line (draft : Draft) (input : List Char) : Option (Draft × List Char) :=
  match input with
  | '[' :: '[' :: rest => do
    let (path, rest) ← key rest
    let rest ← after? ']' (← after? ']' rest)
    return (⟨← draft.root.openElement path, path⟩, rest)
  | '[' :: rest => do
    let (path, rest) ← key rest
    let rest ← after? ']' rest
    return (⟨← draft.root.openTable path, path⟩, rest)
  | _ => do
    let ((path, content), rest) ← assignment (fun rest ↦ some (skipBlanks rest)) value input
    let root ← draft.root.within (fun t ↦ t.insert content path) draft.current
    return ({ draft with root := root }, rest)

/-- The document after all lines. -/
def lines : (fuel : Nat) → Draft → List Char → Option Table
  | 0, _, _ => none
  | fuel + 1, draft, input => do
    match ← skipSpace false input with
    | [] => return draft.root
    | c :: rest =>
      let (draft, rest) ← line draft (c :: rest)
      lines fuel draft (← endLine rest)

/-- The input without the mark that tells the order of its bytes. -/
def dropByteOrderMark : List Char → List Char
  | c :: rest => if c.toNat = 0xFEFF then rest else c :: rest
  | [] => []

/-- The table of a document; none if it is malformed. -/
def parse (text : String) : Option Table :=
  let input := dropByteOrderMark text.toList
  lines (input.length + 1) ⟨[], []⟩ input

end Toml

end DisplayRaster
