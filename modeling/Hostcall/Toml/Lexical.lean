import Hostcall.Toml.Table

/-!
# Blanks, comments, quoted text and names

The small parts of a TOML text. Each reader takes its part off the front of the text and gives
what follows, or refuses the text.
-/

namespace Hostcall.Toml

/-- A reader takes something off the front of a text. -/
abbrev Reader (α : Type) := List Char → Option (α × List Char)

/-- The most names in a dotted name, and the most arrays and inline tables around a value. -/
def nestingLimit : Nat := 79

def isBlank (c : Char) : Bool := c = ' ' || c = '\t'

/-- The characters of comments and of quoted text: all but the controls, and the tab. -/
def isText (c : Char) : Bool := c = '\t' || (' ' ≤ c && c ≠ '\x7f')

def skipBlanks (cs : List Char) : List Char := cs.dropWhile isBlank

def skipComment : List Char → List Char
  | [] => []
  | c :: cs => if c = '#' then cs.dropWhile isText else c :: cs

/-- Takes a line break, which is a line feed that may follow a carriage return. -/
def lineBreak : List Char → Option (List Char)
  | '\n' :: cs => some cs
  | '\r' :: '\n' :: cs => some cs
  | _ => none

/-- Takes the rest of a line, which holds blanks and a comment at most. -/
def endLine (cs : List Char) : Option (List Char) :=
  match skipComment (skipBlanks cs) with
  | [] => some []
  | rest => lineBreak rest

/-- Skips blanks, line breaks and comments. The flag says that a comment has begun. -/
def skipSpace (comment : Bool) : List Char → List Char
  | [] => []
  | c :: cs =>
    if comment && isText c then skipSpace true cs
    else if isBlank c || c = '\n' then skipSpace false cs
    else if c = '\r' && cs.head? = some '\n' then skipSpace false cs
    else if c = '#' then skipSpace true cs
    else c :: cs

/-! ## Quoted text -/

/-- Where a reader of quoted text with escapes stands. -/
inductive Quoting where
  | plain
  /-- After a backslash. -/
  | escape
  /-- Inside a code point, of which some digits are still to come. -/
  | codePoint (missing value : Nat)
  /-- After a backslash that ends a line; the flag says that the line break has been seen. -/
  | joining (broken : Bool)

/-- The character that a letter after a backslash stands for. -/
def escapes : List (Char × Char) :=
  [('b', '\x08'), ('t', '\t'), ('n', '\n'), ('f', '\x0c'), ('r', '\r'), ('\x22', '\x22'),
    ('\\', '\\')]

def hexValue (c : Char) : Option Nat :=
  if c.isDigit then some (c.toNat - '0'.toNat)
  else if 'a' ≤ c && c ≤ 'f' then some (c.toNat - 'a'.toNat + 10)
  else if 'A' ≤ c && c ≤ 'F' then some (c.toNat - 'A'.toNat + 10)
  else none

/-- The end of a text between three quotes on each side. A run of three to five quotes ends the
text; those beyond three belong to it. -/
def closing (quote : Char) (cs : List Char) : Option (List Char × List Char) :=
  let count := min 5 (cs.takeWhile (· = quote)).length
  if count < 3 then none else some (cs.take (count - 3), cs.drop count)

/-- Puts a character before what a reader has read. -/
def before (c : Char) (r : Option (List Char × List Char)) : Option (List Char × List Char) :=
  r.map fun (text, rest) => (c :: text, rest)

/-- The rest of a text between quotation marks, up to the mark or the three marks that end it. -/
def quoted (multiline : Bool) : Quoting → Reader (List Char)
  | _, [] => none
  | .escape, c :: cs =>
    match escapes.lookup c with
    | some meaning => before meaning (quoted multiline .plain cs)
    | none =>
      if c = 'u' then quoted multiline (.codePoint 4 0) cs
      else if c = 'U' then quoted multiline (.codePoint 8 0) cs
      else if !multiline then none
      else if isBlank c then quoted multiline (.joining false) cs
      else if c = '\n' then quoted multiline (.joining true) cs
      else if c = '\r' && cs.head? = some '\n' then quoted multiline (.joining false) cs
      else none
  | .codePoint missing value, c :: cs => do
    let value := 16 * value + (← hexValue c)
    if 1 < missing then quoted multiline (.codePoint (missing - 1) value) cs
    else if value.isValidChar then before (Char.ofNat value) (quoted multiline .plain cs)
    else none
  | .joining false, c :: cs =>
    if isBlank c then quoted multiline (.joining false) cs
    else if c = '\n' then quoted multiline (.joining true) cs
    else if c = '\r' && cs.head? = some '\n' then quoted multiline (.joining false) cs
    else none
  | state, c :: cs =>
    let joining := match state with
      | .joining _ => true
      | _ => false
    if joining && (isBlank c || c = '\n') then quoted multiline state cs
    else if c = '\r' then
      if multiline && cs.head? = some '\n' then quoted multiline state cs else none
    else if c = '\n' then if multiline then before c (quoted multiline .plain cs) else none
    else if c = '\x22' then
      if !multiline then some ([], cs)
      else match closing c (c :: cs) with
        | some (text, rest) => some (text, rest)
        | none => before c (quoted multiline .plain cs)
    else if c = '\\' then quoted multiline .escape cs
    else if isText c then before c (quoted multiline .plain cs)
    else none

/-- The rest of a text between apostrophes, in which nothing is escaped. -/
def literal (multiline : Bool) : Reader (List Char)
  | [] => none
  | c :: cs =>
    if c = '\r' then if multiline && cs.head? = some '\n' then literal multiline cs else none
    else if c = '\n' then if multiline then before c (literal multiline cs) else none
    else if c = '\x27' then
      if !multiline then some ([], cs)
      else match closing c (c :: cs) with
        | some (text, rest) => some (text, rest)
        | none => before c (literal multiline cs)
    else if isText c then before c (literal multiline cs)
    else none

/-- The text after three quotes, where a line break directly after them does not count. -/
def afterBreak (cs : List Char) : List Char := (lineBreak cs).getD cs

/-! ## Names -/

def isNameChar (c : Char) : Bool := c.isAlphanum || c = '_' || c = '-'

/-- A name: bare, between quotation marks or between apostrophes. -/
def name : Reader String
  | [] => none
  | c :: cs =>
    if c = '\x22' then (quoted false .plain cs).map fun (text, rest) => (String.ofList text, rest)
    else if c = '\x27' then (literal false cs).map fun (text, rest) => (String.ofList text, rest)
    else if isNameChar c then
      some (String.ofList (c :: cs.takeWhile isNameChar), cs.dropWhile isNameChar)
    else none

/-- A dotted name of at most so many names, with the blanks around them. -/
def dottedName : Nat → Reader Path
  | 0, _ => none
  | count + 1, cs => do
    let (first, rest) ← name (skipBlanks cs)
    match skipBlanks rest with
    | '.' :: rest => do
      let (path, rest) ← dottedName count rest
      return ({ path with tables := first :: path.tables }, rest)
    | rest => return ({ tables := [], entry := first }, rest)

end Hostcall.Toml
