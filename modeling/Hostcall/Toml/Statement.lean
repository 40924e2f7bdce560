import Hostcall.Toml.Number

/-!
# Statements of a settings file

`parse?` reads a TOML text: first into its statements, one or more lines each, then into the
table that they build.
-/

namespace Hostcall.Toml

/-- The items of an array up to its closing bracket. Each round takes at least one character of
the text, so its length bounds their number. -/
def items (item : Reader Item) : Nat → Reader (List Item)
  | 0, _ => none
  | rounds + 1, cs =>
    match skipSpace false cs with
    | ']' :: rest => some ([], rest)
    | cs => do
      let (first, rest) ← item cs
      match skipSpace false rest with
      | ']' :: rest => some ([first], rest)
      | ',' :: rest => do
        let (others, rest) ← items item rounds rest
        some (first :: others, rest)
      | _ => none

/-- The assignments of an inline table up to its closing brace, of which there is at least one. -/
def assignments (item : Reader Item) : Nat → Reader (List (Path × Item))
  | 0, _ => none
  | rounds + 1, cs => do
    let (path, rest) ← dottedName nestingLimit cs
    let (value, rest) ← item (skipBlanks (← mark '=' rest))
    match skipBlanks rest with
    | '\x7d' :: rest => some ([(path, value)], rest)
    | ',' :: rest => do
      let (others, rest) ← assignments item rounds rest
      some ((path, value) :: others, rest)
    | _ => none

/-- An inline table after its opening brace. -/
def inlineTable (item : Reader Item) (cs : List Char) : Option (Item × List Char) := do
  let (pairs, rest) ← match skipBlanks cs with
    | '\x7d' :: rest => some ([], rest)
    | _ => assignments item cs.length cs
  let entries ← pairs.foldlM (fun entries (path, value) => assign path value .inline entries) []
  some (.table .inline entries, rest)

/-- A text, a truth value, a number or a moment. -/
def scalar (cs : List Char) : Option (Item × List Char) :=
  let text := fun (r : Option (List Char × List Char)) =>
    r.map fun (t, rest) => (Item.text (String.ofList t), rest)
  match cs with
  | '\x22' :: '\x22' :: '\x22' :: rest => text (quoted true .plain (afterBreak rest))
  | '\x22' :: rest => text (quoted false .plain rest)
  | '\x27' :: '\x27' :: '\x27' :: rest => text (literal true (afterBreak rest))
  | '\x27' :: rest => text (literal false rest)
  | 't' :: rest => (afterWord "rue" rest).map fun rest => (.boolean true, rest)
  | 'f' :: rest => (afterWord "alse" rest).map fun rest => (.boolean false, rest)
  | _ => quantity cs

/-- A value that may hold so many levels of arrays and inline tables. -/
def value : Nat → Reader Item
  | 0, cs => scalar cs
  | depth + 1, cs =>
    match cs with
    | '[' :: rest =>
      (items (value depth) rest.length rest).map fun (xs, rest) => (.array xs, rest)
    | '\x7b' :: rest => inlineTable (value depth) rest
    | _ => scalar cs

/-- One statement with the rest of its line. -/
def statement (cs : List Char) : Option (Statement × List Char) :=
  match cs with
  | '[' :: '[' :: rest => do
    let (path, rest) ← dottedName nestingLimit rest
    let rest ← endLine (← mark ']' (← mark ']' rest))
    some (.appendTable path, rest)
  | '[' :: rest => do
    let (path, rest) ← dottedName nestingLimit rest
    let rest ← endLine (← mark ']' rest)
    some (.openTable path, rest)
  | _ => do
    let (path, rest) ← dottedName nestingLimit cs
    let (item, rest) ← value nestingLimit (skipBlanks (← mark '=' rest))
    let rest ← endLine rest
    some (.assign path item, rest)

/-- The statements of a text. Each round takes at least one character of the text or ends. -/
def statements : Nat → List Char → Option (List Statement)
  | 0, _ => none
  | rounds + 1, cs =>
    match skipSpace false cs with
    | [] => some []
    | cs => do
      let (first, rest) ← statement cs
      let others ← statements rounds rest
      some (first :: others)

/-- The table that a text describes. A byte order mark before the text does not count. -/
def parse? (text : String) : Option Entries := do
  let cs := match text.toList with
    | '\ufeff' :: rest => rest
    | cs => cs
  let document ← Document.ofStatements? (← statements (cs.length + 1) cs)
  return document.entries

end Hostcall.Toml
