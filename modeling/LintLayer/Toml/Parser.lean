import LintLayer.Toml.Scalar

/-!
# Reading TOML

A document is read line by line into its root table.  `path` is the table
that the last header opened.
-/

namespace LintLayer.Toml

open Json.Reader (hexDigit?)

/-- Blanks inside a line. -/
def isBlank (c : Char) : Bool :=
  c = ' ' || c = '\t'

/-- The text after blanks. -/
def skipBlanks (cs : List Char) : List Char :=
  cs.dropWhile isBlank

/-- A character that may not stand for itself in comments and strings. -/
def isControl (c : Char) : Bool :=
  (c.toNat < 0x20 && c ≠ '\t') || c.toNat == 0x7F

/-- The text after the end of a line. -/
def newline? : List Char → Option (List Char)
  | '\n' :: rest => some rest
  | '\r' :: '\n' :: rest => some rest
  | _ => none

/-- The text from the end of a comment on.  The comment is refused when it
holds a control character. -/
def comment? : List Char → Option (List Char)
  | [] => some []
  | '\n' :: rest => some ('\n' :: rest)
  | '\r' :: '\n' :: rest => some ('\r' :: '\n' :: rest)
  | c :: rest => if isControl c then none else comment? rest

/-- The text after blanks, comments and ends of lines.  `fuel` bounds the
number of steps. -/
def skipTrivia : Nat → List Char → Option (List Char)
  | 0, _ => none
  | fuel + 1, cs =>
    match skipBlanks cs with
    | '#' :: rest => do skipTrivia fuel (← comment? rest)
    | rest =>
      match newline? rest with
      | some rest => skipTrivia fuel rest
      | none => some rest

/-- The text after the end of an expression: blanks, a comment, and the end
of the line or of the document. -/
def endOfLine? (cs : List Char) : Option (List Char) := do
  let rest ← match skipBlanks cs with
    | '#' :: rest => comment? rest
    | rest => some rest
  match rest with
  | [] => some []
  | rest => newline? rest

/-- The character of a number, if there is one. -/
def scalar? (n : Nat) : Option Char :=
  if n < 0xD800 ∨ (0xE000 ≤ n ∧ n < 0x110000) then some (Char.ofNat n) else none

/-- The character of `count` hexadecimal digits. -/
def hexChar? (count : Nat) (cs : List Char) : Option (Char × List Char) := do
  let digits := cs.take count
  if digits.length = count ∧ digits.all fun c => (hexDigit? c).isSome then
    return (← scalar? (valueIn 16 digits), cs.drop count)
  else none

/-- The character of an escape after its backslash. -/
def escape? : List Char → Option (Char × List Char)
  | 'b' :: rest => some ('\x08', rest)
  | 't' :: rest => some ('\t', rest)
  | 'n' :: rest => some ('\n', rest)
  | 'f' :: rest => some ('\x0c', rest)
  | 'r' :: rest => some ('\r', rest)
  | 'e' :: rest => some ('\x1b', rest)
  | '"' :: rest => some ('"', rest)
  | '\\' :: rest => some ('\\', rest)
  | 'x' :: rest => hexChar? 2 rest
  | 'u' :: rest => hexChar? 4 rest
  | 'U' :: rest => hexChar? 8 rest
  | _ => none

/-- A string in double quotes, after the opening one.  `done` holds its
characters in reverse. -/
def basic? : Nat → List Char → List Char → Option (String × List Char)
  | 0, _, _ => none
  | _ + 1, _, [] => none
  | _ + 1, done, '"' :: rest => some (String.ofList done.reverse, rest)
  | fuel + 1, done, '\\' :: rest => do
    let (c, rest) ← escape? rest
    basic? fuel (c :: done) rest
  | fuel + 1, done, c :: rest => if isControl c then none else basic? fuel (c :: done) rest

/-- A string in single quotes, after the opening one. -/
def literal? (done : List Char) : List Char → Option (String × List Char)
  | [] => none
  | '\'' :: rest => some (String.ofList done.reverse, rest)
  | c :: rest => if isControl c then none else literal? (c :: done) rest

/-- The text after blanks and ends of lines. -/
def skipLines : List Char → List Char
  | '\r' :: '\n' :: rest => skipLines rest
  | c :: rest => if isBlank c || c = '\n' then skipLines rest else c :: rest
  | [] => []

/-- The text after a backslash at the end of a line: all blanks and ends of
lines are left out. -/
def continued? (cs : List Char) : Option (List Char) := do
  return skipLines (← newline? (skipBlanks cs))

/-- A string of several lines, after the opening quotes.  At the end up to
two quotes belong to the string. -/
def multi? (quote : Char) (escapes : Bool) : Nat → List Char → List Char →
    Option (String × List Char)
  | 0, _, _ => none
  | _ + 1, _, [] => none
  | fuel + 1, done, c :: rest =>
    if c = quote then
      let run := min 5 ((c :: rest).takeWhile (· = quote)).length
      if 3 ≤ run then
        some (String.ofList (List.replicate (run - 3) quote ++ done).reverse, (c :: rest).drop run)
      else multi? quote escapes fuel (c :: done) rest
    else if c = '\\' && escapes then
      match continued? rest with
      | some rest => multi? quote escapes fuel done rest
      | none => do
        let (c, rest) ← escape? rest
        multi? quote escapes fuel (c :: done) rest
    else match newline? (c :: rest) with
      | some after =>
        multi? quote escapes fuel (if c = '\r' then '\n' :: c :: done else c :: done) after
      | none => if isControl c then none else multi? quote escapes fuel (c :: done) rest

/-- The text after an end of line right behind the opening quotes. -/
def dropFirstNewline (cs : List Char) : List Char :=
  (newline? cs).getD cs

/-- A string of any form.  `fuel` bounds the number of its characters. -/
def string? (fuel : Nat) (cs : List Char) : Option (String × List Char) :=
  match cs with
  | '"' :: '"' :: '"' :: rest => multi? '"' true fuel [] (dropFirstNewline rest)
  | '\'' :: '\'' :: '\'' :: rest => multi? '\'' false fuel [] (dropFirstNewline rest)
  | '"' :: rest => basic? fuel [] rest
  | '\'' :: rest => literal? [] rest
  | _ => none

/-- A character of a bare key. -/
def isBareKey (c : Char) : Bool :=
  c.isAlphanum || c = '_' || c = '-'

/-- One part of a key. -/
def keyPart? (fuel : Nat) (cs : List Char) : Option (String × List Char) :=
  match cs with
  | '"' :: rest => basic? fuel [] rest
  | '\'' :: rest => literal? [] rest
  | _ =>
    match cs.takeWhile isBareKey with
    | [] => none
    | found => some (String.ofList found, cs.dropWhile isBareKey)

/-- The greatest number of parts of a key, and the greatest number of arrays
and tables around a value that are written in place. -/
def nestingLimit : Nat := 80

/-- The parts of a key and the rest, after blanks.  `room` is the number of
parts that it may have. -/
def keyParts? (fuel : Nat) : Nat → List Char → Option (List String × List Char)
  | 0, _ => none
  | room + 1, cs => do
    let (part, rest) ← keyPart? fuel (skipBlanks cs)
    match skipBlanks rest with
    | '.' :: rest =>
      let (parts, rest) ← keyParts? fuel room rest
      return (part :: parts, rest)
    | rest => return ([part], rest)

/-- A key: its parts and the rest, after blanks. -/
def key? (fuel : Nat) (cs : List Char) : Option (List String × List Char) :=
  keyParts? fuel nestingLimit cs

/-- A character of a word. -/
def isWordChar (c : Char) : Bool :=
  c.isAlphanum || c = '+' || c = '-' || c = '.' || c = '_' || c = ':'

/-- A word.  A date takes the time after one blank with it. -/
def wordValue? (cs : List Char) : Option (Value × List Char) := do
  let found := cs.takeWhile isWordChar
  let rest := cs.dropWhile isWordChar
  match rest with
  | ' ' :: c :: after =>
    if isDate found && c.isDigit then
      let time := (c :: after).takeWhile isWordChar
      return (← word? (found ++ ' ' :: time), (c :: after).dropWhile isWordChar)
    else return (← word? found, rest)
  | _ => return (← word? found, rest)

mutual

/-- One value.  `room` is the number of arrays and tables that may still be
opened, and `fuel` bounds the number of calls; twice the length of the text
is enough. -/
def value? : Nat → Nat → List Char → Option (Value × List Char)
  | 0, _, _ => none
  | fuel + 1, room, cs =>
    match cs, room with
    | '[' :: rest, room + 1 => do
      let (items, rest) ← items? fuel room rest
      return (.array items, rest)
    | '\x7b' :: rest, room + 1 => do
      let (entries, rest) ← inline? fuel room [] rest
      return (.table .inline entries, rest)
    | '"' :: _, _ => do
      let (text, rest) ← string? fuel cs
      return (.string text, rest)
    | '\'' :: _, _ => do
      let (text, rest) ← string? fuel cs
      return (.string text, rest)
    | _, _ => wordValue? cs

/-- The items of an array up to its closing bracket. -/
def items? : Nat → Nat → List Char → Option (List Value × List Char)
  | 0, _, _ => none
  | fuel + 1, room, cs => do
    match ← skipTrivia fuel cs with
    | ']' :: rest => return ([], rest)
    | rest =>
      let (item, rest) ← value? fuel room rest
      match ← skipTrivia fuel rest with
      | ',' :: rest =>
        let (items, rest) ← items? fuel room rest
        return (item :: items, rest)
      | ']' :: rest => return ([item], rest)
      | _ => none

/-- The entries of a table in braces up to the closing one.  Lines may end
everywhere but inside a key. -/
def inline? : Nat → Nat → Entries → List Char → Option (Entries × List Char)
  | 0, _, _, _ => none
  | fuel + 1, room, entries, cs => do
    match ← skipTrivia fuel cs with
    | '\x7d' :: rest => return (entries, rest)
    | rest =>
      let (keys, rest) ← key? fuel rest
      let '=' :: rest ← skipTrivia fuel rest | none
      let (value, rest) ← value? fuel room (← skipTrivia fuel rest)
      let last ← keys.getLast?
      let entries ← addDotted? entries keys.dropLast last value
      match ← skipTrivia fuel rest with
      | ',' :: rest => inline? fuel room entries rest
      | '\x7d' :: rest => return (entries, rest)
      | _ => none

end

/-- What is known after some lines: the root table and the path of the last
header. -/
structure Document where
  root : Entries
  path : List String

/-- A header of a table, after its bracket. -/
def header? (fuel : Nat) (document : Document) (cs : List Char) :
    Option (Document × List Char) := do
  let (keys, rest) ← key? fuel cs
  let ']' :: rest := rest | none
  let root ← openTable? document.root keys.dropLast (← keys.getLast?)
  return (⟨root, keys⟩, rest)

/-- A header of a list of tables, after its brackets. -/
def doubleHeader? (fuel : Nat) (document : Document) (cs : List Char) :
    Option (Document × List Char) := do
  let (keys, rest) ← key? fuel cs
  let ']' :: ']' :: rest := rest | none
  let root ← appendTable? document.root keys.dropLast (← keys.getLast?)
  return (⟨root, keys⟩, rest)

/-- A key with its value. -/
def entry? (fuel : Nat) (document : Document) (cs : List Char) :
    Option (Document × List Char) := do
  let (keys, rest) ← key? fuel cs
  let '=' :: rest := rest | none
  let (value, rest) ← value? fuel nestingLimit (skipBlanks rest)
  let root ← addAt? document.root document.path keys.dropLast (← keys.getLast?) value
  return ({ document with root }, rest)

/-- The lines of a document.  `fuel` bounds the number of lines and the work
on each; twice the length of the text is enough. -/
def lines? : Nat → Document → List Char → Option Document
  | 0, _, _ => none
  | fuel + 1, document, cs =>
    match skipBlanks cs with
    | [] => some document
    | '[' :: '[' :: rest => do
      let (document, rest) ← doubleHeader? fuel document rest
      lines? fuel document (← endOfLine? rest)
    | '[' :: rest => do
      let (document, rest) ← header? fuel document rest
      lines? fuel document (← endOfLine? rest)
    | rest =>
      match endOfLine? rest with
      | some rest => lines? fuel document rest
      | none => do
        let (document, rest) ← entry? fuel document rest
        lines? fuel document (← endOfLine? rest)

/-- The root table of a document.  A byte order mark at its start does not
count. -/
def parse? (text : String) : Option Entries := do
  let cs := match text.toList with
    | '﻿' :: rest => rest
    | cs => cs
  return (← lines? (2 * cs.length + 4) ⟨[], []⟩ cs).root

end LintLayer.Toml
