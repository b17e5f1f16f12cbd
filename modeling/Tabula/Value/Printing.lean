import Tabula.Value

/-!
# Printed documents

A document prints as JSON, either without any blanks or with one entry per line and
two blanks of indentation per level. Field order is kept, and a string escapes only
the quote, the backslash and the control characters below the blank.
-/

namespace Tabula.Value

/-- Whether a document prints on one line or indented. -/
inductive Style where
  | compact
  | indented
deriving DecidableEq, Repr

/-- The lower-case hexadecimal digit of a number below sixteen. -/
def hexDigit (n : Nat) : Char :=
  (Nat.toDigits 16 n).headD '0'

/-- The characters that stand for one character inside a printed string. -/
def escaped (c : Char) : List Char :=
  if c = '"' then ['\\', '"']
  else if c = '\\' then ['\\', '\\']
  else if c = '\x08' then ['\\', 'b']
  else if c = '\x0c' then ['\\', 'f']
  else if c = '\n' then ['\\', 'n']
  else if c = '\r' then ['\\', 'r']
  else if c = '\t' then ['\\', 't']
  else if c.toNat < 0x20 then
    ['\\', 'u', '0', '0', hexDigit (c.toNat / 16), hexDigit (c.toNat % 16)]
  else [c]

/-- Appends a quoted string. -/
def printText (out : String) (text : String) : String :=
  (text.toList.foldl (fun done c => (escaped c).foldl String.push done) (out.push '"')).push '"'

/-- Appends the line break and indentation before an entry at the given depth; nothing
in compact style. -/
def printBreak (style : Style) (depth : Nat) (out : String) : String :=
  match style with
  | .compact => out
  | .indented => (List.replicate depth "  ").foldl String.append (out.push '\n')

/-- Appends the mark between a field name and its value. -/
def printColon (style : Style) (out : String) : String :=
  match style with
  | .compact => out.push ':'
  | .indented => out.push ':' |>.push ' '

mutual

/-- Appends a value whose surroundings are indented by `depth` levels. -/
def printOnto (style : Style) (depth : Nat) (out : String) : Value → String
  | null => out ++ "null"
  | bool true => out ++ "true"
  | bool false => out ++ "false"
  | num number => out ++ number.documentText
  | str text => printText out text
  | arr [] => out ++ "[]"
  | arr (item :: rest) =>
      let opened := printBreak style (depth + 1) (out.push '[')
      let filled := printItems style (depth + 1) (printOnto style (depth + 1) opened item) rest
      (printBreak style depth filled).push ']'
  | obj [] => out.push '\x7b' |>.push '\x7d'
  | obj (field :: rest) =>
      let opened := printBreak style (depth + 1) (out.push '\x7b')
      let filled := printFields style (depth + 1) (printField style (depth + 1) opened field) rest
      (printBreak style depth filled).push '\x7d'

/-- Appends the items after the first one of an array. -/
def printItems (style : Style) (depth : Nat) (out : String) : List Value → String
  | [] => out
  | item :: rest =>
      printItems style depth (printOnto style depth (printBreak style depth (out.push ',')) item)
        rest

/-- Appends the fields after the first one of an object. -/
def printFields (style : Style) (depth : Nat) (out : String) : List (String × Value) → String
  | [] => out
  | field :: rest =>
      printFields style depth (printField style depth (printBreak style depth (out.push ',')) field)
        rest

/-- Appends a field name and its value. -/
def printField (style : Style) (depth : Nat) (out : String) : String × Value → String
  | (name, value) => printOnto style depth (printColon style (printText out name)) value

end

/-- The printed document of a value. -/
def print (style : Style) (value : Value) : String :=
  printOnto style 0 "" value

end Tabula.Value
