set_option autoImplicit false

namespace DependencyAtlas.Toml.Quoted

def allowed (c : Char) : Bool := c = '\t' || (32 ≤ c.toNat && c.toNat ≠ 127)

def isBlank (c : Char) : Bool := c = ' ' || c = '\t'

def escaped? : Char → Option Char
  | 'b' => some '\x08'
  | 't' => some '\t'
  | 'n' => some '\n'
  | 'f' => some '\x0c'
  | 'r' => some '\r'
  | '"' => some '"'
  | '\\' => some '\\'
  | _ => none

def hexDigit? (c : Char) : Option Nat :=
  if c.isDigit then some (c.toNat - '0'.toNat)
  else if 'a' ≤ c ∧ c ≤ 'f' then some (c.toNat - 'a'.toNat + 10)
  else if 'A' ≤ c ∧ c ≤ 'F' then some (c.toNat - 'A'.toNat + 10)
  else none

def codePoint? (ds : List Char) : Option Char := do
  let n ← ds.foldlM (fun n c => return 16 * n + (← hexDigit? c)) 0
  if h : n.isValidChar then some (Char.ofNatAux n h) else none

def basic? (acc : String) : List Char → Option (String × List Char)
  | [] => none
  | '"' :: cs => some (acc, cs)
  | '\\' :: 'u' :: a :: b :: c :: d :: cs => do
    basic? (acc.push (← codePoint? [a, b, c, d])) cs
  | '\\' :: 'U' :: a :: b :: c :: d :: e :: f :: g :: h :: cs => do
    basic? (acc.push (← codePoint? [a, b, c, d, e, f, g, h])) cs
  | '\\' :: e :: cs => do basic? (acc.push (← escaped? e)) cs
  | c :: cs => if allowed c then basic? (acc.push c) cs else none

def literal? (acc : String) : List Char → Option (String × List Char)
  | [] => none
  | '\'' :: cs => some (acc, cs)
  | c :: cs => if allowed c then literal? (acc.push c) cs else none

def dropBreak : List Char → List Char
  | '\n' :: cs => cs
  | '\r' :: '\n' :: cs => cs
  | cs => cs

-- In the text, behind a backslash whose line has to end, or in the blanks that it swallows.
inductive Joint where
  | text | ending | swallowing
deriving DecidableEq

-- Up to two quotes may stand in front of the closing ones.
def multiBasic? (joint : Joint) (acc : String) : List Char → Option (String × List Char)
  | [] => none
  | '\r' :: '\n' :: cs =>
    match joint with
    | .text => multiBasic? .text (acc.push '\n') cs
    | _ => multiBasic? .swallowing acc cs
  | '\n' :: cs =>
    match joint with
    | .text => multiBasic? .text (acc.push '\n') cs
    | _ => multiBasic? .swallowing acc cs
  | c :: cs =>
    if joint ≠ .text ∧ isBlank c then multiBasic? joint acc cs
    else if joint = .ending then none
    else if c = '"' then
      match cs with
      | '"' :: '"' :: '"' :: '"' :: rest => some (acc ++ "\"\"", rest)
      | '"' :: '"' :: '"' :: rest => some (acc ++ "\"", rest)
      | '"' :: '"' :: rest => some (acc, rest)
      | _ => multiBasic? .text (acc.push '"') cs
    else if c = '\\' then
      match cs with
      | 'u' :: a :: b :: c :: d :: rest => do
        multiBasic? .text (acc.push (← codePoint? [a, b, c, d])) rest
      | 'U' :: a :: b :: c :: d :: e :: f :: g :: h :: rest => do
        multiBasic? .text (acc.push (← codePoint? [a, b, c, d, e, f, g, h])) rest
      | e :: rest =>
        match escaped? e with
        | some e => multiBasic? .text (acc.push e) rest
        -- no escape, so it has to be the end of the line
        | none => multiBasic? .ending acc (e :: rest)
      | [] => none
    else if allowed c then multiBasic? .text (acc.push c) cs
    else none

def multiLiteral? (acc : String) : List Char → Option (String × List Char)
  | [] => none
  | '\r' :: '\n' :: cs => multiLiteral? (acc.push '\n') cs
  | '\n' :: cs => multiLiteral? (acc.push '\n') cs
  | '\'' :: '\'' :: '\'' :: '\'' :: '\'' :: cs => some (acc ++ "''", cs)
  | '\'' :: '\'' :: '\'' :: '\'' :: cs => some (acc ++ "'", cs)
  | '\'' :: '\'' :: '\'' :: cs => some (acc, cs)
  | c :: cs => if allowed c then multiLiteral? (acc.push c) cs else none

end DependencyAtlas.Toml.Quoted
