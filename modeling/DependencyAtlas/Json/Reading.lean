import DependencyAtlas.Json.Value

set_option autoImplicit false

namespace DependencyAtlas.Json

inductive Token where
  | openBracket | closeBracket | openBrace | closeBrace | colon | comma
  | scalar (value : Json)
deriving Repr

namespace Token

structure Quoted where
  text : String := ""
  high : Option Nat := none
  broken : Bool := false

namespace Quoted

def char (q : Quoted) (c : Char) : Quoted :=
  { q with text := q.text.push c, high := none, broken := q.broken || q.high.isSome }

def unit (q : Quoted) (u : Nat) : Quoted :=
  if 0xD800 ≤ u ∧ u < 0xDC00 then
    { q with high := some u, broken := q.broken || q.high.isSome }
  else if 0xDC00 ≤ u ∧ u < 0xE000 then
    match q.high with
    | some h =>
      { q with
        text := q.text.push (Char.ofNat (0x10000 + (h - 0xD800) * 0x400 + (u - 0xDC00)))
        high := none }
    | none => { q with broken := true }
  else q.char (Char.ofNat u)

def done (q : Quoted) : Text := if q.broken || q.high.isSome then none else some q.text

end Quoted

inductive Begun where
  | nothing
  | word (letters : List Char)
  | number (chars : List Char)
  | quoted (q : Quoted)
  | escape (q : Quoted)
  | hex (q : Quoted) (missing : Nat) (value : Nat)

structure State where
  begun : Begun := .nothing
  tokens : Array Token := #[]

def isBlank (c : Char) : Bool := c == ' ' || c == '\t' || c == '\n' || c == '\r'

def inNumber (c : Char) : Bool :=
  c.isDigit || c == '-' || c == '+' || c == '.' || c == 'e' || c == 'E'

def ofWord? (letters : List Char) : Option Token :=
  match String.ofList letters.reverse with
  | "null" => some (.scalar .null)
  | "true" => some (.scalar (.bool true))
  | "false" => some (.scalar (.bool false))
  | _ => none

def ofNumber? (chars : List Char) : Option Token := do
  let _ ← Number.parts? chars.reverse
  return .scalar (.number (String.ofList chars.reverse))

def hexDigit? (c : Char) : Option Nat :=
  if c.isDigit then some (c.toNat - '0'.toNat)
  else if 'a' ≤ c ∧ c ≤ 'f' then some (c.toNat - 'a'.toNat + 10)
  else if 'A' ≤ c ∧ c ≤ 'F' then some (c.toNat - 'A'.toNat + 10)
  else none

def escaped? : Char → Option Char
  | '"' => some '"'
  | '\\' => some '\\'
  | '/' => some '/'
  | 'b' => some '\x08'
  | 'f' => some '\x0c'
  | 'n' => some '\n'
  | 'r' => some '\r'
  | 't' => some '\t'
  | _ => none

def start? (tokens : Array Token) (c : Char) : Option State :=
  match c with
  | '[' => some ⟨.nothing, tokens.push .openBracket⟩
  | ']' => some ⟨.nothing, tokens.push .closeBracket⟩
  | '{' => some ⟨.nothing, tokens.push .openBrace⟩
  | '}' => some ⟨.nothing, tokens.push .closeBrace⟩
  | ':' => some ⟨.nothing, tokens.push .colon⟩
  | ',' => some ⟨.nothing, tokens.push .comma⟩
  | '"' => some ⟨.quoted {}, tokens⟩
  | c =>
    if isBlank c then some ⟨.nothing, tokens⟩
    else if c.isDigit || c == '-' then some ⟨.number [c], tokens⟩
    else if c.isAlpha then some ⟨.word [c], tokens⟩
    else none

def step? (s : State) (c : Char) : Option State :=
  match s.begun with
  | .nothing => start? s.tokens c
  | .word letters =>
    if c.isAlpha then some { s with begun := .word (c :: letters) }
    else do start? (s.tokens.push (← ofWord? letters)) c
  | .number chars =>
    if inNumber c then some { s with begun := .number (c :: chars) }
    else do start? (s.tokens.push (← ofNumber? chars)) c
  | .quoted q =>
    if c = '"' then some ⟨.nothing, s.tokens.push (.scalar (.string q.done))⟩
    else if c = '\\' then some { s with begun := .escape q }
    else if c.toNat < 32 then none
    else some { s with begun := .quoted (q.char c) }
  | .escape q =>
    if c = 'u' then some { s with begun := .hex q 3 0 }
    else do return { s with begun := .quoted (q.char (← escaped? c)) }
  | .hex q missing value => do
    let value := 16 * value + (← hexDigit? c)
    return { s with begun := match missing with
      | 0 => .quoted (q.unit value)
      | rest + 1 => .hex q rest value }

def finish? (s : State) : Option (Array Token) :=
  match s.begun with
  | .nothing => some s.tokens
  | .word letters => do return s.tokens.push (← ofWord? letters)
  | .number chars => do return s.tokens.push (← ofNumber? chars)
  | _ => none

def read? (text : String) : Option (List Token) := do
  let s ← text.toList.foldlM step? {}
  return (← finish? s).toList

end Token

namespace Reading

inductive Open where
  | array (items : List Json)
  | field (fields : List (Text × Json)) (key : Text)

inductive State where
  | value (around : List Open)
  | valueOrClose (around : List Open)
  | keyOrClose (around : List Open)
  | key (around : List Open) (fields : List (Text × Json))
  | colon (around : List Open) (fields : List (Text × Json)) (key : Text)
  | commaOrBracket (around : List Open) (items : List Json)
  | commaOrBrace (around : List Open) (fields : List (Text × Json))
  | nothing (value : Json)

def put (v : Json) : List Open → State
  | [] => .nothing v
  | .array items :: around => .commaOrBracket around (v :: items)
  | .field fields key :: around => .commaOrBrace around ((key, v) :: fields)

def begin? (around : List Open) : Token → Option State
  | .scalar v => some (put v around)
  | .openBracket => some (.valueOrClose around)
  | .openBrace => some (.keyOrClose around)
  | _ => none

def step? : State → Token → Option State
  | .value around, t => begin? around t
  | .valueOrClose around, .closeBracket => some (put (.array []) around)
  | .valueOrClose around, t => begin? (.array [] :: around) t
  | .keyOrClose around, .closeBrace => some (put (.object []) around)
  | .keyOrClose around, .scalar (.string k) => some (.colon around [] k)
  | .key around fields, .scalar (.string k) => some (.colon around fields k)
  | .colon around fields k, .colon => some (.value (.field fields k :: around))
  | .commaOrBracket around items, .comma => some (.value (.array items :: around))
  | .commaOrBracket around items, .closeBracket => some (put (.array items.reverse) around)
  | .commaOrBrace around fields, .comma => some (.key around fields)
  | .commaOrBrace around fields, .closeBrace => some (put (.object fields.reverse) around)
  | _, _ => none

def value? : State → Option Json
  | .nothing v => some v
  | _ => none

end Reading

def ofTokens? (tokens : List Token) : Option Json := do
  Reading.value? (← tokens.foldlM Reading.step? (.value []))

def parse? (text : String) : Option Json := do ofTokens? (← Token.read? text)

end DependencyAtlas.Json
