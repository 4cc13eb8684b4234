import DependencyAtlas.Toml.Quoted
import DependencyAtlas.Toml.Value

set_option autoImplicit false

namespace DependencyAtlas

namespace Toml

namespace Reading

open Quoted

def skipBlank (cs : List Char) : List Char := cs.dropWhile isBlank

def skipLines? (inComment : Bool) : List Char → Option (List Char)
  | [] => some []
  | '\r' :: '\n' :: cs => skipLines? false cs
  | '\n' :: cs => skipLines? false cs
  | c :: cs =>
    if inComment then if allowed c then skipLines? true cs else none
    else if isBlank c then skipLines? false cs
    else if c = '#' then skipLines? true cs
    else some (c :: cs)

def atLineEnd (cs : List Char) : Bool :=
  match skipBlank cs with
  | [] => true
  | '\n' :: _ => true
  | '\r' :: '\n' :: _ => true
  | '#' :: _ => true
  | _ => false

def inBareKey (c : Char) : Bool := c.isAlphanum || c = '_' || c = '-'

def simpleKey? : List Char → Option (String × List Char)
  | '"' :: cs => basic? "" cs
  | '\'' :: cs => literal? "" cs
  | cs =>
    let word := cs.takeWhile inBareKey
    if word = [] then none else some (String.ofList word, cs.dropWhile inBareKey)

def key? : Nat → List Char → Option (List String × List Char)
  | 0, _ => none
  | turns + 1, cs => do
    let (part, rest) ← simpleKey? (skipBlank cs)
    match skipBlank rest with
    | '.' :: rest =>
      let (parts, rest) ← key? turns rest
      return (part :: parts, rest)
    | rest => return ([part], rest)

def endsWord (c : Char) : Bool :=
  isBlank c || c = '\n' || c = '\r' || c = '#' || c = ',' || c = ']' || c = '}'

mutual

def value? : Nat → List Char → Option (Toml × List Char)
  | 0, _ => none
  | turns + 1, cs =>
    match cs with
    | '"' :: '"' :: '"' :: cs => (multiBasic? .text "" (dropBreak cs)).map (.map .string id)
    | '\'' :: '\'' :: '\'' :: cs => (multiLiteral? "" (dropBreak cs)).map (.map .string id)
    | '"' :: cs => (basic? "" cs).map (.map .string id)
    | '\'' :: cs => (literal? "" cs).map (.map .string id)
    | '[' :: cs => items? turns [] cs
    | '{' :: cs =>
      match skipBlank cs with
      | '}' :: rest => some (.table .inline [], rest)
      | cs => entries? turns [] cs
    | cs => (Scalar.ofWord? (cs.takeWhile (!endsWord ·))).map (·, cs.dropWhile (!endsWord ·))

-- A comma may follow the last item.
def items? : Nat → List Toml → List Char → Option (Toml × List Char)
  | 0, _, _ => none
  | turns + 1, items, cs => do
    match ← skipLines? false cs with
    | ']' :: rest => return (.array items.reverse, rest)
    | cs =>
      let (v, rest) ← value? turns cs
      match ← skipLines? false rest with
      | ',' :: rest => items? turns (v :: items) rest
      | ']' :: rest => return (.array (v :: items).reverse, rest)
      | _ => none

def entries? : Nat → Entries → List Char → Option (Toml × List Char)
  | 0, _, _ => none
  | turns + 1, es, cs => do
    let (parts, rest) ← key? turns cs
    match rest with
    | '=' :: rest =>
      let (v, rest) ← value? turns (skipBlank rest)
      let (_, es) ← Entries.assign? parts.dropLast (parts.getLastD "") v .inline es
      match skipBlank rest with
      | ',' :: rest => entries? turns es rest
      | '}' :: rest => return (.table .inline es, rest)
      | _ => none
    | _ => none

end

def lines? : Nat → List String → Entries → List Char → Option Entries
  | 0, _, _, _ => none
  | turns + 1, header, es, cs => do
    match ← skipLines? false cs with
    | [] => return es
    | '[' :: '[' :: cs =>
      let (parts, rest) ← key? turns cs
      match rest with
      | ']' :: ']' :: rest =>
        if atLineEnd rest then
          lines? turns parts (← es.openNext? parts.dropLast (parts.getLastD "")) rest
        else none
      | _ => none
    | '[' :: cs =>
      let (parts, rest) ← key? turns cs
      match rest with
      | ']' :: rest =>
        if atLineEnd rest then
          lines? turns parts (← es.open? parts.dropLast (parts.getLastD "")) rest
        else none
      | _ => none
    | cs =>
      let (parts, rest) ← key? turns cs
      match rest with
      | '=' :: rest =>
        let (v, rest) ← value? turns (skipBlank rest)
        if atLineEnd rest then
          lines? turns header (← es.assignIn? header parts.dropLast (parts.getLastD "") v) rest
        else none
      | _ => none

end Reading

def parse? (text : String) : Option Entries :=
  let cs := match text.toList with
    | '\uFEFF' :: cs => cs
    | cs => cs
  Reading.lines? (cs.length + 1) [] [] cs

end Toml

end DependencyAtlas
