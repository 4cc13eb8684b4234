import DependencyAtlas.Command.Options

set_option autoImplicit false

namespace DependencyAtlas.Command

inductive UsageError where
  | unexpected (word : String)
  | missingValue (option : String)
  | needlessValue (option : String)
  | invalidValue (option value : String)
  | repeated (option : String)
  | missing (option : String)
  | noAction
deriving DecidableEq, Repr

def UsageError.message : UsageError → String
  | unexpected word => s!"unexpected argument '{word}'"
  | missingValue option => s!"a value is required for '--{option}'"
  | needlessValue option => s!"'--{option}' takes no value"
  | invalidValue option value => s!"invalid value '{value}' for '--{option}'"
  | repeated option => s!"'--{option}' cannot be used multiple times"
  | missing option => s!"'--{option}' is required"
  | noAction => "a command is required"

inductive Stop where
  | usage (error : UsageError)
  | version
  | help
deriving DecidableEq, Repr

inductive Word where
  | separator
  | long (name : String) (value : Option String)
  | letters (letters : List Char)
  | plain (text : String)
deriving DecidableEq, Repr

def Word.of (text : String) : Word :=
  match text.toList with
  | ['-', '-'] => .separator
  | '-' :: '-' :: cs =>
    match cs.span (· ≠ '=') with
    | (name, []) => .long (String.ofList name) none
    | (name, _ :: value) => .long (String.ofList name) (some (String.ofList value))
  | '-' :: c :: cs => .letters (c :: cs)
  | _ => .plain text

structure Given where
  flags : List Flag := []
  values : List (Setting × String) := []
deriving DecidableEq, Repr

inductive Expected where
  | option
  | value (setting : Setting)
  | more (setting : Setting)
deriving DecidableEq, Repr

namespace Given

def has (g : Given) (f : Flag) : Bool := g.flags.contains f

def all (g : Given) (s : Setting) : List String :=
  g.values.filterMap fun (t, value) => if t = s then some value else none

def one? (g : Given) (s : Setting) : Option String := (g.all s).head?

def raise (g : Given) : Flag → Except Stop Given
  | .version => .error .version
  | .help => .error .help
  | f =>
    if g.has f then .error (.usage (.repeated f.name)) else .ok { g with flags := f :: g.flags }

def assign (g : Given) (s : Setting) (value : String) : Except Stop Given :=
  if !s.repeatable && (g.one? s).isSome then .error (.usage (.repeated s.name))
  else .ok { g with values := g.values ++ [(s, value)] }

def long (place : Place) (g : Given) (name : String) (value : Option String) :
    Except Stop (Given × Expected) :=
  match Switch.named? place name, value with
  | none, _ => .error (.usage (.unexpected ("--" ++ name)))
  | some (.flag f), none => do return (← g.raise f, .option)
  | some (.flag f), some _ => .error (.usage (.needlessValue f.name))
  | some (.setting s), none => .ok (g, .value s)
  | some (.setting s), some value => do return (← g.assign s value, .option)

def letters (place : Place) (g : Given) : List Char → Except Stop (Given × Expected)
  | [] => .ok (g, .option)
  | c :: cs =>
    match Switch.lettered? place c, cs with
    | none, _ => .error (.usage (.unexpected ("-" ++ c.toString)))
    | some (.flag f), cs => do letters place (← g.raise f) cs
    | some (.setting s), [] => .ok (g, .value s)
    | some (.setting s), '=' :: value | some (.setting s), value => do
      return (← g.assign s (String.ofList value), .option)

def read (place : Place) (g : Given) : Expected → List String → Except Stop Given
  | .value s, [] => .error (.usage (.missingValue s.name))
  | _, [] => .ok g
  | expected, word :: words =>
    match Word.of word, expected with
    | .plain text, .option => .error (.usage (.unexpected text))
    | .plain text, .value s | .plain text, .more s => do
      read place (← g.assign s text) (if s.greedy then .more s else .option) words
    -- options are no values, whatever they are
    | _, .value s => .error (.usage (.missingValue s.name))
    | .separator, _ =>
      match words with
      | [] => .ok g
      | word :: _ => .error (.usage (.unexpected word))
    | .long name value, _ => do
      let (g, expected) ← g.long place name value
      read place g expected words
    | .letters cs, _ => do
      let (g, expected) ← g.letters place cs
      read place g expected words

def readAll (g : Given) : List String → Except Stop (Action × Given × Given)
  | [] => .error (.usage .noAction)
  | word :: words =>
    match Word.of word with
    | .plain text =>
      match Action.ofName? text with
      | some action => do return (action, g, ← read (some action) {} .option words)
      | none => .error (if text = "help" then .help else .usage (.unexpected text))
    | .separator => .error (.usage (words.head?.elim .noAction .unexpected))
    | .long name value => do
      let (g, _) ← g.long none name value
      readAll g words
    | .letters cs => do
      let (g, _) ← g.letters none cs
      readAll g words

end Given

end DependencyAtlas.Command
