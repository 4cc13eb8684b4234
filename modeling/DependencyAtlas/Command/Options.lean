set_option autoImplicit false

namespace DependencyAtlas.Command

inductive Action where
  | query | layout | roots | relations
deriving DecidableEq, Repr

namespace Action

def all : List Action := [query, layout, roots, relations]

def name : Action → String
  | query => "query"
  | layout => "layout"
  | roots => "roots"
  | relations => "relations"

def ofName? (name : String) : Option Action := all.find? (·.name = name)

end Action

abbrev Place := Option Action

inductive Flag where
  | verbose | quiet | pretty | reverse | version | help
deriving DecidableEq, Repr

namespace Flag

def all : List Flag := [verbose, quiet, pretty, reverse, version, help]

def name : Flag → String
  | verbose => "verbose"
  | quiet => "quiet"
  | pretty => "pretty"
  | reverse => "reverse"
  | version => "version"
  | help => "help"

def letter? : Flag → Option Char
  | verbose => some 'v'
  | version => some 'V'
  | help => some 'h'
  | _ => none

def allowed (place : Place) : Flag → Bool
  | reverse => place = some .layout || place = some .roots
  | version => place = none
  | _ => true

end Flag

inductive Setting where
  | graph | path | start | relation | set | config | kind | fit | margin
deriving DecidableEq, Repr

namespace Setting

def all : List Setting := [graph, path, start, relation, set, config, kind, fit, margin]

def name : Setting → String
  | graph => "graph"
  | path => "path"
  | start => "from"
  | relation => "relation"
  | set => "set"
  | config => "config"
  | kind => "kind"
  | fit => "fit"
  | margin => "margin"

def letter? : Setting → Option Char
  | graph => some 'g'
  | path => some 'p'
  | relation => some 'r'
  | set => some 's'
  | kind => some 'k'
  | _ => none

def allowed (place : Place) : Setting → Bool
  | graph => place = some .query || place = some .layout || place = some .roots
  | path | start => place = some .query
  | relation | set => place = some .layout || place = some .roots
  | config | kind | fit | margin => place = some .layout

def repeatable : Setting → Bool
  | start | relation | set => true
  | _ => false

def greedy : Setting → Bool
  | start => true
  | _ => false

end Setting

inductive Switch where
  | flag (flag : Flag)
  | setting (setting : Setting)
deriving DecidableEq, Repr

namespace Switch

def find? (place : Place) (p : String → Option Char → Bool) : Option Switch :=
  let flags := Flag.all.find? fun f => f.allowed place && p f.name f.letter?
  let settings := Setting.all.find? fun s => s.allowed place && p s.name s.letter?
  (flags.map flag).or (settings.map setting)

def named? (place : Place) (name : String) : Option Switch := find? place fun n _ => n = name

def lettered? (place : Place) (letter : Char) : Option Switch :=
  find? place fun _ l => l = some letter

end Switch

end DependencyAtlas.Command
