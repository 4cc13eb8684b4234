import DependencyAtlas.Decimal.Text
import DependencyAtlas.Layout

set_option autoImplicit false

namespace DependencyAtlas.Layout

inductive Kind where
  | linear | radial
deriving DecidableEq, Repr, Inhabited

inductive SettingsError where
  | unknownLayout (name : String)
  | badSpacing (name : String) (value : Float)

def SettingsError.message : SettingsError → String
  | unknownLayout name =>
    s!"Invalid configuration: unknown layout '{name}' (expected linear or radial)"
  | badSpacing name value =>
    s!"Invalid configuration: {name} must be a positive number, got {Decimal.plain value}"

namespace Kind

def name : Kind → String
  | linear => "linear"
  | radial => "radial"

def ofName (text : String) : Except SettingsError Kind :=
  let lower := text.toLower
  if lower = "linear" ∨ lower = "tree" then .ok linear
  else if lower = "radial" then .ok radial
  else .error (.unknownLayout lower)

end Kind

structure Settings where
  kind : Kind := .linear
  horizontalSpacing : Float := 100.0
  verticalSpacing : Float := 50.0
  ringSpacing : Float := 1.0

namespace Settings

def validSpacing (x : Float) : Bool := x.isFinite && 0.0 < x

-- Also the distances that the layout does not use.
def validate (s : Settings) : Except SettingsError Unit := do
  check "horizontal_spacing" s.horizontalSpacing
  check "vertical_spacing" s.verticalSpacing
  check "ring_spacing" s.ringSpacing
where
  check (name : String) (x : Float) : Except SettingsError Unit :=
    if validSpacing x then .ok () else .error (.badSpacing name x)

def positions (s : Settings) (h : Hierarchy) : Positions Float :=
  match s.kind with
  | .linear => Linear.positions ⟨s.horizontalSpacing, s.verticalSpacing⟩ h
  | .radial => Radial.positions s.ringSpacing h

def event (s : Settings) (h : Hierarchy) : Event :=
  match s.kind with
  | .linear => Linear.event h
  | .radial => Radial.event h

end Settings

structure Runner where
  settings : Settings
  hierarchy : Hierarchy
  positions : Positions Float := ∅
  done : Bool := false

namespace Runner

def make (s : Settings) (g : Graph) (rule : EdgeRule) : Except SettingsError Runner := do
  s.validate
  return { settings := s, hierarchy := .ofGraph g rule }

def name (r : Runner) : String := r.settings.kind.name

def cost (_ : Runner) : Nat := 1

def step (r : Runner) : Runner :=
  if r.done then r else { r with positions := r.settings.positions r.hierarchy, done := true }

def stepEvents (r : Runner) : List Event :=
  if r.done then [] else [r.settings.event r.hierarchy]

def finish (r : Runner) : Runner × Nat := if r.done then (r, 0) else (r.step, 1)

end Runner

end DependencyAtlas.Layout
