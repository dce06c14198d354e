import StackLink.Bytes

/-! # Command lines -/
namespace StackLink.Command

structure OptionSpec where
  long : String
  short : Option UInt8
  takesValue : Bool
deriving DecidableEq

structure Arguments where
  flags : List String
  values : List (String × Bytes)
  positional : List Bytes

/-- A command line is turned down, asks for help or for the version, or can be acted upon. -/
inductive Request where
  | rejected
  | help
  | version
  | accepted (arguments : Arguments)

/-- How far a command line has been read: the option that still needs its value, and whether all that
follows is positional. -/
structure State where
  arguments : Arguments
  pending : Option OptionSpec
  literal : Bool

def State.start : State := ⟨⟨[], [], []⟩, none, false⟩

abbrev Step := Except Request State

def helpSpec : OptionSpec := ⟨"help", some 0x68, false⟩

def versionSpec : OptionSpec := ⟨"version", some 0x56, false⟩

namespace State

private def isGiven (state : State) (spec : OptionSpec) : Bool :=
  state.arguments.flags.contains spec.long || state.arguments.values.any fun (name, _) => name == spec.long

private def addFlag (state : State) (spec : OptionSpec) : Step :=
  if spec = helpSpec then .error .help
  else if spec = versionSpec then .error .version
  else if state.isGiven spec then .error .rejected
  else .ok { state with arguments.flags := state.arguments.flags ++ [spec.long] }

private def addValue (state : State) (spec : OptionSpec) (value : Bytes) : Step :=
  if state.isGiven spec then .error .rejected
  else .ok { state with
    arguments.values := state.arguments.values ++ [(spec.long, value)]
    pending := none }

private def addPositional (state : State) (limit : Option Nat) (value : Bytes) : Step :=
  match limit with
  | some n =>
    if n ≤ state.arguments.positional.length then .error .rejected
    else .ok { state with arguments.positional := state.arguments.positional ++ [value] }
  | none => .ok { state with arguments.positional := state.arguments.positional ++ [value] }

private def dash : UInt8 := 0x2D
private def equals : UInt8 := 0x3D

/-- A long option, with what follows its first equals sign as the value. -/
private def longOption (specs : List OptionSpec) (state : State) (text : Bytes) : Step :=
  let (name, rest) := text.span (· ≠ equals)
  match specs.find? fun spec => Bytes.ofText spec.long == name with
  | none => .error .rejected
  | some spec =>
    match spec.takesValue, rest with
    | true, [] => .ok { state with pending := some spec }
    | true, _ :: value => state.addValue spec value
    | false, [] => state.addFlag spec
    | false, _ :: _ => .error .rejected

/-- Short options in one word. The first that takes a value takes the rest of the word, less an equals
sign, or else the next word. -/
private def shortOptions (specs : List OptionSpec) (state : State) : Bytes → Step
  | [] => .ok state
  | c :: rest =>
    match specs.find? fun spec => spec.short == some c with
    | none => .error .rejected
    | some spec =>
      if spec.takesValue then
        match rest with
        | [] => .ok { state with pending := some spec }
        | b :: value => state.addValue spec (if b = equals then value else b :: value)
      else
        match state.addFlag spec with
        | .error answer => .error answer
        | .ok state => shortOptions specs state rest

/-- Takes the next word. An option where a value is due is turned down. -/
private def next (specs : List OptionSpec) (limit : Option Nat) (state : State) (word : Bytes) : Step :=
  if state.literal then state.addPositional limit word
  else
    match word, state.pending with
    | d :: second :: text, pending =>
      if d = dash then
        if pending.isSome then .error .rejected
        else if second = dash then
          if text = [] then .ok { state with literal := true } else longOption specs state text
        else shortOptions specs state (second :: text)
      else
        match pending with
        | some spec => state.addValue spec word
        | none => state.addPositional limit word
    | _, some spec => state.addValue spec word
    | _, none => state.addPositional limit word

end State

def parse (specs : List OptionSpec) (limit : Option Nat) (words : List Bytes) : Request :=
  let specs := helpSpec :: versionSpec :: specs
  match words.foldlM (State.next specs limit) State.start with
  | .error answer => answer
  | .ok state => if state.pending.isSome then .rejected else .accepted state.arguments

end StackLink.Command
