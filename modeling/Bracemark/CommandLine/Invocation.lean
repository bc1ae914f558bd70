/-
What a command line asks for.

The command takes the path of one document and a few options. An option has a
long name after two hyphens, and most have a letter after one. Its value follows
an equals sign or stands in the next argument; the value of a letter may also
follow it directly. Every option but the overrides may be given once. A value
that is an argument of its own does not begin with a hyphen, unless the hyphen is
all there is. Two hyphens alone end the options.
-/

set_option autoImplicit false

namespace Bracemark

/-- The options that take a value. -/
inductive OptionName where
  | format
  | config
  | override
deriving DecidableEq, Repr, Inhabited

/-- A well-formed command line that asks for a document. -/
structure Invocation where
  path : String
  /-- The name of the format, if one is given. -/
  format : Option String
  /-- The settings file, if one is given. -/
  config : Option String
  /-- The overrides in order. -/
  overrides : List String
deriving DecidableEq, Repr

/-- What a command line asks for. -/
inductive Request where
  | document (i : Invocation)
  | help
  | version
  /-- It is not well formed. -/
  | misuse
deriving DecidableEq, Repr

namespace Request

/-- What has been gathered from a command line. -/
structure Gathered where
  path : Option String
  format : Option String
  config : Option String
  overrides : List String
deriving DecidableEq, Repr

/-- Nothing has been gathered. -/
def Gathered.empty : Gathered := ⟨none, none, none, []⟩

/-- Gathers the value of an option, unless that option was given before. -/
def Gathered.withOption (g : Gathered) (name : OptionName) (value : String) : Option Gathered :=
  match name with
  | .format => if g.format.isSome then none else some { g with format := some value }
  | .config => if g.config.isSome then none else some { g with config := some value }
  | .override => some { g with overrides := g.overrides ++ [value] }

/-- Gathers the path, unless there was one before. -/
def Gathered.withPath (g : Gathered) (path : String) : Option Gathered :=
  if g.path.isSome then none else some { g with path := some path }

/-- What a single argument is. -/
inductive Piece where
  | path (s : String)
  /-- An option whose value is in the same argument. -/
  | option (name : OptionName) (value : String)
  /-- An option whose value is the next argument. -/
  | optionName (name : OptionName)
  | endOfOptions
  | help
  | version
  | unknown
deriving DecidableEq, Repr

/-- The option with a long name. -/
def longName? (name : String) : Option OptionName :=
  match name with
  | "format" => some .format
  | "config" => some .config
  | "set" => some .override
  | _ => none

/-- What an argument is that begins with two hyphens. -/
def longPiece (cs : List Char) : Piece :=
  let name := String.ofList (cs.takeWhile (· != '='))
  match longName? name, cs.dropWhile (· != '=') with
  | some option, [] => .optionName option
  | some option, _ :: value => .option option (String.ofList value)
  | none, [] => if name = "help" then .help else if name = "version" then .version else .unknown
  | none, _ => .unknown

/-- What an argument is that begins with one hyphen. -/
def shortPiece : List Char → Piece
  | 'h' :: _ => .help
  | 'V' :: _ => .version
  | c :: cs =>
    let name := if c = 'f' then some OptionName.format else if c = 'c' then some .config else none
    match name, cs with
    | none, _ => .unknown
    | some name, [] => .optionName name
    | some name, '=' :: value => .option name (String.ofList value)
    | some name, value => .option name (String.ofList value)
  | [] => .unknown

/-- What an argument is. -/
def piece (argument : String) : Piece :=
  match argument.toList with
  | ['-', '-'] => .endOfOptions
  | '-' :: '-' :: cs => longPiece cs
  | '-' :: c :: cs => shortPiece (c :: cs)
  | _ => .path argument

/-- What has been gathered, as a request. -/
def ofGathered (g : Gathered) : Request :=
  match g.path with
  | none => .misuse
  | some path => .document ⟨path, g.format, g.config, g.overrides⟩

/-- Gathers arguments of which none is an option. -/
def gatherPaths (g : Gathered) : List String → Request
  | [] => ofGathered g
  | argument :: arguments =>
    match g.withPath argument with
    | none => .misuse
    | some g => gatherPaths g arguments

/-- Gathers arguments. `pending` is an option whose value has to come next. -/
def gather (g : Gathered) (pending : Option OptionName) : List String → Request
  | [] => if pending.isSome then .misuse else ofGathered g
  | argument :: arguments =>
    match piece argument, pending with
    | .path value, some name =>
      match g.withOption name value with
      | none => .misuse
      | some g => gather g none arguments
    | _, some _ => .misuse
    | .path path, none =>
      match g.withPath path with
      | none => .misuse
      | some g => gather g none arguments
    | .option name value, none =>
      match g.withOption name value with
      | none => .misuse
      | some g => gather g none arguments
    | .optionName name, none => gather g (some name) arguments
    | .endOfOptions, none => gatherPaths g arguments
    | .help, none => .help
    | .version, none => .version
    | .unknown, none => .misuse

/-- What a command line asks for; without any arguments it is not well formed. -/
def ofArguments (arguments : List String) : Request :=
  gather .empty none arguments

end Request

end Bracemark
