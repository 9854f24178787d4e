import StyleTree.Decimal.Numeral
import StyleTree.Text.Quoted

/-!
# Command line

The arguments of the program choose how its tools are served. An option is given by its name or by
a beginning of its name which no other option has; its value is the next argument or stands behind
an equals sign.

## Main definitions

* `Command`: what a command line asks for.
* `Command.ofArguments`: the command of a list of arguments.
* `Command.output`, `Command.errors`, `Command.exitCode?`: what the program says before it serves.
-/

namespace StyleTree

/-- The ways to serve the tools. -/
inductive Transport where
  | stdio
  | http
  deriving DecidableEq, Repr

/-- What the options of a command line set. -/
structure Settings where
  transport : Transport := .stdio
  /-- The port for serving over http. There is none if the option is given two dashes as its
  value. -/
  port : Option Int := some 8000
  debug : Bool := false
  deriving DecidableEq, Repr

/-- The line which tells how the tools are served. -/
def Settings.announcement (s : Settings) : String :=
  match s.transport with
  | .stdio => "Serving stylesheet tools over stdio"
  | .http =>
    "Serving stylesheet tools over http on port " ++ ((s.port.map toString).getD "[]")

/-- What a command line asks for. -/
inductive Command where
  | serve (settings : Settings)
  | help
  | refuse (message : String)
  deriving DecidableEq, Repr

namespace CommandLine

/-- The name of the program and of its server. -/
def programName : String := "chuk-mcp-stylesheet"

inductive Flag where
  | help
  | transport
  | port
  | debug
  deriving DecidableEq, Repr

def spellings : List (String × Flag) := [
  ("-h", .help), ("--help", .help), ("--transport", .transport), ("--port", .port),
  ("--debug", .debug)]

def Flag.name (f : Flag) : String :=
  "/".intercalate ((spellings.filter (·.2 = f)).map (·.1))

/-- What a single argument is. -/
inductive Word where
  | plain
  /-- The mark behind which all arguments are plain. -/
  | dashes
  /-- An option which there is not. -/
  | unknown
  /-- An option by its name, with the text behind an equals sign. -/
  | long (flag : Flag) (value : Option String)
  /-- The short option for help, with the text behind it. -/
  | short (rest : List Char)

/-- Digits, at least one. -/
def isNumber (cs : List Char) : Bool :=
  !cs.isEmpty && cs.all fun c => (Text.digitValue? c).isSome

def isNegative : List Char → Bool
  | '-' :: cs =>
    let cs := if cs.getLast? = some '\n' then cs.dropLast else cs
    isNumber cs ||
      match cs.dropWhile fun c => (Text.digitValue? c).isSome with
      | '.' :: fraction => isNumber fraction
      | _ => false
  | _ => false

/-- The text in front of the first equals sign, and the text behind it. -/
def splitValue (cs : List Char) : List Char × Option (List Char) :=
  match cs.dropWhile (· ≠ '=') with
  | _ :: value => (cs.takeWhile (· ≠ '='), some value)
  | [] => (cs, none)

/-- The long options with a beginning. -/
def matching (beginning : List Char) : List (String × Flag) :=
  spellings.filter fun (s, _) => beginning.isPrefixOf s.toList

/-- What is neither an option nor a beginning of one. -/
def otherWord (cs : List Char) : Word :=
  if isNegative cs || cs.contains ' ' then .plain else .unknown

/-- What an argument in front of any dashes is. A beginning of several options is refused. -/
def word (argument : String) : Except String Word :=
  match argument.toList with
  | ['-', '-'] => .ok .dashes
  | '-' :: '-' :: cs =>
    let (name, value) := splitValue ('-' :: '-' :: cs)
    let value := value.map String.ofList
    match spellings.lookup (String.ofList name), matching name with
    | some flag, _ => .ok (.long flag value)
    | none, [] => .ok (otherWord argument.toList)
    | none, [(_, flag)] => .ok (.long flag value)
    | none, several =>
      .error ("ambiguous option: " ++ argument ++ " could match " ++
        ", ".intercalate (several.map (·.1)))
  | '-' :: 'h' :: [] => .ok (.long .help none)
  | '-' :: 'h' :: '=' :: cs => .ok (.short cs)
  | '-' :: 'h' :: cs => .ok (.short cs)
  | '-' :: c :: cs => .ok (otherWord ('-' :: c :: cs))
  | _ => .ok .plain

/-- What the arguments are. -/
def words : List String → Except String (List (String × Word))
  | [] => .ok []
  | argument :: rest => do
    match ← word argument with
    | .dashes => .ok ((argument, .dashes) :: rest.map fun a => (a, .plain))
    | w => .ok ((argument, w) :: (← words rest))

/-- A message about an option. -/
def about (flag : Flag) (message : String) : String :=
  "argument " ++ flag.name ++ ": " ++ message

/-- The message about a value of an option which takes none. -/
def ignored (flag : Flag) (value : String) : String :=
  about flag ("ignored explicit argument " ++ Text.quoted value)

/-- The message about what stands behind a short option for help. Only the same option may be
repeated there. -/
def shortFault? : List Char → Option String
  | ['h'] => none
  | 'h' :: cs => shortFault? cs
  | cs => some (ignored .help (String.ofList cs))

/-- The settings with a value for an option. Two dashes are the mark for no value, which is none of
the choices either, so it is served over http. -/
def set (flag : Flag) (value : String) (s : Settings) : Except String Settings :=
  match flag with
  | .transport =>
    if value = "stdio" then .ok { s with transport := .stdio }
    else if value = "http" || value = "--" then .ok { s with transport := .http }
    else
      .error (about flag ("invalid choice: " ++ Text.quoted value ++
        " (choose from 'stdio', 'http')"))
  | .port =>
    if value = "--" then .ok { s with port := none }
    else
      match Numeral.readWhole 10 value with
      | .ok port => .ok { s with port := some port }
      | .error _ => .error (about flag ("invalid int value: " ++ Text.quoted value))
  | .help | .debug => .error (ignored flag value)

/-- The command of the arguments from one of them on, with the arguments which are no part of it so
far. -/
def command (s : Settings) (extras : List String) : List (String × Word) → Command
  | [] =>
    if extras.isEmpty then .serve s
    else .refuse ("unrecognized arguments: " ++ " ".intercalate extras)
  | (argument, .plain) :: rest | (argument, .dashes) :: rest | (argument, .unknown) :: rest =>
    command s (extras ++ [argument]) rest
  | (_, .short cs) :: _ =>
    match shortFault? cs with
    | some message => .refuse message
    | none => .help
  | (_, .long flag (some value)) :: rest =>
    match set flag value s with
    | .ok s => command s extras rest
    | .error message => .refuse message
  | (_, .long .help none) :: _ => .help
  | (_, .long .debug none) :: rest => command { s with debug := true } extras rest
  | (_, .long flag none) :: (value, .plain) :: rest =>
    match set flag value s with
    | .ok s => command s extras rest
    | .error message => .refuse message
  | (_, .long flag none) :: _ => .refuse (about flag "expected one argument")

def usage : String :=
  "usage: " ++ programName ++ " [-h] [--transport \x7bstdio,http\x7d] [--port PORT]\n" ++
    "                           [--debug]\n"

def helpText : String :=
  usage ++ "\n" ++
    "MCP server that compiles nested stylesheet descriptions into JSS rule trees\n" ++
    "\n" ++
    "options:\n" ++
    "  -h, --help            show this help message and exit\n" ++
    "  --transport \x7bstdio,http\x7d\n" ++
    "                        stdio for MCP clients that spawn the server, http to\n" ++
    "                        serve on a port (default: stdio)\n" ++
    "  --port PORT           Port for the http transport (default: 8000)\n" ++
    "  --debug               Log each compiled rule tree and variant table\n"

end CommandLine

namespace Command

def ofArguments (arguments : List String) : Command :=
  match CommandLine.words arguments with
  | .ok words => CommandLine.command {} [] words
  | .error message => .refuse message

/-- What is written to the standard output. -/
def output : Command → String
  | .help => CommandLine.helpText
  | _ => ""

/-- What is written to the standard error output. -/
def errors : Command → String
  | .refuse message =>
    CommandLine.usage ++ CommandLine.programName ++ ": error: " ++ message ++ "\n"
  | _ => ""

/-- The code with which the program ends at once. -/
def exitCode? : Command → Option Nat
  | .serve _ => none
  | .help => some 0
  | .refuse _ => some 2

end Command

end StyleTree
