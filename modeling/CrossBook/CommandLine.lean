import CrossBook.Settings.Document
import CrossBook.Variables

/-!
# Command line

One command: checking a settings file and listing the pairs it registers.

## Main definitions

* `CommandLine.Request.ofArguments` — what the arguments ask for
* `CommandLine.Reply` — what is printed, and the exit code
* `CommandLine.answer` — the reply to a request
* `CommandLine.run` — the reply to arguments, given files and an environment
-/

namespace CrossBook.CommandLine

open Text

/-! ### Arguments -/

/-- What help is asked about. -/
inductive Topic where
  | program
  | check
  | help
deriving DecidableEq

/-- What the arguments ask for. -/
inductive Request where
  | version
  | help (topic : Topic)
  | check (path : String)
  | misuse
deriving DecidableEq

/-- The file that is checked when none is named. -/
def defaultPath : String := "config.toml"

/-- The text behind a beginning, when it starts with it. -/
def behind? (beginning s : String) : Option String :=
  if beginning.toList.isPrefixOf s.toList then
    some (String.ofList (s.toList.drop beginning.length))
  else none

/-- The value a short option is joined to, an equality sign between them aside. -/
def joinedValue? (s : String) : Option String :=
  match s.toList with
  | '-' :: 'c' :: '=' :: value => some (String.ofList value)
  | '-' :: 'c' :: c :: value => some (String.ofList (c :: value))
  | _ => none

/-- The argument is an option that stands before its value. -/
def takesValue (s : String) : Bool := s = "-c" || s = "--config"

/-- A text that can be the value of an option: one that is not empty and does not look like an
option itself. -/
def isValue (s : String) : Bool :=
  match s.toList with
  | [] => false
  | ['-'] => true
  | c :: _ => c ≠ '-'

/-- What the arguments of a check ask for, given the file that was named so far. -/
def checkArguments (path : Option String) : List String → Request
  | [] => .check (path.getD defaultPath)
  | option :: rest =>
    if takesValue option then
      match rest with
      | value :: rest =>
        if isValue value ∧ path.isNone then checkArguments (some value) rest else .misuse
      | [] => .misuse
    else if option = "--help" ∨ (behind? "-h" option).isSome then .help .check
    else if option = "--" then if rest.isEmpty then .check (path.getD defaultPath) else .misuse
    else match (behind? "--config=" option) <|> joinedValue? option with
      | some value =>
        if value ≠ "" ∧ path.isNone then checkArguments (some value) rest else .misuse
      | none => .misuse

/-- What the arguments ask for. -/
def Request.ofArguments : List String → Request
  | [] => .misuse
  | first :: rest =>
    if first = "check" then checkArguments none rest
    else if first = "--version" ∨ (behind? "-V" first).isSome then .version
    else if first = "--help" ∨ (behind? "-h" first).isSome then .help .program
    else if first = "help" then
      match rest with
      | [] => .help .program
      | ["check"] => .help .check
      | ["help"] => .help .help
      | _ => .misuse
    else .misuse

/-! ### Replies -/

/-- What is printed, and the exit code. -/
structure Reply where
  exit : Nat
  output : String
  complaint : String
deriving DecidableEq

/-- A text filled up with blanks to a number of characters. -/
def padTo (width : Nat) (s : String) : String :=
  s ++ String.ofList (List.replicate (width - s.length) ' ')

/-- The line of a pair. -/
def pairLine (p : Pair) : String :=
  "  " ++ padTo 12 p.name ++ " venue=" ++ padTo 12 p.venueSymbol ++ " base=" ++ p.base.denom
    ++ " quote=" ++ p.quote.denom ++ "\n"

/-- The list of some pairs. -/
def pairList (pairs : List Pair) : String :=
  writeNat pairs.length ++ " pair(s) registered\n" ++ String.join (pairs.map pairLine)

/-- The reply to a check of a file with its text. -/
def checkReply (content account : Option String) : Reply :=
  match (Settings.load content account).bind Settings.pairs with
  | .ok pairs => ⟨0, pairList pairs, ""⟩
  | .error e => ⟨1, "", "Configuration invalid: " ++ e.message ++ "\n"⟩

/-- The help on a topic. -/
def helpText : Topic → String
  | .program =>
    "Centralized exchange / on-chain order book arbitrage engine\n\nUsage: cexarb <COMMAND>\n\n"
    ++ "Commands:\n  check  Validate a configuration file and list the pairs it registers\n"
    ++ "  help   Print this message or the help of the given subcommand(s)\n\nOptions:\n"
    ++ "  -h, --help     Print help\n  -V, --version  Print version\n"
  | .check =>
    "Validate a configuration file and list the pairs it registers\n\n"
    ++ "Usage: cexarb check [OPTIONS]\n\nOptions:\n"
    ++ "  -c, --config <CONFIG>  Path to the TOML configuration [default: config.toml]\n"
    ++ "  -h, --help             Print help\n"
  | .help =>
    "Print this message or the help of the given subcommand(s)\n\n"
    ++ "Usage: cexarb help [COMMAND]...\n\nArguments:\n"
    ++ "  [COMMAND]...  Print help for the subcommand(s)\n"

/-- The reply to a request, given the text of each file and the account. -/
def answer (fileText : String → Option String) (account : Option String) : Request → Reply
  | .version => ⟨0, "cexarb 0.1.0\n", ""⟩
  | .help topic => ⟨0, helpText topic, ""⟩
  | .check path => checkReply (fileText path) account
  | .misuse => ⟨2, "", "error: the arguments are not understood\n"⟩

/-- The variable that stands in for the account of the settings. -/
def accountVariable : String := "CEXARB_ACCOUNT_ADDRESS"

/-- The file of variables. -/
def variablesPath : String := ".env"

/-- The reply to arguments, given an environment and the text of each file. The file of variables
is read first; a value in it that cannot be set ends the program at once. -/
def run (env : Variables.Environment) (fileText : String → Option String)
    (arguments : List String) : Reply :=
  match Variables.load? env (fileText variablesPath) with
  | none => ⟨101, "", "failed to set environment variable\n"⟩
  | some env => answer fileText (env.get? accountVariable) (Request.ofArguments arguments)

end CrossBook.CommandLine
