import Scriptlet.Lexeme
import Scriptlet.Text.Quoted

/-! The arguments of the command: one file at most, and the option that asks for help. -/
namespace Scriptlet.CommandLine

def usage : String := "usage: shimmer [-h] [filename]\n"

def helpText : String :=
  usage ++ "\nRun Shimmer scripts\n\npositional arguments:\n  filename\n\noptions:\n" ++
    "  -h, --help  show this help message and exit\n"

def usageErrorText (message : String) : String := usage ++ "shimmer: error: " ++ message ++ "\n"

/-- What an argument is by its looks. `misuse` is the option for help with a text stuck to it, which
it does not take. -/
inductive Mark where
  | file
  | terminator
  | help
  | misuse (text : List Char)
  | unknown
deriving DecidableEq, Repr

/-- Short options may be written together, so what follows one is read as more of them. -/
def Mark.ofShort : List Char → Mark
  | ['h'] => .help
  | 'h' :: cs => ofShort cs
  | cs => .misuse cs

/-- Digits, with or without a point before some of them: a number below zero once a dash is put in
front. -/
def isNumeral (cs : List Char) : Bool :=
  match cs.dropWhile isDigit with
  | [] => !cs.isEmpty
  | '.' :: ds => !ds.isEmpty && ds.all isDigit
  | _ => false

/-- What begins with a dash is an option, unless it is a number or has a blank in it. The long
option may be cut short. -/
def Mark.ofArgument (arg : String) : Mark :=
  match arg.toList with
  | ['-', '-'] => .terminator
  | '-' :: '-' :: cs =>
    let word := cs.takeWhile (· != '=')
    if word.isPrefixOf "help".toList then
      match cs.dropWhile (· != '=') with
      | [] => .help
      | _ :: text => .misuse text
    else if ' ' ∈ cs then .file else .unknown
  | '-' :: 'h' :: '=' :: cs => .ofShort cs
  | '-' :: 'h' :: cs => .ofShort ('h' :: cs)
  | '-' :: c :: cs => if isNumeral (c :: cs) || ' ' ∈ c :: cs then .file else .unknown
  | _ => .file

/-- After the terminator every argument is a file. -/
def sortArguments : List String → List (Mark × String)
  | [] => []
  | arg :: args =>
    match Mark.ofArgument arg with
    | .terminator => (.terminator, arg) :: args.map fun a => (.file, a)
    | mark => (mark, arg) :: sortArguments args

/-- The arguments that are neither the file nor the terminator beside it. `taken`: the argument
before this one was the file. -/
def extras (found taken : Bool) : List (Mark × String) → List String
  | [] => []
  | (.file, arg) :: args => if found then arg :: extras true false args else extras true true args
  | (.terminator, arg) :: args =>
    if !found || taken then extras found false args else arg :: extras found false args
  | (_, arg) :: args => arg :: extras found false args

/-- What the user wants. -/
inductive Request where
  | help
  | usageError (message : String)
  | prompt
  | script (file : String)
deriving DecidableEq, Repr

def helpRequest? : Mark → Option Request
  | .help => some .help
  | .misuse text => some <| .usageError <|
      "argument -h/--help: ignored explicit argument " ++ Text.quoted (String.ofList text)
  | _ => none

/-- Help comes before all complaints about the arguments around it. -/
def Request.ofArguments (args : List String) : Request :=
  let sorted := sortArguments args
  match sorted.findSome? fun a => helpRequest? a.1 with
  | some request => request
  | none =>
    match extras false false sorted, sorted.find? fun a => a.1 == .file with
    | [], some (_, file) => .script file
    | [], none => .prompt
    | extra, _ => .usageError ("unrecognized arguments: " ++ String.intercalate " " extra)

end Scriptlet.CommandLine
