import ByteTape.Machine.Basic
import ByteTape.Text.Numeral
import ByteTape.Text.Quoted

/-! # Options

The arguments of the command. An option begins with a star and may be cut short
as long as one option is meant. Arguments are told apart first, all of them, and
then taken from left to right.
-/

namespace ByteTape.Command

/-- What the command is asked to do. -/
structure Options where
  /-- The file of the program. -/
  program : Option String
  printBin : Bool
  debug : Bool
  bin : Option String
  input : String
  plain : Bool
  std : Option String
  endOfInput : EndOfInput
  maxSteps : Option Int
  noRun : Bool
  scopes : Bool
  viz : Option String
  plot : Bool
  why : Option String
  hash : Bool
  diff : Option String
  record : Bool
  logbook : Bool
  repl : Bool
deriving DecidableEq

namespace Options

/-- Nothing asked for. -/
def default : Options where
  program := none
  printBin := false
  debug := false
  bin := none
  input := ""
  plain := false
  std := none
  endOfInput := .zero
  maxSteps := none
  noRun := false
  scopes := false
  viz := none
  plot := false
  why := none
  hash := false
  diff := none
  record := false
  logbook := false
  repl := false

end Options

/-- Options that stand alone. -/
inductive Switch where
  | printBin | debug | plain | noRun | scopes | plot | hash | record | logbook | repl
deriving DecidableEq

/-- Options that take a value. -/
inductive Setting where
  | bin | input | std | endOfInput | maxSteps | viz | why | diff
deriving DecidableEq

/-- The meaning of an option. -/
inductive Choice where
  | help
  | switch (s : Switch)
  | setting (s : Setting)
deriving DecidableEq

/-- Why arguments are refused. -/
inductive ArgumentError where
  /-- An option cut so short that several are meant. -/
  | ambiguous (argument : String) (candidates : List String)
  | missingValue (option : String)
  /-- A value for an option that takes none. -/
  | needlessValue (option value : String)
  | notWhole (option value : String)
  | notPolicy (option value : String)
  | unrecognized (arguments : List String)
deriving DecidableEq

/-- The line that is printed. -/
def ArgumentError.line (e : ArgumentError) : String :=
  let message := match e with
    | ambiguous argument candidates =>
      s!"ambiguous option: {argument} could match " ++ ", ".intercalate candidates
    | missingValue option => s!"argument {option}: expected one argument"
    | needlessValue option value =>
      s!"argument {option}: ignored explicit argument " ++ Text.quoted value
    | notWhole option value => s!"argument {option}: invalid int value: " ++ Text.quoted value
    | notPolicy option value =>
      s!"argument {option}: invalid choice: " ++ Text.quoted value ++
        " (choose from 'zero', 'keep', 'fault')"
    | unrecognized arguments => "unrecognized arguments: " ++ " ".intercalate arguments
  s!"macrotape: error: {message}\n"

/-- Why there are no options to act on. -/
inductive Refusal where
  /-- The user asked how the command is used. -/
  | help
  | error (e : ArgumentError)
deriving DecidableEq

namespace Choice

/-- The options in the order in which several candidates are named. -/
def table : List (String × Choice) :=
  [("*h", help), ("**help", help), ("*print_bin", switch .printBin), ("*debug", switch .debug),
    ("*bin", setting .bin), ("*in", setting .input), ("*pure", switch .plain), ("*std", setting .std),
    ("*eof", setting .endOfInput), ("*max_steps", setting .maxSteps), ("*no_run", switch .noRun),
    ("*scopes", switch .scopes), ("*viz", setting .viz), ("*plot", switch .plot),
    ("*why", setting .why), ("*hash", switch .hash), ("*diff", setting .diff),
    ("*record", switch .record), ("*logbook", switch .logbook), ("*repl", switch .repl)]

/-- The name an error calls an option by: all its spellings. -/
def name (c : Choice) : String :=
  "/".intercalate ((table.filter fun entry => entry.2 == c).map Prod.fst)

end Choice

/-- A value that comes with an option in one argument. -/
inductive Attached where
  | nothing
  /-- Behind an equals sign. -/
  | equals (value : String)
  /-- Directly behind a spelling of one letter. -/
  | joined (value : String)
deriving DecidableEq

/-- What an argument is, seen by itself. -/
inductive Word where
  | plain (text : String)
  /-- The first `--`, after which everything is plain. -/
  | separator
  | unknown (text : String)
  | option (choice : Choice) (attached : Attached)
deriving DecidableEq

namespace Word

/-- The options an argument may be short for. The spelling of one letter also
takes what stands behind its letter as a value. -/
def candidates (argument : String) : List (String × Choice × Attached) :=
  match argument.toList with
  | '*' :: c :: rest =>
    if c = '*' then []
    else Choice.table.filterMap fun (spelling, choice) =>
      if spelling = String.ofList ['*', c] then
        some (spelling, choice, .joined (String.ofList rest))
      else if argument.toList.isPrefixOf spelling.toList then some (spelling, choice, .nothing)
      else none
  | _ => []

/-- The option that is spelled out before an equals sign. -/
def assigned? (argument : String) : Option Word :=
  let spelling := String.ofList (argument.toList.takeWhile (· != '='))
  match argument.toList.dropWhile (· != '='), Choice.table.lookup spelling with
  | _ :: value, some choice => some (.option choice (.equals (String.ofList value)))
  | _, _ => none

/-- What an argument that is not `--` is. -/
def of (argument : String) : Except ArgumentError Word :=
  if !argument.startsWith "*" then .ok (.plain argument)
  else
    match Choice.table.lookup argument with
    | some choice => .ok (.option choice .nothing)
    | none =>
      if argument = "*" then .ok (.plain argument)
      else
        match assigned? argument with
        | some word => .ok word
        | none =>
          match candidates argument with
          | [(_, choice, attached)] => .ok (.option choice attached)
          | [] =>
            if argument.toList.contains ' ' then .ok (.plain argument) else .ok (.unknown argument)
          | several => .error (.ambiguous argument (several.map Prod.fst))

/-- What each argument is. -/
def ofArguments : List String → Except ArgumentError (List Word)
  | [] => .ok []
  | argument :: rest =>
    if argument = "--" then .ok (.separator :: rest.map .plain)
    else
      match of argument with
      | .error e => .error e
      | .ok word =>
        match ofArguments rest with
        | .error e => .error e
        | .ok words => .ok (word :: words)

end Word

namespace Options

/-- Turn a switch on. -/
def turnOn (o : Options) : Switch → Options
  | .printBin => { o with printBin := true }
  | .debug => { o with debug := true }
  | .plain => { o with plain := true }
  | .noRun => { o with noRun := true }
  | .scopes => { o with scopes := true }
  | .plot => { o with plot := true }
  | .hash => { o with hash := true }
  | .record => { o with record := true }
  | .logbook => { o with logbook := true }
  | .repl => { o with repl := true }

/-- Give a setting its value. A later value replaces an earlier one. -/
def set (o : Options) (s : Setting) (value : String) : Except ArgumentError Options :=
  match s with
  | .bin => .ok { o with bin := some value }
  | .input => .ok { o with input := value }
  | .std => .ok { o with std := some value }
  | .viz => .ok { o with viz := some value }
  | .why => .ok { o with why := some value }
  | .diff => .ok { o with diff := some value }
  | .endOfInput =>
    match EndOfInput.ofName? value with
    | some policy => .ok { o with endOfInput := policy }
    | none => .error (.notPolicy (Choice.setting s).name value)
  | .maxSteps =>
    match Text.integer 10 value with
    | .ok n => .ok { o with maxSteps := some n }
    | .error _ => .error (.notWhole (Choice.setting s).name value)

end Options

/-- Letters joined to the letter that asks for help: the same letter may come again,
and a value is refused. -/
def joinedHelp : List Char → Refusal
  | 'h' :: '=' :: value => .error (.needlessValue Choice.help.name (String.ofList value))
  | 'h' :: rest => joinedHelp rest
  | '*' :: rest => .error (.needlessValue Choice.help.name (String.ofList ('*' :: rest)))
  | _ => .help

/-- What has been taken from the arguments so far. -/
structure Taken where
  options : Options
  /-- Whether the place of the program is filled. -/
  filled : Bool
  /-- What has no place, in order. -/
  extras : List String

namespace Taken

def start : Taken := ⟨.default, false, []⟩

def extra (t : Taken) (text : String) : Taken := { t with extras := t.extras ++ [text] }

/-- Fill the place of the program. -/
def fill (t : Taken) (program : Option String) : Taken :=
  { t with options := { t.options with program }, filled := true }

/-- Take words from left to right. A setting without a value takes the plain word
behind it. The separator goes with the program if it stands next to it. -/
def words (t : Taken) : List Word → Except Refusal Taken
  | [] => .ok t
  | .unknown text :: rest => (t.extra text).words rest
  | .plain text :: .separator :: rest =>
    if t.filled then ((t.extra text).extra "--").words rest else (t.fill (some text)).words rest
  | .plain text :: rest =>
    if t.filled then (t.extra text).words rest else (t.fill (some text)).words rest
  | .separator :: .plain text :: rest =>
    if t.filled then ((t.extra "--").extra text).words rest else (t.fill (some text)).words rest
  | .separator :: rest => if t.filled then (t.extra "--").words rest else (t.fill none).words rest
  | .option .help .nothing :: _ => .error .help
  | .option .help (.equals value) :: _ => .error (.error (.needlessValue Choice.help.name value))
  | .option .help (.joined value) :: _ => .error (joinedHelp value.toList)
  | .option (.switch s) .nothing :: rest => { t with options := t.options.turnOn s }.words rest
  | .option (.switch s) (.equals value) :: _ | .option (.switch s) (.joined value) :: _ =>
    .error (.error (.needlessValue (Choice.switch s).name value))
  | .option (.setting s) (.equals value) :: rest | .option (.setting s) (.joined value) :: rest
  | .option (.setting s) .nothing :: .plain value :: rest =>
    match t.options.set s value with
    | .error e => .error (.error e)
    | .ok options => { t with options }.words rest
  | .option (.setting s) .nothing :: _ => .error (.error (.missingValue (Choice.setting s).name))

end Taken

/-- The options that arguments ask for. -/
def Options.ofArguments (arguments : List String) : Except Refusal Options :=
  match Word.ofArguments arguments with
  | .error e => .error (.error e)
  | .ok words =>
    match Taken.start.words words with
    | .error r => .error r
    | .ok t => if t.extras.isEmpty then .ok t.options else .error (.error (.unrecognized t.extras))

end ByteTape.Command
