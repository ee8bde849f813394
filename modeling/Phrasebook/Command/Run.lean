import Phrasebook.Command.Arguments
import Phrasebook.Command.Check
import Phrasebook.Command.Coverage
import Phrasebook.Command.Evaluate

/-!
# The commands

There are three commands: `check` looks for syntax errors in documents, `coverage` compares the
keys of locales, and `eval` renders a template or a message.
-/

namespace Phrasebook.Command

/-- The program's name and version. -/
def versionLine : String := "lingo 0.1.0"

/-- The usage of the program. -/
def usageLine : String := "Usage: lingo [OPTIONS] <COMMAND>"

/-- The options that every command accepts. -/
def commonOptions : List OptionSpec :=
  [{ name := "color", arity := .single, accepts := fun v => ["auto", "always", "never"].contains v },
    { name := "verbose", arity := .flag, letter? := some 'v' },
    { name := "help", arity := .flag, letter? := some 'h' }]

/-- The options in front of a command. -/
def topOptions : List OptionSpec :=
  commonOptions ++ [{ name := "version", arity := .flag, letter? := some 'V' }]

/-- Whether an argument can be a path. -/
def isPath (arg : String) : Bool := arg != ""

/-- The options of the check. -/
def checkOptions : List OptionSpec := commonOptions ++ [{ name := "json", arity := .flag }]

/-- The options of the coverage. -/
def coverageOptions : List OptionSpec :=
  commonOptions ++
    [{ name := "source", arity := .single }, { name := "locale", arity := .many },
      { name := "strict", arity := .flag }, { name := "json", arity := .flag }]

/-- The options of the evaluation. -/
def evaluationOptions : List OptionSpec :=
  commonOptions ++
    [{ name := "template", arity := .single }, { name := "key", arity := .single },
      { name := "runtime", arity := .single }, { name := "locale", arity := .single },
      { name := "resources", arity := .single, accepts := isPath },
      { name := "var", arity := .many, accepts := fun v => v.toList.contains '=' },
      { name := "ast", arity := .flag }, { name := "json", arity := .flag }]

/-- Reads the arguments of a command, of which no option may be given too often. -/
def readFor (specs : List OptionSpec) (args : List String) : Except Stop Given := do
  let given ← readArguments specs false args
  if given.isSparing specs then return given else throw .misuse

/-- The outcome of a check with the given arguments. -/
def runCheck (files : FileTree) (args : List String) : Except Stop Outcome := do
  let given ← readFor checkOptions args
  if given.operands ≠ [] ∧ given.operands.all isPath then
    return check files given.operands (given.has "json")
  else throw .misuse

/-- The outcome of a coverage with the given arguments. -/
def runCoverage (files : FileTree) (args : List String) : Except Stop Outcome := do
  let given ← readFor coverageOptions args
  match given.operands.filter isPath, given.operands with
  | [directory], [_] =>
    return coverage files directory ((given.value? "source").getD defaultLocale)
      ((given.values "locale").flatMap (Text.split · ",")) (given.has "strict") (given.has "json")
  | _, _ => throw .misuse

/-- What an evaluation renders: either a template or the key of a loaded message. The tree can be
asked of templates only. -/
def subject? (given : Given) : Option Subject :=
  match given.value? "template", given.value? "key" with
  | some source, none => some (.template source (given.has "ast"))
  | none, some key => if given.has "resources" && !given.has "ast" then some (.key key) else none
  | _, _ => none

/-- The name and the value of a variable, which stand around an equals sign. -/
def assignment (arg : String) : String × String :=
  let (name, value?) := splitOption arg.toList
  (name, value?.getD "")

/-- The outcome of an evaluation with the given arguments. -/
def runEvaluation (files : FileTree) (args : List String) : Except Stop Outcome := do
  let given ← readFor evaluationOptions args
  match subject? given, given.operands with
  | some subject, [] =>
    return Evaluation.run
      { subject
        formatName := (given.value? "runtime").getD Format.markdown.name
        locale := (given.value? "locale").getD defaultLocale
        resources? := given.value? "resources"
        vars := (given.values "var").map assignment
        asJson := given.has "json" }
      files
  | _, _ => throw .misuse

/-- The outcome of a request for help. -/
def runHelp : List String → Except Stop Outcome
  | [] => throw .help
  | [command] =>
    throw (if ["check", "coverage", "eval", "help"].contains command then .help else .misuse)
  | _ => throw .misuse

/-- The outcome of a command with the given arguments. -/
def runCommand (files : FileTree) (args : List String) : Except Stop Outcome := do
  let given ← readArguments topOptions true args
  if given.isSparing topOptions then
    match given.rest with
    | "check" :: args => runCheck files args
    | "coverage" :: args => runCoverage files args
    | "eval" :: args => runEvaluation files args
    | "help" :: args => runHelp args
    | _ => throw .misuse
  else throw .misuse

/-- Runs the program with the given arguments. -/
def run (files : FileTree) (args : List String) : Outcome :=
  match runCommand files args with
  | .ok outcome => outcome
  | .error .misuse => ⟨ExitCode.usage.number, "", lines [usageLine]⟩
  | .error .help => ⟨ExitCode.ok.number, lines [usageLine], ""⟩
  | .error .version => ⟨ExitCode.ok.number, lines [versionLine], ""⟩

end Phrasebook.Command
