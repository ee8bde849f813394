/-!
# Command-line arguments

A command accepts options and operands in any order. An option is a long name behind two hyphens
or a letter behind one; its value, if it takes one, is the next argument or stands behind an
equals sign. Two hyphens alone make everything behind them an operand.
-/

namespace Phrasebook.Command

/-- How often an option may be given, and whether it has a value. -/
inductive Arity where
  | flag
  | single
  | many
  deriving DecidableEq, Repr

/-- An option of a command. -/
structure OptionSpec where
  name : String
  arity : Arity
  letter? : Option Char := none
  accepts : String → Bool := fun _ => true

/-- Why there is nothing to run. -/
inductive Stop where
  /-- The arguments do not fit the command. -/
  | misuse
  /-- The usage is asked for. -/
  | help
  /-- The version is asked for. -/
  | version
  deriving DecidableEq, Repr

/-- What is given on a command line: options with their values, flags having the empty one, then
operands, and what follows the first operand if reading stops there. -/
structure Given where
  options : List (String × String) := []
  operands : List String := []
  rest : List String := []

namespace Given

/-- Adds an option in front. -/
def addOption (g : Given) (name value : String) : Given :=
  { g with options := (name, value) :: g.options }

/-- Adds an operand in front. -/
def addOperand (g : Given) (operand : String) : Given :=
  { g with operands := operand :: g.operands }

/-- Whether an option is given. -/
def has (g : Given) (name : String) : Bool := g.options.any (·.1 == name)

/-- The values of an option. -/
def values (g : Given) (name : String) : List String :=
  (g.options.filter (·.1 == name)).map (·.2)

/-- The value of an option. -/
def value? (g : Given) (name : String) : Option String := (g.values name).head?

/-- Whether no option is given more often than it may be. -/
def isSparing (g : Given) (specs : List OptionSpec) : Bool :=
  specs.all fun spec => spec.arity == .many || (g.values spec.name).length ≤ 1

end Given

/-- Whether an argument is an option rather than an operand or value. -/
def isOption (arg : String) : Bool :=
  match arg.toList with
  | '-' :: _ :: _ => true
  | _ => false

/-- The name and the value of a long option. -/
def splitOption (cs : List Char) : String × Option String :=
  let name := String.ofList (cs.takeWhile (· != '='))
  match cs.dropWhile (· != '=') with
  | [] => (name, none)
  | _ :: value => (name, some (String.ofList value))

/-- Reads letters behind a single hyphen, each of which is a flag. -/
def readLetters (specs : List OptionSpec) : List Char → Except Stop (List String)
  | [] => .ok []
  | c :: cs =>
    match specs.find? fun spec => spec.letter? == some c with
    | some spec =>
      if spec.name = "help" then .error .help
      else if spec.name = "version" then .error .version
      else (readLetters specs cs).map (spec.name :: ·)
    | none => .error .misuse

/-- Reads arguments. When reading stops at the first operand, that and everything behind it is the
rest. -/
def readArguments (specs : List OptionSpec) (stopAtOperand : Bool) :
    List String → Except Stop Given
  | [] => .ok {}
  | arg :: args =>
    match arg.toList with
    | ['-', '-'] => if stopAtOperand then .error .misuse else .ok { operands := args }
    | '-' :: '-' :: cs =>
      let (name, value?) := splitOption cs
      match specs.find? (·.name == name), value? with
      | none, _ => .error .misuse
      | some spec, some value =>
        if spec.arity ≠ .flag ∧ spec.accepts value then
          (readArguments specs stopAtOperand args).map (·.addOption name value)
        else .error .misuse
      | some spec, none =>
        if spec.arity = .flag then
          if name = "help" then .error .help
          else if name = "version" then .error .version
          else (readArguments specs stopAtOperand args).map (·.addOption name "")
        else
          match args with
          | [] => .error .misuse
          | value :: args =>
            if !isOption value && spec.accepts value then
              (readArguments specs stopAtOperand args).map (·.addOption name value)
            else .error .misuse
    | '-' :: c :: cs => do
      let names ← readLetters specs (c :: cs)
      let given ← readArguments specs stopAtOperand args
      return names.foldr (fun name g => g.addOption name "") given
    | _ =>
      if stopAtOperand then .ok { rest := arg :: args }
      else (readArguments specs stopAtOperand args).map (·.addOperand arg)

end Phrasebook.Command
