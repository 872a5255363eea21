import Calculator.Console.Run

/-!
The program as it is called: arguments and standard input in, exit code and two outputs out.

Arguments are read from the left, and the first that asks for help or the version, or cannot be
accepted, settles the call. There is at most one expression. While there is none, an argument that
looks like flags but holds an unknown one is the expression, so that `-5` can be evaluated.

Two things that the program writes to its error output are left out: the log, and what it says
about arguments that it cannot accept. Of these only the exit code is kept.
-/

set_option autoImplicit false

namespace Calculator

inductive Flag where
  | rightAssociativePower
  | verbose
  | help
  | version
  deriving DecidableEq, Repr

namespace Flag

def ofLetter? : Char → Option Flag
  | 'v' => some verbose
  | 'h' => some help
  | 'V' => some version
  | _ => none

def ofName? (name : List Char) : Option Flag :=
  if name = "right-assoc-pow".toList then some rightAssociativePower
  else if name = "verbose".toList then some verbose
  else if name = "help".toList then some help
  else if name = "version".toList then some version
  else none

end Flag

structure Options where
  expression : Option (List Char)
  power : Associativity
  /-- How much is logged. -/
  verbosity : Nat
  deriving DecidableEq, Repr

/-- Why no calculation takes place. -/
inductive Interruption where
  | help
  | version
  | usageError
  deriving DecidableEq, Repr

namespace Options

def initial : Options := ⟨none, .left, 0⟩

/-- Powers can be asked to group from the right only once. More logging can be asked for again and
again, but is counted in one byte. -/
def act (options : Options) : Flag → Except Interruption Options
  | .rightAssociativePower =>
      if options.power = .right then .error .usageError
      else .ok { options with power := .right }
  | .verbose => .ok { options with verbosity := min 255 (options.verbosity + 1) }
  | .help => .error .help
  | .version => .error .version

def takeExpression (options : Options) (argument : List Char) : Except Interruption Options :=
  match options.expression with
  | none => .ok { options with expression := some argument }
  | some _ => .error .usageError

def actOnLetter (options : Options) (letter : Char) : Except Interruption Options :=
  match Flag.ofLetter? letter with
  | some flag => options.act flag
  | none => .error .usageError

/-- One argument before any `--`. A name may not have a value behind an equals sign. -/
def take (options : Options) (argument : List Char) : Except Interruption Options :=
  match argument with
  | '-' :: '-' :: name =>
      match Flag.ofName? (name.takeWhile fun character => character != '=') with
      | some flag => if name.contains '=' then .error .usageError else options.act flag
      | none => options.takeExpression argument
  | '-' :: letter :: letters =>
      if options.expression.isNone ∧ (letter :: letters).any fun one => (Flag.ofLetter? one).isNone
      then options.takeExpression argument
      else (letter :: letters).foldlM actOnLetter options
  | _ => options.takeExpression argument

/-- All arguments. Behind `--` there are no flags. -/
def read (options : Options) : List (List Char) → Except Interruption Options
  | [] => .ok options
  | argument :: rest =>
      if argument = ['-', '-'] then rest.foldlM takeExpression options
      else
        match options.take argument with
        | .ok taken => read taken rest
        | .error interruption => .error interruption

def evaluator (options : Options) : Evaluator := ⟨options.power⟩

end Options

structure Outcome where
  code : Nat
  output : List UInt8
  errors : List UInt8
  deriving DecidableEq, Repr

namespace Outcome

def helpLines : List String :=
  [
    "A two-stack infix arithmetic evaluator with an interactive console calculator.",
    "",
    "Usage: infixa [OPTIONS] [EXPRESSION]",
    "",
    "Arguments:",
    "  [EXPRESSION]  Evaluates this expression once instead of starting the interactive calculator",
    "",
    "Options:",
    "      --right-assoc-pow  Groups chains of `^` from the right, so `2^3^2` is 512 instead of 64",
    "  -v, --verbose...       Logs more to stderr; repeat for even more",
    "  -h, --help             Print help",
    "  -V, --version          Print version"
  ]

def versionText : List Char := "infixa 0.1.0".toList

def ofInterruption : Interruption → Outcome
  | .help => ⟨0, helpLines.flatMap fun line => Console.lineOf line.toList, []⟩
  | .version => ⟨0, Console.lineOf versionText, []⟩
  | .usageError => ⟨2, [], []⟩

/-- The outcome of evaluating one expression, just as it is given. -/
def ofExpression (evaluator : Evaluator) (expression : List Char) : Outcome :=
  match evaluator.evaluate expression with
  | .ok value => ⟨0, Console.lineOf (Binary64.text value), []⟩
  | .error error => ⟨1, [], Console.lineOf ("Error: ".toList ++ error.message)⟩

def ofRun (output : List UInt8) : Except StreamError Unit → Outcome
  | .ok () => ⟨0, output, []⟩
  | .error error =>
      ⟨1, output, Console.lineOf ("Failed to talk to the terminal: ".toList ++ error.message)⟩

/-- The outcome of one run of the console over the whole input. -/
def ofConsole (evaluator : Evaluator) (input : List UInt8) : Outcome :=
  let ending := (Console.ofInput evaluator input Sink.unlimited).run
  ofRun ending.console.sink.written.toList ending.result

def ofCall (arguments : List (List Char)) (input : List UInt8) : Outcome :=
  match Options.initial.read arguments with
  | .error interruption => ofInterruption interruption
  | .ok options =>
      match options.expression with
      | some expression => ofExpression options.evaluator expression
      | none => ofConsole options.evaluator input

end Outcome

end Calculator
