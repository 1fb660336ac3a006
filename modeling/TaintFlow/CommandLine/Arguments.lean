import TaintFlow.Report.Basic
import TaintFlow.Text.Integer

/-!
# Command line arguments

Arguments are options with their values, and positional arguments between them.  A long option may
be shortened as long as no other option begins the same way, and its value may follow an equals
sign.  Short options without values may be joined, and a value may follow its short option
directly.  After `--` all arguments are positional.
-/

namespace TaintFlow.CommandLine

/-! ### Options -/

/-- How many values an option takes. -/
inductive Arity where
  | none
  | one
  | oneOrMore
  deriving DecidableEq, Repr

/-- The options of the program. -/
inductive Flag where
  | help
  | format
  | output
  | noColor
  | vulnerability
  | exclude
  | ending
  | config
  | catalogDir
  | maxDepth
  | directive
  | listClasses
  | verbose
  | debug
  | version
  deriving DecidableEq, Repr

namespace Flag

/-- The options in the order in which they are listed. -/
def all : List Flag :=
  [help, format, output, noColor, vulnerability, exclude, ending, config, catalogDir, maxDepth,
   directive, listClasses, verbose, debug, version]

/-- The names of an option. -/
def names : Flag → List String
  | help => ["-h", "--help"]
  | format => ["-f", "--format"]
  | output => ["-o", "--output"]
  | noColor => ["--no-color"]
  | vulnerability => ["-V", "--vulnerability"]
  | exclude => ["--exclude"]
  | ending => ["--extension"]
  | config => ["-c", "--config"]
  | catalogDir => ["--catalog-dir"]
  | maxDepth => ["--max-depth"]
  | directive => ["--trusted-directive"]
  | listClasses => ["--list-classes"]
  | verbose => ["-v", "--verbose"]
  | debug => ["--debug"]
  | version => ["--version"]

/-- How many values an option takes. -/
def arity : Flag → Arity
  | help => .none
  | noColor => .none
  | listClasses => .none
  | verbose => .none
  | debug => .none
  | version => .none
  | exclude => .oneOrMore
  | _ => .one

/-- All names with their options. -/
def named : List (String × Flag) :=
  all.flatMap fun f => f.names.map fun n => (n, f)

/-- The option with a name. -/
def ofName? (name : String) : Option Flag :=
  (named.find? (·.1 == name)).map (·.2)

end Flag

/-- Why arguments cannot be used. -/
inductive ArgumentError where
  | ambiguous (argument : String) (names : List String)
  | noValue (flag : Flag)
  | extraValue (flag : Flag) (text : String)
  | badInteger (flag : Flag) (text : String)
  | badChoice (flag : Flag) (text : String) (choices : List String)
  | unrecognized (arguments : List String)
  deriving DecidableEq, Repr

/-- The text of an error. -/
def ArgumentError.message : ArgumentError → String
  | ambiguous argument names =>
    "ambiguous option: " ++ argument ++ " could match " ++ ", ".intercalate names
  | noValue flag =>
    about flag ++ (if flag.arity = .one then "expected one argument"
      else "expected at least one argument")
  | extraValue flag text => about flag ++ "ignored explicit argument " ++ Text.quoted text
  | badInteger flag text => about flag ++ "invalid int value: " ++ Text.quoted text
  | badChoice flag text choices =>
    about flag ++ "invalid choice: " ++ Text.quoted text ++ " (choose from "
      ++ ", ".intercalate (choices.map Text.quoted) ++ ")"
  | unrecognized arguments => "unrecognized arguments: " ++ " ".intercalate arguments
where
  /-- The names of the option that is to blame. -/
  about (flag : Flag) : String :=
    "argument " ++ "/".intercalate flag.names ++ ": "

/-! ### Pieces -/

/-- A value in the same argument as its option. -/
structure Attached where
  text : String
  /-- Whether the value follows an equals sign. -/
  afterEquals : Bool
  deriving DecidableEq, Repr

/-- What an argument looks like. -/
inductive Piece where
  | positional (text : String)
  /-- The mark after which all arguments are positional. -/
  | separator
  /-- An option, perhaps with a value in the same argument. -/
  | option (flag : Flag) (name : String) (value : Option Attached)
  | unknown (text : String)
  deriving DecidableEq, Repr

/-- Splits at the first equals sign, if there is one. -/
def splitValue (text : String) : String × Option Attached :=
  let cs := text.toList
  if cs.contains '=' then
    (String.ofList (cs.takeWhile (· ≠ '=')),
      some ⟨String.ofList ((cs.dropWhile (· ≠ '=')).drop 1), true⟩)
  else (text, none)

/-- The options that an argument may stand for, with their names and values. -/
def candidates (text : String) : List (Flag × String × Option Attached) :=
  match text.toList with
  | '-' :: '-' :: _ =>
    let (start, value) := splitValue text
    (Flag.named.filter fun (n, _) => n.startsWith start).map fun (n, f) => (f, n, value)
  | '-' :: c :: rest =>
    let short := String.ofList ['-', c]
    Flag.named.filterMap fun (n, f) =>
      if n == short then some (f, n, some ⟨String.ofList rest, false⟩)
      else if n.startsWith text then some (f, n, none)
      else none
  | _ => []

/-- Whether an argument is a negative number, perhaps with a line end after it. -/
def isNegativeNumber (text : String) : Bool :=
  let isDigit (c : Char) : Bool := (Text.digitOf? c).isSome
  let isEnd (cs : List Char) : Bool := cs = [] || cs = ['\n']
  match text.toList with
  | '-' :: cs =>
    let whole := cs.takeWhile isDigit
    match cs.dropWhile isDigit with
    | '.' :: fraction => fraction.any isDigit && isEnd (fraction.dropWhile isDigit)
    | rest => !whole.isEmpty && isEnd rest
  | _ => false

/-- What an argument before any separator looks like. -/
def pieceOf (text : String) : Except ArgumentError Piece :=
  if !text.startsWith "-" then .ok (.positional text)
  else
    match Flag.ofName? text with
    | some f => .ok (.option f text none)
    | none =>
      if text == "-" then .ok (.positional text)
      else
        let (start, value) := splitValue text
        match value, Flag.ofName? start with
        | some v, some f => .ok (.option f start (some v))
        | _, _ =>
          match candidates text with
          | [(f, n, v)] => .ok (.option f n v)
          | [] =>
            if isNegativeNumber text || text.toList.contains ' ' then .ok (.positional text)
            else .ok (.unknown text)
          | several => .error (.ambiguous text (several.map (·.2.1)))

/-- What arguments look like. -/
def pieces : List String → Except ArgumentError (List Piece)
  | [] => .ok []
  | text :: rest =>
    if text == "--" then .ok (.separator :: rest.map Piece.positional)
    else do
      let p ← pieceOf text
      let ps ← pieces rest
      return p :: ps

/-- The argument of a piece that is no option. -/
def Piece.text : Piece → String
  | positional text => text
  | separator => "--"
  | option _ name _ => name
  | unknown text => text

/-! ### Arguments -/

/-- The arguments of a run. -/
structure Arguments where
  target : Option String := none
  format : String := "console"
  output : Option String := none
  noColor : Bool := false
  vulnerabilities : Option (List String) := none
  excludes : List String := []
  endings : Option (List String) := none
  config : Option String := none
  catalogDir : Option String := none
  maxDepth : Option Int := none
  directive : Option String := none
  listClasses : Bool := false
  verbose : Bool := false
  debug : Bool := false
  deriving DecidableEq, Repr

/-- Why reading arguments ends early. -/
inductive Stop where
  | help
  | version
  | error (e : ArgumentError)
  deriving DecidableEq, Repr

/-- Applies an option to its values. -/
def apply (a : Arguments) (flag : Flag) (values : List String) : Except Stop Arguments :=
  let value := values.headD ""
  match flag with
  | .help => .error .help
  | .version => .error .version
  | .format =>
    if ReportFormat.names.contains value then .ok { a with format := value }
    else .error (.error (.badChoice flag value ReportFormat.names))
  | .output => .ok { a with output := some value }
  | .noColor => .ok { a with noColor := true }
  | .vulnerability => .ok { a with vulnerabilities := some (a.vulnerabilities.getD [] ++ [value]) }
  | .exclude => .ok { a with excludes := values }
  | .ending => .ok { a with endings := some (a.endings.getD [] ++ [value]) }
  | .config => .ok { a with config := some value }
  | .catalogDir => .ok { a with catalogDir := some value }
  | .maxDepth =>
    match Text.integer? value with
    | some n => .ok { a with maxDepth := some n }
    | none => .error (.error (.badInteger flag value))
  | .directive => .ok { a with directive := some value }
  | .listClasses => .ok { a with listClasses := true }
  | .verbose => .ok { a with verbose := true }
  | .debug => .ok { a with debug := true }

/-- The progress of reading arguments. -/
structure Progress where
  arguments : Arguments := {}
  /-- Whether the place of the target is taken. -/
  hasTarget : Bool := false
  /-- Arguments without a meaning. -/
  extras : List String := []

/-- The positional arguments at the front. -/
def frontPositionals : List Piece → List String
  | .positional text :: rest => text :: frontPositionals rest
  | _ => []

/-- The options that stand in one argument. -/
structure Joined where
  /-- The options with their values. -/
  options : List (Flag × List String) := []
  /-- The last option, if its values come in later arguments. -/
  last : Option Flag := none
  /-- What is left if it starts with no option. -/
  extra : Option String := none

/-- Puts an option without values in front. -/
def Joined.after (flag : Flag) (j : Joined) : Joined :=
  { j with options := (flag, []) :: j.options }

/-- The options of one argument, from the one with the given name on.  What follows its name is
its value if it takes one, and more short options otherwise. -/
def joinedOptions (flag : Flag) (name : String) (afterEquals : Bool) :
    List Char → Except ArgumentError Joined
  | [] =>
    if flag.arity = .none then .error (.extraValue flag "")
    else .ok { options := [(flag, [""])] }
  | c :: rest =>
    let text := String.ofList (c :: rest)
    if flag.arity ≠ .none then .ok { options := [(flag, [text])] }
    else if name.startsWith "--" || afterEquals || c == '-' then .error (.extraValue flag text)
    else
      let short := String.ofList ['-', c]
      match Flag.ofName? short, rest with
      | none, _ => .ok (.after flag { extra := some ("-" ++ text) })
      | some next, [] => .ok (.after flag { last := some next })
      | some next, '=' :: value => (joinedOptions next short true value).map (.after flag)
      | some next, d :: more => (joinedOptions next short false (d :: more)).map (.after flag)

/-- The options of a piece with the values in it. -/
def optionsOf (flag : Flag) (name : String) : Option Attached → Except ArgumentError Joined
  | none => .ok { last := some flag }
  | some value => joinedOptions flag name value.afterEquals value.text.toList

/-- Applies options to their values, one after the other. -/
def applyAll (a : Arguments) : List (Flag × List String) → Except Stop Arguments
  | [] => .ok a
  | (flag, values) :: rest =>
    match apply a flag values with
    | .error stop => .error stop
    | .ok a => applyAll a rest

/-- The values that the last option of an argument takes from the pieces after it. -/
def valuesAfter (flag : Flag) (rest : List Piece) : Except ArgumentError (List String) :=
  let front := frontPositionals rest
  match flag.arity with
  | .none => .ok []
  | .one => if front.isEmpty then .error (.noValue flag) else .ok (front.take 1)
  | .oneOrMore => if front.isEmpty then .error (.noValue flag) else .ok front

/-- Reads an option: the progress after it, and how many pieces were values. -/
def readOption (p : Progress) (flag : Flag) (name : String) (value : Option Attached)
    (rest : List Piece) : Except Stop (Progress × Nat) :=
  match optionsOf flag name value with
  | .error e => .error (.error e)
  | .ok j =>
    match j.last.mapM fun last => (valuesAfter last rest).map fun values => (last, values) with
    | .error e => .error (.error e)
    | .ok last =>
      match applyAll p.arguments (j.options ++ last.toList) with
      | .error stop => .error stop
      | .ok arguments =>
        .ok ({ p with arguments, extras := p.extras ++ j.extra.toList },
          (last.map (·.2.length)).getD 0)

/-- Whether a piece is an option. -/
def Piece.isOption : Piece → Bool
  | option .. => true
  | unknown _ => true
  | _ => false

/-- Reads what follows the last option: perhaps the target, and arguments without a meaning. -/
def readTail (p : Progress) (rest : List Piece) : Progress :=
  if p.hasTarget then { p with extras := p.extras ++ rest.map Piece.text }
  else
    match rest with
    | .positional text :: .separator :: more => taken text more
    | .positional text :: more => taken text more
    | .separator :: .positional text :: more => taken text more
    | .separator :: more => { p with extras := p.extras ++ more.map Piece.text }
    | more => { p with extras := p.extras ++ more.map Piece.text }
where
  /-- The progress with the target and the arguments after it. -/
  taken (target : String) (more : List Piece) : Progress :=
    { p with
      arguments := { p.arguments with target := some target }
      hasTarget := true
      extras := p.extras ++ more.map Piece.text }

/-- Reads pieces from the front. -/
def read (p : Progress) : List Piece → Except Stop Progress
  | [] => .ok p
  | .option flag name value :: rest =>
    match readOption p flag name value rest with
    | .error stop => .error stop
    | .ok (p, count) => read p (rest.drop count)
  | .unknown text :: rest => read { p with extras := p.extras ++ [text] } rest
  | piece :: rest =>
    if rest.any Piece.isOption then
      if p.hasTarget then read { p with extras := p.extras ++ [piece.text] } rest
      else
        read { p with
          arguments := { p.arguments with target := some piece.text }, hasTarget := true } rest
    else .ok (readTail p (piece :: rest))
termination_by ps => ps.length
decreasing_by all_goals simp +arith

/-- The arguments of a run. -/
def Arguments.ofTexts (texts : List String) : Except Stop Arguments :=
  match pieces texts with
  | .error e => .error (.error e)
  | .ok ps =>
    match read {} ps with
    | .error stop => .error stop
    | .ok p =>
      if p.extras.isEmpty then .ok p.arguments else .error (.error (.unrecognized p.extras))

end TaintFlow.CommandLine
