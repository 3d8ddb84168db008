import ComponentPages.Number.Numeral

/-!
Reading the arguments of the command line. Options may stand before and after what they belong to, long ones may
be shortened as long as they stay unambiguous, and short ones joined. After `--` nothing is an option.
-/
namespace ComponentPages

namespace CommandLine

inductive Flag where
  | help | verbose | logFile | force | watch | host | port
deriving DecidableEq

namespace Flag

def takesValue : Flag → Bool
  | .logFile | .host | .port => true
  | _ => false

end Flag

/-- Spellings of options. -/
abbrev Flags := List (Text × Flag)

/-- Options by their spellings, after those that are known everywhere. -/
def flagsWith (more : List (String × Flag)) : Flags :=
  let everywhere : List (String × Flag) := [("-h", .help), ("--help", .help), ("-v", .verbose), ("--verbose", .verbose)]
  (everywhere ++ more).map fun (spelling, flag) => (spelling.toList, flag)

/-- The options before the command. -/
def mainFlags : Flags := flagsWith [("--log-file", .logFile)]

inductive CommandName where
  | init | compile | watch | serve
deriving DecidableEq

namespace CommandName

def ofText? (text : Text) : Option CommandName :=
  [("init", CommandName.init), ("compile", .compile), ("watch", .watch), ("serve", .serve)].lookup
    (String.ofList text)

def flags : CommandName → Flags
  | .init => flagsWith [("--force", .force)]
  | .compile => flagsWith [("--watch", .watch)]
  | .watch => flagsWith []
  | .serve => flagsWith [("--host", .host), ("--port", .port)]

def takesPath : CommandName → Bool
  | .serve => false
  | _ => true

end CommandName

/-- Why no command is run: help was asked for, or the arguments make no sense. -/
inductive Rejection where
  | help | usage
deriving DecidableEq

def Rejection.exitCode : Rejection → Nat
  | .help => 0
  | .usage => 2

/-- What an argument is by its looks. An option that is not known has no flag. The letters written right behind a
short option are more short options, not a value. -/
inductive Shape where
  | operand
  | separator
  | option (flag : Option Flag) (joins : Bool) (value : Option Text)
deriving DecidableEq

/-- Negative numbers are operands. A line break behind the number does not matter. -/
def isNegativeNumber : Text → Bool
  | '-' :: written =>
    let isDigit (c : Char) := (digitValue? c).isSome
    let number := if written.getLast? = some '\n' then written.dropLast else written
    match number.dropWhile isDigit with
    | [] => !number.isEmpty
    | '.' :: fraction => !fraction.isEmpty && fraction.all isDigit
    | _ => false
  | _ => false

def isLongName (text : Text) : Bool := Text.startsWith ['-', '-'] text

/-- The options that a shortened or joined spelling may mean. -/
def candidates (flags : Flags) (text : Text) : List Shape :=
  if isLongName text then
    let (stem, value) :=
      match Text.cut? '=' text with
      | some (stem, value) => (stem, some value)
      | none => (text, none)
    (flags.filter fun (name, _) => Text.startsWith stem name).map fun (_, flag) => .option (some flag) false value
  else
    (flags.filter fun (name, _) => name = text.take 2).map fun (_, flag) => .option (some flag) true (some (text.drop 2))

/-- The option that a spelling names in full, perhaps with a value behind an equals sign. -/
def inFull? (flags : Flags) (text : Text) : Option Shape :=
  match flags.lookup text with
  | some flag => some (.option (some flag) false none)
  | none => do
    let (name, value) ← Text.cut? '=' text
    let flag ← flags.lookup name
    some (.option (some flag) false (some value))

/-- What an argument is, where no separator precedes it. -/
def shape (flags : Flags) (text : Text) : Except Rejection Shape :=
  match text with
  | [] | [_] => .ok .operand
  | c :: _ =>
    if c ≠ '-' then .ok .operand
    else
      match inFull? flags text, candidates flags text with
      | some found, _ => .ok found
      | none, [found] => .ok found
      | none, _ :: _ :: _ => .error .usage
      | none, [] =>
        if isNegativeNumber text || text.any (· == ' ') then .ok .operand
        else .ok (.option none false none)

/-- The shapes of all arguments. -/
def shapes (flags : Flags) : List Text → Except Rejection (List (Text × Shape))
  | [] => .ok []
  | text :: rest =>
    if text = "--" then .ok ((text, .separator) :: rest.map fun text => (text, .operand))
    else do
      let found ← shape flags text
      .ok ((text, found) :: (← shapes flags rest))

/-- An option that was read: its flag and its value. -/
abbrev Setting := Flag × Text

/-- Arguments that were read: settings, operands, and whether some belong nowhere. -/
structure Arguments where
  settings : List Setting := []
  operands : List Text := []
  excess : Bool := false

namespace Arguments

def append (first second : Arguments) : Arguments where
  settings := first.settings ++ second.settings
  operands := first.operands ++ second.operands
  excess := first.excess || second.excess

instance : Append Arguments := ⟨append⟩

def setting (flag : Flag) (value : Text) : Arguments := { settings := [(flag, value)] }

def operand (text : Text) : Arguments := { operands := [text] }

def excessive : Arguments := { excess := true }

end Arguments

/-- The flags of joined short options, given the letters behind the first. From a letter on that is no option,
the letters belong nowhere. -/
def joined (flags : Flags) (flag : Flag) : Text → Except Rejection Arguments
  | [] => .ok (.setting flag [])
  | '-' :: _ | '=' :: _ => .error .usage
  | letter :: letters =>
    match flags.lookup ['-', letter] with
    | some next => do .ok (.setting flag [] ++ (← joined flags next letters))
    | none => .ok (.setting flag [] ++ .excessive)

/-- An option with its value. A port is a number. -/
def valued (flag : Flag) (value : Text) : Except Rejection Arguments :=
  if flag = .port && (Numeral.int? value).isNone then .error .usage else .ok (.setting flag value)

/-- What an option says, and the arguments left behind it. Help ends the reading. -/
def readOption (flags : Flags) (flag : Flag) (joins : Bool) (value : Option Text) (rest : List (Text × Shape)) :
    Except Rejection (Arguments × List (Text × Shape)) := do
  let (read, rest) ←
    if flag.takesValue then
      match value, rest with
      | some value, _ => pure (← valued flag value, rest)
      | none, (value, .operand) :: rest => pure (← valued flag value, rest)
      | none, _ => .error .usage
    else
      match value with
      | none => pure (.setting flag [], rest)
      | some letters =>
        if joins && !letters.isEmpty then pure (← joined flags flag letters, rest) else .error .usage
  if read.settings.any fun (flag, _) => flag = .help then .error .help else .ok (read, rest)

/-- Reads the options up to the first operand. -/
def leading (flags : Flags) (fuel : Nat) (arguments : List (Text × Shape)) :
    Except Rejection (Arguments × List (Text × Shape)) :=
  match fuel, arguments with
  | fuel + 1, (_, .option (some flag) joins value) :: rest => do
    let (read, rest) ← readOption flags flag joins value rest
    let (later, last) ← leading flags fuel rest
    .ok (read ++ later, last)
  | fuel + 1, (_, .option none _ _) :: rest => do
    let (later, last) ← leading flags fuel rest
    .ok (.excessive ++ later, last)
  | _, rest => .ok ({}, rest)

/-- The operands at the end of the arguments, when at most a number of them is wanted: one, with a separator
before or behind it at will. -/
def trailing (wanted : Bool) (arguments : List (Text × Shape)) : Arguments :=
  match wanted, arguments with
  | _, [] => {}
  | false, _ => .excessive
  | true, [(_, .separator)] => {}
  | true, (_, .separator) :: (text, _) :: rest => { operands := [text], excess := !rest.isEmpty }
  | true, (text, _) :: (_, .separator) :: rest => { operands := [text], excess := !rest.isEmpty }
  | true, (text, _) :: rest => { operands := [text], excess := !rest.isEmpty }

def isOption : Text × Shape → Bool
  | (_, .option _ _ _) => true
  | _ => false

/-- Reads options and operands in any order, with one operand at most. -/
def mixed (flags : Flags) (fuel : Nat) (wanted : Bool) (arguments : List (Text × Shape)) :
    Except Rejection Arguments :=
  match fuel with
  | 0 => .ok (trailing wanted arguments)
  | fuel + 1 => do
    let (before, rest) ← leading flags fuel arguments
    match rest.any isOption, rest with
    | true, (text, _) :: rest =>
      let later ← mixed flags fuel false rest
      .ok (before ++ (if wanted then .operand text else .excessive) ++ later)
    | _, rest => .ok (before ++ trailing wanted rest)

inductive Command where
  | init (path : Text) (force : Bool)
  | compile (path : Text)
  | watch (path : Text)
  | serve (host : Text) (port : Int)
deriving DecidableEq

structure Invocation where
  verbose : Bool
  logFile : Option Text
  command : Command
deriving DecidableEq

/-- The last value of an option. -/
def lastValue? (flag : Flag) (settings : List Setting) : Option Text := settings.reverse.lookup flag

def isSet (flag : Flag) (settings : List Setting) : Bool := (lastValue? flag settings).isSome

/-- What a command is asked to do. -/
def command (name : CommandName) (arguments : Arguments) : Command :=
  let path : Text := arguments.operands.head?.getD ['.']
  match name with
  | .init => .init path (isSet .force arguments.settings)
  | .compile => if isSet .watch arguments.settings then .watch path else .compile path
  | .watch => .watch path
  | .serve =>
    .serve ((lastValue? .host arguments.settings).getD "127.0.0.1".toList)
      (((lastValue? .port arguments.settings).bind Numeral.int?).getD 8000)

/-- Reads all arguments. What follows the name of a command belongs to the command. -/
def parse (texts : List Text) : Except Rejection Invocation := do
  let arguments ← shapes mainFlags texts
  let (before, rest) ← leading mainFlags arguments.length arguments
  match rest with
  | (name, .operand) :: rest =>
    match CommandName.ofText? name with
    | none => .error .usage
    | some name =>
      let own ← shapes name.flags (rest.map Prod.fst)
      let read ← mixed name.flags (own.length + 1) name.takesPath own
      if (before ++ read).excess then .error .usage
      else .ok {
        verbose := isSet .verbose (before ++ read).settings
        logFile := lastValue? .logFile before.settings
        command := command name read }
  | _ => .error .usage

end CommandLine

end ComponentPages
