import MarkupIds.Command.Usage

/-! What the arguments of a call ask for. An option takes its value from the same argument, after an
equals sign or after its single letter, or from the next one, whatever that looks like. Two strokes
alone end the options. -/

namespace MarkupIds

structure Arguments where
  settings : List (Setting × String) := []
  others : List String := []

namespace Arguments

def value? (a : Arguments) (s : Setting) : Option String :=
  (a.settings.reverse.find? fun g => g.1 == s).map (·.2)

def has (a : Arguments) (s : Setting) : Bool := a.settings.any fun g => g.1 == s

def withSetting (s : Setting) (value : String) (a : Arguments) : Arguments :=
  { a with settings := (s, value) :: a.settings }

def withFlags (flags : List Setting) (a : Arguments) : Arguments :=
  { a with settings := flags.map (fun s => (s, "")) ++ a.settings }

end Arguments

/-- What one argument is. -/
inductive Argument where
  | other
  | endOfOptions
  | flags (settings : List Setting)
  | valued (flags : List Setting) (setting : Setting) (value : String)
  | asks (flags : List Setting) (setting : Setting) (name : String)
deriving DecidableEq, Repr

namespace Argument

/-- The options that a run of single letters stands for. -/
def ofLetters (known : List Setting) : List Char → Except UsageFault Argument
  | [] => .ok (.flags [])
  | c :: rest =>
    match known.find? fun s => s.short? == some c with
    | none => .error (.unknownOption ("-" ++ String.singleton c) [])
    | some s =>
      if s.value?.isSome then
        if rest.isEmpty then .ok (.asks [] s ("-" ++ String.singleton c))
        else .ok (.valued [] s (String.ofList rest))
      else
        match ofLetters known rest with
        | .ok (.flags more) => .ok (.flags (s :: more))
        | .ok (.valued more t value) => .ok (.valued (s :: more) t value)
        | .ok (.asks more t name) => .ok (.asks (s :: more) t name)
        | result => result

/-- The option under a long name, with the value after an equals sign if there is one. -/
def ofLong (s : Setting) (value : Option String) : Except UsageFault Argument :=
  match s.value?, value with
  | some _, some value => .ok (.valued [] s value)
  | some _, none => .ok (.asks [] s s.long)
  | none, some _ => .error (.unwantedValue s.long)
  | none, none => .ok (.flags [s])

/-- The name before the first equals sign, and what follows it. -/
def splitValue (arg : String) : String × Option String :=
  let name := arg.toList.takeWhile (· != '=')
  match arg.toList.drop name.length with
  | [] => (arg, none)
  | _ :: value => (String.ofList name, some (String.ofList value))

/-- What an argument is among the known options. -/
def read (known : List Setting) (arg : String) : Except UsageFault Argument :=
  match arg.toList with
  | ['-', '-'] => .ok .endOfOptions
  | '-' :: c :: rest =>
    let (name, value) := splitValue arg
    match known.find? fun s => s.long == name with
    | some s => ofLong s value
    | none =>
      if c == '-' then .error (.unknownOption name (Text.similar name (known.map Setting.long)))
      else ofLetters known (c :: rest)
  | _ => .ok .other

end Argument

namespace Arguments

/-- The arguments of a command that knows some options. -/
def read (known : List Setting) : List String → Except UsageFault Arguments
  | [] => .ok {}
  | arg :: rest =>
    match Argument.read known arg with
    | .error fault => .error fault
    | .ok .endOfOptions => .ok { others := rest }
    | .ok .other => (read known rest).map fun a => { a with others := arg :: a.others }
    | .ok (.flags flags) => (read known rest).map (withFlags flags)
    | .ok (.valued flags s value) =>
      (read known rest).map fun a => (a.withSetting s value).withFlags flags
    | .ok (.asks flags s name) =>
      match rest with
      | [] => .error (.noValue name)
      | value :: rest => (read known rest).map fun a => (a.withSetting s value).withFlags flags

end Arguments

inductive Call where
  | help (command : Option Command)
  | command (c : Command) (arguments : Arguments)
deriving Inhabited

namespace Call

def ofCommand (name : String) (args : List String) :
    Except (UsageFault × Option Command) Call :=
  match Command.ofName? name with
  | none => .error (.unknownCommand name, none)
  | some c =>
    match Arguments.read c.settings args with
    | .error fault => .error (fault, some c)
    | .ok arguments => .ok (if arguments.has .help then .help (some c) else .command c arguments)

/-- What the arguments of the program ask for, where `asksHelp` tells whether the help text has been
asked for before the command. -/
def readFrom (asksHelp : Bool) : List String → Except (UsageFault × Option Command) Call
  | [] => if asksHelp then .ok (.help none) else .error (.noCommand, none)
  | arg :: rest =>
    let (name, value) := Argument.splitValue arg
    let known := Command.programOptions.map (·.1)
    match arg.toList with
    | ['-', '-'] =>
      if asksHelp then .ok (.help none)
      else
        match rest with
        | [] => .error (.noCommand, none)
        | name :: args => ofCommand name args
    | '-' :: c :: _ =>
      if known.contains name then
        if value.isSome then .error (.unwantedValue name, none)
        else readFrom (asksHelp || name == "--help") rest
      else if c == '-' then .error (.unknownOption name (Text.similar name known), none)
      else .error (.unknownOption ("-" ++ String.singleton c) [], none)
    | _ => if asksHelp then .ok (.help none) else ofCommand arg rest

def read (args : List String) : Except (UsageFault × Option Command) Call := readFrom false args

end Call

end MarkupIds
