import Archivist.Net.Address
set_option autoImplicit false

namespace Archivist.CommandLine

inductive ArgumentFault where
  | help
  /-- Nothing but the program's name was given. -/
  | nothingGiven
  | missingRequired
  | invalidValue
  | unknownArgument
  | repeated
  | unknownCommand
  | unneededValue
  | valueOfWrongForm
deriving DecidableEq, Repr

inductive ValueKind where
  | path
  | text
  | address
deriving DecidableEq

structure Switch where
  long : String
  short : Option Char := none
  /-- The value it takes; a flag takes none. -/
  value : Option ValueKind := none
deriving DecidableEq

inductive CommandName where
  | check
  | plan
  | node
  | run
deriving DecidableEq

def configSwitch : Switch := ⟨"config", some 'c', some .path⟩
def snapshotSwitch : Switch := ⟨"snapshot", some 's', some .path⟩
def sectionSwitch : Switch := ⟨"section", none, some .text⟩
def jsonSwitch : Switch := ⟨"json", none, none⟩
def listenSwitch : Switch := ⟨"listen", some 'l', some .address⟩
def rootSwitch : Switch := ⟨"root", some 'r', some .path⟩
def onceSwitch : Switch := ⟨"once", none, none⟩

namespace CommandName

def all : List (String × CommandName) :=
  [("check", .check), ("plan", .plan), ("node", .node), ("run", .run)]

def switches : CommandName → List Switch
  | .check => [configSwitch]
  | .plan => [configSwitch, snapshotSwitch, sectionSwitch, jsonSwitch]
  | .node => [configSwitch, listenSwitch, rootSwitch]
  | .run => [configSwitch, snapshotSwitch, onceSwitch]

end CommandName

inductive Command where
  | check (config : String)
  | plan (config snapshot : String) (only : Option String) (asJson : Bool)
  | node (config : String) (listen : SocketAddress) (root : String)
  | run (config snapshot : String) (once : Bool)
deriving DecidableEq

def Command.paths : Command → List String
  | .check config | .node config _ _ => [config]
  | .plan config snapshot _ _ | .run config snapshot _ => [config, snapshot]

def ArgumentFault.message : ArgumentFault → String
  | .help | .nothingGiven =>
    "usage: check | plan | node | run, each with --config and the switches of its own"
  | .missingRequired => "a required switch is missing"
  | .invalidValue => "a switch lacks a value, or it is none of those that can be"
  | .unknownArgument => "there is no such argument"
  | .repeated => "a switch is given twice"
  | .unknownCommand => "there is no such command"
  | .unneededValue => "a flag takes no value"
  | .valueOfWrongForm => "a value has the wrong form"

structure Reading where
  given : List (String × String) := []
  /-- The last switch, whose value stands in the next argument, with the value once it is there. -/
  waiting : Option (Switch × Option String) := none
  /-- True behind an argument `--`: nothing is a switch any more. -/
  closed : Bool := false

namespace Reading

def accepts : Option ValueKind → String → Except ArgumentFault Unit
  | some .path, v => if v = "" then .error .invalidValue else .ok ()
  | some .address, v =>
    match SocketAddress.ofText? v with
    | some _ => .ok ()
    | none => .error .valueOfWrongForm
  | _, _ => .ok ()

def note (r : Reading) (s : Switch) (v : String) : Except ArgumentFault Reading := do
  if (r.given.lookup s.long).isSome then throw .repeated
  accepts s.value v
  return { r with given := r.given ++ [(s.long, v)], waiting := none }

def settle (r : Reading) : Except ArgumentFault Reading :=
  match r.waiting with
  | none => .ok r
  | some (_, none) => .error .invalidValue
  | some (s, some v) => r.note s v

def long (switches : List Switch) (r : Reading) (arg : List Char) : Except ArgumentFault Reading := do
  let name := String.ofList (arg.takeWhile (· ≠ '='))
  let attached := match arg.dropWhile (· ≠ '=') with
    | _ :: v => some (String.ofList v)
    | [] => none
  if name = "help" then
    if attached.isSome then throw .unneededValue
    let _ ← r.settle
    throw .help
  match switches.find? (·.long = name), attached with
  | none, _ => throw .unknownArgument
  | some s, some v => if s.value.isNone then throw .unneededValue else (← r.settle).note s v
  | some s, none =>
    let r ← r.settle
    if s.value.isNone then r.note s "" else return { r with waiting := some (s, none) }

/-- An argument of short switches begins with flags; there is but one, which asks for help. -/
def short (switches : List Switch) (r : Reading) : List Char → Except ArgumentFault Reading
  | [] => .ok r
  | c :: rest => do
    if c = 'h' then
      let _ ← r.settle
      throw .help
    match switches.find? (·.short = some c) with
    | none => throw .unknownArgument
    | some s =>
      let r ← r.settle
      match rest with
      | [] => return { r with waiting := some (s, none) }
      | '=' :: v => r.note s (String.ofList v)
      | v => r.note s (String.ofList v)

def step (switches : List Switch) (r : Reading) (arg : String) : Except ArgumentFault Reading :=
  match r.closed, arg.toList with
  | true, _ => .error .unknownArgument
  | false, ['-', '-'] => .ok { r with closed := true }
  | false, '-' :: '-' :: rest => r.long switches rest
  | false, '-' :: c :: rest => r.short switches (c :: rest)
  | false, _ =>
    match r.waiting with
    | some (s, none) => .ok { r with waiting := some (s, some arg) }
    | _ => .error .unknownArgument

def environment (r : Reading) (config : Option String) : Except ArgumentFault Reading :=
  match config with
  | none => .ok r
  | some v => if (r.given.lookup configSwitch.long).isSome then .ok r else r.note configSwitch v

def required (r : Reading) (s : Switch) : Except ArgumentFault String :=
  match r.given.lookup s.long with
  | some v => .ok v
  | none => .error .missingRequired

def has (r : Reading) (s : Switch) : Bool := (r.given.lookup s.long).isSome

end Reading

def defaultListen : SocketAddress := .v4 0 0 0 0 7100

def readCommand (name : CommandName) (args : List String) (config : Option String) :
    Except ArgumentFault Command := do
  let r ← args.foldlM (Reading.step name.switches) {}
  let r ← (← r.settle).environment config
  let path ← r.required configSwitch
  match name with
  | .check => return .check path
  | .plan =>
    return .plan path (← r.required snapshotSwitch) (r.given.lookup sectionSwitch.long)
      (r.has jsonSwitch)
  | .node =>
    let listen := ((r.given.lookup listenSwitch.long).bind SocketAddress.ofText?).getD defaultListen
    return .node path listen (← r.required rootSwitch)
  | .run => return .run path (← r.required snapshotSwitch) (r.has onceSwitch)

/-- What is asked for help is a command, and commands have none below them. -/
def helpFault : List String → ArgumentFault
  | [] => .help
  | [name] =>
    if name = "help" ∨ (CommandName.all.lookup name).isSome then .help else .unknownCommand
  | _ => .unknownCommand

def firstFault (arg : String) (rest : List String) : ArgumentFault :=
  match arg.toList with
  | ['-', '-'] =>
    match rest with
    | [] => .nothingGiven
    | next :: _ =>
      if next = "help" ∨ (CommandName.all.lookup next).isSome then .unknownArgument
      else .unknownCommand
  | '-' :: '-' :: name =>
    if name = "help".toList then .help
    else if name.takeWhile (· ≠ '=') = "help".toList then .unneededValue
    else .unknownArgument
  | '-' :: c :: _ => if c = 'h' then .help else .unknownArgument
  | _ => .unknownCommand

def read (args : List String) (config : Option String) : Except ArgumentFault Command :=
  match args with
  | [] => .error .nothingGiven
  | arg :: rest =>
    if arg = "help" then .error (helpFault rest)
    else
      match CommandName.all.lookup arg with
      | some name => readCommand name rest config
      | none => .error (firstFault arg rest)

end Archivist.CommandLine
