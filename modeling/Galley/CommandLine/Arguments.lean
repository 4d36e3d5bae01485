import Galley.Terminal.Document
/-! The arguments of the command line: a command, its options and the path of its input. -/
namespace Galley.CommandLine

inductive Command where
  | anchors (json : Bool)
  | check
  | draw (page : Nat) (json : Bool)
  | outline (json : Bool)
  | tokens (json : Bool)
  | trace
  | tty (format : Terminal.Format) (trim sgr : Bool)
  deriving DecidableEq

inductive Request where
  | help
  | version
  | run (quiet : Bool) (command : Command) (path : String)
  deriving DecidableEq

/-- An option: a long name, perhaps a letter, and whether a value follows it. -/
structure Flag where
  long : String
  short : Option Char
  valued : Bool
  deriving DecidableEq

/-- Whether an option asks about the program, so that no more arguments count. -/
def isQuestion (long : String) : Bool := long == "help" || long == "version"

inductive Given where
  | flag (long : String)
  | value (long : String) (value : String)
  | positional (s : String)
  deriving DecidableEq

/-- A value must not look like an option. -/
def isValue (s : String) : Bool := !("-".toList.isPrefixOf s.toList)

/-- An option of one word, perhaps with a value after an equals sign. The result is none if it is
no such option, and the arguments after it otherwise. -/
def longOption? (flags : List Flag) (word : List Char) (rest : List String) :
    Option (Given × List String) :=
  let (name, value) := match Text.cut (· == '=') word with
    | some (n, v) => (n, some (String.ofList v))
    | none => (word, none)
  (flags.find? (·.long.toList == name)).bind fun f =>
    match f.valued, value, rest with
    | false, none, _ => some (.flag f.long, rest)
    | false, some _, _ => none
    | true, some v, _ => some (.value f.long v, rest)
    | true, none, v :: r => if isValue v then some (.value f.long v, r) else none
    | true, none, [] => none

/-- Letters behind one hyphen: options without values, and then perhaps one with its value. What
follows a question about the program is left alone. -/
def shortOptions? (flags : List Flag) : List Char → List String →
    Option (List Given × List String)
  | [], rest => some ([], rest)
  | c :: cs, rest =>
    (flags.find? (·.short == some c)).bind fun f =>
      match f.valued, cs, rest with
      | false, _, _ =>
        if isQuestion f.long then some ([.flag f.long], rest)
        else (shortOptions? flags cs rest).map fun (gs, r) => (.flag f.long :: gs, r)
      | true, '=' :: v, _ => some ([.value f.long (String.ofList v)], rest)
      | true, [], v :: r => if isValue v then some ([.value f.long v], r) else none
      | true, [], [] => none
      | true, v, _ => some ([.value f.long (String.ofList v)], rest)

def asks (gs : List Given) : Bool :=
  match gs.getLast? with
  | some (.flag long) => isQuestion long
  | _ => false

/-- Sorts arguments into options and paths. Behind two hyphens there are only paths, and behind a
question about the program nothing counts. -/
def given? (flags : List Flag) : Nat → List String → Option (List Given)
  | 0, _ => none
  | _, [] => some []
  | fuel + 1, a :: rest =>
    let next (gs : List Given) (r : List String) : Option (List Given) :=
      if asks gs then some gs else (given? flags fuel r).map (gs ++ ·)
    match a.toList with
    | ['-', '-'] => some (rest.map .positional)
    | '-' :: '-' :: word => (longOption? flags word rest).bind fun (g, r) => next [g] r
    | '-' :: c :: cs => (shortOptions? flags (c :: cs) rest).bind fun (gs, r) => next gs r
    | _ => next [.positional a] rest

def isFlag (long : String) : Given → Bool
  | .flag l => l == long
  | .value l _ => l == long
  | .positional _ => false

def isSingle (flags : List Flag) (gs : List Given) : Bool :=
  flags.all fun f => gs.countP (isFlag f.long) ≤ 1

def isPositional : Given → Bool
  | .positional _ => true
  | _ => false

def hasFlag (long : String) (gs : List Given) : Bool := gs.any (isFlag long)

def valueOf? (long : String) (gs : List Given) : Option String :=
  gs.findSome? fun
    | .value l v => if l = long then some v else none
    | _ => none

def helpFlag : Flag := ⟨"help", some 'h', false⟩

def versionFlag : Flag := ⟨"version", some 'V', false⟩

def quietFlag : Flag := ⟨"quiet", some 'q', false⟩

def jsonFlag : Flag := ⟨"json", some 'j', false⟩

def pageFlag : Flag := ⟨"page", some 'p', true⟩

def formatFlag : Flag := ⟨"format", some 'f', true⟩

def noTrimFlag : Flag := ⟨"no-trim", none, false⟩

def noSgrFlag : Flag := ⟨"no-sgr", none, false⟩

def flagsOf? : String → Option (List Flag)
  | "anchors" => some [helpFlag, jsonFlag]
  | "check" => some [helpFlag]
  | "draw" => some [helpFlag, pageFlag, jsonFlag]
  | "outline" => some [helpFlag, jsonFlag]
  | "tokens" => some [helpFlag, jsonFlag]
  | "trace" => some [helpFlag]
  | "tty" => some [helpFlag, formatFlag, noTrimFlag, noSgrFlag]
  | _ => none

def pageOf? (gs : List Given) : Option Nat :=
  match valueOf? "page" gs with
  | none => some 1
  | some v => Number.below? 10 UInt64.size v.toList

def formatOf? (gs : List Given) : Option Terminal.Format :=
  match valueOf? "format" gs with
  | none => some .html
  | some "html" => some .html
  | some "ansi" => some .ansi
  | some "text" => some .text
  | some _ => none

def commandOf? (name : String) (gs : List Given) : Option Command :=
  let json := hasFlag "json" gs
  match name with
  | "anchors" => some (.anchors json)
  | "check" => some .check
  | "draw" => (pageOf? gs).map fun page => .draw page json
  | "outline" => some (.outline json)
  | "tokens" => some (.tokens json)
  | "trace" => some .trace
  | "tty" =>
    (formatOf? gs).map fun format => .tty format (!hasFlag "no-trim" gs) (!hasFlag "no-sgr" gs)
  | _ => none

def paths (gs : List Given) : List String :=
  gs.filterMap fun
    | .positional s => some s
    | _ => none

/-- What a command with its arguments asks for. It takes one path, which must not be empty. -/
def requestOf? (quiet : Bool) (name : String) (args : List String) : Option Request :=
  (flagsOf? name).bind fun flags =>
    (given? flags (args.length + 1) args).bind fun gs =>
      (commandOf? name gs).bind fun command =>
        if !isSingle flags gs || (paths gs).contains "" then none
        else match paths gs with
          | [] => if hasFlag "help" gs then some .help else none
          | [path] => if hasFlag "help" gs then some .help else some (.run quiet command path)
          | _ => none

def helpOn? : List String → Option Request
  | [] => some .help
  | [name] => if (flagsOf? name).isSome || name = "help" then some .help else none
  | _ => none

def globalFlags : List Flag := [helpFlag, versionFlag, quietFlag]

def parse (args : List String) : Option Request :=
  let (options, rest) := args.span fun a => !isValue a
  (given? globalFlags (options.length + 1) options).bind fun gs =>
    if gs.any isPositional || !isSingle globalFlags gs then none
    else if hasFlag "help" gs then some .help
    else if hasFlag "version" gs then some .version
    else if options.contains "--" then none
    else match rest with
      | [] => none
      | "help" :: names => helpOn? names
      | name :: args => requestOf? (hasFlag "quiet" gs) name args

end Galley.CommandLine
