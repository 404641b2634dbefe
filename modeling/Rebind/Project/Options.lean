import Rebind.Text.Basic

/-!
# The command line

A command line is a list of words.  Options have long names, which may be cut short as long as only
one is meant, and most have a letter; letters may share one dash.  The value of an option follows as
a word of its own, after an equals sign, or directly after the letter.

`CommandLine.read` gives the options, or says that help was asked for, or that the words are wrong.
Help is given as soon as it is reached, so a later mistake does not matter; a name that could mean
several options is noticed before anything else.
-/

namespace Rebind

inductive Flag where
  | help
  | config
  | project
  | mode
  | backup
  | verbose
  deriving DecidableEq, Repr

namespace Flag

def takesValue : Flag → Bool
  | .config | .project | .mode => true
  | _ => false

def names : List (Text × Flag) :=
  [("-h", .help), ("--help", .help), ("--config", .config), ("-c", .config),
   ("--project-path", .project), ("-p", .project), ("--binding-mode", .mode), ("-b", .mode),
   ("--backup", .backup), ("--verbose", .verbose), ("-v", .verbose)]

def ofName? (name : Text) : Option Flag := (names.find? (·.1 == name)).map (·.2)

end Flag

inductive Word where
  /-- a value, or something out of place -/
  | plain
  | unknown
  /-- an option, whether its name is long, and the value joined to it: with an equals sign or not -/
  | option (flag : Flag) (long : Bool) (joined : Option (Bool × Text))

namespace Word

/-- a dash with digits of any script, and perhaps a point before the last of them; a newline may
follow -/
def isNegative (t : Text) : Bool :=
  match t with
  | '-' :: rest =>
    let rest := if rest.getLast? = some '\n' then rest.dropLast else rest
    let whole := rest.takeWhile isDecimal
    match rest.drop whole.length with
    | [] => !whole.isEmpty
    | '.' :: places => !places.isEmpty && places.all isDecimal
    | _ => false
  | _ => false

def other (t : Text) : Word := if isNegative t || t.contains ' ' then .plain else .unknown

def atEquals (t : Text) : Text × Option (Bool × Text) :=
  match cut ['='] t with
  | some (name, value) => (name, some (true, value))
  | none => (t, none)

/-- what a word is; nothing if it could mean several options -/
def classify (t : Text) : Option Word :=
  match t with
  | '-' :: c :: rest =>
    match Flag.ofName? t with
    | some flag => some (.option flag (c == '-') none)
    | none =>
      let (name, joined) := atEquals t
      match Flag.ofName? name with
      | some flag => some (.option flag (c == '-') joined)
      | none =>
        if c = '-' then
          match Flag.names.filter (fun n => name.isPrefixOf n.1) with
          | [] => some (other t)
          | [(_, flag)] => some (.option flag true joined)
          | _ => none
        else
          match Flag.ofName? ['-', c] with
          | some flag => some (.option flag false (some (false, rest)))
          | none => some (other t)
  | _ => some .plain

/-- what the words are; after two dashes all are plain -/
def classifyAll : List Text → Option (List (Text × Word))
  | [] => some []
  | t :: ts =>
    if t = ['-', '-'] then some ((t :: ts).map (·, .unknown))
    else do
      let w ← classify t
      return (t, w) :: (← classifyAll ts)

end Word

structure Options where
  config : Option Text
  project : Option Text
  mode : Option Text
  backup : Bool
  verbose : Bool
  deriving DecidableEq, Repr

inductive CommandLine where
  | run (options : Options)
  | help
  | wrong
  deriving DecidableEq, Repr

/-- the options one word stands for, in order; the last may still lack its value -/
structure Cluster where
  flags : List (Flag × Option Text)
  /-- the word went on with a letter that is no option -/
  spoiled : Bool

namespace Cluster

/-- the options of letters that share a dash: `flag` is the first, `rest` follows it -/
def ofLetters (flag : Flag) : Text → Option Cluster
  | [] => some ⟨[(flag, none)], false⟩
  | '=' :: value =>
    if flag.takesValue then some ⟨[(flag, some value)], false⟩ else none
  | c :: rest =>
    if flag.takesValue then some ⟨[(flag, some (c :: rest))], false⟩
    else if c = '-' then none
    else
      match Flag.ofName? ['-', c] with
      | some next => do
        let cluster ← ofLetters next rest
        return { cluster with flags := (flag, none) :: cluster.flags }
      | none => some ⟨[(flag, none)], true⟩

def ofOption (flag : Flag) : Option (Bool × Text) → Option Cluster
  | none => some ⟨[(flag, none)], false⟩
  | some (true, value) => if flag.takesValue then some ⟨[(flag, some value)], false⟩ else none
  | some (false, letters) => ofLetters flag letters

end Cluster

namespace CommandLine

def modes : List Text := ["findViewById", "viewBinding"]

/-- what the options say with one more; nothing if the value is none of the choices -/
def take (o : Options) (flag : Flag) (value : Text) : Option Options :=
  match flag with
  | .help => some o
  | .config => some { o with config := some value }
  | .project => some { o with project := some value }
  | .mode => if modes.contains value then some { o with mode := some value } else none
  | .backup => some { o with backup := true }
  | .verbose => some { o with verbose := true }

/-- the options after a cluster whose last value is `next`: `help` and `wrong` end the reading -/
def takeAll (o : Options) (next : Text) : List (Flag × Option Text) → CommandLine
  | [] => .run o
  | (flag, value) :: rest =>
    if flag = .help then .help
    else
      match take o flag (value.getD next) with
      | some o => takeAll o next rest
      | none => .wrong

def needsNext (flags : List (Flag × Option Text)) : Bool :=
  match flags.getLast? with
  | some (flag, none) => flag.takesValue
  | _ => false

/-- reads words from the left; `spoiled` when one was out of place -/
def readFrom (o : Options) (spoiled : Bool) : List (Text × Word) → CommandLine
  | [] => if spoiled then .wrong else .run o
  | (_, .plain) :: rest => readFrom o true rest
  | (_, .unknown) :: rest => readFrom o true rest
  | (_, .option flag _ joined) :: rest =>
    match Cluster.ofOption flag joined with
    | none => .wrong
    | some cluster =>
      if needsNext cluster.flags then
        match rest with
        | (value, .plain) :: rest =>
          match takeAll o value cluster.flags with
          | .run o => readFrom o (spoiled || cluster.spoiled) rest
          | other => other
        | _ => .wrong
      else
        match takeAll o [] cluster.flags with
        | .run o => readFrom o (spoiled || cluster.spoiled) rest
        | other => other

def read (words : List Text) : CommandLine :=
  match Word.classifyAll words with
  | none => .wrong
  | some ws => readFrom ⟨none, none, none, false, false⟩ false ws

def helpText (program : Text) : Text :=
  let start := "usage: " ++ program ++ [' ']
  let pad := List.replicate start.length ' '
  start ++ "[-h] [--config CONFIG] [--project-path PROJECT_PATH]\n".toList ++ pad
    ++ "[--binding-mode \x7bfindViewById,viewBinding\x7d] [--backup] [--verbose]\n".toList
    ++ "\nButterKnife迁移工具\n\noptions:\n".toList
    ++ "  -h, --help            show this help message and exit\n".toList
    ++ "  --config CONFIG, -c CONFIG\n                        配置文件路径\n".toList
    ++ "  --project-path PROJECT_PATH, -p PROJECT_PATH\n".toList
    ++ "                        Android项目路径\n".toList
    ++ "  --binding-mode \x7bfindViewById,viewBinding\x7d, ".toList
    ++ "-b \x7bfindViewById,viewBinding\x7d\n                        绑定模式\n".toList
    ++ "  --backup              启用备份\n".toList
    ++ "  --verbose, -v         详细输出\n".toList

end CommandLine

end Rebind
