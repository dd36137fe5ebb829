import CalcShell.Terminal

/-!
# The command line

The words behind the name of the program choose where its session reads from and how it presents
itself. They are read from left to right, and the first one that is wrong or asks for something else
decides. The program ends with a status.
-/

namespace CalcShell.CommandLine

/-- What the words choose (`Args`). -/
structure Options where
  /-- The file to read lines from. -/
  script : Option String := none
  /-- Whether to read plain lines even from a terminal. -/
  plain : Bool := false
  /-- Whether sessions begin and end silently. -/
  quiet : Bool := false
  /-- The label that prompts start with. -/
  prompt : Option String := none
deriving DecidableEq, Repr

/-- What the words ask for. -/
inductive Parsed where
  /-- A session. -/
  | run (options : Options)
  /-- The version of the program. -/
  | version
  /-- How to use the program. -/
  | help
  /-- Nothing, for the words are wrong. -/
  | wrong
deriving DecidableEq, Repr

/-- The options with a file to read from, which has a name and is named once. -/
def Options.setScript? (o : Options) (value : String) : Option Options :=
  if o.script.isSome || value = "" then none else some { o with script := some value }

/-- The options with a label, which is given once. -/
def Options.setPrompt? (o : Options) (value : String) : Option Options :=
  if o.prompt.isSome then none else some { o with prompt := some value }

/-- The options with a flag set, which is given once. -/
def Options.setFlag? (o : Options) (name : String) : Option Options :=
  match name with
  | "--plain" => if o.plain then none else some { o with plain := true }
  | "--quiet" => if o.quiet then none else some { o with quiet := true }
  | _ => none

/-- The options with a value set. -/
def Options.setValue? (o : Options) (name value : String) : Option Options :=
  match name with
  | "--script" => o.setScript? value
  | "--prompt" => o.setPrompt? value
  | _ => none

/-- A word split at its first equals sign. -/
def splitAtEquals (word : String) : Option (String × String) :=
  match word.toList.span (· ≠ '=') with
  | (name, _ :: value) => some (String.ofList name, String.ofList value)
  | (_, []) => none

/-- Whether a word is a value and no option: it does not start with a dash, or is a dash alone. -/
def isValue (word : String) : Bool := word.toList.head? ≠ some '-' || word = "-"

/-- What words ask for, where `o` are the options before them. -/
def parseFrom (o : Options) : List String → Parsed
  | [] => .run o
  | word :: rest =>
    if word = "--" then if rest.isEmpty then .run o else .wrong
    else if word = "--version" || word.startsWith "-V" then .version
    else if word = "--help" || word.startsWith "-h" then .help
    else if word = "--script" || word = "--prompt" then
      match rest with
      | [] => .wrong
      | value :: rest =>
        if isValue value then
          match o.setValue? word value with
          | none => .wrong
          | some o => parseFrom o rest
        else .wrong
    else
      match splitAtEquals word with
      | some (name, value) =>
        match o.setValue? name value with
        | none => .wrong
        | some o => parseFrom o rest
      | none =>
        match o.setFlag? word with
        | none => .wrong
        | some o => parseFrom o rest

/-- What the words of a command line ask for. -/
def parse (words : List String) : Parsed := parseFrom {} words

/-- The name and version of the program. -/
def versionText : String := "nestrepl 0.1.0\n"

/-- How to use the program. -/
def helpText : String :=
  String.intercalate "\n"
    ["Nestable read-eval-print sessions for the calc language",
      "",
      "Usage: nestrepl [OPTIONS]",
      "",
      "Options:",
      "      --script <FILE>  Read input lines from FILE instead of the terminal",
      "      --plain          Read plain lines from stdin (no raw-mode editing)",
      "      --quiet          Do not print session begin/end banners",
      "      --prompt <NAME>  Label shown at the start of the prompt",
      "  -h, --help           Print help",
      "  -V, --version        Print version",
      ""]

/-- What is said of words that are wrong. -/
def wrongText : String := "error: invalid arguments\n\nFor more information, try '--help'.\n"

/-- What the program leaves: its status and what it wrote. -/
structure Finished where
  code : Nat
  output : String := ""
  errors : String := ""
deriving DecidableEq, Repr

/-- A status as the system sees it: its lowest eight bits. -/
def statusCode (status : Int) : Nat := (status % 256).toNat

/-- What the program leaves when its session is over. -/
def finish (e : Terminal.Ended) : Finished :=
  match e.result with
  | .ok _ | .error .spent | .error (.interrupt (.breakout _)) => ⟨0, e.output, ""⟩
  | .error (.interrupt .endOfInput) => ⟨0, e.output ++ "\n", ""⟩
  | .error (.interrupt (.exit status)) => ⟨statusCode status, e.output, ""⟩
  | .error (.interrupt (.io error)) =>
    ⟨1, e.output, "入出力エラー: " ++ error.message ++ "\n"⟩

/-- What sessions are given by the options, their input apart (`overrides_from`). -/
def Options.overrides (o : Options) : Overrides Calc.host where
  hooks := if o.quiet then some [] else none
  prompts := o.prompt.map Prompts.labelled

/-- What the program reads from: a file if one is named, else its standard input. A file may be
missing, for a reason. -/
def Options.source (o : Options) (file : String → Except String (List UInt8))
    (standardInput : List UInt8) : Except String Line.Source :=
  match o.script with
  | some path => (file path).map fun bytes => .plain ⟨bytes, .silent⟩
  | none =>
    .ok (if o.plain then .plain ⟨standardInput, .shared⟩
      else .editor { bytes := standardInput, terminal := false })

/-- Runs the program: `file` gives the bytes of a file or says why there are none. -/
def run (words : List String) (file : String → Except String (List UInt8))
    (standardInput : List UInt8) : Finished :=
  match parse words with
  | .version => ⟨0, versionText, ""⟩
  | .help => ⟨0, helpText, ""⟩
  | .wrong => ⟨2, "", wrongText⟩
  | .run o =>
    match o.source file standardInput with
    | .error reason => ⟨1, "", "入力ファイルを開けませんでした: " ++ reason ++ "\n"⟩
    | .ok source => finish (Terminal.run source o.overrides)

/-- Why a file that does not exist cannot be read. -/
def noSuchFile : String := "No such file or directory (os error 2)"

end CalcShell.CommandLine
