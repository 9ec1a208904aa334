-- SUMMARY: The command line: its options, bindings and output.
import HostExpr.Compiled
import HostExpr.Text.Blank

/-!
# The command line

The arguments are options and one text: the expression, or with `-f` the name of the file that holds
it. Each `-b NAME:TYPE=VALUE` declares a variable and binds it to the text after the sign, converted
to the type. Options can be written together behind one dash; after `--` nothing is an option.

Everything but reading the file is a function from the arguments to what is written and the exit code:
0 for a value, 1 for a failure, 2 for arguments that make no sense.
-/

namespace HostExpr.CommandLine

/-! ## Options

The options follow the common rules for command lines: a dash before letters, two before words, `=` or the
next argument for a value. They only decide what the rest of this module is asked for.
-/

/-- What the arguments ask for. -/
structure Options where
  /-- The text names a file. -/
  fromFile : Bool
  bindings : List String
  showType : Bool
  /-- How often more output was asked for. -/
  verbosity : Nat
  /-- The expression, or the name of the file. -/
  text : Option String
  deriving DecidableEq, Repr

namespace Options

/-- What no arguments ask for. -/
def empty : Options := ⟨false, [], false, 0, none⟩

/-- Adds the text, of which there is only one. -/
def addText (o : Options) (text : String) : Option Options :=
  if o.text.isNone then some { o with text := some text } else none

/-- Adds the option of a letter that takes no value. The first two can be given once. -/
def addFlag (o : Options) : Char → Option Options
  | 'f' => if o.fromFile then none else some { o with fromFile := true }
  | 't' => if o.showType then none else some { o with showType := true }
  | 'v' => some { o with verbosity := o.verbosity + 1 }
  | _ => none

/-- Adds a binding. -/
def addBinding (o : Options) (binding : String) : Options :=
  { o with bindings := o.bindings ++ [binding] }

/-- Adds the options written together behind one dash, and says whether the last of them still needs
the next argument as its value. -/
def addCluster (o : Options) : List Char → Option (Options × Bool)
  | [] => some (o, false)
  | 'b' :: rest =>
    match rest with
    | [] => some (o, true)
    | '=' :: value => some (o.addBinding (String.ofList value), false)
    | value => some (o.addBinding (String.ofList value), false)
  | c :: rest => (o.addFlag c).bind fun o => o.addCluster rest

/-- Adds the option of a word, and says whether it still needs the next argument as its value. -/
def addWord (o : Options) (word : List Char) : Option (Options × Bool) :=
  match String.ofList word with
  | "file" => (o.addFlag 'f').map (·, false)
  | "show-type" => (o.addFlag 't').map (·, false)
  | "verbose" => (o.addFlag 'v').map (·, false)
  | "bind" => some (o, true)
  | _ =>
    if "bind=".toList.isPrefixOf word then
      some (o.addBinding (String.ofList (word.drop 5)), false)
    else
      none

/-- Adds one argument, and says whether it still needs the next one as its value. -/
def addArgument (o : Options) (arg : String) : Option (Options × Bool) :=
  match arg.toList with
  | '-' :: '-' :: word => o.addWord word
  | '-' :: c :: rest => o.addCluster (c :: rest)
  | _ => (o.addText arg).map (·, false)

/-- An argument that can be the value of an option. -/
def isValue (arg : String) : Bool :=
  match arg.toList with
  | '-' :: _ :: _ => false
  | _ => true

/-- Adds arguments. -/
def addArguments (o : Options) : List String → Option Options
  | [] => some o
  | "--" :: texts => texts.foldlM addText o
  | arg :: rest =>
    match o.addArgument arg, rest with
    | none, _ => none
    | some (o, false), rest => o.addArguments rest
    | some (_, true), [] => none
    | some (o, true), value :: rest =>
      if isValue value then (o.addBinding value).addArguments rest else none

/-- What the arguments ask for, if they make sense. -/
def ofArguments? (args : List String) : Option Options :=
  (empty.addArguments args).filter (·.text.isSome)

end Options

/-! ## Bindings -/

/-- Why a binding is refused. -/
inductive BindError where
  | malformed (binding : String)
  | unknownType (type binding : String)
  | cannotConvert (value : String) (type : Ty) (details : String)
  deriving DecidableEq

/-- The wording of a refusal. -/
def BindError.message : BindError → String
  | malformed binding => "Binding '" ++ binding ++ "' must have the form NAME:TYPE=VALUE."
  | unknownType type binding => "Unknown type '" ++ type ++ "' in binding '" ++ binding ++ "'."
  | cannotConvert value type details =>
    "Cannot bind '" ++ value ++ "' as " ++ type.text ++ ": " ++ details

/-- The text before the first occurrence of a character and the text after it. -/
def splitOnce (c : Char) (text : List Char) : Option (List Char × List Char) :=
  match text.dropWhile (· ≠ c) with
  | [] => none
  | _ :: rest => some (text.takeWhile (· ≠ c), rest)

/-- A session and the values of its variables. -/
structure Workspace where
  session : Session Unit
  values : Names Value

/-- The workspace before any binding. -/
def Workspace.new : Workspace := ⟨Session.new.addPrelude, ∅⟩

/-- Declares and binds a variable. -/
def Workspace.bind (w : Workspace) (binding : String) : Except BindError Workspace :=
  match splitOnce '=' binding.toList with
  | none => .error (.malformed binding)
  | some (declaration, value) =>
    match splitOnce ':' declaration with
    | none => .error (.malformed binding)
    | some (name, typeName) =>
      let name := String.ofList name
      let typeName := String.ofList typeName
      let value := String.ofList value
      match w.session.types.find? typeName with
      | none => .error (.unknownType typeName binding)
      | some type =>
        match convert (.string value) type with
        | .error details => .error (.cannotConvert value type details)
        | .ok v => .ok ⟨w.session.addVariable name type, w.values.insert name v⟩

/-- Declares and binds variables in turn. -/
def Workspace.bindAll (w : Workspace) (bindings : List String) : Except BindError Workspace :=
  bindings.foldlM bind w

/-! ## Running -/

/-- What is written, and the exit code. -/
structure Output where
  code : UInt8
  out : String
  err : String
  deriving DecidableEq, Repr

/-- The lines of the records that are asked for: none, the coarse ones or all. -/
def logLines (verbosity : Nat) (log : List Record) : String :=
  String.join <| (log.filter fun r => verbosity ≥ 2 || (verbosity = 1 && r.level = .debug)).map
    fun r => r.text ++ "\n"

/-- The failure with a message, after some records. -/
def failure (verbosity : Nat) (log : List Record) (message : String) : Output :=
  ⟨1, "", logLines verbosity log ++ message ++ "\n"⟩

/-- The line that shows a value. -/
def valueLine (showType : Bool) (v : Value) (type : Ty) : String :=
  v.text ++ (if showType then " : " ++ type.text else "") ++ "\n"

/-- Evaluates a text as the options ask. Blanks around the text do not matter. -/
def evaluate (o : Options) (text : String) : Output :=
  match Workspace.new.bindAll o.bindings with
  | .error e => failure 0 [] e.message
  | .ok w =>
    match w.session.compile (Text.trim text) with
    | ⟨log, .error e⟩ => failure o.verbosity log e.message
    | ⟨log, .ok c⟩ =>
      let ⟨log', result, _⟩ := c.evaluate w.values ()
      match result with
      | .error e => failure o.verbosity (log ++ log') e.message
      | .ok v => ⟨0, valueLine o.showType v c.type, logLines o.verbosity (log ++ log')⟩

/-- The line that says how to use the program. -/
def usage : String := "Usage: [-f] [-t] [-v] [-b NAME:TYPE=VALUE]... [--] TEXT\n"

/-- Runs with the given arguments. The content of the file that they may name is given, or nothing if
it cannot be read. -/
def run (args : List String) (readFile : String → Option String) : Output :=
  match Options.ofArguments? args with
  | none => ⟨2, "", usage⟩
  | some o =>
    let name := o.text.getD ""
    match if o.fromFile then readFile name else some name with
    | some text => evaluate o text
    | none =>
      failure 0 [] ("Failed to read the input file '" ++ name ++
        "'. Perhaps this file does not exist?")

end HostExpr.CommandLine
