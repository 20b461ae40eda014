import TextExpander.Request

/-!
# Arguments

What the arguments of the program ask for. They are taken in from the left. The first argument that
is wrong decides, and so does the first that asks for the version or the usage; that two listings
are not shown at once is a matter of all arguments together.

An option may have its value in the same argument or in the next one. The next one is its value
only if it does not look like an option; a single dash does not. After `--` everything is a file.

## Main definitions

* `Instruction`, `Misuse`: what the arguments ask for, or why they ask for nothing.
* `Command.classify`: what one argument says.
* `Command.parse`: what all arguments say.
-/

namespace TextExpander

/-- What the arguments of the program ask for. -/
inductive Instruction where
  /-- Work on a document. -/
  | work (request : Request)
  /-- Show the version. -/
  | version
  /-- Show how the program is used. -/
  | help
  deriving DecidableEq, Repr

/-- Why the arguments make no request. -/
inductive Misuse where
  /-- There is no such option. -/
  | unknownOption (argument : Text)
  /-- An option has no value. -/
  | missingValue (option : Text)
  /-- A flag has a value. -/
  | unexpectedValue (option : Text)
  /-- The value of an option is empty, or is not the number that it should be. -/
  | badValue (option value : Text)
  /-- An option, or the file, is given twice. -/
  | repeated (argument : Text)
  /-- Two views are asked for. -/
  | conflictingViews
  deriving DecidableEq, Repr

/-- The wording of a misuse. -/
def Misuse.message : Misuse → Text
  | unknownOption argument => "unexpected argument '".toList ++ argument ++ "'".toList
  | missingValue option => "a value is required for '".toList ++ option ++ "'".toList
  | unexpectedValue option => "'".toList ++ option ++ "' takes no value".toList
  | badValue option value =>
    "invalid value '".toList ++ value ++ "' for '".toList ++ option ++ "'".toList
  | repeated argument => "'".toList ++ argument ++ "' cannot be given twice".toList
  | conflictingViews => "only one listing can be shown".toList

namespace Command

/-! ### One argument -/

/-- The options that take a value. -/
inductive Setting where
  | output
  | includeLimit
  | expansionLimit
  deriving DecidableEq, Repr

/-- The options that take none. -/
inductive Flag where
  | allowRedefinition
  | lexemes
  | steps
  deriving DecidableEq, Repr

/-- The long name of an option with a value. -/
def Setting.name : Setting → Text
  | output => "output".toList
  | includeLimit => "max-include-depth".toList
  | expansionLimit => "max-expansion-depth".toList

/-- The long name of a flag. -/
def Flag.name : Flag → Text
  | allowRedefinition => "allow-redefinition".toList
  | lexemes => "debug-tokenize".toList
  | steps => "debug-matched".toList

/-- What one argument says. -/
inductive Argument where
  /-- The file. -/
  | file (name : Text)
  /-- An option, with its value if that is part of the argument. -/
  | setting (option : Setting) (value : Option Text)
  /-- A flag. -/
  | flag (option : Flag)
  /-- The request for the version. -/
  | version
  /-- The request for the usage. -/
  | help
  /-- The end of the options. -/
  | optionsEnd
  deriving DecidableEq, Repr

/-- An option by its long name, with the value after the equals sign. -/
def longOption (argument name : Text) (value : Option Text) : Except Misuse Argument :=
  match [Setting.output, .includeLimit, .expansionLimit].find? fun s => s.name == name with
  | some s => .ok (.setting s value)
  | none =>
    let plain (a : Argument) : Except Misuse Argument :=
      if value.isSome then .error (.unexpectedValue argument) else .ok a
    match [Flag.allowRedefinition, .lexemes, .steps].find? fun f => f.name == name with
    | some f => plain (.flag f)
    | none =>
      if name = "version".toList then plain .version
      else if name = "help".toList then plain .help
      else .error (.unknownOption argument)

/-- An option by its letter, with what follows the letter in the argument. -/
def shortOption (argument : Text) (letter : Char) (rest : Text) : Except Misuse Argument :=
  match letter, rest with
  | 'V', _ => .ok .version
  | 'h', _ => .ok .help
  | 'o', [] => .ok (.setting .output none)
  | 'o', '=' :: value => .ok (.setting .output (some value))
  | 'o', value => .ok (.setting .output (some value))
  | _, _ => .error (.unknownOption argument)

/-- What one argument says while options may still come. A single dash is a file name. -/
def classify (argument : Text) : Except Misuse Argument :=
  match argument with
  | ['-', '-'] => .ok .optionsEnd
  | '-' :: '-' :: long =>
    match long.span fun c => c != '=' with
    | (name, []) => longOption argument name none
    | (name, _ :: value) => longOption argument name (some value)
  | '-' :: letter :: rest => shortOption argument letter rest
  | name => .ok (.file name)

/-- Whether an argument cannot be the value of the option before it. -/
def isOptionLike : Text → Bool
  | '-' :: _ :: _ => true
  | _ => false

/-- A number as an option takes it: digits, after a plus sign or none, up to the greatest number of
64 bits. -/
def parseLimit? (value : Text) : Option Nat :=
  let digits := if value.head? = some '+' then value.tail else value
  if digits ≠ [] ∧ digits.all Char.isDigit then
    let n := digits.foldl (fun n c => n * 10 + (c.toNat - '0'.toNat)) 0
    if n < Nat.pow 2 64 then some n else none
  else none

/-! ### All arguments -/

/-- What the arguments said so far. -/
structure Draft where
  /-- The file. -/
  file : Option Text := none
  /-- The file for the output. -/
  output : Option Text := none
  /-- The limit on includes. -/
  includeLimit : Option Nat := none
  /-- The limit on calls. -/
  expansionLimit : Option Nat := none
  /-- The flags. -/
  flags : List Flag := []
  deriving DecidableEq, Repr

namespace Draft

/-- Takes in the file. -/
def setFile (d : Draft) (name : Text) : Except Misuse Draft :=
  if d.file.isSome then .error (.repeated name)
  else if name = [] then .error (.badValue "FILE".toList name)
  else .ok { d with file := some name }

/-- Takes in a flag. -/
def setFlag (d : Draft) (flag : Flag) : Except Misuse Draft :=
  if d.flags.contains flag then .error (.repeated flag.name)
  else .ok { d with flags := flag :: d.flags }

/-- Takes in an option with its value. -/
def set (d : Draft) (option : Setting) (value : Text) : Except Misuse Draft :=
  let bad : Except Misuse Draft := .error (.badValue option.name value)
  let again : Except Misuse Draft := .error (.repeated option.name)
  match option with
  | .output =>
    if d.output.isSome then again
    else if value = [] then bad
    else .ok { d with output := some value }
  | .includeLimit =>
    if d.includeLimit.isSome then again
    else
      match parseLimit? value with
      | some n => .ok { d with includeLimit := some n }
      | none => bad
  | .expansionLimit =>
    if d.expansionLimit.isSome then again
    else
      match parseLimit? value with
      | some n => .ok { d with expansionLimit := some n }
      | none => bad

/-- The request that all arguments together make. -/
def finish (d : Draft) : Except Misuse Instruction :=
  let lexemes := d.flags.contains .lexemes
  let steps := d.flags.contains .steps
  if lexemes && steps then .error .conflictingViews
  else
    let standard : Settings := {}
    .ok (.work
      { file := d.file.map Path.mk
        output := d.output.map Path.mk
        settings :=
          { includeLimit := d.includeLimit.getD standard.includeLimit
            expansionLimit := d.expansionLimit.getD standard.expansionLimit
            redefinition :=
              if d.flags.contains .allowRedefinition then .replace else standard.redefinition }
        view := if lexemes then .lexemes else if steps then .steps else .expanded })

end Draft

/-- Takes in the arguments after the end of the options, which are all files. -/
def parseFiles (d : Draft) : List Text → Except Misuse Instruction
  | [] => d.finish
  | name :: rest =>
    match d.setFile name with
    | .error e => .error e
    | .ok d => parseFiles d rest

/-- Takes in the arguments one after the other. -/
def parseFrom (d : Draft) : List Text → Except Misuse Instruction
  | [] => d.finish
  | argument :: rest =>
    match classify argument with
    | .error e => .error e
    | .ok .version => .ok .version
    | .ok .help => .ok .help
    | .ok .optionsEnd => parseFiles d rest
    | .ok (.file name) =>
      match d.setFile name with
      | .error e => .error e
      | .ok d => parseFrom d rest
    | .ok (.flag flag) =>
      match d.setFlag flag with
      | .error e => .error e
      | .ok d => parseFrom d rest
    | .ok (.setting option (some value)) =>
      match d.set option value with
      | .error e => .error e
      | .ok d => parseFrom d rest
    | .ok (.setting option none) =>
      match rest with
      | [] => .error (.missingValue option.name)
      | value :: rest =>
        if isOptionLike value then .error (.missingValue option.name)
        else
          match d.set option value with
          | .error e => .error e
          | .ok d => parseFrom d rest

/-- What the arguments of the program ask for. -/
def parse (arguments : List Text) : Except Misuse Instruction :=
  parseFrom {} arguments

end Command

end TextExpander
