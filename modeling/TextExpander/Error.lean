import TextExpander.Location

/-!
# Errors

What can go wrong, as causes. Most causes belong to a place in the document and are reported with
its location; a document that cannot be read and an output that cannot be written are not. The
wording is in the `message` functions and nowhere else.

## Main definitions

* `FileFault`, `WriteFault`: why a file or an output refused.
* `Fault`: what is wrong at a place in the document.
* `Error`: why a run ends early.
* `Error.message`: the wording.
-/

namespace TextExpander

/-! ### Files and outputs -/

/-- Why a file cannot be read or created. -/
inductive FileFault where
  /-- A collection of files in memory has no such file. -/
  | absent
  /-- There is no file of the name, or a directory on the way to it is missing. -/
  | notFound
  /-- The name is that of a directory. -/
  | isDirectory
  /-- Something on the way to the file is not a directory. -/
  | notDirectory
  /-- A name on the way to the file, or the whole path, has more bytes than the system allows. -/
  | nameTooLong
  /-- The path holds the character that ends every path, so no file can have it. -/
  | nullInPath
  /-- The device of the name is not there. -/
  | noDevice
  /-- The file is a program that runs, so it cannot be written. -/
  | busy
  /-- Reading the file never comes to an end. -/
  | endless
  /-- The bytes of the file are not text. -/
  | notText
  /-- The file has not been fetched yet, so nothing is known about it. -/
  | notFetched
  /-- Any other reason, in the words of the system. -/
  | system (description : Text)
  deriving DecidableEq, Repr

/-- The wording of a reason why a file refuses. -/
def FileFault.message : FileFault → Text
  | absent => "no such file".toList
  | notFound => "No such file or directory (os error 2)".toList
  | isDirectory => "Is a directory (os error 21)".toList
  | notDirectory => "Not a directory (os error 20)".toList
  | nameTooLong => "File name too long (os error 36)".toList
  | nullInPath => "file name contained an unexpected NUL byte".toList
  | noDevice => "No such device or address (os error 6)".toList
  | busy => "Text file busy (os error 26)".toList
  | endless => "file without end".toList
  | notText => "stream did not contain valid UTF-8".toList
  | notFetched => "file not fetched".toList
  | system description => description

/-- Why an output does not take what is written. -/
inductive WriteFault where
  /-- There is no room for another byte. -/
  | full
  /-- What was written could not be handed on. -/
  | flushFailed
  /-- The device that the output goes to has no room. -/
  | noSpace
  /-- Any other reason, in the words of the system. -/
  | system (description : Text)
  deriving DecidableEq, Repr

/-- The wording of a reason why an output refuses. -/
def WriteFault.message : WriteFault → Text
  | full => "sink full".toList
  | flushFailed => "flush failed".toList
  | noSpace => "No space left on device (os error 28)".toList
  | system description => description

/-! ### Faults of a document -/

/-- What a parenthesis that is never closed belongs to. -/
inductive Parenthesized where
  /-- The parameter list in the definition of a name. -/
  | parameters (name : Text)
  /-- The arguments of a call. -/
  | call (name : Text)
  deriving DecidableEq, Repr

/-- The wording for what is parenthesized. -/
def Parenthesized.message : Parenthesized → Text
  | parameters name => "parameter list of macro '".toList ++ name ++ "'".toList
  | call name => "call to macro '".toList ++ name ++ "'".toList

/-- What is wrong with the header of a definition. -/
inductive Malformed where
  /-- There is no name after `define`. -/
  | missingName
  /-- There is no parenthesis after the name. -/
  | missingParameters (name : Text)
  /-- The name is a keyword, or that of a built-in. -/
  | reserved (name : Text)
  /-- A parameter is not an identifier. -/
  | badParameter (parameter : Text)
  /-- Two parameters have one name. -/
  | repeatedParameter (parameter : Text)
  deriving DecidableEq, Repr

/-- The wording for what is wrong with a header. -/
def Malformed.message : Malformed → Text
  | missingName => "expected a macro name after 'define'".toList
  | missingParameters name => "expected '(' after macro name '".toList ++ name ++ "'".toList
  | reserved name => "'".toList ++ name ++ "' is reserved and cannot name a macro".toList
  | badParameter parameter =>
    "'".toList ++ parameter ++ "' is not a valid parameter name".toList
  | repeatedParameter parameter =>
    "parameter '".toList ++ parameter ++ "' is listed more than once".toList

/-- A directive that must not stand in the body of a definition. -/
inductive Nested where
  /-- A line that includes a file. -/
  | inclusion
  /-- A line that begins a definition. -/
  | definition
  deriving DecidableEq, Repr

/-- The keyword of a nested directive. -/
def Nested.keyword : Nested → Text
  | inclusion => "include".toList
  | definition => "define".toList

/-- What is wrong at a place in the document. -/
inductive Fault where
  /-- A parenthesis is never closed. -/
  | unbalanced (what : Parenthesized)
  /-- An included file cannot be read. -/
  | includeNotFound (path : Path) (reason : FileFault)
  /-- Including a file would nest deeper than the limit. -/
  | includeTooDeep (path : Path) (limit : Nat)
  /-- The header of a definition is malformed. -/
  | malformedHeader (reason : Malformed)
  /-- A definition has no end in its file. -/
  | unterminated (name : Text)
  /-- A directive stands in the body of a definition. -/
  | illegalNested (construct : Nested) (name : Text)
  /-- A call has the wrong number of arguments. -/
  | arityMismatch (name : Text) (expected found : Nat)
  /-- Expanding a call would nest deeper than the limit. -/
  | expansionTooDeep (name : Text) (limit : Nat)
  /-- A name is defined twice. -/
  | redefinition (name : Text) (previous : Location)
  /-- An `endmacro` stands outside a definition. -/
  | unmatchedEnd
  deriving DecidableEq, Repr

/-- The wording of a fault, without its location. -/
def Fault.message : Fault → Text
  | unbalanced what => "unbalanced parenthesis in ".toList ++ what.message
  | includeNotFound path reason =>
    "cannot include \"".toList ++ path.text ++ "\": ".toList ++ reason.message
  | includeTooDeep path limit =>
    "including \"".toList ++ path.text ++ "\" exceeds the maximum include depth of ".toList ++
      Text.decimal limit
  | malformedHeader reason => "malformed macro definition: ".toList ++ reason.message
  | unterminated name =>
    "definition of macro '".toList ++ name ++ "' has no matching 'endmacro'".toList
  | illegalNested construct name =>
    "'".toList ++ construct.keyword ++ "' is not allowed inside the definition of macro '".toList ++
      name ++ "'".toList
  | arityMismatch name expected found =>
    "macro '".toList ++ name ++ "' expects ".toList ++ Text.decimal expected ++
      " argument(s), found ".toList ++ Text.decimal found
  | expansionTooDeep name limit =>
    "expanding macro '".toList ++ name ++ "' exceeds the maximum expansion depth of ".toList ++
      Text.decimal limit
  | redefinition name previous =>
    "macro '".toList ++ name ++ "' is already defined at ".toList ++ previous.render
  | unmatchedEnd => "'endmacro' without a matching 'define'".toList

/-! ### Errors of a run -/

/-- Why a run ends early. -/
inductive Error where
  /-- The document is faulty at a location. -/
  | fault (location : Location) (what : Fault)
  /-- The document cannot be read. -/
  | unreadable (path : Path) (reason : FileFault)
  /-- The output cannot be written. -/
  | output (reason : WriteFault)
  deriving DecidableEq, Repr

namespace Error

/-- Where the error is, if it is in the document. -/
def location? : Error → Option Location
  | .fault location _ => some location
  | .unreadable .. => none
  | .output _ => none

/-- The wording of an error. -/
def message : Error → Text
  | .fault location what => location.render ++ ": ".toList ++ what.message
  | .unreadable path reason =>
    "cannot read \"".toList ++ path.text ++ "\": ".toList ++ reason.message
  | .output reason => "cannot write output: ".toList ++ reason.message

/-- The wording of what caused an error outside the document: a file or an output that refused. -/
def cause? : Error → Option Text
  | .fault _ (.includeNotFound _ reason) => some reason.message
  | .fault _ _ => none
  | .unreadable _ reason => some reason.message
  | .output reason => some reason.message

end Error

end TextExpander
