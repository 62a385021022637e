import RowQuery.CommandLine

/-!
The arguments of the command line. An option that takes a value has it in the next argument, if that
does not look like an option, or in the same one: after `=` if the option has a long name, at once
if it has a short one.
-/

namespace RowQuery.CommandLine

/-- An option that takes a value. -/
inductive Setting where
  | select
  | groupBy
  | limit
deriving DecidableEq, Repr

/-- An option that takes none. -/
inductive Flag where
  | json
  | strict
  | rejectNonNumeric
deriving DecidableEq, Repr

/-- Why arguments are refused. -/
inductive Misuse where
  | unknownOption (argument : String)
  | missingValue (argument : String)
  | unexpectedValue (argument : String)
  | repeated (argument : String)
  | secondFile (argument : String)
  | badLimit (value : String)
  | noSelectList
deriving DecidableEq, Repr

/-- The message for refused arguments. -/
def Misuse.message : Misuse → String
  | .unknownOption argument => "unexpected argument '" ++ argument ++ "'"
  | .missingValue argument => "a value is required for '" ++ argument ++ "'"
  | .unexpectedValue argument => "'" ++ argument ++ "' takes no value"
  | .repeated argument => "'" ++ argument ++ "' cannot be used multiple times"
  | .secondFile argument => "unexpected argument '" ++ argument ++ "'"
  | .badLimit value => "invalid value '" ++ value ++ "' for '--limit'"
  | .noSelectList => "the option '--select' is required"

/-- The settings by long name. -/
def longSettings : List (String × Setting) :=
  [("select", .select), ("group-by", .groupBy), ("limit", .limit)]

/-- The flags by long name. -/
def longFlags : List (String × Flag) :=
  [("json", .json), ("strict", .strict), ("reject-non-numeric", .rejectNonNumeric)]

/-- The settings by short name. -/
def shortSettings : List (Char × Setting) :=
  [('s', .select), ('g', .groupBy), ('l', .limit)]

/-- The flags by short name. -/
def shortFlags : List (Char × Flag) :=
  [('j', .json)]

/-- What arguments have said so far. -/
structure Arguments where
  settings : List (Setting × String)
  flags : List Flag
  file : Option String
deriving DecidableEq, Repr

namespace Arguments

/-- Nothing said yet. -/
def empty : Arguments := ⟨[], [], none⟩

/-- The value of a setting. -/
def value? (arguments : Arguments) (setting : Setting) : Option String :=
  arguments.settings.lookup setting

/-- Gives a setting its value; each has one at most. -/
def addSetting (argument : String) (setting : Setting) (value : String) (arguments : Arguments) :
    Except Misuse Arguments :=
  if (arguments.value? setting).isSome then .error (.repeated argument)
  else .ok { arguments with settings := (setting, value) :: arguments.settings }

/-- Raises a flag, once at most. -/
def addFlag (argument : String) (flag : Flag) (arguments : Arguments) :
    Except Misuse Arguments :=
  if arguments.flags.contains flag then .error (.repeated argument)
  else .ok { arguments with flags := flag :: arguments.flags }

/-- Names the file, of which there is one at most. -/
def addFile (file : String) (arguments : Arguments) : Except Misuse Arguments :=
  if arguments.file.isSome then .error (.secondFile file)
  else .ok { arguments with file := some file }

/-- What is done with an argument: it is complete, or it waits for the next one. -/
inductive Step where
  | complete (arguments : Arguments)
  | awaits (argument : String) (setting : Setting) (arguments : Arguments)

/-- Reads the short options of an argument, after its dash. -/
def shortOptions (argument : String) : List Char → Arguments → Except Misuse Step
  | [], arguments => .ok (.complete arguments)
  | c :: rest, arguments =>
    match shortFlags.lookup c, shortSettings.lookup c, rest with
    | some flag, _, _ => do shortOptions argument rest (← arguments.addFlag argument flag)
    | none, some setting, [] => .ok (.awaits argument setting arguments)
    | none, some setting, '=' :: value | none, some setting, value =>
      (arguments.addSetting argument setting (String.ofList value)).map .complete
    | none, none, _ => .error (.unknownOption argument)

/-- Reads a long option, after its dashes. -/
def longOption (argument : String) (chars : List Char) (arguments : Arguments) :
    Except Misuse Step :=
  let name := String.ofList (chars.takeWhile (· != '='))
  match longFlags.lookup name, longSettings.lookup name, chars.dropWhile (· != '=') with
  | some flag, _, [] => (arguments.addFlag argument flag).map .complete
  | some _, _, _ :: _ => .error (.unexpectedValue argument)
  | none, some setting, [] => .ok (.awaits argument setting arguments)
  | none, some setting, _ :: value =>
    (arguments.addSetting argument setting (String.ofList value)).map .complete
  | none, none, _ => .error (.unknownOption argument)

/-- Reads one argument. -/
def step (argument : String) (arguments : Arguments) : Except Misuse Step :=
  match argument.toList with
  | '-' :: '-' :: chars => longOption argument chars arguments
  | '-' :: c :: chars => shortOptions argument (c :: chars) arguments
  | _ => (arguments.addFile argument).map .complete

/-- Whether an argument looks like an option; a dash alone does not. -/
def isOption (argument : String) : Bool :=
  argument.toList.head? = some '-' && argument ≠ "-"

/-- Reads arguments in order; after `--` all of them are files. -/
def read : List String → Arguments → Except Misuse Arguments
  | [], arguments => .ok arguments
  | "--" :: rest, arguments => rest.foldlM (fun arguments file => arguments.addFile file) arguments
  | argument :: rest, arguments => do
    match ← step argument arguments, rest with
    | .complete arguments, rest => read rest arguments
    | .awaits argument _ _, [] => .error (.missingValue argument)
    | .awaits argument setting arguments, value :: rest =>
      if isOption value then .error (.missingValue argument)
      else read rest (← arguments.addSetting argument setting value)
termination_by words => words.length

/-- The limit asked for; 40 unless one is given. -/
def limit (arguments : Arguments) : Except Misuse Nat :=
  match arguments.value? .limit with
  | none => .ok 40
  | some value =>
    let digits := value.toList
    let digits := if digits.head? = some '+' then digits.tail else digits
    if digits.isEmpty || !digits.all Char.isDigit then .error (.badLimit value)
    else
      let number := Numeral.digitsValue 0 digits
      if number < UInt64.size then .ok number else .error (.badLimit value)

/-- The request that arguments make. -/
def request (arguments : Arguments) : Except Misuse Request := do
  let limit ← arguments.limit
  match arguments.value? .select with
  | none => .error .noSelectList
  | some select =>
    return {
      select
      groupBy := arguments.value? .groupBy
      file := arguments.file
      limit
      json := arguments.flags.contains .json
      strict := arguments.flags.contains .strict
      rejectNonNumeric := arguments.flags.contains .rejectNonNumeric }

end Arguments

/-- The request that the words of a command line make. -/
def Request.ofWords (words : List String) : Except Misuse Request :=
  (Arguments.read words .empty).bind Arguments.request

end RowQuery.CommandLine
