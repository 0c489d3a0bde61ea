namespace Console6502.CommandLine

structure Given where
  rom : Option String := none
  seed : Option UInt64 := none
  limit : Option UInt64 := none
  overflow : Bool := false
  deriving DecidableEq

structure Options where
  rom : Option String
  seed : UInt64
  limit : UInt64
  overflow : Bool
  deriving DecidableEq

def Given.options (given : Given) : Options :=
  ⟨given.rom,given.seed.getD 0x6502,given.limit.getD 1000000,given.overflow⟩

inductive Request where
  | version
  | help
  | run (options : Options)
  deriving DecidableEq

inductive UsageError where
  | unexpected (argument : String)
  | missingValue (option : String)
  | invalidValue (option value : String)
  | repeated (option : String)
  | valueNotTaken (option : String)
  deriving DecidableEq

def UsageError.message : UsageError → String
  | .unexpected argument => "unexpected argument '" ++ argument ++ "' found"
  | .missingValue option => "a value is required for '" ++ option ++ "' but none was supplied"
  | .invalidValue option value => "invalid value '" ++ value ++ "' for '" ++ option ++ "'"
  | .repeated option => "the argument '" ++ option ++ "' cannot be used multiple times"
  | .valueNotTaken option => "the argument '" ++ option ++ "' takes no value"

def readUnsigned (text : String) : Option UInt64 :=
  let digits :=
    match text.toList with
    | '+' :: rest => rest
    | all => all
  if digits.isEmpty || !digits.all Char.isDigit then none
  else
    let value : Nat := digits.foldl (fun n digit => 10 * n + (digit.toNat - '0'.toNat)) 0
    if value < UInt64.size then some (UInt64.ofNat value) else none

inductive NumericOption where
  | seed
  | limit
  deriving DecidableEq

def NumericOption.spelling : NumericOption → String
  | .seed => "--seed <SEED>"
  | .limit => "--max-steps <MAX_STEPS>"

def NumericOption.given : NumericOption → Given → Option UInt64
  | .seed,given => given.seed
  | .limit,given => given.limit

def Given.put (given : Given) (option : NumericOption) (text : String) : Except UsageError Given :=
  match readUnsigned text with
  | none => .error (.invalidValue option.spelling text)
  | some value =>
    if (option.given given).isSome then .error (.repeated option.spelling)
    else
      match option with
      | .seed => .ok { given with seed := some value }
      | .limit => .ok { given with limit := some value }

def Given.putRom (given : Given) (path : String) : Except UsageError Given :=
  if path.isEmpty then .error (.missingValue "[ROM]")
  else if given.rom.isSome then .error (.unexpected path)
  else .ok { given with rom := some path }

inductive Meaning where
  | version
  | help
  | overflow
  | valued (option : NumericOption) (attached : Option String)
  | positional
  | wrong (error : UsageError)
  deriving DecidableEq

def Meaning.ofLong (name : String) (attached : Option String) : Meaning :=
  match name,attached with
  | "seed",value => .valued .seed value
  | "max-steps",value => .valued .limit value
  | "overflow",none => .overflow
  | "version",none => .version
  | "help",none => .help
  | "overflow",some _ => .wrong (.valueNotTaken "--overflow")
  | "version",some _ => .wrong (.valueNotTaken "--version")
  | "help",some _ => .wrong (.valueNotTaken "--help")
  | name,_ => .wrong (.unexpected ("--" ++ name))

-- The options without a value answer at once, so what follows their letter is not read.
def Meaning.ofShort (letter : Char) (rest : List Char) : Meaning :=
  let attached :=
    match rest with
    | [] => none
    | '=' :: value => some (String.ofList value)
    | value => some (String.ofList value)
  match letter with
  | 's' => .valued .seed attached
  | 'm' => .valued .limit attached
  | 'V' => .version
  | 'h' => .help
  | letter => .wrong (.unexpected (String.ofList ['-',letter]))

def Meaning.ofArgument (argument : String) : Meaning :=
  match argument.toList with
  | '-' :: '-' :: rest =>
    let name := rest.takeWhile (· != '=')
    match rest.dropWhile (· != '=') with
    | [] => .ofLong (String.ofList name) none
    | _ :: value => .ofLong (String.ofList name) (some (String.ofList value))
  | '-' :: letter :: rest => .ofShort letter rest
  | _ => .positional

def readPositional (given : Given) : List String → Except UsageError Request
  | [] => .ok (.run given.options)
  | path :: rest =>
    match given.putRom path with
    | .error error => .error error
    | .ok given => readPositional given rest

-- The first answer or error wins. A value that stands apart from its option must not look like
-- an option.
def readArguments (given : Given) : List String → Except UsageError Request
  | [] => .ok (.run given.options)
  | "--" :: rest => readPositional given rest
  | argument :: rest =>
    match Meaning.ofArgument argument with
    | .version => .ok .version
    | .help => .ok .help
    | .wrong error => .error error
    | .overflow =>
      if given.overflow then .error (.repeated "--overflow")
      else readArguments { given with overflow := true } rest
    | .positional =>
      match given.putRom argument with
      | .error error => .error error
      | .ok given => readArguments given rest
    | .valued option (some value) =>
      match given.put option value with
      | .error error => .error error
      | .ok given => readArguments given rest
    | .valued option none =>
      match rest with
      | [] => .error (.missingValue option.spelling)
      | value :: rest =>
        match Meaning.ofArgument value with
        | .positional =>
          match given.put option value with
          | .error error => .error error
          | .ok given => readArguments given rest
        | _ => .error (.missingValue option.spelling)

def Request.ofArguments (arguments : List String) : Except UsageError Request :=
  readArguments {} arguments

def Request.rom : Request → Option String
  | .run options => options.rom
  | .version | .help => none

end Console6502.CommandLine
