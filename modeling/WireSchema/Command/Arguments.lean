import WireSchema.Emit.Basic

/-! # Arguments

The arguments of the program name one of three commands and give its options. They are read from
left to right; the first mistake or request for help decides. -/

namespace WireSchema.Command

/-- The options of `generate`. -/
structure GenerateOptions where
  input : Option String
  output : Option String
  languages : List Language
  protocolVersion : Option String
  config : Option String
  deriving DecidableEq

/-- No option is given. -/
def GenerateOptions.empty : GenerateOptions := ⟨none, none, [], none, none⟩

/-- The commands. -/
inductive Action where
  | generate (options : GenerateOptions)
  | parse (path : String)
  | check (path : String)
  deriving DecidableEq

/-- The names of the commands. -/
inductive ActionName where
  | generate
  | parse
  | check
  deriving DecidableEq

/-- Reads the name of a command. -/
def ActionName.ofText? (text : String) : Option ActionName :=
  if text = "generate" then some .generate
  else if text = "parse" then some .parse
  else if text = "check" then some .check
  else none

/-- What the arguments ask for. -/
inductive Request where
  | run (action : Action)
  | version
  | help (topic : Option ActionName)
  | helpOnHelp
  deriving DecidableEq

/-! ### The parts of the arguments -/

/-- Options without a value. -/
inductive Flag where
  | verbose
  | help
  | version
  deriving DecidableEq

/-- Options with a value. -/
inductive Parameter where
  | input
  | output
  | languages
  | protocolVersion
  | config
  deriving DecidableEq

/-- An option. -/
inductive Switch where
  | flag (f : Flag)
  | parameter (p : Parameter)
  deriving DecidableEq

/-- The options that are known at some place: their long names, and the letters of those that have
one. -/
structure Vocabulary where
  long : List (String × Switch)
  short : List (Char × Switch)

/-- The options before the command. -/
def Vocabulary.top : Vocabulary where
  long := [("verbose", .flag .verbose), ("help", .flag .help), ("version", .flag .version)]
  short := [('v', .flag .verbose), ('h', .flag .help), ('V', .flag .version)]

/-- The options behind a command without parameters. -/
def Vocabulary.plain : Vocabulary where
  long := [("verbose", .flag .verbose), ("help", .flag .help)]
  short := [('v', .flag .verbose), ('h', .flag .help)]

/-- The options behind `generate`. -/
def Vocabulary.generate : Vocabulary where
  long := plain.long ++ [
    ("input", .parameter .input), ("output", .parameter .output),
    ("languages", .parameter .languages), ("protocol-version", .parameter .protocolVersion),
    ("config", .parameter .config)]
  short := plain.short ++ [
    ('i', .parameter .input), ('o', .parameter .output), ('l', .parameter .languages),
    ('c', .parameter .config)]

/-- A part of the arguments. -/
inductive Part where
  | flag (f : Flag)
  | parameter (p : Parameter) (value : String)
  /-- A parameter whose value is the next argument. -/
  | awaiting (p : Parameter)
  | operand (text : String)
  | mistake
  deriving DecidableEq

/-- An argument that is an option by its form. A single hyphen is none. -/
def isOption : List Char → Bool
  | '-' :: _ :: _ => true
  | _ => false

/-- The parts of a long option, behind its hyphens. -/
def longParts (v : Vocabulary) (cs : List Char) : List Part :=
  let name := String.ofList (cs.takeWhile (· != '='))
  match v.long.lookup name, cs.dropWhile (· != '=') with
  | none, _ => [.mistake]
  | some (.flag f), [] => [.flag f]
  | some (.flag _), _ :: _ => [.mistake]
  | some (.parameter p), [] => [.awaiting p]
  | some (.parameter p), _ :: value => [.parameter p (String.ofList value)]

/-- The parts of letters behind one hyphen: flags, and at the end perhaps a parameter, whose value
may follow with or without an equals sign. -/
def shortParts (v : Vocabulary) : List Char → List Part
  | [] => []
  | c :: cs =>
    match v.short.lookup c, cs with
    | none, _ => [.mistake]
    | some (.flag f), cs => .flag f :: shortParts v cs
    | some (.parameter p), [] => [.awaiting p]
    | some (.parameter p), '=' :: value => [.parameter p (String.ofList value)]
    | some (.parameter p), value => [.parameter p (String.ofList value)]

/-- The parts of one argument. -/
def partsOf (v : Vocabulary) (argument : String) : List Part :=
  match argument.toList with
  | '-' :: '-' :: cs => longParts v cs
  | '-' :: c :: cs => shortParts v (c :: cs)
  | _ => [.operand argument]

/-- The parts of all arguments. If a parameter waits for its value, that is the next argument,
unless it is an option. Behind `--` there are operands only. -/
def parts (v : Vocabulary) : Option Parameter → List String → List Part
  | none, [] => []
  | some _, [] => [.mistake]
  | some p, value :: rest =>
    if isOption value.toList then [.mistake] else .parameter p value :: parts v none rest
  | none, argument :: rest =>
    if argument = "--" then rest.map .operand
    else
      let own := partsOf v argument
      match own.getLast? with
      | some (.awaiting p) => own.dropLast ++ parts v (some p) rest
      | _ => own ++ parts v none rest

/-! ### Requests -/

/-- The languages between commas. -/
def languagesOf? (text : String) : Option (List Language) :=
  (text.splitOn ",").mapM fun name =>
    match Language.ofName name with
    | .ok language => some language
    | .error _ => none

/-- Sets something that may be set once. -/
def once? (old : Option String) (value : String) : Option (Option String) :=
  match old with
  | some _ => none
  | none => some (some value)

/-- Sets a path, which must not be empty. -/
def path? (old : Option String) (value : String) : Option (Option String) :=
  if value.isEmpty then none else once? old value

/-- Gives a value to a parameter. -/
def GenerateOptions.set? (o : GenerateOptions) (p : Parameter) (value : String) :
    Option GenerateOptions :=
  match p with
  | .input => (path? o.input value).map fun v => { o with input := v }
  | .output => (path? o.output value).map fun v => { o with output := v }
  | .config => (path? o.config value).map fun v => { o with config := v }
  | .protocolVersion => (once? o.protocolVersion value).map fun v => { o with protocolVersion := v }
  | .languages => (languagesOf? value).map fun ls => { o with languages := o.languages ++ ls }

/-- The request behind the word `generate`. -/
def generateRequest (o : GenerateOptions) (verbose : Bool) : List Part → Option Request
  | [] => some (.run (.generate o))
  | .flag .help :: _ => some (.help (some .generate))
  | .flag .verbose :: ps => if verbose then none else generateRequest o true ps
  | .parameter p value :: ps =>
    match o.set? p value with
    | none => none
    | some o => generateRequest o verbose ps
  | _ :: _ => none

/-- The request behind the name of a command that takes a path. -/
def pathRequest (name : ActionName) (action : String → Action) (path : Option String)
    (verbose : Bool) : List Part → Option Request
  | [] => path.map fun p => .run (action p)
  | .flag .help :: _ => some (.help (some name))
  | .flag .verbose :: ps => if verbose then none else pathRequest name action path true ps
  | .operand text :: ps =>
    match path? path text with
    | none => none
    | some path => pathRequest name action path verbose ps
  | _ :: _ => none

/-- The request behind the name of a command. -/
def actionRequest (name : ActionName) (arguments : List String) : Option Request :=
  match name with
  | .generate => generateRequest .empty false (parts .generate none arguments)
  | .parse => pathRequest name .parse none false (parts .plain none arguments)
  | .check => pathRequest name .check none false (parts .plain none arguments)

/-- The request behind the word `help`. -/
def helpRequest : List String → Option Request
  | [] => some (.help none)
  | [topic] =>
    if topic = "help" then some .helpOnHelp
    else (ActionName.ofText? topic).map fun name => .help (some name)
  | _ => none

/-- What the flags before a command lead to: a request that they ask for, or whether `verbose` is
among them. -/
def topFlags (verbose : Bool) : List Part → Option (Request ⊕ Bool)
  | [] => some (.inr verbose)
  | .flag .help :: _ => some (.inl (.help none))
  | .flag .version :: _ => some (.inl .version)
  | .flag .verbose :: ps => if verbose then none else topFlags true ps
  | _ :: _ => none

/-- The request of arguments of which some flags have been read. -/
def requestFrom (verbose : Bool) : List String → Option Request
  | [] => none
  | argument :: rest =>
    match ActionName.ofText? argument with
    | some name => actionRequest name rest
    | none =>
      if argument = "help" then helpRequest rest
      else if argument = "--" then none
      else
        match topFlags verbose (partsOf .top argument) with
        | none => none
        | some (.inl request) => some request
        | some (.inr verbose) => requestFrom verbose rest

/-- The request of the arguments, if they are in order. -/
def Request.ofArguments? (arguments : List String) : Option Request := requestFrom false arguments

end WireSchema.Command
