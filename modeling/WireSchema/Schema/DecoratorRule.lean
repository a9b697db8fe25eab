import WireSchema.Schema.Basic

/-! # Where decorators may stand

There are four decorators. Each has its targets and takes one argument of a certain form:
`@command_id` gives a model its command id, `@value` gives an enum member its value, `@size` gives a
text or a byte string a fixed number of bytes, and `@length_prefix` puts the length of a field in
front of it. -/

namespace WireSchema

/-- What a list of decorators stands before. -/
inductive Target where
  | nameSpace
  | enum
  | enumMember
  | model
  | field (type : TypeRef)
  deriving DecidableEq

/-- A target as it is named in messages. -/
def Target.describe : Target → String
  | .nameSpace => "a namespace"
  | .enum => "an enum"
  | .enumMember => "an enum member"
  | .model => "a model"
  | .field type => "a field of type " ++ type.name

/-- The decorators that have a meaning. -/
inductive KnownDecorator where
  | commandId
  | size
  | lengthPrefix
  | value
  deriving DecidableEq

/-- Why a decorator cannot stand where it does. -/
inductive DecoratorFault where
  | unknown (name : String)
  | duplicate (name : String)
  | misplaced (name : String) (target : Target)
  | argumentCount (name : String) (found : Nat)
  | notByte (name : String)
  | notPositive (name : String)
  | sizeWithPrefix
  | notLengthPrefix (name : String)
  deriving DecidableEq

/-- The text of a decorator fault. -/
def DecoratorFault.message : DecoratorFault → String
  | .unknown name => s!"Unknown decorator @{name}"
  | .duplicate name => s!"Duplicate decorator @{name}"
  | .misplaced name target => s!"Decorator @{name} cannot be applied to " ++ target.describe
  | .argumentCount name found => s!"Decorator @{name} expects 1 argument but found {found}"
  | .notByte name => s!"Decorator @{name} expects an integer from 0 to 255"
  | .notPositive name => s!"Decorator @{name} expects a positive integer"
  | .sizeWithPrefix => "Decorators @size and @length_prefix cannot be combined"
  | .notLengthPrefix name => s!"Decorator @{name} expects one of uint8, uint16, uint32, uint64"

namespace KnownDecorator

/-- The known decorators. -/
def all : List KnownDecorator := [.commandId, .size, .lengthPrefix, .value]

/-- The name of a decorator, without its mark. -/
def name : KnownDecorator → String
  | .commandId => "command_id"
  | .size => "size"
  | .lengthPrefix => "length_prefix"
  | .value => "value"

/-- The decorator with a given name. -/
def ofName? (name : String) : Option KnownDecorator := all.find? (·.name == name)

/-- The kind of target that a decorator belongs to. -/
def fits : KnownDecorator → Target → Bool
  | .commandId, .model => true
  | .value, .enumMember => true
  | .size, .field _ => true
  | .lengthPrefix, .field _ => true
  | _, _ => false

/-- Whether an argument is a whole number from 0 to 255. -/
def isByte (arg : Argument) : Bool :=
  match arg.integer? with
  | some n => n ≤ 255
  | none => false

/-- Whether an argument is a whole number from 1 on. -/
def isPositive (arg : Argument) : Bool :=
  match arg.integer? with
  | some n => 1 ≤ n
  | none => false

/-- Whether an argument names a type that can serve as a length prefix. -/
def namesLengthPrefix (arg : Argument) : Bool :=
  match arg.text?.bind Primitive.ofName? with
  | some p => p.isLengthPrefix
  | none => false

/-- Whether a field of this type can have a fixed number of bytes. -/
def takesSize : Target → Bool
  | .field (.primitive .string) | .field (.primitive .bytes) => true
  | _ => false

/-- Whether a field of this type can have its length in front. -/
def takesPrefix : Target → Bool
  | .field (.primitive p) => !p.isScalar
  | _ => true

/-- What is wrong with the argument of a decorator in the list `all` before `target`. -/
def argumentFault? (all : List Decorator) (target : Target) (arg : Argument) :
    KnownDecorator → Option DecoratorFault
  | .commandId => if isByte arg then none else some (.notByte "command_id")
  | .value => if isByte arg then none else some (.notByte "value")
  | .size =>
    if !isPositive arg then some (.notPositive "size")
    else if !takesSize target then some (.misplaced "size" target)
    else if (Decorator.find? all "length_prefix").isSome then some .sizeWithPrefix
    else none
  | .lengthPrefix =>
    if !namesLengthPrefix arg then some (.notLengthPrefix "length_prefix")
    else if !takesPrefix target then some (.misplaced "length_prefix" target)
    else none

end KnownDecorator

namespace Decorator

/-- What is wrong with a decorator that stands behind `before` in the list `all`. -/
def fault? (all before : List Decorator) (target : Target) (d : Decorator) :
    Option DecoratorFault :=
  match KnownDecorator.ofName? d.name with
  | none => some (.unknown d.name)
  | some known =>
    if before.any (·.name == d.name) then some (.duplicate d.name)
    else if !known.fits target then some (.misplaced d.name target)
    else
      match d.args with
      | [arg] => known.argumentFault? all target arg
      | args => some (.argumentCount d.name args.length)

/-- The first fault among the decorators that stand behind `before`. -/
def firstFault? (all : List Decorator) (target : Target) (before : List Decorator) :
    List Decorator → Option (Position × DecoratorFault)
  | [] => none
  | d :: ds =>
    match fault? all before target d with
    | some fault => some (d.position, fault)
    | none => firstFault? all target (before ++ [d]) ds

/-- The first decorator of a list that cannot stand before `target`, with its fault. -/
def check (decorators : List Decorator) (target : Target) : Option (Position × DecoratorFault) :=
  firstFault? decorators target [] decorators

end Decorator

end WireSchema
