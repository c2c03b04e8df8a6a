import SpriteStage.Script.Term

/-!
What may go wrong while a script runs, how it is told, and what a script that catches it is given.
-/

namespace SpriteStage.Script

inductive Fault where
  | thrown (value : Value)
  | overflow (op : BinaryOp) (left right : Int)
  | divisionByZero (dividend : Int)
  | remainder (dividend divisor : Int)
  | negativePower (base power : Int)
  /-- The least number has no opposite. -/
  | negation
  | magnitude (n : Int)
  | truncation (x : Float)
  | stepOfZero
  | signOfNaN
  | outsideList (size : Nat) (index : Int)
  | outsideText (size : Nat) (index : Int)
  | outsideBits (size : Nat) (index : Int)
  | mismatch (given expected : String)
  | notIterable
  | noProperty (name type : String)
  | readOnlyProperty (name type given : String)
  | noIndexer (type index : String)
  | noIndexSetter (type index given : String)
  | unknownVariable (name : String)
  | constant (name : String)
  | constantReceiver (method : String)
  | unboundThis
  /-- No function of this name takes arguments of these types. -/
  | unknownFunction (name : String) (types : List String)
  | unknownName (name : String)
  | reservedName (name : String)
  | reservedSymbol (symbol : String)
  | tooManyOperations
  | stackOverflow
  /-- A fault within a function that was called. -/
  | calling (function : String) (fault : Fault)

namespace Fault

def arithmetic : BinaryOp → String
  | .add => "Addition"
  | .sub => "Subtraction"
  | .mul => "Multiplication"
  | .div => "Division"
  | .pow => "Exponential"
  | _ => "Arithmetic"

def sizeText (noun : String) (plural : String) : Nat → String
  | 0 => s!"{noun} is empty"
  | 1 => s!"only 1 {plural} in {noun}"
  | n => s!"only {n} {plural}s in {noun}"

def parameterType (value : Value) : String :=
  match value with
  | .text _ => "&str | ImmutableString | String"
  | _ => value.typeName

def noFunction (name : String) (arguments : List Value) : Fault :=
  .unknownFunction name (arguments.map parameterType)

/-- A value of a type that a script names in full where another type is expected. -/
def unexpected (value : Value) (expected : String) : Fault :=
  .mismatch value.fullTypeName expected

/-- A fault that a function reports in words of its own. -/
def text (message : String) : Fault := .thrown (.text message)

def signature (name : String) (types : List String) : String :=
  name ++ " (" ++ ", ".intercalate types ++ ")"

def subject : Fault → String
  | .noProperty name type =>
    s!"Unknown property '{name}' - a getter is not registered for type '{type}'"
  | .readOnlyProperty name type given =>
    s!"No writable property '{name}' - a setter is not registered for type '{type}' " ++
      s!"to handle '{given}'"
  | .noIndexer type index => s!"{type} [{index}]"
  | .noIndexSetter type index given => s!"{type} [{index}] = {given}"
  | .unknownFunction name types => signature name types
  | .unknownVariable name | .unknownName name | .constant name => name
  | _ => ""

def message : Fault → String
  | .thrown value =>
    if value.display = "" then "Runtime error" else "Runtime error: " ++ value.display
  | .overflow op left right => s!"{arithmetic op} overflow: {left} {op.symbol} {right}"
  | .divisionByZero dividend => s!"Division by zero: {dividend} / 0"
  | .remainder dividend divisor =>
    s!"Modulo division by zero or overflow: {dividend} % {divisor}"
  | .negativePower base power => s!"Integer raised to a negative power: {base} ** {power}"
  | .negation => "integer overflow"
  | .magnitude n => s!"Negation overflow: -{n}"
  | .truncation x => s!"Integer overflow: to_int({NumberStyle.message.write x})"
  | .stepOfZero => "step value cannot be zero"
  | .signOfNaN => "Sign of NaN is undefined"
  | .outsideList size index =>
    s!"Array index {index} out of bounds: " ++ sizeText "array" "element" size
  | .outsideText size index =>
    s!"String index {index} out of bounds: " ++ sizeText "string" "character" size
  | .outsideBits size index =>
    s!"Bit-field index {index} out of bounds: " ++ sizeText "bit-field" "bit" size
  | .mismatch given expected => s!"Data type incorrect: {given} (expecting {expected})"
  | .notIterable => "For loop expects iterable type"
  | .noIndexer type index => "Indexer unavailable: " ++ subject (.noIndexer type index)
  | .noIndexSetter type index given =>
    "Indexer unavailable: " ++ subject (.noIndexSetter type index given)
  | .unknownVariable name => s!"Variable not found: {name}"
  | .constant name => s!"Cannot modify constant: {name}"
  | .constantReceiver method => s!"Non-pure method '{method}' cannot be called on constant"
  | .unboundThis => "'this' not bound"
  | .unknownFunction name types => "Function not found: " ++ signature name types
  | .unknownName name => s!"Function not found: {name}"
  | .reservedName name => s!"Syntax error: '{name}' is a reserved keyword"
  | .reservedSymbol symbol => s!"Syntax error: '{symbol}' is a reserved symbol"
  | .tooManyOperations => "Too many operations"
  | .stackOverflow => "Stack overflow"
  | .calling function fault => fault.message ++ s!"\nin call to function '{function}'"
  | fault => fault.subject

/-- Faults of the run as a whole, which no script can catch and which no call adds to. -/
def isFinal : Fault → Bool
  | .reservedName _ | .reservedSymbol _ | .tooManyOperations | .stackOverflow => true
  | _ => false

def leaving (function : String) (fault : Fault) : Fault :=
  if fault.isFinal then fault else .calling function fault

/-- The value of a thrown fault, through all calls. -/
def thrown? : Fault → Option Value
  | .thrown value => some value
  | .calling _ fault => fault.thrown?
  | _ => none

def kind : Fault → String
  | .thrown _ => "ErrorRuntime"
  | .overflow .. | .divisionByZero _ | .remainder .. | .negativePower .. | .negation | .magnitude _
  | .truncation _ | .stepOfZero | .signOfNaN => "ErrorArithmetic"
  | .outsideList .. => "ErrorArrayBounds"
  | .outsideText .. => "ErrorStringBounds"
  | .outsideBits .. => "ErrorBitFieldBounds"
  | .mismatch .. => "ErrorMismatchDataType"
  | .notIterable => "ErrorFor"
  | .noProperty .. | .readOnlyProperty .. => "ErrorDotExpr"
  | .noIndexer .. | .noIndexSetter .. => "ErrorIndexingType"
  | .unknownVariable _ => "ErrorVariableNotFound"
  | .constant _ => "ErrorAssignmentToConstant"
  | .constantReceiver _ => "ErrorNonPureMethodCallOnConstant"
  | .unboundThis => "ErrorUnboundThis"
  | .unknownFunction .. | .unknownName _ => "ErrorFunctionNotFound"
  | .reservedName _ | .reservedSymbol _ => "ErrorParsing"
  | .tooManyOperations => "ErrorTooManyOperations"
  | .stackOverflow => "ErrorStackOverflow"
  | .calling .. => "ErrorInFunctionCall"

/-- What else a script that catches a fault is told about it. -/
def particulars : Fault → List (String × Value)
  | .outsideList size index | .outsideText size index | .outsideBits size index =>
    [("length", .int size), ("index", .int index)]
  | .mismatch given expected => [("requested", .text expected), ("actual", .text given)]
  | .calling function _ => [("function", .text function), ("source", .text "")]
  | .noProperty name type => [("property", .text (subject (.noProperty name type)))]
  | .readOnlyProperty name type given =>
    [("property", .text (subject (.readOnlyProperty name type given)))]
  | .noIndexer type index => [("type", .text (subject (.noIndexer type index)))]
  | .noIndexSetter type index given =>
    [("type", .text (subject (.noIndexSetter type index given)))]
  | .unknownVariable name | .constant name => [("variable", .text name)]
  | .unknownFunction name types => [("function", .text (signature name types))]
  | .unknownName name => [("function", .text name)]
  | _ => []

/-- What a script that catches a fault is given: the value that was thrown, or else a map of what is
known about the fault. -/
def caught (fault : Fault) : Value :=
  match fault.thrown? with
  | some value => value
  | none =>
    .map (Fields.ofList
      (("error", .text fault.kind) :: ("message", .text fault.message) :: fault.particulars))

theorem leaving_of_isFinal {fault : Fault} (h : fault.isFinal = true) (function : String) :
    fault.leaving function = fault := by
  simp [leaving, h]

end Fault

end SpriteStage.Script
