import SpriteStage.Script.Routine
import SpriteStage.Script.State

/-!
How a script runs, one small step after another. A step that asks the project something is a
dialogue; all others are done at once. A run is bounded by the number of operations it may take.
-/

namespace SpriteStage.Script

structure Setting where
  program : Program
  inProject : Bool
  maxOperations : Nat

/-- How deep calls may be nested. -/
def maxDepth : Nat := 4096

/-- What a step comes to: a further state, or the result of the run and the number of directives
that were built. -/
inductive Progress where
  | on (state : State)
  | over (result : Except Fault Value) (issued : Nat)

namespace State

def go (s : State) : Inquiry Progress := .done (.on s)

def stop (s : State) (result : Except Fault Value) : Inquiry Progress :=
  .done (.over result s.issued)

def after {α : Type} (s : State) (a : Attempt α) (next : α → State) : Inquiry Progress :=
  a.bind fun
    | .ok result => .done (.on (next result))
    | .error e => .done (.on (s.fault e))

/-- Enters a function of the script, unless there is nothing to do in it. -/
def enter (s : State) (f : Function) (arguments : List Value) (this : Option Value)
    (way : Option Way) (next : State → State) : State :=
  if f.body.isEmpty then next (s.give .unit)
  else if maxDepth ≤ s.depth then s.fault .stackOverflow
  else
    { s.push (.calling f.name s.env way) with
      control := .eval (.block f.body)
      env := .ofCall f.params arguments this
      depth := s.depth + 1 }

/-- Calls a routine that has been found, or reports that there is none. The first argument is put
back where it came from if the routine changes it. -/
def callRoutine (s : State) (found : Option (Inquiry Effect)) (name : String)
    (arguments : List Value) (putBack : State → Value → Attempt State) (next : State → Value → State) :
    Inquiry Progress :=
  match found with
  | none => (s.fault (.noFunction name arguments)).go
  | some routine =>
    routine.bind fun effect =>
      let s := if effect.issues then { s with issued := s.issued + 1 } else s
      match effect.value with
      | .error e => (s.fault e).go
      | .ok value =>
        if effect.exits then (s.raise (.exits value)).go
        else
          match effect.receiver with
          | none => (next s value).go
          | some receiver => s.after (putBack s receiver) fun s => next s value

def write (s : State) (place : Option Root) (value : Value) : State :=
  match place with
  | some root => { s with env := s.env.write value root }
  | none => s

/-- Writes a value back along the wholes that have been passed. -/
def writeBack (s : State) (way : Way) (value : Value) : Attempt State :=
  (Part.putBack way.passed value).andThen fun changed => .ok (s.write way.place changed)

/-- What can only be told where the script runs: the names that it knows. -/
def known? (setting : Setting) (s : State) (name : String) (arguments : List Value) :
    Option (Except Fault Value) :=
  match name, arguments with
  | "is_def_var", [.text key] => some (.ok (.bool (s.env.find? key).isSome))
  | "is_def_var", [value] => some (.error (.unexpected value "string"))
  | "is_def_fn", [.text key, .int n] =>
    some (.ok (.bool (0 ≤ n && (setting.program.function? key n.toNat).isSome)))
  | _, _ => none

/-- Calls a function by its name: one of the script, or else a routine. -/
def call (setting : Setting) (s : State) (name : String) (arguments : List Value)
    (place : Option Root) : Inquiry Progress :=
  match setting.program.function? name arguments.length, s.known? setting name arguments with
  | some f, _ => (s.enter f arguments none none id).go
  | none, some result => (s.settle result).go
  | none, none =>
    s.callRoutine (Routine.find? setting.inProject name arguments) name arguments
      (fun s value => .ok (s.write place value)) give

/-- Calls a method of a value. A function of the script finds the value as `this`; a value that is no
part of the place it came from is a copy, and what becomes of a copy is forgotten. -/
def callMethod (setting : Setting) (s : State) (value : Value) (way : Way) (name : String)
    (arguments : List Value) (rest : Way) : Inquiry Progress :=
  match setting.program.function? name arguments.length with
  | some f =>
    let inPlace := way.passed.all fun (whole, part) => part.isWithin whole
    let back : Way := { rest with
      passed := if inPlace then way.passed else []
      place := if inPlace then way.place else none }
    (s.enter f arguments (some value) (some back) fun s => s.follow .unit rest).go
  | none =>
    s.callRoutine (Routine.find? setting.inProject name (value :: arguments)) name
      (value :: arguments)
      (fun s changed => if way.fixed then .fault (.constantReceiver name) else s.writeBack way changed)
      fun s value => s.follow value rest

/-- Calls what a name stands for as a method of a value: something the language itself does, a
function that is kept in a field of a map, or a function of this name. -/
def callNamed (setting : Setting) (s : State) (value : Value) (way : Way) (name : String)
    (arguments : List Value) (rest : Way) : Inquiry Progress :=
  let noFunction (given : Value) : Inquiry Progress := (s.fault (.mismatch given.typeName "Fn")).go
  match name, value, arguments with
  | "call", .routine function given, _ =>
    call setting (s.push (.follow rest)) function (given ++ arguments) none
  | "call", _, .routine function given :: more =>
    callMethod setting s value way function (given ++ more) rest
  | "call", _, [] => noFunction value
  | "call", _, first :: _ => noFunction first
  | "curry", .routine function given, _ => (s.follow (.routine function (given ++ arguments)) rest).go
  | "curry", _, _ => noFunction value
  | "is_shared", _, [] => (s.follow (.bool false) rest).go
  | _, .map fields, _ =>
    match Fields.get? fields name with
    | some (.routine function given) =>
      callMethod setting s value way function (given ++ arguments) rest
    | _ => callMethod setting s value way name arguments rest
  | _, _, _ => callMethod setting s value way name arguments rest

/-- Goes along a way for one link. -/
def followLink (setting : Setting) (s : State) (value : Value) (way : Way) : Inquiry Progress :=
  let enterPart (part : Part) (links : List Link) (operands : List Value) : Inquiry Progress :=
    s.after (part.get value) fun inner =>
      s.follow inner { way with
        passed := (value, part) :: way.passed
        links := links
        operands := operands }
  match way.links with
  | [] => (s.give value).go
  | .guard :: links =>
    match value with
    | .unit => (s.give .unit).go
    | _ => (s.follow value { way with links := links }).go
  | .property name :: links => enterPart (.property name) links way.operands
  | .index :: links =>
    match way.operands with
    | [] => (s.give value).go
    | index :: operands => enterPart (.index index) links operands
  | .method name arity :: links =>
    callNamed setting s value way name (way.operands.take arity)
      { links := links, operands := way.operands.drop arity }

/-- The parts that links name, with the values of their indices. -/
def parts : List Link → List Value → List Part
  | .property name :: links, operands => .property name :: parts links operands
  | .index :: links, operand :: operands => .index operand :: parts links operands
  | _, _ => []

/-- Does with some values what they have been evaluated for. -/
def apply (setting : Setting) (s : State) (values : List Value) : Use → Inquiry Progress
  | .list => (s.give (.list values)).go
  | .map names => (s.give (.map (Fields.ofList (names.zip values)))).go
  | .template => (s.give (.text (String.join (values.map Value.printed)))).go
  | .unary op =>
    match values with
    | [value] => (s.settle (op.apply value)).go
    | _ => s.go
  | .binary op =>
    match op, values with
    | .contains, [whole, part] =>
      match BinaryOp.contains.onSimple whole part with
      | some result => (s.settle result).go
      | none => call setting s "contains" values none
    | _, [left, right] => (s.settle (op.apply left right)).go
    | _, _ => s.go
  | .call name given place =>
    match place with
    | none => call setting s name (given ++ values) none
    | some root =>
      match s.env.read setting.program root with
      | .error e => (s.fault e).go
      | .ok (first, fixed) =>
        call setting s name (first :: values) (if fixed then none else place)
  | .curry name given => (s.give (.routine name (given ++ values))).go
  | .chain root links =>
    let fixed := match root.place?.map (s.env.read setting.program) with
      | some (.ok (_, fixed)) => fixed
      | _ => false
    let way : Way := { place := root.place?, fixed := fixed, links := links, operands := values }
    ((s.push (.follow way)).eval root).go
  | .assign op root links value =>
    match s.env.read setting.program root, root with
    | .error e, _ => (s.fault e).go
    | .ok (_, true), .var name => (s.fault (.constant name)).go
    | .ok (whole, _), _ =>
      let way := parts links values
      let s := if op.isSome then s.write root (Part.lookedUp way whole) else s
      s.after (Part.assign (op.map BinaryOp.combine) value way whole) fun changed =>
        (s.write root changed).give .unit

/-- Evaluates what is left of some terms, and then uses all their values. -/
def collect (setting : Setting) (s : State) (done : List Value) (todo : List Term) (use : Use) :
    Inquiry Progress :=
  match todo with
  | [] => s.apply setting done.reverse use
  | term :: todo => ((s.push (.collect done todo use)).eval term).go

/-- Begins to evaluate the arguments of a call. A variable in front of them is left where it is, and
looked at after the others. -/
def beginCall (setting : Setting) (s : State) (name : String) (given : List Value)
    (arguments : List Term) : Inquiry Progress :=
  match given, arguments with
  | [], first :: others =>
    match first.place? with
    | none => s.collect setting [] arguments (.call name [] none)
    | some .this =>
      if s.env.this.isNone then (s.fault .unboundThis).go
      else s.collect setting [] others (.call name [] (some .this))
    | some place => s.collect setting [] others (.call name [] (some place))
  | _, _ => s.collect setting [] arguments (.call name given none)

def begin (setting : Setting) (s : State) : Term → Inquiry Progress
  | .literal value => (s.give value).go
  | .nothing => (s.give .unit).go
  | .var name => (s.settle ((s.env.read setting.program (.var name)).map (·.1))).go
  | .this => (s.settle ((s.env.read setting.program .this).map (·.1))).go
  | .list items => s.collect setting [] items .list
  | .map names values => s.collect setting [] values (.map names)
  | .template pieces => s.collect setting [] pieces .template
  | .unary op operand => s.collect setting [] [operand] (.unary op)
  | .binary op left right => s.collect setting [] [left, right] (.binary op)
  | .both left right => ((s.push (.connect false right)).eval left).go
  | .either left right => ((s.push (.connect true right)).eval left).go
  | .orElse left right => ((s.push (.orElse right)).eval left).go
  | .call name arguments =>
    match name, arguments with
    | "call", first :: others => ((s.push (.callee false others)).eval first).go
    | "curry", first :: second :: others =>
      ((s.push (.callee true (second :: others))).eval first).go
    | _, _ => s.beginCall setting name [] arguments
  | .chain root links operands => s.collect setting [] operands (.chain root links)
  | .block [] => (s.give .unit).go
  | .block (first :: rest) =>
    (((s.push (.close s.env.size)).push (.sequence rest)).eval first).go
  | .declare name none constant => ({ s with env := s.env.bind name .unit constant }.give .unit).go
  | .declare name (some value) constant => ((s.push (.bind name constant)).eval value).go
  | .assign op root links operands right =>
    if links.isEmpty ∧ root = .this ∧ s.env.this.isNone then (s.fault .unboundThis).go
    else ((s.push (.store op root links operands)).eval right).go
  | .cond test yes no => ((s.push (.branch yes no)).eval test).go
  | .repeating none body =>
    ((s.push (.lap s.env.size (.repeating none body))).eval (.block body)).go
  | .repeating (some test) body =>
    ((s.push (.test (.repeating (some test) body) body)).eval test).go
  | .repeated body test expected =>
    ((s.push (.lapThen s.env.size test expected (.repeated body test expected))).eval
      (.block body)).go
  | .each name counter source body => ((s.push (.source name counter body)).eval source).go
  | .leave none => (s.raise (.leaves .unit)).go
  | .leave (some value) => ((s.push .leave).eval value).go
  | .again => (s.raise .repeats).go
  | .give none => (s.raise (.returns .unit)).go
  | .give (some value) => ((s.push .give).eval value).go
  | .throwing none => (s.fault (.thrown .unit)).go
  | .throwing (some value) => ((s.push .throw).eval value).go
  | .attempt body name rescue =>
    ((s.push (.attempt s.env.size name rescue)).eval (.block body)).go

/-- A decision by a value that has to be a truth value. -/
def decide (s : State) (value : Value) (next : Bool → State) : Inquiry Progress :=
  match value with
  | .bool b => (next b).go
  | _ => (s.fault (.unexpected value "bool")).go

/-- The next lap of a loop over the items of something. -/
def nextLap (s : State) (size : Nat) (name : String) (counter : Option String) (count : Nat)
    (left : Source) (body : List Term) : State :=
  match left.next? with
  | none => s.give .unit
  | some (value, left) =>
    ({ s with env := (s.env.bindSome counter (.int count)).bind name value false }.push
      (.each size name counter (count + 1) left body)).eval (.block body)

def comeBack (s : State) (env : Env) : State := { s with env := env, depth := s.depth - 1 }

def returnTo (s : State) (env : Env) (way : Option Way) (value : Value) : Inquiry Progress :=
  let back := s.comeBack env
  match way, s.env.this with
  | some way, some this =>
    back.after (back.writeBack way this) fun back =>
      back.follow value { links := way.links, operands := way.operands }
  | _, _ => (back.give value).go

def receive (setting : Setting) (s : State) (value : Value) : Frame → Inquiry Progress
  | .sequence [] => (s.give value).go
  | .sequence (next :: rest) => ((s.push (.sequence rest)).eval next).go
  | .close size => ((s.shrink size).give value).go
  | .bind name constant => ({ s with env := s.env.bind name value constant }.give .unit).go
  | .collect done todo use => s.collect setting (value :: done) todo use
  | .callee keeps arguments =>
    match value with
    | .routine name given =>
      if keeps then s.collect setting [] arguments (.curry name given)
      else s.beginCall setting name given arguments
    | _ => (s.fault (.mismatch value.typeName "Fn")).go
  | .follow way => (s.follow value way).go
  | .store op root links operands => s.collect setting [] operands (.assign op root links value)
  | .connect settled right =>
    s.decide value fun b =>
      if b = settled then s.give value else (s.push .expectTruth).eval right
  | .expectTruth => s.decide value fun _ => s.give value
  | .orElse right =>
    match value with
    | .unit => (s.eval right).go
    | _ => (s.give value).go
  | .branch yes no => s.decide value fun b => s.eval (.block (if b then yes else no))
  | .test loop body =>
    s.decide value fun b =>
      if b then (s.push (.lap s.env.size loop)).eval (.block body) else s.give .unit
  | .lap size loop => ((s.shrink size).eval loop).go
  | .lapThen size test expected loop =>
    (((s.shrink size).push (.testAgain expected loop)).eval test).go
  | .testAgain expected loop =>
    s.decide value fun b => if b = expected then s.eval loop else s.give .unit
  | .source name counter body =>
    match Source.of? value with
    | some source => (s.nextLap s.env.size name counter 0 source body).go
    | none => (s.fault .notIterable).go
  | .each size name counter count left body =>
    ((s.shrink size).nextLap size name counter count left body).go
  | .attempt size _ _ => ((s.shrink size).give value).go
  | .rescue size _ => ((s.shrink size).give .unit).go
  | .leave => (s.raise (.leaves value)).go
  | .give => (s.raise (.returns value)).go
  | .throw => (s.fault (.thrown value)).go
  | .calling _ env way => s.returnTo env way value

/-- A fault thrown without a value while another is handled stands for that other one. -/
def rethrown (caught fault : Fault) : Fault :=
  match fault with
  | .thrown .unit => caught
  | _ => fault

def pass (s : State) (signal : Signal) (frame : Frame) : Inquiry Progress :=
  match frame, signal with
  | .lap size _, .leaves value => ((s.shrink size).give value).go
  | .lap size loop, .repeats => ((s.shrink size).eval loop).go
  | .lapThen size _ _ _, .leaves value => ((s.shrink size).give value).go
  | .lapThen size _ _ loop, .repeats => ((s.shrink size).eval loop).go
  | .each size _ _ _ _ _, .leaves value => ((s.shrink size).give value).go
  | .each size name counter count left body, .repeats =>
    ((s.shrink size).nextLap size name counter count left body).go
  | .attempt size name rescue, .fault e =>
    if e.isFinal then (s.raise signal).go
    else
      let s := s.shrink size
      (({ s with env := s.env.bindSome name e.caught }.push (.rescue size e)).eval
        (.block rescue)).go
  | .rescue _ caught, .fault e => (s.fault (rethrown caught e)).go
  | .calling _ env way, .returns value => s.returnTo env way value
  | .calling function env _, .fault e => ((s.comeBack env).fault (e.leaving function)).go
  | _, _ => (s.raise signal).go

def result : Signal → Except Fault Value
  | .fault e => .error e
  | .returns value => .ok value
  | .leaves value => .ok value
  | .exits value => .ok value
  | .repeats => .ok .unit

def step (setting : Setting) (s : State) : Inquiry Progress :=
  match s.control with
  | .eval term =>
    if setting.maxOperations ≤ s.operations then (s.fault .tooManyOperations).go
    else { s with operations := s.operations + 1 }.begin setting term
  | .follow value way => s.followLink setting value way
  | .give value =>
    match s.frames with
    | [] => s.stop (.ok value)
    | frame :: frames => { s with frames := frames }.receive setting value frame
  | .raise signal =>
    match s.frames with
    | [] => s.stop (result signal)
    | frame :: frames => { s with frames := frames }.pass signal frame

end State

/-- A result, and the number of directives that were built on the way. -/
structure Finish where
  result : Except Fault Value
  issued : Nat

/-- Runs for so many steps at most. -/
def runFor (setting : Setting) : Nat → State → Inquiry Finish
  | 0, s => .done ⟨.error .tooManyOperations, s.issued⟩
  | steps + 1, s =>
    match s.step setting with
    | .done (.over result issued) => .done ⟨result, issued⟩
    | .done (.on next) => runFor setting steps next
    | .ask query reply =>
      .ask query fun answer =>
        (reply answer).bind fun
          | .over result issued => .done ⟨result, issued⟩
          | .on next => runFor setting steps next

/-- Runs to the end. Every operation is followed by a few steps that are none. -/
def run (setting : Setting) (s : State) : Inquiry Finish :=
  runFor setting (16 * setting.maxOperations + twoTo 17) s

def Program.runBody (setting : Setting) : Inquiry Finish :=
  run setting { control := .eval (.block setting.program.body), env := {} }

/-- Calls a function of a script for an instance. A fault names no call here. -/
def Program.callFor (setting : Setting) (h : Handle) (name : String) (arguments : List Value) :
    Inquiry Finish :=
  match setting.program.function? name arguments.length with
  | none => .done ⟨.error (.unknownName name), 0⟩
  | some f =>
    run setting {
      control := .eval (.block f.body)
      env := .ofCall f.params arguments (some (.handle h)) }

end SpriteStage.Script
