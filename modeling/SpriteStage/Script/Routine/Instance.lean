import SpriteStage.Script.Routine.Basic

/-!
Routines on the instance that a thread runs for.
-/

namespace SpriteStage.Script.Routine

def asking (h : Handle) (r : Request) (value : r.Reply → Value) : Option (Inquiry Effect) :=
  attempt ((Attempt.request h r).andThen fun reply => .ok (value reply))

def telling (h : Handle) (r : Request) : Option (Inquiry Effect) := asking h r fun _ => .unit

def moving (h : Handle) (what : String) (value : Value) (motion : Float → Motion) :
    Option (Inquiry Effect) :=
  match number what value with
  | .ok x => telling h (.move (motion x))
  | .error fault => fail fault

/-- The edges given in a map, read in the order of their names. -/
def watcherPosition : List (String × Value) → WatcherPosition → Except Fault WatcherPosition
  | [], position => .ok position
  | (name, value) :: rest, position =>
    match number name value with
    | .error fault => .error fault
    | .ok x =>
      match name with
      | "top" => watcherPosition rest { position with top := some x }
      | "left" => watcherPosition rest { position with left := some x }
      | "bottom" => watcherPosition rest { position with bottom := some x }
      | "right" => watcherPosition rest { position with right := some x }
      | _ => .error (.text s!"unknown watcher position \"{name}\"")

/-- The attributes of an instance, and what it tells about itself. -/
def ofState (h : Handle) (name : String) (arguments : List Value) : Option (Inquiry Effect) :=
  match name, arguments with
  | "get", [.text key] => asking h (.get key) fun (value : Value) => value
  | "set", [.text key, value] => telling h (.set key value)
  | "instance_id", [] => pure (.int h.owner)
  | "is_clone", [] => asking h .isClone fun (b : Bool) => .bool b
  | "class_name", [] => asking h .className fun (s : String) => .text s
  | "x", [] => asking h .x fun (x : Float) => .float x
  | "y", [] => asking h .y fun (y : Float) => .float y
  | "direction", [] => asking h .direction fun (d : Float) => .float d
  | _, _ => none

/-- What changes the figure of an instance. -/
def ofFigure (h : Handle) (name : String) (arguments : List Value) : Option (Inquiry Effect) :=
  match name, arguments with
  | "go_to_xy", [x, y] =>
    match number "x" x, number "y" y with
    | .ok x, .ok y => telling h (.move (.goTo x y))
    | .error fault, _ => fail fault
    | _, .error fault => fail fault
  | "set_x", [x] => moving h "x" x .setX
  | "set_y", [y] => moving h "y" y .setY
  | "change_x", [d] => moving h "dx" d .changeX
  | "change_y", [d] => moving h "dy" d .changeY
  | "set_size", [size] => moving h "size" size .setSize
  | "turn_degrees", [d] => moving h "degrees" d .turn
  | "point_in_direction", [d] => moving h "degrees" d .point
  | "show", [] => telling h (.move .appear)
  | "hide", [] => telling h (.move .hide)
  | "say", [value] => telling h (.move (.say value.display))
  | "say_nothing", [] => telling h (.move .sayNothing)
  | "switch_costume", [.text key] => telling h (.wear .costume key)
  | "switch_backdrop", [.text key] => telling h (.wear .backdrop key)
  | _, _ => none

/-- What an instance does to others, asks about them and shows of itself. -/
def ofStage (h : Handle) (name : String) (arguments : List Value) : Option (Inquiry Effect) :=
  match name, arguments with
  | "broadcast", [.text message] => telling h (.broadcast message)
  | "create_clone_of_self", [] =>
    asking h (.createClone (.member h.owner)) fun (id : Nat) => .int id
  | "create_clone_of", [.text key] =>
    asking h (.createClone (.className key)) fun (id : Nat) => .int id
  | "registered_instances", [.text key] =>
    asking h (.instancesOf key) fun (ids : List Nat) => .list (ids.map fun (id : Nat) => Value.int id)
  | "touching", [.text key] => asking h (.touching key) fun (b : Bool) => .bool b
  | "key_pressed", [.text key] => asking h (.keyPressed key) fun (b : Bool) => .bool b
  | "show_variable", [.text key] => telling h (.showVariable key none {})
  | "show_variable", [.text key, .text label] => telling h (.showVariable key (some label) {})
  | "show_variable", [.text key, .text label, .map fields] =>
    match watcherPosition fields {} with
    | .ok position => telling h (.showVariable key (some label) position)
    | .error fault => fail fault
  | "hide_variable", [.text key] => telling h (.hideVariable key)
  | _, _ => none

/-- The sounds of an instance, and how often its loops pause. -/
def ofPace (h : Handle) (name : String) (arguments : List Value) : Option (Inquiry Effect) :=
  match name, arguments with
  | "start_sound", [.text key] => telling h (.startSound key)
  | "set_sound_volume", [gain] =>
    match number "volume" gain with
    | .ok x => asking h (.setVolume x) fun (x : Float) => .float x
    | .error fault => fail fault
  | "sound_volume", [] => asking h .volume fun (x : Float) => .float x
  | "stop_all_sounds", [] => telling h .stopAllSounds
  | "push_loop_iterations_per_frame", [.int n] =>
    if 0 ≤ n ∧ n < twoTo 32 then
      attempt ((Attempt.always (.pushRate h n.toNat) rfl).andThen fun _ => .ok .unit)
    else fail (.text s!"loop iterations must be 0 or more, not {n}")
  | "pop_loop_iterations_per_frame", [] =>
    attempt ((Attempt.always (.popRate h) rfl).andThen fun _ => .ok .unit)
  | _, _ => none

def ofInstance (h : Handle) (name : String) (arguments : List Value) :
    Option (Inquiry Effect) :=
  ofState h name arguments <|> ofFigure h name arguments <|> ofStage h name arguments <|>
    ofPace h name arguments

end SpriteStage.Script.Routine
