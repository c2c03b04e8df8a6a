import SpriteStage.Script.Routine.Basic

/-!
Routines that build directives. A directive counts as built once its pause is known, even if the
function to go on with is refused then.
-/

namespace SpriteStage.Script.Routine

def issue (pause : Pause) (next : Option String) : Effect :=
  { value := .ok (.directive ⟨pause, next⟩), issues := true }

def last (pause : Pause) : Option (Inquiry Effect) := some (.done (issue pause none))

def andThen (pause : Except Fault Pause) (next : Value) : Option (Inquiry Effect) :=
  match pause with
  | .error fault => fail fault
  | .ok pause =>
    match continuation next with
    | .ok next => some (.done (issue pause next))
    | .error fault => some (.done { value := .error fault, issues := true })

def waitSeconds (seconds : Value) : Except Fault Pause :=
  (number "seconds" seconds).map .waitSeconds

def askAndWait : Value → Except Fault Pause
  | .unit => .ok (.askAndWait none)
  | .text prompt => .ok (.askAndWait (some prompt))
  | _ => .error (.text "ask_and_wait(): prompt must be a string or ()")

def ofDirective (name : String) (arguments : List Value) : Option (Inquiry Effect) :=
  match name, arguments with
  | "next_frame", [] => last .nextFrame
  | "next_frame", [next] => andThen (.ok .nextFrame) next
  | "wait_seconds", [seconds] =>
    match waitSeconds seconds with
    | .ok pause => last pause
    | .error fault => fail fault
  | "wait_seconds", [seconds, next] => andThen (waitSeconds seconds) next
  | "broadcast_and_wait", [.text message] => last (.broadcastAndWait message)
  | "broadcast_and_wait", [.text message, next] => andThen (.ok (.broadcastAndWait message)) next
  | "ask_and_wait", [prompt, next] => andThen (askAndWait prompt) next
  | "play_sound_until_done", [.text key] => last (.playSoundUntilDone key)
  | "play_sound_until_done", [.text key, next] => andThen (.ok (.playSoundUntilDone key)) next
  | "delete_this_clone", [] => last .deleteThisClone
  | "delete_this_clone", [next] => andThen (.ok .deleteThisClone) next
  | "stop_all", [] => last .stopAll
  | _, _ => none

theorem ofDirective_nextFrame :
    ofDirective "next_frame" [] = some (.done (issue .nextFrame none)) := rfl

end SpriteStage.Script.Routine
