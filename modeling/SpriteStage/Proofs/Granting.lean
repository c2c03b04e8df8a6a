import SpriteStage.Proofs.Change

namespace SpriteStage

namespace World

variable {w w' : World} {id : Nat}

-- All that a request can do to the world when it is granted.
inductive Grants (w : World) (id : Nat) : Request → World → Prop where
  | tells {r : Request} : Grants w id r w
  | reshapes {r : Request} (change : Figure → Figure) : Grants w id r (w.reshape id change)
  | sends {message : String} : Grants w id (.broadcast message) (w.dispatch (.message message)).2
  | clones {source : CloneSource} {parent : Nat} {i : Instance} {a : Actor}
      (hr : w.resolve source = .ok parent) (hm : w.member parent = .ok (i, a)) :
      Grants w id (.createClone source)
        ((w.place i a).dispatchTo .startAsClone (w.lastInstance + 1)).2
  | shows {name : String} {label : Option String} {position : WatcherPosition}
      (hp : position.flaw? = none) : Grants w id (.showVariable name label position)
        { w with watchers := Watcher.put ⟨id, name, label.getD name, position⟩ w.watchers }
  | hides {name : String} : Grants w id (.hideVariable name)
      { w with watchers := Watcher.hide id name w.watchers }
  | plays {name : String} {bus : MixBus} {journal : List Entry} :
      Grants w id (.startSound name) { w with bus := bus, journal := journal }
  | tunes {gain : Float} : Grants w id (.setVolume gain) (w.setVolume id gain).2
  | silences : Grants w id .stopAllSounds w.stopAllSounds

theorem tells_eq_ok {α : Type} {answer : Except CallError α} {x : α}
    (h : w.tells answer = .ok (x, w')) : w' = w := by
  cases answer with
  | error e => cases h
  | ok y =>
    cases h
    rfl

theorem play_eq_ok {name : String} {performance : Nat}
    (h : w.play id name = .ok (performance, w')) :
    ∃ bus journal, w' = { w with bus := bus, journal := journal } := by
  unfold play at h
  split at h
  · cases h
  · split at h
    · cases h
    · cases h
      exact ⟨_, _, rfl⟩

theorem putOn_eq_ok {dress : Dress} {name : String} {u : Unit}
    (h : w.putOn id dress name = .ok (u, w')) : ∃ change, w' = w.reshape id change := by
  unfold putOn at h
  split at h
  · cases h
  · split at h
    · cases h
    · cases h
      exact ⟨_, rfl⟩

theorem grants_of_answer {r : Request} {reply : r.Reply}
    (h : w.answer id r = .ok (reply, w')) : w.Grants id r w' := by
  cases r with
  | instancesOf className =>
    simp only [answer] at h
    split at h <;> cases h
    exact .tells
  | set name value =>
    simp only [answer, setAttribute] at h
    split at h <;> cases h
    exact .reshapes _
  | move motion =>
    simp only [answer, move] at h
    split at h
    · cases h
    · cases h
    · split at h <;> cases h
      exact .reshapes _
  | wear dress name =>
    simp only [answer, wear] at h
    split at h
    · cases h
    · cases h
    · obtain ⟨change, rfl⟩ := putOn_eq_ok h
      exact .reshapes change
  | broadcast message =>
    cases h
    exact .sends
  | createClone source =>
    obtain ⟨parent, i, a, hr, hm, -, -, rfl⟩ := createClone_eq_ok h
    exact .clones hr hm
  | showVariable name label position =>
    simp only [answer, showVariable] at h
    split at h
    · cases h
    · rename_i hp
      cases h
      exact .shows hp
  | hideVariable name =>
    cases h
    exact .hides
  | startSound name =>
    simp only [answer] at h
    cases hp : w.play id name with
    | error e =>
      rw [hp] at h
      cases h
    | ok played =>
      obtain ⟨bus, journal, hworld⟩ := play_eq_ok hp
      rw [hp] at h
      cases h
      rw [hworld]
      exact .plays
  | setVolume gain =>
    cases h
    exact .tunes
  | stopAllSounds =>
    cases h
    exact .silences
  | boundingBox | volume =>
    cases h
    exact .tells
  | _ =>
    rw [tells_eq_ok h]
    exact .tells

-- All that a wait can do to the world when it begins.
inductive Opens (w : World) (h : Handle) : Wait → World → Prop where
  | keeps {wait : Wait} : Opens w h wait w
  | sends {message : String} :
      Opens w h (.broadcastAndWait message) (w.dispatch (.message message)).2
  | asks {prompt : Option String} : Opens w h (.ask prompt) (w.askQuestion h prompt).2
  | plays {name : String} {bus : MixBus} {journal : List Entry} :
      Opens w h (.playUntilDone name) { w with bus := bus, journal := journal }
  | deletes : Opens w h .delete (w.deleteInstance h.owner).2
  | stops : Opens w h .stopAll { w with stopRequested := true }

end World

theorem Project.opens_begin (p : Project) (h : Handle) (wait : Wait) :
    p.world.Opens h wait (p.begin h wait).2.world := by
  cases wait with
  | yield =>
    simp only [begin]
    split
    · exact .keeps
    · split <;> exact .keeps
  | seconds time =>
    simp only [begin]
    split <;> exact .keeps
  | broadcastAndWait message => exact .sends
  | ask prompt => exact .asks
  | playUntilDone name =>
    simp only [begin]
    split
    · exact .keeps
    · rename_i hp
      obtain ⟨bus, journal, rfl⟩ := World.play_eq_ok hp
      exact .plays
  | delete =>
    simp only [begin]
    split <;> exact .deletes
  | stopAll => exact .stops
  | outside => exact .keeps

end SpriteStage
