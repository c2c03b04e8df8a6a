import SpriteStage.Proofs.Quiet

namespace SpriteStage

def Thread.post (t : Thread) : Nat × Nat × Nat × String := (t.group, t.actor, t.owner, t.label)

def Spawn.post (s : Spawn) : Nat × Nat × Nat × String := (s.group, s.actor, s.owner, s.handler.label)

namespace Project

variable {κ : Conduct} {p q : Project} {t u : Thread}

theorem threads_foldl_launch (queue : List Spawn) (p : Project) :
    ∃ news, (queue.foldl launch p).threads = p.threads ++ news ∧
      news.map Thread.post = (queue.filter (p.world.isLive ·.owner)).map Spawn.post ∧
      ∀ u ∈ news, p.lastThread < u.id := by
  induction queue generalizing p with
  | nil => exact ⟨[], (List.append_nil _).symm, rfl, by rintro u ⟨⟩⟩
  | cons s queue ih =>
    obtain ⟨news, hthreads, hposts, hids⟩ := ih (p.launch s)
    have hlive : ∀ id, (p.launch s).world.isLive id = p.world.isLive id := fun id => by
      obtain ⟨groups, hw⟩ := world_launch p s
      rw [hw]
      rfl
    simp only [hlive] at hposts
    by_cases hl : p.world.isLive s.owner
    · have hf : (s :: queue).filter (p.world.isLive ·.owner) =
          s :: queue.filter (p.world.isLive ·.owner) := List.filter_cons_of_pos hl
      rw [hf, List.map_cons, ← hposts, List.foldl_cons, hthreads]
      rw [launch_of_live hl] at hids ⊢
      refine ⟨_ :: news, (List.append_cons _ _ _).symm, rfl, fun u hu => ?_⟩
      rcases List.mem_cons.1 hu with rfl | hu
      · exact Nat.lt_succ_self _
      · exact Nat.lt_of_succ_lt (hids u hu)
    · have hf : (s :: queue).filter (p.world.isLive ·.owner) =
          queue.filter (p.world.isLive ·.owner) := List.filter_cons_of_neg hl
      rw [hf, ← hposts, List.foldl_cons, hthreads]
      rw [launch_of_gone hl] at hids ⊢
      exact ⟨news, rfl, rfl, hids⟩

theorem lastThread_foldl_endThread (ids : List Nat) (p : Project) :
    (ids.foldl endThread p).lastThread = p.lastThread :=
  foldl_keeps Project.lastThread lastThread_endThread ids p

theorem threads_settle (hs : p.world.stopRequested = false) :
    ∃ old news, p.settle.threads = old ++ news ∧ old.Sublist p.threads ∧
      news.map Thread.post = (p.world.spawns.filter (p.world.isLive ·.owner)).map Spawn.post ∧
      (∀ u ∈ news, p.lastThread < u.id) ∧ p.world.SameFolk p.settle.world := by
  let doomed := (p.threads.filter fun t => p.world.deleted.contains t.owner).map (·.id)
  let ended := doomed.foldl endThread (p.updateWorld fun w => { w with deleted := [] })
  have hsettle : p.settle = ended.launchAll := by
    unfold settle
    rw [if_neg (by simp [hs])]
  have hended : ended.threads.Sublist p.threads := by
    simp only [ended, threads_foldl_endThread]
    exact List.filter_sublist
  have hspawns : ended.world.spawns = p.world.spawns :=
    foldl_keeps (fun p : Project => p.world.spawns) spawns_endThread _ _
  have hinstances : ended.world.instances = p.world.instances :=
    foldl_keeps (fun p : Project => p.world.instances)
      (fun p id => (sameFolk_endThread p id).instances) _ _
  have hlive : ∀ id, (ended.updateWorld fun w => { w with spawns := [] }).world.isLive id =
      p.world.isLive id := fun id =>
    congrArg (fun is : List Instance => is.any (·.id == id)) hinstances
  obtain ⟨news, hthreads, hposts, hids⟩ := threads_foldl_launch ended.world.spawns
    (ended.updateWorld fun w => { w with spawns := [] })
  have hlast : ended.lastThread = p.lastThread := lastThread_foldl_endThread _ _
  obtain ⟨_, _, hsettled⟩ := world_settle hs
  refine ⟨ended.threads, news, hsettle ▸ hthreads, hended, hposts.trans ?_,
    fun u hu => hlast ▸ hids u hu, ?_⟩
  · rw [hspawns]
    simp only [hlive]
  · rw [hsettled]
    exact ⟨rfl, rfl, rfl⟩

theorem mem_settle (hu : u ∈ p.settle.threads) (hl : u.id ≤ p.lastThread) :
    u ∈ p.threads ∧ p.world.stopRequested = false := by
  have hs : p.world.stopRequested = false := by
    by_contra hne
    unfold settle at hu
    rw [if_pos (by simpa using hne)] at hu
    cases hu
  obtain ⟨old, news, hthreads, hold, -, hids, -⟩ := threads_settle hs
  rw [hthreads] at hu
  rcases List.mem_append.1 hu with hu | hu
  · exact ⟨hold.mem hu, hs⟩
  · exact absurd (hids u hu) (Nat.not_lt_of_le hl)

end Project

end SpriteStage
