import SpriteStage.Proofs.Change

namespace SpriteStage

def Load.asset? (l : Load) : Option ((AssetKind × String) × Asset) :=
  match l.result? with
  | some (.ok asset) => some ((l.kind, l.locator), asset)
  | _ => none

def Load.report? (l : Load) : Option Report :=
  match l.result? with
  | some (.error e) => some ⟨.asset, e.message⟩
  | _ => none

namespace Project

def lookAt (p : Project) (load : Load) : Project :=
  match load.result? with
  | none => { p with loads := p.loads ++ [load] }
  | some (.ok asset) =>
    p.updateWorld fun w => { w with assets := ((load.kind, load.locator), asset) :: w.assets }
  | some (.error e) => p.updateWorld (·.report .asset e.message)

theorem foldl_lookAt (loads : List Load) (p : Project) : loads.foldl lookAt p = { p with
    loads := p.loads ++ loads.filter (·.result?.isNone)
    world := { p.world with
      assets := (loads.filterMap Load.asset?).reverse ++ p.world.assets
      errors := p.world.errors ++ loads.filterMap Load.report? } } := by
  induction loads generalizing p with
  | nil => simp
  | cons load loads ih =>
    rw [List.foldl_cons, ih]
    cases hr : load.result? with
    | none => simp [lookAt, Load.asset?, Load.report?, hr]
    | some outcome =>
      cases outcome with
      | ok asset => simp [lookAt, Load.asset?, Load.report?, hr, updateWorld]
      | error e => simp [lookAt, Load.asset?, Load.report?, hr, updateWorld, World.report]

-- All that settling loads writes: the loads left, the assets that came and the failures.
theorem poll_eq (p : Project) : p.poll = { p with
    loads := p.loads.filter (·.result?.isNone)
    world := { p.world with
      assets := (p.loads.filterMap Load.asset?).reverse ++ p.world.assets
      errors := p.world.errors ++ p.loads.filterMap Load.report? } } :=
  foldl_lookAt p.loads { p with loads := [] }

def request (loader : Loader) (p : Project) (key : AssetKind × String) : Project :=
  { p.updateWorld (·.record (.request key.1 key.2)) with loads := p.loads ++ [loader key.1 key.2] }

theorem foldl_request (loader : Loader) (keys : List (AssetKind × String)) (p : Project) :
    keys.foldl (request loader) p = { p with
      loads := p.loads ++ keys.map fun key => loader key.1 key.2
      world := { p.world with
        journal := (keys.map fun key => Entry.request key.1 key.2).reverse ++
          p.world.journal } } := by
  induction keys generalizing p with
  | nil => simp
  | cons key keys ih =>
    rw [List.foldl_cons, ih]
    simp [request, updateWorld, World.record]

theorem loadAssets_eq (p : Project) (loader : Loader) : p.loadAssets loader = poll { p with
    loads := p.loads ++ p.wanted.map fun key => loader key.1 key.2
    world := { p.world with
      journal := (p.wanted.map fun key => Entry.request key.1 key.2).reverse ++
        p.world.journal } } :=
  congrArg poll (foldl_request loader p.wanted p)

end Project

end SpriteStage
