import SpriteStage.Actor
import SpriteStage.Asset
import SpriteStage.Behavior
import SpriteStage.Block
import SpriteStage.Config
import SpriteStage.Device
import SpriteStage.Dialogue
import SpriteStage.Drawing
import SpriteStage.Error
import SpriteStage.Figure
import SpriteStage.Geometry
import SpriteStage.Journal
import SpriteStage.Key
import SpriteStage.Number.Binary64
import SpriteStage.Number.Power
import SpriteStage.Number.Reading
import SpriteStage.Number.Shortest
import SpriteStage.Number.Style
import SpriteStage.Project.Basic
import SpriteStage.Project.Frame
import SpriteStage.Project.Host
import SpriteStage.Project.Register
import SpriteStage.Request
import SpriteStage.Script.Fault
import SpriteStage.Script.Grammar
import SpriteStage.Script.Load
import SpriteStage.Script.Machine
import SpriteStage.Script.Operator
import SpriteStage.Script.Part
import SpriteStage.Script.Placement
import SpriteStage.Script.Purity
import SpriteStage.Script.Query
import SpriteStage.Script.Routine
import SpriteStage.Script.Routine.Basic
import SpriteStage.Script.Routine.Collection
import SpriteStage.Script.Routine.Declaration
import SpriteStage.Script.Routine.Directive
import SpriteStage.Script.Routine.General
import SpriteStage.Script.Routine.Instance
import SpriteStage.Script.Routine.Number
import SpriteStage.Script.Routine.Text
import SpriteStage.Script.Simplify
import SpriteStage.Script.State
import SpriteStage.Script.Term
import SpriteStage.Script.Token
import SpriteStage.Script.Token.Basic
import SpriteStage.Script.Token.Number
import SpriteStage.Script.Token.Quotation
import SpriteStage.Sound
import SpriteStage.Text.Blank
import SpriteStage.Text.Elapsed
import SpriteStage.Text.Hidden
import SpriteStage.Text.Quoted
import SpriteStage.Thread.Basic
import SpriteStage.Thread.State
import SpriteStage.Toml.Basic
import SpriteStage.Toml.Literal
import SpriteStage.Toml.Reader
import SpriteStage.Trigger
import SpriteStage.Value
import SpriteStage.Watcher
import SpriteStage.World.Answer
import SpriteStage.World.Basic
import SpriteStage.World.Clone
import SpriteStage.World.Dispatch
import SpriteStage.World.Scene
import SpriteStage.Proofs.Change
import SpriteStage.Proofs.Granting
import SpriteStage.Proofs.Deed
import SpriteStage.Proofs.Course
import SpriteStage.Proofs.Moment
import SpriteStage.Proofs.Beginning
import SpriteStage.Proofs.Obedience
import SpriteStage.Proofs.Origin
import SpriteStage.Proofs.Lineage
import SpriteStage.Proofs.Accounting
import SpriteStage.Proofs.Ownership
import SpriteStage.Proofs.Quiet
import SpriteStage.Proofs.Failure
import SpriteStage.Proofs.Awaiting
import SpriteStage.Proofs.Settlement
import SpriteStage.Proofs.Asking
import SpriteStage.Proofs.Waiting
import SpriteStage.Proofs.Joining
import SpriteStage.Proofs.Broadcast
import SpriteStage.Proofs.Restraint
import SpriteStage.Proofs.Pass
import SpriteStage.Proofs.Answering
import SpriteStage.Proofs.Routing
import SpriteStage.Proofs.Stillness
import SpriteStage.Proofs.Stopping
import SpriteStage.Proofs.Restart
import SpriteStage.Proofs.Trampoline
import SpriteStage.Proofs.Runaway
import SpriteStage.Proofs.Seniority
import SpriteStage.Proofs.Progress
import SpriteStage.Proofs.Exchange
import SpriteStage.Proofs.Descent
import SpriteStage.Proofs.Loading
import SpriteStage.Proofs.Postorder
import SpriteStage.Proofs.Recipients
import SpriteStage.Proofs.Delivery
import SpriteStage.Proofs.Indifference
import SpriteStage.Proofs.Ledger
import SpriteStage.Proofs.Isolation
import SpriteStage.Proofs.Replication
import SpriteStage.Proofs.Clearance
import SpriteStage.Proofs.Splitting
import SpriteStage.Proofs.Deletion
import SpriteStage.Proofs.Dangling
import SpriteStage.Proofs.Discarding
import SpriteStage.Proofs.Registration
import SpriteStage.Proofs.Freshness
import SpriteStage.Proofs.Kinship
import SpriteStage.Proofs.Procedure
import SpriteStage.Proofs.Refusal
import SpriteStage.Proofs.Requesting
import SpriteStage.Proofs.Pointing
import SpriteStage.Proofs.Posture
import SpriteStage.Proofs.Staging
import SpriteStage.Proofs.Fixture
import SpriteStage.Proofs.Overrun
import SpriteStage.Proofs.Striking
import SpriteStage.Proofs.Countdown
import SpriteStage.Proofs.Lapping
import SpriteStage.Proofs.Pacing
import SpriteStage.Proofs.Cadence
import SpriteStage.Proofs.Scenery
import SpriteStage.Proofs.Ordering
import SpriteStage.Proofs.Contact
import SpriteStage.Proofs.Tabulation
import SpriteStage.Proofs.Succession
import SpriteStage.Proofs.Tuning
import SpriteStage.Proofs.Showing
import SpriteStage.Proofs.Worth
import SpriteStage.Proofs.Rounding
import SpriteStage.Proofs.Heading
import SpriteStage.Proofs.Steering
import SpriteStage.Proofs.Period
import SpriteStage.Proofs.Docket
import SpriteStage.Proofs.Spelling
