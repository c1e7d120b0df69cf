import BlockScript.Block
import BlockScript.Catalog.Kind
import BlockScript.Catalog.Label
import BlockScript.Catalog.Palette
import BlockScript.Catalog.Template
import BlockScript.EditError
import BlockScript.Expression
import BlockScript.Layout
import BlockScript.Motion
import BlockScript.Number.Decimal
import BlockScript.Number.Display
import BlockScript.Number.Distance
import BlockScript.Number.Function
import BlockScript.Number.Numeral
import BlockScript.Number.Remainder
import BlockScript.Number.Rounding
import BlockScript.Project
import BlockScript.Run.Basic
import BlockScript.Run.Chain
import BlockScript.Run.Command
import BlockScript.Run.Dice
import BlockScript.Run.Duration
import BlockScript.Run.Execute
import BlockScript.Run.Machine
import BlockScript.Run.Options
import BlockScript.Run.Record
import BlockScript.Run.Resume
import BlockScript.Run.Schedule
import BlockScript.Run.Session
import BlockScript.Run.Trigger
import BlockScript.Run.World
import BlockScript.Script
import BlockScript.Snap
import BlockScript.Sound
import BlockScript.Stage.Basic
import BlockScript.Stage.Input
import BlockScript.Stage.Snapshot
import BlockScript.Stage.Sprite
import BlockScript.Table
import BlockScript.Text.Blank
import BlockScript.Text.Casing
import BlockScript.Text.Hidden
import BlockScript.Text.Lower
import BlockScript.Text.Quoted
import BlockScript.Text.Range
import BlockScript.Text.Search
import BlockScript.Texture
import BlockScript.Value
import BlockScript.Proofs.Table
import BlockScript.Proofs.Number.Canonical
import BlockScript.Proofs.Number.Order
import BlockScript.Proofs.Number.Rank
import BlockScript.Proofs.Number.Defined
import BlockScript.Proofs.Text.Blank
import BlockScript.Proofs.Number.Grammar
import BlockScript.Proofs.Number.Nearest
import BlockScript.Proofs.Number.Literal
import BlockScript.Proofs.Number.Digits
import BlockScript.Proofs.Number.Whole
import BlockScript.Proofs.Number.Display
import BlockScript.Proofs.Layout.Stack
import BlockScript.Proofs.Layout.Order
import BlockScript.Proofs.Expression.Sight
import BlockScript.Proofs.Expression.Cap
import BlockScript.Proofs.Expression.Compare
import BlockScript.Proofs.Expression.View
import BlockScript.Proofs.Stage.Sprite
import BlockScript.Proofs.Stage.Touch
import BlockScript.Proofs.Stage.Names
import BlockScript.Proofs.Stage.Bounds
import BlockScript.Proofs.Stage.Frozen
import BlockScript.Proofs.Run.Deed
import BlockScript.Proofs.Run.Completion
import BlockScript.Proofs.Run.Event
import BlockScript.Proofs.Run.Lane
import BlockScript.Proofs.Run.Outcome
import BlockScript.Proofs.Run.Act
import BlockScript.Proofs.Run.Own
import BlockScript.Proofs.Run.Session
import BlockScript.Proofs.Run.Control
import BlockScript.Proofs.Run.Account
import BlockScript.Proofs.Run.Range
import BlockScript.Proofs.Run.Identity
import BlockScript.Proofs.Run.Texture
import BlockScript.Proofs.Run.Trigger
import BlockScript.Proofs.Run.Stop
import BlockScript.Proofs.Run.Isolation
import BlockScript.Proofs.Run.Nesting
import BlockScript.Proofs.Run.Answer
import BlockScript.Proofs.Run.Sequence
import BlockScript.Proofs.Script.Distinct
import BlockScript.Proofs.Run.Private
import BlockScript.Proofs.Run.Rota
import BlockScript.Proofs.Run.Turn
import BlockScript.Proofs.Run.Instant
import BlockScript.Proofs.Run.Alone
import BlockScript.Proofs.Project.InPlace
import BlockScript.Proofs.Run.Naming
import BlockScript.Proofs.Layout.Newcomer
import BlockScript.Proofs.Script.Placement
import BlockScript.Proofs.Layout.Drag
import BlockScript.Proofs.Script.Drag
import BlockScript.Proofs.Layout.Chain
import BlockScript.Proofs.Layout.Measure
import BlockScript.Proofs.Script.Attachment
import BlockScript.Proofs.Script.Touch
import BlockScript.Proofs.Text.Material
import BlockScript.Proofs.Stage.Trail
import BlockScript.Proofs.Run.Definition
import BlockScript.Proofs.Run.Clock
import BlockScript.Proofs.Run.Sound
import BlockScript.Proofs.Run.Awake
import BlockScript.Proofs.Run.Play
import BlockScript.Proofs.Catalog.Label
