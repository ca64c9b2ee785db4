import Marginalia.Main
import Marginalia.Proofs.Form.Hidden
import Marginalia.Proofs.Form.Marks
import Marginalia.Proofs.Form.Unchanged
import Marginalia.Proofs.Mark.Attributes
import Marginalia.Proofs.Mark.Address
import Marginalia.Proofs.Source.Addressed
import Marginalia.Proofs.Setting.Code
import Marginalia.Proofs.Setting.Remark
import Marginalia.Proofs.Setting.Reread
import Marginalia.Proofs.Setting.Offsets
import Marginalia.Proofs.Source.Settled
import Marginalia.Proofs.Source.Unmarked
import Marginalia.Proofs.Form.Editable
import Marginalia.Proofs.Mark.Pattern
import Marginalia.Proofs.Source.LineByLine
import Marginalia.Proofs.Source.Below
import Marginalia.Proofs.Source.CutOut
import Marginalia.Proofs.Form.Layout
import Marginalia.Proofs.Form.Grouping
import Marginalia.Proofs.Json.Spelling
import Marginalia.Proofs.Json.Shapes
import Marginalia.Proofs.Literal.Quote
import Marginalia.Proofs.Number.Spelled
import Marginalia.Proofs.Tag.Written
import Marginalia.Proofs.Disk.Written
import Marginalia.Proofs.Command.Preferences
import Marginalia.Proofs.Command.Filling
import Marginalia.Proofs.Setting.Slashes
import Marginalia.Proofs.Setting.LoneString
import Marginalia.Proofs.Literal.Escapes
import Marginalia.Proofs.Tag.ReadBack
import Marginalia.Proofs.Setting.LoneLine
import Marginalia.Proofs.Number.ReadBack
import Marginalia.Proofs.Tag.Toggle
import Marginalia.Proofs.Mark.Spelled
import Marginalia.Proofs.Source.Positions
import Marginalia.Proofs.Command.Counting
import Marginalia.Proofs.Number.Clamped
import Marginalia.Proofs.Disk.PathOrder
import Marginalia.Proofs.Search.Survey
import Marginalia.Proofs.Command.Revising
import Marginalia.Proofs.Command.Batch
