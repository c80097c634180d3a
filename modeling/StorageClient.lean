import StorageClient.Main
import StorageClient.Startup.Launch
import StorageClient.Proofs.Text.Lines
import StorageClient.Proofs.Text.Decoding
import StorageClient.Proofs.Text.Trimming
import StorageClient.Proofs.Text.Wrapping
import StorageClient.Proofs.Editor.Edits
import StorageClient.Proofs.Editor.PlainText
import StorageClient.Proofs.Editor.Invariant
import StorageClient.Proofs.Editor.History
import StorageClient.Proofs.Editor.Steps
import StorageClient.Proofs.Editor.LineWidth
import StorageClient.Proofs.Editor.Focus
import StorageClient.Proofs.Editor.Typing
import StorageClient.Proofs.Editor.Merging
import StorageClient.Proofs.Editor.Locality
import StorageClient.Proofs.Editor.Following
import StorageClient.Proofs.Editor.Walking
import StorageClient.Proofs.Editor.Erasing
import StorageClient.Proofs.Json.Grammar
import StorageClient.Proofs.Json.Reading
import StorageClient.Proofs.Json.Values
import StorageClient.Proofs.Json.Respelling
import StorageClient.Proofs.Json.Accepted
import StorageClient.Proofs.Json.Spelling
import StorageClient.Proofs.Json.Brackets
import StorageClient.Proofs.Json.Denotation
import StorageClient.Proofs.Json.Writing
import StorageClient.Proofs.Wire.Failure
import StorageClient.Proofs.Wire.Structured
import StorageClient.Proofs.Wire.Pairing
import StorageClient.Proofs.Wire.Rewording
import StorageClient.Proofs.Wire.RawText
import StorageClient.Proofs.Wire.Quoting
import StorageClient.Proofs.Wire.Distinct
import StorageClient.Proofs.Wire.Markers
import StorageClient.Proofs.Wire.Slot
import StorageClient.Proofs.Wire.Payload
import StorageClient.Proofs.Wire.Canonical
import StorageClient.Proofs.Wire.Paths
import StorageClient.Proofs.Program.Answers
import StorageClient.Proofs.Program.OneLine
import StorageClient.Proofs.Program.Transcript
import StorageClient.Proofs.Program.Log
import StorageClient.Proofs.Program.Moves
import StorageClient.Proofs.Program.Record
import StorageClient.Proofs.Program.LoginFirst
import StorageClient.Proofs.Program.Errands
import StorageClient.Proofs.Screen.Drawable
import StorageClient.Proofs.Screen.Scrolling
import StorageClient.Proofs.Screen.CursorCell
import StorageClient.Proofs.Screen.Overhang
import StorageClient.Proofs.Screen.Coverage
import StorageClient.Proofs.Program.Faultless
import StorageClient.Proofs.Program.Untouched
import StorageClient.Proofs.Program.Idle
import StorageClient.Proofs.Program.Saving
import StorageClient.Proofs.Program.Asking
import StorageClient.Proofs.Program.Choosing
import StorageClient.Proofs.Program.Masking
import StorageClient.Proofs.Screen.Framing
