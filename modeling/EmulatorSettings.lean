import EmulatorSettings.Binary32.Basic
import EmulatorSettings.Binary32.Decimal
import EmulatorSettings.CommandLine.Arguments
import EmulatorSettings.CommandLine.Run
import EmulatorSettings.DateTime.Basic
import EmulatorSettings.Disk.Path
import EmulatorSettings.Disk.Tree
import EmulatorSettings.Ini.Reading
import EmulatorSettings.Ini.Writing
import EmulatorSettings.Json.Documents
import EmulatorSettings.Json.Text
import EmulatorSettings.Main
import EmulatorSettings.Preferences.File
import EmulatorSettings.Proofs.Binary32.FileText
import EmulatorSettings.Proofs.Binary32.Literal
import EmulatorSettings.Proofs.Binary32.Nearest
import EmulatorSettings.Proofs.Binary32.NearestMagnitude
import EmulatorSettings.Proofs.Binary32.NearestNumber
import EmulatorSettings.Proofs.Binary32.RoundingError
import EmulatorSettings.Proofs.Binary32.ScaledWhole
import EmulatorSettings.Proofs.Binary32.WholeNumbers
import EmulatorSettings.Proofs.CommandLine.Invoking
import EmulatorSettings.Proofs.CommandLine.Remembering
import EmulatorSettings.Proofs.CommandLine.SetGet
import EmulatorSettings.Proofs.CommandLine.ShowGet
import EmulatorSettings.Proofs.DateTime.Spelling
import EmulatorSettings.Proofs.Disk.Directories
import EmulatorSettings.Proofs.Disk.Joining
import EmulatorSettings.Proofs.Disk.OtherFiles
import EmulatorSettings.Proofs.Disk.WriteRead
import EmulatorSettings.Proofs.Ini.Canonical
import EmulatorSettings.Proofs.Ini.ExactCheck
import EmulatorSettings.Proofs.Ini.Meaning
import EmulatorSettings.Proofs.Ini.Readable
import EmulatorSettings.Proofs.Ini.Rereading
import EmulatorSettings.Proofs.Ini.RoundTrip
import EmulatorSettings.Proofs.Ini.WrittenEntries
import EmulatorSettings.Proofs.Json.Documents
import EmulatorSettings.Proofs.Json.Grammar
import EmulatorSettings.Proofs.Json.Numbers
import EmulatorSettings.Proofs.Json.Printing
import EmulatorSettings.Proofs.Preferences.Saving
import EmulatorSettings.Proofs.Row.DateTimes
import EmulatorSettings.Proofs.Row.Edits
import EmulatorSettings.Proofs.Row.Independence
import EmulatorSettings.Proofs.Row.Presentable
import EmulatorSettings.Proofs.Row.SliderPosition
import EmulatorSettings.Proofs.Session.Bindings
import EmulatorSettings.Proofs.Session.ChangeFlag
import EmulatorSettings.Proofs.Session.Edits
import EmulatorSettings.Proofs.Session.Hosting
import EmulatorSettings.Proofs.Session.InPlace
import EmulatorSettings.Proofs.Session.LoadOrder
import EmulatorSettings.Proofs.Session.Loading
import EmulatorSettings.Proofs.Session.OnDisk
import EmulatorSettings.Proofs.Session.Reachable
import EmulatorSettings.Proofs.Session.SaveProtocol
import EmulatorSettings.Proofs.Session.SplitSave
import EmulatorSettings.Proofs.Session.Untouched
import EmulatorSettings.Proofs.Session.Visits
import EmulatorSettings.Proofs.Session.Workers
import EmulatorSettings.Proofs.Storage.Isolation
import EmulatorSettings.Proofs.Storage.Paths
import EmulatorSettings.Proofs.Storage.SavedText
import EmulatorSettings.Proofs.Store.Flat
import EmulatorSettings.Proofs.Store.InPlace
import EmulatorSettings.Proofs.Store.Independence
import EmulatorSettings.Proofs.Store.Operations
import EmulatorSettings.Proofs.Store.Reporting
import EmulatorSettings.Proofs.Store.Simulation
import EmulatorSettings.Proofs.Store.WellStored
import EmulatorSettings.Proofs.Table.Building
import EmulatorSettings.Proofs.Text.Digits
import EmulatorSettings.Proofs.Text.Lines
import EmulatorSettings.Proofs.Toml.Documents
import EmulatorSettings.Proofs.Toml.Strings
import EmulatorSettings.Proofs.Value.Distinct
import EmulatorSettings.Proofs.Value.Kinds
import EmulatorSettings.Proofs.Value.NumberText
import EmulatorSettings.Proofs.Value.Numerals
import EmulatorSettings.Proofs.Value.RoundTrip
import EmulatorSettings.Row.Basic
import EmulatorSettings.Row.Controls
import EmulatorSettings.Screen.Basic
import EmulatorSettings.Screen.Rows
import EmulatorSettings.Session.Basic
import EmulatorSettings.Session.Run
import EmulatorSettings.Storage.Repository
import EmulatorSettings.Store.FileSections
import EmulatorSettings.Store.Setting
import EmulatorSettings.Store.Settings
import EmulatorSettings.Table.Basic
import EmulatorSettings.Text.Basic
import EmulatorSettings.Text.Quoted
import EmulatorSettings.Toml.Document
import EmulatorSettings.Toml.Scalar
import EmulatorSettings.Toml.Strings
import EmulatorSettings.Value.Basic
