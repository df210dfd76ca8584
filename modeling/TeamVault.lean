import TeamVault.Checked
import TeamVault.Checked.Field
import TeamVault.Command.Auth
import TeamVault.Command.Basic
import TeamVault.Command.Line
import TeamVault.Command.Org
import TeamVault.Command.Parameters
import TeamVault.Command.Project
import TeamVault.Command.Secrets
import TeamVault.Command.Shared
import TeamVault.Console.Markup
import TeamVault.Console.Prompt
import TeamVault.Console.Screen
import TeamVault.Console.ShortKey
import TeamVault.Fault
import TeamVault.Files.Access
import TeamVault.Files.Tree
import TeamVault.Json.Basic
import TeamVault.Json.Encoding
import TeamVault.Json.Order
import TeamVault.Json.Reader
import TeamVault.Json.Writer
import TeamVault.KeyFile
import TeamVault.Keypair
import TeamVault.Local.Binding
import TeamVault.Local.BindingFile
import TeamVault.Local.Context
import TeamVault.Local.Credentials
import TeamVault.Local.Home
import TeamVault.Local.Session
import TeamVault.Local.Settings
import TeamVault.Local.SettingsFile
import TeamVault.Main
import TeamVault.Number.Binary64
import TeamVault.Number.Reader
import TeamVault.Number.Shortest
import TeamVault.Path
import TeamVault.Policy
import TeamVault.Proofs.Action
import TeamVault.Proofs.Addresses
import TeamVault.Proofs.AlikeRuns
import TeamVault.Proofs.AlikeSecrets
import TeamVault.Proofs.AlikeTrees
import TeamVault.Proofs.BadFiles
import TeamVault.Proofs.BindingOnce
import TeamVault.Proofs.Calendar
import TeamVault.Proofs.Commit
import TeamVault.Proofs.ConfigFrames
import TeamVault.Proofs.CredentialsCell
import TeamVault.Proofs.Custody
import TeamVault.Proofs.CustodyRun
import TeamVault.Proofs.Diagnosis
import TeamVault.Proofs.Exchange
import TeamVault.Proofs.Expiry
import TeamVault.Proofs.Failures
import TeamVault.Proofs.FileSteps
import TeamVault.Proofs.FirstEntries
import TeamVault.Proofs.History
import TeamVault.Proofs.Instants
import TeamVault.Proofs.JsonText
import TeamVault.Proofs.KeyLayout
import TeamVault.Proofs.KeyLines
import TeamVault.Proofs.KeyRing
import TeamVault.Proofs.KeyWarning
import TeamVault.Proofs.KeylessMembers
import TeamVault.Proofs.Lifetime
import TeamVault.Proofs.LocalState
import TeamVault.Proofs.NothingStored
import TeamVault.Proofs.Path
import TeamVault.Proofs.PolicyFile
import TeamVault.Proofs.PulledFile
import TeamVault.Proofs.ReplyFaults
import TeamVault.Proofs.ReportedChanges
import TeamVault.Proofs.Reports
import TeamVault.Proofs.RotationCourse
import TeamVault.Proofs.RotationRun
import TeamVault.Proofs.RotationTrace
import TeamVault.Proofs.RoundTrip
import TeamVault.Proofs.Scratch
import TeamVault.Proofs.ScratchWrites
import TeamVault.Proofs.Secrecy
import TeamVault.Proofs.SecretsCourse
import TeamVault.Proofs.Sending
import TeamVault.Proofs.ServiceAnswers
import TeamVault.Proofs.SessionGate
import TeamVault.Proofs.ShownText
import TeamVault.Proofs.StoredTime
import TeamVault.Proofs.SyncedFile
import TeamVault.Proofs.Tables
import TeamVault.Proofs.TeamKeys
import TeamVault.Proofs.TextLines
import TeamVault.Proofs.ToolRun
import TeamVault.Proofs.Tree
import TeamVault.Proofs.VersionLog
import TeamVault.Proofs.YamlWriter
import TeamVault.Rotation
import TeamVault.Scratch
import TeamVault.Secret.Choice
import TeamVault.Secret.Environment
import TeamVault.Secret.Version
import TeamVault.Secrets
import TeamVault.Service.Client
import TeamVault.Service.Endpoint
import TeamVault.Service.Payload
import TeamVault.Service.Roster
import TeamVault.Service.VersionStore
import TeamVault.Sops.Metadata
import TeamVault.Sops.Tool
import TeamVault.Team.Account
import TeamVault.Team.Recipient
import TeamVault.Team.Role
import TeamVault.Text.Blank
import TeamVault.Text.Lines
import TeamVault.Text.LowerCase
import TeamVault.Text.LowerCase.Table
import TeamVault.Text.Parts
import TeamVault.Text.Printable
import TeamVault.Text.Printable.Table
import TeamVault.Text.Quoted
import TeamVault.Text.Utf8
import TeamVault.Time.Date
import TeamVault.Time.Reader
import TeamVault.Time.Timestamp
import TeamVault.World
import TeamVault.Yaml.Cursor
import TeamVault.Yaml.Implicit
import TeamVault.Yaml.Moment
import TeamVault.Yaml.Node
import TeamVault.Yaml.Scalar
import TeamVault.Yaml.Token
import TeamVault.Yaml.Value
import TeamVault.Yaml.Writer
