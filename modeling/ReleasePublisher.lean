import ReleasePublisher.Archive.Crc32
import ReleasePublisher.Archive.EntryName
import ReleasePublisher.Archive.Deflate
import ReleasePublisher.Archive.Gzip
import ReleasePublisher.Archive.Sha256
import ReleasePublisher.Archive.Stored
import ReleasePublisher.Archive.Tar
import ReleasePublisher.CommandLine.Options
import ReleasePublisher.CommandLine.Parser
import ReleasePublisher.CommandLine.Usage
import ReleasePublisher.Decimal.Shortest
import ReleasePublisher.Failure
import ReleasePublisher.Files.IoError
import ReleasePublisher.Files.Path
import ReleasePublisher.Files.Reader
import ReleasePublisher.Files.Tree
import ReleasePublisher.Http.Client
import ReleasePublisher.Http.Message
import ReleasePublisher.Http.Network
import ReleasePublisher.Json.Fault
import ReleasePublisher.Json.Lexer
import ReleasePublisher.Json.Parser
import ReleasePublisher.Json.Printer
import ReleasePublisher.Json.Real
import ReleasePublisher.Json.Record
import ReleasePublisher.Json.Sequence
import ReleasePublisher.Json.Skip
import ReleasePublisher.Json.Value
import ReleasePublisher.Log.Filter
import ReleasePublisher.Log.Record
import ReleasePublisher.Main
import ReleasePublisher.Program
import ReleasePublisher.Release.Archive
import ReleasePublisher.Release.Config
import ReleasePublisher.Release.ConfigFile
import ReleasePublisher.Release.Host
import ReleasePublisher.Release.Publish
import ReleasePublisher.Release.Records
import ReleasePublisher.Release.Report
import ReleasePublisher.Release.Resolve
import ReleasePublisher.Release.Secret
import ReleasePublisher.Run
import ReleasePublisher.Text.Base64
import ReleasePublisher.Text.Blank
import ReleasePublisher.Text.Hex
import ReleasePublisher.Text.Quoted
import ReleasePublisher.Text.Shown
import ReleasePublisher.Text.Utf8
import ReleasePublisher.Toml.Document
import ReleasePublisher.Toml.Fault
import ReleasePublisher.Toml.Scalar
import ReleasePublisher.Toml.Statement
import ReleasePublisher.Toml.Token
import ReleasePublisher.Url.Basic
import ReleasePublisher.Url.Domain
import ReleasePublisher.Url.Form
import ReleasePublisher.Url.Host
import ReleasePublisher.Url.Parser
import ReleasePublisher.Url.Percent
import ReleasePublisher.Url.Punycode
import ReleasePublisher.Proofs.Archive.EntryName
import ReleasePublisher.Proofs.Archive.Tar
import ReleasePublisher.Proofs.Files.Growth
import ReleasePublisher.Proofs.Files.Reading
import ReleasePublisher.Proofs.Files.Walk
import ReleasePublisher.Proofs.Http.Masking
import ReleasePublisher.Proofs.Http.Redirects
import ReleasePublisher.Proofs.Program.AcceptedUpload
import ReleasePublisher.Proofs.Program.TokenSecrecy
import ReleasePublisher.Proofs.Publish.Calls
import ReleasePublisher.Proofs.Publish.DryRun
import ReleasePublisher.Proofs.Publish.SecretAnswers
import ReleasePublisher.Proofs.Publish.Rehearsal
import ReleasePublisher.Proofs.Publish.Stages
import ReleasePublisher.Proofs.Publish.Upload
import ReleasePublisher.Proofs.Release.ArchiveContents
import ReleasePublisher.Proofs.Release.Packaging
import ReleasePublisher.Proofs.Run.Effects
import ReleasePublisher.Proofs.Run.SideBySide
import ReleasePublisher.Proofs.Text.Utf8
import ReleasePublisher.Proofs.Text.Utf8Reading
import ReleasePublisher.Proofs.Url.Encoding
import ReleasePublisher.Proofs.Url.Query
import ReleasePublisher.Proofs.Url.Domain
import ReleasePublisher.Proofs.Url.Host
import ReleasePublisher.Proofs.Url.Path
import ReleasePublisher.Proofs.Url.Authority
import ReleasePublisher.Proofs.Url.Scheme
import ReleasePublisher.Proofs.Url.Written
import ReleasePublisher.Proofs.Url.Base
import ReleasePublisher.Proofs.Http.Requests
import ReleasePublisher.Proofs.Publish.UploadRequest
import ReleasePublisher.Proofs.Http.Authorization
import ReleasePublisher.Proofs.Publish.Confinement
import ReleasePublisher.Proofs.Url.Escapes
import ReleasePublisher.Proofs.Url.Endpoint
import ReleasePublisher.Proofs.Release.Resolve
import ReleasePublisher.Proofs.Json.Grammar
import ReleasePublisher.Proofs.Json.Skipping
import ReleasePublisher.Proofs.Json.Scalars
import ReleasePublisher.Proofs.Json.Items
import ReleasePublisher.Proofs.Json.Values
import ReleasePublisher.Proofs.Json.Records
import ReleasePublisher.Proofs.Json.Shapes
import ReleasePublisher.Proofs.Release.RecordShapes
import ReleasePublisher.Proofs.Publish.EarlyFailures
import ReleasePublisher.Proofs.Publish.Errands
import ReleasePublisher.Proofs.Publish.Credentials
import ReleasePublisher.Proofs.Publish.ProjectNames
import ReleasePublisher.Proofs.Publish.Payloads
import ReleasePublisher.Proofs.Publish.Footprint
import ReleasePublisher.Proofs.Files.Contents
import ReleasePublisher.Proofs.Release.Remnants
import ReleasePublisher.Proofs.Text.Trimming
import ReleasePublisher.Proofs.Release.Precedence
import ReleasePublisher.Proofs.Json.Tokens
import ReleasePublisher.Proofs.Json.Writing
import ReleasePublisher.Proofs.Json.Ranges
import ReleasePublisher.Proofs.Release.ArchiveSize
import ReleasePublisher.Proofs.Release.Reports
import ReleasePublisher.Proofs.Program.Output
import ReleasePublisher.Proofs.Json.Rendering
import ReleasePublisher.Proofs.Json.Syntax
import ReleasePublisher.Proofs.Files.Children
import ReleasePublisher.Proofs.Archive.Listing
import ReleasePublisher.Proofs.Archive.StatedName
import ReleasePublisher.Proofs.Release.Layouts
import ReleasePublisher.Proofs.Release.ReportedEntry
import ReleasePublisher.Proofs.Publish.SecretShapes
import ReleasePublisher.Proofs.Publish.Refusals
import ReleasePublisher.Proofs.Publish.UploadEndpoints
import ReleasePublisher.Proofs.Json.Spellings
import ReleasePublisher.Proofs.Json.Placement
import ReleasePublisher.Proofs.Json.Objects
import ReleasePublisher.Proofs.Json.Tellings
import ReleasePublisher.Proofs.Release.ToldRecords
import ReleasePublisher.Proofs.Publish.RefusalMessages
import ReleasePublisher.Proofs.Toml.Tokens
import ReleasePublisher.Proofs.Toml.Strings
import ReleasePublisher.Proofs.Toml.Assignments
import ReleasePublisher.Proofs.Toml.Values
import ReleasePublisher.Proofs.Toml.InlineTables
import ReleasePublisher.Proofs.Toml.Lines
import ReleasePublisher.Proofs.Toml.Documents
import ReleasePublisher.Proofs.Toml.Tables
import ReleasePublisher.Proofs.Toml.StatedTables
import ReleasePublisher.Proofs.Toml.GivenKeys
import ReleasePublisher.Proofs.Release.FileSections
import ReleasePublisher.Proofs.Release.ConfigFailures
import ReleasePublisher.Proofs.Release.BaseAddresses
import ReleasePublisher.Proofs.Files.NewDirectories
import ReleasePublisher.Proofs.Release.PackingChanges
import ReleasePublisher.Proofs.Text.Replacement
import ReleasePublisher.Proofs.Json.AlikeTexts
import ReleasePublisher.Proofs.Json.Places
import ReleasePublisher.Proofs.Publish.SecretPlaces
import ReleasePublisher.Proofs.Publish.AnswerTexts
import ReleasePublisher.Proofs.Publish.ShownProgress
import ReleasePublisher.Proofs.CommandLine.Reading
import ReleasePublisher.Proofs.CommandLine.Arrangements
import ReleasePublisher.Proofs.CommandLine.Verbosity
import ReleasePublisher.Proofs.Program.Logging
import ReleasePublisher.Proofs.Files.SameLinks
import ReleasePublisher.Proofs.Files.Repetition
import ReleasePublisher.Proofs.Release.Repackaging
import ReleasePublisher.Proofs.Failure.Contexts
import ReleasePublisher.Proofs.Publish.Dialogues
import ReleasePublisher.Proofs.Publish.TrailingSlashes
