import BuildScript.Archive.Gzip
import BuildScript.Archive.Tar
import BuildScript.Cli.Compiler
import BuildScript.Cli.Flag
import BuildScript.Cli.Footprint
import BuildScript.Cli.Program
import BuildScript.Cli.Report
import BuildScript.Cli.Settings
import BuildScript.Cli.Task
import BuildScript.Compile.Checkout
import BuildScript.Compile.Frame
import BuildScript.Compile.Language
import BuildScript.Compile.Script
import BuildScript.Compile.Services
import BuildScript.Digest.Base58
import BuildScript.Digest.Blake2b
import BuildScript.Digest.Crc32
import BuildScript.Digest.Datum
import BuildScript.Digest.Fingerprint
import BuildScript.Digest.Fnv
import BuildScript.Digest.LittleEndian
import BuildScript.Digest.Md5
import BuildScript.Files.Disk
import BuildScript.Files.Folder
import BuildScript.Job.Basic
import BuildScript.Job.Decode
import BuildScript.Job.Document
import BuildScript.Job.Fetch
import BuildScript.Job.Load
import BuildScript.Json.Read
import BuildScript.Json.Write
import BuildScript.Machine.Event
import BuildScript.Machine.Operation
import BuildScript.Machine.Run
import BuildScript.Machine.State
import BuildScript.Main
import BuildScript.Number.Binary64
import BuildScript.Number.Shortest
import BuildScript.Path
import BuildScript.Shell.Render
import BuildScript.Shell.Word
import BuildScript.Store.Basic
import BuildScript.Store.Bundle
import BuildScript.Store.Record
import BuildScript.Store.Ulid
import BuildScript.Store.Upload
import BuildScript.Text.Base64
import BuildScript.Text.Bool
import BuildScript.Text.Bytes
import BuildScript.Text.Csv
import BuildScript.Text.Printable
import BuildScript.Text.Quoted
import BuildScript.Text.Template
import BuildScript.Text.Url
import BuildScript.Text.Utf16
import BuildScript.Text.Utf8
import BuildScript.Tree.Command
import BuildScript.Tree.Condition
import BuildScript.Tree.FoldName
import BuildScript.Tree.PathText
import BuildScript.Tree.Statement
import BuildScript.Yaml.Cursor
import BuildScript.Yaml.Lexer
import BuildScript.Yaml.Node
import BuildScript.Yaml.Read
import BuildScript.Yaml.Resolve
import BuildScript.Yaml.Scalar
import BuildScript.Yaml.Source
import BuildScript.Yaml.Timestamp
import BuildScript.Yaml.Token
import BuildScript.Proofs.Text.PathText
import BuildScript.Proofs.Path.Absolute
import BuildScript.Proofs.Files.Names
import BuildScript.Proofs.Shell.Quoting
import BuildScript.Proofs.Shell.ActionLine
import BuildScript.Proofs.Shell.Indentation
import BuildScript.Proofs.Shell.Nesting
import BuildScript.Proofs.Files.MakeDirs
import BuildScript.Proofs.Machine.Failure
import BuildScript.Proofs.Machine.Execution
import BuildScript.Proofs.Machine.Acceptance
import BuildScript.Proofs.Digest.Encoding
import BuildScript.Proofs.Digest.Unambiguous
import BuildScript.Proofs.Shell.Readability
import BuildScript.Proofs.Files.Kinds
import BuildScript.Proofs.Machine.Effects
import BuildScript.Proofs.Machine.Replay
import BuildScript.Proofs.Machine.Reach
import BuildScript.Proofs.Machine.Trail
import BuildScript.Proofs.Tree.Neutral
import BuildScript.Proofs.Shell.Paths
import BuildScript.Proofs.Compile.Success
import BuildScript.Proofs.Files.Contents
import BuildScript.Proofs.Machine.Landing
import BuildScript.Proofs.Machine.Copy
import BuildScript.Proofs.Compile.Simulation
import BuildScript.Proofs.Json.ReadBack
import BuildScript.Proofs.Files.Disk
import BuildScript.Proofs.Json.PageText
import BuildScript.Proofs.Store.Record
import BuildScript.Proofs.Files.Changes
import BuildScript.Proofs.Machine.Writing
import BuildScript.Proofs.Machine.Move
import BuildScript.Proofs.Text.Numerals
import BuildScript.Proofs.Compile.Arguments
import BuildScript.Proofs.Shell.Lines
import BuildScript.Proofs.Compile.Layout
import BuildScript.Proofs.Job.FirstFault
import BuildScript.Proofs.Job.Written
import BuildScript.Proofs.Machine.Conditions
import BuildScript.Proofs.Store.Upload
import BuildScript.Proofs.Job.Hash
import BuildScript.Proofs.Machine.Folds
import BuildScript.Proofs.Machine.Independent
import BuildScript.Proofs.Files.Listing
import BuildScript.Proofs.Machine.Listing
import BuildScript.Proofs.Job.Integers
import BuildScript.Proofs.Machine.Resolution
