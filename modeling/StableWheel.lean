import StableWheel.Text.Blank
import StableWheel.Text.Split
import StableWheel.Text.Utf8
import StableWheel.Text.Printable
import StableWheel.Text.Quoted
import StableWheel.Decimal.Natural
import StableWheel.Decimal.Shortest
import StableWheel.Digest.Base64Url
import StableWheel.Digest.Crc32
import StableWheel.Digest.Sha256
import StableWheel.Path
import StableWheel.Document.Node
import StableWheel.Document.Fault
import StableWheel.Document.Reader
import StableWheel.Document.Json.Token
import StableWheel.Document.Json.Text
import StableWheel.Document.Toml.Token
import StableWheel.Document.Toml.Scalar
import StableWheel.Document.Toml.Table
import StableWheel.Document.Toml.Statement
import StableWheel.Document.Toml.Text
import StableWheel.Archive.Member
import StableWheel.Archive.Encoding
import StableWheel.FileSystem.Error
import StableWheel.FileSystem.Basic
import StableWheel.FileSystem.Resolve
import StableWheel.FileSystem.Operations
import StableWheel.Glob.Pattern
import StableWheel.Glob.Search
import StableWheel.Session
import StableWheel.Platform
import StableWheel.Environment
import StableWheel.Host
import StableWheel.Interpreter.Version
import StableWheel.Interpreter.Family
import StableWheel.Interpreter.Report
import StableWheel.Interpreter.Locate
import StableWheel.Tag
import StableWheel.Extension
import StableWheel.Package.Layout
import StableWheel.Package.Staging
import StableWheel.Project.Config
import StableWheel.Project.Load
import StableWheel.Compiler.Arguments
import StableWheel.Compiler.Toolchain
import StableWheel.Build.Sources
import StableWheel.Build.Pass
import StableWheel.Wheel.Metadata
import StableWheel.Wheel.Record
import StableWheel.Wheel.Pack
import StableWheel.Command.Arguments
import StableWheel.Command.Usage
import StableWheel.Command.Failure
import StableWheel.Command.Build
import StableWheel.Command.Run
import StableWheel.Main
import StableWheel.Proofs.Text.Csv
import StableWheel.Proofs.Text.Pieces
import StableWheel.Proofs.Text.Trimming
import StableWheel.Proofs.Text.Header
import StableWheel.Proofs.Text.Bytewise
import StableWheel.Proofs.Path.Order
import StableWheel.Proofs.FileSystem.Walk
import StableWheel.Proofs.FileSystem.Change
import StableWheel.Proofs.FileSystem.Within
import StableWheel.Proofs.FileSystem.Tree
import StableWheel.Proofs.FileSystem.Growth
import StableWheel.Proofs.FileSystem.Bytes
import StableWheel.Proofs.FileSystem.Making
import StableWheel.Proofs.FileSystem.Heading
import StableWheel.Proofs.FileSystem.Below
import StableWheel.Proofs.FileSystem.Changed
import StableWheel.Proofs.FileSystem.Naming
import StableWheel.Proofs.FileSystem.Shape
import StableWheel.Proofs.FileSystem.Spelling
import StableWheel.Proofs.FileSystem.Ancestors
import StableWheel.Proofs.Path.Components
import StableWheel.Proofs.Path.Shorter
import StableWheel.Proofs.FileSystem.Abreast
import StableWheel.Proofs.FileSystem.Around
import StableWheel.Proofs.FileSystem.Sight
import StableWheel.Proofs.Glob.Unread
import StableWheel.Proofs.Glob.Literal
import StableWheel.Proofs.Glob.Reading
import StableWheel.Proofs.Glob.Reached
import StableWheel.Proofs.Glob.Descent
import StableWheel.Proofs.Glob.Moved
import StableWheel.Proofs.Session.Effects
import StableWheel.Proofs.Session.Asking
import StableWheel.Proofs.Compiler.Run
import StableWheel.Proofs.Compiler.Told
import StableWheel.Proofs.Interpreter.VersionText
import StableWheel.Proofs.Build.Sources
import StableWheel.Proofs.Build.Described
import StableWheel.Proofs.Build.Verified
import StableWheel.Proofs.Project.Names
import StableWheel.Proofs.Project.Defaults
import StableWheel.Proofs.Build.Requests
import StableWheel.Proofs.Build.Calls
import StableWheel.Proofs.Build.Failure
import StableWheel.Proofs.Build.Attempt
import StableWheel.Proofs.Build.Alongside
import StableWheel.Proofs.Package.Directory
import StableWheel.Proofs.Package.Copies
import StableWheel.Proofs.Package.Rounds
import StableWheel.Proofs.Package.Faithful
import StableWheel.Proofs.Package.Copying
import StableWheel.Proofs.Package.Alongside
import StableWheel.Proofs.Package.Again
import StableWheel.Proofs.Package.Listed
import StableWheel.Proofs.Package.Moved
import StableWheel.Proofs.Wheel.Members
import StableWheel.Proofs.Wheel.Remains
import StableWheel.Proofs.Wheel.Gathering
import StableWheel.Proofs.Wheel.Listing
import StableWheel.Proofs.Wheel.Contents
import StableWheel.Proofs.Wheel.ReadBack
import StableWheel.Proofs.Wheel.TagText
import StableWheel.Proofs.Wheel.FileName
import StableWheel.Proofs.Wheel.StableTag
import StableWheel.Proofs.Wheel.Stabilised
import StableWheel.Proofs.Wheel.Legible
import StableWheel.Proofs.Wheel.DefaultTag
import StableWheel.Proofs.Wheel.Alike
import StableWheel.Proofs.Wheel.Repeatable
import StableWheel.Proofs.Wheel.Fields
import StableWheel.Proofs.Wheel.Purity
import StableWheel.Proofs.Command.Effects
import StableWheel.Proofs.Command.Modules
import StableWheel.Proofs.Command.Endings
import StableWheel.Proofs.Command.Writes
import StableWheel.Proofs.Command.Confined
import StableWheel.Proofs.Command.Leftovers
import StableWheel.Proofs.Command.Grounds
import StableWheel.Proofs.Command.Unfit
import StableWheel.Proofs.Command.Labels
import StableWheel.Proofs.Command.PrintedTag
