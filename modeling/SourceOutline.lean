import SourceOutline.Text.Blank
import SourceOutline.Text.Digits
import SourceOutline.Text.Lines
import SourceOutline.Token
import SourceOutline.Indentation
import SourceOutline.Header
import SourceOutline.Line
import SourceOutline.Failure
import SourceOutline.Scanner
import SourceOutline.Outline.Node
import SourceOutline.Outline.Path
import SourceOutline.Outline.Block
import SourceOutline.Outline.Tree
import SourceOutline.Outline.Session
import SourceOutline.Proofs.Prefixes
import SourceOutline.Proofs.Tokens
import SourceOutline.Proofs.Index
import SourceOutline.Proofs.Walk
import SourceOutline.Proofs.Nesting
import SourceOutline.Proofs.Depth
import SourceOutline.Proofs.Descendants
import SourceOutline.Proofs.Ways
import SourceOutline.Proofs.Context
import SourceOutline.Proofs.Lines
import SourceOutline.Proofs.Endings
import SourceOutline.Proofs.Cutting
import SourceOutline.Proofs.Stack
import SourceOutline.Proofs.Relabel
import SourceOutline.Proofs.Insertion
import SourceOutline.Proofs.Truncation
import SourceOutline.Proofs.Concatenation
import SourceOutline.Proofs.Margins
import SourceOutline.Proofs.Units
import SourceOutline.Proofs.Wrapping
import SourceOutline.Proofs.Representation
import SourceOutline.Proofs.History
import SourceOutline.Proofs.Delimiters
import SourceOutline.Proofs.Labels
import SourceOutline.Proofs.Dump
import SourceOutline.Proofs.Renderings
import SourceOutline.Proofs.OutputLines
import SourceOutline.Data.Value
import SourceOutline.Data.Json
import SourceOutline.Data.Yaml.Resolution
import SourceOutline.Data.Yaml.Scalar
import SourceOutline.Data.Yaml.Document
import SourceOutline.Outline.Encoding
import SourceOutline.Files.Path
import SourceOutline.Files.Device
import SourceOutline.Files.Store
import SourceOutline.Files.Hierarchy
import SourceOutline.Files.Machine
import SourceOutline.Command.Request
import SourceOutline.Command.Arguments
import SourceOutline.Command.Program
import SourceOutline.Main
import SourceOutline.Proofs.Extent
import SourceOutline.Proofs.JsonTexts
import SourceOutline.Proofs.YamlScalars
import SourceOutline.Proofs.YamlTexts
import SourceOutline.Proofs.Writing
import SourceOutline.Proofs.Requests
import SourceOutline.Proofs.Runs
import SourceOutline.Proofs.Grammar
import SourceOutline.Proofs.Patterns
import SourceOutline.Proofs.Recognition
import SourceOutline.Proofs.Classification
import SourceOutline.Proofs.Subjects
import SourceOutline.Proofs.Search
import SourceOutline.Proofs.Pruning
