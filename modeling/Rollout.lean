import Rollout.Cli.Arguments
import Rollout.Cli.Run
import Rollout.Config
import Rollout.Context
import Rollout.Data.Basic
import Rollout.Data.Json
import Rollout.Decimal.Double
import Rollout.Decimal.Render
import Rollout.Document.Basic
import Rollout.Document.Decode
import Rollout.Document.Encode
import Rollout.Document.Merge
import Rollout.Environment
import Rollout.Error
import Rollout.FileTree
import Rollout.Graph.Basic
import Rollout.Graph.Resolve
import Rollout.Import
import Rollout.Keyed
import Rollout.Label
import Rollout.Phase
import Rollout.Plan
import Rollout.Port
import Rollout.Report
import Rollout.Session.Basic
import Rollout.Session.Event
import Rollout.Session.Provisioner
import Rollout.Task
import Rollout.Template
import Rollout.Text.Blank
import Rollout.Trace
import Rollout.Yaml.Char
import Rollout.Yaml.Decode
import Rollout.Yaml.Expand
import Rollout.Yaml.Node
import Rollout.Yaml.Parse
import Rollout.Yaml.Scalar
import Rollout.Yaml.Style
import Rollout.Yaml.Tag
import Rollout.Yaml.Token.Basic
import Rollout.Yaml.Token.Block
import Rollout.Yaml.Token.Flow
import Rollout.Yaml.Token.Property
import Rollout.Yaml.Token.Scan
import Rollout.Yaml.Write
import Rollout.Main
import Rollout.Proofs.Keyed
import Rollout.Proofs.Session.Requests
import Rollout.Proofs.Session.Stage
import Rollout.Proofs.Session.TwoPhase
import Rollout.Proofs.FileTree
import Rollout.Proofs.Import
import Rollout.Proofs.Fault
import Rollout.Proofs.Resolution
import Rollout.Proofs.Coherence
import Rollout.Proofs.ImportGraph
import Rollout.Proofs.ImportText
import Rollout.Proofs.Overrides
import Rollout.Proofs.Plan
import Rollout.Proofs.Session.Binding
import Rollout.Proofs.Codec
import Rollout.Proofs.RoundTrip
import Rollout.Proofs.Render
import Rollout.Proofs.Session.Lifecycle
import Rollout.Proofs.Session.Preview
import Rollout.Proofs.Session.EventLog
import Rollout.Proofs.Session.Rehearsal
import Rollout.Proofs.Template
import Rollout.Proofs.Evaluation
import Rollout.Proofs.Session.Expansion
import Rollout.Proofs.ImportCalls
import Rollout.Proofs.Frame
import Rollout.Proofs.TemplateGrammar
import Rollout.Proofs.Exposure
import Rollout.Proofs.Placement
import Rollout.Proofs.PortGrammar
import Rollout.Proofs.PortSpelling
import Rollout.Proofs.MergeLaws
import Rollout.Proofs.Growth
import Rollout.Proofs.ImportCycles
import Rollout.Proofs.ImportFaults
import Rollout.Proofs.Session.Unreferenced
import Rollout.Proofs.Cascade
import Rollout.Proofs.Labels
import Rollout.Proofs.ImportChain
