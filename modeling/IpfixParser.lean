import IpfixParser.Lib.Outcome
import IpfixParser.Lib.Bytes
import IpfixParser.Lib.Pull
import IpfixParser.Lib.Framing
import IpfixParser.Lib.Lru
import IpfixParser.Lib.Splice
import IpfixParser.Lib.Search
import IpfixParser.Lib.Runs
import IpfixParser.Model.Message
import IpfixParser.Model.Template
import IpfixParser.Model.Store
import IpfixParser.Model.Plan
import IpfixParser.Model.Record
import IpfixParser.Wire.Message
import IpfixParser.Wire.Template
import IpfixParser.Proof.Framing
import IpfixParser.Proof.StoreTable
import IpfixParser.Proof.StoreHistory
import IpfixParser.Proof.StoreRecency
import IpfixParser.Proof.SessionIsolation
import IpfixParser.Wire.Record
import IpfixParser.Proof.Layout
import IpfixParser.Proof.Records
import IpfixParser.Proof.PlanBuild
import IpfixParser.Proof.OpList
import IpfixParser.Proof.Plan
import IpfixParser.Proof.NoPanic
import IpfixParser.Model.Collector
import IpfixParser.Wire.Exporter
import IpfixParser.Proof.RoundTrip
import IpfixParser.Proof.PlainWalk
import IpfixParser.Proof.PlanReference
import IpfixParser.Proof.Scratch
import IpfixParser.Proof.TemplateIds
import IpfixParser.Proof.StoreErasure
import IpfixParser.Proof.StoreTeardown
import IpfixParser.Proof.TemplateRefresh
import IpfixParser.Model.Registry
import IpfixParser.Model.Csv
import IpfixParser.Wire.Csv
import IpfixParser.Proof.Registry
import IpfixParser.Proof.OctetStrings
import IpfixParser.Lib.Loop
import IpfixParser.Model.Receiver
import IpfixParser.Wire.Journal
import IpfixParser.Proof.Journal
import IpfixParser.Proof.Collector
import IpfixParser.Proof.Receiver
import IpfixParser.Proof.Peers
import IpfixParser.Proof.Endless
import IpfixParser.Proof.Attribution
import IpfixParser.Proof.Exchange
import IpfixParser.Proof.Redelivery
import IpfixParser.Model.Flow
import IpfixParser.Proof.Flow
import IpfixParser.Proof.Emitted
import IpfixParser.Model.Frame
import IpfixParser.Wire.Frame
import IpfixParser.Proof.Capture
import IpfixParser.Proof.Columns
import IpfixParser.Proof.IdConstants
import IpfixParser.Model.Synth
import IpfixParser.Proof.Synth
import IpfixParser.Lib.Recency
import IpfixParser.Proof.Answers
import IpfixParser.Proof.Retention
import IpfixParser.Proof.Churn
