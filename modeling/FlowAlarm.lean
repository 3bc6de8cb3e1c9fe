import FlowAlarm.Data.Keyed
import FlowAlarm.Data.Directory
import FlowAlarm.Data.Names
import FlowAlarm.Text.Bytes
import FlowAlarm.Text.Json
import FlowAlarm.Text.Utf8
import FlowAlarm.Text.Lines
import FlowAlarm.Text.Xml
import FlowAlarm.Text.XmlPrint
import FlowAlarm.Text.XmlTemplate
import FlowAlarm.Daemon.GbXml
import FlowAlarm.Text.GoJson
import FlowAlarm.Text.GoStruct
import FlowAlarm.Text.Base64
import FlowAlarm.Text.JsonSize
import FlowAlarm.Trace.Lifecycle
import FlowAlarm.Trace.Throughout
import FlowAlarm.Trace.Ledger
import FlowAlarm.Trace.Watch
import FlowAlarm.Num.Rounding
import FlowAlarm.Num.Decimal
import FlowAlarm.Engine.Observation
import FlowAlarm.Engine.EventEngine
import FlowAlarm.Engine.Refine
import FlowAlarm.Engine.Grammar
import FlowAlarm.Engine.Rejection
import FlowAlarm.Engine.Deltas
import FlowAlarm.Engine.ChannelOrder
import FlowAlarm.Engine.Emitted
import FlowAlarm.Engine.History
import FlowAlarm.Engine.Watched
import FlowAlarm.Engine.Gating
import FlowAlarm.Engine.Updates
import FlowAlarm.Engine.Timeline
import FlowAlarm.Codec.CJson
import FlowAlarm.Codec.EventCodec
import FlowAlarm.Codec.RoundTrips
import FlowAlarm.Codec.SessionRecords
import FlowAlarm.Config.EngineConfig
import FlowAlarm.Config.Agreement
import FlowAlarm.Journal.EventJournal
import FlowAlarm.Journal.Durability
import FlowAlarm.Journal.Cursors
import FlowAlarm.Journal.Representation
import FlowAlarm.Journal.TornTail
import FlowAlarm.Journal.ReplayGap
import FlowAlarm.Journal.Restarts
import FlowAlarm.Journal.Drops
import FlowAlarm.Daemon.Media
import FlowAlarm.Daemon.Wire
import FlowAlarm.Daemon.EventStream
import FlowAlarm.Daemon.Entry
import FlowAlarm.Daemon.Outbox
import FlowAlarm.Daemon.Replay
import FlowAlarm.Daemon.Steps
import FlowAlarm.Daemon.Calls
import FlowAlarm.Daemon.Backing
import FlowAlarm.Daemon.Runs
import FlowAlarm.Daemon.Bounds
import FlowAlarm.Daemon.Loading
import FlowAlarm.Daemon.Atomic
import FlowAlarm.Daemon.Drain
import FlowAlarm.Daemon.LiveSessions
import FlowAlarm.Daemon.Orphans
import FlowAlarm.Daemon.Backoff
import FlowAlarm.Live.GstRunner
import FlowAlarm.Live.Agreement
import FlowAlarm.Live.Control
import FlowAlarm.Live.SessionNames
import FlowAlarm.Ipc.EventDelivery
import FlowAlarm.Ipc.Acknowledged
import FlowAlarm.Ipc.Framing
import FlowAlarm.Evidence.EvidenceCache
import FlowAlarm.Evidence.LoadEvidence
import FlowAlarm.Evidence.HandOver
import FlowAlarm.Evidence.Selection
import FlowAlarm.Evidence.Interleaving
import FlowAlarm.Evidence.Recovery
import FlowAlarm.Evidence.Metadata
import FlowAlarm.Evidence.FileNames
import FlowAlarm.Evidence.FileSteps
import FlowAlarm.Evidence.Captures
import FlowAlarm.Evidence.Durable
import FlowAlarm.Evidence.Calls
import FlowAlarm.Evidence.Reopening
import FlowAlarm.Evidence.Crash
import FlowAlarm.Evidence.References
import FlowAlarm.Rockiva.RockivaRunner
import FlowAlarm.Rockiva.Adapter
import FlowAlarm.Rockiva.Ownership
import FlowAlarm.Data.Slots
import FlowAlarm.Trace.Presence
import FlowAlarm.Engine.Tracks
import FlowAlarm.Engine.Persons
import FlowAlarm.Text.XmlEscape
import FlowAlarm.Num.Civil
import FlowAlarm.Daemon.AlarmBody
import FlowAlarm.Daemon.Records
import FlowAlarm.Daemon.Staging
import FlowAlarm.Daemon.Delivery
import FlowAlarm.Daemon.Service
import FlowAlarm.Daemon.AlarmSink
import FlowAlarm.Daemon.EvidenceSink
import FlowAlarm.Daemon.TornWrites
import FlowAlarm.Daemon.EventIds
import FlowAlarm.Daemon.Lives
import FlowAlarm.Daemon.Acks
import FlowAlarm.Daemon.DurableAcks
import FlowAlarm.Daemon.Evictions
import FlowAlarm.Daemon.Dialogs
