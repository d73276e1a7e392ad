import DBServer.Proof.Parked
import DBServer.Proof.Archive
import DBServer.Proof.Kept
import DBServer.Proof.Mailbox
import DBServer.Proof.Occupancy
import DBServer.Proof.Shutdown
import DBServer.Proof.Batch
import DBServer.Proof.Server
import DBServer.Proof.Selection
import DBServer.Proof.Startup
import DBServer.Proof.Handover
import DBServer.Proof.Joining
import DBServer.Proof.Descriptors
import DBServer.Proof.Drain
import DBServer.Proof.Pool
import DBServer.Proof.Boot
import DBServer.Proof.SlotTable
import DBServer.Proof.Handling
import DBServer.Proof.Interest
import DBServer.Proof.Connection
import DBServer.Proof.Reuse
import DBServer.Proof.Eviction
import DBServer.Proof.Message
import DBServer.Proof.Verdict
import DBServer.Proof.Truncated
import DBServer.Proof.Peer
import DBServer.Proof.Activation
import DBServer.Proof.Listening
import DBServer.Proof.Rejected
import DBServer.Proof.StreamGate
import DBServer.Proof.Sizing
import DBServer.Proof.Leftover
import DBServer.Proof.Responder
import DBServer.Proof.Heeded
import DBServer.Proof.WindUp
import DBServer.Proof.Booked
import DBServer.Proof.Process
import DBServer.Proof.Launch
import DBServer.Proof.Protocol
