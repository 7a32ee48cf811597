import Agentix.Outbox.Inbound
import Agentix.Refinement.Rounds
import Agentix.Telegram.RateLimit
import Agentix.Verified.Answers
import Agentix.Verified.Bindings
import Agentix.Verified.Bodies
import Agentix.Verified.Cards
import Agentix.Verified.Codex
import Agentix.Verified.Compaction
import Agentix.Verified.Consolidations
import Agentix.Verified.Contexts
import Agentix.Verified.Conversations
import Agentix.Verified.Deliveries
import Agentix.Verified.Deltas
import Agentix.Verified.Diagrams
import Agentix.Verified.Dispatch
import Agentix.Verified.Groups
import Agentix.Verified.Indexes
import Agentix.Verified.Journals
import Agentix.Verified.Manifests
import Agentix.Verified.Menus
import Agentix.Verified.Messages
import Agentix.Verified.Names
import Agentix.Verified.Notifications
import Agentix.Verified.Output
import Agentix.Verified.Owners
import Agentix.Verified.Parts
import Agentix.Verified.Payloads
import Agentix.Verified.Projection
import Agentix.Verified.Queues
import Agentix.Verified.Registry
import Agentix.Verified.Retries
import Agentix.Verified.Revisions
import Agentix.Verified.Revocation
import Agentix.Verified.Rounds
import Agentix.Verified.Scans
import Agentix.Verified.Sessions
import Agentix.Verified.Splits
import Agentix.Verified.Sweeps
import Agentix.Verified.Tasks
import Agentix.Verified.Texts
import Agentix.Verified.Transcripts
import Agentix.Verified.WorkQueue
