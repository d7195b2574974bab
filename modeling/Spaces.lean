import Spaces.Accounts.Again
import Spaces.Accounts.Database
import Spaces.Accounts.Frame
import Spaces.Accounts.Members
import Spaces.Accounts.Readable
import Spaces.Accounts.Reconcile
import Spaces.Accounts.Settled
import Spaces.Accounts.Steps
import Spaces.Accounts.Turns
import Spaces.Accounts.Written
import Spaces.Authentication.Fidelity
import Spaces.Authentication.Frames
import Spaces.Authentication.ManagedPam
import Spaces.Authentication.RateLimit
import Spaces.Authentication.Relay
import Spaces.Authentication.Service
import Spaces.Authentication.Stopping
import Spaces.Binds.Effects
import Spaces.Binds.Launch
import Spaces.Binds.Paths
import Spaces.Binds.Protected
import Spaces.Binds.RoundTrip
import Spaces.Binds.Walk
import Spaces.Computer.Agreement
import Spaces.Computer.Association
import Spaces.Computer.Batch
import Spaces.Computer.BatchOrder
import Spaces.Computer.Cancelling
import Spaces.Computer.Canvas
import Spaces.Computer.ChildText
import Spaces.Computer.CompactTree
import Spaces.Computer.Compaction
import Spaces.Computer.Correlation
import Spaces.Computer.Dialogue
import Spaces.Computer.Drag
import Spaces.Computer.Elements
import Spaces.Computer.FramePixels
import Spaces.Computer.Hop
import Spaces.Computer.Pairing
import Spaces.Computer.Records
import Spaces.Computer.Registering
import Spaces.Computer.Request
import Spaces.Computer.Service
import Spaces.Computer.TreeBudget
import Spaces.Computer.TreeDiff
import Spaces.Creation.Failures
import Spaces.Creation.Kept
import Spaces.Creation.MountGuard
import Spaces.Creation.Steps
import Spaces.Desktop.Bridges
import Spaces.Desktop.Controller
import Spaces.Desktop.Forwarding
import Spaces.Desktop.Lifecycle
import Spaces.Desktop.Mounting
import Spaces.Desktop.Planning
import Spaces.Desktop.Reconciling
import Spaces.Desktop.Refresh
import Spaces.Guest.AgentOutput
import Spaces.Guest.PathEnvironment
import Spaces.HostBroker.PathMapping
import Spaces.HostBroker.Registration
import Spaces.Launcher.Inside
import Spaces.Launcher.Install
import Spaces.Library.Arena
import Spaces.Library.Attempt
import Spaces.Library.Block
import Spaces.Library.Budget
import Spaces.Library.BusName
import Spaces.Library.Channel
import Spaces.Library.Checked
import Spaces.Library.Counting
import Spaces.Library.Decimal
import Spaces.Library.DoubleQuotes
import Spaces.Library.Escapes
import Spaces.Library.FileTree
import Spaces.Library.FiniteTree
import Spaces.Library.Framing
import Spaces.Library.Joined
import Spaces.Library.Json
import Spaces.Library.JsonSchema
import Spaces.Library.JsonText
import Spaces.Library.JsonWriter
import Spaces.Library.KeyFile
import Spaces.Library.KeyTable
import Spaces.Library.LexicalPath
import Spaces.Library.LineEnds
import Spaces.Library.MountTable
import Spaces.Library.Occurrence
import Spaces.Library.Outcome
import Spaces.Library.PlainParser
import Spaces.Library.PosixPath
import Spaces.Library.Records
import Spaces.Library.Ring
import Spaces.Library.Routine
import Spaces.Library.Runs
import Spaces.Library.Slab
import Spaces.Library.Sole
import Spaces.Library.Subsequence
import Spaces.Library.Substring
import Spaces.Library.Text
import Spaces.Library.Transfer
import Spaces.Library.UnifiedDiff
import Spaces.Library.Utf8
import Spaces.Library.Within
import Spaces.Locations.GuestView
import Spaces.Locations.Resolve
import Spaces.Locking.Exclusion
import Spaces.Locking.SpaceLock
import Spaces.Mcp.Advertised
import Spaces.Mcp.Catalog
import Spaces.Mcp.Discipline
import Spaces.Mcp.Frontend
import Spaces.Mcp.Protocol
import Spaces.Mcp.Schema
import Spaces.Mcp.Soundness
import Spaces.Naming.Brokers
import Spaces.Naming.Launchers
import Spaces.Naming.Mirrors
import Spaces.Permissions.Configure
import Spaces.Permissions.Downloads
import Spaces.Permissions.Effect
import Spaces.Permissions.LoadInfo
import Spaces.Permissions.Validation
import Spaces.Portal.Calls
import Spaces.Portal.Consistency
import Spaces.Portal.Isolation
import Spaces.Portal.Notifications
import Spaces.Portal.OwnerLoss
import Spaces.Portal.Replies
import Spaces.Portal.Restore
import Spaces.Portal.State
import Spaces.Portal.Tables
import Spaces.Portal.Variant
import Spaces.Secrets.Activation
import Spaces.Secrets.Adoption
import Spaces.Secrets.Backup
import Spaces.Shortcuts.Clearing
import Spaces.Shortcuts.Completeness
import Spaces.Shortcuts.Containment
import Spaces.Shortcuts.Exporting
import Spaces.Shortcuts.Exports
import Spaces.Shortcuts.Freshness
import Spaces.Shortcuts.Generate
import Spaces.Shortcuts.Monitor
import Spaces.Shortcuts.Names
import Spaces.Shortcuts.Ownership
import Spaces.Shortcuts.Returning
import Spaces.Shortcuts.ScreenSaver
import Spaces.Shortcuts.Writing
import Spaces.Supervisor.AgentReference
import Spaces.Supervisor.ReferenceCount
import Spaces.Supervisor.SharedAgent
import Spaces.SystemBus.Agent
import Spaces.SystemBus.Announcements
import Spaces.SystemBus.Bridge
import Spaces.SystemBus.Forwarding
import Spaces.SystemBus.Ledger
import Spaces.SystemBus.Policy
import Spaces.SystemBus.Queue
import Spaces.SystemBus.Replies
import Spaces.SystemBus.Steps
import Spaces.Workers.DeviceBinds
import Spaces.Workers.DeviceNodes
import Spaces.Workers.Discover
import Spaces.Workers.HomeMounts
import Spaces.Workers.LoginState
