import Devcroft.Library.Text
import Devcroft.Library.Utf8
import Devcroft.Library.Program
import Devcroft.Library.Interleaving
import Devcroft.Library.Buffered
import Devcroft.Library.Posix
import Devcroft.Paths
import Devcroft.Provider.Validate
import Devcroft.Config.Manifest
import Devcroft.Config.Validate
import Devcroft.Config.Parse
import Devcroft.Config.Schema
import Devcroft.Provider.Capture
import Devcroft.Provider.Flox
import Devcroft.Provider.Derived
import Devcroft.Policy.Compile
import Devcroft.Policy.CapabilitySet
import Devcroft.Policy.Rejection
import Devcroft.Policy.Denials
import Devcroft.Policy.Resolution
import Devcroft.Policy.Warnings
import Devcroft.Policy.Why
import Devcroft.Proxy.Request
import Devcroft.Proxy.Authority
import Devcroft.Proxy.Lines
import Devcroft.Proxy.Server
import Devcroft.Policy.WhyHost
import Devcroft.Proxy.Mediation
import Devcroft.Proxy.Forwarding
import Devcroft.Library.Hex
import Devcroft.Library.Http
import Devcroft.Library.Digest
import Devcroft.Provider.Fingerprint
import Devcroft.Provider.StoreGrants
import Devcroft.Library.Base64
import Devcroft.Proxy.Credential
import Devcroft.Proxy.Head
import Devcroft.Lifecycle.State
import Devcroft.Lifecycle.Up
import Devcroft.Provider.Devbox
import Devcroft.Provider.Jsonc
import Devcroft.Provider.Lockfile
import Devcroft.Lifecycle.Terminate
import Devcroft.Lifecycle.Fading
import Devcroft.Lifecycle.Orphans
import Devcroft.Lifecycle.Outcome
import Devcroft.Lifecycle.Launch
import Devcroft.Lifecycle.Gate
import Devcroft.Lifecycle.Render
import Devcroft.Lifecycle.Reuse
import Devcroft.Keeper.Protocol
import Devcroft.Keeper.Processes
import Devcroft.Keeper.Registry
import Devcroft.Keeper.Connection
import Devcroft.Ssh.Server
import Devcroft.Ssh.Config
import Devcroft.Ssh.Managed
import Devcroft.Ssh.Channels
import Devcroft.Keeper.Main
import Devcroft.Keeper.Children
import Devcroft.Keeper.Bookkeeping
import Devcroft.Ssh.Bookkeeping
import Devcroft.Keeper.Consistency
import Devcroft.Keeper.Reaping
import Devcroft.Keeper.Shutdown
import Devcroft.Library.Json
import Devcroft.Library.JsonText
import Devcroft.Library.JsonNesting
import Devcroft.Library.Jsonc
import Devcroft.Library.Marked
import Devcroft.Services.State
import Devcroft.Services.Report
import Devcroft.Services.Framing
import Devcroft.Keeper.ServiceKills
import Devcroft.Proxy.Withholding
import Devcroft.Library.Environ
import Devcroft.Lifecycle.Handover
import Devcroft.Lifecycle.Activation
import Devcroft.Library.Counting
import Devcroft.Lifecycle.PostCreate
import Devcroft.Lifecycle.Completion
import Devcroft.Library.Interference
import Devcroft.Lifecycle.Contention
import Devcroft.Library.Wire
import Devcroft.Keeper.Framing
import Devcroft.Keeper.Output
import Devcroft.Keeper.Exactness
import Devcroft.Lifecycle.Artifacts
import Devcroft.Library.Typestate
import Devcroft.Lifecycle.Serialization
import Devcroft.Library.JsonDocument
import Devcroft.Provider.Declarations
import Devcroft.Services.Config
import Devcroft.Files
import Devcroft.Library.Links
import Devcroft.Shell
import Devcroft.Services.Binary
import Devcroft.Library.Appending
import Devcroft.Lifecycle.Log
import Devcroft.Ssh.Sftp
import Devcroft.Lifecycle.Listing
import Devcroft.Cli.Ignore
import Devcroft.Config.Naming
import Devcroft.Lifecycle.StatePaths
import Devcroft.Cli.Naming
import Devcroft.Ssh.NotifyOnEof
import Devcroft.Provider.EnvDump
import Devcroft.Config.Suggestions
import Devcroft.Lifecycle.StartTime
import Devcroft.Library.Conduit
import Devcroft.Library.Copying
import Devcroft.Proxy.Relay
import Devcroft.Ssh.Bridge
import Devcroft.Exec.Client
import Devcroft.Exec.Input
import Devcroft.Library.Extents
import Devcroft.Ssh.Transfer
import Devcroft.Library.Funnel
import Devcroft.Ssh.Relay
import Devcroft.Ssh.Keys
import Devcroft.Library.Decimal
import Devcroft.Library.Report
import Devcroft.Policy.Render
import Devcroft.Lifecycle.Pidfile
import Devcroft.Library.Ascent
import Devcroft.Config.Discovery
import Devcroft.Cli.Resolution
import Devcroft.Lifecycle.Recorded
import Devcroft.Lifecycle.Environment
import Devcroft.Keeper.Confinement
import Devcroft.Keeper.Sessions
import Devcroft.Lifecycle.Hooks
