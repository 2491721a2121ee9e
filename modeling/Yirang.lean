import Yirang.Fs.Path
import Yirang.Fs.Tree
import Yirang.Fs.Ops
import Yirang.Effect.Program
import Yirang.Effect.Wp
import Yirang.Effect.Session
import Yirang.Effect.Embed
import Yirang.Effect.Threads
import Yirang.Effect.Verdict
import Yirang.Json
import Yirang.Merge
import Yirang.Device
import Yirang.Install.Model
import Yirang.Calendar
import Yirang.Streak
import Yirang.Health
import Yirang.Deploy.Model
import Yirang.Install.Frame
import Yirang.Install.Pointer
import Yirang.Install.Copy
import Yirang.Install.Publish
import Yirang.Install.Listing
import Yirang.Install.Exact
import Yirang.Install.Prune
import Yirang.Deploy.Record
import Yirang.Deploy.Instance
import Yirang.Deploy.SingleInstance
import Yirang.Deploy.Restart
import Yirang.Deploy.Recorded
import Yirang.Deploy.Switch
import Yirang.Deploy.Recovery
import Yirang.Deploy.Ready
import Yirang.Deploy.Survival
import Yirang.Agent.Host
import Yirang.Agent.Message
import Yirang.Deploy.Outage
import Yirang.Agent.Service
import Yirang.Agent.Handle
import Yirang.Agent.Download
import Yirang.Agent.Versions
import Yirang.Agent.Cleaning
import Yirang.Api.Model
import Yirang.Fleet.Model
import Yirang.Fleet.Requests
import Yirang.Fleet.Routing
import Yirang.Fleet.Reports
import Yirang.Fleet.Feedback
import Yirang.Fleet.Deployment
import Yirang.Cli.Model
import Yirang.Cli.Apart
import Yirang.Cli.Upload
import Yirang.Api.Decode
import Yirang.Api.Fanout
import Yirang.Agent.Fetching
import Yirang.Process.Kernel
import Yirang.Process.Supervisor
import Yirang.Process.Group
import Yirang.Process.Stopping
import Yirang.Process.Instance
import Yirang.Process.Tracked
import Yirang.Process.Intended
import Yirang.Process.Truth
import Yirang.Process.Contract
import Yirang.Process.Spawn
import Yirang.Bytes
import Yirang.Fs.Lexical
import Yirang.Fs.Native
import Yirang.Artifact.Key
import Yirang.Deploy.Inside
import Yirang.Agent.Settings
import Yirang.Release.Hex
import Yirang.Release.Digest
import Yirang.Cli.Moment
import Yirang.Release.Manifest
import Yirang.Agent.Envelope
import Yirang.Scanner
import Yirang.Fleet.Payload
import Yirang.Api.Body
import Yirang.Install.Session
import Yirang.Install.Activation
import Yirang.Install.Remains
import Yirang.Istream
import Yirang.Process.Identity
import Yirang.Install.Copying
import Yirang.Deploy.Confined
import Yirang.Agent.Ledger
import Yirang.Agent.Verified
import Yirang.Deploy.Undisturbed
import Yirang.Deploy.Established
import Yirang.Deploy.Repeated
import Yirang.Fs.Patch
import Yirang.Agent.Lasting
import Yirang.Agent.Serve
import Yirang.Agent.Configured
import Yirang.Agent.Redelivery
import Yirang.Cli.Console
import Yirang.Cli.Confirmed
import Yirang.Fleet.Orders
import Yirang.Fleet.Delivery
import Yirang.Fleet.Truthful
