import Webshell.Auth.Allowlist
import Webshell.Auth.Config
import Webshell.Auth.EnrollmentFile
import Webshell.Auth.Factors
import Webshell.Auth.FirstFactor
import Webshell.Auth.Identity
import Webshell.Auth.Login
import Webshell.Auth.Provenance
import Webshell.Auth.ReplayGuard
import Webshell.Auth.SecondFactor
import Webshell.Auth.Session
import Webshell.Auth.Totp
import Webshell.Auth.Base32
import Webshell.Auth.AuthorizeUrl
import Webshell.Lib.Bits
import Webshell.Lib.Percent
import Webshell.Lib.Words
import Webshell.Lib.Along
import Webshell.Lib.Broadcast
import Webshell.Lib.History
import Webshell.Lib.SyncChannel
import Webshell.Lib.Table
import Webshell.Lib.Text
import Webshell.Lib.Transition
import Webshell.Lib.Watch
import Webshell.Lib.WriteLog
import Webshell.Pty.Client
import Webshell.Pty.Containment
import Webshell.Pty.Fence
import Webshell.Pty.Mux
import Webshell.Pty.ReadOnly
import Webshell.Pty.Seam
import Webshell.Pty.Stream
import Webshell.Pty.StreamIntegrity
import Webshell.Share.EndOfShare
import Webshell.Share.Store
import Webshell.Share.Viewer
import Webshell.Terminals.Attach
import Webshell.Terminals.ModeTracker
import Webshell.Terminals.Replay
import Webshell.Terminals.Scrollback
import Webshell.Terminals.Shutdown
import Webshell.Auth.SessionFile
import Webshell.Auth.Devices
import Webshell.Auth.DeviceFile
import Webshell.Auth.Revocation
import Webshell.Pty.Logout
import Webshell.Terminals.Reaping
import Webshell.Auth.Lockout
import Webshell.Pty.LastWords
import Webshell.Pty.Queued
import Webshell.Pty.Snapshot
import Webshell.Lib.Base64
import Webshell.Share.Note
import Webshell.Auth.OnDisk
import Webshell.Auth.Aliases
import Webshell.Auth.Stores
import Webshell.Share.Token
import Webshell.Auth.EnrolledOnce
import Webshell.Auth.FlowUse
import Webshell.Share.Views
import Webshell.Terminals.Pools
import Webshell.Terminals.PoolSteps
import Webshell.Terminals.OneShell
import Webshell.Terminals.SlotLocks
import Webshell.Auth.SessionAge
import Webshell.Pty.Typed
import Webshell.Browser.Mouse
import Webshell.Browser.Session
import Webshell.App.Csrf
import Webshell.Lib.Erasure
import Webshell.Terminals.Bridge
import Webshell.Terminals.TwoRuns
import Webshell.Auth.Eviction
import Webshell.Auth.Strikes
import Webshell.Terminals.Ring
import Webshell.Auth.StaleDevice
import Webshell.Lib.IpAddr
import Webshell.Lib.Json
import Webshell.Share.Caps
import Webshell.Terminals.Rebuild
import Webshell.Terminals.Truncation
import Webshell.Pty.Hello
import Webshell.Auth.Ceiling
import Webshell.Lib.CaseMapping
import Webshell.Lib.Checked
import Webshell.App.Settings
import Webshell.App.Certs
import Webshell.App.OneHost
import Webshell.App.PagePolicy
import Webshell.Auth.PasswordKeys
import Webshell.App.Simple
import Webshell.App.Durations
import Webshell.App.Budget
import Webshell.Lib.Words
