import NianPass.Kdbx.Siblings
import NianPass.Kdbx.Totality
import NianPass.Kdbx.HistoryMerge
import NianPass.Kdbx.Bulk
import NianPass.Kdbx.Recycling
import NianPass.Sync.Safety
import NianPass.Sync.Crash
import NianPass.Sync.Reset
import NianPass.Sync.Authority
import NianPass.Sync.Providers
import NianPass.Session.Generations
import NianPass.Session.Windows
import NianPass.Session.Publish
import NianPass.Gateway.Linearizable
import NianPass.Android.Curtain
import NianPass.Android.Requests
import NianPass.Android.Metadata
import NianPass.Android.Recovery
import NianPass.Browser.Connection
import NianPass.Mobile.Runs
import NianPass.Desktop.Credentials
import NianPass.Desktop.Passwords
import NianPass.Native.Agreement
import NianPass.Desktop.Approvals
import NianPass.Kdbx.WellFormed
import NianPass.Kdbx.Deletion
import NianPass.Kdbx.PngIcon
import NianPass.Kdbx.Tags
import NianPass.Kdbx.Atomicity
import NianPass.Kdbx.Totp
import NianPass.Native.Framing
import NianPass.Provider.Identities
import NianPass.Sync.Targets
import NianPass.Desktop.Locking
import NianPass.Desktop.Relations
import NianPass.Desktop.Window
