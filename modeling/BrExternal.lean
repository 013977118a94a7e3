import BrExternal.Lib.Lts
import BrExternal.Lib.Shell
import BrExternal.Publish.Consistency
import BrExternal.Publish.Precedence
import BrExternal.Publish.Staging
import BrExternal.Publish.Queue
import BrExternal.Artifacts.Cleanup
import BrExternal.Gadget.Serial
import BrExternal.Netwatch.Restart
import BrExternal.Netwatch.Snapshot
import BrExternal.Zenoh.Acl
import BrExternal.Acceptance.Verdict
import BrExternal.Bluetooth.Progress
import BrExternal.Bluetooth.Ldisc
import BrExternal.Bluetooth.Attach
import BrExternal.Bluetooth.Config
import BrExternal.Bluetooth.FinalPatch
import BrExternal.Bluetooth.H4
