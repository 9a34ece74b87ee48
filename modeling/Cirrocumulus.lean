import Cirrocumulus.Node.Traffic
import Cirrocumulus.Node.Shutdown
import Cirrocumulus.Ssh.KnownHosts
import Cirrocumulus.Ssh.Forwards
import Cirrocumulus.Ssh.HostKeys
import Cirrocumulus.Node.Leftovers
import Cirrocumulus.Site.Names
import Cirrocumulus.Node.Resumed
import Cirrocumulus.Node.LogsKept
import Cirrocumulus.Guest.Vsock
import Cirrocumulus.Node.LogFollow
import Cirrocumulus.Node.Egress
import Cirrocumulus.Node.EndReasons
import Cirrocumulus.Node.Simulation
import Cirrocumulus.Node.Unavailable
import Cirrocumulus.Node.SweepNames
import Cirrocumulus.Image.LinkOrder
import Cirrocumulus.Guest.Signals
import Cirrocumulus.Node.Database
import Cirrocumulus.Image.CachePulls
import Cirrocumulus.Node.Teardown
import Cirrocumulus.Ssh.Atomic
import Cirrocumulus.Node.Replies
import Cirrocumulus.Guest.Environment
import Cirrocumulus.HttpEdge.Headers
import Cirrocumulus.Node.Uninstall
import Cirrocumulus.Node.Metrics
import Cirrocumulus.Node.ProcStat
import Cirrocumulus.HttpEdge.Acme
