import CenturyRing.Framework.System
import CenturyRing.Framework.Fallible
import CenturyRing.Framework.Fifo
import CenturyRing.Framework.Service
import CenturyRing.Framework.Numerals
import CenturyRing.Framework.Liveness
import CenturyRing.Calls
import CenturyRing.Chains
import CenturyRing.Events
import CenturyRing.Leaks
import CenturyRing.Preparations
import CenturyRing.HandleRuns
import CenturyRing.Closings
import CenturyRing.TimedWaits
import CenturyRing.Waits
import CenturyRing.Wakeup
import CenturyRing.Routing
import CenturyRing.Overflow
import CenturyRing.Ranges
import CenturyRing.Paths
import CenturyRing.Buffers
import CenturyRing.Frames
import CenturyRing.RawCalls
import CenturyRing.DrainLoop
import CenturyRing.SidecarSessions
import CenturyRing.SidecarRings
import CenturyRing.Service
import CenturyRing.Answers
import CenturyRing.EventLoop
import CenturyRing.Returns
import CenturyRing.AddressText
import CenturyRing.Wrapper
import CenturyRing.Connects
