import Tragach.Attach.RingFull
import Tragach.Attach.Printed
import Tragach.Attach.Interleaving
import Tragach.Iowait.Window
import Tragach.Iowait.TornUpdates
import Tragach.Iowait.PidReuse
import Tragach.Iowait.Report
import Tragach.Iowait.Capacity
import Tragach.Slowquery.Reentrancy
import Tragach.Slowquery.Capacity
import Tragach.Slowquery.Characters
import Tragach.Slowquery.Noninterference
import Tragach.Slowquery.Registers
import Tragach.Slowquery.Commute
import Tragach.Slowquery.SmallIds
import Tragach.Slowquery.Printed
import Tragach.Slowquery.Processes
import Tragach.Slowquery.Startup
import Tragach.Slowquery.Interleaving
import Tragach.Delivery
import Tragach.Symbols
import Tragach.Pageio.Report
import Tragach.Pageio.BlockJoin
import Tragach.Pageio.Activity
import Tragach.Pageio.Interleaving
import Tragach.Pageio.Capacity
import Tragach.Pageio.TornSnapshots
import Tragach.Library.Footprints
