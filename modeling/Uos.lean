import Uos.Kernel.Deletion
import Uos.Kernel.Preemption
import Uos.Kernel.Signals
import Uos.Kernel.Inheritance
import Uos.Net.Delivery
import Uos.Net.Disposal
import Uos.Net.Tcp.ListAxioms
import Uos.Net.Tcp.Synchronised
import Uos.Net.Bridge.Local
import Uos.Snmp.Mirror
import Uos.Uart.SlipFrames
import Uos.Uart.SlipOrder
import Uos.Uart.Written
import Uos.Uart.Getchar
import Uos.Snmp.Reported
import Uos.Mem.Runs
import Uos.Mem.Queue
import Uos.Kernel.Recalculation
import Uos.Kernel.Nesting
import Uos.Nvram.Interruption
import Uos.Fat.Children
import Uos.Net.Tcp.GiveUp
import Uos.Net.Tcp.QueueLength
import Uos.Net.Tcp.SendBuffer
import Uos.Net.Tcp.Window
import Uos.Net.Tcp.Options
import Uos.Net.Tcp.Enqueue
import Uos.Net.SourceAddress
import Uos.Net.PseudoChksum
import Uos.Buf.PrioQueue
import Uos.Buf.Chains
import Uos.Net.Arp
import Uos.Net.UdpInput
import Uos.Snmp.Capacity
import Uos.Snmp.RouteWrites
import Uos.Net.Tcp.Rtt
import Uos.Crc.CrcRmon
import Uos.Timer.Delay
import Uos.Snmp.Identifiers
import Uos.Snmp.Room
import Uos.Timer.UserTimers
import Uos.Snmp.DeepCopy
import Uos.Snmp.TrapAge
import Uos.Net.Telnet
import Uos.Stream.Fifos
import Uos.Snmp.Successor
import Uos.Fs.DirEntries
import Uos.Fs.RootDirectory
import Uos.Flash.Paging
import Uos.Input.KeyboardQueue
import Uos.Usb.Packets
import Uos.Nvram.Words
import Uos.Crc.Crc16AndAtm
import Uos.Time.LeapSeconds
import Uos.Time.Calendar
import Uos.Net.Enc28j60
import Uos.Stream.ScanNumber
