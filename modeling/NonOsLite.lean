import NonOsLite.Console.CmdExec
import NonOsLite.Console.LineEditor
import NonOsLite.Console.Strtok
import NonOsLite.Dma.Drivers
import NonOsLite.Dma.Frame
import NonOsLite.Dma.Registers
import NonOsLite.Heap.Allocate
import NonOsLite.Heap.Bins
import NonOsLite.Heap.Blocks
import NonOsLite.Heap.Calloc
import NonOsLite.Heap.Contract
import NonOsLite.Heap.Edits
import NonOsLite.Heap.Extend
import NonOsLite.Heap.Free
import NonOsLite.Heap.Layout
import NonOsLite.Heap.Malloc
import NonOsLite.Heap.Merging
import NonOsLite.Heap.Morecore
import NonOsLite.Heap.Release
import NonOsLite.Heap.Runs
import NonOsLite.Heap.Search
import NonOsLite.Heap.Trim
import NonOsLite.Interrupt.Dispatch
import NonOsLite.Interrupt.TriggerType
import NonOsLite.Lib.Blocks
import NonOsLite.Lib.BoundaryTags
import NonOsLite.Lib.BoundedSink
import NonOsLite.Lib.ByteBuf
import NonOsLite.Lib.Coverage
import NonOsLite.Lib.History
import NonOsLite.Lib.InsertionSort
import NonOsLite.Lib.LastWrite
import NonOsLite.Lib.LineEdit
import NonOsLite.Lib.LinkedTable
import NonOsLite.Lib.Machine
import NonOsLite.Lib.OnesComplement
import NonOsLite.Lib.Positional
import NonOsLite.Lib.RegisterBits
import NonOsLite.Lib.Ring
import NonOsLite.Lib.Terminated
import NonOsLite.Lib.Tokens
import NonOsLite.Lib.WideCounter
import NonOsLite.Lib.WordWalk
import NonOsLite.Lib.Words
import NonOsLite.Libc.Bsearch
import NonOsLite.Libc.CInt
import NonOsLite.Libc.Div64
import NonOsLite.Libc.Ltoa
import NonOsLite.Libc.MemBlock
import NonOsLite.Libc.MemScan
import NonOsLite.Libc.Qsort
import NonOsLite.Libc.Sbrk
import NonOsLite.Libc.Strnstr
import NonOsLite.Libc.Strtol
import NonOsLite.Libc.Strtoul
import NonOsLite.Net.Acceptance
import NonOsLite.Net.AckSafety
import NonOsLite.Net.Arp
import NonOsLite.Net.ArpHold
import NonOsLite.Net.ArpRetry
import NonOsLite.Net.ArpWait
import NonOsLite.Net.Checksum
import NonOsLite.Net.Cleanup
import NonOsLite.Net.Core
import NonOsLite.Net.Defrag
import NonOsLite.Net.DefragHoles
import NonOsLite.Net.Delivery
import NonOsLite.Net.Echo
import NonOsLite.Net.Effects
import NonOsLite.Net.Holes
import NonOsLite.Net.IpText
import NonOsLite.Net.Isolation
import NonOsLite.Net.Lengths
import NonOsLite.Net.Lockstep
import NonOsLite.Net.Loop
import NonOsLite.Net.Negotiation
import NonOsLite.Net.Oack
import NonOsLite.Net.Outcome
import NonOsLite.Net.Ping
import NonOsLite.Net.Reassembly
import NonOsLite.Net.Receive
import NonOsLite.Net.Receiver
import NonOsLite.Net.Request
import NonOsLite.Net.RoundTrip
import NonOsLite.Net.Session
import NonOsLite.Net.Stale
import NonOsLite.Net.State
import NonOsLite.Net.Storing
import NonOsLite.Net.Tftp
import NonOsLite.Net.TftpRun
import NonOsLite.Net.Tftpboot
import NonOsLite.Net.Timeout
import NonOsLite.Net.Watchdog
import NonOsLite.Net.Wire
import NonOsLite.Stdio.FormatText
import NonOsLite.Stdio.NumberLayout
import NonOsLite.Stdio.Numeral
import NonOsLite.Stdio.Printf
import NonOsLite.Stdio.Scanf
import NonOsLite.Stdio.ScanfIntegers
import NonOsLite.Stdio.ScanfRun
import NonOsLite.Stdio.Snprintf
import NonOsLite.Timer.Clock
import NonOsLite.Timer.Control
import NonOsLite.Timer.Ticks
import NonOsLite.Timer.Udelay
