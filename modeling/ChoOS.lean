import ChoOS.Lib.Descriptor
import ChoOS.Lib.Pic
import ChoOS.Lib.Pit
import ChoOS.Lib.Memory
import ChoOS.Lib.Seg
import ChoOS.Lib.Stack
import ChoOS.Lib.Trace
import ChoOS.Lib.Fifo
import ChoOS.Lib.Bitmap
import ChoOS.Lib.Nest
import ChoOS.Lib.Numeral
import ChoOS.Lib.Nondet
import ChoOS.Libc.String
import ChoOS.Libc.Convert
import ChoOS.Libc.Decimal
import ChoOS.Libc.Vprintf
import ChoOS.Libc.Result
import ChoOS.Libc.Format
import ChoOS.Basic
import ChoOS.Heap.Allocators
import ChoOS.Heap.Blocks
import ChoOS.Heap.Invariant
import ChoOS.Heap.Listing
import ChoOS.Heap.Spec
import ChoOS.Heap.Run
import ChoOS.Heap.Store
import ChoOS.Paging.Frames
import ChoOS.Paging.Owned
import ChoOS.Paging.Account
import ChoOS.Paging.Vmm
import ChoOS.Paging.Map
import ChoOS.Paging.Directory
import ChoOS.Paging.Machine
import ChoOS.Paging.HeapPages
import ChoOS.Paging.MemoryMap
import ChoOS.Paging.Capacity
import ChoOS.Paging.Boot
import ChoOS.Paging.Range
import ChoOS.Paging.Tlb
import ChoOS.Paging.Below
import ChoOS.Heap.Brk
import ChoOS.Heap.Honest
import ChoOS.Heap.Layout
import ChoOS.Heap.FirstFit
import ChoOS.Heap.Overlap
import ChoOS.Sched.Scheduler
import ChoOS.Sched.Sections
import ChoOS.Sched.Transparent
import ChoOS.Sched.Lists
import ChoOS.Sched.Queue
import ChoOS.Sched.TaskState
import ChoOS.Sched.Sleep
import ChoOS.Sched.Locks
import ChoOS.Sched.Interrupts
import ChoOS.Sched.Switch
import ChoOS.Sched.Context
import ChoOS.Sched.Wake
import ChoOS.Sched.WakeUp
import ChoOS.Sched.RoundRobin
import ChoOS.Sched.Deadline
import ChoOS.Sched.TimeUsed
import ChoOS.Sched.Cleanup
import ChoOS.Sched.Roster
import ChoOS.Sched.Clock
import ChoOS.Heap.Break
import ChoOS.Heap.Loops
import ChoOS.Heap.Mapped
import ChoOS.Heap.Shared
import ChoOS.Heap.Shrink
import ChoOS.Heap.Rollback
import ChoOS.Heap.SetBreak
import ChoOS.Heap.Calloc
import ChoOS.Heap.DoubleFree
import ChoOS.Heap.Growth
import ChoOS.Heap.VirtToPhys
import ChoOS.Terminal.Tty
import ChoOS.Terminal.Window
import ChoOS.Terminal.Console
import ChoOS.Terminal.HeapLog
import ChoOS.Interrupts.Stubs
import ChoOS.Interrupts.Idt
import ChoOS.Interrupts.Exceptions
import ChoOS.Interrupts.Gdt
import ChoOS.Interrupts.Pic
import ChoOS.Interrupts.Nested
import ChoOS.Interrupts.Keyboard
import ChoOS.Interrupts.Timer
import ChoOS.Interrupts.Tick
