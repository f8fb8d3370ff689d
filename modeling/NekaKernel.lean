import NekaKernel.Foundation.Memory
import NekaKernel.Foundation.Run
import NekaKernel.Foundation.Tiling
import NekaKernel.Foundation.Gaps
import NekaKernel.Foundation.Words
import NekaKernel.Foundation.Ring
import NekaKernel.Foundation.Fifo
import NekaKernel.Foundation.Steps
import NekaKernel.Foundation.Records
import NekaKernel.Foundation.Trace
import NekaKernel.Foundation.Frames
import NekaKernel.Foundation.Walk
import NekaKernel.Foundation.Stores
import NekaKernel.Foundation.Fields
import NekaKernel.Foundation.Access
import NekaKernel.Foundation.Leads
import NekaKernel.Foundation.Processor
import NekaKernel.Kernel.Basic
import NekaKernel.Heap.Alloc
import NekaKernel.Heap.Represents
import NekaKernel.Heap.Refine
import NekaKernel.Heap.World
import NekaKernel.Heap.WellFormed
import NekaKernel.Heap.Canonical
import NekaKernel.Heap.Contract
import NekaKernel.Heap.FirstFit
import NekaKernel.Heap.DoubleFree
import NekaKernel.Heap.Accesses
import NekaKernel.Heap.Footprint
import NekaKernel.Heap.Concurrent
import NekaKernel.Heap.Linear
import NekaKernel.Heap.SelfTest
import NekaKernel.Sched.Scheduler
import NekaKernel.Sched.Exclusive
import NekaKernel.Sched.Queues
import NekaKernel.Sched.RoundRobin
import NekaKernel.Sched.Cr3
import NekaKernel.Sched.Sched32
import NekaKernel.Sched.Simulation
import NekaKernel.NKern.Machine
import NekaKernel.NKern.Shape
import NekaKernel.NKern.Stacks
import NekaKernel.NKern.Step
import NekaKernel.NKern.Lock
import NekaKernel.NKern.Counters
import NekaKernel.NKern.Masked
import NekaKernel.NKern.Restored
import NekaKernel.NKern.Simd
import NekaKernel.Context.Cpu
import NekaKernel.Context.Frame
import NekaKernel.Context.Machine
import NekaKernel.Context.Stacks
import NekaKernel.Context.Preserve
import NekaKernel.Context.Ring3
import NekaKernel.Memmap.Regions
import NekaKernel.Memmap.Enumerate
import NekaKernel.Memmap.Usable
import NekaKernel.Memmap.Search
import NekaKernel.Memmap.Parsers
import NekaKernel.Memmap.Image
import NekaKernel.Foundation.Latest
import NekaKernel.Console.Screen
import NekaKernel.Console.Machine
import NekaKernel.Console.PrintLock
import NekaKernel.Console.Cells
import NekaKernel.Console.Transcript
import NekaKernel.Keyboard.Buffer
import NekaKernel.Keyboard.Shift
import NekaKernel.Keyboard.Typing
import NekaKernel.Paging.Tables
import NekaKernel.Paging.Effects
import NekaKernel.Paging.Spaces
import NekaKernel.Paging.World
import NekaKernel.Paging.Isolation
import NekaKernel.Paging.Signatures
import NekaKernel.Paging.Frames
import NekaKernel.Paging.Sharing
import NekaKernel.Paging.KernelMap
import NekaKernel.Paging.Mmio
import NekaKernel.Paging.Commute
import NekaKernel.Acpi.Tables
import NekaKernel.Acpi.Rsdp
import NekaKernel.Acpi.Madt
import NekaKernel.Smp.Descriptors
import NekaKernel.Smp.Bringup
import NekaKernel.Smp.Runs
import NekaKernel.Smp.Protocol
import NekaKernel.Smp.Slots
import NekaKernel.Idt.Gates
import NekaKernel.Smp.Encoding
import NekaKernel.Acpi.Fields
import NekaKernel.Acpi.Mapped
import NekaKernel.Acpi.Malformed
import NekaKernel.Apic.Registers
import NekaKernel.Apic.Served
import NekaKernel.Paging.Program
import NekaKernel.Context.Interrupt
import NekaKernel.Context.UserProgram
import NekaKernel.Boot.LongMode
import NekaKernel.Boot.Start
import NekaKernel.Boot.Trampoline
