import BeagleKernel.Lib.Walk
import BeagleKernel.Fat32.Volume
import BeagleKernel.Fat32.Mount
import BeagleKernel.Proofs.Broken
import BeagleKernel.Proofs.Cursor
import BeagleKernel.Proofs.Mount
import BeagleKernel.Proofs.Lookup
import BeagleKernel.Proofs.RoundRobin
import BeagleKernel.Proofs.OsStack
import BeagleKernel.Lib.ArmMask
import BeagleKernel.Proofs.Interrupts
import BeagleKernel.Proofs.Frames
import BeagleKernel.Lib.Fill
import BeagleKernel.Proofs.Layout
import BeagleKernel.Proofs.Decode
import BeagleKernel.Proofs.Unpartitioned
import BeagleKernel.Proofs.Stuck
import BeagleKernel.Proofs.Joystick
import BeagleKernel.Proofs.Lines
import BeagleKernel.Proofs.Searches
import BeagleKernel.Proofs.ReadLog
import BeagleKernel.Proofs.Inside
import BeagleKernel.Proofs.Buffers
import BeagleKernel.Proofs.Usable
import BeagleKernel.Proofs.Readers
import BeagleKernel.Proofs.FirstMatch
import BeagleKernel.Proofs.Endless
import BeagleKernel.Proofs.ReadContract
import BeagleKernel.Fat32.Components
import BeagleKernel.Proofs.Components
import BeagleKernel.Proofs.Causes
import BeagleKernel.Switch.Startup
import BeagleKernel.Proofs.Startup
import BeagleKernel.Lib.Numeral
import BeagleKernel.Lib.Reverse
import BeagleKernel.Uart.Print
import BeagleKernel.Proofs.Format
import BeagleKernel.Proofs.OneLine
import BeagleKernel.Proofs.MotorBuffer
import BeagleKernel.Proofs.FirstLabel
import BeagleKernel.Proofs.Create
import BeagleKernel.Proofs.Accounting
import BeagleKernel.Proofs.Bss
import BeagleKernel.Mmu.Descriptor
import BeagleKernel.Proofs.Descriptor
import BeagleKernel.Lib.Polled
import BeagleKernel.Boot.Mmc
import BeagleKernel.Proofs.Mmc
import BeagleKernel.Proofs.Levenshtein
import BeagleKernel.Drivers.Motor
import BeagleKernel.Proofs.Motor
import BeagleKernel.Proofs.MotorRead
import BeagleKernel.Proofs.Ddr
import BeagleKernel.Proofs.Dispatch
import BeagleKernel.Proofs.Name
import BeagleKernel.Proofs.Split
import BeagleKernel.Proofs.ShortName
import BeagleKernel.Proofs.Robot
import BeagleKernel.Proofs.Load
import BeagleKernel.Proofs.Boot
import BeagleKernel.Proofs.Printf
import BeagleKernel.Proofs.Card
import BeagleKernel.Proofs.Unnoticed
import BeagleKernel.Proofs.Intc
import BeagleKernel.Proofs.Serial
import BeagleKernel.Proofs.Console
import BeagleKernel.Proofs.Timer
import BeagleKernel.Proofs.Panic
import BeagleKernel.Proofs.Session
