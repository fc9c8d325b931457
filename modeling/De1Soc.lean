import De1Soc.Countdown
import De1Soc.Prefix
import De1Soc.Decimal
import De1Soc.Blinker
import De1Soc.Blinker.Config
import De1Soc.Blinker.Speed
import De1Soc.Blinker.Shift
import De1Soc.Blinker.Leds
import De1Soc.Blinker.Latch
import De1Soc.Blinker.Held
import De1Soc.Blinker.Collide
import De1Soc.Kernel.Prog
import De1Soc.Kernel.System
import De1Soc.Kernel.Locks
import De1Soc.Kernel.Exec
import De1Soc.Kernel.WaitQueue
import De1Soc.Kernel.Serial
import De1Soc.Driver
import De1Soc.Driver.Machine
import De1Soc.Driver.UserMem
import De1Soc.Driver.Config
import De1Soc.Driver.System
import De1Soc.Driver.Transfer
import De1Soc.Driver.Reader
import De1Soc.Driver.Interrupt
import De1Soc.Driver.Serial
import De1Soc.Driver.Buttons
import De1Soc.Probe
import De1Soc.Store
import De1Soc.Displays
import De1Soc.Driver.Failure
import De1Soc.Driver.Files
import De1Soc.Getopt
import De1Soc.Getopt.Scan
import De1Soc.Getopt.Loop
import De1Soc.Devmem
import De1Soc.Devmem.Parse
import De1Soc.Devmem.Lookup
import De1Soc.Getopt.Spelling
import De1Soc.Devmem.Spelling
import De1Soc.Driver.Progress
import De1Soc.Driver.Reports
import De1Soc.Driver.Counts
import De1Soc.Bus
import De1Soc.Gpio
import De1Soc.Devmem.Session
import De1Soc.Driver.Linear
import De1Soc.Blinker.Observe
import De1Soc.Devmem.Outcome
import De1Soc.Displays.Observe
import De1Soc.Paths
import De1Soc.Sysfs
import De1Soc.Driver.Atomic
import De1Soc.Driver.Fresh
import De1Soc.Double
import De1Soc.Image
import De1Soc.Image.Parse
import De1Soc.Image.Layout
import De1Soc.Image.Devices
import De1Soc.Image.Contents
