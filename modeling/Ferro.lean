import Ferro.Base.Arr
import Ferro.Base.Prog
import Ferro.Base.Chain
import Ferro.Base.Walk
import Ferro.Base.Slots
import Ferro.Base.Cursor
import Ferro.Base.Assoc
import Ferro.Base.Serve
import Ferro.Base.Tiling
import Ferro.Base.Splice
import Ferro.Base.Patch
import Ferro.Base.Transducer
import Ferro.Base.Latch
import Ferro.Base.Traced
import Ferro.Base.WriteBack
import Ferro.Base.Crc
import Ferro.Base.Drain
import Ferro.Types
import Ferro.Fat32.Model
import Ferro.Fat32.Volume
import Ferro.Fat32.WellFormed
import Ferro.Fat32.Lemmas.Names
import Ferro.Fat32.Lemmas.Layout
import Ferro.Fat32.Lemmas.Alloc
import Ferro.Fat32.Lemmas.Data
import Ferro.Fat32.Lemmas.Entries
import Ferro.Fat32.Lemmas.Dir
import Ferro.Fat32.Lemmas.Tree
import Ferro.Fat32.Lemmas.Fit
import Ferro.Fat32.Lemmas.WriteFile
import Ferro.Fat32.Lemmas.Update
import Ferro.Fat32.Lemmas.Crash
import Ferro.Fat32.Lemmas.Reach
import Ferro.Fat32.Lemmas.Calls
import Ferro.Fat32.Lemmas.Creation
import Ferro.Fat32.Lemmas.Card
import Ferro.Fat32.Lemmas.Listing
import Ferro.Fat32.Lemmas.Overwrite
import Ferro.Fat32.Lemmas.Read
import Ferro.Fat32.Lemmas.Contents
import Ferro.Fat32.Lemmas.Subdirs
import Ferro.Fat32.Theorems
import Ferro.Fat32.Mount
import Ferro.Fat32.Lemmas.Walks
import Ferro.Fat32.Walks
import Ferro.Fat32.Listing
import Ferro.Fat32.Paths
import Ferro.Fat32.Partition
import Ferro.Fat32.Chains
import Ferro.Fat32.Freeing
import Ferro.Variables.Model
import Ferro.Variables.Spec
import Ferro.Variables.Lemmas.Store
import Ferro.Variables.Lemmas.Saved
import Ferro.Variables.Lemmas.Load
import Ferro.Variables.Theorems
import Ferro.Variables.SavedForm
import Ferro.Persist.Model
import Ferro.Persist.Lemmas.Save
import Ferro.Persist.Lemmas.Cut
import Ferro.Persist.Lemmas.Merge
import Ferro.Persist.Theorems
import Ferro.Services.Model
import Ferro.Services.Lemmas.Session
import Ferro.Services.Theorems
import Ferro.Services.Enumeration
import Ferro.Memory.Model
import Ferro.Memory.Lemmas.Alloc
import Ferro.Memory.Lemmas.Map
import Ferro.Memory.Theorems
import Ferro.Boot.Protocols
import Ferro.Boot.Events
import Ferro.Boot.Pe
import Ferro.Boot.Model
import Ferro.Boot.Lemmas.Inversion
import Ferro.Boot.Lemmas.Effects
import Ferro.Boot.Lemmas.Steps
import Ferro.Boot.Lemmas.Runs
import Ferro.Boot.Lemmas.Image
import Ferro.Boot.Lemmas.Reloc
import Ferro.Boot.Lemmas.Load
import Ferro.Boot.Lemmas.Access
import Ferro.Boot.Theorems
import Ferro.Boot.Loader
import Ferro.Boot.Lemmas.Database
import Ferro.Boot.Lemmas.Bindings
import Ferro.Boot.Database
import Ferro.Boot.Handles
import Ferro.Boot.HandleLeaks
import Ferro.Boot.AllHandles
import Ferro.Boot.SystemTable
import Ferro.Boot.Checksum
import Ferro.Boot.Crc32
import Ferro.Boot.ConfigTable
import Ferro.Boot.Ticks
import Ferro.Boot.Lemmas.Events
import Ferro.Boot.Lemmas.EventCalls
import Ferro.Boot.Signals
import Ferro.Boot.Timers
import Ferro.Console.Input
import Ferro.Console.Readiness
import Ferro.Console.Decoding
import Ferro.Console.Delivery
import Ferro.Console.Menu
import Ferro.Console.Output
import Ferro.Console.Cursor
import Ferro.Files.Model
import Ferro.Files.Spec
import Ferro.Files.Lemmas.Slots
import Ferro.Files.Lemmas.Steps
import Ferro.Files.Lemmas.Handles
import Ferro.Files.Lemmas.Runs
import Ferro.Files.Lemmas.Sync
import Ferro.Files.Lemmas.Subdirs
import Ferro.Files.Lemmas.Opening
import Ferro.Files.Lemmas.Sharing
import Ferro.Files.Theorems
import Ferro.Files.Directories
import Ferro.Files.DirReads
import Ferro.Files.Names
import Ferro.Files.Absolute
import Ferro.Files.FailedOpen
import Ferro.Files.OpenFaults
import Ferro.Block.Model
import Ferro.Block.Theorems
import Ferro.Block.Controller
import Ferro.Block.Errors
import Ferro.Boot.DevicePath
import Ferro.Services.Settings
import Ferro.Usb.Transfer
import Ferro.Usb.Received
import Ferro.Usb.Enumeration
import Ferro.Usb.Addresses
import Ferro.Base.Coherence
import Ferro.Base.Raster
import Ferro.Base.Weights
import Ferro.Variables.Storage
import Ferro.Display.Font
import Ferro.Display.Framebuffer
import Ferro.Display.Pixels
import Ferro.Display.Regions
import Ferro.Display.Runs
import Ferro.Base.Terminal
import Ferro.Console.Rendering
import Ferro.Base.Translation
import Ferro.Memory.Mmu
import Ferro.Memory.Mapped
import Ferro.Base.Tags
import Ferro.Base.Words
import Ferro.Display.Mailbox
import Ferro.Display.Allocate
import Ferro.Base.Countdown
import Ferro.Services.Watchdog
import Ferro.Services.Storage
import Ferro.Base.Separated
import Ferro.Menu.Screens
import Ferro.Menu.Wrap
import Ferro.Menu.Idle
import Ferro.Base.Monitor
import Ferro.Block.Init
import Ferro.Block.Protocol
import Ferro.Block.Commands
import Ferro.Block.Runs
import Ferro.Usb.Descriptors
import Ferro.Usb.Keyboard
