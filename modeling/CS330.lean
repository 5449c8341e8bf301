import CS330.Lib.Bytes
import CS330.Lib.Machine
import CS330.Lib.Probe
import CS330.Lib.Radix
import CS330.ObjStore.State
import CS330.ObjStore.Cache
import CS330.ObjStore.Directory
import CS330.ObjStore.Blocks
import CS330.ObjStore.Files
import CS330.Spec.Tree
import CS330.ObjStore.Log
import CS330.ObjStore.View
import CS330.ObjStore.Alloc
import CS330.ObjStore.Cursor
import CS330.ObjStore.Owners
import CS330.ObjStore.Slots
import CS330.ObjStore.Keys
import CS330.ObjStore.Frame
import CS330.ObjStore.EntryWrites
import CS330.ObjStore.PointerWrites
import CS330.ObjStore.Writes
import CS330.ObjStore.Reads
import CS330.ObjStore.Trees
import CS330.ObjStore.Sound
import CS330.ObjStore.Mount
import CS330.ObjStore.Ops
import CS330.ObjStore.Exec
import CS330.ObjStore.Demand
import CS330.ObjStore.Turns
import CS330.Spec.Store
import CS330.ObjStore.Effects
import CS330.ObjStore.Space
import CS330.ObjStore.Remount
import CS330.ObjStore.Pages
import CS330.ObjStore.Session
import CS330.ObjStore.PageNames
import CS330.ObjStore.Runs
import CS330.ObjStore.Standing
import CS330.Spec.Content
import CS330.Spec.Directory
import CS330.Spec.Gaps
import CS330.ObjStore.Names
import CS330.ObjStore.References
import CS330.ObjStore.Accounting
import CS330.GemOS.Paging
import CS330.GemOS.Entries
import CS330.GemOS.Tables
import CS330.GemOS.Ledger
import CS330.GemOS.Lazy
import CS330.GemOS.Segments
import CS330.GemOS.Confined
import CS330.GemOS.Permissions
import CS330.GemOS.Launch
import CS330.GemOS.Built
import CS330.GemOS.Prepared
import CS330.GemOS.Output
import CS330.Sched.Schedule
import CS330.Sched.Roles
import CS330.Theorems.PutGet
import CS330.Theorems.Handles
import CS330.Theorems.Transparency
import CS330.Theorems.Unmount
import CS330.Theorems.Blocks
import CS330.Theorems.Holes
import CS330.Theorems.Bounds
import CS330.Theorems.PageTable
import CS330.Theorems.Confinement
import CS330.Theorems.Progress
import CS330.Theorems.AddressSpace
import CS330.Theorems.UserMemory
import CS330.Theorems.Balance
import CS330.Theorems.Scheduler
import CS330.Theorems.Space
import CS330.ObjStore.Fresh
import CS330.Theorems.PageCache
import CS330.Theorems.Directory
import CS330.Theorems.Limits
import CS330.Theorems.Lookup
import CS330.Theorems.Contents
import CS330.ObjStore.Beside
import CS330.Spec.KeyMap
import CS330.Theorems.Timing
import CS330.Theorems.Clones
import CS330.Theorems.FileSystem
import CS330.ObjStore.Alone
import CS330.Theorems.Threads
import CS330.Theorems.Isolation
import CS330.Theorems.Trie
import CS330.Theorems.Tlb
import CS330.Theorems.Coherence
