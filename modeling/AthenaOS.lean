import AthenaOS.Aarch64.Mmu
import AthenaOS.AthFS.ExtentMap
import AthenaOS.AthFS.InodeRegion
import AthenaOS.AthFS.Isolation
import AthenaOS.AthFS.Lz4Bounds
import AthenaOS.AthFS.Orphan
import AthenaOS.AthFS.SnapshotBounds
import AthenaOS.AthSync.Merge
import AthenaOS.AthSync.Register
import AthenaOS.AthSync.Revocation
import AthenaOS.Athlang.Ranges
import AthenaOS.Athlang.Snapshot
import AthenaOS.Backup.Block
import AthenaOS.Backup.Chain
import AthenaOS.Capability.Interleaving
import AthenaOS.Capability.MmioMap
import AthenaOS.Csv.RoundTrip
import AthenaOS.Deflate.Adler
import AthenaOS.Diff.Script
import AthenaOS.Dns.Answers
import AthenaOS.Dns.NameCodec
import AthenaOS.Encode.Base64
import AthenaOS.Ipc.Lifetime
import AthenaOS.Json.RoundTrip
import AthenaOS.Keychain.Reopen
import AthenaOS.Kv.Batch
import AthenaOS.Kv.Corruption
import AthenaOS.Memory.FrameSafety
import AthenaOS.Net.Rules
import AthenaOS.Otp.Base32
import AthenaOS.Package.Cycles
import AthenaOS.Package.Installable
import AthenaOS.Package.Transaction
import AthenaOS.Package.Versions
import AthenaOS.Pim.Expansion
import AthenaOS.Pim.Ordinals
import AthenaOS.RegexEngine.Matches
import AthenaOS.Sandbox.Kill
import AthenaOS.Sched.Budget
import AthenaOS.Sched.Edf
import AthenaOS.Sched.Starvation
import AthenaOS.Tar.Metadata
import AthenaOS.Tar.Numbers
import AthenaOS.Tar.Sizes
import AthenaOS.Time.Civil
import AthenaOS.Timers.Idle
import AthenaOS.Timers.Late
import AthenaOS.Timers.Monotonic
import AthenaOS.Tmpfs.Calls
import AthenaOS.Update.Config
import AthenaOS.Wasm.Export
import AthenaOS.Wasm.Integers
import AthenaOS.Wasm.Package
import AthenaOS.Wasm.Skipping
import AthenaOS.WireGuard.Agreement
import AthenaOS.Zip.RoundTrip
import AthenaOS.Ipc.Delivery
