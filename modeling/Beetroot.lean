import Beetroot.Lib.Dict
import Beetroot.Lib.Prog
import Beetroot.Lib.Interrupt
import Beetroot.Lib.RwLock
import Beetroot.Lib.Run
import Beetroot.Lib.Fs
import Beetroot.Lib.Eff
import Beetroot.Lib.Resolve
import Beetroot.Lib.Walk
import Beetroot.Lib.Flock
import Beetroot.Lib.Checked
import Beetroot.Lib.Double
import Beetroot.Lib.Tree
import Beetroot.Lib.Lines
import Beetroot.Lib.Shell
import Beetroot.Lib.Posix
import Beetroot.Lib.Str
import Beetroot.Lib.Search
import Beetroot.Lib.Options
import Beetroot.Lib.Piece
import Beetroot.Lib.Mean
import Beetroot.Lib.Decoder
import Beetroot.Lib.Script
import Beetroot.Lib.Poll
import Beetroot.Lib.Ini
import Beetroot.Lib.Template
import Beetroot.Lib.Transcript
import Beetroot.Ports
import Beetroot.Ports.Bands
import Beetroot.Config
import Beetroot.Config.Text
import Beetroot.Config.Schema
import Beetroot.Config.Load
import Beetroot.Config.RoundTrip
import Beetroot.Config.Escape
import Beetroot.Config.Env
import Beetroot.Config.Denylist
import Beetroot.Registry.Schema
import Beetroot.Registry.Store
import Beetroot.Registry.Sections
import Beetroot.Registry.KindFlip
import Beetroot.Registry.RoundTrip
import Beetroot.Registry.RowDrop
import Beetroot.Registry.Migration
import Beetroot.Registry.Linearize
import Beetroot.Host
import Beetroot.Registration.Machine
import Beetroot.Registration.Overlap
import Beetroot.Registration.PortRace
import Beetroot.Registration.Staging
import Beetroot.Registration.Scan
import Beetroot.Registration.Adopt
import Beetroot.Registration.Reconcile
import Beetroot.Instance.Site
import Beetroot.Instance.Create
import Beetroot.Instance.Modules
import Beetroot.Instance.Rewrite
import Beetroot.Instance.CopyData
import Beetroot.Instance.FromData
import Beetroot.Instance.Exclusion
import Beetroot.Instance.Flash
import Beetroot.Instance.Links
import Beetroot.Instance.Sources
import Beetroot.Instance.StagedNames
import Beetroot.Instance.Listing
import Beetroot.Instance.Fanout
import Beetroot.Instance.UrlCache
import Beetroot.Frida.Download
import Beetroot.Frida.Stage
import Beetroot.Build.Marker
import Beetroot.Build.Prebuilt
import Beetroot.Build.BakedVersion
import Beetroot.Build.Clone
import Beetroot.Build.Rootfs
import Beetroot.Build.Bake
import Beetroot.Boot.Scripts
import Beetroot.Boot.Outcome
import Beetroot.Boot.Zygisk
import Beetroot.Adb.Shell
import Beetroot.Adb.Install
import Beetroot.Snapshot.Pack
import Beetroot.Snapshot.Restore
import Beetroot.Snapshot.Fidelity
import Beetroot.Snapshot.Layout
import Beetroot.Vm.Qemu
import Beetroot.Vm.Recognise
import Beetroot.Vm.Options
import Beetroot.Vm.Monitor
import Beetroot.Vm.Backend
import Beetroot.Vm.Checkpoint
import Beetroot.Vm.Fingerprint
import Beetroot.Vm.Refusal
import Beetroot.Vm.Teardown
import Beetroot.Vm.Orphan
import Beetroot.Vm.GuestInit
import Beetroot.Vm.GuestStory
import Beetroot.Vm.GuestBoot
import Beetroot.Vm.Baked
import Beetroot.Compose.Reach
import Beetroot.Scripts.Bench
