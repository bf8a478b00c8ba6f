import Kvpack.Core.Theorems.Derivations
import Kvpack.Core.Theorems.Rounding
import Kvpack.Core.Theorems.Transform
import Kvpack.Store.Theorems.Publication
import Kvpack.Store.Theorems.Lives
import Kvpack.Store.Theorems.Sessions
import Kvpack.Store.Theorems.Handing
import Kvpack.Store.Theorems.Eviction
import Kvpack.Store.Theorems.Audit
import Kvpack.Store.Theorems.Outbox
import Kvpack.Store.Theorems.Fencing
import Kvpack.Store.Theorems.Fill
import Kvpack.Store.Theorems.Intent
import Kvpack.Restore.Theorems
import Kvpack.Restore.Theorems.Cache
import Kvpack.Restore.Theorems.Parallel
import Kvpack.Prefill.Theorems.Relocate
import Kvpack.Handoff.Theorems.V2
import Kvpack.Handoff.Theorems.Manifest
import Kvpack.Handoff.Theorems.Coordinator
import Kvpack.Handoff.Theorems.Frame
