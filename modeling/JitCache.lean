import JitCache.Cache.Audit
import JitCache.Installer
import JitCache.Operation
import JitCache.Proofs.Accounting
import JitCache.Proofs.Collection.Reclaiming
import JitCache.Proofs.Lifecycle
import JitCache.Proofs.Refusals
import JitCache.Proofs.Slots
import JitCache.Proofs.Space.Calls
import JitCache.Settings.Reader
import JitCache.Proofs.Collection.Draining
import JitCache.Proofs.Collection.Pass
import JitCache.Proofs.Collection.Potential
import JitCache.Proofs.Collection.Progress
import JitCache.Proofs.Collection.Settling
import JitCache.Proofs.Addresses
import JitCache.Proofs.History
import JitCache.Proofs.Collection.Clearing
import JitCache.Proofs.Collection.Composition
import JitCache.Proofs.Conservation.Census
import JitCache.Proofs.Conservation.Counters
import JitCache.Proofs.Conservation
import JitCache.Proofs.Delivery
import JitCache.Proofs.Confinement
import JitCache.Proofs.Session.Events
import JitCache.Proofs.Tiering
import JitCache.Proofs.Isolation.View
import JitCache.Proofs.Isolation.Answers
import JitCache.Proofs.Isolation
import JitCache.Proofs.Space.Packing
import JitCache.Proofs.Space.FirstFit
import JitCache.Proofs.Audit
import JitCache.Proofs.Selection
import JitCache.Proofs.Collection.Interruption
import JitCache.Proofs.Collection.Fullness
import JitCache.Proofs.Collection.Itinerary
