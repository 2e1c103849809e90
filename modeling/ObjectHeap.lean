import ObjectHeap.Heap.Lemmas
import ObjectHeap.Proofs.Accounting
import ObjectHeap.Proofs.Callbacks
import ObjectHeap.Proofs.DeepCopies
import ObjectHeap.Script.Run
import ObjectHeap.World.Lemmas
import ObjectHeap.Proofs.Classes
import ObjectHeap.Proofs.Refusals
import ObjectHeap.Proofs.Drops
import ObjectHeap.Proofs.Sharing
import ObjectHeap.Proofs.Receivers
import ObjectHeap.Proofs.Forms
import ObjectHeap.Proofs.Likeness
import ObjectHeap.Proofs.Precedence
import ObjectHeap.Proofs.Pooling
import ObjectHeap.Proofs.Access
import ObjectHeap.Proofs.FailedCopies
import ObjectHeap.Proofs.Transparency
import ObjectHeap.Proofs.Texts
import ObjectHeap.Proofs.Retries
import ObjectHeap.Proofs.Backlog
import ObjectHeap.Proofs.Forfeits
import ObjectHeap.Proofs.Overrides
import ObjectHeap.Proofs.Resemblance
import ObjectHeap.Proofs.Numbering
import ObjectHeap.Proofs.Bookkeeping
import ObjectHeap.Proofs.Identities
import ObjectHeap.Proofs.Charging
import ObjectHeap.Proofs.Depiction
import ObjectHeap.Proofs.Quotation
import ObjectHeap.Proofs.Excerpts
import ObjectHeap.Proofs.References
import ObjectHeap.Proofs.Stores
import ObjectHeap.Proofs.Constancy
