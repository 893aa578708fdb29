import LockOrder.Buffer.View
import LockOrder.Custody
import LockOrder.Ensemble
import LockOrder.Proofs.AccessSets.Latest
import LockOrder.Proofs.Crew.Uninterrupted
import LockOrder.Proofs.CurrentList.Batch
import LockOrder.Proofs.CurrentList.Boundaries
import LockOrder.Proofs.CurrentList.Races
import LockOrder.Proofs.CurrentList.Resume
import LockOrder.Proofs.Custody.Owners
import LockOrder.Proofs.Ensemble.Accounting
import LockOrder.Proofs.Ensemble.Deadlock
import LockOrder.Proofs.Ensemble.Representation
import LockOrder.Proofs.RetroList.InPlace
import LockOrder.Proofs.Worker.Accounting
import LockOrder.Proofs.Worker.Failures
import LockOrder.Proofs.Worker.Foreseen
import LockOrder.Proofs.Worker.Remembered
import LockOrder.Proofs.Worker.Room
import LockOrder.Proofs.Worker.Serializable
import LockOrder.Proofs.Worker.Sessions
import LockOrder.Proofs.Worker.StableReads
import LockOrder.Script
