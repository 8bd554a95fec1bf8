import Mempool.Model.Machine
import Mempool.Model.Pool
import Mempool.Model.Init
import Mempool.Model.Run
import Mempool.Model.Threads
import Mempool.Model.V2
import Mempool.Spec.Lifo
import Mempool.Proof.FreeList
import Mempool.Proof.Rep
import Mempool.Proof.Ops
import Mempool.Proof.Step
import Mempool.Proof.InitSpec
import Mempool.Proof.InitLimits
import Mempool.Proof.Refinement
import Mempool.Proof.Safety
import Mempool.Proof.Frame
import Mempool.Proof.Footprint
import Mempool.Proof.Stats
import Mempool.Proof.V2Equiv
import Mempool.Proof.Index
import Mempool.Proof.Reset
import Mempool.Proof.InitFailure
import Mempool.Proof.Locking
import Mempool.Proof.Linearizable
import Mempool.Proof.LinkWrites
import Mempool.Proof.Portability
import Mempool.Proof.Careless
import Mempool.Proof.Isolation
