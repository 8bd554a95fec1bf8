import Mempool.Model.Run

/-!
# `Model/Threads.lean` — threads sharing one pool

The library's concurrency contract: with a hook installed by `mempool_set_sync` whose `lock` and
`unlock` implement mutual exclusion, any number of threads may call `mempool_alloc`,
`mempool_free`, `mempool_get_stats` and `mempool_contains` on one pool (`SharedCall`); `init`,
`reset` and `set_sync` are not called concurrently.

Each of the first three calls is split where the source calls `mempool_internal_lock`. The checks
before it (`preLock`) read only fields of the control block that `mempool_init` writes, so they
are a function of `Shape`; the critical section (`critical`) runs on the state it starts in.
`mempool_contains` takes no lock and is all checks.

A thread is `idle` between calls, `waiting` at `mempool_internal_lock` with a call whose checks
passed, or `inside` its critical section once `mempool_internal_lock` has returned. That call
is where the hook matters (`ConcStep.lock`): when it calls the hook's `lock`, which implements
mutual exclusion, it returns only while no other thread is inside; when the pool has no hook
it returns at once, and the critical sections of several threads overlap. Two threads inside at
once write the control block concurrently, a data race that makes the whole execution undefined
(C11 §5.1.2.4p25): such a state is `Conc.Racy`, and what the model's later steps do from it
means nothing. In a state that is not racy the one thread inside has the control block, the
bitmap and the free blocks to itself, so its critical section runs as one step on the shared
state (`ConcStep.unlock`), at any time between its `lock` and its return.

`ConcStep` lets any thread move at any time: start a call (returning at once when a check fails,
or for `mempool_contains`), get past the lock, run its critical section and unlock, or store into
a block held. `Conc.done` records each completed call with its thread, in the order the calls
took effect: at the check for a call that returned there, at the critical section otherwise.
-/
set_option autoImplicit false

namespace Mempool

/-- The calls threads may make concurrently. -/
inductive SharedCall
  | alloc (block : Nat)
  | free (block : Nat)
  | getStats (stats : Nat)
  | contains (ptr : Nat)
  deriving DecidableEq, Repr

/-- The same call, as the sequential client makes it. -/
def SharedCall.toCall : SharedCall → Call
  | .alloc block => .alloc block
  | .free block => .free block
  | .getStats stats => .getStats stats
  | .contains ptr => .contains ptr

/-- `blocks_start + total_blocks * block_size` in `uintptr_t`, as `mempool_free` and
`mempool_contains` compute it before any lock. -/
def Shape.blocksEnd (A : Arch) (p : Shape) : Nat :=
  A.wrap (p.blocksStart + A.wrap (p.totalBlocks.toNat * p.blockSize.toNat))

/-- What a call does before `mempool_internal_lock`, on a control block of shape `p`:
`some (some r)` when it returns `r` there, `some none` when it goes on to take the lock, and
`none` when the checks themselves have undefined behaviour. -/
def preLock (A : Arch) (p : Shape) : SharedCall → Option (Option Reply)
  | .alloc block =>
    if block = 0 then some (some (.code .errNullPtr))
    else if !p.initialized then some (some (.code .errNotInitialized))
    else some none
  | .free block =>
    if block = 0 then some (some (.code .errNullPtr))
    else if !p.initialized then some (some (.code .errNotInitialized))
    else if block < p.blocksStart ∨ p.blocksEnd A ≤ block then
      some (some (.code .errInvalidBlock))
    else (umod (A.sub block p.blocksStart) p.blockSize.toNat).map fun rem =>
      if rem ≠ 0 then some (.code .errInvalidBlock) else none
  | .getStats stats =>
    if stats = 0 then some (some (.code .errNullPtr))
    else if !p.initialized then some (some (.code .errNotInitialized))
    else some none
  | .contains ptr =>
    some (some (.member (if ptr = 0 ∨ !p.initialized then false
      else decide (p.blocksStart ≤ ptr ∧ ptr < p.blocksEnd A))))

/-- The critical section of a call, between `mempool_internal_lock` and
`mempool_internal_unlock`, on the state the lock is taken in. `mempool_contains` has none. -/
def critical (A : Arch) (s : State) : SharedCall → Option (Reply × State)
  | .alloc _ => (allocBody A s).map fun b => ((locked s b).reply .block, b.2.1)
  | .free block => (freeBody A s block).map fun b => (.code b.1, b.2.1)
  | .getStats _ => some ((locked s (.ok, s, some s.pool.stats)).reply .stats, s)
  | .contains _ => none

/-- What a thread is doing. -/
inductive Phase
  | idle
  | waiting (c : SharedCall)
  | inside (c : SharedCall)

/-- A pool shared by threads: its state, each thread's phase, and the completed calls with their
threads, the one that took effect last first. -/
structure Conc where
  shared : State
  phase : Nat → Phase
  done : List (Nat × Call × Reply)

/-- The sequential history the completed calls make, in the order they took effect. -/
def Conc.history (cs : Conc) : History := cs.done.map Prod.snd

/-- One step of one thread. -/
inductive ConcStep (A : Arch) : Conc → Conc → Prop
  /-- Thread `t` starts `c` and returns `r` before taking the lock. -/
  | returnEarly {cs : Conc} {t : Nat} {c : SharedCall} {r : Reply} :
      cs.phase t = .idle → preLock A cs.shared.pool.shape c = some (some r) →
      ConcStep A cs { cs with done := (t, c.toCall, r) :: cs.done }
  /-- Thread `t` starts `c`, whose checks pass, and calls `mempool_internal_lock`. -/
  | enter {cs : Conc} {t : Nat} {c : SharedCall} :
      cs.phase t = .idle → preLock A cs.shared.pool.shape c = some none →
      ConcStep A cs { cs with phase := Function.update cs.phase t (.waiting c) }
  /-- `mempool_internal_lock` returns to thread `t`. When it calls the hook's `lock`, no other
  thread is inside its critical section. -/
  | lock {cs : Conc} {t : Nat} {c : SharedCall} :
      cs.phase t = .waiting c →
      (mempoolInternalLock cs.shared.pool ≠ [] → ∀ u c', cs.phase u = .inside c' → u = t) →
      ConcStep A cs { cs with phase := Function.update cs.phase t (.inside c) }
  /-- Thread `t` runs its critical section, calls `mempool_internal_unlock` and returns `r`. -/
  | unlock {cs : Conc} {t : Nat} {c : SharedCall} {r : Reply} {s' : State} :
      cs.phase t = .inside c → critical A cs.shared c = some (r, s') →
      ConcStep A cs ⟨s', Function.update cs.phase t .idle, (t, c.toCall, r) :: cs.done⟩
  /-- A thread stores into a block that is held. -/
  | store {cs : Conc} {a : Nat} {v : UInt8} :
      InHeldBlock cs.history cs.shared.pool.blockSize.toNat a →
      ConcStep A cs { cs with shared := ⟨cs.shared.pool, storeByte cs.shared.mem a v⟩ }

/-- Two threads are inside their critical sections at once: a data race on the control block. -/
def Conc.Racy (cs : Conc) : Prop :=
  ∃ t u c c', t ≠ u ∧ cs.phase t = .inside c ∧ cs.phase u = .inside c'

/-- The thread to which `mempool_alloc` returned block `b` last. -/
def owner (b : Nat) : List (Nat × Call × Reply) → Option Nat
  | [] => none
  | (t, _, r) :: done => if r = .block b then some t else owner b done

/-- The blocks thread `t` holds: held, and returned to `t` by the last `mempool_alloc` that
returned them. -/
def heldBy (t : Nat) (done : List (Nat × Call × Reply)) : List Nat :=
  (outstanding (done.map Prod.snd)).filter fun b => owner b done = some t

end Mempool
