import Mempool.Proof.Frame
import Mempool.Proof.InitSpec

/-!
# `Proof/Locking.lean` — the hook brackets every critical section

`mempool_alloc`, `mempool_free`, `mempool_reset` and `mempool_get_stats` each run one critical
section between `mempool_internal_lock` and `mempool_internal_unlock`, and return before it on the
argument and state checks. On any state whatsoever, each call therefore either returns early,
calling no hook and writing nothing, or is its critical section inside the two hook calls, which
read one and the same hook record, since no critical section writes it (`Bracketed`,
`mempoolAlloc_bracketed`, ...).

Which hooks that is depends on the record. `mempool_internal_lock` tests `sync_enabled` and the
`lock` callback, `mempool_internal_unlock` `sync_enabled` and `unlock`; a record enabled with
only one callback set would lock without unlocking. No pool has such a record: `mempool_init`
clears it and `mempool_set_sync` enables it exactly when both callbacks are set
(`HookConsistent`, `Reachable.hookConsistent`). On every pool state, then, a call locks and
unlocks once each, in that order and around all its writes, when both callbacks are set, and
calls neither otherwise (`lock_discipline`).
-/

set_option autoImplicit false

namespace Mempool

/-- The hook calls of a critical section on a pool whose hook record is `p.sync`: the lock and then
the unlock callback when both are set, none otherwise. -/
def hookPair (p : Pool) : List HookCall :=
  if p.sync.lock ≠ 0 ∧ p.sync.unlock ≠ 0 then
    [.lock p.sync.lock p.sync.userCtx, .unlock p.sync.unlock p.sync.userCtx]
  else []

/-- The hook record is as `mempool_set_sync` installs it: enabled exactly when both callbacks are
set. -/
def HookConsistent (p : Pool) : Prop := p.syncEnabled = (p.sync.lock != 0 && p.sync.unlock != 0)

/-- A call on `s` that ended in `o` returned before its critical section, with one of the codes of
the checks made there, no hook call and no write; or it ran a critical section `body` between
`mempool_internal_lock` and `mempool_internal_unlock`, and `body` left the hook record alone. -/
def Bracketed {α : Type} (s : State) (o : Outcome α) : Prop :=
  (∃ e ∈ [MempoolError.errNullPtr, .errNotInitialized, .errInvalidBlock], o = .early e s) ∨
    ∃ body : MempoolError × State × Option α, o = locked s body ∧
      body.2.1.pool.sync = s.pool.sync ∧ body.2.1.pool.syncEnabled = s.pool.syncEnabled

/-- The lock discipline of a call on `s` ending in `o`: it returned before its critical section
with no hook call and no write, or it ran its critical section between the lock and the unlock
callback, each called once and in that order when both are set, neither called otherwise. -/
def Disciplined {α : Type} (s : State) (o : Outcome α) : Prop :=
  (∃ e ∈ [MempoolError.errNullPtr, .errNotInitialized, .errInvalidBlock], o = .early e s) ∨
    ∃ body : MempoolError × State × Option α, o = locked s body ∧ o.hooks = hookPair s.pool

/-- Under a consistent hook record, the two helpers call exactly `hookPair`. -/
theorem internalLock_append_unlock {p : Pool} (hc : HookConsistent p) :
    mempoolInternalLock p ++ mempoolInternalUnlock p = hookPair p := by
  unfold HookConsistent at hc
  unfold mempoolInternalLock mempoolInternalUnlock hookPair
  by_cases hl : p.sync.lock = 0 <;> by_cases hu : p.sync.unlock = 0 <;> simp [hc, hl, hu]

namespace Bracketed

variable {α : Type} {s : State} {o : Outcome α}

/-- A bracketed call leaves the hook record as it found it. -/
theorem hook_state (hb : Bracketed s o) :
    o.state.pool.sync = s.pool.sync ∧ o.state.pool.syncEnabled = s.pool.syncEnabled := by
  rcases hb with ⟨e, -, rfl⟩ | ⟨body, rfl, hsync, hen⟩
  · exact ⟨rfl, rfl⟩
  · exact ⟨hsync, hen⟩

/-- Under a consistent hook record, a bracketed call keeps the lock discipline. -/
theorem disciplined (hb : Bracketed s o) (hc : HookConsistent s.pool) : Disciplined s o := by
  rcases hb with hearly | ⟨body, rfl, hsync, hen⟩
  · exact .inl hearly
  refine .inr ⟨body, rfl, ?_⟩
  have hunlock : mempoolInternalUnlock body.2.1.pool = mempoolInternalUnlock s.pool := by
    simp only [mempoolInternalUnlock, hsync, hen]
  show mempoolInternalLock s.pool ++ mempoolInternalUnlock body.2.1.pool = _
  rw [hunlock, internalLock_append_unlock hc]

end Bracketed

/-! ## Every operation, on every state -/

section Operations

variable {A : Arch} {s : State}

theorem mempoolAlloc_bracketed {block : Nat} {o : Outcome Nat} (h : mempoolAlloc A s block = some o) :
    Bracketed s o := by
  rcases mempoolAlloc_cases h with ⟨e, he, rfl⟩ | ⟨b, hb, rfl⟩
  · exact .inl ⟨e, (show [MempoolError.errNullPtr, .errNotInitialized] ⊆ _ by simp) he, rfl⟩
  rcases allocBody_cases hb with rfl | ⟨next, m, rfl, -⟩ <;> exact .inr ⟨_, rfl, rfl, rfl⟩

theorem mempoolFree_bracketed {block : Nat} {o : Outcome Empty} (h : mempoolFree A s block = some o) :
    Bracketed s o := by
  rcases mempoolFree_cases h with hearly | ⟨b, hb, rfl⟩
  · exact .inl hearly
  rcases freeBody_cases hb with ⟨e, -, rfl⟩ | ⟨m, rfl, -⟩ <;> exact .inr ⟨_, rfl, rfl, rfl⟩

theorem mempoolReset_bracketed {o : Outcome Empty} (h : mempoolReset A s = some o) :
    Bracketed s o := by
  rcases mempoolReset_cases h with rfl | ⟨b, hb, rfl⟩
  · exact .inl ⟨_, by simp, rfl⟩
  obtain ⟨head, m, rfl⟩ := resetBody_cases hb
  exact .inr ⟨_, rfl, rfl, rfl⟩

theorem mempoolGetStats_bracketed (stats : Nat) : Bracketed s (mempoolGetStats s stats) := by
  unfold mempoolGetStats
  split
  · exact .inl ⟨_, by simp, rfl⟩
  split
  · exact .inl ⟨_, by simp, rfl⟩
  · exact .inr ⟨_, rfl, rfl, rfl⟩

/-- No call makes the hook record inconsistent: the four bracketed operations and
`mempool_contains` leave it alone, and `mempool_set_sync` installs a consistent one. -/
theorem step_hookConsistent {c : Call} {r : Reply} {s' : State} (h : step A s c = some (r, s'))
    (hc : HookConsistent s.pool) : HookConsistent s'.pool := by
  have keep : ∀ {α : Type} {o : Outcome α}, Bracketed s o → HookConsistent o.state.pool :=
    fun hb => by
      obtain ⟨hsync, hen⟩ := hb.hook_state
      unfold HookConsistent at hc ⊢
      rw [hsync, hen, hc]
  cases c with
  | alloc block =>
    obtain ⟨o, ho, he⟩ := Option.map_eq_some'.1 h
    cases he; exact keep (mempoolAlloc_bracketed ho)
  | free block =>
    obtain ⟨o, ho, he⟩ := Option.map_eq_some'.1 h
    cases he; exact keep (mempoolFree_bracketed ho)
  | reset =>
    obtain ⟨o, ho, he⟩ := Option.map_eq_some'.1 h
    cases he; exact keep (mempoolReset_bracketed ho)
  | getStats stats => cases h; exact keep (mempoolGetStats_bracketed stats)
  | contains p => cases h; exact hc
  | setSync lock unlock userCtx =>
    cases h
    unfold mempoolSetSync
    split
    · exact hc
    · rfl

end Operations

/-! ## Every pool state -/

section FromInit

variable {A : Arch} {prior : Pool} {mem : Mem}
  {stateBuffer stateBufferSize poolBuffer poolBufferSize blockSize alignment poolOut : Nat}
  {o : InitOutcome}
  (hinit : mempoolInit A prior mem stateBuffer stateBufferSize poolBuffer poolBufferSize blockSize
    alignment poolOut = some o)
  (hok : o.result = .ok)

include hinit hok

/-- Every state a pool reaches has a consistent hook record. -/
theorem Reachable.hookConsistent {s : State} {h : History}
    (hreach : Reachable A ⟨o.pool, o.mem⟩ s h) : HookConsistent s.pool := by
  induction hreach with
  | init =>
    obtain ⟨_, _, _, _, _, _, _, _, _, _, _, _, _, _, _, _, _, _, _, _, rfl⟩ :=
      mempoolInit_ok_inv hinit hok
    rfl
  | call _ hstep ih => exact step_hookConsistent hstep ih
  | store _ _ ih => exact ih

/-- The lock discipline, on every state a pool reaches and for every call of `mempool_alloc`,
`mempool_free`, `mempool_reset` and `mempool_get_stats` with any arguments. A call that returns
`MEMPOOL_ERR_NULL_PTR`, `MEMPOOL_ERR_NOT_INITIALIZED` or `mempool_free`'s range or alignment
`MEMPOOL_ERR_INVALID_BLOCK` before its critical section calls no hook and writes nothing. Every
other call is its critical section between the hook calls `hookPair` names: `lock(ctx)` once and
then `unlock(ctx)` once when both callbacks are set, and no call at all otherwise. -/
theorem lock_discipline {s : State} {h : History} (hreach : Reachable A ⟨o.pool, o.mem⟩ s h) :
    (∀ block r, mempoolAlloc A s block = some r → Disciplined s r) ∧
      (∀ block r, mempoolFree A s block = some r → Disciplined s r) ∧
      (∀ r, mempoolReset A s = some r → Disciplined s r) ∧
      ∀ stats, Disciplined s (mempoolGetStats s stats) := by
  have hc := Reachable.hookConsistent hinit hok hreach
  exact ⟨fun _ _ hr => (mempoolAlloc_bracketed hr).disciplined hc,
    fun _ _ hr => (mempoolFree_bracketed hr).disciplined hc,
    fun _ hr => (mempoolReset_bracketed hr).disciplined hc,
    fun stats => (mempoolGetStats_bracketed stats).disciplined hc⟩

end FromInit

theorem lock_discipline_sample :
    let s : State := sampleRun.2
    (∀ block r, mempoolAlloc lp64 s block = some r → Disciplined s r) ∧
      (∀ block r, mempoolFree lp64 s block = some r → Disciplined s r) ∧
      (∀ r, mempoolReset lp64 s = some r → Disciplined s r) ∧
      ∀ stats, Disciplined s (mempoolGetStats s stats) :=
  lock_discipline (Option.some_get _).symm (by decide) sampleRun_reachable

end Mempool
