import Mempool.Model.Threads
import Mempool.Proof.Frame
import Mempool.Proof.Stats
import Mempool.Proof.Safety
import Mempool.Proof.Locking

/-!
# `Proof/Linearizable.lean` — concurrent calls take effect at the lock

The sequential client of `Model/Run.lean` and the threads of `Model/Threads.lean` see the same
pool. `step_split` cuts each shared call where the source takes the lock: the checks, a function
of the shape alone, and the critical section. Since no call changes the shape (`step_shape`), a
check made before other threads' critical sections answers what it would have answered at the
thread's own.

With the hook installed, `mempool_internal_lock` calls its `lock` on every path into a critical
section, and no critical section changes the hook record (`step_internalLock`), so at most one
thread is ever inside: no run is racy. The calls, ordered as `Conc.done` records them, then form
a sequential run of the pool that ends in the shared state (`ConcInv`), and every sequential
result holds of the concurrent run. Without a hook, two threads get inside together
(`racy_without_hook`), which is why the hook is a hypothesis of `linearizable`.
-/

set_option autoImplicit false

namespace Mempool

section Split

variable {A : Arch}

/-- A shared call is its checks before the lock, then its critical section. -/
theorem step_split (s : State) (c : SharedCall) :
    step A s c.toCall = match preLock A s.pool.shape c with
      | none => none
      | some (some r) => some (r, s)
      | some none => critical A s c := by
  cases c with
  | alloc block =>
    by_cases hb : block = 0
    · simp [step, SharedCall.toCall, mempoolAlloc, preLock, hb, Outcome.early, Outcome.reply]
    by_cases hi : s.pool.initialized
    · simp [step, SharedCall.toCall, mempoolAlloc, preLock, hb, hi, Pool.shape, critical,
        Function.comp_def, locked]
    · simp [step, SharedCall.toCall, mempoolAlloc, preLock, hb, hi, Pool.shape, Outcome.early,
        Outcome.reply]
  | free block =>
    simp only [step, SharedCall.toCall, mempoolFree, preLock, Pool.shape, Shape.blocksEnd,
      blocksEndAddr]
    by_cases hb : block = 0
    · simp [hb, Outcome.early]
    by_cases hi : s.pool.initialized
    · by_cases hr : block < s.pool.blocksStart ∨ A.wrap (s.pool.blocksStart +
          A.wrap (s.pool.totalBlocks.toNat * s.pool.blockSize.toNat)) ≤ block
      · simp [hb, hi, hr, Outcome.early]
      · cases hu : umod (A.sub block s.pool.blocksStart) s.pool.blockSize.toNat with
        | none => simp [hb, hi, hr, hu]
        | some rem =>
          by_cases h0 : rem = 0
          · simp [hb, hi, hr, hu, h0, critical, Function.comp_def, locked]
          · simp [hb, hi, hr, hu, h0, Outcome.early]
    · simp [hb, hi, Outcome.early]
  | getStats stats =>
    by_cases hs : stats = 0
    · simp [step, SharedCall.toCall, mempoolGetStats, preLock, hs, Outcome.early, Outcome.reply]
    by_cases hi : s.pool.initialized
    · simp [step, SharedCall.toCall, mempoolGetStats, preLock, hs, hi, Pool.shape, critical,
        locked]
    · simp [step, SharedCall.toCall, mempoolGetStats, preLock, hs, hi, Pool.shape, Outcome.early,
        Outcome.reply]
  | contains ptr =>
    simp [step, SharedCall.toCall, mempoolContains, preLock, Pool.shape, Shape.blocksEnd,
      blocksEndAddr]

end Split

/-- The checks of `mempool_free` never answer `MEMPOOL_OK`: only its critical section does. -/
theorem preLock_free_ne_ok {A : Arch} (p : Shape) (block : Nat) :
    preLock A p (.free block) ≠ some (some (.code .ok)) := by
  simp only [preLock]
  by_cases h0 : block = 0
  · simp [h0]
  by_cases hi : p.initialized
  · by_cases hr : block < p.blocksStart ∨ p.blocksEnd A ≤ block
    · simp [h0, hi, hr]
    cases hu : umod (A.sub block p.blocksStart) p.blockSize.toNat with
    | none => simp [h0, hi, hr, hu]
    | some rem => by_cases h : rem = 0 <;> simp [h0, hi, hr, hu, h]
  · simp [h0, hi]

/-! ## Who holds what -/

theorem mem_outstanding_cons {c : Call} {r : Reply} {h : History} {b : Nat}
    (hb : b ∈ outstanding ((c, r) :: h)) : b ∈ outstanding h ∨ r = .block b := by
  simp only [outstanding] at hb
  split at hb
  · rename_i p heq
    rcases List.mem_cons.1 hb with rfl | hb
    · exact .inr (by cases r <;> simp_all [Reply.answer])
    · exact .inl hb
  · exact .inl (List.mem_of_mem_erase hb)
  · cases hb
  · exact .inl hb

/-- Every block held was returned to some thread. -/
theorem owner_of_mem_outstanding {b : Nat} :
    ∀ {done : List (Nat × Call × Reply)}, b ∈ outstanding (done.map Prod.snd) →
      ∃ t, owner b done = some t
  | [], hb => absurd hb (List.not_mem_nil _)
  | (t, c, r) :: done, hb => by
    simp only [owner]
    split
    · exact ⟨t, rfl⟩
    · rename_i hr
      rcases mem_outstanding_cons hb with hb | rfl
      · exact owner_of_mem_outstanding hb
      · exact absurd rfl hr

theorem mem_outstanding_of_heldBy {t b : Nat} {done : List (Nat × Call × Reply)}
    (hb : b ∈ heldBy t done) : b ∈ outstanding (done.map Prod.snd) :=
  (List.mem_filter.1 hb).1

/-- When no thread holds a block, none is held. -/
theorem outstanding_eq_nil {done : List (Nat × Call × Reply)} (h : ∀ t, heldBy t done = []) :
    outstanding (done.map Prod.snd) = [] := by
  refine List.eq_nil_iff_forall_not_mem.2 fun b hb => ?_
  obtain ⟨t, ht⟩ := owner_of_mem_outstanding hb
  have : b ∈ heldBy t done := List.mem_filter.2 ⟨hb, by simp [ht]⟩
  rw [h t] at this
  cases this

/-! ## The hook keeps threads apart -/

/-- A shared call leaves what `mempool_internal_lock` calls as it found it. -/
theorem step_internalLock {A : Arch} {s s' : State} {c : SharedCall} {r : Reply}
    (h : step A s c.toCall = some (r, s')) :
    mempoolInternalLock s'.pool = mempoolInternalLock s.pool := by
  have keep : ∀ {α : Type} {o : Outcome α}, Bracketed s o →
      mempoolInternalLock o.state.pool = mempoolInternalLock s.pool := fun hb => by
    obtain ⟨hsync, hen⟩ := hb.hook_state
    simp only [mempoolInternalLock, hsync, hen]
  cases c with
  | alloc block =>
    obtain ⟨o, ho, he⟩ := Option.map_eq_some'.1 h
    cases he; exact keep (mempoolAlloc_bracketed ho)
  | free block =>
    obtain ⟨o, ho, he⟩ := Option.map_eq_some'.1 h
    cases he; exact keep (mempoolFree_bracketed ho)
  | getStats stats => cases h; exact keep (mempoolGetStats_bracketed stats)
  | contains ptr => cases h; rfl

/-- An installed hook, consistent as every reachable one is, has its `lock` called. -/
theorem internalLock_ne_nil {p : Pool} (hc : HookConsistent p) (he : p.syncEnabled = true) :
    mempoolInternalLock p ≠ [] := by
  unfold HookConsistent at hc
  rw [he, eq_comm, Bool.and_eq_true] at hc
  simp [mempoolInternalLock, he, hc.1]

/-- Without a hook, two idle threads whose calls pass their checks both get inside their critical
sections: the run reaches a data race. -/
theorem racy_without_hook {A : Arch} {cs : Conc} (hnone : mempoolInternalLock cs.shared.pool = [])
    {t u : Nat} {c c' : SharedCall} (htu : t ≠ u) (ht : cs.phase t = .idle)
    (hu : cs.phase u = .idle) (hc : preLock A cs.shared.pool.shape c = some none)
    (hc' : preLock A cs.shared.pool.shape c' = some none) :
    ∃ cs', Relation.ReflTransGen (ConcStep A) cs cs' ∧ cs'.Racy := by
  have hut := Ne.symm htu
  have free : mempoolInternalLock cs.shared.pool ≠ [] → False := fun h => h hnone
  let p₁ := Function.update cs.phase t (.waiting c)
  let p₂ := Function.update p₁ u (.waiting c')
  let p₃ := Function.update p₂ t (.inside c)
  refine ⟨{ cs with phase := Function.update p₃ u (.inside c') }, .tail (.tail (.tail (.tail .refl
    (.enter ht hc)) (.enter (by simp [p₁, hut, hu]) hc'))
    (.lock (by simp [p₁, p₂, htu]) fun h => (free h).elim))
    (.lock (by simp [p₂, p₃, hut]) fun h => (free h).elim), t, u, c, c', htu, ?_, ?_⟩ <;>
    simp [p₃, htu]

/-! ## The concurrent run is a sequential run -/

section Phases

variable {phase : Nat → Phase} {t : Nat} {q : Phase}

/-- Moving thread `t` to a phase outside any critical section keeps at most one thread inside. -/
theorem exclusive_update (hex : ∀ t u c c', phase t = .inside c → phase u = .inside c' → t = u)
    (hq : ∀ c, q ≠ .inside c) (t₁ t₂ : Nat) (c₁ c₂ : SharedCall)
    (h₁ : Function.update phase t q t₁ = .inside c₁)
    (h₂ : Function.update phase t q t₂ = .inside c₂) : t₁ = t₂ := by
  have hin : ∀ u c, Function.update phase t q u = .inside c → phase u = .inside c := fun u c h => by
    by_cases hu : u = t
    · subst hu; rw [Function.update_same] at h; exact absurd h (hq c)
    · rwa [Function.update_noteq hu] at h
  exact hex t₁ t₂ c₁ c₂ (hin t₁ c₁ h₁) (hin t₂ c₂ h₂)

/-- Moving thread `t` to a phase whose call passes its checks keeps the checks of every call
waiting for the lock or inside passing. -/
theorem pending_update {A : Arch} {p : Shape}
    (hp : ∀ t c, (phase t = .waiting c ∨ phase t = .inside c) → preLock A p c = some none)
    (hq : ∀ c, (q = .waiting c ∨ q = .inside c) → preLock A p c = some none)
    (t' : Nat) (c' : SharedCall)
    (h : Function.update phase t q t' = .waiting c' ∨ Function.update phase t q t' = .inside c') :
    preLock A p c' = some none := by
  by_cases ht : t' = t
  · subst ht; rw [Function.update_same] at h; exact hq c' h
  · rw [Function.update_noteq ht] at h; exact hp t' c' h

end Phases

/-- The invariant of a concurrent run with the hook installed: the completed calls, in the order
they took effect, are a sequential run of the pool ending in the shared state; the checks of
every thread waiting for the lock or inside still pass; `mempool_internal_lock` calls the hook's
`lock`; and at most one thread is inside. -/
structure ConcInv (A : Arch) (s₀ : State) (cs : Conc) : Prop where
  reachable : Reachable A s₀ cs.shared cs.history
  pending : ∀ t c, (cs.phase t = .waiting c ∨ cs.phase t = .inside c) →
    preLock A cs.shared.pool.shape c = some none
  locks : mempoolInternalLock cs.shared.pool ≠ []
  exclusive : ∀ t u c c', cs.phase t = .inside c → cs.phase u = .inside c' → t = u

namespace ConcInv

variable {A : Arch} {s₀ : State} {cs cs' : Conc}

theorem start (h₀ : Reachable A s₀ cs.shared cs.history) (hidle : ∀ t, cs.phase t = .idle)
    (hlocks : mempoolInternalLock cs.shared.pool ≠ []) : ConcInv A s₀ cs :=
  ⟨h₀, fun t c h => (by rcases h with h | h <;> rw [hidle t] at h <;> cases h), hlocks,
    fun t _ c _ h => by rw [hidle t] at h; cases h⟩

theorem not_racy (hi : ConcInv A s₀ cs) : ¬ cs.Racy :=
  fun ⟨t, u, c, c', htu, ht, hu⟩ => htu (hi.exclusive t u c c' ht hu)

/-- The critical section of a thread waiting for the lock or inside is the sequential call. -/
theorem critical_eq (hi : ConcInv A s₀ cs) {t : Nat} {c : SharedCall}
    (h : cs.phase t = .waiting c ∨ cs.phase t = .inside c) :
    critical A cs.shared c = step A cs.shared c.toCall := by
  rw [step_split, hi.pending t c h]

/-- Each step of each thread keeps the invariant. -/
theorem step (hi : ConcInv A s₀ cs) (hs : ConcStep A cs cs') : ConcInv A s₀ cs' := by
  cases hs with
  | @returnEarly t c r _ hpre =>
    refine ⟨hi.reachable.call ?_, hi.pending, hi.locks, hi.exclusive⟩
    rw [step_split, hpre]
  | @enter t c _ hpre =>
    exact ⟨hi.reachable, pending_update hi.pending fun c' h => by
        rcases h with h | h <;> cases h; exact hpre,
      hi.locks, exclusive_update hi.exclusive fun _ => nofun⟩
  | @lock t c hph hfree =>
    -- the hook's `lock` returned, so no other thread was inside
    have hinside : ∀ u c', Function.update cs.phase t (.inside c) u = .inside c' → u = t :=
      fun u c' h => by
        by_cases hu : u = t
        · exact hu
        · rw [Function.update_noteq hu] at h; exact hfree hi.locks u c' h
    exact ⟨hi.reachable, pending_update hi.pending fun c' h => by
        rcases h with h | h <;> cases h; exact hi.pending t c (.inl hph),
      hi.locks, fun t₁ t₂ c₁ c₂ h₁ h₂ => (hinside t₁ c₁ h₁).trans (hinside t₂ c₂ h₂).symm⟩
  | @unlock t c r s' hph hcrit =>
    have hstep : Mempool.step A cs.shared c.toCall = some (r, s') := by
      rw [← hi.critical_eq (.inr hph), hcrit]
    refine ⟨hi.reachable.call hstep, fun t' c' h => ?_, ?_,
      exclusive_update hi.exclusive fun _ => nofun⟩
    · show preLock A s'.pool.shape c' = some none
      rw [step_shape hstep]
      exact pending_update hi.pending (fun _ h => by rcases h with h | h <;> cases h) t' c' h
    · show mempoolInternalLock s'.pool ≠ []
      rw [step_internalLock hstep]
      exact hi.locks
  | store hheld => exact ⟨hi.reachable.store hheld, hi.pending, hi.locks, hi.exclusive⟩

theorem run (hi : ConcInv A s₀ cs) (hrun : Relation.ReflTransGen (ConcStep A) cs cs') :
    ConcInv A s₀ cs' := by
  induction hrun with
  | refl => exact hi
  | tail _ hs ih => exact ih.step hs

end ConcInv

theorem mempoolContains_shape {A : Arch} {s t : State} (h : s.pool.shape = t.pool.shape)
    (ptr : Nat) : mempoolContains A s ptr = mempoolContains A t ptr := by
  obtain ⟨-, hstart, -, -, hbs, hN, -, hinit⟩ := Shape.mk.inj h
  simp only [mempoolContains, blocksEndAddr, hstart, hbs, hN, hinit]

namespace Refines

variable {A : Arch} {g : Geometry} {s : State} {h : History}

/-- A held block passes the checks `mempool_free` makes before the lock, and the critical section
frees it. -/
theorem free_split (hf : Refines A g s h) {p : Nat} (hp : p ∈ outstanding h) :
    preLock A s.pool.shape (.free p) = some none ∧
      ∃ s', critical A s (.free p) = some (.code .ok, s') := by
  obtain ⟨s', hstep⟩ := hf.free_ok hp
  rw [show Call.free p = (SharedCall.free p).toCall from rfl, step_split] at hstep
  cases hpre : preLock A s.pool.shape (.free p) with
  | none => rw [hpre] at hstep; cases hstep
  | some x =>
    cases x with
    | some r =>
      rw [hpre] at hstep
      cases hstep
      exact absurd hpre (preLock_free_ne_ok _ _)
    | none => rw [hpre] at hstep; exact ⟨rfl, s', hstep⟩

/-- With no block held, the counters say the pool is empty. -/
theorem empty_of_none_held (hf : Refines A g s h) (hout : outstanding h = []) :
    s.pool.stats.usedBlocks = 0 ∧ s.pool.freeBlocks = s.pool.totalBlocks := by
  have hused := hf.usedBlocks
  have hlen := hf.held.length_eq
  have hfree := hf.rep.freeBlocks_eq
  have hN : g.totalBlocks = s.pool.totalBlocks.toNat := by rw [← hf.geometry]; rfl
  rw [hout] at hused hlen
  exact ⟨UInt32.toNat.inj hused, UInt32.toNat.inj (by simp only [List.length_nil] at hlen; omega)⟩

end Refines

section FromInit

variable {A : Arch} {prior : Pool} {mem : Mem}
  {stateBuffer stateBufferSize poolBuffer poolBufferSize blockSize alignment poolOut : Nat}
  {o : InitOutcome}
  (hinit : mempoolInit A prior mem stateBuffer stateBufferSize poolBuffer poolBufferSize blockSize
    alignment poolOut = some o)
  (hok : o.result = .ok) (hsize : poolBufferSize < A.modulus)
  (hbs : blockSize < A.modulus) (hal : alignment < A.modulus)
  (hround : roundUp blockSize alignment ≤ 2 ^ 32 - 1)

include hinit hok hsize hbs hal hround

/-- Linearizability under a mutual-exclusion hook. Start from any state a sequential client
reached with the hook installed (`mempool_set_sync` with both callbacks set) and every thread
idle, and let any number of threads run any interleaving of `mempool_alloc`, `mempool_free`,
`mempool_get_stats` and `mempool_contains`, with stores into held blocks in between. Then no two
threads are ever inside their critical sections at once; the completed calls, ordered by their
critical sections (by their checks for those that returned before the lock, and anywhere for
`mempool_contains`, whose answer never changes), form a sequential run that ends in the shared
state; and the critical section of a thread waiting for the lock or inside is defined and is its
sequential call. In particular `mempool_alloc` with a non-`NULL` out-parameter answers a
non-`NULL` block or `MEMPOOL_ERR_OUT_OF_MEMORY`; a thread freeing a block it holds passes the
checks and gets `MEMPOOL_OK`; and once no thread holds a block, `used_blocks = 0` and
`free_blocks = total_blocks`. -/
theorem linearizable {cs₀ cs : Conc} (h₀ : Reachable A ⟨o.pool, o.mem⟩ cs₀.shared cs₀.history)
    (hhook : cs₀.shared.pool.syncEnabled = true) (hidle : ∀ t, cs₀.phase t = .idle)
    (hrun : Relation.ReflTransGen (ConcStep A) cs₀ cs) :
    ¬ cs.Racy ∧ Reachable A ⟨o.pool, o.mem⟩ cs.shared cs.history ∧
      (∀ t c, cs.phase t = .waiting c ∨ cs.phase t = .inside c →
        ∃ r s', critical A cs.shared c = some (r, s') ∧ step A cs.shared c.toCall = some (r, s')) ∧
      (∀ t b r, (t, .alloc b, r) ∈ cs.done → b ≠ 0 →
        (∃ p, p ≠ 0 ∧ r = .block p) ∨ r = .code .errOutOfMemory) ∧
      (∀ t p, p ∈ heldBy t cs.done → preLock A cs.shared.pool.shape (.free p) = some none ∧
        ∃ s', critical A cs.shared (.free p) = some (.code .ok, s')) ∧
      ((∀ t, heldBy t cs.done = []) → cs.shared.pool.stats.usedBlocks = 0 ∧
        cs.shared.pool.freeBlocks = cs.shared.pool.totalBlocks) ∧
      (∀ ptr, mempoolContains A cs.shared ptr = mempoolContains A ⟨o.pool, o.mem⟩ ptr) := by
  have hi := (ConcInv.start h₀ hidle (internalLock_ne_nil
    (Reachable.hookConsistent hinit hok h₀) hhook)).run hrun
  have hreach := hi.reachable
  have hf := Reachable.refines hinit hok hsize hbs hal hround hreach
  refine ⟨hi.not_racy, hreach, fun t c h => ?_, fun t b r he hb => ?_, fun t p hp => ?_,
    fun hnone => ?_, fun ptr => mempoolContains_shape hreach.shape ptr⟩
  · obtain ⟨r, s', hstep, -⟩ := hf.rep.step_lifo c.toCall
    exact ⟨r, s', by rw [hi.critical_eq h, hstep], hstep⟩
  · obtain ⟨u, u', h', hu, hstep⟩ := hreach.mem_history (List.mem_map_of_mem Prod.snd he)
    exact (Reachable.refines hinit hok hsize hbs hal hround hu).rep.alloc_reply hb hstep
  · exact hf.free_split (mem_outstanding_of_heldBy hp)
  · exact hf.empty_of_none_held (outstanding_eq_nil hnone)

end FromInit

/-- The sample pool after its run, shared by threads that are all idle; thread `0` made the
calls so far. -/
def sampleConc : Conc := ⟨sampleRun.2, fun _ => .idle, sampleHistory.map (Prod.mk 0)⟩

theorem linearizable_sample :
    let cs : Conc := { sampleConc with
      phase := Function.update (Function.update sampleConc.phase 1 (.waiting (.alloc 8))) 1
        (.inside (.alloc 8)) }
    ¬ cs.Racy ∧ Reachable lp64 ⟨samplePool.pool, samplePool.mem⟩ cs.shared cs.history ∧
      (∀ t c, cs.phase t = .waiting c ∨ cs.phase t = .inside c →
        ∃ r s', critical lp64 cs.shared c = some (r, s') ∧
          step lp64 cs.shared c.toCall = some (r, s')) ∧
      (∀ t b r, (t, .alloc b, r) ∈ cs.done → b ≠ 0 →
        (∃ p, p ≠ 0 ∧ r = .block p) ∨ r = .code .errOutOfMemory) ∧
      (∀ t p, p ∈ heldBy t cs.done → preLock lp64 cs.shared.pool.shape (.free p) = some none ∧
        ∃ s', critical lp64 cs.shared (.free p) = some (.code .ok, s')) ∧
      ((∀ t, heldBy t cs.done = []) → cs.shared.pool.stats.usedBlocks = 0 ∧
        cs.shared.pool.freeBlocks = cs.shared.pool.totalBlocks) ∧
      (∀ ptr, mempoolContains lp64 cs.shared ptr =
        mempoolContains lp64 ⟨samplePool.pool, samplePool.mem⟩ ptr) := by
  have h₀ : Reachable lp64 ⟨samplePool.pool, samplePool.mem⟩ sampleConc.shared
      sampleConc.history := by
    rw [Conc.history, sampleConc, List.map_map]
    exact (List.map_id sampleHistory).symm ▸ sampleRun_reachable
  have henter : ConcStep lp64 sampleConc
      { sampleConc with phase := Function.update sampleConc.phase 1 (.waiting (.alloc 8)) } :=
    .enter rfl (by decide)
  have hlock : ConcStep lp64
      { sampleConc with phase := Function.update sampleConc.phase 1 (.waiting (.alloc 8)) }
      { sampleConc with phase := Function.update (Function.update sampleConc.phase 1
        (.waiting (.alloc 8))) 1 (.inside (.alloc 8)) } :=
    .lock (Function.update_same 1 (Phase.waiting (.alloc 8)) sampleConc.phase) fun _ u c' h => by
      by_cases hu : u = 1
      · exact hu
      · simp only [Function.update_noteq hu] at h; cases h
  exact linearizable (Option.some_get _).symm (by decide) (by decide) (by decide) (by decide)
    (by decide) h₀ (by decide) (fun _ => rfl) (.tail (.single henter) hlock)

end Mempool
