import Mempool.Proof.Footprint

/-!
# `Proof/Reset.lean` — `mempool_reset` restores the pool `mempool_init` built

`mempool_reset` clears the bitmap and runs the loop `mempool_init` ran (`threadFreeList`) over
the same blocks. Init strides by its `size_t` rounded block size and reset by the stored 32-bit
`block_size`; under `Layout` they are one number. So from every reachable state, whichever blocks
are out, reset succeeds and leaves the control block init left, but for the hook record
`mempool_set_sync` may have installed since, the free list of the same blocks in the same order,
and the same all-zero bitmap (`reset_restores_init`).

Two facts give the rest. Run again over the memory it left, the loop stores only the links that
are already there (`threadFreeList_idem`), so reset is idempotent. And no call but
`mempool_set_sync` reads the hook record: a call's reply and the control block it leaves depend
on the control block without it and on the free stack (`Rep.step_congr_hook`), so from two states
a reset left, every sequence of calls gives the same replies and statistics (`Rep.runCalls_congr`).
-/

set_option autoImplicit false

namespace Mempool

/-- The control block without its hook record, which only `mempool_set_sync` writes. -/
def Pool.withoutHook (p : Pool) : Pool := { p with sync := ⟨0, 0, 0⟩, syncEnabled := false }

namespace Pool

@[simp] theorem withoutHook_afterAlloc (p : Pool) (next : Nat) :
    (p.afterAlloc next).withoutHook = p.withoutHook.afterAlloc next := rfl

@[simp] theorem withoutHook_afterFree (p : Pool) (block : Nat) :
    (p.afterFree block).withoutHook = p.withoutHook.afterFree block := rfl

@[simp] theorem withoutHook_afterReset (p : Pool) (head : Nat) :
    (p.afterReset head).withoutHook = p.withoutHook.afterReset head := rfl

@[simp] theorem withoutHook_setHook (p : Pool) (sync : MempoolSync) (enabled : Bool) :
    { p with sync := sync, syncEnabled := enabled }.withoutHook = p.withoutHook := rfl

@[simp] theorem stats_withoutHook (p : Pool) : p.withoutHook.stats = p.stats := rfl

/-- Two control blocks with one shape are reset to the same one, but for their hook records. -/
theorem afterReset_of_shape {p q : Pool} (h : p.shape = q.shape) (head : Nat) :
    p.afterReset head = { q.afterReset head with sync := p.sync, syncEnabled := p.syncEnabled } := by
  obtain ⟨⟩ := p
  obtain ⟨⟩ := q
  simp only [Pool.shape, Shape.mk.injEq] at h
  obtain ⟨rfl, rfl, rfl, rfl, rfl, rfl, rfl, rfl⟩ := h
  rfl

end Pool

/-- The pool `mempool_init` leaves is its own reset: the free counts and the statistics are those
of a pool with every block free. -/
theorem mempoolInit_afterReset {A : Arch} {prior : Pool} {mem : Mem}
    {stateBuffer stateBufferSize poolBuffer poolBufferSize blockSize alignment poolOut : Nat}
    {o : InitOutcome}
    (h : mempoolInit A prior mem stateBuffer stateBufferSize poolBuffer poolBufferSize blockSize
      alignment poolOut = some o) (hok : o.result = .ok) :
    o.pool.afterReset o.pool.freeList = o.pool := by
  obtain ⟨_, _, _, _, _, _, _, _, _, _, _, _, _, _, _, _, _, _, _, _, rfl⟩ :=
    mempoolInit_ok_inv h hok
  rfl

/-! ## Reset on a laid-out pool -/

namespace Rep

variable {A : Arch} {s t : State} {S : List Nat}

/-- With every block free, every bitmap byte is zero, padding bits included. -/
theorem bitmap_zero (hr : Rep A s S) (hS : ∀ i < s.pool.totalBlocks.toNat, i ∈ S) {a : Nat}
    (ha : InBitmap s.pool a) : s.mem a = 0 := by
  obtain ⟨q, rfl⟩ : ∃ q, a = s.pool.bitmap + q := ⟨a - s.pool.bitmap, by have := ha.1; omega⟩
  apply byte_eq_zero_of_byteBit
  intro k hk
  have hbit := hr.bit_eq (8 * q + k) (by have := ha.2; omega)
  rw [bitAt, show (8 * q + k) / 8 = q by omega, show (8 * q + k) % 8 = k by omega] at hbit
  rw [hbit, decide_eq_false_iff_not, not_and, not_not]
  exact hS _

end Rep

namespace Layout

variable {A : Arch} {s : State}

/-- `mempool_reset` on a laid-out pool is one run of the loop over the cleared bitmap. -/
theorem step_reset_of_run (hl : Layout A s.pool) {m' : Mem} {head : Nat}
    (hrun : threadFreeList A s.pool.blockSize.toNat s.pool.totalBlocks.toNat
      (memset0 s.mem s.pool.bitmap s.pool.bitmapBytes.toNat) s.pool.blocksStart 0 =
        some (m', head)) :
    step A s .reset = some (.code .ok, ⟨s.pool.afterReset head, m'⟩) := by
  simp [step, mempoolReset, resetBody, hl.initialized, hrun, locked]

/-- From any memory, `mempool_reset` succeeds, leaves the fresh stack, and a second reset leaves
what the first one left. -/
theorem step_reset_fixed (hl : Layout A s.pool) :
    ∃ head m', step A s .reset = some (.code .ok, ⟨s.pool.afterReset head, m'⟩) ∧
      Rep A ⟨s.pool.afterReset head, m'⟩ (Lifo.fresh s.pool.geometry) ∧
      step A ⟨s.pool.afterReset head, m'⟩ .reset =
        some (.code .ok, ⟨s.pool.afterReset head, m'⟩) := by
  obtain ⟨m', head, hrun, hrep, -⟩ := hl.thread_rep s.mem
  refine ⟨head, m', hl.step_reset_of_run hrun, hrep, ?_⟩
  -- the bitmap is already clear, so the second `memset` changes nothing
  have hclear : memset0 m' s.pool.bitmap s.pool.bitmapBytes.toNat = m' := funext fun a => by
    rw [memset0_apply]
    split
    · exact (hrep.bitmap_zero (fun i hi => by simpa using hi) ‹_›).symm
    · rfl
  refine (hl.afterReset head).step_reset_of_run ?_
  show threadFreeList A s.pool.blockSize.toNat s.pool.totalBlocks.toNat
    (memset0 m' s.pool.bitmap s.pool.bitmapBytes.toNat) s.pool.blocksStart 0 = some (m', head)
  rw [hclear]
  exact threadFreeList_idem hl.ptrSize_le A.modulus_pos hrun

end Layout

/-! ## The hook record is read by no call -/

namespace Rep

variable {A : Arch} {s t : State} {S : List Nat}

/-- Two states representing one stack, with control blocks that differ at most in their hook
records, give every call the same reply and leave control blocks that again differ at most
there. -/
theorem step_congr_hook (hs : Rep A s S) (ht : Rep A t S)
    (hp : s.pool.withoutHook = t.pool.withoutHook) (c : Call) :
    (step A s c).map (fun x => (x.1, x.2.pool.withoutHook)) =
      (step A t c).map (fun x => (x.1, x.2.pool.withoutHook)) := by
  have haddr : s.pool.blockAddr = t.pool.blockAddr := (congrArg Pool.blockAddr hp :)
  have hgeo : s.pool.geometry = t.pool.geometry := (congrArg Pool.geometry hp :)
  cases c with
  | alloc block =>
    rw [hs.step_alloc, ht.step_alloc]
    by_cases hb : block = 0
    · simp [hb, hp]
    cases S with
    | nil => simp [hb, hp]
    | cons i S => simp [hb, hs.allocState_pool, ht.allocState_pool, haddr, hp]
  | free p =>
    rw [hs.step_free, ht.step_free, hgeo]
    by_cases hp0 : p = 0
    · simp [hp0, hp]
    cases hidx : t.pool.geometry.indexOf p with
    | none => simp [hp0, hp]
    | some i => by_cases hiS : i ∈ S <;> simp [hp0, hiS, freeState, haddr, hp]
  | reset =>
    obtain ⟨m, head, hstep, hrep, -⟩ := hs.step_reset
    obtain ⟨m', head', hstep', hrep', -⟩ := ht.step_reset
    have e : head = head' := hrep.chain.start_eq.trans
      ((congrArg (fun g : Geometry => ((Lifo.fresh g).map g.addr).headD 0) hgeo).trans
        hrep'.chain.start_eq.symm)
    simp [hstep, hstep', e, hp]
  | getStats stats =>
    have hstats : s.pool.stats = t.pool.stats := (congrArg Pool.stats hp :)
    simp [hs.step_getStats, ht.step_getStats, hp, hstats]
  | contains p =>
    obtain ⟨h₁, h₂, h₃⟩ := Pool.geometry_eq hgeo
    simp [hs.step_contains, ht.step_contains, hp, h₁, h₂, h₃]
  | setSync lock unlock userCtx =>
    simp [hs.step_setSync, ht.step_setSync, setSyncState, hp]

/-- Two such states give every sequence of calls the same replies, and leave control blocks that
differ at most in their hook records. -/
theorem runCalls_congr (hs : Rep A s S) (ht : Rep A t S)
    (hp : s.pool.withoutHook = t.pool.withoutHook) (cs : List Call) :
    (runCalls A s cs).map (fun x => (x.1, x.2.pool.withoutHook)) =
      (runCalls A t cs).map (fun x => (x.1, x.2.pool.withoutHook)) := by
  induction cs generalizing s t S with
  | nil => simp [runCalls, hp]
  | cons c cs ih =>
    obtain ⟨r, s', hstep, -, hrep, -⟩ := hs.step_lifo c
    obtain ⟨r', t', hstep', -, hrep', -⟩ := ht.step_lifo c
    have hc := hs.step_congr_hook ht hp c
    simp only [hstep, hstep', Option.map_some', Option.some.injEq, Prod.mk.injEq] at hc
    obtain ⟨rfl, hp'⟩ := hc
    have hgeo : s.pool.geometry = t.pool.geometry := (congrArg Pool.geometry hp :)
    rw [← hgeo] at hrep'
    have hrun := congrArg (Option.map fun y => (r :: y.1, y.2)) (ih hrep hrep' hp')
    simpa only [runCalls, hstep, hstep', Option.some_bind, Option.map_map, Function.comp_def]
      using hrun

end Rep

/-! ## From a successful `mempool_init` -/

section FromInit

variable {A : Arch} {prior : Pool} {mem : Mem}
  {stateBuffer stateBufferSize poolBuffer poolBufferSize blockSize alignment poolOut : Nat}
  {o : InitOutcome}
  (hinit : mempoolInit A prior mem stateBuffer stateBufferSize poolBuffer poolBufferSize blockSize
    alignment poolOut = some o)
  (hok : o.result = .ok) (hsize : poolBufferSize < A.modulus)
  (hbs : blockSize < A.modulus) (hal : alignment < A.modulus)
  (hround : roundUp blockSize alignment ≤ 2 ^ 32 - 1)

include hinit hok hsize hbs hal hround

/-- From every reachable state, `mempool_reset` succeeds and leaves init's control block with
the current hook record, over a memory that represents the fresh stack and that a second reset
leaves as it is. -/
theorem reset_state {s : State} {h : History} (hreach : Reachable A ⟨o.pool, o.mem⟩ s h) :
    ∃ s', step A s .reset = some (.code .ok, s') ∧
      s'.pool = { o.pool with sync := s.pool.sync, syncEnabled := s.pool.syncEnabled } ∧
      Rep A s' (Lifo.fresh o.pool.geometry) ∧ step A s' .reset = some (.code .ok, s') := by
  have hf := Reachable.refines hinit hok hsize hbs hal hround hreach
  have hinitRep := (mempoolInit_spec hinit hok hsize hbs hal (by omega)).2
  obtain ⟨head, m', hstep, hrep, hidem⟩ := hf.rep.layout.step_reset_fixed
  rw [hf.geometry] at hrep
  refine ⟨_, hstep, ?_, hrep, hidem⟩
  -- both free lists start at the top of the fresh stack over one geometry
  have haddr : (s.pool.afterReset head).blockAddr = o.pool.blockAddr :=
    (congrArg Geometry.addr hf.geometry :)
  have hhead : head = o.pool.freeList := hrep.chain.start_eq.trans
    ((congrArg (fun f => ((Lifo.fresh o.pool.geometry).map f).headD 0) haddr).trans
      hinitRep.chain.start_eq.symm)
  show s.pool.afterReset head = _
  rw [Pool.afterReset_of_shape hreach.shape, hhead, mempoolInit_afterReset hinit hok]

/-- `mempool_reset` restores the state right after `mempool_init`, from every reachable state,
whatever blocks are out. It succeeds; the control block it leaves is init's, free list head,
`free_blocks` and all seven statistics included, but for the hook record; following the free list
through memory visits init's blocks in init's order; and every bitmap byte is init's. A second
reset leaves the state as it is, and from the states two resets leave, whatever preceded them,
every sequence of calls gives the same replies and the same statistics. -/
theorem reset_restores_init {s : State} {h : History} (hreach : Reachable A ⟨o.pool, o.mem⟩ s h) :
    ∃ s', step A s .reset = some (.code .ok, s') ∧
      s'.pool = { o.pool with sync := s.pool.sync, syncEnabled := s.pool.syncEnabled } ∧
      (∃ L, Chain A.ptrSize o.mem o.pool.freeList L ∧ Chain A.ptrSize s'.mem s'.pool.freeList L) ∧
      (∀ a, InBitmap o.pool a → s'.mem a = o.mem a) ∧
      step A s' .reset = some (.code .ok, s') ∧
      ∀ (t : State) (h' : History) (t' : State), Reachable A ⟨o.pool, o.mem⟩ t h' →
        step A t .reset = some (.code .ok, t') →
        ∀ cs, (runCalls A s' cs).map (fun x => (x.1, x.2.pool.stats)) =
          (runCalls A t' cs).map (fun x => (x.1, x.2.pool.stats)) := by
  have hinitRep := (mempoolInit_spec hinit hok hsize hbs hal (by omega)).2
  have hfresh : ∀ i < o.pool.totalBlocks.toNat, i ∈ Lifo.fresh o.pool.geometry := fun i hi => by
    simpa [Lifo.fresh, Pool.geometry] using hi
  obtain ⟨s', hstep, hpool, hrep, hidem⟩ := reset_state hinit hok hsize hbs hal hround hreach
  have haddr : s'.pool.blockAddr = o.pool.blockAddr := by rw [hpool]; rfl
  refine ⟨s', hstep, hpool, ⟨_, hinitRep.chain, haddr ▸ hrep.chain⟩, fun a ha => ?_, hidem,
    fun t h' t' ht htstep cs => ?_⟩
  · have ha' : InBitmap s'.pool a := by rw [hpool]; exact ha
    exact (hrep.bitmap_zero (by rw [hpool]; exact hfresh) ha').trans
      (hinitRep.bitmap_zero hfresh ha).symm
  · obtain ⟨t'', htstep', hpool', hrep', -⟩ := reset_state hinit hok hsize hbs hal hround ht
    rw [htstep, Option.some.injEq, Prod.mk.injEq] at htstep'
    obtain ⟨-, rfl⟩ := htstep'
    have hrun := congrArg (Option.map fun y => (y.1, y.2.stats))
      (hrep.runCalls_congr hrep' (by rw [hpool, hpool']; rfl) cs)
    simpa only [Option.map_map, Function.comp_def, Pool.stats_withoutHook] using hrun

end FromInit

theorem reset_restores_init_sample :
    let s : State := sampleRun.2
    ∃ s', step lp64 s .reset = some (.code .ok, s') ∧
      s'.pool = { samplePool.pool with sync := s.pool.sync, syncEnabled := s.pool.syncEnabled } ∧
      (∃ L, Chain lp64.ptrSize samplePool.mem samplePool.pool.freeList L ∧
        Chain lp64.ptrSize s'.mem s'.pool.freeList L) ∧
      (∀ a, InBitmap samplePool.pool a → s'.mem a = samplePool.mem a) ∧
      step lp64 s' .reset = some (.code .ok, s') ∧
      ∀ (t : State) (h' : History) (t' : State),
        Reachable lp64 ⟨samplePool.pool, samplePool.mem⟩ t h' →
        step lp64 t .reset = some (.code .ok, t') →
        ∀ cs, (runCalls lp64 s' cs).map (fun x => (x.1, x.2.pool.stats)) =
          (runCalls lp64 t' cs).map (fun x => (x.1, x.2.pool.stats)) :=
  reset_restores_init (Option.some_get _).symm (by decide) (by decide) (by decide) (by decide)
    (by decide) sampleRun_reachable

end Mempool
