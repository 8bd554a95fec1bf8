import Mempool.Proof.Careless
import Mempool.Proof.InitFailure
import Mempool.Proof.LinkWrites

/-!
# `Proof/Isolation.lean` — pools that share one memory

`MultiPoolTests.IndependentPools` creates two pools over two buffers, allocates from each, and
checks that each recognises only its own block. This file proves that for every run of any
number of pools in one memory.

A pool's control block lives in its state buffer, whose address is the pool's handle. The model
keeps the control block as a record behind the handle (`System`), so the bytes of a live control
block in `Mem` stand for nothing, and every write of the system has to keep them, as well as
the bytes each live pool reads. A call on the pool at `k` is the one-pool `step` on
`System.view k`, followed by the store through its out-parameter (`outStore`): `*block` after a
successful `mempool_alloc`, `*stats` after a successful `mempool_get_stats`.

A run of the system (`SysRun`) creates pools with `mempool_init`, each with a control block and a
pool buffer that share no byte with each other or with what a live pool owns (`Live.Owns`), and
stores the new handle through `pool_out`; makes failing `mempool_init` calls, which may clear
the control block they are given, on state buffers apart from every other live pool; calls live
pools in any interleaving; lets the client store any byte it may write (`Writable`: in no live
control block, and inside a live pool's buffer only in a block that pool handed out and has not
taken back, the spec's shared-resource policy); and discards pools, whose buffers may then be
reused. The out-parameter stores are held to the client's rule.

The proof reads each pool on its own, as a careless run (`Proof/Careless.lean`): what a pool
reads lies in its region, and its region in its buffer (`SysInv.inBuffer_of_reads`). Each call
writes inside its own pool's region and `mempool_init` inside the buffer it is given
(`Proof/LinkWrites.lean`), so every write of the system keeps what every other live pool owns,
and the stores of the client and through out-parameters keep what every live pool reads and its
control block (`SysInv.write`, `SysRun.inv`). Every one-pool result then holds of each pool, and
no pool takes another's blocks for its own (`pools_independent`).
-/

set_option autoImplicit false

namespace Mempool

/-! ## One pool among others -/

/-- Address `a` lies in the pool buffer `[poolBuffer, poolBuffer + poolBufferSize)`. -/
def InBuffer (poolBuffer poolBufferSize a : Nat) : Prop :=
  poolBuffer ≤ a ∧ a < poolBuffer + poolBufferSize

namespace Rep

variable {A : Arch} {s : State} {S : List Nat}

/-- A nonzero pointer outside the region is no block of the pool: `mempool_contains` says no, and
`mempool_free` rejects it with `MEMPOOL_ERR_INVALID_BLOCK`, changing nothing. -/
theorem foreign (hr : Rep A s S) {b : Nat} (hb0 : b ≠ 0) (hb : ¬ s.pool.InRegion b) :
    mempoolContains A s b = false ∧ step A s (.free b) = some (.code .errInvalidBlock, s) := by
  have hl := hr.layout
  have hbm := hl.bitmap_le
  unfold Pool.InRegion at hb
  refine ⟨?_, ?_⟩
  · simp only [mempoolContains, hb0, hl.initialized, hl.blocksEndAddr_eq, Bool.not_true,
      Bool.false_eq_true, or_self, if_false, decide_eq_false_iff_not]
    omega
  · rw [hr.step_free, if_neg hb0]
    cases hidx : s.pool.geometry.indexOf b with
    | none => rfl
    | some i =>
      -- an index the pool accepts names one of its blocks, inside the region
      obtain ⟨hi, rfl⟩ := (Geometry.indexOf_eq_some_iff hl.blockSize_pos).1 hidx
      have hend := @Layout.blockAddr_lt s.pool i hi
      have := hl.blockSize_pos
      simp only [Pool.blockAddr, Geometry.addr, Pool.geometry] at hend hb
      omega

end Rep

/-- `s₀` is what a successful `mempool_init` over the pool buffer
`[poolBuffer, poolBuffer + poolBufferSize)` left, with `size_t` sizes and a rounded block size
that fits in 32 bits: the hypotheses of every one-pool run theorem. -/
def InitOk (A : Arch) (poolBuffer poolBufferSize : Nat) (s₀ : State) : Prop :=
  ∃ (prior : Pool) (mem : Mem) (stateBuffer stateBufferSize blockSize alignment poolOut : Nat)
    (o : InitOutcome),
    mempoolInit A prior mem stateBuffer stateBufferSize poolBuffer poolBufferSize blockSize
      alignment poolOut = some o ∧ o.result = .ok ∧ poolBufferSize < A.modulus ∧
    blockSize < A.modulus ∧ alignment < A.modulus ∧ roundUp blockSize alignment ≤ 2 ^ 32 - 1 ∧
    s₀ = ⟨o.pool, o.mem⟩

/-- A pool fresh from `mempool_init` represents the fresh stack of its geometry, and its region
lies in the buffer it was given. -/
theorem InitOk.fresh {A : Arch} {poolBuffer poolBufferSize : Nat} {s₀ : State}
    (h₀ : InitOk A poolBuffer poolBufferSize s₀) :
    Refines A s₀.pool.geometry s₀ [] ∧
      ∀ a, s₀.pool.InRegion a → InBuffer poolBuffer poolBufferSize a := by
  obtain ⟨_, _, _, _, _, _, _, o, hinit, hok, hsize, hbs, hal, hround, rfl⟩ := h₀
  obtain ⟨hI, hrep⟩ := mempoolInit_spec hinit hok hsize hbs hal (by omega)
  exact ⟨⟨hrep, rfl, rfl⟩, fun a ha => ⟨hI.bitmap_eq ▸ ha.1, Nat.lt_of_lt_of_le ha.2 hI.end_le⟩⟩

/-! ## Out-parameters -/

/-- `uint32_t` values stored one after another from `a`, each least significant byte first. -/
def storeU32s : Mem → Nat → List UInt32 → Mem
  | m, _, [] => m
  | m, a, v :: vs => storeU32s (storeWord 4 m a v.toNat) (a + 4) vs

/-- `*stats = pool->stats`: the seven `uint32_t` fields of `mempool_stats_t`, in declaration
order, from `a`. -/
def storeStats (m : Mem) (a : Nat) (st : MempoolStats) : Mem :=
  storeU32s m a [st.totalBlocks, st.usedBlocks, st.freeBlocks, st.peakUsage, st.allocCount,
    st.freeCount, st.blockSize]

/-- What a call stores through its out-parameter as it returns: the block a successful
`mempool_alloc` hands out, at `block`, and the record a successful `mempool_get_stats` copies,
at `stats`. -/
def outStore (A : Arch) : Call → Reply → Mem → Mem
  | .alloc block, .block p, m => storeWord A.ptrSize m block p
  | .getStats stats, .stats st, m => storeStats m stats st
  | _, _, m => m

/-- The bytes `outStore` writes. -/
def OutBytes (A : Arch) : Call → Reply → Nat → Prop
  | .alloc block, .block _, a => block ≤ a ∧ a < block + A.ptrSize
  | .getStats stats, .stats _, a => stats ≤ a ∧ a < stats + 28
  | _, _, _ => False

theorem storeU32s_writesOnly (m : Mem) (a : Nat) (vs : List UInt32) :
    WritesOnly m (storeU32s m a vs) fun b => a ≤ b ∧ b < a + 4 * vs.length := by
  induction vs generalizing m a with
  | nil => exact WritesOnly.refl _ _
  | cons v vs ih =>
    refine ((WritesOnly.storeWord 4 m a v.toNat).mono fun b hb => ?_).trans
      ((ih _ (a + 4)).mono fun b hb => ?_) <;>
    · simp only [List.length_cons]; omega

theorem outStore_writesOnly (A : Arch) (c : Call) (r : Reply) (m : Mem) :
    WritesOnly m (outStore A c r m) (OutBytes A c r) := by
  cases c <;> cases r <;> first
    | exact WritesOnly.refl _ _
    | exact WritesOnly.storeWord _ _ _ _
    | exact storeU32s_writesOnly _ _ _

/-! ## Several pools in one memory -/

/-- Pools sharing one memory: the control block in each state buffer, by the buffer's address,
and the memory that holds every pool buffer and the client's data. -/
structure System where
  pool : Nat → Pool
  mem : Mem

/-- The pool whose state buffer is at `k`, as the one-pool model sees it. -/
def System.view (sys : System) (k : Nat) : State := ⟨sys.pool k, sys.mem⟩

/-- A call on the pool at `k`: the one-pool call on its view, its control block written back,
then the store through its out-parameter. -/
def System.step (A : Arch) (sys : System) (k : Nat) (c : Call) : Option (Reply × System) :=
  (Mempool.step A (sys.view k) c).map fun x =>
    (x.1, ⟨Function.update sys.pool k x.2.pool, outStore A c x.1 x.2.mem⟩)

/-- A live pool, as the client keeps track of it: the pool buffer `mempool_init` was given, the
state it left, and the calls made on the pool since, with their replies, the most recent first. -/
structure Live where
  poolBuffer : Nat
  poolBufferSize : Nat
  created : State
  history : History

/-- The bytes a live pool with handle `k` owns: its control block and its pool buffer. -/
def Live.Owns (A : Arch) (k : Nat) (l : Live) (a : Nat) : Prop :=
  InControl A k a ∨ InBuffer l.poolBuffer l.poolBufferSize a

/-- A byte the client may write: in no live pool's control block, and inside a live pool's
buffer only in a block that pool holds out. -/
def Writable (A : Arch) (sys : System) (ledger : Nat → Option Live) (a : Nat) : Prop :=
  ∀ k l, ledger k = some l → ¬ InControl A k a ∧
    (InBuffer l.poolBuffer l.poolBufferSize a → InHeldBlock l.history (sys.pool k).blockSize.toNat a)

/-- The runs of a system of pools, with the client's record of which handles hold a live pool. -/
inductive SysRun (A : Arch) : System → (Nat → Option Live) → Prop
  /-- Any control blocks and memory; no pool is live yet. -/
  | start (pool : Nat → Pool) (mem : Mem) : SysRun A ⟨pool, mem⟩ fun _ => none
  /-- `mempool_init` with the state buffer at `k` succeeds over a pool buffer that shares no byte
  with that control block, and neither shares a byte with what a live pool at another handle
  owns; a pool live at `k` before is replaced. The handle is then stored through `pool_out`,
  into bytes the client may write. -/
  | create {sys : System} {ledger : Nat → Option Live}
      {k stateBufferSize poolBuffer poolBufferSize blockSize alignment poolOut : Nat}
      {o : InitOutcome} :
      SysRun A sys ledger →
      mempoolInit A (sys.pool k) sys.mem k stateBufferSize poolBuffer poolBufferSize blockSize
        alignment poolOut = some o →
      o.result = .ok → poolBufferSize < A.modulus → blockSize < A.modulus →
      alignment < A.modulus → roundUp blockSize alignment ≤ 2 ^ 32 - 1 →
      (∀ a, InControl A k a → ¬ InBuffer poolBuffer poolBufferSize a) →
      (∀ j l, j ≠ k → ledger j = some l → ∀ a, l.Owns A j a →
        ¬ Live.Owns A k ⟨poolBuffer, poolBufferSize, ⟨o.pool, o.mem⟩, []⟩ a) →
      (∀ a, poolOut ≤ a → a < poolOut + A.ptrSize →
        Writable A ⟨Function.update sys.pool k o.pool, o.mem⟩
          (Function.update ledger k (some ⟨poolBuffer, poolBufferSize, ⟨o.pool, o.mem⟩, []⟩)) a) →
      SysRun A ⟨Function.update sys.pool k o.pool, storeWord A.ptrSize o.mem poolOut k⟩
        (Function.update ledger k (some ⟨poolBuffer, poolBufferSize, ⟨o.pool, o.mem⟩, []⟩))
  /-- `mempool_init` with the state buffer at `k` fails; that control block shares no byte with
  what a live pool at another handle owns, and no pool is live at `k` after it. -/
  | fail {sys : System} {ledger : Nat → Option Live}
      {k stateBufferSize poolBuffer poolBufferSize blockSize alignment poolOut : Nat}
      {o : InitOutcome} :
      SysRun A sys ledger →
      mempoolInit A (sys.pool k) sys.mem k stateBufferSize poolBuffer poolBufferSize blockSize
        alignment poolOut = some o →
      o.result ≠ .ok → (∀ j l, j ≠ k → ledger j = some l → ∀ a, l.Owns A j a → ¬ InControl A k a) →
      SysRun A ⟨Function.update sys.pool k o.pool, o.mem⟩ (Function.update ledger k none)
  /-- The client discards the pool at `k`; its buffers are the client's again. -/
  | discard {sys : System} {ledger : Nat → Option Live} (k : Nat) :
      SysRun A sys ledger → SysRun A sys (Function.update ledger k none)
  /-- A call on a live pool, without undefined behaviour, whose out-parameter names bytes the
  client may write. -/
  | call {sys : System} {ledger : Nat → Option Live} {k : Nat} {l : Live} {c : Call} {r : Reply}
      {sys' : System} :
      SysRun A sys ledger → ledger k = some l → System.step A sys k c = some (r, sys') →
      (∀ a, OutBytes A c r a →
        Writable A sys' (Function.update ledger k (some { l with history := (c, r) :: l.history })) a) →
      SysRun A sys' (Function.update ledger k (some { l with history := (c, r) :: l.history }))
  /-- A store of the client, into a byte it may write. -/
  | store {sys : System} {ledger : Nat → Option Live} {a : Nat} {v : UInt8} :
      SysRun A sys ledger → Writable A sys ledger a →
      SysRun A ⟨sys.pool, storeByte sys.mem a v⟩ ledger

/-- What holds all along a run of the system: each live pool was created by a successful
`mempool_init`, has run since as a careless run, and two live pools own no byte in common. -/
structure SysInv (A : Arch) (sys : System) (ledger : Nat → Option Live) : Prop where
  created : ∀ k l, ledger k = some l → InitOk A l.poolBuffer l.poolBufferSize l.created
  careless : ∀ k l, ledger k = some l → Careless A k l.created (sys.view k) l.history
  apart : ∀ j k lj lk, j ≠ k → ledger j = some lj → ledger k = some lk →
    ∀ a, lj.Owns A j a → ¬ lk.Owns A k a

theorem update_eq_some {ledger : Nat → Option Live} {k j : Nat} {v : Option Live} {l : Live}
    (h : Function.update ledger k v j = some l) : (j = k ∧ v = some l) ∨ (j ≠ k ∧ ledger j = some l) := by
  by_cases hj : j = k
  · subst hj; exact .inl ⟨rfl, by rwa [Function.update_same] at h⟩
  · exact .inr ⟨hj, by rwa [Function.update_noteq hj] at h⟩

theorem update_none_eq_some {ledger : Nat → Option Live} {k j : Nat} {l : Live}
    (h : Function.update ledger k none j = some l) : j ≠ k ∧ ledger j = some l := by
  rcases update_eq_some h with ⟨-, ⟨⟩⟩ | h
  exact h

namespace SysInv

variable {A : Arch} {sys : System} {ledger : Nat → Option Live} {k : Nat} {l : Live}

/-- A live pool refines the abstract pool of its own geometry. -/
theorem refines (hI : SysInv A sys ledger) (hl : ledger k = some l) :
    Refines A l.created.pool.geometry (sys.view k) l.history :=
  (hI.careless k l hl).refines (hI.created k l hl).fresh.1

/-- A live pool's region lies in its buffer. -/
theorem inBuffer_of_region (hI : SysInv A sys ledger) (hl : ledger k = some l) {a : Nat}
    (ha : (sys.pool k).InRegion a) : InBuffer l.poolBuffer l.poolBufferSize a :=
  (hI.created k l hl).fresh.2 a (ha.of_shape (hI.careless k l hl).shape)

/-- What a live pool reads lies in its buffer. -/
theorem inBuffer_of_reads (hI : SysInv A sys ledger) (hl : ledger k = some l) {a : Nat}
    (ha : Reads A (sys.pool k) l.history a) : InBuffer l.poolBuffer l.poolBufferSize a :=
  hI.inBuffer_of_region hl ((hI.refines hl).rep.layout.inRegion_of_reads ha)

/-- A write that keeps every byte a live pool owns is a careless write for it. -/
theorem careless_of_keeps (hI : SysInv A sys ledger) (hl : ledger k = some l) {m : Mem}
    (hm : ∀ a, l.Owns A k a → m a = sys.mem a) :
    Careless A k l.created ⟨sys.pool k, m⟩ l.history :=
  (hI.careless k l hl).write fun a ha =>
    hm a (ha.elim (fun h => .inr (hI.inBuffer_of_reads hl h)) .inl)

/-- Dropping the pool at `k` from the record keeps the invariant. -/
theorem drop (hI : SysInv A sys ledger) (k : Nat) {pool : Nat → Pool}
    (hp : ∀ j, j ≠ k → pool j = sys.pool j) :
    SysInv A ⟨pool, sys.mem⟩ (Function.update ledger k none) := by
  refine ⟨fun j l hl => hI.created j l (update_none_eq_some hl).2, fun j l hl => ?_,
    fun i j li lj hij hi hj =>
      hI.apart i j li lj hij (update_none_eq_some hi).2 (update_none_eq_some hj).2⟩
  obtain ⟨hjk, hl'⟩ := update_none_eq_some hl
  show Careless _ _ _ ⟨pool j, sys.mem⟩ _
  rw [hp j hjk]
  exact hI.careless j l hl'

/-- Putting a live pool `l'` with control block `p` at `k`, through a write that keeps every byte
outside `l'`'s buffer, keeps the invariant, when `l'` was created by `mempool_init`, its state is
a careless run, and it owns no byte a live pool at another handle owns. -/
theorem replace (hI : SysInv A sys ledger) {p : Pool} {m : Mem} (l' : Live)
    (hc : InitOk A l'.poolBuffer l'.poolBufferSize l'.created)
    (hs : Careless A k l'.created ⟨p, m⟩ l'.history)
    (hw : WritesOnly sys.mem m (InBuffer l'.poolBuffer l'.poolBufferSize))
    (hapart : ∀ j l, j ≠ k → ledger j = some l → ∀ a, l.Owns A j a → ¬ l'.Owns A k a) :
    SysInv A ⟨Function.update sys.pool k p, m⟩ (Function.update ledger k (some l')) := by
  refine ⟨fun j l hl => ?_, fun j l hl => ?_, fun i j li lj hij hi hj => ?_⟩
  · rcases update_eq_some hl with ⟨-, ⟨⟩⟩ | ⟨-, hl'⟩
    · exact hc
    · exact hI.created j l hl'
  · rcases update_eq_some hl with ⟨rfl, ⟨⟩⟩ | ⟨hjk, hl'⟩
    · show Careless _ _ _ ⟨Function.update sys.pool j p j, m⟩ _
      rwa [Function.update_same]
    · show Careless _ _ _ ⟨Function.update sys.pool k p j, m⟩ _
      rw [Function.update_noteq hjk]
      exact hI.careless_of_keeps hl' fun a ha =>
        hw.apply_eq fun hb => hapart j l hjk hl' a ha (.inr hb)
  · rcases update_eq_some hi with ⟨rfl, ⟨⟩⟩ | ⟨hik, hi'⟩ <;>
      rcases update_eq_some hj with ⟨rfl, ⟨⟩⟩ | ⟨hjk, hj'⟩
    · exact absurd rfl hij
    · exact fun a ha hb => hapart j lj hjk hj' a hb ha
    · exact hapart i li hik hi'
    · exact hI.apart i j li lj hij hi' hj'

/-- A write of bytes the client may write keeps what every live pool reads and its control
block, so it keeps the invariant. -/
theorem write (hI : SysInv A sys ledger) {m : Mem} {W : Nat → Prop}
    (hw : WritesOnly sys.mem m W) (hW : ∀ a, W a → Writable A sys ledger a) :
    SysInv A ⟨sys.pool, m⟩ ledger := by
  refine ⟨hI.created, fun k l hl => (hI.careless k l hl).write fun b hb =>
    hw.apply_eq fun hWb => ?_, hI.apart⟩
  obtain ⟨hctl, hheld⟩ := hW b hWb k l hl
  rcases hb with hb | hb
  · exact (hI.refines hl).not_reads_of_held (hheld (hI.inBuffer_of_reads hl hb)) hb
  · exact hctl hb

/-- A successful `mempool_init` writes inside the buffer it is given, and it stores the handle
into bytes the client may write: it keeps the invariant. -/
theorem create (hI : SysInv A sys ledger)
    {stateBufferSize poolBuffer poolBufferSize blockSize alignment poolOut : Nat}
    {o : InitOutcome}
    (hinit : mempoolInit A (sys.pool k) sys.mem k stateBufferSize poolBuffer poolBufferSize
      blockSize alignment poolOut = some o)
    (hok : o.result = .ok) (hsize : poolBufferSize < A.modulus) (hbs : blockSize < A.modulus)
    (hal : alignment < A.modulus) (hround : roundUp blockSize alignment ≤ 2 ^ 32 - 1)
    (hapart : ∀ j l, j ≠ k → ledger j = some l → ∀ a, l.Owns A j a →
      ¬ Live.Owns A k ⟨poolBuffer, poolBufferSize, ⟨o.pool, o.mem⟩, []⟩ a)
    (hout : ∀ a, poolOut ≤ a → a < poolOut + A.ptrSize →
      Writable A ⟨Function.update sys.pool k o.pool, o.mem⟩
        (Function.update ledger k (some ⟨poolBuffer, poolBufferSize, ⟨o.pool, o.mem⟩, []⟩)) a) :
    SysInv A ⟨Function.update sys.pool k o.pool, storeWord A.ptrSize o.mem poolOut k⟩
      (Function.update ledger k (some ⟨poolBuffer, poolBufferSize, ⟨o.pool, o.mem⟩, []⟩)) :=
  (hI.replace ⟨poolBuffer, poolBufferSize, ⟨o.pool, o.mem⟩, []⟩
    ⟨_, _, _, _, _, _, _, o, hinit, hok, hsize, hbs, hal, hround, rfl⟩ .init
    ((mempoolInit_writes_bitmap_links hinit hok).mono fun _ =>
      mempoolInit_bitmap_links_in_buffer hinit hok hbs hal) hapart).write
    (WritesOnly.storeWord _ _ _ _) fun a ha => hout a ha.1 ha.2

theorem fail (hI : SysInv A sys ledger)
    {stateBufferSize poolBuffer poolBufferSize blockSize alignment poolOut : Nat}
    {o : InitOutcome}
    (hinit : mempoolInit A (sys.pool k) sys.mem k stateBufferSize poolBuffer poolBufferSize
      blockSize alignment poolOut = some o) (he : o.result ≠ .ok) :
    SysInv A ⟨Function.update sys.pool k o.pool, o.mem⟩ (Function.update ledger k none) := by
  rw [(mempoolInit_error hinit he).1]
  exact hI.drop k fun j hj => Function.update_noteq hj _ _

/-- A call writes inside its own pool's region, so inside its buffer, and then stores through
its out-parameter into bytes the client may write: it keeps the invariant. -/
theorem call (hI : SysInv A sys ledger) {c : Call} {r : Reply} {sys' : System}
    (hl : ledger k = some l) (hstep : System.step A sys k c = some (r, sys'))
    (hout : ∀ a, OutBytes A c r a →
      Writable A sys' (Function.update ledger k (some { l with history := (c, r) :: l.history })) a) :
    SysInv A sys' (Function.update ledger k (some { l with history := (c, r) :: l.history })) := by
  obtain ⟨⟨r, s'⟩, hs', he⟩ := Option.map_eq_some'.1 hstep
  cases he
  have hf := hI.refines hl
  exact (hI.replace { l with history := (c, r) :: l.history } (hI.created k l hl)
    ((hI.careless k l hl).call hs')
    ((step_writesOnly hf.rep.layout hs').mono fun a ha =>
      hI.inBuffer_of_region hl (hf.footprint_bounds hs' ha))
    fun j l' hjk hl' => hI.apart j k l' l hjk hl' hl).write (outStore_writesOnly A c r s'.mem) hout

theorem store (hI : SysInv A sys ledger) {a : Nat} (v : UInt8) (ha : Writable A sys ledger a) :
    SysInv A ⟨sys.pool, storeByte sys.mem a v⟩ ledger :=
  hI.write (WritesOnly.storeByte _ _ _) fun _ hb => hb ▸ ha

end SysInv

/-- Every run of the system keeps the invariant. -/
theorem SysRun.inv {A : Arch} {sys : System} {ledger : Nat → Option Live}
    (hrun : SysRun A sys ledger) : SysInv A sys ledger := by
  induction hrun with
  | start pool mem =>
    exact ⟨fun _ _ h => (nomatch h), fun _ _ h => (nomatch h), fun _ _ _ _ _ h => (nomatch h)⟩
  | create _ hinit hok hsize hbs hal hround _ hapart hout ih =>
    exact ih.create hinit hok hsize hbs hal hround hapart hout
  | fail _ hinit he _ ih => exact ih.fail hinit he
  | discard k _ ih => exact ih.drop k fun _ _ => rfl
  | call _ hl hstep hout ih => exact ih.call hl hstep hout
  | store _ ha ih => exact ih.store _ ha

/-- Pools sharing one memory are independent. In every run of the system, with pools created
over control blocks and pool buffers apart from everything a live pool owns, failing inits on
state buffers apart from every other live pool, calls in any interleaving, stores of the client
and through out-parameters into bytes in no live control block and, inside a live pool's buffer,
only in blocks it holds out, and pools discarded with their buffers reused, each live pool
* has no undefined behaviour on its next call, whatever the call;
* has answered every call as the abstract pool of its own geometry answers its own calls;
* has the control block that a run of that pool alone, with the same calls and replies, leaves;
and no live pool takes a block another live pool holds out for its own: `mempool_contains` says
no, and `mempool_free` returns `MEMPOOL_ERR_INVALID_BLOCK` and changes nothing. -/
theorem pools_independent {A : Arch} {sys : System} {ledger : Nat → Option Live}
    (hrun : SysRun A sys ledger) :
    (∀ k l, ledger k = some l →
      (∀ c, ∃ r sys', System.step A sys k c = some (r, sys')) ∧
      l.history.map (fun e => e.2.answer) =
        Lifo.answers l.created.pool.geometry (l.history.map Prod.fst) ∧
      ∃ t, Reachable A l.created t l.history ∧ t.pool = sys.pool k) ∧
    ∀ j k lj lk, j ≠ k → ledger j = some lj → ledger k = some lk →
      ∀ b ∈ outstanding lj.history, mempoolContains A (sys.view k) b = false ∧
        System.step A sys k (.free b) = some (.code .errInvalidBlock, sys) := by
  have hI := hrun.inv
  refine ⟨fun k l hl => ⟨fun c => ?_, (hI.refines hl).answers, ?_⟩,
    fun j k lj lk hjk hj hk b hb => ?_⟩
  · obtain ⟨r, s', hstep, -⟩ := (hI.refines hl).rep.step_lifo c
    exact ⟨r, _, by rw [System.step, hstep]; rfl⟩
  · exact (hI.careless k l hl).solo (hI.created k l hl).fresh.1
  -- a block pool `j` holds out lies in `j`'s buffer, so outside `k`'s buffer and region
  obtain ⟨hb0, hbj⟩ := (hI.refines hj).held_inRegion hb
  have hbk : ¬ (sys.view k).pool.InRegion b := fun hbk =>
    hI.apart j k lj lk hjk hj hk b (.inr (hI.inBuffer_of_region hj hbj))
      (.inr (hI.inBuffer_of_region hk hbk))
  obtain ⟨hmem, hfree⟩ := (hI.refines hk).rep.foreign hb0 hbk
  refine ⟨hmem, ?_⟩
  rw [System.step, hfree, Option.map_some']
  show some (_, ({ pool := Function.update sys.pool k (sys.pool k), mem := sys.mem } : System)) = _
  rw [Function.update_eq_self]

/-- A byte below every live pool's handle and pool buffer is one the client may write. -/
theorem writable_of_below {A : Arch} {sys : System} {ledger : Nat → Option Live} {a : Nat}
    (h : ∀ k l, ledger k = some l → a < k ∧ a < l.poolBuffer) : Writable A sys ledger a :=
  fun k l hl => ⟨fun hc => absurd hc.1 (by have := (h k l hl).1; omega),
    fun hb => absurd hb.1 (by have := (h k l hl).2; omega)⟩

/-- The sample pool at handle `256`, with the handle stored at `128`. -/
def sampleSys₁ : System :=
  ⟨Function.update (fun _ => Pool.zero) 256 samplePool.pool,
    storeWord lp64.ptrSize samplePool.mem 128 256⟩

/-- A second pool, at handle `512` over `[8192, 8704)`, created on the memory the first left. -/
def sampleInit₂ : InitOutcome :=
  (mempoolInit lp64 (sampleSys₁.pool 512) sampleSys₁.mem 512 112 8192 512 64 8 136).get
    (by decide)

/-- Both pools, the second one's handle stored at `136`. -/
def sampleSys₂ : System :=
  ⟨Function.update sampleSys₁.pool 512 sampleInit₂.pool,
    storeWord lp64.ptrSize sampleInit₂.mem 136 512⟩

/-- `mempool_alloc` on the first pool, with the block stored at `64`. -/
def sampleStep₃ : Reply × System :=
  (System.step lp64 sampleSys₂ 256 (.alloc 64)).get (by decide)

/-- The client's record after the three steps: both pools live, the first with its one call. -/
def sampleLedger : Nat → Option Live :=
  Function.update (Function.update (Function.update (fun _ => none) 256
    (some ⟨4096, 512, ⟨samplePool.pool, samplePool.mem⟩, []⟩)) 512
    (some ⟨8192, 512, ⟨sampleInit₂.pool, sampleInit₂.mem⟩, []⟩)) 256
    (some ⟨4096, 512, ⟨samplePool.pool, samplePool.mem⟩, [(.alloc 64, sampleStep₃.1)]⟩)

theorem pools_independent_sample :
    let sys := sampleStep₃.2
    (∀ k l, sampleLedger k = some l →
      (∀ c, ∃ r sys', System.step lp64 sys k c = some (r, sys')) ∧
      l.history.map (fun e => e.2.answer) =
        Lifo.answers l.created.pool.geometry (l.history.map Prod.fst) ∧
      ∃ t, Reachable lp64 l.created t l.history ∧ t.pool = sys.pool k) ∧
    ∀ j k lj lk, j ≠ k → sampleLedger j = some lj → sampleLedger k = some lk →
      ∀ b ∈ outstanding lj.history, mempoolContains lp64 (sys.view k) b = false ∧
        System.step lp64 sys k (.free b) = some (.code .errInvalidBlock, sys) := by
  have h112 : mempoolStateSize lp64 = 112 := rfl
  have h8 : lp64.ptrSize = 8 := rfl
  have hinit₁ : mempoolInit lp64 Pool.zero (fun _ => 0) 256 112 4096 512 64 8 128 =
      some samplePool := (Option.some_get _).symm
  have hinit₂ : mempoolInit lp64 (sampleSys₁.pool 512) sampleSys₁.mem 512 112 8192 512 64 8 136 =
      some sampleInit₂ := (Option.some_get _).symm
  have hstep₃ : System.step lp64 sampleSys₂ 256 (.alloc 64) = some (sampleStep₃.1, sampleStep₃.2) := by
    rw [Prod.mk.eta]; exact (Option.some_get _).symm
  have hrun₁ := SysRun.create (SysRun.start (fun _ => Pool.zero) (fun _ => 0)) hinit₁
    (by decide) (by decide) (by decide) (by decide) (by decide)
    (fun a h h' => by simp only [InControl, InBuffer, h112] at h h'; omega)
    (fun _ _ _ h => by cases h)
    (fun a _ h => writable_of_below fun k l hl => by
      rcases update_eq_some hl with ⟨rfl, ⟨⟩⟩ | ⟨-, ⟨⟩⟩
      exact ⟨by omega, by show a < 4096; omega⟩)
  have hrun₂ := SysRun.create hrun₁ hinit₂
    (by decide) (by decide) (by decide) (by decide) (by decide)
    (fun a h h' => by simp only [InControl, InBuffer, h112] at h h'; omega)
    (fun j l _ hl a ha hb => by
      rcases update_eq_some hl with ⟨rfl, ⟨⟩⟩ | ⟨-, ⟨⟩⟩
      simp only [Live.Owns, InControl, InBuffer, h112] at ha hb
      omega)
    (fun a _ h => writable_of_below fun k l hl => by
      rcases update_eq_some hl with ⟨rfl, ⟨⟩⟩ | ⟨-, hl⟩
      · exact ⟨by omega, by show a < 8192; omega⟩
      rcases update_eq_some hl with ⟨rfl, ⟨⟩⟩ | ⟨-, ⟨⟩⟩
      exact ⟨by omega, by show a < 4096; omega⟩)
  have hrun₃ := SysRun.call (k := 256) hrun₂ rfl hstep₃ fun a h => writable_of_below fun k l hl => by
    rw [show sampleStep₃.1 = .block 4488 by decide] at h
    obtain ⟨-, h⟩ := h
    rcases update_eq_some hl with ⟨rfl, ⟨⟩⟩ | ⟨-, hl⟩
    · exact ⟨by omega, by show a < 4096; omega⟩
    rcases update_eq_some hl with ⟨rfl, ⟨⟩⟩ | ⟨-, hl⟩
    · exact ⟨by omega, by show a < 8192; omega⟩
    rcases update_eq_some hl with ⟨rfl, ⟨⟩⟩ | ⟨-, ⟨⟩⟩
    exact ⟨by omega, by show a < 4096; omega⟩
  exact pools_independent hrun₃
end Mempool
