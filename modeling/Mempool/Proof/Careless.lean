import Mempool.Proof.Footprint

/-!
# `Proof/Careless.lean` — the bytes a pool reads

A pool keeps its state in the control block and in two kinds of bytes of its buffer: the
bitmap, and the link word, the first pointer-sized word, of each free block, through which the
free list runs. A state represents its free stack through those bytes alone
(`Rep.frame_stack`). A client cannot see the free stack, but it knows which blocks it holds,
and the free blocks are the others: `Reads` is the bitmap and the link words of the blocks the
client does not hold. The control block is the first `sizeof (struct mempool)` bytes of the
state buffer (`InControl`); the model keeps it as a record, so a write to those bytes has to be
ruled out rather than read back.

The spec lets the client write only into the blocks it holds. The pool needs less: a write of any
bytes that keeps the control block and those of `Reads` goes unnoticed (`Careless`). A write
into a freed block past its first pointer-sized word, into the padding after the bitmap or past
the last block, changes no reply, no block pointer and no control block: the run answers as the
abstract pool does and leaves the control block that a run with the same calls and no such
writes leaves (`careless_writes_unnoticed`). The writes the contract allows are of this kind
when the state buffer lies outside the pool's region (`Refines.not_reads_of_held`,
`Reachable.careless`), and so are the writes of other code outside both buffers, which
`Proof/Isolation.lean` uses.

The converse is not stated here: a write into the link word of a free block is read by the next
`mempool_alloc` that pops it, which then returns whatever pointer the write left.
-/
set_option autoImplicit false

namespace Mempool

/-- The bytes a pool's state is read from, as the client can tell them after history `h`: the
bitmap, and the first pointer-sized word of every block the client does not hold. -/
def Reads (A : Arch) (p : Pool) (h : History) (a : Nat) : Prop :=
  InBitmap p a ∨ ∃ i < p.totalBlocks.toNat, p.blockAddr i ∉ outstanding h ∧
    p.blockAddr i ≤ a ∧ a < p.blockAddr i + A.ptrSize

/-- Address `a` is a byte of the control block in the state buffer at `stateBuffer`: one of its
first `mempool_state_size()` bytes. -/
def InControl (A : Arch) (stateBuffer a : Nat) : Prop :=
  stateBuffer ≤ a ∧ a < stateBuffer + mempoolStateSize A

/-- The bytes from the first bitmap byte to the end of the last block. -/
def Pool.InRegion (p : Pool) (a : Nat) : Prop :=
  p.bitmap ≤ a ∧ a < p.blocksStart + p.totalBlocks.toNat * p.blockSize.toNat

/-- The region is a function of the shape, which no call changes. -/
theorem Pool.InRegion.of_shape {p q : Pool} (hpq : p.shape = q.shape) {a : Nat}
    (ha : p.InRegion a) : q.InRegion a := by
  obtain ⟨-, hstart, hbitmap, -, hbsz, hN, -, -⟩ := Shape.mk.inj hpq
  unfold Pool.InRegion at ha ⊢
  rwa [← hstart, ← hbitmap, ← hbsz, ← hN]

/-- What the pool reads lies in its region. -/
theorem Layout.inRegion_of_reads {A : Arch} {p : Pool} (hl : Layout A p) {h : History} {a : Nat}
    (ha : Reads A p h a) : p.InRegion a := by
  have := hl.bitmap_le
  rcases ha with ⟨h₁, h₂⟩ | ⟨i, hi, -, hia, hai⟩
  · exact ⟨h₁, by omega⟩
  · have hend := @Layout.blockAddr_lt p i hi
    have := hl.ptrSize_le
    simp only [Pool.blockAddr] at hend hia hai
    exact ⟨by omega, by omega⟩

/-- A state represents its free stack through the bitmap and the link words of the blocks on the
stack alone. -/
theorem Rep.frame_stack {A : Arch} {s : State} {S : List Nat} (hr : Rep A s S) {m : Mem}
    (hm : ∀ a, (InBitmap s.pool a ∨
      ∃ i ∈ S, s.pool.blockAddr i ≤ a ∧ a < s.pool.blockAddr i + A.ptrSize) → m a = s.mem a) :
    Rep A ⟨s.pool, m⟩ S := by
  refine ⟨hr.layout, hr.chain.frame fun q hq t ht => ?_, hr.nodup, hr.lt, hr.freeBlocks_eq,
    fun j hj => ?_, hr.stats_totalBlocks, hr.stats_freeBlocks, hr.stats_usedBlocks,
    hr.stats_blockSize⟩
  · obtain ⟨i, hi, rfl⟩ := List.mem_map.1 hq
    exact hm _ (.inr ⟨i, hi, by omega, by omega⟩)
  · change j < 8 * s.pool.bitmapBytes.toNat at hj
    show bitAt m s.pool.bitmap j = _
    rw [bitAt_congr (hm _ (.inl ⟨by omega, by omega⟩))]
    exact hr.bit_eq j hj

namespace Refines

variable {A : Arch} {g : Geometry} {s : State} {h : History}

/-- A write that keeps the bytes the pool reads keeps the refinement. -/
theorem frame (hf : Refines A g s h) {m : Mem} (hm : ∀ a, Reads A s.pool h a → m a = s.mem a) :
    Refines A g ⟨s.pool, m⟩ h := by
  refine ⟨hf.rep.frame_stack fun a ha => hm a (ha.imp_right ?_), hf.geometry, hf.answers⟩
  -- a block on the free stack is one the client does not hold
  rintro ⟨i, hiS, ha⟩
  refine ⟨i, hf.rep.lt i hiS, fun hb => ?_, ha⟩
  obtain ⟨j, -, hjS, he⟩ := (hf.held.mem_iff _).1 hb
  rw [← hf.geometry] at he
  exact hjS (hf.rep.layout.blockAddr_injective he ▸ hiS)

/-- No byte of a block the client holds is one the pool reads. -/
theorem not_reads_of_held (hf : Refines A g s h) {a : Nat}
    (ha : InHeldBlock h s.pool.blockSize.toNat a) : ¬ Reads A s.pool h a := by
  obtain ⟨b, hb, hba, hab⟩ := ha
  obtain ⟨j, -, -, rfl⟩ := hf.held_addr hb
  have hl := hf.rep.layout
  rintro (⟨-, h₂⟩ | ⟨i, -, hni, hia, hai⟩)
  · -- the bitmap lies below every block
    have := hl.bitmap_le
    simp only [Pool.blockAddr] at hba
    omega
  · -- block `i` is not held and block `j` is, so they are different blocks, which do not overlap
    have hij : i ≠ j := fun e => hni (e ▸ hb)
    have := hl.ptrSize_le
    exact Layout.blockAddr_add_ne hij (show a - s.pool.blockAddr i < s.pool.blockSize.toNat by omega)
      (show a - s.pool.blockAddr j < s.pool.blockSize.toNat by omega) (by omega)

/-- A block the client holds is a nonzero address in the pool's region. -/
theorem held_inRegion (hf : Refines A g s h) {b : Nat} (hb : b ∈ outstanding h) :
    b ≠ 0 ∧ s.pool.InRegion b := by
  obtain ⟨i, hi, -, rfl⟩ := hf.held_addr hb
  rw [← hf.geometry] at hi
  have hl := hf.rep.layout
  have hend := @Layout.blockAddr_lt s.pool i hi
  have := hl.bitmap_le
  have := hl.blockSize_pos
  simp only [Pool.blockAddr] at hend
  exact ⟨(hl.blockAddr_pos i).ne', by simp only [Pool.blockAddr]; omega,
    by simp only [Pool.blockAddr]; omega⟩

end Refines

/-- The states a pool with its control block at `stateBuffer` passes through when anyone, the
client included, may write the bytes the pool does not read: its calls, as in `Reachable`, and
any write that keeps the control block, the bitmap and the link word of every block the client
does not hold. -/
inductive Careless (A : Arch) (stateBuffer : Nat) (s₀ : State) : State → History → Prop
  | init : Careless A stateBuffer s₀ s₀ []
  | call {s : State} {h : History} {c : Call} {r : Reply} {s' : State} :
      Careless A stateBuffer s₀ s h → step A s c = some (r, s') →
      Careless A stateBuffer s₀ s' ((c, r) :: h)
  | write {s : State} {h : History} {m : Mem} :
      Careless A stateBuffer s₀ s h →
      (∀ a, Reads A s.pool h a ∨ InControl A stateBuffer a → m a = s.mem a) →
      Careless A stateBuffer s₀ ⟨s.pool, m⟩ h

section Careless

variable {A : Arch} {g : Geometry} {stateBuffer : Nat} {s₀ s : State} {h : History}

theorem Careless.shape (hs : Careless A stateBuffer s₀ s h) : s.pool.shape = s₀.pool.shape := by
  induction hs with
  | init => rfl
  | call _ hstep ih => exact (step_shape hstep).trans ih
  | write _ _ ih => exact ih

variable (h₀ : Refines A g s₀ [])

include h₀

/-- A careless run refines the abstract pool, as a careful one does. -/
theorem Careless.refines (hs : Careless A stateBuffer s₀ s h) : Refines A g s h := by
  induction hs with
  | init => exact h₀
  | call _ hstep ih => exact ih.call hstep
  | write _ hm ih => exact ih.frame fun a ha => hm a (.inl ha)

/-- When the control block lies outside the pool's region, the client's stores into blocks it
holds are careless writes. -/
theorem Reachable.careless (hsep : ∀ a, s₀.pool.InRegion a → ¬ InControl A stateBuffer a)
    (hs : Reachable A s₀ s h) : Careless A stateBuffer s₀ s h := by
  induction hs with
  | init => exact .init
  | call _ hstep ih => exact ih.call hstep
  | @store s h a v hs ha ih =>
    have hf := hs.refines_of h₀
    -- the stored byte lies in a held block, inside the region, so apart from the control block
    have hreg : s.pool.InRegion a := by
      obtain ⟨b, hb, hba, hab⟩ := ha
      obtain ⟨-, hb₁, hb₂⟩ := hf.held_inRegion hb
      obtain ⟨i, hi, -, rfl⟩ := hf.held_addr hb
      rw [← hf.geometry] at hi
      have := @Layout.blockAddr_lt s.pool i hi
      exact ⟨by omega, by omega⟩
    exact ih.write fun b hb => by
      rw [storeByte_apply, if_neg]
      rintro rfl
      rcases hb with hb | hb
      · exact hf.not_reads_of_held ha hb
      · exact hsep b (hreg.of_shape hs.shape) hb

/-- The careless writes go unnoticed: a run with the same calls and no writes but stores into
held blocks gets the same replies and leaves the same control block. -/
theorem Careless.solo (hs : Careless A stateBuffer s₀ s h) :
    ∃ t, Reachable A s₀ t h ∧ t.pool = s.pool := by
  induction hs with
  | init => exact ⟨_, .init, rfl⟩
  | @call s h c r s' hs hstep ih =>
    obtain ⟨t, ht, hp⟩ := ih
    have hft := ht.refines_of h₀
    obtain ⟨r', t', hstep', -⟩ := hft.rep.step_lifo c
    have hc := hft.rep.step_congr (hs.refines h₀).rep hp c
    simp only [hstep, hstep', Option.map_some', Option.some.injEq, Prod.mk.injEq] at hc
    obtain ⟨rfl, hp'⟩ := hc
    exact ⟨t', ht.call hstep', hp'⟩
  | write _ _ ih => exact ih

end Careless

section FromInit

variable {A : Arch} {prior : Pool} {mem : Mem}
  {stateBuffer stateBufferSize poolBuffer poolBufferSize blockSize alignment poolOut : Nat}
  {o : InitOutcome}
  (hinit : mempoolInit A prior mem stateBuffer stateBufferSize poolBuffer poolBufferSize blockSize
    alignment poolOut = some o)
  (hok : o.result = .ok) (hsize : poolBufferSize < A.modulus)
  (hbs : blockSize < A.modulus) (hal : alignment < A.modulus)
  (hround : roundUp blockSize alignment ≤ 2 ^ 32 - 1)

include hinit hok hsize hbs hal hround

/-- Writes that keep the bytes the pool reads go unnoticed. Take a pool from a successful
`mempool_init`, and a client that between calls writes anything but the control block in the
state buffer, the bitmap and the first pointer-sized word of the blocks it does not hold: past
the first word of a block it freed, into the padding after the bitmap or past the last block,
into blocks it holds, outside the buffers. In every run, the next call of any kind has no
undefined behaviour, every answer so far is the abstract pool's, and the control block is the
one a run with the same calls and replies leaves when the client stores only into blocks it
holds. -/
theorem careless_writes_unnoticed {s : State} {h : History}
    (hs : Careless A stateBuffer ⟨o.pool, o.mem⟩ s h) :
    (∀ c, ∃ r s', step A s c = some (r, s')) ∧
      h.map (fun e => e.2.answer) = Lifo.answers o.pool.geometry (h.map Prod.fst) ∧
      ∃ t, Reachable A ⟨o.pool, o.mem⟩ t h ∧ t.pool = s.pool := by
  have h₀ : Refines A o.pool.geometry ⟨o.pool, o.mem⟩ [] :=
    ⟨(mempoolInit_spec hinit hok hsize hbs hal (by omega)).2, rfl, rfl⟩
  have hf := hs.refines h₀
  refine ⟨fun c => ?_, hf.answers, hs.solo h₀⟩
  obtain ⟨r, s', hstep, -⟩ := hf.rep.step_lifo c
  exact ⟨r, s', hstep⟩

end FromInit

/-- A write into the padding between the bitmap (one byte at 4096) and the first block (at
4104) of the sample pool, whose control block is at 256. -/
theorem careless_writes_unnoticed_sample :
    (∀ c, ∃ r s', step lp64 ⟨samplePool.pool, storeByte samplePool.mem 4097 255⟩ c = some (r, s')) ∧
      ([] : History).map (fun e => e.2.answer) =
        Lifo.answers samplePool.pool.geometry (([] : History).map Prod.fst) ∧
      ∃ t, Reachable lp64 ⟨samplePool.pool, samplePool.mem⟩ t [] ∧ t.pool = samplePool.pool :=
  careless_writes_unnoticed (Option.some_get _).symm (by decide) (by decide)
    (by decide) (by decide) (by decide) (.write .init fun a ha => by
      have hbm : samplePool.pool.bitmap = 4096 := by decide
      have hbb : samplePool.pool.bitmapBytes.toNat = 1 := by decide
      have hst : samplePool.pool.blocksStart = 4104 := by decide
      show storeByte samplePool.mem 4097 255 a = samplePool.mem a
      change Reads lp64 samplePool.pool [] a ∨ InControl lp64 256 a at ha
      rw [storeByte_apply, if_neg]
      rcases ha with (⟨h₁, h₂⟩ | ⟨i, -, -, hia, -⟩) | ⟨-, hc⟩
      · rw [hbm] at h₁ h₂; rw [hbb] at h₂; omega
      · simp only [Pool.blockAddr, hst] at hia; omega
      · exact fun e => absurd hc (by rw [e]; decide))

end Mempool
