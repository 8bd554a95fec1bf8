import Mempool.Model.Pool

/-!
# `Model/Run.lean` — a pool in use

A client holds a handle and makes calls; between calls it reads and writes the blocks it holds.
This file states that as a transition system over `State`, with the history of calls kept
beside it, because the spec defines its notions by the calls made so far: a block is
*outstanding* when a successful `mempool_alloc` returned it and since then no successful
`mempool_free` of it and no `mempool_reset` happened (`outstanding`), and `peak_usage` is the
most blocks that were ever outstanding at once since the last reset (`peakSinceReset`).

The only thing the client may do to memory is a store into an outstanding block
(`Reachable.store`): that is the contract of §5 of the spec ("the caller must not read or write
either region except through the block pointers alloc returned, and only while they remain
allocated").
-/

set_option autoImplicit false

namespace Mempool

/-- A call the client makes on the pool, with its arguments (out-parameters are the addresses of
the client's variables, `0` for `NULL`). -/
inductive Call
  | alloc (block : Nat)
  | free (block : Nat)
  | reset
  | getStats (stats : Nat)
  | contains (ptr : Nat)
  | setSync (lock unlock userCtx : Nat)
  deriving DecidableEq, Repr

/-- What a call gives back: its code, or for a successful `mempool_alloc` / `mempool_get_stats`
what it stored through the out-parameter, or `mempool_contains`'s answer. -/
inductive Reply
  | code (e : MempoolError)
  | block (p : Nat)
  | stats (st : MempoolStats)
  | member (b : Bool)
  deriving DecidableEq, Repr

/-- The reply of a call with an out-parameter: the stored value when there is one. -/
def Outcome.reply {α : Type} (o : Outcome α) (stored : α → Reply) : Reply :=
  match o.out with
  | some v => stored v
  | none => .code o.result

/-- One call, as the sequential client sees it: its reply and the state after it, `none` when the
call has undefined behaviour. -/
def step (A : Arch) (s : State) : Call → Option (Reply × State)
  | .alloc block => (mempoolAlloc A s block).map fun o => (o.reply .block, o.state)
  | .free block => (mempoolFree A s block).map fun o => (.code o.result, o.state)
  | .reset => (mempoolReset A s).map fun o => (.code o.result, o.state)
  | .getStats stats =>
    let o := mempoolGetStats s stats
    some (o.reply .stats, o.state)
  | .contains ptr => some (.member (mempoolContains A s ptr), s)
  | .setSync lock unlock userCtx =>
    let r := mempoolSetSync s lock unlock userCtx
    some (.code r.1, r.2)

/-- Calls made one after another from `s`: their replies in order, and the state after the last;
`none` when one of them has undefined behaviour. -/
def runCalls (A : Arch) : State → List Call → Option (List Reply × State)
  | s, [] => some ([], s)
  | s, c :: cs => (step A s c).bind fun x => (runCalls A x.2 cs).map fun y => (x.1 :: y.1, y.2)

/-- What a call answers, as its caller sees it: the code it returns, the block pointer a
successful `mempool_alloc` stores (whose code is `MEMPOOL_OK`), or `mempool_contains`'s answer. -/
inductive Answer
  | code (e : MempoolError)
  | block (p : Nat)
  | member (b : Bool)
  deriving DecidableEq, Repr

/-- The code and pointer of a reply; the statistics record of a successful `mempool_get_stats`
is forgotten, leaving its code `MEMPOOL_OK`. -/
def Reply.answer : Reply → Answer
  | .code e => .code e
  | .block p => .block p
  | .stats _ => .code .ok
  | .member b => .member b

/-- Calls and their replies, the most recent first. -/
abbrev History := List (Call × Reply)

/-- The blocks the client holds after a history: returned by a successful `mempool_alloc`, and not
since given back by a successful `mempool_free` or taken back by a `mempool_reset`. -/
def outstanding : History → List Nat
  | [] => []
  | (c, r) :: h =>
    match c, r.answer with
    | .alloc _, .block p => p :: outstanding h
    | .free p, .code .ok => (outstanding h).erase p
    | .reset, .code .ok => []
    | _, _ => outstanding h

/-- Successful `mempool_alloc` calls since the last reset. -/
def allocsSinceReset : History → Nat
  | [] => 0
  | (c, r) :: h =>
    match c, r.answer with
    | .alloc _, .block _ => allocsSinceReset h + 1
    | .reset, .code .ok => 0
    | _, _ => allocsSinceReset h

/-- Successful `mempool_free` calls since the last reset. -/
def freesSinceReset : History → Nat
  | [] => 0
  | (c, r) :: h =>
    match c, r.answer with
    | .free _, .code .ok => freesSinceReset h + 1
    | .reset, .code .ok => 0
    | _, _ => freesSinceReset h

/-- The most blocks outstanding at once since the last reset (or since init). -/
def peakSinceReset : History → Nat
  | [] => 0
  | (c, r) :: h =>
    match c, r.answer with
    | .reset, .code .ok => 0
    | _, _ => max (peakSinceReset h) (outstanding ((c, r) :: h)).length

/-- Whether address `a` lies in a block the client holds; `size` is the block size. -/
def InHeldBlock (h : History) (size a : Nat) : Prop :=
  ∃ b ∈ outstanding h, b ≤ a ∧ a < b + size

/-- The states a pool passes through from `s₀`, the state `mempool_init` left, together with the
history that led there: any call without undefined behaviour, and any store of the client into a
block it holds. -/
inductive Reachable (A : Arch) (s₀ : State) : State → History → Prop
  | init : Reachable A s₀ s₀ []
  | call {s : State} {h : History} {c : Call} {r : Reply} {s' : State} :
      Reachable A s₀ s h → step A s c = some (r, s') → Reachable A s₀ s' ((c, r) :: h)
  | store {s : State} {h : History} {a : Nat} {v : UInt8} :
      Reachable A s₀ s h → InHeldBlock h s.pool.blockSize.toNat a →
      Reachable A s₀ ⟨s.pool, storeByte s.mem a v⟩ h

end Mempool
