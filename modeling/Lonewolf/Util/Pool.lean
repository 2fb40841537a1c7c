import Lonewolf.Base.FreeLists
import Lonewolf.Base.Transition

/-!
# The chunk pool

`pool/mod.rs`: one block of storage, cut into eight buckets of equal size and these into chunks of one size; the free
chunks of a bucket are numbered slots in several queues. Any number of threads look for a chunk, one queue at a time,
and fall back to the heap; a returned chunk is located by its address.
-/

namespace Lonewolf.Util

open Transitions

/-! ### Chunks and queues -/

structure Layout where
  size : Nat
  align : Nat
  align_pow : ∃ k, align = 2 ^ k
  deriving DecidableEq

structure Chunk where
  address : Nat
  layout : Layout
  deriving DecidableEq

/-- Two chunks have no byte in common. -/
def Chunk.Apart (c d : Chunk) : Prop :=
  c.address + c.layout.size ≤ d.address ∨ d.address + d.layout.size ≤ c.address

/-- A queue of bounded length; each operation on it is one step. -/
structure ArrayQueue where
  capacity : Nat
  items : List Nat
  length_le : items.length ≤ capacity

namespace ArrayQueue

/-- Absent when the construction panics. -/
def new (capacity : Nat) : Option ArrayQueue :=
  if 0 < capacity then some ⟨capacity, [], Nat.zero_le _⟩ else none

def push (queue : ArrayQueue) (slot : Nat) : Option ArrayQueue :=
  if h : queue.items.length < queue.capacity then
    some ⟨queue.capacity, queue.items ++ [slot], by rw [List.length_append]; exact h⟩
  else none

def pop (queue : ArrayQueue) : Option (Nat × ArrayQueue) :=
  match h : queue.items with
  | [] => none
  | slot :: rest =>
    some (slot, ⟨queue.capacity, rest, by
      have hle := queue.length_le
      rw [h, List.length_cons] at hle
      omega⟩)

end ArrayQueue

/-! ### Buckets -/

def bucketSize : Fin 8 → Nat :=
  ![4 * 1024, 8 * 1024, 16 * 1024, 32 * 1024, 64 * 1024, 128 * 1024, 256 * 1024, 512 * 1024]

def minPoolSize : Nat := 8 * 1024 * 1024

structure Bucket where
  shards : List ArrayQueue

/-- `(start..stop).step_by(step)`. -/
def stepBy (start stop step : Nat) : List Nat := List.range' start ((stop - start) ⌈/⌉ step) step

namespace Bucket

/-- The queue of one shard, with every slot that belongs to it. -/
def newShard (chunkCount shardCount index : Nat) : Option ArrayQueue := do
  let chunksPerShard := chunkCount / shardCount
  let capacity := chunksPerShard + if index < chunkCount % shardCount then 1 else 0
  let available ← ArrayQueue.new capacity
  (stepBy index chunkCount shardCount).foldlM ArrayQueue.push available

/-- Absent when an assertion fails. -/
def new (chunkCount requestedShards : Nat) : Option Bucket := do
  let shardCount := min chunkCount requestedShards
  let shards ← (List.range shardCount).mapM (newShard chunkCount shardCount)
  return ⟨shards⟩

/-- The order in which `pop` looks at the shards. -/
def order (bucket : Bucket) (preferredShard : Nat) : List Nat :=
  let start := preferredShard % bucket.shards.length
  List.range' start (bucket.shards.length - start) ++ List.range start

/-- One step of `pop`. -/
def popAt (bucket : Bucket) (shard : Nat) : Option (Nat × Bucket) := do
  let queue ← bucket.shards[shard]?
  let (slot, rest) ← queue.pop
  return (slot, ⟨bucket.shards.set shard rest⟩)

/-- Absent when the queue is full, which the source asserts it is not. -/
def push (bucket : Bucket) (slot : Nat) : Option Bucket := do
  let shard := slot % bucket.shards.length
  let queue ← bucket.shards[shard]?
  let queue' ← queue.push slot
  return ⟨bucket.shards.set shard queue'⟩

end Bucket

/-! ### The allocator -/

structure PoolConfig where
  totalBytes : Nat
  shardsPerBucket : Nat
  shards_pos : 0 < shardsPerBucket

inductive PoolError where
  | invalidConfiguration
  | allocation

structure PooledChunkAllocator where
  config : PoolConfig
  storage : Chunk
  buckets : Fin 8 → Bucket

def isizeMax : Nat := 2 ^ 63 - 1

/-- The layout of the storage. -/
def storageLayout (totalBytes : Nat) : Layout := ⟨totalBytes, 512 * 1024, 19, rfl⟩

variable (config : PoolConfig)

def PoolConfig.bucketBytes : Nat := config.totalBytes / 8

/-- The config with the number of shards that the processors allow. -/
def PoolConfig.capped (availableShards : Nat) (hpos : 0 < availableShards) : PoolConfig :=
  ⟨config.totalBytes, min config.shardsPerBucket availableShards, lt_min config.shards_pos hpos⟩

namespace PooledChunkAllocator

/-- `try_new`, absent when an assertion fails; `allocated` is the address that the global allocator returns
for the storage, if it does. -/
def tryNew (availableShards : Nat) (hpos : 0 < availableShards) (allocated : Option Nat) :
    Option (Except PoolError PooledChunkAllocator) :=
  let config := config.capped availableShards hpos
  if config.totalBytes < minPoolSize ∨ ¬ config.totalBytes = 2 ^ config.totalBytes.log2 then
    some (.error .invalidConfiguration)
  else if isizeMax - (512 * 1024 - 1) < config.totalBytes then some (.error .invalidConfiguration)
  else if h : ∀ index, (Bucket.new (config.bucketBytes / bucketSize index) config.shardsPerBucket).isSome then
    match allocated with
    | some address =>
      some (.ok ⟨config, ⟨address, storageLayout config.totalBytes⟩, fun index => (Bucket.new _ _).get (h index)⟩)
    | none => some (.error .allocation)
  else none

variable (allocator : PooledChunkAllocator)

/-- The queues that `allocate` tries one after another. -/
def attempts (layout : Layout) (preferredShard : Nat) : List (Fin 8 × Nat) :=
  (List.finRange 8).flatMap fun index =>
    if bucketSize index < layout.size ∨ bucketSize index < layout.align then []
    else ((allocator.buckets index).order preferredShard).map (index, ·)

end PooledChunkAllocator

theorem bucketSize_eq (index : Fin 8) : bucketSize index = 2 ^ (12 + index.val) := by
  revert index
  decide

/-- A chunk of a bucket is aligned to its size. -/
def bucketLayout (index : Fin 8) : Layout := ⟨bucketSize index, bucketSize index, _, bucketSize_eq index⟩

namespace PooledChunkAllocator

variable (allocator : PooledChunkAllocator)

def chunkAt (index : Fin 8) (slot : Nat) : Chunk :=
  ⟨allocator.storage.address + (index * allocator.config.bucketBytes + slot * bucketSize index), bucketLayout index⟩

/-- One step of `allocate`: the next queue is tried. -/
def tryAt (index : Fin 8) (shard : Nat) : Option (Nat × PooledChunkAllocator) :=
  ((allocator.buckets index).popAt shard).map fun (slot, bucket) =>
    (slot, { allocator with buckets := Function.update allocator.buckets index bucket })

/-- The offset of a chunk in the storage; a chunk of the heap has none. -/
def offset? (chunk : Chunk) : Option Nat :=
  if allocator.storage.address ≤ chunk.address then
    some (chunk.address - allocator.storage.address) |>.filter (· < allocator.storage.layout.size)
  else none

/-- `deallocate`; a chunk of the heap is freed there. Absent when an assertion fails or an index is out of
bounds. -/
def deallocate (chunk : Chunk) : Option PooledChunkAllocator :=
  match allocator.offset? chunk with
  | none => some allocator
  | some offset =>
    if h : offset / allocator.config.bucketBytes < 8 then
      let index : Fin 8 := ⟨offset / allocator.config.bucketBytes, h⟩
      let slot := offset % allocator.config.bucketBytes / bucketSize index
      ((allocator.buckets index).push slot).map fun bucket =>
        { allocator with buckets := Function.update allocator.buckets index bucket }
    else none

end PooledChunkAllocator

/-! ### Threads -/

/-- A thread in `allocate`: what it looks for, and the queues that are left to try. -/
structure Search where
  layout : Layout
  rest : List (Fin 8 × Nat)

/-- A chunk that is handed out, for a requested layout; the source is the queue and the slot it was taken
from, and absent for a chunk of the heap. -/
structure Held where
  chunk : Chunk
  requested : Layout
  source : Option ((Fin 8 × Nat) × Nat)
  deriving DecidableEq

structure PoolState (τ : Type) where
  allocator : PooledChunkAllocator
  held : List Held
  searches : τ → Option Search

variable {τ : Type} [DecidableEq τ]

namespace PoolState

/-- The thread goes on with a search or is out of `allocate`. -/
def become (s : PoolState τ) (thread : τ) (search : Option Search) : PoolState τ :=
  { s with searches := Function.update s.searches thread search }

def handOut (s : PoolState τ) (thread : τ) (allocator : PooledChunkAllocator) (held : Held) : PoolState τ :=
  { s.become thread none with allocator := allocator, held := held :: s.held }

end PoolState

/-- What any threads do. Every chunk that is handed out is returned at most once. The chunks of the heap are
apart from the storage and from each other. -/
inductive PoolStep : PoolState τ → PoolState τ → Prop where
  | start {s : PoolState τ} (thread : τ) (layout : Layout) (preferredShard : Nat)
      (hidle : s.searches thread = none) (hsize : layout.size ≠ 0) :
      PoolStep s (s.become thread (some ⟨layout, s.allocator.attempts layout preferredShard⟩))
  | missed {s : PoolState τ} (thread : τ) {layout : Layout} {index : Fin 8} {shard : Nat}
      {rest : List (Fin 8 × Nat)} (hsearch : s.searches thread = some ⟨layout, (index, shard) :: rest⟩)
      (hempty : s.allocator.tryAt index shard = none) : PoolStep s (s.become thread (some ⟨layout, rest⟩))
  | found {s : PoolState τ} (thread : τ) {layout : Layout} {index : Fin 8} {shard slot : Nat}
      {rest : List (Fin 8 × Nat)} {allocator' : PooledChunkAllocator}
      (hsearch : s.searches thread = some ⟨layout, (index, shard) :: rest⟩)
      (hfound : s.allocator.tryAt index shard = some (slot, allocator')) :
      PoolStep s (s.handOut thread allocator' ⟨s.allocator.chunkAt index slot, layout, some ((index, shard), slot)⟩)
  | heap {s : PoolState τ} (thread : τ) {layout : Layout} (address : Nat)
      (hsearch : s.searches thread = some ⟨layout, []⟩) (halign : layout.align ∣ address)
      (hstorage : Chunk.Apart ⟨address, layout⟩ s.allocator.storage)
      (hheld : ∀ held ∈ s.held, held.source = none → Chunk.Apart ⟨address, layout⟩ held.chunk) :
      PoolStep s (s.handOut thread s.allocator ⟨⟨address, layout⟩, layout, none⟩)
  | exhausted {s : PoolState τ} (thread : τ) {layout : Layout}
      (hsearch : s.searches thread = some ⟨layout, []⟩) : PoolStep s (s.become thread none)
  | giveBack {s : PoolState τ} {held : Held} {allocator' : PooledChunkAllocator} (hheld : held ∈ s.held)
      (hreturned : s.allocator.deallocate held.chunk = some allocator') :
      PoolStep s { s with allocator := allocator', held := s.held.erase held }

/-- Any threads from a new pool on. The storage is aligned as its layout demands. -/
def pool (τ : Type) [DecidableEq τ] (config : PoolConfig) : System (PoolState τ) where
  init s := s.held = [] ∧ (∀ thread, s.searches thread = none) ∧
    ∃ availableShards hpos address, 512 * 1024 ∣ address ∧
      PooledChunkAllocator.tryNew config availableShards hpos (some address) = some (.ok s.allocator)
  step := PoolStep

end Lonewolf.Util
