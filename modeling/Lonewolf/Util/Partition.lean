import Lonewolf.Util.Pool

/-!
# The pool keeps a partition of its storage

The slots of each queue are, at all times, its free slots and those of the chunks that were taken from it and
are not yet returned. With the arithmetic of the addresses this says that chunks which are handed out are
apart, and that a chunk goes back where it came from.
-/

namespace Lonewolf.Util

open FreeLists
open PooledChunkAllocator (chunkAt tryNew)

/-! ### Addresses -/

namespace PoolConfig

variable (config : PoolConfig)

def chunkCount (index : Fin 8) : Nat := config.bucketBytes / bucketSize index

def shardCount (index : Fin 8) : Nat := min (config.chunkCount index) config.shardsPerBucket

/-- All slots that belong to a queue. -/
def slots (key : Fin 8 × Nat) : List Nat :=
  if key.2 < config.shardCount key.1 then stepBy key.2 (config.chunkCount key.1) (config.shardCount key.1) else []

/-- What `try_new` demands of the size. -/
structure Fits : Prop where
  large : minPoolSize ≤ config.totalBytes
  pow : config.totalBytes = 2 ^ config.totalBytes.log2

end PoolConfig

theorem bucketSize_pos (index : Fin 8) : 0 < bucketSize index := by
  rw [bucketSize_eq]
  exact Nat.two_pow_pos _

theorem bucketSize_dvd (index : Fin 8) : bucketSize index ∣ 512 * 1024 := by
  rw [bucketSize_eq, show 512 * 1024 = 2 ^ 19 from rfl]
  exact pow_dvd_pow 2 (by omega)

namespace PoolConfig.Fits

variable {config : PoolConfig}

theorem bucketBytes_eq (h : config.Fits) :
    config.totalBytes = 8 * config.bucketBytes ∧ 512 * 1024 ∣ config.bucketBytes ∧
      2 * (512 * 1024) ≤ config.bucketBytes := by
  have hpos : config.totalBytes ≠ 0 := (lt_of_lt_of_le (by decide) h.large).ne'
  have hlog : 23 ≤ config.totalBytes.log2 := (Nat.le_log2 hpos).mpr h.large
  obtain ⟨k, hk⟩ := Nat.exists_eq_add_of_le hlog
  have htotal : config.totalBytes = 8 * (2 * (512 * 1024) * 2 ^ k) := by
    rw [h.pow, hk, pow_add]
    generalize 2 ^ k = scale
    omega
  have hbytes : config.bucketBytes = 2 * (512 * 1024) * 2 ^ k := by
    rw [PoolConfig.bucketBytes, htotal, Nat.mul_div_cancel_left _ (by decide)]
  rw [hbytes]
  exact ⟨htotal, Dvd.dvd.mul_right (Dvd.intro_left 2 rfl) _, Nat.le_mul_of_pos_right _ (Nat.two_pow_pos k)⟩

theorem chunkCount_mul (h : config.Fits) (index : Fin 8) :
    config.chunkCount index * bucketSize index = config.bucketBytes :=
  Nat.div_mul_cancel ((bucketSize_dvd index).trans h.bucketBytes_eq.2.1)

theorem chunkCount_pos (h : config.Fits) (index : Fin 8) : 0 < config.chunkCount index := by
  have hmul := h.chunkCount_mul index
  have hlarge := h.bucketBytes_eq.2.2
  by_contra hzero
  rw [Nat.eq_zero_of_not_pos hzero, zero_mul] at hmul
  omega

theorem shardCount_pos (h : config.Fits) (index : Fin 8) : 0 < config.shardCount index :=
  lt_min (h.chunkCount_pos index) config.shards_pos

end PoolConfig.Fits

theorem cells_apart {a b : Nat} (hne : a ≠ b) (width : Nat) :
    a * width + width ≤ b * width ∨ b * width + width ≤ a * width := by
  rcases Nat.lt_or_gt_of_ne hne with hlt | hlt
  · left
    rw [← Nat.succ_mul]
    exact Nat.mul_le_mul_right width hlt
  · right
    rw [← Nat.succ_mul]
    exact Nat.mul_le_mul_right width hlt

section Slots

variable {config : PoolConfig} {index : Fin 8} {shard slot : Nat}

theorem mem_slots (h : config.Fits) :
    slot ∈ config.slots (index, shard) ↔ slot < config.chunkCount index ∧ slot % config.shardCount index = shard := by
  have hpos := h.shardCount_pos index
  rw [PoolConfig.slots]
  split
  case isTrue hshard =>
    rw [stepBy, List.mem_range']
    refine ⟨?_, ?_⟩
    · rintro ⟨k, hk, rfl⟩
      have hlt := mt (ceilDiv_le_iff_le_mul hpos).mpr (Nat.not_le_of_lt hk)
      refine ⟨by simp only at *; omega, ?_⟩
      rw [Nat.add_mul_mod_self_left, Nat.mod_eq_of_lt hshard]
    · rintro ⟨hlt, rfl⟩
      refine ⟨slot / config.shardCount index, ?_, (Nat.mod_add_div ..).symm⟩
      by_contra hge
      have hle := (ceilDiv_le_iff_le_mul hpos).mp (Nat.le_of_not_lt hge)
      have hdiv := Nat.mod_add_div slot (config.shardCount index)
      simp only at hle
      omega
  case isFalse hshard =>
    refine ⟨fun hmem => absurd hmem List.not_mem_nil, ?_⟩
    rintro ⟨_, rfl⟩
    exact absurd (Nat.mod_lt slot hpos) hshard

theorem nodup_slots (h : config.Fits) (key : Fin 8 × Nat) : (config.slots key).Nodup := by
  rw [PoolConfig.slots]
  split
  · exact List.nodup_range' _ (h.shardCount_pos key.1)
  · exact List.nodup_nil

end Slots

/-- The storage as the config describes it. -/
structure Placed (allocator : PooledChunkAllocator) : Prop where
  fits : allocator.config.Fits
  aligned : 512 * 1024 ∣ allocator.storage.address
  size : allocator.storage.layout.size = allocator.config.totalBytes

variable {layout : Layout}

section Placed

variable {allocator : PooledChunkAllocator} {index index' : Fin 8} {slot slot' : Nat}

section

variable (h : Placed allocator)
include h

theorem Placed.slot_le (hslot : slot < allocator.config.chunkCount index) :
    slot * bucketSize index + bucketSize index ≤ allocator.config.bucketBytes := by
  rw [← h.fits.chunkCount_mul index, ← Nat.succ_mul]
  exact Nat.mul_le_mul_right _ hslot

theorem Placed.index_le (index : Fin 8) :
    index * allocator.config.bucketBytes + allocator.config.bucketBytes ≤ allocator.config.totalBytes := by
  rw [h.fits.bucketBytes_eq.1, ← Nat.succ_mul]
  exact Nat.mul_le_mul_right _ (by omega)

theorem Placed.inside (hslot : slot < allocator.config.chunkCount index) :
    allocator.storage.address ≤ (allocator.chunkAt index slot).address ∧
      (allocator.chunkAt index slot).address + (allocator.chunkAt index slot).layout.size ≤
        allocator.storage.address + allocator.storage.layout.size := by
  have hle := h.slot_le hslot
  have hle' := h.index_le index
  rw [h.size]
  simp only [chunkAt, bucketLayout]
  omega

theorem Placed.apart (hslot : slot < allocator.config.chunkCount index)
    (hslot' : slot' < allocator.config.chunkCount index') (hne : ¬ (index = index' ∧ slot = slot')) :
    (allocator.chunkAt index slot).Apart (allocator.chunkAt index' slot') := by
  have hle := h.slot_le hslot
  have hle' := h.slot_le hslot'
  simp only [Chunk.Apart, chunkAt, bucketLayout]
  by_cases hindex : index = index'
  · subst hindex
    have hcells := cells_apart (fun heq => hne ⟨rfl, heq⟩) (bucketSize index)
    omega
  · have hcells := cells_apart (fun heq => hindex (Fin.ext heq)) allocator.config.bucketBytes
    omega

theorem Placed.align_dvd (slot : Nat) (hlayout : layout.align ≤ bucketSize index) :
    layout.align ∣ (allocator.chunkAt index slot).address := by
  have hdvd : layout.align ∣ bucketSize index := by
    obtain ⟨k, hk⟩ := layout.align_pow
    rw [hk, bucketSize_eq] at hlayout ⊢
    exact pow_dvd_pow 2 ((Nat.pow_le_pow_iff_right (by decide)).mp hlayout)
  have hbytes : layout.align ∣ allocator.config.bucketBytes :=
    hdvd.trans ((bucketSize_dvd index).trans h.fits.bucketBytes_eq.2.1)
  have hstorage : layout.align ∣ allocator.storage.address := hdvd.trans ((bucketSize_dvd index).trans h.aligned)
  exact Nat.dvd_add hstorage (Nat.dvd_add (hbytes.mul_left _) (hdvd.mul_left _))

theorem Placed.offset (hslot : slot < allocator.config.chunkCount index) :
    allocator.offset? (allocator.chunkAt index slot) =
        some (index * allocator.config.bucketBytes + slot * bucketSize index) ∧
      (index * allocator.config.bucketBytes + slot * bucketSize index) / allocator.config.bucketBytes = index ∧
      (index * allocator.config.bucketBytes + slot * bucketSize index) % allocator.config.bucketBytes /
        bucketSize index = slot := by
  have hsize := bucketSize_pos index
  have hle := h.slot_le hslot
  have hle' := h.index_le index
  have hlt : slot * bucketSize index < allocator.config.bucketBytes := by omega
  refine ⟨?_, ?_, ?_⟩
  · rw [PooledChunkAllocator.offset?, chunkAt, if_pos (Nat.le_add_right ..),
      Nat.add_sub_cancel_left, h.size, Option.filter_some, if_pos (decide_eq_true (by omega))]
  · rw [add_comm, Nat.add_mul_div_right _ _ (by omega), Nat.div_eq_of_lt hlt, zero_add]
  · rw [add_comm, Nat.add_mul_mod_self_right, Nat.mod_eq_of_lt hlt, Nat.mul_div_cancel _ hsize]

end

theorem offset_none {chunk : Chunk} (happart : chunk.Apart allocator.storage) (hsize : chunk.layout.size ≠ 0) :
    allocator.offset? chunk = none := by
  rw [PooledChunkAllocator.offset?]
  rcases happart with hbefore | hafter
  · exact if_neg (by omega)
  · split
    · rw [Option.filter_some, if_neg]
      rw [decide_eq_true_eq]
      omega
    · rfl

end Placed

/-! ### Queues -/

namespace ArrayQueue

variable {queue queue' : ArrayQueue} {slot : Nat}

theorem pop_eq_some (h : queue.pop = some (slot, queue')) :
    queue.items = slot :: queue'.items ∧ queue'.capacity = queue.capacity := by
  unfold pop at h
  split at h
  · cases h
  · cases h
    exact ⟨by assumption, rfl⟩

theorem push_of_lt {queue : ArrayQueue} (slot : Nat) (hlt : queue.items.length < queue.capacity) :
    ∃ queue', queue.push slot = some queue' ∧ queue'.items = queue.items ++ [slot] ∧
      queue'.capacity = queue.capacity := by
  rw [push, dif_pos hlt]
  exact ⟨_, rfl, rfl, rfl⟩

theorem foldlM_push {slots : List Nat} (hle : queue.items.length + slots.length ≤ queue.capacity) :
    ∃ queue', slots.foldlM push queue = some queue' ∧ queue'.items = queue.items ++ slots ∧
      queue'.capacity = queue.capacity := by
  induction slots generalizing queue with
  | nil => exact ⟨queue, rfl, (List.append_nil _).symm, rfl⟩
  | cons slot slots ih =>
    rw [List.length_cons] at hle
    obtain ⟨queue₁, hpush, hitems, hcapacity⟩ := push_of_lt slot (show queue.items.length < queue.capacity by omega)
    have hroom : queue₁.items.length + slots.length ≤ queue₁.capacity := by
      rw [hitems, hcapacity, List.length_append, List.length_singleton]
      omega
    obtain ⟨queue', hfold, hitems', hcapacity'⟩ := ih hroom
    refine ⟨queue', ?_, ?_, hcapacity'.trans hcapacity⟩
    · rw [List.foldlM_cons, hpush]
      exact hfold
    · rw [hitems', hitems, List.append_assoc]
      rfl

end ArrayQueue

namespace PooledChunkAllocator

def free (allocator : PooledChunkAllocator) (key : Fin 8 × Nat) : List Nat :=
  (allocator.buckets key.1).shards[key.2]?.elim [] ArrayQueue.items

def room (allocator : PooledChunkAllocator) (key : Fin 8 × Nat) : Option Nat :=
  (allocator.buckets key.1).shards[key.2]?.map ArrayQueue.capacity

/-- Nothing but the free slots is different. -/
structure SameShape (allocator allocator' : PooledChunkAllocator) : Prop where
  config : allocator'.config = allocator.config
  storage : allocator'.storage = allocator.storage
  shards : ∀ index, (allocator'.buckets index).shards.length = (allocator.buckets index).shards.length
  room : allocator'.room = allocator.room

variable {allocator allocator' : PooledChunkAllocator} {index : Fin 8} {shard slot : Nat}

theorem replace_shard {queue queue' : ArrayQueue}
    (hqueue : (allocator.buckets index).shards[shard]? = some queue) (hcapacity : queue'.capacity = queue.capacity)
    (heq : allocator' = ⟨allocator.config, allocator.storage,
      Function.update allocator.buckets index ⟨(allocator.buckets index).shards.set shard queue'⟩⟩) :
    allocator.SameShape allocator' ∧ allocator'.free = Function.update allocator.free (index, shard) queue'.items := by
  subst heq
  have hlt : shard < (allocator.buckets index).shards.length := (List.getElem?_eq_some_iff.mp hqueue).1
  have hshards (i : Fin 8) (j : Nat) : (Function.update allocator.buckets index
      ⟨(allocator.buckets index).shards.set shard queue'⟩ i).shards[j]? =
        if (i, j) = (index, shard) then some queue' else (allocator.buckets i).shards[j]? := by
    by_cases hi : i = index
    · subst hi
      rw [Function.update_self, List.getElem?_set]
      by_cases hj : shard = j
      · subst hj
        rw [if_pos rfl, if_pos hlt, if_pos rfl]
      · rw [if_neg hj, if_neg fun heq => hj (congrArg Prod.snd heq).symm]
    · rw [Function.update_of_ne hi, if_neg fun heq => hi (congrArg Prod.fst heq)]
  refine ⟨⟨rfl, rfl, ?_, ?_⟩, ?_⟩
  · intro i
    by_cases hi : i = index
    · subst hi
      simp only [Function.update_self, List.length_set]
    · simp only [Function.update_of_ne hi]
  · funext key
    simp only [room, hshards]
    split
    case isTrue heq =>
      rw [show key = (index, shard) from heq, hqueue, Option.map_some, Option.map_some, hcapacity]
    case isFalse => rfl
  · funext key
    simp only [free, hshards]
    rw [Function.update_apply]
    split <;> rfl

theorem tryAt_eq_some (h : allocator.tryAt index shard = some (slot, allocator')) :
    ∃ rest, allocator.free (index, shard) = slot :: rest ∧ allocator.SameShape allocator' ∧
      allocator'.free = Function.update allocator.free (index, shard) rest := by
  rw [tryAt, Option.map_eq_some_iff] at h
  obtain ⟨⟨slot', bucket⟩, hpop, heq⟩ := h
  cases heq
  simp only [Bucket.popAt, Option.bind_eq_bind, Option.bind_eq_some_iff] at hpop
  obtain ⟨queue, hqueue, ⟨slot', queue'⟩, hpop, heq⟩ := hpop
  cases heq
  obtain ⟨hitems, hcapacity⟩ := ArrayQueue.pop_eq_some hpop
  have hreplaced := replace_shard hqueue hcapacity rfl
  refine ⟨queue'.items, ?_, hreplaced⟩
  rw [free, hqueue]
  exact hitems

theorem deallocate_chunkAt (h : Placed allocator)
    (hshards : (allocator.buckets index).shards.length = allocator.config.shardCount index)
    (hslot : slot < allocator.config.chunkCount index) (hshard : slot % allocator.config.shardCount index = shard)
    {capacity : Nat} (hroom : allocator.room (index, shard) = some capacity)
    (hlt : (allocator.free (index, shard)).length < capacity) :
    ∃ allocator', allocator.deallocate (allocator.chunkAt index slot) = some allocator' ∧
      allocator.SameShape allocator' ∧
      allocator'.free = Function.update allocator.free (index, shard) (allocator.free (index, shard) ++ [slot]) := by
  obtain ⟨hoffset, hindex, hslot'⟩ := h.offset hslot
  rw [room, Option.map_eq_some_iff] at hroom
  obtain ⟨queue, hqueue, rfl⟩ := hroom
  have hitems : allocator.free (index, shard) = queue.items := by
    rw [free, hqueue]
    rfl
  rw [hitems] at hlt
  obtain ⟨queue', hpush, hitems', hcapacity⟩ := ArrayQueue.push_of_lt slot hlt
  have hbucket : (allocator.buckets index).push slot = some ⟨(allocator.buckets index).shards.set shard queue'⟩ := by
    rw [Bucket.push, hshards, hshard, hqueue]
    show (queue.push slot).bind _ = _
    rw [hpush]
    rfl
  have hreplaced := replace_shard hqueue hcapacity rfl
  rw [hitems, ← hitems']
  refine ⟨_, ?_, hreplaced⟩
  have hlt8 : (index * allocator.config.bucketBytes + slot * bucketSize index) / allocator.config.bucketBytes < 8 := by
    rw [hindex]
    exact index.isLt
  have hfin : (⟨_, hlt8⟩ : Fin 8) = index := Fin.ext hindex
  simp only [deallocate, hoffset, dif_pos hlt8, hfin, hslot', hbucket, Option.map_some]

theorem deallocate_heap {chunk : Chunk} (happart : chunk.Apart allocator.storage) (hsize : chunk.layout.size ≠ 0) :
    allocator.deallocate chunk = some allocator := by
  rw [deallocate, offset_none happart hsize]

end PooledChunkAllocator

/-! ### A new pool -/

theorem length_stepBy {count shards index : Nat} (hindex : index < shards) (hle : shards ≤ count) :
    (stepBy index count shards).length = count / shards + if index < count % shards then 1 else 0 := by
  have hpos : 0 < shards := by omega
  have hsplit := Nat.div_add_mod count shards
  have hmod := Nat.mod_lt count hpos
  have hmul : shards ≤ shards * (count / shards) :=
    Nat.le_mul_of_pos_right _ ((Nat.one_le_div_iff hpos).mpr hle)
  rw [stepBy, List.length_range', Nat.ceilDiv_eq_add_pred_div]
  split
  all_goals
    refine Nat.div_eq_of_lt_le ?_ ?_
    all_goals
      simp only [Nat.mul_comm _ shards, Nat.mul_add, Nat.mul_one, Nat.mul_zero]
      omega

theorem newShard_eq {count shards index : Nat} (hindex : index < shards) (hle : shards ≤ count) :
    ∃ queue, Bucket.newShard count shards index = some queue ∧ queue.items = stepBy index count shards ∧
      queue.capacity = (stepBy index count shards).length := by
  have hlength := length_stepBy hindex hle
  have hquot : 1 ≤ count / shards := (Nat.one_le_div_iff (by omega)).mpr hle
  have hnew : ArrayQueue.new (stepBy index count shards).length =
      some ⟨(stepBy index count shards).length, [], Nat.zero_le _⟩ := if_pos (by omega)
  have hroom : (⟨(stepBy index count shards).length, [], Nat.zero_le _⟩ : ArrayQueue).items.length +
      (stepBy index count shards).length ≤ (stepBy index count shards).length := by
    rw [List.length_nil, zero_add]
  obtain ⟨queue, hpush, hitems, hcapacity⟩ := ArrayQueue.foldlM_push hroom
  refine ⟨queue, ?_, hitems, hcapacity⟩
  simp only [Bucket.newShard, ← hlength, hnew]
  exact hpush

theorem mapM_forall₂ {α β : Type} {f : α → Option β} {p : α → β → Prop} {xs : List α}
    (h : ∀ x ∈ xs, ∃ y, f x = some y ∧ p x y) : ∃ ys, xs.mapM f = some ys ∧ List.Forall₂ p xs ys := by
  induction xs with
  | nil => exact ⟨[], rfl, .nil⟩
  | cons x xs ih =>
    obtain ⟨y, hy, hp⟩ := h x List.mem_cons_self
    obtain ⟨ys, hys, hps⟩ := ih fun x' hx' => h x' (List.mem_cons_of_mem x hx')
    refine ⟨y :: ys, ?_, .cons hp hps⟩
    rw [List.mapM_cons, hy, hys]
    rfl

theorem newBucket_eq (count requested : Nat) :
    ∃ bucket, Bucket.new count requested = some bucket ∧ bucket.shards.length = min count requested ∧
      ∀ shard < min count requested, ∃ queue, bucket.shards[shard]? = some queue ∧
        queue.items = stepBy shard count (min count requested) ∧
        queue.capacity = (stepBy shard count (min count requested)).length := by
  have hshards : ∀ shard ∈ List.range (min count requested), ∃ queue,
      Bucket.newShard count (min count requested) shard = some queue ∧
        (queue.items = stepBy shard count (min count requested) ∧
          queue.capacity = (stepBy shard count (min count requested)).length) :=
    fun shard hmem => newShard_eq (List.mem_range.mp hmem) (min_le_left ..)
  obtain ⟨shards, hmap, hall⟩ := mapM_forall₂ hshards
  have hlength : shards.length = min count requested := by
    rw [← hall.length_eq, List.length_range]
  refine ⟨⟨shards⟩, ?_, hlength, fun shard hlt => ?_⟩
  · simp only [Bucket.new, hmap]
    rfl
  · have hlt' : shard < shards.length := by rwa [hlength]
    have hget := hall.get (by rwa [List.length_range]) hlt'
    simp only [List.get_eq_getElem, List.getElem_range] at hget
    exact ⟨_, List.getElem?_eq_getElem hlt', hget⟩

variable {config : PoolConfig}

theorem tryNew_eq {availableShards address : Nat} {hpos : 0 < availableShards} {allocator : PooledChunkAllocator}
    (h : tryNew config availableShards hpos (some address) = some (.ok allocator)) :
    allocator.config.Fits ∧ allocator.storage = ⟨address, storageLayout allocator.config.totalBytes⟩ ∧
      ∀ index, Bucket.new (allocator.config.chunkCount index) allocator.config.shardsPerBucket =
        some (allocator.buckets index) := by
  unfold tryNew at h
  dsimp only at h
  split at h
  · cases h
  case isFalse hsize =>
    split at h
    · cases h
    · split at h
      · cases h
        rw [not_or, not_not, Nat.not_lt] at hsize
        exact ⟨⟨hsize.1, hsize.2⟩, rfl, fun index => (Option.some_get _).symm⟩
      · cases h

/-! ### The partition -/

/-- A chunk that is handed out is large enough and aligned for what was requested. It is the chunk of its
slot, or one of the heap. -/
structure HeldOk (allocator : PooledChunkAllocator) (held : Held) : Prop where
  size : held.requested.size ≤ held.chunk.layout.size
  align : held.requested.align ∣ held.chunk.address
  pooled : ∀ key slot, held.source = some (key, slot) → held.chunk = allocator.chunkAt key.1 slot
  heap : held.source = none → held.chunk.layout.size ≠ 0 ∧ held.chunk.Apart allocator.storage

/-- The queues that are left to try have chunks that are large enough. -/
def Search.Fits (search : Search) : Prop :=
  search.layout.size ≠ 0 ∧
    ∀ key ∈ search.rest, search.layout.size ≤ bucketSize key.1 ∧ search.layout.align ≤ bucketSize key.1

section Invariant

variable {τ : Type}

/-- The free slots of the queues, and those of the chunks that are handed out. -/
def PoolState.lists (s : PoolState τ) : Lists (Fin 8 × Nat) Nat :=
  ⟨s.allocator.free, s.held.filterMap Held.source⟩

structure Partitioned (s : PoolState τ) : Prop where
  placed : Placed s.allocator
  shards : ∀ index, (s.allocator.buckets index).shards.length = s.allocator.config.shardCount index
  room : ∀ index shard, shard < s.allocator.config.shardCount index →
    s.allocator.room (index, shard) = some (s.allocator.config.slots (index, shard)).length
  balanced : s.lists.Balanced s.allocator.config.slots
  searches : ∀ thread search, s.searches thread = some search → search.Fits
  held : ∀ held ∈ s.held, HeldOk s.allocator held
  apart : s.held.Pairwise fun h h' => h.chunk.Apart h'.chunk

variable {held : Held}

theorem HeldOk.of_sameShape {allocator allocator' : PooledChunkAllocator} (h : HeldOk allocator held)
    (hshape : allocator.SameShape allocator') : HeldOk allocator' held where
  size := h.size
  align := h.align
  pooled key slot hsource := by
    rw [h.pooled key slot hsource, chunkAt, chunkAt, hshape.config, hshape.storage]
  heap hsource := by
    rw [hshape.storage]
    exact h.heap hsource

theorem Placed.of_sameShape {allocator allocator' : PooledChunkAllocator} (h : Placed allocator)
    (hshape : allocator.SameShape allocator') : Placed allocator' := by
  obtain ⟨hfits, haligned, hsize⟩ := h
  rw [← hshape.config] at hfits hsize
  rw [← hshape.storage] at haligned hsize
  exact ⟨hfits, haligned, hsize⟩

namespace Partitioned

variable {s : PoolState τ}

theorem of_sameShape (h : Partitioned s) {s' : PoolState τ} (hshape : s.allocator.SameShape s'.allocator)
    (hbalanced : s'.lists.Balanced s.allocator.config.slots)
    (hsearches : ∀ thread search, s'.searches thread = some search → search.Fits)
    (hheld : ∀ held ∈ s'.held, HeldOk s.allocator held)
    (hapart : s'.held.Pairwise fun h h' => h.chunk.Apart h'.chunk) : Partitioned s' where
  placed := h.placed.of_sameShape hshape
  shards index := by rw [hshape.shards, hshape.config, h.shards]
  room index shard hshard := by
    rw [hshape.config] at hshard ⊢
    rw [hshape.room, h.room index shard hshard]
  balanced := by rwa [hshape.config]
  searches := hsearches
  held held hmem := (hheld held hmem).of_sameShape hshape
  apart := hapart

theorem searches_become [DecidableEq τ] (h : Partitioned s) (thread : τ) {search : Option Search}
    (hsearch : ∀ x ∈ search, x.Fits) : ∀ thread' x, (s.become thread search).searches thread' = some x → x.Fits := by
  intro thread' x hx
  simp only [PoolState.become, Function.update_apply] at hx
  split at hx
  · exact hsearch x hx
  · exact h.searches thread' x hx

theorem become [DecidableEq τ] (h : Partitioned s) (thread : τ) {search : Option Search}
    (hsearch : ∀ x ∈ search, x.Fits) : Partitioned (s.become thread search) :=
  ⟨h.placed, h.shards, h.room, h.balanced, h.searches_become thread hsearch, h.held, h.apart⟩

theorem fits_attempts (allocator : PooledChunkAllocator) (hsize : layout.size ≠ 0)
    (preferredShard : Nat) : Search.Fits ⟨layout, allocator.attempts layout preferredShard⟩ := by
  refine ⟨hsize, fun key hkey => ?_⟩
  obtain ⟨index, _, hkey⟩ := List.mem_flatMap.mp hkey
  split at hkey
  · cases hkey
  case isFalse hlarge =>
    obtain ⟨shard, _, rfl⟩ := List.mem_map.mp hkey
    rw [not_or, Nat.not_lt, Nat.not_lt] at hlarge
    exact hlarge

theorem apart_of_inside {c d storage : Chunk} (hle : storage.address ≤ c.address)
    (hend : c.address + c.layout.size ≤ storage.address + storage.layout.size) (happart : d.Apart storage) :
    d.Apart c ∧ c.Apart d := by
  simp only [Chunk.Apart] at *
  omega

section

variable (h : Partitioned s)
include h

theorem slot_lt (hheld : held ∈ s.held) {key : Fin 8 × Nat} {slot : Nat} (hsource : held.source = some (key, slot)) :
    slot < s.allocator.config.chunkCount key.1 ∧ slot % s.allocator.config.shardCount key.1 = key.2 := by
  have htaken : (key, slot) ∈ s.lists.taken := List.mem_filterMap.mpr ⟨held, hheld, hsource⟩
  exact (mem_slots h.placed.fits).mp (h.balanced.mem_all htaken)

theorem found [DecidableEq τ] (thread : τ) {index : Fin 8} {shard slot : Nat} {rest : List (Fin 8 × Nat)}
    {allocator' : PooledChunkAllocator} (hsearch : s.searches thread = some ⟨layout, (index, shard) :: rest⟩)
    (hfound : s.allocator.tryAt index shard = some (slot, allocator')) :
    Partitioned (s.handOut thread allocator'
      ⟨s.allocator.chunkAt index slot, layout, some ((index, shard), slot)⟩) := by
  obtain ⟨free, hfree, hshape, hfree'⟩ := PooledChunkAllocator.tryAt_eq_some hfound
  have hmem : slot ∈ s.lists.free (index, shard) := by
    show slot ∈ s.allocator.free (index, shard)
    rw [hfree]
    exact List.mem_cons_self
  obtain ⟨hslot, hshard⟩ := (mem_slots h.placed.fits).mp (h.balanced.free_mem_all hmem)
  obtain ⟨hsize, halign⟩ := (h.searches thread _ hsearch).2 (index, shard) List.mem_cons_self
  have hnone : ∀ x ∈ (none : Option Search), x.Fits := fun _ hx => absurd hx (Option.not_mem_none _)
  refine h.of_sameShape hshape ?_ (h.searches_become thread hnone) (List.forall_mem_cons.mpr ⟨?_, h.held⟩) ?_
  · have hlists : (s.handOut thread allocator'
        ⟨s.allocator.chunkAt index slot, layout, some ((index, shard), slot)⟩).lists =
          s.lists.take (index, shard) slot free := by
      simp only [PoolState.lists, PoolState.handOut, Lists.take, hfree', List.filterMap_cons]
    rw [hlists]
    exact h.balanced.take hfree
  · refine ⟨hsize, h.placed.align_dvd slot halign, fun key slot' heq => ?_, fun heq => ?_⟩ <;> cases heq
    rfl
  · refine List.pairwise_cons.mpr ⟨fun held hheld => ?_, h.apart⟩
    cases hsource : held.source with
    | none =>
      obtain ⟨hle, hend⟩ := h.placed.inside hslot
      exact (apart_of_inside hle hend ((h.held held hheld).heap hsource).2).2
    | some source =>
      obtain ⟨key, slot'⟩ := source
      obtain ⟨hslot', hshard'⟩ := h.slot_lt hheld hsource
      rw [(h.held held hheld).pooled key slot' hsource]
      refine h.placed.apart hslot hslot' ?_
      -- the slot is free, so it is not the slot of a chunk that is handed out
      rintro ⟨rfl, rfl⟩
      have hkey : key = (key.1, shard) := Prod.ext rfl (hshard'.symm.trans hshard)
      have htaken : ((key.1, shard), slot) ∈ s.lists.taken := by
        rw [← hkey]
        exact List.mem_filterMap.mpr ⟨held, hheld, hsource⟩
      exact h.balanced.not_taken (nodup_slots h.placed.fits _) hmem htaken

theorem heap [DecidableEq τ] (thread : τ) {address : Nat} (hsearch : s.searches thread = some ⟨layout, []⟩)
    (halign : layout.align ∣ address) (hstorage : Chunk.Apart ⟨address, layout⟩ s.allocator.storage)
    (hheld : ∀ held ∈ s.held, held.source = none → Chunk.Apart ⟨address, layout⟩ held.chunk) :
    Partitioned (s.handOut thread s.allocator ⟨⟨address, layout⟩, layout, none⟩) where
  placed := h.placed
  shards := h.shards
  room := h.room
  balanced := h.balanced
  searches := h.searches_become thread nofun
  held := List.forall_mem_cons.mpr
    ⟨⟨le_rfl, halign, nofun, fun _ => ⟨(h.searches thread _ hsearch).1, hstorage⟩⟩, h.held⟩
  apart := by
    refine List.pairwise_cons.mpr ⟨fun held hmem => ?_, h.apart⟩
    cases hsource : held.source with
    | none => exact hheld held hmem hsource
    | some source =>
      obtain ⟨key, slot⟩ := source
      obtain ⟨hle, hend⟩ := h.placed.inside (h.slot_lt hmem hsource).1
      rw [(h.held held hmem).pooled key slot hsource]
      exact (apart_of_inside hle hend hstorage).1

theorem exists_deallocate (hheld : held ∈ s.held) :
    ∃ allocator', s.allocator.deallocate held.chunk = some allocator' ∧ s.allocator.SameShape allocator' ∧
      allocator'.free = match held.source with
        | some (key, slot) => Function.update s.allocator.free key (s.allocator.free key ++ [slot])
        | none => s.allocator.free := by
  cases hsource : held.source with
  | none =>
    obtain ⟨hsize, happart⟩ := (h.held held hheld).heap hsource
    exact ⟨_, PooledChunkAllocator.deallocate_heap happart hsize, ⟨rfl, rfl, fun _ => rfl, rfl⟩, rfl⟩
  | some source =>
    obtain ⟨⟨index, shard⟩, slot⟩ := source
    obtain ⟨hslot, hshard⟩ := h.slot_lt hheld hsource
    have hlt : shard < s.allocator.config.shardCount index := by
      rw [← show slot % s.allocator.config.shardCount index = shard from hshard]
      exact Nat.mod_lt _ (h.placed.fits.shardCount_pos index)
    have htaken : ((index, shard), slot) ∈ s.lists.taken := List.mem_filterMap.mpr ⟨held, hheld, hsource⟩
    rw [(h.held held hheld).pooled _ slot hsource]
    exact PooledChunkAllocator.deallocate_chunkAt h.placed (h.shards index) hslot hshard
      (h.room index shard hlt) (h.balanced.length_lt htaken)

theorem giveBack {allocator' : PooledChunkAllocator} (hheld : held ∈ s.held)
    (hreturned : s.allocator.deallocate held.chunk = some allocator') :
    Partitioned { s with allocator := allocator', held := s.held.erase held } := by
  obtain ⟨allocator₁, hdeallocate, hshape, hfree⟩ := h.exists_deallocate hheld
  rw [hreturned] at hdeallocate
  cases hdeallocate
  have hperm : (s.held.filterMap Held.source).Perm ((held :: s.held.erase held).filterMap Held.source) :=
    (List.perm_cons_erase hheld).filterMap _
  refine h.of_sameShape hshape ?_ h.searches (fun held' hmem => h.held held' (List.mem_of_mem_erase hmem))
    (h.apart.sublist List.erase_sublist)
  cases hsource : held.source with
  | none =>
    rw [List.filterMap_cons_none hsource] at hperm
    rw [hsource] at hfree
    have hbalanced := h.balanced.of_perm hperm.symm
    rw [PoolState.lists, hfree]
    exact hbalanced
  | some source =>
    obtain ⟨key, slot⟩ := source
    rw [List.filterMap_cons_some hsource] at hperm
    rw [hsource] at hfree
    have htaken : (key, slot) ∈ s.lists.taken := List.mem_filterMap.mpr ⟨held, hheld, hsource⟩
    have hgiven := h.balanced.give htaken
    have hrest : ((s.held.erase held).filterMap Held.source).Perm (s.lists.give key slot).taken :=
      (hperm.symm.trans (Lists.perm_give htaken)).cons_inv
    rw [PoolState.lists, hfree]
    exact hgiven.of_perm hrest

end

theorem of_tryNew {availableShards address : Nat} {hpos : 0 < availableShards} (hheld : s.held = [])
    (hsearches : ∀ thread, s.searches thread = none) (haligned : 512 * 1024 ∣ address)
    (hnew : tryNew config availableShards hpos (some address) = some (.ok s.allocator)) : Partitioned s := by
  obtain ⟨hfits, hstorage, hbuckets⟩ := tryNew_eq hnew
  have hshards (index : Fin 8) : (s.allocator.buckets index).shards.length = s.allocator.config.shardCount index ∧
      ∀ shard < s.allocator.config.shardCount index, ∃ queue,
        (s.allocator.buckets index).shards[shard]? = some queue ∧
          queue.items = s.allocator.config.slots (index, shard) ∧
          queue.capacity = (s.allocator.config.slots (index, shard)).length := by
    obtain ⟨bucket, hbucket, hlength, hqueues⟩ :=
      newBucket_eq (s.allocator.config.chunkCount index) s.allocator.config.shardsPerBucket
    rw [hbuckets index] at hbucket
    cases hbucket
    refine ⟨hlength, fun shard hlt => ?_⟩
    rw [PoolConfig.slots, if_pos hlt]
    exact hqueues shard hlt
  refine ⟨⟨hfits, ?_, ?_⟩, fun index => (hshards index).1, ?_, ?_, ?_, ?_, ?_⟩
  · rw [hstorage]
    exact haligned
  · rw [hstorage]
    rfl
  · intro index shard hlt
    obtain ⟨queue, hqueue, _, hcapacity⟩ := (hshards index).2 shard hlt
    rw [PooledChunkAllocator.room, hqueue, Option.map_some, hcapacity]
  · intro key
    have hfree : s.lists.free key = s.allocator.config.slots key := by
      show s.allocator.free key = _
      rw [PooledChunkAllocator.free]
      by_cases hlt : key.2 < s.allocator.config.shardCount key.1
      · obtain ⟨queue, hqueue, hitems, _⟩ := (hshards key.1).2 key.2 hlt
        rw [hqueue]
        exact hitems
      · rw [List.getElem?_eq_none (by rw [(hshards key.1).1]; omega), PoolConfig.slots, if_neg hlt]
        rfl
    rw [hfree, PoolState.lists, hheld]
    exact List.Perm.of_eq (List.append_nil _)
  · intro thread search hsearch
    rw [hsearches] at hsearch
    cases hsearch
  · rw [hheld]
    exact nofun
  · rw [hheld]
    exact .nil

theorem of_reachable [DecidableEq τ] (hs : (pool τ config).Reachable s) : Partitioned s := by
  apply hs.invariant
  · rintro s ⟨hheld, hsearches, availableShards, hpos, address, haligned, hnew⟩
    exact of_tryNew hheld hsearches haligned hnew
  · intro s s' _ h hstep
    cases hstep with
    | start thread layout preferredShard _ hsize =>
      refine h.become thread fun x hx => ?_
      cases hx
      exact fits_attempts _ hsize _
    | missed thread hsearch _ =>
      refine h.become thread fun x hx => ?_
      cases hx
      obtain ⟨hsize, hrest⟩ := h.searches thread _ hsearch
      exact ⟨hsize, fun key hkey => hrest key (List.mem_cons_of_mem _ hkey)⟩
    | found thread hsearch hfound => exact h.found thread hsearch hfound
    | heap thread address hsearch halign hstorage hheld => exact h.heap thread hsearch halign hstorage hheld
    | exhausted thread _ => exact h.become thread nofun
    | giveBack hheld hreturned => exact h.giveBack hheld hreturned

end Partitioned

/-- **The pool.** Chunks that are handed out have no byte in common and fit what was requested; a chunk of
the pool lies in the storage. Every chunk can be returned: its queue is not full, and the slot goes back to
the bucket and the queue that it came from. When all chunks are returned, each slot is free, once. -/
theorem pooled_chunks_partition [DecidableEq τ] {config : PoolConfig} {s : PoolState τ}
    (hs : (pool τ config).Reachable s) :
    (s.held.Pairwise fun h h' => h.chunk.Apart h'.chunk) ∧
    (∀ held ∈ s.held, held.requested.size ≤ held.chunk.layout.size ∧ held.requested.align ∣ held.chunk.address ∧
      (held.source.isSome → s.allocator.storage.address ≤ held.chunk.address ∧
        held.chunk.address + held.chunk.layout.size ≤
          s.allocator.storage.address + s.allocator.storage.layout.size)) ∧
    (∀ held ∈ s.held, ∃ allocator', s.allocator.deallocate held.chunk = some allocator' ∧
      allocator'.free = match held.source with
        | some (key, slot) => Function.update s.allocator.free key (s.allocator.free key ++ [slot])
        | none => s.allocator.free) ∧
    ((∀ held ∈ s.held, held.source = none) → ∀ index slot, slot < s.allocator.config.chunkCount index →
      (s.allocator.free (index, slot % s.allocator.config.shardCount index)).count slot = 1) := by
  have h := Partitioned.of_reachable hs
  refine ⟨h.apart, ?_, ?_, ?_⟩
  · intro held hheld
    have hok := h.held held hheld
    refine ⟨hok.size, hok.align, fun hsome => ?_⟩
    obtain ⟨⟨key, slot⟩, hsource⟩ := Option.isSome_iff_exists.mp hsome
    rw [hok.pooled key slot hsource]
    exact h.placed.inside (h.slot_lt hheld hsource).1
  · intro held hheld
    obtain ⟨allocator', hdeallocate, _, hfree⟩ := h.exists_deallocate hheld
    exact ⟨allocator', hdeallocate, hfree⟩
  · intro hnone index slot hslot
    have hfree := h.balanced.all_free (List.filterMap_eq_nil_iff.mpr hnone)
      (index, slot % s.allocator.config.shardCount index)
    have hnodup := nodup_slots h.placed.fits (index, slot % s.allocator.config.shardCount index)
    rw [show s.allocator.free = s.lists.free from rfl, hfree.count_eq]
    exact List.count_eq_one_of_mem hnodup ((mem_slots h.placed.fits).mpr ⟨hslot, rfl⟩)

end Invariant

/-! A pool of eight megabytes with two shards; one thread gets both of the largest chunks and returns one. -/

def smallConfig : PoolConfig := ⟨minPoolSize, 2, by decide⟩

def smallPool : PooledChunkAllocator :=
  ⟨smallConfig, ⟨512 * 1024, storageLayout minPoolSize⟩, fun index =>
    (Bucket.new (smallConfig.chunkCount index) 2).getD ⟨[]⟩⟩

theorem tryNew_smallPool : tryNew smallConfig 2 (by decide) (some (512 * 1024)) = some (.ok smallPool) := by
  have hbuckets : ∀ index, (Bucket.new ((smallConfig.capped 2 (by decide)).bucketBytes / bucketSize index)
      (smallConfig.capped 2 (by decide)).shardsPerBucket).isSome := by
    intro index
    obtain ⟨bucket, hbucket, _⟩ := newBucket_eq (smallConfig.chunkCount index) 2
    exact Option.isSome_iff_exists.mpr ⟨bucket, hbucket⟩
  unfold tryNew
  dsimp only
  rw [if_neg (by decide), if_neg (by decide), dif_pos hbuckets]
  have hget : (fun index => (Bucket.new _ _).get (hbuckets index)) = smallPool.buckets := by
    funext index
    exact Option.get_eq_getD _
  rw [hget]
  rfl

def largeLayout : Layout := ⟨300000, 16, 4, rfl⟩

theorem pooled_chunks_partition_smallPool :
    ∃ s s' : PoolState Unit, (pool Unit smallConfig).Reachable s ∧ s.held.length = 2 ∧
      (s.held.Pairwise fun h h' => h.chunk.Apart h'.chunk) ∧ (pool Unit smallConfig).Reachable s' ∧
      s'.held.length = 1 ∧ s.allocator.free (7, 0) = [] ∧ s'.allocator.free (7, 0) = [0] := by
  have hnew : (pool Unit smallConfig).Reachable ⟨smallPool, [], fun _ => none⟩ :=
    .init ⟨rfl, fun _ => rfl, 2, by decide, 512 * 1024, dvd_rfl, tryNew_smallPool⟩
  have hfirst := (hnew.step (.start () largeLayout 0 rfl (by decide))).step
    (@PoolStep.found Unit _ _ () largeLayout 7 0 0 [(7, 1)] _ rfl rfl)
  -- the queue of the first chunk is empty now
  have hmissed := (hfirst.step (.start () largeLayout 0 rfl (by decide))).step
    (@PoolStep.missed Unit _ _ () largeLayout 7 0 [(7, 1)] rfl rfl)
  have hsecond := hmissed.step (@PoolStep.found Unit _ _ () largeLayout 7 1 1 [] _ rfl rfl)
  obtain ⟨hapart, -, hreturns, -⟩ := pooled_chunks_partition hsecond
  obtain ⟨allocator', hreturned, hfree⟩ := hreturns _ (.tail _ (.head _))
  have hgiven := hsecond.step (.giveBack (.tail _ (.head _)) hreturned)
  exact ⟨_, _, hsecond, rfl, hapart, hgiven, rfl, rfl, congrFun hfree (7, 0)⟩

end Lonewolf.Util
