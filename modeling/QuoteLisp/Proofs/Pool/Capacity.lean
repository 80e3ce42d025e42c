import QuoteLisp.Proofs.Pool.Holding

/-! Of where a pool puts its items, only the number of them decides whether one more fits. -/

namespace QuoteLisp

variable {α : Type}

/-- How many items fit into a pool. -/
def PoolLimits.capacity (limits : PoolLimits) : Nat :=
  limits.chunksPerBlock * limits.maxBlocks

/-- A block of the right size that counts its chunks in use. -/
structure Block.Valid (size : Nat) (block : Block α) : Prop where
  length : block.chunks.length = size
  used : block.used = block.chunks.countP (·.isSome)

namespace Block

/-- The chunks in use in some blocks, as these count them. -/
def totalUsed : List (Block α) → Nat
  | [] => 0
  | block :: rest => block.used + totalUsed rest

@[simp] theorem totalUsed_append (blocks more : List (Block α)) :
    totalUsed (blocks ++ more) = totalUsed blocks + totalUsed more := by
  induction blocks with
  | nil => simp [totalUsed]
  | cons block rest ih => simp [totalUsed, ih, Nat.add_assoc]

/-- The count stays right when a free chunk is filled. -/
theorem Valid.fill {size index : Nat} {block : Block α} (valid : block.Valid size) (item : α)
    (free : block.chunks[index]? = some none) :
    Block.Valid size ⟨block.chunks.set index (some item), block.used + 1⟩ := by
  -- One chunk more is in use, and it was free before.
  obtain ⟨inside, found⟩ := List.getElem?_eq_some_iff.mp free
  refine ⟨by simp [valid.length], ?_⟩
  simp [List.countP_set inside, found, valid.used]

/-- A chunk in use is counted. -/
theorem Valid.used_pos {size index : Nat} {block : Block α} (valid : block.Valid size) {item : α}
    (held : block.chunks[index]? = some (some item)) : 0 < block.used := by
  -- The chunk itself is one of those counted.
  rw [valid.used, List.countP_pos_iff]
  exact ⟨some item, List.mem_of_getElem? held, rfl⟩

theorem Valid.used_le {size : Nat} {block : Block α} (valid : block.Valid size) : block.used ≤ size := by
  -- Only chunks are counted.
  rw [valid.used, ← valid.length]
  exact List.countP_le_length

/-- The count stays right when a chunk in use is freed. -/
theorem Valid.free {size index : Nat} {block : Block α} (valid : block.Valid size) {item : α}
    (held : block.chunks[index]? = some (some item)) :
    Block.Valid size ⟨block.chunks.set index none, block.used - 1⟩ := by
  -- One chunk fewer is in use, since it was in use before.
  obtain ⟨inside, found⟩ := List.getElem?_eq_some_iff.mp held
  refine ⟨by simp [valid.length], ?_⟩
  simp [List.countP_set inside, found, valid.used]

/-- The scan fails only when no chunk is free. -/
theorem fill?_eq_none {item : α} {chunks : List (Option α)} :
    fill? item chunks = none ↔ ∀ chunk ∈ chunks, chunk.isSome := by
  -- The scan stops at the first free chunk.
  induction chunks with
  | nil => simp [fill?]
  | cons chunk rest ih => cases chunk <;> simp [fill?, ih]

/-- A block takes an item unless all its chunks are in use. -/
theorem Valid.claim?_eq_none {size : Nat} {block : Block α} (valid : block.Valid size) {item : α} :
    block.claim? size item = none ↔ block.used = size := by
  -- The count and the chunks tell the same, so a block with space has a free chunk.
  have bound := valid.used_le
  have full : (∀ chunk ∈ block.chunks, chunk.isSome) ↔ block.used = size := by
    rw [valid.used, ← valid.length, List.countP_eq_length]
  unfold claim?
  split
  · rw [Option.map_eq_none_iff, fill?_eq_none, full]
  · next space =>
    simp only [hasSpace, decide_eq_true_eq] at space
    simp only [true_iff]
    omega

end Block

/-- A pool within its limits whose blocks are right and that counts the chunks in use. -/
structure Pool.Valid (pool : Pool α) : Prop where
  blocks : ∀ block ∈ pool.blocks, block.Valid pool.limits.chunksPerBlock
  count : pool.blocks.length ≤ pool.limits.maxBlocks
  inUse : pool.stats.chunksInUse = Block.totalUsed pool.blocks

namespace Pool

/-- A pool without blocks, as every run starts with, is valid. -/
theorem valid_of_no_blocks {pool : Pool α} (none : pool.blocks = []) (unused : pool.stats.chunksInUse = 0) :
    pool.Valid :=
  ⟨by simp [none], by simp [none], by simp [none, unused, Block.totalUsed]⟩

/-- The chunks in use when one block is replaced. -/
theorem totalUsed_set {blocks : List (Block α)} {number : Nat} {block : Block α} (other : Block α)
    (found : blocks[number]? = some block) :
    Block.totalUsed (blocks.set number other) + block.used = Block.totalUsed blocks + other.used := by
  -- Only the number at one place changes.
  induction blocks generalizing number with
  | nil => simp at found
  | cons first rest ih =>
    cases number with
    | zero =>
      simp only [List.getElem?_cons_zero, Option.some.injEq] at found
      simp only [List.set_cons_zero, Block.totalUsed, found]
      omega
    | succ number =>
      have later := @ih number (by simpa using found)
      simp only [List.set_cons_succ, Block.totalUsed]
      omega

/-- A pool stays valid when one of its blocks is replaced by a valid one and the change is counted. -/
theorem Valid.set {pool after : Pool α} (valid : pool.Valid) {number : Nat} {block other : Block α}
    (found : pool.blocks[number]? = some block) (validOther : other.Valid pool.limits.chunksPerBlock)
    (limits : after.limits = pool.limits) (changed : after.blocks = pool.blocks.set number other)
    (counted : after.stats.chunksInUse + block.used = pool.stats.chunksInUse + other.used) : after.Valid := by
  -- The other blocks are as they were, and the totals differ by what the one block counts.
  refine ⟨fun one member => ?_, by simpa [limits, changed] using valid.count, ?_⟩
  · rw [changed] at member
    rw [limits]
    rcases List.mem_or_eq_of_mem_set member with old | rfl
    · exact valid.blocks one old
    · exact validOther
  · have total := totalUsed_set other found
    rw [valid.inUse] at counted
    rw [changed]
    omega

/-- Storing in the blocks there are keeps a pool valid. -/
theorem Valid.place? {pool after : Pool α} {handle : Handle} {item : α} (valid : pool.Valid)
    (done : pool.place? item = some (handle, after)) : after.Valid := by
  -- The block that takes the item is a valid one, and it counts the item as the pool does.
  simp only [Pool.place?, Option.map_eq_some_iff] at done
  obtain ⟨⟨number, index, claimed⟩, found, same⟩ := done
  simp only [Prod.mk.injEq] at same
  obtain ⟨rfl, rfl⟩ := same
  obtain ⟨block, present, -, free, rfl⟩ := claimFirst?_eq_some found
  have validBlock := valid.blocks block (List.mem_of_getElem? present)
  refine valid.set present (validBlock.fill item free) rfl rfl ?_
  simp only [PoolStats.acquired]
  omega

/-- A further block of free chunks keeps a pool valid. -/
theorem Valid.grow {pool : Pool α} (valid : pool.Valid) (allowed : pool.canGrow) : pool.grow.Valid := by
  -- A new block has free chunks only and counts none.
  simp only [canGrow, Bool.and_eq_true, decide_eq_true_eq] at allowed
  refine ⟨fun block member => ?_, by simpa [Pool.grow] using Nat.succ_le_of_lt allowed.1, ?_⟩
  · rcases List.mem_append.mp member with old | new
    · exact valid.blocks block old
    · rw [List.mem_singleton.mp new]
      exact ⟨by simp [Block.fresh, Pool.grow], by simp [Block.fresh, List.countP_replicate]⟩
  · simpa [Pool.grow, Block.fresh, Block.totalUsed] using valid.inUse

/-- Acquiring keeps a pool valid. -/
theorem Valid.acquire {pool after : Pool α} {handle : Handle} {item : α} (valid : pool.Valid)
    (done : pool.acquire item = .ok (handle, after)) : after.Valid := by
  -- The item goes into the blocks there are or into a new one.
  unfold Pool.acquire at done
  split at done
  · next found =>
    cases done
    exact valid.place? found
  · split at done
    · next allowed =>
      split at done
      · next found =>
        cases done
        exact (valid.grow allowed).place? found
      · cases done
    · cases done

/-- What is released was held. -/
theorem get?_of_release? {pool freed : Pool α} {handle : Handle} {item : α}
    (done : pool.release? handle = some (item, freed)) : pool.get? handle = some item := by
  -- A chunk is freed only when it holds something.
  rw [release?_eq] at done
  split at done
  · next owned =>
    obtain ⟨block, present, freeing⟩ := Option.bind_eq_some_iff.mp done
    obtain ⟨⟨found, rest⟩, freeing, same⟩ := Option.bind_eq_some_iff.mp freeing
    unfold Block.free? at freeing
    split at freeing
    · next held =>
      cases freeing
      cases same
      simp [get?_eq, owned, cell?, present, held]
    · cases freeing
  · cases done

/-- Releasing keeps a pool valid, whatever the handle. -/
theorem Valid.release? {pool freed : Pool α} {handle : Handle} {item : α} (valid : pool.Valid)
    (done : pool.release? handle = some (item, freed)) : freed.Valid := by
  -- A handle that releases something names a chunk in use.
  have held := get?_of_release? done
  obtain ⟨-, block, present, found, released⟩ := release?_of_get? held
  rw [released] at done
  cases done
  have validBlock := valid.blocks block (List.mem_of_getElem? present)
  -- The chunk that is freed is counted both in its block and in the pool.
  have counted := validBlock.used_pos found
  have total := totalUsed_set (⟨block.chunks.set handle.index none, block.used - 1⟩ : Block α) present
  have inUse := valid.inUse
  refine valid.set present (validBlock.free found) rfl rfl ?_
  simp only [PoolStats.released] at total ⊢
  omega

/-- Releasing any handles keeps a pool valid. -/
theorem Valid.releaseAll {pool : Pool α} (valid : pool.Valid) (handles : List Handle) :
    (pool.releaseAll handles).2.Valid := by
  -- Handles that release nothing are passed over.
  induction handles generalizing pool with
  | nil => exact valid
  | cons handle rest ih =>
    simp only [Pool.releaseAll]
    split
    · next released => exact ih (valid.release? released)
    · exact ih valid

/-- Blocks have at most as many chunks in use as they have chunks. -/
theorem totalUsed_le {blocks : List (Block α)} {size : Nat} (valid : ∀ block ∈ blocks, block.Valid size) :
    Block.totalUsed blocks ≤ size * blocks.length := by
  -- Each block counts at most its own chunks.
  induction blocks with
  | nil => simp [Block.totalUsed]
  | cons block rest ih =>
    have here := (valid block (by simp)).used_le
    have later := ih fun other member => valid other (by simp [member])
    simp only [Block.totalUsed, List.length_cons, Nat.mul_succ]
    omega

/-- There are never more chunks in use than fit. -/
theorem Valid.inUse_le {pool : Pool α} (valid : pool.Valid) : pool.stats.chunksInUse ≤ pool.limits.capacity :=
  calc pool.stats.chunksInUse
      = Block.totalUsed pool.blocks := valid.inUse
    _ ≤ pool.limits.chunksPerBlock * pool.blocks.length := totalUsed_le valid.blocks
    _ ≤ pool.limits.capacity := Nat.mul_le_mul_left _ valid.count

/-- No block takes an item only when all their chunks are in use. -/
theorem totalUsed_of_claimFirst?_eq_none {blocks : List (Block α)} {size : Nat} {item : α}
    (valid : ∀ block ∈ blocks, block.Valid size) (failed : claimFirst? size item blocks = none) :
    Block.totalUsed blocks = size * blocks.length := by
  induction blocks with
  | nil => simp [Block.totalUsed]
  | cons block rest ih =>
    unfold claimFirst? at failed
    split at failed
    · cases failed
    · next refused =>
      -- A block that refuses the item is full, and so are those behind it.
      have here := (valid block (by simp)).claim?_eq_none.mp refused
      have later := ih (fun other member => valid other (by simp [member])) (Option.map_eq_none_iff.mp failed)
      simp only [Block.totalUsed, List.length_cons, Nat.mul_succ]
      omega

/-- Storing in the blocks there are fails only when all their chunks are in use. -/
theorem Valid.place?_eq_none {pool : Pool α} {item : α} (valid : pool.Valid) (failed : pool.place? item = none) :
    pool.stats.chunksInUse = pool.limits.chunksPerBlock * pool.blocks.length := by
  -- Every block counts as many chunks as it has.
  rw [valid.inUse, totalUsed_of_claimFirst?_eq_none valid.blocks (Option.map_eq_none_iff.mp failed)]

/-- One more item fits exactly as long as fewer are in use than the capacity. -/
theorem Valid.acquire_ok_iff {pool : Pool α} (valid : pool.Valid) (item : α) :
    (∃ placed, pool.acquire item = .ok placed) ↔ pool.stats.chunksInUse < pool.limits.capacity := by
  -- Where the items lie does not matter: a valid pool is full exactly when it may not grow and all its
  -- blocks are full.
  constructor
  · rintro ⟨⟨handle, after⟩, done⟩
    -- The pool that holds the item as well is within the capacity.
    have stores := stores_of_acquire done
    have bound := (valid.acquire done).inUse_le
    rw [stores.inUse, stores.limits] at bound
    omega
  · intro room
    unfold Pool.acquire
    cases first : pool.place? item with
    | some placed => exact ⟨placed, rfl⟩
    | none =>
      -- All blocks are full, so what room there is lies in blocks not made yet.
      have full := valid.place?_eq_none first
      rw [full] at room
      have fewer : pool.blocks.length < pool.limits.maxBlocks := Nat.lt_of_mul_lt_mul_left room
      have chunks : pool.limits.chunksPerBlock ≠ 0 := by
        intro none
        simp [PoolLimits.capacity, none] at room
      have allowed : pool.canGrow := by simp [canGrow, fewer, chunks]
      rw [if_pos allowed]
      cases second : pool.grow.place? item with
      | some placed => exact ⟨placed, rfl⟩
      | none =>
        have fullAgain := (valid.grow allowed).place?_eq_none second
        simp only [Pool.grow, List.length_append, List.length_singleton, Nat.mul_succ] at fullAgain
        omega

/-- An item is stored as long as fewer are in use than fit, and then it is refused in one way. -/
theorem Valid.acquire_cases {pool : Pool α} (valid : pool.Valid) (item : α) :
    (pool.stats.chunksInUse < pool.limits.capacity ∧ ∃ handle after, pool.acquire item = .ok (handle, after) ∧
      pool.Stores after handle item ∧ after.Valid) ∨
    (pool.stats.chunksInUse = pool.limits.capacity ∧ pool.acquire item = .error pool.exhausted) := by
  have fits := valid.acquire_ok_iff item
  cases done : pool.acquire item with
  | ok placed =>
    exact .inl ⟨fits.mp ⟨placed, done⟩, placed.1, placed.2, rfl, stores_of_acquire done, valid.acquire done⟩
  | error e =>
    have full : ¬ pool.stats.chunksInUse < pool.limits.capacity := by
      rw [← fits, done]
      simp
    exact .inr ⟨Nat.le_antisymm valid.inUse_le (Nat.le_of_not_lt full), by rw [acquire_eq_error done]⟩

/-- How many more items fit. -/
def room (pool : Pool α) : Nat :=
  pool.limits.capacity - pool.stats.chunksInUse

/-- What is held takes room. -/
theorem Holds.room {before after : Pool α} {held : List (Handle × α)} (holds : before.Holds after held)
    (valid : after.Valid) : after.room + held.length = before.room := by
  -- No more is in use than fits, so the differences are exact.
  have bound := valid.inUse_le
  rw [holds.limits, holds.inUse] at bound
  rw [Pool.room, Pool.room, holds.limits, holds.inUse]
  omega

/-- So many items more can be stored one after the other, whatever they are. -/
def CanAcquire : Nat → Pool α → Prop
  | 0, _ => True
  | count + 1, pool => ∀ item, ∃ handle after, pool.acquire item = .ok (handle, after) ∧ CanAcquire count after

/-- In a pool that counts right, as many items can be stored as there is room for. -/
theorem Valid.canAcquire {pool : Pool α} {count : Nat} (valid : pool.Valid) (room : count ≤ pool.room) :
    pool.CanAcquire count := by
  induction count generalizing pool with
  | zero => trivial
  | succ count ih =>
    intro item
    rcases valid.acquire_cases item with ⟨-, handle, after, done, stores, validAfter⟩ | ⟨full, -⟩
    · -- What is stored takes one chunk of the room.
      have left := stores.holds.room validAfter
      simp only [List.length_cons, List.length_nil] at left
      exact ⟨handle, after, done, ih validAfter (by omega)⟩
    · rw [Pool.room, full] at room
      omega

/-- Two pools with the same limits and equally many items in use, wherever these are. -/
structure SameRoom (pool other : Pool α) : Prop where
  valid : pool.Valid
  otherValid : other.Valid
  limits : other.limits = pool.limits
  inUse : other.stats.chunksInUse = pool.stats.chunksInUse

namespace SameRoom

variable {pool other base base' : Pool α} {held held' : List (Handle × α)}

theorem refl (valid : pool.Valid) : pool.SameRoom pool := ⟨valid, valid, rfl, rfl⟩

theorem symm (same : pool.SameRoom other) : other.SameRoom pool :=
  ⟨same.otherValid, same.valid, same.limits.symm, same.inUse.symm⟩

theorem trans {last : Pool α} (same : pool.SameRoom other) (later : other.SameRoom last) : pool.SameRoom last :=
  ⟨same.valid, later.otherValid, later.limits.trans same.limits, later.inUse.trans same.inUse⟩

/-- What fits in the one fits in the other. -/
theorem acquire (same : pool.SameRoom other) {item : α} {handle : Handle} {after : Pool α}
    (done : pool.acquire item = .ok (handle, after)) :
    ∃ handle' after', other.acquire item = .ok (handle', after') ∧ after.SameRoom after' := by
  -- Only the number of items in use decides.
  have room := (same.valid.acquire_ok_iff item).mp ⟨_, done⟩
  obtain ⟨placed, done'⟩ := (same.otherValid.acquire_ok_iff item).mpr (by rwa [same.limits, same.inUse])
  have stores := stores_of_acquire done
  have stores' := stores_of_acquire done'
  refine ⟨placed.1, placed.2, done', same.valid.acquire done, same.otherValid.acquire done', ?_, ?_⟩
  · rw [stores.limits, stores'.limits, same.limits]
  · rw [stores.inUse, stores'.inUse, same.inUse]

/-- Releasing what is held leaves the room there was before. -/
theorem of_holds (holds : base.Holds pool held) (valid : base.Valid) (validNow : pool.Valid) :
    base.SameRoom (pool.releaseAll (held.map (·.1))).2 := by
  have released := holds.releaseAll.2
  exact ⟨valid, validNow.releaseAll _, released.limits, by simpa using released.inUse⟩

/-- Equally many items are released in both. -/
theorem releaseAll (same : pool.SameRoom other) (holds : base.Holds pool held) (holds' : base'.Holds other held')
    (count : held'.length = held.length) :
    (pool.releaseAll (held.map (·.1))).2.SameRoom (other.releaseAll (held'.map (·.1))).2 := by
  have released := holds.releaseAll.2
  have released' := holds'.releaseAll.2
  refine ⟨same.valid.releaseAll _, same.otherValid.releaseAll _, ?_, ?_⟩
  · rw [released.limits, released'.limits, ← holds.limits, ← holds'.limits, same.limits]
  · -- Before the first of the items equally many were in use, since their number is the same.
    have during := holds.inUse
    have during' := holds'.inUse
    have before := released.inUse
    have before' := released'.inUse
    have now := same.inUse
    simp only [List.length_nil, Nat.add_zero] at before before'
    omega

end SameRoom

end Pool

end QuoteLisp
