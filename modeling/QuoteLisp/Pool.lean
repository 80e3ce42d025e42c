import QuoteLisp.Error

/-! Storage in blocks of equally many chunks, each holding one item, with a limit on the number of blocks. -/

namespace QuoteLisp

/-- How large a pool may grow. -/
structure PoolLimits where
  chunksPerBlock : Nat := 1000
  maxBlocks : Nat := 64
  deriving DecidableEq, Repr

/-- The counters of a pool. -/
structure PoolStats where
  blocksCreated : Nat := 0
  chunksInUse : Nat := 0
  /-- All successful acquisitions so far. -/
  chunksLifetime : Nat := 0
  /-- The most chunks ever in use at once. -/
  highWatermark : Nat := 0
  deriving DecidableEq, Repr

/-- A claim on one chunk, with the pool that gave it. -/
structure Handle where
  owner : Nat
  block : Nat
  index : Nat
  deriving DecidableEq, Repr

/-- A block of chunks with a count of those in use. -/
structure Block (α : Type) where
  chunks : List (Option α)
  used : Nat
  deriving Repr

/-- A pool with its identity. -/
structure Pool (α : Type) where
  id : Nat := 0
  limits : PoolLimits := {}
  blocks : List (Block α) := []
  stats : PoolStats := {}
  deriving Repr

variable {α : Type}

namespace Block

/-- A block of free chunks. -/
def fresh (size : Nat) : Block α :=
  ⟨List.replicate size none, 0⟩

/-- Whether the count of chunks in use leaves room in a block of a given size. -/
def hasSpace (size : Nat) (block : Block α) : Bool :=
  block.used < size

/-- Stores an item in the first free chunk and gives its index. -/
def fill? (item : α) : List (Option α) → Option (Nat × List (Option α))
  | [] => none
  -- The scan starts at the lowest index, so a freed chunk is used again first.
  | none :: rest => some (0, some item :: rest)
  | some held :: rest => (fill? item rest).map fun (index, filled) => (index + 1, some held :: filled)

/-- Stores an item in the first free chunk of a block that has space. -/
def claim? (size : Nat) (block : Block α) (item : α) : Option (Nat × Block α) :=
  if block.hasSpace size then
    (fill? item block.chunks).map fun (index, chunks) => (index, ⟨chunks, block.used + 1⟩)
  else none

/-- Frees a chunk and gives the item it held. -/
def free? (block : Block α) (index : Nat) : Option (α × Block α) :=
  match block.chunks[index]? with
  | some (some item) => some (item, ⟨block.chunks.set index none, block.used - 1⟩)
  | _ => none

end Block

namespace PoolStats

/-- One more chunk in use. -/
def acquired (stats : PoolStats) : PoolStats :=
  { stats with
    chunksInUse := stats.chunksInUse + 1
    chunksLifetime := stats.chunksLifetime + 1
    highWatermark := max stats.highWatermark (stats.chunksInUse + 1) }

/-- One chunk fewer in use. -/
def released (stats : PoolStats) : PoolStats :=
  { stats with chunksInUse := stats.chunksInUse - 1 }

end PoolStats

namespace Pool

/-- Stores an item in the first of some blocks of one size that has space; gives block number and index. -/
def claimFirst? (size : Nat) (item : α) : List (Block α) → Option (Nat × Nat × List (Block α))
  | [] => none
  | block :: rest =>
    match block.claim? size item with
    | some (index, filled) => some (0, index, filled :: rest)
    | none => (claimFirst? size item rest).map fun (number, index, blocks) => (number + 1, index, block :: blocks)

/-- Stores an item in the blocks there are. -/
def place? (pool : Pool α) (item : α) : Option (Handle × Pool α) :=
  (claimFirst? pool.limits.chunksPerBlock item pool.blocks).map fun (number, index, blocks) =>
    (⟨pool.id, number, index⟩, { pool with blocks := blocks, stats := pool.stats.acquired })

/-- The pool with one more block of free chunks. -/
def grow (pool : Pool α) : Pool α :=
  { pool with
    blocks := pool.blocks ++ [Block.fresh pool.limits.chunksPerBlock]
    stats := { pool.stats with blocksCreated := pool.stats.blocksCreated + 1 } }

/-- Whether the limits allow one more block; blocks without chunks are never created. -/
def canGrow (pool : Pool α) : Bool :=
  pool.blocks.length < pool.limits.maxBlocks && pool.limits.chunksPerBlock != 0

/-- The failure of a pool that is full and may not grow. -/
def exhausted (pool : Pool α) : Error :=
  .poolExhausted pool.limits.maxBlocks pool.limits.chunksPerBlock

/-- Stores an item in the first free chunk, in a new block if all are in use. -/
def acquire (pool : Pool α) (item : α) : Except Error (Handle × Pool α) :=
  match pool.place? item with
  | some placed => .ok placed
  | none =>
    -- Every chunk of every block is in use, so only a new block can help.
    if pool.canGrow then
      match pool.grow.place? item with
      | some placed => .ok placed
      | none => .error pool.exhausted
    else .error pool.exhausted

/-- The item of a chunk; none for a handle of another pool. -/
def get? (pool : Pool α) (handle : Handle) : Option α := do
  guard (handle.owner = pool.id)
  let block ← pool.blocks[handle.block]?
  let chunk ← block.chunks[handle.index]?
  chunk

/-- Frees a chunk and gives back its item; none for a handle of another pool. -/
def release? (pool : Pool α) (handle : Handle) : Option (α × Pool α) := do
  -- Handles of different pools may name the same place, and only the owner tells them apart.
  guard (handle.owner = pool.id)
  let block ← pool.blocks[handle.block]?
  let (item, freed) ← block.free? handle.index
  return (item, { pool with blocks := pool.blocks.set handle.block freed, stats := pool.stats.released })

/-- Frees chunks in order and gives back their items; handles of other pools are passed over. -/
def releaseAll (pool : Pool α) : List Handle → List α × Pool α
  | [] => ([], pool)
  | handle :: rest =>
    match pool.release? handle with
    -- Each chunk is freed before the next handle is looked at.
    | some (item, freed) =>
      let (items, final) := freed.releaseAll rest
      (item :: items, final)
    | none => pool.releaseAll rest

end Pool

end QuoteLisp
