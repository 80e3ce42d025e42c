import Mathlib.Algebra.Order.Floor.Div
import QuoteLisp.Proofs.Pool.History

/-! The counters of a pool tell what has happened to it, and there are no more blocks than its fullest moment needed. -/

namespace QuoteLisp

variable {α : Type}

/-- The calls that free or store one item at most, of which a call consists. -/
def PoolCall.singly : PoolCall α → List (PoolCall α)
  | releaseAll handles => handles.map release
  | call => [call]

namespace Pool

/-- A pool that has stored and freed so many items, all of which its counters tell. -/
structure Tallied (pool : Pool α) (stored freed : Nat) : Prop where
  valid : pool.Valid
  balance : pool.stats.chunksInUse + freed = stored
  lifetime : pool.stats.chunksLifetime = stored
  created : pool.stats.blocksCreated = pool.blocks.length
  bounded : pool.stats.chunksInUse ≤ pool.stats.highWatermark
  /-- The blocks are enough for the most chunks ever in use. -/
  covered : pool.stats.highWatermark ≤ pool.limits.chunksPerBlock * pool.blocks.length
  /-- With fewer blocks they would not be. -/
  needed : ∀ fewer < pool.blocks.length, pool.limits.chunksPerBlock * fewer < pool.stats.highWatermark

namespace Tallied

variable {pool later : Pool α} {handle : Handle} {item : α} {stored freed : Nat}

/-- A pool without blocks has stored nothing. -/
theorem start (id : Nat) (limits : PoolLimits) : ({ id := id, limits := limits } : Pool α).Tallied 0 0 :=
  ⟨valid_of_no_blocks rfl rfl, rfl, rfl, rfl, Nat.le_refl 0, Nat.zero_le _, by simp⟩

/-- One more item is counted, in the blocks there are or in a block that was needed. -/
theorem acquire (tallied : pool.Tallied stored freed) (done : pool.acquire item = .ok (handle, later)) :
    later.Tallied (stored + 1) freed := by
  have valid := tallied.valid.acquire done
  have balance := tallied.balance
  have lifetime := tallied.lifetime
  have covered := tallied.covered
  -- The chunks in use fit into the blocks, the new one included.
  have fits : later.stats.chunksInUse ≤ later.limits.chunksPerBlock * later.blocks.length := by
    rw [valid.inUse]
    exact totalUsed_le valid.blocks
  rcases acquire_eq_ok done with placed | ⟨nowhere, allowed, placed⟩
  · obtain ⟨number, index, -, -, -, rfl⟩ := place?_eq_some placed
    simp only [fill, PoolStats.acquired, List.length_modify] at fits
    refine ⟨valid, ?_, ?_, ?_, ?_, ?_, ?_⟩ <;> simp only [fill, PoolStats.acquired, List.length_modify]
    · omega
    · omega
    · exact tallied.created
    · omega
    · omega
    · intro fewer less
      have enough := tallied.needed fewer less
      omega
  · -- All chunks were in use, so the pool was never fuller than with the new item.
    have full := tallied.valid.place?_eq_none nowhere
    obtain ⟨number, index, -, -, -, rfl⟩ := place?_eq_some placed
    simp only [fill, grow, PoolStats.acquired, List.length_modify, List.length_append, List.length_singleton] at fits
    refine ⟨valid, ?_, ?_, ?_, ?_, ?_, ?_⟩ <;>
      simp only [fill, grow, PoolStats.acquired, List.length_modify, List.length_append, List.length_singleton]
    · omega
    · omega
    · rw [tallied.created]
    · omega
    · omega
    · intro fewer less
      have before := Nat.mul_le_mul_left pool.limits.chunksPerBlock (Nat.le_of_lt_succ less)
      omega

/-- One item less is in use. -/
theorem release (tallied : pool.Tallied stored freed) (done : pool.release? handle = some (item, later)) :
    later.Tallied stored (freed + 1) := by
  have valid := tallied.valid.release? done
  have positive := tallied.valid.inUse_pos (get?_of_release? done)
  have balance := tallied.balance
  have bounded := tallied.bounded
  obtain ⟨block, -, -, rfl⟩ := release?_eq_some done
  refine ⟨valid, ?_, tallied.lifetime, ?_, ?_, ?_, ?_⟩ <;> simp only [PoolStats.released, List.length_set]
  · omega
  · exact tallied.created
  · omega
  · exact tallied.covered
  · exact tallied.needed

/-- A new pool tells what all calls together have stored and freed. -/
theorem after (id : Nat) (limits : PoolLimits) (calls : List (PoolCall α)) :
    let start : Pool α := { id := id, limits := limits }
    (start.after calls).Tallied (start.storedBy calls) (start.freedBy calls) := by
  have counted := after_induction (motive := Tallied) acquire release 0 0 (start id limits) calls
  rwa [Nat.zero_add, Nat.zero_add] at counted

/-- There are as many blocks as the most chunks ever in use need. -/
theorem blocks_eq (tallied : pool.Tallied stored freed) (chunks : 0 < pool.limits.chunksPerBlock) :
    pool.blocks.length = pool.stats.highWatermark ⌈/⌉ pool.limits.chunksPerBlock := by
  refine Nat.le_antisymm (Nat.le_of_not_lt fun fewer => ?_) ((ceilDiv_le_iff_le_mul chunks).mpr tallied.covered)
  -- As many blocks as are needed would not be enough.
  have short := tallied.needed _ fewer
  have enough := (ceilDiv_le_iff_le_mul chunks).mp
    (Nat.le_refl (pool.stats.highWatermark ⌈/⌉ pool.limits.chunksPerBlock))
  omega

end Tallied

/-- Releases only lower the number of chunks in use. -/
theorem releaseAll_lowers (pool : Pool α) (handles : List Handle) :
    (pool.releaseAll handles).2.stats.highWatermark = pool.stats.highWatermark ∧
      (pool.releaseAll handles).2.stats.chunksInUse ≤ pool.stats.chunksInUse := by
  induction handles generalizing pool with
  | nil => exact ⟨rfl, Nat.le_refl _⟩
  | cons handle rest ih =>
    simp only [releaseAll]
    cases done : pool.release? handle with
    | none => exact ih pool
    | some released =>
      obtain ⟨block, -, -, same⟩ := release?_eq_some done
      have stats : released.2.stats = pool.stats.released := by rw [same]
      obtain ⟨mark, fewer⟩ := ih released.2
      rw [stats] at mark fewer
      exact ⟨mark, Nat.le_trans fewer (Nat.sub_le _ _)⟩

/-- A call raises the mark to the number of chunks in use after it, if that is a new maximum. -/
theorem highWatermark_perform {pool : Pool α} (bounded : pool.stats.chunksInUse ≤ pool.stats.highWatermark)
    (call : PoolCall α) : (pool.perform call).2.stats.highWatermark =
      max (pool.perform call).2.stats.chunksInUse pool.stats.highWatermark := by
  have lowers : ∀ handles, (pool.releaseAll handles).2.stats.highWatermark =
      max (pool.releaseAll handles).2.stats.chunksInUse pool.stats.highWatermark := by
    intro handles
    obtain ⟨mark, fewer⟩ := pool.releaseAll_lowers handles
    omega
  cases call with
  | acquire item =>
    cases done : pool.acquire item with
    | error e =>
      simp only [perform, done]
      omega
    | ok placed =>
      simp only [perform, done]
      rcases acquire_eq_ok done with found | ⟨-, -, found⟩
      · obtain ⟨number, index, -, -, -, same⟩ := place?_eq_some found
        simp [same, fill, PoolStats.acquired, Nat.max_comm]
      · obtain ⟨number, index, -, -, -, same⟩ := place?_eq_some found
        simp [same, fill, grow, PoolStats.acquired, Nat.max_comm]
  | get handle => exact (Nat.max_eq_right bounded).symm
  | release handle =>
    -- A single release is a batch of one.
    have one := lowers [handle]
    rw [releaseAll_eq_after] at one
    exact one
  | releaseAll handles => exact lowers handles

/-- The mark is the most chunks in use after any of the calls, or before the first. -/
theorem highWatermark_isGreatest (id : Nat) (limits : PoolLimits) (calls : List (PoolCall α)) :
    let start : Pool α := { id := id, limits := limits }
    IsGreatest {count | ∃ earlier, earlier <+: calls ∧ (start.after earlier).stats.chunksInUse = count}
      (start.after calls).stats.highWatermark := by
  intro start
  induction calls using List.reverseRecOn with
  | nil =>
    refine ⟨⟨[], List.prefix_rfl, rfl⟩, ?_⟩
    rintro count ⟨earlier, before, rfl⟩
    rw [List.prefix_nil.mp before]
    exact Nat.le_refl 0
  | append_singleton calls call ih =>
    -- One more number is among those to compare, and the mark is the greater of it and the old mark.
    have bounded := (Tallied.after id limits calls).bounded
    have more : {count | ∃ earlier, earlier <+: calls ++ [call] ∧ (start.after earlier).stats.chunksInUse = count} =
        insert ((start.after (calls ++ [call])).stats.chunksInUse)
          {count | ∃ earlier, earlier <+: calls ∧ (start.after earlier).stats.chunksInUse = count} := by
      ext count
      simp [List.prefix_concat_iff, eq_comm]
    rw [more]
    have raised := highWatermark_perform bounded call
    rw [after_append]
    simp only [after_cons, after_nil]
    rw [raised]
    exact ih.insert _

/-- The chunks that some blocks count are added up. -/
theorem totalUsed_eq_sum (blocks : List (Block α)) : Block.totalUsed blocks = (blocks.map (·.used)).sum := by
  induction blocks with
  | nil => rfl
  | cons block rest ih => simp [Block.totalUsed, ih]

/-- Making the calls singly comes to the same. -/
theorem after_singly (pool : Pool α) (calls : List (PoolCall α)) :
    pool.after (calls.flatMap PoolCall.singly) = pool.after calls := by
  induction calls generalizing pool with
  | nil => rfl
  | cons call rest ih =>
    rw [List.flatMap_cons, after_append, ih, after_cons]
    congr 1
    cases call with
    | releaseAll handles => exact (pool.releaseAll_eq_after handles).symm
    | _ => rfl

/-- The counters of a pool after some calls tell what these have done. -/
structure CountersTell (start : Pool α) (calls : List (PoolCall α)) : Prop where
  /-- Each block counts its chunks that hold an item. -/
  used : ∀ block ∈ (start.after calls).blocks, block.used = block.chunks.countP (·.isSome)
  /-- The pool counts what its blocks count. -/
  total : (start.after calls).stats.chunksInUse = ((start.after calls).blocks.map (·.used)).sum
  /-- What is in use and what was freed is all that was stored. -/
  balance : (start.after calls).stats.chunksInUse + start.freedBy calls = start.storedBy calls
  lifetime : (start.after calls).stats.chunksLifetime = start.storedBy calls
  /-- The mark is the most chunks in use at any moment, the moments within a batch included. -/
  peak : IsGreatest {count | ∃ earlier, earlier <+: calls.flatMap PoolCall.singly ∧
    (start.after earlier).stats.chunksInUse = count} (start.after calls).stats.highWatermark
  created : (start.after calls).stats.blocksCreated = (start.after calls).blocks.length
  /-- There are as many blocks as the fullest moment needed. -/
  blocks : (start.after calls).stats.blocksCreated =
    (start.after calls).stats.highWatermark ⌈/⌉ start.limits.chunksPerBlock
  limit : (start.after calls).stats.blocksCreated ≤ start.limits.maxBlocks
  /-- At no moment can a release lower a counter that is zero. -/
  positive : ∀ earlier handle item freed, earlier <+: calls.flatMap PoolCall.singly →
    (start.after earlier).release? handle = some (item, freed) → 0 < (start.after earlier).stats.chunksInUse ∧
      ∃ block, (start.after earlier).blocks[handle.block]? = some block ∧ 0 < block.used

/-- Whatever is asked of a pool whose blocks have chunks, and with whatever handles, its counters tell what was done,
there are no more blocks than the most chunks ever in use at once have needed, and no counter goes below zero. -/
theorem counters_tell_the_truth (id : Nat) (limits : PoolLimits) (chunks : 0 < limits.chunksPerBlock)
    (calls : List (PoolCall α)) : CountersTell ({ id := id, limits := limits } : Pool α) calls := by
  have now := Tallied.after id limits calls
  have sameLimits := (valid_after (Tallied.start id limits).valid calls).2.2
  have peak := highWatermark_isGreatest id limits (calls.flatMap PoolCall.singly)
  simp only [after_singly] at peak
  refine ⟨fun block member => (now.valid.blocks block member).used, ?_, now.balance, now.lifetime, peak, now.created,
    ?_, ?_, ?_⟩
  · rw [now.valid.inUse, totalUsed_eq_sum]
  · rw [now.created, now.blocks_eq (by rwa [sameLimits]), sameLimits]
  · rw [now.created]
    simpa [sameLimits] using now.valid.count
  · intro earlier handle item freed _ done
    -- The chunk that is freed is counted by its block and by the pool.
    have valid := (Tallied.after id limits earlier).valid
    obtain ⟨block, present, held, -⟩ := release?_eq_some done
    exact ⟨valid.inUse_pos (get?_of_release? done), block, present,
      (valid.blocks block (List.mem_of_getElem? present)).used_pos held⟩

/-- Three items in blocks of two, where two are freed in a batch with a handle of another pool, one more is stored, and
a used handle frees nothing. -/
theorem counters_tell_the_truth_batch :
    let start : Pool Nat := { id := 5, limits := ⟨2, 4⟩ }
    let calls : List (PoolCall Nat) := [.acquire 1, .acquire 2, .acquire 3,
      .releaseAll [⟨5, 0, 1⟩, ⟨9, 0, 0⟩, ⟨5, 0, 0⟩], .acquire 4, .get ⟨5, 1, 0⟩, .release ⟨5, 0, 1⟩]
    (start.after calls).stats = ⟨2, 2, 4, 3⟩ ∧ start.storedBy calls = 4 ∧ start.freedBy calls = 2 ∧
      CountersTell start calls :=
  ⟨by decide, by decide, by decide, counters_tell_the_truth 5 ⟨2, 4⟩ (by decide) _⟩

end Pool

end QuoteLisp
