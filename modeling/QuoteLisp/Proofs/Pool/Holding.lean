import QuoteLisp.Pool

/-! What acquiring and releasing chunks does to the contents of a pool: an item is found under its own handle
until that handle is released, and nothing else is touched. -/

namespace QuoteLisp

variable {α : Type}

namespace Block

/-- The item goes into a chunk that was free. -/
theorem fill?_eq_some {item : α} {chunks filled : List (Option α)} {index : Nat}
    (done : fill? item chunks = some (index, filled)) :
    chunks[index]? = some none ∧ filled = chunks.set index (some item) := by
  -- The scan passes over chunks in use, which shifts the index by one each.
  induction chunks generalizing index filled with
  | nil => simp [fill?] at done
  | cons chunk rest ih =>
    cases chunk with
    | none =>
      simp only [fill?, Option.some.injEq, Prod.mk.injEq] at done
      obtain ⟨rfl, rfl⟩ := done
      simp
    | some held =>
      simp only [fill?, Option.map_eq_some_iff] at done
      obtain ⟨⟨later, more⟩, found, same⟩ := done
      simp only [Prod.mk.injEq] at same
      obtain ⟨rfl, rfl⟩ := same
      obtain ⟨free, rfl⟩ := ih found
      simp [free]

/-- A block that takes an item counts one chunk more as used. -/
theorem claim?_eq_some {size index : Nat} {block filled : Block α} {item : α}
    (done : block.claim? size item = some (index, filled)) :
    block.used < size ∧ block.chunks[index]? = some none ∧
      filled = ⟨block.chunks.set index (some item), block.used + 1⟩ := by
  -- The count is asked first, and only then the chunks.
  unfold claim? at done
  split at done
  · next space =>
    simp only [Option.map_eq_some_iff] at done
    obtain ⟨⟨place, chunks⟩, found, same⟩ := done
    simp only [Prod.mk.injEq] at same
    obtain ⟨rfl, rfl⟩ := same
    obtain ⟨free, rfl⟩ := fill?_eq_some found
    exact ⟨by simpa [hasSpace] using space, free, rfl⟩
  · cases done

end Block

namespace Pool

/-- The item in a chunk of some blocks, given by the number of its block and its index. -/
def cell? (blocks : List (Block α)) (number index : Nat) : Option α :=
  (blocks[number]?).bind fun block => (block.chunks[index]?).join

/-- What follows a condition happens if it holds. -/
theorem guard_bind {β : Type} (condition : Prop) [Decidable condition] (next : Unit → Option β) :
    (guard condition >>= next) = if condition then next () else none := by
  -- A condition that fails leaves nothing to go on with.
  delta guard
  split <;> rfl

/-- A handle finds the item in its chunk if it belongs to the pool. -/
theorem get?_eq (pool : Pool α) (handle : Handle) :
    pool.get? handle = if handle.owner = pool.id then cell? pool.blocks handle.block handle.index else none := by
  rw [get?, guard_bind]
  rfl

/-- A handle frees its chunk if it belongs to the pool. -/
theorem release?_eq (pool : Pool α) (handle : Handle) :
    pool.release? handle = if handle.owner = pool.id then
      (pool.blocks[handle.block]?).bind fun block => (block.free? handle.index).bind fun (item, freed) =>
        some (item, { pool with blocks := pool.blocks.set handle.block freed, stats := pool.stats.released })
    else none := by
  rw [release?, guard_bind]
  rfl

/-- A chunk whose contents are set holds them, and all others hold what they held. -/
theorem cell?_set {blocks : List (Block α)} {number index : Nat} {block : Block α} {chunk : Option α}
    (content : Option α) (used : Nat) (found : blocks[number]? = some block)
    (present : block.chunks[index]? = some chunk) (number' index' : Nat) :
    cell? (blocks.set number ⟨block.chunks.set index content, used⟩) number' index' =
      if number' = number ∧ index' = index then content else cell? blocks number' index' := by
  -- The place is given by two numbers, and only where both agree is the contents new.
  obtain ⟨inBlocks, rfl⟩ := List.getElem?_eq_some_iff.mp found
  obtain ⟨inChunks, -⟩ := List.getElem?_eq_some_iff.mp present
  by_cases sameBlock : number' = number
  · subst number'
    by_cases sameIndex : index' = index
    · subst index'
      simp [cell?, inBlocks, inChunks]
    · -- Another chunk of the same block.
      have other : index ≠ index' := fun same => sameIndex same.symm
      simp [cell?, inBlocks, sameIndex, List.getElem?_set_ne other]
  · have other : number ≠ number' := fun same => sameBlock same.symm
    simp [cell?, sameBlock, List.getElem?_set_ne other]

/-- A pool in which the chunk of a handle is set answers for that handle with the new contents alone. -/
theorem get?_set {pool after : Pool α} {handle : Handle} {block : Block α} {chunk content : Option α} {used : Nat}
    (owned : handle.owner = pool.id) (found : pool.blocks[handle.block]? = some block)
    (present : block.chunks[handle.index]? = some chunk) (sameId : after.id = pool.id)
    (changed : after.blocks = pool.blocks.set handle.block ⟨block.chunks.set handle.index content, used⟩)
    (other : Handle) : after.get? other = if other = handle then content else pool.get? other := by
  -- Handles of another pool find nothing before and after.
  simp only [get?_eq, sameId, changed, cell?_set content used found present]
  by_cases same : other = handle
  · simp [same, owned]
  · by_cases ownedOther : other.owner = pool.id
    · -- Two handles of one pool differ in their place.
      have elsewhere : ¬ (other.block = handle.block ∧ other.index = handle.index) := by
        rintro ⟨sameBlock, sameIndex⟩
        cases other
        cases handle
        simp_all
      simp [same, ownedOther, elsewhere]
    · simp [same, ownedOther]

/-- Free chunks in a further block hold nothing. -/
theorem cell?_fresh (blocks : List (Block α)) (size number index : Nat) :
    cell? (blocks ++ [Block.fresh size]) number index = cell? blocks number index := by
  rcases Nat.lt_trichotomy number blocks.length with inside | last | beyond
  · simp [cell?, List.getElem?_append_left inside]
  · -- The new block is all free, and there was no block of that number before.
    subst last
    by_cases present : index < size <;> simp [cell?, Block.fresh, present]
  · have past : (blocks ++ [Block.fresh size])[number]? = none := by simp; omega
    have absent : blocks[number]? = none := by simp; omega
    simp [cell?, past, absent]

/-- An item is stored in a free chunk of a block that has space, and that block alone changes. -/
theorem claimFirst?_eq_some {size number index : Nat} {item : α} {blocks claimed : List (Block α)}
    (done : claimFirst? size item blocks = some (number, index, claimed)) :
    ∃ block, blocks[number]? = some block ∧ block.used < size ∧ block.chunks[index]? = some none ∧
      claimed = blocks.set number ⟨block.chunks.set index (some item), block.used + 1⟩ := by
  -- Blocks without space are passed over, which shifts the number by one each.
  induction blocks generalizing number index claimed with
  | nil => simp [claimFirst?] at done
  | cons block rest ih =>
    unfold claimFirst? at done
    split at done
    · next place filled found =>
      simp only [Option.some.injEq, Prod.mk.injEq] at done
      obtain ⟨rfl, rfl, rfl⟩ := done
      obtain ⟨space, free, rfl⟩ := Block.claim?_eq_some found
      exact ⟨block, by simp, space, free, by simp⟩
    · simp only [Option.map_eq_some_iff] at done
      obtain ⟨⟨later, place, more⟩, found, same⟩ := done
      simp only [Prod.mk.injEq] at same
      obtain ⟨rfl, rfl, rfl⟩ := same
      obtain ⟨other, present, space, free, rfl⟩ := ih found
      exact ⟨other, by simpa using present, space, free, by simp⟩

/-- What storing one item changes: its chunk was free and holds it now, and one chunk more is in use. -/
structure Stores (before after : Pool α) (handle : Handle) (item : α) : Prop where
  id : after.id = before.id
  limits : after.limits = before.limits
  inUse : after.stats.chunksInUse = before.stats.chunksInUse + 1
  free : before.get? handle = none
  stored : after.get? handle = some item
  others : ∀ other, other ≠ handle → after.get? other = before.get? other

/-- Storing in the blocks there are. -/
theorem stores_of_place? {pool after : Pool α} {handle : Handle} {item : α}
    (done : pool.place? item = some (handle, after)) : pool.Stores after handle item := by
  -- The block that takes the item is the first with space, but any one would do.
  simp only [place?, Option.map_eq_some_iff] at done
  obtain ⟨⟨number, index, claimed⟩, found, same⟩ := done
  simp only [Prod.mk.injEq] at same
  obtain ⟨rfl, rfl⟩ := same
  obtain ⟨block, present, -, free, rfl⟩ := claimFirst?_eq_some found
  have contents : ∀ other, ({ pool with
      blocks := pool.blocks.set number ⟨block.chunks.set index (some item), block.used + 1⟩
      stats := pool.stats.acquired } : Pool α).get? other =
      if other = ⟨pool.id, number, index⟩ then some item else pool.get? other :=
    fun other => get?_set (by rfl) present free (by rfl) (by rfl) other
  refine ⟨rfl, rfl, rfl, ?_, ?_, ?_⟩
  · simp [get?_eq, cell?, present, free]
  · rw [contents, if_pos rfl]
  · intro other different
    rw [contents, if_neg different]

/-- A further block changes nothing that is held. -/
theorem get?_grow (pool : Pool α) (handle : Handle) : pool.grow.get? handle = pool.get? handle := by
  -- The new block is behind all others and empty.
  simp [get?_eq, grow, cell?_fresh]

/-- A successful acquisition stores the item and changes nothing else. -/
theorem stores_of_acquire {pool after : Pool α} {handle : Handle} {item : α}
    (done : pool.acquire item = .ok (handle, after)) : pool.Stores after handle item := by
  -- The item is in a block that was there, or in a new one.
  unfold acquire at done
  split at done
  · next placed found =>
    cases done
    exact stores_of_place? found
  · split at done
    · split at done
      · next placed found =>
        -- The block that was added holds nothing before the item is stored.
        cases done
        have stores := stores_of_place? found
        exact ⟨stores.id, stores.limits, stores.inUse, by rw [← get?_grow, stores.free], stores.stored,
          fun other different => by rw [stores.others other different, get?_grow]⟩
      · cases done
    · cases done

/-- An acquisition fails only because the pool is exhausted. -/
theorem acquire_eq_error {pool : Pool α} {item : α} {e : Error} (failed : pool.acquire item = .error e) :
    e = pool.exhausted := by
  -- Both ways to fail report the limits.
  unfold acquire at failed
  split at failed
  · cases failed
  · split at failed
    · split at failed
      · cases failed
      · exact (Except.error.inj failed).symm
    · exact (Except.error.inj failed).symm

/-- A failed acquisition is fatal. -/
theorem isFatal_of_acquire {pool : Pool α} {item : α} {e : Error} (failed : pool.acquire item = .error e) :
    e.isFatal := by
  rw [acquire_eq_error failed]
  rfl

/-- A chunk that holds an item gives it back and is free afterwards. -/
theorem release?_of_get? {pool : Pool α} {handle : Handle} {item : α} (held : pool.get? handle = some item) :
    handle.owner = pool.id ∧ ∃ block, pool.blocks[handle.block]? = some block ∧
      block.chunks[handle.index]? = some (some item) ∧ pool.release? handle = some (item, { pool with
        blocks := pool.blocks.set handle.block ⟨block.chunks.set handle.index none, block.used - 1⟩
        stats := pool.stats.released }) := by
  -- A handle that finds an item belongs to the pool and names a chunk in use.
  rw [get?_eq] at held
  split at held
  · next owned =>
    simp only [cell?, Option.bind_eq_some_iff, Option.join_eq_some_iff] at held
    obtain ⟨block, present, found⟩ := held
    exact ⟨owned, block, present, found, by simp [release?_eq, owned, present, Block.free?, found]⟩
  · cases held

/-- What freeing one chunk changes: its handle finds nothing any more, and one chunk fewer is in use. -/
structure Frees (before after : Pool α) (handle : Handle) : Prop where
  id : after.id = before.id
  limits : after.limits = before.limits
  inUse : after.stats.chunksInUse = before.stats.chunksInUse - 1
  contents : ∀ other, after.get? other = if other = handle then none else before.get? other

/-- A chunk that holds an item gives it back, and no other chunk changes. -/
theorem frees_of_get? {pool : Pool α} {handle : Handle} {item : α} (held : pool.get? handle = some item) :
    ∃ freed, pool.release? handle = some (item, freed) ∧ pool.Frees freed handle := by
  -- Only the contents of the chunk and the counts are set.
  obtain ⟨owned, block, present, found, released⟩ := release?_of_get? held
  exact ⟨_, released, rfl, rfl, rfl, fun other => get?_set owned present found (by rfl) (by rfl) other⟩

/-- A pool that holds what another holds, and besides some items under handles that were free there. -/
structure Holds (before after : Pool α) (held : List (Handle × α)) : Prop where
  id : after.id = before.id
  limits : after.limits = before.limits
  inUse : after.stats.chunksInUse = before.stats.chunksInUse + held.length
  distinct : (held.map (·.1)).Nodup
  free : ∀ pair ∈ held, before.get? pair.1 = none
  stored : ∀ pair ∈ held, after.get? pair.1 = some pair.2
  others : ∀ handle, handle ∉ held.map (·.1) → after.get? handle = before.get? handle

/-- A pool holds what it holds. -/
theorem Holds.refl (pool : Pool α) : pool.Holds pool [] :=
  ⟨rfl, rfl, rfl, by simp, by simp, by simp, fun _ _ => rfl⟩

/-- What is held stays held while the pool keeps its contents. -/
theorem Holds.trans {before middle after : Pool α} {held : List (Handle × α)} (holds : before.Holds middle held)
    (same : middle.Holds after []) : before.Holds after held := by
  -- What is held is found under the same handles later, since no handle changes what it finds.
  have contents : ∀ handle, after.get? handle = middle.get? handle := fun handle => same.others handle (by simp)
  exact ⟨same.id.trans holds.id, same.limits.trans holds.limits, by simpa [holds.inUse] using same.inUse,
    holds.distinct, holds.free, fun pair member => by rw [contents, holds.stored pair member],
    fun handle outside => by rw [contents, holds.others handle outside]⟩

/-- An item stored after the others is held like them. -/
theorem Holds.snoc {before middle after : Pool α} {handle : Handle} {item : α} {held : List (Handle × α)}
    (holds : before.Holds middle held) (stores : middle.Stores after handle item) :
    before.Holds after (held ++ [(handle, item)]) := by
  -- The chunk was free until now, so its handle is none of the earlier ones.
  have fresh : ∀ pair ∈ held, pair.1 ≠ handle := by
    rintro pair member rfl
    have contents := holds.stored pair member
    rw [stores.free] at contents
    cases contents
  have absent : handle ∉ held.map (·.1) := by
    intro member
    obtain ⟨pair, inHeld, same⟩ := List.mem_map.mp member
    exact fresh pair inHeld same
  refine ⟨stores.id.trans holds.id, stores.limits.trans holds.limits, ?_, ?_, ?_, ?_, ?_⟩
  · rw [stores.inUse, holds.inUse, List.length_append, List.length_singleton]
    omega
  · rw [List.map_append, List.nodup_append]
    refine ⟨holds.distinct, by simp, ?_⟩
    rintro one inHeld other last rfl
    simp only [List.map_cons, List.map_nil, List.mem_singleton] at last
    exact absent (last ▸ inHeld)
  · intro pair member
    rcases List.mem_append.mp member with inHeld | last
    · exact holds.free pair inHeld
    · rw [List.mem_singleton.mp last, ← holds.others handle absent, stores.free]
  · intro pair member
    rcases List.mem_append.mp member with inHeld | last
    · rw [stores.others _ (fresh pair inHeld), holds.stored pair inHeld]
    · rw [List.mem_singleton.mp last, stores.stored]
  · intro other outside
    simp only [List.map_append, List.mem_append, List.map_cons, List.map_nil, List.mem_singleton, not_or] at outside
    rw [stores.others other outside.2, holds.others other outside.1]

/-- A single stored item is held. -/
theorem Stores.holds {before after : Pool α} {handle : Handle} {item : α}
    (stores : before.Stores after handle item) : before.Holds after [(handle, item)] :=
  (Holds.refl before).snoc stores

/-- Releasing a held chunk leaves the other items held. -/
theorem Holds.release? {before after : Pool α} {handle : Handle} {item : α} {held : List (Handle × α)}
    (holds : before.Holds after ((handle, item) :: held)) :
    ∃ freed, after.release? handle = some (item, freed) ∧ before.Holds freed held := by
  -- The handle is released as the first of those held, and the others are none of it.
  have stored := holds.stored (handle, item) (by simp)
  obtain ⟨freed, released, frees⟩ := frees_of_get? stored
  have fresh : handle ∉ held.map (·.1) := (List.nodup_cons.mp holds.distinct).1
  refine ⟨freed, released, frees.id.trans holds.id, frees.limits.trans holds.limits, ?_,
    (List.nodup_cons.mp holds.distinct).2, fun pair member => holds.free pair (by simp [member]), ?_, ?_⟩
  · have counted := holds.inUse
    simp only [List.length_cons] at counted
    rw [frees.inUse]
    omega
  · intro pair member
    have other : pair.1 ≠ handle := fun same => fresh (same ▸ List.mem_map_of_mem member)
    rw [frees.contents, if_neg other, holds.stored pair (by simp [member])]
  · intro other outside
    by_cases same : other = handle
    · -- The freed chunk holds nothing again, as it did before.
      subst same
      rw [frees.contents, if_pos rfl, holds.free (other, item) (by simp)]
    · rw [frees.contents, if_neg same, holds.others other (by simpa [same] using outside)]

/-- Releasing all that is held gives back the items in order and leaves the pool as it was. -/
theorem Holds.releaseAll {before after : Pool α} {held : List (Handle × α)} (holds : before.Holds after held) :
    (after.releaseAll (held.map (·.1))).1 = held.map (·.2) ∧
      before.Holds (after.releaseAll (held.map (·.1))).2 [] := by
  -- The handles are released in the order in which the items were stored.
  induction held generalizing after with
  | nil => exact ⟨rfl, holds⟩
  | cons pair rest ih =>
    obtain ⟨freed, released, holds⟩ := Holds.release? holds
    obtain ⟨items, restored⟩ := ih holds
    simp only [List.map_cons, Pool.releaseAll, released]
    exact ⟨by rw [items], restored⟩

end Pool

end QuoteLisp
