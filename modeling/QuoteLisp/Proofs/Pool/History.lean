import Mathlib.Algebra.Ring.Nat
import QuoteLisp.Proofs.Pool.Handles

/-! Calls on one pool, one after another and with any handles: each is made of acquisitions and releases of single
chunks, so what these keep is kept by all calls. -/

namespace QuoteLisp

variable {α : Type}

/-- What can be asked of a pool. A handle may be one of its own, one of another pool, or one that is used up. -/
inductive PoolCall (α : Type) where
  | acquire (item : α)
  | get (handle : Handle)
  | release (handle : Handle)
  | releaseAll (handles : List Handle)

/-- What a pool answers. -/
inductive PoolReply (α : Type) where
  | acquired (answer : Except Error Handle)
  | found (answer : Option α)
  | released (answer : Option α)
  | releasedAll (items : List α)

namespace PoolReply

/-- How many items went into a chunk. -/
def stored : PoolReply α → Nat
  | acquired (.ok _) => 1
  | _ => 0

/-- How many items came out of their chunks. -/
def freed : PoolReply α → Nat
  | released (some _) => 1
  | releasedAll items => items.length
  | _ => 0

end PoolReply

namespace Pool

/-- The answer to a call, with handles in words of 32 bits, and the pool after it. -/
def perform (pool : Pool α) : PoolCall α → PoolReply α × Pool α
  | .acquire item =>
    match pool.acquire item with
    | .ok (handle, after) => (.acquired (.ok handle.inWords), after)
    | .error e => (.acquired (.error e), pool)
  | .get handle => (.found (pool.get? handle), pool)
  | .release handle =>
    match pool.release? handle with
    | some (item, after) => (.released (some item), after)
    | none => (.released none, pool)
  | .releaseAll handles =>
    let (items, after) := pool.releaseAll handles
    (.releasedAll items, after)

/-- The pool after some calls. -/
def after (pool : Pool α) (calls : List (PoolCall α)) : Pool α :=
  calls.foldl (fun pool call => (pool.perform call).2) pool

/-- The answers to some calls. -/
def replies (pool : Pool α) : List (PoolCall α) → List (PoolReply α)
  | [] => []
  | call :: rest => (pool.perform call).1 :: (pool.perform call).2.replies rest

/-- How many items some calls put into chunks. -/
def storedBy (pool : Pool α) (calls : List (PoolCall α)) : Nat :=
  ((pool.replies calls).map PoolReply.stored).sum

/-- How many items some calls took out of chunks. -/
def freedBy (pool : Pool α) (calls : List (PoolCall α)) : Nat :=
  ((pool.replies calls).map PoolReply.freed).sum

@[simp] theorem after_nil (pool : Pool α) : pool.after [] = pool := rfl

@[simp] theorem after_cons (pool : Pool α) (call : PoolCall α) (rest : List (PoolCall α)) :
    pool.after (call :: rest) = (pool.perform call).2.after rest := rfl

theorem after_append (pool : Pool α) (calls more : List (PoolCall α)) :
    pool.after (calls ++ more) = (pool.after calls).after more := by
  simp [after]

/-- A free chunk, given by the number of its block and its index there. -/
def IsFree (pool : Pool α) (number index : Nat) : Prop :=
  ∃ block, pool.blocks[number]? = some block ∧ block.chunks[index]? = some none

/-- The pool with an item in one more chunk, which the block of the chunk and the pool itself count. -/
def fill (pool : Pool α) (number index : Nat) (item : α) : Pool α :=
  { pool with
    blocks := pool.blocks.modify number fun block => ⟨block.chunks.set index (some item), block.used + 1⟩
    stats := pool.stats.acquired }

/-- Storing in the blocks there are fills a free chunk. -/
theorem place?_eq_some {pool filled : Pool α} {handle : Handle} {item : α}
    (done : pool.place? item = some (handle, filled)) :
    ∃ number index, claimFirst? pool.limits.chunksPerBlock item pool.blocks = some (number, index, filled.blocks) ∧
      pool.IsFree number index ∧ handle = ⟨pool.id, number, index⟩ ∧ filled = pool.fill number index item := by
  simp only [place?, Option.map_eq_some_iff] at done
  obtain ⟨⟨number, index, claimed⟩, found, same⟩ := done
  simp only [Prod.mk.injEq] at same
  obtain ⟨rfl, rfl⟩ := same
  obtain ⟨block, present, -, free, rfl⟩ := claimFirst?_eq_some found
  refine ⟨number, index, found, ⟨block, present, free⟩, rfl, ?_⟩
  -- Only the block of the chunk is another one.
  obtain ⟨inside, rfl⟩ := List.getElem?_eq_some_iff.mp present
  simp [fill, List.modify_eq_take_cons_drop inside, List.set_eq_take_append_cons_drop, inside]

/-- An acquisition uses the blocks there are, or else a new one. -/
theorem acquire_eq_ok {pool filled : Pool α} {handle : Handle} {item : α}
    (done : pool.acquire item = .ok (handle, filled)) :
    pool.place? item = some (handle, filled) ∨
      pool.place? item = none ∧ pool.canGrow ∧ pool.grow.place? item = some (handle, filled) := by
  unfold acquire at done
  split at done
  · next found =>
    cases done
    exact .inl found
  · next full =>
    split at done
    · next allowed =>
      split at done
      · next found =>
        cases done
        exact .inr ⟨full, allowed, found⟩
      · cases done
    · cases done

/-- A release empties a chunk that was in use. -/
theorem release?_eq_some {pool freed : Pool α} {handle : Handle} {item : α}
    (done : pool.release? handle = some (item, freed)) :
    ∃ block, pool.blocks[handle.block]? = some block ∧ block.chunks[handle.index]? = some (some item) ∧
      freed = { pool with
        blocks := pool.blocks.set handle.block ⟨block.chunks.set handle.index none, block.used - 1⟩
        stats := pool.stats.released } := by
  obtain ⟨-, block, present, held, released⟩ := release?_of_get? (get?_of_release? done)
  rw [released] at done
  cases done
  exact ⟨block, present, held, rfl⟩

/-- A batch is its releases one after another. -/
theorem releaseAll_eq_after (pool : Pool α) (handles : List Handle) :
    (pool.releaseAll handles).2 = pool.after (handles.map .release) := by
  induction handles generalizing pool with
  | nil => rfl
  | cons handle rest ih =>
    simp only [releaseAll, List.map_cons, after_cons, perform]
    cases pool.release? handle with
    | some released => exact ih released.2
    | none => exact ih pool

/-- What holds of a pool with the numbers of items stored and freed so far, and stays so when one more is stored or
freed, stays so in every call. -/
theorem perform_induction {motive : Pool α → Nat → Nat → Prop}
    (acquire : ∀ {pool filled : Pool α} {handle : Handle} {item : α} {stored freed : Nat}, motive pool stored freed →
      pool.acquire item = .ok (handle, filled) → motive filled (stored + 1) freed)
    (release : ∀ {pool left : Pool α} {handle : Handle} {item : α} {stored freed : Nat}, motive pool stored freed →
      pool.release? handle = some (item, left) → motive left stored (freed + 1))
    {pool : Pool α} {stored freed : Nat} (start : motive pool stored freed) (call : PoolCall α) :
    motive (pool.perform call).2 (stored + (pool.perform call).1.stored) (freed + (pool.perform call).1.freed) := by
  cases call with
  | acquire item =>
    cases done : pool.acquire item with
    | ok placed => simpa [perform, done, PoolReply.stored, PoolReply.freed] using acquire start done
    | error e => simpa [perform, done, PoolReply.stored, PoolReply.freed] using start
  | get handle => exact start
  | release handle =>
    cases done : pool.release? handle with
    | some released => simpa [perform, done, PoolReply.stored, PoolReply.freed] using release start done
    | none => simpa [perform, done, PoolReply.stored, PoolReply.freed] using start
  | releaseAll handles =>
    -- The chunks of a batch are freed one by one, and handles that free nothing are passed over.
    simp only [perform, PoolReply.stored, PoolReply.freed, Nat.add_zero]
    induction handles generalizing pool freed with
    | nil => exact start
    | cons handle rest ih =>
      simp only [releaseAll]
      cases done : pool.release? handle with
      | some released =>
        simpa [Nat.add_assoc, Nat.add_comm 1] using ih (release start done)
      | none => exact ih start

/-- And so it does in all calls. -/
theorem after_induction {motive : Pool α → Nat → Nat → Prop}
    (acquire : ∀ {pool filled : Pool α} {handle : Handle} {item : α} {stored freed : Nat}, motive pool stored freed →
      pool.acquire item = .ok (handle, filled) → motive filled (stored + 1) freed)
    (release : ∀ {pool left : Pool α} {handle : Handle} {item : α} {stored freed : Nat}, motive pool stored freed →
      pool.release? handle = some (item, left) → motive left stored (freed + 1))
    {pool : Pool α} (stored freed : Nat) (start : motive pool stored freed) (calls : List (PoolCall α)) :
    motive (pool.after calls) (stored + pool.storedBy calls) (freed + pool.freedBy calls) := by
  induction calls generalizing pool stored freed with
  | nil => simpa [storedBy, freedBy, replies] using start
  | cons call rest ih =>
    have later := ih _ _ (perform_induction (motive := motive) acquire release start call)
    simpa [storedBy, freedBy, replies, Nat.add_assoc] using later

/-- No calls make a pool invalid, and its identity and limits stay as they were given. -/
theorem valid_after {pool : Pool α} (valid : pool.Valid) (calls : List (PoolCall α)) :
    (pool.after calls).Valid ∧ (pool.after calls).id = pool.id ∧ (pool.after calls).limits = pool.limits := by
  refine after_induction (motive := fun later _ _ => later.Valid ∧ later.id = pool.id ∧ later.limits = pool.limits)
    ?_ ?_ 0 0 ⟨valid, rfl, rfl⟩ calls
  · rintro before filled handle item - - ⟨valid, sameId, sameLimits⟩ done
    have stores := stores_of_acquire done
    exact ⟨valid.acquire done, stores.id.trans sameId, stores.limits.trans sameLimits⟩
  · rintro before left handle item - - ⟨valid, sameId, sameLimits⟩ done
    obtain ⟨block, -, -, rfl⟩ := release?_eq_some done
    exact ⟨valid.release? done, sameId, sameLimits⟩

end Pool

end QuoteLisp
