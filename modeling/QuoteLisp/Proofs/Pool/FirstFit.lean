import Mathlib.Data.Prod.Lex
import Mathlib.Data.Set.Basic
import Mathlib.Order.Bounds.Defs
import QuoteLisp.Proofs.Pool.History

/-! An acquisition takes the first free chunk, makes a block only when there is none, and fails only when the pool is
full. -/

namespace QuoteLisp

variable {α : Type}

namespace Block

/-- The scan passes over no free chunk. -/
theorem fill?_first {item : α} {chunks filled : List (Option α)} {index other : Nat}
    (done : fill? item chunks = some (index, filled)) (free : chunks[other]? = some none) : index ≤ other := by
  induction chunks generalizing index filled other with
  | nil => simp [fill?] at done
  | cons chunk rest ih =>
    cases chunk with
    | none =>
      simp only [fill?, Option.some.injEq, Prod.mk.injEq] at done
      omega
    | some held =>
      simp only [fill?, Option.map_eq_some_iff] at done
      obtain ⟨⟨later, more⟩, found, same⟩ := done
      simp only [Prod.mk.injEq] at same
      -- The chunk at hand is in use, so the free one is among those behind it.
      cases other with
      | zero => simp at free
      | succ other =>
        have behind := ih found (by simpa using free)
        omega

/-- A block that refuses an item has no free chunk. -/
theorem Valid.no_free {size index : Nat} {block : Block α} {item : α} (valid : block.Valid size)
    (refused : block.claim? size item = none) : block.chunks[index]? ≠ some none := by
  -- As many chunks are in use as there are.
  intro free
  have full : block.used = size := valid.claim?_eq_none.mp refused
  rw [valid.used, ← valid.length, List.countP_eq_length] at full
  exact absurd (full none (List.mem_of_getElem? free)) (by simp)

end Block

namespace Pool

/-- The free chunks in the order of their blocks and, within a block, of their indices. -/
def freePlaces (pool : Pool α) : Set (Nat ×ₗ Nat) :=
  {place | pool.IsFree (ofLex place).1 (ofLex place).2}

/-- How many chunks of a pool hold an item. -/
def occupied (pool : Pool α) : Nat :=
  (pool.blocks.flatMap (·.chunks)).countP (·.isSome)

/-- The search for a chunk, round by round: each goes through the blocks there are, and one that finds no chunk ends
the search with a failure or adds a block and begins again. The number is that of the blocks added. -/
inductive Search (item : α) : Pool α → Nat → Except Error Handle → Pool α → Prop where
  | found {pool filled : Pool α} {handle : Handle} (placed : pool.place? item = some (handle, filled)) :
    Search item pool 0 (.ok handle.inWords) filled
  | refused {pool : Pool α} (nowhere : pool.place? item = none) (stuck : ¬ pool.canGrow) :
    Search item pool 0 (.error pool.exhausted) pool
  | again {pool final : Pool α} {added : Nat} {answer : Except Error Handle} (nowhere : pool.place? item = none)
    (allowed : pool.canGrow) (further : Search item pool.grow added answer final) :
    Search item pool (added + 1) answer final

/-- How a pool stores an item. -/
structure FirstFit (pool : Pool α) (item : α) : Prop where
  /-- The search ends, after one new block at most, and in nothing but what the pool answers. -/
  search : ∃ added answer final, added ≤ 1 ∧ pool.perform (.acquire item) = (.acquired answer, final) ∧
    ∀ added' answer' final', Search item pool added' answer' final' ↔
      added' = added ∧ answer' = answer ∧ final' = final
  /-- Of the free chunks the first one is filled, and nothing else changes. -/
  free : pool.freePlaces.Nonempty → ∃ number index, IsLeast pool.freePlaces (toLex (number, index)) ∧
    pool.perform (.acquire item) = (.acquired (.ok ⟨pool.id, number, index⟩), pool.fill number index item)
  /-- Without one, a block is added if the limits allow it, and its first chunk is filled. -/
  full : pool.freePlaces = ∅ → pool.blocks.length < pool.limits.maxBlocks → 0 < pool.limits.chunksPerBlock →
    pool.perform (.acquire item) =
      (.acquired (.ok ⟨pool.id, pool.blocks.length, 0⟩), pool.grow.fill pool.blocks.length 0 item)
  /-- And else the item is refused, and the pool is as it was. -/
  stuck : pool.freePlaces = ∅ → ¬ (pool.blocks.length < pool.limits.maxBlocks ∧ 0 < pool.limits.chunksPerBlock) →
    pool.perform (.acquire item) =
      (.acquired (.error (.poolExhausted pool.limits.maxBlocks pool.limits.chunksPerBlock)), pool)
  /-- Only the number of chunks in use decides whether the item is refused. -/
  refused : (∃ e, (pool.perform (.acquire item)).1 = .acquired (.error e)) ↔
    pool.occupied = pool.limits.chunksPerBlock * pool.limits.maxBlocks

/-- The search goes one way only. -/
theorem Search.unique {item : α} {pool final final' : Pool α} {added added' : Nat} {answer answer' : Except Error Handle}
    (one : Search item pool added answer final) (other : Search item pool added' answer' final') :
    added' = added ∧ answer' = answer ∧ final' = final := by
  induction one generalizing added' with
  | found placed =>
    cases other with
    | found placed' =>
      rw [placed] at placed'
      cases placed'
      exact ⟨rfl, rfl, rfl⟩
    | refused nowhere | again nowhere => simp [placed] at nowhere
  | refused nowhere stuck =>
    cases other with
    | found placed => simp [nowhere] at placed
    | refused => exact ⟨rfl, rfl, rfl⟩
    | again _ allowed => exact absurd allowed stuck
  | again nowhere allowed _ ih =>
    cases other with
    | found placed => simp [nowhere] at placed
    | refused _ stuck => exact absurd allowed stuck
    | again _ _ further =>
      obtain ⟨rfl, same⟩ := ih further
      exact ⟨rfl, same⟩

/-- The blocks before the one that takes an item are full, and so are its chunks before the one that is taken. -/
theorem claimFirst?_first {size number index : Nat} {item : α} {blocks claimed : List (Block α)}
    (valid : ∀ block ∈ blocks, block.Valid size) (done : claimFirst? size item blocks = some (number, index, claimed))
    {number' index' : Nat} {block : Block α} (present : blocks[number']? = some block)
    (free : block.chunks[index']? = some none) : number < number' ∨ number = number' ∧ index ≤ index' := by
  induction blocks generalizing number claimed number' with
  | nil => simp [claimFirst?] at done
  | cons first rest ih =>
    unfold claimFirst? at done
    split at done
    · next place filled found =>
      simp only [Option.some.injEq, Prod.mk.injEq] at done
      obtain ⟨rfl, rfl, -⟩ := done
      cases number' with
      | zero =>
        simp only [List.getElem?_cons_zero, Option.some.injEq] at present
        subst present
        unfold Block.claim? at found
        split at found
        · obtain ⟨⟨_, chunks⟩, filled, same⟩ := Option.map_eq_some_iff.mp found
          cases same
          exact .inr ⟨rfl, Block.fill?_first filled free⟩
        · cases found
      | succ number' => exact .inl (Nat.succ_pos number')
    · next refused =>
      obtain ⟨⟨later, place, more⟩, found, same⟩ := Option.map_eq_some_iff.mp done
      cases same
      cases number' with
      | zero =>
        simp only [List.getElem?_cons_zero, Option.some.injEq] at present
        subst present
        exact absurd free ((valid first (by simp)).no_free refused)
      | succ number' =>
        have behind := ih (fun block member => valid block (by simp [member])) found (by simpa using present)
        omega

/-- Where no block takes an item, no chunk is free. -/
theorem no_free_of_claimFirst? {size : Nat} {item : α} {blocks : List (Block α)}
    (valid : ∀ block ∈ blocks, block.Valid size) (failed : claimFirst? size item blocks = none) {number index : Nat}
    {block : Block α} (present : blocks[number]? = some block) : block.chunks[index]? ≠ some none := by
  induction blocks generalizing number with
  | nil => simp at present
  | cons first rest ih =>
    unfold claimFirst? at failed
    split at failed
    · cases failed
    · next refused =>
      cases number with
      | zero =>
        simp only [List.getElem?_cons_zero, Option.some.injEq] at present
        subst present
        exact (valid first (by simp)).no_free refused
      | succ number =>
        exact ih (fun block member => valid block (by simp [member])) (Option.map_eq_none_iff.mp failed)
          (by simpa using present)

/-- Where no chunk is free, nothing is stored in the blocks there are. -/
theorem place?_of_full {pool : Pool α} (full : pool.freePlaces = ∅) (item : α) : pool.place? item = none := by
  cases placed : pool.place? item with
  | none => rfl
  | some stored =>
    obtain ⟨number, index, -, isFree, -⟩ := place?_eq_some placed
    exact absurd isFree (Set.eq_empty_iff_forall_notMem.mp full (toLex (number, index)))

/-- The free chunks of a full pool with one more block are the chunks of that block. -/
theorem isFree_grow {pool : Pool α} (full : pool.freePlaces = ∅) {number index : Nat} :
    pool.grow.IsFree number index ↔ number = pool.blocks.length ∧ index < pool.limits.chunksPerBlock := by
  rcases Nat.lt_trichotomy number pool.blocks.length with inside | rfl | beyond
  · -- The old blocks are as they were.
    have none : ¬ pool.IsFree number index :=
      Set.eq_empty_iff_forall_notMem.mp full (toLex (number, index))
    have same : pool.grow.IsFree number index ↔ pool.IsFree number index := by
      simp [IsFree, grow, List.getElem?_append_left inside]
    exact ⟨fun isFree => absurd (same.mp isFree) none, by omega⟩
  · simp [IsFree, grow, Block.fresh, List.getElem?_replicate]
  · have absent : (pool.grow.blocks)[number]? = none := by simp [grow]; omega
    simp only [IsFree, absent]
    exact ⟨by simp, by omega⟩

namespace Valid

variable {pool : Pool α}

/-- As many chunks are in use as the pool counts. -/
theorem occupied_eq (valid : pool.Valid) : pool.occupied = pool.stats.chunksInUse := by
  rw [valid.inUse, occupied]
  have right := valid.blocks
  generalize pool.blocks = blocks at right
  induction blocks with
  | nil => rfl
  | cons block rest ih =>
    have here := (right block (by simp)).used
    have later := ih fun other member => right other (by simp [member])
    simp only [List.flatMap_cons, List.countP_append, Block.totalUsed, here, later]

/-- An item is stored in the first free chunk there is. -/
theorem place?_of_free (valid : pool.Valid) (free : pool.freePlaces.Nonempty) (item : α) :
    ∃ number index, IsLeast pool.freePlaces (toLex (number, index)) ∧
      pool.place? item = some (⟨pool.id, number, index⟩, pool.fill number index item) := by
  cases placed : pool.place? item with
  | none =>
    obtain ⟨place, block, present, unused⟩ := free
    exact absurd unused (no_free_of_claimFirst? valid.blocks (Option.map_eq_none_iff.mp placed) present)
  | some stored =>
    obtain ⟨number, index, found, isFree, sameHandle, samePool⟩ := place?_eq_some placed
    refine ⟨number, index, ⟨isFree, ?_⟩, by rw [← sameHandle, ← samePool]⟩
    rintro place ⟨block, present, unused⟩
    exact Prod.Lex.le_iff.mpr (claimFirst?_first valid.blocks found present unused)

/-- A new block of a full pool takes an item in its first chunk. -/
theorem place?_grow (valid : pool.Valid) (full : pool.freePlaces = ∅) (allowed : pool.canGrow) (item : α) :
    pool.grow.place? item =
      some (⟨pool.id, pool.blocks.length, 0⟩, pool.grow.fill pool.blocks.length 0 item) := by
  have chunks : 0 < pool.limits.chunksPerBlock := by
    simp only [canGrow, Bool.and_eq_true, bne_iff_ne] at allowed
    omega
  have first : toLex (pool.blocks.length, 0) ∈ pool.grow.freePlaces := (isFree_grow full).mpr ⟨rfl, chunks⟩
  obtain ⟨number, index, ⟨isFree, least⟩, placed⟩ := (valid.grow allowed).place?_of_free ⟨_, first⟩ item
  -- Nothing is free before the new block, and nothing in it before its first chunk.
  obtain ⟨rfl, -⟩ := (isFree_grow full).mp isFree
  obtain rfl : index = 0 := by
    have before := Prod.Lex.toLex_le_toLex.mp (least first)
    omega
  exact placed

end Valid

section

variable {pool filled : Pool α} {handle : Handle} {item : α}

/-- An item that finds a chunk in the blocks there are is stored there. -/
theorem acquire_of_place? (placed : pool.place? item = some (handle, filled)) :
    pool.acquire item = .ok (handle, filled) := by
  simp [acquire, placed]

/-- An item that finds none is stored in a new block where one is allowed. -/
theorem acquire_of_canGrow (nowhere : pool.place? item = none) (allowed : pool.canGrow)
    (placed : pool.grow.place? item = some (handle, filled)) : pool.acquire item = .ok (handle, filled) := by
  simp [acquire, nowhere, allowed, placed]

/-- And else it is refused. -/
theorem acquire_of_not_canGrow (nowhere : pool.place? item = none) (stuck : ¬ pool.canGrow) :
    pool.acquire item = .error pool.exhausted := by
  simp [acquire, nowhere, stuck]

end

namespace Valid

variable {pool : Pool α}

/-- The search ends after one new block at most, and the pool answers what it finds. -/
theorem search (valid : pool.Valid) (item : α) :
    ∃ added answer final, added ≤ 1 ∧ pool.perform (.acquire item) = (.acquired answer, final) ∧
      Search item pool added answer final := by
  by_cases free : pool.freePlaces.Nonempty
  · obtain ⟨number, index, -, placed⟩ := valid.place?_of_free free item
    exact ⟨0, _, _, Nat.zero_le 1, by simp [Pool.perform, acquire_of_place? placed], .found placed⟩
  · have full : pool.freePlaces = ∅ := Set.not_nonempty_iff_eq_empty.mp free
    have nowhere := place?_of_full full item
    by_cases allowed : pool.canGrow
    · -- The new block has a free chunk, so the second round is the last one.
      have placed := valid.place?_grow full allowed item
      exact ⟨1, _, _, Nat.le_refl 1, by simp [Pool.perform, acquire_of_canGrow nowhere allowed placed],
        .again nowhere allowed (.found placed)⟩
    · exact ⟨0, _, _, Nat.zero_le 1, by simp [Pool.perform, acquire_of_not_canGrow nowhere allowed],
        .refused nowhere allowed⟩

/-- An item is refused exactly when as many chunks are in use as the limits allow. -/
theorem refuses_iff (valid : pool.Valid) (item : α) :
    (∃ e, (pool.perform (.acquire item)).1 = .acquired (.error e)) ↔
      pool.occupied = pool.limits.chunksPerBlock * pool.limits.maxBlocks := by
  rw [valid.occupied_eq]
  change _ ↔ pool.stats.chunksInUse = pool.limits.capacity
  rcases valid.acquire_cases item with ⟨fits, handle, filled, done, -, -⟩ | ⟨full, failed⟩
  · simp [Pool.perform, done, Nat.ne_of_lt fits]
  · simp [Pool.perform, failed, full]

end Valid

/-- Whatever has been asked of a pool before, and with whatever handles, it stores an item in its first free chunk; in a
new block only if no chunk is free; and it refuses the item only if all chunks that the limits allow are in use. -/
theorem acquisition_is_first_fit (id : Nat) (limits : PoolLimits) (known : id < 2 ^ 32) (fit : limits.FitWords)
    (calls : List (PoolCall α)) (item : α) :
    let pool := ({ id := id, limits := limits } : Pool α).after calls
    pool.id = id ∧ pool.limits = limits ∧ pool.FirstFit item := by
  intro pool
  have facts : pool.Valid ∧ pool.id = id ∧ pool.limits = limits := valid_after (valid_of_no_blocks rfl rfl) calls
  clear_value pool
  obtain ⟨valid, rfl, rfl⟩ := facts
  -- A handle that is given out names its chunk in words of 32 bits.
  have answer : ∀ {handle filled}, pool.acquire item = .ok (handle, filled) →
      pool.perform (.acquire item) = (.acquired (.ok handle), filled) := fun done => by
    simp [perform, done, valid.inWords known fit done]
  refine ⟨rfl, rfl, ?_, fun free => ?_, fun full blocks chunks => ?_, fun full stuck => ?_, valid.refuses_iff item⟩
  · obtain ⟨added, found, final, few, performed, search⟩ := valid.search item
    refine ⟨added, found, final, few, performed, fun added' answer' final' => ⟨search.unique, ?_⟩⟩
    rintro ⟨rfl, rfl, rfl⟩
    exact search
  · obtain ⟨number, index, least, placed⟩ := valid.place?_of_free free item
    exact ⟨number, index, least, answer (acquire_of_place? placed)⟩
  · have allowed : pool.canGrow := by simpa [canGrow, Nat.pos_iff_ne_zero] using And.intro blocks chunks.ne'
    exact answer (acquire_of_canGrow (place?_of_full full item) allowed (valid.place?_grow full allowed item))
  · have forbidden : ¬ pool.canGrow := by simpa [canGrow, Nat.pos_iff_ne_zero] using stuck
    simp [perform, acquire_of_not_canGrow (place?_of_full full item) forbidden, exhausted]

/-- A chunk of the first block is freed and filled again, though the second block has a free one as well; and the fifth
item is refused. -/
theorem acquisition_is_first_fit_reused :
    let pool := ({ id := 5, limits := ⟨2, 2⟩ } : Pool Nat).after
      [.acquire 10, .acquire 11, .acquire 12, .release ⟨5, 0, 1⟩, .release ⟨9, 0, 0⟩, .acquire 13, .acquire 14]
    pool.blocks.map (·.chunks) = [[some 10, some 13], [some 12, some 14]] ∧ pool.FirstFit 15 ∧
      ∃ e, (pool.perform (.acquire 15)).1 = .acquired (.error e) := by
  intro pool
  have fit : (⟨2, 2⟩ : PoolLimits).FitWords := ⟨by decide, by decide⟩
  obtain ⟨-, -, first⟩ := acquisition_is_first_fit 5 ⟨2, 2⟩ (by decide) fit
    [.acquire 10, .acquire 11, .acquire 12, .release ⟨5, 0, 1⟩, .release ⟨9, 0, 0⟩, .acquire 13, .acquire 14] 15
  exact ⟨by decide, first, first.refused.mpr (by decide)⟩

end Pool

end QuoteLisp
