import Mathlib.Algebra.Group.Nat.Defs
import QuoteLisp.Proofs.Pool.Capacity

/-! Several pools side by side and the handles they gave: each handle stands for one item until it is used up. -/

namespace QuoteLisp

open scoped List

variable {α : Type}

attribute [ext] Handle

/-- What words of 32 bits keep of a handle. -/
def Handle.inWords (handle : Handle) : Handle :=
  ⟨handle.owner % 2 ^ 32, handle.block % 2 ^ 32, handle.index % 2 ^ 32⟩

/-- Limits for which every block and every chunk of a block has a number of 32 bits. -/
structure PoolLimits.FitWords (limits : PoolLimits) : Prop where
  chunks : limits.chunksPerBlock ≤ 2 ^ 32
  blocks : limits.maxBlocks ≤ 2 ^ 32

/-- A handle with the number of the pool that gave it and the item it was given for. -/
structure Ticket (α : Type) where
  origin : Nat
  handle : Handle
  item : α

/-- Pools in the order of their creation, with the handles that are not used up and those another pool used up. -/
structure Depot (α : Type) where
  pools : List (Pool α) := []
  outstanding : List (Ticket α) := []
  /-- The handles released through a pool that did not give them. -/
  stranded : List (Ticket α) := []

/-- An operation on one of the pools with its answer. -/
inductive PoolEvent (α : Type) where
  | create (limits : PoolLimits)
  | acquire (number : Nat) (item : α) (answer : Except Error Handle)
  | get (number : Nat) (ticket : Ticket α) (answer : Option α)
  | release (number : Nat) (ticket : Ticket α) (answer : Option α)
  | releaseAll (number : Nat) (given : List (Ticket α)) (answer : List α)

namespace PoolEvent

/-- The items that go into a chunk. -/
def stored : PoolEvent α → List α
  | .acquire _ item (.ok _) => [item]
  | _ => []

/-- The items that come back. -/
def handedBack : PoolEvent α → List α
  | .release _ _ answer => answer.toList
  | .releaseAll _ _ answer => answer
  | _ => []

end PoolEvent

namespace Depot

/-- All handles whose items are in their chunks. -/
def tickets (d : Depot α) : List (Ticket α) :=
  d.outstanding ++ d.stranded

/-- One more pool, with a counter of 32 bits as its identity. -/
def create (d : Depot α) (limits : PoolLimits) : Depot α :=
  { d with pools := d.pools ++ [{ id := d.pools.length % 2 ^ 32, limits := limits }] }

/-- A pool after it stored an item, whose handle is new. -/
def store (d : Depot α) (number : Nat) (after : Pool α) (handle : Handle) (item : α) : Depot α :=
  { d with pools := d.pools.set number after, outstanding := ⟨number, handle, item⟩ :: d.outstanding }

/-- A pool after it was given some handles, which are used up. -/
def handIn (d : Depot α) (number : Nat) (after : Pool α) (given kept : List (Ticket α)) : Depot α :=
  ⟨d.pools.set number after, kept, d.stranded ++ given.filter (·.origin ≠ number)⟩

/-- One operation: handles are given out in words of 32 bits, only those not used up can be given to a pool, and
releasing uses them up. There are never more pools than such words can number. -/
inductive Step : Depot α → PoolEvent α → Depot α → Prop where
  | create {d : Depot α} {limits : PoolLimits} (few : d.pools.length < 2 ^ 32) (fit : limits.FitWords) :
      Step d (.create limits) (d.create limits)
  | acquire {d : Depot α} {number : Nat} {pool after : Pool α} {item : α} {handle given : Handle}
      (found : d.pools[number]? = some pool) (done : pool.acquire item = .ok (handle, after))
      (words : handle.inWords = given) : Step d (.acquire number item (.ok given)) (d.store number after given item)
  | refuse {d : Depot α} {number : Nat} {pool : Pool α} {item : α} {e : Error}
      (found : d.pools[number]? = some pool) (failed : pool.acquire item = .error e) :
      Step d (.acquire number item (.error e)) d
  | get {d : Depot α} {number : Nat} {pool : Pool α} {ticket : Ticket α} {answer : Option α}
      (found : d.pools[number]? = some pool) (held : ticket ∈ d.outstanding)
      (done : pool.get? ticket.handle = answer) : Step d (.get number ticket answer) d
  | release {d : Depot α} {number : Nat} {pool freed : Pool α} {ticket : Ticket α} {kept : List (Ticket α)} {item : α}
      (found : d.pools[number]? = some pool) (held : d.outstanding.Perm (ticket :: kept))
      (done : pool.release? ticket.handle = some (item, freed)) :
      Step d (.release number ticket (some item)) (d.handIn number freed [ticket] kept)
  | ignore {d : Depot α} {number : Nat} {pool : Pool α} {ticket : Ticket α} {kept : List (Ticket α)}
      (found : d.pools[number]? = some pool) (held : d.outstanding.Perm (ticket :: kept))
      (failed : pool.release? ticket.handle = none) :
      Step d (.release number ticket none) (d.handIn number pool [ticket] kept)
  | releaseAll {d : Depot α} {number : Nat} {pool freed : Pool α} {given kept : List (Ticket α)} {items : List α}
      (found : d.pools[number]? = some pool) (held : d.outstanding.Perm (given ++ kept))
      (done : pool.releaseAll (given.map (·.handle)) = (items, freed)) :
      Step d (.releaseAll number given items) (d.handIn number freed given kept)

/-- Operations one after another. -/
inductive Run : Depot α → List (PoolEvent α) → Depot α → Prop where
  | done {d : Depot α} : Run d [] d
  | step {d middle after : Depot α} {event : PoolEvent α} {events : List (PoolEvent α)}
      (first : Step d event middle) (rest : Run middle events after) : Run d (event :: events) after

/-- A pool that is known by its number among all pools. -/
structure Numbered (number : Nat) (pool : Pool α) : Prop where
  id : pool.id = number
  valid : pool.Valid
  fit : pool.limits.FitWords

/-- Every pool is known by its number, and every handle finds its item in the pool that gave it. -/
structure Sound (d : Depot α) : Prop where
  few : d.pools.length ≤ 2 ^ 32
  pools : ∀ (number : Nat) (pool : Pool α), d.pools[number]? = some pool → Numbered number pool
  held : ∀ ticket ∈ d.tickets, ∃ pool, d.pools[ticket.origin]? = some pool ∧
    pool.get? ticket.handle = some ticket.item
  distinct : (d.tickets.map (·.handle)).Nodup

/-- The handles not used up are a linear map from chunks to items. -/
structure Linear (d : Depot α) : Prop where
  /-- No two of them stand for one chunk. -/
  distinct : (d.outstanding.map fun ticket => (ticket.origin, ticket.handle.block, ticket.handle.index)).Nodup
  /-- The pool that gave a handle finds its item, gives it back and frees its chunk alone. -/
  own : ∀ ticket ∈ d.outstanding, ∃ pool freed, d.pools[ticket.origin]? = some pool ∧
    pool.get? ticket.handle = some ticket.item ∧ pool.release? ticket.handle = some (ticket.item, freed) ∧
    (∀ other, freed.get? other = if other = ticket.handle then none else pool.get? other) ∧
    freed.stats.chunksInUse + 1 = pool.stats.chunksInUse
  /-- Any other pool refuses it. -/
  foreign : ∀ ticket ∈ d.outstanding, ∀ (number : Nat) (pool : Pool α), d.pools[number]? = some pool →
    number ≠ ticket.origin → pool.get? ticket.handle = none ∧ pool.release? ticket.handle = none
  /-- Releasing it there changes no pool. -/
  strands : ∀ number ticket answer after, Step d (.release number ticket answer) after → number ≠ ticket.origin →
    answer = none ∧ after.pools = d.pools ∧ ticket ∈ after.stranded
  /-- A batch gives back the items of its own handles in order and frees their chunks alone. -/
  batch : ∀ given kept, d.outstanding.Perm (given ++ kept) → ∀ (number : Nat) (pool : Pool α),
    d.pools[number]? = some pool → ∃ freed,
      pool.releaseAll (given.map (·.handle)) = ((given.filter (·.origin = number)).map (·.item), freed) ∧
      ∀ other, freed.get? other = if other ∈ given.map (·.handle) then none else pool.get? other

end Depot

namespace Pool

/-- A handle of another pool finds nothing and releases nothing. -/
theorem refuses_of_owner {pool : Pool α} {handle : Handle} (foreign : handle.owner ≠ pool.id) :
    pool.get? handle = none ∧ pool.release? handle = none := by
  -- Both look at the owner before anything else.
  simp [get?_eq, release?_eq, foreign]

/-- A new handle names the pool that gives it. -/
theorem Stores.owner {pool filled : Pool α} {handle : Handle} {item : α} (stores : pool.Stores filled handle item) :
    handle.owner = pool.id :=
  (release?_of_get? stores.stored).1.trans stores.id

/-- A chunk that holds an item is counted. -/
theorem Valid.inUse_pos {pool : Pool α} {handle : Handle} {item : α} (valid : pool.Valid)
    (held : pool.get? handle = some item) : 0 < pool.stats.chunksInUse := by
  -- The block of the chunk counts it, and the total is not less than the count of one block.
  obtain ⟨-, block, present, found, -⟩ := release?_of_get? held
  have counted := (valid.blocks block (List.mem_of_getElem? present)).used_pos found
  have total := totalUsed_set (⟨[], 0⟩ : Block α) present
  rw [valid.inUse]
  simp only at total
  omega

/-- A chunk that holds an item has numbers within the limits. -/
theorem Valid.place_lt {pool : Pool α} {handle : Handle} {item : α} (valid : pool.Valid)
    (held : pool.get? handle = some item) :
    handle.block < pool.limits.maxBlocks ∧ handle.index < pool.limits.chunksPerBlock := by
  -- There are no more blocks than allowed, and each has the same number of chunks.
  obtain ⟨-, block, present, found, -⟩ := release?_of_get? held
  obtain ⟨inBlocks, -⟩ := List.getElem?_eq_some_iff.mp present
  obtain ⟨inChunks, -⟩ := List.getElem?_eq_some_iff.mp found
  have length := (valid.blocks block (List.mem_of_getElem? present)).length
  have count := valid.count
  omega

/-- A new handle is kept whole by words of 32 bits if these can number the pool, its blocks and their chunks. -/
theorem Valid.inWords {pool filled : Pool α} {handle : Handle} {item : α} (valid : pool.Valid)
    (known : pool.id < 2 ^ 32) (fit : pool.limits.FitWords) (done : pool.acquire item = .ok (handle, filled)) :
    handle.inWords = handle := by
  -- The chunk exists, so each number is below the count of what it numbers.
  have stores := stores_of_acquire done
  obtain ⟨block, index⟩ := (valid.acquire done).place_lt stores.stored
  rw [stores.limits] at block index
  have owner := stores.owner
  have chunks := fit.chunks
  have blocks := fit.blocks
  simp only [Handle.inWords]
  rw [Nat.mod_eq_of_lt (by omega), Nat.mod_eq_of_lt (by omega), Nat.mod_eq_of_lt (by omega)]

/-- A batch gives back the items of the pool's own handles in order and frees their chunks alone. -/
theorem releaseAll_of_held {pool : Pool α} {given : List (Ticket α)} (distinct : (given.map (·.handle)).Nodup)
    (held : ∀ ticket ∈ given, ticket.handle.owner = pool.id → pool.get? ticket.handle = some ticket.item) :
    ∃ freed, pool.releaseAll (given.map (·.handle)) =
        ((given.filter (·.handle.owner = pool.id)).map (·.item), freed) ∧
      freed.id = pool.id ∧ freed.limits = pool.limits ∧
      ∀ other, freed.get? other = if other ∈ given.map (·.handle) then none else pool.get? other := by
  -- Freeing the first chunk touches none of the later ones, since their handles are others.
  induction given generalizing pool with
  | nil => exact ⟨pool, by simp [releaseAll]⟩
  | cons ticket rest ih =>
    obtain ⟨fresh, distinctRest⟩ := List.nodup_cons.mp distinct
    by_cases own : ticket.handle.owner = pool.id
    · obtain ⟨freed, released, frees⟩ := frees_of_get? (held ticket (by simp) own)
      have heldRest : ∀ later ∈ rest, later.handle.owner = freed.id →
          freed.get? later.handle = some later.item := by
        intro later member ownLater
        have other : later.handle ≠ ticket.handle := fun same =>
          fresh (List.mem_map.mpr ⟨later, member, same⟩)
        rw [frees.contents, if_neg other]
        exact held later (by simp [member]) (ownLater.trans frees.id)
      obtain ⟨final, done, sameId, sameLimits, contents⟩ := ih distinctRest heldRest
      refine ⟨final, ?_, sameId.trans frees.id, sameLimits.trans frees.limits, ?_⟩
      · simp [releaseAll, released, done, own, frees.id]
      · intro other
        rw [contents, frees.contents]
        by_cases first : other = ticket.handle <;> simp [first]
    · -- A handle of another pool is passed over, and finds nothing here anyway.
      obtain ⟨nothing, refused⟩ := refuses_of_owner own
      obtain ⟨final, done, sameId, sameLimits, contents⟩ :=
        ih distinctRest fun later member => held later (by simp [member])
      refine ⟨final, ?_, sameId, sameLimits, ?_⟩
      · simp [releaseAll, refused, done, own]
      · intro other
        rw [contents]
        by_cases first : other = ticket.handle <;> simp [first, nothing]

end Pool

namespace Depot

/-- What an operation can do: a new pool, a new handle, nothing, or some handles used up by one pool. -/
theorem Step.inversion {d after : Depot α} {event : PoolEvent α} (step : Step d event after) :
    (event.stored = [] ∧ event.handedBack = [] ∧
      (after = d ∨ ∃ limits, d.pools.length < 2 ^ 32 ∧ limits.FitWords ∧ after = d.create limits)) ∨
    (∃ number pool filled handle item, event = .acquire number item (.ok handle.inWords) ∧
      d.pools[number]? = some pool ∧ pool.acquire item = .ok (handle, filled) ∧
      after = d.store number filled handle.inWords item) ∨
    (event.stored = [] ∧ ∃ number pool freed given kept, d.pools[number]? = some pool ∧
      d.outstanding.Perm (given ++ kept) ∧
      pool.releaseAll (given.map (·.handle)) = (event.handedBack, freed) ∧
      after = d.handIn number freed given kept) := by
  cases step with
  | create few fit => exact .inl ⟨rfl, rfl, .inr ⟨_, few, fit, rfl⟩⟩
  | acquire found done words =>
    subst words
    exact .inr (.inl ⟨_, _, _, _, _, rfl, found, done, rfl⟩)
  | refuse found failed => exact .inl ⟨rfl, rfl, .inl rfl⟩
  | get found held done => exact .inl ⟨rfl, rfl, .inl rfl⟩
  -- A single release is a batch of one.
  | @release number pool freed ticket kept item found held done =>
    exact .inr (.inr ⟨rfl, number, pool, freed, [ticket], kept, found, held,
      by simp [Pool.releaseAll, done, PoolEvent.handedBack], rfl⟩)
  | @ignore number pool ticket kept found held failed =>
    exact .inr (.inr ⟨rfl, number, pool, pool, [ticket], kept, found, held,
      by simp [Pool.releaseAll, failed, PoolEvent.handedBack], rfl⟩)
  | releaseAll found held done => exact .inr (.inr ⟨rfl, _, _, _, _, _, found, held, done, rfl⟩)

/-- The handles of a batch are among all there are. -/
theorem mem_tickets_of_given {d : Depot α} {given kept : List (Ticket α)} (split : d.outstanding.Perm (given ++ kept))
    {ticket : Ticket α} (member : ticket ∈ given) : ticket ∈ d.tickets :=
  List.mem_append_left _ (split.mem_iff.mpr (List.mem_append_left _ member))

/-- The own handles of a batch are gone, and all others are left. -/
theorem tickets_handIn {d : Depot α} {given kept : List (Ticket α)} (split : d.outstanding.Perm (given ++ kept))
    (number : Nat) (after : Pool α) :
    d.tickets.Perm (given.filter (·.origin = number) ++ (d.handIn number after given kept).tickets) := by
  -- The foreign handles of the batch go from the ones not used up to the stranded ones.
  have parts := List.filter_append_perm (fun ticket : Ticket α => decide (ticket.origin = number)) given
  simp only [← decide_not] at parts
  calc d.tickets
      ~ given ++ kept ++ d.stranded := split.append_right d.stranded
    _ ~ given.filter (·.origin = number) ++ given.filter (·.origin ≠ number) ++ kept ++ d.stranded :=
        (parts.symm.append_right kept).append_right d.stranded
    _ = given.filter (·.origin = number) ++ (given.filter (·.origin ≠ number) ++ (kept ++ d.stranded)) := by
        simp only [List.append_assoc]
    _ ~ given.filter (·.origin = number) ++ (kept ++ d.stranded ++ given.filter (·.origin ≠ number)) :=
        List.perm_append_comm.append_left _
    _ = given.filter (·.origin = number) ++ (d.handIn number after given kept).tickets := by
        simp only [tickets, handIn, List.append_assoc]

namespace Sound

/-- The handles of a depot without pools. -/
theorem empty : Sound ({} : Depot α) :=
  ⟨by simp, by simp, by simp [tickets], by simp [tickets]⟩

/-- A handle names the pool that gave it. -/
theorem owner {d : Depot α} (sound : d.Sound) {ticket : Ticket α} (member : ticket ∈ d.tickets) :
    ticket.handle.owner = ticket.origin := by
  -- The pool finds the item, so the handle names it.
  obtain ⟨pool, found, held⟩ := sound.held ticket member
  rw [(Pool.release?_of_get? held).1, (sound.pools _ pool found).id]

/-- A pool finds the item of a handle it gave. -/
theorem get? {d : Depot α} (sound : d.Sound) {ticket : Ticket α} (member : ticket ∈ d.tickets) {pool : Pool α}
    (found : d.pools[ticket.origin]? = some pool) : pool.get? ticket.handle = some ticket.item := by
  -- There is one pool of that number only.
  obtain ⟨other, foundOther, held⟩ := sound.held ticket member
  rw [found] at foundOther
  cases foundOther
  exact held

/-- The handles not used up differ from each other. -/
theorem distinct_outstanding {d : Depot α} (sound : d.Sound) : (d.outstanding.map (·.handle)).Nodup := by
  have all := sound.distinct
  rw [tickets, List.map_append] at all
  exact (List.nodup_append.mp all).1

/-- A new handle is none of those there are. -/
theorem fresh {d : Depot α} (sound : d.Sound) {number : Nat} {pool filled : Pool α} {handle : Handle} {item : α}
    (found : d.pools[number]? = some pool) (stores : pool.Stores filled handle item) :
    ∀ ticket ∈ d.tickets, ticket.handle ≠ handle := by
  -- The chunk would be in use and free at once.
  rintro ticket member rfl
  have origin : ticket.origin = number := by
    rw [← sound.owner member, stores.owner, (sound.pools number pool found).id]
  have held := sound.get? member (origin ▸ found)
  rw [stores.free] at held
  cases held

/-- The pools are still known by their numbers when one is replaced by a later state of it. -/
theorem pools_set {d : Depot α} (sound : d.Sound) {number : Nat} {pool after : Pool α}
    (found : d.pools[number]? = some pool) (sameId : after.id = pool.id) (sameLimits : after.limits = pool.limits)
    (valid : after.Valid) :
    ∀ (other : Nat) (one : Pool α), (d.pools.set number after)[other]? = some one → Numbered other one := by
  -- The new state has the identity and the limits of the old one, and no other pool is touched.
  intro other one foundOne
  by_cases same : other = number
  · subst same
    obtain ⟨inside, -⟩ := List.getElem?_eq_some_iff.mp found
    rw [List.getElem?_set_self inside] at foundOne
    cases foundOne
    have old := sound.pools other pool found
    exact ⟨sameId.trans old.id, valid, sameLimits ▸ old.fit⟩
  · rw [List.getElem?_set_ne (Ne.symm same)] at foundOne
    exact sound.pools other one foundOne

/-- A handle still finds its item when a pool is replaced by one that holds the same under it. -/
theorem held_set {d : Depot α} (sound : d.Sound) {number : Nat} {pool after : Pool α}
    (found : d.pools[number]? = some pool) {ticket : Ticket α} (member : ticket ∈ d.tickets)
    (keeps : ticket.origin = number → after.get? ticket.handle = pool.get? ticket.handle) :
    ∃ one, (d.pools.set number after)[ticket.origin]? = some one ∧ one.get? ticket.handle = some ticket.item := by
  -- Only the handles that the pool itself gave are looked up in it.
  by_cases same : ticket.origin = number
  · obtain ⟨inside, -⟩ := List.getElem?_eq_some_iff.mp found
    refine ⟨after, by rw [same, List.getElem?_set_self inside], ?_⟩
    rw [keeps same, sound.get? member (same ▸ found)]
  · rw [List.getElem?_set_ne (Ne.symm same)]
    exact sound.held ticket member

/-- A new pool holds nothing. -/
theorem create {d : Depot α} (sound : d.Sound) {limits : PoolLimits} (few : d.pools.length < 2 ^ 32)
    (fit : limits.FitWords) : (d.create limits).Sound := by
  -- The new pool is behind all others, so their numbers stay the same.
  refine ⟨?_, ?_, ?_, sound.distinct⟩
  · simp only [Depot.create, List.length_append, List.length_singleton]
    omega
  · intro number pool found
    rcases Nat.lt_trichotomy number d.pools.length with inside | last | beyond
    · simp only [Depot.create, List.getElem?_append_left inside] at found
      exact sound.pools number pool found
    · subst last
      simp only [Depot.create, List.getElem?_concat_length, Option.some.injEq] at found
      subst found
      exact ⟨Nat.mod_eq_of_lt few, Pool.valid_of_no_blocks rfl rfl, fit⟩
    · have outside : (d.create limits).pools.length ≤ number := by simp [Depot.create]; omega
      rw [List.getElem?_eq_none outside] at found
      cases found
  · intro ticket member
    obtain ⟨pool, found, held⟩ := sound.held ticket member
    obtain ⟨inside, -⟩ := List.getElem?_eq_some_iff.mp found
    exact ⟨pool, by simp only [Depot.create, List.getElem?_append_left inside, found], held⟩

/-- A new handle is kept whole by words of 32 bits. -/
theorem inWords {d : Depot α} (sound : d.Sound) {number : Nat} {pool filled : Pool α} {handle : Handle} {item : α}
    (found : d.pools[number]? = some pool) (done : pool.acquire item = .ok (handle, filled)) :
    handle.inWords = handle := by
  -- The identity of the pool is its number, and there are no more pools than words can number.
  have numbered := sound.pools number pool found
  obtain ⟨inside, -⟩ := List.getElem?_eq_some_iff.mp found
  have few := sound.few
  have known : pool.id < 2 ^ 32 := by
    rw [numbered.id]
    omega
  exact numbered.valid.inWords known numbered.fit done

/-- A new handle finds its item, and the others find theirs. -/
theorem store {d : Depot α} (sound : d.Sound) {number : Nat} {pool filled : Pool α} {handle : Handle} {item : α}
    (found : d.pools[number]? = some pool) (done : pool.acquire item = .ok (handle, filled)) :
    (d.store number filled handle.inWords item).Sound := by
  -- The chunk was free, so its handle is a new one and the chunks of the others are not touched.
  rw [sound.inWords found done]
  have stores := Pool.stores_of_acquire done
  have fresh := sound.fresh found stores
  have valid := (sound.pools number pool found).valid.acquire done
  refine ⟨by simpa [Depot.store] using sound.few, sound.pools_set found stores.id stores.limits valid, ?_, ?_⟩
  · intro ticket member
    rcases List.mem_cons.mp member with rfl | old
    · obtain ⟨inside, -⟩ := List.getElem?_eq_some_iff.mp found
      exact ⟨filled, List.getElem?_set_self inside, stores.stored⟩
    · exact sound.held_set found old fun _ => stores.others _ (fresh ticket old)
  · refine List.nodup_cons.mpr ⟨?_, sound.distinct⟩
    intro member
    obtain ⟨ticket, old, same⟩ := List.mem_map.mp member
    exact fresh ticket old same

/-- A batch gives back the items of its own handles in order and frees their chunks alone. -/
theorem batch {d : Depot α} (sound : d.Sound) {number : Nat} {pool : Pool α} {given kept : List (Ticket α)}
    (found : d.pools[number]? = some pool) (split : d.outstanding.Perm (given ++ kept)) :
    ∃ freed, pool.releaseAll (given.map (·.handle)) =
        ((given.filter (·.origin = number)).map (·.item), freed) ∧
      freed.id = pool.id ∧ freed.limits = pool.limits ∧
      ∀ other, freed.get? other = if other ∈ given.map (·.handle) then none else pool.get? other := by
  have distinct : (given.map (·.handle)).Nodup := by
    have all := (split.map (·.handle)).nodup_iff.mp sound.distinct_outstanding
    rw [List.map_append] at all
    exact (List.nodup_append.mp all).1
  -- A handle of the batch belongs to the pool exactly when the pool gave it.
  have own : ∀ ticket ∈ given, ticket.handle.owner = pool.id ↔ ticket.origin = number := by
    intro ticket member
    rw [sound.owner (mem_tickets_of_given split member), (sound.pools number pool found).id]
  have held : ∀ ticket ∈ given, ticket.handle.owner = pool.id → pool.get? ticket.handle = some ticket.item := by
    intro ticket member owned
    exact sound.get? (mem_tickets_of_given split member) ((own ticket member).mp owned ▸ found)
  obtain ⟨freed, done, rest⟩ := Pool.releaseAll_of_held distinct held
  have same : given.filter (·.handle.owner = pool.id) = given.filter (·.origin = number) :=
    List.filter_congr fun ticket member => decide_eq_decide.mpr (own ticket member)
  exact ⟨freed, by rw [done, same], rest⟩

/-- After a batch the handles that are left find their items. -/
theorem handIn {d : Depot α} (sound : d.Sound) {number : Nat} {pool freed : Pool α} {given kept : List (Ticket α)}
    {items : List α} (found : d.pools[number]? = some pool) (split : d.outstanding.Perm (given ++ kept))
    (done : pool.releaseAll (given.map (·.handle)) = (items, freed)) : (d.handIn number freed given kept).Sound := by
  have valid := (sound.pools number pool found).valid.releaseAll (given.map (·.handle))
  obtain ⟨same, released, sameId, sameLimits, contents⟩ := sound.batch found split
  rw [done] at valid released
  cases released
  have parts := tickets_handIn split number freed
  -- Those left are among those there were, and none of them is freed.
  have distinct := (parts.map (·.handle)).nodup_iff.mp sound.distinct
  rw [List.map_append, List.nodup_append] at distinct
  obtain ⟨-, distinctLeft, apart⟩ := distinct
  refine ⟨by simpa [Depot.handIn] using sound.few, sound.pools_set found sameId sameLimits valid, ?_, distinctLeft⟩
  intro ticket left
  have member : ticket ∈ d.tickets := parts.mem_iff.mpr (List.mem_append_right _ left)
  refine sound.held_set found member fun origin => ?_
  rw [contents, if_neg]
  -- A handle of the batch that is the same would be one of the pool's own, and these are gone.
  intro among
  obtain ⟨other, inGiven, same⟩ := List.mem_map.mp among
  have own : other.origin = number := by
    rw [← sound.owner (mem_tickets_of_given split inGiven), same, sound.owner member, origin]
  have inOwn : other ∈ given.filter (·.origin = number) := List.mem_filter.mpr ⟨inGiven, by simp [own]⟩
  exact apart _ (List.mem_map_of_mem inOwn) _ (List.mem_map_of_mem left) same

/-- Any other pool than the one that gave a handle refuses it. -/
theorem foreign {d : Depot α} (sound : d.Sound) {ticket : Ticket α} (member : ticket ∈ d.tickets) {number : Nat}
    {pool : Pool α} (found : d.pools[number]? = some pool) (other : number ≠ ticket.origin) :
    pool.get? ticket.handle = none ∧ pool.release? ticket.handle = none := by
  -- The handle names the pool that gave it.
  refine Pool.refuses_of_owner ?_
  rw [sound.owner member, (sound.pools number pool found).id]
  exact other.symm

/-- Handles that find their items are a linear map. -/
theorem linear {d : Depot α} (sound : d.Sound) : d.Linear where
  distinct := by
    -- Handles differ, and a handle is given by its pool and its place there.
    refine List.pairwise_map.mpr ((List.pairwise_map.mp sound.distinct_outstanding).imp_of_mem ?_)
    intro one other inOne inOther different same
    simp only [Prod.mk.injEq] at same
    obtain ⟨origin, block, index⟩ := same
    have owner : one.handle.owner = other.handle.owner := by
      rw [sound.owner (List.mem_append_left _ inOne), sound.owner (List.mem_append_left _ inOther), origin]
    exact different (Handle.ext owner block index)
  own := by
    intro ticket outstanding
    obtain ⟨pool, found, held⟩ := sound.held ticket (List.mem_append_left _ outstanding)
    obtain ⟨freed, released, frees⟩ := Pool.frees_of_get? held
    have counted := (sound.pools _ pool found).valid.inUse_pos held
    have fewer := frees.inUse
    exact ⟨pool, freed, found, held, released, frees.contents, by omega⟩
  foreign := fun ticket outstanding number pool found other =>
    sound.foreign (List.mem_append_left _ outstanding) found other
  strands := by
    intro number ticket answer after step other
    cases step with
    | release found held done =>
      have outstanding := held.mem_iff.mpr (List.mem_cons_self ..)
      rw [(sound.foreign (List.mem_append_left _ outstanding) found other).2] at done
      cases done
    | ignore found held failed =>
      obtain ⟨inside, rfl⟩ := List.getElem?_eq_some_iff.mp found
      simp [Depot.handIn, Ne.symm other]
  batch := by
    intro given kept split number pool found
    obtain ⟨freed, done, -, -, contents⟩ := sound.batch found split
    exact ⟨freed, done, contents⟩

end Sound

/-- Every operation keeps handles and items together. -/
theorem Step.sound {d after : Depot α} {event : PoolEvent α} (step : Step d event after) (sound : d.Sound) :
    after.Sound := by
  obtain ⟨-, -, rfl | ⟨limits, few, fit, rfl⟩⟩ | ⟨number, pool, filled, handle, item, -, found, done, rfl⟩ |
    ⟨-, number, pool, freed, given, kept, found, split, done, rfl⟩ := step.inversion
  · exact sound
  · exact sound.create few fit
  · exact sound.store found done
  · exact sound.handIn found split done

/-- What goes into the chunks in one operation comes back or stays there. -/
theorem Step.conserves {d after : Depot α} {event : PoolEvent α} (step : Step d event after) (sound : d.Sound) :
    (event.handedBack ++ after.tickets.map (·.item)).Perm (event.stored ++ d.tickets.map (·.item)) := by
  obtain ⟨stored, handedBack, rfl | ⟨limits, -, -, rfl⟩⟩ |
    ⟨number, pool, filled, handle, item, rfl, found, done, rfl⟩ |
    ⟨stored, number, pool, freed, given, kept, found, split, done, rfl⟩ := step.inversion
  · rw [stored, handedBack]
  · rw [stored, handedBack]
    exact .refl _
  · exact .refl _
  · -- The items that come back are those of the handles that are gone.
    obtain ⟨same, released, -⟩ := sound.batch found split
    rw [done, Prod.mk.injEq] at released
    rw [stored, released.1, ← List.map_append]
    exact ((tickets_handIn split number freed).map (·.item)).symm

/-- A stranded item stays where it is, and its chunk is not given out. -/
theorem Step.stranded {d after : Depot α} {event : PoolEvent α} (step : Step d event after) (sound : d.Sound)
    {ticket : Ticket α} (member : ticket ∈ d.stranded) :
    ticket ∈ after.stranded ∧ ∀ number item, event ≠ .acquire number item (.ok ticket.handle) := by
  have inTickets : ticket ∈ d.tickets := List.mem_append_right _ member
  cases step with
  | acquire found done words =>
    refine ⟨member, ?_⟩
    intro number item same
    rw [← words, sound.inWords found done] at same
    cases same
    exact sound.fresh found (Pool.stores_of_acquire done) ticket inTickets rfl
  | create | refuse | get => exact ⟨member, by simp⟩
  | release | ignore | releaseAll => exact ⟨List.mem_append_left _ member, by simp⟩

/-- Every run keeps handles and items together. -/
theorem Run.sound {d after : Depot α} {events : List (PoolEvent α)} (run : Run d events after) (sound : d.Sound) :
    after.Sound := by
  induction run with
  | done => exact sound
  | step first _ ih => exact ih (first.sound sound)

/-- What goes into the chunks in a run comes back or stays there. -/
theorem Run.conserves {d after : Depot α} {events : List (PoolEvent α)} (run : Run d events after)
    (sound : d.Sound) :
    (events.flatMap PoolEvent.handedBack ++ after.tickets.map (·.item)).Perm
      (events.flatMap PoolEvent.stored ++ d.tickets.map (·.item)) := by
  induction run with
  | done => exact .refl _
  | @step d middle after event events first rest ih =>
    have here := first.conserves sound
    have later := ih (first.sound sound)
    calc (event :: events).flatMap PoolEvent.handedBack ++ after.tickets.map (·.item)
        = event.handedBack ++ (events.flatMap PoolEvent.handedBack ++ after.tickets.map (·.item)) := by simp
      _ ~ event.handedBack ++ (events.flatMap PoolEvent.stored ++ middle.tickets.map (·.item)) :=
          later.append_left _
      _ ~ events.flatMap PoolEvent.stored ++ (event.handedBack ++ middle.tickets.map (·.item)) :=
          List.perm_append_comm_assoc _ _ _
      _ ~ events.flatMap PoolEvent.stored ++ (event.stored ++ d.tickets.map (·.item)) := here.append_left _
      _ ~ event.stored ++ (events.flatMap PoolEvent.stored ++ d.tickets.map (·.item)) :=
          List.perm_append_comm_assoc _ _ _
      _ = (event :: events).flatMap PoolEvent.stored ++ d.tickets.map (·.item) := by simp

/-- A stranded item stays where it is in every run, and its chunk is not given out. -/
theorem Run.stranded {d after : Depot α} {events : List (PoolEvent α)} (run : Run d events after) (sound : d.Sound)
    {ticket : Ticket α} (member : ticket ∈ d.stranded) :
    ticket ∈ after.stranded ∧ ∀ number item, .acquire number item (.ok ticket.handle) ∉ events := by
  induction run with
  | done => exact ⟨member, by simp⟩
  | step first _ ih =>
    obtain ⟨here, notNow⟩ := first.stranded sound member
    obtain ⟨stays, notLater⟩ := ih (first.sound sound) here
    refine ⟨stays, ?_⟩
    intro number item given
    rcases List.mem_cons.mp given with now | later
    · exact notNow number item now.symm
    · exact notLater number item later

/-- However the operations on some pools are interleaved, the handles not used up are a linear map, every item that
is stored comes back once at most and unchanged, and the item of a handle that another pool used up stays in its chunk
for good. -/
theorem handles_linear {events : List (PoolEvent α)} {d : Depot α} (run : Run {} events d) :
    d.Linear ∧
      (events.flatMap PoolEvent.handedBack ++ d.tickets.map (·.item)).Perm (events.flatMap PoolEvent.stored) ∧
      ∀ ticket ∈ d.stranded, ∀ later after, Run d later after →
        (∃ pool, after.pools[ticket.origin]? = some pool ∧ pool.get? ticket.handle = some ticket.item) ∧
        ∀ number item, .acquire number item (.ok ticket.handle) ∉ later := by
  -- Everything follows from what one operation keeps, since at the start there is no handle at all.
  have sound := run.sound Sound.empty
  refine ⟨sound.linear, ?_, ?_⟩
  · simpa [tickets] using run.conserves Sound.empty
  · intro ticket stranded later after further
    obtain ⟨stays, never⟩ := further.stranded sound stranded
    exact ⟨(further.sound sound).held ticket (List.mem_append_right _ stays), never⟩

/-- Two pools of one size, where the first is given a handle of the second, alone and in a batch. -/
theorem handles_linear_foreign : ∃ d : Depot Nat, Run {}
    [.create ⟨2, 1⟩, .create ⟨2, 1⟩, .acquire 0 7 (.ok ⟨0, 0, 0⟩), .acquire 1 8 (.ok ⟨1, 0, 0⟩),
      .get 0 ⟨1, ⟨1, 0, 0⟩, 8⟩ none, .release 0 ⟨1, ⟨1, 0, 0⟩, 8⟩ none, .acquire 1 9 (.ok ⟨1, 0, 1⟩),
      .releaseAll 0 [⟨0, ⟨0, 0, 0⟩, 7⟩, ⟨1, ⟨1, 0, 1⟩, 9⟩] [7]] d ∧
    d.stranded.map (·.item) = [8, 9] ∧ d.Linear := by
  refine ⟨⟨[⟨0, ⟨2, 1⟩, [⟨[none, none], 0⟩], ⟨1, 0, 1, 1⟩⟩, ⟨1, ⟨2, 1⟩, [⟨[some 8, some 9], 2⟩], ⟨1, 2, 2, 2⟩⟩], [],
    [⟨1, ⟨1, 0, 0⟩, 8⟩, ⟨1, ⟨1, 0, 1⟩, 9⟩]⟩, ?run, rfl, (handles_linear ?run).1⟩
  have fit : (⟨2, 1⟩ : PoolLimits).FitWords := ⟨by decide, by decide⟩
  exact .step (.create (by decide) fit) (.step (.create (by decide) fit) (.step (.acquire rfl rfl rfl)
    (.step (.acquire rfl rfl rfl) (.step (.get rfl (List.mem_cons_self ..) rfl) (.step (.ignore rfl (.refl _) rfl)
    (.step (.acquire rfl rfl rfl) (.step (.releaseAll rfl (.swap _ _ []) rfl) .done)))))))

end Depot

end QuoteLisp
