import QuoteLisp.Proofs.Eval.Operands
import QuoteLisp.Proofs.Session.Request

/-! Evaluation under supervision: at every level, something is looked at before and after each reduction, and where it is
not as it should be, another thing happens instead. What single steps keep is found to hold everywhere on the way, so
nobody ever steps in. -/

namespace QuoteLisp

variable {H ι : Type}

namespace Likeness

variable {invariant : ι → State H → Prop} {part result : Value H → Prop} {m : Machine H} {reduce reduce' : Reducer H}

/-- What storing and freeing must do to keep an invariant that also speaks of what the pool holds. -/
structure KeepsPool (invariant : ι → State H → Prop) (part result : Value H → Prop) : Prop where
  store : ∀ i s value handle pool, invariant i s → (ofInvariant invariant part result).Evaluated value →
    s.pool.acquire value = .ok (handle, pool) → invariant i { s with pool := pool }
  free : ∀ i s handle value pool, invariant i s → s.pool.release? handle = some (value, pool) →
    (ofInvariant invariant part result).Evaluated value ∧ invariant i { s with pool := pool }

namespace KeepsPool

variable (keeps : KeepsPool invariant part result)

include keeps

/-- Storing an evaluated value. -/
theorem hold {value : Value H} (evaluated : (ofInvariant invariant part result).Evaluated value) :
    (ofInvariant invariant part result).Alike (fun _ => True) (Eval.hold value) (Eval.hold value) := by
  refine ofInvariant_alike fun i s start => ⟨?_, fun _ _ => trivial⟩
  simp only [Eval.hold]
  cases acquired : s.pool.acquire value with
  | ok placed => exact keeps.store i s value placed.1 placed.2 start evaluated acquired
  | error e => exact start

/-- What is taken out of the pool was stored as an evaluated value. -/
theorem release (handles : List Handle) : (ofInvariant invariant part result).Alike
    (fun values => ∀ value ∈ values, (ofInvariant invariant part result).Evaluated value)
    (Eval.release handles) (Eval.release handles) := by
  refine ofInvariant_alike fun i s start => ?_
  suffices freed : invariant i { s with pool := (s.pool.releaseAll handles).2 } ∧
      ∀ value ∈ (s.pool.releaseAll handles).1, (ofInvariant invariant part result).Evaluated value from
    ⟨freed.1, fun values same => Except.ok.inj same ▸ freed.2⟩
  -- By induction on the handles; one that frees nothing is passed over.
  induction handles generalizing s with
  | nil => exact ⟨start, by simp [Pool.releaseAll]⟩
  | cons handle rest ih =>
    simp only [Pool.releaseAll]
    cases released : s.pool.release? handle with
    | none => exact ih s start
    | some placed =>
      obtain ⟨evaluated, kept⟩ := keeps.free i s handle placed.1 placed.2 start released
      obtain ⟨last, others⟩ := ih { s with pool := placed.2 } kept
      exact ⟨last, List.forall_mem_cons.mpr ⟨evaluated, others⟩⟩

/-- Storing operands one after the other. -/
theorem parkOperands (kept : (ofInvariant invariant part result).KeptBy m m)
    (reducers : (ofInvariant invariant part result).AlikeReducers reduce reduce') (operands : List (Value H))
    (sound : ∀ operand ∈ operands, (ofInvariant invariant part result).Sound operand) :
    (ofInvariant invariant part result).Alike (fun _ => True) (parkOperands reduce operands)
      (parkOperands reduce' operands) := by
  induction operands with
  | nil => exact alike_pure trivial
  | cons operand rest ih =>
    have stored := (kept.evalWith_alike reducers (sound operand (by simp))).bind fun _ done => keeps.hold done
    refine (ofInvariant_outcome stored).bind fun outcome _ => ?_
    cases outcome with
    | error e => exact alike_pure trivial
    | ok handle => exact (ih fun other member => sound other (by simp [member])).bind fun _ _ => alike_pure trivial

/-- Gathering operands through the pool. -/
theorem evalOperands (kept : (ofInvariant invariant part result).KeptBy m m) :
    (ofInvariant invariant part result).AlikeGatherers (fun _ => True) evalOperands evalOperands := by
  intro inner inner' _ reducers head operands evaluated sound
  -- Whatever has become of the operands, what is stored is freed, and only then is a failure passed on.
  have parked : (ofInvariant invariant part result).Alike (fun _ => True) (park inner head operands)
      (park inner' head operands) := by
    refine (ofInvariant_outcome (keeps.hold evaluated)).bind fun outcome _ => ?_
    cases outcome with
    | error e => exact alike_pure trivial
    | ok handle => exact (keeps.parkOperands kept reducers operands sound).bind fun _ _ => alike_pure trivial
  refine parked.bind fun stored _ => (keeps.release stored.1).bind fun values done => ?_
  exact (alike_ofExcept fun _ _ => trivial).bind fun _ _ => alike_pure done

end KeepsPool

end Likeness

open Classical in
/-- A reduction under supervision: the items to reduce and the state are looked at on the way in, and the result, if there
is one, and the state on the way out; where they are not fine, another step is taken instead. -/
noncomputable def supervised (fine : List (Value H) → State H → Prop) (instead : Eval H (Value H))
    (reduce : Reducer H) : Reducer H := fun items s =>
  if fine items s then
    let last := reduce items s
    if fine last.1.toOption.toList last.2 then last else instead last.2
  else instead s

namespace Machine

/-- Reduction with at most so many levels below, each under supervision. -/
noncomputable def nestedUnder (m : Machine H) (fine : List (Value H) → State H → Prop) (instead : Eval H (Value H)) :
    Nat → Reducer H
  | 0 => supervised fine instead (m.descend fun _ _ => Eval.fail (.depthExceeded m.maxDepth))
  | levels + 1 => supervised fine instead (m.descend (m.reduce (m.nestedUnder fine instead levels)))

/-- The reduction of a machine under supervision. -/
noncomputable def reducerUnder (m : Machine H) (fine : List (Value H) → State H → Prop) (instead : Eval H (Value H)) :
    Reducer H := fun items s =>
  m.nestedUnder fine instead (m.maxDepth - s.depth) items s

end Machine

namespace Likeness

variable {invariant : ι → State H → Prop} {part result : Value H → Prop} {m : Machine H}
  {fine : List (Value H) → State H → Prop}

/-- Supervision changes nothing about a reduction that keeps what is looked at. -/
theorem supervised_alike
    (lenient : ∀ i items s, (∀ item ∈ items, item.Everywhere part) → invariant i s → fine items s)
    (instead : Eval H (Value H)) {reduce reduce' : Reducer H}
    (reducers : (ofInvariant invariant part result).AlikeReducers reduce reduce') :
    (ofInvariant invariant part result).AlikeReducers reduce (supervised fine instead reduce') := by
  rintro items sound i s _ ⟨rfl, start⟩
  obtain ⟨same, kept, results⟩ := ofInvariant_ends (reducers items sound) start
  -- Both looks find the invariant, so the reduction is the one that is supervised.
  have before : fine items s := lenient i items s sound start
  have after : fine (reduce' items s).1.toOption.toList (reduce' items s).2 := by
    rw [← same]
    refine lenient i _ _ (fun value member => ?_) kept
    have found : (reduce items s).1 = .ok value := by
      cases outcome : (reduce items s).1 with
      | ok given =>
        rw [outcome] at member
        rw [List.mem_singleton.mp member]
      | error e =>
        rw [outcome] at member
        cases member
    exact (results value found).2
  have through : supervised fine instead reduce' items s = reduce' items s := by
    simp only [supervised, if_pos before, if_pos after]
  rw [through]
  exact reducers items sound i s s ⟨rfl, start⟩

/-- At every level, supervision changes nothing about what keeps to it. -/
theorem nestedUnder_alike (kept : (ofInvariant invariant part result).KeptBy m m)
    (keeps : KeepsPool invariant part result)
    (lenient : ∀ i items s, (∀ item ∈ items, item.Everywhere part) → invariant i s → fine items s)
    (instead : Eval H (Value H)) (levels : Nat) :
    (ofInvariant invariant part result).AlikeReducers (m.nestedVia evalOperands levels)
      (m.nestedUnder fine instead levels) := by
  induction levels with
  | zero => exact supervised_alike lenient instead (kept.descend_alike fun _ _ _ _ => alike_fail_of kept.limit)
  | succ levels ih =>
    refine supervised_alike lenient instead (kept.descend_alike fun first operands soundFirst sound => ?_)
    exact kept.reduceVia_alike (keeps.evalOperands kept) trivial ih soundFirst sound

/-- The reduction of a machine and the one under supervision are alike. -/
theorem reducerUnder_alike (kept : (ofInvariant invariant part result).KeptBy m m)
    (keeps : KeepsPool invariant part result)
    (lenient : ∀ i items s, (∀ item ∈ items, item.Everywhere part) → invariant i s → fine items s)
    (instead : Eval H (Value H)) :
    (ofInvariant invariant part result).AlikeReducers m.reducer (m.reducerUnder fine instead) := by
  rw [← m.reducerVia_evalOperands]
  rintro items sound i s _ ⟨rfl, start⟩
  exact nestedUnder_alike kept keeps lenient instead _ items sound i s s ⟨rfl, start⟩

/-- A request under supervision is answered as without it, and what single steps keep the answer keeps. -/
theorem Preserves.answer_supervised (preserves : Preserves invariant part result m)
    (keeps : KeepsPool invariant part result)
    (lenient : ∀ i items s, (∀ item ∈ items, item.Everywhere part) → invariant i s → fine items s)
    (instead : Eval H (Value H)) {request : Request H}
    (sound : (ofInvariant invariant part result).SoundRequest request) {i : ι} {s : State H} (start : invariant i s) :
    m.answerWith (m.reducerUnder fine instead) request s = m.answer request s ∧ invariant i (m.answer request s).2 ∧
      ∀ value, (m.answer request s).1 = .ok value → value.Everywhere part := by
  have reducers := reducerUnder_alike preserves.keptBy keeps lenient instead
  rw [m.answer_eq]
  obtain ⟨same, kept, results⟩ := ofInvariant_ends (preserves.keptBy.answerWith_alike reducers sound) start
  exact ⟨same.symm, kept, results⟩

end Likeness

end QuoteLisp
