import QuoteLisp.Source.ParseError

/-! What the context of a refusal shows of the refused text.

A place is given in bytes, and the window on the text is counted in characters.
The two agree up to the place as long as nothing beyond ASCII stands before it, or so little that no byte of it is cut off.
Behind longer text beyond ASCII the window starts too late, and may start behind the place that it is to show. -/

namespace QuoteLisp

/-- Every character takes at least one byte. -/
theorem length_le_byteLength (text : List Char) : text.length ≤ byteLength text := by
  induction text with
  | nil => exact Nat.le_refl 0
  | cons c rest ih =>
    have positive : 0 < c.utf8Size := c.utf8Size_pos
    simp only [List.length_cons, byteLength_cons]
    omega

namespace ParseError

/-- How a context shows a character: a line feed as an escape, a carriage return not at all. -/
def shownAs : Char → List Char
  | '\n' => ['\\', 'n']
  | '\r' => []
  | c => [c]

/-- What a context shows for a part that is cut off. -/
def cutMark : List Char → List Char
  | [] => []
  | _ :: _ => "[...]".toList

/-- The context of the place between two parts of a text, as it is meant.

The window is the at most 100 characters from 20 before the place on, with a mark at each end where something is cut off,
and it holds the character at the place. -/
def ShowsPlace (front back : List Char) (context : Option String) : Prop :=
  ∃ before left right behind, front = before ++ left ∧ back = right ++ behind ∧
    before.length = front.length - 20 ∧ (left ++ right).length = min 100 (left ++ back).length ∧ (back ≠ [] → right ≠ []) ∧
    context = some (String.ofList (cutMark before ++ (left ++ right).flatMap shownAs ++ cutMark behind))

/-- A context is put on one line character by character. -/
theorem oneLine_eq_flatMap (text : List Char) : oneLine text = text.flatMap shownAs := by
  refine congrArg (List.flatMap · text) (funext fun c => ?_)
  by_cases feed : c = '\n'
  · rw [feed]
    rfl
  by_cases back : c = '\r'
  · rw [back]
    rfl
  simp [shownAs, feed, back]

/-- A mark is put on one line as it is. -/
theorem flatMap_shownAs_mark (p : Prop) [Decidable p] :
    (if p then "[...]".toList else []).flatMap shownAs = if p then "[...]".toList else [] := by
  split
  · decide
  · rfl

/-- The mark of a cut stands exactly when bytes are cut off. -/
theorem cutMark_eq_ite (part : List Char) : cutMark part = if 0 < byteLength part then "[...]".toList else [] := by
  cases part with
  | nil => rfl
  | cons c rest =>
    have positive : 0 < byteLength (c :: rest) := by
      have lower := length_le_byteLength (c :: rest)
      simp only [List.length_cons] at lower
      omega
    rw [if_pos positive]
    rfl

/-- The context for an offset, told by the window that it opens.

The characters that are skipped are taken for bytes where the mark behind is decided on. -/
theorem contextAt_eq {before shown behind : List Char} {offset : Nat}
    (starts : (before ++ shown ++ behind).drop (offset - contextLead) = shown ++ behind)
    (full : (shown ++ behind).take contextLength = shown) :
    contextAt (before ++ shown ++ behind) offset =
      (if 0 < offset - contextLead then "[...]".toList else []) ++ shown.flatMap shownAs ++
        (if offset - contextLead < byteLength before + byteLength behind then "[...]".toList else []) := by
  have window : ((before ++ shown ++ behind).drop (offset - contextLead)).take contextLength = shown := by
    rw [starts, full]
  have cut : offset - contextLead + byteLength shown < byteLength (before ++ shown ++ behind) ↔
      offset - contextLead < byteLength before + byteLength behind := by
    simp only [byteLength_append]
    omega
  simp only [contextAt, window, cut, oneLine_eq_flatMap, List.flatMap_append, flatMap_shownAs_mark]

/-- A text is cut in three around the window that starts behind a number of its characters. -/
theorem exists_window (input : List Char) (start size : Nat) :
    ∃ before shown behind, input = before ++ shown ++ behind ∧ before.length = min start input.length ∧
      input.drop start = shown ++ behind ∧ (shown ++ behind).take size = shown := by
  refine ⟨input.take start, (input.drop start).take size, (input.drop start).drop size, ?_, ?_, ?_, ?_⟩
  · rw [List.append_assoc, List.take_append_drop, List.take_append_drop]
  · exact List.length_take
  · rw [List.take_append_drop]
  · rw [List.take_append_drop]

/-- As many characters are skipped as are meant to be, and they take as many bytes, when nothing beyond ASCII stands before
the place or no byte is cut off. -/
theorem skipped_bytes {front before left : List Char} (sameCount : byteLength front ≤ 20 ∨ byteLength front = front.length)
    (cut : front = before ++ left) (length : before.length = front.length - 20) :
    byteLength before = byteLength front - 20 := by
  have total : byteLength front = byteLength before + byteLength left := by rw [cut, byteLength_append]
  have count : front.length = before.length + left.length := by rw [cut, List.length_append]
  have lower := length_le_byteLength before
  have rest := length_le_byteLength left
  rcases sameCount with short | plain
  · -- There are no more characters than bytes, so none is skipped either.
    have unskipped : before = [] := List.length_eq_zero_iff.mp (by omega)
    simp only [unskipped, byteLength_nil]
    omega
  · -- Every character before the place takes one byte.
    omega

/-- A place behind nothing beyond ASCII, or behind so little text that no byte of it is cut off, is shown as it is meant. -/
theorem contextAt_showsPlace (front back : List Char)
    (sameCount : byteLength front ≤ 20 ∨ byteLength front = front.length) :
    ShowsPlace front back (some (String.ofList (contextAt (front ++ back) (byteLength front)))) := by
  -- The window is cut out of the two parts of the text where the characters say so.
  let before := front.take (front.length - 20)
  let left := front.drop (front.length - 20)
  let right := back.take (100 - left.length)
  let behind := back.drop (100 - left.length)
  have frontCut : front = before ++ left := (List.take_append_drop _ front).symm
  have backCut : back = right ++ behind := (List.take_append_drop _ back).symm
  have skipped : before.length = front.length - 20 := by
    simp only [before, List.length_take]
    omega
  have lead : left.length ≤ 20 := by
    simp only [left, List.length_drop]
    omega
  have rest : right.length = min (100 - left.length) back.length := List.length_take
  have bytes := skipped_bytes sameCount frontCut skipped
  have start : byteLength front - contextLead = before.length := by
    rcases sameCount with short | plain
    · have lower := length_le_byteLength front
      rw [skipped, contextLead]
      omega
    · rw [skipped, contextLead, plain]
  have joined : front ++ back = before ++ (left ++ right) ++ behind := by
    rw [frontCut, backCut]
    simp only [List.append_assoc]
  refine ⟨before, left, right, behind, frontCut, backCut, skipped, ?_, ?_, ?_⟩
  · simp only [List.length_append, rest]
    omega
  · -- At most 20 of the 100 characters stand before the place.
    intro more empty
    have nonempty : 0 < back.length := List.length_pos_iff.mpr more
    rw [empty, List.length_nil] at rest
    omega
  · have opens : (before ++ (left ++ right) ++ behind).drop (byteLength front - contextLead) = left ++ right ++ behind := by
      rw [start, List.append_assoc, List.drop_left]
    have full : (left ++ right ++ behind).take contextLength = left ++ right := by
      rw [List.append_assoc, ← backCut, List.take_append, List.take_of_length_le (by rw [contextLength]; omega)]
      rfl
    -- As many bytes as characters are skipped, so both marks say what is cut off.
    have ahead : byteLength front - contextLead = byteLength before := bytes.symm
    rw [joined, contextAt_eq opens full, ahead, cutMark_eq_ite, cutMark_eq_ite]
    simp only [Nat.lt_add_right_iff_pos]

/-- The context of a refusal shows its place, as far as bytes and characters agree.

Where nothing beyond ASCII stands before the place, or no byte before it is cut off, the context is the one that is meant.
In every text the window starts behind as many characters as bytes are to be cut off, and the character at the place is in
it exactly when the text before the place takes at most 20 bytes more than it has characters. -/
theorem context_shows_the_place (kind : Kind) (message : String) (front back : List Char) :
    (byteLength front ≤ 20 ∨ byteLength front = front.length →
      ShowsPlace front back (atOffset kind message (front ++ back) (byteLength front)).context) ∧
    ∃ before shown behind, front ++ back = before ++ shown ++ behind ∧
      before.length = min (byteLength front - 20) (front ++ back).length ∧
      shown.length = min 100 (shown ++ behind).length ∧
      (atOffset kind message (front ++ back) (byteLength front)).context = some (String.ofList (
        (if 20 < byteLength front then "[...]".toList else []) ++ shown.flatMap shownAs ++
          (if byteLength front - 20 < byteLength before + byteLength behind then "[...]".toList else []))) ∧
      (back ≠ [] → (before.length ≤ front.length ∧ front.length < before.length + shown.length ↔
        byteLength front ≤ front.length + 20)) := by
  refine ⟨contextAt_showsPlace front back, ?_⟩
  obtain ⟨before, shown, behind, joined, skipped, opens, full⟩ :=
    exists_window (front ++ back) (byteLength front - contextLead) contextLength
  have size : shown.length = min 100 (shown ++ behind).length := by
    have lengths := congrArg List.length full
    rw [List.length_take] at lengths
    exact lengths.symm
  have total := congrArg List.length joined
  simp only [List.length_append] at total size
  refine ⟨before, shown, behind, joined, skipped, by rw [size, List.length_append], ?_, ?_⟩
  · rw [joined] at opens
    have context := contextAt_eq opens full
    rw [← joined] at context
    simp only [contextLead, Nat.sub_pos_iff_lt] at context
    exact congrArg (some ∘ String.ofList) context
  · -- The place is never behind the window, only before it.
    intro more
    have nonempty : 0 < back.length := List.length_pos_iff.mpr more
    have lower := length_le_byteLength front
    simp only [contextLead, List.length_append] at skipped
    omega

/-- A stray bracket behind a line of ASCII is shown, however much text beyond ASCII follows. -/
theorem context_shows_the_place_ascii :
    let front := "(print \"hello\" \"world\")\r\n".toList
    let back := ')' :: List.replicate 200 'é'
    byteLength front = front.length ∧ 20 < byteLength front ∧
      ShowsPlace front back (atOffset .invalidSyntax "stray" (front ++ back) (byteLength front)).context :=
  ⟨by decide, by decide, (context_shows_the_place .invalidSyntax "stray" _ _).1 (.inr (by decide))⟩

/-- A stray bracket behind nine characters that take thirty bytes is refused with two marks and nothing between them, where
the whole text of ten characters is meant. -/
theorem context_misses_the_place :
    let front := "\"😀😀😀😀😀😀😀\"".toList
    let back := [')']
    let context := (atOffset .invalidSyntax "Unexpected ')' at position 30" (front ++ back) (byteLength front)).context
    context = some "[...][...]" ∧ ¬ ShowsPlace front back context := by
  intro front back context
  have marks : context = some "[...][...]" := by decide
  refine ⟨marks, ?_⟩
  rintro ⟨before, left, right, behind, frontCut, -, skipped, -, -, shown⟩
  -- Nothing in front may be cut off, so the window has to start with the opening quote.
  obtain rfl : before = [] := List.length_eq_zero_iff.mp skipped
  obtain rfl : left = front := frontCut.symm
  rw [marks] at shown
  have texts := (congrArg String.toList (Option.some.inj shown)).trans String.toList_ofList
  have first : some '[' = some '"' := congrArg List.head? texts
  exact absurd first (by decide)

end ParseError

end QuoteLisp
