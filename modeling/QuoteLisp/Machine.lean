import QuoteLisp.Folder
import QuoteLisp.Host

/-! What stays the same during a run. -/

namespace QuoteLisp

/-- The limit on nesting unless another is set. -/
def defaultMaxDepth : Nat := 512

/-- The limit on nesting, the files that can be loaded, and the meaning of the host's operations. -/
structure Machine (H : Type) where
  /-- How many S-expressions may be reduced one inside the other. -/
  maxDepth : Nat := defaultMaxDepth
  folder : Folder := {}
  host : Host H

/-- A machine without host operations. -/
def Machine.plain (maxDepth : Nat) (folder : Folder) : Machine Empty :=
  ⟨maxDepth, folder, { program := fun op => nomatch op }⟩

end QuoteLisp
