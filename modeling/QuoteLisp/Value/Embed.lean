import QuoteLisp.Value.Basic

/-! Data of a host program as values. -/

namespace QuoteLisp

/-- Data that stands for a value. -/
class Embed (α : Type) (H : Type) where
  embed : α → Value H

export Embed (embed)

variable {H α : Type}

instance : Embed (Value H) H := ⟨id⟩

instance : Embed Int64 H := ⟨.integer⟩

instance : Embed Int32 H := ⟨fun n => .integer n.toInt64⟩

instance : Embed Int16 H := ⟨fun n => .integer n.toInt64⟩

instance : Embed Int8 H := ⟨fun n => .integer n.toInt64⟩

instance : Embed UInt32 H := ⟨fun n => .integer (Int64.ofNat n.toNat)⟩

instance : Embed UInt16 H := ⟨fun n => .integer (Int64.ofNat n.toNat)⟩

instance : Embed UInt8 H := ⟨fun n => .integer (Int64.ofNat n.toNat)⟩

instance : Embed Bool H := ⟨.ofBool⟩

instance : Embed Float H := ⟨.real⟩

instance : Embed String H := ⟨.string⟩

/-- Lists become quoted lists. -/
instance [Embed α H] : Embed (List α) H := ⟨fun items => .qexpr (items.map embed)⟩

end QuoteLisp
