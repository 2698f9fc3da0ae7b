/-!
# Node indices

The slots of an arena are numbered 0, 1, 2, … in the order they are made, and
an index is such a number. The greatest 32-bit number is kept back for "no
node".

* `NodeIndex.text`: how an index is written, `#3` or `#none`.
* `NodeIndex.toNat_ofCount_of_lt`: the index of a slot gives its position back while
  there are fewer than 2^32 slots.
-/

namespace Decompiled

/-- The number of a slot in an arena. -/
structure NodeIndex where
  val : UInt32
  deriving DecidableEq, Inhabited

namespace NodeIndex

/-- The index that stands for "no node". -/
def none : NodeIndex := ⟨0xFFFFFFFF⟩

/-- Whether the index stands for "no node". -/
def isNone (index : NodeIndex) : Bool := index.val == 0xFFFFFFFF

/-- Whether the index names a slot, existing or not. -/
def isSome (index : NodeIndex) : Bool := !index.isNone

/-- The position of the slot that the index names. -/
def toNat (index : NodeIndex) : Nat := index.val.toNat

/-- The index given to a slot made when there are `count` slots already. It
has 32 bits, so the numbers start again at 0 after 2^32 slots. -/
def ofCount (count : Nat) : NodeIndex := ⟨UInt32.ofNat count⟩

/-- The index as an optional one: absent when it stands for "no node". -/
def toOption (index : NodeIndex) : Option NodeIndex :=
  if index.isNone then Option.none else some index

/-- How an index is written in messages. -/
def text (index : NodeIndex) : String :=
  if index.isNone then "#none" else "#" ++ toString index.val.toNat

theorem isNone_iff {index : NodeIndex} : index.isNone = true ↔ index = none := by
  rcases index with ⟨v⟩
  simp [isNone, none]

@[simp] theorem isNone_none : none.isNone = true := rfl

theorem toNat_lt (index : NodeIndex) : index.toNat < 0x100000000 := index.val.toNat_lt

theorem toNat_inj {a b : NodeIndex} : a.toNat = b.toNat ↔ a = b := by
  rcases a with ⟨a⟩
  rcases b with ⟨b⟩
  simp [toNat, UInt32.toNat_inj]

@[simp] theorem toNat_ofCount (count : Nat) :
    (ofCount count).toNat = count % 0x100000000 := by
  simp [ofCount, toNat]

/-- While there are fewer than 2^32 slots, an index gives its position back. -/
theorem toNat_ofCount_of_lt {count : Nat} (h : count < 0x100000000) :
    (ofCount count).toNat = count := by
  rw [toNat_ofCount, Nat.mod_eq_of_lt h]

@[simp] theorem ofCount_toNat (index : NodeIndex) : ofCount index.toNat = index := by
  rw [← toNat_inj, toNat_ofCount_of_lt index.toNat_lt]

end NodeIndex

end Decompiled
