import Stdx.Alloc.FixedBuffer

/-! # The functions of the array module

`Array` and `RawArray` are thin wrappers around functions that take the data
pointer, the length and the capacity by mutable reference. The model keeps these
three words together with what lies behind the pointer: the contents of the
block and its size in bytes. Elements are moved in and out of memory bitwise, so
a cell holds either the bits of a value or no value at all, and copies of one
value may be in several cells. What a function does to memory and to ownership
is recorded as a list of events.
-/

namespace Stdx

open Foundation

variable {w : Nat} {α σ : Type*}

/-- An element type: its layout, whose size is a multiple of its alignment, and
that a type without bytes has no two different values. -/
class Element (w : Nat) (α : Type*) where
  layout : Layout w
  align_dvd_size : layout.align.toNat ∣ layout.size.toNat
  eq_of_size_eq_zero : layout.size = 0 → ∀ first second : α, first = second

/-- `mem::size_of::<T>()`. -/
abbrev sizeOf (w : Nat) (α : Type*) [Element w α] : Usize w := (Element.layout α).size

/-- `mem::align_of::<T>()`. -/
abbrev alignOf (w : Nat) (α : Type*) [Element w α] : Usize w := (Element.layout α).align

theorem toNat_one (w : Nat) (α : Type*) [Element w α] : (1 : Usize w).toNat = 1 :=
  BitVec.toNat_one (Element.layout α : Layout w).width_pos

/-- `u8` on a 64-bit machine. -/
instance : Element 64 UInt8 where
  layout := .byte
  align_dvd_size := by decide
  eq_of_size_eq_zero empty := absurd empty (by decide)

/-- `u32` on a 64-bit machine. -/
instance : Element 64 UInt32 where
  layout := .word
  align_dvd_size := by decide
  eq_of_size_eq_zero empty := absurd empty (by decide)

/-- `[u8; 1 << 30]`. -/
abbrev Gibibyte := Fin 0x40000000 → UInt8

/-- `[u8; 1 << 30]` on a 64-bit machine. -/
instance : Element 64 Gibibyte where
  layout := .gibibyte
  align_dvd_size := by decide
  eq_of_size_eq_zero empty := absurd empty (by decide)

/-- `AllocError`. -/
inductive AllocError
  | allocError
deriving DecidableEq

/-- The part of the `Allocator` trait that arrays use. -/
structure Allocator (w : Nat) (σ : Type*) where
  allocate : σ → Layout w → Option (Slice w) × σ
  grow : σ → Usize w → Layout w → Layout w → Option (Slice w) × σ

/-- The contract of the trait: a returned block has at least the requested
number of bytes, and not more than an allocation can have. -/
structure Allocator.Honours (alloc : Allocator w σ) : Prop where
  allocate : ∀ state layout slice, (alloc.allocate state layout).1 = some slice →
    layout.size.toNat ≤ slice.len.toNat ∧ slice.len.toNat ≤ isizeMax w
  grow : ∀ state ptr oldLayout newLayout slice,
    (alloc.grow state ptr oldLayout newLayout).1 = some slice →
      newLayout.size.toNat ≤ slice.len.toNat ∧ slice.len.toNat ≤ isizeMax w

/-- The bytes of one element: the bits of a value, or not initialised. -/
inductive Cell (α : Type*)
  | uninit
  | val (value : α)
deriving DecidableEq

/-- What a function does to memory and ownership, offsets being bytes from the
data pointer: `ptr::read`, `ptr::write`, a read from another array, the
destructor run on a cell or on a value that goes out of scope, and arithmetic on
`usize` that leaves its range (a panic when overflow checks are on). -/
inductive Event (α : Type*)
  | read (offset : Nat) (cell : Cell α)
  | write (offset : Nat) (cell : Cell α)
  | readOther (offset : Nat) (cell : Cell α)
  | dropInPlace (offset : Nat) (cell : Cell α)
  | dropValue (value : α)
  | overflow
deriving DecidableEq

namespace Event

/-- The event of `left - right`. -/
def ofSub (left right : Usize w) : List (Event α) :=
  if left.toNat < right.toNat then [.overflow] else []

/-- The event of `left + right`. -/
def ofAdd (left right : Usize w) : List (Event α) :=
  if left.toNat + right.toNat < 2 ^ w then [] else [.overflow]

/-- The event of `left * right`. -/
def ofMul (left right : Usize w) : List (Event α) :=
  if left.toNat * right.toNat < 2 ^ w then [] else [.overflow]

variable {left right : Usize w}

theorem ofSub_eq_nil (bound : right.toNat ≤ left.toNat) :
    (ofSub left right : List (Event α)) = [] :=
  if_neg (not_lt.mpr bound)

theorem ofSub_one_eq_nil (positive : 0 < left.toNat) : (ofSub left 1 : List (Event α)) = [] :=
  ofSub_eq_nil ((Nat.mod_le 1 _).trans positive)

theorem ofAdd_eq_nil (bound : left.toNat + right.toNat < 2 ^ w) :
    (ofAdd left right : List (Event α)) = [] := if_pos bound

theorem ofMul_eq_nil (bound : left.toNat * right.toNat < 2 ^ w) :
    (ofMul left right : List (Event α)) = [] := if_pos bound

end Event

/-- The contents of a block, by byte offset from the data pointer. -/
abbrev Cells (α : Type*) := Nat → Cell α

namespace Cells

/-- Memory that has just been allocated. -/
def fresh : Cells α := fun _ => .uninit

/-- Write one cell. -/
def set (cells : Cells α) (offset : Nat) (cell : Cell α) : Cells α :=
  fun other => if other = offset then cell else cells other

/-- What `Allocator::grow` keeps: the cells inside the old size. -/
def keep (cells : Cells α) (size oldSize : Nat) : Cells α :=
  fun offset => if offset + size ≤ oldSize then cells offset else .uninit

/-- `ptr::copy` of `count` elements; source and destination may overlap. -/
def copy (cells : Cells α) (size src dst count : Nat) : Cells α :=
  fun offset =>
    if dst ≤ offset ∧ size ∣ offset - dst ∧ offset - dst < size * count then
      cells (src + (offset - dst))
    else
      cells offset

@[simp] theorem set_same (cells : Cells α) (offset : Nat) (cell : Cell α) :
    cells.set offset cell offset = cell := if_pos rfl

theorem set_of_ne {cells : Cells α} {offset other : Nat} {cell : Cell α} (ne : other ≠ offset) :
    cells.set offset cell other = cells other := if_neg ne

/-- A copy of elements, at the places of elements. -/
theorem copy_mul (cells : Cells α) {size : Nat} (positive : 0 < size) (src dst count index : Nat) :
    cells.copy size (size * src) (size * dst) count (size * index) =
      if dst ≤ index ∧ index < dst + count then cells (size * (src + (index - dst)))
      else cells (size * index) := by
  unfold copy
  by_cases above : dst ≤ index
  · have distance : size * index - size * dst = size * (index - dst) := (Nat.mul_sub _ _ _).symm
    have inside : size * (index - dst) < size * count ↔ index < dst + count := by
      rw [Nat.mul_lt_mul_left positive]
      omega
    simp only [Nat.mul_le_mul_left size above, distance, Nat.dvd_mul_right, inside, above,
      true_and, ← Nat.mul_add]
  · have below : ¬ size * dst ≤ size * index := fun le =>
      above (Nat.le_of_mul_le_mul_left le positive)
    rw [if_neg fun copied => below copied.1, if_neg fun copied => above copied.1]

/-- Elements without bytes are not copied. -/
theorem copy_zero (cells : Cells α) (src dst count : Nat) : cells.copy 0 src dst count = cells := by
  funext offset
  unfold copy
  rw [Nat.zero_mul, if_neg fun copied => Nat.not_lt_zero _ copied.2.2]

end Cells

/-- The three words of an array, the contents of its block, and the number of
bytes in the block. -/
structure Parts (w : Nat) (α : Type*) where
  data : Usize w
  length : Usize w
  capacity : Usize w
  cells : Cells α
  bytes : Usize w

namespace Parts

open Event

variable [Element w α]

/-- `Array::new` and `RawArray::new`: a dangling pointer and no block. -/
def new : Parts w α where
  data := alignOf w α
  length := 0
  capacity := 0
  cells := .fresh
  bytes := 0

/-- `Array::from_raw_parts` and `RawArray::from_raw_parts`: the words are taken as
they are, and what is behind the pointer with them. -/
def fromRawParts (data capacity length : Usize w) (cells : Cells α) (bytes : Usize w) :
    Parts w α where
  data := data
  length := length
  capacity := capacity
  cells := cells
  bytes := bytes

/-- The byte offset of an element: `mem::size_of::<T>().unchecked_mul(index)`. -/
def offset (w : Nat) (α : Type*) [Element w α] (index : Usize w) : Nat :=
  (sizeOf w α * index).toNat

/-- The slice of `Deref`. -/
def deref (self : Parts w α) : List (Cell α) :=
  (List.range self.length.toNat).map fun index =>
    self.cells ((sizeOf w α).toNat * index)

/-- An assignment to an element of the slice of `DerefMut`, which drops the old
value; it panics when the index is out of bounds. -/
def assign (self : Parts w α) (index : Usize w) (value : α) : Parts w α × List (Event α) :=
  if self.length.toNat ≤ index.toNat then
    (self, [.dropValue value])
  else
    let dst := (sizeOf w α).toNat * index.toNat
    ({ self with cells := self.cells.set dst (.val value) },
      [.dropInPlace dst (self.cells dst), .write dst (.val value)])

/-- The layout `reserve` asks for when there is no block yet. -/
def firstLayout (w : Nat) (α : Type*) [Element w α] (additional : Usize w) :
    Option (Layout w) := do
  let size ← (sizeOf w α).checkedMul additional
  Layout.fromSizeAlign size (alignOf w α)

/-- The old and the new layout of `reserve` when there is a block. -/
def growLayouts (α : Type*) [Element w α] (capacity additional : Usize w) :
    Option (Layout w × Layout w) := do
  let oldSize ← (sizeOf w α).checkedMul capacity
  let tmp ← capacity.checkedAdd additional
  let newSize ← (sizeOf w α).checkedMul tmp
  let oldLayout ← Layout.fromSizeAlign oldSize (alignOf w α)
  let newLayout ← Layout.fromSizeAlign newSize (alignOf w α)
  return (oldLayout, newLayout)

/-- `reserve`. -/
def reserve (self : Parts w α) (alloc : Allocator w σ) (additional : Usize w) (state : σ) :
    Except AllocError Unit × Parts w α × σ :=
  if self.capacity = 0 then
    match firstLayout w α additional with
    | none => (.error .allocError, self, state)
    | some layout =>
        match alloc.allocate state layout with
        | (none, state) => (.error .allocError, self, state)
        | (some result, state) =>
            (.ok (), ⟨result.ptr, 0, result.len, .fresh, result.len⟩, state)
  else
    match growLayouts α self.capacity additional with
    | none => (.error .allocError, self, state)
    | some (oldLayout, newLayout) =>
        match alloc.grow state self.data oldLayout newLayout with
        | (none, state) => (.error .allocError, self, state)
        | (some result, state) =>
            (.ok (), ⟨result.ptr, self.length, result.len,
              self.cells.keep (sizeOf w α).toNat oldLayout.size.toNat, result.len⟩, state)

/-- How many elements `push` reserves. -/
def room (self : Parts w α) : Usize w := if self.capacity = 0 then 16 else 1

/-- `push`. The assignment through the pointer drops what it overwrites; an
error drops the value. -/
def push (self : Parts w α) (alloc : Allocator w σ) (value : α) (state : σ) :
    Except AllocError Unit × Parts w α × σ × List (Event α) :=
  match self.reserve alloc self.room state with
  | (.error error, self, state) => (.error error, self, state, [.dropValue value])
  | (.ok (), self, state) =>
      match (sizeOf w α).checkedMul self.capacity with
      | none => (.error .allocError, self, state, [.dropValue value])
      | some x =>
          if x.toNat > isizeMax w then
            (.error .allocError, self, state, [.dropValue value])
          else
            (.ok (), { self with cells := self.cells.set x.toNat (.val value) }, state,
              [.dropInPlace x.toNat (self.cells x.toNat), .write x.toNat (.val value)])

/-- `with_capacity`, with the array it is wrapped in. -/
def withCapacity (alloc : Allocator w σ) (capacity : Usize w) (state : σ) :
    Except AllocError (Parts w α) × σ × List (Event α) :=
  let events := ofMul (sizeOf w α) capacity
  match Layout.fromSizeAlign (sizeOf w α * capacity) (alignOf w α) with
  | none => (.error .allocError, state, events)
  | some layout =>
      match alloc.allocate state layout with
      | (none, state) => (.error .allocError, state, events)
      | (some mem, state) => (.ok ⟨mem.ptr, 0, mem.len, .fresh, mem.len⟩, state, events)

/-- `pop`, which its callers guard. -/
def pop (self : Parts w α) : Cell α × Parts w α × List (Event α) :=
  let length := self.length - 1
  let offset := (length * sizeOf w α).toNat
  (self.cells offset, { self with length },
    ofSub self.length 1 ++ ofMul length (sizeOf w α) ++ [.read offset (self.cells offset)])

/-- `clear`. -/
def clear (self : Parts w α) : Parts w α × List (Event α) :=
  ({ self with length := 0 },
    (List.range self.length.toNat).map fun index =>
      .dropInPlace ((sizeOf w α).toNat * index) (self.cells ((sizeOf w α).toNat * index)))

/-- The loop of `append`: move the elements at the given indices over. -/
def moveFrom (self : Parts w α) (other : Parts w α) : List Nat → Parts w α × List (Event α)
  | [] => (self, [])
  | index :: rest =>
      let src := offset w α (BitVec.ofNat w index)
      let dst := offset w α (BitVec.ofNat w index + self.length)
      let value := other.cells src
      let moved := moveFrom { self with cells := self.cells.set dst value } other rest
      (moved.1, .readOther src value :: .write dst value :: moved.2)

/-- `append`. -/
def append (self : Parts w α) (alloc : Allocator w σ) (other : Parts w α) (state : σ) :
    Except AllocError Unit × Parts w α × σ × List (Event α) :=
  match self.reserve alloc other.length state with
  | (.error error, self, state) => (.error error, self, state, [])
  | (.ok (), self, state) =>
      let moved := self.moveFrom other (List.range other.length.toNat)
      (.ok (), moved.1, state, moved.2)

/-- `push_within_capacity`. -/
def pushWithinCapacity (self : Parts w α) (value : α) :
    Except α Unit × Parts w α × List (Event α) :=
  if self.capacity.toNat ≤ self.length.toNat then
    (.error value, self, [])
  else
    let dst := offset w α self.length
    (.ok (), { self with cells := self.cells.set dst (.val value), length := self.length + 1 },
      ofMul (sizeOf w α) self.length ++ [.write dst (.val value)] ++ ofAdd self.length 1)

/-- `insert_unchecked`. -/
def insertUnchecked (self : Parts w α) (alloc : Allocator w σ) (index : Usize w) (value : α)
    (state : σ) : Except AllocError Unit × Parts w α × σ × List (Event α) :=
  if index = self.length then
    self.push alloc value state
  else
    match self.reserve alloc 1 state with
    | (.error error, self, state) => (.error error, self, state, [.dropValue value])
    | (.ok (), self, state) =>
        let size := (sizeOf w α).toNat
        let base := offset w α index
        let count := (sizeOf w α * (self.length - index)).toNat
        let cells := self.cells.copy size base (base + size) count
        (.ok (), { self with cells := cells.set base (.val value) }, state,
          ofMul (sizeOf w α) index ++ ofSub self.length index ++
            ofMul (sizeOf w α) (self.length - index) ++
            ((List.range count).flatMap fun step =>
              [.read (base + size * step) (self.cells (base + size * step)),
                .write (base + size + size * step) (self.cells (base + size * step))]) ++
            [.write base (.val value)])

/-- `remove_unchecked`. -/
def removeUnchecked (self : Parts w α) (index : Usize w) :
    Cell α × Parts w α × List (Event α) :=
  let size := (sizeOf w α).toNat
  let addr := offset w α index
  let count := (self.length - index).toNat
  (self.cells addr,
    { self with
      cells := self.cells.copy size (addr + size) addr count
      length := self.length - 1 },
    ofMul (sizeOf w α) index ++ [.read addr (self.cells addr)] ++ ofSub self.length index ++
      ((List.range count).flatMap fun step =>
        [.read (addr + size + size * step) (self.cells (addr + size + size * step)),
          .write (addr + size * step) (self.cells (addr + size + size * step))]) ++
      ofSub self.length 1)

/-- `swap_remove_unchecked`. -/
def swapRemoveUnchecked (self : Parts w α) (index : Usize w) :
    Cell α × Parts w α × List (Event α) :=
  let addr := offset w α index
  let endAddr := offset w α (self.length - 1)
  (self.cells addr,
    { self with
      cells := self.cells.set addr (self.cells endAddr)
      length := self.length - 1 },
    ofMul (sizeOf w α) index ++ ofSub self.length 1 ++
      ofMul (sizeOf w α) (self.length - 1) ++
      [.read addr (self.cells addr), .read endAddr (self.cells endAddr),
        .write addr (self.cells endAddr)] ++
      ofSub self.length 1)

/-- `truncate`. The range of its loop is empty when `len - 1` wraps. -/
def truncate (self : Parts w α) (len : Usize w) : Parts w α × List (Event α) :=
  if self.length.toNat ≤ len.toNat then
    (self, [])
  else
    let first := (len - 1).toNat
    ({ self with length := len },
      ofSub len 1 ++
        (List.range' first (self.length.toNat - first)).map fun index =>
          .dropInPlace (offset w α (BitVec.ofNat w index))
            (self.cells (offset w α (BitVec.ofNat w index))))

/-- The block that a reservation obtains from the allocator. -/
def granted (self : Parts w α) (alloc : Allocator w σ) (additional : Usize w) (state : σ) :
    Option (Slice w) :=
  if self.capacity = 0 then
    (firstLayout w α additional).bind fun layout => (alloc.allocate state layout).1
  else
    (growLayouts α self.capacity additional).bind fun layouts =>
      (alloc.grow state self.data layouts.1 layouts.2).1

/-- The array after a reservation that obtained a block. -/
def enlarged (self : Parts w α) (slice : Slice w) : Parts w α where
  data := slice.ptr
  length := if self.capacity = 0 then 0 else self.length
  capacity := slice.len
  cells :=
    if self.capacity = 0 then .fresh
    else self.cells.keep (sizeOf w α).toNat (sizeOf w α * self.capacity).toNat
  bytes := slice.len

theorem firstLayout_eq_some {additional : Usize w} {layout : Layout w} :
    firstLayout w α additional = some layout ↔
      (sizeOf w α).toNat * additional.toNat < 2 ^ w ∧
        layout.size = sizeOf w α * additional ∧ layout.align = alignOf w α := by
  simp only [firstLayout, Option.bind_eq_bind, Option.bind_eq_some_iff,
    Usize.checkedMul_eq_some, Layout.fromSizeAlign_eq_some]
  constructor
  · rintro ⟨_, ⟨small, rfl⟩, size, align⟩
    exact ⟨small, size, align⟩
  · rintro ⟨small, size, align⟩
    exact ⟨_, ⟨small, rfl⟩, size, align⟩

theorem growLayouts_eq_some {capacity additional : Usize w} {old new : Layout w}
    (layouts : growLayouts α capacity additional = some (old, new)) :
    old.size.toNat = (sizeOf w α).toNat * capacity.toNat ∧
      old.size = sizeOf w α * capacity ∧
      new.size.toNat = (sizeOf w α).toNat * (capacity.toNat + additional.toNat) := by
  simp only [growLayouts, Option.bind_eq_bind, Option.bind_eq_some_iff,
    Usize.checkedMul_eq_some, Usize.checkedAdd_eq_some, Layout.fromSizeAlign_eq_some,
    Option.pure_def, Option.some.injEq, Prod.mk.injEq] at layouts
  obtain ⟨_, ⟨oldSmall, rfl⟩, _, ⟨sum, rfl⟩, _, ⟨newSmall, rfl⟩, _, ⟨oldSize, _⟩, _,
    ⟨newSize, _⟩, rfl, rfl⟩ := layouts
  rw [BitVec.toNat_add, Nat.mod_eq_of_lt sum] at newSmall
  rw [oldSize, newSize, BitVec.toNat_mul, BitVec.toNat_mul, BitVec.toNat_add,
    Nat.mod_eq_of_lt sum, Nat.mod_eq_of_lt oldSmall, Nat.mod_eq_of_lt newSmall]
  exact ⟨rfl, rfl, rfl⟩

variable {self : Parts w α} {alloc : Allocator w σ} {additional : Usize w} {state : σ}
  {slice : Slice w}

/-- A reservation either leaves the array as it is or moves it to the block that
the allocator grants. -/
theorem reserve_cases (self : Parts w α) (alloc : Allocator w σ) (additional : Usize w)
    (state : σ) :
    (self.granted alloc additional state = none ∧
        ∃ after, self.reserve alloc additional state = (.error .allocError, self, after)) ∨
      ∃ slice, self.granted alloc additional state = some slice ∧
        ∃ after, self.reserve alloc additional state = (.ok (), self.enlarged slice, after) := by
  unfold reserve granted enlarged
  split
  · cases layouts : firstLayout w α additional with
    | none => exact .inl ⟨rfl, state, rfl⟩
    | some layout =>
        rcases answer : alloc.allocate state layout with ⟨_ | slice, after⟩
        · exact .inl ⟨by simp [answer], after, by simp [answer]⟩
        · exact .inr ⟨slice, by simp [answer], after, by simp [answer]⟩
  · cases layouts : growLayouts α self.capacity additional with
    | none => exact .inl ⟨rfl, state, rfl⟩
    | some layouts' =>
        obtain ⟨old, new⟩ := layouts'
        have size := (growLayouts_eq_some layouts).2.1
        rcases answer : alloc.grow state self.data old new with ⟨_ | slice, after⟩
        · exact .inl ⟨by simp [answer], after, by simp [answer]⟩
        · exact .inr ⟨slice, by simp [answer], after, by simp [answer, size]⟩

/-- The granted block has room for the elements it was reserved for. -/
theorem granted_len (honours : alloc.Honours)
    (grant : self.granted alloc additional state = some slice) :
    (sizeOf w α).toNat * (self.capacity.toNat + additional.toNat) ≤ slice.len.toNat ∧
      slice.len.toNat ≤ isizeMax w := by
  unfold granted at grant
  split at grant
  · rename_i empty
    obtain ⟨layout, layouts, answer⟩ := Option.bind_eq_some_iff.mp grant
    obtain ⟨small, size, _⟩ := firstLayout_eq_some.mp layouts
    have honoured := honours.allocate state layout slice answer
    rw [size, BitVec.toNat_mul, Nat.mod_eq_of_lt small] at honoured
    simpa only [empty, BitVec.ofNat_eq_ofNat, BitVec.toNat_zero, Nat.zero_add] using honoured
  · obtain ⟨⟨old, new⟩, layouts, answer⟩ := Option.bind_eq_some_iff.mp grant
    rw [← (growLayouts_eq_some layouts).2.2]
    exact honours.grow state self.data old new slice answer

/-- The length is within the capacity and the capacity within the block. -/
structure Within (array : Parts w α) : Prop where
  length : array.length.toNat ≤ array.capacity.toNat
  block : (sizeOf w α).toNat * array.capacity.toNat ≤ array.bytes.toNat

/-- The bounds together with the size limit of an allocation. -/
structure Owned (array : Parts w α) : Prop extends array.Within where
  bytes : array.bytes.toNat ≤ isizeMax w

/-- The bytes of an element below the capacity are inside the block. -/
theorem Within.mul_add_le (within : self.Within) {index : Nat}
    (inside : index < self.capacity.toNat) :
    (sizeOf w α).toNat * index + (sizeOf w α).toNat ≤ self.bytes.toNat :=
  (Nat.mul_le_mul_left _ inside).trans within.block

/-- The offset of an element below the capacity is not reduced. -/
theorem Within.mul_lt (within : self.Within) {index : Nat}
    (inside : index < self.capacity.toNat) : (sizeOf w α).toNat * index < 2 ^ w :=
  lt_of_le_of_lt ((Nat.le_add_right _ _).trans (within.mul_add_le inside)) self.bytes.isLt

/-- The elements of an array within its block have offsets that do not wrap. -/
theorem Within.mul_length_lt (within : self.Within) :
    (sizeOf w α).toNat * self.length.toNat < 2 ^ w :=
  lt_of_le_of_lt ((Nat.mul_le_mul_left _ within.length).trans within.block) self.bytes.isLt

/-- An offset that does not wrap. -/
theorem offset_eq {index : Usize w} (small : (sizeOf w α).toNat * index.toNat < 2 ^ w) :
    offset w α index = (sizeOf w α).toNat * index.toNat := by
  rw [offset, BitVec.toNat_mul, Nat.mod_eq_of_lt small]

theorem pushWithinCapacity_of_le {value : α}
    (full : self.capacity.toNat ≤ self.length.toNat) :
    self.pushWithinCapacity value = (.error value, self, []) := if_pos full

/-- A push within the capacity writes the cell past the last one. -/
theorem pushWithinCapacity_of_lt (within : self.Within) {value : α}
    (room : self.length.toNat < self.capacity.toNat) :
    self.pushWithinCapacity value =
      (.ok (), { self with
        cells := self.cells.set ((sizeOf w α).toNat * self.length.toNat) (.val value)
        length := self.length + 1 },
        [.write ((sizeOf w α).toNat * self.length.toNat) (.val value)]) := by
  have length : self.length.toNat + (1 : Usize w).toNat < 2 ^ w :=
    lt_of_le_of_lt (Nat.add_le_add_left (Nat.mod_le 1 _) _)
      (lt_of_le_of_lt room self.capacity.isLt)
  unfold pushWithinCapacity
  rw [if_neg (not_le.mpr room), offset_eq (within.mul_lt room), ofMul_eq_nil (within.mul_lt room),
    ofAdd_eq_nil length]
  rfl

/-- Where the elements have offsets that do not wrap, so has each of them. -/
theorem mul_lt_of_lt (small : (sizeOf w α).toNat * self.length.toNat < 2 ^ w) {index : Nat}
    (inside : index < self.length.toNat) : (sizeOf w α).toNat * index < 2 ^ w :=
  lt_of_le_of_lt (Nat.mul_le_mul_left _ inside.le) small

/-- A pop of a nonempty array reads the last cell. -/
theorem pop_of_pos (small : (sizeOf w α).toNat * self.length.toNat < 2 ^ w)
    (occupied : 0 < self.length.toNat) :
    self.pop =
      (self.cells ((sizeOf w α).toNat * (self.length.toNat - 1)),
        { self with length := self.length - 1 },
        [.read ((sizeOf w α).toNat * (self.length.toNat - 1))
          (self.cells ((sizeOf w α).toNat * (self.length.toNat - 1)))]) := by
  have pred := toNat_pred occupied
  have last := mul_lt_of_lt small (Nat.sub_lt occupied Nat.one_pos)
  have offset : ((self.length - 1) * sizeOf w α).toNat =
      (sizeOf w α).toNat * (self.length.toNat - 1) := by
    rw [BitVec.toNat_mul, pred, Nat.mul_comm, Nat.mod_eq_of_lt last]
  unfold pop
  dsimp only
  rw [offset, ofSub_one_eq_nil occupied, ofMul_eq_nil (by rw [pred, Nat.mul_comm]; exact last)]
  rfl

/-- An in-bounds `swap_remove_unchecked` moves the last cell into the gap. -/
theorem swapRemoveUnchecked_of_lt (small : (sizeOf w α).toNat * self.length.toNat < 2 ^ w)
    {index : Usize w} (inside : index.toNat < self.length.toNat) :
    self.swapRemoveUnchecked index =
      let addr := (sizeOf w α).toNat * index.toNat
      let endAddr := (sizeOf w α).toNat * (self.length.toNat - 1)
      (self.cells addr,
        { self with cells := self.cells.set addr (self.cells endAddr), length := self.length - 1 },
        [.read addr (self.cells addr), .read endAddr (self.cells endAddr),
          .write addr (self.cells endAddr)]) := by
  have occupied := Nat.zero_lt_of_lt inside
  have pred := toNat_pred occupied
  have place := mul_lt_of_lt small inside
  have last : (sizeOf w α).toNat * (self.length - 1).toNat < 2 ^ w := by
    rw [pred]
    exact mul_lt_of_lt small (Nat.sub_lt occupied Nat.one_pos)
  unfold swapRemoveUnchecked
  rw [offset_eq last, offset_eq place, ofMul_eq_nil place, ofMul_eq_nil last,
    ofSub_one_eq_nil occupied, pred]
  rfl

/-- A push reports an error exactly when no block is granted or the offset of
the element past a full block does not fit `isize`. -/
theorem push_cases (self : Parts w α) (alloc : Allocator w σ) (value : α) (state : σ) :
    (self.granted alloc self.room state = none ∧ ∃ after,
        self.push alloc value state = (.error .allocError, self, after, [.dropValue value])) ∨
      ∃ slice, self.granted alloc self.room state = some slice ∧ ∃ after,
        isizeMax w < (sizeOf w α).toNat * slice.len.toNat ∧
            self.push alloc value state =
              (.error .allocError, self.enlarged slice, after, [.dropValue value]) ∨
          (sizeOf w α).toNat * slice.len.toNat ≤ isizeMax w ∧
            let end_ := (sizeOf w α).toNat * slice.len.toNat
            let moved := self.enlarged slice
            self.push alloc value state =
              (.ok (), { moved with cells := moved.cells.set end_ (.val value) }, after,
                [.dropInPlace end_ (moved.cells end_), .write end_ (.val value)]) := by
  rcases self.reserve_cases alloc self.room state with
    ⟨none, after, reserved⟩ | ⟨slice, grant, after, reserved⟩
  · exact .inl ⟨none, after, by simp only [push, reserved]⟩
  · refine .inr ⟨slice, grant, after, ?_⟩
    have capacity : (self.enlarged slice).capacity = slice.len := rfl
    have bound := isizeMax_lt w
    by_cases fits : (sizeOf w α).toNat * slice.len.toNat ≤ isizeMax w
    · have small := lt_of_le_of_lt fits bound
      have product : (sizeOf w α).checkedMul slice.len = some (sizeOf w α * slice.len) :=
        Usize.checkedMul_eq_some.mpr ⟨small, rfl⟩
      have offset : (sizeOf w α * slice.len).toNat = (sizeOf w α).toNat * slice.len.toNat := by
        rw [BitVec.toNat_mul, Nat.mod_eq_of_lt small]
      refine .inr ⟨fits, ?_⟩
      simp only [push, reserved, capacity, product, offset, not_lt.mpr fits, if_false]
    · refine .inl ⟨by omega, ?_⟩
      simp only [push, reserved, capacity]
      cases product : (sizeOf w α).checkedMul slice.len with
      | none => rfl
      | some offset =>
          obtain ⟨small, rfl⟩ := Usize.checkedMul_eq_some.mp product
          simp only [BitVec.toNat_mul, Nat.mod_eq_of_lt small, gt_iff_lt, not_le.mp fits,
            if_true]

/-- How many elements an insertion in bounds reserves. -/
def insertRoom (self : Parts w α) (index : Usize w) : Usize w :=
  if index = self.length then self.room else 1

/-- An insertion reports an error exactly when no block is granted or when it is a
push that reports one; otherwise the array is in the block that is granted. -/
theorem insertUnchecked_cases (self : Parts w α) (alloc : Allocator w σ) (index : Usize w)
    (value : α) (state : σ) :
    (self.granted alloc (self.insertRoom index) state = none ∧ ∃ after,
        self.insertUnchecked alloc index value state =
          (.error .allocError, self, after, [.dropValue value])) ∨
      ∃ slice, self.granted alloc (self.insertRoom index) state = some slice ∧
        (((index = self.length ∧ isizeMax w < (sizeOf w α).toNat * slice.len.toNat) ∧ ∃ after,
            self.insertUnchecked alloc index value state =
              (.error .allocError, self.enlarged slice, after, [.dropValue value])) ∨
          ¬ (index = self.length ∧ isizeMax w < (sizeOf w α).toNat * slice.len.toNat) ∧
            (self.insertUnchecked alloc index value state).1 = .ok () ∧
            (self.insertUnchecked alloc index value state).2.1 =
              { self.enlarged slice with
                cells := (self.insertUnchecked alloc index value state).2.1.cells }) := by
  unfold insertUnchecked insertRoom
  by_cases last : index = self.length
  · rw [if_pos last, if_pos last]
    rcases self.push_cases alloc value state with
      ⟨refused, after, pushed⟩ | ⟨slice, grant, after, ⟨late, pushed⟩ | ⟨fits, pushed⟩⟩
    · exact .inl ⟨refused, after, pushed⟩
    · exact .inr ⟨slice, grant, .inl ⟨⟨last, late⟩, after, pushed⟩⟩
    · exact .inr ⟨slice, grant, .inr ⟨fun both => not_lt.mpr fits both.2,
        by rw [pushed], by rw [pushed]⟩⟩
  · rw [if_neg last, if_neg last]
    rcases self.reserve_cases alloc 1 state with
      ⟨refused, after, reserved⟩ | ⟨slice, grant, after, reserved⟩
    · exact .inl ⟨refused, after, by rw [reserved]⟩
    · exact .inr ⟨slice, grant, .inr ⟨fun both => last both.1,
        by rw [reserved], by rw [reserved]⟩⟩

/-- Moving elements over changes the contents of the block only. -/
theorem moveFrom_same (self other : Parts w α) (indices : List Nat) :
    (self.moveFrom other indices).1 =
      { self with cells := (self.moveFrom other indices).1.cells } := by
  induction indices generalizing self with
  | nil => rfl
  | cons index rest ih => exact ih _

end Parts

namespace RawArray

open Event

variable [Element w α]

/-- `Array::pop` and `RawArray::pop`. -/
def pop (self : Parts w α) : Option (Cell α) × Parts w α × List (Event α) :=
  if self.length = 0 then
    (none, self, [])
  else
    let popped := self.pop
    (some popped.1, popped.2.1, popped.2.2)

/-- `Array::insert` and `RawArray::insert`. -/
def insert (self : Parts w α) (alloc : Allocator w σ) (index : Usize w) (value : α) (state : σ) :
    Except AllocError (Option Unit) × Parts w α × σ × List (Event α) :=
  if self.length.toNat < index.toNat then
    (.ok none, self, state, [.dropValue value])
  else
    let inserted := self.insertUnchecked alloc index value state
    (inserted.1.map some, inserted.2)

/-- `Array::remove` and `RawArray::remove`. -/
def remove (self : Parts w α) (index : Usize w) :
    Option (Cell α) × Parts w α × List (Event α) :=
  if index = self.length - 1 then
    let popped := self.pop
    (some popped.1, popped.2.1, ofSub self.length 1 ++ popped.2.2)
  else if self.length.toNat ≤ index.toNat then
    (none, self, ofSub self.length 1)
  else
    let removed := self.removeUnchecked index
    (some removed.1, removed.2.1, ofSub self.length 1 ++ removed.2.2)

/-- `Array::swap_remove` and `RawArray::swap_remove`. -/
def swapRemove (self : Parts w α) (index : Usize w) :
    Option (Cell α) × Parts w α × List (Event α) :=
  if index = self.length - 1 then
    let popped := pop self
    (popped.1, popped.2.1, ofSub self.length 1 ++ popped.2.2)
  else if self.length.toNat ≤ index.toNat then
    (none, self, ofSub self.length 1)
  else
    let removed := self.swapRemoveUnchecked index
    (some removed.1, removed.2.1, ofSub self.length 1 ++ removed.2.2)

variable {self : Parts w α}

/-- A pop reads the last cell. -/
theorem pop_of_pos (small : (sizeOf w α).toNat * self.length.toNat < 2 ^ w)
    (occupied : 0 < self.length.toNat) :
    pop self =
      (some (self.cells ((sizeOf w α).toNat * (self.length.toNat - 1))),
        { self with length := self.length - 1 },
        [.read ((sizeOf w α).toNat * (self.length.toNat - 1))
          (self.cells ((sizeOf w α).toNat * (self.length.toNat - 1)))]) := by
  have nonempty : self.length ≠ 0 := fun zero => by simp [zero] at occupied
  unfold pop
  rw [if_neg nonempty, Parts.pop_of_pos small occupied]

end RawArray

namespace FixedBufferAllocator

/-- A fixed buffer allocator as arrays use it, with the memory it copies in. -/
def allocator (w : Nat) : Allocator w (FixedBufferAllocator w × Memory w) where
  allocate state layout :=
    match state.1.allocate layout with
    | none => (none, state)
    | some (slice, fba) => (some slice, fba, state.2)
  grow state ptr oldLayout newLayout := state.1.grow state.2 ptr oldLayout newLayout

/-- The blocks of a fixed buffer allocator have exactly the requested size. -/
theorem allocator_honours (w : Nat) : (allocator w).Honours where
  allocate := by
    intro state layout slice answer
    change (match state.1.allocate layout with
      | none => (none, state)
      | some (slice, fba) => (some slice, fba, state.2)).1 = some slice at answer
    cases granted : state.1.allocate layout with
    | none => simp [granted] at answer
    | some result =>
        obtain ⟨first, after⟩ := result
        obtain ⟨_, rfl, _⟩ := allocate_eq_some.mp granted
        rw [granted] at answer
        cases answer
        exact ⟨le_rfl, layout.size_le⟩
  grow := by
    intro state ptr oldLayout newLayout slice answer
    change (state.1.grow state.2 ptr oldLayout newLayout).1 = some slice at answer
    by_cases sameAlign : oldLayout.align = newLayout.align
    · rcases (grow_cases sameAlign : state.1.GrowsInPlace ptr oldLayout newLayout ∧ _ ∨ _) with
        ⟨_, grown⟩ | ⟨_, grown⟩ <;> rw [grown] at answer
      · cases answer
        exact ⟨le_rfl, newLayout.size_le⟩
      · cases answer
    · rw [grow_of_align_ne sameAlign] at answer
      rcases state.1.relocate_cases state.2 ptr oldLayout newLayout with
        ⟨_, moved⟩ | ⟨result, middle, granted, moved⟩ <;> rw [moved] at answer
      · cases answer
      · cases answer
        obtain ⟨_, rfl, _⟩ := allocate_eq_some.mp granted
        exact ⟨le_rfl, newLayout.size_le⟩

end FixedBufferAllocator

end Stdx
