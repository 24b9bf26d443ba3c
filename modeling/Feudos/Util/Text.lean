/-!
# Bytes, strings and traced buffers

- `bytes` and `cstr` turn the string literals of the source into the bytes a C program sees;
- `Buffer` is an array of bytes with the indices read and written so far, latest first; no
  function reads these two lists, the bounds results are about them;
- `Buffer.toNul` is the C string at the start of a buffer.
-/

namespace Feudos

/-! ## Literals -/

/-- The characters of a string literal. -/
def bytes (s : String) : List UInt8 :=
  s.toList.map Char.toUInt8

/-- A string literal in memory: its characters and the terminator. -/
def cstr (s : String) : List UInt8 :=
  bytes s ++ [0]

/-- Conversion of a `char` to `int`. -/
def charToInt (c : UInt8) : Int32 :=
  c.toInt8.toInt32

/-- Conversion of an `int` to `char`. -/
def intToChar (v : Int32) : UInt8 :=
  v.toInt8.toUInt8

@[simp] theorem intToChar_charToInt (c : UInt8) : intToChar (charToInt c) = c := by
  simp [intToChar, charToInt]

/-! ## Buffers -/

/-- An array of bytes.  Indices at or behind the array's length are the memory that follows it. -/
structure Buffer where
  get : Nat → UInt8
  reads : List Nat
  writes : List Nat

namespace Buffer

/-- An array with the given contents, not yet accessed. -/
def fresh (get : Nat → UInt8) : Buffer :=
  { get := get, reads := [], writes := [] }

/-- Record a read of index `i`. -/
def read (b : Buffer) (i : Nat) : Buffer :=
  { b with reads := i :: b.reads }

/-- `b[i] = v`. -/
def write (b : Buffer) (i : Nat) (v : UInt8) : Buffer :=
  { b with
    get := fun j => if j = i then v else b.get j
    writes := i :: b.writes }

@[simp] theorem read_get (b : Buffer) (i : Nat) : (b.read i).get = b.get := rfl

@[simp] theorem write_get (b : Buffer) (i j : Nat) (v : UInt8) :
    (b.write i v).get j = if j = i then v else b.get j := rfl

/-- The bytes at `i, i + 1, …, i + n - 1`. -/
def slice (b : Buffer) (i n : Nat) : List UInt8 :=
  (List.range n).map (fun j => b.get (i + j))

/-- The string that starts at index 0 of a buffer of `n` bytes: its bytes before the first NUL. -/
def toNul (b : Buffer) (n : Nat) : List UInt8 :=
  (b.slice 0 n).takeWhile (· ≠ 0)

@[simp] theorem slice_length (b : Buffer) (i n : Nat) : (b.slice i n).length = n := by
  simp [slice]

theorem slice_getElem? (b : Buffer) (i n j : Nat) :
    (b.slice i n)[j]? = if j < n then some (b.get (i + j)) else none := by
  simp only [slice, List.getElem?_map]
  split
  · simp [*]
  · simp [*]

/-- A slice is a list when it has its bytes, one by one. -/
theorem slice_eq {b : Buffer} {i : Nat} {l : List UInt8}
    (h : ∀ j, j < l.length → (l)[j]? = some (b.get (i + j))) : b.slice i l.length = l := by
  apply List.ext_getElem?
  intro j
  rw [slice_getElem?]
  by_cases hj : j < l.length
  · rw [if_pos hj, h j hj]
  · rw [if_neg hj, List.getElem?_eq_none (Nat.le_of_not_lt hj)]

theorem slice_zero (b : Buffer) (i : Nat) : b.slice i 0 = [] := rfl

theorem slice_succ (b : Buffer) (i n : Nat) :
    b.slice i (n + 1) = b.slice i n ++ [b.get (i + n)] := by
  simp [slice, List.range_succ]

theorem slice_add (b : Buffer) (i m n : Nat) :
    b.slice i (m + n) = b.slice i m ++ b.slice (i + m) n := by
  simp [slice, List.range_add, Nat.add_assoc]

theorem slice_cons (b : Buffer) (i n : Nat) :
    b.slice i (n + 1) = b.get i :: b.slice (i + 1) n := by
  rw [Nat.add_comm n 1, slice_add]
  rfl

/-- Two slices are equal when their bytes are. -/
theorem slice_congr {b b' : Buffer} {i i' n : Nat}
    (h : ∀ j, j < n → b.get (i + j) = b'.get (i' + j)) : b.slice i n = b'.slice i' n := by
  unfold slice
  apply List.map_congr_left
  intro j hj
  exact h j (List.mem_range.1 hj)

end Buffer
end Feudos
