import Hostcall.Bytes

/-!
# Scalars

The values of fixed size that a program's data and a context's state hold: integers of four
widths, floating-point numbers as bit patterns, and truth values. Each has one little-endian
form, which is the same in a bytecode file and in an arena.

`ofBytes_bytes` says that a scalar is read back from its bytes, and `bytes_ofBytes` that bytes are
written back as they were read, unless they were read as a truth value.
-/

namespace Hostcall

/-- The kinds of scalar. -/
inductive Scalar.Kind where
  | i8 | u8 | i16 | u16 | i32 | u32 | i64 | u64 | f32 | f64 | bool
  deriving DecidableEq, Repr

/-- A scalar value. Floating-point numbers are their bit patterns, so that two different
patterns of not-a-number are two different values. -/
inductive Scalar where
  | i8 (value : Int8)
  | u8 (value : UInt8)
  | i16 (value : Int16)
  | u16 (value : UInt16)
  | i32 (value : Int32)
  | u32 (value : UInt32)
  | i64 (value : Int64)
  | u64 (value : UInt64)
  | f32 (bits : UInt32)
  | f64 (bits : UInt64)
  | bool (value : Bool)
  deriving DecidableEq, Repr

namespace Scalar

/-- All kinds, in the order of their tags. -/
def Kind.all : List Kind :=
  [.i8, .u8, .i16, .u16, .i32, .u32, .i64, .u64, .f32, .f64, .bool]

/-- The name of a kind in a listing. -/
def Kind.name : Kind → String
  | .i8 => "i8"
  | .u8 => "u8"
  | .i16 => "i16"
  | .u16 => "u16"
  | .i32 => "i32"
  | .u32 => "u32"
  | .i64 => "i64"
  | .u64 => "u64"
  | .f32 => "f32"
  | .f64 => "f64"
  | .bool => "bool"

/-- The number of bytes of a scalar of this kind. -/
def Kind.size : Kind → Nat
  | .i8 | .u8 | .bool => 1
  | .i16 | .u16 => 2
  | .i32 | .u32 | .f32 => 4
  | .i64 | .u64 | .f64 => 8

def kind : Scalar → Kind
  | .i8 _ => .i8
  | .u8 _ => .u8
  | .i16 _ => .i16
  | .u16 _ => .u16
  | .i32 _ => .i32
  | .u32 _ => .u32
  | .i64 _ => .i64
  | .u64 _ => .u64
  | .f32 _ => .f32
  | .f64 _ => .f64
  | .bool _ => .bool

/-- The number of bytes of a scalar. -/
def size (s : Scalar) : Nat := s.kind.size

/-- The bits of a scalar as an unsigned number. -/
def bits : Scalar → Nat
  | .i8 v => v.toUInt8.toNat
  | .u8 v => v.toNat
  | .i16 v => v.toUInt16.toNat
  | .u16 v => v.toNat
  | .i32 v => v.toUInt32.toNat
  | .u32 v => v.toNat
  | .i64 v => v.toUInt64.toNat
  | .u64 v => v.toNat
  | .f32 b => b.toNat
  | .f64 b => b.toNat
  | .bool v => v.toNat

/-- The scalar of a kind with given bits. Any pattern but zero is the truth value `true`. -/
def ofBits (k : Kind) (n : Nat) : Scalar :=
  match k with
  | .i8 => .i8 (UInt8.ofNat n).toInt8
  | .u8 => .u8 (UInt8.ofNat n)
  | .i16 => .i16 (UInt16.ofNat n).toInt16
  | .u16 => .u16 (UInt16.ofNat n)
  | .i32 => .i32 (UInt32.ofNat n).toInt32
  | .u32 => .u32 (UInt32.ofNat n)
  | .i64 => .i64 (UInt64.ofNat n).toInt64
  | .u64 => .u64 (UInt64.ofNat n)
  | .f32 => .f32 (UInt32.ofNat n)
  | .f64 => .f64 (UInt64.ofNat n)
  | .bool => .bool (n != 0)

/-- The little-endian bytes of a scalar. -/
def bytes (s : Scalar) : List UInt8 := Bytes.ofNat s.size s.bits

/-- The scalar of a kind with given little-endian bytes. -/
def ofBytes (k : Kind) (bs : List UInt8) : Scalar := ofBits k (Bytes.toNat bs)

@[simp] theorem length_bytes (s : Scalar) : s.bytes.length = s.size := by
  simp [bytes]

theorem bits_lt (s : Scalar) : s.bits < Bytes.limit s.size := by
  cases s with
  | bool v => cases v <;> decide
  | i8 v => exact v.toUInt8.toNat_lt
  | u8 v => exact v.toNat_lt
  | i16 v => exact v.toUInt16.toNat_lt
  | u16 v => exact v.toNat_lt
  | i32 v => exact v.toUInt32.toNat_lt
  | u32 v => exact v.toNat_lt
  | i64 v => exact v.toUInt64.toNat_lt
  | u64 v => exact v.toNat_lt
  | f32 v => exact v.toNat_lt
  | f64 v => exact v.toNat_lt

@[simp] theorem kind_ofBits (k : Kind) (n : Nat) : (ofBits k n).kind = k := by
  cases k <;> rfl

theorem ofBits_bits (s : Scalar) : ofBits s.kind s.bits = s := by
  cases s with
  | bool v => cases v <;> rfl
  | _ => simp [kind, bits, ofBits]

theorem ofBytes_bytes (s : Scalar) : ofBytes s.kind s.bytes = s := by
  rw [ofBytes, bytes, Bytes.toNat_ofNat_of_lt s.bits_lt, ofBits_bits]

theorem bits_ofBits {k : Kind} {n : Nat} (hk : k ≠ .bool) (hn : n < Bytes.limit k.size) :
    (ofBits k n).bits = n := by
  cases k with
  | bool => exact absurd rfl hk
  | _ => simpa [ofBits, bits, Kind.size, Bytes.limit] using hn

theorem bytes_ofBytes {k : Kind} {bs : List UInt8} (hk : k ≠ .bool) (hlen : bs.length = k.size) :
    (ofBytes k bs).bytes = bs := by
  have hlt : Bytes.toNat bs < Bytes.limit k.size := by
    rw [← hlen]
    exact Bytes.toNat_lt bs
  rw [bytes, size, ofBytes, kind_ofBits, bits_ofBits hk hlt, ← hlen, Bytes.ofNat_toNat]

end Scalar

end Hostcall
