import NmMemcached.Lib.Mem

/-!
# Inl — the inline helpers of `inc/nmmc.inl`

`Hash32`, `Bin2Hex`, `CheckSum` and `Wrapsum`.  The arithmetic is the source's: `uint32_t` values
are `BitVec 32`, hexadecimal digits are what `std::hex` prints for one byte.
-/

namespace NmMemcached
namespace Base

open Lib

/-! ## Hash32 -/

/-- The loop of `Hash32`: the bytes `key[n-1], …, key[0]`, last first. -/
def hash32Loop (m : Mem) (key : Nat) : Nat → BitVec 32 → BitVec 32
  | 0, hash => hash
  | n + 1, hash =>
      hash32Loop m key n (((hash <<< 5) + hash) ^^^ (m (key + n)).toBitVec.setWidth 32)

def hash32 (m : Mem) (key len : Nat) : BitVec 32 :=
  hash32Loop m key len 5381

theorem hash32Loop_congr {m m' : Mem} {key key' : Nat} (n : Nat)
    (h : ∀ i < n, m (key + i) = m' (key' + i)) (hash : BitVec 32) :
    hash32Loop m key n hash = hash32Loop m' key' n hash := by
  induction n generalizing hash with
  | zero =>
      rfl
  | succ n ih =>
      have hlast := h n (Nat.lt_succ_self n)
      rw [hash32Loop, hash32Loop, hlast]
      exact ih (fun i hi => h i (Nat.lt_succ_of_lt hi)) _

/-- The hash depends on the bytes of the key alone. -/
theorem hash32_congr {m m' : Mem} {key key' len : Nat}
    (h : ∀ i < len, m (key + i) = m' (key' + i)) : hash32 m key len = hash32 m' key' len :=
  hash32Loop_congr len h 5381

/-! ## Bin2Hex -/

/-- What `ss << std::hex << (int)p` prints: no leading zero. -/
def hexOfByte (p : UInt8) : List Char :=
  Nat.toDigits 16 p.toNat

def bin2HexBytes (bs : List UInt8) : List Char :=
  bs.flatMap hexOfByte

/-- `Bin2Hex(v, l)`; a negative `l` ends the loop at once. -/
def bin2Hex (m : Mem) (v : Nat) (l : Int) : List Char :=
  bin2HexBytes (m.read v l.toNat)

/-! ## CheckSum -/

/-- The word loop and the odd tail: both add the big-endian word at the current address. -/
def sumWords (m : Mem) : Nat → Nat → BitVec 32 → BitVec 32
  | _, 0, sum => sum
  | addr, 1, sum => sum + BitVec.ofNat 32 (m.be16 addr)
  | addr, count + 2, sum => sumWords m (addr + 2) count (sum + BitVec.ofNat 32 (m.be16 addr))

/-- `while (_sum>>16) _sum = (_sum & 0xffff) + (_sum >> 16)`, with a bound on the turns. -/
def foldSum : Nat → BitVec 32 → BitVec 32
  | 0, sum => sum
  | n + 1, sum =>
      if sum >>> 16 = 0 then sum else foldSum n ((sum &&& 0xffff) + (sum >>> 16))

/-- `len` is a `uint16_t` parameter. -/
def checkSum (m : Mem) (data len : Nat) (sum : BitVec 32) : BitVec 32 :=
  ~~~ foldSum 32 (sumWords m data (len % 65536) sum)

/-- The value `Wrapsum` stores in network order. -/
def wrapsum (sum : BitVec 32) : Nat :=
  (sum &&& 0xFFFF).toNat

end Base
end NmMemcached
