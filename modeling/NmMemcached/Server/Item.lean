import NmMemcached.Lib.Mem
import NmMemcached.Table.LookupTable

/-!
# Item — `nmmc_item_t` and the table of the server

The item of the lookup table: the status word with its 1-bit `valid` and 11-bit `datalen`, the
expiry, and 1024 data bytes.  A `memcpy` of `datalen` bytes from `data` reads past the array when
`datalen` is larger; what lies there belongs to the heap, so `copyData` takes it as an argument.
-/

namespace NmMemcached
namespace Server

open Lib Table

def itemLen : Nat := 1024

structure NmmcItem where
  valid : ValidBit
  datalen : BitVec 11
  expire : BitVec 32
  data : Fin itemLen → UInt8

namespace NmmcItem

/-- `bzero(&itm, sizeof(itm))`. -/
def zeroed : NmmcItem :=
  { valid := 0
    datalen := 0
    expire := 0
    data := fun _ => 0 }

instance : Item NmmcItem where
  zero := zeroed
  valid x := x.valid
  setValid v x := { x with valid := v }
  valid_zero := rfl
  valid_setValid _ _ := rfl

@[simp] theorem item_zero : (Item.zero : NmmcItem) = zeroed := rfl

@[simp] theorem item_valid (x : NmmcItem) : Item.valid x = x.valid := rfl

@[simp] theorem item_setValid (v : ValidBit) (x : NmmcItem) :
    Item.setValid v x = { x with valid := v } := rfl

/-- `memcpy(dst, it->data, n)`; `behind` is the heap from the end of the array on. -/
def copyData (x : NmmcItem) (behind : Nat → UInt8) (n : Nat) : List UInt8 :=
  (List.range n).map fun i => if h : i < itemLen then x.data ⟨i, h⟩ else behind (i - itemLen)

@[simp] theorem length_copyData (x : NmmcItem) (behind : Nat → UInt8) (n : Nat) :
    (x.copyData behind n).length = n := by
  simp [copyData]

/-- A copy longer than the array goes on in the heap behind it. -/
theorem copyData_itemLen_add (x : NmmcItem) (behind : Nat → UInt8) (n : Nat) :
    x.copyData behind (itemLen + n) = x.copyData behind itemLen ++ (List.range n).map behind := by
  have hge : ∀ i, ¬ itemLen + i < itemLen := fun i => by omega
  simp [copyData, List.range_add, hge]

/-- `memcpy(itm.data, itm_adr, n)`, for a blob of at least `n` bytes. -/
def memcpyData (x : NmmcItem) (blob : List UInt8) (n : Nat) : NmmcItem :=
  { x with data := fun i => if i.val < n then blob[i.val]?.getD 0 else x.data i }

end NmmcItem

/-- `LookupTable<nmmc_item_t,(1<<20),uint32_t>`. -/
def tableSize : Nat := 1 <<< 20

theorem tableSize_eq : tableSize = 1048576 := rfl

theorem tableSize_pos : 0 < tableSize := by decide

abbrev Val := LookupTable NmmcItem tableSize

end Server
end NmMemcached
