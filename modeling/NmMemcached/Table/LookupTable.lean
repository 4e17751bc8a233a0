import Mathlib.Algebra.Order.Ring.Nat
import Mathlib.Logic.Function.Basic
import Mathlib.Tactic.Common

/-!
# LookupTable — the two-sided table of `inc/nmmc_tpl.hh`

`LookupTable<T,S,K>` keeps two items per key, side a and side b, and one bit per key that says
which side is shown (bit set: side a).  Sixty-four keys share one word of the bitmap.

* The item type stays generic; what the template needs of it is the class `Item`.
* The arrays are functions of the index.  `S` is a positive multiple of 64 wherever the template
  is instantiated, so every index below is the one the source computes; which of them stay inside
  the arrays is a separate question.
* Keys are natural numbers: the caller's conversion to `uint32_t` is part of the caller.
* An iterator is the address of an item, so it keeps naming a place while the table changes.
* A thrown string literal is the `Except.error` of the result; the table at the throw is kept.
-/

namespace NmMemcached
namespace Table

universe u

/-! ## Items -/

/-- The bit field `stat.valid`. -/
abbrev ValidBit := BitVec 1

def statOn : ValidBit := 0
def statOff : ValidBit := 1

/-- `OK` and `ERR`. -/
def ok : Int := 0
def err : Int := 1

/-- What the template uses of `T`: the item `memset` leaves, and the bit `stat.valid`. -/
class Item (T : Type u) where
  zero : T
  valid : T → ValidBit
  setValid : ValidBit → T → T
  valid_zero : valid zero = 0
  valid_setValid : ∀ (v : ValidBit) (x : T), valid (setValid v x) = v

attribute [simp] Item.valid_setValid

/-- The plainest item: the valid bit in front of a payload. -/
instance {α : Type u} [Zero α] : Item (ValidBit × α) where
  zero := (0, 0)
  valid x := x.1
  setValid v x := (v, x.2)
  valid_zero := rfl
  valid_setValid _ _ := rfl

/-! ## The table -/

structure LookupTable (T : Type u) (S : Nat) where
  dataSideA : Nat → T
  dataSideB : Nat → T
  end_ : T
  dataSideBmp : Nat → BitVec 64
  dataNoticeBmp : Nat → BitVec 64
  virtualClockCounter : BitVec 64
  virtualClockCounterPrv : BitVec 64

/-- An address of an item: an entry of side a, an entry of side b, or `end_`. -/
inductive Iterator
  | sideA (gcnt : Nat)
  | sideB (gcnt : Nat)
  | end_
  deriving DecidableEq, Repr

namespace LookupTable

variable {T : Type u} {S : Nat}

/-- `((uint64_t)1)<<(gcnt - ((gcnt>>6)<<6))`. -/
def bits (gcnt : Nat) : BitVec 64 :=
  1#64 <<< (gcnt - ((gcnt >>> 6) <<< 6))

/-- Read through an iterator. -/
def get (t : LookupTable T S) : Iterator → T
  | .sideA n => t.dataSideA n
  | .sideB n => t.dataSideB n
  | .end_ => t.end_

/-- Write through an iterator. -/
def put (t : LookupTable T S) (itr : Iterator) (x : T) : LookupTable T S :=
  match itr with
  | .sideA n => { t with dataSideA := Function.update t.dataSideA n x }
  | .sideB n => { t with dataSideB := Function.update t.dataSideB n x }
  | .end_ => { t with end_ := x }

def clock (t : LookupTable T S) : LookupTable T S :=
  { t with virtualClockCounter := t.virtualClockCounter + 1 }

def swapSide (t : LookupTable T S) (gcnt : Nat) : LookupTable T S :=
  { t with
    dataSideBmp := Function.update t.dataSideBmp (gcnt >>> 6)
      (t.dataSideBmp (gcnt >>> 6) ^^^ bits gcnt) }

def notifyChange (t : LookupTable T S) (gcnt : Nat) : LookupTable T S :=
  { t with
    dataNoticeBmp := Function.update t.dataNoticeBmp (gcnt >>> 6)
      (t.dataNoticeBmp (gcnt >>> 6) ^^^ bits gcnt) }

def clearNoticeBmp64 (t : LookupTable T S) (gcnt : Nat) : LookupTable T S :=
  if gcnt ≤ S then
    { t with dataNoticeBmp := Function.update t.dataNoticeBmp (gcnt >>> 6) 0 }
  else
    t

def findNoticeBmp64 (t : LookupTable T S) (gcnt : Nat) : BitVec 64 :=
  if gcnt > S - 1 then 0 else t.dataNoticeBmp (gcnt >>> 6)

variable [Item T]

/-- `Clear` writes every field, so the table it leaves does not depend on the one before. -/
def clear : LookupTable T S :=
  { dataSideA := fun _ => Item.zero
    dataSideB := fun _ => Item.zero
    end_ := Item.zero
    dataSideBmp := fun _ => 0
    dataNoticeBmp := fun _ => 0
    virtualClockCounter := 0
    virtualClockCounterPrv := 0 }

def find (t : LookupTable T S) (gcnt : Nat) (flag : Int) : Iterator :=
  if gcnt > S - 1 then
    .end_
  else if flag ≠ 0 then
    -- back side is always return.
    if t.dataSideBmp (gcnt >>> 6) &&& bits gcnt = 0 then .sideA gcnt else .sideB gcnt
  else if t.dataSideBmp (gcnt >>> 6) &&& bits gcnt ≠ 0 then
    -- The front side is returned only while it is valid.
    if Item.valid (t.dataSideA gcnt) = statOn then .sideA gcnt else .end_
  else
    if Item.valid (t.dataSideB gcnt) = statOn then .sideB gcnt else .end_

/-- What `Add` and `Del` share: the clock gate, the back side, one write through the iterator,
the swap and the notice.  `f` is the write. -/
def updateBack (t : LookupTable T S) (gcnt : Nat) (nochkCounter : Int) (f : T → T) :
    Except String Int × LookupTable T S :=
  if nochkCounter ≠ 0 ∧ t.virtualClockCounter ≤ t.virtualClockCounterPrv then
    -- No tick since the last accepted update.
    (.ok err, t)
  else
    -- The tick is used up before the key is looked at.
    let t' : LookupTable T S :=
      if nochkCounter ≠ 0 then { t with virtualClockCounterPrv := t.virtualClockCounter } else t
    let itr := t'.find gcnt 1
    if itr = .end_ then
      (.error "exception not found(add_link).", t')
    else
      (.ok ok, ((t'.put itr (f (t'.get itr))).swapSide gcnt).notifyChange gcnt)

/-- `memcpy(&(*itr), itm, sizeof(*itm))` after `itm->stat.valid = STAT_ON`. -/
def add (t : LookupTable T S) (gcnt : Nat) (itm : T) (nochkCounter : Int) :
    Except String Int × LookupTable T S :=
  t.updateBack gcnt nochkCounter fun _ => Item.setValid statOn itm

/-- `itr->stat.valid = STAT_OFF`. -/
def del (t : LookupTable T S) (gcnt : Nat) (nochkCounter : Int) :
    Except String Int × LookupTable T S :=
  t.updateBack gcnt nochkCounter (Item.setValid statOff)

/-- `operator[]`: the reference it returns is the iterator. -/
def index (t : LookupTable T S) (gcnt : Nat) : Except String Iterator × LookupTable T S :=
  if gcnt > S - 1 then
    (.error "invalid index", t)
  else
    let itr := t.find gcnt 0
    if itr ≠ .end_ then
      (.ok itr, t.put itr (Item.setValid statOn (t.get itr)))
    else
      let itr := t.find gcnt 1
      if itr = .end_ then
        (.error "exception operator[]", t)
      else
        -- The hidden item comes to the front with whatever it holds.
        (.ok itr, (t.put itr (Item.setValid statOn (t.get itr))).swapSide gcnt)

/-- One turn of the first loop of `EnumerateForUpdate`: copy the shown side over the back side,
let the callback change the copy, mark it valid. -/
def enumerateOne (func : T → T) (t : LookupTable T S) (gcnt : Nat) : LookupTable T S :=
  if t.dataSideBmp (gcnt >>> 6) &&& bits gcnt ≠ 0 then
    { t with
      dataSideB := Function.update t.dataSideB gcnt
        (Item.setValid statOn (func (t.dataSideA gcnt))) }
  else
    { t with
      dataSideA := Function.update t.dataSideA gcnt
        (Item.setValid statOn (func (t.dataSideB gcnt))) }

/-- One turn of the second loop: flip a whole word of the side bitmap. -/
def flipWord (t : LookupTable T S) (gcnt : Nat) : LookupTable T S :=
  { t with
    dataSideBmp := Function.update t.dataSideBmp gcnt
      (t.dataSideBmp gcnt ^^^ BitVec.allOnes 64) }

def enumerateForUpdate (t : LookupTable T S) (func : T → T) : LookupTable T S :=
  -- The first loop starts at key 1, the second flips the bits of all keys.
  (List.range (S >>> 6)).foldl flipWord
    ((List.range' 1 (S - 1)).foldl (enumerateOne func) t)

end LookupTable

end Table
end NmMemcached
