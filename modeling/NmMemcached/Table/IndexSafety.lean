import NmMemcached.Lib.Commands
import NmMemcached.Table.Operations

/-!
# IndexSafety — which indices the table's functions use

The functions of `inc/nmmc_tpl.hh` that take a key, as programs over the fields of the table: a
load or a store names the array and the index, a shift its count.  Each program runs as the
function of its name.  A key of the table gives indices inside the arrays, and a key behind them is
turned away before an array is touched, but for `ClearNoticeBmp64`: its check lets the key `S` pass.
-/

namespace NmMemcached
namespace Table
namespace LookupTable

open Lib

/-! ## Accesses to the fields -/

/-- A pointer of side a or b is the address of its item. -/
inductive Access (T : Type) : Type → Type
  | loadSideA (gcnt : Nat) : Access T Iterator
  | loadSideB (gcnt : Nat) : Access T Iterator
  | get (itr : Iterator) : Access T T
  | put (itr : Iterator) (x : T) : Access T Unit
  | loadSideBmp (word : Nat) : Access T (BitVec 64)
  | storeSideBmp (word : Nat) (val : BitVec 64) : Access T Unit
  | loadNoticeBmp (word : Nat) : Access T (BitVec 64)
  | storeNoticeBmp (word : Nat) (val : BitVec 64) : Access T Unit
  | shift (count : Nat) : Access T (BitVec 64)
  | loadCounter : Access T (BitVec 64)
  | loadCounterPrv : Access T (BitVec 64)
  | storeCounterPrv (val : BitVec 64) : Access T Unit

abbrev TableProgram (T : Type) := Program (Access T)

variable {T : Type} {S : Nat}

/-- What an access answers, and the table behind it. -/
def exec {r : Type} : Access T r → LookupTable T S → r × LookupTable T S
  | .loadSideA gcnt, t => (.sideA gcnt, t)
  | .loadSideB gcnt, t => (.sideB gcnt, t)
  | .get itr, t => (t.get itr, t)
  | .put itr x, t => ((), t.put itr x)
  | .loadSideBmp word, t => (t.dataSideBmp word, t)
  | .storeSideBmp word val, t =>
      ((), { t with dataSideBmp := Function.update t.dataSideBmp word val })
  | .loadNoticeBmp word, t => (t.dataNoticeBmp word, t)
  | .storeNoticeBmp word val, t =>
      ((), { t with dataNoticeBmp := Function.update t.dataNoticeBmp word val })
  | .shift count, t => (1#64 <<< count, t)
  | .loadCounter, t => (t.virtualClockCounter, t)
  | .loadCounterPrv, t => (t.virtualClockCounterPrv, t)
  | .storeCounterPrv val, t => ((), { t with virtualClockCounterPrv := val })

def access {r : Type} (c : Access T r) : TableProgram T r := Program.call c

section Access

variable {P : ∀ {r : Type}, Access T r → Prop} {r : Type} (c : Access T r) (t : LookupTable T S)

@[simp] theorem run_access : (access c).run exec t = exec c t := rfl

@[simp] theorem all_access : (access c).All exec P t ↔ P c := Program.all_call t c

end Access

/-! ## The functions as programs -/

section Programs

/-- The bit of a key in its word. -/
def bitsProg (gcnt : Nat) : TableProgram T (BitVec 64) :=
  access (.shift (gcnt - ((gcnt >>> 6) <<< 6)))

def swapSideProg (gcnt : Nat) : TableProgram T Unit := do
  let bits ← bitsProg gcnt
  let word ← access (.loadSideBmp (gcnt >>> 6))
  access (.storeSideBmp (gcnt >>> 6) (word ^^^ bits))

def notifyChangeProg (gcnt : Nat) : TableProgram T Unit := do
  let bits ← bitsProg gcnt
  let word ← access (.loadNoticeBmp (gcnt >>> 6))
  access (.storeNoticeBmp (gcnt >>> 6) (word ^^^ bits))

def clearNoticeBmp64Prog (S gcnt : Nat) : TableProgram T Unit :=
  -- The key `S` passes.
  if gcnt ≤ S then access (.storeNoticeBmp (gcnt >>> 6) 0) else pure ()

def findNoticeBmp64Prog (S gcnt : Nat) : TableProgram T (BitVec 64) :=
  if gcnt > S - 1 then pure 0 else access (.loadNoticeBmp (gcnt >>> 6))

/-- The gate of `Add` and `Del`; the result says whether it is open. -/
def gateProg (nochkCounter : Int) : TableProgram T Bool :=
  if nochkCounter ≠ 0 then do
    let counter ← access .loadCounter
    let prv ← access .loadCounterPrv
    if counter ≤ prv then
      pure false
    else do
      let counter ← access .loadCounter
      access (.storeCounterPrv counter)
      pure true
  else
    pure true

variable [Item T]

def findProg (S gcnt : Nat) (flag : Int) : TableProgram T Iterator :=
  if gcnt > S - 1 then
    pure .end_
  else do
    let bits ← bitsProg gcnt
    let word ← access (.loadSideBmp (gcnt >>> 6))
    if flag ≠ 0 then
      if word &&& bits = 0 then access (.loadSideA gcnt) else access (.loadSideB gcnt)
    else if word &&& bits ≠ 0 then do
      let itr ← access (.loadSideA gcnt)
      let x ← access (.get itr)
      if Item.valid x = statOn then access (.loadSideA gcnt) else pure .end_
    else do
      let itr ← access (.loadSideB gcnt)
      let x ← access (.get itr)
      if Item.valid x = statOn then access (.loadSideB gcnt) else pure .end_

/-- `itr->stat.valid = v` changes one bit of the item. -/
def setValidProg (v : ValidBit) (itr : Iterator) : TableProgram T Unit := do
  let x ← access (.get itr)
  access (.put itr (Item.setValid v x))

/-- What `Add` and `Del` share. -/
def updateBackProg (S gcnt : Nat) (nochkCounter : Int) (write : Iterator → TableProgram T Unit) :
    TableProgram T (Except String Int) := do
  let gate ← gateProg nochkCounter
  if gate = false then
    pure (.ok err)
  else do
    let itr ← findProg S gcnt 1
    if itr = .end_ then
      pure (.error "exception not found(add_link).")
    else do
      write itr
      swapSideProg gcnt
      notifyChangeProg gcnt
      pure (.ok ok)

def addProg (S gcnt : Nat) (itm : T) (nochkCounter : Int) : TableProgram T (Except String Int) :=
  updateBackProg S gcnt nochkCounter fun itr => access (.put itr (Item.setValid statOn itm))

def delProg (S gcnt : Nat) (nochkCounter : Int) : TableProgram T (Except String Int) :=
  updateBackProg S gcnt nochkCounter (setValidProg statOff)

def indexProg (S gcnt : Nat) : TableProgram T (Except String Iterator) :=
  if gcnt > S - 1 then
    pure (.error "invalid index")
  else do
    let itr ← findProg S gcnt 0
    if itr ≠ .end_ then do
      setValidProg statOn itr
      pure (.ok itr)
    else do
      let itr ← findProg S gcnt 1
      if itr = .end_ then
        pure (.error "exception operator[]")
      else do
        setValidProg statOn itr
        swapSideProg gcnt
        pure (.ok itr)

end Programs

/-! ## They run as the functions -/

section Run

variable (t : LookupTable T S) (gcnt : Nat)

@[simp] theorem run_bitsProg : (bitsProg gcnt).run exec t = (bits gcnt, t) := rfl

@[simp] theorem run_swapSideProg : (swapSideProg gcnt).run exec t = ((), t.swapSide gcnt) := rfl

@[simp] theorem run_notifyChangeProg :
    (notifyChangeProg gcnt).run exec t = ((), t.notifyChange gcnt) := rfl

@[simp] theorem run_clearNoticeBmp64Prog :
    (clearNoticeBmp64Prog S gcnt).run exec t = ((), t.clearNoticeBmp64 gcnt) := by
  rw [clearNoticeBmp64Prog, clearNoticeBmp64]
  split <;> rfl

@[simp] theorem run_findNoticeBmp64Prog :
    (findNoticeBmp64Prog S gcnt).run exec t = (t.findNoticeBmp64 gcnt, t) := by
  rw [findNoticeBmp64Prog, findNoticeBmp64]
  split <;> rfl

theorem run_gateProg (n : Int) :
    (gateProg n).run exec t =
      if n ≠ 0 ∧ t.virtualClockCounter ≤ t.virtualClockCounterPrv then (false, t)
      else (true, if n ≠ 0 then { t with virtualClockCounterPrv := t.virtualClockCounter }
        else t) := by
  rw [gateProg]
  by_cases hn : n ≠ 0
  · rw [if_pos hn]
    by_cases hle : t.virtualClockCounter ≤ t.virtualClockCounterPrv
    · rw [if_pos ⟨hn, hle⟩]
      simp [exec, hle]
    · rw [if_neg fun h => hle h.2, if_pos hn]
      simp [exec, hle]
  · rw [if_neg hn, if_neg fun h => hn h.1, if_neg hn]
    rfl

variable [Item T]

@[simp] theorem run_findProg (flag : Int) :
    (findProg S gcnt flag).run exec t = (t.find gcnt flag, t) := by
  rw [findProg, find]
  split
  · rfl
  · simp only [Program.run_bind, run_bitsProg, run_access, exec, Program.after_mk, Program.run_ite,
      Program.run_pure, get]
    -- One of the five leaves.
    repeat' split
    all_goals rfl

@[simp] theorem run_setValidProg (v : ValidBit) (itr : Iterator) :
    (setValidProg v itr).run exec t = ((), t.put itr (Item.setValid v (t.get itr))) := rfl

theorem run_updateBackProg (n : Int) {write : Iterator → TableProgram T Unit} {f : T → T}
    (hwrite : ∀ (itr : Iterator) (t : LookupTable T S),
      (write itr).run exec t = ((), t.put itr (f (t.get itr)))) :
    (updateBackProg S gcnt n write).run exec t = t.updateBack gcnt n f := by
  rw [updateBackProg, updateBack, Program.run_bind, run_gateProg]
  split
  · rfl
  · simp only [Program.after_mk, Program.run_ite, Program.run_bind, run_findProg, hwrite,
      run_swapSideProg, run_notifyChangeProg, Program.run_pure, Bool.true_eq_false, if_false]

@[simp] theorem run_addProg (itm : T) (n : Int) :
    (addProg S gcnt itm n).run exec t = t.add gcnt itm n :=
  run_updateBackProg t gcnt n fun _ _ => rfl

@[simp] theorem run_delProg (n : Int) : (delProg S gcnt n).run exec t = t.del gcnt n :=
  run_updateBackProg t gcnt n fun itr t => run_setValidProg t statOff itr

@[simp] theorem run_indexProg : (indexProg S gcnt).run exec t = t.index gcnt := by
  rw [indexProg, index]
  split
  · rfl
  · simp only [Program.run_bind, run_findProg, Program.after_mk, Program.run_ite,
      run_setValidProg, run_swapSideProg, Program.run_pure]

end Run

/-! ## Bounds -/

/-- The item is one of the table. -/
def Inside (S : Nat) : Iterator → Prop
  | .sideA gcnt => gcnt < S
  | .sideB gcnt => gcnt < S
  | .end_ => True

/-- The access is inside its array. -/
def InBounds (S : Nat) {r : Type} : Access T r → Prop
  | .loadSideA gcnt => gcnt < S
  | .loadSideB gcnt => gcnt < S
  | .get itr => Inside S itr
  | .put itr _ => Inside S itr
  | .loadSideBmp word => word < S >>> 6
  | .storeSideBmp word _ => word < S >>> 6
  | .loadNoticeBmp word => word < S >>> 6
  | .storeNoticeBmp word _ => word < S >>> 6
  | .shift count => count < 64
  | .loadCounter => True
  | .loadCounterPrv => True
  | .storeCounterPrv _ => True

/-- The access is to a clock counter, and to no array. -/
def OnCounter {r : Type} : Access T r → Prop
  | .loadCounter => True
  | .loadCounterPrv => True
  | .storeCounterPrv _ => True
  | _ => False

theorem inBounds_of_onCounter {r : Type} (c : Access T r) (h : OnCounter c) : InBounds S c := by
  cases c <;> trivial

section KeyInside

variable {gcnt : Nat} (h64 : 64 ∣ S) (hk : gcnt < S) (t : LookupTable T S)

theorem shiftCount_lt (gcnt : Nat) : gcnt - ((gcnt >>> 6) <<< 6) < 64 := by
  rw [Nat.shiftRight_eq_div_pow, Nat.shiftLeft_eq]
  simp only [Nat.reducePow]
  omega

theorem inBounds_bitsProg (gcnt : Nat) : (bitsProg gcnt).All exec (InBounds S) t :=
  (all_access _ t).2 (shiftCount_lt gcnt)

include h64

/-- The words of the bitmaps are all used. -/
theorem word_lt_iff : gcnt >>> 6 < S >>> 6 ↔ gcnt < S := by
  obtain ⟨n, rfl⟩ := h64
  rw [Nat.shiftRight_eq_div_pow, Nat.shiftRight_eq_div_pow]
  simp only [Nat.reducePow]
  omega

include hk

theorem inBounds_swapSideProg : (swapSideProg gcnt).All exec (InBounds S) t := by
  have hword := (word_lt_iff h64).2 hk
  refine (inBounds_bitsProg t gcnt).bind _ fun t => Program.All.bind t ?_ fun t => ?_
  · exact (all_access _ t).2 hword
  · exact (all_access _ t).2 hword

theorem inBounds_notifyChangeProg : (notifyChangeProg gcnt).All exec (InBounds S) t := by
  have hword := (word_lt_iff h64).2 hk
  refine (inBounds_bitsProg t gcnt).bind _ fun t => Program.All.bind t ?_ fun t => ?_
  · exact (all_access _ t).2 hword
  · exact (all_access _ t).2 hword

omit h64 in
theorem inside_find [Item T] (flag : Int) : Inside S (t.find gcnt flag) := by
  unfold find
  repeat' split
  all_goals trivial

omit h64 hk in
/-- The item that is shown, if it is valid. -/
theorem inBounds_shown [Item T] {load : Access T Iterator} (hload : InBounds S load)
    (hitr : Inside S (exec load t).1) :
    Program.All exec (InBounds S) (do
      let itr ← access load
      let x ← access (.get itr)
      if Item.valid x = statOn then access load else pure .end_) t := by
  refine Program.All.bind t ((all_access _ t).2 hload) fun t₁ => ?_
  refine Program.All.bind t₁ ((all_access _ t₁).2 hitr) fun t₂ => (Program.all_ite _ _ _ _).2 ?_
  split
  · exact (all_access _ t₂).2 hload
  · trivial

theorem inBounds_findProg [Item T] (flag : Int) :
    (findProg S gcnt flag).All exec (InBounds S) t := by
  have hword := (word_lt_iff h64).2 hk
  have hle : ¬ gcnt > S - 1 := by omega
  rw [findProg, if_neg hle]
  refine (inBounds_bitsProg t gcnt).bind _ fun t => ?_
  refine Program.All.bind t ((all_access _ t).2 hword) fun t => (Program.all_ite _ _ _ _).2 ?_
  -- Every load behind the bitmap is of the key's own entry.
  split
  · refine (Program.all_ite _ _ _ _).2 ?_
    split
    · exact (all_access _ t).2 hk
    · exact (all_access _ t).2 hk
  · refine (Program.all_ite _ _ _ _).2 ?_
    split
    · exact inBounds_shown t hk hk
    · exact inBounds_shown t hk hk

omit h64 hk in
theorem inBounds_setValidProg [Item T] (v : ValidBit) {itr : Iterator} (h : Inside S itr) :
    (setValidProg v itr).All exec (InBounds S) t :=
  Program.All.bind t ((all_access _ t).2 h) fun t => (all_access _ t).2 h

omit h64 hk in
theorem onCounter_gateProg (n : Int) : (gateProg n).All exec OnCounter t := by
  simp only [gateProg, Program.all_ite, Program.all_bind, all_access, run_access, exec,
    Program.after_mk, Program.all_pure, OnCounter, and_self, ite_self]

theorem inBounds_updateBackProg [Item T] (n : Int) {write : Iterator → TableProgram T Unit}
    (hwrite : ∀ (itr : Iterator) (t : LookupTable T S), Inside S itr →
      (write itr).All exec (InBounds S) t) :
    (updateBackProg S gcnt n write).All exec (InBounds S) t := by
  have hgate : (gateProg n).All exec (InBounds S) t :=
    (onCounter_gateProg t n).mono t inBounds_of_onCounter
  refine hgate.bind _ fun t => (Program.all_ite _ _ _ _).2 ?_
  split
  · trivial
  · refine (inBounds_findProg h64 hk t 1).bind _ fun t' => (Program.all_ite _ _ _ _).2 ?_
    rw [run_findProg]
    split
    · trivial
    · refine (hwrite _ t' (inside_find hk t 1)).bind _ fun t => ?_
      refine (inBounds_swapSideProg h64 hk t).bind _ fun t => ?_
      exact (inBounds_notifyChangeProg h64 hk t).bind _ fun t => trivial

theorem inBounds_indexProg [Item T] : (indexProg S gcnt).All exec (InBounds S) t := by
  refine (Program.all_ite _ _ _ _).2 ?_
  split
  · trivial
  · refine (inBounds_findProg h64 hk t 0).bind _ fun t' => (Program.all_ite _ _ _ _).2 ?_
    rw [run_findProg]
    split
    · exact (inBounds_setValidProg t' statOn (inside_find hk t 0)).bind _ fun t => trivial
    · refine (inBounds_findProg h64 hk t' 1).bind _ fun t'' => (Program.all_ite _ _ _ _).2 ?_
      rw [run_findProg]
      split
      · trivial
      · refine (inBounds_setValidProg t'' statOn (inside_find hk t' 1)).bind _ fun t => ?_
        exact (inBounds_swapSideProg h64 hk t).bind _ fun t => trivial

end KeyInside

/-! ## Keys behind the table -/

section KeyBehind

variable [Item T] {gcnt : Nat} (hS : 0 < S) (hk : S ≤ gcnt) (t : LookupTable T S)
include hS hk

theorem findProg_of_le (flag : Int) : findProg (T := T) S gcnt flag = pure .end_ := by
  have hgt : gcnt > S - 1 := by omega
  rw [findProg, if_pos hgt]

theorem onCounter_updateBackProg (n : Int) (write : Iterator → TableProgram T Unit) :
    (updateBackProg S gcnt n write).All exec OnCounter t := by
  -- The tick is used up, and then the key is not found.
  refine (onCounter_gateProg t n).bind _ fun t => (Program.all_ite _ _ _ _).2 ?_
  split
  · trivial
  · rw [findProg_of_le hS hk]
    trivial

end KeyBehind

/-! ## The calls that take a key -/

inductive KeyedCall (T : Type)
  | find (gcnt : Nat) (flag : Int)
  | findNoticeBmp64 (gcnt : Nat)
  | clearNoticeBmp64 (gcnt : Nat)
  | index (gcnt : Nat)
  | add (gcnt : Nat) (itm : T) (nochkCounter : Int)
  | del (gcnt : Nat) (nochkCounter : Int)

namespace KeyedCall

def key : KeyedCall T → Nat
  | .find gcnt _ => gcnt
  | .findNoticeBmp64 gcnt => gcnt
  | .clearNoticeBmp64 gcnt => gcnt
  | .index gcnt => gcnt
  | .add gcnt _ _ => gcnt
  | .del gcnt _ => gcnt

def toOp : KeyedCall T → Op T
  | .find gcnt flag => .find gcnt flag
  | .findNoticeBmp64 gcnt => .findNoticeBmp64 gcnt
  | .clearNoticeBmp64 gcnt => .clearNoticeBmp64 gcnt
  | .index gcnt => .index gcnt
  | .add gcnt itm nochkCounter => .add gcnt itm nochkCounter
  | .del gcnt nochkCounter => .del gcnt nochkCounter

variable [Item T]

/-- The call, its result dropped. -/
def prog (S : Nat) : KeyedCall T → TableProgram T Unit
  | .find gcnt flag => do let _ ← findProg S gcnt flag
  | .findNoticeBmp64 gcnt => do let _ ← findNoticeBmp64Prog S gcnt
  | .clearNoticeBmp64 gcnt => clearNoticeBmp64Prog S gcnt
  | .index gcnt => do let _ ← indexProg S gcnt
  | .add gcnt itm nochkCounter => do let _ ← addProg S gcnt itm nochkCounter
  | .del gcnt nochkCounter => do let _ ← delProg S gcnt nochkCounter

/-- The program of a call leaves the table the call leaves. -/
theorem run_prog (c : KeyedCall T) (t : LookupTable T S) :
    (c.prog S).run exec t = ((), t.after c.toOp) := by
  cases c with
  | find gcnt flag =>
      simp [prog, toOp, after]
  | findNoticeBmp64 gcnt =>
      simp [prog, toOp, after]
  | clearNoticeBmp64 gcnt =>
      simp [prog, toOp, after]
  | index gcnt =>
      simp [prog, toOp, after, Program.after]
  | add gcnt itm nochkCounter =>
      simp [prog, toOp, after, Program.after]
  | del gcnt nochkCounter =>
      simp [prog, toOp, after, Program.after]

end KeyedCall

/-! ## Index safety -/

/-- Every access of the call is inside its array, and a key that is not below `S` touches none. -/
structure IndexSafe [Item T] (t : LookupTable T S) (c : KeyedCall T) : Prop where
  inBounds : (c.prog S).All exec (InBounds S) t
  turnedAway : S ≤ c.key → (c.prog S).All exec OnCounter t

section IndexSafe

variable [Item T] {c : KeyedCall T} (t : LookupTable T S)

theorem inBounds_prog (h64 : 64 ∣ S) (hk : c.key < S) : (c.prog S).All exec (InBounds S) t := by
  cases c with
  | find gcnt flag =>
      exact (inBounds_findProg h64 hk t flag).bind _ fun t => trivial
  | findNoticeBmp64 gcnt =>
      refine Program.All.bind t ((Program.all_ite _ _ _ _).2 ?_) fun t => trivial
      split
      · trivial
      · exact (all_access _ t).2 ((word_lt_iff h64).2 hk)
  | clearNoticeBmp64 gcnt =>
      refine (Program.all_ite _ _ _ _).2 ?_
      split
      · exact (all_access _ t).2 ((word_lt_iff h64).2 hk)
      · trivial
  | index gcnt =>
      exact (inBounds_indexProg h64 hk t).bind _ fun t => trivial
  | add gcnt itm nochkCounter =>
      have hwrite : ∀ (itr : Iterator) (t : LookupTable T S), Inside S itr →
          (access (.put itr (Item.setValid statOn itm))).All exec (InBounds S) t :=
        fun itr t hitr => (all_access _ t).2 hitr
      exact (inBounds_updateBackProg h64 hk t nochkCounter hwrite).bind _ fun t => trivial
  | del gcnt nochkCounter =>
      have hwrite : ∀ (itr : Iterator) (t : LookupTable T S), Inside S itr →
          (setValidProg statOff itr).All exec (InBounds S) t :=
        fun itr t hitr => inBounds_setValidProg t statOff hitr
      exact (inBounds_updateBackProg h64 hk t nochkCounter hwrite).bind _ fun t => trivial

theorem onCounter_prog (hS : 0 < S) (hk : S ≤ c.key) (hne : c ≠ .clearNoticeBmp64 S) :
    (c.prog S).All exec OnCounter t := by
  have hgt : c.key > S - 1 := by omega
  cases c with
  | find gcnt flag =>
      have hfind : findProg (T := T) S gcnt flag = pure .end_ := findProg_of_le hS hk flag
      refine Program.All.bind t ?_ fun t => trivial
      rw [hfind]
      trivial
  | findNoticeBmp64 gcnt =>
      refine Program.All.bind t ?_ fun t => trivial
      have hgt : gcnt > S - 1 := hgt
      rw [findNoticeBmp64Prog, if_pos hgt]
      trivial
  | clearNoticeBmp64 gcnt =>
      have hne' : gcnt ≠ S := fun h => hne (congrArg KeyedCall.clearNoticeBmp64 h)
      have hout : ¬ gcnt ≤ S := fun hle => hne' (Nat.le_antisymm hle hk)
      rw [KeyedCall.prog, clearNoticeBmp64Prog, if_neg hout]
      trivial
  | index gcnt =>
      refine Program.All.bind t ?_ fun t => trivial
      have hgt : gcnt > S - 1 := hgt
      rw [indexProg, if_pos hgt]
      trivial
  | add gcnt itm nochkCounter =>
      exact (onCounter_updateBackProg hS hk t nochkCounter _).bind _ fun t => trivial
  | del gcnt nochkCounter =>
      exact (onCounter_updateBackProg hS hk t nochkCounter _).bind _ fun t => trivial

/-- The key `S` is in the word behind the last one. -/
theorem not_inBounds_clearNoticeBmp64 :
    ¬ ((KeyedCall.clearNoticeBmp64 S : KeyedCall T).prog S).All exec (InBounds S) t := by
  rw [KeyedCall.prog, clearNoticeBmp64Prog, if_pos (Nat.le_refl S), all_access]
  exact Nat.lt_irrefl _

theorem indexSafe_iff (hS : 0 < S) (h64 : 64 ∣ S) :
    IndexSafe t c ↔ c ≠ .clearNoticeBmp64 S := by
  constructor
  · rintro h rfl
    exact not_inBounds_clearNoticeBmp64 t h.inBounds
  · intro hne
    have haway : S ≤ c.key → (c.prog S).All exec OnCounter t :=
      fun hk => onCounter_prog t hS hk hne
    refine ⟨?_, haway⟩
    by_cases hk : c.key < S
    · exact inBounds_prog t h64 hk
    · exact (haway (by omega)).mono t inBounds_of_onCounter

end IndexSafe

/-- The last key of two words. -/
theorem indexSafe_add_127 :
    (0 < 128 ∧ 64 ∣ 128) ∧
      IndexSafe (clear : LookupTable (ValidBit × Nat) 128) (.add 127 (0, 7) 0) :=
  ⟨by decide, (indexSafe_iff clear (by decide) (by decide)).2 nofun⟩

/-- One word of notices, and the key 64. -/
theorem not_indexSafe_clearNoticeBmp64_64 :
    ¬ IndexSafe (clear : LookupTable (ValidBit × Nat) 64) (.clearNoticeBmp64 64) :=
  fun h => not_inBounds_clearNoticeBmp64 clear h.inBounds

end LookupTable
end Table
end NmMemcached
