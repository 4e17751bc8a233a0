import NmMemcached.Lib.Access
import NmMemcached.Server.Replies

/-!
# Writes — what the request handlers write into the packet

The handlers build their answer in place.  `onRecieveWrites` lists the regions they write, in the
order of the source; `data_onRecieve_of_not_mem` says that nothing else changes, and
`within_onRecieveWrites_iff` that an answer needs the bytes from `PAYLOAD` on that `Length()`
counts afterwards.
-/

namespace NmMemcached
namespace Server

open Lib Base Net Table

universe u

/-! ## The regions -/

/-- `magic`, `opcode`, `keylen`, `extlen`, `datatype` and `status`. -/
def headWrites (p : Nat) : List Region :=
  [⟨p, 1⟩, ⟨p + 1, 1⟩, ⟨p + 2, 2⟩, ⟨p + 4, 1⟩, ⟨p + 5, 1⟩, ⟨p + 6, 2⟩]

/-- `cas`, `bodylen`, the expiry and the value; `REQ_VAL` counts the extras just announced. -/
def foundWrites (p : Nat) (it : NmmcItem) : List Region :=
  headWrites p ++ [⟨p + 16, 8⟩, ⟨p + 8, 4⟩, ⟨p + 24, 4⟩, ⟨p + 28, it.datalen.toNat⟩]

/-- `opaque`, `cas`, `bodylen` and the text. -/
def notfoundWrites (p : Nat) : List Region :=
  headWrites p ++ [⟨p + 12, 4⟩, ⟨p + 16, 8⟩, ⟨p + 8, 4⟩, ⟨p + 24, notfound.length⟩]

def setWrites (p : Nat) : List Region :=
  headWrites p ++ [⟨p + 16, 8⟩, ⟨p + 8, 4⟩]

section Handlers

variable {σ : Type u} (srv : Server σ) (pkt : Packet) (db : σ)

def onRecieveGetWrites (key : Nat) : List Region :=
  let tbl := srv.lookupValue
  let it := tbl.find key 0
  if it = .end_ then notfoundWrites pkt.payload
  else if (tbl.get it).datalen = 0 then notfoundWrites pkt.payload
  else foundWrites pkt.payload (tbl.get it)

def onRecieveWrites : List Region :=
  let p := pkt.payload
  if ¬ validateHeader pkt.data p pkt.len then []
  else if Header.keylen pkt.data p ≠ 4 then []
  else if Header.opcode pkt.data p = opcodeGet then
    onRecieveGetWrites srv pkt (keyId (Header.key pkt.data p))
  else if Header.opcode pkt.data p = opcodeSet then setWrites p
  else []

/-! ## By the answer -/

theorem onRecieveGetWrites_eq (key : Nat) :
    onRecieveGetWrites srv pkt key =
      match srv.lookupValue.shown key with
      | none => notfoundWrites pkt.payload
      | some it =>
          if it.datalen = 0 then notfoundWrites pkt.payload else foundWrites pkt.payload it := by
  unfold onRecieveGetWrites LookupTable.shown
  by_cases hend : srv.lookupValue.find key 0 = .end_
  · simp [hend]
  · simp [hend]

variable {pkt}

theorem onRecieveWrites_of_not_accepted (h : ¬ Accepted pkt) : onRecieveWrites srv pkt = [] := by
  unfold onRecieveWrites
  by_cases hvalid : validateHeader pkt.data pkt.payload pkt.len = true
  · have hkey : Header.keylen pkt.data pkt.payload ≠ 4 := fun hkey => h ⟨hvalid, hkey⟩
    simp [hvalid, hkey]
  · simp [hvalid]

theorem onRecieveWrites_of_get (h : Accepted pkt)
    (hget : Header.opcode pkt.data pkt.payload = opcodeGet) :
    onRecieveWrites srv pkt =
      onRecieveGetWrites srv pkt (keyId (Header.key pkt.data pkt.payload)) := by
  simp only [onRecieveWrites, h.1, h.2, hget, not_true_eq_false, if_false, if_true, ne_eq]

theorem onRecieveWrites_of_set (h : Accepted pkt)
    (hset : Header.opcode pkt.data pkt.payload = opcodeSet) :
    onRecieveWrites srv pkt = setWrites pkt.payload := by
  have hne : opcodeSet ≠ opcodeGet := by decide
  simp only [onRecieveWrites, h.1, h.2, hset, hne, not_true_eq_false, if_false, if_true, ne_eq]

variable (pkt)

/-- The regions that go with an answer: those of the handler that built it. -/
def WritesOf (reply : Packet) (writes : List Region) : Prop :=
  (∀ a, (∀ r ∈ writes, a ∉ r) → reply.data a = pkt.data a) ∧
    ∀ n, (∀ r ∈ writes, r.Within ⟨0, n⟩) ↔ pkt.payload + reply.len ≤ n

theorem writesOf_replyFound (it : NmmcItem) (behind : Nat → UInt8) :
    WritesOf pkt (replyFound pkt it behind) (foundWrites pkt.payload it) := by
  have hlen : (replyFound pkt it behind).len = 24 + it.datalen.toNat + 4 := rfl
  have hvalue : (zeros 8 ++ Mem.le32Bytes it.expire ++
      it.copyData behind it.datalen.toNat).length = 12 + it.datalen.toNat := by
    simp
    omega
  simp only [WritesOf, foundWrites, headWrites, List.cons_append, List.nil_append,
    List.forall_mem_cons, List.not_mem_nil, false_imp_iff, implies_true,
    and_true, Region.mem_iff, Region.within_iff, hlen]
  refine ⟨?_, ?_⟩
  · intro a ha
    rw [data_replyFound, Mem.write_of_disjoint, Mem.write_of_disjoint]
    · rw [length_answerHead]
      omega
    · rw [hvalue]
      omega
  · intro n
    omega

theorem writesOf_replyNotfound :
    WritesOf pkt (replyNotfound pkt) (notfoundWrites pkt.payload) := by
  have hlen : (replyNotfound pkt).len = 33 := rfl
  have htext : (zeros 12 ++ notfound).length = 21 := rfl
  have hnotfound : notfound.length = 9 := rfl
  simp only [WritesOf, notfoundWrites, headWrites, List.cons_append, List.nil_append,
    List.forall_mem_cons, List.not_mem_nil, false_imp_iff, implies_true,
    and_true, Region.mem_iff, Region.within_iff, hlen, hnotfound]
  refine ⟨?_, ?_⟩
  · intro a ha
    rw [data_replyNotfound, Mem.write_of_disjoint, Mem.write_of_disjoint]
    · rw [length_answerHead]
      omega
    · rw [htext]
      omega
  · intro n
    omega

theorem writesOf_replySet (stat : Nat) :
    WritesOf pkt (replySet pkt stat) (setWrites pkt.payload) := by
  have hlen : (replySet pkt stat).len = 24 := rfl
  simp only [WritesOf, setWrites, headWrites, List.cons_append, List.nil_append,
    List.forall_mem_cons, List.not_mem_nil, false_imp_iff, implies_true,
    and_true, Region.mem_iff, Region.within_iff, hlen]
  refine ⟨?_, ?_⟩
  · intro a ha
    rw [data_replySet, Mem.write_of_disjoint, Mem.write_of_disjoint]
    · rw [length_answerHead]
      omega
    · rw [length_zeros]
      omega
  · intro n
    omega

theorem writesOf_onRecieveGet (key : Nat) :
    WritesOf pkt (onRecieveGet srv pkt key).2 (onRecieveGetWrites srv pkt key) := by
  rw [reply_onRecieveGet, onRecieveGetWrites_eq]
  cases srv.lookupValue.shown key with
  | none =>
      exact writesOf_replyNotfound pkt
  | some it =>
      by_cases hzero : it.datalen = 0
      · simpa only [hzero, if_true] using writesOf_replyNotfound pkt
      · simpa only [hzero, if_false] using writesOf_replyFound pkt it _

variable {pkt}

theorem writesOf_onRecieve (h : Accepted pkt) :
    WritesOf pkt (onRecieve srv pkt db).2.1 (onRecieveWrites srv pkt) := by
  rcases ((validateHeader_iff _ _ _).1 h.1).1.2.2 with ⟨hget, _⟩ | ⟨hset, _⟩
  · rw [fst_snd_of_eq (onRecieve_of_get srv db h hget), onRecieveWrites_of_get srv h hget]
    exact writesOf_onRecieveGet srv pkt _
  · have hcall := (onRecieve_of_set srv db h hset).trans (onRecieveSet_eq srv pkt db _ _ _)
    rw [fst_snd_of_eq hcall, onRecieveWrites_of_set srv h hset]
    exact writesOf_replySet pkt _

variable (pkt)

/-- `OnRecieve` changes nothing outside the regions it writes. -/
theorem data_onRecieve_of_not_mem {a : Nat} (ha : ∀ r ∈ onRecieveWrites srv pkt, a ∉ r) :
    (onRecieve srv pkt db).2.1.data a = pkt.data a := by
  by_cases h : Accepted pkt
  · exact (writesOf_onRecieve srv db h).1 a ha
  · rw [onRecieve_of_not_accepted srv pkt db h]

/-- An answer stays inside a buffer when the buffer holds `Length()` bytes from `PAYLOAD` on. -/
theorem within_onRecieveWrites_iff (n : Nat) :
    (∀ r ∈ onRecieveWrites srv pkt, r.Within ⟨0, n⟩) ↔
      (Accepted pkt → pkt.payload + (onRecieve srv pkt db).2.1.len ≤ n) := by
  by_cases h : Accepted pkt
  · rw [(writesOf_onRecieve srv db h).2 n]
    simp [h]
  · rw [onRecieveWrites_of_not_accepted srv h]
    simp [h]

end Handlers

end Server
end NmMemcached
