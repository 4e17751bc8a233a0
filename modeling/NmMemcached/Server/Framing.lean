import NmMemcached.Server.Requests

/-!
# Framing — how an answer is delimited and matched to its request

Every answer of `OnRecieve` is well delimited: the lengths in its header, the length of the packet
and the place of the value agree.  A client that has several requests open finds the request of an
answer by `opaque`.  The found answer and the answer to a SET leave that field as it came in; the
not-found answer sets it to zero (`framed_iff`).
-/

namespace NmMemcached
namespace Server

open Lib Base Net Table

universe u

/-- The four bytes of `opaque`, at 12 in the header. -/
def tag (pkt : Packet) : List UInt8 := pkt.data.read (pkt.payload + 12) 4

/-- What a client relies on to take an answer apart and to match it to its request. -/
structure Framed (pkt ans : Packet) (value : List UInt8) : Prop where
  magic : Header.magic ans.data ans.payload = magicResponse
  opcode : Header.opcode ans.data ans.payload = Header.opcode pkt.data pkt.payload
  tag : tag ans = tag pkt
  bodylen : Header.bodylen ans.data ans.payload =
    (Header.extlen ans.data ans.payload).toNat + Header.keylen ans.data ans.payload + value.length
  len : ans.len = headerLen + Header.bodylen ans.data ans.payload
  value : ans.data.read (ans.payload + headerLen + (Header.extlen ans.data ans.payload).toNat +
    Header.keylen ans.data ans.payload) value.length = value

/-- An answer of a head and a tail behind `opaque` is framed as soon as it keeps `opaque`. -/
theorem framed_of_blocks {pkt ans : Packet} {op extlen : UInt8} {status n : Nat}
    {extras value : List UInt8} (hop : Header.opcode pkt.data pkt.payload = op)
    (hext : extras.length = extlen.toNat) (hn : n = extlen.toNat + value.length)
    (hlt : n < 4294967296) (hlen : ans.len = headerLen + n)
    (hhead : ans.data.read ans.payload 12 = answerHead op extlen status n)
    (htail : ans.data.read (ans.payload + 16) (8 + extras.length + value.length) =
      zeros 8 ++ extras ++ value) : Framed pkt ans value ↔ tag ans = tag pkt := by
  rcases fields_of_answerHead hhead hlt with ⟨hmagic, hkeylen, hextlen, _, hbody⟩
  have hopcode : Header.opcode ans.data ans.payload = op :=
    Mem.apply_of_read hhead (show 1 < 12 by decide)
  have hvalue : ans.data.read (ans.payload + headerLen +
      (Header.extlen ans.data ans.payload).toNat + Header.keylen ans.data ans.payload)
      value.length = value := by
    have hread := Mem.read_of_read_append (zeros 8 ++ extras) value [] (by simpa using htail)
    have hoff : ans.payload + headerLen + extlen.toNat + 0 =
        ans.payload + 16 + (zeros 8 ++ extras).length := by
      rw [List.length_append, length_zeros, hext]
      unfold headerLen
      omega
    rw [hextlen, hkeylen, hoff]
    exact hread
  constructor
  · exact Framed.tag
  · intro htag
    refine ⟨hmagic, hopcode.trans hop.symm, htag, ?_, ?_, hvalue⟩
    · rw [hbody, hextlen, hkeylen, hn, Nat.add_zero]
    · rw [hlen, hbody]

/-! ## The three answers -/

theorem tag_of_blocks {m : Mem} {p : Nat} {as bs : List UInt8} (has : as.length = 12) :
    ((m.write p as).write (p + 16) bs).read (p + 12) 4 = m.read (p + 12) 4 := by
  have hfirst : p + 12 + 4 ≤ p ∨ p + as.length ≤ p + 12 := Or.inr (by omega)
  have hsecond : p + 12 + 4 ≤ p + 16 ∨ p + 16 + bs.length ≤ p + 12 := Or.inl (by omega)
  rw [Mem.read_write_of_disjoint hsecond, Mem.read_write_of_disjoint hfirst]

theorem tag_replyFound (pkt : Packet) (it : NmmcItem) (behind : Nat → UInt8) :
    tag (replyFound pkt it behind) = tag pkt := by
  rw [tag, payload_replyFound, data_replyFound]
  exact tag_of_blocks rfl

theorem tag_replySet (pkt : Packet) (stat : Nat) : tag (replySet pkt stat) = tag pkt := by
  rw [tag, payload_replySet, data_replySet]
  exact tag_of_blocks rfl

/-- The not-found answer loses `opaque`. -/
theorem tag_replyNotfound (pkt : Packet) : tag (replyNotfound pkt) = zeros 4 := by
  have hself := Mem.read_write_self (pkt.data.write pkt.payload
    (answerHead opcodeGet 0 statusErr 9)) (pkt.payload + 12) (zeros 12 ++ notfound)
  rw [tag, payload_replyNotfound, data_replyNotfound]
  exact Mem.read_of_read_append [] (zeros 4) (zeros 8 ++ notfound) hself

theorem framed_replyFound {pkt : Packet} (hget : Header.opcode pkt.data pkt.payload = opcodeGet)
    (it : NmmcItem) (behind : Nat → UInt8) :
    Framed pkt (replyFound pkt it behind) (it.copyData behind it.datalen.toNat) := by
  have hlt := it.datalen.isLt
  have hlen : (it.copyData behind it.datalen.toNat).length = it.datalen.toNat := by simp
  refine (framed_of_blocks hget rfl ?_ ?_ ?_ (read_replyFound pkt it behind)
    (tail_replyFound pkt it behind)).2 (tag_replyFound pkt it behind)
  · rw [hlen]
    exact Nat.add_comm _ _
  · omega
  · exact Nat.add_assoc _ _ _

theorem framed_replySet {pkt : Packet} (hset : Header.opcode pkt.data pkt.payload = opcodeSet)
    (stat : Nat) : Framed pkt (replySet pkt stat) [] :=
  (framed_of_blocks hset rfl rfl (by decide) rfl (read_replySet pkt stat)
    (tail_replySet pkt stat)).2 (tag_replySet pkt stat)

theorem framed_replyNotfound {pkt : Packet}
    (hget : Header.opcode pkt.data pkt.payload = opcodeGet) :
    Framed pkt (replyNotfound pkt) notfound ↔ tag pkt = zeros 4 := by
  rw [framed_of_blocks hget rfl rfl (by decide) rfl (read_replyNotfound pkt)
    (tail_replyNotfound pkt), tag_replyNotfound, eq_comm]

/-! ## Every request -/

section Requests

variable {σ : Type u} (srv : Server σ)

/-- The item that a GET for this key is answered with. -/
def foundItem (key : Nat) : Option NmmcItem :=
  match srv.lookupValue.shown key with
  | none => none
  | some it => if it.datalen = 0 then none else some it

theorem reply_of_foundItem (pkt : Packet) (key : Nat) :
    (onRecieveGet srv pkt key).2 =
      match foundItem srv key with
      | none => replyNotfound pkt
      | some it => replyFound pkt it (srv.behind (srv.lookupValue.find key 0)) := by
  rw [reply_onRecieveGet, foundItem]
  cases srv.lookupValue.shown key with
  | none =>
      rfl
  | some it =>
      by_cases hzero : it.datalen = 0
      · simp only [if_pos hzero]
      · simp only [if_neg hzero]

/-- The value a client should read out of the answer: the bytes of the item, the not-found text,
or nothing. -/
def answerValue (pkt : Packet) : List UInt8 :=
  if Header.opcode pkt.data pkt.payload = opcodeGet then
    match foundItem srv (requestKey pkt) with
    | none => notfound
    | some it => it.copyData (srv.behind (srv.lookupValue.find (requestKey pkt) 0)) it.datalen.toNat
  else []

/-- The length of the answer. -/
def answerLen (pkt : Packet) : Nat :=
  if Header.opcode pkt.data pkt.payload = opcodeGet then
    match foundItem srv (requestKey pkt) with
    | none => headerLen + notfound.length
    | some it => headerLen + 4 + it.datalen.toNat
  else headerLen

theorem len_onRecieve {pkt : Packet} (h : Accepted pkt) (db : σ) :
    (onRecieve srv pkt db).2.1.len = answerLen srv pkt := by
  rcases ((validateHeader_iff _ _ _).1 h.1).1.2.2 with ⟨hget, _⟩ | ⟨hset, _⟩
  · have hreply : (onRecieve srv pkt db).2.1 = (onRecieveGet srv pkt (requestKey pkt)).2 :=
      fst_snd_of_eq (onRecieve_of_get srv db h hget)
    rw [hreply, reply_of_foundItem, answerLen, if_pos hget]
    cases foundItem srv (requestKey pkt) with
    | none =>
        rfl
    | some it =>
        exact Nat.add_right_comm headerLen it.datalen.toNat 4
  · have hne : ¬ Header.opcode pkt.data pkt.payload = opcodeGet := by
      rw [hset]
      decide
    rw [fst_snd_of_eq ((onRecieve_of_set srv db h hset).trans (onRecieveSet_eq srv pkt db _ _ _)),
      answerLen, if_neg hne]
    rfl

/-- An answer is framed exactly when the request is a SET, its item is found, or its `opaque` is
zero anyway. -/
theorem framed_iff {pkt : Packet} (h : Accepted pkt) (db : σ) :
    Framed pkt (onRecieve srv pkt db).2.1 (answerValue srv pkt) ↔
      Header.opcode pkt.data pkt.payload = opcodeSet ∨
        (foundItem srv (requestKey pkt)).isSome ∨ tag pkt = zeros 4 := by
  rcases ((validateHeader_iff _ _ _).1 h.1).1.2.2 with ⟨hget, _⟩ | ⟨hset, _⟩
  · have hne : Header.opcode pkt.data pkt.payload ≠ opcodeSet := by
      rw [hget]
      decide
    have hreply : (onRecieve srv pkt db).2.1 = (onRecieveGet srv pkt (requestKey pkt)).2 :=
      fst_snd_of_eq (onRecieve_of_get srv db h hget)
    rw [hreply, reply_of_foundItem, answerValue, if_pos hget]
    cases foundItem srv (requestKey pkt) with
    | none =>
        simpa [hne] using framed_replyNotfound hget
    | some it =>
        exact iff_of_true (framed_replyFound hget it _) (Or.inr (Or.inl rfl))
  · have hne : ¬ Header.opcode pkt.data pkt.payload = opcodeGet := by
      rw [hset]
      decide
    rw [fst_snd_of_eq ((onRecieve_of_set srv db h hset).trans (onRecieveSet_eq srv pkt db _ _ _)),
      answerValue, if_neg hne]
    exact iff_of_true (framed_replySet hset _) (Or.inl hset)

end Requests

/-- A server whose table was just cleared. -/
def clearedServer : Server Unit :=
  { lookupValue := LookupTable.clear
    behind := fun _ _ => 0
    mysqlQuery := fun db _ => (0, db) }

theorem foundItem_clearedServer {key : Nat} (hkey : key < tableSize) :
    foundItem clearedServer key = none := by
  have hshown : clearedServer.lookupValue.shown key = some NmmcItem.zeroed := by
    have hfront : (clearedServer.lookupValue.slots key).front = NmmcItem.zeroed := by
      rw [clearedServer, LookupTable.slots_clear]
      rfl
    rw [LookupTable.shown_of_lt hkey, hfront]
    rfl
  rw [foundItem, hshown]
  rfl

/-- A GET of key 5 with `opaque` zero. -/
theorem framed_get_5 :
    Framed (packetOf (getBytes 5)) (onRecieve clearedServer (packetOf (getBytes 5)) ()).2.1
      (answerValue clearedServer (packetOf (getBytes 5))) := by
  have haccepted : Accepted (packetOf (getBytes 5)) := ⟨by decide, by decide⟩
  exact (framed_iff clearedServer haccepted ()).2 (Or.inr (Or.inr (by decide)))

/-- A GET of key 5 with `opaque` 0xdeadbeef. -/
def taggedGet : Packet :=
  packetOf ([magicRequest, opcodeGet, 0, 4, 0, 0, 0, 0, 0, 0, 0, 4] ++ [0xde, 0xad, 0xbe, 0xef] ++
    zeros 8 ++ Mem.be32Bytes 5)

/-- Its answer says 0. -/
theorem taggedGet_not_framed :
    Accepted taggedGet ∧ tag taggedGet = [0xde, 0xad, 0xbe, 0xef] ∧
      tag (onRecieve clearedServer taggedGet ()).2.1 = zeros 4 ∧
      ¬ ∀ (srv : Server Unit) (pkt : Packet), Accepted pkt →
        Framed pkt (onRecieve srv pkt ()).2.1 (answerValue srv pkt) := by
  have haccepted : Accepted taggedGet := ⟨by decide, by decide⟩
  have htag : tag taggedGet = [0xde, 0xad, 0xbe, 0xef] := by decide
  have hanswer : tag (onRecieve clearedServer taggedGet ()).2.1 = zeros 4 := by
    rw [fst_snd_of_eq (onRecieve_of_get clearedServer () haccepted rfl), reply_of_foundItem,
      foundItem_clearedServer (keyId_lt _)]
    exact tag_replyNotfound taggedGet
  refine ⟨haccepted, htag, hanswer, ?_⟩
  intro hall
  have hsame := (hall clearedServer taggedGet haccepted).tag
  rw [hanswer, htag] at hsame
  exact absurd hsame (by decide)

end Server
end NmMemcached
