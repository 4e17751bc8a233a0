import NmMemcached.Arch.Receive
import NmMemcached.Server.Lengths
import NmMemcached.Server.Writes

/-!
# Buffer — what one call of `OnRecv` writes into `rbuf`

`rbufWrites` lists the regions of `rbuf` that a call writes, in the order of the source: the peek,
the read of the body or the discarding reads, and the answer that `OnRecieve` builds in place.  The
socket writes no more than it is asked for and no more than the datagram has.

Two of these regions may leave the 2048 bytes.  The read of the body is asked for what the header
claims, and the answer to a GET is as long as the item in the table (`withinBuffer_iff`).
-/

namespace NmMemcached
namespace Arch

open Lib Base Net Server Table

universe u

/-! ## The regions -/

def rbufRegion : Region := ⟨0, nmmcBufferSize⟩

/-- `recvfrom(sock, rbuf, n, …)`. -/
def recvWrites (queue : List Datagram) (n : Nat) : List Region :=
  match queue with
  | [] => []
  | d :: _ => [⟨0, min n d.bytes.length⟩]

section Writes

variable {σ : Type u} (srv : Server σ) (rbuf : Mem) (sa : SockAddr)

def rbufWrites (queue : List Datagram) : List Region :=
  let peek := recvPeek queue rbuf sa headerLen
  recvWrites queue headerLen ++
    if peek.rlen ≠ headerLen then recvWrites queue 4
    else
      let want := headerLen + Header.bodylen peek.rbuf 0
      let body := recvfrom queue peek.rbuf peek.sa want
      recvWrites queue want ++
        if body.rlen ≠ want then recvWrites body.queue 4
        else if ¬ validateHeader body.rbuf 0 want then []
        else onRecieveWrites srv (Packet.ofDatagram body.rbuf want body.sa)

/-- Every write of the call stays within `rbuf`. -/
def WithinBuffer (queue : List Datagram) : Prop :=
  ∀ r ∈ rbufWrites srv rbuf sa queue, r.Within rbufRegion

/-- A receive changes nothing outside its region. -/
theorem rbuf_recvPeek_of_not_mem {queue : List Datagram} {n a : Nat}
    (h : ∀ r ∈ recvWrites queue n, a ∉ r) : (recvPeek queue rbuf sa n).rbuf a = rbuf a := by
  cases queue with
  | nil =>
      rfl
  | cons d rest =>
      have hout := h ⟨0, min n d.bytes.length⟩ (List.mem_singleton.2 rfl)
      simp only [Region.mem_iff] at hout
      have hle : 0 + (d.bytes.take n).length ≤ a := by
        rw [List.length_take]
        omega
      exact Mem.write_of_le hle

theorem recvWrites_within {queue : List Datagram} {n : Nat} (hn : n ≤ nmmcBufferSize) :
    ∀ r ∈ recvWrites queue n, r.Within rbufRegion := by
  cases queue with
  | nil =>
      simp [recvWrites]
  | cons d rest =>
      intro r hr
      rw [List.mem_singleton.1 hr, Region.within_iff]
      right
      simp only [rbufRegion]
      omega

/-! ## The regions for a queue with a first datagram -/

theorem rbufWrites_of_short {d : Datagram} (rest : List Datagram)
    (h : d.bytes.length < headerLen) :
    rbufWrites srv rbuf sa (d :: rest) =
      recvWrites (d :: rest) headerLen ++ recvWrites (d :: rest) 4 := by
  simp [rbufWrites, recvPeek, h]

theorem rbufWrites_of_header {d : Datagram} (rest : List Datagram)
    (h : headerLen ≤ d.bytes.length) :
    rbufWrites srv rbuf sa (d :: rest) =
      recvWrites (d :: rest) headerLen ++ (recvWrites (d :: rest) (wanted d.bytes) ++
        if d.bytes.length < wanted d.bytes then recvWrites rest 4
        else onRecieveWrites srv (packetFrom rbuf d)) := by
  unfold rbufWrites
  simp only [recvPeek_cons rbuf sa d rest h, ne_eq, not_true_eq_false, if_false,
    wanted_of_peek rbuf h, recvfrom_cons, cutOff_test]
  -- A request that the validator drops is not answered.
  by_cases hvalid : validateHeader (filledBuf rbuf d.bytes) 0 (wanted d.bytes) = true
  · simp only [hvalid, not_true_eq_false, if_false]
    rfl
  · have hno : ¬ Accepted (packetFrom rbuf d) := fun hacc => hvalid hacc.1
    simp only [hvalid, Bool.false_eq_true, not_false_eq_true, if_true,
      onRecieveWrites_of_not_accepted srv hno]

/-- The read of the body leaves `rbuf` exactly when the datagram overruns it. -/
theorem body_within_iff {d : Datagram} (rest : List Datagram) (h : headerLen ≤ d.bytes.length) :
    (∀ r ∈ recvWrites (d :: rest) (wanted d.bytes), r.Within rbufRegion) ↔ ¬ Overruns d.bytes := by
  have hpos : 0 < min (wanted d.bytes) d.bytes.length := by
    have hwant : headerLen ≤ wanted d.bytes := Nat.le_add_right _ _
    unfold headerLen at h hwant
    omega
  have hover : Overruns d.bytes ↔ nmmcBufferSize < min (wanted d.bytes) d.bytes.length :=
    and_iff_right h
  rw [hover, recvWrites, List.forall_mem_singleton, Region.within_iff_of_pos hpos]
  simp only [rbufRegion]
  omega

end Writes

/-! ## Answers that are too long -/

/-- The length of the answer to a GET. -/
theorem len_onRecieveGet_le_iff {σ : Type u} (srv : Server σ) (pkt : Packet) (key : Nat) {n : Nat}
    (hn : 33 ≤ n) :
    (onRecieveGet srv pkt key).2.len ≤ n ↔
      ∀ it, srv.lookupValue.shown key = some it → 28 + it.datalen.toNat ≤ n := by
  rw [reply_onRecieveGet]
  have hnotfound : (replyNotfound pkt).len = 33 := rfl
  cases srv.lookupValue.shown key with
  | none =>
      simp [hnotfound, hn]
  | some it =>
      have hfound : ∀ behind, (replyFound pkt it behind).len = 24 + it.datalen.toNat + 4 :=
        fun _ => rfl
      by_cases hzero : it.datalen = 0
      · have hlen : BitVec.toNat (0 : BitVec 11) = 0 := rfl
        simp only [hzero, if_true, hnotfound, Option.some.injEq, forall_eq', hlen]
        omega
      · simp only [hzero, if_false, hfound, Option.some.injEq, forall_eq']
        omega

/-- A complete GET for an item whose answer is longer than `rbuf`. -/
structure LongAnswer {σ : Type u} (srv : Server σ) (m : List UInt8) : Prop where
  complete : headerLen ≤ m.length ∧ wanted m ≤ m.length
  valid : validateHeader (bytesMem m) 0 (wanted m) = true
  keylen : Header.keylen (bytesMem m) 0 = 4
  opcode : Header.opcode (bytesMem m) 0 = opcodeGet
  item : ∃ it, srv.lookupValue.shown (keyId (Header.key (bytesMem m) 0)) = some it ∧
    2020 < it.datalen.toNat

section Within

variable {σ : Type u} (srv : Server σ) (rbuf : Mem) (sa : SockAddr)

theorem filledBuf_apply (rbuf : Mem) {m : List UInt8} {i : Nat} (hi : i < wanted m)
    (hle : wanted m ≤ m.length) : filledBuf rbuf m i = bytesMem m i := by
  have hfull : i < m.length := Nat.lt_of_lt_of_le hi hle
  have htake : i < (m.take (wanted m)).length := by
    rwa [List.length_take_of_le hle]
  calc
    filledBuf rbuf m i = filledBuf rbuf m (0 + i) := by rw [Nat.zero_add]
    _ = (m.take (wanted m))[i] := Mem.write_add htake
    _ = m[i] := List.getElem_take
    _ = bytesMem m (0 + i) := (Mem.write_add hfull).symm
    _ = bytesMem m i := by rw [Nat.zero_add]

/-- The key of a GET lies in the bytes that were read. -/
theorem key_filledBuf (rbuf : Mem) {m : List UInt8} (hheader : headerLen ≤ m.length)
    (hle : wanted m ≤ m.length)
    (hend : headerLen + (Header.extlen (bytesMem m) 0).toNat + 4 ≤ wanted m) :
    Header.key (filledBuf rbuf m) 0 = Header.key (bytesMem m) 0 := by
  have hext : Header.extlen (filledBuf rbuf m) 0 = Header.extlen (bytesMem m) 0 :=
    header_filledBuf rbuf hheader 4 (by decide)
  unfold Header.key
  rw [hext]
  refine Mem.be32_congr (Mem.read_congr ?_)
  intro i hi
  exact filledBuf_apply rbuf (by omega) hle

/-- What the server reads in a complete datagram. -/
theorem accepted_packetFrom_iff {d : Datagram} (hheader : headerLen ≤ d.bytes.length) :
    Accepted (packetFrom rbuf d) ↔
      validateHeader (bytesMem d.bytes) 0 (wanted d.bytes) = true ∧
        Header.keylen (bytesMem d.bytes) 0 = 4 := by
  rw [← validateHeader_filledBuf rbuf hheader, ← keylen_congr (header_filledBuf rbuf hheader)]
  rfl

/-- The answer to a GET fits exactly when the item is not long. -/
theorem len_answer_of_get {d : Datagram} (hheader : headerLen ≤ d.bytes.length)
    (hle : wanted d.bytes ≤ d.bytes.length) (db : σ) (haccepted : Accepted (packetFrom rbuf d))
    (hget : Header.opcode (bytesMem d.bytes) 0 = opcodeGet) :
    (onRecieve srv (packetFrom rbuf d) db).2.1.len ≤ nmmcBufferSize ↔
      ¬ LongAnswer srv d.bytes := by
  rcases (accepted_packetFrom_iff rbuf hheader).1 haccepted with ⟨hvalid, hkeylen⟩
  have hopcode : Header.opcode (packetFrom rbuf d).data (packetFrom rbuf d).payload = opcodeGet :=
    (header_filledBuf rbuf hheader 1 (by decide)).trans hget
  -- A GET has no extras, so its key is the last thing that was read.
  have hend : headerLen + (Header.extlen (bytesMem d.bytes) 0).toNat + 4 ≤ wanted d.bytes := by
    rcases ((validateHeader_iff _ _ _).1 hvalid).1.2.2 with ⟨_, hext, _, hbody⟩ | ⟨hset, _⟩
    · rw [hext, wanted, hbody, hkeylen]
      exact Nat.le_refl _
    · exact absurd (hget.symm.trans hset) (by decide)
  have hkey : Header.key (packetFrom rbuf d).data (packetFrom rbuf d).payload =
      Header.key (bytesMem d.bytes) 0 := key_filledBuf rbuf hheader hle hend
  rw [fst_snd_of_eq (onRecieve_of_get srv db haccepted hopcode), hkey,
    len_onRecieveGet_le_iff srv (packetFrom rbuf d) (keyId (Header.key (bytesMem d.bytes) 0))
      (show 33 ≤ nmmcBufferSize by decide)]
  constructor
  · rintro hfits ⟨_, _, _, _, it, hshown, hlong⟩
    have hit := hfits it hshown
    unfold nmmcBufferSize at hit
    omega
  · intro hnot it hshown
    by_contra hlong
    refine hnot ⟨⟨hheader, hle⟩, hvalid, hkeylen, hget, it, hshown, ?_⟩
    unfold nmmcBufferSize at hlong
    omega

/-- A SET is answered with a bare header. -/
theorem len_answer_of_set {pkt : Packet} (db : σ) (haccepted : Accepted pkt)
    (hset : Header.opcode pkt.data pkt.payload = opcodeSet) :
    (onRecieve srv pkt db).2.1.len = 24 := by
  rw [fst_snd_of_eq ((onRecieve_of_set srv db haccepted hset).trans
    (onRecieveSet_eq srv _ db _ _ _))]
  rfl

/-- The answer to a complete datagram leaves `rbuf` exactly when it is that of a long item. -/
theorem answer_within_iff {d : Datagram} (hheader : headerLen ≤ d.bytes.length)
    (hle : wanted d.bytes ≤ d.bytes.length) (db : σ) :
    (∀ r ∈ onRecieveWrites srv (packetFrom rbuf d), r.Within rbufRegion) ↔
      ¬ LongAnswer srv d.bytes := by
  have hwithin := within_onRecieveWrites_iff srv (packetFrom rbuf d) db nmmcBufferSize
  have hacc := accepted_packetFrom_iff rbuf hheader
  have hpayload : (packetFrom rbuf d).payload = 0 := rfl
  rw [rbufRegion, hwithin, hpayload, Nat.zero_add]
  by_cases haccepted : Accepted (packetFrom rbuf d)
  · rcases hacc.1 haccepted with ⟨hvalid, _⟩
    rw [imp_iff_right haccepted]
    rcases ((validateHeader_iff _ _ _).1 hvalid).1.2.2 with ⟨hget, _⟩ | ⟨hset, _⟩
    · exact len_answer_of_get srv rbuf hheader hle db haccepted hget
    · have hopcode : Header.opcode (packetFrom rbuf d).data (packetFrom rbuf d).payload =
          opcodeSet := (header_filledBuf rbuf hheader 1 (by decide)).trans hset
      refine iff_of_true ?_ ?_
      · rw [len_answer_of_set srv db haccepted hopcode]
        decide
      · intro hlong
        exact absurd (hlong.opcode.symm.trans hset) (by decide)
  · refine iff_of_true (fun h => absurd h haccepted) ?_
    intro hlong
    exact haccepted (hacc.2 ⟨hlong.valid, hlong.keylen⟩)

theorem not_overruns_of_within {d : Datagram} {rest : List Datagram}
    (h : WithinBuffer srv rbuf sa (d :: rest)) : ¬ Overruns d.bytes := by
  intro hover
  rw [WithinBuffer, rbufWrites_of_header srv rbuf sa rest hover.1] at h
  have hbody := (List.forall_mem_append.1 (List.forall_mem_append.1 h).2).1
  exact (body_within_iff rest hover.1).1 hbody hover

theorem not_longAnswer_of_within {d : Datagram} {rest : List Datagram} (db : σ)
    (h : WithinBuffer srv rbuf sa (d :: rest)) : ¬ LongAnswer srv d.bytes := by
  intro hlong
  have hcut : ¬ d.bytes.length < wanted d.bytes := Nat.not_lt.2 hlong.complete.2
  rw [WithinBuffer, rbufWrites_of_header srv rbuf sa rest hlong.complete.1, if_neg hcut] at h
  have hanswer := (List.forall_mem_append.1 (List.forall_mem_append.1 h).2).2
  exact (answer_within_iff srv rbuf hlong.complete.1 hlong.complete.2 db).1 hanswer hlong

/-- A call writes within `rbuf` exactly when the datagram does not overrun the read of the body and
is no GET for an item of more than 2020 bytes. -/
theorem withinBuffer_iff (d : Datagram) (rest : List Datagram) (db : σ) :
    WithinBuffer srv rbuf sa (d :: rest) ↔ ¬ Overruns d.bytes ∧ ¬ LongAnswer srv d.bytes := by
  constructor
  · intro h
    exact ⟨not_overruns_of_within srv rbuf sa h, not_longAnswer_of_within srv rbuf sa db h⟩
  · rintro ⟨hover, hlong⟩
    have hpeek : ∀ r ∈ recvWrites (d :: rest) headerLen, r.Within rbufRegion :=
      recvWrites_within (by decide)
    have hfour : 4 ≤ nmmcBufferSize := by decide
    by_cases hheader : headerLen ≤ d.bytes.length
    · rw [WithinBuffer, rbufWrites_of_header srv rbuf sa rest hheader]
      refine List.forall_mem_append.2 ⟨hpeek, List.forall_mem_append.2 ⟨?_, ?_⟩⟩
      · exact (body_within_iff rest hheader).2 hover
      · split
        · exact recvWrites_within hfour
        · rename_i hcut
          exact (answer_within_iff srv rbuf hheader (Nat.le_of_not_lt hcut) db).2 hlong
    · rw [WithinBuffer, rbufWrites_of_short srv rbuf sa rest (Nat.lt_of_not_le hheader)]
      exact List.forall_mem_append.2 ⟨hpeek, recvWrites_within hfour⟩

end Within

/-! ## Two datagrams that leave the buffer -/

/-- A SET that claims a body of 2025 bytes and has it. -/
def longSet : Datagram := datagram (requestHead opcodeSet 8 2025 ++ zeros 2025)

theorem overruns_longSet : Overruns longSet.bytes := by
  have hself : (bytesMem longSet.bytes).read 0 longSet.bytes.length =
      [] ++ requestHead opcodeSet 8 2025 ++ zeros 2025 := Mem.read_write_self _ 0 longSet.bytes
  have hhead : (bytesMem longSet.bytes).read 0 headerLen = requestHead opcodeSet 8 2025 :=
    Mem.read_of_read_append [] _ _ hself
  have hbody : Header.bodylen (bytesMem longSet.bytes) 0 = 2025 :=
    (fields_of_requestHead hhead (by decide)).2.2.2.2.2
  have hlen : longSet.bytes.length = 2049 := by
    simp [longSet, datagram, headerLen]
  rw [Overruns, hbody, hlen]
  decide

/-- A GET for an item that a WRITE row with a blob of 2021 bytes has stored. -/
theorem longAnswer_getBytes {σ : Type u} (srv : Server σ)
    (htbl : srv.lookupValue =
      run Image.next LookupTable.clear (images (writeLog 5 (List.replicate 2021 0)))) :
    LongAnswer srv (getBytes 5) := by
  have hwell := wellFormed_getBytes (show 5 < tableSize by decide)
  have hget := (getRequest_getBytes (show 5 < tableSize by decide)).1
  have hkey : keyId (Header.key (bytesMem (getBytes 5)) 0) = 5 :=
    (getRequest_getBytes (show 5 < tableSize by decide)).2
  have hwant := wanted_of_wellFormed hwell
  refine ⟨⟨hwell.1, Nat.le_of_eq hwant⟩, ?_, hget.keylen, hget.opcode, ?_⟩
  · have hvalid := hwell.2
    rwa [← hwant] at hvalid
  · refine ⟨Item.setValid statOn (itemOfBlob (List.replicate 2021 0)), ?_, ?_⟩
    · rw [hkey, htbl]
      exact shown_writeLog 5 (by decide) _
    · have hlen : (itemOfBlob (List.replicate 2021 0)).datalen = BitVec.ofNat 11 2021 := by
        rw [itemOfBlob, List.length_replicate]
      have hdatalen : (Item.setValid statOn (itemOfBlob (List.replicate 2021 0))).datalen =
          BitVec.ofNat 11 2021 := hlen
      rw [hdatalen]
      decide

/-- The buffer is overrun by a datagram of 2049 bytes whatever the table holds, and by a GET of 28
bytes when the table was filled from the binlog. -/
theorem not_withinBuffer :
    (∀ tbl, ¬ WithinBuffer (idleServer tbl) (fun _ => 0) { addr := 0, port := 0 } [longSet]) ∧
    (∃ log seen tbl, Reached log seen tbl ∧
      ¬ WithinBuffer (idleServer tbl) (fun _ => 0) { addr := 0, port := 0 }
        [datagram (getBytes 5)]) ∧
    ¬ ∀ log seen tbl, Reached log seen tbl → ∀ rbuf sa d rest, d.bytes.length ≤ 65507 →
      WithinBuffer (idleServer tbl) rbuf sa (d :: rest) := by
  have hreached := reached_writeLog 5 (by decide) (List.replicate 2021 0)
  have hget : ¬ WithinBuffer (idleServer (run Image.next LookupTable.clear
      (images (writeLog 5 (List.replicate 2021 0))))) (fun _ => 0) { addr := 0, port := 0 }
      [datagram (getBytes 5)] :=
    fun h => not_longAnswer_of_within _ _ _ () h (longAnswer_getBytes _ rfl)
  refine ⟨?_, ⟨_, _, _, hreached, hget⟩, ?_⟩
  · intro tbl h
    exact not_overruns_of_within _ _ _ h overruns_longSet
  · intro h
    exact hget (h _ _ _ hreached _ _ _ _ (by decide))

end Arch
end NmMemcached
