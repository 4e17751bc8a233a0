import NmMemcached.Arch.Receive

/-!
# Client — the client of `test/nmmc_test.cc`

`WarmUp` sends one SET for each key below `TEST_KEYMAX`.  Then each thread sends GETs for these keys
in turn (`OnSend`) and counts the answers (`OnRecv`).

* A buffer is uninitialised where the source leaves it so.
* `OnRecv` looks at the header of an answer and then reads as many bytes as the header says follow
  it, so it takes a part of the answer only.  A datagram is gone with the first plain receive,
  whatever is left of it.
-/

namespace NmMemcached
namespace Test

open Lib Base Net Server Arch

/-- `TEST_KEYMAX`. -/
def testKeymax : Nat := 0x1fff

/-- `VALUE_SIZE`. -/
def valueSize : Nat := 256

/-- `ETHER_MAX_LEN`. -/
def etherMaxLen : Nat := 1518

/-- `++` on a `uint64_t`. -/
def next (n : Nat) : Nat := (n + 1) % 18446744073709551616

structure ThreadArg where
  seq : Nat
  sendCount : Nat
  sendError : Nat
  recvCount : Nat
  recvError : Nat
  deriving DecidableEq

/-- `bzero`, and `seq = 1`. -/
def ThreadArg.init : ThreadArg :=
  { seq := 1
    sendCount := 0
    sendError := 0
    recvCount := 0
    recvError := 0 }

/-! ## Sending -/

/-- `wbf` when `OnSend` hands it to `sendto`. -/
def getBuf (wbf : Mem) (seq : Nat) : Mem :=
  let wbf := wbf.write 0 (zeros headerLen)
  let wbf := wbf.write 0 [magicRequest]
  let wbf := wbf.write 1 [opcodeGet]
  let wbf := wbf.write 2 (Mem.be16Bytes 4)
  let wbf := wbf.write 4 [0]
  let wbf := wbf.write 8 (Mem.be32Bytes 4)
  wbf.write headerLen (Mem.be32Bytes seq)

/-- The bytes that `OnSend` sends. -/
def getDatagram (wbf : Mem) (seq : Nat) : List UInt8 :=
  (getBuf wbf seq).read 0 (headerLen + 4)

/-- `OnSend`; `sent` is whether `sendto` returned the length. -/
def onSend (ptr : ThreadArg) (sent : Bool) : ThreadArg :=
  let ptr :=
    if sent then { ptr with sendCount := next ptr.sendCount }
    else { ptr with sendError := next ptr.sendError }
  let seq := (ptr.seq + 1) % 4294967296
  { ptr with seq := if seq ≥ testKeymax then 1 else seq }

/-- `wbf` when `WarmUp` hands it to `sendto` for key `n`. -/
def setBuf (wbf : Mem) (n : Nat) : Mem :=
  let wbf := wbf.write 0 (List.replicate etherMaxLen (UInt8.ofNat n))
  let wbf := wbf.write 0 (zeros headerLen)
  let wbf := wbf.write 0 [magicRequest]
  let wbf := wbf.write 1 [opcodeSet]
  let wbf := wbf.write 2 (Mem.be16Bytes 4)
  let wbf := wbf.write 4 [8]
  let wbf := wbf.write 8 (Mem.be32Bytes (4 + 8 + valueSize))
  -- `opaque` is stored in host order.
  let wbf := wbf.write 12 (Mem.le32Bytes (BitVec.ofNat 32 n))
  let wbf := wbf.write headerLen (Mem.be32Bytes 0xdeadbeef)
  let wbf := wbf.write (headerLen + 4) (Mem.be32Bytes 0xdeadc0de)
  wbf.write (headerLen + 8) (Mem.be32Bytes n)

/-- The bytes that `WarmUp` sends for key `n`. -/
def setDatagram (wbf : Mem) (n : Nat) : List UInt8 :=
  (setBuf wbf n).read 0 (headerLen + 4 + 8 + valueSize)

/-! ## Receiving -/

/-- `OnRecv`: the counters and the queue it leaves, or nothing when the second receive goes past the
end of `rbuf`. -/
def onRecv (ptr : ThreadArg) (rbuf : Mem) (sa : SockAddr) (queue : List Datagram) :
    Option (ThreadArg × List Datagram) :=
  let peek := recvPeek queue rbuf sa headerLen
  if peek.rlen ≠ headerLen then
    some ({ ptr with recvError := next ptr.recvError }, (recvfrom queue peek.rbuf peek.sa 4).queue)
  else
    let want := Header.bodylen peek.rbuf 0
    let body := recvfrom queue peek.rbuf peek.sa want
    if (etherMaxLen : Int) < body.rlen then none
    else if body.rlen ≠ want then
      some ({ ptr with recvError := next ptr.recvError },
        (recvfrom body.queue body.rbuf body.sa 4).queue)
    -- Zero is zero in either byte order.
    else if body.rbuf.be16 6 = 0 then
      some ({ ptr with recvCount := next ptr.recvCount }, body.queue)
    else
      some ({ ptr with recvError := next ptr.recvError }, body.queue)

/-! ## The requests are well formed -/

theorem getDatagram_eq (wbf : Mem) (seq : Nat) : getDatagram wbf seq = getBytes seq := by
  simp [getDatagram, getBuf, getBytes, requestHead, Mem.read, Mem.write, List.range_succ, zeros,
    headerLen, Mem.be16Bytes, Mem.be32Bytes]

/-- A buffer with the bytes of a GET. -/
theorem getRequest_of_read {m : Mem} {k : Nat} (hk : k < tableSize)
    (h : m.read 0 (headerLen + 4) = getBytes k) (sa : SockAddr) :
    GetRequest (Packet.ofDatagram m (headerLen + 4) sa) ∧
      requestKey (Packet.ofDatagram m (headerLen + 4) sa) = k := by
  have hlt : k < 4294967296 := by
    rw [tableSize_eq] at hk
    omega
  have hhead : m.read 0 headerLen = requestHead opcodeGet 0 4 :=
    Mem.read_of_read_append [] (requestHead opcodeGet 0 4) (Mem.be32Bytes k) h
  have hlast : m.read headerLen 4 = Mem.be32Bytes k := by
    have hfour := Mem.read_of_read_append (requestHead opcodeGet 0 4) (Mem.be32Bytes k) []
      (h.trans (List.append_nil _).symm)
    rwa [Nat.zero_add] at hfour
  rcases fields_of_requestHead hhead (by decide) with
    ⟨hmagic, hopcode, hkeylen, hextlen, htype, hbody⟩
  refine ⟨⟨?_, hkeylen, hopcode⟩, ?_⟩
  · refine (validateHeader_iff _ _ _).2 ⟨⟨hmagic, htype, Or.inl ⟨hopcode, hextlen, ?_, ?_⟩⟩, ?_⟩
    · exact ne_of_eq_of_ne hkeylen (by decide)
    · exact hbody.trans hkeylen.symm
    · exact congrArg (· + headerLen) hbody
  · have hkey : Header.key m 0 = k := by
      rw [Header.key, hextlen]
      exact Mem.be32_of_read hlast hlt
    exact (congrArg keyId hkey).trans (Nat.mod_eq_of_lt hk)

/-- The header of a SET of the warm-up, and where its key and its value are. -/
structure WarmSet (m : Mem) (n : Nat) : Prop where
  magic : Header.magic m 0 = magicRequest
  opcode : Header.opcode m 0 = opcodeSet
  keylen : Header.keylen m 0 = 4
  extlen : Header.extlen m 0 = 8
  datatype : Header.datatype m 0 = 0
  bodylen : Header.bodylen m 0 = 4 + 8 + valueSize
  key : m.read 32 4 = Mem.be32Bytes n
  value : m.read 36 valueSize = List.replicate valueSize (UInt8.ofNat n)

theorem warmSet_setBuf (wbf : Mem) (n : Nat) : WarmSet (setBuf wbf n) n := by
  refine ⟨?_, ?_, ?_, ?_, ?_, ?_, ?_, ?_⟩
  iterate 6
    simp [setBuf, Header.magic, Header.opcode, Header.keylen, Header.extlen, Header.datatype,
      Header.bodylen, Mem.be16, Mem.be32, Mem.write, zeros, headerLen, Mem.be16Bytes,
      Mem.be32Bytes, Mem.le32Bytes, valueSize]
  · exact Mem.read_write_self _ _ _
  · -- The value is behind everything that was written over the fill.
    refine List.ext_getElem (by simp) fun i hi _ => ?_
    have hlt : 36 + i < (List.replicate etherMaxLen (UInt8.ofNat n)).length := by
      rw [Mem.length_read, valueSize] at hi
      rw [List.length_replicate, etherMaxLen]
      omega
    have hover : ∀ (m : Mem) (off : Nat) (bs : List UInt8), off + bs.length ≤ 36 →
        m.write off bs (36 + i) = m (36 + i) :=
      fun m off bs hle => Mem.write_of_le (by omega)
    have hfill := @Mem.write_add wbf 0 (36 + i) _ hlt
    rw [Nat.zero_add] at hfill
    rw [Mem.getElem_read]
    simp only [setBuf]
    iterate 10 rw [hover _ _ _ (by simp [headerLen])]
    rw [hfill, List.getElem_replicate, List.getElem_replicate]

/-- A buffer with the bytes of a SET of the warm-up. -/
theorem warmSet_of_read {m wbf : Mem} {n : Nat}
    (h : m.read 0 (headerLen + 4 + 8 + valueSize) = setDatagram wbf n) : WarmSet m n := by
  have hw := warmSet_setBuf wbf n
  have hsame : ∀ i < headerLen + 4 + 8 + valueSize, m (0 + i) = setBuf wbf n (0 + i) :=
    fun i hi => Mem.apply_of_read_eq h hi
  have hhead : ∀ i < headerLen, m (0 + i) = setBuf wbf n (0 + i) :=
    fun i hi => hsame i (Nat.lt_add_right _ (Nat.lt_add_right _ (Nat.lt_add_right _ hi)))
  have hread : ∀ off k, off + k ≤ headerLen + 4 + 8 + valueSize →
      m.read off k = (setBuf wbf n).read off k := by
    intro off k hle
    refine Mem.read_congr fun i hi => ?_
    have hbyte := hsame (off + i) (by omega)
    rwa [Nat.zero_add] at hbyte
  refine ⟨?_, ?_, ?_, ?_, ?_, ?_, ?_, ?_⟩
  · exact (hhead 0 (by decide)).trans hw.magic
  · exact (hhead 1 (by decide)).trans hw.opcode
  · exact (keylen_congr hhead).trans hw.keylen
  · exact (hhead 4 (by decide)).trans hw.extlen
  · exact (hhead 5 (by decide)).trans hw.datatype
  · exact (bodylen_congr hhead).trans hw.bodylen
  · exact (hread 32 4 (by decide)).trans hw.key
  · exact (hread 36 valueSize (by decide)).trans hw.value

theorem setRequest_of_read {m wbf : Mem} {n : Nat} (hn : n < tableSize)
    (h : m.read 0 (headerLen + 4 + 8 + valueSize) = setDatagram wbf n) (sa : SockAddr) :
    SetRequest (Packet.ofDatagram m (headerLen + 4 + 8 + valueSize) sa) ∧
      requestKey (Packet.ofDatagram m (headerLen + 4 + 8 + valueSize) sa) = n ∧
      requestValue (Packet.ofDatagram m (headerLen + 4 + 8 + valueSize) sa) =
        List.replicate valueSize (UInt8.ofNat n) := by
  have hw := warmSet_of_read h
  have hlt : n < 4294967296 := by
    rw [tableSize_eq] at hn
    omega
  have hkey : Header.key m 0 = n := by
    rw [Header.key, hw.extlen]
    exact Mem.be32_of_read hw.key hlt
  have hval : Header.reqVal m 0 = 36 := by
    rw [Header.reqVal, hw.extlen, hw.keylen]
    rfl
  have hvall : (Header.reqVall m 0).toNat = valueSize := by
    rw [Header.reqVall, hw.bodylen, hw.extlen, hw.keylen]
    decide
  have hvalue : requestValue (Packet.ofDatagram m (headerLen + 4 + 8 + valueSize) sa) =
      List.replicate valueSize (UInt8.ofNat n) := by
    have hread : requestValue (Packet.ofDatagram m (headerLen + 4 + 8 + valueSize) sa) =
        m.read (Header.reqVal m 0) (Header.reqVall m 0).toNat := rfl
    rw [hread, hval, hvall, hw.value]
  refine ⟨⟨?_, hw.keylen, hw.opcode, ?_, ?_⟩, ?_, hvalue⟩
  · refine (validateHeader_iff _ _ _).2
      ⟨⟨hw.magic, hw.datatype, Or.inr ⟨hw.opcode, ?_, ?_, ?_⟩⟩, ?_⟩
    · exact ne_of_eq_of_ne hw.extlen (by decide)
    · exact ne_of_eq_of_ne hw.keylen (by decide)
    · exact ne_of_eq_of_ne hw.bodylen (by decide)
    · exact congrArg (· + headerLen) hw.bodylen
  · rw [hvalue, List.length_replicate]
    decide
  · rw [hvalue, List.length_replicate]
    decide
  · exact (congrArg keyId hkey).trans (Nat.mod_eq_of_lt hn)

/-! ## What the client makes of an answer -/

/-- An answer is as long as its header says, and a value has not more than 1024 bytes. -/
structure IsAnswer (bs : List UInt8) : Prop where
  length : bs.length = headerLen + Header.bodylen (bytesMem bs) 0
  length_le : bs.length ≤ headerLen + 4 + itemLen

/-- The status in the header is zero. -/
def statusOk (bs : List UInt8) : Bool := decide ((bytesMem bs).be16 6 = 0)

/-- The header stays readable in `rbuf`, however little the second receive takes. -/
theorem header_of_two_writes (rbuf : Mem) {bs : List UInt8} (hbs : headerLen ≤ bs.length)
    (n : Nat) : ∀ i < headerLen,
    ((rbuf.write 0 (bs.take headerLen)).write 0 (bs.take n)) (0 + i) = bytesMem bs (0 + i) := by
  intro i hi
  have hfirst := header_of_write_take rbuf (Nat.le_refl headerLen) hbs i hi
  by_cases hn : i < n
  · have hlt : i < (bs.take n).length := by
      rw [List.length_take]
      omega
    have hlt' : i < bs.length := Nat.lt_of_lt_of_le hi hbs
    rw [Mem.write_add hlt, bytesMem, Mem.write_add hlt', List.getElem_take]
  · rw [Mem.write_of_le (by rw [List.length_take]; omega), hfirst]

/-- The client counts the answer and takes nothing else from its socket. -/
theorem onRecv_answer (ptr : ThreadArg) (rbuf : Mem) (sa : SockAddr) {d : Datagram}
    (h : IsAnswer d.bytes) (rest : List Datagram) :
    onRecv ptr rbuf sa (d :: rest) =
      some
        (if statusOk d.bytes then { ptr with recvCount := next ptr.recvCount }
          else { ptr with recvError := next ptr.recvError }, rest) := by
  have hheader : headerLen ≤ d.bytes.length := h.length ▸ Nat.le_add_right _ _
  have hbody : Header.bodylen (rbuf.write 0 (d.bytes.take headerLen)) 0 =
      Header.bodylen (bytesMem d.bytes) 0 :=
    bodylen_congr (header_of_write_take rbuf (Nat.le_refl headerLen) hheader)
  have hlen := h.length
  have hle := h.length_le
  have hitem : headerLen + 4 + itemLen ≤ etherMaxLen := by decide
  have hmin : min (Header.bodylen (bytesMem d.bytes) 0 : Int) d.bytes.length =
      Header.bodylen (bytesMem d.bytes) 0 := by omega
  have hpeek : min (headerLen : Int) d.bytes.length = headerLen := by omega
  have hroom : ¬ (etherMaxLen : Int) < Header.bodylen (bytesMem d.bytes) 0 := by omega
  have hstatus : ((rbuf.write 0 (d.bytes.take headerLen)).write 0
      (d.bytes.take (Header.bodylen (bytesMem d.bytes) 0))).be16 6 = (bytesMem d.bytes).be16 6 := by
    have hsame := header_of_two_writes rbuf hheader (Header.bodylen (bytesMem d.bytes) 0)
    have h6 := hsame 6 (by decide)
    have h7 := hsame 7 (by decide)
    simp only [Nat.zero_add] at h6 h7
    simp only [Mem.be16, Nat.reduceAdd, h6, h7]
  unfold onRecv
  simp only [recvfrom, recvPeek, hpeek, ne_eq, not_true_eq_false, if_false, hbody, hmin, hroom,
    hstatus, List.tail_cons, statusOk, decide_eq_true_eq]
  by_cases hzero : (bytesMem d.bytes).be16 6 = 0
  · rw [if_pos hzero, if_pos hzero]
  · rw [if_neg hzero, if_neg hzero]

end Test
end NmMemcached
