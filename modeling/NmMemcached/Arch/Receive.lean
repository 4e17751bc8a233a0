import NmMemcached.Arch.Socket

/-!
# Receive — what one call of `OnRecv` takes from the socket

`onRecv_cons` lists the exits of `OnRecv` for a queue with a first datagram.  Two exits read once
more: a datagram below the header length is still in the queue and is thrown away by that read,
but one that is shorter than its header claims has been removed already, and the read takes the
datagram behind it.

`onRecv_head_only` says when a call removes the head datagram alone, and what that means for a
run of arrivals and calls: every request is handed to `OnRecieve` once and in order.
-/

namespace NmMemcached
namespace Arch

open Lib Base Net Server

universe u

/-! ## The exits of a call -/

/-- A buffer with these bytes. -/
def bytesMem (m : List UInt8) : Mem := Mem.write (fun _ => 0) 0 m

/-- What `OnRecv` asks the socket for after the peek. -/
def wanted (m : List UInt8) : Nat := headerLen + Header.bodylen (bytesMem m) 0

/-- The socket read goes past the end of `rbuf`. -/
def Overruns (m : List UInt8) : Prop :=
  headerLen ≤ m.length ∧
    nmmcBufferSize < min (headerLen + Header.bodylen (bytesMem m) 0) m.length

/-- The datagram has a header and is shorter than the header claims. -/
def CutOff (m : List UInt8) : Prop := headerLen ≤ m.length ∧ m.length < wanted m

/-- A buffer that took at least a header's worth of the datagram holds its header. -/
theorem header_of_write_take (rbuf : Mem) {m : List UInt8} {n : Nat} (hn : headerLen ≤ n)
    (hm : headerLen ≤ m.length) :
    ∀ i < headerLen, rbuf.write 0 (m.take n) (0 + i) = bytesMem m (0 + i) := by
  intro i hi
  have hfull : i < m.length := Nat.lt_of_lt_of_le hi hm
  have htake : i < (m.take n).length := by
    rw [List.length_take]
    omega
  rw [bytesMem, Mem.write_add htake, Mem.write_add hfull, List.getElem_take]

/-- `rbuf` after the peek and the read of the body. -/
def filledBuf (rbuf : Mem) (m : List UInt8) : Mem :=
  (rbuf.write 0 (m.take headerLen)).write 0 (m.take (wanted m))

theorem header_filledBuf (rbuf : Mem) {m : List UInt8} (hm : headerLen ≤ m.length) :
    ∀ i < headerLen, filledBuf rbuf m (0 + i) = bytesMem m (0 + i) :=
  header_of_write_take _ (Nat.le_add_right _ _) hm

theorem validateHeader_filledBuf (rbuf : Mem) {m : List UInt8} (hm : headerLen ≤ m.length)
    (ln : Nat) : validateHeader (filledBuf rbuf m) 0 ln = validateHeader (bytesMem m) 0 ln := by
  have hsame := header_filledBuf rbuf hm
  rw [Bool.eq_iff_iff, validateHeader_iff, validateHeader_iff, headerOk_congr hsame,
    bodylen_congr hsame]

/-- The packet that `OnRecv` builds from a datagram. -/
def packetFrom (rbuf : Mem) (d : Datagram) : Packet :=
  Packet.ofDatagram (filledBuf rbuf d.bytes) (wanted d.bytes) d.sa

section OnRecv

variable {σ : Type u} (srv : Server σ) (rbuf : Mem) (sa : SockAddr) (d : Datagram)
  (rest : List Datagram) (db : σ)

theorem onRecv_nil : onRecv srv rbuf sa [] db = { outcome := .dropped, queue := [], db := db } :=
  rfl

theorem recvPeek_cons (h : headerLen ≤ d.bytes.length) :
    recvPeek (d :: rest) rbuf sa headerLen =
      { rlen := headerLen, rbuf := rbuf.write 0 (d.bytes.take headerLen), sa := d.sa,
        queue := d :: rest } := by
  have hmin : min (headerLen : Int) d.bytes.length = headerLen := by omega
  simp only [recvPeek, hmin]

theorem recvfrom_cons :
    recvfrom (d :: rest) (rbuf.write 0 (d.bytes.take headerLen)) d.sa (wanted d.bytes) =
      { rlen := min (wanted d.bytes) d.bytes.length, rbuf := filledBuf rbuf d.bytes, sa := d.sa,
        queue := rest } := rfl

theorem wanted_of_peek {d : Datagram} (h : headerLen ≤ d.bytes.length) :
    headerLen + Header.bodylen (rbuf.write 0 (d.bytes.take headerLen)) 0 = wanted d.bytes := by
  rw [bodylen_congr (header_of_write_take rbuf (Nat.le_refl headerLen) h)]
  rfl

theorem overrun_test (n m : Nat) :
    (nmmcBufferSize : Int) < min (n : Int) m ↔ nmmcBufferSize < min n m := by
  omega

theorem cutOff_test (n m : Nat) : ¬ min (n : Int) m = n ↔ m < n := by
  omega

/-- The exits of `OnRecv`, in the order of the source. -/
theorem onRecv_cons :
    onRecv srv rbuf sa (d :: rest) db =
      if d.bytes.length < headerLen then
        { outcome := .dropped, queue := rest, db := db }
      else if nmmcBufferSize < min (wanted d.bytes) d.bytes.length then
        { outcome := .overrun, queue := rest, db := db }
      else if d.bytes.length < wanted d.bytes then
        { outcome := .dropped, queue := rest.tail, db := db }
      else if validateHeader (bytesMem d.bytes) 0 (wanted d.bytes) = false then
        { outcome := .dropped, queue := rest, db := db }
      else
        { outcome := Outcome.ofHandled (onRecieve srv (packetFrom rbuf d) db)
          queue := rest
          db := (onRecieve srv (packetFrom rbuf d) db).2.2 } := by
  by_cases hshort : d.bytes.length < headerLen
  · simp [onRecv, recvPeek, recvfrom, hshort]
  · have hheader : headerLen ≤ d.bytes.length := Nat.le_of_not_lt hshort
    rw [if_neg hshort]
    unfold onRecv
    simp only [recvPeek_cons rbuf sa d rest hheader, ne_eq, not_true_eq_false, if_false,
      wanted_of_peek rbuf hheader, recvfrom_cons, overrun_test, cutOff_test,
      validateHeader_filledBuf rbuf hheader, Bool.not_eq_true]
    rfl

/-! ## The datagram a call removes -/

/-- The call has a defined outcome and removes the head datagram and nothing else. -/
def RemovesHead (res : RecvResult σ) (rest : List Datagram) : Prop :=
  res.queue = rest ∧ res.outcome ≠ .overrun

/-- The head datagram fits into `rbuf`, and is cut off only when nothing is behind it. -/
def HeadOnly (d : Datagram) (rest : List Datagram) : Prop :=
  ¬ Overruns d.bytes ∧ (CutOff d.bytes → rest = [])

theorem ofHandled_ne_overrun (res : Nat × Packet × σ) : Outcome.ofHandled res ≠ .overrun := by
  unfold Outcome.ofHandled
  split <;> simp

theorem tail_eq_self_iff {rest : List Datagram} : rest.tail = rest ↔ rest = [] := by
  cases rest with
  | nil =>
      simp
  | cons d rest =>
      have hne : rest ≠ d :: rest := (List.cons_ne_self d rest).symm
      simp [hne]

theorem removesHead_iff : RemovesHead (onRecv srv rbuf sa (d :: rest) db) rest ↔
    HeadOnly d rest := by
  rw [onRecv_cons]
  by_cases hshort : d.bytes.length < headerLen
  · have hover : ¬ Overruns d.bytes := fun h => Nat.not_lt.2 h.1 hshort
    have hcut : ¬ CutOff d.bytes := fun h => Nat.not_lt.2 h.1 hshort
    simp [hshort, RemovesHead, HeadOnly, hover, hcut]
  · have hheader : headerLen ≤ d.bytes.length := Nat.le_of_not_lt hshort
    rw [if_neg hshort]
    by_cases hlong : nmmcBufferSize < min (wanted d.bytes) d.bytes.length
    · have hover : Overruns d.bytes := ⟨hheader, hlong⟩
      simp [hlong, RemovesHead, HeadOnly, hover]
    · have hover : ¬ Overruns d.bytes := fun h => hlong h.2
      rw [if_neg hlong]
      by_cases hless : d.bytes.length < wanted d.bytes
      · -- The head is gone already, and the read behind it takes one more.
        have hcut : CutOff d.bytes := ⟨hheader, hless⟩
        rw [if_pos hless, RemovesHead, HeadOnly, tail_eq_self_iff]
        simp [hover, hcut]
      · have hcut : ¬ CutOff d.bytes := fun h => hless h.2
        rw [if_neg hless]
        split
        · simp [RemovesHead, HeadOnly, hover, hcut]
        · exact iff_of_true ⟨rfl, ofHandled_ne_overrun _⟩ ⟨hover, fun h => absurd h hcut⟩

/-! ## The request a call hands over -/

/-- The packet that `OnRecv` hands to `OnRecieve`, with the exits of the source in front of it. -/
def handedPacket (rbuf : Mem) (sa : SockAddr) (queue : List Datagram) : Option Packet :=
  let peek := recvPeek queue rbuf sa headerLen
  if peek.rlen ≠ headerLen then none
  else
    let want := headerLen + Header.bodylen peek.rbuf 0
    let body := recvfrom queue peek.rbuf peek.sa want
    if (nmmcBufferSize : Int) < body.rlen then none
    else if body.rlen ≠ want then none
    else if ¬ validateHeader body.rbuf 0 want then none
    else some (Packet.ofDatagram body.rbuf want body.sa)

/-- `OnRecv` calls `OnRecieve` on that packet, and without one the database stays. -/
theorem onRecv_handedPacket (queue : List Datagram) :
    (onRecv srv rbuf sa queue db).db =
      match handedPacket rbuf sa queue with
      | some pkt => (onRecieve srv pkt db).2.2
      | none => db := by
  unfold onRecv handedPacket
  dsimp only
  split
  · rfl
  · split
    · rfl
    · split
      · rfl
      · split <;> rfl

/-- The request at the front of a datagram. -/
def request (d : Datagram) : Option Datagram :=
  if headerLen ≤ d.bytes.length ∧ wanted d.bytes ≤ d.bytes.length ∧
      validateHeader (bytesMem d.bytes) 0 (wanted d.bytes) = true then
    some { d with bytes := d.bytes.take (wanted d.bytes) }
  else
    none

/-- The datagram is one request, from its first byte to its last. -/
def WellFormed (d : Datagram) : Prop :=
  headerLen ≤ d.bytes.length ∧ validateHeader (bytesMem d.bytes) 0 d.bytes.length = true

theorem wanted_of_wellFormed {d : Datagram} (h : WellFormed d) :
    wanted d.bytes = d.bytes.length := by
  rw [← ((validateHeader_iff _ _ _).1 h.2).2, wanted, Nat.add_comm]

/-- A request that fits into `rbuf` does no harm to the datagrams behind it. -/
theorem headOnly_of_wellFormed {d : Datagram} (h : WellFormed d)
    (hlen : d.bytes.length ≤ nmmcBufferSize) (rest : List Datagram) : HeadOnly d rest := by
  refine ⟨?_, ?_⟩
  · rintro ⟨_, hlong⟩
    exact absurd (Nat.lt_of_lt_of_le hlong (Nat.min_le_right _ _)) (Nat.not_lt.2 hlen)
  · rintro ⟨_, hcut⟩
    rw [wanted_of_wellFormed h] at hcut
    exact absurd hcut (Nat.lt_irrefl _)

theorem request_of_wellFormed {d : Datagram} (h : WellFormed d) : request d = some d := by
  have hwant := wanted_of_wellFormed h
  have hvalid := h.2
  rw [← hwant] at hvalid
  rw [request, if_pos ⟨h.1, Nat.le_of_eq hwant, hvalid⟩, hwant, List.take_length]

/-- What a packet holds, as a datagram. -/
def ofPacket (pkt : Packet) : Datagram :=
  { bytes := pkt.data.read pkt.payload pkt.len
    sa := pkt.sa }

theorem handedPacket_nil : handedPacket rbuf sa [] = none := rfl

theorem ofPacket_packetFrom (h : wanted d.bytes ≤ d.bytes.length) :
    ofPacket (packetFrom rbuf d) = { d with bytes := d.bytes.take (wanted d.bytes) } := by
  have hlen : (d.bytes.take (wanted d.bytes)).length = wanted d.bytes :=
    List.length_take_of_le h
  have hread := Mem.read_write_self (rbuf.write 0 (d.bytes.take headerLen)) 0
    (d.bytes.take (wanted d.bytes))
  rw [hlen] at hread
  exact congrArg (fun bs => (⟨bs, d.sa⟩ : Datagram)) hread

/-- A datagram that fits into `rbuf` hands its request over, if it has one. -/
theorem handedPacket_cons (hfits : ¬ Overruns d.bytes) :
    (handedPacket rbuf sa (d :: rest)).map ofPacket = request d := by
  by_cases hshort : d.bytes.length < headerLen
  · have hnone : handedPacket rbuf sa (d :: rest) = none := by
      simp [handedPacket, recvPeek, hshort]
    have hno : ¬ headerLen ≤ d.bytes.length := Nat.not_le.2 hshort
    simp [hnone, request, hno]
  · have hheader : headerLen ≤ d.bytes.length := Nat.le_of_not_lt hshort
    have hfit : ¬ nmmcBufferSize < min (wanted d.bytes) d.bytes.length :=
      fun h => hfits ⟨hheader, h⟩
    unfold handedPacket
    simp only [recvPeek_cons rbuf sa d rest hheader, ne_eq, not_true_eq_false, if_false,
      wanted_of_peek rbuf hheader, recvfrom_cons, overrun_test, cutOff_test,
      validateHeader_filledBuf rbuf hheader, Bool.not_eq_true, hfit]
    by_cases hcut : d.bytes.length < wanted d.bytes
    · have hno : ¬ wanted d.bytes ≤ d.bytes.length := Nat.not_le.2 hcut
      simp [hcut, request, hno]
    · have hle : wanted d.bytes ≤ d.bytes.length := Nat.le_of_not_lt hcut
      by_cases hvalid : validateHeader (bytesMem d.bytes) 0 (wanted d.bytes) = true
      · simpa [hcut, request, hheader, hle, hvalid, packetFrom] using ofPacket_packetFrom rbuf d hle
      · simp [hcut, request, hvalid]

end OnRecv

/-! ## Runs of arrivals and calls -/

section Runs

variable {σ : Type u}

/-- `rbuf` and `sa` are on the stack, so each call finds them with arbitrary contents. -/
inductive Traffic
  | arrives (d : Datagram)
  | calls (rbuf : Mem) (sa : SockAddr)

structure Served (σ : Type u) where
  queue : List Datagram
  db : σ
  /-- What `OnRecieve` has been handed so far. -/
  handed : List Datagram

def Served.step (srv : Server σ) (s : Served σ) : Traffic → Served σ
  | .arrives d => { s with queue := s.queue ++ [d] }
  | .calls rbuf sa =>
      { queue := (onRecv srv rbuf sa s.queue s.db).queue
        db := (onRecv srv rbuf sa s.queue s.db).db
        handed := s.handed ++ ((handedPacket rbuf sa s.queue).map ofPacket).toList }

def Traffic.arrival : Traffic → Option Datagram
  | .arrives d => some d
  | .calls _ _ => none

/-- A call meets a head datagram that it removes alone. -/
def HeadSafe (s : Served σ) : Traffic → Prop
  | .arrives _ => True
  | .calls _ _ => ∀ d rest, s.queue = d :: rest → HeadOnly d rest

/-- The requests that were handed over and those that still wait. -/
def Served.requests (s : Served σ) : List Datagram := s.handed ++ s.queue.filterMap request

variable (srv : Server σ)

theorem requests_step {s : Served σ} {t : Traffic} (h : HeadSafe s t) :
    (s.step srv t).requests = s.requests ++ t.arrival.toList.filterMap request := by
  cases t with
  | arrives d =>
      simp [Served.step, Served.requests, Traffic.arrival]
  | calls rbuf sa =>
      cases hqueue : s.queue with
      | nil =>
          simp [Served.step, Served.requests, Traffic.arrival, hqueue, onRecv_nil,
            handedPacket_nil]
      | cons d rest =>
          -- The head is removed, and what it asks for is handed over at the same time.
          have hhead := h d rest hqueue
          have hrest := ((removesHead_iff srv rbuf sa d rest s.db).2 hhead).1
          have hhanded := handedPacket_cons rbuf sa d rest hhead.1
          cases hrequest : request d <;>
            simp [Served.step, Served.requests, Traffic.arrival, hqueue, hrest, hhanded, hrequest]

theorem requests_run {s : Served σ} {es : List Traffic}
    (h : Along (Served.step srv) HeadSafe s es) :
    (run (Served.step srv) s es).requests =
      s.requests ++ (es.filterMap Traffic.arrival).filterMap request := by
  refine run_history_along (P := fun es s' => s'.requests =
    s.requests ++ (es.filterMap Traffic.arrival).filterMap request) ?_ ?_ h
  · simp
  · intro es t hes hsafe
    rw [requests_step srv hsafe, hes]
    cases t with
    | arrives d =>
        simp [Traffic.arrival]
    | calls rbuf sa =>
        simp [Traffic.arrival]

/-- A call removes exactly the head datagram unless that datagram is cut off in front of another
one or is too long for `rbuf`.  In a run whose calls meet no such datagram, what `OnRecieve` is
handed and what still waits are the requests that were pending or have arrived, each once and in
this order; and a well-formed datagram is its own request. -/
theorem onRecv_head_only :
    (∀ rbuf sa d rest db,
      RemovesHead (onRecv srv rbuf sa (d :: rest) db) rest ↔ HeadOnly d rest) ∧
    (∀ (s : Served σ) (es : List Traffic), s.handed = [] →
      Along (Served.step srv) HeadSafe s es →
        (run (Served.step srv) s es).handed ++
            (run (Served.step srv) s es).queue.filterMap request =
          (s.queue ++ es.filterMap Traffic.arrival).filterMap request) ∧
    (∀ d, WellFormed d → request d = some d) := by
  refine ⟨?_, ?_, ?_⟩
  · intro rbuf sa d rest db
    exact removesHead_iff srv rbuf sa d rest db
  · intro s es hstart hsafe
    have hrun := requests_run srv hsafe
    rw [Served.requests, Served.requests, hstart, List.nil_append] at hrun
    rw [hrun, List.filterMap_append]
  · intro d hd
    exact request_of_wellFormed hd

end Runs

/-! ## A header without its body -/

/-- A server over a table, with a database that ignores its statements. -/
def idleServer (tbl : Val) : Server Unit :=
  { lookupValue := tbl
    behind := fun _ _ => 0
    mysqlQuery := fun db _ => (0, db) }

def datagram (bs : List UInt8) : Datagram :=
  { bytes := bs
    sa := { addr := 0, port := 0 } }

/-- The header of a GET whose key is missing. -/
def cutGet : Datagram := datagram (requestHead opcodeGet 0 4)

theorem wanted_cutGet : wanted cutGet.bytes = 28 := by
  have hhead : (bytesMem cutGet.bytes).read 0 headerLen = requestHead opcodeGet 0 4 :=
    Mem.read_write_self _ 0 (requestHead opcodeGet 0 4)
  rw [wanted, (fields_of_requestHead hhead (by decide)).2.2.2.2.2]
  rfl

theorem cutOff_cutGet : CutOff cutGet.bytes := by
  refine ⟨Nat.le_refl _, ?_⟩
  rw [wanted_cutGet]
  decide

theorem wellFormed_getBytes {k : Nat} (hk : k < tableSize) :
    WellFormed (datagram (getBytes k)) :=
  ⟨Nat.le_add_right 24 4, (getRequest_getBytes hk).1.valid⟩

/-- Two GETs, the second of which arrives while the first one is answered. -/
theorem onRecv_head_only_two_gets :
    (run (Served.step (idleServer Table.LookupTable.clear))
        { queue := [datagram (getBytes 5)], db := (), handed := [] }
        [.calls (fun _ => 0) { addr := 0, port := 0 }, .arrives (datagram (getBytes 6))]).handed ++
      (run (Served.step (idleServer Table.LookupTable.clear))
        { queue := [datagram (getBytes 5)], db := (), handed := [] }
        [.calls (fun _ => 0) { addr := 0, port := 0 },
          .arrives (datagram (getBytes 6))]).queue.filterMap request =
      [datagram (getBytes 5), datagram (getBytes 6)].filterMap request := by
  refine (onRecv_head_only (idleServer Table.LookupTable.clear)).2.1
    { queue := [datagram (getBytes 5)], db := (), handed := [] } _ rfl ⟨?_, trivial, trivial⟩
  intro d rest hqueue
  rcases List.cons.inj hqueue with ⟨rfl, _⟩
  exact headOnly_of_wellFormed (wellFormed_getBytes (by decide)) (by decide) rest

/-- The call that meets the cut-off GET takes the GET behind it as well. -/
theorem cutGet_takes_the_next :
    (WellFormed (datagram (getBytes 5)) ∧
      (onRecv (idleServer Table.LookupTable.clear) (fun _ => 0) { addr := 0, port := 0 }
        [cutGet, datagram (getBytes 5)] ()).queue = [] ∧
      handedPacket (fun _ => 0) { addr := 0, port := 0 } [cutGet, datagram (getBytes 5)] = none) ∧
    ¬ ∀ (srv : Server Unit) rbuf sa d rest db,
      RemovesHead (onRecv srv rbuf sa (d :: rest) db) rest := by
  have hover : ¬ Overruns cutGet.bytes := by
    rintro ⟨_, hlong⟩
    exact absurd (Nat.lt_of_lt_of_le hlong (Nat.min_le_right _ _)) (by decide)
  have hrequest : request cutGet = none := by
    rw [request, if_neg]
    rintro ⟨_, hle, _⟩
    exact absurd hle (Nat.not_le.2 cutOff_cutGet.2)
  refine ⟨⟨wellFormed_getBytes (by decide), ?_, ?_⟩, ?_⟩
  · have hshort : ¬ cutGet.bytes.length < headerLen := by decide
    have hfits : ¬ nmmcBufferSize < min (wanted cutGet.bytes) cutGet.bytes.length := by
      rw [wanted_cutGet]
      decide
    rw [onRecv_cons, if_neg hshort, if_neg hfits, if_pos cutOff_cutGet.2]
    rfl
  · have hmap := handedPacket_cons (fun _ => 0) { addr := 0, port := 0 } cutGet
      [datagram (getBytes 5)] hover
    rw [hrequest] at hmap
    exact Option.map_eq_none_iff.1 hmap
  · intro h
    have hhead := (removesHead_iff _ _ _ _ _ _).1 (h (idleServer Table.LookupTable.clear)
      (fun _ => 0) { addr := 0, port := 0 } cutGet [datagram (getBytes 5)] ())
    exact absurd (hhead.2 cutOff_cutGet) (by simp)

end Arch
end NmMemcached
