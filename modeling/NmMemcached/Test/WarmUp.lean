import NmMemcached.Server.EndToEnd
import NmMemcached.Test.LoadTest

/-!
# WarmUp — the load test on a database that was empty

`WarmUp` stores a value for every key of the test.  When all its datagrams have come through, in any
order, MySQL has taken the statements and the loop has read the log, every key is in the table, and
the threads of the test never count an error.

The value of key `n` is 256 times the low byte of `n`.  A byte below 16 is printed with one digit,
so such a value comes back half as long, with the digit twice in each byte.
-/

namespace NmMemcached
namespace Test

open Lib Base Net Table Server Arch

/-- What the test reads back for a key. -/
def warmValue (n : Nat) : List UInt8 :=
  if 16 ≤ n % 256 then List.replicate valueSize (UInt8.ofNat n)
  else List.replicate (valueSize / 2) (UInt8.ofNat (17 * (n % 256)))

theorem literal_warm (n : Nat) :
    Hex.literal (Hex.short (List.replicate valueSize (UInt8.ofNat n))) = warmValue n := by
  have htoNat : (UInt8.ofNat n).toNat = n % 256 := UInt8.toNat_ofNat'
  unfold warmValue
  by_cases hbig : 16 ≤ n % 256
  · rw [if_pos hbig]
    have hsize : valueSize = 255 + 1 := rfl
    rw [hsize, List.replicate_succ]
    refine Hex.literal_short_of_tail fun c hc => ?_
    rw [List.eq_of_mem_replicate hc, htoNat]
    exact hbig
  · rw [if_neg hbig]
    have hlt : (UInt8.ofNat n).toNat < 16 := by omega
    have hpairs := Hex.literal_short_replicate hlt 128
    rw [htoNat] at hpairs
    exact hpairs

section Sets

-- `stack n` is what the call for key `n` finds in `rbuf` and `ssa`, and `sa` is the address of the
-- warm-up.
variable {Db : Type} (srv : Server Db) (stack : Nat → Mem × SockAddr) (sa : SockAddr)
  (wbf : Nat → Mem)

/-- The packet that `OnRecv` makes of the SET for a key. -/
def warmPacket (n : Nat) : Packet := packetFrom (stack n).1 ⟨setDatagram (wbf n) n, sa⟩

theorem length_setDatagram (n : Nat) :
    (setDatagram (wbf n) n).length = headerLen + 4 + 8 + valueSize := Mem.length_read _ _ _

theorem wanted_setDatagram (n : Nat) :
    wanted (setDatagram (wbf n) n) = (setDatagram (wbf n) n).length := by
  have hread : (bytesMem (setDatagram (wbf n) n)).read 0 (headerLen + 4 + 8 + valueSize) =
      setDatagram (wbf n) n := by
    rw [← length_setDatagram wbf n]
    exact read_packetOf _
  rw [wanted, (warmSet_of_read hread).bodylen, length_setDatagram]
  rfl

theorem setRequest_warmPacket {n : Nat} (hn : n < tableSize) :
    SetRequest (warmPacket stack sa wbf n) ∧ requestKey (warmPacket stack sa wbf n) = n ∧
      requestValue (warmPacket stack sa wbf n) = List.replicate valueSize (UInt8.ofNat n) := by
  have hread := read_filledBuf (stack n).1 (wanted_setDatagram wbf n)
  rw [length_setDatagram] at hread
  have hpacket : warmPacket stack sa wbf n =
      Packet.ofDatagram (filledBuf (stack n).1 (setDatagram (wbf n) n))
        (headerLen + 4 + 8 + valueSize) sa := by
    rw [warmPacket, packetFrom, wanted_setDatagram, length_setDatagram]
  rw [hpacket]
  exact setRequest_of_read hn hread sa

/-- The status of the answer to a SET is zero when MySQL reports success. -/
theorem statusOk_replySet {pkt : Packet} (hpayload : pkt.payload = 0) (stat : Nat) :
    statusOk ((replySet pkt stat).data.read (replySet pkt stat).payload (replySet pkt stat).len) =
      decide (statusOnWire stat = 0) := by
  rw [payload_replySet, hpayload]
  exact (isAnswer_read (n := 0) (rfl : (replySet pkt stat).len = _) (by decide)
    (hpayload ▸ read_replySet pkt stat)).2

/-- `OnRecv` gets a datagram, and answers it with status 0. -/
def serveOne (rbuf : Mem) (ssa : SockAddr) (db : Db) (d : Datagram) : Except String Db :=
  let res := Arch.onRecv srv rbuf ssa [d] db
  match res.outcome with
  | .answered bs => if statusOk bs then .ok res.db else .error "not answered with status 0"
  | _ => .error "not answered"

/-- What `OnRecv` does with a whole SET is what `OnRecieve` does with its packet. -/
theorem serveOne_eq (rbuf : Mem) (ssa : SockAddr) {d : Datagram}
    (hheader : headerLen ≤ d.bytes.length)
    (hroom : d.bytes.length ≤ nmmcBufferSize) (hwhole : wanted d.bytes = d.bytes.length)
    (hset : SetRequest (packetFrom rbuf d)) (db : Db) :
    serveOne srv rbuf ssa db d = setStep srv db (packetFrom rbuf d) := by
  have hcall := onRecv_of_accepted srv rbuf ssa hheader hroom hwhole ⟨hset.valid, hset.keylen⟩ [] db
  have hpayload : (packetFrom rbuf d).payload = 0 := rfl
  have hstatus := status_onRecieve_set srv db hset
  rw [serveOne, setStep, hcall]
  generalize packetFrom rbuf d = pkt at *
  have hreply := onRecieve_set srv db hset
  have hsent : Outcome.ofHandled (onRecieve srv pkt db) =
      .answered ((onRecieve srv pkt db).2.1.data.read (onRecieve srv pkt db).2.1.payload
        (onRecieve srv pkt db).2.1.len) := by
    rw [Outcome.ofHandled, hreply, if_pos (show needSend ≠ 0 by decide)]
  dsimp only
  rw [hsent]
  dsimp only
  -- Both sides look at the result of the statement.
  by_cases hok : (srv.mysqlQuery db (setStatement (requestKey pkt) (hexval pkt))).1 = 0
  · have hzero := statusOk_replySet hpayload 0
    rw [if_neg (not_not_intro hok)] at hreply
    rw [if_pos (hstatus.2 hok), hreply]
    dsimp only
    rw [hzero]
    rfl
  · have herr := statusOk_replySet hpayload statusErr
    rw [if_pos hok] at hreply
    rw [if_neg fun h => hok (hstatus.1 h), hreply]
    dsimp only
    rw [herr]
    rfl

/-- `OnRecv` gets the SET for a key. -/
def serveSet (db : Db) (n : Nat) : Except String Db :=
  serveOne srv (stack n).1 (stack n).2 db ⟨setDatagram (wbf n) n, sa⟩

theorem serveSet_eq {n : Nat} (hn : n < tableSize) (db : Db) :
    serveSet srv stack sa wbf db n = setStep srv db (warmPacket stack sa wbf n) := by
  have hset := (setRequest_warmPacket stack sa wbf hn).1
  have hwhole := wanted_setDatagram wbf n
  have hlength := length_setDatagram wbf n
  unfold serveSet
  unfold warmPacket at hset ⊢
  generalize setDatagram (wbf n) n = bs at *
  refine @serveOne_eq _ srv (stack n).1 (stack n).2 ⟨bs, sa⟩ ?_ ?_ hwhole hset db
  · rw [hlength]
    decide
  · rw [hlength]
    decide

/-- The SETs that came through, in the order in which the server took them. -/
theorem runM_serveSet {ks : List Nat} (hks : ∀ n ∈ ks, n < tableSize) (db₀ : Db) :
    runM (serveSet srv stack sa wbf) db₀ ks =
      runM (setStep srv) db₀ (ks.map (warmPacket stack sa wbf)) := by
  induction ks generalizing db₀ with
  | nil =>
      rfl
  | cons n ks ih =>
      rcases List.forall_mem_cons.1 hks with ⟨hn, hrest⟩
      rw [List.map_cons, runM_cons, runM_cons, serveSet_eq srv stack sa wbf hn]
      exact congrArg _ (funext fun db => ih hrest db)

theorem setRequest_warmPackets {ks : List Nat} (hks : ∀ n ∈ ks, n < tableSize) :
    ∀ pkt ∈ ks.map (warmPacket stack sa wbf), SetRequest pkt := by
  intro pkt hpkt
  rcases List.mem_map.1 hpkt with ⟨n, hn, rfl⟩
  exact (setRequest_warmPacket stack sa wbf (hks n hn)).1

/-- There is one SET for a key that came through. -/
theorem setsOn_warmPackets {ks : List Nat} (hks : ∀ n ∈ ks, n < tableSize) (hnodup : ks.Nodup)
    (k : Nat) : setsOn k (ks.map (warmPacket stack sa wbf)) =
      if k ∈ ks then [warmPacket stack sa wbf k] else [] := by
  induction ks with
  | nil =>
      rfl
  | cons n ks ih =>
      rcases List.forall_mem_cons.1 hks with ⟨hn, hrest⟩
      rcases List.nodup_cons.1 hnodup with ⟨hnew, hnodup⟩
      have hkey := (setRequest_warmPacket stack sa wbf hn).2.1
      have htail := ih hrest hnodup
      rw [List.map_cons, setsOn, List.filter_cons, hkey]
      by_cases hk : n = k
      · subst hk
        rw [if_neg hnew] at htail
        rw [setsOn] at htail
        simp [htail]
      · have hne : k ≠ n := fun h => hk h.symm
        rw [setsOn] at htail
        simp [hk, hne, htail]

/-- What the table shows when the loop has read the log of the warm-up. -/
theorem shows_warmUp {my : Mysql Db} (hmy : my.Documented) (hsrv : srv.mysqlQuery = my.query)
    {db₀ db : Db} (hkvs : my.kvs db₀ = Kvs.empty) (hlog : ∀ e ∈ my.binlog db₀, ∀ ev, e ≠ .rows ev)
    {ks : List Nat} (hks : ∀ n ∈ ks, n < tableSize) (hnodup : ks.Nodup)
    (hrun : runM (serveSet srv stack sa wbf) db₀ ks = .ok db) :
    ∃ st, binLogLoop (my.binlog db) = .ok st ∧
      ∀ k < tableSize, Shows st.tbl k (if k ∈ ks then some (warmValue k) else none) := by
  have hreq := setRequest_warmPackets stack sa wbf hks
  rw [runM_serveSet srv stack sa wbf hks] at hrun
  rcases (tracks_sets hmy hsrv hkvs hlog hreq hrun).1 with ⟨st, hst, hshown⟩
  refine ⟨st, hst, ?_⟩
  intro k hk
  have hshows : Shows st.tbl k (heldAfter (setsOn k (ks.map (warmPacket stack sa wbf)))) :=
    shows_heldAfter (fun p hp => hreq p (List.mem_filter.1 hp).1) (hshown k hk)
  rw [setsOn_warmPackets stack sa wbf hks hnodup] at hshows
  by_cases hmem : k ∈ ks
  · have hvalue := (setRequest_warmPacket stack sa wbf hk).2.2
    rw [if_pos hmem, heldAfter, hexval, hvalue, literal_warm] at hshows
    rwa [if_pos hmem]
  · rw [if_neg hmem] at hshows ⊢
    exact hshows

end Sets

/-! ## The test after the warm-up -/

theorem length_warmValue (n : Nat) :
    1 ≤ (warmValue n).length ∧ (warmValue n).length ≤ itemLen := by
  unfold warmValue
  split <;> rw [List.length_replicate] <;> decide

theorem finds_of_shows {tbl : Val} {k : Nat} {v : List UInt8} (hpos : 1 ≤ v.length)
    (h : Shows tbl k (some v)) : finds tbl k = true := by
  rcases h with ⟨it, hshown, hlen, _⟩
  have hne : it.datalen ≠ 0 := by
    intro hzero
    rw [hzero] at hlen
    have hnone : v.length = 0 := hlen.symm
    omega
  rw [finds, hshown]
  exact decide_eq_true hne

theorem fits_of_shows {tbl : Val} {k : Nat} {v : Option (List UInt8)}
    (hle : ∀ w, v = some w → w.length ≤ itemLen) (h : Shows tbl k v) :
    ∀ it, tbl.shown k = some it → it.datalen.toNat ≤ itemLen := by
  intro it hit
  cases v with
  | none =>
      rw [h it hit]
      exact Nat.zero_le _
  | some w =>
      rcases h with ⟨it', hshown, hlen, _⟩
      rw [← Option.some.inj (hshown.symm.trans hit), hlen]
      exact hle w rfl

/-- When the SET of every key has come through, the test counts no error. -/
theorem warm_of_shows {tbl : Val} {ks : List Nat}
    (h : ∀ k < tableSize, Shows tbl k (if k ∈ ks then some (warmValue k) else none))
    (hall : ∀ k, 1 ≤ k → k < testKeymax → k ∈ ks) : Warm tbl := by
  refine ⟨?_, ?_⟩
  · intro k it hit
    by_cases hk : k < tableSize
    · refine fits_of_shows (fun w hw => ?_) (h k hk) it hit
      by_cases hmem : k ∈ ks
      · rw [if_pos hmem] at hw
        rw [← Option.some.inj hw]
        exact (length_warmValue k).2
      · rw [if_neg hmem] at hw
        cases hw
    · rw [LookupTable.shown_of_le tableSize_pos (Nat.le_of_not_lt hk)] at hit
      cases hit
  · intro k hpos hk
    have hkeys : testKeymax ≤ tableSize := by decide
    have hshows := h k (Nat.lt_of_lt_of_le hk hkeys)
    rw [if_pos (hall k hpos hk)] at hshows
    exact finds_of_shows (length_warmValue k).1 hshows

/-- The database was empty, and the SETs of the warm-up came through in any order: then every key
shows the value that was sent, with the zeros lost that the statement leaves out, and the threads
count no error. -/
theorem loadTest_after_warmUp {Db : Type} {my : Mysql Db} (hmy : my.Documented) (srv : Server Db)
    (hsrv : srv.mysqlQuery = my.query) {db₀ db : Db} (hkvs : my.kvs db₀ = Kvs.empty)
    (hlog : ∀ e ∈ my.binlog db₀, ∀ ev, e ≠ .rows ev) (stack : Nat → Mem × SockAddr)
    (sa addr : SockAddr) (wbf : Nat → Mem) {ks : List Nat} (hnodup : ks.Nodup)
    (hks : ∀ k, k ∈ ks ↔ 1 ≤ k ∧ k < testKeymax)
    (hrun : runM (serveSet srv stack sa wbf) db₀ ks = .ok db) :
    ∃ st, binLogLoop (my.binlog db) = .ok st ∧
      (∀ k, 1 ≤ k → k < testKeymax → Shows st.tbl k (some (warmValue k))) ∧
      ∀ es : List Event, (∀ e ∈ es, e.KeepsWarm) → ∀ a,
        ((run (step addr) (init { srv with lookupValue := st.tbl } db) es).threads a).recvError =
          0 := by
  have hkeys : testKeymax ≤ tableSize := by decide
  have hlt : ∀ n ∈ ks, n < tableSize := fun n hn => Nat.lt_of_lt_of_le ((hks n).1 hn).2 hkeys
  rcases shows_warmUp srv stack sa wbf hmy hsrv hkvs hlog hlt hnodup hrun with ⟨st, hst, hshows⟩
  refine ⟨st, hst, ?_, ?_⟩
  · intro k hpos hk
    have hshow := hshows k (Nat.lt_of_lt_of_le hk hkeys)
    rwa [if_pos ((hks k).2 ⟨hpos, hk⟩)] at hshow
  · intro es hes a
    have hwarm : Warm st.tbl := warm_of_shows hshows fun k hpos hk => (hks k).2 ⟨hpos, hk⟩
    -- The server of the run looks at the table that the loop has built.
    let srv' : Server Db := { srv with lookupValue := st.tbl }
    exact @recvError_eq_zero Db addr srv' hwarm db es hes a

/-- Every call finds its buffer full of ones. -/
def onesStack : Nat → Mem × SockAddr := fun _ => (fun _ => 0xff, ⟨0, 0⟩)

/-- The engine in memory takes the statements of a warm-up. -/
theorem loadTest_after_warmUp_memServer :
    ∃ db st,
      runM (serveSet memServer onesStack ⟨3, 20001⟩ fun _ _ => 0) {} (List.range' 1 8190) =
          .ok db ∧
        binLogLoop db.binlog = .ok st ∧
        ((run (step ⟨2, 11211⟩) (init { memServer with lookupValue := st.tbl } db)
          oneRequest).threads ⟨1, 20000⟩).recvError = 0 := by
  have hks : ∀ k, k ∈ List.range' 1 8190 ↔ 1 ≤ k ∧ k < testKeymax := by
    intro k
    rw [List.mem_range'_1]
    exact Iff.rfl
  have hlt : ∀ n ∈ List.range' 1 8190, n < tableSize := by
    intro n hn
    have hkeys : testKeymax ≤ tableSize := by decide
    exact Nat.lt_of_lt_of_le ((hks n).1 hn).2 hkeys
  have hreq := setRequest_warmPackets onesStack ⟨3, 20001⟩ (fun _ _ => 0) hlt
  rcases runM_memServer hreq {} with ⟨db, hrun⟩
  rw [← runM_serveSet memServer _ _ _ hlt] at hrun
  rcases loadTest_after_warmUp memMysql_documented memServer rfl rfl memMysql_no_rows _ _ _ _
    List.nodup_range' hks hrun with ⟨st, hst, _, hquiet⟩
  have hkeeps : ∀ e ∈ oneRequest, e.KeepsWarm := by
    simp only [oneRequest, List.forall_mem_cons]
    exact ⟨trivial, trivial, trivial, fun _ he => absurd he List.not_mem_nil⟩
  have hnone := hquiet oneRequest hkeeps ⟨1, 20000⟩
  refine ⟨db, st, hrun, hst, ?_⟩
  dsimp only
  exact hnone

end Test
end NmMemcached
