import Mathlib.Data.List.Perm.Basic
import NmMemcached.Lib.Runs
import NmMemcached.Arch.Buffer
import NmMemcached.Test.Client

/-!
# LoadTest — the client threads against one server

Every thread has a socket of its own, and the server has one for all of them.  A datagram is lost
or delivered, threads and server take their turns in any order, and the table of the server changes
in between.

`tally_run` is what the counters of a thread mean: each request is in flight or lost, or has been
answered once; an answer is in flight or lost, or has been counted, on the side the table was on
when it was given.
-/

namespace NmMemcached
namespace Test

open Lib Base Net Table Server Arch

/-! ## The server answers every GET -/

/-- `Find` shows an item with data. -/
def finds (tbl : Val) (k : Nat) : Bool := (tbl.shown k).any fun it => decide (it.datalen ≠ 0)

/-- No item is longer than `ITEM_LEN`. -/
def ItemsFit (tbl : Val) : Prop := ∀ k it, tbl.shown k = some it → it.datalen.toNat ≤ itemLen

theorem wanted_getBytes {k : Nat} (hk : k < tableSize) : wanted (getBytes k) = headerLen + 4 :=
  (wanted_of_wellFormed (d := datagram (getBytes k)) (wellFormed_getBytes hk)).trans rfl

/-- The bytes of an answer have the header of its packet. -/
theorem header_answer {pkt : Packet} (hlen : headerLen ≤ pkt.len) :
    ∀ i < headerLen, bytesMem (pkt.data.read 0 pkt.len) (0 + i) = pkt.data (0 + i) := by
  intro i hi
  have hlt : i < (pkt.data.read 0 pkt.len).length := by
    rw [Mem.length_read]
    omega
  rw [bytesMem, Mem.write_add hlt, Mem.getElem_read]

/-- The bytes of an answer to a datagram, and the status that they carry. -/
theorem isAnswer_read {pkt : Packet} {opcode extlen : UInt8} {status n : Nat}
    (hlen : pkt.len = headerLen + n) (hle : n ≤ 4 + itemLen)
    (hhead : pkt.data.read 0 12 = answerHead opcode extlen status n) :
    IsAnswer (pkt.data.read 0 pkt.len) ∧
      statusOk (pkt.data.read 0 pkt.len) = decide (statusOnWire status = 0) := by
  have hitem : itemLen = 1024 := rfl
  have hsame := @header_answer pkt (by omega)
  rcases fields_of_answerHead hhead (by omega) with ⟨_, _, _, hstatus, hbody⟩
  have hbe : (bytesMem (pkt.data.read 0 pkt.len)).be16 6 = pkt.data.be16 6 := by
    have h6 := hsame 6 (by decide)
    have h7 := hsame 7 (by decide)
    simp only [Nat.zero_add] at h6 h7
    simp only [Mem.be16, Nat.reduceAdd, h6, h7]
  refine ⟨⟨?_, ?_⟩, ?_⟩
  · rw [bodylen_congr hsame, hbody, Mem.length_read, hlen]
  · rw [Mem.length_read, hlen]
    omega
  · rw [Nat.zero_add] at hstatus
    rw [statusOk, hbe, hstatus]

/-- The answer to a GET says whether the table has the key. -/
theorem isAnswer_get {σ : Type} (srv : Server σ) {pkt : Packet} (hpayload : pkt.payload = 0)
    (hfit : ItemsFit srv.lookupValue) (k : Nat) :
    IsAnswer ((onRecieveGet srv pkt k).2.data.read 0 (onRecieveGet srv pkt k).2.len) ∧
      statusOk ((onRecieveGet srv pkt k).2.data.read 0 (onRecieveGet srv pkt k).2.len) =
        finds srv.lookupValue k := by
  have hnotfound := isAnswer_read (n := 9) (rfl : (replyNotfound pkt).len = _) (by decide)
    (hpayload ▸ read_replyNotfound pkt)
  have hstatus : decide (statusOnWire statusErr = 0) = false := by decide
  rw [hstatus] at hnotfound
  rw [reply_onRecieveGet, finds]
  cases hshown : srv.lookupValue.shown k with
  | none => exact hnotfound
  | some it =>
      simp only [Option.any_some]
      by_cases hzero : it.datalen = 0
      · rw [if_pos hzero, decide_eq_false (not_not.2 hzero)]
        exact hnotfound
      · have hlen := hfit k it hshown
        rw [if_neg hzero, decide_eq_true hzero]
        exact isAnswer_read (n := it.datalen.toNat + 4) rfl (by omega)
          (hpayload ▸ read_replyFound pkt it _)

section Serve

variable {σ : Type} (srv : Server σ) (rbuf : Mem) (sa : SockAddr)

/-- The bytes of a datagram that is as long as its header says. -/
theorem read_filledBuf {bs : List UInt8} (h : wanted bs = bs.length) :
    (filledBuf rbuf bs).read 0 bs.length = bs := by
  refine (Mem.read_congr fun i hi => ?_).trans (read_packetOf bs)
  rw [Nat.zero_add]
  exact filledBuf_apply rbuf (h ▸ hi) (Nat.le_of_eq h)

/-- A complete request that fits into `rbuf` is handed to the server. -/
theorem onRecv_of_accepted {d : Datagram} (hheader : headerLen ≤ d.bytes.length)
    (hfits : d.bytes.length ≤ nmmcBufferSize) (hwanted : wanted d.bytes = d.bytes.length)
    (haccepted : Accepted (packetFrom rbuf d)) (rest : List Datagram) (db : σ) :
    Arch.onRecv srv rbuf sa (d :: rest) db =
      { outcome := Outcome.ofHandled (onRecieve srv (packetFrom rbuf d) db)
        queue := rest
        db := (onRecieve srv (packetFrom rbuf d) db).2.2 } := by
  have hvalid := ((accepted_packetFrom_iff rbuf hheader).1 haccepted).1
  have hroom : ¬ nmmcBufferSize < min (wanted d.bytes) d.bytes.length := by
    rw [hwanted]
    omega
  have hcut : ¬ d.bytes.length < wanted d.bytes := by omega
  rw [onRecv_cons, if_neg (Nat.not_lt.2 hheader), if_neg hroom, if_neg hcut, if_neg]
  rw [hvalid]
  exact nofun

/-- One call of `OnRecv` answers the GET at the head of the queue, and says what the table says. -/
theorem onRecv_get {d : Datagram} {k : Nat} (hk : k < tableSize) (hd : d.bytes = getBytes k)
    (hfit : ItemsFit srv.lookupValue) (rest : List Datagram) (db : σ) :
    ∃ bs, Arch.onRecv srv rbuf sa (d :: rest) db =
        { outcome := .answered bs, queue := rest, db := db } ∧
      IsAnswer bs ∧ statusOk bs = finds srv.lookupValue k := by
  have hlength : d.bytes.length = headerLen + 4 := by
    rw [hd]
    rfl
  have hwanted : wanted d.bytes = d.bytes.length := by
    rw [hlength, hd]
    exact wanted_getBytes hk
  have hread : (filledBuf rbuf d.bytes).read 0 (headerLen + 4) = getBytes k := by
    rw [← hlength, read_filledBuf rbuf hwanted, hd]
  rcases getRequest_of_read hk hread d.sa with ⟨hget, hkey⟩
  have hpacket : packetFrom rbuf d =
      Packet.ofDatagram (filledBuf rbuf d.bytes) (headerLen + 4) d.sa := by
    rw [packetFrom, hwanted, hlength]
  have haccepted : Accepted (packetFrom rbuf d) := hpacket ▸ ⟨hget.valid, hget.keylen⟩
  have hopcode : Header.opcode (packetFrom rbuf d).data (packetFrom rbuf d).payload = opcodeGet :=
    hpacket ▸ hget.opcode
  have hkey' : keyId (Header.key (packetFrom rbuf d).data (packetFrom rbuf d).payload) = k :=
    hpacket ▸ hkey
  have hres : onRecieve srv (packetFrom rbuf d) db =
      (needSend, (onRecieveGet srv (packetFrom rbuf d) k).2, db) := by
    rw [onRecieve_of_get srv db haccepted hopcode, hkey', fst_of_eq (onRecieveGet_eq srv _ k)]
  have hpayload : (onRecieveGet srv (packetFrom rbuf d) k).2.payload = 0 :=
    (answerTo_onRecieveGet srv k).payload
  refine ⟨_, ?_, isAnswer_get srv (rfl : (packetFrom rbuf d).payload = 0) hfit k⟩
  have hheader : headerLen ≤ d.bytes.length := by omega
  have hroom : d.bytes.length ≤ nmmcBufferSize := by
    rw [hlength]
    decide
  rw [onRecv_of_accepted srv rbuf sa hheader hroom hwanted haccepted, hres]
  simp only [Outcome.ofHandled, hpayload, if_pos (show needSend ≠ 0 by decide)]

end Serve

/-! ## Threads, sockets and the server -/

/-- The buffers of a call, and the address that the server's call fills in, are on its stack: each
call finds them with contents of its own. -/
inductive Event
  | send (a : SockAddr) (wbf : Mem) (sent : Bool)
  | serve (rbuf : Mem) (sa : SockAddr)
  | recv (a : SockAddr) (rbuf : Mem)
  | loseRequest (i : Nat)
  | loseAnswer (a : SockAddr) (i : Nat)
  | table (tbl : Val)

/-- A thread is named by the address its socket is bound to.  `requests` wait at the server and
`answers` at the threads; `trace` says for each answer of the server whom it went to and whether
`Find` had shown data.  `overrun` is set when a receive has left the buffer of a thread. -/
structure State (σ : Type) where
  threads : SockAddr → ThreadArg
  requests : List Datagram
  answers : SockAddr → List Datagram
  lostRequests : List Datagram
  lostAnswers : SockAddr → List Datagram
  srv : Server σ
  db : σ
  trace : List (SockAddr × Bool)
  overrun : Bool

section Steps

variable {σ : Type} (addr : SockAddr)

def setThread (s : State σ) (a : SockAddr) (ptr : ThreadArg) : State σ :=
  { s with threads := Function.update s.threads a ptr }

def send (s : State σ) (a : SockAddr) (wbf : Mem) (sent : Bool) : State σ :=
  let s' := setThread s a (onSend (s.threads a) sent)
  if sent then
    { s' with requests := s.requests ++ [⟨getDatagram wbf (s.threads a).seq, a⟩] }
  else s'

/-- The event loop of the server calls `OnRecv` for a socket that has a datagram.  The socket is
bound to `addr`. -/
def serve (s : State σ) (rbuf : Mem) (sa : SockAddr) : State σ :=
  match s.requests with
  | [] => s
  | d :: _ =>
      let res := Arch.onRecv s.srv rbuf sa s.requests s.db
      match res.outcome with
      | .answered bs =>
          { s with
            requests := res.queue
            db := res.db
            answers := Function.update s.answers d.sa (s.answers d.sa ++ [⟨bs, addr⟩])
            trace := s.trace ++ [(d.sa, finds s.srv.lookupValue (requestKey (packetOf d.bytes)))] }
      | _ => { s with requests := res.queue, db := res.db }

/-- The thread does not ask who has sent the answer. -/
def recv (s : State σ) (a : SockAddr) (rbuf : Mem) : State σ :=
  match s.answers a with
  | [] => s
  | _ =>
      match onRecv (s.threads a) rbuf addr (s.answers a) with
      | none => { s with overrun := true }
      | some (ptr, queue) =>
          { setThread s a ptr with answers := Function.update s.answers a queue }

def loseRequest (s : State σ) (i : Nat) : State σ :=
  match s.requests[i]? with
  | none => s
  | some d =>
      { s with requests := s.requests.eraseIdx i, lostRequests := s.lostRequests ++ [d] }

def loseAnswer (s : State σ) (a : SockAddr) (i : Nat) : State σ :=
  match (s.answers a)[i]? with
  | none => s
  | some d =>
      { s with
        answers := Function.update s.answers a ((s.answers a).eraseIdx i)
        lostAnswers := Function.update s.lostAnswers a (s.lostAnswers a ++ [d]) }

def step (s : State σ) : Event → State σ
  | .send a wbf sent => send s a wbf sent
  | .serve rbuf sa => serve addr s rbuf sa
  | .recv a rbuf => recv addr s a rbuf
  | .loseRequest i => loseRequest s i
  | .loseAnswer a i => loseAnswer s a i
  | .table tbl => { s with srv := { s.srv with lookupValue := tbl } }

/-- The threads are set up, and nothing has been sent. -/
def init (srv : Server σ) (db : σ) : State σ :=
  { threads := fun _ => .init
    requests := []
    answers := fun _ => []
    lostRequests := []
    lostAnswers := fun _ => []
    srv := srv
    db := db
    trace := []
    overrun := false }

end Steps

/-! ## The tally -/

section Tally

variable {σ : Type}

/-- The requests of a thread that the server has not answered. -/
def State.unanswered (s : State σ) (a : SockAddr) : Nat :=
  (s.requests ++ s.lostRequests).countP fun d => decide (d.sa = a)

/-- The answers that a thread has not counted. -/
def State.uncounted (s : State σ) (a : SockAddr) : Bool → Nat :=
  fun found => (s.answers a ++ s.lostAnswers a).countP fun d => statusOk d.bytes == found

/-- The answers that the server has given a thread. -/
def State.served (s : State σ) (a : SockAddr) : Bool → Nat :=
  fun found => s.trace.count (a, found)

/-- What the counters of a thread mean; they are counters modulo `2^64`. -/
structure Tally (ptr : ThreadArg) (unanswered : Nat) (uncounted served : Bool → Nat) : Prop where
  uncounted_le : ∀ found, uncounted found ≤ served found
  sent : ptr.sendCount = (unanswered + served true + served false) % 18446744073709551616
  count : ptr.recvCount = (served true - uncounted true) % 18446744073709551616
  error : ptr.recvError = (served false - uncounted false) % 18446744073709551616

/-- The counters of a thread tally with what the server has done for it. -/
def State.Tallies (s : State σ) (a : SockAddr) : Prop :=
  Tally (s.threads a) (s.unanswered a) (s.uncounted a) (s.served a)

/-- What the sockets hold. -/
structure Inv (s : State σ) : Prop where
  seq : ∀ a, 1 ≤ (s.threads a).seq ∧ (s.threads a).seq < testKeymax
  requests : ∀ d ∈ s.requests, ∃ k, 1 ≤ k ∧ k < testKeymax ∧ d.bytes = getBytes k
  answers : ∀ a, ∀ d ∈ s.answers a, IsAnswer d.bytes
  table : ItemsFit s.srv.lookupValue
  intact : s.overrun = false
  tallies : ∀ a, s.Tallies a

theorem inv_init (srv : Server σ) (db : σ) (h : ItemsFit srv.lookupValue) :
    Inv (init srv db) := by
  refine ⟨fun _ => ?_, nofun, nofun, h, rfl, fun _ => ⟨fun _ => Nat.le_refl 0, rfl, rfl, rfl⟩⟩
  show 1 ≤ 1 ∧ 1 < testKeymax
  decide

section Tally

variable {ptr : ThreadArg} {u : Nat} {c v : Bool → Nat} (h : Tally ptr u c v)
include h

/-- `sendto` has sent a request. -/
theorem Tally.send : Tally (onSend ptr true) (u + 1) c v := by
  refine ⟨h.uncounted_le, ?_, h.count, h.error⟩
  have hsent := h.sent
  simp only [onSend, if_true, next]
  omega

/-- The server has answered a request, of this thread or of another one. -/
theorem Tally.serve {u' : Nat} {c' v' : Bool → Nat} {mine : Prop} [Decidable mine] {found : Bool}
    (hu : u = u' + if mine then 1 else 0)
    (hc : ∀ f, c' f = c f + if mine ∧ found = f then 1 else 0)
    (hv : ∀ f, v' f = v f + if mine ∧ found = f then 1 else 0) : Tally ptr u' c' v' := by
  have hsent := h.sent
  have hcount := h.count
  have herror := h.error
  have hlet := h.uncounted_le true
  have hlef := h.uncounted_le false
  have hct := hc true
  have hcf := hc false
  have hvt := hv true
  have hvf := hv false
  have hle : ∀ f, c' f ≤ v' f := by
    intro f
    rw [hc, hv]
    exact Nat.add_le_add_right (h.uncounted_le f) _
  by_cases hmine : mine
  · cases found <;>
      simp only [hmine, true_and, reduceCtorEq, if_true, if_false] at hu hct hcf hvt hvf <;>
      exact ⟨hle, by omega, by omega, by omega⟩
  · simp only [hmine, false_and, if_false] at hu hct hcf hvt hvf
    exact ⟨hle, by omega, by omega, by omega⟩

/-- The thread has counted an answer. -/
theorem Tally.recv {c' : Bool → Nat} {found : Bool}
    (hc : ∀ f, c f = c' f + if found = f then 1 else 0) :
    Tally
      (if found then { ptr with recvCount := next ptr.recvCount }
        else { ptr with recvError := next ptr.recvError }) u c' v := by
  have hcount := h.count
  have herror := h.error
  have hlet := h.uncounted_le true
  have hlef := h.uncounted_le false
  have hct := hc true
  have hcf := hc false
  have hle : ∀ f, c' f ≤ v f := by
    intro f
    have hold := h.uncounted_le f
    rw [hc] at hold
    exact Nat.le_of_add_right_le hold
  cases found <;> simp only [reduceCtorEq, if_true, if_false, Bool.false_eq_true] at hct hcf ⊢ <;>
    refine ⟨hle, h.sent, ?_, ?_⟩ <;> simp only [next] <;> omega

end Tally

/-- A datagram that is lost is counted with the lost ones. -/
theorem countP_lost {α : Type} (p : α → Bool) {l : List α} {i : Nat} {d : α}
    (h : l[i]? = some d) (lost : List α) :
    (l.eraseIdx i ++ (lost ++ [d])).countP p = (l ++ lost).countP p := by
  rcases List.getElem?_eq_some_iff.1 h with ⟨hi, rfl⟩
  have hperm := (List.getElem_cons_eraseIdx_perm hi).countP_eq p
  rw [List.countP_cons] at hperm
  rw [List.countP_append, List.countP_append, List.countP_append, List.countP_singleton]
  omega

/-! ## Each step -/

section Inv

variable {s : State σ} (h : Inv s)
include h

theorem inv_send (a : SockAddr) (wbf : Mem) (sent : Bool) : Inv (send s a wbf sent) := by
  have hkey : testKeymax = 8191 := rfl
  have hnext : 1 ≤ (onSend (s.threads a) sent).seq ∧
      (onSend (s.threads a) sent).seq < testKeymax := by
    have hseq := h.seq a
    cases sent <;> simp only [onSend, Bool.false_eq_true, if_false, if_true] <;> split <;> omega
  have hseqs : ∀ b, 1 ≤ (Function.update s.threads a (onSend (s.threads a) sent) b).seq ∧
      (Function.update s.threads a (onSend (s.threads a) sent) b).seq < testKeymax := by
    intro b
    by_cases hb : b = a
    · rw [hb, Function.update_self]
      exact hnext
    · rw [Function.update_of_ne hb]
      exact h.seq b
  cases sent with
  | false =>
      refine ⟨hseqs, h.requests, h.answers, h.table, h.intact, fun b => ?_⟩
      have htally := h.tallies b
      by_cases hb : b = a
      · subst hb
        simp only [State.Tallies, send, setThread, Bool.false_eq_true, if_false,
          Function.update_self]
        exact ⟨htally.uncounted_le, htally.sent, htally.count, htally.error⟩
      · simp only [State.Tallies, send, setThread, Bool.false_eq_true, if_false,
          Function.update_of_ne hb]
        exact htally
  | true =>
      refine ⟨hseqs, ?_, h.answers, h.table, h.intact, fun b => ?_⟩
      · intro d hd
        rcases List.mem_append.1 hd with hold | hnew
        · exact h.requests d hold
        · rw [List.mem_singleton.1 hnew]
          have hseq := h.seq a
          exact ⟨_, hseq.1, hseq.2, getDatagram_eq wbf _⟩
      · have hunanswered : (send s a wbf true).unanswered b =
            s.unanswered b + if a = b then 1 else 0 := by
          simp only [State.unanswered, send, if_true, setThread, List.countP_append,
            List.countP_singleton, decide_eq_true_eq]
          omega
        have htally := h.tallies b
        by_cases hb : a = b
        · subst hb
          rw [if_pos rfl] at hunanswered
          rw [State.Tallies, hunanswered]
          simp only [send, if_true, setThread, Function.update_self]
          exact htally.send
        · rw [if_neg hb, Nat.add_zero] at hunanswered
          rw [State.Tallies, hunanswered]
          simp only [send, if_true, setThread, Function.update_of_ne (Ne.symm hb)]
          exact htally

theorem inv_loseRequest (i : Nat) : Inv (loseRequest s i) := by
  cases hd : s.requests[i]? with
  | none =>
      simpa only [loseRequest, hd] using h
  | some d =>
      simp only [loseRequest, hd]
      refine ⟨h.seq, ?_, h.answers, h.table, h.intact, fun b => ?_⟩
      · intro d' hd'
        exact h.requests d' (List.mem_of_mem_eraseIdx hd')
      · have htally := h.tallies b
        rw [State.Tallies, State.unanswered, ← countP_lost _ hd] at htally
        exact htally

theorem inv_loseAnswer (a : SockAddr) (i : Nat) : Inv (loseAnswer s a i) := by
  cases hd : (s.answers a)[i]? with
  | none =>
      simpa only [loseAnswer, hd] using h
  | some d =>
      simp only [loseAnswer, hd]
      refine ⟨h.seq, h.requests, fun b => ?_, h.table, h.intact, fun b => ?_⟩
      · by_cases hb : b = a
        · subst hb
          simp only [Function.update_self]
          exact fun d' hd' => h.answers b d' (List.mem_of_mem_eraseIdx hd')
        · simp only [Function.update_of_ne hb]
          exact h.answers b
      · -- A lost answer is still not counted.
        have hsame : State.uncounted { s with
              answers := Function.update s.answers a ((s.answers a).eraseIdx i)
              lostAnswers := Function.update s.lostAnswers a (s.lostAnswers a ++ [d]) } b =
            s.uncounted b := by
          funext found
          simp only [State.uncounted]
          by_cases hb : b = a
          · rw [hb, Function.update_self, Function.update_self]
            exact countP_lost _ hd _
          · rw [Function.update_of_ne hb, Function.update_of_ne hb]
        rw [State.Tallies, hsame]
        exact h.tallies b

theorem inv_table {tbl : Val} (hfit : ItemsFit tbl) :
    Inv { s with srv := { s.srv with lookupValue := tbl } } :=
  ⟨h.seq, h.requests, h.answers, hfit, h.intact, h.tallies⟩

variable (addr : SockAddr)

theorem inv_serve (rbuf : Mem) (sa : SockAddr) : Inv (serve addr s rbuf sa) := by
  cases hrequests : s.requests with
  | nil =>
      simpa only [serve, hrequests] using h
  | cons d rest =>
      rcases h.requests d (by simp [hrequests]) with ⟨k, _, hk, hd⟩
      have hkeys : testKeymax ≤ tableSize := by decide
      have hlt : k < tableSize := Nat.lt_of_lt_of_le hk hkeys
      rcases onRecv_get s.srv rbuf sa hlt hd h.table rest s.db with ⟨bs, hcall, hanswer, hfound⟩
      have hkey : requestKey (packetOf d.bytes) = k := hd ▸ (getRequest_getBytes hlt).2
      have hstep : serve addr s rbuf sa =
          { s with
            requests := rest
            answers := Function.update s.answers d.sa (s.answers d.sa ++ [⟨bs, addr⟩])
            trace := s.trace ++ [(d.sa, statusOk bs)] } := by
        simp only [serve, hrequests, hcall, hkey, hfound]
      rw [hstep]
      refine ⟨h.seq, ?_, ?_, h.table, h.intact, fun b => ?_⟩
      · intro d' hd'
        exact h.requests d' (by simp [hrequests, hd'])
      · intro b d' hd'
        by_cases hb : b = d.sa
        · subst hb
          simp only [Function.update_self] at hd'
          rcases List.mem_append.1 hd' with hold | hnew
          · exact h.answers _ d' hold
          · rw [List.mem_singleton.1 hnew]
            exact hanswer
        · simp only [Function.update_of_ne hb] at hd'
          exact h.answers b d' hd'
      · have hunanswered : s.unanswered b =
            (rest ++ s.lostRequests).countP (fun d => decide (d.sa = b)) +
              if d.sa = b then 1 else 0 := by
          simp only [State.unanswered, hrequests, List.cons_append, List.countP_cons,
            decide_eq_true_eq]
        have huncounted : ∀ found, State.uncounted { s with
              answers := Function.update s.answers d.sa (s.answers d.sa ++ [⟨bs, addr⟩]) } b found =
            s.uncounted b found + if d.sa = b ∧ statusOk bs = found then 1 else 0 := by
          intro found
          simp only [State.uncounted]
          by_cases hb : d.sa = b
          · subst hb
            simp only [Function.update_self, List.countP_append, List.countP_singleton, beq_iff_eq,
              true_and]
            omega
          · simp only [Function.update_of_ne (Ne.symm hb), hb, false_and, if_false, Nat.add_zero]
        have hserved : ∀ found, (s.trace ++ [(d.sa, statusOk bs)]).count (b, found) =
            s.served b found + if d.sa = b ∧ statusOk bs = found then 1 else 0 := by
          intro found
          simp only [State.served, List.count_append, List.count_singleton, beq_iff_eq,
            Prod.mk.injEq]
        exact (h.tallies b).serve hunanswered huncounted hserved

theorem inv_recv (a : SockAddr) (rbuf : Mem) : Inv (recv addr s a rbuf) := by
  cases hanswers : s.answers a with
  | nil =>
      simpa only [recv, hanswers] using h
  | cons d rest =>
      have hanswer := h.answers a d (by simp [hanswers])
      have hcall := onRecv_answer (s.threads a) rbuf addr hanswer rest
      have hstep : recv addr s a rbuf =
          { setThread s a
              (if statusOk d.bytes then
                { s.threads a with recvCount := next (s.threads a).recvCount }
              else { s.threads a with recvError := next (s.threads a).recvError }) with
            answers := Function.update s.answers a rest } := by
        simp only [recv, hanswers, hcall]
      rw [hstep]
      refine ⟨fun b => ?_, h.requests, fun b => ?_, h.table, h.intact, fun b => ?_⟩
      · by_cases hb : b = a
        · subst hb
          simp only [setThread, Function.update_self]
          split <;> exact h.seq b
        · simp only [setThread, Function.update_of_ne hb]
          exact h.seq b
      · by_cases hb : b = a
        · subst hb
          simp only [Function.update_self]
          exact fun d' hd' => h.answers b d' (by simp [hanswers, hd'])
        · simp only [Function.update_of_ne hb]
          exact h.answers b
      · by_cases hb : b = a
        · subst hb
          have huncounted : ∀ found, s.uncounted b found =
              State.uncounted { s with answers := Function.update s.answers b rest } b found +
                if statusOk d.bytes = found then 1 else 0 := by
            intro found
            simp only [State.uncounted, hanswers, Function.update_self, List.cons_append,
              List.countP_cons, beq_iff_eq]
          simp only [State.Tallies, setThread, Function.update_self]
          exact (h.tallies b).recv huncounted
        · have hsame : State.uncounted { s with answers := Function.update s.answers a rest } b =
              s.uncounted b := by
            funext found
            simp only [State.uncounted, Function.update_of_ne hb]
          simp only [State.Tallies, setThread, Function.update_of_ne hb]
          exact hsame ▸ h.tallies b

end Inv

/-! ## Runs -/

/-- The items of the table stay below `ITEM_LEN`. -/
def Event.Fits : Event → Prop
  | .table tbl => ItemsFit tbl
  | _ => True

section Runs

variable (addr : SockAddr)

theorem inv_step {s : State σ} (h : Inv s) {e : Event} (he : e.Fits) :
    Inv (step addr s e) := by
  cases e with
  | send a wbf sent => exact inv_send h a wbf sent
  | serve rbuf sa => exact inv_serve h addr rbuf sa
  | recv a rbuf => exact inv_recv h addr a rbuf
  | loseRequest i => exact inv_loseRequest h i
  | loseAnswer a i => exact inv_loseAnswer h a i
  | table tbl => exact inv_table h he

theorem inv_run {s : State σ} (h : Inv s) {es : List Event} (hes : ∀ e ∈ es, e.Fits) :
    Inv (run (step addr) s es) := by
  induction es generalizing s with
  | nil =>
      exact h
  | cons e es ih =>
      rcases List.forall_mem_cons.1 hes with ⟨he, hrest⟩
      exact ih (inv_step addr h he) hrest

/-- Every run of the threads, the network and the server: no receive leaves its buffer, and the
counters of each thread tally with the requests that the server has answered. -/
theorem tally_run {srv : Server σ} (hfit : ItemsFit srv.lookupValue) (db : σ) {es : List Event}
    (hes : ∀ e ∈ es, e.Fits) :
    (run (step addr) (init srv db) es).overrun = false ∧
      ∀ a, (run (step addr) (init srv db) es).Tallies a := by
  have hinv := inv_run addr (inv_init srv db hfit) hes
  exact ⟨hinv.intact, hinv.tallies⟩

/-- A cleared table has items without data only. -/
theorem itemsFit_clear : ItemsFit LookupTable.clear := by
  intro k it hit
  have hempty : ∀ op ∈ ([] : List (LookupTable.Update NmmcItem)), op.key < tableSize := nofun
  by_cases hk : k < tableSize
  · have hzeroed : (LookupTable.clear : Val).shown k = some NmmcItem.zeroed :=
      LookupTable.shown_run_of_none hempty hk rfl
    rw [hzeroed] at hit
    rw [← Option.some.inj hit]
    decide
  · rw [LookupTable.shown_of_le tableSize_pos (Nat.le_of_not_lt hk)] at hit
    cases hit

/-- One thread sends a GET, the server answers it, and the thread counts the answer. -/
def oneRequest : List Event :=
  [.send ⟨1, 20000⟩ (fun _ => 0) true, .serve (fun _ => 0xff) ⟨0, 0⟩,
    .recv ⟨1, 20000⟩ fun _ => 0xaa]

theorem tally_run_oneRequest :
    (run (step ⟨2, 11211⟩) (init (idleServer LookupTable.clear) ())
        oneRequest).overrun = false ∧
      (run (step ⟨2, 11211⟩) (init (idleServer LookupTable.clear) ())
        oneRequest).Tallies ⟨1, 20000⟩ := by
  have hfits : ∀ e ∈ oneRequest, e.Fits := by
    simp only [oneRequest, List.forall_mem_cons]
    exact ⟨trivial, trivial, trivial, nofun⟩
  have hfit : ItemsFit (idleServer LookupTable.clear).lookupValue := itemsFit_clear
  have hrun := tally_run ⟨2, 11211⟩ hfit () hfits
  exact ⟨hrun.1, hrun.2 _⟩

/-! ## A table that has every key -/

/-- The keys of the test are in the table. -/
def Warm (tbl : Val) : Prop :=
  ItemsFit tbl ∧ ∀ k, 1 ≤ k → k < testKeymax → finds tbl k = true

def Event.KeepsWarm : Event → Prop
  | .table tbl => Warm tbl
  | _ => True

theorem Event.KeepsWarm.fits {e : Event} (h : e.KeepsWarm) : e.Fits := by
  cases e with
  | table tbl => exact h.1
  | _ => trivial

/-- The table is warm, and has been for every answer. -/
structure WarmInv (s : State σ) : Prop extends Inv s where
  warm : Warm s.srv.lookupValue
  trace : ∀ mark ∈ s.trace, mark.2 = true

theorem trace_serve {s : State σ} (h : WarmInv s) (rbuf : Mem) (sa : SockAddr) :
    ∀ mark ∈ (serve addr s rbuf sa).trace, mark.2 = true := by
  cases hrequests : s.requests with
  | nil =>
      simpa only [serve, hrequests] using h.trace
  | cons d rest =>
      rcases h.requests d (by simp [hrequests]) with ⟨k, hpos, hk, hd⟩
      have hkeys : testKeymax ≤ tableSize := by decide
      have hlt : k < tableSize := Nat.lt_of_lt_of_le hk hkeys
      rcases onRecv_get s.srv rbuf sa hlt hd h.table rest s.db with ⟨bs, hcall, _, _⟩
      have hkey : requestKey (packetOf d.bytes) = k := hd ▸ (getRequest_getBytes hlt).2
      have hfinds := h.warm.2 k hpos hk
      simp only [serve, hrequests, hcall, hkey, hfinds]
      intro mark hmark
      rcases List.mem_append.1 hmark with hold | hnew
      · exact h.trace mark hold
      · rw [List.mem_singleton.1 hnew]

/-- The events that concern the threads and the network only. -/
def Event.Quiet : Event → Prop
  | .serve _ _ => False
  | .table _ => False
  | _ => True

theorem quiet_step (s : State σ) {e : Event} (he : e.Quiet) :
    (step addr s e).srv = s.srv ∧ (step addr s e).trace = s.trace := by
  cases e with
  | send a wbf sent => cases sent <;> exact ⟨rfl, rfl⟩
  | serve rbuf sa => exact he.elim
  | recv a rbuf =>
      simp only [step, recv]
      split
      · exact ⟨rfl, rfl⟩
      · split <;> exact ⟨rfl, rfl⟩
  | loseRequest i =>
      simp only [step, loseRequest]
      split <;> exact ⟨rfl, rfl⟩
  | loseAnswer a i =>
      simp only [step, loseAnswer]
      split <;> exact ⟨rfl, rfl⟩
  | table tbl => exact he.elim

theorem srv_serve (s : State σ) (rbuf : Mem) (sa : SockAddr) :
    (serve addr s rbuf sa).srv = s.srv := by
  unfold serve
  split
  · rfl
  · dsimp only
    split <;> rfl

theorem warmInv_step {s : State σ} (h : WarmInv s) {e : Event} (he : e.KeepsWarm) :
    WarmInv (step addr s e) := by
  have hinv := inv_step addr h.toInv he.fits
  have hquiet : e.Quiet → WarmInv (step addr s e) := by
    intro hquiet
    rcases quiet_step addr s hquiet with ⟨hsrv, htrace⟩
    exact ⟨hinv, hsrv ▸ h.warm, htrace ▸ h.trace⟩
  cases e with
  | serve rbuf sa =>
      exact ⟨hinv, srv_serve addr s rbuf sa ▸ h.warm, trace_serve addr h rbuf sa⟩
  | table tbl => exact ⟨hinv, he, h.trace⟩
  | _ => exact hquiet trivial

/-- Nothing is counted as an error while the table has every key. -/
theorem recvError_eq_zero {srv : Server σ} (hwarm : Warm srv.lookupValue) (db : σ)
    {es : List Event} (hes : ∀ e ∈ es, e.KeepsWarm) (a : SockAddr) :
    ((run (step addr) (init srv db) es).threads a).recvError = 0 := by
  have hinv : WarmInv (run (step addr) (init srv db) es) := by
    have hstart : WarmInv (init srv db) := ⟨inv_init srv db hwarm.1, hwarm, nofun⟩
    generalize init srv db = s at hstart ⊢
    induction es generalizing s with
    | nil =>
        exact hstart
    | cons e es ih =>
        rcases List.forall_mem_cons.1 hes with ⟨he, hrest⟩
        exact ih hrest _ (warmInv_step addr hstart he)
  have hserved : (run (step addr) (init srv db) es).served a false = 0 := by
    refine List.count_eq_zero.2 fun hmem => ?_
    exact Bool.false_ne_true (hinv.trace _ hmem)
  rw [(hinv.tallies a).error, hserved, Nat.zero_sub]

end Runs

end Tally

end Test
end NmMemcached
