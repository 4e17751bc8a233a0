import NmMemcached.Server.Requests

/-!
# Socket — the UDP transport of `src/nmmc_arch_impl_socket.cc`

The socket is its queue of pending datagrams: a plain receive removes the first one and cuts it to
the size asked for, a peek leaves it in the queue.  `onRecv` peeks at the header, reads as many
bytes as the header promises, and answers with `sendto`.

`rbuf` has 2048 bytes.  A receive that stores more than that has no defined outcome (`overrun`).
-/

namespace NmMemcached
namespace Arch

open Lib Base Net Server

universe u

/-- `NMMC_BUFFER_SIZE`. -/
def nmmcBufferSize : Nat := 2048

structure Datagram where
  bytes : List UInt8
  sa : SockAddr
  deriving DecidableEq

/-- What a client sees of one request. -/
inductive Outcome
  | dropped
  | answered (payload : List UInt8)
  | overrun
  deriving DecidableEq

/-- The outcome of a handler: the bytes of an answer start at `PAYLOAD`. -/
def Outcome.ofHandled {σ : Type u} (res : Nat × Packet × σ) : Outcome :=
  if res.1 ≠ 0 then .answered (res.2.1.data.read res.2.1.payload res.2.1.len) else .dropped

/-- The result of a receive: its return value, the buffer, the sender and the queue. -/
structure Received where
  rlen : Int
  rbuf : Mem
  sa : SockAddr
  queue : List Datagram

/-- `recvfrom(sock, rbuf, n, MSG_PEEK, …)`. -/
def recvPeek (queue : List Datagram) (rbuf : Mem) (sa : SockAddr) (n : Nat) : Received :=
  match queue with
  | [] => { rlen := -1, rbuf := rbuf, sa := sa, queue := [] }
  | d :: _ =>
      { rlen := min n d.bytes.length
        rbuf := rbuf.write 0 (d.bytes.take n)
        sa := d.sa
        queue := queue }

/-- `recvfrom(sock, rbuf, n, 0, …)`. -/
def recvfrom (queue : List Datagram) (rbuf : Mem) (sa : SockAddr) (n : Nat) : Received :=
  { recvPeek queue rbuf sa n with queue := queue.tail }

section OnRecv

variable {σ : Type u}

/-- What one call of `OnRecv` leaves. -/
structure RecvResult (σ : Type u) where
  outcome : Outcome
  queue : List Datagram
  db : σ

/-- `OnRecv`; `getsockname` on a bound socket succeeds, and its result is not used. -/
def onRecv (srv : Server σ) (rbuf : Mem) (sa : SockAddr) (queue : List Datagram) (db : σ) :
    RecvResult σ :=
  let peek := recvPeek queue rbuf sa headerLen
  if peek.rlen ≠ headerLen then
    -- A datagram below the header length is read away.
    { outcome := .dropped
      queue := (recvfrom queue peek.rbuf peek.sa 4).queue
      db := db }
  else
    let want := headerLen + Header.bodylen peek.rbuf 0
    let body := recvfrom queue peek.rbuf peek.sa want
    if (nmmcBufferSize : Int) < body.rlen then
      { outcome := .overrun, queue := body.queue, db := db }
    else if body.rlen ≠ want then
      { outcome := .dropped
        -- The datagram is gone already; this receive takes the next one.
        queue := (recvfrom body.queue body.rbuf body.sa 4).queue
        db := db }
    else if ¬ validateHeader body.rbuf 0 want then
      { outcome := .dropped, queue := body.queue, db := db }
    else
      let res := onRecieve srv (Packet.ofDatagram body.rbuf want body.sa) db
      { outcome := Outcome.ofHandled res, queue := body.queue, db := res.2.2 }

end OnRecv

end Arch
end NmMemcached
