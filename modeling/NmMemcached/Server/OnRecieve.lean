import NmMemcached.Base.Def
import NmMemcached.Base.Inl
import NmMemcached.Net.Packet
import NmMemcached.Server.Item

/-!
# OnRecieve — the request handlers of `src/nmmc_server.cc`

`onRecieve` validates a request, extracts the 20-bit key and answers in place, in the buffer of
the packet.  GET reads the lookup table; SET builds one SQL statement and sends it to MySQL.

MySQL is not part of the repository: `mysqlQuery` takes a database state and a statement and
returns the status and the next state.  The table is only read.

The builder of the found answer is cut into the steps that touch the item (`replyBodylen`,
`replyExpire`, `replyValue`, `replyLength`), in the order of the source.
-/

namespace NmMemcached

open Lib Base Net Table

universe u

/-- What the handlers use of `Server`. -/
structure Server (σ : Type u) where
  lookupValue : Server.Val
  /-- The heap behind the item an iterator points at. -/
  behind : Iterator → Nat → UInt8
  mysqlQuery : σ → List Char → Int × σ

namespace Server

/-- `key.k.id` of `nmmc_key`: the low 20 bits. -/
def keyId (key : Nat) : Nat := key % tableSize

theorem keyId_lt (key : Nat) : keyId key < tableSize :=
  Nat.mod_lt key tableSize_pos

/-! ## Response headers -/

/-- `magic`, `opcode`, `keylen`, `extlen`, `datatype` and `status`, written one by one; `status`
goes out in host order. -/
def responseHead (pkt : Packet) (opcode extlen : UInt8) (status : Nat) : Packet :=
  (((((pkt.writeAt pkt.payload [magicResponse]).writeAt (pkt.payload + 1) [opcode]).writeAt
    (pkt.payload + 2) [0, 0]).writeAt (pkt.payload + 4) [extlen]).writeAt
    (pkt.payload + 5) [0]).writeAt (pkt.payload + 6) (Mem.le16Bytes status)

/-- `REQH(p).opaque = 0`. -/
def clearTag (pkt : Packet) : Packet := pkt.writeAt (pkt.payload + 12) [0, 0, 0, 0]

/-- `REQH(p).cas = 0`. -/
def clearCas (pkt : Packet) : Packet := pkt.writeAt (pkt.payload + 16) [0, 0, 0, 0, 0, 0, 0, 0]

/-- `REQH(p).bodylen = htonl(n)`. -/
def writeBodylen (pkt : Packet) (n : Nat) : Packet :=
  pkt.writeAt (pkt.payload + 8) (Mem.be32Bytes n)

/-! ## GET -/

def notfound : List UInt8 :=
  "not found".toList.map fun c => UInt8.ofNat c.toNat

def replyHead (pkt : Packet) : Packet :=
  clearCas (responseHead pkt opcodeGet 4 0)

/-- `REQH(p).bodylen = htonl(it->stat.datalen + 4)`. -/
def replyBodylen (pkt : Packet) (it : NmmcItem) : Packet :=
  writeBodylen pkt (it.datalen.toNat + 4)

/-- `*(EXTRA(p, uint32_t)) = it->expire`. -/
def replyExpire (pkt : Packet) (it : NmmcItem) : Packet :=
  pkt.writeAt (pkt.payload + headerLen) (Mem.le32Bytes it.expire)

/-- `memcpy(REQ_VAL(p), it->data, it->stat.datalen)`. -/
def replyValue (pkt : Packet) (it : NmmcItem) (behind : Nat → UInt8) : Packet :=
  pkt.writeAt (Header.reqVal pkt.data pkt.payload) (it.copyData behind it.datalen.toNat)

/-- `pkt->Length(sizeof(*p) + it->stat.datalen + 4)`. -/
def replyLength (pkt : Packet) (it : NmmcItem) : Packet :=
  pkt.setLength (headerLen + it.datalen.toNat + 4)

def replyFound (pkt : Packet) (it : NmmcItem) (behind : Nat → UInt8) : Packet :=
  replyLength (replyValue (replyExpire (replyBodylen (replyHead pkt) it) it) it behind) it

def replyNotfound (pkt : Packet) : Packet :=
  -- The only answer that clears `opaque`.
  let pkt := clearCas (clearTag (responseHead pkt opcodeGet 0 statusErr))
  let pkt := writeBodylen pkt notfound.length
  let pkt := pkt.writeAt (Header.reqVal pkt.data pkt.payload) notfound
  pkt.setLength (headerLen + notfound.length)

section Handlers

variable {σ : Type u}

def onRecieveGet (srv : Server σ) (pkt : Packet) (key : Nat) : Nat × Packet :=
  let tbl := srv.lookupValue
  let it := tbl.find key 0
  if it = .end_ then (needSend, replyNotfound pkt)
  -- A data length of zero means the same as not found.
  else if (tbl.get it).datalen = 0 then (needSend, replyNotfound pkt)
  else (needSend, replyFound pkt (tbl.get it) (srv.behind it))

/-! ## SET -/

/-- The text of the statement; `hexval` is used twice. -/
def setStatement (key : Nat) (hexval : List Char) : List Char :=
  "INSERT INTO kvs(`key`,`val`)VALUES(".toList ++ Nat.toDigits 10 key ++ ",0x".toList ++ hexval ++
    ")ON DUPLICATE KEY UPDATE val = 0x".toList ++ hexval

def replySet (pkt : Packet) (stat : Nat) : Packet :=
  (writeBodylen (clearCas (responseHead pkt opcodeSet 0 stat)) 0).setLength headerLen

def onRecieveSet (srv : Server σ) (pkt : Packet) (key : Nat) (val : Nat) (vlen : Int) (db : σ) :
    Nat × Packet × σ :=
  let sql := setStatement key (bin2Hex pkt.data val vlen)
  let res := srv.mysqlQuery db sql
  -- `STATUS_OK` and `STATUS_ERR` go out as they are.
  let stat := if res.1 ≠ 0 then statusErr else 0
  (needSend, replySet pkt stat, res.2)

/-! ## The dispatcher -/

def onRecieve (srv : Server σ) (pkt : Packet) (db : σ) : Nat × Packet × σ :=
  let p := pkt.payload
  if ¬ validateHeader pkt.data p pkt.len then (0, pkt, db)
  else if Header.keylen pkt.data p ≠ 4 then (0, pkt, db)
  else
    let key := keyId (Header.key pkt.data p)
    -- The validator lets no third opcode through, so the last branch is not taken.
    if Header.opcode pkt.data p = opcodeGet then
      let res := onRecieveGet srv pkt key
      (res.1, res.2, db)
    else if Header.opcode pkt.data p = opcodeSet then
      onRecieveSet srv pkt key (Header.reqVal pkt.data p) (Header.reqVall pkt.data p) db
    else (0, pkt, db)

end Handlers

end Server
end NmMemcached
