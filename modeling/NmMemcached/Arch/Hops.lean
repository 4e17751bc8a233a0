import NmMemcached.Arch.KeyRouting
import NmMemcached.Arch.Reflection
import NmMemcached.Lib.Tokens

/-!
# Hops — what a UDP frame sets off among the instances

A frame for the external address is sent on, the frame that is sent on may be answered, and the
answer is not taken up by anybody, if it has no tags.  However many instances there are, whatever
is in their tables and their buffers and in whichever order the frames are delivered, two frames
are sent at most for each untagged UDP frame that comes in.  The answer to a SET with a tag can go
back and forth for ever (`udp_hops`).
-/

namespace NmMemcached
namespace Arch

open Lib Base Net Server

variable {σ : Type}

/-! ## One hop -/

/-- A UDP frame without tags that holds the octet of its destination that decides. -/
structure Untagged (f : Frame) : Prop where
  type : Packet.frameType f.data = .udp
  untagged : Packet.vlanLen f.data = 0
  address : 32 ≤ f.len

theorem Untagged.ip_eq {f : Frame} (h : Untagged f) : Packet.frameOffset f.data .ip = 14 :=
  congrArg (Packet.etherLen + ·) h.untagged

/-- The buffer of the receiver changes nothing in that. -/
theorem Untagged.inBuffer {f : Frame} (h : Untagged f) (buf : Mem) :
    Untagged (f.inBuffer buf) ∧
      dstOct3 (Packet.ofFrame (f.inBuffer buf).data (f.inBuffer buf).len) =
        dstOct3 (Packet.ofFrame f.data f.len) := by
  have hip := h.ip_eq
  have haddress := h.address
  have hd := extends_inBuffer f buf
  have hproto : protoOffset f.data < f.len := by
    unfold protoOffset
    split_ifs <;> omega
  have hat := (ethertype_of_extends hd (by omega)).1
  refine ⟨⟨udp_of_extends hd h.type hproto, ?_, haddress⟩, ?_⟩
  · have hsum : Packet.frameOffset (f.inBuffer buf).data .ip =
        14 + Packet.vlanLen (f.inBuffer buf).data := rfl
    omega
  · have hbyte := hd 31 (by omega)
    rw [dstOct3_eq_iff, hat, hip, hbyte, dstOct3_eq, ipDst, header_ofFrame, hip]
    rfl

open Classical in
/-- How many frames a frame can set off. -/
noncomputable def hopsLeft (f : Frame) : Nat :=
  if Silent f then 0
  else if dstOct3 (Packet.ofFrame f.data f.len) = externalIpOct3 then 2 else 1

/-- A frame that is delivered, or one that nobody takes up. -/
def Calm (f : Frame) : Prop := Untagged f ∨ Silent f

theorem hopsLeft_le (f : Frame) : hopsLeft f ≤ 2 := by
  unfold hopsLeft
  split
  · decide
  · split <;> decide

section Hop

variable {nm : Netmap σ} {f g : Frame} {db : σ}

/-- A frame that was sent on. -/
theorem Untagged.forwarded (h : Untagged f) (hsent : sent nm f db = some g)
    (hforwards : Forwards f.data (checkedLen f.len)) :
    g = { data := Arch.forwarded f.data (checkedLen f.len), len := checkedLen f.len } ∧ Untagged g ∧
      dstOct3 (Packet.ofFrame g.data g.len) = internalOct3 (keyHash f.data) := by
  have hlen := (checkedLen_of_pos (Nat.lt_of_le_of_lt (Nat.zero_le _) hforwards.2.1)).1
  rcases forwarded_of_sent nm hsent h.type hforwards with ⟨hdata, hsame⟩
  have hparse := @ofFrame_congr f.data (Arch.forwarded f.data (checkedLen f.len)) fun i hlo hhi =>
    forwarded_apply f.data _ hlo (Or.inl (Nat.lt_trans hhi (Nat.add_lt_add_left (by decide) _)))
  refine ⟨?_, ⟨?_, ?_, ?_⟩, ?_⟩
  · exact Frame.ext hdata (hsame.trans hlen.symm)
  · rw [hdata, hparse.2.2.2, h.type]
  · rw [hdata, hparse.1, h.untagged]
  · rw [hsame]
    exact h.address
  · rw [hdata]
    exact dstOct3_forwarded f.data _ g.len

/-- A frame with an address in it is too long for a GET. -/
theorem Untagged.silent (h : Untagged f) (hreply : RepliesWith nm f db g) : Silent g := by
  have hhead : headerLen = 24 := rfl
  have haddress := h.address
  refine (silent_iff_of_udp hreply h.type).2 (Or.inl ⟨?_, h.untagged⟩)
  have hacc := (accepted_swapMac_iff _).1 (answer_of_reply hreply h.type).2.1
  rcases accepted_iff.1 hacc with ⟨_, _, hlen, _, ⟨_, _, hbody⟩ | ⟨hset, _⟩⟩
  · have hlen' : checkedLen f.len = headerLen + 4 := by rw [← hbody]; exact hlen
    have hchecked := (checkedLen_of_pos (n := f.len) (by omega)).1
    omega
  · exact hset

/-- What an instance sends for a plain frame. -/
theorem Untagged.sent_cases (h : Untagged f) (hsent : sent nm f db = some g) :
    (dstOct3 (Packet.ofFrame f.data f.len) = externalIpOct3 ∧
        Forwards f.data (checkedLen f.len)) ∨
      (dstOct3 (Packet.ofFrame f.data f.len) = internalIpOct3 ∧
        Accepted (Packet.ofFrame f.data (checkedLen f.len)) ∧ Silent g) := by
  rcases (answered_of_udp_iff nm db h.type).1 (answered_of_sent nm hsent) with hext | ⟨hint, hacc⟩
  · exact Or.inl ⟨hext.1, hext⟩
  · refine Or.inr ⟨hint, hacc, h.silent ⟨hsent, fun hforwarded => ?_⟩⟩
    exact absurd (hint.symm.trans hforwarded.2) (by decide)

end Hop

/-! ## All the hops -/

/-- The instance a frame is delivered to, with the database and the buffer that it finds. -/
structure Receiver (σ : Type) where
  nm : Netmap σ
  db : σ
  buf : Mem

def react (r : Receiver σ) (f : Frame) : Option Frame := sent r.nm (f.inBuffer r.buf) r.db

/-- Each hop leaves fewer. -/
theorem hopsLeft_of_react {r : Receiver σ} {f g : Frame} (hcalm : Calm f)
    (h : react r f = some g) : Calm g ∧ hopsLeft g < hopsLeft f := by
  have hloud : ¬ Silent f := by
    intro hsilent
    have hnone := hsilent σ r.nm r.db r.buf
    exact Option.some_ne_none g (h.symm.trans hnone)
  rcases (hcalm.resolve_right hloud).inBuffer r.buf with ⟨huntagged, hoct⟩
  rcases huntagged.sent_cases h with ⟨hext, hforwards⟩ | ⟨hint, _, hsilent⟩
  · rcases huntagged.forwarded h hforwards with ⟨_, hnext, hdst⟩
    have htwo : hopsLeft f = 2 := by
      rw [hopsLeft, if_neg hloud, if_pos (hoct.symm.trans hext)]
    have hone : hopsLeft g ≤ 1 := by
      unfold hopsLeft
      simp only [hdst, internalOct3_ne_external, if_false]
      split <;> decide
    exact ⟨Or.inl hnext, by omega⟩
  · have hzero : hopsLeft g = 0 := by rw [hopsLeft, if_pos hsilent]
    refine ⟨Or.inr hsilent, ?_⟩
    rw [hzero, hopsLeft, if_neg hloud]
    split <;> decide

/-- A frame that is sent on by an instance with the first buffer and answered by one with the
second. -/
def TwoHops (buf buf' : Mem) (f : Frame) : Prop :=
  let n := checkedLen f.len
  let data := (f.inBuffer buf).data
  Forwards data n ∧ (keyHash data).toNat % usecoreCount = 0 ∧
    Accepted (Packet.ofFrame
      (Frame.inBuffer buf' { data := forwarded data n, len := n }).data n)

theorem exists_sent_of_answerable (nm : Netmap σ) (db : σ) {f : Frame}
    (h : Answerable f.data f.len) : ∃ g, sent nm f db = some g := by
  rw [← answered_iff nm db] at h
  cases hsent : sent nm f db with
  | none =>
      exact absurd h ((sent_eq_none_iff nm).1 hsent)
  | some g =>
      exact ⟨g, rfl⟩

/-- Which frames set off two. -/
theorem two_hops_iff {r r' : Receiver σ} {f : Frame} (h : Untagged f) :
    (∃ g k, react r f = some g ∧ react r' g = some k) ↔ TwoHops r.buf r'.buf f := by
  rcases h.inBuffer r.buf with ⟨huntagged, _⟩
  have hlen : (f.inBuffer r.buf).len = f.len := rfl
  constructor
  · rintro ⟨g, k, hg, hk⟩
    rcases huntagged.sent_cases hg with ⟨_, hforwards⟩ | ⟨_, _, hsilent⟩
    · rcases huntagged.forwarded hg hforwards with ⟨heq, hnext, hdst⟩
      rcases hnext.inBuffer r'.buf with ⟨hnext', hoct⟩
      rcases hnext'.sent_cases hk with ⟨hext, _⟩ | ⟨hint, hacc, _⟩
      · exact absurd ((hoct.trans hdst).symm.trans hext) (internalOct3_ne_external _)
      · refine ⟨hforwards, (internalOct3_eq_iff _).1 ((hoct.trans hdst).symm.trans hint), ?_⟩
        have hchecked : checkedLen (g.inBuffer r'.buf).len = checkedLen f.len := by
          rw [heq]
          exact checkedLen_of_le (checkedLen_le f.len)
        rw [hchecked, heq] at hacc
        exact hacc
    · have hnone := hsilent σ r'.nm r'.db r'.buf
      exact absurd (hk.symm.trans hnone) (Option.some_ne_none k)
  · rintro ⟨hforwards, hhash, haccepted⟩
    have hfirst : Answerable (f.inBuffer r.buf).data (f.inBuffer r.buf).len := by
      simp only [Answerable, huntagged.type]
      exact Or.inl hforwards
    rcases exists_sent_of_answerable r.nm r.db hfirst with ⟨g, hg⟩
    rcases huntagged.forwarded hg hforwards with ⟨heq, hnext, hdst⟩
    rcases hnext.inBuffer r'.buf with ⟨hnext', hoct⟩
    have hsecond : Answerable (g.inBuffer r'.buf).data (g.inBuffer r'.buf).len := by
      simp only [Answerable, hnext'.type]
      refine Or.inr ⟨hoct.trans (hdst.trans ((internalOct3_eq_iff _).2 hhash)), ?_⟩
      have hchecked : checkedLen (g.inBuffer r'.buf).len = checkedLen f.len := by
        rw [heq]
        exact checkedLen_of_le (checkedLen_le f.len)
      rw [hchecked, heq]
      exact haccepted
    rcases exists_sent_of_answerable r'.nm r'.db hsecond with ⟨k, hk⟩
    exact ⟨g, k, hg, hk⟩

/-- Whatever is delivered to whom, into which buffers and in which order: the instances send at
most two frames for each untagged UDP frame that comes in.  They send two for one that is sent on
to the address of a server, which accepts it, and for no other.  Without the tags it is not so:
the answer to a SET in a tagged frame can be answered any number of times. -/
theorem udp_hops {es : List (Tokens.Event (Receiver σ) Frame)}
    (huntagged : ∀ f, .inject f ∈ es → Untagged f) :
    (run (Tokens.step react) .empty es).sent.length ≤ 2 * (Tokens.injected es).length ∧
      (∀ f, .inject f ∈ es → ∀ r r' : Receiver σ,
        ((∃ g k, react r f = some g ∧ react r' g = some k) ↔ TwoHops r.buf r'.buf f)) ∧
      ∀ (a b : Netmap σ) (db : σ) (f g : Frame), RepliesWith a f db g →
        Packet.frameType f.data = .udp →
        Header.opcode f.data (Packet.frameOffset f.data .payload) = opcodeSet →
        Packet.vlanLen f.data ≠ 0 → ∀ k, ∃ gs, Exchange a b f gs ∧ gs.length = k := by
  refine ⟨?_, fun f hf r r' => two_hops_iff (huntagged f hf), ?_⟩
  · have hreact : ∀ (r : Receiver σ) (f g : Frame), Calm f → react r f = some g →
        Calm g ∧ hopsLeft g < hopsLeft f :=
      fun r f g hcalm hsent => hopsLeft_of_react hcalm hsent
    calc
      (run (Tokens.step react) .empty es).sent.length
          ≤ Tokens.total hopsLeft (Tokens.injected es) :=
        Tokens.sent_le hreact fun f hf => Or.inl (huntagged f hf)
      _ ≤ 2 * (Tokens.injected es).length := Tokens.total_le fun f _ => hopsLeft_le f
  · intro a b db f g hreply htype hset htag k
    exact exchange_of_taggedSet hreply htype hset htag k

/-- A SET to the external address; its extras have a hash with residue zero. -/
def externalSet : Frame :=
  { data := externalRequest opcodeSet [2, 0, 0, 3] [0, 0, 0, 5], len := 74 }

/-- The request behind the addresses is the one that came in. -/
theorem accepted_forwarded_iff {data : Mem} (h : IsIpv4Udp data) (len len' : Nat) :
    Accepted (Packet.ofFrame (forwarded data len) len') ↔
      Accepted (Packet.ofFrame data len') := by
  have hip := etherLen_le_ip data
  have hpay := h.payload.2
  have hoff : (Packet.ofFrame (forwarded data len) len').payload =
      (Packet.ofFrame data len').payload :=
    congrFun (frameOffset_forwarded data len) .payload
  have hsame : ∀ i < headerLen, (Packet.ofFrame (forwarded data len) len').data
      ((Packet.ofFrame data len').payload + i) =
        (Packet.ofFrame data len').data ((Packet.ofFrame data len').payload + i) := by
    intro i _
    have hat : (Packet.ofFrame data len').payload = Packet.frameOffset data .payload := rfl
    rw [hat]
    exact forwarded_apply data len (by omega) (Or.inr (by omega))
  unfold Accepted
  rw [hoff, validateHeader_iff, validateHeader_iff, headerOk_congr hsame, bodylen_congr hsame,
    keylen_congr hsame]
  rfl

theorem accepted_externalSet :
    Accepted (Packet.ofFrame (forwarded externalSet.data 74) 74) := by
  have hpay : (Packet.ofFrame externalSet.data 74).payload = 42 := (parse_frameMem 0x10 _).2.2
  rcases externalRequest_fields opcodeSet (by decide : ([2, 0, 0, 3] : List UInt8).length < 256)
    (rfl : ([0, 0, 0, 5] : List UInt8).length = 4) with
    ⟨hmagic, hopcode, hkeylen, hextlen, htype, hbody, _, _⟩
  have hframe : IsIpv4Udp externalSet.data := (parse_frameMem 0x10 _).2.1
  refine (accepted_forwarded_iff hframe 74 74).2 ⟨?_, ?_⟩
  · rw [hpay]
    refine (validateHeader_iff _ _ _).2 ⟨⟨hmagic, htype, Or.inr ⟨hopcode, ?_, ?_, ?_⟩⟩, ?_⟩
    · intro hzero
      have hnone : (0 : UInt8).toNat = 4 := (congrArg UInt8.toNat hzero).symm.trans hextlen
      exact absurd hnone (by decide)
    · exact ne_of_eq_of_ne hkeylen (by decide)
    · exact ne_of_eq_of_ne hbody (by decide)
    · exact congrArg (· + headerLen) hbody
  · rw [hpay]
    exact hkeylen

/-- An instance that finds a cleared buffer. -/
def demoReceiver : Receiver Unit := { nm := demoNetmap, db := (), buf := fun _ => 0 }

theorem inBuffer_self {g : Frame} {buf : Mem} (h : ∀ i, g.len ≤ i → buf i = g.data i) :
    g.inBuffer buf = g := by
  unfold Frame.inBuffer
  congr 1
  funext i
  split_ifs with hi
  · rfl
  · exact h i (by omega)

theorem inBuffer_forwarded {f : Frame} {buf : Mem} (h : Untagged f) (n : Nat)
    (hbuf : ∀ i, f.len ≤ i → buf i = f.data i) :
    Frame.inBuffer buf { data := forwarded f.data n, len := f.len } =
      { data := forwarded f.data n, len := f.len } := by
  refine inBuffer_self fun i hi => ?_
  have hip := h.ip_eq
  have haddress := h.address
  have hbehind : f.len ≤ i := hi
  have hsame : forwarded f.data n i = f.data i :=
    forwarded_apply_of_ne f.data n (by omega) (by omega)
  exact (hbuf i hbehind).trans hsame.symm

/-- It is sent on, and the server it gets to answers it. -/
theorem udp_hops_externalSet :
    (run (Tokens.step react) .empty
      [.inject externalSet, .deliver 0 demoReceiver, .deliver 0 demoReceiver,
        .deliver 0 demoReceiver]).sent.length ≤ 2 ∧
      ∃ g k, react demoReceiver externalSet = some g ∧ react demoReceiver g = some k := by
  have hfour : ([2, 0, 0, 3] : List UInt8).length < 256 := by decide
  have hcarries := carries_externalRequest opcodeSet hfour
    (rfl : ([0, 0, 0, 5] : List UInt8).length = 4) (Or.inr rfl)
  have hvlan : Packet.vlanLen externalSet.data = 0 := (parse_frameMem 0x10 _).1
  have huntagged : Untagged externalSet := ⟨hcarries.frame.type, hvlan, by decide⟩
  have hboth := @udp_hops Unit
    [.inject externalSet, .deliver 0 demoReceiver, .deliver 0 demoReceiver,
      .deliver 0 demoReceiver] (by
    intro f hf
    simp only [List.mem_cons, Tokens.Event.inject.injEq, List.not_mem_nil, or_false, reduceCtorEq]
      at hf
    rw [hf]
    exact huntagged)
  refine ⟨hboth.1, (hboth.2.1 externalSet List.mem_cons_self _ _).2 ?_⟩
  -- Behind the frames there are zeros, as in the buffers.
  have hzero : ∀ i, 74 ≤ i → externalSet.data i = 0 := fun i hi => frameMem_of_le 0x10 _ hi
  have hfirst : externalSet.inBuffer demoReceiver.buf = externalSet :=
    inBuffer_self fun i hi => (hzero i hi).symm
  have hsecond : Frame.inBuffer demoReceiver.buf
      { data := forwarded externalSet.data 74, len := 74 } =
        { data := forwarded externalSet.data 74, len := 74 } :=
    inBuffer_forwarded huntagged 74 fun i hi => (hzero i hi).symm
  unfold TwoHops
  have hlen : externalSet.len = 74 := rfl
  have hchecked : checkedLen externalSet.len = 74 := by
    rw [hlen]
    exact checkedLen_of_le (by decide)
  simp only [hfirst, hchecked, hsecond]
  refine ⟨⟨hcarries.external, by decide, ?_⟩, ?_, accepted_externalSet⟩
  · have hpay : Packet.frameOffset externalSet.data .payload = 42 := (parse_frameMem 0x10 _).2.2
    have hbody := (externalRequest_fields opcodeSet hfour
      (rfl : ([0, 0, 0, 5] : List UInt8).length = 4)).2.2.2.2.2.1
    rw [hpay, externalSet, hbody]
    decide
  · rw [externalSet, hcarries.keyHash_eq]
    decide

end Arch
end NmMemcached
