import NmMemcached.Server.Replies
import NmMemcached.Server.Rows

/-!
# Interleaving — a GET while the binlog loop updates the table

`OnRecieveGet` runs in the thread of the packets and `BinLogLoop` in its own.  An `Add` or a `Del`
is one step; the GET takes one step for each of: `Find`, the test of `datalen`, writing `bodylen`,
copying `expire`, copying the value, setting the length.  A run is any sequence of these steps.

The GET holds an iterator, and the item it points at is replaced by an `Add` on the key that comes
when that item is the hidden one, after an odd number of updates of the key.  `Harmless` allows
such an `Add` as long as it keeps what the GET has used already; in runs of harmless steps the
answer is made of one item (`oneVersion_of_harmless`).
-/

namespace NmMemcached
namespace Server

open Lib Base Net Table

/-! ## The step relation -/

/-- What the GET does next; `found` and `notfound` are its ends. -/
inductive GetPc
  | find
  | test
  | bodylen
  | expire
  | value
  | length
  | found
  | notfound
  deriving DecidableEq

structure GetRun where
  tbl : Val
  pc : GetPc
  it : Iterator
  pkt : Packet

inductive Action
  | update (op : LookupTable.Update NmmcItem)
  | get

def GetRun.start (tbl : Val) (pkt : Packet) : GetRun :=
  { tbl := tbl, pc := .find, it := .end_, pkt := pkt }

section Steps

variable (behind : Iterator → Nat → UInt8) (key : Nat)

/-- The next step of `OnRecieveGet(pkt, key)`. -/
def getStep (s : GetRun) : GetRun :=
  match s.pc with
  | .find =>
      if s.tbl.find key 0 = .end_ then { s with pc := .notfound, pkt := replyNotfound s.pkt }
      else { s with pc := .test, it := s.tbl.find key 0 }
  | .test =>
      if (s.tbl.get s.it).datalen = 0 then { s with pc := .notfound, pkt := replyNotfound s.pkt }
      -- The fields in front of `bodylen` do not read the item.
      else { s with pc := .bodylen, pkt := replyHead s.pkt }
  | .bodylen => { s with pc := .expire, pkt := replyBodylen s.pkt (s.tbl.get s.it) }
  | .expire => { s with pc := .value, pkt := replyExpire s.pkt (s.tbl.get s.it) }
  | .value => { s with pc := .length, pkt := replyValue s.pkt (s.tbl.get s.it) (behind s.it) }
  | .length => { s with pc := .found, pkt := replyLength s.pkt (s.tbl.get s.it) }
  | .found => s
  | .notfound => s

def stepGet (s : GetRun) : Action → GetRun
  | .update op => { s with tbl := s.tbl.apply op }
  | .get => getStep behind key s

/-- Alone, the steps are `OnRecieveGet`. -/
theorem run_getStep_alone {σ : Type*} (srv : Server σ) (pkt : Packet) :
    (run (stepGet srv.behind key) (GetRun.start srv.lookupValue pkt)
      (List.replicate 6 .get)).pkt = (onRecieveGet srv pkt key).2 := by
  unfold onRecieveGet
  by_cases hend : srv.lookupValue.find key 0 = .end_
  · simp [run, stepGet, getStep, GetRun.start, hend, List.replicate]
  · by_cases hzero : (srv.lookupValue.get (srv.lookupValue.find key 0)).datalen = 0#11
    · simp [run, stepGet, getStep, GetRun.start, hend, hzero, List.replicate]
    · simp [run, stepGet, getStep, GetRun.start, hend, hzero, List.replicate, replyFound]

/-! ## One version -/

/-- The item was shown for the key at some moment before the end of the GET. -/
def VisibleDuring (s₀ : GetRun) (es : List Action) (x : NmmcItem) : Prop :=
  ∃ before after, es = before ++ after ∧
    (run (stepGet behind key) s₀ before).pc ≠ .found ∧
    (run (stepGet behind key) s₀ before).tbl.shown key = some x

/-- A found answer is the answer for one item that was visible during the GET. -/
def OneVersion (s₀ : GetRun) (es : List Action) : Prop :=
  (run (stepGet behind key) s₀ es).pc = .found →
    ∃ x, VisibleDuring behind key s₀ es x ∧
      (run (stepGet behind key) s₀ es).pkt =
        replyFound s₀.pkt x (behind (run (stepGet behind key) s₀ es).it)

/-- No `Add` replaces the item the GET is reading by one with another `datalen` once `bodylen` is
written, or with another `expire` once that is copied. -/
def Harmless (s : GetRun) : Action → Prop
  | .update (.add k itm) =>
      k = key → s.tbl.find key 1 = s.it →
        match s.pc with
        | .expire => itm.datalen = (s.tbl.get s.it).datalen
        | .value =>
            itm.datalen = (s.tbl.get s.it).datalen ∧ itm.expire = (s.tbl.get s.it).expire
        | .length => itm.datalen = (s.tbl.get s.it).datalen
        | _ => True
  | _ => True

/-- The packet when the steps up to `pc` have read the item `x`. -/
def built (pkt : Packet) (x : NmmcItem) (heap : Nat → UInt8) : GetPc → Packet
  | .find => pkt
  | .test => pkt
  | .bodylen => replyHead pkt
  | .expire => replyBodylen (replyHead pkt) x
  | .value => replyExpire (replyBodylen (replyHead pkt) x) x
  | .length => replyValue (replyExpire (replyBodylen (replyHead pkt) x) x) x heap
  | .found => replyFound pkt x heap
  | .notfound => replyNotfound pkt

/-- What is still to be read agrees with `x`; the valid bit is never read. -/
def Agrees (a x : NmmcItem) : GetPc → Prop
  | .length => a.datalen = x.datalen
  | .found => True
  | _ => ∃ v, a = Item.setValid v x

/-- The invariant: once the iterator is taken, there is a visible item that everything read so far
comes from, and everything still to be read. -/
def Reading (s₀ : GetRun) (es : List Action) (s : GetRun) : Prop :=
  s.pc = .notfound ∨ (s.pc = .find ∧ s.pkt = s₀.pkt) ∨
    (s.pc ≠ .find ∧ key < tableSize ∧ ∃ b, s.it = LookupTable.slotIter key b ∧
      ∃ x, VisibleDuring behind key s₀ es x ∧ Agrees (s.tbl.get s.it) x s.pc ∧
        s.pkt = built s₀.pkt x (behind s.it) s.pc)

variable {behind} {key} {s₀ : GetRun} {es : List Action}

theorem VisibleDuring.append {x : NmmcItem} (h : VisibleDuring behind key s₀ es x)
    (fs : List Action) : VisibleDuring behind key s₀ (es ++ fs) x := by
  rcases h with ⟨before, after, rfl, hpc, hshown⟩
  exact ⟨before, after ++ fs, by simp, hpc, hshown⟩

/-- What is shown at the last moment of a run is visible during it. -/
theorem visible_now {s : GetRun} (hs : run (stepGet behind key) s₀ es = s) (hpc : s.pc ≠ .found)
    {x : NmmcItem} (hshown : s.tbl.shown key = some x) : VisibleDuring behind key s₀ es x := by
  subst hs
  exact ⟨es, [], by simp, hpc, hshown⟩

theorem replyBodylen_congr (pkt : Packet) {x y : NmmcItem} (h : x.datalen = y.datalen) :
    replyBodylen pkt x = replyBodylen pkt y := by
  rw [replyBodylen, replyBodylen, h]

theorem replyExpire_congr (pkt : Packet) {x y : NmmcItem} (hlen : x.datalen = y.datalen)
    (hexpire : x.expire = y.expire) :
    replyExpire (replyBodylen pkt x) x = replyExpire (replyBodylen pkt y) y := by
  rw [replyBodylen_congr pkt hlen, replyExpire, replyExpire, hexpire]

theorem agrees_setValid {a x : NmmcItem} {pc : GetPc} (v : ValidBit) (h : Agrees a x pc) :
    Agrees (Item.setValid v a) x pc := by
  cases pc with
  | length => exact h
  | found => exact h
  | _ =>
      rcases h with ⟨w, rfl⟩
      exact ⟨v, rfl⟩

/-- A step of the GET keeps the invariant. -/
theorem reading_getStep
    (h : Reading behind key s₀ es (run (stepGet behind key) s₀ es)) :
    Reading behind key s₀ (es ++ [.get]) (getStep behind key (run (stepGet behind key) s₀ es)) := by
  generalize hs : run (stepGet behind key) s₀ es = s at h
  rcases h with hnot | ⟨hpc, hpkt⟩ | ⟨hpc, hkey, b, hit, x, hvis, hagrees, hpkt⟩
  · left
    simp [getStep, hnot]
  · by_cases hend : s.tbl.find key 0 = .end_
    · left
      simp [getStep, hpc, hend]
    · right
      right
      rcases LookupTable.find_ne_end tableSize_pos hend with ⟨hkey, _, hiter⟩
      -- The item at the iterator is visible at the moment it is taken.
      have hshown : s.tbl.shown key = some (s.tbl.get (s.tbl.find key 0)) := by
        simp [LookupTable.shown, hend]
      have hvis := (visible_now hs (by simp [hpc]) hshown).append [.get]
      refine ⟨?_, hkey, s.tbl.sideBit key, ?_, s.tbl.get (s.tbl.find key 0), hvis, ?_, ?_⟩
      · simp [getStep, hpc, hend]
      · simpa [getStep, hpc, hend] using hiter
      · simp only [getStep, hpc, hend, if_false]
        exact ⟨(s.tbl.get (s.tbl.find key 0)).valid, rfl⟩
      · simpa [getStep, hpc, hend, built] using hpkt
  · clear hs
    rcases s with ⟨tbl, pc, it, pkt⟩
    simp only at hpc hit hagrees hpkt
    -- From here on the version does not change: each step reads what agrees with `x`.
    have hstay : ∀ pc' pkt', pc' ≠ .find → Agrees (tbl.get it) x pc' →
        pkt' = built s₀.pkt x (behind it) pc' →
        Reading behind key s₀ (es ++ [.get]) ⟨tbl, pc', it, pkt'⟩ :=
      fun pc' pkt' hne ha hb =>
        Or.inr (Or.inr ⟨hne, hkey, b, hit, x, hvis.append [.get], ha, hb⟩)
    cases pc with
    | find => exact absurd rfl hpc
    | test =>
        by_cases hzero : (tbl.get it).datalen = 0#11
        · left
          simp [getStep, hzero]
        · have hnext := hstay .bodylen (replyHead pkt) (by simp) hagrees (by rw [hpkt]; rfl)
          simpa [getStep, hzero] using hnext
    | bodylen =>
        rcases hagrees with ⟨v, hv⟩
        exact hstay .expire _ (by simp) ⟨v, hv⟩ (by rw [hpkt, hv]; rfl)
    | expire =>
        rcases hagrees with ⟨v, hv⟩
        exact hstay .value _ (by simp) ⟨v, hv⟩ (by rw [hpkt, hv]; rfl)
    | value =>
        rcases hagrees with ⟨v, hv⟩
        exact hstay .length _ (by simp) (by rw [hv]; rfl) (by rw [hpkt, hv]; rfl)
    | length =>
        refine hstay .found _ (by simp) trivial ?_
        have hlen : (tbl.get it).datalen = x.datalen := hagrees
        rw [hpkt, replyLength, hlen]
        rfl
    | found => exact hstay .found pkt (by simp) trivial hpkt
    | notfound =>
        left
        rfl

/-- The item the GET reads is replaced, harmlessly: it reads the new one from here on, or only the
length of the old one. -/
theorem reading_replaced {s : GetRun} {itm x : NmmcItem} {b : Bool}
    (hrun : run (stepGet behind key) s₀ (es ++ [.update (.add key itm)]) =
      stepGet behind key s (.update (.add key itm)))
    (hkey : key < tableSize) (hpc : s.pc ≠ .find) (hit : s.it = LookupTable.slotIter key b)
    (hvis : VisibleDuring behind key s₀ es x) (hagrees : Agrees (s.tbl.get s.it) x s.pc)
    (hpkt : s.pkt = built s₀.pkt x (behind s.it) s.pc) (hback : s.tbl.find key 1 = s.it)
    (hharmless : Harmless key s (.update (.add key itm)))
    (hsame : (s.tbl.apply (.add key itm)).get s.it = Item.setValid statOn itm) :
    Reading behind key s₀ (es ++ [.update (.add key itm)])
      (stepGet behind key s (.update (.add key itm))) := by
  have hallowed := hharmless rfl hback
  have hshown : (s.tbl.apply (.add key itm)).shown key = some (Item.setValid statOn itm) :=
    LookupTable.shown_apply_add s.tbl hkey itm
  have hkeep : Agrees ((s.tbl.apply (.add key itm)).get s.it) x s.pc →
      Reading behind key s₀ (es ++ [.update (.add key itm)])
        (stepGet behind key s (.update (.add key itm))) :=
    fun ha => Or.inr (Or.inr ⟨hpc, hkey, b, hit, x, hvis.append _, ha, hpkt⟩)
  have hswitch : s.pc ≠ .found →
      Agrees ((s.tbl.apply (.add key itm)).get s.it) (Item.setValid statOn itm) s.pc →
      s.pkt = built s₀.pkt (Item.setValid statOn itm) (behind s.it) s.pc →
      Reading behind key s₀ (es ++ [.update (.add key itm)])
        (stepGet behind key s (.update (.add key itm))) :=
    fun hne ha hb => Or.inr (Or.inr ⟨hpc, hkey, b, hit, _, visible_now hrun hne hshown, ha, hb⟩)
  rcases s with ⟨tbl, pc, it, pkt⟩
  simp only at hpc hit hagrees hpkt hsame
  cases pc with
  | find => exact absurd rfl hpc
  -- Nothing of the old item is used yet, so the version becomes the new one.
  | test => exact hswitch (by simp) ⟨statOn, hsame⟩ hpkt
  | bodylen => exact hswitch (by simp) ⟨statOn, hsame⟩ hpkt
  | expire =>
      rcases hagrees with ⟨v, hv⟩
      have hlen : itm.datalen = (tbl.get it).datalen := hallowed
      rw [hv] at hlen
      refine hswitch (by simp) ⟨statOn, hsame⟩ ?_
      rw [hpkt]
      exact replyBodylen_congr _ hlen.symm
  | value =>
      rcases hagrees with ⟨v, hv⟩
      have hread : itm.datalen = (tbl.get it).datalen ∧ itm.expire = (tbl.get it).expire :=
        hallowed
      rw [hv] at hread
      refine hswitch (by simp) ⟨statOn, hsame⟩ ?_
      rw [hpkt]
      exact replyExpire_congr _ hread.1.symm hread.2.symm
  | length =>
      have hlen : itm.datalen = (tbl.get it).datalen := hallowed
      -- Only the length is still to be read, and it is that of the old version.
      exact hkeep (by rw [hsame]; exact hlen.trans hagrees)
  | found => exact hkeep trivial
  | notfound => exact Or.inl rfl

/-- A harmless update keeps the invariant. -/
theorem reading_update {op : LookupTable.Update NmmcItem}
    (h : Reading behind key s₀ es (run (stepGet behind key) s₀ es))
    (hharmless : Harmless key (run (stepGet behind key) s₀ es) (.update op)) :
    Reading behind key s₀ (es ++ [.update op])
      (stepGet behind key (run (stepGet behind key) s₀ es) (.update op)) := by
  have hrun : run (stepGet behind key) s₀ (es ++ [.update op]) =
      stepGet behind key (run (stepGet behind key) s₀ es) (.update op) := by simp
  generalize run (stepGet behind key) s₀ es = s at h hharmless hrun
  rcases h with hnot | ⟨hpc, hpkt⟩ | ⟨hpc, hkey, b, hit, x, hvis, hagrees, hpkt⟩
  · exact Or.inl hnot
  · exact Or.inr (Or.inl ⟨hpc, hpkt⟩)
  · have hget := LookupTable.get_apply s.tbl tableSize_pos op (k := key) b
    rw [← hit] at hget
    have hkeep : Agrees ((s.tbl.apply op).get s.it) x s.pc →
        Reading behind key s₀ (es ++ [.update op]) (stepGet behind key s (.update op)) :=
      fun ha => Or.inr (Or.inr ⟨hpc, hkey, b, hit, x, hvis.append _, ha, hpkt⟩)
    by_cases hhit : op.key = key ∧ key < tableSize ∧ b = !s.tbl.sideBit key
    · rw [if_pos hhit] at hget
      cases op with
      | del k =>
          refine hkeep ?_
          rw [hget]
          -- The GET does not read the valid bit again.
          exact agrees_setValid statOff hagrees
      | add k itm =>
          -- The hidden item is the one the GET reads.
          have hk : k = key := hhit.1
          have hback : s.tbl.find key 1 = s.it := by
            rw [LookupTable.find_back hkey (by decide), hit, hhit.2.2]
          subst hk
          exact reading_replaced hrun hkey hpc hit hvis hagrees hpkt hback hharmless hget
    · rw [if_neg hhit] at hget
      exact hkeep (by rw [hget]; exact hagrees)

variable (behind) (key)

/-- In every run of harmless steps a found answer is the answer for one item that was visible
during the GET: its `bodylen`, extras, value and length all come from it. -/
theorem oneVersion_of_harmless (tbl : Val) (pkt : Packet) (es : List Action)
    (hharmless : Along (stepGet behind key) (Harmless key) (GetRun.start tbl pkt) es) :
    OneVersion behind key (GetRun.start tbl pkt) es := by
  have hstart : Reading behind key (GetRun.start tbl pkt) [] (GetRun.start tbl pkt) :=
    Or.inr (Or.inl ⟨rfl, rfl⟩)
  have hreading := run_history_along (P := Reading behind key (GetRun.start tbl pkt)) hstart
    (fun es e h hG => by
      cases e with
      | get => exact reading_getStep h
      | update op => exact reading_update h hG)
    hharmless
  intro hfound
  rcases hreading with hnot | ⟨hpc, _⟩ | ⟨_, _, b, hit, x, hvis, _, hpkt⟩
  · rw [hfound] at hnot
    contradiction
  · rw [hfound] at hpc
    contradiction
  · rw [hfound] at hpkt
    exact ⟨x, hvis, hpkt⟩

end Steps

/-- A GET for key 5 while one update falls between its steps. -/
def quietRun : List Action :=
  [.update (.add 5 (itemOfBlob [0xaa])), .get, .get, .get,
    .update (.add 5 (itemOfBlob [0xbb, 0xbc])), .get, .get, .get]

def getPacket : Packet := Packet.ofDatagram (fun _ => 0) 28 { addr := 0, port := 0 }

theorem oneVersion_of_harmless_quietRun :
    (run (stepGet (fun _ _ => 0) 5) (GetRun.start LookupTable.clear getPacket) quietRun).pc =
        .found ∧
      OneVersion (fun _ _ => 0) 5 (GetRun.start LookupTable.clear getPacket) quietRun := by
  refine ⟨by decide, oneVersion_of_harmless _ _ _ _ _ ?_⟩
  refine ⟨fun _ _ => trivial, trivial, trivial, trivial, ?_, trivial, trivial, trivial, trivial⟩
  intro _ hback
  exact absurd hback (by decide)

/-- Two updates between `bodylen` and the value: the second one replaces the item the GET reads. -/
def tornRun : List Action :=
  [.update (.add 5 (itemOfBlob [0xaa])), .get, .get, .get,
    .update (.add 5 (itemOfBlob [0xbb])), .update (.add 5 (itemOfBlob [0xcc, 0xcd])),
    .get, .get, .get]

theorem tornRun_not_oneVersion :
    ¬ OneVersion (fun _ _ => 0) 5 (GetRun.start LookupTable.clear getPacket) tornRun := by
  intro hone
  have hfound : (run (stepGet (fun _ _ => 0) 5) (GetRun.start LookupTable.clear getPacket)
      tornRun).pc = .found := by decide
  have hnone : Response.ofPacket (run (stepGet (fun _ _ => 0) 5)
      (GetRun.start LookupTable.clear getPacket) tornRun).pkt = none := by decide
  rcases hone hfound with ⟨x, _, hpkt⟩
  rw [hpkt, ofPacket_replyFound] at hnone
  contradiction

end Server
end NmMemcached
