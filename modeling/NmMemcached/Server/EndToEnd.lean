import NmMemcached.Server.Mysql
import NmMemcached.Server.Requests

/-!
# EndToEnd — from a SET through MySQL and the binary log to a GET

A run of SETs and the loop over the log it leaves determine the table (`tracks_sets`): a key that
was set once shows the bytes MySQL stored, a key that was set again shows nothing.  Clients read
back what they stored exactly when neither the second SET nor the missing zeros of the statement
come in between (`storeCorrect_iff`).
-/

namespace NmMemcached
namespace Server

open Lib Base Net Table

/-! ## The loop over what one statement logs -/

theorem runM_others (st : EventLoop) {es : List BinaryLogEvent} (h : ∀ e ∈ es, e = .other) :
    runM onEvent st es = .ok st := by
  induction es with
  | nil =>
      rfl
  | cons e es ih =>
      have he : e = .other := h e (by simp)
      have hes : ∀ e' ∈ es, e' = .other := fun e' he' => h e' (List.mem_cons_of_mem _ he')
      exact (runM_cons_ok onEvent).2 ⟨st, by rw [he]; rfl, ih hes⟩

/-- The loop applies the rows event of the statement. -/
theorem runM_logged (st : EventLoop) {chunk : List BinaryLogEvent} {ev : RowsEvent}
    (h : Logged chunk ev) {tbl : Val} (hrows : rowLoop st.tbl ev = .ok tbl) :
    ∃ map, runM onEvent st chunk = .ok { tmpevent := some map, tbl := tbl } := by
  rcases h with ⟨before, between, after, hother, rfl⟩
  have hb : ∀ e ∈ before, e = .other := fun e he => hother e (by simp [he])
  have hm : ∀ e ∈ between, e = .other := fun e he => hother e (by simp [he])
  have ha : ∀ e ∈ after, e = .other := fun e he => hother e (by simp [he])
  let map : TableMapEvent := { tableId := ev.tableId, tblnam := tblKvs }
  have hmap : onEvent st (.tableMap map) = .ok { st with tmpevent := some map } := rfl
  have hev : onEvent { st with tmpevent := some map } (.rows ev) =
      .ok { tmpevent := some map, tbl := tbl } := by
    simp only [onEvent]
    exact bind_ok_iff.2 ⟨tbl, hrows, rfl⟩
  refine ⟨map, ?_⟩
  refine (runM_append_ok onEvent).2 ⟨_, ?_, runM_others _ ha⟩
  refine (runM_append_ok onEvent).2 ⟨{ st with tmpevent := some map }, ?_, ?_⟩
  · refine (runM_append_ok onEvent).2 ⟨_, ?_, runM_others _ hm⟩
    refine (runM_append_ok onEvent).2 ⟨st, runM_others _ hb, ?_⟩
    rw [runM_singleton, hmap]
  · rw [runM_singleton, hev]

theorem key_of_isRow {row : RowOfFields} {key : Nat} {val : List UInt8} (hkey : key < tableSize)
    (h : IsRow row key val) : rowKey row = some key ∧ rowItem row = itemOfBlob val := by
  rcases h with ⟨idf, keyf, valf, rfl, hlong, hblob⟩
  have hread := readRow_three idf keyf valf
  have hto : toKey keyf.toLong = key := by
    rw [tableSize_eq] at hkey
    rw [toKey, hlong]
    omega
  refine ⟨?_, ?_⟩
  · simp [rowKey, hread, hto]
  · simp [rowItem, hread, hblob]

/-- The row loop adds the row of a WRITE event. -/
theorem rowLoop_write (tbl : Val) {tableId key : Nat} {row : RowOfFields} {val : List UInt8}
    (hkey : key < tableSize) (h : IsRow row key val) :
    rowLoop tbl ⟨.write, tableId, row, []⟩ = .ok (tbl.apply (.add key (itemOfBlob val))) := by
  rcases key_of_isRow hkey h with ⟨hk, hitem⟩
  have himages : RowsEvent.images ⟨.write, tableId, row, []⟩ = [⟨.write, row⟩] := rfl
  refine rowLoop_ok_iff.2 ⟨?_, ?_⟩
  · intro img himg
    rw [himages, List.mem_singleton] at himg
    exact Or.inr ⟨key, by rw [himg]; exact hk, hkey⟩
  · simp [himages, Image.next, Image.update, hk, hitem]

/-- The row loop deletes the key of an UPDATE event with one pair of images: the before image is
skipped, and the after image is taken for an item that is not valid. -/
theorem rowLoop_update (tbl : Val) {tableId key : Nat} {row row' : RowOfFields}
    {old val : List UInt8} (hkey : key < tableSize) (h : IsRow row key old)
    (h' : IsRow row' key val) :
    rowLoop tbl ⟨.update, tableId, row, [row']⟩ = .ok (tbl.apply (.del key)) := by
  have hk := (key_of_isRow hkey h).1
  have hk' := (key_of_isRow hkey h').1
  have himages : RowsEvent.images ⟨.update, tableId, row, [row']⟩ =
      [⟨.leading, row⟩, ⟨.after, row'⟩] := rfl
  refine rowLoop_ok_iff.2 ⟨?_, ?_⟩
  · intro img himg
    have hcase : img = ⟨.leading, row⟩ ∨ img = ⟨.after, row'⟩ := by
      simpa [himages] using himg
    rcases hcase with rfl | rfl
    · exact Or.inl rfl
    · exact Or.inr ⟨key, hk', hkey⟩
  · simp [himages, Image.next, Image.update, hk, hk']

/-! ## A run of SETs -/

section Sets

variable {Db : Type} (my : Mysql Db) (srv : Server Db)

/-- One SET that is answered with status 0. -/
def setStep (db : Db) (pkt : Packet) : Except String Db :=
  if Response.ofPacket (onRecieve srv pkt db).2.1 = some ⟨0, [], []⟩ then
    .ok (onRecieve srv pkt db).2.2
  else
    .error "not answered with status 0"

/-- The SETs on a key. -/
def setsOn (k : Nat) (sets : List Packet) : List Packet :=
  sets.filter fun pkt => decide (requestKey pkt = k)

/-- What the table shows for a key, from the SETs on it. -/
def shownAfter : List Packet → Option NmmcItem
  | [] => some NmmcItem.zeroed
  | [pkt] => some (Item.setValid statOn (itemOfBlob (Hex.literal (hexval pkt))))
  | _ => none

theorem setsOn_append_singleton (k : Nat) (sets : List Packet) (pkt : Packet) :
    setsOn k (sets ++ [pkt]) =
      if requestKey pkt = k then setsOn k sets ++ [pkt] else setsOn k sets := by
  by_cases h : requestKey pkt = k <;> simp [setsOn, h]

theorem shownAfter_append_of_ne_nil {sets : List Packet} (h : sets ≠ []) (pkt : Packet) :
    shownAfter (sets ++ [pkt]) = none := by
  rcases List.exists_cons_of_ne_nil h with ⟨p, rest, rfl⟩
  cases rest <;> rfl

/-- The table the loop has built shows what the SETs say, and kvs knows which keys were set. -/
def Tracks (sets : List Packet) (db : Db) : Prop :=
  (∃ st, binLogLoop (my.binlog db) = .ok st ∧
    ∀ k < tableSize, st.tbl.shown k = shownAfter (setsOn k sets)) ∧
  ∀ k, my.kvs db k = none ↔ setsOn k sets = []

/-- A log without rows events leaves the table as it was. -/
theorem binLogLoop_of_no_rows {log : List BinaryLogEvent} (h : ∀ e ∈ log, ∀ ev, e ≠ .rows ev) :
    ∃ st, binLogLoop log = .ok st ∧ st.tbl = LookupTable.clear := by
  induction log using List.reverseRecOn with
  | nil =>
      exact ⟨_, rfl, rfl⟩
  | append_singleton log e ih =>
      rcases ih fun e' he' => h e' (by simp [he']) with ⟨st, hst, htbl⟩
      have hstep : ∃ st', onEvent st e = .ok st' ∧ st'.tbl = st.tbl := by
        cases e with
        | tableMap ev =>
            by_cases hlike : strncaseeq tblKvs.length tblKvs ev.tblnam = true <;>
              simp [onEvent, hlike]
        | rows ev => exact absurd rfl (h _ (by simp) ev)
        | other => exact ⟨st, rfl, rfl⟩
      rcases hstep with ⟨st', he, htbl'⟩
      refine ⟨st', ?_, htbl'.trans htbl⟩
      refine (runM_append_ok onEvent).2 ⟨st, hst, ?_⟩
      rw [runM_singleton, he]

theorem tracks_start {db : Db} (hkvs : my.kvs db = Kvs.empty)
    (hlog : ∀ e ∈ my.binlog db, ∀ ev, e ≠ .rows ev) : Tracks my [] db := by
  rcases binLogLoop_of_no_rows hlog with ⟨st, hst, htbl⟩
  refine ⟨⟨st, hst, ?_⟩, ?_⟩
  · intro k hk
    have hempty : ∀ op ∈ ([] : List (LookupTable.Update NmmcItem)), op.key < tableSize := by simp
    rw [htbl]
    exact LookupTable.shown_run_of_none hempty hk rfl
  · intro k
    simp [hkvs, Kvs.empty, setsOn]

variable {my} {srv}

/-- A chunk of the log that changes one key of the table. -/
theorem tracks_of_chunk {sets : List Packet} {pkt : Packet} {db db' : Db} {st : EventLoop}
    (hst : binLogLoop (my.binlog db) = .ok st)
    (hshown : ∀ k < tableSize, st.tbl.shown k = shownAfter (setsOn k sets))
    {chunk : List BinaryLogEvent} {ev : RowsEvent} (hlogged : Logged chunk ev)
    (hlog : my.binlog db' = my.binlog db ++ chunk) {op : LookupTable.Update NmmcItem}
    (hop : op.key = requestKey pkt) (hrows : rowLoop st.tbl ev = .ok (st.tbl.apply op))
    (hnew : (st.tbl.apply op).shown (requestKey pkt) =
      shownAfter (setsOn (requestKey pkt) sets ++ [pkt])) :
    ∃ st', binLogLoop (my.binlog db') = .ok st' ∧
      ∀ k < tableSize, st'.tbl.shown k = shownAfter (setsOn k (sets ++ [pkt])) := by
  rcases runM_logged st hlogged hrows with ⟨map, hrun⟩
  refine ⟨{ tmpevent := some map, tbl := st.tbl.apply op }, ?_, ?_⟩
  · rw [hlog]
    exact (runM_append_ok onEvent).2 ⟨st, hst, hrun⟩
  · intro k hk
    rw [setsOn_append_singleton]
    by_cases hkey : requestKey pkt = k
    · subst hkey
      simpa using hnew
    · have hne : k ≠ op.key := fun h => hkey (hop ▸ h.symm)
      rw [if_neg hkey, ← hshown k hk]
      exact (LookupTable.find_apply_of_ne tableSize_pos hne).2

/-- Status 0 in the answer means that MySQL took the statement. -/
theorem setStep_ok (hsrv : srv.mysqlQuery = my.query) {db db' : Db} {pkt : Packet}
    (hreq : SetRequest pkt) (hstep : setStep srv db pkt = .ok db') :
    (my.query db (setStatement (requestKey pkt) (hexval pkt))).1 = 0 ∧
      db' = (my.query db (setStatement (requestKey pkt) (hexval pkt))).2 := by
  have hanswer : Response.ofPacket (onRecieve srv pkt db).2.1 = some ⟨0, [], []⟩ := by
    by_contra hno
    rw [setStep, if_neg hno] at hstep
    contradiction
  constructor
  · rw [← hsrv]
    exact (status_onRecieve_set srv db hreq).1 hanswer
  · rw [setStep, if_pos hanswer, snd_snd_of_eq (onRecieve_set srv db hreq), hsrv] at hstep
    exact (Except.ok.inj hstep).symm

/-- One answered SET. -/
theorem tracks_setStep (hmy : my.Documented) (hsrv : srv.mysqlQuery = my.query)
    {sets : List Packet} {db db' : Db} (h : Tracks my sets db) {pkt : Packet}
    (hreq : SetRequest pkt) (hstep : setStep srv db pkt = .ok db') :
    Tracks my (sets ++ [pkt]) db' := by
  rcases h with ⟨⟨st, hst, hshown⟩, hkvs⟩
  have hkey := requestKey_lt pkt
  have hdigits := hexval_ne_nil hreq
  have hhex := isDigit_hexval pkt
  rcases setStep_ok hsrv hreq hstep with ⟨hok, hdb⟩
  have hadd : ∀ k (itm : NmmcItem), (LookupTable.Update.add k itm).key = k := fun _ _ => rfl
  have hdel : ∀ k, (LookupTable.Update.del k : LookupTable.Update NmmcItem).key = k := fun _ => rfl
  subst hdb
  refine ⟨?_, ?_⟩
  · cases hold : my.kvs db (requestKey pkt) with
    | none =>
        -- A key without a row was never set: the loop adds the item.
        have hnil := (hkvs (requestKey pkt)).1 hold
        rcases hmy.logsWrite db _ _ hkey hdigits hhex hok hold with
          ⟨chunk, tableId, row, hlogged, hrow, hlog⟩
        refine tracks_of_chunk hst hshown hlogged hlog (hadd _ _)
          (rowLoop_write st.tbl hkey hrow) ?_
        rw [hnil]
        exact LookupTable.shown_apply_add st.tbl hkey _
    | some old =>
        -- A key with a row was set before: the loop deletes it.
        have hne : setsOn (requestKey pkt) sets ≠ [] := by
          intro hnil
          rw [(hkvs _).2 hnil] at hold
          contradiction
        rcases hmy.logsUpdate db _ _ old hkey hdigits hhex hok hold with
          ⟨chunk, tableId, row, row', hlogged, hrow, hrow', hlog⟩
        refine tracks_of_chunk hst hshown hlogged hlog (hdel _)
          (rowLoop_update st.tbl hkey hrow hrow') ?_
        rw [shownAfter_append_of_ne_nil hne]
        exact LookupTable.shown_apply_del st.tbl hkey
  · intro k
    rw [hmy.stores db _ _ hkey hdigits hhex hok, setsOn_append_singleton]
    by_cases hk : requestKey pkt = k
    · subst hk
      simp
    · have hk' : k ≠ requestKey pkt := fun h => hk h.symm
      simpa [Function.update_of_ne hk', hk] using hkvs k

/-- The table after a run of SETs and the loop over the log it leaves. -/
theorem tracks_sets (hmy : my.Documented) (hsrv : srv.mysqlQuery = my.query) {db₀ db : Db}
    (hkvs : my.kvs db₀ = Kvs.empty) (hlog : ∀ e ∈ my.binlog db₀, ∀ ev, e ≠ .rows ev)
    {sets : List Packet} (hreq : ∀ pkt ∈ sets, SetRequest pkt)
    (hrun : runM (setStep srv) db₀ sets = .ok db) : Tracks my sets db := by
  have hstart : (∀ pkt ∈ ([] : List Packet), SetRequest pkt) → Tracks my [] db₀ :=
    fun _ => tracks_start my hkvs hlog
  refine runM_history (P := fun sets db => (∀ pkt ∈ sets, SetRequest pkt) → Tracks my sets db)
    hstart ?_ hrun hreq
  intro sets db pkt db' _ ih hstep hreq
  have hold : ∀ p ∈ sets, SetRequest p := fun p hp => hreq p (by simp [hp])
  exact tracks_setStep hmy hsrv (ih hold) (hreq pkt (by simp)) hstep

/-! ## Reading back -/

/-- What a client reads: a value, or not found. -/
def Reads (srv : Server Db) (pkt : Packet) (db : Db) : Option (List UInt8) → Prop
  | some v => ∃ extras,
      Response.ofPacket (onRecieve srv pkt db).2.1 = some ⟨0, extras, v⟩
  | none => Response.ofPacket (onRecieve srv pkt db).2.1 = some ⟨1, [], notfound⟩

theorem reads_unique {pkt : Packet} {db : Db} {v w : Option (List UInt8)}
    (hv : Reads srv pkt db v) (hw : Reads srv pkt db w) : v = w := by
  cases v with
  | none =>
      cases w with
      | none => rfl
      | some w =>
          rcases hw with ⟨extras, hw⟩
          have heq := hv.symm.trans hw
          simp at heq
  | some v =>
      rcases hv with ⟨extras, hv⟩
      cases w with
      | none =>
          have heq := hv.symm.trans hw
          simp at heq
      | some w =>
          rcases hw with ⟨extras', hw⟩
          have heq := hv.symm.trans hw
          simp only [Option.some.injEq, Response.mk.injEq] at heq
          rw [heq.2.2]

/-- A GET answers with what the table shows. -/
theorem reads_of_shows {pkt : Packet} (db : Db) (hget : GetRequest pkt) {v : Option (List UInt8)}
    (hpos : ∀ w, v = some w → 1 ≤ w.length) (h : Shows srv.lookupValue (requestKey pkt) v) :
    Reads srv pkt db v := by
  cases v with
  | none =>
      have hreply : (onRecieve srv pkt db).2.1 = replyNotfound pkt := by
        rw [reply_onRecieve_get srv db hget, reply_onRecieveGet]
        cases hshown : srv.lookupValue.shown (requestKey pkt) with
        | none => rfl
        | some it => exact if_pos (h it hshown)
      rw [Reads, hreply, ofPacket_replyNotfound]
  | some v =>
      rcases h with ⟨it, hshown, hlen, hcopy⟩
      have hne : it.datalen ≠ 0#11 := by
        intro hzero
        have hv := hpos v rfl
        rw [hzero] at hlen
        simp at hlen
        omega
      have hreply : (onRecieve srv pkt db).2.1 =
          replyFound pkt it (srv.behind (srv.lookupValue.find (requestKey pkt) 0)) := by
        rw [reply_onRecieve_get srv db hget, reply_onRecieveGet, hshown]
        exact if_neg hne
      refine ⟨Mem.le32Bytes it.expire, ?_⟩
      rw [hreply, ofPacket_replyFound, hcopy]

/-- What the table holds for a key, from the SETs on it. -/
def heldAfter : List Packet → Option (List UInt8)
  | [pkt] => some (Hex.literal (hexval pkt))
  | _ => none

theorem shows_heldAfter {tbl : Val} {k : Nat} {sets : List Packet}
    (hreq : ∀ p ∈ sets, SetRequest p) (hshown : tbl.shown k = shownAfter sets) :
    Shows tbl k (heldAfter sets) := by
  match sets with
  | [] =>
      intro it hit
      have hzeroed : NmmcItem.zeroed = it := by
        simpa [hshown, shownAfter] using hit
      rw [← hzeroed]
      rfl
  | [p] => exact shows_itemOfBlob (length_literal_hexval (hreq p (by simp))).2 hshown
  | _ :: _ :: _ =>
      intro it hit
      simp [hshown, shownAfter] at hit

/-- The table holds the last value exactly when the key was set at most once, with a value whose
bytes after the first need two hexadecimal digits. -/
theorem heldAfter_eq_last_iff {sets : List Packet} (hreq : ∀ p ∈ sets, SetRequest p) :
    heldAfter sets = sets.getLast?.map requestValue ↔
      sets.length ≤ 1 ∧ ∀ p ∈ sets, ∀ b ∈ (requestValue p).tail, 16 ≤ b.toNat := by
  match sets with
  | [] => simp [heldAfter]
  | [p] => simpa [heldAfter] using literal_hexval_iff (hreq p (by simp))
  | p :: q :: rest => simp [heldAfter, List.getLast?_cons]

/-- A GET for any key reads the last value that was set for it, or not found. -/
def StoreCorrect (srv : Server Db) (tbl : Val) (sets : List Packet) : Prop :=
  ∀ (pkt : Packet) (db : Db), GetRequest pkt →
    Reads { srv with lookupValue := tbl } pkt db
      ((lastOn (fun p => decide (requestKey p = requestKey pkt)) sets).map requestValue)

/-- A GET reads what the table holds. -/
theorem reads_heldAfter (srv : Server Db) {tbl : Val} {sets : List Packet}
    (hreq : ∀ p ∈ sets, SetRequest p) {pkt : Packet} (db : Db) (hget : GetRequest pkt)
    (hshown : tbl.shown (requestKey pkt) = shownAfter (setsOn (requestKey pkt) sets)) :
    Reads { srv with lookupValue := tbl } pkt db (heldAfter (setsOn (requestKey pkt) sets)) := by
  have hon : ∀ p ∈ setsOn (requestKey pkt) sets, SetRequest p :=
    fun p hp => hreq p (List.mem_filter.1 hp).1
  refine reads_of_shows db hget ?_ (shows_heldAfter hon hshown)
  intro w hw
  match hsets : setsOn (requestKey pkt) sets with
  | [] => simp [hsets, heldAfter] at hw
  | [p] =>
      have hlit : Hex.literal (hexval p) = w := by
        simpa [hsets, heldAfter] using hw
      rw [← hlit]
      exact (length_literal_hexval (hon p (by simp [hsets]))).1
  | _ :: _ :: _ => simp [hsets, heldAfter] at hw

/-- What is read is the last value exactly when the table holds it. -/
theorem storeCorrect_iff_held [Nonempty Db] {tbl : Val} {sets : List Packet}
    (hreq : ∀ p ∈ sets, SetRequest p)
    (hshown : ∀ k < tableSize, tbl.shown k = shownAfter (setsOn k sets)) :
    StoreCorrect srv tbl sets ↔
      ∀ k < tableSize, heldAfter (setsOn k sets) = (setsOn k sets).getLast?.map requestValue := by
  constructor
  · intro h k hk
    rcases getRequest_getBytes hk with ⟨hget, hkey⟩
    have db : Db := Classical.choice inferInstance
    -- One GET for the key tells what is held from what was set.
    have hheld := reads_heldAfter srv hreq db hget (hshown _ (requestKey_lt _))
    have heq := reads_unique hheld (h _ db hget)
    rw [hkey, lastOn_eq_getLast?_filter] at heq
    exact heq
  · intro h pkt db hget
    have heq := h (requestKey pkt) (requestKey_lt pkt)
    rw [lastOn_eq_getLast?_filter]
    exact heq ▸ reads_heldAfter srv hreq db hget (hshown _ (requestKey_lt pkt))

/-- A list has no key twice when every key has at most one SET. -/
theorem nodup_iff_setsOn {sets : List Packet} :
    (sets.map requestKey).Nodup ↔ ∀ k < tableSize, (setsOn k sets).length ≤ 1 := by
  have hcount : ∀ k, (sets.map requestKey).count k = (setsOn k sets).length := by
    intro k
    rw [List.count_eq_countP, List.countP_map, List.countP_eq_length_filter]
    rfl
  rw [List.nodup_iff_count]
  constructor
  · intro h k _
    exact hcount k ▸ h k
  · intro h k
    by_cases hk : k < tableSize
    · exact hcount k ▸ h k hk
    · have hnot : k ∉ sets.map requestKey := by
        intro hmem
        rcases List.mem_map.1 hmem with ⟨p, _, rfl⟩
        exact hk (requestKey_lt p)
      rw [List.count_eq_zero_of_not_mem hnot]
      exact Nat.zero_le 1

/-- From an empty kvs, after any SETs that were answered with status 0 and the loop over their
events: the clients read what they stored exactly when no key was set twice and no byte after the
first of a value is below 16. -/
theorem storeCorrect_iff (my : Mysql Db) (srv : Server Db) (hmy : my.Documented)
    (hsrv : srv.mysqlQuery = my.query) {db₀ db : Db} (hkvs : my.kvs db₀ = Kvs.empty)
    (hlog : ∀ e ∈ my.binlog db₀, ∀ ev, e ≠ .rows ev) {sets : List Packet}
    (hreq : ∀ pkt ∈ sets, SetRequest pkt) (hrun : runM (setStep srv) db₀ sets = .ok db) :
    ∃ st, binLogLoop (my.binlog db) = .ok st ∧
      (StoreCorrect srv st.tbl sets ↔
        (sets.map requestKey).Nodup ∧
          ∀ p ∈ sets, ∀ b ∈ (requestValue p).tail, 16 ≤ b.toNat) := by
  rcases (tracks_sets hmy hsrv hkvs hlog hreq hrun).1 with ⟨st, hst, hshown⟩
  have hdb : Nonempty Db := ⟨db⟩
  refine ⟨st, hst, ?_⟩
  have hon : ∀ k, ∀ p ∈ setsOn k sets, SetRequest p :=
    fun k p hp => hreq p (List.mem_filter.1 hp).1
  rw [storeCorrect_iff_held hreq hshown, nodup_iff_setsOn]
  constructor
  · intro h
    refine ⟨fun k hk => ((heldAfter_eq_last_iff (hon k)).1 (h k hk)).1, ?_⟩
    intro p hp
    have hlast := (heldAfter_eq_last_iff (hon _)).1 (h (requestKey p) (requestKey_lt p))
    exact hlast.2 p (List.mem_filter.2 ⟨hp, by simp⟩)
  · rintro ⟨honce, hfull⟩ k hk
    refine (heldAfter_eq_last_iff (hon k)).2 ⟨honce k hk, ?_⟩
    intro p hp
    exact hfull p (List.mem_filter.1 hp).1

end Sets

/-! ## Runs over the engine in memory -/

def memServer : Server MemDb :=
  { lookupValue := LookupTable.clear
    behind := fun _ _ => 0
    mysqlQuery := MemDb.query }

theorem memMysql_no_rows : ∀ e ∈ memMysql.binlog {}, ∀ ev, e ≠ .rows ev := by
  intro e he
  exact absurd he List.not_mem_nil

/-- The engine answers every SET with status 0. -/
theorem setStep_memServer (db : MemDb) {pkt : Packet} (h : SetRequest pkt) :
    ∃ db', setStep memServer db pkt = .ok db' := by
  have hok : Response.ofPacket (onRecieve memServer pkt db).2.1 = some ⟨0, [], []⟩ :=
    (status_onRecieve_set memServer db h).2 rfl
  exact ⟨_, if_pos hok⟩

theorem runM_memServer {sets : List Packet} (h : ∀ pkt ∈ sets, SetRequest pkt) (db : MemDb) :
    ∃ db', runM (setStep memServer) db sets = .ok db' := by
  induction sets generalizing db with
  | nil =>
      exact ⟨db, rfl⟩
  | cons pkt sets ih =>
      rcases setStep_memServer db (h pkt (by simp)) with ⟨m, hm⟩
      rcases ih (fun p hp => h p (List.mem_cons_of_mem _ hp)) m with ⟨db', hrest⟩
      exact ⟨db', (runM_cons_ok _).2 ⟨m, hm, hrest⟩⟩

/-- What the clients of the engine read. -/
theorem reads_memServer {sets : List Packet} (hreq : ∀ pkt ∈ sets, SetRequest pkt) :
    ∃ db st, runM (setStep memServer) {} sets = .ok db ∧ binLogLoop db.binlog = .ok st ∧
      ∀ k < tableSize, Reads { memServer with lookupValue := st.tbl } (packetOf (getBytes k)) db
        (heldAfter (setsOn k sets)) := by
  rcases runM_memServer hreq {} with ⟨db, hrun⟩
  rcases (tracks_sets memMysql_documented rfl rfl memMysql_no_rows hreq hrun).1 with
    ⟨st, hst, hshown⟩
  refine ⟨db, st, hrun, hst, ?_⟩
  intro k hk
  rcases getRequest_getBytes hk with ⟨hget, hkey⟩
  have hread := reads_heldAfter memServer hreq db hget (hshown _ (requestKey_lt _))
  rwa [hkey] at hread

/-- Two keys, with a value of two full bytes and a value of one byte below 16. -/
theorem storeCorrect_iff_two_keys :
    ∃ db st,
      runM (setStep memServer) {} [packetOf (setBytes 5 [0xaa, 0xbb]), packetOf (setBytes 6 [1])] =
          .ok db ∧
        binLogLoop db.binlog = .ok st ∧
        StoreCorrect memServer st.tbl
          [packetOf (setBytes 5 [0xaa, 0xbb]), packetOf (setBytes 6 [1])] := by
  have hfive := setRequest_setBytes (k := 5) (by decide) [0xaa, 0xbb] (by decide)
    (by decide)
  have hsix := setRequest_setBytes (k := 6) (by decide) [1] (by decide) (by decide)
  have hreq : ∀ pkt ∈ [packetOf (setBytes 5 [0xaa, 0xbb]), packetOf (setBytes 6 [1])],
      SetRequest pkt := by
    simp only [List.forall_mem_cons]
    exact ⟨hfive.1, hsix.1, by simp⟩
  rcases runM_memServer hreq {} with ⟨db, hrun⟩
  rcases storeCorrect_iff memMysql memServer memMysql_documented rfl rfl memMysql_no_rows hreq
    hrun with ⟨st, hst, hiff⟩
  refine ⟨db, st, hrun, hst, hiff.2 ⟨?_, ?_⟩⟩
  · simp only [List.map_cons, List.map_nil, hfive.2.1, hsix.2.1]
    decide
  · simp [hfive.2.2, hsix.2.2]

/-- A key that is set twice is not found, and a value with a byte below 16 behind its first byte
is read back as another one. -/
theorem storedValues_not_read_back :
    (∃ db st,
      runM (setStep memServer) {} [packetOf (setBytes 5 [0xaa]), packetOf (setBytes 5 [0xbb])] =
          .ok db ∧
        binLogLoop db.binlog = .ok st ∧
        Reads { memServer with lookupValue := st.tbl } (packetOf (getBytes 5)) db none ∧
        ¬ StoreCorrect memServer st.tbl
          [packetOf (setBytes 5 [0xaa]), packetOf (setBytes 5 [0xbb])]) ∧
    ∃ db st,
      runM (setStep memServer) {} [packetOf (setBytes 5 [0x11, 0x02])] = .ok db ∧
        binLogLoop db.binlog = .ok st ∧
        Reads { memServer with lookupValue := st.tbl } (packetOf (getBytes 5)) db
          (some [0x01, 0x12]) ∧
        ¬ StoreCorrect memServer st.tbl [packetOf (setBytes 5 [0x11, 0x02])] := by
  rcases getRequest_getBytes (k := 5) (by decide) with ⟨hget, hkey⟩
  refine ⟨?_, ?_⟩
  · have hfirst := setRequest_setBytes (k := 5) (by decide) [0xaa] (by decide) (by decide)
    have hsecond := setRequest_setBytes (k := 5) (by decide) [0xbb] (by decide)
      (by decide)
    have hreq : ∀ pkt ∈ [packetOf (setBytes 5 [0xaa]), packetOf (setBytes 5 [0xbb])],
        SetRequest pkt := by
      simp only [List.forall_mem_cons]
      exact ⟨hfirst.1, hsecond.1, by simp⟩
    rcases reads_memServer hreq with ⟨db, st, hrun, hst, hreads⟩
    have hread := hreads 5 (by decide)
    have hheld : heldAfter (setsOn 5 [packetOf (setBytes 5 [0xaa]), packetOf (setBytes 5 [0xbb])]) =
        none := by
      simp [setsOn, hfirst.2.1, hsecond.2.1, heldAfter]
    rw [hheld] at hread
    refine ⟨db, st, hrun, hst, hread, ?_⟩
    intro hcorrect
    have heq := reads_unique hread (hcorrect _ db hget)
    simp [lastOn, hkey, hsecond.2.1] at heq
  · have hset := setRequest_setBytes (k := 5) (by decide) [0x11, 0x02] (by decide)
      (by decide)
    have hreq : ∀ pkt ∈ [packetOf (setBytes 5 [0x11, 0x02])], SetRequest pkt := by
      simp only [List.forall_mem_cons]
      exact ⟨hset.1, by simp⟩
    rcases reads_memServer hreq with ⟨db, st, hrun, hst, hreads⟩
    have hread := hreads 5 (by decide)
    have hlit : Hex.literal (Hex.short [0x11, 0x02]) = [0x01, 0x12] := by decide
    have hheld : heldAfter (setsOn 5 [packetOf (setBytes 5 [0x11, 0x02])]) =
        some [0x01, 0x12] := by
      simp [setsOn, hset.2.1, heldAfter, hexval, hset.2.2, hlit]
    rw [hheld] at hread
    refine ⟨db, st, hrun, hst, hread, ?_⟩
    intro hcorrect
    have heq := reads_unique hread (hcorrect _ db hget)
    simp [lastOn, hkey, hset.2.1, hset.2.2] at heq

end Server
end NmMemcached
