import NmMemcached.Server.Replies
import NmMemcached.Server.Rows

/-!
# Lengths — what a stored length promises

The row loop copies at most `ITEM_LEN` bytes of a blob and stores the length of the whole blob in
11 bits.  To compare the two, every item of the table is traced to the blob it was built from: the
*origins* are a second family of registers that takes the same updates as the table and holds
blobs instead of items (`origins`).  Table and origins stay in step in every run (`inStep_run`).

An item can be trusted exactly when the length of its blob is at most `ITEM_LEN` or is `ITEM_LEN`
modulo 2048 (`trusted_iff_fitting`), so a run over such blobs reaches trusted items only, and a GET
answers with the bytes of a blob whatever the heap holds behind the item.
-/

namespace NmMemcached
namespace Server

open Lib Base Net Table

/-! ## The blob of a row -/

/-- The blob of the column `VALUE`; `none` when the row has no such column or it is null. -/
def rowBlob (row : RowOfFields) : Option (List UInt8) :=
  row[kvsColValue]?.bind Field.asBlob

/-- The item built from a blob, or the zeroed item. -/
def itemOf : Option (List UInt8) → NmmcItem
  | none => NmmcItem.zeroed
  | some blob => itemOfBlob blob

theorem itm_onColumns_of_gt (loc : RowLocals) {colid : Nat} (h : kvsColValue < colid)
    (row : RowOfFields) : (onColumns loc colid row).itm = loc.itm := by
  induction row generalizing loc colid with
  | nil =>
      rfl
  | cons itf itfs ih =>
      have hkey : colid ≠ kvsColKey := by
        have : kvsColKey < kvsColValue := by decide
        omega
      have hval : colid ≠ kvsColValue := by omega
      have hrest := ih (onColumn loc colid itf) (Nat.lt_succ_of_lt h)
      simpa [onColumns, onColumn, hkey, hval] using hrest

/-- Only the column `VALUE` touches the item. -/
theorem rowItem_eq (row : RowOfFields) : rowItem row = itemOf (rowBlob row) := by
  match row with
  | [] => rfl
  | [_] => rfl
  | [_, _] => rfl
  | idf :: key :: val :: rest =>
      have hlt : kvsColValue < 3 := by decide
      -- Columns behind `VALUE` do not count.
      have hrest := itm_onColumns_of_gt (readRow [idf, key, val]) hlt rest
      have hsplit : readRow (idf :: key :: val :: rest) =
          onColumns (readRow [idf, key, val]) 3 rest := rfl
      rw [rowItem, hsplit, hrest, readRow_three]
      rcases val with ⟨_, _ | blob⟩ <;> rfl

/-! ## Origins -/

/-- The blob behind every item of the table; `none` for an item no row has written. -/
abbrev Origins := Nat → TwoSlot (Option (List UInt8))

namespace Origins

def start : Origins := fun _ => { slot := fun _ => none, cur := false }

/-- What an image does to the origins: a WRITE row brings its blob, a deletion keeps the old one. -/
def next (o : Origins) (img : Image) : Origins :=
  match img.update with
  | none => o
  | some (.add key _) => TwoSlot.publishAt key (fun _ => rowBlob img.row) o
  | some (.del key) => TwoSlot.publishAt key id o

end Origins

def origins (imgs : List Image) : Origins := run Origins.next Origins.start imgs

/-- The item is the one the loop builds from the blob, up to its valid bit. -/
def BuiltFrom (it : NmmcItem) (blob : Option (List UInt8)) : Prop :=
  ∃ v, it = Item.setValid v (itemOf blob)

def InStep (tbl : Val) (o : Origins) : Prop := ∀ k, TwoSlot.Rel BuiltFrom (tbl.slots k) (o k)

theorem inStep_start : InStep LookupTable.clear Origins.start := by
  intro k
  rw [LookupTable.slots_clear]
  exact ⟨rfl, fun _ => ⟨0, rfl⟩⟩

/-- One image keeps table and origins in step. -/
theorem inStep_next {tbl : Val} {o : Origins} (h : InStep tbl o) {img : Image} (hfits : img.Fits) :
    InStep (Image.next tbl img) (Origins.next o img) := by
  intro k
  cases hupd : img.update with
  | none =>
      simpa [Image.next, Origins.next, hupd] using h k
  | some op =>
      have hkey : op.key < tableSize :=
        key_lt_of_update hupd hfits
      have hslots := LookupTable.slots_apply tbl hkey
      cases op with
      | add key itm =>
          -- The added item is the one built from the blob of the row.
          have hitm : itm = itemOf (rowBlob img.row) := by
            rw [← rowItem_eq]
            exact itm_of_update hupd
          have hrel := TwoSlot.rel_publishAt (R := BuiltFrom)
            (f := fun _ => Item.setValid statOn itm) (g := fun _ => rowBlob img.row)
            (fun _ _ _ => ⟨statOn, by rw [hitm]⟩) h key k
          simpa [Image.next, Origins.next, hupd, hslots, LookupTable.Update.write,
            LookupTable.Update.key] using hrel
      | del key =>
          -- A deletion clears the valid bit and keeps the data it hides.
          have hrel := TwoSlot.rel_publishAt (R := BuiltFrom) (f := Item.setValid statOff)
            (g := id) (fun _ _ hxy => by
              rcases hxy with ⟨_, rfl⟩
              exact ⟨statOff, rfl⟩) h key k
          simpa [Image.next, Origins.next, hupd, hslots, LookupTable.Update.write,
            LookupTable.Update.key] using hrel

theorem inStep_run {imgs : List Image} (hfits : ∀ img ∈ imgs, img.Fits) :
    InStep (run Image.next LookupTable.clear imgs) (origins imgs) := by
  induction imgs using List.reverseRecOn with
  | nil =>
      exact inStep_start
  | append_singleton imgs img ih =>
      have hold : ∀ img' ∈ imgs, img'.Fits := fun img' h => hfits img' (by simp [h])
      simpa [origins] using inStep_next (ih hold) (hfits img (by simp))

/-! ## Trusted items -/

/-- The stored length is the length of the blob, cut at `ITEM_LEN`, and that many bytes of the
item are the bytes of the blob. -/
def Trusted (it : NmmcItem) (blob : Option (List UInt8)) : Prop :=
  it.datalen.toNat = min (blob.getD []).length itemLen ∧
    ∀ behind, it.copyData behind it.datalen.toNat = (blob.getD []).take itemLen

/-- The lengths that survive the 11 bits. -/
def Fitting (blob : Option (List UInt8)) : Prop :=
  (blob.getD []).length ≤ itemLen ∨ (blob.getD []).length % 2048 = itemLen

theorem datalen_itemOf (blob : Option (List UInt8)) :
    (itemOf blob).datalen.toNat = (blob.getD []).length % 2048 := by
  cases blob with
  | none =>
      rfl
  | some bs =>
      simp [itemOf, itemOfBlob]

theorem copyData_itemOf (blob : Option (List UInt8)) (behind : Nat → UInt8) {n : Nat}
    (hn : n ≤ min (blob.getD []).length itemLen) :
    (itemOf blob).copyData behind n = (blob.getD []).take n := by
  cases blob with
  | none =>
      have hzero : n = 0 := by simpa using hn
      subst hzero
      rfl
  | some bs =>
      exact copyData_itemOfBlob bs behind hn

theorem mod_eq_min_iff (len : Nat) :
    len % 2048 = min len itemLen ↔ len ≤ itemLen ∨ len % 2048 = itemLen := by
  unfold itemLen
  omega

/-- An item can be trusted exactly when the length of its blob fits. -/
theorem trusted_iff_fitting {it : NmmcItem} {blob : Option (List UInt8)}
    (h : BuiltFrom it blob) : Trusted it blob ↔ Fitting blob := by
  rcases h with ⟨v, rfl⟩
  have hlen : (Item.setValid v (itemOf blob)).datalen.toNat = (blob.getD []).length % 2048 :=
    datalen_itemOf blob
  have hiff := mod_eq_min_iff (blob.getD []).length
  constructor
  · intro htrusted
    exact hiff.1 (hlen.symm.trans htrusted.1)
  · intro hfit
    have hmin := hlen.trans (hiff.2 hfit)
    refine ⟨hmin, ?_⟩
    intro behind
    rw [hmin]
    calc
      (Item.setValid v (itemOf blob)).copyData behind (min (blob.getD []).length itemLen)
          = (itemOf blob).copyData behind (min (blob.getD []).length itemLen) := rfl
      _ = (blob.getD []).take (min (blob.getD []).length itemLen) :=
          copyData_itemOf blob behind (Nat.le_refl _)
      _ = (blob.getD []).take itemLen := by
          rw [Nat.min_comm, ← List.take_take, List.take_length]

/-! ## Reachable tables -/

/-- The event cut after its first `n + 1` rows. -/
def RowsEvent.cut (ev : RowsEvent) (n : Nat) : RowsEvent := { ev with rest := ev.rest.take n }

/-- The rows the loop has met at some moment of a log: whole events, and a part of the next. -/
def Cut (log seen : List RowsEvent) : Prop :=
  seen = [] ∨ ∃ before ev after n, log = before ++ ev :: after ∧ seen = before ++ [ev.cut n]

/-- The table at some moment of the row loop over a log. -/
def Reached (log seen : List RowsEvent) (tbl : Val) : Prop :=
  Cut log seen ∧ runM rowLoop LookupTable.clear seen = .ok tbl

theorem imagesFrom_take (type : RowsEventType) (i n : Nat) (rows : List RowOfFields) :
    imagesFrom type i (rows.take n) = (imagesFrom type i rows).take n := by
  induction rows generalizing i n with
  | nil =>
      simp [imagesFrom]
  | cons row rows ih =>
      cases n with
      | zero =>
          rfl
      | succ n =>
          simp [imagesFrom, ih]

theorem images_cut (ev : RowsEvent) (n : Nat) : (ev.cut n).images = ev.images.take (n + 1) :=
  imagesFrom_take ev.type 0 (n + 1) ev.rows

theorem images_append_singleton (before : List RowsEvent) (ev : RowsEvent) :
    images (before ++ [ev]) = images before ++ ev.images := by
  simp [images]

/-- The loop has met every image at some moment, as the last one. -/
theorem exists_cut_of_mem {log : List RowsEvent} {img : Image} (h : img ∈ images log) :
    ∃ seen xs, Cut log seen ∧ images seen = xs ++ [img] ∧ images seen <+: images log := by
  rcases List.mem_flatMap.1 h with ⟨ev, hev, himg⟩
  rcases List.append_of_mem hev with ⟨before, after, rfl⟩
  rcases List.getElem_of_mem himg with ⟨j, hj, rfl⟩
  -- The moment right after the row of the image.
  have hcut : images (before ++ [ev.cut j]) = images before ++ ev.images.take (j + 1) := by
    rw [images_append_singleton, images_cut]
  refine ⟨before ++ [ev.cut j], images before ++ ev.images.take j, Or.inr ⟨before, ev, after, j,
    rfl, rfl⟩, ?_, ?_⟩
  · rw [hcut, List.take_succ_eq_append_getElem hj, List.append_assoc]
  · have hall : images (before ++ ev :: after) = images before ++ (ev.images ++ images after) := by
      simp [images]
    rw [hcut, hall]
    exact List.prefix_append_right_inj _ |>.2
      ((List.take_prefix _ _).trans (List.prefix_append _ _))

/-- A moment of a moment of the log is a moment of the log. -/
theorem cut_trans {log seen seen' : List RowsEvent} (h : Cut log seen) (h' : Cut seen seen') :
    Cut log seen' := by
  rcases h' with rfl | ⟨before', ev', after', m, hseen, rfl⟩
  · exact Or.inl rfl
  · rcases h with rfl | ⟨before, ev, after, n, rfl, rfl⟩
    · simp at hseen
    · right
      -- The later cut is made in the event that was cut before, or in one in front of it.
      rcases split_append_singleton hseen with ⟨rfl, rfl, hev⟩ | ⟨middle, rfl, rfl⟩
      · have hcut : ev'.cut m = ev.cut (min m n) := by
          rw [hev]
          simp [RowsEvent.cut, List.take_take]
        exact ⟨before', ev, after, min m n, rfl, by rw [hcut]⟩
      · exact ⟨before', ev', middle ++ ev :: after, m, by simp, rfl⟩

/-- The blobs of the WRITE rows, the only rows that are added, fit. -/
def FittingWrites (imgs : List Image) : Prop :=
  ∀ img ∈ imgs, img.role = .write → Fitting (rowBlob img.row)

theorem role_of_update_add {img : Image} {key : Nat} {itm : NmmcItem}
    (h : img.update = some (.add key itm)) : img.role = .write := by
  rcases img with ⟨r, row⟩
  cases hkey : rowKey row <;> cases r <;> simp [Image.update, hkey] at h ⊢

/-- Every origin is the blob of a WRITE row, or no blob. -/
theorem fitting_origins {imgs : List Image} (hfit : FittingWrites imgs) :
    ∀ (k : Nat) (b : Bool), Fitting ((origins imgs k).slot b) := by
  induction imgs using List.reverseRecOn with
  | nil =>
      intro k b
      exact Or.inl (Nat.zero_le _)
  | append_singleton imgs img ih =>
      have hold := ih fun img' h => hfit img' (by simp [h])
      have hstep : origins (imgs ++ [img]) = Origins.next (origins imgs) img := by
        simp [origins]
      rw [hstep]
      cases hupd : img.update with
      | none =>
          simpa [Origins.next, hupd] using hold
      | some op =>
          cases op with
          | add key itm =>
              have hblob := hfit img (by simp) (role_of_update_add hupd)
              simpa [Origins.next, hupd] using
                TwoSlot.forall_slot_publishAt (fun _ _ => hblob) hold key
          | del key =>
              simpa [Origins.next, hupd] using
                TwoSlot.forall_slot_publishAt (f := id) (fun _ h => h) hold key

/-! ## The invariant over runs -/

/-- Every item, on either side of the table, can be trusted. -/
def AllTrusted (tbl : Val) (o : Origins) : Prop :=
  ∀ k b, Trusted ((tbl.slots k).slot b) ((o k).slot b)

/-- A GET finds nothing, or answers with the bytes of the blob behind the visible item. -/
def GetsOwnBytes (tbl : Val) (o : Origins) : Prop :=
  ∀ (σ : Type) (srv : Server σ) (pkt : Packet) (k : Nat), srv.lookupValue = tbl →
    Response.ofPacket (onRecieveGet srv pkt k).2 = some ⟨1, [], notfound⟩ ∨
      ∃ blob extras, (o k).front = some blob ∧
        Response.ofPacket (onRecieveGet srv pkt k).2 = some ⟨0, extras, blob.take itemLen⟩

/-- The table of a moment is in step with its origins. -/
theorem inStep_of_reached {log seen : List RowsEvent} {tbl : Val} (h : Reached log seen tbl) :
    InStep tbl (origins (images seen)) := by
  rcases runM_rowLoop_ok_iff.1 h.2 with ⟨hfits, rfl⟩
  exact inStep_run hfits

/-- An item a GET is shown is the front of its register. -/
theorem shown_eq_front {tbl : Val} {k : Nat} {it : NmmcItem} (h : tbl.shown k = some it) :
    it = (tbl.slots k).front := by
  by_cases hk : k < tableSize
  · rw [LookupTable.shown_of_lt hk] at h
    by_cases hv : Item.valid (tbl.slots k).front = statOn
    · rw [if_pos hv] at h
      exact (Option.some.inj h).symm
    · rw [if_neg hv] at h
      contradiction
  · rw [LookupTable.shown_of_le tableSize_pos (Nat.le_of_not_lt hk)] at h
    contradiction

theorem getsOwnBytes_of_allTrusted {tbl : Val} {o : Origins} (hstep : InStep tbl o)
    (h : AllTrusted tbl o) : GetsOwnBytes tbl o := by
  intro σ srv pkt k htbl
  have hget := onRecieveGet_eq srv pkt k
  rw [htbl] at hget
  cases hshown : tbl.shown k with
  | none =>
      left
      simpa [hget, hshown] using ofPacket_replyNotfound pkt
  | some it =>
      by_cases hzero : it.datalen = 0#11
      · left
        simpa [hget, hshown, hzero] using ofPacket_replyNotfound pkt
      · right
        -- The item is the front of the table, its blob the front of the origins.
        have hfront : Trusted it (o k).front := by
          have hslot := h k (tbl.slots k).cur
          rw [shown_eq_front hshown]
          unfold TwoSlot.front
          rw [← (hstep k).1]
          exact hslot
        rcases hfront with ⟨hlen, hcopy⟩
        cases hblob : (o k).front with
        | none =>
            rw [hblob] at hlen
            exact absurd (BitVec.eq_of_toNat_eq (by simpa using hlen)) hzero
        | some blob =>
            refine ⟨blob, Mem.le32Bytes it.expire, rfl, ?_⟩
            have hfound := ofPacket_replyFound pkt it (srv.behind (tbl.find k 0))
            rw [hcopy, hblob] at hfound
            simpa [hget, hshown, hzero] using hfound

/-- At the moment after a WRITE row, its blob is the front of its key. -/
theorem origins_append_write (xs : List Image) {img : Image} (hfits : img.Fits)
    (hrole : img.role = .write) :
    ∃ k b, (origins (xs ++ [img]) k).slot b = rowBlob img.row := by
  rcases img with ⟨r, row⟩
  have hused : r ≠ .leading := by
    rw [show r = .write from hrole]
    exact Role.noConfusion
  rcases hfits.resolve_left hused with ⟨key, hkey, _⟩
  have hupd : Image.update ⟨r, row⟩ = some (.add key (rowItem row)) := by
    cases hrole
    simp [Image.update, hkey]
  refine ⟨key, !(origins xs key).cur, ?_⟩
  have hstep : origins (xs ++ [⟨r, row⟩]) = Origins.next (origins xs) ⟨r, row⟩ := by
    simp [origins]
  rw [hstep]
  simp [Origins.next, hupd]

/-- Every stored length is the length of its blob cut at `ITEM_LEN`, and every GET copies bytes of
that blob only, at every moment of the row loop, exactly when the blobs of all WRITE rows the loop
gets to are at most `ITEM_LEN` long or `ITEM_LEN` long modulo 2048. -/
theorem trusted_iff_fittingWrites (log : List RowsEvent) :
    (∀ seen tbl, Reached log seen tbl →
      AllTrusted tbl (origins (images seen)) ∧ GetsOwnBytes tbl (origins (images seen))) ↔
    ∀ seen, Cut log seen → (∀ img ∈ images seen, img.Fits) → FittingWrites (images seen) := by
  constructor
  · intro htrusted seen hcut hfits img himg hrole
    -- Look at the table right after the WRITE row, where its blob is an origin.
    rcases exists_cut_of_mem himg with ⟨seen', xs, hcut', hlast, hpre⟩
    have hfits' : ∀ img' ∈ images seen', img'.Fits := fun img' h => hfits img' (hpre.subset h)
    have hreached : Reached log seen' (run Image.next LookupTable.clear (images seen')) :=
      ⟨cut_trans hcut hcut', runM_rowLoop_ok_iff.2 ⟨hfits', rfl⟩⟩
    rcases origins_append_write xs (hfits img himg) hrole with ⟨k, b, hblob⟩
    have hitem := (htrusted seen' _ hreached).1 k b
    have hbuilt := (inStep_of_reached hreached k).2 b
    rw [← hblob, ← hlast]
    exact (trusted_iff_fitting hbuilt).1 hitem
  · intro hfit seen tbl hreached
    have hstep := inStep_of_reached hreached
    have hwrites := hfit seen hreached.1 (runM_rowLoop_ok_iff.1 hreached.2).1
    have htrusted : AllTrusted tbl (origins (images seen)) := by
      intro k b
      exact (trusted_iff_fitting ((hstep k).2 b)).2 (fitting_origins hwrites k b)
    exact ⟨htrusted, getsOwnBytes_of_allTrusted hstep htrusted⟩

/-- A log of one WRITE row. -/
def writeLog (key : Int) (blob : List UInt8) : List RowsEvent :=
  [{ type := .write, tableId := 7, first := kvsRow 1 key blob, rest := [] }]

theorem images_writeLog (key : Int) (blob : List UInt8) :
    images (writeLog key blob) = [{ role := .write, row := kvsRow 1 key blob }] := rfl

theorem fits_writeLog {key : Int} (hkey : toKey key < tableSize) (blob : List UInt8) :
    ∀ img ∈ images (writeLog key blob), img.Fits := by
  intro img himg
  rw [images_writeLog, List.mem_singleton] at himg
  exact Or.inr ⟨toKey key, by rw [himg]; rfl, hkey⟩

theorem reached_writeLog (key : Int) (hkey : toKey key < tableSize) (blob : List UInt8) :
    Reached (writeLog key blob) (writeLog key blob)
      (run Image.next LookupTable.clear (images (writeLog key blob))) :=
  ⟨Or.inr ⟨[], _, [], 0, rfl, rfl⟩, runM_rowLoop_ok_iff.2 ⟨fits_writeLog hkey blob, rfl⟩⟩

theorem shown_writeLog (key : Int) (hkey : toKey key < tableSize) (blob : List UInt8) :
    (run Image.next LookupTable.clear (images (writeLog key blob))).shown (toKey key) =
      some (Item.setValid statOn (itemOfBlob blob)) := by
  have hlast : lastOn (applied (toKey key)) (images (writeLog key blob)) =
      some ⟨.write, kvsRow 1 key blob⟩ := by
    have hrow : rowKey (kvsRow 1 key blob) = some (toKey key) := rfl
    simp [images_writeLog, lastOn, applied, carries, hrow]
  rw [shown_run_next (fits_writeLog hkey blob), hlast]
  rfl

/-- A blob that is longer than the array by up to 1023 bytes: the GET goes on in the heap. -/
theorem get_of_oversized {σ : Type*} (srv : Server σ) (pkt : Packet) {k n : Nat}
    {blob : List UInt8} (hshown : srv.lookupValue.shown k =
      some (Item.setValid statOn (itemOfBlob blob)))
    (hlen : blob.length = itemLen + n) (hn : n < itemLen) :
    ∃ extras, Response.ofPacket (onRecieveGet srv pkt k).2 =
      some ⟨0, extras,
        blob.take itemLen ++ (List.range n).map (srv.behind (srv.lookupValue.find k 0))⟩ := by
  have hdatalen : (itemOfBlob blob).datalen.toNat = itemLen + n := by
    have hlt : itemLen + n < 2048 := by
      unfold itemLen at hn ⊢
      omega
    simp [itemOfBlob, hlen, Nat.mod_eq_of_lt hlt]
  have hzero : (itemOfBlob blob).datalen ≠ 0#11 := by
    intro h
    rw [h] at hdatalen
    simp [itemLen] at hdatalen
    omega
  have hcopy := copyData_itemOfBlob blob (srv.behind (srv.lookupValue.find k 0)) (n := itemLen)
    (by simp [hlen])
  have hmore := NmmcItem.copyData_itemLen_add (itemOfBlob blob)
    (srv.behind (srv.lookupValue.find k 0)) n
  have hfound := ofPacket_replyFound pkt (Item.setValid statOn (itemOfBlob blob))
    (srv.behind (srv.lookupValue.find k 0))
  refine ⟨Mem.le32Bytes (itemOfBlob blob).expire, ?_⟩
  calc
    Response.ofPacket (onRecieveGet srv pkt k).2
        = Response.ofPacket (replyFound pkt (Item.setValid statOn (itemOfBlob blob))
            (srv.behind (srv.lookupValue.find k 0))) := by
          rw [onRecieveGet_eq, hshown]
          simp [hzero]
    _ = some ⟨0, Mem.le32Bytes (itemOfBlob blob).expire,
          (itemOfBlob blob).copyData (srv.behind (srv.lookupValue.find k 0)) (itemLen + n)⟩ := by
          rw [hfound, ← hdatalen]
          rfl
    _ = _ := by rw [hmore, hcopy]

/-- A blob of 1025 bytes: the stored length is not 1024, and the last byte of the answer comes
from the heap. -/
theorem writeLog_discloses_heap :
    ∃ tbl, Reached (writeLog 5 (List.replicate 1025 0xaa)) (writeLog 5 (List.replicate 1025 0xaa))
        tbl ∧
      ¬ AllTrusted tbl (origins (images (writeLog 5 (List.replicate 1025 0xaa)))) ∧
      ∀ (srv : Server Unit) (pkt : Packet), srv.lookupValue = tbl →
        ∃ extras, Response.ofPacket (onRecieveGet srv pkt 5).2 =
          some ⟨0, extras, (List.replicate 1025 0xaa).take itemLen ++
            [srv.behind (tbl.find 5 0) 0]⟩ := by
  have hreached := reached_writeLog 5 (by decide) (List.replicate 1025 0xaa)
  have hlen : (List.replicate 1025 (0xaa : UInt8)).length = itemLen + 1 := List.length_replicate
  refine ⟨_, hreached, ?_, ?_⟩
  · intro htrusted
    have hblob : (origins (images (writeLog 5 (List.replicate 1025 0xaa))) 5).slot true =
        some (List.replicate 1025 0xaa) := rfl
    have hfit := (trusted_iff_fitting ((inStep_of_reached hreached 5).2 true)).1 (htrusted 5 true)
    rw [hblob, Fitting, Option.getD_some, hlen] at hfit
    simp [itemLen] at hfit
  · intro srv pkt htbl
    have hshown : srv.lookupValue.shown 5 =
        some (Item.setValid statOn (itemOfBlob (List.replicate 1025 0xaa))) := by
      rw [htbl]
      exact shown_writeLog 5 (by decide) _
    have hget := get_of_oversized srv pkt hshown hlen (by decide)
    rwa [htbl] at hget

end Server
end NmMemcached
