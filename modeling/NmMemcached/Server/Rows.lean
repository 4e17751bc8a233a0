import NmMemcached.Server.BinLog

/-!
# Rows — what the row loop does to the table

A rows event is a list of row images, and an image has a role: the row of a WRITE or DELETE event,
the first row of an UPDATE event, or one of its later rows, which are after and before images in
turn.  Here is said once what the row loop makes of an image (`Image.update`):

* a WRITE row is added;
* the first row of an UPDATE event is skipped;
* every other row is deleted.  For an UPDATE row the loop asks for the valid bit of the item it
  has just built, and `readRow` never sets it (`valid_readRow`).

Hence the row loop is a run of table calls (`rowLoop_ok_iff`, `runM_rowLoop_ok_iff`).
-/

namespace NmMemcached
namespace Server

open Lib Table

/-! ## Reading a row -/

def rowItem (row : RowOfFields) : NmmcItem := (readRow row).itm

/-- The key the row loop hands to the table. -/
def rowKey (row : RowOfFields) : Option Nat := (readRow row).itmKey.map toKey

theorem valid_onColumns {loc : RowLocals} (h : loc.itm.valid = 0) (colid : Nat)
    (row : RowOfFields) : (onColumns loc colid row).itm.valid = 0 := by
  induction row generalizing loc colid with
  | nil =>
      exact h
  | cons itf itfs ih =>
      refine ih ?_ (colid + 1)
      -- A column fills in the key, the data and the length, or nothing.
      unfold onColumn
      split
      · exact h
      · split
        · split <;> exact h
        · exact h

/-- The item of a row is freshly zeroed, and no column writes its valid bit. -/
theorem valid_readRow (row : RowOfFields) : (rowItem row).valid = 0 :=
  valid_onColumns rfl 0 row

/-- The item the loop builds from a blob. -/
def itemOfBlob (blob : List UInt8) : NmmcItem :=
  { NmmcItem.zeroed.memcpyData blob (min blob.length itemLen) with
    datalen := BitVec.ofNat 11 blob.length }

/-- A row with the three columns `id`, `key`, `val`. -/
theorem readRow_three (id key val : Field) :
    readRow [id, key, val] =
      { itmKey := some key.toLong
        itm :=
          match val.asBlob with
          | none => NmmcItem.zeroed
          | some blob => itemOfBlob blob } := by
  rcases val with ⟨_, _ | blob⟩ <;> rfl

/-- A row of kvs. -/
def kvsRow (id key : Int) (val : List UInt8) : RowOfFields :=
  [{ toLong := id, asBlob := none }, { toLong := key, asBlob := none },
    { toLong := 0, asBlob := some val }]

theorem copyData_itemOfBlob (blob : List UInt8) (behind : Nat → UInt8) {n : Nat}
    (hn : n ≤ min blob.length itemLen) : (itemOfBlob blob).copyData behind n = blob.take n := by
  have hitem : n ≤ itemLen := Nat.le_trans hn (Nat.min_le_right _ _)
  apply List.ext_getElem
  · have hlen : n ≤ blob.length := Nat.le_trans hn (Nat.min_le_left _ _)
    simp [hlen]
  · intro i hi hi'
    have hlt : i < n := by simpa using hi
    have hmin : i < min blob.length itemLen := Nat.lt_of_lt_of_le hlt hn
    have hblob : i < blob.length := Nat.lt_of_lt_of_le hmin (Nat.min_le_left _ _)
    have harr : i < itemLen := Nat.lt_of_lt_of_le hlt hitem
    simp [NmmcItem.copyData, itemOfBlob, NmmcItem.memcpyData, harr, hblob]

/-! ## Images -/

inductive Role
  | write
  | leading
  | before
  | after
  | delete
  deriving DecidableEq

/-- The role of row `i` of an event. -/
def role (type : RowsEventType) (i : Nat) : Role :=
  match type with
  | .write => .write
  | .update => if i = 0 then .leading else if i % 2 = 1 then .after else .before
  | .delete => .delete

structure Image where
  role : Role
  row : RowOfFields
  deriving DecidableEq

def imagesFrom (type : RowsEventType) : Nat → List RowOfFields → List Image
  | _, [] => []
  | i, row :: rows => { role := role type i, row := row } :: imagesFrom type (i + 1) rows

def RowsEvent.images (ev : RowsEvent) : List Image := imagesFrom ev.type 0 ev.rows

/-- All row images of a list of rows events, in the order the loop meets them. -/
def images (log : List RowsEvent) : List Image := log.flatMap RowsEvent.images

theorem role_of_mem_imagesFrom {type : RowsEventType} {i : Nat} {rows : List RowOfFields}
    {img : Image} (h : img ∈ imagesFrom type i rows) : ∃ j, img.role = role type j := by
  induction rows generalizing i with
  | nil =>
      simp [imagesFrom] at h
  | cons row rows ih =>
      rcases List.mem_cons.1 h with rfl | htail
      · exact ⟨i, rfl⟩
      · exact ih htail

namespace Image

/-- The call the row loop makes for an image, if any. -/
def update (img : Image) : Option (LookupTable.Update NmmcItem) :=
  match img.role, rowKey img.row with
  | _, none => none
  | .leading, some _ => none
  | .write, some key => some (.add key (rowItem img.row))
  | _, some key => some (.del key)

/-- What `rowCall` comes to for an image. -/
def call (img : Image) : RowCall :=
  match img.role, rowKey img.row with
  | .leading, _ => .none
  | _, none => .stray
  | .write, some key => .op (.add key (rowItem img.row))
  | _, some key => .op (.del key)

/-- The row loop gets past the image: it makes no call, or one with a key that is in range. -/
def Fits (img : Image) : Prop :=
  img.role = .leading ∨ ∃ key, rowKey img.row = some key ∧ key < tableSize

/-- The table after the image. -/
def next (tbl : Val) (img : Image) : Val :=
  match img.update with
  | none => tbl
  | some op => tbl.apply op

end Image

/-! ## The row loop as a run of calls -/

theorem afterCall_exec (tbl tbl' : Val) (op : LookupTable.Update NmmcItem) :
    afterCall (op.exec tbl) = .ok tbl' ↔ op.key < tableSize ∧ tbl' = tbl.apply op := by
  rw [LookupTable.apply, LookupTable.Update.exec_eq]
  by_cases hk : op.key < tableSize
  · have hok := (LookupTable.updateBack_ungated tbl hk op.write).1
    simp [afterCall, hok, hk, eq_comm]
  · have hthrow := LookupTable.updateBack_ungated_of_le tbl tableSize_pos (Nat.le_of_not_lt hk)
      op.write
    simp [afterCall, hthrow, hk]

/-- The call of an image does not depend on the index beyond its role. -/
theorem rowCall_eq {type : RowsEventType} {updateIdx i : Nat}
    (hidx : type = .update → updateIdx = i) (row : RowOfFields) :
    rowCall type updateIdx row = Image.call ⟨role type i, row⟩ := by
  have hvalid : (readRow row).itm.valid = 0 := valid_readRow row
  cases type with
  | write =>
      cases hkey : (readRow row).itmKey with
      | none => simp [rowCall, Image.call, role, rowKey, hkey]
      | some itmKey => simp [rowCall, Image.call, role, rowKey, rowItem, hkey]
  | delete =>
      cases hkey : (readRow row).itmKey with
      | none => simp [rowCall, Image.call, role, rowKey, hkey]
      | some itmKey => simp [rowCall, Image.call, role, rowKey, hkey]
  | update =>
      rw [hidx rfl]
      -- The first row is skipped, and any other has a valid bit of zero and is deleted.
      by_cases hzero : i = 0
      · simp [rowCall, Image.call, role, hzero]
      · have hrole : role .update i = .after ∨ role .update i = .before := by
          by_cases hodd : i % 2 = 1 <;> simp [role, hzero, hodd]
        cases hkey : (readRow row).itmKey with
        | none =>
            rcases hrole with h | h <;>
              simp [rowCall, Image.call, h, rowKey, hkey, hzero]
        | some itmKey =>
            rcases hrole with h | h <;>
              simp [rowCall, Image.call, h, rowKey, hkey, hzero, hvalid]

theorem exec_call_iff {tbl tbl' : Val} (img : Image) :
    img.call.exec tbl = .ok tbl' ↔ img.Fits ∧ tbl' = img.next tbl := by
  rcases img with ⟨r, row⟩
  cases hkey : rowKey row with
  | none =>
      cases r <;>
        simp [Image.call, RowCall.exec, Image.Fits, Image.next, Image.update, hkey, eq_comm]
  | some key =>
      have hcall := afterCall_exec tbl tbl'
      cases r <;>
        simp [Image.call, RowCall.exec, Image.Fits, Image.next, Image.update, hkey, hcall,
          LookupTable.Update.key, eq_comm]

/-- Everything one turn of the row loop can do. -/
theorem onRow_ok_iff {type : RowsEventType} {st st' : RowLoop} {i : Nat}
    (hidx : type = .update → st.updateIdx = i) {row : RowOfFields} :
    onRow type st row = .ok st' ↔
      Image.Fits ⟨role type i, row⟩ ∧
        st' = ⟨nextIdx type st.updateIdx, Image.next st.tbl ⟨role type i, row⟩⟩ := by
  rw [onRow, rowCall_eq hidx, bind_ok_iff]
  constructor
  · rintro ⟨tbl, hcall, hst⟩
    rcases (exec_call_iff _).1 hcall with ⟨hfits, rfl⟩
    exact ⟨hfits, (Except.ok.inj hst).symm⟩
  · rintro ⟨hfits, rfl⟩
    exact ⟨_, (exec_call_iff _).2 ⟨hfits, rfl⟩, rfl⟩

theorem runM_onRow_ok_iff {type : RowsEventType} {rows : List RowOfFields} {st st' : RowLoop}
    {i : Nat} (hidx : type = .update → st.updateIdx = i) :
    runM (onRow type) st rows = .ok st' ↔
      (∀ img ∈ imagesFrom type i rows, img.Fits) ∧
        st'.tbl = run Image.next st.tbl (imagesFrom type i rows) ∧
        st'.updateIdx = rows.foldl (fun j _ => nextIdx type j) st.updateIdx := by
  induction rows generalizing st i with
  | nil =>
      cases st
      cases st'
      simp [imagesFrom, and_comm, eq_comm]
  | cons row rows ih =>
      rw [runM_cons_ok]
      -- The index of the loop stays the position of the row in the event.
      have hnext : type = .update →
          (⟨nextIdx type st.updateIdx, Image.next st.tbl ⟨role type i, row⟩⟩ : RowLoop).updateIdx =
            i + 1 := by
        rintro rfl
        simp [nextIdx, hidx rfl]
      constructor
      · rintro ⟨m, hm, hrest⟩
        rcases (onRow_ok_iff hidx).1 hm with ⟨hfits, rfl⟩
        rcases (ih hnext).1 hrest with ⟨hall, htbl, hcount⟩
        exact ⟨List.forall_mem_cons.2 ⟨hfits, hall⟩, htbl, hcount⟩
      · rintro ⟨hall, htbl, hcount⟩
        rcases List.forall_mem_cons.1 hall with ⟨hfits, hrest⟩
        exact ⟨_, (onRow_ok_iff hidx).2 ⟨hfits, rfl⟩, (ih hnext).2 ⟨hrest, htbl, hcount⟩⟩

/-- The row loop runs through exactly when every image fits. -/
theorem rowLoop_ok_iff {tbl tbl' : Val} {ev : RowsEvent} :
    rowLoop tbl ev = .ok tbl' ↔
      (∀ img ∈ ev.images, img.Fits) ∧ tbl' = run Image.next tbl ev.images := by
  have hidx : ev.type = .update → (⟨0, tbl⟩ : RowLoop).updateIdx = 0 := fun _ => rfl
  rw [rowLoop, bind_ok_iff]
  constructor
  · rintro ⟨st, hst, htbl⟩
    rcases (runM_onRow_ok_iff hidx).1 hst with ⟨hall, hrun, _⟩
    exact ⟨hall, (Except.ok.inj htbl).symm.trans hrun⟩
  · rintro ⟨hall, rfl⟩
    exact ⟨⟨_, _⟩, (runM_onRow_ok_iff hidx).2 ⟨hall, rfl, rfl⟩, rfl⟩

/-- The row loop over a list of events. -/
theorem runM_rowLoop_ok_iff {tbl tbl' : Val} {log : List RowsEvent} :
    runM rowLoop tbl log = .ok tbl' ↔
      (∀ img ∈ images log, img.Fits) ∧ tbl' = run Image.next tbl (images log) := by
  have hstep : ∀ (t : Val) (ev : RowsEvent) (t' : Val), rowLoop t ev = .ok t' ↔
      (∀ img ∈ ev.images, img.Fits) ∧ t' = run Image.next t ev.images :=
    fun _ _ _ => rowLoop_ok_iff
  have hrun : ∀ t : Val, run (fun t ev => run Image.next t (RowsEvent.images ev)) t log =
      run Image.next t (images log) := by
    intro t
    simp only [run, images, List.foldl_flatMap]
  rw [runM_ok_iff_run hstep, hrun]
  constructor
  · rintro ⟨hall, htbl⟩
    refine ⟨?_, htbl⟩
    intro img himg
    rcases List.mem_flatMap.1 himg with ⟨ev, hev, hin⟩
    exact hall ev hev img hin
  · rintro ⟨hall, htbl⟩
    refine ⟨?_, htbl⟩
    intro ev hev img himg
    exact hall img (List.mem_flatMap.2 ⟨ev, hev, himg⟩)

/-! ## From images to calls -/

/-- The calls of a list of images. -/
def updates (imgs : List Image) : List (LookupTable.Update NmmcItem) :=
  imgs.filterMap Image.update

theorem run_next (tbl : Val) (imgs : List Image) :
    run Image.next tbl imgs = run LookupTable.apply tbl (updates imgs) := by
  induction imgs generalizing tbl with
  | nil =>
      rfl
  | cons img imgs ih =>
      rw [run_cons, ih]
      cases hop : img.update with
      | none =>
          simp [updates, Image.next, hop]
      | some op =>
          simp [updates, Image.next, hop]

/-- The key of a call is the key of its row. -/
theorem key_of_update {img : Image} {op : LookupTable.Update NmmcItem}
    (h : img.update = some op) : rowKey img.row = some op.key ∧ img.role ≠ .leading := by
  rcases img with ⟨r, row⟩
  cases hkey : rowKey row with
  | none =>
      cases r <;> simp [Image.update, hkey] at h
  | some key =>
      cases r <;> simp [Image.update, hkey] at h <;> subst h <;>
        simp [LookupTable.Update.key]

/-- An added item is the item of its row. -/
theorem itm_of_update {img : Image} {key : Nat} {itm : NmmcItem}
    (h : img.update = some (.add key itm)) : itm = rowItem img.row := by
  rcases img with ⟨r, row⟩
  cases hkey : rowKey row with
  | none =>
      cases r <;> simp [Image.update, hkey] at h
  | some j =>
      cases r <;> simp [Image.update, hkey] at h
      exact h.2.symm

theorem key_lt_of_update {img : Image} {op : LookupTable.Update NmmcItem}
    (h : img.update = some op) (hfits : img.Fits) : op.key < tableSize := by
  rcases key_of_update h with ⟨hkey, hrole⟩
  rcases hfits with hlead | ⟨key, hk, hlt⟩
  · exact absurd hlead hrole
  · have hkk : key = op.key := by
      simpa [hkey] using hk.symm
    exact hkk ▸ hlt

theorem updates_in_range {imgs : List Image} (h : ∀ img ∈ imgs, img.Fits) :
    ∀ op ∈ updates imgs, op.key < tableSize := by
  intro op hop
  rcases List.mem_filterMap.1 hop with ⟨img, himg, hupd⟩
  exact key_lt_of_update hupd (h img himg)

/-! ## What a reader is shown after a list of images -/

/-- The image carries the key. -/
def carries (k : Nat) (img : Image) : Bool := decide (rowKey img.row = some k)

/-- The image carries the key and the row loop does not skip it. -/
def applied (k : Nat) (img : Image) : Bool := carries k img && decide (img.role ≠ .leading)

theorem any_onKey_update (k : Nat) (img : Image) :
    img.update.any (LookupTable.Update.onKey k) = applied k img := by
  rcases img with ⟨r, row⟩
  cases hkey : rowKey row with
  | none =>
      cases r <;> simp [Image.update, applied, carries, hkey]
  | some key =>
      by_cases hk : key = k <;> cases r <;>
        simp [Image.update, applied, carries, hkey, hk, LookupTable.Update.onKey,
          LookupTable.Update.key]

theorem lastOn_updates (k : Nat) (imgs : List Image) :
    lastOn (LookupTable.Update.onKey k) (updates imgs) =
      (lastOn (applied k) imgs).bind Image.update := by
  have hfun : (fun img : Image => img.update.any (LookupTable.Update.onKey k)) = applied k :=
    funext (any_onKey_update k)
  rw [updates, lastOn_filterMap, hfun]

/-- The last image that is not skipped decides: a WRITE row is shown, any other row hides the key,
and a key without such an image still has its zeroed item. -/
theorem shown_run_next {imgs : List Image} (hfits : ∀ img ∈ imgs, img.Fits) (k : Nat) :
    (run Image.next LookupTable.clear imgs).shown k =
      match lastOn (applied k) imgs with
      | none => if k < tableSize then some NmmcItem.zeroed else none
      | some img =>
          if img.role = .write then some (Item.setValid statOn (rowItem img.row)) else none := by
  have hkeys := updates_in_range hfits
  have hlast := lastOn_updates k imgs
  rw [run_next]
  cases happ : lastOn (applied k) imgs with
  | none =>
      rw [happ] at hlast
      by_cases hk : k < tableSize
      · simpa [hk] using LookupTable.shown_run_of_none hkeys hk hlast
      · simpa [hk] using LookupTable.shown_of_le tableSize_pos (Nat.le_of_not_lt hk)
  | some img =>
      rw [happ] at hlast
      rcases img with ⟨r, row⟩
      have hon := (mem_of_lastOn happ).2
      have hkey : rowKey row = some k ∧ r ≠ .leading := by
        simpa [applied, carries] using hon
      -- A row that is neither skipped nor a WRITE row was deleted.
      by_cases hr : r = .write
      · subst hr
        have hupd : Image.update ⟨.write, row⟩ = some (.add k (rowItem row)) := by
          simp [Image.update, hkey.1]
        simpa using LookupTable.shown_run_of_some hkeys (hlast.trans hupd)
      · have hupd : Image.update ⟨r, row⟩ = some (.del k) := by
          cases r <;> simp_all [Image.update]
        simpa [hr] using LookupTable.shown_run_of_some hkeys (hlast.trans hupd)

end Server
end NmMemcached
