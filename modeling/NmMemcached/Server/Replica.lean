import NmMemcached.Server.Rows

/-!
# Replica — the lookup table against the kvs table of the database

The database side is `Kvs`, the rows of kvs by key.  `Kvs.step` is what a row image means there: a
WRITE row or an after image inserts, a before image or a DELETE row removes, and each is legal only
in a table that has room for it.  A log is `Consistent` when all its images are legal in turn.

Both sides are determined by last images: the database by the last image that carries the key
(`eq_last_of_run`), the lookup table by the last one that is not skipped (`shown_run_next`).
Comparing the two gives the exact logs after which a key is replicated (`shows_iff_followed`).
-/

namespace NmMemcached
namespace Server

open Lib Table

/-! ## The kvs table -/

/-- The rows of kvs: the value of each key. -/
abbrev Kvs := Nat → Option (List UInt8)

/-- The images that put a row into kvs; the others take one out. -/
def Role.inserts : Role → Bool
  | .write => true
  | .after => true
  | _ => false

namespace Kvs

def empty : Kvs := fun _ => none

/-- Key and value of a row of kvs, with the three columns `id`, `key`, `val`. -/
def keyVal (row : RowOfFields) : Option (Nat × List UInt8) :=
  match row with
  | [_, key, val] =>
      match val.asBlob with
      | none => none
      | some v =>
          if 0 ≤ key.toLong ∧ key.toLong < tableSize ∧ 1 ≤ v.length ∧ v.length ≤ itemLen then
            some (key.toLong.toNat, v)
          else
            none
  | _ => none

def step (db : Kvs) (img : Image) : Except String Kvs :=
  match keyVal img.row with
  | none => .error "not a row of kvs"
  | some (k, v) =>
      if img.role.inserts then
        if db k = none then .ok (Function.update db k (some v)) else .error "duplicate key"
      else
        if db k = some v then .ok (Function.update db k none) else .error "no such row"

theorem keyVal_some {row : RowOfFields} {k : Nat} {v : List UInt8}
    (h : keyVal row = some (k, v)) :
    rowKey row = some k ∧ k < tableSize ∧ rowItem row = itemOfBlob v ∧ 1 ≤ v.length ∧
      v.length ≤ itemLen := by
  unfold keyVal at h
  split at h
  · rename_i idf key val
    cases hblob : val.asBlob with
    | none =>
        simp [hblob] at h
    | some w =>
        simp only [hblob] at h
        split at h
        · rename_i hrange
          rcases hrange with ⟨hlo, hhi, hpos, hmax⟩
          cases h
          have hread := readRow_three idf key val
          -- A key in range survives the conversion to `uint32_t`.
          have hkey : toKey key.toLong = key.toLong.toNat := by
            have hmod : key.toLong % 4294967296 = key.toLong := by
              rw [tableSize_eq] at hhi
              omega
            rw [toKey, hmod]
          refine ⟨?_, by omega, ?_, hpos, hmax⟩
          · simp [rowKey, hread, hkey]
          · simp [rowItem, hread, hblob]
        · simp at h
  · simp at h

/-- Everything an image can do in the database. -/
theorem step_ok {db db' : Kvs} {img : Image} (h : step db img = .ok db') :
    ∃ k v, keyVal img.row = some (k, v) ∧
      db' = Function.update db k (if img.role.inserts then some v else none) := by
  unfold step at h
  cases hkv : keyVal img.row with
  | none =>
      simp [hkv] at h
  | some kv =>
      rcases kv with ⟨k, v⟩
      simp only [hkv] at h
      refine ⟨k, v, rfl, ?_⟩
      cases hins : img.role.inserts with
      | true =>
          simp only [hins, if_true] at h
          split at h
          · exact (Except.ok.inj h).symm
          · contradiction
      | false =>
          simp only [hins, Bool.false_eq_true, if_false] at h
          split at h
          · exact (Except.ok.inj h).symm
          · contradiction

/-- What an image leaves at its own key. -/
def valueAfter (img : Image) : Option (List UInt8) :=
  if img.role.inserts then (keyVal img.row).map Prod.snd else none

/-- After a legal run every image is a row of kvs, and the last image that carries a key decides
what the database holds for it. -/
theorem eq_last_of_run {imgs : List Image} {db : Kvs} (h : runM step empty imgs = .ok db) :
    (∀ img ∈ imgs, ∃ k v, keyVal img.row = some (k, v)) ∧
      ∀ k, db k = (lastOn (carries k) imgs).bind valueAfter := by
  -- The invariant: the images so far are rows of kvs and determine the database.
  let P : List Image → Kvs → Prop := fun imgs db =>
    (∀ img ∈ imgs, ∃ k v, keyVal img.row = some (k, v)) ∧
      ∀ k, db k = (lastOn (carries k) imgs).bind valueAfter
  have h₀ : P [] empty := by
    refine ⟨?_, ?_⟩
    · intro img himg
      simp at himg
    · intro k
      rfl
  refine runM_history (P := P) h₀ ?_ h
  rintro imgs db img db' _ ⟨hrows, hdb⟩ hstep
  rcases step_ok hstep with ⟨k, v, hkv, rfl⟩
  have hkey : rowKey img.row = some k := (keyVal_some hkv).1
  refine ⟨?_, ?_⟩
  · intro img' himg'
    rcases List.mem_append.1 himg' with hold | hnew
    · exact hrows img' hold
    · exact ⟨k, v, by simpa [List.mem_singleton.1 hnew] using hkv⟩
  · intro j
    -- The image decides for its own key, the images before it for all others.
    by_cases hj : j = k
    · subst hj
      have hcarries : carries j img = true := by
        simp [carries, hkey]
      simp [hcarries, valueAfter, hkv]
    · have hcarries : carries j img = false := by
        simpa [carries, hkey] using fun e : k = j => hj e.symm
      simp [hcarries, Function.update_of_ne hj, hdb j]

end Kvs

/-- The row events of a log are legal in a kvs table that starts empty; the rows of an UPDATE
event come in pairs. -/
def Consistent (log : List RowsEvent) (db : Kvs) : Prop :=
  (∀ ev ∈ log, ev.type = .update → ev.rest.length % 2 = 1) ∧
    runM Kvs.step Kvs.empty (images log) = .ok db

theorem Consistent.fits {log : List RowsEvent} {db : Kvs} (h : Consistent log db) :
    ∀ img ∈ images log, img.Fits := by
  intro img himg
  rcases (Kvs.eq_last_of_run h.2).1 img himg with ⟨k, v, hkv⟩
  rcases Kvs.keyVal_some hkv with ⟨hkey, hlt, _⟩
  exact Or.inr ⟨k, hkey, hlt⟩

/-! ## The replica -/

/-- `Find(k,0)` shows the value, or nothing: `End()` or an item without data. -/
def Shows (tbl : Val) (k : Nat) : Option (List UInt8) → Prop
  | some v => ∃ it, tbl.shown k = some it ∧ it.datalen.toNat = v.length ∧
      ∀ behind, it.copyData behind it.datalen.toNat = v
  | none => ∀ it, tbl.shown k = some it → it.datalen = 0

/-- The table shows what the database holds, for every key. -/
def Replicates (tbl : Val) (db : Kvs) : Prop := ∀ k, Shows tbl k (db k)

/-- The last image on the key is no after image; and if it is the skipped first row of an UPDATE
event, then the last image that was not skipped is no WRITE row. -/
def Followed (k : Nat) (imgs : List Image) : Prop :=
  ∀ img, lastOn (carries k) imgs = some img →
    img.role ≠ .after ∧
      (img.role = .leading → ∀ img', lastOn (applied k) imgs = some img' → img'.role ≠ .write)

theorem datalen_itemOfBlob {v : List UInt8} (h : v.length ≤ itemLen) :
    (itemOfBlob v).datalen.toNat = v.length := by
  have hlt : v.length < 2048 := Nat.lt_of_le_of_lt h (by decide)
  simp [itemOfBlob, Nat.mod_eq_of_lt hlt]

theorem shows_itemOfBlob {tbl : Val} {k : Nat} {v : List UInt8} (hmax : v.length ≤ itemLen)
    (h : tbl.shown k = some (Item.setValid statOn (itemOfBlob v))) : Shows tbl k (some v) := by
  have hlen := datalen_itemOfBlob hmax
  refine ⟨_, h, hlen, ?_⟩
  intro behind
  have hcopy := copyData_itemOfBlob v behind (n := v.length) (by simp [hmax])
  calc
    (Item.setValid statOn (itemOfBlob v)).copyData behind (itemOfBlob v).datalen.toNat
        = (itemOfBlob v).copyData behind v.length := by rw [hlen]; rfl
    _ = v := by rw [hcopy, List.take_length]

/-- The table the row loop builds from a consistent log. -/
theorem runM_rowLoop_of_consistent {log : List RowsEvent} {db : Kvs} (hlog : Consistent log db)
    (tbl : Val) :
    runM rowLoop LookupTable.clear log = .ok tbl ↔
      tbl = run Image.next LookupTable.clear (images log) := by
  rw [runM_rowLoop_ok_iff]
  exact and_iff_right hlog.fits

section Consistent

variable {log : List RowsEvent} {db : Kvs} {tbl : Val}

/-- A key shows nothing exactly when its last row that was not skipped is no WRITE row. -/
theorem shows_none_iff (hlog : Consistent log db)
    (htbl : tbl = run Image.next LookupTable.clear (images log)) (k : Nat) :
    Shows tbl k none ↔
      ∀ img, lastOn (applied k) (images log) = some img → img.role ≠ .write := by
  have hrows := (Kvs.eq_last_of_run hlog.2).1
  have hshown := shown_run_next hlog.fits k
  rw [← htbl] at hshown
  constructor
  · intro hnone img happ hwrite
    rcases hrows img (mem_of_lastOn happ).1 with ⟨j, v, hkv⟩
    rcases Kvs.keyVal_some hkv with ⟨_, _, hitem, hpos, hmax⟩
    have hit : tbl.shown k = some (Item.setValid statOn (itemOfBlob v)) := by
      simpa [happ, hwrite, hitem] using hshown
    -- The item of a WRITE row has data, because no value of kvs is empty.
    have hzero : (itemOfBlob v).datalen = 0 := hnone _ hit
    have hlen := datalen_itemOfBlob hmax
    rw [hzero] at hlen
    exact absurd hlen (by simp; omega)
  · intro hlast it hit
    rw [hshown] at hit
    cases happ : lastOn (applied k) (images log) with
    | none =>
        by_cases hk : k < tableSize
        · have hzeroed : NmmcItem.zeroed = it := by
            simpa [happ, hk] using hit
          rw [← hzeroed]
          rfl
        · simp [happ, hk] at hit
    | some img =>
        simp [happ, hlast img happ] at hit

/-- After a consistent log the table shows what the database holds for a key exactly when the
images followed it. -/
theorem shows_iff_followed (hlog : Consistent log db)
    (htbl : tbl = run Image.next LookupTable.clear (images log)) (k : Nat) :
    Shows tbl k (db k) ↔ Followed k (images log) := by
  rcases Kvs.eq_last_of_run hlog.2 with ⟨hrows, hdb⟩
  have hnone := shows_none_iff hlog htbl k
  have hshown := shown_run_next hlog.fits k
  rw [← htbl] at hshown
  rw [hdb k]
  cases hlast : lastOn (carries k) (images log) with
  | none =>
      have happ : lastOn (applied k) (images log) = none := lastOn_and_of_none hlast
      have hshows : Shows tbl k none := hnone.2 (by simp [happ])
      simpa [Followed, hlast] using hshows
  | some img =>
      rcases hrows img (mem_of_lastOn hlast).1 with ⟨j, v, hkv⟩
      rcases Kvs.keyVal_some hkv with ⟨_, _, hitem, _, hmax⟩
      -- An image that is not skipped is also the last one the table has seen.
      have happ : img.role ≠ .leading → lastOn (applied k) (images log) = some img := by
        intro hrole
        exact lastOn_and_of_true hlast (by simpa using hrole)
      -- What the database holds and what the table shows, by the role of the last image.
      cases hrole : img.role with
      | write =>
          have hit : tbl.shown k = some (Item.setValid statOn (itemOfBlob v)) := by
            simpa [happ (by simp [hrole]), hrole, hitem] using hshown
          have hshows : Shows tbl k (some v) := shows_itemOfBlob hmax hit
          simpa [Followed, hlast, hrole, Kvs.valueAfter, Role.inserts, hkv] using hshows
      | after =>
          have hit : tbl.shown k = none := by
            simpa [happ (by simp [hrole]), hrole] using hshown
          simp [Followed, hlast, hrole, Kvs.valueAfter, Role.inserts, hkv, Shows, hit]
      | leading =>
          -- The table skipped this image and shows what the one before it left.
          simpa [Followed, hlast, hrole, Kvs.valueAfter, Role.inserts] using hnone
      | before =>
          have hshows : Shows tbl k none := hnone.2 (by simp [happ (by simp [hrole]), hrole])
          simpa [Followed, hlast, hrole, Kvs.valueAfter, Role.inserts] using hshows
      | delete =>
          have hshows : Shows tbl k none := hnone.2 (by simp [happ (by simp [hrole]), hrole])
          simpa [Followed, hlast, hrole, Kvs.valueAfter, Role.inserts] using hshows

end Consistent

/-- The row loop over a consistent log leaves a faithful replica exactly when the images followed
every key. -/
theorem replicates_iff_followed (log : List RowsEvent) (db : Kvs) (hlog : Consistent log db) :
    (∃ tbl, runM rowLoop LookupTable.clear log = .ok tbl ∧ Replicates tbl db) ↔
      ∀ k, Followed k (images log) := by
  constructor
  · rintro ⟨tbl, hrun, hrep⟩ k
    exact (shows_iff_followed hlog ((runM_rowLoop_of_consistent hlog tbl).1 hrun) k).1 (hrep k)
  · intro hfollowed
    refine ⟨_, (runM_rowLoop_of_consistent hlog _).2 rfl, ?_⟩
    intro k
    exact (shows_iff_followed hlog rfl k).2 (hfollowed k)

/-- A log without UPDATE events is followed. -/
theorem followed_of_no_update {log : List RowsEvent} (h : ∀ ev ∈ log, ev.type ≠ .update)
    (k : Nat) : Followed k (images log) := by
  intro img hlast
  rcases List.mem_flatMap.1 (mem_of_lastOn hlast).1 with ⟨ev, hev, himg⟩
  rcases role_of_mem_imagesFrom himg with ⟨i, hrole⟩
  have htype := h ev hev
  rw [hrole]
  cases htyp : ev.type with
  | update =>
      exact absurd htyp htype
  | write =>
      simp [role]
  | delete =>
      simp [role]

theorem replicates_iff_followed_insert_delete :
    ∃ tbl, runM rowLoop LookupTable.clear
        [{ type := .write, tableId := 7, first := kvsRow 1 5 [0xaa], rest := [kvsRow 2 6 [0xbb]] },
          { type := .delete, tableId := 7, first := kvsRow 1 5 [0xaa], rest := [] }] = .ok tbl ∧
      Replicates tbl (Function.update (Function.update (Function.update Kvs.empty 5 (some [0xaa])) 6
        (some [0xbb])) 5 none) :=
  (replicates_iff_followed _ _ ⟨by decide, rfl⟩).2 (followed_of_no_update (by decide))

/-- A row that is written and then overwritten: the table loses the key. -/
def overwriteLog : List RowsEvent :=
  [{ type := .write, tableId := 7, first := kvsRow 1 5 [0xaa], rest := [] },
    { type := .update, tableId := 7, first := kvsRow 1 5 [0xaa], rest := [kvsRow 1 5 [0xbb]] }]

theorem overwriteLog_not_replicated :
    ∃ db, Consistent overwriteLog db ∧ db 5 = some [0xbb] ∧
      ¬ ∃ tbl, runM rowLoop LookupTable.clear overwriteLog = .ok tbl ∧ Replicates tbl db := by
  have hlog : Consistent overwriteLog (Function.update (Function.update (Function.update Kvs.empty 5
      (some [0xaa])) 5 none) 5 (some [0xbb])) := ⟨by decide, rfl⟩
  refine ⟨_, hlog, rfl, ?_⟩
  rintro ⟨tbl, hrun, hrep⟩
  have htbl := (runM_rowLoop_of_consistent hlog tbl).1 hrun
  have hfollowed := (shows_iff_followed hlog htbl 5).1 (hrep 5)
  have hlast : lastOn (carries 5) (images overwriteLog) =
      some { role := .after, row := kvsRow 1 5 [0xbb] } := by decide
  exact (hfollowed _ hlast).1 rfl

end Server
end NmMemcached
