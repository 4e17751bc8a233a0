import NmMemcached.Server.Rows

/-!
# KeyRange — which entry of the table a row addresses

The key column of kvs is a signed 64-bit integer, the key of the table an unsigned 32-bit one, and
the table has 2^20 entries.  A key that is outside the table before the conversion may be inside
it afterwards, and one that is still outside makes `Find` throw.

`touchesOwnKeys_iff` says when a rows event stays with the keys of its rows.
-/

namespace NmMemcached
namespace Server

open Lib Table

/-! ## Key columns -/

/-- The row has a key column with this value. -/
def KeyColumn (row : RowOfFields) (k : Int) : Prop :=
  (readRow row).itmKey = some k ∧ -9223372036854775808 ≤ k ∧ k < 9223372036854775808

def InTable (k : Int) : Prop := 0 ≤ k ∧ k < tableSize

instance (k : Int) : Decidable (InTable k) := inferInstanceAs (Decidable (_ ∧ _))

theorem toKey_of_inTable {k : Int} (h : InTable k) : (toKey k : Int) = k ∧ toKey k < tableSize := by
  rcases h with ⟨hlo, hhi⟩
  rw [tableSize_eq] at hhi ⊢
  unfold toKey
  omega

theorem rowKey_of_itmKey {row : RowOfFields} {k : Int} (h : (readRow row).itmKey = some k) :
    rowKey row = some (toKey k) := by
  rw [rowKey, h]
  rfl

/-! ## One row -/

/-- The row changes what `Find` returns for its own key only; with a key outside the table it
changes no entry at all, and the loop goes on. -/
def TouchesOwnKey (type : RowsEventType) (st : RowLoop) (row : RowOfFields) : Prop :=
  ∀ k, (readRow row).itmKey = some k →
    ∃ st', onRow type st row = .ok st' ∧
      (InTable k → ∀ j : Nat, (j : Int) ≠ k →
        st'.tbl.find j 0 = st.tbl.find j 0 ∧ st'.tbl.shown j = st.tbl.shown j) ∧
      (¬ InTable k → st'.tbl.slots = st.tbl.slots)

/-- The key of the row is inside the table, or the row is not used. -/
def KeyFits (img : Image) : Prop :=
  img.role = .leading ∨ ∃ k, (readRow img.row).itmKey = some k ∧ InTable k

theorem KeyFits.fits {img : Image} (h : KeyFits img) : img.Fits := by
  rcases h with hlead | ⟨k, hkey, hin⟩
  · exact Or.inl hlead
  · exact Or.inr ⟨toKey k, rowKey_of_itmKey hkey, (toKey_of_inTable hin).2⟩

theorem next_of_leading {tbl : Val} {row : RowOfFields} :
    Image.next tbl ⟨.leading, row⟩ = tbl := by
  cases hkey : rowKey row <;> simp [Image.next, Image.update, hkey]

/-- A row that is used makes one call, on the converted key. -/
theorem update_of_used {img : Image} {k : Int} (hkey : (readRow img.row).itmKey = some k)
    (hrole : img.role ≠ .leading) :
    ∃ op, img.update = some op ∧ op.key = toKey k := by
  have hrow := rowKey_of_itmKey hkey
  rcases img with ⟨r, row⟩
  cases r with
  | leading =>
      exact absurd rfl hrole
  | write =>
      exact ⟨.add (toKey k) (rowItem row), by simp [Image.update, hrow], rfl⟩
  | before =>
      exact ⟨.del (toKey k), by simp [Image.update, hrow], rfl⟩
  | after =>
      exact ⟨.del (toKey k), by simp [Image.update, hrow], rfl⟩
  | delete =>
      exact ⟨.del (toKey k), by simp [Image.update, hrow], rfl⟩

/-- A call that goes through turns the entry of its key over. -/
theorem slots_apply_ne {tbl : Val} {op : LookupTable.Update NmmcItem} (hk : op.key < tableSize) :
    (tbl.apply op).slots ≠ tbl.slots := by
  intro hsame
  have hentry := congrFun hsame op.key
  rw [LookupTable.slots_apply tbl hk, TwoSlot.publishAt_same] at hentry
  have hcur := congrArg TwoSlot.cur hentry
  rw [TwoSlot.cur_publish] at hcur
  cases (tbl.slots op.key).cur <;> simp at hcur

/-- A row stays with its key exactly when the key is inside the table or the row is not used. -/
theorem touchesOwnKey_iff {type : RowsEventType} {st : RowLoop} {i : Nat} {row : RowOfFields}
    (hidx : type = .update → st.updateIdx = i) {k : Int} (hkey : (readRow row).itmKey = some k) :
    TouchesOwnKey type st row ↔ KeyFits ⟨role type i, row⟩ := by
  have hgo := fun st' => @onRow_ok_iff type st st' i hidx row
  constructor
  · intro h
    by_contra hfits
    have hrole : role type i ≠ .leading := fun hlead => hfits (Or.inl hlead)
    have hout : ¬ InTable k := fun hin => hfits (Or.inr ⟨k, hkey, hin⟩)
    rcases h k hkey with ⟨st', hok, _, hsame⟩
    rcases (hgo st').1 hok with ⟨hcall, rfl⟩
    rcases hcall.resolve_left hrole with ⟨key, hrow, hin⟩
    -- The loop went on, so the converted key is inside the table and its entry has changed.
    have hconv : key = toKey k := Option.some.inj (hrow.symm.trans (rowKey_of_itmKey hkey))
    rcases @update_of_used ⟨role type i, row⟩ k hkey hrole with ⟨op, hop, hopkey⟩
    have hslots := hsame hout
    simp only [Image.next, hop] at hslots
    refine slots_apply_ne ?_ hslots
    rwa [hopkey, ← hconv]
  · intro h k' hk'
    have hk : k' = k := Option.some.inj (hk'.symm.trans hkey)
    subst hk
    refine ⟨_, (hgo _).2 ⟨h.fits, rfl⟩, ?_, ?_⟩
    · intro hin j hj
      by_cases hrole : role type i = .leading
      · simp [hrole, next_of_leading]
      · rcases @update_of_used ⟨role type i, row⟩ k' hkey hrole with ⟨op, hop, hopkey⟩
        have hne : j ≠ op.key := by
          intro hjk
          rw [hjk, hopkey] at hj
          exact hj (toKey_of_inTable hin).1
        simpa [Image.next, hop] using
          LookupTable.find_apply_of_ne (t := st.tbl) tableSize_pos hne
    · intro hout
      rcases h with hlead | ⟨k'', hk'', hin⟩
      · have hrole : role type i = .leading := hlead
        simp [hrole, next_of_leading]
      · have hsame : k'' = k' := Option.some.inj (hk''.symm.trans hkey)
        exact absurd (hsame ▸ hin) hout

/-! ## The rows of an event -/

/-- Every row stays with its key, in the state the rows in front of it leave. -/
def RowsTouchOwnKeys (type : RowsEventType) (st : RowLoop) (rows : List RowOfFields) : Prop :=
  ∀ before row after st', rows = before ++ row :: after → runM (onRow type) st before = .ok st' →
    TouchesOwnKey type st' row

theorem rowsTouchOwnKeys_cons {type : RowsEventType} {st : RowLoop} {row : RowOfFields}
    {rows : List RowOfFields} :
    RowsTouchOwnKeys type st (row :: rows) ↔
      TouchesOwnKey type st row ∧
        ∀ st', onRow type st row = .ok st' → RowsTouchOwnKeys type st' rows := by
  constructor
  · intro h
    refine ⟨h [] row rows st rfl rfl, ?_⟩
    intro st' hst' before row' after st'' hsplit hrun
    refine h (row :: before) row' after st'' (by simp [hsplit]) ?_
    exact (runM_cons_ok _).2 ⟨st', hst', hrun⟩
  · rintro ⟨hrow, hrest⟩ before row' after st'' hsplit hrun
    cases before with
    | nil =>
        rcases List.cons.inj hsplit with ⟨rfl, _⟩
        rw [runM_nil] at hrun
        exact Except.ok.inj hrun ▸ hrow
    | cons first before =>
        rcases List.cons.inj hsplit with ⟨rfl, hrows⟩
        rcases (runM_cons_ok _).1 hrun with ⟨st', hst', hrun'⟩
        exact hrest st' hst' before row' after st'' hrows hrun'

theorem rowsTouchOwnKeys_iff {type : RowsEventType} {rows : List RowOfFields} {st : RowLoop}
    {i : Nat} (hidx : type = .update → st.updateIdx = i)
    (hkeys : ∀ row ∈ rows, ∃ k, (readRow row).itmKey = some k) :
    RowsTouchOwnKeys type st rows ↔ ∀ img ∈ imagesFrom type i rows, KeyFits img := by
  induction rows generalizing st i with
  | nil =>
      constructor
      · intro _ img himg
        simp [imagesFrom] at himg
      · intro _ before row after st' hsplit
        simp at hsplit
  | cons row rows ih =>
      rcases hkeys row (by simp) with ⟨k, hkey⟩
      have hrest : ∀ r ∈ rows, ∃ k, (readRow r).itmKey = some k :=
        fun r hr => hkeys r (List.mem_cons_of_mem _ hr)
      have hnext : ∀ st', onRow type st row = .ok st' → type = .update → st'.updateIdx = i + 1 := by
        rintro st' hst' rfl
        rw [((onRow_ok_iff hidx).1 hst').2]
        simp [nextIdx, hidx rfl]
      have hrow := touchesOwnKey_iff hidx hkey
      rw [rowsTouchOwnKeys_cons, imagesFrom, List.forall_mem_cons, hrow]
      refine and_congr_right fun hfits => ?_
      -- The first row fits, so there is a state behind it.
      have hok := (onRow_ok_iff hidx).2 ⟨hfits.fits, rfl⟩
      constructor
      · intro h
        exact (ih (hnext _ hok) hrest).1 (h _ hok)
      · intro h st' hst'
        exact (ih (hnext st' hst') hrest).2 h

/-! ## Entries -/

/-- The entry of the table that a row addresses. -/
def Image.entry (img : Image) : Option Nat :=
  (img.update.map LookupTable.Update.key).filter fun key => decide (key < tableSize)

/-- Rows with different key columns have different entries. -/
def EntriesApart (imgs : List Image) : Prop :=
  ∀ a ∈ imgs, ∀ b ∈ imgs, ∀ e, a.entry = some e → b.entry = some e →
    (readRow a.row).itmKey = (readRow b.row).itmKey

theorem entry_of_keyFits {img : Image} {e : Nat} (h : KeyFits img) (he : img.entry = some e) :
    (readRow img.row).itmKey = some (e : Int) := by
  rcases Option.filter_eq_some_iff.1 he with ⟨hmap, _⟩
  rcases Option.map_eq_some_iff.1 hmap with ⟨op, hop, rfl⟩
  rcases key_of_update hop with ⟨hrow, hrole⟩
  rcases h with hlead | ⟨k, hk, hin⟩
  · exact absurd hlead hrole
  · have hconv : toKey k = op.key := Option.some.inj ((rowKey_of_itmKey hk).symm.trans hrow)
    rw [hk, ← hconv, (toKey_of_inTable hin).1]

theorem entriesApart_of_keyFits {imgs : List Image} (h : ∀ img ∈ imgs, KeyFits img) :
    EntriesApart imgs := by
  intro a ha b hb e hea heb
  rw [entry_of_keyFits (h a ha) hea, entry_of_keyFits (h b hb) heb]

/-- A rows event on kvs whose rows have a key column. -/
def HasKeys (ev : RowsEvent) : Prop := ∀ row ∈ ev.rows, ∃ k, KeyColumn row k

/-- Each row touches its own key only, and different keys are different entries. -/
def TouchesOwnKeys (tbl : Val) (ev : RowsEvent) : Prop :=
  RowsTouchOwnKeys ev.type ⟨0, tbl⟩ ev.rows ∧ EntriesApart ev.images

/-- The rows of an event stay with their own keys exactly when every key that is used is inside the
table. -/
theorem touchesOwnKeys_iff (tbl : Val) (ev : RowsEvent) (hkeys : HasKeys ev) :
    TouchesOwnKeys tbl ev ↔ ∀ img ∈ ev.images, KeyFits img := by
  have hcolumns : ∀ row ∈ ev.rows, ∃ k, (readRow row).itmKey = some k := by
    intro row hrow
    rcases hkeys row hrow with ⟨k, hk, _⟩
    exact ⟨k, hk⟩
  have hidx : ev.type = .update → (⟨0, tbl⟩ : RowLoop).updateIdx = 0 := fun _ => rfl
  have hrows := rowsTouchOwnKeys_iff hidx hcolumns
  constructor
  · rintro ⟨h, _⟩
    exact hrows.1 h
  · intro h
    exact ⟨hrows.2 h, entriesApart_of_keyFits h⟩

/-- A WRITE event with one row for this key. -/
def writeOf (k : Int) : RowsEvent :=
  { type := .write
    tableId := 1
    first := kvsRow 1 k [7]
    rest := [] }

theorem images_writeOf (k : Int) : (writeOf k).images = [⟨.write, kvsRow 1 k [7]⟩] := rfl

theorem hasKeys_writeOf {k : Int} (hlo : -9223372036854775808 ≤ k)
    (hhi : k < 9223372036854775808) : HasKeys (writeOf k) := by
  intro row hrow
  have hrow' : row = kvsRow 1 k [7] := by
    simpa [writeOf, RowsEvent.rows] using hrow
  subst hrow'
  exact ⟨k, rfl, hlo, hhi⟩

theorem touchesOwnKeys_iff_key_5 :
    TouchesOwnKeys LookupTable.clear (writeOf 5) ↔ ∀ img ∈ (writeOf 5).images, KeyFits img :=
  touchesOwnKeys_iff _ _ (hasKeys_writeOf (by decide) (by decide))

/-- The key 2^32 + 5 writes the entry of the key 5, and the key 2^20 ends the loop. -/
theorem writes_of_large_keys :
    (∃ tbl, rowLoop LookupTable.clear (writeOf 4294967301) = .ok tbl ∧
      tbl.shown 5 ≠ (LookupTable.clear : Val).shown 5) ∧
    (∀ tbl, rowLoop LookupTable.clear (writeOf 1048576) ≠ .ok tbl) ∧
    ¬ ∀ tbl ev, HasKeys ev → TouchesOwnKeys tbl ev := by
  refine ⟨?_, ?_, ?_⟩
  · have hfits : ∀ img ∈ (writeOf 4294967301).images, img.Fits := by
      intro img himg
      rw [images_writeOf, List.mem_singleton] at himg
      subst himg
      exact Or.inr ⟨5, rfl, by decide⟩
    refine ⟨_, rowLoop_ok_iff.2 ⟨hfits, rfl⟩, ?_⟩
    -- The table starts with a zeroed item for every key.
    have hadd := LookupTable.shown_apply_add (LookupTable.clear : Val)
      (show 5 < tableSize by decide) (rowItem (kvsRow 1 4294967301 [7]))
    have hnone : ∀ op ∈ ([] : List (LookupTable.Update NmmcItem)), op.key < tableSize := by simp
    have hzero := LookupTable.shown_run_of_none hnone (show 5 < tableSize by decide) rfl
    rw [run_nil] at hzero
    intro hsame
    have hitem := hadd.symm.trans (hsame.trans hzero)
    exact absurd (congrArg NmmcItem.datalen (Option.some.inj hitem)) (by decide)
  · intro tbl h
    rcases rowLoop_ok_iff.1 h with ⟨hfits, _⟩
    rcases hfits ⟨.write, kvsRow 1 1048576 [7]⟩ (by simp [images_writeOf]) with
      hlead | ⟨key, hkey, hin⟩
    · exact absurd hlead (by decide)
    · have hconv : key = 1048576 := Option.some.inj (hkey.symm.trans rfl)
      rw [hconv] at hin
      exact absurd hin (by decide)
  · intro h
    have hkeys : HasKeys (writeOf 4294967301) := hasKeys_writeOf (by decide) (by decide)
    have hrow := (h LookupTable.clear _ hkeys).1 [] _ [] _ rfl (runM_nil _ _)
    have hfits := (touchesOwnKey_iff (i := 0) (fun _ => rfl) rfl).1 hrow
    rcases hfits with hlead | ⟨k, hk, hin⟩
    · exact absurd hlead (by decide)
    · have hvalue : k = 4294967301 := Option.some.inj (hk.symm.trans rfl)
      rw [hvalue] at hin
      exact absurd hin (by decide)

end Server
end NmMemcached
