import NmMemcached.Server.Rows

/-!
# Selection — which rows events the loop applies

`BinLogLoop` remembers one table map, the latest of the log, and only when its name starts with
`kvs` in any case.  A rows event is applied when something is remembered, whatever table id it
carries: the calls of its rows are made, one after the other until one throws (`onEventCalls`).  A
rows event belongs to kvs when the latest table map *with its table id* has exactly that name.

`binLogLoop_spec` says what the loop remembers after a log and when it is still running;
`selects_iff` says in which ways it goes wrong (`Astray`).
-/

namespace NmMemcached
namespace Server

open Lib Table

/-! ## Table maps of a log -/

def BinaryLogEvent.tableMap? : BinaryLogEvent → Option TableMapEvent
  | .tableMap ev => some ev
  | _ => none

/-- The latest table map of the log that satisfies `p`. -/
def latestMap (p : TableMapEvent → Bool) (log : List BinaryLogEvent) : Option TableMapEvent :=
  lastOn p (log.filterMap BinaryLogEvent.tableMap?)

/-- `strncasecmp(TBL_KVS, name, strlen(TBL_KVS)) == 0`. -/
def startsLikeKvs (ev : TableMapEvent) : Bool :=
  strncaseeq tblKvs.length tblKvs ev.tblnam

/-- The latest table map of all has a name that starts like kvs. -/
def LatestStartsLikeKvs (log : List BinaryLogEvent) : Prop :=
  ∃ ev, latestMap (fun _ => true) log = some ev ∧ startsLikeKvs ev = true

/-- No rows event behind such a map makes the row loop throw. -/
def NothingThrown (log : List BinaryLogEvent) : Prop :=
  ∀ before ev after, log = before ++ .rows ev :: after → LatestStartsLikeKvs before →
    ∀ img ∈ ev.images, img.Fits

/-! ## What the loop remembers -/

theorem latestMap_append_singleton (p : TableMapEvent → Bool) (log : List BinaryLogEvent)
    (e : BinaryLogEvent) :
    latestMap p (log ++ [e]) =
      match e with
      | .tableMap ev => if p ev then some ev else latestMap p log
      | _ => latestMap p log := by
  cases e <;> simp [latestMap, BinaryLogEvent.tableMap?, List.filterMap_cons]

/-- The remembered table map, from the log. -/
def remembered (log : List BinaryLogEvent) : Option TableMapEvent :=
  (latestMap (fun _ => true) log).filter startsLikeKvs

theorem isSome_remembered (log : List BinaryLogEvent) :
    remembered log ≠ none ↔ LatestStartsLikeKvs log := by
  simp [remembered, LatestStartsLikeKvs, Option.filter_eq_none_iff]

theorem nothingThrown_nil : NothingThrown [] := by
  intro before ev after h
  simp at h

theorem nothingThrown_append_singleton {log : List BinaryLogEvent} {e : BinaryLogEvent} :
    NothingThrown (log ++ [e]) ↔
      NothingThrown log ∧
        ∀ ev, e = .rows ev → LatestStartsLikeKvs log → ∀ img ∈ ev.images, img.Fits := by
  constructor
  · intro h
    refine ⟨?_, ?_⟩
    · intro before ev after hlog
      exact h before ev (after ++ [e]) (by simp [hlog])
    · rintro ev rfl
      exact h log ev [] rfl
  · rintro ⟨hlog, hlast⟩ before ev after hsplit
    rcases split_append_singleton hsplit with ⟨_, rfl, he⟩ | ⟨middle, _, rfl⟩
    · exact hlast ev he.symm
    · exact hlog before ev middle rfl

theorem onEvent_tableMap (st : EventLoop) (ev : TableMapEvent) :
    onEvent st (.tableMap ev) =
      if startsLikeKvs ev then .ok { st with tmpevent := some ev }
      else .ok { st with tmpevent := none } := rfl

/-- The loop keeps remembering what the log says. -/
theorem tmpevent_onEvent {log : List BinaryLogEvent} {st st' : EventLoop} {e : BinaryLogEvent}
    (hst : st.tmpevent = remembered log) (h : onEvent st e = .ok st') :
    st'.tmpevent = remembered (log ++ [e]) := by
  cases e with
  | tableMap ev =>
      have hrem : remembered (log ++ [.tableMap ev]) = (some ev).filter startsLikeKvs := by
        simp [remembered, latestMap_append_singleton]
      rw [hrem]
      by_cases hlike : startsLikeKvs ev = true
      · rw [onEvent_tableMap, if_pos hlike] at h
        rw [← Except.ok.inj h, Option.filter_some_pos hlike]
      · rw [onEvent_tableMap, if_neg hlike] at h
        rw [← Except.ok.inj h, Option.filter_some_neg (by simpa using hlike)]
  | rows ev =>
      have hrem : remembered (log ++ [.rows ev]) = remembered log := by
        simp [remembered, latestMap_append_singleton]
      cases htmp : st.tmpevent with
      | none =>
          simp [onEvent, htmp] at h
          rw [hrem, ← hst, h]
      | some map =>
          simp only [onEvent, htmp] at h
          rcases bind_ok_iff.1 h with ⟨tbl, _, htbl⟩
          rw [hrem, ← hst, ← Except.ok.inj htbl, htmp]
  | other =>
      have hrem : remembered (log ++ [.other]) = remembered log := by
        simp [remembered, latestMap_append_singleton]
      rw [hrem, ← hst, ← Except.ok.inj h]

/-- Only the row loop can throw. -/
theorem onEvent_runs_iff {log : List BinaryLogEvent} {st : EventLoop}
    (hst : st.tmpevent = remembered log) (e : BinaryLogEvent) :
    (∃ st', onEvent st e = .ok st') ↔
      ∀ ev, e = .rows ev → LatestStartsLikeKvs log → ∀ img ∈ ev.images, img.Fits := by
  cases e with
  | tableMap ev =>
      have hrows : ∀ ev', BinaryLogEvent.tableMap ev ≠ .rows ev' := by
        intro ev' h
        cases h
      refine ⟨fun _ ev' h => absurd h (hrows ev'), fun _ => ?_⟩
      by_cases hlike : startsLikeKvs ev = true <;> simp [onEvent_tableMap, hlike]
  | other =>
      have hrows : ∀ ev', BinaryLogEvent.other ≠ .rows ev' := by
        intro ev' h
        cases h
      exact ⟨fun _ ev' h => absurd h (hrows ev'), fun _ => ⟨st, rfl⟩⟩
  | rows ev =>
      have hlike := isSome_remembered log
      rw [← hst] at hlike
      cases htmp : st.tmpevent with
      | none =>
          -- Nothing is remembered, and rows that are not read cannot throw.
          have hnot : ¬ LatestStartsLikeKvs log := fun hl => hlike.2 hl htmp
          refine ⟨fun _ ev' _ hl => absurd hl hnot, fun _ => ⟨st, ?_⟩⟩
          simp [onEvent, htmp]
      | some map =>
          have hyes : LatestStartsLikeKvs log := hlike.1 (by simp [htmp])
          constructor
          · rintro ⟨st', h⟩ ev' hev _
            simp only [onEvent, htmp] at h
            rcases bind_ok_iff.1 h with ⟨tbl, hrow, _⟩
            cases hev
            exact (rowLoop_ok_iff.1 hrow).1
          · intro hfits
            have hrow : rowLoop st.tbl ev = .ok (run Image.next st.tbl ev.images) :=
              rowLoop_ok_iff.2 ⟨hfits ev rfl hyes, rfl⟩
            refine ⟨{ st with tbl := run Image.next st.tbl ev.images }, ?_⟩
            simp only [onEvent, htmp]
            exact bind_ok_iff.2 ⟨_, hrow, rfl⟩

/-- The loop is running after a log exactly when nothing was thrown, and then it remembers what
the log says. -/
theorem binLogLoop_spec (log : List BinaryLogEvent) :
    ((∃ st, binLogLoop log = .ok st) ↔ NothingThrown log) ∧
      ∀ st, binLogLoop log = .ok st → st.tmpevent = remembered log := by
  induction log using List.reverseRecOn with
  | nil =>
      refine ⟨⟨fun _ => nothingThrown_nil, fun _ => ⟨_, rfl⟩⟩, ?_⟩
      intro st hst
      rw [← Except.ok.inj hst]
      rfl
  | append_singleton log e ih =>
      rcases ih with ⟨hruns, htmp⟩
      -- The loop gets past the last event when it got there and the event does not throw.
      have hsplit : ∀ st', binLogLoop (log ++ [e]) = .ok st' ↔
          ∃ st, binLogLoop log = .ok st ∧ onEvent st e = .ok st' := by
        intro st'
        rw [binLogLoop, runM_append_ok]
        simp only [runM_singleton]
        rfl
      refine ⟨?_, ?_⟩
      · rw [nothingThrown_append_singleton, ← hruns]
        constructor
        · rintro ⟨st', h⟩
          rcases (hsplit st').1 h with ⟨st, hst, he⟩
          exact ⟨⟨st, hst⟩, (onEvent_runs_iff (htmp st hst) e).1 ⟨st', he⟩⟩
        · rintro ⟨⟨st, hst⟩, hfits⟩
          rcases (onEvent_runs_iff (htmp st hst) e).2 hfits with ⟨st', he⟩
          exact ⟨st', (hsplit st').2 ⟨st, hst, he⟩⟩
      · intro st' h
        rcases (hsplit st').1 h with ⟨st, hst, he⟩
        exact tmpevent_onEvent (htmp st hst) he

/-! ## Calls of the table -/

/-- The calls for some images, up to the first that does not come back. -/
def callsOf : List Image → List RowCall
  | [] => []
  | img :: imgs =>
      match img.call with
      | .none => callsOf imgs
      | .op op => .op op :: if op.key < tableSize then callsOf imgs else []
      | .stray => [.stray]

/-- To apply an event is to make these calls. -/
def RowsEvent.calls (ev : RowsEvent) : List RowCall := callsOf ev.images

/-- The calls the row loop makes. -/
def rowLoopCalls (type : RowsEventType) : RowLoop → List RowOfFields → List RowCall
  | _, [] => []
  | st, rof :: rest =>
      let behind :=
        match onRow type st rof with
        | .ok st' => rowLoopCalls type st' rest
        | .error _ => []
      match rowCall type st.updateIdx rof with
      | .none => behind
      | call => call :: behind

/-- The calls `BinLogLoop` makes for an event. -/
def onEventCalls (st : EventLoop) : BinaryLogEvent → List RowCall
  | .rows ev =>
      match st.tmpevent with
      | none => []
      | some _ => rowLoopCalls ev.type { updateIdx := 0, tbl := st.tbl } ev.rows
  | _ => []

/-- The calls it makes for an event behind a log. -/
def binLogCalls (log : List BinaryLogEvent) (e : BinaryLogEvent) : List RowCall :=
  match binLogLoop log with
  | .ok st => onEventCalls st e
  | .error _ => []

def RowCall.op? (call : RowCall) : Option (LookupTable.Update NmmcItem) :=
  match call with
  | .op update => some update
  | _ => .none

theorem rowLoopCalls_eq {type : RowsEventType} {st : RowLoop} {i : Nat}
    (hidx : type = .update → st.updateIdx = i) (rows : List RowOfFields) :
    rowLoopCalls type st rows = callsOf (imagesFrom type i rows) := by
  induction rows generalizing st i with
  | nil =>
      rfl
  | cons row rows ih =>
      have hnext : ∀ tbl, rowLoopCalls type ⟨nextIdx type st.updateIdx, tbl⟩ rows =
          callsOf (imagesFrom type (i + 1) rows) := by
        intro tbl
        refine ih ?_
        rintro rfl
        simp [nextIdx, hidx rfl]
      rw [rowLoopCalls, imagesFrom, callsOf, onRow, rowCall_eq hidx]
      cases hcall : Image.call ⟨role type i, row⟩ with
      | none =>
          exact hnext st.tbl
      | stray =>
          rfl
      | op op =>
          have hexec := fun tbl' => afterCall_exec st.tbl tbl' op
          simp only [RowCall.exec]
          by_cases hkey : op.key < tableSize
          · rw [(hexec _).2 ⟨hkey, rfl⟩, if_pos hkey, ← hnext (st.tbl.apply op)]
            rfl
          · rw [if_neg hkey]
            cases hafter : afterCall (op.exec st.tbl) with
            | error msg => rfl
            | ok tbl' => exact absurd ((hexec tbl').1 hafter).1 hkey

theorem op?_call (img : Image) : img.call.op? = img.update := by
  rcases img with ⟨r, row⟩
  cases hkey : rowKey row <;> cases r <;> simp [Image.call, Image.update, RowCall.op?, hkey]

theorem call_eq_none_iff (img : Image) : img.call = .none ↔ img.role = .leading := by
  rcases img with ⟨r, row⟩
  cases hkey : rowKey row <;> cases r <;> simp [Image.call, hkey]

theorem filterMap_callsOf {imgs : List Image} (h : ∀ img ∈ imgs, img.Fits) :
    (callsOf imgs).filterMap RowCall.op? = updates imgs := by
  induction imgs with
  | nil =>
      rfl
  | cons img imgs ih =>
      rcases List.forall_mem_cons.1 h with ⟨hfits, hrest⟩
      have hop := op?_call img
      rw [callsOf, updates, List.filterMap_cons, ← hop]
      cases hcall : img.call with
      | none =>
          exact ih hrest
      | stray =>
          -- A row that fits comes back.
          have hexec : img.call.exec LookupTable.clear = .ok (img.next LookupTable.clear) :=
            (exec_call_iff img).2 ⟨hfits, rfl⟩
          rw [hcall] at hexec
          cases hexec
      | op op =>
          rw [hcall] at hop
          have hkey : op.key < tableSize := key_lt_of_update hop.symm hfits
          simp only [RowCall.op?, if_pos hkey, List.filterMap_cons]
          rw [ih hrest, updates]

/-- The calls are what the row loop does to the table. -/
theorem tbl_of_rowLoop {tbl tbl' : Val} {ev : RowsEvent} (h : rowLoop tbl ev = .ok tbl') :
    tbl' = run LookupTable.apply tbl (ev.calls.filterMap RowCall.op?) := by
  rcases rowLoop_ok_iff.1 h with ⟨hfits, rfl⟩
  rw [RowsEvent.calls, filterMap_callsOf hfits, run_next]

theorem callsOf_eq_nil_iff (imgs : List Image) :
    callsOf imgs = [] ↔ ∀ img ∈ imgs, img.role = .leading := by
  induction imgs with
  | nil =>
      simp [callsOf]
  | cons img imgs ih =>
      rw [callsOf, List.forall_mem_cons, ← call_eq_none_iff, ← ih]
      cases img.call <;> simp

/-- An event asks for no call exactly when it is an UPDATE of one row. -/
theorem calls_eq_nil_iff (ev : RowsEvent) :
    ev.calls = [] ↔ ev.type = .update ∧ ev.rest = [] := by
  rcases ev with ⟨type, tableId, first, rest⟩
  rw [RowsEvent.calls, callsOf_eq_nil_iff]
  cases type with
  | write => simp [RowsEvent.images, RowsEvent.rows, imagesFrom, role]
  | delete => simp [RowsEvent.images, RowsEvent.rows, imagesFrom, role]
  | update =>
      cases rest with
      | nil => simp [RowsEvent.images, RowsEvent.rows, imagesFrom, role]
      | cons row rest => simp [RowsEvent.images, RowsEvent.rows, imagesFrom, role]

/-- The calls behind a log are those of the event, or none. -/
theorem binLogCalls_rows (log : List BinaryLogEvent) (ev : RowsEvent) :
    (LatestStartsLikeKvs log ∧ NothingThrown log → binLogCalls log (.rows ev) = ev.calls) ∧
      (¬ (LatestStartsLikeKvs log ∧ NothingThrown log) → binLogCalls log (.rows ev) = []) := by
  rcases binLogLoop_spec log with ⟨hruns, htmp⟩
  rw [← isSome_remembered, ← hruns, binLogCalls]
  cases hloop : binLogLoop log with
  | error msg =>
      exact ⟨fun h => absurd h.2 (by simp), fun _ => rfl⟩
  | ok st =>
      rw [← htmp st hloop]
      cases hst : st.tmpevent with
      | none =>
          exact ⟨fun h => absurd rfl h.1, fun _ => by simp [onEventCalls, hst]⟩
      | some map =>
          refine ⟨fun _ => ?_, fun h => absurd ⟨by simp, st, rfl⟩ h⟩
          simp only [onEventCalls, hst]
          exact rowLoopCalls_eq (fun _ => rfl) ev.rows

/-! ## Selection -/

/-- The latest table map with the table id names the table kvs. -/
def Belongs (log : List BinaryLogEvent) (tableId : Nat) : Prop :=
  ∃ ev, latestMap (fun ev => decide (ev.tableId = tableId)) log = some ev ∧ ev.tblnam = tblKvs

/-- Behind this log the event is applied: its calls are made, and the table is what they leave. -/
def Applied (log : List BinaryLogEvent) (ev : RowsEvent) : Prop :=
  binLogCalls log (.rows ev) = ev.calls ∧
    ∀ st, binLogLoop log = .ok st →
      onEvent st (.rows ev) = (rowLoop st.tbl ev).map fun tbl => { st with tbl := tbl }

/-- Behind this log the event does nothing. -/
def Skipped (log : List BinaryLogEvent) (ev : RowsEvent) : Prop :=
  binLogCalls log (.rows ev) = [] ∧
    ∀ st, binLogLoop log = .ok st → onEvent st (.rows ev) = .ok st

/-- A rows event is applied when it belongs to kvs, and skipped otherwise. -/
def Selects (log : List BinaryLogEvent) : Prop :=
  ∀ before ev after, log = before ++ .rows ev :: after →
    (Belongs before ev.tableId → Applied before ev) ∧
      (¬ Belongs before ev.tableId → Skipped before ev)

/-- What leads the loop astray at a rows event with this table id. -/
inductive Astray (log : List BinaryLogEvent) (tableId : Nat) : Prop
  /-- The map of its own table is the latest, and the name only starts like kvs. -/
  | lookalike (last : TableMapEvent) (latest : latestMap (fun _ => true) log = some last)
      (own : last.tableId = tableId) (like : startsLikeKvs last = true)
      (name : last.tblnam ≠ tblKvs) (running : NothingThrown log)
  /-- The latest map is that of another table and starts like kvs, its own map, if any, does not
  name kvs. -/
  | otherTable (last : TableMapEvent) (latest : latestMap (fun _ => true) log = some last)
      (other : last.tableId ≠ tableId) (like : startsLikeKvs last = true)
      (name : ∀ own, latestMap (fun ev => decide (ev.tableId = tableId)) log = some own →
        own.tblnam ≠ tblKvs) (running : NothingThrown log)
  /-- Its own map names kvs, and the map of another table came later. -/
  | covered (own last : TableMapEvent)
      (latestOwn : latestMap (fun ev => decide (ev.tableId = tableId)) log = some own)
      (name : own.tblnam = tblKvs) (latest : latestMap (fun _ => true) log = some last)
      (other : last.tableId ≠ tableId) (unlike : startsLikeKvs last = false)
  /-- Its own map names kvs, and an earlier rows event made the row loop throw. -/
  | stopped (own : TableMapEvent)
      (latestOwn : latestMap (fun ev => decide (ev.tableId = tableId)) log = some own)
      (name : own.tblnam = tblKvs) (thrown : ¬ NothingThrown log)

theorem rowLoop_of_no_calls {ev : RowsEvent} (h : ev.calls = []) (tbl : Val) :
    rowLoop tbl ev = .ok tbl := by
  have hlead := (callsOf_eq_nil_iff ev.images).1 h
  have hfits : ∀ img ∈ ev.images, img.Fits := fun img himg => Or.inl (hlead img himg)
  have hrow : rowLoop tbl ev = .ok (run Image.next tbl ev.images) := rowLoop_ok_iff.2 ⟨hfits, rfl⟩
  have htbl := tbl_of_rowLoop hrow
  rw [h] at htbl
  rw [hrow, htbl]
  rfl

theorem applied_iff_calls {log : List BinaryLogEvent} {ev : RowsEvent} :
    Applied log ev ↔ binLogCalls log (.rows ev) = ev.calls := by
  refine ⟨fun h => h.1, fun h => ⟨h, fun st hst => ?_⟩⟩
  rw [binLogCalls, hst] at h
  cases htmp : st.tmpevent with
  | none =>
      -- No call is made, so none was asked for.
      have hnil : ev.calls = [] := by
        simpa [onEventCalls, htmp] using h.symm
      rw [rowLoop_of_no_calls hnil]
      rcases st with ⟨tmpevent, tbl⟩
      obtain rfl : tmpevent = none := htmp
      rfl
  | some map =>
      simp only [onEvent, htmp]
      cases rowLoop st.tbl ev <;> rfl

theorem skipped_iff_calls {log : List BinaryLogEvent} {ev : RowsEvent} :
    Skipped log ev ↔ binLogCalls log (.rows ev) = [] := by
  refine ⟨fun h => h.1, fun h => ⟨h, fun st hst => ?_⟩⟩
  rw [binLogCalls, hst] at h
  cases htmp : st.tmpevent with
  | none =>
      simp [onEvent, htmp]
  | some map =>
      simp only [onEventCalls, htmp] at h
      have hnil : ev.calls = [] := (rowLoopCalls_eq (fun _ => rfl) ev.rows).symm.trans h
      simp only [onEvent, htmp, rowLoop_of_no_calls hnil]
      simp [bind, Except.bind, ← htmp]

/-- The latest map of all is the latest of its table. -/
theorem latestMap_own {log : List BinaryLogEvent} {last : TableMapEvent}
    (h : latestMap (fun _ => true) log = some last) :
    latestMap (fun ev => decide (ev.tableId = last.tableId)) log = some last := by
  have hboth := lastOn_and_of_true (q := fun ev => decide (ev.tableId = last.tableId)) h (by simp)
  simpa [latestMap] using hboth

/-- A table with a map has a latest map of all. -/
theorem exists_latestMap {log : List BinaryLogEvent} {p : TableMapEvent → Bool}
    {own : TableMapEvent} (h : latestMap p log = some own) :
    ∃ last, latestMap (fun _ => true) log = some last := by
  refine Option.ne_none_iff_exists'.1 fun hnone => ?_
  have hboth := lastOn_and_of_none (q := p) hnone
  simp only [Bool.true_and] at hboth
  rw [latestMap, hboth] at h
  cases h

theorem startsLikeKvs_of_name {ev : TableMapEvent} (h : ev.tblnam = tblKvs) :
    startsLikeKvs ev = true := by
  rw [startsLikeKvs, h]
  decide

/-- The loop goes wrong in these four ways. -/
theorem astray_iff (log : List BinaryLogEvent) (tableId : Nat) :
    Astray log tableId ↔
      ¬ ((LatestStartsLikeKvs log ∧ NothingThrown log) ↔ Belongs log tableId) := by
  constructor
  · intro h hiff
    cases h with
    | lookalike last latest own like name running =>
        rcases hiff.1 ⟨⟨last, latest, like⟩, running⟩ with ⟨ev, hev, hname⟩
        have hown := latestMap_own latest
        rw [own, hev] at hown
        exact name (Option.some.inj hown ▸ hname)
    | otherTable last latest other like name running =>
        rcases hiff.1 ⟨⟨last, latest, like⟩, running⟩ with ⟨ev, hev, hname⟩
        exact name ev hev hname
    | covered own last latestOwn name latest other unlike =>
        rcases hiff.2 ⟨own, latestOwn, name⟩ with ⟨⟨ev, hev, hlike⟩, _⟩
        rw [Option.some.inj (latest.symm.trans hev), hlike] at unlike
        cases unlike
    | stopped own latestOwn name thrown =>
        exact thrown (hiff.2 ⟨own, latestOwn, name⟩).2
  · intro h
    by_cases hbelongs : Belongs log tableId
    · -- The event is skipped.
      rcases hbelongs with ⟨own, hown, hname⟩
      by_cases hok : NothingThrown log
      · rcases exists_latestMap hown with ⟨last, hlast⟩
        have hunlike : startsLikeKvs last = false := by
          by_contra hlike
          exact h (iff_of_true ⟨⟨last, hlast, by simpa using hlike⟩, hok⟩ ⟨own, hown, hname⟩)
        refine .covered own last hown hname hlast ?_ hunlike
        rintro rfl
        have hsame : last = own := Option.some.inj ((latestMap_own hlast).symm.trans hown)
        rw [hsame, startsLikeKvs_of_name hname] at hunlike
        cases hunlike
      · exact .stopped own hown hname hok
    · -- The event is applied.
      have happlied : LatestStartsLikeKvs log ∧ NothingThrown log := by
        by_contra hnot
        exact h (iff_of_false hnot hbelongs)
      rcases happlied with ⟨⟨last, hlast, hlike⟩, hok⟩
      by_cases hid : last.tableId = tableId
      · refine .lookalike last hlast hid hlike (fun hname => hbelongs ⟨last, ?_, hname⟩) hok
        rw [← hid]
        exact latestMap_own hlast
      · exact .otherTable last hlast hid hlike (fun own hown hname => hbelongs ⟨own, hown, hname⟩)
          hok

/-- The loop applies exactly the rows events of kvs in the logs where nothing leads it astray at a
rows event that asks for a call. -/
theorem selects_iff (log : List BinaryLogEvent) :
    Selects log ↔
      ∀ before ev after, log = before ++ .rows ev :: after →
        ¬ (ev.type = .update ∧ ev.rest = []) → ¬ Astray before ev.tableId := by
  refine forall_congr' fun before => forall_congr' fun ev => forall_congr' fun after =>
    imp_congr_right fun _ => ?_
  rcases binLogCalls_rows before ev with ⟨hmade, hnone⟩
  rw [astray_iff, not_not, ← calls_eq_nil_iff, applied_iff_calls, skipped_iff_calls]
  by_cases happlied : LatestStartsLikeKvs before ∧ NothingThrown before
  · rw [hmade happlied]
    simp only [happlied, true_and, and_true, implies_true, true_iff]
    exact ⟨fun h hcalls => by_contra fun hb => hcalls (h hb),
      fun h hb => by_contra fun hcalls => hb (h hcalls)⟩
  · rw [hnone happlied]
    simp only [happlied, false_iff, implies_true, and_true]
    exact ⟨fun h hcalls hb => hcalls (h hb).symm, fun h hb => by_contra fun hcalls =>
      h (fun hc => hcalls hc.symm) hb⟩

/-- A table whose name only starts with kvs. -/
def kvsOldMap : TableMapEvent := { tableId := 7, tblnam := "kvs_old".toList }

/-- The maps of a statement that changes kvs and another table. -/
def kvsMap : TableMapEvent := { tableId := 7, tblnam := "kvs".toList }
def auditMap : TableMapEvent := { tableId := 8, tblnam := "audit".toList }

def insertRow (tableId : Nat) : RowsEvent :=
  { type := .write, tableId := tableId, first := kvsRow 1 5 [0xaa], rest := [] }

/-- A row of `kvs_old` is applied; in a statement on kvs and audit the row of kvs is skipped. -/
theorem not_selects_kvs_old_and_audit :
    ¬ Selects [.tableMap kvsOldMap, .rows (insertRow 7)] ∧
      ¬ Selects [.tableMap kvsMap, .tableMap auditMap, .rows (insertRow 7),
        .rows (insertRow 8)] := by
  have hcalls : (insertRow 7).calls ≠ [] := by
    rw [Ne, calls_eq_nil_iff]
    exact fun h => RowsEventType.noConfusion h.1
  refine ⟨?_, ?_⟩
  · intro hsel
    have hlike : LatestStartsLikeKvs [.tableMap kvsOldMap] := ⟨kvsOldMap, rfl, by decide⟩
    have hok : NothingThrown [.tableMap kvsOldMap] := (binLogLoop_spec _).1.1 ⟨_, rfl⟩
    have hnot : ¬ Belongs [.tableMap kvsOldMap] 7 := by
      rintro ⟨ev, hev, hname⟩
      rw [← show kvsOldMap = ev from Option.some.inj hev] at hname
      exact absurd hname (by decide)
    have hskipped := ((hsel [.tableMap kvsOldMap] (insertRow 7) [] rfl).2 hnot).1
    rw [(binLogCalls_rows _ _).1 ⟨hlike, hok⟩] at hskipped
    exact hcalls hskipped
  · intro hsel
    have hunlike : ¬ LatestStartsLikeKvs [.tableMap kvsMap, .tableMap auditMap] := by
      rintro ⟨ev, hev, hlike⟩
      rw [← show auditMap = ev from Option.some.inj hev] at hlike
      exact absurd hlike (by decide)
    have hbelongs : Belongs [.tableMap kvsMap, .tableMap auditMap] 7 := ⟨kvsMap, rfl, rfl⟩
    have happlied := ((hsel [.tableMap kvsMap, .tableMap auditMap] (insertRow 7)
      [.rows (insertRow 8)] rfl).1 hbelongs).1
    rw [(binLogCalls_rows _ _).2 fun h => hunlike h.1] at happlied
    exact hcalls happlied.symm

end Server
end NmMemcached
