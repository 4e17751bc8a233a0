import NmMemcached.Arch.PortName

/-!
# PortSyntax — the state machine against the syntax

For each state of the scan there is one lemma that says what it accepts, in terms of the states
behind it.  Put together they say that `nm_open` accepts the port names of the syntax and nothing
else, and reads every one as what it asks for (`parsePort_iff`).
-/

namespace NmMemcached
namespace Arch

open Lib Lib.Numerals

/-! ## The states -/

/-- From state `st` with the options `o` the scan of `cs` ends well, with the options `o'`. -/
def Accepts (st : PState) (o : PortOptions) (cs : List Char) (o' : PortOptions) : Prop :=
  (scanPort { o with port := cs, pState := st } >>= endPort) = .ok o'

variable {st : PState} {o o' : PortOptions} {c : Char} {cs : List Char}

theorem accepts_nil :
    Accepts st o [] o' ↔ (st = .start ∨ st = .rngsfxok ∨ st = .flagsok) ∧ o' = o := by
  rw [Accepts, scanPort]
  simp only [bind, Except.bind, endPort]
  split
  · next hno =>
      simp only [reduceCtorEq, false_iff, not_and]
      intro hst
      rcases hst with hst | hst | hst
      · exact absurd hst hno.1
      · exact absurd hst hno.2.1
      · exact absurd hst hno.2.2
  · next hok =>
      have hst : st = .start ∨ st = .rngsfxok ∨ st = .flagsok := by
        by_contra hne
        simp only [not_or] at hne
        exact hok hne
      simp [hst, eq_comm]

theorem scanPort_cons {s : PortScan} (h : s.port = c :: cs) :
    scanPort s = scanTurn c cs s >>= scanPort := by
  rw [scanPort]
  split
  · next hnil => exact absurd (h.symm.trans hnil) (by simp)
  · next c' cs' hcons =>
      obtain ⟨rfl, rfl⟩ := List.cons.inj (h.symm.trans hcons)
      split
      · next errmsg hturn => rw [hturn]; rfl
      · next s' hturn => rw [hturn]; rfl

theorem accepts_cons :
    Accepts st o (c :: cs) o' ↔
      ∃ s, scanTurn c cs { o with port := c :: cs, pState := st } = .ok s ∧
        Accepts s.pState s.toPortOptions s.port o' := by
  rw [Accepts, scanPort_cons rfl, bind_assoc, bind_ok_iff]
  rfl

theorem accepts_rngsfxok_iff :
    Accepts .rngsfxok o cs o' ↔ (cs = [] ∧ o' = o) ∨
      (∃ rest, cs = '/' :: rest ∧ Accepts .flags o rest o') ∨
      ∃ rest, cs = '@' :: rest ∧ Accepts .memid o rest o' := by
  cases cs with
  | nil =>
      simp [accepts_nil]
  | cons c cs =>
      rw [accepts_cons]
      simp only [scanTurn, scanRngsfxok]
      split
      · next hc => simp [hc]
      · next hc =>
          split
          · next hc' => simp [hc']
          · next hc' => simp [hc, hc']

theorem clip_eq {n : Int} (h : 0 ≤ clip n) (hlt : clip n < netmapRingMask) : clip n = n := by
  unfold clip longMin longMax netmapRingMask at *
  omega

theorem clip_pos_iff {n : Int} : 0 < clip n ↔ 0 < n := by
  unfold clip longMin longMax
  omega

theorem text_ne_nil (n : Numeral) : n.text ≠ [] := by
  simp [Numeral.text, n.digits_ne_nil]

theorem accepts_memid_iff :
    Accepts .memid o cs o' ↔ ∃ (n : Numeral) (rest : List Char), cs = n.text ++ rest ∧
      Stops rest ∧ o.nrArg2 = 0 ∧ 0 < n.value ∧
      Accepts .rngsfxok { o with nrArg2 := (clip n.value).toNat % 65536 } rest o' := by
  constructor
  · intro h
    cases cs with
    | nil =>
        exact absurd (accepts_nil.1 h).1 (by simp)
    | cons c cs =>
        rcases accepts_cons.1 h with ⟨s, hturn, hrest⟩
        simp only [scanTurn, scanMemid] at hturn
        split at hturn
        · cases hturn
        · next harg =>
            split at hturn
            · cases hturn
            · next hpos =>
                cases hturn
                rcases strtol_cases (c :: cs) with ⟨n, rest, htext, hstops, hread⟩ | hread
                · rw [hread] at hpos hrest
                  exact ⟨n, rest, htext, hstops, Decidable.not_not.1 harg,
                    clip_pos_iff.1 (Int.not_le.1 hpos), hrest⟩
                · -- Without a digit the number is zero.
                  rw [hread] at hpos
                  exact absurd (Int.le_refl 0) hpos
  · rintro ⟨n, rest, htext, hstops, harg, hpos, hrest⟩
    rcases List.exists_cons_of_ne_nil (text_ne_nil n) with ⟨c, ds, hds⟩
    have hcs : cs = c :: (ds ++ rest) := by rw [htext, hds, List.cons_append]
    have hread : strtol (c :: (ds ++ rest)) = (clip n.value, rest) := by
      rw [← hcs, htext, strtol_text n hstops]
    rw [hcs, accepts_cons]
    refine ⟨{ o with nrArg2 := (clip n.value).toNat % 65536, pState := .rngsfxok, port := rest },
      ?_, hrest⟩
    simp only [scanTurn, scanMemid, hread, harg, ne_eq, not_true_eq_false, if_false]
    exact if_neg (Int.not_le.2 (clip_pos_iff.2 hpos))

theorem flagBit_char (f : Flag) : flagBit f.char = some f.bit := by
  cases f <;> rfl

theorem char_ne_at (f : Flag) : f.char ≠ '@' := by
  cases f <;> decide

theorem exists_flag {bit : BitVec 32} (h : flagBit c = some bit) :
    ∃ f : Flag, f.char = c ∧ f.bit = bit := by
  unfold flagBit at h
  split at h
  · exact ⟨.exclusive, rfl, Option.some.inj h⟩
  · exact ⟨.zcopyMon, rfl, Option.some.inj h⟩
  · exact ⟨.monitorTx, rfl, Option.some.inj h⟩
  · exact ⟨.monitorRx, rfl, Option.some.inj h⟩
  · exact ⟨.rxRingsOnly, rfl, Option.some.inj h⟩
  · exact ⟨.txRingsOnly, rfl, Option.some.inj h⟩
  · cases h

/-- The options behind some flags. -/
def withFlags (o : PortOptions) (fs : List Flag) : PortOptions :=
  { o with nrFlags := addFlags o.nrFlags fs }

/-- One turn among the flags. -/
theorem accepts_flags_cons (hst : st = .flags ∨ st = .flagsok) :
    Accepts st o (c :: cs) o' ↔ (c = '@' ∧ Accepts .memid o cs o') ∨
      ∃ f : Flag, f.char = c ∧ Accepts .flagsok (withFlags o [f]) cs o' := by
  have hturn : scanTurn c cs { o with port := c :: cs, pState := st } =
      scanFlags c cs { o with port := c :: cs, pState := st } := by
    rcases hst with rfl | rfl <;> rfl
  rw [accepts_cons, hturn, scanFlags]
  by_cases hat : c = '@'
  · have hno : ¬ ∃ f : Flag, f.char = c ∧ Accepts .flagsok (withFlags o [f]) cs o' := by
      rintro ⟨f, hf, _⟩
      exact char_ne_at f (hf.trans hat)
    rw [or_iff_left hno]
    simp [hat]
  · simp only [hat, if_false, false_and, false_or]
    cases hbit : flagBit c with
    | none =>
        simp only [reduceCtorEq, false_and, exists_false, false_iff]
        rintro ⟨f, hf, _⟩
        rw [← hf, flagBit_char] at hbit
        cases hbit
    | some bit =>
        rcases exists_flag hbit with ⟨f, hf, hfbit⟩
        constructor
        · rintro ⟨s, hs, hrest⟩
          cases hs
          exact ⟨f, hf, by simpa [withFlags, addFlags, hfbit] using hrest⟩
        · rintro ⟨g, hg, hrest⟩
          have hgbit : g.bit = bit := by
            rw [← hg, flagBit_char] at hbit
            exact Option.some.inj hbit
          exact ⟨_, rfl, by simpa [withFlags, addFlags, hgbit] using hrest⟩

/-- The flags up to the end or to a memory id. -/
theorem accepts_flags_iff (hst : st = .flags ∨ st = .flagsok) :
    Accepts st o cs o' ↔
      (∃ fs, cs = flagText fs ∧ (st = .flagsok ∨ fs ≠ []) ∧ o' = withFlags o fs) ∨
      ∃ fs rest, cs = flagText fs ++ '@' :: rest ∧
        Accepts .memid (withFlags o fs) rest o' := by
  induction cs generalizing st o with
  | nil =>
      rw [accepts_nil]
      rcases hst with rfl | rfl
      · simp [flagText]
      · simp [flagText, withFlags, addFlags]
  | cons c cs ih =>
      have hnext : ∀ f : Flag, Accepts .flagsok (withFlags o [f]) cs o' ↔ _ := fun f =>
        @ih .flagsok (withFlags o [f]) (Or.inr rfl)
      rw [accepts_flags_cons hst]
      constructor
      · rintro (⟨rfl, hmemid⟩ | ⟨f, rfl, hrest⟩)
        · exact Or.inr ⟨[], cs, rfl, hmemid⟩
        · rcases (hnext f).1 hrest with ⟨fs, rfl, _, ho⟩ | ⟨fs, rest, rfl, hmemid⟩
          · exact Or.inl ⟨f :: fs, rfl, Or.inr (by simp), ho⟩
          · exact Or.inr ⟨f :: fs, rest, rfl, hmemid⟩
      · rintro (⟨fs, hcs, _, ho⟩ | ⟨fs, rest, hcs, hmemid⟩)
        · cases fs with
          | nil => cases hcs
          | cons f fs =>
              obtain ⟨rfl, rfl⟩ := List.cons.inj hcs
              exact Or.inr ⟨f, rfl, (hnext f).2 (Or.inl ⟨fs, rfl, Or.inl rfl, ho⟩)⟩
        · cases fs with
          | nil =>
              obtain ⟨rfl, rfl⟩ := List.cons.inj hcs
              exact Or.inl ⟨rfl, hmemid⟩
          | cons f fs =>
              obtain ⟨rfl, rfl⟩ := List.cons.inj hcs
              exact Or.inr ⟨f, rfl, (hnext f).2 (Or.inr ⟨fs, rest, rfl, hmemid⟩)⟩

/-! ## The tail -/

/-- The options behind a tail. -/
def PortTail.after (t : PortTail) (o : PortOptions) : PortOptions :=
  { nrFlags := addFlags o.nrFlags t.bits
    nrRingid := o.nrRingid
    nrArg2 := PortTail.lastArg2 o.nrArg2 t.memids }

/-- One memory id more in front. -/
def PortTail.cons (m : MemId) (t : PortTail) : PortTail :=
  { t with memids := m :: t.memids }

theorem text_cons (m : MemId) (t : PortTail) : (t.cons m).text = m.text ++ t.text := by
  unfold PortTail.cons PortTail.text
  rw [List.flatMap_cons, List.append_assoc]

theorem after_cons (m : MemId) (t : PortTail) (o : PortOptions) :
    (t.cons m).after o = t.after { withFlags o m.bits with nrArg2 := m.arg2 } := by
  simp [PortTail.cons, PortTail.after, PortTail.bits, PortTail.lastArg2, withFlags, addFlags]

/-- A tail is empty or starts with a `/` or an `@`. -/
theorem tail_head (t : PortTail) :
    t.text = [] ∨ ∃ c rest, t.text = c :: rest ∧ (c = '/' ∨ c = '@') := by
  rcases t with ⟨memids, flags⟩
  cases memids with
  | nil =>
      by_cases hflags : flags = []
      · exact Or.inl (by simp [PortTail.text, hflags])
      · exact Or.inr ⟨'/', flagText flags, by simp [PortTail.text, hflags], Or.inl rfl⟩
  | cons m ms =>
      rcases m with ⟨_ | fs, num⟩
      · exact Or.inr ⟨'@', _, rfl, Or.inr rfl⟩
      · exact Or.inr ⟨'/', _, rfl, Or.inl rfl⟩

/-- A positive number has no minus. -/
theorem minus_notMem_tail {arg2 : Nat} {t : PortTail} (h : PortTail.MemidsOk arg2 t.memids) :
    '-' ∉ t.text := by
  rcases t with ⟨memids, flags⟩
  have hflags : ∀ fs : List Flag, '-' ∉ flagText fs := by
    intro fs hmem
    rcases List.mem_map.1 hmem with ⟨f, _, hf⟩
    cases f <;> exact absurd hf (by decide)
  induction memids generalizing arg2 with
  | nil =>
      unfold PortTail.text
      split
      · exact List.not_mem_nil
      · have hchar : '-' ≠ '/' := by decide
        simp [hchar, hflags]
  | cons m ms ih =>
      rcases h with ⟨_, hpos, hrest⟩
      have hcons : (⟨m :: ms, flags⟩ : PortTail) = PortTail.cons m ⟨ms, flags⟩ := rfl
      have hnum : '-' ∉ m.num.text := by
        intro hmem
        rw [value_of_sign ((minus_mem_text_iff m.num).1 hmem)] at hpos
        omega
      have hmemid : '-' ∉ m.text := by
        rcases m with ⟨_ | fs, num⟩
        · simp [MemId.text, hnum]
        · simp [MemId.text, hnum, hflags]
      rw [hcons, text_cons, List.mem_append]
      exact fun hmem => hmem.elim hmemid (ih hrest)

theorem stops_tail (t : PortTail) : Stops t.text := by
  rcases tail_head t with h | ⟨c, rest, h, hc | hc⟩
  · rw [h]
    exact stops_nil
  · rw [h, hc]
    exact stops_cons (by decide)
  · rw [h, hc]
    exact stops_cons (by decide)

/-- The scan of a memory id with what is behind it. -/
theorem accepts_memId {m : MemId} {t : PortTail} (harg : o.nrArg2 = 0) (hpos : 0 < m.num.value)
    (h : Accepts .rngsfxok { withFlags o m.bits with nrArg2 := m.arg2 } t.text o') :
    Accepts .rngsfxok o (m.text ++ t.text) o' := by
  rcases m with ⟨flags, num⟩
  have hmemid : Accepts .memid (withFlags o (flags.getD [])) (num.text ++ t.text) o' :=
    accepts_memid_iff.2 ⟨num, t.text, rfl, stops_tail t, harg, hpos, h⟩
  rw [accepts_rngsfxok_iff]
  cases flags with
  | none =>
      exact Or.inr (Or.inr ⟨num.text ++ t.text, rfl, hmemid⟩)
  | some fs =>
      refine Or.inr (Or.inl ⟨flagText fs ++ '@' :: (num.text ++ t.text), ?_, ?_⟩)
      · simp [MemId.text]
      · exact (accepts_flags_iff (Or.inl rfl)).2 (Or.inr ⟨fs, _, rfl, hmemid⟩)

/-- Every tail is accepted. -/
theorem accepts_tail {t : PortTail} (hok : PortTail.MemidsOk o.nrArg2 t.memids) :
    Accepts .rngsfxok o t.text (t.after o) := by
  rcases t with ⟨memids, flags⟩
  induction memids generalizing o with
  | nil =>
      rw [accepts_rngsfxok_iff]
      by_cases hflags : flags = []
      · exact Or.inl ⟨by simp [PortTail.text, hflags], by
          simp [PortTail.after, PortTail.bits, PortTail.lastArg2, hflags, addFlags]⟩
      · refine Or.inr (Or.inl ⟨flagText flags, by simp [PortTail.text, hflags], ?_⟩)
        exact (accepts_flags_iff (Or.inl rfl)).2 (Or.inl ⟨flags, rfl, Or.inr hflags, rfl⟩)
  | cons m ms ih =>
      rcases hok with ⟨harg, hpos, hrest⟩
      have hcons : (⟨m :: ms, flags⟩ : PortTail) = PortTail.cons m ⟨ms, flags⟩ := rfl
      rw [hcons, text_cons, after_cons]
      exact accepts_memId harg hpos (ih (o := { withFlags o m.bits with nrArg2 := m.arg2 }) hrest)

/-- A memory id in front of an accepted tail. -/
theorem exists_cons {m : MemId} {rest : List Char} (harg : o.nrArg2 = 0) (hpos : 0 < m.num.value)
    (h : ∃ t : PortTail, rest = t.text ∧ PortTail.MemidsOk m.arg2 t.memids ∧
      o' = t.after { withFlags o m.bits with nrArg2 := m.arg2 }) :
    ∃ t : PortTail, m.text ++ rest = t.text ∧ PortTail.MemidsOk o.nrArg2 t.memids ∧
      o' = t.after o := by
  rcases h with ⟨t, rfl, hok, ho⟩
  exact ⟨t.cons m, (text_cons m t).symm, ⟨harg, hpos, hok⟩, by rw [after_cons, ho]⟩

/-- Nothing but a tail is accepted behind the rings. -/
theorem accepts_rngsfxok_iff_tail :
    Accepts .rngsfxok o cs o' ↔ ∃ t : PortTail, cs = t.text ∧
      PortTail.MemidsOk o.nrArg2 t.memids ∧ o' = t.after o := by
  constructor
  · intro h
    -- A memory id is read, and the rest is shorter.
    induction hlen : cs.length using Nat.strongRecOn generalizing o cs with
    | ind len ih =>
        have hmemid : ∀ (flags : Option (List Flag)) (rest : List Char),
            rest.length < cs.length →
            Accepts .memid (withFlags o (flags.getD [])) rest o' →
            ∃ (m : MemId) (rest' : List Char), m.flags = flags ∧ rest = m.num.text ++ rest' ∧
              o.nrArg2 = 0 ∧ 0 < m.num.value ∧
              ∃ t : PortTail, rest' = t.text ∧ PortTail.MemidsOk m.arg2 t.memids ∧
                o' = t.after { withFlags o m.bits with nrArg2 := m.arg2 } := by
          intro flags rest hshort hrest
          rcases accepts_memid_iff.1 hrest with ⟨n, rest', hcs, _, harg, hpos, hnext⟩
          have hlt : rest'.length < len := by
            have := congrArg List.length hcs
            rw [List.length_append] at this
            omega
          exact ⟨⟨flags, n⟩, rest', rfl, hcs, harg, hpos, ih _ hlt hnext rfl⟩
        rcases accepts_rngsfxok_iff.1 h with ⟨rfl, rfl⟩ | ⟨rest, rfl, hflags⟩ | ⟨rest, rfl, hid⟩
        · exact ⟨⟨[], []⟩, rfl, trivial, rfl⟩
        · rcases (accepts_flags_iff (Or.inl rfl)).1 hflags with
            ⟨fs, rfl, hne, ho⟩ | ⟨fs, rest', rfl, hid⟩
          · have hfs : fs ≠ [] := hne.resolve_left (by simp)
            exact ⟨⟨[], fs⟩, by simp [PortTail.text, hfs], trivial, ho⟩
          · have hshort : rest'.length < ('/' :: (flagText fs ++ '@' :: rest')).length := by
              simp only [List.length_cons, List.length_append]
              omega
            rcases hmemid (some fs) rest' hshort hid with
              ⟨m, rest'', hm, hrest, harg, hpos, hex⟩
            have htext : '/' :: (flagText fs ++ '@' :: rest') = m.text ++ rest'' := by
              rw [MemId.text, hm, hrest]
              simp
            rw [htext]
            exact exists_cons harg hpos hex
        · rcases hmemid none rest (by simp) hid with ⟨m, rest', hm, hrest, harg, hpos, hex⟩
          have htext : '@' :: rest = m.text ++ rest' := by
            rw [MemId.text, hm, hrest]
            rfl
          rw [htext]
          exact exists_cons harg hpos hex
  · rintro ⟨t, rfl, hok, rfl⟩
    exact accepts_tail hok

/-! ## The rings -/

/-- A `/` or an `@` is no number. -/
theorem strtol_mark {rest : List Char} (hc : c = '/' ∨ c = '@') :
    strtol (c :: rest) = (0, c :: rest) := by
  rcases hc with rfl | rfl <;> rfl

theorem accepts_getnum_iff :
    Accepts .getnum o cs o' ↔
      (∃ (n : Numeral) (rest : List Char), cs = n.text ++ rest ∧ Stops rest ∧ 0 ≤ n.value ∧
        n.value < netmapRingMask ∧
        Accepts .rngsfxok { o with nrRingid := n.value.toNat } rest o') ∨
      cs ≠ [] ∧ Accepts .rngsfxok { o with nrRingid := 0 } cs o' := by
  have hread : ∀ c cs, Accepts .getnum o (c :: cs) o' ↔
      ¬ ((strtol (c :: cs)).1 < 0 ∨ (netmapRingMask : Int) ≤ (strtol (c :: cs)).1) ∧
        Accepts .rngsfxok
          { o with nrRingid := (strtol (c :: cs)).1.toNat % (netmapRingMask + 1) }
          (strtol (c :: cs)).2 o' := by
    intro c cs
    rw [accepts_cons]
    simp only [scanTurn, scanGetnum]
    split
    · next hout => simp [hout]
    · next hin => simp [hin]
  constructor
  · intro h
    cases cs with
    | nil =>
        exact absurd (accepts_nil.1 h).1 (by simp)
    | cons c cs =>
        rcases (hread c cs).1 h with ⟨hin, hrest⟩
        rw [not_or, Int.not_lt, Int.not_le] at hin
        rcases strtol_cases (c :: cs) with ⟨n, rest, htext, hstops, hnum⟩ | hnum
        · rw [hnum] at hin hrest
          have hvalue := clip_eq hin.1 hin.2
          have hmod : (clip n.value).toNat % (netmapRingMask + 1) = n.value.toNat := by
            rw [hvalue] at hin ⊢
            exact Nat.mod_eq_of_lt (by omega)
          rw [hvalue] at hin
          rw [hmod] at hrest
          exact Or.inl ⟨n, rest, htext, hstops, hin.1, hin.2, hrest⟩
        · rw [hnum] at hrest
          exact Or.inr ⟨by simp, hrest⟩
  · rintro (⟨n, rest, htext, hstops, hle, hlt, hrest⟩ | ⟨hne, hrest⟩)
    · rcases List.exists_cons_of_ne_nil (text_ne_nil n) with ⟨c, ds, hds⟩
      have hcs : cs = c :: (ds ++ rest) := by rw [htext, hds, List.cons_append]
      have hclip : clip n.value = n.value := by
        unfold clip longMin longMax netmapRingMask at *
        omega
      have hnum : strtol (c :: (ds ++ rest)) = (n.value, rest) := by
        rw [← hcs, htext, strtol_text n hstops, hclip]
      rw [hcs, hread, hnum]
      refine ⟨by omega, ?_⟩
      have hmod : n.value.toNat % (netmapRingMask + 1) = n.value.toNat :=
        Nat.mod_eq_of_lt (by omega)
      rw [hmod]
      exact hrest
    · cases cs with
      | nil =>
          exact absurd rfl hne
      | cons c cs =>
          -- What is accepted behind the rings does not start with a number.
          have hc : c = '/' ∨ c = '@' := by
            rcases accepts_rngsfxok_iff.1 hrest with ⟨hnil, _⟩ | ⟨_, hcs, _⟩ | ⟨_, hcs, _⟩
            · cases hnil
            · exact Or.inl (List.cons.inj hcs).1
            · exact Or.inr (List.cons.inj hcs).1
          rw [hread, strtol_mark hc]
          exact ⟨by simp [netmapRingMask], hrest⟩

theorem exists_kind_iff {P : PairKind → List Char → Prop} :
    (∃ kind rest, c :: cs = PairKind.char kind :: rest ∧ P kind rest) ↔
      (c = '-' ∧ P .oneNic cs) ∨ (c = '\x7b' ∧ P .pipeMaster cs) ∨
        (c = '\x7d' ∧ P .pipeSlave cs) := by
  constructor
  · rintro ⟨kind, rest, hcs, h⟩
    obtain ⟨rfl, rfl⟩ := List.cons.inj hcs
    cases kind with
    | oneNic => exact Or.inl ⟨rfl, h⟩
    | pipeMaster => exact Or.inr (Or.inl ⟨rfl, h⟩)
    | pipeSlave => exact Or.inr (Or.inr ⟨rfl, h⟩)
  · rintro (⟨rfl, h⟩ | ⟨rfl, h⟩ | ⟨rfl, h⟩)
    · exact ⟨.oneNic, cs, rfl, h⟩
    · exact ⟨.pipeMaster, cs, rfl, h⟩
    · exact ⟨.pipeSlave, cs, rfl, h⟩

theorem accepts_start_iff :
    Accepts .start o cs o' ↔ Accepts .rngsfxok o cs o' ∨
      (∃ rest, cs = '^' :: rest ∧ Accepts .rngsfxok { o with nrFlags := nrRegSw } rest o') ∨
      (∃ rest, cs = '*' :: rest ∧ Accepts .rngsfxok { o with nrFlags := nrRegNicSw } rest o') ∨
      ∃ (kind : PairKind) (rest : List Char), cs = kind.char :: rest ∧
        Accepts .getnum { o with nrFlags := kind.reg } rest o' := by
  cases cs with
  | nil =>
      simp [accepts_nil]
  | cons c cs =>
      rw [accepts_cons, accepts_rngsfxok_iff, exists_kind_iff]
      simp only [scanTurn, scanStart]
      by_cases hsw : c = '^'
      · simp [hsw, PairKind.reg]
      by_cases hnicSw : c = '*'
      · simp [hnicSw, PairKind.reg]
      by_cases honeNic : c = '-'
      · simp [honeNic, PairKind.reg]
      by_cases hmaster : c = '\x7b'
      · simp [hmaster, PairKind.reg]
      by_cases hslave : c = '\x7d'
      · simp [hslave, PairKind.reg]
      by_cases hflags : c = '/'
      · simp [hflags]
      by_cases hmemid : c = '@'
      · simp [hmemid]
      · simp [hsw, hnicSw, honeNic, hmaster, hslave, hflags, hmemid]

/-- The options `nm_open` starts with. -/
def startOptions : PortOptions := { nrFlags := nrRegAllNic, nrRingid := 0, nrArg2 := 0 }

/-- The options behind the rings. -/
def RingSet.options (rings : RingSet) : PortOptions :=
  { nrFlags := rings.reg, nrRingid := rings.ringid, nrArg2 := 0 }

theorem accepts_getnum_iff_tail {kind : PairKind} :
    Accepts .getnum { startOptions with nrFlags := kind.reg } cs o' ↔
      ∃ (num : Option Numeral) (t : PortTail), cs = num.elim [] Numeral.text ++ t.text ∧
        (RingSet.pair kind num).Ok t ∧ PortTail.MemidsOk 0 t.memids ∧
        o' = t.after (RingSet.pair kind num).options := by
  rw [accepts_getnum_iff]
  constructor
  · rintro (⟨n, rest, rfl, _, hle, hlt, hrest⟩ | ⟨hne, hrest⟩)
    · rcases accepts_rngsfxok_iff_tail.1 hrest with ⟨t, rfl, hok, ho⟩
      exact ⟨some n, t, rfl, ⟨hle, hlt⟩, hok, ho⟩
    · rcases accepts_rngsfxok_iff_tail.1 hrest with ⟨t, rfl, hok, ho⟩
      exact ⟨none, t, rfl, hne, hok, ho⟩
  · rintro ⟨num, t, rfl, hnum, hok, rfl⟩
    cases num with
    | none =>
        exact Or.inr ⟨hnum, accepts_rngsfxok_iff_tail.2 ⟨t, rfl, hok, rfl⟩⟩
    | some n =>
        exact Or.inl ⟨n, t.text, rfl, stops_tail t, hnum.1, hnum.2,
          accepts_rngsfxok_iff_tail.2 ⟨t, rfl, hok, rfl⟩⟩

/-- What is accepted behind the name. -/
theorem accepts_suffix_iff :
    Accepts .start startOptions cs o' ↔ ∃ (rings : RingSet) (t : PortTail),
      cs = rings.text ++ t.text ∧ rings.Ok t ∧ PortTail.MemidsOk 0 t.memids ∧
        o' = t.after rings.options := by
  have htail : ∀ (o : PortOptions) (rest : List Char), o.nrArg2 = 0 →
      (Accepts .rngsfxok o rest o' ↔ ∃ t : PortTail, rest = t.text ∧
        PortTail.MemidsOk 0 t.memids ∧ o' = t.after o) := by
    intro o rest harg
    rw [accepts_rngsfxok_iff_tail, harg]
  rw [accepts_start_iff, htail _ _ rfl]
  constructor
  · rintro (⟨t, rfl, hok, ho⟩ | ⟨rest, rfl, h⟩ | ⟨rest, rfl, h⟩ | ⟨kind, rest, rfl, h⟩)
    · exact ⟨.allNic, t, rfl, trivial, hok, ho⟩
    · rcases (htail _ _ rfl).1 h with ⟨t, rfl, hok, ho⟩
      exact ⟨.sw, t, rfl, trivial, hok, ho⟩
    · rcases (htail _ _ rfl).1 h with ⟨t, rfl, hok, ho⟩
      exact ⟨.nicSw, t, rfl, trivial, hok, ho⟩
    · rcases accepts_getnum_iff_tail.1 h with ⟨num, t, rfl, hnum, hok, ho⟩
      exact ⟨.pair kind num, t, rfl, hnum, hok, ho⟩
  · rintro ⟨rings, t, rfl, hrings, hok, rfl⟩
    cases rings with
    | allNic =>
        exact Or.inl ⟨t, rfl, hok, rfl⟩
    | sw =>
        exact Or.inr (Or.inl ⟨t.text, rfl, (htail _ _ rfl).2 ⟨t, rfl, hok, rfl⟩⟩)
    | nicSw =>
        exact Or.inr (Or.inr (Or.inl ⟨t.text, rfl, (htail _ _ rfl).2 ⟨t, rfl, hok, rfl⟩⟩))
    | pair kind num =>
        exact Or.inr (Or.inr (Or.inr ⟨kind, _, rfl,
          accepts_getnum_iff_tail.2 ⟨num, t, rfl, hrings, hok, rfl⟩⟩))

/-! ## The name -/

theorem parseSuffix_iff {name port : List Char} {r : PortReq} :
    parseSuffix name port = .ok r ↔ name.length < ifNamSiz ∧
      ∃ (rings : RingSet) (t : PortTail), port = rings.text ++ t.text ∧ rings.Ok t ∧
        PortTail.MemidsOk 0 t.memids ∧ r = { t.after rings.options with nrName := name } := by
  by_cases hlong : ifNamSiz ≤ name.length
  · simp [parseSuffix, hlong, Nat.not_lt.2 hlong]
  · have hscan : ∀ o, Accepts .start startOptions port o ↔ _ := fun o => accepts_suffix_iff
    simp only [Accepts, startOptions] at hscan
    simp only [parseSuffix, if_neg hlong, Nat.not_le.1 hlong, true_and]
    constructor
    · intro h
      split at h
      · cases h
      · next o ho =>
          rcases (hscan o).1 ho with ⟨rings, t, hport, hrings, hok, rfl⟩
          exact ⟨rings, t, hport, hrings, hok, (Except.ok.inj h).symm⟩
    · rintro ⟨rings, t, hport, hrings, hok, rfl⟩
      rw [(hscan _).2 ⟨rings, t, hport, hrings, hok, rfl⟩]

theorem isSeparator_of_kind (kind : PairKind) : isSeparator kind.char = true := by
  cases kind <;> decide

/-- The name ends where the rings or the tail begin. -/
theorem suffix_head (rings : RingSet) (t : PortTail) :
    ∀ c ∈ (rings.text ++ t.text).head?, isSeparator c = true := by
  intro c hc
  cases rings with
  | allNic =>
      rcases tail_head t with h | ⟨d, rest, h, hd⟩
      · rw [RingSet.text, List.nil_append, h] at hc
        cases hc
      · rw [RingSet.text, List.nil_append, h] at hc
        cases hc
        rcases hd with rfl | rfl <;> decide
  | sw =>
      cases hc
      decide
  | nicSw =>
      cases hc
      decide
  | pair kind num =>
      cases hc
      exact isSeparator_of_kind kind

/-- A text without separators is what the scan for one passes over. -/
theorem span_separator {name suffix : List Char} (hname : ∀ c ∈ name, isSeparator c = false)
    (hsuffix : ∀ c ∈ suffix.head?, isSeparator c = true) :
    (name ++ suffix).takeWhile (fun c => !isSeparator c) = name ∧
      (name ++ suffix).dropWhile (fun c => !isSeparator c) = suffix := by
  have hpass : ∀ c ∈ name, (!isSeparator c) = true := by
    intro c hc
    rw [hname c hc]
    rfl
  rw [List.takeWhile_append_of_pos hpass, List.dropWhile_append_of_pos hpass]
  cases suffix with
  | nil =>
      simp
  | cons c suffix =>
      simp [hsuffix c rfl]

theorem not_separator_of_mem_takeWhile {name : List Char} :
    ∀ c ∈ name.takeWhile (fun c => !isSeparator c), isSeparator c = false := by
  intro c hc
  simpa using List.mem_takeWhile_imp hc

/-- An identifier has no colon and no separator. -/
theorem of_nmIsIdentifier (h : nmIsIdentifier cs = true) (hc : c ∈ cs) :
    c ≠ ':' ∧ isSeparator c = false := by
  have hword : (c.isAlphanum || c == '_') = true := List.all_eq_true.1 h c hc
  constructor
  · rintro rfl
    exact absurd hword (by decide)
  · by_contra hsep
    have hmem : c ∈ separators := List.contains_iff_mem.1 (Bool.not_eq_false _ ▸ hsep)
    have hnone : (separators.all fun d => !(d.isAlphanum || d == '_')) = true := rfl
    have hc := List.all_eq_true.1 hnone c hmem
    rw [hword] at hc
    cases hc

theorem parsePort_netmap (port : List Char) :
    parsePort (netmapPrefix ++ port) =
      parseSuffix (port.takeWhile fun c => !isSeparator c)
        (port.dropWhile fun c => !isSeparator c) := by
  have hprefix : ¬ (¬ netmapPrefix <+: netmapPrefix ++ port ∧
      ¬ nmBdgName <+: netmapPrefix ++ port) := fun h => h.1 (List.prefix_append _ _)
  rw [parsePort, if_neg hprefix]
  rfl

theorem parsePort_vale (rest : List Char) :
    parsePort (nmBdgName ++ rest) =
      match rest.dropWhile (· ≠ ':') with
      | [] => .error (.fail "missing ':' in vale name")
      | _ :: vpname =>
          if nmIsIdentifier (rest.takeWhile (· ≠ ':')) = false then
            .error (.fail "invalid bridge name")
          else if nmIsIdentifier (vpname.takeWhile fun c => !isSeparator c) = false then
            .error (.fail "invalid bridge port name")
          else
            parseSuffix
              (nmBdgName ++ rest.takeWhile (· ≠ ':') ++
                ':' :: vpname.takeWhile fun c => !isSeparator c)
              (vpname.dropWhile fun c => !isSeparator c) := by
  have hprefix : ¬ (¬ netmapPrefix <+: nmBdgName ++ rest ∧ ¬ nmBdgName <+: nmBdgName ++ rest) :=
    fun h => h.2 (List.prefix_append _ _)
  rw [parsePort, if_neg hprefix]
  rfl

/-- The port names of the syntax are accepted, as what they ask for. -/
theorem parsePort_text {p : PortName} (h : p.Ok) : parsePort p.text = .ok p.request := by
  rcases p with ⟨base, rings, tail⟩
  have hsuffix := parseSuffix_iff.2
    ⟨h.name, rings, tail, rfl, h.rings, h.memids, rfl⟩
  have hhead := suffix_head rings tail
  have hbase := h.base
  cases base with
  | netmap name =>
      have htext : PortName.text ⟨.netmap name, rings, tail⟩ =
          netmapPrefix ++ (name ++ (rings.text ++ tail.text)) := List.append_assoc _ _ _
      rcases @span_separator name _ hbase hhead with ⟨htake, hdrop⟩
      rw [htext, parsePort_netmap, htake, hdrop]
      exact hsuffix
  | vale bridge vport =>
      have htext : PortName.text ⟨.vale bridge vport, rings, tail⟩ =
          nmBdgName ++ (bridge ++ ':' :: (vport ++ (rings.text ++ tail.text))) := by
        simp [PortName.text, PortBase.text, PortBase.name]
      have hbridge : ∀ c ∈ bridge, decide (c ≠ ':') = true := fun c hc =>
        decide_eq_true (of_nmIsIdentifier hbase.1 hc).1
      have htakeBridge : (bridge ++ ':' :: (vport ++ (rings.text ++ tail.text))).takeWhile
          (· ≠ ':') = bridge := by
        rw [List.takeWhile_append_of_pos hbridge]
        simp
      have hdropBridge : (bridge ++ ':' :: (vport ++ (rings.text ++ tail.text))).dropWhile
          (· ≠ ':') = ':' :: (vport ++ (rings.text ++ tail.text)) := by
        rw [List.dropWhile_append_of_pos hbridge]
        simp
      rcases @span_separator vport _ (fun c hc => (of_nmIsIdentifier hbase.2 hc).2) hhead
        with ⟨htake, hdrop⟩
      rw [htext, parsePort_vale, hdropBridge, htakeBridge]
      simp only [htake, hdrop, hbase.1, hbase.2, reduceCtorEq, if_false]
      exact hsuffix

/-- `nm_open` accepts the port names of the syntax and no other text, and reads each as what it
asks for. -/
theorem parsePort_iff (ifname : List Char) (r : PortReq) :
    parsePort ifname = .ok r ↔ ∃ p : PortName, p.Ok ∧ p.text = ifname ∧ p.request = r := by
  constructor
  · intro h
    by_cases hnetmap : netmapPrefix <+: ifname
    · rcases hnetmap with ⟨port, rfl⟩
      rw [parsePort_netmap, parseSuffix_iff] at h
      rcases h with ⟨hname, rings, t, hport, hrings, hmemids, rfl⟩
      refine ⟨⟨.netmap (port.takeWhile fun c => !isSeparator c), rings, t⟩,
        ⟨not_separator_of_mem_takeWhile, hname, hrings, hmemids⟩, ?_, rfl⟩
      rw [PortName.text, PortBase.text, ← hport, List.append_assoc, List.takeWhile_append_dropWhile]
    · by_cases hvale : nmBdgName <+: ifname
      · rcases hvale with ⟨rest, rfl⟩
        rw [parsePort_vale] at h
        split at h
        · cases h
        · next colon vpname hrest =>
            have hcolon : colon = ':' := by
              have hhead := List.head?_dropWhile_not (fun c : Char => decide (c ≠ ':')) rest
              rw [hrest] at hhead
              simpa using hhead
            split at h
            · cases h
            · next hbridge =>
                split at h
                · cases h
                · next hvport =>
                    rw [parseSuffix_iff] at h
                    rcases h with ⟨hname, rings, t, hport, hrings, hmemids, rfl⟩
                    refine ⟨⟨.vale (rest.takeWhile (· ≠ ':'))
                      (vpname.takeWhile fun c => !isSeparator c), rings, t⟩,
                      ⟨⟨by simpa using hbridge, by simpa using hvport⟩, hname, hrings, hmemids⟩,
                      ?_, rfl⟩
                    have hvp : vpname.takeWhile (fun c => !isSeparator c) ++
                        (rings.text ++ t.text) = vpname := by
                      rw [← hport, List.takeWhile_append_dropWhile]
                    calc
                      _ = nmBdgName ++ (rest.takeWhile (· ≠ ':') ++
                          ':' :: (vpname.takeWhile (fun c => !isSeparator c) ++
                            (rings.text ++ t.text))) := by
                        simp [PortName.text, PortBase.text, PortBase.name]
                      _ = nmBdgName ++ (rest.takeWhile (· ≠ ':') ++
                          rest.dropWhile (· ≠ ':')) := by rw [hvp, hrest, hcolon]
                      _ = nmBdgName ++ rest := by rw [List.takeWhile_append_dropWhile]
      · rw [parsePort, if_pos ⟨hnetmap, hvale⟩] at h
        cases h
  · rintro ⟨p, hok, rfl, rfl⟩
    exact parsePort_text hok

end Arch
end NmMemcached
