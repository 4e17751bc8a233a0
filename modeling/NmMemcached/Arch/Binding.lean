import NmMemcached.Arch.Open
import NmMemcached.Arch.PortSyntax

/-!
# Binding — the ring pair of a worker

`Netmap::Open` prints the interface name and the number of the worker into a port name, which
`nm_open` reads again.  The name of the interface may hold the marks of a port name itself; `Asks`
says what is read then.

A worker whose `Open` comes back has the ring pair of its number and no other
(`openNetmap_binds`).
-/

namespace NmMemcached
namespace Arch

open Lib Lib.Numerals Lib.Ledger

/-! ## The port of a worker -/

/-- The range of an `int`. -/
def IsInt (n : Int) : Prop := -2147483648 ≤ n ∧ n < 2147483648

theorem clip_of_isInt {n : Int} (h : IsInt n) : clip n = n := by
  unfold IsInt at h
  unfold clip longMin longMax
  omega

/-- An interface name that the scan for a separator passes over. -/
def Plain (name : List Char) : Prop := ∀ c ∈ name, isSeparator c = false

instance (name : List Char) : Decidable (Plain name) :=
  decidable_of_iff (name.all fun c => !isSeparator c) (by simp [Plain])

theorem length_decimal_le {n : Int} (h : IsInt n) : (decimal n).length ≤ 11 := by
  have hdigits : ∀ m : Nat, m < 10 ^ 10 → (Nat.toDigits 10 m).length ≤ 10 := fun m hm =>
    (Nat.length_toDigits_le_iff (by decide) (by decide)).2 hm
  unfold IsInt at h
  cases n with
  | ofNat m =>
      have hm : m < 10 ^ 10 := by
        simp only [Int.ofNat_eq_natCast] at h
        omega
      exact (hdigits m hm).trans (by decide)
  | negSucc m =>
      have hm : m + 1 < 10 ^ 10 := by omega
      exact Nat.succ_le_succ (hdigits (m + 1) hm)

/-- The name of an interface fits into `nmbf` with its ring. -/
theorem nmbf_eq {ifnm : List Char} {affinity : Int} (hlen : ifnm.length < ifNamSiz)
    (h : IsInt affinity) :
    nmbf ifnm affinity = netmapPrefix ++ (ifnm ++ '-' :: decimal affinity) := by
  have hdecimal := length_decimal_le h
  refine List.take_of_length_le ?_
  simp only [netmapPrefix, List.length_append, List.length_cons]
  have hprefix : "netmap:".toList.length = 7 := rfl
  unfold ifNamSiz at hlen
  omega

/-- Two texts that agree have the same last minus. -/
theorem split_last {α : Type} {x : α} {xs xs' ys ys' : List α}
    (h : xs ++ x :: ys = xs' ++ x :: ys') (hy : x ∉ ys) (hy' : x ∉ ys') : xs = xs' ∧ ys = ys' := by
  rcases List.append_eq_append_iff.1 h with ⟨as, hxs, has⟩ | ⟨as, hxs, has⟩
  · cases as with
    | nil =>
        exact ⟨by simpa using hxs.symm, (List.cons.inj has).2⟩
    | cons a as =>
        rw [(List.cons.inj has).2] at hy
        simp at hy
  · cases as with
    | nil =>
        exact ⟨by simpa using hxs, (List.cons.inj has).2.symm⟩
    | cons a as =>
        rw [(List.cons.inj has).2] at hy'
        simp at hy'

/-- A tail in front of nothing but digits is empty. -/
theorem tail_eq_nil {t : PortTail} {xs ds : List Char} (h : ds = xs ++ t.text)
    (hds : ∀ c ∈ ds, c.isDigit = true) : t.text = [] := by
  rcases tail_head t with hnil | ⟨c, rest, htext, hc⟩
  · exact hnil
  · have hmem : c ∈ ds := by simp [h, htext]
    rcases hc with rfl | rfl
    · exact absurd (hds _ hmem) (by decide)
    · exact absurd (hds _ hmem) (by decide)

theorem isDigit_decimal (m : Nat) : ∀ c ∈ Nat.toDigits 10 m, c.isDigit = true :=
  fun _ => Nat.isDigit_of_mem_toDigits (by decide) (by decide)

theorem minus_notMem_of_isDigit {ds : List Char} (h : ∀ c ∈ ds, c.isDigit = true) : '-' ∉ ds :=
  fun hmem => absurd (h _ hmem) (by decide)

/-- What `Open` asks for: the ring of the worker, or ring 0, where the name ends in a mark that
takes `-0` for its number. -/
inductive Asks (ifnm : List Char) (affinity : Int) : PortReq → Prop
  | ring (hplain : Plain ifnm) (hle : 0 ≤ affinity) (hlt : affinity < netmapRingMask) :
      Asks ifnm affinity
        { nrName := ifnm, nrFlags := nrRegOneNic, nrRingid := affinity.toNat, nrArg2 := 0 }
  | zero {name blanks : List Char} {kind : PairKind} (hname : Plain name)
      (hblanks : ∀ c ∈ blanks, isSpace c = true) (hifnm : ifnm = name ++ kind.char :: blanks)
      (hzero : affinity = 0) :
      Asks ifnm affinity { nrName := name, nrFlags := kind.reg, nrRingid := 0, nrArg2 := 0 }

/-- The port name that asks for a numbered pair and nothing else. -/
def pairName (name : List Char) (kind : PairKind) (n : Numeral) : PortName :=
  { base := .netmap name, rings := .pair kind (some n), tail := ⟨[], []⟩ }

theorem text_pairName (name : List Char) (kind : PairKind) (n : Numeral) :
    (pairName name kind n).text = netmapPrefix ++ (name ++ kind.char :: n.text) := by
  simp [pairName, PortName.text, PortBase.text, RingSet.text, PortTail.text]

theorem eq_empty_of_text {t : PortTail} (h : t.text = []) : t = ⟨[], []⟩ := by
  rcases t with ⟨memids, flags⟩
  cases memids with
  | nil =>
      by_cases hflags : flags = []
      · rw [hflags]
      · simp [PortTail.text, hflags] at h
  | cons m ms =>
      rcases m with ⟨_ | fs, num⟩
      · cases h
      · cases h

/-- What a numbered pair without a tail asks for. -/
theorem request_pairName (name : List Char) (kind : PairKind) (n : Numeral) :
    (pairName name kind n).request =
      { nrName := name, nrFlags := kind.reg, nrRingid := n.value.toNat, nrArg2 := 0 } := rfl

theorem parsePort_of_asks {ifnm : List Char} {affinity : Int} {r : PortReq}
    (hlen : ifnm.length < ifNamSiz) (h : Asks ifnm affinity r) :
    parsePort (netmapPrefix ++ (ifnm ++ '-' :: decimal affinity)) = .ok r := by
  cases h with
  | ring hplain hle hlt =>
      have hok : (pairName ifnm .oneNic (.ofInt affinity)).Ok :=
        ⟨hplain, hlen, by
          rw [pairName, RingSet.Ok, value_ofInt]
          exact ⟨hle, hlt⟩, trivial⟩
      have hreq : (pairName ifnm .oneNic (.ofInt affinity)).request =
          { nrName := ifnm, nrFlags := nrRegOneNic, nrRingid := affinity.toNat, nrArg2 := 0 } := by
        rw [request_pairName, value_ofInt]
        rfl
      rw [← hreq, ← parsePort_text hok, text_pairName, text_ofInt]
      rfl
  | zero hname hblanks hifnm hzero =>
      next name blanks kind =>
      obtain ⟨n, hn⟩ : ∃ n : Numeral, n =
          { blanks := blanks
            sign := ['-']
            digits := ['0']
            isSpace_blanks := hblanks
            sign_mem := by simp
            isDigit_digits := by simp
            digits_ne_nil := by simp } := ⟨_, rfl⟩
      have hvalue : n.value = 0 := by rw [hn]; rfl
      have htext : n.text = blanks ++ '-' :: decimal 0 := by rw [hn]; rfl
      have hok : (pairName name kind n).Ok := by
        refine ⟨hname, ?_, ?_, trivial⟩
        · have : name.length < ifnm.length := by simp [hifnm]
          exact this.trans hlen
        · rw [pairName, RingSet.Ok, hvalue]
          decide
      have hreq : (pairName name kind n).request =
          { nrName := name, nrFlags := kind.reg, nrRingid := 0, nrArg2 := 0 } := by
        rw [request_pairName, hvalue]
        rfl
      rw [← hreq, ← parsePort_text hok, text_pairName, htext, hifnm, hzero, List.append_assoc,
        List.cons_append]

/-- A number with a plus or no sign, behind the dash of one pair: it is the worker's. -/
theorem asks_of_unsigned {ifnm : List Char} {affinity : Int} {name : List Char} {kind : PairKind}
    {n : Numeral} {t : PortTail} (hint : IsInt affinity) (hname : Plain name)
    (hle : 0 ≤ n.value) (hlt : n.value < netmapRingMask) (hminus : '-' ∉ n.text ++ t.text)
    (h : name ++ kind.char :: (n.text ++ t.text) = ifnm ++ '-' :: decimal affinity) :
    Plain ifnm ∧ 0 ≤ affinity ∧ affinity < netmapRingMask ∧ kind = .oneNic ∧ name = ifnm ∧
      n.value = affinity ∧ t.text = [] := by
  have hdash : '-' ∈ name ++ kind.char :: (n.text ++ t.text) := by simp [h]
  have hkind : kind = .oneNic := by
    have hname' : '-' ∉ name := fun hmem => absurd (hname _ hmem) (by decide)
    rw [List.mem_append, or_iff_right hname', List.mem_cons, or_iff_left hminus] at hdash
    cases kind with
    | oneNic => rfl
    | pipeMaster => exact absurd hdash (by decide)
    | pipeSlave => exact absurd hdash (by decide)
  have hname' : '-' ∉ name := fun hmem => absurd (hname _ hmem) (by decide)
  rw [hkind] at h
  rcases (List.append_cons_inj_of_notMem hname' hminus).1 h with ⟨rfl, _, hdecimal⟩
  have hclip : clip n.value = n.value := clip_of_isInt ⟨by omega, by
    unfold netmapRingMask at hlt
    omega⟩
  cases affinity with
  | negSucc m =>
      rw [hdecimal, decimal] at hminus
      exact absurd List.mem_cons_self hminus
  | ofNat m =>
      have hnil : t.text = [] := tail_eq_nil hdecimal.symm (isDigit_decimal m)
      have hvalue : n.value = Int.ofNat m := by
        have hread := strtol_decimal (clip_of_isInt hint) stops_nil
        rw [List.append_nil, ← hdecimal, hnil, strtol_text n stops_nil, hclip] at hread
        exact congrArg Prod.fst hread
      exact ⟨hname, hvalue ▸ hle, hvalue ▸ hlt, hkind, rfl, hvalue, hnil⟩

/-- A number with a minus is zero, and its minus is the one in front of the worker's. -/
theorem asks_of_minus {ifnm : List Char} {affinity : Int} {xs : List Char} {n : Numeral}
    {t : PortTail} (hint : IsInt affinity) (hsign : n.sign = ['-']) (hle : 0 ≤ n.value)
    (htail : '-' ∉ t.text)
    (h : xs ++ (n.text ++ t.text) = ifnm ++ '-' :: decimal affinity) :
    affinity = 0 ∧ ifnm = xs ++ n.blanks ∧ n.value = 0 ∧ t.text = [] := by
  have hvalue := value_of_sign hsign
  have hdigits : '-' ∉ n.digits ++ t.text := by
    rw [List.mem_append, or_iff_left htail]
    exact minus_notMem_of_isDigit n.isDigit_digits
  have htext : (xs ++ n.blanks) ++ '-' :: (n.digits ++ t.text) =
      ifnm ++ '-' :: decimal affinity := by
    rw [← h, Numeral.text, hsign]
    simp
  -- Behind the last minus are the digits of the number.
  have hread : ∀ m : Nat, n.digits ++ t.text = Nat.toDigits 10 m → m = 0 ∧ t.text = [] := by
    intro m hm
    have hnil : t.text = [] := tail_eq_nil hm.symm (isDigit_decimal m)
    rw [hnil, List.append_nil] at hm
    rw [hm, Nat.ofDigitChars_ten_toDigits] at hvalue
    exact ⟨by omega, hnil⟩
  have hzero : n.value = 0 := by omega
  cases affinity with
  | ofNat m =>
      rcases split_last htext hdigits (minus_notMem_of_isDigit (isDigit_decimal m)) with
        ⟨hifnm, hm⟩
      rcases hread m hm with ⟨rfl, hnil⟩
      exact ⟨rfl, hifnm.symm, hzero, hnil⟩
  | negSucc m =>
      have htext' : (xs ++ n.blanks) ++ '-' :: (n.digits ++ t.text) =
          (ifnm ++ ['-']) ++ '-' :: Nat.toDigits 10 (m + 1) := by
        rw [htext, decimal]
        simp
      rcases split_last htext' hdigits (minus_notMem_of_isDigit (isDigit_decimal (m + 1))) with
        ⟨_, hm⟩
      exact absurd (hread (m + 1) hm).1 (Nat.succ_ne_zero m)

/-- `nm_open` gets what `Open` asks for, and nothing else is accepted. -/
theorem parsePort_nmbf_iff {ifnm : List Char} {affinity : Int} {r : PortReq}
    (hlen : ifnm.length < ifNamSiz) (hint : IsInt affinity) :
    parsePort (nmbf ifnm affinity) = .ok r ↔ Asks ifnm affinity r := by
  rw [nmbf_eq hlen hint]
  refine ⟨?_, parsePort_of_asks hlen⟩
  intro h
  rcases (parsePort_iff _ _).1 h with ⟨⟨base, rings, tail⟩, hok, htext, rfl⟩
  cases base with
  | vale bridge vport =>
      exact absurd htext (by simp [PortName.text, PortBase.text, PortBase.name, netmapPrefix,
        nmBdgName])
  | netmap name =>
      have htext : name ++ (rings.text ++ tail.text) = ifnm ++ '-' :: decimal affinity := by
        have hassoc : netmapPrefix ++ (name ++ (rings.text ++ tail.text)) =
            netmapPrefix ++ (ifnm ++ '-' :: decimal affinity) := by
          rw [← htext]
          exact (List.append_assoc _ _ _).symm
        exact List.append_cancel_left hassoc
      have htail := minus_notMem_tail hok.memids
      have hno : ∀ cs : List Char, '-' ∉ cs → name ++ (cs ++ tail.text) ≠
          ifnm ++ '-' :: decimal affinity := by
        intro cs hcs heq
        have hname : '-' ∉ name := fun hmem => absurd (hok.base _ hmem) (by decide)
        have hdash : '-' ∈ name ++ (cs ++ tail.text) := by simp [heq]
        simp [hname, hcs, htail] at hdash
      cases rings with
      | allNic =>
          exact absurd htext (hno [] (by simp))
      | sw =>
          exact absurd htext (hno ['^'] (by decide))
      | nicSw =>
          exact absurd htext (hno ['*'] (by decide))
      | pair kind num =>
          cases num with
          | none =>
              have hname : '-' ∉ name := fun hmem => absurd (hok.base _ hmem) (by decide)
              have hkind : kind = .oneNic := by
                cases kind with
                | oneNic => rfl
                | pipeMaster => exact absurd htext (hno ['\x7b'] (by decide))
                | pipeSlave => exact absurd htext (hno ['\x7d'] (by decide))
              rw [hkind] at htext
              rcases (List.append_cons_inj_of_notMem hname htail).1 htext with ⟨_, _, hdecimal⟩
              -- What is left is digits, but it starts with a mark.
              cases affinity with
              | ofNat m =>
                  have hdigits : Nat.toDigits 10 m = [] ++ tail.text := hdecimal.symm
                  exact absurd (tail_eq_nil hdigits (isDigit_decimal m)) hok.rings
              | negSucc m =>
                  have hdecimal : tail.text = '-' :: Nat.toDigits 10 (m + 1) := hdecimal
                  rw [hdecimal] at htail
                  exact absurd List.mem_cons_self htail
          | some n =>
              by_cases hsign : n.sign = ['-']
              · have htext' : (name ++ [kind.char]) ++ (n.text ++ tail.text) =
                    ifnm ++ '-' :: decimal affinity := by
                  rw [← htext]
                  simp [RingSet.text]
                rcases asks_of_minus hint hsign hok.rings.1 htail htext' with
                  ⟨hzero, hifnm, hvalue, hnil⟩
                obtain rfl := eq_empty_of_text hnil
                have hrequest := request_pairName name kind n
                rw [hvalue] at hrequest
                rw [pairName] at hrequest
                rw [hrequest]
                exact .zero hok.base n.isSpace_blanks (by simp [hifnm]) hzero
              · have hminus : '-' ∉ n.text ++ tail.text := by
                  rw [List.mem_append, or_iff_left htail, minus_mem_text_iff]
                  exact hsign
                rcases asks_of_unsigned hint hok.base hok.rings.1 hok.rings.2 hminus htext with
                  ⟨hplain, hle, hlt, rfl, rfl, hvalue, hnil⟩
                obtain rfl := eq_empty_of_text hnil
                have hrequest := request_pairName name .oneNic n
                rw [hvalue, pairName] at hrequest
                rw [hrequest]
                exact .ring hplain hle hlt

/-- Whatever it asks for, a worker gets the ring of its number on both sides. -/
theorem ringRange_of_asks {ifnm : List Char} {affinity : Int} {r : PortReq}
    (h : Asks ifnm affinity r) (a : RegAnswer) : ringRange r a = oneRing affinity.toNat := by
  cases h with
  | ring hplain hle hlt =>
      have hmod : affinity.toNat % 4096 = affinity.toNat := by
        unfold netmapRingMask at hlt
        omega
      have hrange : ringRange ⟨⟨nrRegOneNic, affinity.toNat, 0⟩, ifnm⟩ a =
          oneRing (affinity.toNat % 4096) := by
        simp [ringRange, nrRegMask, nrRegSw, nrRegAllNic, nrRegNicSw, nrRegOneNic, oneRing]
      rw [hrange, hmod]
  | zero hname hblanks hifnm hzero =>
      next kind =>
      rw [hzero]
      cases kind <;>
        simp [ringRange, PairKind.reg, nrRegMask, nrRegSw, nrRegAllNic, nrRegNicSw, nrRegOneNic,
          nrRegPipeMaster, nrRegPipeSlave, oneRing]

/-- A system that refuses nothing. -/
def Willing : {r : Type} → Sys r → r → Prop
  | _, .socket, fd => fd ≠ none
  | _, .hwaddr _ _, mac => mac ≠ none
  | _, .calloc, ok => ok = true
  | _, .openDev, fd => fd ≠ none
  | _, .regif _ _, answer => answer ≠ none
  | _, .mmap _ _, ok => ok = true
  | _, _, _ => True

section Willing

variable {held : List Resource}

theorem willing_getInterface (ifname : List Char) :
    Leaves Sys.entries Willing (fun mac h => mac ≠ none ∧ h = held) (getInterface ifname) held := by
  refine Leaves.and _ _ ?_ (leaves_getInterface Willing ifname)
  rw [getInterface, leaves_bind, leaves_call]
  intro fd hfd
  cases fd with
  | none =>
      exact absurd rfl hfd
  | some fd =>
      refine ⟨.fd fd :: held, rfl, ?_⟩
      rw [leaves_bind, leaves_call]
      intro mac hmac
      have hclose : settle (.fd fd :: held) (Sys.entries (Sys.close fd) ()) = some held := by
        simp [Sys.entries, settle]
      cases mac with
      | none =>
          exact absurd rfl hmac
      | some mac =>
          refine ⟨.fd fd :: held, by simp [Sys.entries, settle], ?_⟩
          simp only [leaves_bind, leaves_call, leaves_pure]
          intro ok _
          exact ⟨.fd fd :: held, by simp [Sys.entries, settle],
            fun _ _ => ⟨held, hclose, by simp⟩⟩

theorem willing_nmOpen {ifname : List Char} {req : PortReq} (hreq : parsePort ifname = .ok req) :
    Leaves Sys.entries Willing (fun desc _ => desc ≠ none) (nmOpen ifname) held := by
  unfold nmOpen
  rw [hreq]
  simp only [leaves_bind, leaves_call]
  rintro block rfl
  refine ⟨.block :: held, rfl, ?_⟩
  simp only [if_true, leaves_bind, leaves_call]
  intro fd hfd
  cases fd with
  | none =>
      exact absurd rfl hfd
  | some fd =>
      refine ⟨.fd fd :: .block :: held, rfl, ?_⟩
      simp only [leaves_bind, leaves_call]
      intro answer hanswer
      cases answer with
      | none =>
          exact absurd rfl hanswer
      | some a =>
          refine ⟨.fd fd :: .block :: held, by simp [Sys.entries, settle], ?_⟩
          simp only [leaves_bind, leaves_call]
          rintro mapped rfl
          exact ⟨.mapping a.nrMemsize :: .fd fd :: .block :: held, by simp [Sys.entries, settle],
            by simp⟩

theorem willing_openNetmap {ifnm : List Char} {affinity : Int} {req : PortReq}
    (hlen : ifnm.length < ifNamSiz) (hint : IsInt affinity) (h : Asks ifnm affinity req) :
    Leaves Sys.entries Willing (fun res _ => ∃ dmac desc, res = .opened dmac desc)
      (openNetmap ifnm affinity) held := by
  unfold openNetmap
  rw [if_neg (Nat.not_le.2 hlen), leaves_bind]
  refine (willing_getInterface ifnm).mono _ _ ?_
  rintro mac h' ⟨hmac, rfl⟩
  cases mac with
  | none =>
      exact absurd rfl hmac
  | some dmac =>
      simp only [leaves_bind]
      refine (willing_nmOpen ((parsePort_nmbf_iff hlen hint).2 h)).mono _ _ ?_
      intro desc h'' hdesc
      cases desc with
      | none => exact absurd rfl hdesc
      | some desc => exact ⟨dmac, desc, rfl⟩

end Willing

/-- A worker whose `Open` comes back has exactly the ring pair of its number.  It comes back, on a
system that refuses nothing, exactly when the interface name is short and asks for that ring. -/
theorem openNetmap_binds {ω : Type} (k : World Sys ω) (w : ω) (ifnm : List Char) {affinity : Int}
    (hint : IsInt affinity) :
    (∀ dmac desc, ((openNetmap ifnm affinity).run (k.exec Sys.entries) (w, [])).1 =
        .opened dmac desc →
      Asks ifnm affinity desc.req ∧ desc.rings = oneRing affinity.toNat) ∧
    ((∀ {r : Type} (c : Sys r) (w : ω), Willing c (k.answer c w).1) →
      ((∃ dmac desc, ((openNetmap ifnm affinity).run (k.exec Sys.entries) (w, [])).1 =
          .opened dmac desc) ↔
        ifnm.length < ifNamSiz ∧ ∃ req, Asks ifnm affinity req)) := by
  have hany : ∀ {r : Type} (c : Sys r) (w : ω), Any c (k.answer c w).1 := fun _ _ => trivial
  have hstart : settle [] (w, ([] : List (Entry Resource))).2 = some [] := rfl
  rcases settle_run Sys.entries Any k hany (leaves_openNetmap Any ifnm affinity) hstart with
    ⟨held, _, _, hfor⟩
  have hasks : ∀ dmac desc, ((openNetmap ifnm affinity).run (k.exec Sys.entries) (w, [])).1 =
      .opened dmac desc → ifnm.length < ifNamSiz ∧ Asks ifnm affinity desc.req := by
    intro dmac desc hres
    rcases hfor dmac desc hres with ⟨hlen, hdesc⟩
    exact ⟨hlen, (parsePort_nmbf_iff hlen hint).1 hdesc.req⟩
  refine ⟨?_, ?_⟩
  · intro dmac desc hres
    rcases (hfor dmac desc hres).2.rings with ⟨a, hrings⟩
    have hreq := (hasks dmac desc hres).2
    exact ⟨hreq, hrings.trans (ringRange_of_asks hreq a)⟩
  · intro hk
    constructor
    · rintro ⟨dmac, desc, hres⟩
      rcases hasks dmac desc hres with ⟨hlen, hreq⟩
      exact ⟨hlen, desc.req, hreq⟩
    · rintro ⟨hlen, req, hreq⟩
      rcases settle_run Sys.entries Willing k hk (willing_openNetmap hlen hint hreq) hstart with
        ⟨_, _, hres⟩
      exact hres

theorem openNetmap_demoWorld :
    ∃ dmac desc, ((openNetmap "eth4".toList 3).run (demoWorld.exec Sys.entries) ((), [])).1 =
      .opened dmac desc ∧ desc.rings = oneRing 3 := by
  have hint : IsInt 3 := ⟨by decide, by decide⟩
  have hwilling : ∀ {r : Type} (c : Sys r) (w : Unit), Willing c (demoWorld.answer c w).1 := by
    intro r c w
    cases c <;> simp [Willing, demoWorld, demoAnswer]
  have hasks : ∃ req, Asks "eth4".toList 3 req :=
    ⟨_, .ring (by decide) (by decide) (by decide)⟩
  rcases openNetmap_binds demoWorld () "eth4".toList hint with ⟨hrings, hopens⟩
  rcases (hopens hwilling).2 ⟨by decide, hasks⟩ with ⟨dmac, desc, hres⟩
  exact ⟨dmac, desc, hres, (hrings dmac desc hres).2⟩

end Arch
end NmMemcached
