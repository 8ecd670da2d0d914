/-
PN replay protection.

The abstract layer is a filter on a list of MPDUs whose state is the last packet number accepted, if
there was one: an encrypted MPDU is kept if its number is newer (`Newer`) than that, and then
becomes the last one.
-/
import Qcacld.RxPn
import Mathlib.Data.List.Flatten

set_option autoImplicit false

namespace Qcacld.RxPn

open Lib Function List

section

open Option

/-! ## Newer packet numbers -/

/-- A packet number of `len` bits as a number: all of the union for WAPI, and
its low 48 bits otherwise. -/
def pnVal (len : Nat) (pn : Pn) : Nat :=
  if len = 128 then pn.w1.toNat * 2 ^ 64 + pn.w0.toNat else pn.w0.toNat % 2 ^ 48

/-- The parity that WAPI asks of a unicast packet number: even numbers go to the
AP, odd ones come from it. -/
def wapiParity (opmode : OpMode) : Nat := if opmode = .ap then 0 else 1

def Newer (cfg : Cfg) (i : SecIndex) (new old : Pn) : Prop :=
  pnVal (rx_pn (cfg.sec_type i)).len old < pnVal (rx_pn (cfg.sec_type i)).len new ∧
    (cfg.sec_type i = .wapi → i = .ucast → new.w0.toNat % 2 = wapiParity cfg.opmode)
deriving Decidable

theorem cmp48_eq_false (new old : Pn) (u : Bool) (o : OpMode) :
    ol_rx_pn_cmp48 new old u o = false ↔ pnVal 48 old < pnVal 48 new := by
  have hmask : (0xffffffffffff#64).toNat = 2 ^ 48 - 1 := by decide
  rw [ol_rx_pn_cmp48, decide_eq_false_iff_not, BitVec.not_le, BitVec.lt_def,
    BitVec.toNat_and, BitVec.toNat_and, hmask, Nat.and_two_pow_sub_one_eq_mod,
    Nat.and_two_pow_sub_one_eq_mod]
  rfl

theorem words_eq_false (new old : Pn) :
    (if new.w1 = old.w1 then decide (new.w0 ≤ old.w0) else decide (new.w1 < old.w1)) = false ↔
      pnVal 128 old < pnVal 128 new := by
  simp only [pnVal, if_true]
  split
  · next he => rw [decide_eq_false_iff_not, BitVec.le_def, he]; omega
  · next hne =>
    have hne : new.w1.toNat ≠ old.w1.toNat := fun h => hne (BitVec.eq_of_toNat_eq h)
    rw [decide_eq_false_iff_not, BitVec.lt_def]; omega

theorem low_bit_eq (w : BitVec 64) (k : Nat) (hk : k < 2) :
    (w &&& 1#64) = BitVec.ofNat 64 k ↔ w.toNat % 2 = k := by
  have hone : (1#64).toNat = 2 ^ 1 - 1 := by decide
  rw [← BitVec.toNat_inj, BitVec.toNat_and, hone, Nat.and_two_pow_sub_one_eq_mod,
    BitVec.toNat_ofNat, Nat.mod_eq_of_lt (Nat.lt_of_lt_of_le hk (by decide))]

theorem wapi_cmp_eq_false (new old : Pn) (u : Bool) (o : OpMode) :
    ol_rx_pn_wapi_cmp new old u o = false ↔
      pnVal 128 old < pnVal 128 new ∧ (u = true → new.w0.toNat % 2 = wapiParity o) := by
  rw [← words_eq_false, ol_rx_pn_wapi_cmp, wapiParity]
  cases u with
  | false => simp
  | true =>
    by_cases ho : o = .ap
    · simp [ho, low_bit_eq new.w0 0 (by decide)]
    · simp [ho, low_bit_eq new.w0 1 (by decide)]

/-- **The comparisons.** For a cipher that has packet numbers, the comparison of
its entry finds no replay exactly if the number is newer. -/
theorem cmp_eq_false (cfg : Cfg) (i : SecIndex) (hlen : (rx_pn (cfg.sec_type i)).len ≠ 0) :
    ∃ cmp, (rx_pn (cfg.sec_type i)).cmp = some cmp ∧
      ∀ new old, cmp new old (i = .ucast) cfg.opmode = false ↔ Newer cfg i new old := by
  unfold Newer
  cases hsec : cfg.sec_type i with
  | tkip | tkip_nomic | aes_ccmp =>
    refine ⟨ol_rx_pn_cmp48, rfl, fun new old => ?_⟩
    rw [cmp48_eq_false]; simp [rx_pn]
  | wapi =>
    refine ⟨ol_rx_pn_wapi_cmp, rfl, fun new old => ?_⟩
    rw [wapi_cmp_eq_false]; simp [rx_pn]
  | none | wep128 | wep104 | wep40 | aes_ccmp_256 | aes_gcmp | aes_gcmp_256 =>
    rw [hsec] at hlen; exact absurd rfl hlen

/-! ## The filter -/

structure Mpdu where
  init : List Nat
  last : Nat

def Mpdu.msdus (m : Mpdu) : List Nat := m.init ++ [m.last]

/-- The first MSDU, whose descriptor stands for the MPDU. -/
def Mpdu.head (m : Mpdu) : Nat := m.init.headD m.last

def msdusOf (mpdus : List Mpdu) : List Nat := mpdus.flatMap Mpdu.msdus

section Filter

variable (cfg : Cfg) (b : Buffers) (i : SecIndex)

def encrypted (m : Mpdu) : Bool := htt_rx_mpdu_is_encrypted cfg (b.desc m.head)

def pnOf (m : Mpdu) : Pn :=
  htt_rx_mpdu_desc_pn cfg (b.desc m.head) (b.stack m.head) (rx_pn (cfg.sec_type i)).len

/-- A MPDU is accepted if it is not encrypted, or is the first one, or is newer
than the last one. -/
def accepts (last : Option Pn) (m : Mpdu) : Bool :=
  !encrypted cfg b m || last.all fun old => Newer cfg i (pnOf cfg b i m) old

def lastAfter (last : Option Pn) (m : Mpdu) : Option Pn :=
  if encrypted cfg b m then some (pnOf cfg b i m) else last

def kept : Option Pn → List Mpdu → List Mpdu
  | _, [] => []
  | last, m :: ms =>
    if accepts cfg b i last m then m :: kept (lastAfter cfg b i last m) ms else kept last ms

def rejected : Option Pn → List Mpdu → List Mpdu
  | _, [] => []
  | last, m :: ms =>
    if accepts cfg b i last m then rejected (lastAfter cfg b i last m) ms
    else m :: rejected last ms

def lastOf : Option Pn → List Mpdu → Option Pn
  | last, [] => last
  | last, m :: ms =>
    if accepts cfg b i last m then lastOf (lastAfter cfg b i last m) ms else lastOf last ms

end Filter

/-! ## Buffers in memory -/

structure Mpdu.Complete (desc : Nat → RxDesc) (m : Mpdu) : Prop where
  init : ∀ x ∈ m.init, (desc x).last_msdu = false
  last : (desc m.last).last_msdu = true

theorem linked_msdus_head {next : Nat → Option Nat} {m : Mpdu} {p q : Option Nat}
    (h : Linked next p m.msdus q) : p = some m.head := by
  unfold Mpdu.msdus at h
  unfold Mpdu.head
  cases hm : m.init with
  | nil => rw [hm] at h; exact h.1
  | cons x l => rw [hm] at h; exact h.1

theorem mpdu_list_next_eq {b : Buffers} {l : List Nat} {t : Nat} {q : Option Nat} (fuel x : Nat)
    (h : Linked b.next (some x) (l ++ [t]) q) (hinit : ∀ y ∈ l, (b.desc y).last_msdu = false)
    (hlast : (b.desc t).last_msdu = true) (hfuel : l.length < fuel) :
    ol_rx_mpdu_list_next b fuel x = some (t, q) := by
  induction l generalizing fuel x with
  | nil =>
    obtain ⟨hx, hq⟩ := h
    obtain rfl := some.inj hx
    obtain ⟨n, rfl⟩ := Nat.exists_eq_succ_of_ne_zero (Nat.ne_of_gt hfuel)
    rw [ol_rx_mpdu_list_next, if_pos hlast]; exact congrArg (fun q => some (x, q)) hq
  | cons y l ih =>
    obtain ⟨hx, hrest⟩ := h
    obtain rfl := some.inj hx
    obtain ⟨n, rfl⟩ := Nat.exists_eq_succ_of_ne_zero (Nat.ne_zero_of_lt hfuel)
    have hy := hinit x mem_cons_self
    obtain ⟨z, hz⟩ : ∃ z, b.next x = some z := ⟨_, linked_msdus_head (m := ⟨l, t⟩) hrest⟩
    rw [ol_rx_mpdu_list_next, if_neg (by rw [hy]; decide), hz, bind_some]
    rw [length_cons] at hfuel
    exact ih n z (hz ▸ hrest) (fun w hw => hinit w (mem_cons_of_mem x hw)) (by omega)

/-! ## One MPDU -/

/-- The list built so far: the cells `l`, whatever the last one still points
at. -/
structure Built (v : Vars) (l : List Nat) : Prop where
  linked : ∃ r, Linked v.next v.out_list_head l r
  tail : v.out_list_tail = l.getLast?
  empty : l = [] → v.out_list_head = none

/-- The state of the filter, in the variables of the loop. -/
def Vars.last (v : Vars) : Option Pn := if v.last_pn_valid then some v.last_pn else none

section Step

variable {v : Vars} {l : List Nat} {m : Mpdu} {q : Option Nat}

theorem add_mpdu_spec (hb : Built v l) (hm : Linked v.next (some m.head) m.msdus q)
    (hnd : (l ++ m.msdus).Nodup) :
    ∃ v', add_mpdu_to_list v m.head m.last = some v' ∧ Built v' (l ++ m.msdus) ∧
      (∀ x, x ∉ l → v'.next x = v.next x) ∧
      v' = { v with
        next := v'.next, out_list_head := v'.out_list_head, out_list_tail := v'.out_list_tail } := by
  have htail : (l ++ m.msdus).getLast? = some m.last := by
    rw [Mpdu.msdus, ← append_assoc, getLast?_concat]
  rcases eq_nil_or_concat l with rfl | ⟨l', t, rfl⟩
  · have hhead := hb.empty rfl
    refine ⟨{ v with out_list_head := some m.head, out_list_tail := some m.last },
      by rw [add_mpdu_to_list, hhead], ⟨⟨q, hm⟩, htail.symm, fun hnil => ?_⟩,
      fun x _ => rfl, rfl⟩
    rw [hnil] at htail; exact absurd htail (by simp)
  · rw [concat_eq_append] at hb hnd htail ⊢
    obtain ⟨r, hr⟩ := hb.linked
    have ht : v.out_list_tail = some t := by rw [hb.tail, getLast?_concat]
    have hhead : ∃ x, v.out_list_head = some x := ⟨_, linked_msdus_head (m := ⟨l', t⟩) hr⟩
    obtain ⟨x, hx⟩ := hhead
    have hd := nodup_append.mp hnd
    have htl : t ∉ l' := by
      have := nodup_append.mp hd.1
      exact fun h => this.2.2 t h t mem_cons_self rfl
    have htm : t ∉ m.msdus := fun h =>
      hd.2.2 t (mem_append_right _ mem_cons_self) t h rfl
    refine ⟨{ v.set_next t (some m.head) with out_list_tail := some m.last },
      by rw [add_mpdu_to_list, hx, ht, map_some], ⟨⟨q, ?_⟩, htail.symm, fun hnil => ?_⟩,
      fun y hy => ?_, rfl⟩
    · refine linked_append.mpr ⟨some m.head, ?_, ?_⟩
      · exact linked_concat_update hr htl _
      · exact (linked_update_of_notMem htm).mpr hm
    · rw [hnil] at htail; exact absurd htail (by simp)
    · have hne : y ≠ t := fun he => hy (he ▸ mem_append_right _ mem_cons_self)
      exact update_of_ne hne _ _

variable {cfg : Cfg} {b : Buffers} {i : SecIndex}

theorem pn_is_replay_eq (hlen : (rx_pn (cfg.sec_type i)).len ≠ 0) (new : Pn) :
    pn_is_replay cfg i v new = some (!v.last.all fun old => Newer cfg i new old) := by
  obtain ⟨cmp, hcmp, hnew⟩ := cmp_eq_false cfg i hlen
  unfold pn_is_replay Vars.last
  cases v.last_pn_valid with
  | false => rfl
  | true =>
    rw [if_pos rfl, if_pos rfl, hcmp, map_some, all_some]
    congr 1
    rw [Bool.eq_iff_iff, Bool.not_eq_true', decide_eq_false_iff_not, ← hnew, Bool.not_eq_false]

/-- What one pass of the loop does to a MPDU: it is linked in, or freed. -/
inductive Pass (cfg : Cfg) (b : Buffers) (i : SecIndex) (v : Vars) (l : List Nat) (m : Mpdu) :
    Vars → Prop where
  | keep {v'} : accepts cfg b i v.last m = true → Built v' (l ++ m.msdus) →
      v'.last = lastAfter cfg b i v.last m → v'.freed = v.freed → v'.rx_err = v.rx_err →
      Pass cfg b i v l m v'
  | reject {v'} : accepts cfg b i v.last m = false → Built v' l → v'.last = v.last →
      v'.freed = v.freed ++ m.msdus → v'.rx_err = v.rx_err ++ [m.head] → Pass cfg b i v l m v'

theorem check_mpdu_spec (hlen : (rx_pn (cfg.sec_type i)).len ≠ 0) (hb : Built v l)
    (hc : m.Complete b.desc) (hm : Linked v.next (some m.head) m.msdus q)
    (hnd : (l ++ m.msdus).Nodup) {fuel : Nat} (hfuel : m.init.length < fuel) :
    ∃ v', check_mpdu cfg b i fuel m.head v = some (v', q) ∧ Pass cfg b i v l m v' ∧
      ∀ x, x ∉ l → v'.next x = v.next x := by
  have hnext : ol_rx_mpdu_list_next { b with next := v.next } fuel m.head = some (m.last, q) :=
    mpdu_list_next_eq fuel m.head hm hc.init hc.last hfuel
  unfold check_mpdu
  dsimp only
  rw [hnext, bind_some]
  by_cases henc : encrypted cfg b m = true
  · have henc' : htt_rx_mpdu_is_encrypted cfg (b.desc m.head) = true := henc
    rw [if_neg (by rw [henc']; decide), pn_is_replay_eq hlen, bind_some]
    by_cases hnew : (v.last.all fun old => Newer cfg i (pnOf cfg b i m) old) = true
    · -- accepted: the number is remembered
      obtain ⟨w, hadd, hbuilt, hframe, hw⟩ :=
        add_mpdu_spec (v := { v with last_pn_valid := true }) ⟨hb.linked, hb.tail, hb.empty⟩ hm hnd
      have hrep : (!v.last.all fun old => Newer cfg i (pnOf cfg b i m) old) = false := by
        rw [hnew]; rfl
      refine ⟨{ w with last_pn := pnOf cfg b i m }, ?_, .keep ?_ ?_ ?_ ?_ ?_, hframe⟩
      · change (if (!v.last.all fun old => Newer cfg i (pnOf cfg b i m) old) = true
          then _ else _) = _
        rw [if_neg (by rw [hrep]; decide), hadd]
        rfl
      · rw [accepts, hnew, Bool.or_true]
      · exact ⟨hbuilt.linked, hbuilt.tail, hbuilt.empty⟩
      · rw [lastAfter, if_pos henc, Vars.last, hw]; rfl
      · rw [hw]
      · rw [hw]
    · -- rejected: there was a last number, and the MSDUs are freed
      have hrep : (!v.last.all fun old => Newer cfg i (pnOf cfg b i m) old) = true := by
        rw [Bool.eq_false_iff.mpr hnew]; rfl
      have hvalid : v.last_pn_valid = true := by
        unfold Vars.last at hnew
        by_contra hv
        rw [if_neg hv] at hnew; exact hnew rfl
      have hfree : free_mpdu { b with next := v.next } m.last fuel m.head = some m.msdus := by
        have htl : m.last ∉ m.init := by
          have hd := nodup_append.mp (nodup_append.mp hnd).2.1
          exact fun h => hd.2.2 m.last h m.last mem_cons_self rfl
        exact walkTo_eq fuel hm htl hfuel
      refine ⟨{ v with
          last_pn_valid := true
          freed := v.freed ++ m.msdus
          rx_err := v.rx_err ++ [m.head] }, ?_, .reject ?_ ?_ ?_ rfl rfl, fun _ _ => rfl⟩
      · change (if (!v.last.all fun old => Newer cfg i (pnOf cfg b i m) old) = true
          then _ else _) = _
        rw [if_pos hrep, hfree]; rfl
      · rw [accepts, henc, Bool.eq_false_iff.mpr hnew]; rfl
      · exact ⟨hb.linked, hb.tail, hb.empty⟩
      · unfold Vars.last; rw [hvalid]
  · have henc' : htt_rx_mpdu_is_encrypted cfg (b.desc m.head) = false := Bool.eq_false_iff.mpr henc
    obtain ⟨w, hadd, hbuilt, hframe, hw⟩ := add_mpdu_spec hb hm hnd
    refine ⟨w, ?_, .keep ?_ hbuilt ?_ ?_ ?_, hframe⟩
    · rw [if_pos (by rw [henc']; rfl), hadd]
      rfl
    · rw [accepts, Bool.eq_false_iff.mpr henc]; rfl
    · rw [lastAfter, if_neg henc, hw]; rfl
    · rw [hw]
    · rw [hw]

end Step

/-! ## The loop -/

section Loop

variable {cfg : Cfg} {b : Buffers} {i : SecIndex}

/-- **The loop refines the filter.** It comes to an end, with the kept MPDUs
linked behind what was there and the rejected ones freed. -/
theorem check_loop_spec (hlen : (rx_pn (cfg.sec_type i)).len ≠ 0) (mpdus : List Mpdu) (fuel : Nat)
    (v : Vars) (l : List Nat) (p : Option Nat) (hb : Built v l)
    (hp : Linked v.next p (msdusOf mpdus) none) (hnd : (l ++ msdusOf mpdus).Nodup)
    (hc : ∀ m ∈ mpdus, m.Complete b.desc) (hfuel : (msdusOf mpdus).length < fuel) :
    ∃ v', check_loop cfg b i fuel p v = some v' ∧
      Built v' (l ++ msdusOf (kept cfg b i v.last mpdus)) ∧
      v'.last = lastOf cfg b i v.last mpdus ∧
      v'.freed = v.freed ++ msdusOf (rejected cfg b i v.last mpdus) ∧
      v'.rx_err = v.rx_err ++ (rejected cfg b i v.last mpdus).map Mpdu.head := by
  induction mpdus generalizing fuel v l p with
  | nil =>
    obtain rfl : p = none := hp
    refine ⟨v, by unfold check_loop; rfl, ?_, rfl, ?_, ?_⟩
    · simpa only [kept, msdusOf, flatMap_nil, append_nil] using hb
    · simp only [rejected, msdusOf, flatMap_nil, append_nil]
    · simp only [rejected, map_nil, append_nil]
  | cons m mpdus ih =>
    have hsplit : msdusOf (m :: mpdus) = m.msdus ++ msdusOf mpdus := flatMap_cons
    rw [hsplit] at hp hnd hfuel
    obtain ⟨q, hm, hq⟩ := linked_append.mp hp
    obtain rfl := linked_msdus_head hm
    obtain ⟨n, rfl⟩ := Nat.exists_eq_succ_of_ne_zero (Nat.ne_zero_of_lt hfuel)
    have hlenm : m.msdus.length = m.init.length + 1 := by
      rw [Mpdu.msdus, length_append, length_singleton]
    rw [length_append, hlenm] at hfuel
    rw [← append_assoc] at hnd
    have hnd' := nodup_append.mp hnd
    obtain ⟨w, hw, hpass, hframe⟩ := check_mpdu_spec hlen hb (hc m mem_cons_self) hm
      hnd'.1 (show m.init.length < n by omega)
    -- the rest of the list is as it was: the loop has written to `l` only
    have hrest : Linked w.next q (msdusOf mpdus) none := by
      refine (linked_congr fun x hx => hframe x fun hl => ?_).mpr hq
      exact hnd'.2.2 x (mem_append_left _ hl) x hx rfl
    have hloop : check_loop cfg b i (n + 1) (some m.head) v = check_loop cfg b i n q w := by
      rw [check_loop, hw, bind_some]
    have hcr : ∀ m' ∈ mpdus, m'.Complete b.desc := fun m' h => hc m' (mem_cons_of_mem m h)
    rw [hloop, kept, rejected, lastOf]
    cases hpass with
    | keep hacc hbuilt hlast hfreed herr =>
      rw [if_pos hacc, if_pos hacc, if_pos hacc, ← hlast]
      obtain ⟨v', hv', h1, h2, h3, h4⟩ := ih n w _ q hbuilt hrest hnd hcr (by omega)
      refine ⟨v', hv', ?_, h2, hfreed ▸ h3, herr ▸ h4⟩
      rwa [append_assoc] at h1
    | reject hacc hbuilt hlast hfreed herr =>
      have hacc : ¬ accepts cfg b i v.last m = true := Bool.eq_false_iff.mp hacc
      rw [if_neg hacc, if_neg hacc, if_neg hacc, ← hlast]
      have hndr : (l ++ msdusOf mpdus).Nodup := by
        refine hnd.sublist ?_
        rw [append_assoc]; exact List.Sublist.append_left (sublist_append_right _ _) _
      obtain ⟨v', hv', h1, h2, h3, h4⟩ := ih n w l q hbuilt hrest hndr hcr (by omega)
      refine ⟨v', hv', h1, h2, ?_, ?_⟩
      · rw [h3, hfreed, append_assoc]; rfl
      · rw [h4, herr, append_assoc]; rfl

theorem terminate_linked {v : Vars} {l : List Nat} (hb : Built v l) (hnd : l.Nodup) :
    Linked (terminate v).next (terminate v).out_list_head l none := by
  rcases eq_nil_or_concat l with rfl | ⟨l', t, rfl⟩
  · have ht : v.out_list_tail = none := hb.tail
    rw [terminate, ht]; exact hb.empty rfl
  · rw [concat_eq_append] at hb hnd ⊢
    obtain ⟨r, hr⟩ := hb.linked
    have ht : v.out_list_tail = some t := by rw [hb.tail, getLast?_concat]
    rw [terminate, ht]
    refine linked_concat_update hr (fun h => ?_) none
    exact (nodup_append.mp hnd).2.2 t h t mem_cons_self rfl

end Loop

/-! ## Packet numbers that the filter accepts -/

/-- Each of the accepted numbers is newer than the one before it, for the cipher
it came under; the first one than `last`. -/
def Fresh (cfg : Cfg) : Option Pn → List (SecIndex × Pn) → Prop
  | _, [] => True
  | last, e :: es => (∀ old ∈ last, Newer cfg e.1 e.2 old) ∧ Fresh cfg (some e.2) es

def lastSeen : Option Pn → List (SecIndex × Pn) → Option Pn
  | last, [] => last
  | _, e :: es => lastSeen (some e.2) es

section Accepted

variable {cfg : Cfg} {b : Buffers} {i : SecIndex}

theorem fresh_append (last : Option Pn) (es ds : List (SecIndex × Pn)) :
    Fresh cfg last (es ++ ds) ↔ Fresh cfg last es ∧ Fresh cfg (lastSeen last es) ds := by
  induction es generalizing last with
  | nil => simp [Fresh, lastSeen]
  | cons e es ih => rw [cons_append, Fresh, Fresh, lastSeen, ih, and_assoc]

theorem lastSeen_append (last : Option Pn) (es ds : List (SecIndex × Pn)) :
    lastSeen last (es ++ ds) = lastSeen (lastSeen last es) ds := by
  induction es generalizing last with
  | nil => rfl
  | cons e es ih => rw [cons_append, lastSeen, lastSeen, ih]

def numbers (cfg : Cfg) (b : Buffers) (i : SecIndex) (ms : List Mpdu) : List (SecIndex × Pn) :=
  (ms.filter (encrypted cfg b)).map fun m => (i, pnOf cfg b i m)

/-- **The filter accepts increasing numbers**, and remembers the last one. -/
theorem kept_fresh (last : Option Pn) (ms : List Mpdu) :
    Fresh cfg last (numbers cfg b i (kept cfg b i last ms)) ∧
      lastOf cfg b i last ms = lastSeen last (numbers cfg b i (kept cfg b i last ms)) := by
  induction ms generalizing last with
  | nil => exact ⟨trivial, rfl⟩
  | cons m ms ih =>
    rw [kept, lastOf]
    by_cases hacc : accepts cfg b i last m = true
    · rw [if_pos hacc, if_pos hacc]
      obtain ⟨hf, hl⟩ := ih (lastAfter cfg b i last m)
      unfold numbers at hf hl ⊢
      by_cases henc : encrypted cfg b m = true
      · rw [filter_cons_of_pos henc, map_cons]
        rw [lastAfter, if_pos henc] at hf hl ⊢
        refine ⟨⟨fun old hold => ?_, hf⟩, hl⟩
        rw [accepts, henc, Bool.not_true, Bool.false_or] at hacc
        exact of_decide_eq_true ((all_eq_true _ _).mp hacc old hold)
      · rw [filter_cons_of_neg henc]
        rw [lastAfter, if_neg henc] at hf hl ⊢
        exact ⟨hf, hl⟩
    · rw [if_neg hacc, if_neg hacc]; exact ih last

/-- Numbers that are each newer than the one before, under ciphers with the same
length of numbers, are increasing. -/
theorem Fresh.pairwise {last : Option Pn} {es : List (SecIndex × Pn)} (w : Nat)
    (hw : ∀ e ∈ es, (rx_pn (cfg.sec_type e.1)).len = w) (h : Fresh cfg last es) :
    ((last.toList ++ es.map Prod.snd).map (pnVal w)).Pairwise (· < ·) := by
  induction es generalizing last with
  | nil => cases last <;> simp
  | cons e es ih =>
    have hrest := ih (fun d hd => hw d (mem_cons_of_mem e hd)) h.2
    cases last with
    | none => simpa using hrest
    | some old =>
      have hlt := (h.1 old rfl).1
      rw [hw e mem_cons_self] at hlt
      simp only [toList_some, singleton_append, map_cons, pairwise_cons] at hrest ⊢
      refine ⟨fun x hx => ?_, hrest⟩
      rcases mem_cons.mp hx with rfl | hx
      · exact hlt
      · exact Nat.lt_trans hlt (hrest.1 x hx)

end Accepted

/-! ## Calls -/

/-- A call of `ol_rx_pn_check_base`: a NULL-terminated list of complete MPDUs in
memory, which starts with the first MSDU of an MPDU (as the function asserts), and
enough fuel for it. -/
structure Call where
  tid : Nat
  bufs : Buffers
  msdu_list : Nat
  mpdus : List Mpdu
  fuel : Nat
  linked : Linked bufs.next (some msdu_list) (msdusOf mpdus) none
  nodup : (msdusOf mpdus).Nodup
  complete : ∀ m ∈ mpdus, m.Complete bufs.desc
  flagged : htt_rx_msdu_has_wlan_mcast_flag (bufs.desc msdu_list) = true
  enough : (msdusOf mpdus).length < fuel

structure Record where
  call : Call
  out : Output

structure St where
  peer : Peer
  log : List Record

def step (cfg : Cfg) (s : St) (c : Call) : Option St :=
  (ol_rx_pn_check_base cfg s.peer c.tid c.bufs c.fuel c.msdu_list).map fun r =>
    ⟨r.1, s.log ++ [⟨c, r.2⟩]⟩

def Call.index (c : Call) : SecIndex := secIndex c.bufs c.msdu_list

/-- Whether the host checks the PNs of this list. -/
def Call.checked (cfg : Cfg) (c : Call) : Bool :=
  !(cfg.fw_pn_check || cfg.opmode = .ibss) && (rx_pn (cfg.sec_type c.index)).len ≠ 0

def Record.rejected (r : Record) : List Mpdu :=
  r.call.mpdus.filter fun m => m.head ∈ r.out.rx_err

def Record.kept (r : Record) : List Mpdu :=
  r.call.mpdus.filter fun m => m.head ∉ r.out.rx_err

def Record.accepted (cfg : Cfg) (r : Record) : List (SecIndex × Pn) :=
  if r.call.checked cfg then numbers cfg r.call.bufs r.call.index r.kept else []

def acceptedOn (cfg : Cfg) (log : List Record) (tid : Nat) : List (SecIndex × Pn) :=
  (log.filter fun r => r.call.tid = tid).flatMap (Record.accepted cfg)

/-- **The list that a call returns** is NULL-terminated and is the list it was
given without the rejected MPDUs, each MSDU of which has been freed once. -/
structure Filtered (r : Record) : Prop where
  linked : Linked r.out.next r.out.msdu_list (msdusOf r.kept) none
  freed : r.out.freed = msdusOf r.rejected
  freed_once : r.out.freed.Nodup

/-- The last packet number of a tid, if there was one. -/
def Peer.lastPn (peer : Peer) (tid : Nat) : Option Pn :=
  if peer.tids_last_pn_valid tid then some (peer.tids_last_pn tid) else none

section Calls

variable {cfg : Cfg} {b : Buffers} {i : SecIndex}

theorem head_mem_msdus (m : Mpdu) : m.head ∈ m.msdus := by
  unfold Mpdu.head Mpdu.msdus
  cases m.init with
  | nil => exact mem_cons_self
  | cons x l => exact mem_cons_self

theorem nodup_heads {ms : List Mpdu} (h : (msdusOf ms).Nodup) : (ms.map Mpdu.head).Nodup := by
  induction ms with
  | nil => exact nodup_nil
  | cons m ms ih =>
    have hsplit : msdusOf (m :: ms) = m.msdus ++ msdusOf ms := flatMap_cons
    rw [hsplit, nodup_append] at h
    rw [map_cons, nodup_cons]
    refine ⟨fun hm => ?_, ih h.2.1⟩
    obtain ⟨m', hm', he⟩ := mem_map.mp hm
    have hmem : m'.head ∈ msdusOf ms := mem_flatMap.mpr ⟨m', hm', head_mem_msdus m'⟩
    exact h.2.2 m.head (head_mem_msdus m) m'.head hmem he.symm

theorem rejected_subset (last : Option Pn) (ms : List Mpdu) :
    ∀ m ∈ rejected cfg b i last ms, m ∈ ms := by
  induction ms generalizing last with
  | nil => exact fun m hm => hm
  | cons m ms ih =>
    intro m' hm'
    rw [rejected] at hm'
    split at hm'
    · exact mem_cons_of_mem m (ih _ m' hm')
    · rcases mem_cons.mp hm' with rfl | hm'
      · exact mem_cons_self
      · exact mem_cons_of_mem m (ih _ m' hm')

theorem filter_rejected (last : Option Pn) (ms : List Mpdu) (hnd : (ms.map Mpdu.head).Nodup) :
    ms.filter (fun m => m.head ∉ (rejected cfg b i last ms).map Mpdu.head)
        = kept cfg b i last ms ∧
      ms.filter (fun m => m.head ∈ (rejected cfg b i last ms).map Mpdu.head)
        = rejected cfg b i last ms := by
  induction ms generalizing last with
  | nil => exact ⟨rfl, rfl⟩
  | cons m ms ih =>
    rw [map_cons, nodup_cons] at hnd
    have hfresh : ∀ last', m.head ∉ (rejected cfg b i last' ms).map Mpdu.head := by
      intro last' hm
      obtain ⟨m', hm', he⟩ := mem_map.mp hm
      exact hnd.1 (he ▸ mem_map_of_mem (rejected_subset _ _ m' hm'))
    rw [kept, rejected]
    by_cases hacc : accepts cfg b i last m = true
    · obtain ⟨h1, h2⟩ := ih (lastAfter cfg b i last m) hnd.2
      have hm := hfresh (lastAfter cfg b i last m)
      rw [if_pos hacc, if_pos hacc, filter_cons_of_pos (by simpa using hm),
        filter_cons_of_neg (by simpa using hm), h1, h2]
      exact ⟨rfl, rfl⟩
    · obtain ⟨h1, h2⟩ := ih last hnd.2
      rw [if_neg hacc, if_neg hacc, map_cons, filter_cons_of_neg (by simp),
        filter_cons_of_pos (by simp)]
      -- the other heads differ from this one
      have hother : ∀ m' ∈ ms, (m'.head ∈ m.head :: (rejected cfg b i last ms).map Mpdu.head ↔
          m'.head ∈ (rejected cfg b i last ms).map Mpdu.head) := by
        intro m' hm'
        rw [mem_cons]
        refine ⟨fun h => h.resolve_left fun he => ?_, .inr⟩
        exact hnd.1 (he ▸ mem_map_of_mem hm')
      constructor
      · rw [← h1]; exact filter_congr fun m' hm' => by rw [decide_eq_decide, hother m' hm']
      · refine congrArg (m :: ·) (Eq.trans (filter_congr fun m' hm' => ?_) h2)
        rw [decide_eq_decide, hother m' hm']

theorem filtered_of_unchanged (c : Call) :
    Filtered ⟨c, ⟨some c.msdu_list, c.bufs.next, [], []⟩⟩ := by
  have hkept : (Record.mk c ⟨some c.msdu_list, c.bufs.next, [], []⟩).kept = c.mpdus := by
    simp [Record.kept]
  have hrej : (Record.mk c ⟨some c.msdu_list, c.bufs.next, [], []⟩).rejected = [] := by
    simp [Record.rejected]
  refine ⟨?_, ?_, nodup_nil⟩
  · rw [hkept]; exact c.linked
  · rw [hrej]; rfl

theorem lastPn_update (peer : Peer) (tid t : Nat) (pn : Pn) (valid : Bool) :
    Peer.lastPn ⟨update peer.tids_last_pn tid pn, update peer.tids_last_pn_valid tid valid⟩ t
      = if t = tid then (if valid then some pn else none) else peer.lastPn t := by
  unfold Peer.lastPn
  by_cases h : t = tid
  · subst h; simp only [update_self, if_true]
  · simp only [update_of_ne h, if_neg h]

/-- **One call.** It returns; its list is filtered; the numbers it accepts are
newer, one after the other, than the last one of the tid, which is the last of
them afterwards; and the other tids are left alone. -/
theorem check_base_spec (cfg : Cfg) (peer : Peer) (c : Call) :
    ∃ peer' out,
      ol_rx_pn_check_base cfg peer c.tid c.bufs c.fuel c.msdu_list = some (peer', out) ∧
      Filtered ⟨c, out⟩ ∧
      Fresh cfg (peer.lastPn c.tid) (Record.accepted cfg ⟨c, out⟩) ∧
      peer'.lastPn c.tid = lastSeen (peer.lastPn c.tid) (Record.accepted cfg ⟨c, out⟩) ∧
      ∀ tid, tid ≠ c.tid → peer'.lastPn tid = peer.lastPn tid := by
  by_cases hoff : (cfg.fw_pn_check || decide (cfg.opmode = .ibss)) = true
  · refine ⟨peer, _, by rw [ol_rx_pn_check_base, if_pos hoff], filtered_of_unchanged c, ?_⟩
    have hun : c.checked cfg = false := by rw [Call.checked, hoff]; rfl
    rw [Record.accepted, if_neg (by rw [hun]; decide)]
    exact ⟨trivial, rfl, fun _ _ => rfl⟩
  have hflag : ¬ (!htt_rx_msdu_has_wlan_mcast_flag (c.bufs.desc c.msdu_list)) = true := by
    rw [c.flagged]; simp
  by_cases hlen : (rx_pn (cfg.sec_type c.index)).len = 0
  · refine ⟨peer, _, by rw [ol_rx_pn_check_base, if_neg hoff, if_neg hflag]; exact if_pos hlen,
      filtered_of_unchanged c, ?_⟩
    have hun : c.checked cfg = false := by rw [Call.checked, hlen]; simp
    rw [Record.accepted, if_neg (by rw [hun]; decide)]
    exact ⟨trivial, rfl, fun _ _ => rfl⟩
  let v : Vars :=
    { next := c.bufs.next
      out_list_head := none
      out_list_tail := none
      last_pn := peer.tids_last_pn c.tid
      last_pn_valid := peer.tids_last_pn_valid c.tid
      freed := []
      rx_err := [] }
  have hv : Built v [] := ⟨⟨none, rfl⟩, rfl, fun _ => rfl⟩
  obtain ⟨v', hrun, hbuilt, hlast, hfreed, herr⟩ := check_loop_spec hlen c.mpdus c.fuel v []
    (some c.msdu_list) hv c.linked c.nodup c.complete c.enough
  have hlast0 : v.last = peer.lastPn c.tid := rfl
  have hfreed : v'.freed = msdusOf (rejected cfg c.bufs c.index (peer.lastPn c.tid) c.mpdus) := hfreed
  obtain ⟨hkept, hrej⟩ := filter_rejected (b := c.bufs) (i := c.index)
    (peer.lastPn c.tid) c.mpdus (nodup_heads c.nodup)
  have hend : terminate v' = { v' with next := (terminate v').next } := by
    unfold terminate
    split <;> rfl
  have hk : Record.kept ⟨c, ⟨(terminate v').out_list_head, (terminate v').next,
      (terminate v').freed, (terminate v').rx_err⟩⟩
        = kept cfg c.bufs c.index (peer.lastPn c.tid) c.mpdus := by
    rw [Record.kept, hend, herr]; exact hkept
  have hr : Record.rejected ⟨c, ⟨(terminate v').out_list_head, (terminate v').next,
      (terminate v').freed, (terminate v').rx_err⟩⟩
        = rejected cfg c.bufs c.index (peer.lastPn c.tid) c.mpdus := by
    rw [Record.rejected, hend, herr]; exact hrej
  have hchk : c.checked cfg = true := by
    rw [Call.checked, Bool.eq_false_iff.mpr hoff]; simpa using hlen
  obtain ⟨hfr, hls⟩ := kept_fresh (b := c.bufs) (i := c.index) (peer.lastPn c.tid) c.mpdus
  refine ⟨_, _, by
    rw [ol_rx_pn_check_base, if_neg hoff, if_neg hflag]
    exact (if_neg hlen).trans (congrArg (Option.map _) hrun), ⟨?_, ?_, ?_⟩, ?_, ?_, ?_⟩
  · rw [hk]
    refine terminate_linked hbuilt (c.nodup.sublist (List.Sublist.flatMap ?_ _))
    rw [← hkept]; exact filter_sublist
  · rw [hr, hend]; exact hfreed
  · rw [hend]
    rw [hfreed, ← hrej]; exact c.nodup.sublist (filter_sublist.flatMap _)
  · rw [Record.accepted, if_pos hchk, hk]; exact hfr
  · rw [Record.accepted, if_pos hchk, hk]
    rw [lastPn_update, if_pos rfl, hend]; exact hlast.trans hls
  · intro tid hne; rw [lastPn_update, if_neg hne]

end Calls

/-! ## Runs -/

/-- **Replay protection on a tid**, between the state `peer₀` of the peer and the
state `peer`, when the calls in between are `log`. This is what every run has,
whatever the ciphers of the peer's two keys are. -/
structure Protected (cfg : Cfg) (peer₀ peer : Peer) (log : List Record) (tid : Nat) : Prop where
  /-- Each number is newer than the one accepted before it. -/
  fresh : Fresh cfg (peer₀.lastPn tid) (acceptedOn cfg log tid)
  last : peer.lastPn tid = lastSeen (peer₀.lastPn tid) (acceptedOn cfg log tid)

/-- The length of the packet numbers under a key. -/
def pnLen (cfg : Cfg) (i : SecIndex) : Nat := (rx_pn (cfg.sec_type i)).len

/-- **The numbers accepted on a tid are increasing**, as numbers of each cipher
that one of them came under, and the first is above the last number of `peer₀`:
none is accepted twice. -/
def Increasing (cfg : Cfg) (peer₀ : Peer) (log : List Record) (tid : Nat) : Prop :=
  ∀ e ∈ acceptedOn cfg log tid,
    (((peer₀.lastPn tid).toList ++ (acceptedOn cfg log tid).map Prod.snd).map
      (pnVal (pnLen cfg e.1))).Pairwise (· < ·)

/-- The numbers that a call compares are as long as those accepted on its tid so
far. `tids_last_pn` has one number for a tid, whichever key it came under, so
that otherwise the call compares numbers of two formats. -/
def oneFormat (cfg : Cfg) (s : St) (c : Call) : Bool :=
  !c.checked cfg ||
    (acceptedOn cfg s.log c.tid).all fun e => pnLen cfg e.1 = pnLen cfg c.index

section Run

variable {cfg : Cfg} {peer₀ : Peer} {s s' : St}

/-- What holds in every state of a run that starts with `peer₀`. -/
structure PnInv (cfg : Cfg) (peer₀ : Peer) (s : St) : Prop where
  filtered : ∀ r ∈ s.log, Filtered r
  fresh : ∀ tid, Fresh cfg (peer₀.lastPn tid) (acceptedOn cfg s.log tid)
  last : ∀ tid, s.peer.lastPn tid = lastSeen (peer₀.lastPn tid) (acceptedOn cfg s.log tid)

theorem acceptedOn_append (log : List Record) (r : Record) (tid : Nat) :
    acceptedOn cfg (log ++ [r]) tid
      = acceptedOn cfg log tid ++ if r.call.tid = tid then r.accepted cfg else [] := by
  unfold acceptedOn
  by_cases h : r.call.tid = tid
  · simp [h]
  · simp [h]

theorem step_pnInv {c : Call} (h : PnInv cfg peer₀ s) (hs : step cfg s c = some s') :
    PnInv cfg peer₀ s' := by
  obtain ⟨peer', out, hout, hfil, hfresh, hlast, hother⟩ := check_base_spec cfg s.peer c
  rw [step, hout, map_some] at hs
  cases hs
  refine ⟨fun r hr => ?_, fun tid => ?_, fun tid => ?_⟩
  · rcases mem_append.mp hr with hr | hr
    · exact h.filtered r hr
    · exact mem_singleton.mp hr ▸ hfil
  · rw [acceptedOn_append, fresh_append, ← h.last tid]
    refine ⟨h.fresh tid, ?_⟩
    split
    · next he => exact he ▸ hfresh
    · trivial
  · rw [acceptedOn_append, lastSeen_append, ← h.last tid]
    split
    · next he => exact he ▸ hlast
    · next hne => exact hother tid (Ne.symm hne)

theorem step_total (s : St) (c : Call) : ∃ s', step cfg s c = some s' := by
  obtain ⟨peer', out, hout, -⟩ := check_base_spec cfg s.peer c
  exact ⟨_, by rw [step, hout, map_some]⟩

theorem run_log {calls : List Call} (h : run (step cfg) s calls = some s') :
    s'.log.map Record.call = s.log.map Record.call ++ calls := by
  induction calls generalizing s with
  | nil => cases h; rw [append_nil]
  | cons c calls ih =>
    obtain ⟨t, ht, hrun⟩ := run_cons_eq_some.mp h
    obtain ⟨r, -, rfl⟩ := map_eq_some_iff.mp ht
    rw [ih hrun, map_append, append_assoc]; rfl

theorem PnInv.protected (h : PnInv cfg peer₀ s) (tid : Nat) :
    Protected cfg peer₀ s.peer s.log tid :=
  ⟨h.fresh tid, h.last tid⟩

/-- A list accepts numbers under the key of its first MSDU, and only if that key
has a cipher with packet numbers. -/
theorem mem_accepted {r : Record} {e : SecIndex × Pn} (he : e ∈ r.accepted cfg) :
    r.call.checked cfg = true ∧ e.1 = r.call.index := by
  unfold Record.accepted at he
  split at he
  · next hchk => obtain ⟨m, -, rfl⟩ := mem_map.mp he; exact ⟨hchk, rfl⟩
  · cases he

/-- All numbers accepted on a tid have one length. -/
def OneFormat (cfg : Cfg) (s : St) : Prop :=
  ∀ tid, ∀ e ∈ acceptedOn cfg s.log tid, ∀ d ∈ acceptedOn cfg s.log tid,
    pnLen cfg e.1 = pnLen cfg d.1

/-- The step lemma: a call that compares numbers of the tid's length accepts
numbers of that length. -/
theorem step_oneFormat {c : Call} (h : OneFormat cfg s) (hok : oneFormat cfg s c = true)
    (hs : step cfg s c = some s') : OneFormat cfg s' := by
  obtain ⟨r, -, rfl⟩ := map_eq_some_iff.mp hs
  intro tid e he d hd
  rw [acceptedOn_append] at he hd
  -- a number that is new on the tid has the length of the call's cipher
  have hnew : ∀ x ∈ (if (Record.mk c r.2).call.tid = tid then Record.accepted cfg ⟨c, r.2⟩ else []),
      c.checked cfg = true ∧ x.1 = c.index ∧ c.tid = tid := by
    intro x hx
    split at hx
    · next ht => exact ⟨(mem_accepted hx).1, (mem_accepted hx).2, ht⟩
    · cases hx
  have hold : c.checked cfg = true → ∀ x ∈ acceptedOn cfg s.log c.tid,
      pnLen cfg x.1 = pnLen cfg c.index := by
    intro hchk x hx
    rw [oneFormat, hchk, Bool.not_true, Bool.false_or] at hok
    exact of_decide_eq_true (all_eq_true.mp hok x hx)
  rcases mem_append.mp he with he | he <;> rcases mem_append.mp hd with hd | hd
  · exact h tid e he d hd
  · obtain ⟨hchk, hidx, rfl⟩ := hnew d hd
    rw [hidx]; exact hold hchk e he
  · obtain ⟨hchk, hidx, rfl⟩ := hnew e he
    rw [hidx]; exact (hold hchk d hd).symm
  · rw [(hnew e he).2.1, (hnew d hd).2.1]

/-- Numbers that are each newer than the one before are increasing where they
have one length. -/
theorem PnInv.increasing (h : PnInv cfg peer₀ s) (hone : OneFormat cfg s) (tid : Nat) :
    Increasing cfg peer₀ s.log tid :=
  fun e he => (h.fresh tid).pairwise (pnLen cfg e.1) fun d hd => hone tid d hd e he

theorem start_pnInv (cfg : Cfg) (peer₀ : Peer) : PnInv cfg peer₀ ⟨peer₀, []⟩ :=
  ⟨nofun, fun _ => trivial, fun _ => rfl⟩

end Run

/-- **PN replay protection.** Every run of calls of `ol_rx_pn_check_base`, over
any lists of MPDUs and from any PN state, returns from every call with the list
filtered, and on every tid each number accepted is newer than the one accepted
before it. In a run whose calls all compare numbers of one length on their tid,
the numbers accepted on each tid are increasing, so that none is accepted twice. -/
theorem pn_replay_protected (cfg : Cfg) (peer₀ : Peer) (calls : List Call) :
    ∃ s, run (step cfg) ⟨peer₀, []⟩ calls = some s ∧ s.log.map Record.call = calls ∧
      (∀ r ∈ s.log, Filtered r) ∧ (∀ tid, Protected cfg peer₀ s.peer s.log tid) ∧
      (run (guarded (fun s c => oneFormat cfg s c = true) (step cfg)) ⟨peer₀, []⟩ calls = some s →
        ∀ tid, Increasing cfg peer₀ s.log tid) := by
  obtain ⟨s, hs⟩ := run_total (s := (⟨peer₀, []⟩ : St)) step_total
  have hinv : PnInv cfg peer₀ s :=
    run_invariant (I := PnInv cfg peer₀) (fun _ _ _ hi hst => step_pnInv hi hst)
      (start_pnInv cfg peer₀) hs
  refine ⟨s, hs, run_log hs, hinv.filtered, hinv.protected, fun hg => hinv.increasing ?_⟩
  exact guarded_run_invariant (fun _ _ _ hi hok hst => step_oneFormat hi hok hst)
    (fun _ _ he => absurd he not_mem_nil) hg

/-- Three MPDUs with the numbers 5, 5 and 6, the first of them of two MSDUs. -/
def replayed : Call where
  tid := 0
  bufs :=
    { next := fun m => if m < 3 then some (m + 1) else none
      desc := fun m =>
        { first_msdu := m ≠ 1
          last_msdu := m ≠ 0
          mcast_bcast := false
          encrypted := true
          pn_31_0 := if m = 3 then 6 else 5
          pn_47_32 := 0
          pn_63_48 := 0
          pn_95_64 := 0
          pn_127_96 := 0 }
      stack := fun _ => ⟨0, 0⟩ }
  msdu_list := 0
  mpdus := [⟨[0], 1⟩, ⟨[], 2⟩, ⟨[], 3⟩]
  fuel := 5
  linked := ⟨rfl, rfl, rfl, rfl, rfl⟩
  nodup := by decide
  complete := by
    intro m hm
    simp only [mem_cons, not_mem_nil, or_false] at hm
    rcases hm with rfl | rfl | rfl
    · exact ⟨by simp, rfl⟩
    · exact ⟨by simp, rfl⟩
    · exact ⟨by simp, rfl⟩
  flagged := rfl
  enough := by decide

def ccmpSta : Cfg where
  is_high_latency := false
  opmode := .sta
  fw_pn_check := false
  sec_type := fun _ => .aes_ccmp

/-- The second number 5 is a replay. -/
theorem pn_replay_protected_replayed :
    ∃ s, run (step ccmpSta) ⟨⟨fun _ => ⟨0, 0⟩, fun _ => false⟩, []⟩ [replayed] = some s ∧
      s.log.map (·.out.freed) = [[2]] ∧
      Protected ccmpSta ⟨fun _ => ⟨0, 0⟩, fun _ => false⟩ s.peer s.log 0 ∧
      Increasing ccmpSta ⟨fun _ => ⟨0, 0⟩, fun _ => false⟩ s.log 0 := by
  obtain ⟨s, hs, -, -, hp, hinc⟩ :=
    pn_replay_protected ccmpSta ⟨fun _ => ⟨0, 0⟩, fun _ => false⟩ [replayed]
  have hfreed : (run (step ccmpSta) ⟨⟨fun _ => ⟨0, 0⟩, fun _ => false⟩, []⟩ [replayed]).all
      (fun s => s.log.map (·.out.freed) = [[2]]) = true := by decide +kernel
  rw [hs] at hfreed
  refine ⟨s, hs, by simpa using hfreed, hp 0, hinc ?_ 0⟩
  rw [← hs]; rfl

/-- A list of one MPDU of one MSDU, for either key; the number has 128 bits. -/
def single (mcast : Bool) (pn_31_0 pn_95_64 : BitVec 32) : Call where
  tid := 0
  bufs :=
    { next := fun _ => none
      desc := fun _ => ⟨true, true, mcast, true, pn_31_0, 0, 0, pn_95_64, 0⟩
      stack := fun _ => ⟨0, 0⟩ }
  msdu_list := 0
  mpdus := [⟨[], 0⟩]
  fuel := 2
  linked := ⟨rfl, rfl⟩
  nodup := by decide
  complete := by
    intro m hm
    obtain rfl := mem_singleton.mp hm
    exact ⟨by simp, rfl⟩
  flagged := rfl
  enough := by decide

/-- A CCMP unicast key and a WAPI multicast key. -/
def mixedSta : Cfg where
  is_high_latency := false
  opmode := .sta
  fw_pn_check := false
  sec_type := fun i => if i = .ucast then .aes_ccmp else .wapi

/-- The unicast number 5 is accepted, then a multicast number whose low word is 0,
and then the unicast number 5 again: under WAPI's comparison the multicast number
is above 5, and under CCMP's, 5 is above its low word. -/
theorem unicast_number_twice :
    ∃ s, run (step mixedSta) ⟨⟨fun _ => ⟨0, 0⟩, fun _ => false⟩, []⟩
        [single false 5 0, single true 0 1, single false 5 0] = some s ∧
      acceptedOn mixedSta s.log 0
        = [(.ucast, ⟨5, 0⟩), (.mcast, ⟨0, 1⟩), (.ucast, ⟨5, 0⟩)] ∧
      ¬ Increasing mixedSta ⟨fun _ => ⟨0, 0⟩, fun _ => false⟩ s.log 0 := by
  refine exists_of_tested (fun s => acceptedOn mixedSta s.log 0
    = [(.ucast, ⟨5, 0⟩), (.mcast, ⟨0, 1⟩), (.ucast, ⟨5, 0⟩)]) (by decide +kernel)
    fun s hs hacc => ⟨hacc, fun hinc => ?_⟩
  have hpair := hinc (.ucast, ⟨5, 0⟩) (hacc ▸ mem_cons_self)
  rw [hacc] at hpair; exact absurd hpair (by decide)

end

/-! Keys are installed: the packet numbers of all tids are forgotten, or set to that of the
indication for WAPI, whichever key it is about. -/

/-! ## Security indications -/

def OL_TXRX_NUM_EXT_TIDS : Nat := 19

/-- What a HTT security indication says, less the Michael key. -/
structure SecInd where
  sec_type : SecType
  is_unicast : Bool
  rx_pn : Pn

def SecInd.index (ind : SecInd) : SecIndex := if ind.is_unicast then .ucast else .mcast

def ol_rx_sec_ind_handler (cfg : Cfg) (peer : Peer) (ind : SecInd) : Cfg × Peer :=
  ({ cfg with sec_type := update cfg.sec_type ind.index ind.sec_type },
    if ind.sec_type ≠ .wapi then
      { peer with tids_last_pn_valid := fun tid =>
          if tid < OL_TXRX_NUM_EXT_TIDS then false else peer.tids_last_pn_valid tid }
    else if ind.index = .mcast ∨ peer.tids_last_pn_valid 0 = true then
      -- WAPI PN has to be started with predefined value
      { tids_last_pn := fun tid =>
          if tid < OL_TXRX_NUM_EXT_TIDS then ind.rx_pn else peer.tids_last_pn tid
        tids_last_pn_valid := fun tid =>
          if tid < OL_TXRX_NUM_EXT_TIDS then true else peer.tids_last_pn_valid tid }
    else peer)

/-! ## Runs with rekeys -/

namespace Rekey

structure St where
  cfg : Cfg
  peer : Peer
  /-- The packet numbers of the unicast frames that were accepted on a tid since the unicast
  key was installed. -/
  accepted : Nat → List Nat

inductive Op where
  | check (c : Call)
  | sec_ind (ind : SecInd)

def unicastNumbers (cfg : Cfg) (r : Record) : List Nat :=
  if r.call.index = .ucast then
    (r.accepted cfg).map fun e => pnVal (pnLen cfg .ucast) e.2
  else []

def step (s : St) : Op → Option St
  | .check c =>
    (ol_rx_pn_check_base s.cfg s.peer c.tid c.bufs c.fuel c.msdu_list).map fun r =>
      { s with
        peer := r.1
        accepted := update s.accepted c.tid
          (s.accepted c.tid ++ unicastNumbers s.cfg ⟨c, r.2⟩) }
  | .sec_ind ind =>
    some
      { cfg := (ol_rx_sec_ind_handler s.cfg s.peer ind).1
        peer := (ol_rx_sec_ind_handler s.cfg s.peer ind).2
        accepted := if ind.is_unicast then fun _ => [] else s.accepted }

/-- The indication finds no packet number to forget; under WAPI, that of the indication
everywhere. -/
def quiet (peer : Peer) (ind : SecInd) : Bool :=
  (range OL_TXRX_NUM_EXT_TIDS).all fun tid =>
    if ind.sec_type ≠ .wapi then !peer.tids_last_pn_valid tid
    else peer.tids_last_pn_valid tid && peer.tids_last_pn tid == ind.rx_pn

def oneLength (cfg : Cfg) : Bool :=
  pnLen cfg .ucast == 0 || pnLen cfg .mcast == 0 || pnLen cfg .ucast == pnLen cfg .mcast

def stepOk (s : St) : Op → Bool
  | .check _ => true
  | .sec_ind ind =>
    (ind.is_unicast || quiet s.peer ind) && oneLength (ol_rx_sec_ind_handler s.cfg s.peer ind).1

/-- **A multicast key changes no packet number** exactly if there is nothing to change. -/
theorem sec_ind_keeps_iff (cfg : Cfg) (peer : Peer) {ind : SecInd} (hm : ind.is_unicast = false) :
    (ol_rx_sec_ind_handler cfg peer ind).2 = peer ↔ quiet peer ind = true := by
  have hindex : ind.index = .mcast := by rw [SecInd.index, hm]; rfl
  simp only [quiet, all_eq_true, mem_range]
  by_cases hw : ind.sec_type = .wapi
  · simp only [ol_rx_sec_ind_handler, hw, ne_eq, not_true_eq_false, if_false, hindex, true_or,
      if_true, Bool.and_eq_true, beq_iff_eq]
    constructor
    · intro heq tid htid
      have hpn := congrFun (congrArg Peer.tids_last_pn heq) tid
      have hvalid := congrFun (congrArg Peer.tids_last_pn_valid heq) tid
      simp only [if_pos htid] at hpn hvalid
      exact ⟨hvalid.symm, hpn.symm⟩
    · intro hall
      have hpn : (fun tid => if tid < OL_TXRX_NUM_EXT_TIDS then ind.rx_pn else peer.tids_last_pn tid)
          = peer.tids_last_pn := by
        funext tid
        split
        · next htid => exact (hall tid htid).2.symm
        · rfl
      have hvalid : (fun tid => if tid < OL_TXRX_NUM_EXT_TIDS then true
          else peer.tids_last_pn_valid tid) = peer.tids_last_pn_valid := by
        funext tid
        split
        · next htid => exact (hall tid htid).1.symm
        · rfl
      rw [hpn, hvalid]
  · simp only [ol_rx_sec_ind_handler, ne_eq, hw, not_false_eq_true, if_true, Bool.not_eq_true']
    constructor
    · intro heq tid htid
      have hvalid := congrFun (congrArg Peer.tids_last_pn_valid heq) tid
      simp only [if_pos htid] at hvalid
      exact hvalid.symm
    · intro hall
      have hvalid : (fun tid => if tid < OL_TXRX_NUM_EXT_TIDS then false
          else peer.tids_last_pn_valid tid) = peer.tids_last_pn_valid := by
        funext tid
        split
        · next htid => exact (hall tid htid).symm
        · rfl
      rw [hvalid]

/-- What holds in every state of a run: the numbers accepted under the unicast key are
increasing, and none is above the last one of the tid. -/
structure Inv (s : St) : Prop where
  oneLength : oneLength s.cfg = true
  increasing : ∀ tid, (s.accepted tid).Pairwise (· < ·)
  last : ∀ tid, ∀ n ∈ s.accepted tid,
    ∃ pn, s.peer.lastPn tid = some pn ∧ n ≤ pnVal (pnLen s.cfg .ucast) pn
  checked : ∀ tid, s.accepted tid ≠ [] → pnLen s.cfg .ucast ≠ 0

theorem mem_lastSeen {cfg : Cfg} {w : Nat} {l : Option Pn} {es : List (SecIndex × Pn)}
    (hw : ∀ e ∈ es, (rx_pn (cfg.sec_type e.1)).len = w) (h : Fresh cfg l es)
    {n : Nat} (hn : n ∈ (l.toList ++ es.map Prod.snd).map (pnVal w)) :
    ∃ pn, lastSeen l es = some pn ∧ n ≤ pnVal w pn := by
  induction es generalizing l n with
  | nil =>
    cases l with
    | none => exact absurd hn (by simp)
    | some pn =>
      simp only [Option.toList_some, map_nil, append_nil, map_cons, mem_singleton] at hn
      exact ⟨pn, rfl, Nat.le_of_eq hn⟩
  | cons e es ih =>
    have hpair := Fresh.pairwise w hw h
    have hrest := fun m => ih (l := some e.2) (n := m) (fun d hd => hw d (mem_cons_of_mem e hd)) h.2
    -- a number before `e` is below `e`
    cases l with
    | none => refine hrest n ?_; simpa using hn
    | some old =>
      simp only [Option.toList_some, singleton_append, map_cons, mem_cons] at hn hrest hpair
      rcases hn with rfl | hn
      · obtain ⟨pn, hpn, hle⟩ := hrest _ (Or.inl rfl)
        refine ⟨pn, hpn, Nat.le_trans (Nat.le_of_lt ?_) hle⟩
        exact (pairwise_cons.mp hpair).1 _ mem_cons_self
      · exact hrest n hn

theorem accepted_index {cfg : Cfg} {r : Record} {e : SecIndex × Pn} (he : e ∈ r.accepted cfg) :
    e.1 = r.call.index ∧ pnLen cfg r.call.index ≠ 0 := by
  obtain ⟨hchk, hidx⟩ := mem_accepted he
  rw [Call.checked, Bool.and_eq_true] at hchk; exact ⟨hidx, by simpa [pnLen] using hchk.2⟩

theorem mem_unicastNumbers {cfg : Cfg} {r : Record} {n : Nat} (hn : n ∈ unicastNumbers cfg r) :
    r.call.index = .ucast ∧ ∃ e ∈ r.accepted cfg, pnVal (pnLen cfg .ucast) e.2 = n := by
  unfold unicastNumbers at hn
  split at hn
  · next hu => obtain ⟨e, he, rfl⟩ := mem_map.mp hn; exact ⟨hu, e, he, rfl⟩
  · exact absurd hn (by simp)

variable {s s' : St}

theorem Inv.check (h : Inv s) {c : Call} (hs : step s (.check c) = some s') : Inv s' := by
  obtain ⟨peer', out, hout, -, hfresh, hlast, hother⟩ := check_base_spec s.cfg s.peer c
  rw [step, hout, Option.map_some] at hs
  cases hs
  -- where unicast numbers were accepted, or are now, the call compares with their length
  have hlen : s.accepted c.tid ≠ [] ∨ c.index = .ucast →
      ∀ e ∈ Record.accepted s.cfg ⟨c, out⟩, (rx_pn (s.cfg.sec_type e.1)).len = pnLen s.cfg .ucast := by
    intro hor e he
    obtain ⟨hidx, hne⟩ := accepted_index he
    rw [hidx]
    rcases hor with hacc | hu
    · have hu := h.checked c.tid hacc
      have hone := h.oneLength
      simp only [Rekey.oneLength, Bool.or_eq_true, beq_iff_eq] at hone
      cases hi : c.index with
      | ucast => rfl
      | mcast =>
        rw [show Call.index (Record.call ⟨c, out⟩) = .mcast from hi] at hne
        rcases hone with (h0 | h0) | heq
        · exact absurd h0 hu
        · exact absurd h0 hne
        · exact heq.symm
    · rw [show Call.index (Record.call ⟨c, out⟩) = .ucast from hu]; rfl
  refine ⟨h.oneLength, fun tid => ?_, fun tid n hn => ?_, fun tid hne => ?_⟩
  · dsimp only
    by_cases ht : tid = c.tid
    · subst ht
      rw [update_self, pairwise_append]
      refine ⟨h.increasing c.tid, ?_, fun n hn m hm => ?_⟩
      · unfold unicastNumbers
        split
        · next hu =>
          have hpair := Fresh.pairwise _ (hlen (Or.inr hu)) hfresh
          rw [map_append, pairwise_append, map_map] at hpair; exact hpair.2.1
        · exact Pairwise.nil
      · obtain ⟨hu, e, he, rfl⟩ := mem_unicastNumbers hm
        obtain ⟨pn, hpn, hle⟩ := h.last c.tid n hn
        have hpair := Fresh.pairwise _ (hlen (Or.inr hu)) hfresh
        rw [hpn, Option.toList_some, singleton_append, map_cons, pairwise_cons] at hpair
        refine Nat.lt_of_le_of_lt hle (hpair.1 _ ?_)
        exact mem_map_of_mem (mem_map_of_mem he)
    · rw [update_of_ne ht]; exact h.increasing tid
  · dsimp only at hn ⊢
    by_cases ht : tid = c.tid
    · subst ht
      rw [update_self] at hn
      rw [hlast]
      rcases mem_append.mp hn with hold | hnew
      · obtain ⟨pn, hpn, hle⟩ := h.last c.tid n hold
        have hw := hlen (Or.inl (ne_nil_of_mem hold))
        obtain ⟨pn', hpn', hle'⟩ := mem_lastSeen (n := pnVal (pnLen s.cfg .ucast) pn) hw hfresh (by
          rw [hpn]; simp)
        exact ⟨pn', hpn', Nat.le_trans hle hle'⟩
      · obtain ⟨hu, e, he, rfl⟩ := mem_unicastNumbers hnew
        refine mem_lastSeen (hlen (Or.inr hu)) hfresh ?_
        rw [map_append]; exact mem_append_right _ (mem_map_of_mem (mem_map_of_mem he))
    · rw [update_of_ne ht] at hn
      rw [hother tid ht]; exact h.last tid n hn
  · dsimp only at hne ⊢
    by_cases ht : tid = c.tid
    · subst ht
      rw [update_self] at hne
      obtain ⟨n, hn⟩ := exists_mem_of_ne_nil _ hne
      rcases mem_append.mp hn with hold | hnew
      · exact h.checked c.tid (ne_nil_of_mem hold)
      · obtain ⟨hu, e, he, -⟩ := mem_unicastNumbers hnew
        have hne' := (accepted_index he).2
        rwa [hu] at hne'
    · rw [update_of_ne ht] at hne; exact h.checked tid hne

theorem Inv.sec_ind (h : Inv s) {ind : SecInd} (hok : stepOk s (.sec_ind ind) = true)
    (hs : step s (.sec_ind ind) = some s') : Inv s' := by
  cases hs
  simp only [stepOk, Bool.and_eq_true, Bool.or_eq_true] at hok
  obtain ⟨hquiet, hone⟩ := hok
  cases hu : ind.is_unicast with
  | true =>
    -- a new unicast key: nothing was accepted under it yet
    refine ⟨hone, fun tid => ?_, fun tid n hn => ?_, fun tid hne => ?_⟩
    · simp
    · exact absurd hn (by simp)
    · exact absurd rfl hne
  | false =>
    rw [hu] at hquiet
    have hpeer := (sec_ind_keeps_iff s.cfg s.peer hu).mpr (by simpa using hquiet)
    have hlen : pnLen (ol_rx_sec_ind_handler s.cfg s.peer ind).1 .ucast = pnLen s.cfg .ucast := by
      have hindex : ind.index = .mcast := by rw [SecInd.index, hu]; rfl
      simp only [pnLen, ol_rx_sec_ind_handler, hindex]
      rw [update_of_ne (by simp)]
    refine ⟨hone, h.increasing, fun tid n hn => ?_, fun tid hne => ?_⟩
    · rw [hpeer, hlen]; exact h.last tid n hn
    · rw [hlen]; exact h.checked tid hne

def St.init (cfg : Cfg) : St where
  cfg := { cfg with sec_type := fun _ => .none }
  peer := ⟨fun _ => ⟨0, 0⟩, fun _ => false⟩
  accepted := fun _ => []

theorem init_inv (cfg : Cfg) : Inv (St.init cfg) :=
  ⟨rfl, fun _ => Pairwise.nil, nofun,
    fun _ hne => absurd rfl hne⟩

/-- **A group rekey does no harm** in a run in which multicast security indications find
no packet number to forget, and the keys have packet numbers of one length: on every tid,
the unicast numbers accepted since the unicast key was installed are increasing, so that
none is accepted twice. In each state of such a run, the packet numbers survive a multicast
security indication if and only if it finds none to forget. -/
theorem group_rekey_harmless (cfg : Cfg) (es : List Op) (s : St)
    (h : run (guarded (fun s op => stepOk s op = true) step) (St.init cfg) es = some s) :
    (∀ tid, (s.accepted tid).Pairwise (· < ·)) ∧
      ∀ ind, ind.is_unicast = false →
        ((ol_rx_sec_ind_handler s.cfg s.peer ind).2 = s.peer ↔ quiet s.peer ind = true) := by
  have hinv : Inv s := by
    refine guarded_run_invariant (fun t op t' ht hok hst => ?_) (init_inv cfg) h
    cases op with
    | check c => exact ht.check hst
    | sec_ind ind => exact ht.sec_ind hok hst
  exact ⟨hinv.increasing, fun ind hm => sec_ind_keeps_iff s.cfg s.peer hm⟩

def five : Call where
  tid := 0
  bufs :=
    { next := fun _ => none
      desc := fun _ => ⟨true, true, false, true, 5, 0, 0, 0, 0⟩
      stack := fun _ => ⟨0, 0⟩ }
  msdu_list := 0
  mpdus := [⟨[], 0⟩]
  fuel := 2
  linked := ⟨rfl, rfl⟩
  nodup := by decide
  complete := by
    intro m hm
    obtain rfl := mem_singleton.mp hm
    exact ⟨by simp, rfl⟩
  flagged := rfl
  enough := by decide

def ccmpKey (is_unicast : Bool) : SecInd := ⟨.aes_ccmp, is_unicast, ⟨0, 0⟩⟩

/-- Both keys are installed, and then the number 5 comes twice. -/
theorem group_rekey_harmless_five :
    ∃ s, run (guarded (fun s op => stepOk s op = true) step) (St.init ccmpSta)
        [.sec_ind (ccmpKey true), .sec_ind (ccmpKey false), .check five, .check five] = some s ∧
      s.accepted 0 = [5] ∧ (s.accepted 0).Pairwise (· < ·) := by
  exact exists_of_tested (fun s => _) (by decide +kernel) fun s hs hfive =>
    ⟨hfive, (group_rekey_harmless ccmpSta _ s hs).1 0⟩

/-- A group rekey between the two: the number 5 is accepted twice under one unicast key. -/
theorem replay_after_group_rekey :
    ∃ s, run step (St.init ccmpSta)
        [.sec_ind (ccmpKey true), .sec_ind (ccmpKey false), .check five, .sec_ind (ccmpKey false),
          .check five] = some s ∧
      s.accepted 0 = [5, 5] ∧ ¬ (s.accepted 0).Pairwise (· < ·) := by
  exact exists_of_tested (fun s => _ ∧ _) (by decide +kernel) fun s _ htwice => htwice

end Rekey

end Qcacld.RxPn
