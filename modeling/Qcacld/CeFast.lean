/-
Fast sends on the source ring of a copy engine, `ce_send_fast`.

A fast send does not wait for completions: it moves `sw_index` to the read index of the hardware,
and so passes over whatever has been read since.
-/
import Qcacld.CeRing

set_option autoImplicit false

namespace Qcacld.CeFast

open Lib CeRing Function List

/-! ## The function -/

def SLOTS_PER_DATAPATH_TX : Nat := 2
def DESC_DATA_FLAG_MASK : Nat := 0x1FFFE3E0

/-- A packet, in two fragments: the header for the target and the data. -/
structure Msdu where
  nbuf : Nat
  data_attr : Nat
  frag_paddr : Fin 2 → Nat
  frag_len : Fin 2 → Nat

/-- Twice the number of packets of an array fits an `unsigned int`. -/
structure Msdus where
  msdus : List Msdu
  length_lt : SLOTS_PER_DATAPATH_TX * msdus.length < 2 ^ 32

/-- The header is a stream of words and more follows. -/
def Msdu.header (m : Msdu) : SendArgs where
  buffer := m.frag_paddr 0
  nbytes := m.frag_len 0
  flags := CE_SEND_FLAG_GATHER
  user_flags := m.data_attr &&& DESC_DATA_FLAG_MASK

/-- The data are bytes, of which `download_len` at most go out; the field has 16 bits of it
when it is compared. The bit that is cleared from `user_flags` here is not one the host
reads. -/
def Msdu.data (m : Msdu) (download_len : Nat) : SendArgs where
  buffer := m.frag_paddr 1
  nbytes := if download_len % 2 ^ 16 > m.frag_len 1 then m.frag_len 1 else download_len
  flags := CE_SEND_FLAG_SWAP_DISABLE
  user_flags := m.data_attr &&& DESC_DATA_FLAG_MASK

def fastPost (r : Src) (per_transfer_context : Nat) (a : SendArgs) (transfer_id : Nat) : Src :=
  r.post .fast per_transfer_context
    (srcDesc r.attr_flags a transfer_id (r.shadow_base r.write_index))

def postMsdus (download_len transfer_id : Nat) : List Msdu → Src → Src
  | [], r => r
  | m :: msdus, r =>
    let r := fastPost r CE_SENDLIST_ITEM_CTXT m.header transfer_id
    let r := fastPost r m.nbuf (m.data download_len) transfer_id
    postMsdus download_len transfer_id msdus r

def skipRead (r : Src) : Src := { r with sw_index := r.read_index }

/-- `sw_index` moves even if there is then no room. `pm` is whether `hif_pm_runtime_get`
succeeds; if not, the hardware is not told of the descriptors. -/
def ce_send_fast (r : Src) (download_len : Nat) (ms : Msdus) (transfer_id : Nat) (pm : Bool) :
    Nat × Src :=
  let r := skipRead r
  if CE_RING_DELTA r.nentries_mask r.write_index (r.sw_index - 1) <
      SLOTS_PER_DATAPATH_TX * ms.msdus.length then (0, r)
  else
    let r := postMsdus download_len transfer_id ms.msdus r
    (ms.msdus.length, if ms.msdus.length ≠ 0 ∧ pm = true then r.writeIdxSet else r)

/-- The calls on a ring that is used both ways. -/
inductive Op where
  | src (op : SrcOp) (plain : op.Plain)
  | fast (download_len : Nat) (ms : Msdus) (transfer_id : Nat) (pm : Bool)

def step (r : Src) : Op → Option Src
  | .src op _ => srcStep r op
  | .fast len ms id pm => some (ce_send_fast r len ms id pm).2

/-! ## What is to hold -/

def slow (x : Posted) : Bool := x.poster = .send

def passed (r : Src) : List Nat :=
  (range ((r.read_index + (r.nentries_mask + 1) - r.sw_index) % (r.nentries_mask + 1))).map
    fun k => (r.sw_index + k) % (r.nentries_mask + 1)

/-- Fast sends find `hw_index` at the read index, and pass over fast sends only. -/
def fastOk (r : Src) : Op → Prop
  | .src _ _ => True
  | .fast .. => r.hw_index = r.read_index ∧ ∀ j ∈ passed r, r.poster j = .fast

instance (r : Src) : (op : Op) → Decidable (fastOk r op)
  | .src _ _ => isTrue trivial
  | .fast .. => inferInstanceAs
      (Decidable (r.hw_index = r.read_index ∧ ∀ j ∈ passed r, r.poster j = .fast))

/-- `hw_index` is between `sw_index` and the read index, and of the transfers of `ce_send`
those that have not been reported are in the ring. -/
def Kept (r : Src) : Prop := ∃ hw read reg live, r.Ordered slow hw read reg live

/-- A completion reports only what the hardware has read. -/
def ReportsRead (r : Src) : Prop :=
  (ce_completed_send_next r).1.done ≠ none → r.unread r.sw_index = false

/-! ## The slots passed over -/

variable {keep : Posted → Bool} {r r' : Src} {hw read reg : Nat} {live : List Posted}
  {len id : Nat} {pm : Bool} {ms : Msdus}

theorem passed_eq (h : r.Ordered keep hw read reg live) :
    passed r = (range read).map fun k => (r.sw_index + k) % (r.nentries_mask + 1) := by
  rw [passed, h.read_ahead.dist h.holds.shadow.index_lt]

theorem passed_fast_iff (h : r.Ordered keep hw read reg live) :
    (∀ j ∈ passed r, r.poster j = .fast) ↔ (live.take read).filter slow = [] := by
  have hread := h.read_le.trans h.reg_le
  have hposter : ∀ k (hk : k < live.length),
      live[k].poster = r.poster ((r.sw_index + k) % (r.nentries_mask + 1)) := by
    intro k hk
    rw [h.holds.shadow.held.getElem hk, entries]
  rw [passed_eq h, filter_eq_nil_iff]
  constructor
  · intro hfast x hx
    obtain ⟨k, hk, rfl⟩ := mem_take_iff_getElem.mp hx
    have hk' : k < read := by omega
    have hslot := hfast _ (mem_map_of_mem (mem_range.mpr hk'))
    rw [slow, hposter, hslot]; decide
  · intro hslow j hj
    obtain ⟨k, hk, rfl⟩ := mem_map.mp hj
    rw [mem_range] at hk
    have hx := hslow _ (mem_take_iff_getElem.mpr ⟨k, by omega, rfl⟩)
    rw [slow, hposter] at hx
    cases hp : r.poster ((r.sw_index + k) % (r.nentries_mask + 1)) with
    | send => exact absurd (by rw [hp]; rfl) hx
    | fast => rfl

theorem skipRead_holds (h : r.Ordered keep hw read reg live)
    (hskip : (live.take read).filter keep = []) : (skipRead r).Holds keep (live.drop read) := by
  have hread := h.read_le.trans h.reg_le
  exact ⟨h.holds.mask, h.holds.shadow.skip h.read_ahead hread hskip,
    h.holds.base.skip h.read_ahead hread hskip, h.holds.hw_lt, h.holds.read_lt, h.holds.reg_lt⟩

theorem skipRead_ordered (h : r.Ordered keep hw read reg live) (hhw : r.hw_index = r.read_index)
    (hskip : (live.take read).filter keep = []) :
    (skipRead r).Ordered keep 0 0 (reg - read) (live.drop read) := by
  have hself : Ahead (r.nentries_mask + 1) r.read_index 0 r.read_index := ahead_zero h.holds.read_lt
  refine ⟨skipRead_holds h hskip, le_rfl, Nat.zero_le _, ?_, ?_, hself, ?_, ?_⟩
  · rw [length_drop]; exact Nat.sub_le_sub_right h.reg_le read
  · exact hhw ▸ hself
  · exact h.read_ahead.sub h.reg_ahead h.read_le
  · exact nofun

/-! ## Posting -/

def msdusPosted (download_len transfer_id : Nat) : List Msdu → List Posted
  | [] => []
  | m :: msdus =>
    ⟨.fast, m.header.transfer CE_SENDLIST_ITEM_CTXT transfer_id⟩ ::
      ⟨.fast, (m.data download_len).transfer m.nbuf transfer_id⟩ ::
      msdusPosted download_len transfer_id msdus

/-- What every descriptor of a fast send keeps, with the entries in the ring, the loop over the
packets keeps. -/
theorem postMsdus_keeps {P : Src → List Posted → Prop}
    (hpost : ∀ r live ctx a id, P r live → live.length < r.nentries_mask →
      P (fastPost r ctx a id) (live ++ [⟨.fast, a.transfer ctx id⟩]))
    (h : P r live) (len id : Nat) (msdus : List Msdu)
    (hroom : live.length + SLOTS_PER_DATAPATH_TX * msdus.length ≤ r.nentries_mask) :
    P (postMsdus len id msdus r) (live ++ msdusPosted len id msdus) := by
  induction msdus generalizing r live with
  | nil => rw [msdusPosted, append_nil]; exact h
  | cons m msdus ih =>
    rw [SLOTS_PER_DATAPATH_TX, length_cons] at hroom
    have hmask : ∀ (r : Src) (ctx : Nat) (a : SendArgs) (id : Nat),
        (fastPost r ctx a id).nentries_mask = r.nentries_mask := fun _ _ _ _ => rfl
    have hfirst := hpost r live CE_SENDLIST_ITEM_CTXT m.header id h (by omega)
    have hsecond := hpost _ _ m.nbuf (m.data len) id hfirst (by
      rw [hmask, length_append, length_singleton]; omega)
    have hrest := ih hsecond (by
      rw [hmask, hmask, length_append, length_append, length_singleton,
        length_singleton, SLOTS_PER_DATAPATH_TX]
      omega)
    rw [append_assoc, append_assoc] at hrest; exact hrest

theorem fast_keeps {P : Src → Prop} (hskip : (skipRead r).Holds keep live)
    (h : P (skipRead r)) (hset : ∀ r, P r → P r.writeIdxSet)
    (hpost : live.length + SLOTS_PER_DATAPATH_TX * ms.msdus.length ≤ r.nentries_mask →
      P (postMsdus len id ms.msdus (skipRead r))) : P (ce_send_fast r len ms id pm).2 := by
  rw [ce_send_fast]
  rw [hskip.spaced.delta]
  split
  · exact h
  · have hlt := hskip.spaced.ahead.1
    have hmask : (skipRead r).nentries_mask = r.nentries_mask := rfl
    have hposted := hpost (by omega)
    split
    · exact hset _ hposted
    · exact hposted

/-! ## One step -/

theorem fast_kept (h : r.Ordered slow hw read reg live) (hhw : r.hw_index = r.read_index)
    (hskip : (live.take read).filter slow = []) : Kept (ce_send_fast r len ms id pm).2 := by
  have hord := skipRead_ordered h hhw hskip
  refine fast_keeps hord.holds ⟨_, _, _, _, hord⟩ ?_ fun hroom => ?_
  · rintro r ⟨_, _, _, _, hr⟩; exact ⟨_, _, _, _, hr.writeIdxSet⟩
  · refine ⟨_, _, _, _, postMsdus_keeps (P := fun r live => r.Ordered slow 0 0 (reg - read) live)
      (fun r live ctx a id hr hlen => ?_) hord len id ms.msdus hroom⟩
    exact hr.post hlen .fast ctx _

theorem forget (h : r.Ordered keep hw read reg live) :
    r.Ordered (fun _ => false) hw read reg live :=
  { h with
    holds := ⟨h.holds.mask, h.holds.shadow.forget, h.holds.base.forget, h.holds.hw_lt,
      h.holds.read_lt, h.holds.reg_lt⟩ }

/-- The ring `s` after a fast send: `live` is what is left, and the fast entries `xs` are
new. -/
structure FastSent (r : Src) (live : List Posted) (s : Src) (xs : List Posted) : Prop where
  hw_index : s.hw_index = r.hw_index
  read_index : s.read_index = r.read_index
  sw_index : s.sw_index = r.read_index
  returned : s.returned = r.returned
  posted : s.posted = r.posted ++ xs
  filter_slow : xs.filter slow = []
  holds : s.Holds (fun _ => false) (live ++ xs)

theorem fastSent (h : r.Ordered keep hw read reg live) (len : Nat) (ms : Msdus) (id : Nat) (pm : Bool) :
    ∃ xs, FastSent r (live.drop read) (ce_send_fast r len ms id pm).2 xs := by
  have hskip := skipRead_holds (forget h) (by simp)
  have hstart : FastSent r (live.drop read) (skipRead r) [] :=
    ⟨rfl, rfl, rfl, rfl, (append_nil _).symm, rfl,
      (append_nil (live.drop read)).symm ▸ hskip⟩
  refine fast_keeps (P := fun s => ∃ xs, FastSent r (live.drop read) s xs) hskip ⟨[], hstart⟩ ?_
    fun hroom => ?_
  · rintro s ⟨xs, hs⟩; exact ⟨xs, { hs with holds := hs.holds.writeIdxSet }⟩
  · have hloop := postMsdus_keeps
      (P := fun s l => ∃ xs, l = live.drop read ++ xs ∧ FastSent r (live.drop read) s xs) ?_
      ⟨[], (append_nil _).symm, hstart⟩ len id ms.msdus hroom
    · obtain ⟨xs, -, hxs⟩ := hloop; exact ⟨xs, hxs⟩
    · rintro s l ctx a id ⟨xs, rfl, hs⟩ hlen
      refine ⟨xs ++ [⟨.fast, a.transfer ctx id⟩], append_assoc _ _ _, ?_⟩
      refine ⟨hs.hw_index, hs.read_index, hs.sw_index, hs.returned, ?_, ?_, ?_⟩
      · rw [← append_assoc, ← hs.posted]; rfl
      · rw [filter_append, hs.filter_slow]; rfl
      · rw [← append_assoc]; exact hs.holds.post hlen .fast ctx _

/-- **What a fast send has to find.** If it passes over a transfer of `ce_send`, that one is
neither reported nor in the ring any more; and if `hw_index` is not at the read index, it
falls behind `sw_index`. -/
theorem fast_kept_only (h : r.Ordered slow hw read reg live)
    (hkept : Kept (ce_send_fast r len ms id pm).2) :
    r.hw_index = r.read_index ∧ (live.take read).filter slow = [] := by
  obtain ⟨xs, hsent⟩ := fastSent h len ms id pm
  obtain ⟨hw', read', reg', live', hord⟩ := hkept
  constructor
  · -- the read index is at `sw_index`, so `hw_index` has to be there too
    have hread : read' = 0 := by
      refine (hord.read_ahead.eq_self_iff hord.holds.shadow.index_lt).mp ?_
      rw [hsent.read_index, hsent.sw_index]
    have hhw : hw' = 0 := by have hle := hord.hw_le; omega
    have heq := (hord.hw_ahead.eq_self_iff hord.holds.shadow.index_lt).mpr hhw
    rwa [hsent.hw_index, hsent.sw_index] at heq
  · -- the slots say what is in the ring now
    have hlive : live' = live.drop read ++ xs := by
      refine hord.holds.shadow.held.unique hsent.holds.shadow.held ?_
      exact hord.holds.shadow.ahead.unique hsent.holds.shadow.ahead
    have hafter := hord.holds.shadow.record
    have hbefore := h.holds.shadow.record
    have hsplit : live.filter slow = (live.take read).filter slow ++ (live.drop read).filter slow := by
      rw [← filter_append, take_append_drop]
    rw [hsent.posted, hsent.returned, hlive, filter_append, filter_append,
      hsent.filter_slow, append_nil, append_nil, hbefore, hsplit] at hafter
    have hlen := congrArg List.length hafter
    rw [length_append, length_append, length_append] at hlen
    exact length_eq_zero_iff.mp (by omega)

theorem Kept.step_iff {op : Op} (h : Kept r) (hstep : step r op = some r') :
    Kept r' ↔ fastOk r op := by
  obtain ⟨hw, read, reg, live, hord⟩ := h
  cases op with
  | src op plain => exact iff_of_true (hord.step plain hstep) trivial
  | fast len ms id pm =>
    cases hstep
    constructor
    · intro hkept
      obtain ⟨hhw, hskip⟩ := fast_kept_only hord hkept
      exact ⟨hhw, (passed_fast_iff hord).mpr hskip⟩
    · rintro ⟨hhw, hpassed⟩; exact fast_kept hord hhw ((passed_fast_iff hord).mp hpassed)

/-- `hw_index` in front of `sw_index` and not past the read index: what is reported was
read. -/
theorem Kept.reportsRead (h : Kept r) : ReportsRead r := by
  obtain ⟨hw, read, reg, live, hord⟩ := h
  intro hdone
  obtain ⟨hw', hord'⟩ := hord.refresh
  have hhw : r.refresh.hw_index ≠ r.refresh.sw_index := by
    intro heq
    rw [ce_completed_send_next, ce_completed_send_next_nolock] at hdone
    rw [if_neg fun hcond => hcond.1 heq] at hdone; exact hdone rfl
  have hpos : hw' ≠ 0 := mt (hord'.hw_ahead.eq_self_iff hord'.holds.shadow.index_lt).mpr hhw
  have hle := hord'.hw_le
  have hread := hord.done 0 (by omega)
  rwa [Nat.add_zero, Nat.mod_eq_of_lt hord.holds.shadow.index_lt] at hread

/-! ## Getting the reports -/

theorem read_all (h : r.Ordered keep hw read reg live) :
    ∃ es r', run (guarded fastOk step) r es = some r' ∧ r'.Ordered keep hw reg reg live ∧
      r'.posted = r.posted := by
  obtain ⟨d, hd⟩ := Nat.exists_eq_add_of_le h.read_le
  induction d generalizing r read with
  | zero => exact ⟨[], r, rfl, hd ▸ h, rfl⟩
  | succ d ih =>
    have hne : r.read_index ≠ r.write_reg := by
      intro heq
      have hsame := h.read_ahead.unique (heq ▸ h.reg_ahead)
      omega
    obtain ⟨r₁, hr₁⟩ : ∃ r₁, r.hwRead 0 = some r₁ := ⟨_, if_neg hne⟩
    have hposted : r₁.posted = r.posted := by
      rw [Src.hwRead, if_neg hne, Option.some.injEq] at hr₁
      rw [← hr₁]
    obtain ⟨es, r', hrun, hord, hposted'⟩ := ih (h.hwRead hr₁) (by omega)
    refine ⟨.src (.hwRead 0) trivial :: es, r', ?_, hord, hposted'.trans hposted⟩
    exact run_cons_eq_some.mpr ⟨r₁, guarded_eq_some.mpr ⟨trivial, hr₁⟩, hrun⟩

theorem refresh_ne (h : r.Ordered keep hw read reg live) (hread : read ≠ 0) :
    r.refresh.hw_index ≠ r.refresh.sw_index := by
  rw [ne_eq, refresh_caught_up]
  rintro ⟨-, heq⟩; exact hread ((h.read_ahead.eq_self_iff h.holds.shadow.index_lt).mp heq)

theorem completed_posted : (ce_completed_send_next r).2.posted = r.posted := by
  have hrefresh : r.refresh.posted = r.posted := by
    rw [Src.refresh]
    split
    · rfl
    · rfl
  rw [ce_completed_send_next, ce_completed_send_next_nolock]
  split
  · exact hrefresh
  · exact hrefresh

theorem complete_all (h : r.Ordered keep hw live.length live.length live) :
    ∃ es r', run (guarded fastOk step) r es = some r' ∧ r'.posted = r.posted ∧
      r'.returned.filter keep = r.posted.filter keep := by
  induction live generalizing r hw with
  | nil =>
    have hrecord := h.holds.shadow.record
    rw [filter_nil, append_nil] at hrecord; exact ⟨[], r, rfl, rfl, hrecord.symm⟩
  | cons x live ih =>
    obtain ⟨hw', x', live', heq, hord⟩ := h.completed_done (refresh_ne h (Nat.succ_ne_zero _))
    obtain ⟨rfl, rfl⟩ := cons_eq_cons.mp heq
    obtain ⟨es, r', hrun, hposted, hreturned⟩ := ih hord
    rw [completed_posted] at hposted hreturned
    refine ⟨.src .completed trivial :: es, r', ?_, hposted, hreturned⟩
    exact run_cons_eq_some.mpr ⟨_, guarded_eq_some.mpr ⟨trivial, rfl⟩, hrun⟩

/-- If the hardware has been told of everything, every transfer of `ce_send` can still be
reported. -/
def AllReported (r : Src) : Prop :=
  r.write_reg = r.write_index →
    ∃ es r', run (guarded fastOk step) r es = some r' ∧ r'.posted = r.posted ∧
      r'.returned.filter slow = r.posted.filter slow

theorem Kept.allReported (h : Kept r) : AllReported r := by
  obtain ⟨hw, read, reg, live, hord⟩ := h
  intro htold
  have hreg : reg = live.length := hord.reg_ahead.unique (htold ▸ hord.holds.shadow.ahead)
  obtain ⟨es, r₁, hrun, hord₁, hposted₁⟩ := read_all hord
  rw [hreg] at hord₁
  obtain ⟨es', r', hrun', hposted, hreturned⟩ := complete_all hord₁
  rw [hposted₁] at hposted hreturned
  exact ⟨es ++ es', r', run_append hrun hrun', hposted, hreturned⟩

/-! ## Every run -/

/-- **Fast and other sends on one ring.** In every run whose fast sends meet `fastOk`, `hw_index`
is never behind `sw_index`, what is reported the hardware has read, and of the transfers of
`ce_send` and `ce_sendlist_send` those that were not reported are in the ring, where they can
still be. A fast send that does not meet `fastOk` breaks this. -/
theorem fast_sends_kept (attr_flags bits start : Nat) (hbits : bits ≤ 31) (hstart : start < 2 ^ bits)
    (es : List Op) (r : Src)
    (hrun : run (guarded fastOk step) (Src.init attr_flags bits start) es = some r) :
    Kept r ∧ ReportsRead r ∧ AllReported r ∧
      ∀ op r', step r op = some r' → (Kept r' ↔ fastOk r op) := by
  have hkept : Kept r := by
    refine guarded_run_invariant (fun s e s' hs hok hstep => ?_) ?_ hrun
    · exact (hs.step_iff hstep).mpr hok
    · exact ⟨0, 0, 0, [], src_ordered_init hbits hstart⟩
  exact ⟨hkept, hkept.reportsRead, hkept.allReported, fun op r' hstep => hkept.step_iff hstep⟩

def ring : Src := Src.init 0 3 0

def packet : Msdus := ⟨[⟨9, 0, fun _ => 0x2000, fun _ => 16⟩], by decide⟩

def sendOne : Op := .src (.send 7 ⟨0x1000, 64, 0, 0⟩ 3) trivial

theorem fast_sends_kept_reported :
    ∃ r, run (guarded fastOk step) ring
        [sendOne, .src (.hwRead 0) trivial, .src .completed trivial, .fast 64 packet 0 true] =
          some r ∧
      r.returned = [⟨.send, 7, 0x1000, 64, 3⟩] ∧ Kept r := by
  have hrun : ∃ r, run (guarded fastOk step) ring
        [sendOne, .src (.hwRead 0) trivial, .src .completed trivial, .fast 64 packet 0 true] =
          some r ∧
      r.returned = [⟨.send, 7, 0x1000, 64, 3⟩] := ⟨_, rfl, by decide⟩
  obtain ⟨r, hr, hreturned⟩ := hrun
  exact ⟨r, hr, hreturned, (fast_sends_kept 0 3 0 (by decide) (by decide) _ r hr).1⟩

/-- A transfer that the hardware has read and a fast send then passes over. -/
theorem passed_over :
    (∃ r, run step ring [sendOne, .src (.hwRead 0) trivial, .fast 64 packet 0 true] = some r ∧
      r.sw_index = 1 ∧ r.hw_index = 0 ∧ r.unread r.sw_index = true ∧
      (ce_completed_send_next r).1.done = some (⟨CE_SENDLIST_ITEM_CTXT, 0x2000, 16, 0⟩, 0) ∧
      ¬ ReportsRead r ∧ ¬ Kept r) ∧
    (∃ r, run step ring
        [sendOne, .src (.hwRead 0) trivial, .fast 64 packet 0 true, .src (.hwRead 0) trivial,
          .src (.hwRead 0) trivial, .src .completed trivial, .src .completed trivial] = some r ∧
      r.read_index = r.write_index ∧ r.sw_index = r.write_index ∧
      r.posted.filter slow = [⟨.send, 7, 0x1000, 64, 3⟩] ∧ r.returned.filter slow = []) := by
  refine ⟨?_, ⟨_, rfl, by decide, by decide, by decide, by decide⟩⟩
  have hrun : ∃ r, run step ring [sendOne, .src (.hwRead 0) trivial, .fast 64 packet 0 true] = some r ∧
      r.sw_index = 1 ∧ r.hw_index = 0 ∧ r.unread r.sw_index = true ∧
      (ce_completed_send_next r).1.done = some (⟨CE_SENDLIST_ITEM_CTXT, 0x2000, 16, 0⟩, 0) :=
    ⟨_, rfl, by decide, by decide, by decide, by decide⟩
  obtain ⟨r, hr, hsw, hhw, hunread, hdone⟩ := hrun
  have hnot : ¬ ReportsRead r := by
    intro hreports
    have hread := hreports (by rw [hdone]; exact Option.some_ne_none _)
    rw [hunread] at hread
    cases hread
  exact ⟨r, hr, hsw, hhw, hunread, hdone, hnot, fun hkept => hnot hkept.reportsRead⟩

end Qcacld.CeFast
