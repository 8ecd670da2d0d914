/-
Segments of jumbo frames on the low-latency transmit path: `ol_tx.c`, `ol_tx_desc.c`.

All segments share the netbuf: the loops take a further user reference for each segment but the
last, and each completed segment drops one. The elements are in a free list and in the list of the
netbuf by one `next` pointer, so a loop that reads it after the element was freed walks on into the
free list. Pointers are therefore kept; NULL dereferences and the endless loop are `none`.
-/
import Qcacld.Lib.Chain
import Mathlib.Data.List.Perm.Subperm

set_option autoImplicit false

namespace Qcacld.TxTso

open Function Lib

section

/-! ## The pool of segment elements -/

/-- `pdev->tso_seg_pool`, and the `next` pointers of the elements. -/
structure TsoSegPool where
  next : Nat → Option Nat
  freelist : Option Nat
  num_free : UInt16
  pool_size : Nat

/-- The elements are linked as they are allocated. -/
def ol_tso_seg_list_init (num_seg : Nat) : TsoSegPool :=
  { next := fun i => if i + 1 < num_seg then some (i + 1) else none
    freelist := some 0
    num_free := 0
    pool_size := num_seg }

def ol_tso_alloc_segment (p : TsoSegPool) : Option Nat × TsoSegPool :=
  match p.freelist with
  | none => (none, p)
  | some tso_seg =>
    (some tso_seg, { p with num_free := p.num_free - 1, freelist := p.next tso_seg })

def ol_tso_free_segment (p : TsoSegPool) (tso_seg : Nat) : TsoSegPool :=
  { p with
    next := update p.next tso_seg p.freelist
    freelist := some tso_seg
    num_free := p.num_free + 1 }

/-! ## Netbufs and descriptors -/

/-- A netbuf, with what the code reads of it and what the rest of the system makes of its segments,
which are counted down: segment `k` has `k` segments after it. -/
structure Msdu (κ : Type) where
  id : κ
  /-- `cdf_nbuf_is_tso` -/
  jumbo : Bool
  /-- `cdf_nbuf_get_tso_num_seg` -/
  num_seg : Nat
  /-- What `cdf_nbuf_get_tso_info` finds: the segments it fills in, or `none` where it gives up on
  the headers before it has written anything. -/
  info : Option Nat
  info_le : ∀ k ∈ info, k ≤ num_seg
  /-- There is a descriptor for the segment. -/
  desc : Nat → Bool
  /-- HTT, or the copy engine, takes the segment. -/
  sent : Nat → Bool

inductive PktType where
  | std
  | tso
deriving DecidableEq

structure TxDesc (κ : Type) where
  netbuf : κ
  pkt_type : PktType
  tso_desc : Option Nat
deriving DecidableEq

/-- The pool, the users of each netbuf and the descriptors that the target holds. -/
structure Pdev (κ : Type) where
  pool : TsoSegPool
  users : κ → Int
  inflight : List (TxDesc κ)

/-- `msdu_info.tso_info`, of which `is_tso` is whatever the stack held before the first jumbo
netbuf. -/
structure TsoInfo where
  is_tso : Bool
  num_segs : Nat
  curr_seg : Option Nat

/-- The transmit functions `ol_tx_ll` and `ol_tx_ll_fast`. -/
inductive Path where
  | ll
  | ll_fast
deriving DecidableEq

/-! ## Preparing a jumbo netbuf -/

def allocSegs : Nat → TsoSegPool → Option Nat → Bool × TsoSegPool × Option Nat
  | 0, p, tso_seg_list => (true, p, tso_seg_list)
  | num_seg + 1, p, tso_seg_list =>
    match ol_tso_alloc_segment p with
    | (none, p) => (false, p, tso_seg_list)
    | (some tso_seg, p) =>
      allocSegs num_seg { p with next := update p.next tso_seg tso_seg_list } (some tso_seg)

def freeSegs : Nat → TsoSegPool → Option Nat → Option TsoSegPool
  | _, p, none => some p
  | 0, _, some _ => none
  | fuel + 1, p, some free_seg => freeSegs fuel (ol_tso_free_segment p free_seg) (p.next free_seg)

variable {κ : Type}

/-- `none` in the second place is the error return. -/
def ol_tx_prepare_tso (fuel : Nat) (p : TsoSegPool) (is_tso : Bool) (msdu : Msdu κ) :
    Option (TsoSegPool × Option TsoInfo) :=
  if msdu.jumbo then
    match allocSegs msdu.num_seg p none with
    | (false, p, tso_seg_list) => (freeSegs fuel p tso_seg_list).map fun p => (p, none)
    | (true, p, tso_seg_list) =>
      some (p, some
        { is_tso := if msdu.info.isSome then true else is_tso
          num_segs := msdu.info.getD msdu.num_seg
          curr_seg := tso_seg_list })
  else some (p, some { is_tso := false, num_segs := 1, curr_seg := none })

/-! ## Descriptors -/

variable [DecidableEq κ]

def cdf_nbuf_inc_users (s : Pdev κ) (msdu : κ) : Pdev κ :=
  { s with users := update s.users msdu (s.users msdu + 1) }

def cdf_nbuf_free (s : Pdev κ) (msdu : κ) : Pdev κ :=
  { s with users := update s.users msdu (s.users msdu - 1) }

def incUsersFor (s : Pdev κ) (msdu : κ) (segments : Nat) : Pdev κ :=
  if segments ≠ 0 then cdf_nbuf_inc_users s msdu else s

omit [DecidableEq κ] in
/-- A descriptor that has been allocated is filled in; HTT reads the current segment of a jumbo
netbuf. -/
def fillDesc (info : TsoInfo) (msdu : κ) : Option (TxDesc κ) :=
  if info.is_tso then
    info.curr_seg.map fun seg => { netbuf := msdu, pkt_type := .tso, tso_desc := some seg }
  else some { netbuf := msdu, pkt_type := .std, tso_desc := none }

omit [DecidableEq κ] in
def ol_tx_desc_free (s : Pdev κ) (tx_desc : TxDesc κ) : Pdev κ :=
  match tx_desc.pkt_type, tx_desc.tso_desc with
  | .tso, some tso_seg => { s with pool := ol_tso_free_segment s.pool tso_seg }
  | _, _ => s

def ol_tx_desc_frame_free_nonstd (s : Pdev κ) (tx_desc : TxDesc κ) : Pdev κ :=
  ol_tx_desc_free (cdf_nbuf_free s tx_desc.netbuf) tx_desc

omit [DecidableEq κ] in
def download (s : Pdev κ) (tx_desc : TxDesc κ) : Pdev κ :=
  { s with inflight := s.inflight ++ [tx_desc] }

/-- `htt_tx_send_std` takes the frame or the frame is freed. -/
def ol_tx_send (s : Pdev κ) (tx_desc : TxDesc κ) (sent : Bool) : Pdev κ :=
  if sent then download s tx_desc else ol_tx_desc_frame_free_nonstd s tx_desc

def txComplete (s : Pdev κ) (tx_desc : TxDesc κ) : Pdev κ :=
  ol_tx_desc_frame_free_nonstd { s with inflight := s.inflight.erase tx_desc } tx_desc

/-! ## The transmit functions -/

omit [DecidableEq κ] in
/-- `curr_seg = curr_seg->next` -/
def TsoInfo.advance (info : TsoInfo) (s : Pdev κ) : TsoInfo :=
  { info with curr_seg := info.curr_seg.bind s.pool.next }

def sendSegs (path : Path) (msdu : Msdu κ) : Nat → TsoInfo → Pdev κ → Option (Bool × Pdev κ)
  | 0, _, s => some (true, s)
  | segments + 1, info, s =>
    let s := incUsersFor s msdu.id segments
    if msdu.desc segments then
      (fillDesc info msdu.id).bind fun tx_desc =>
        match path with
        | .ll =>
          let s := ol_tx_send s tx_desc (msdu.sent segments)
          sendSegs path msdu segments (info.advance s) s
        | .ll_fast =>
          if msdu.sent segments then
            let s := download s tx_desc
            sendSegs path msdu segments (info.advance s) s
          -- the descriptor is freed and the packet returned to the caller
          else some (false, ol_tx_desc_free s tx_desc)
    else some (false, s)

def sendMsdus (path : Path) (fuel : Nat) :
    Bool → List (Msdu κ) → Pdev κ → Option (List κ × Pdev κ)
  | _, [], s => some ([], s)
  | is_tso, msdu :: rest, s =>
    (ol_tx_prepare_tso fuel s.pool is_tso msdu).bind fun (pool, info) =>
      match info with
      | none => some ((msdu :: rest).map (·.id), { s with pool := pool })
      | some info =>
        (sendSegs path msdu info.num_segs info { s with pool := pool }).bind fun (ok, s) =>
          if ok then sendMsdus path fuel info.is_tso rest s
          else some ((msdu :: rest).map (·.id), s)

def ol_tx_ll (fuel : Nat) (is_tso : Bool) (msdu_list : List (Msdu κ)) (s : Pdev κ) :
    Option (List κ × Pdev κ) := sendMsdus .ll fuel is_tso msdu_list s

def ol_tx_ll_fast (fuel : Nat) (is_tso : Bool) (msdu_list : List (Msdu κ)) (s : Pdev κ) :
    Option (List κ × Pdev κ) := sendMsdus .ll_fast fuel is_tso msdu_list s

omit [DecidableEq κ] in
/-- The device after `ol_txrx_pdev_attach`, with the users that netbufs have. -/
def Pdev.init (num_seg : Nat) (users : κ → Int) : Pdev κ :=
  { pool := ol_tso_seg_list_init num_seg, users := users, inflight := [] }

end

section

open List

/-! `Holds P p fl out` says that of the `P` elements of a pool the ones in the list `fl` are free,
in this order, and the ones in `out` are held by somebody; the counter is `P` behind the number of
the free ones. -/

/-- The pool of `P` segments: `fl` are on the freelist and `out` are out. -/
structure Holds (P : Nat) (p : TsoSegPool) (fl out : List Nat) : Prop where
  linked : Linked p.next p.freelist fl none
  perm : (fl ++ out).Perm (range P)
  count : p.num_free = UInt16.ofNat fl.length - UInt16.ofNat P

variable {P : Nat} {p p' : TsoSegPool} {fl out out' l : List Nat} {a : Nat} {c : Option Nat}

theorem Holds.of_perm (h : Holds P p fl out) (hout : out'.Perm out) : Holds P p fl out' :=
  ⟨h.linked, ((perm_append_left_iff fl).mpr hout).trans h.perm, h.count⟩

theorem Holds.nodup (h : Holds P p fl out) : (fl ++ out).Nodup :=
  h.perm.nodup_iff.mpr nodup_range

theorem Holds.lt_of_mem (h : Holds P p fl out) (ha : a ∈ fl ++ out) : a < P :=
  mem_range.mp (h.perm.mem_iff.mp ha)

theorem Holds.length_add (h : Holds P p fl out) : fl.length + out.length = P := by
  rw [← length_append, h.perm.length_eq, length_range]

theorem linked_range (n i k : Nat) (hi : i + k + 1 = n) :
    Linked (fun i => if i + 1 < n then some (i + 1) else none) (some i)
      (range' i (k + 1)) none := by
  induction k generalizing i with
  | zero => exact ⟨rfl, if_neg (by omega)⟩
  | succ k ih =>
    rw [range'_succ, linked_cons, if_pos (by omega)]; exact ⟨rfl, ih (i + 1) (by omega)⟩

theorem holds_init (hP : 0 < P) : Holds P (ol_tso_seg_list_init P) (range P) [] where
  linked := by
    obtain ⟨k, rfl⟩ := Nat.exists_eq_succ_of_ne_zero (Nat.ne_of_gt hP)
    rw [range_eq_range']; exact linked_range (k + 1) 0 k (by omega)
  perm := by rw [append_nil]
  count := by rw [length_range]; exact (UInt16.sub_self _).symm

/-! ## Single elements -/

theorem ol_tso_alloc_segment_nil (h : Holds P p [] out) : ol_tso_alloc_segment p = (none, p) := by
  have hfree : p.freelist = none := h.linked
  rw [ol_tso_alloc_segment, hfree]

theorem ol_tso_alloc_segment_cons (h : Holds P p (a :: fl) out) :
    ∃ p', ol_tso_alloc_segment p = (some a, p') ∧ p'.next = p.next ∧
      Holds P p' fl (a :: out) := by
  obtain ⟨hfree, hrest⟩ := h.linked
  refine ⟨{ p with num_free := p.num_free - 1, freelist := p.next a }, ?_, rfl, hrest, ?_, ?_⟩
  · rw [ol_tso_alloc_segment, hfree]
  · exact perm_middle.trans h.perm
  · have hcount := h.count
    rw [length_cons, UInt16.ofNat_add] at hcount
    grind

theorem Holds.free (h : Holds P p fl (a :: out)) :
    Holds P (ol_tso_free_segment p a) (a :: fl) out where
  linked := by
    have ha : a ∉ fl := (nodup_cons.mp (perm_middle.nodup h.nodup)).1 ∘ mem_append_left out
    exact ⟨rfl, by simpa [ol_tso_free_segment] using (linked_update_of_notMem ha).mpr h.linked⟩
  perm := perm_middle.symm.trans h.perm
  count := by
    rw [length_cons, UInt16.ofNat_add]
    change p.num_free + 1 = UInt16.ofNat fl.length + 1 - UInt16.ofNat P
    rw [h.count]
    grind

theorem Holds.link (h : Holds P p fl (a :: l ++ out)) (hl : Linked p.next c l none) :
    let p' := { p with next := update p.next a c }
    Holds P p' fl (a :: l ++ out) ∧ Linked p'.next (some a) (a :: l) none := by
  have hnd := h.nodup
  have ha : a ∉ fl ++ (l ++ out) :=
    (nodup_cons.mp (perm_middle.nodup hnd)).1
  have hafl : a ∉ fl := ha ∘ mem_append_left _
  have hal : a ∉ l := ha ∘ mem_append_right _ ∘ mem_append_left _
  refine ⟨⟨(linked_update_of_notMem hafl).mpr h.linked, h.perm, h.count⟩, rfl, ?_⟩
  change Linked (update p.next a c) (update p.next a c a) l none
  rw [update_self]; exact (linked_update_of_notMem hal).mpr hl

/-! ## The two loops of `ol_tx_prepare_tso` -/

theorem allocSegs_spec (n : Nat) (h : Holds P p fl (l ++ out)) (hl : Linked p.next c l none) :
    ∃ p' c' l', allocSegs n p c = (decide (n ≤ fl.length), p', c') ∧
      Holds P p' (fl.drop n) (l' ++ out) ∧ Linked p'.next c' l' none ∧
      l'.length = min n fl.length + l.length := by
  induction n generalizing p c l fl with
  | zero => refine ⟨p, c, l, rfl, h, hl, ?_⟩; rw [Nat.zero_min, Nat.zero_add]
  | succ n ih =>
    cases fl with
    | nil =>
      refine ⟨p, c, l, ?_, h, hl, ?_⟩
      · rw [allocSegs, ol_tso_alloc_segment_nil h]; rfl
      · rw [length_nil, Nat.min_zero, Nat.zero_add]
    | cons a fl =>
      obtain ⟨p₁, halloc, hnext, h₁⟩ := ol_tso_alloc_segment_cons h
      obtain ⟨h₂, hl₂⟩ := Holds.link h₁ (hnext ▸ hl)
      obtain ⟨p', c', l', hrun, h', hl', hlen⟩ := ih (l := a :: l) h₂ hl₂
      refine ⟨p', c', l', ?_, h', hl', ?_⟩
      · rw [allocSegs, halloc]; simpa using hrun
      · rw [hlen, length_cons, length_cons]; omega

theorem freeSegs_spec (fuel : Nat) (h : Holds P p fl (l ++ out)) (hl : Linked p.next c l none)
    (hfuel : l.length ≤ fuel) : ∃ p' fl', freeSegs fuel p c = some p' ∧ Holds P p' fl' out := by
  induction l generalizing p c fl fuel with
  | nil =>
    obtain rfl : c = none := hl
    refine ⟨p, fl, ?_, h⟩
    unfold freeSegs; rfl
  | cons a l ih =>
    obtain ⟨rfl, hrest⟩ := hl
    obtain ⟨n, rfl⟩ := Nat.exists_eq_succ_of_ne_zero (Nat.ne_zero_of_lt hfuel)
    have hal : a ∉ l := by
      have hmid := (nodup_cons.mp (perm_middle.nodup h.nodup)).1
      exact hmid ∘ mem_append_right _ ∘ mem_append_left _
    have hrest' : Linked (ol_tso_free_segment p a).next (p.next a) l none :=
      (linked_update_of_notMem hal).mpr hrest
    exact ih n h.free hrest' (Nat.le_of_succ_le_succ hfuel)

/-! ## Lost elements -/

/-- What is found from the free list on is in `F`, a part of `R`. -/
structure Inside (R F : Nat → Prop) (p : TsoSegPool) : Prop where
  sub : ∀ a, F a → R a
  freelist : ∀ a ∈ p.freelist, F a
  next : ∀ a, F a → ∀ b ∈ p.next a, F b

variable {R F : Nat → Prop}

theorem Inside.link (h : Inside R F p) (ha : F a) (hc : ∀ b ∈ c, F b) :
    Inside R F { p with next := update p.next a c } where
  sub := h.sub
  freelist := h.freelist
  next := by
    intro b hb d hd
    change d ∈ update p.next a c b at hd
    by_cases hba : b = a
    · subst hba
      rw [update_self] at hd; exact hc d hd
    · rw [update_of_ne hba] at hd; exact h.next b hb d hd

theorem Inside.alloc (h : Inside R F p) (halloc : ol_tso_alloc_segment p = (c, p')) :
    Inside R F p' ∧ ∀ a ∈ c, F a := by
  unfold ol_tso_alloc_segment at halloc
  split at halloc
  · obtain ⟨rfl, rfl⟩ := Prod.mk.inj halloc
    exact ⟨h, fun a ha => absurd ha (Option.not_mem_none a)⟩
  · rename_i seg hfree
    obtain ⟨rfl, rfl⟩ := Prod.mk.inj halloc
    have hseg : F seg := h.freelist seg hfree
    refine ⟨⟨h.sub, h.next seg hseg, h.next⟩, ?_⟩
    intro a ha; exact Option.some.inj ha ▸ hseg

theorem Inside.free (h : Inside R F p) (ha : R a) :
    Inside R (fun b => F b ∨ b = a) (ol_tso_free_segment p a) where
  sub := by
    rintro b (hb | rfl)
    · exact h.sub b hb
    · exact ha
  freelist := by intro b hb; exact Or.inr (Option.some.inj hb).symm
  next := by
    intro b hb d hd
    change d ∈ update p.next a p.freelist b at hd
    by_cases hba : b = a
    · subst hba
      rw [update_self] at hd; exact Or.inl (h.freelist d hd)
    · rw [update_of_ne hba] at hd; exact Or.inl (h.next b (hb.resolve_right hba) d hd)

theorem Inside.free_found (h : Inside R F p) (ha : F a) : Inside R F (ol_tso_free_segment p a) := by
  have hlink := h.link ha h.freelist
  refine ⟨hlink.sub, ?_, hlink.next⟩
  intro b hb; exact Option.some.inj hb ▸ ha

theorem Inside.allocSegs {ok : Bool} {c' : Option Nat} (n : Nat) (h : Inside R F p)
    (hc : ∀ a ∈ c, F a) (hrun : allocSegs n p c = (ok, p', c')) :
    Inside R F p' ∧ ∀ a ∈ c', F a := by
  induction n generalizing p c with
  | zero =>
    obtain ⟨-, rfl, rfl⟩ : true = ok ∧ p = p' ∧ c = c' := by simpa [TxTso.allocSegs] using hrun
    exact ⟨h, hc⟩
  | succ n ih =>
    unfold TxTso.allocSegs at hrun
    split at hrun
    · rename_i p₁ halloc
      obtain ⟨-, rfl, rfl⟩ : false = ok ∧ p₁ = p' ∧ c = c' := by simpa using hrun
      exact ⟨(h.alloc halloc).1, hc⟩
    · rename_i seg p₁ halloc
      obtain ⟨h₁, hseg⟩ := h.alloc halloc
      have hfound : F seg := hseg seg rfl
      apply ih (h₁.link hfound hc) ?_ hrun
      intro a ha; exact Option.some.inj ha ▸ hfound

theorem Inside.freeSegs (fuel : Nat) (h : Inside R F p) (hc : ∀ a ∈ c, F a)
    (hrun : freeSegs fuel p c = some p') : Inside R F p' := by
  induction fuel generalizing p c with
  | zero =>
    cases c with
    | none => exact Option.some.inj hrun ▸ h
    | some a => cases hrun
  | succ fuel ih =>
    cases c with
    | none => exact Option.some.inj hrun ▸ h
    | some a => have ha : F a := hc a rfl; exact ih (h.free_found ha) (h.next a ha) hrun

def Others (P x a : Nat) : Prop := a < P ∧ a ≠ x

theorem Inside.length_lt {x : Nat} (h : Inside (Others P x) F p) (hx : x < P)
    (hl : Linked p.next p.freelist l none) : l.length < P := by
  have hfound := linked_subset hl h.freelist h.next
  have hxl : x ∉ l := fun hmem => (h.sub x (hfound x hmem)).2 rfl
  have hnd : (x :: l).Nodup := nodup_cons.mpr ⟨hxl, linked_nodup hl⟩
  have hsub : x :: l ⊆ range P := by
    intro a ha
    apply mem_range.mpr
    obtain rfl | ha := mem_cons.mp ha
    · exact hx
    · exact (h.sub a (hfound a ha)).1
  have hlen := (hnd.subperm hsub).length_le
  rwa [length_cons, length_range] at hlen

end

open List Option

/-! What the send loops do to the elements and the users. -/

variable {κ : Type}

/-! ## Elements of descriptors -/

def TxDesc.seg (tx_desc : TxDesc κ) : Option Nat :=
  match tx_desc.pkt_type with
  | .std => none
  | .tso => tx_desc.tso_desc

def segsOf (ds : List (TxDesc κ)) : List Nat := ds.filterMap TxDesc.seg

@[simp] theorem segsOf_nil : segsOf ([] : List (TxDesc κ)) = [] := rfl

@[simp] theorem segsOf_append (ds es : List (TxDesc κ)) :
    segsOf (ds ++ es) = segsOf ds ++ segsOf es := filterMap_append

@[simp] theorem segsOf_tso (msdu : κ) (a : Nat) :
    segsOf [{ netbuf := msdu, pkt_type := .tso, tso_desc := some a }] = [a] := rfl

@[simp] theorem segsOf_std (msdu : κ) (c : Option Nat) :
    segsOf [{ netbuf := msdu, pkt_type := .std, tso_desc := c }] = [] := rfl

theorem segsOf_cons (d : TxDesc κ) (ds : List (TxDesc κ)) :
    segsOf (d :: ds) = d.seg.toList ++ segsOf ds := by
  unfold segsOf
  cases hd : d.seg with
  | none => rw [filterMap_cons_none hd]; rfl
  | some a => rw [filterMap_cons_some hd]; rfl

theorem ol_tx_desc_free_eq (s : Pdev κ) (d : TxDesc κ) :
    ol_tx_desc_free s d = { s with pool := d.seg.elim s.pool (ol_tso_free_segment s.pool) } := by
  obtain ⟨m, t, c⟩ := d
  cases t <;> cases c <;> rfl

@[simp] theorem ol_tx_desc_free_users (s : Pdev κ) (d : TxDesc κ) :
    (ol_tx_desc_free s d).users = s.users := by rw [ol_tx_desc_free_eq]

@[simp] theorem ol_tx_desc_free_inflight (s : Pdev κ) (d : TxDesc κ) :
    (ol_tx_desc_free s d).inflight = s.inflight := by rw [ol_tx_desc_free_eq]

variable [DecidableEq κ]

omit [DecidableEq κ] in
@[simp] theorem download_pool (s : Pdev κ) (d : TxDesc κ) : (download s d).pool = s.pool := rfl

omit [DecidableEq κ] in
@[simp] theorem download_inflight (s : Pdev κ) (d : TxDesc κ) :
    (download s d).inflight = s.inflight ++ [d] := rfl

@[simp] theorem frame_free_inflight (s : Pdev κ) (d : TxDesc κ) :
    (ol_tx_desc_frame_free_nonstd s d).inflight = s.inflight :=
  ol_tx_desc_free_inflight (cdf_nbuf_free s d.netbuf) d

theorem frame_free_pool (s : Pdev κ) (d : TxDesc κ) :
    (ol_tx_desc_frame_free_nonstd s d).pool =
      d.seg.elim s.pool (ol_tso_free_segment s.pool) := by
  rw [ol_tx_desc_frame_free_nonstd, ol_tx_desc_free_eq]; rfl

@[simp] theorem incUsersFor_pool (s : Pdev κ) (m : κ) (n : Nat) :
    (incUsersFor s m n).pool = s.pool := by
  unfold incUsersFor
  split <;> rfl

@[simp] theorem incUsersFor_inflight (s : Pdev κ) (m : κ) (n : Nat) :
    (incUsersFor s m n).inflight = s.inflight := by
  unfold incUsersFor
  split <;> rfl

/-! ## Users of a netbuf -/

def refs (s : Pdev κ) (x : κ) : Int :=
  s.users x - ((s.inflight.map (·.netbuf)).count x : Nat)

def one (m x : κ) : Int := if x = m then 1 else 0

theorem one_nonneg (m x : κ) : 0 ≤ one m x := by
  unfold one
  split <;> decide

theorem refs_inc (s : Pdev κ) (m x : κ) : refs (cdf_nbuf_inc_users s m) x = refs s x + one m x := by
  unfold refs cdf_nbuf_inc_users one
  by_cases h : x = m
  · subst h
    simp only [update_self, if_true]
    omega
  · simp only [update_of_ne h, if_neg h]; omega

theorem refs_free (s : Pdev κ) (m x : κ) : refs (cdf_nbuf_free s m) x = refs s x - one m x := by
  unfold refs cdf_nbuf_free one
  by_cases h : x = m
  · subst h
    simp only [update_self, if_true]
    omega
  · simp only [update_of_ne h, if_neg h]; omega

theorem refs_desc_free (s : Pdev κ) (d : TxDesc κ) (x : κ) :
    refs (ol_tx_desc_free s d) x = refs s x := by
  rw [refs, ol_tx_desc_free_users, ol_tx_desc_free_inflight]; rfl

theorem refs_frame_free (s : Pdev κ) (d : TxDesc κ) (x : κ) :
    refs (ol_tx_desc_frame_free_nonstd s d) x = refs s x - one d.netbuf x := by
  rw [ol_tx_desc_frame_free_nonstd, refs_desc_free, refs_free]

theorem refs_download (s : Pdev κ) (d : TxDesc κ) (x : κ) :
    refs (download s d) x = refs s x - one d.netbuf x := by
  unfold refs one
  rw [download_inflight, map_append, count_append, map_singleton, count_singleton]
  change s.users x - _ = _
  by_cases h : x = d.netbuf
  · rw [if_pos h, if_pos (by simp [h])]; omega
  · rw [if_neg h, if_neg (by simp [Ne.symm h])]; omega

theorem refs_send (s : Pdev κ) (d : TxDesc κ) (sent : Bool) (x : κ) :
    refs (ol_tx_send s d sent) x = refs s x - one d.netbuf x := by
  unfold ol_tx_send
  split
  · exact refs_download s d x
  · exact refs_frame_free s d x

omit [DecidableEq κ] in
theorem fillDesc_netbuf {info : TsoInfo} {m : κ} {d : TxDesc κ} (h : fillDesc info m = some d) :
    d.netbuf = m := by
  unfold fillDesc at h
  split at h
  · obtain ⟨a, -, rfl⟩ := map_eq_some_iff.mp h; rfl
  · exact (some.inj h) ▸ rfl

/-! ## One segment -/

def Stops (path : Path) (msdu : Msdu κ) (k : Nat) : Prop :=
  msdu.desc k = false ∨ path = .ll_fast ∧ msdu.sent k = false

theorem sendSegs_succ (path : Path) (m : Msdu κ) (n : Nat) (info : TsoInfo) (s : Pdev κ) :
    sendSegs path m (n + 1) info s =
      if m.desc n then (fillDesc info m.id).bind fun d =>
          let s₁ := incUsersFor s m.id n
          if path = .ll_fast ∧ m.sent n = false then some (false, ol_tx_desc_free s₁ d)
          else
            let s₂ := ol_tx_send s₁ d (m.sent n)
            sendSegs path m n (info.advance s₂) s₂
      else some (false, incUsersFor s m.id n) := by
  rw [sendSegs]
  cases path with
  | ll => simp only [reduceCtorEq, false_and, if_false]
  | ll_fast =>
    cases hsent : m.sent n with
    | true => simp [ol_tx_send]
    | false => simp

theorem refs_incUsersFor (s : Pdev κ) (m : κ) (n : Nat) (x : κ) :
    refs (incUsersFor s m n) x = refs s x + if n = 0 then 0 else one m x := by
  unfold incUsersFor
  by_cases hn : n = 0
  · rw [if_neg (not_not.mpr hn), if_pos hn, Int.add_zero]
  · rw [if_pos hn, if_neg hn, refs_inc]

variable {path : Path} {m : Msdu κ} {info : TsoInfo} {s s' : Pdev κ} {ok : Bool}

/-- An accepted netbuf has given away one user, the caller's; one that is not accepted has kept all
of them, and has one more unless it was the last segment that was not taken. -/
theorem sendSegs_refs (n : Nat) (h : sendSegs path m (n + 1) info s = some (ok, s')) :
    (ok = true ∧ ∀ x, refs s' x = refs s x - one m.id x) ∨
      (ok = false ∧ ∃ k ≤ n, Stops path m k ∧
        ∀ x, refs s' x = refs s x + if k = 0 then 0 else one m.id x) := by
  induction n generalizing info s with
  | zero =>
    rw [sendSegs_succ] at h
    split at h
    · obtain ⟨d, hd, h⟩ := bind_eq_some_iff.mp h
      split at h
      · rename_i hstop
        cases h
        refine Or.inr ⟨rfl, 0, Nat.le_refl 0, Or.inr hstop, ?_⟩
        intro x
        rw [refs_desc_free, refs_incUsersFor]
      · cases h
        refine Or.inl ⟨rfl, ?_⟩
        intro x
        rw [refs_send, fillDesc_netbuf hd, refs_incUsersFor, if_pos rfl, Int.add_zero]
    · rename_i hdesc
      cases h
      refine Or.inr ⟨rfl, 0, Nat.le_refl 0, Or.inl (eq_false_of_ne_true hdesc), ?_⟩
      intro x
      rw [refs_incUsersFor]
  | succ n ih =>
    rw [sendSegs_succ] at h
    split at h
    · obtain ⟨d, hd, h⟩ := bind_eq_some_iff.mp h
      split at h
      · rename_i hstop
        cases h
        refine Or.inr ⟨rfl, n + 1, Nat.le_refl _, Or.inr hstop, ?_⟩
        intro x
        rw [refs_desc_free, refs_incUsersFor]
      · -- the user that was taken for the rest makes up for the one that went with the segment
        have hsame : ∀ x, refs (ol_tx_send (incUsersFor s m.id (n + 1)) d (m.sent (n + 1))) x =
            refs s x := by
          intro x
          rw [refs_send, fillDesc_netbuf hd, refs_incUsersFor, if_neg (Nat.succ_ne_zero n)]
          omega
        rcases ih h with ⟨hok, hrefs⟩ | ⟨hok, k, hk, hstop, hrefs⟩
        · refine Or.inl ⟨hok, ?_⟩
          intro x
          rw [hrefs, hsame]
        · refine Or.inr ⟨hok, k, Nat.le_succ_of_le hk, hstop, ?_⟩
          intro x
          rw [hrefs, hsame]
    · rename_i hdesc
      cases h
      refine Or.inr ⟨rfl, n + 1, Nat.le_refl _, Or.inl (eq_false_of_ne_true hdesc), ?_⟩
      intro x
      rw [refs_incUsersFor]

/-! ## Frames that are not jumbo -/

theorem sendSegs_std (n : Nat) (hinfo : info.is_tso = false)
    (h : sendSegs path m n info s = some (ok, s')) :
    s'.pool = s.pool ∧ segsOf s'.inflight = segsOf s.inflight := by
  induction n generalizing info s with
  | zero => cases h; exact ⟨rfl, rfl⟩
  | succ n ih =>
    have hfill : fillDesc info m.id =
        some { netbuf := m.id, pkt_type := .std, tso_desc := none } := by
      rw [fillDesc, hinfo]; rfl
    rw [sendSegs_succ, hfill, bind_some] at h
    split at h
    · split at h
      · cases h
        rw [ol_tx_desc_free_inflight, incUsersFor_inflight]
        exact ⟨incUsersFor_pool s m.id n, rfl⟩
      · obtain ⟨hpool, hsegs⟩ := @ih (info.advance _) _ hinfo h
        rw [hpool, hsegs]
        unfold ol_tx_send
        split
        · rw [download_pool, download_inflight, segsOf_append, segsOf_std, append_nil,
            incUsersFor_pool, incUsersFor_inflight]
          exact ⟨rfl, rfl⟩
        · rw [frame_free_pool, frame_free_inflight, incUsersFor_inflight]
          exact ⟨incUsersFor_pool s m.id n, rfl⟩
    · cases h
      rw [incUsersFor_pool, incUsersFor_inflight]; exact ⟨rfl, rfl⟩

theorem sendSegs_one (path : Path) (m : Msdu κ) (s : Pdev κ) (hinfo : info.is_tso = false) :
    ∃ s', sendSegs path m 1 info s =
      some (m.desc 0 && (decide (path = .ll) || m.sent 0), s') := by
  have hfill : fillDesc info m.id =
      some { netbuf := m.id, pkt_type := .std, tso_desc := none } := by
    rw [fillDesc, hinfo]; rfl
  rw [sendSegs_succ, hfill, bind_some]
  cases m.desc 0 <;> cases path <;> cases m.sent 0 <;> exact ⟨_, rfl⟩

/-! ## Jumbo frames -/

/-- Every segment gets a descriptor, and all but the last are sent. -/
structure Through (m : Msdu κ) (n : Nat) : Prop where
  desc : ∀ k < n, m.desc k = true
  sent : ∀ k, 0 < k → k < n → m.sent k = true

omit [DecidableEq κ] in
theorem through_one (hdesc : m.desc 0 = true) : Through m 1 where
  desc k hk := by obtain rfl := Nat.lt_one_iff.mp hk; exact hdesc
  sent k hpos hk := absurd hk (Nat.not_lt.mpr hpos)

variable {P : Nat} {fl l : List Nat} {a : Nat} {c : Option Nat}

omit [DecidableEq κ] in
theorem fillDesc_tso (m : κ) (hinfo : info.is_tso = true) (hcurr : info.curr_seg = some a) :
    fillDesc info m = some { netbuf := m, pkt_type := .tso, tso_desc := some a } := by
  rw [fillDesc, hinfo, hcurr]; rfl

omit [DecidableEq κ] in
theorem Holds.download (h : Holds P s.pool fl (a :: l ++ segsOf s.inflight)) (m : κ) :
    Holds P s.pool fl
      (l ++ segsOf (s.inflight ++ [{ netbuf := m, pkt_type := .tso, tso_desc := some a }])) := by
  apply h.of_perm
  rw [segsOf_append, segsOf_tso, cons_append, ← append_assoc]; exact perm_append_singleton a _

/-- When all but the last segment get through, the rest of the list is what is not sent, and the
last element is in flight or free. -/
theorem sendSegs_sound (n : Nat) (hinfo : info.is_tso = true) (hthrough : Through m (n + 1))
    (h : Holds P s.pool fl (l ++ segsOf s.inflight)) (hl : Linked s.pool.next info.curr_seg l none)
    (hlen : n + 1 ≤ l.length) :
    ∃ s' fl', sendSegs path m (n + 1) info s = some (decide (path = .ll) || m.sent 0, s') ∧
      Holds P s'.pool fl' (l.drop (n + 1) ++ segsOf s'.inflight) ∧
      fl'.length = fl.length + if m.sent 0 then 0 else 1 := by
  induction n generalizing info s l with
  | zero =>
    obtain ⟨a, l, rfl⟩ := exists_cons_of_ne_nil (ne_nil_of_length_pos hlen)
    have hdesc : m.desc 0 = true := hthrough.desc 0 Nat.one_pos
    rw [sendSegs_succ, fillDesc_tso m.id hinfo hl.1, if_pos hdesc, bind_some]
    cases hsent : m.sent 0 with
    | true =>
      let d : TxDesc κ := { netbuf := m.id, pkt_type := .tso, tso_desc := some a }
      refine ⟨TxTso.download (incUsersFor s m.id 0) d, fl, ?_, h.download m.id, rfl⟩
      rw [if_neg (by simp), Bool.or_true]; rfl
    | false =>
      have hfree := h.free
      cases path with
      | ll => exact ⟨_, _, rfl, hfree, rfl⟩
      | ll_fast => exact ⟨_, _, rfl, hfree, rfl⟩
  | succ n ih =>
    obtain ⟨a, l, rfl⟩ := exists_cons_of_ne_nil (ne_nil_of_length_pos (Nat.zero_lt_of_lt hlen))
    have hdesc : m.desc (n + 1) = true := hthrough.desc (n + 1) (Nat.lt_succ_self _)
    have hsent : m.sent (n + 1) = true := hthrough.sent (n + 1) n.succ_pos (Nat.lt_succ_self _)
    have hrest : Through m (n + 1) :=
      ⟨fun k hk => hthrough.desc k (Nat.lt_succ_of_lt hk),
        fun k hpos hk => hthrough.sent k hpos (Nat.lt_succ_of_lt hk)⟩
    rw [sendSegs_succ, fillDesc_tso m.id hinfo hl.1, if_pos hdesc, bind_some,
      if_neg (by simp [hsent])]
    set s₂ := ol_tx_send (incUsersFor s m.id (n + 1))
      { netbuf := m.id, pkt_type := .tso, tso_desc := some a } (m.sent (n + 1)) with hs₂
    have hdown : s₂ = download (cdf_nbuf_inc_users s m.id)
        { netbuf := m.id, pkt_type := .tso, tso_desc := some a } := by rw [hs₂, hsent]; rfl
    have hcurr : (info.advance s₂).curr_seg = s.pool.next a := by
      rw [hdown]; exact congrArg (·.bind s.pool.next) hl.1
    have h₂ : Holds P s₂.pool fl (l ++ segsOf s₂.inflight) := by
      rw [hdown]; exact h.download m.id
    have hl₂ : Linked s₂.pool.next (info.advance s₂).curr_seg l none := by
      rw [hcurr, hdown]; exact hl.2
    exact ih hinfo hrest h₂ hl₂ (Nat.le_of_succ_le_succ hlen)

/-! ## Lost elements -/

omit [DecidableEq κ] in
/-- The element `x` is neither found from the free list, or from the pointer `c`, on nor held by a
descriptor. -/
def Lost (P x : Nat) (c : Option Nat) (s : Pdev κ) : Prop :=
  x < P ∧ ∃ F, Inside (Others P x) F s.pool ∧ (∀ a ∈ c, F a) ∧
    ∀ a ∈ segsOf s.inflight, Others P x a

variable {x : Nat}

omit [DecidableEq κ] in
theorem Lost.of_found (h : Lost P x c s) : Lost P x none s := by
  obtain ⟨hx, F, hin, -, hsegs⟩ := h
  exact ⟨hx, F, hin, fun a ha => absurd ha (not_mem_none a), hsegs⟩

omit [DecidableEq κ] in
theorem Holds.lost {out : List Nat} (h : Holds P s.pool fl (x :: out))
    (hsub : ∀ a ∈ segsOf s.inflight, a ∈ out) (hc : ∀ a ∈ c, a ∈ fl) : Lost P x c s := by
  have hnd := nodup_cons.mp (perm_middle.nodup h.nodup)
  have hothers : ∀ a ∈ fl ++ out, Others P x a := by
    intro a ha
    refine ⟨h.lt_of_mem (perm_middle.mem_iff.mpr (mem_cons_of_mem x ha)), ?_⟩
    rintro rfl; exact hnd.1 ha
  refine ⟨h.lt_of_mem (mem_append_right fl mem_cons_self), (· ∈ fl), ?_, hc, ?_⟩
  · refine ⟨fun a ha => hothers a (mem_append_left out ha), ?_, ?_⟩
    · intro a ha; exact linked_head_mem h.linked ha
    · intro a ha b hb; exact linked_next_mem h.linked ha hb
  · intro a ha; exact hothers a (mem_append_right fl (hsub a ha))

omit [DecidableEq κ] in
theorem Lost.free_desc {d : TxDesc κ} (h : Lost P x d.seg s) :
    Lost P x d.seg (ol_tx_desc_free s d) := by
  obtain ⟨hx, F, hin, hc, hsegs⟩ := h
  refine ⟨hx, F, ?_, hc, ?_⟩
  · rw [ol_tx_desc_free_eq]
    cases hd : d.seg with
    | none => exact hin
    | some a => exact hin.free_found (hc a hd)
  · rwa [ol_tx_desc_free_inflight]

theorem Lost.send {d : TxDesc κ} (h : Lost P x d.seg s) (sent : Bool) :
    Lost P x (d.seg.bind (ol_tx_send s d sent).pool.next) (ol_tx_send s d sent) := by
  obtain ⟨hx, F, hin, hc, hsegs⟩ := h
  have hnext : ∀ {p : TsoSegPool}, Inside (Others P x) F p → ∀ a ∈ d.seg.bind p.next, F a := by
    intro p hp a ha
    obtain ⟨b, hb, hab⟩ := bind_eq_some_iff.mp ha
    exact hp.next b (hc b hb) a hab
  cases sent with
  | true =>
    refine ⟨hx, F, hin, hnext hin, ?_⟩
    intro a ha
    have hmem : a ∈ segsOf s.inflight ++ segsOf [d] := segsOf_append s.inflight [d] ▸ ha
    obtain hmem | hmem := mem_append.mp hmem
    · exact hsegs a hmem
    · rw [segsOf_cons, segsOf_nil, append_nil, mem_toList] at hmem; exact hin.sub a (hc a hmem)
  | false =>
    have hfree : Inside (Others P x) F (ol_tx_desc_frame_free_nonstd s d).pool := by
      rw [frame_free_pool]
      cases hd : d.seg with
      | none => exact hin
      | some a => exact hin.free_found (hc a hd)
    refine ⟨hx, F, hfree, hnext hfree, ?_⟩
    change ∀ a ∈ segsOf (ol_tx_desc_frame_free_nonstd s d).inflight, Others P x a
    rwa [frame_free_inflight]

omit [DecidableEq κ] in
theorem Lost.congr {s₁ : Pdev κ} (h : Lost P x c s) (hpool : s₁.pool = s.pool)
    (hsegs : segsOf s₁.inflight = segsOf s.inflight) : Lost P x c s₁ := by
  rw [Lost, hpool, hsegs]; exact h

theorem Lost.sendSegs (n : Nat) (h : Lost P x none s)
    (hc : info.is_tso = true → Lost P x info.curr_seg s)
    (hrun : sendSegs path m n info s = some (ok, s')) : Lost P x none s' := by
  cases hinfo : info.is_tso with
  | false => obtain ⟨hpool, hsegs⟩ := sendSegs_std n hinfo hrun; exact h.congr hpool hsegs
  | true =>
    have hcurr := hc hinfo
    clear h hc
    induction n generalizing info s with
    | zero => cases hrun; exact hcurr.of_found
    | succ n ih =>
      have hinc : Lost P x info.curr_seg (incUsersFor s m.id n) :=
        hcurr.congr (incUsersFor_pool s m.id n)
          (congrArg segsOf (incUsersFor_inflight s m.id n))
      rw [sendSegs_succ] at hrun
      split at hrun
      · obtain ⟨d, hd, hrun⟩ := bind_eq_some_iff.mp hrun
        have hseg : d.seg = info.curr_seg := by
          rw [fillDesc, hinfo, if_pos rfl] at hd
          obtain ⟨a, ha, rfl⟩ := map_eq_some_iff.mp hd
          exact ha.symm
        rw [← hseg] at hinc
        split at hrun
        · cases hrun; exact hinc.free_desc.of_found
        · have hnext := hinc.send (m.sent n)
          rw [hseg] at hnext; exact @ih (info.advance _) _ hrun hinfo hnext
      · cases hrun; exact hinc.of_found

theorem sendSegs_lost (n : Nat) (hinfo : info.is_tso = true) (hbad : ¬ Through m n)
    (h : Holds P s.pool fl (l ++ segsOf s.inflight)) (hl : Linked s.pool.next info.curr_seg l none)
    (hlen : n ≤ l.length) (hrun : sendSegs path m n info s = some (ok, s')) :
    ∃ x, Lost P x none s' := by
  induction n generalizing info s l with
  | zero => exact absurd ⟨fun k hk => absurd hk k.not_lt_zero,
      fun k _ hk => absurd hk k.not_lt_zero⟩ hbad
  | succ n ih =>
    obtain ⟨a, l, rfl⟩ := exists_cons_of_ne_nil (ne_nil_of_length_pos (Nat.zero_lt_of_lt hlen))
    rw [sendSegs_succ, fillDesc_tso m.id hinfo hl.1, bind_some] at hrun
    split at hrun
    · rename_i hdesc
      cases hsent : m.sent n with
      | true =>
        -- nothing is wrong with this segment
        have hbad' : ¬ Through m n := by
          intro hn
          apply hbad
          refine ⟨fun k hk => ?_, fun k hpos hk => ?_⟩
          · obtain hk | rfl := Nat.lt_succ_iff_lt_or_eq.mp hk
            · exact hn.desc k hk
            · exact hdesc
          · obtain hk | rfl := Nat.lt_succ_iff_lt_or_eq.mp hk
            · exact hn.sent k hpos hk
            · exact hsent
        rw [if_neg (by simp [hsent]), hsent] at hrun
        have hcurr : Linked s.pool.next (info.curr_seg.bind s.pool.next) l none := by
          rw [hl.1]; exact hl.2
        apply @ih (info.advance _) _ l hinfo hbad' ?_ ?_ (Nat.le_of_succ_le_succ hlen) hrun
        · change Holds P (incUsersFor s m.id n).pool fl
            (l ++ segsOf ((incUsersFor s m.id n).inflight ++ _))
          rw [incUsersFor_pool, incUsersFor_inflight]; exact h.download m.id
        · change Linked (incUsersFor s m.id n).pool.next
            (info.curr_seg.bind (incUsersFor s m.id n).pool.next) l none
          rwa [incUsersFor_pool]
      | false =>
        obtain rfl | hn := Nat.eq_zero_or_pos n
        · exact absurd (through_one hdesc) hbad
        · -- the element is freed, and what it pointed to is out of reach
          obtain ⟨b, l, rfl⟩ := exists_cons_of_ne_nil
            (ne_nil_of_length_pos (Nat.lt_of_lt_of_le hn (Nat.le_of_succ_le_succ hlen)))
          refine ⟨b, ?_⟩
          have hfree : Holds P (ol_tso_free_segment (incUsersFor s m.id n).pool a) (a :: fl)
              (b :: (l ++ segsOf (incUsersFor s m.id n).inflight)) := by
            rw [incUsersFor_pool, incUsersFor_inflight]; exact h.free
          split at hrun
          · cases hrun
            exact Holds.lost hfree (fun y hy => mem_append_right l hy)
              fun y hy => absurd hy (not_mem_none y)
          · rw [hsent] at hrun
            have hwalk : Lost P b ((some a).bind (ol_tso_free_segment
                (incUsersFor s m.id n).pool a).next) (ol_tx_send (incUsersFor s m.id n)
                  { netbuf := m.id, pkt_type := .tso, tso_desc := some a } false) :=
              Holds.lost hfree (fun y hy => mem_append_right l hy)
                fun y hy => linked_next_mem hfree.linked mem_cons_self hy
            apply Lost.sendSegs n hwalk.of_found (fun _ => ?_) hrun
            rw [TsoInfo.advance, hl.1]; exact hwalk
    · -- nobody but the loop had the element
      cases hrun
      refine ⟨a, ?_⟩
      have hlost : Lost P a none s :=
        Holds.lost h (fun y hy => mem_append_right l hy)
          fun y hy => absurd hy (not_mem_none y)
      exact hlost.congr (incUsersFor_pool s m.id n)
        (congrArg segsOf (incUsersFor_inflight s m.id n))

end Qcacld.TxTso
