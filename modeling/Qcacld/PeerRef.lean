/-
What a peer's reference count counts.

Every reference is one of four kinds: the attachment, the reference that attach holds back until the
first PEER_MAP arrives, one per entry of `peer_id_to_obj_map`, and one per outstanding lookup.
-/
import Qcacld.PeerFind
import Qcacld.Lib.Bins
import Qcacld.Lib.Count

set_option autoImplicit false

namespace Qcacld.Peer

open Lib Function Option

/-! ## The sum -/

/-- The ids that `peer_id_to_obj_map` has an entry for. -/
def peerIds : List Nat := List.range (max_peer_id + 1)

/-- Whether attach's second reference still waits for the first PEER_MAP. -/
def reserved (s : Pdev) (p : PeerPtr) : Nat :=
  match s.peer p with
  | none => 0
  | some peer => if peer.peer_ids.head? = some HTT_INVALID_PEER then 1 else 0

def mapRefs (s : Pdev) (p : PeerPtr) : Nat :=
  holders s.peer_id_to_obj_map peerIds (some p)

def refSum (s : Pdev) (p : PeerPtr) : Nat :=
  (if s.attached p then 1 else 0) + (reserved s p + mapRefs s p) + s.lookups p

/-- **The reference count contract**, as one predicate on states. -/
structure RefCntExact (s : Pdev) : Prop where
  ref_cnt_eq : ∀ p peer, s.peer p = some peer → peer.ref_cnt = refSum s p
  /-- A peer is allocated as long as the sum is positive. -/
  live_iff : ∀ p, p < s.nextPeer → ((s.peer p).isSome ↔ 0 < refSum s p)
  freed_once : ∀ p, p < s.nextPeer → s.freed.count p = if (s.peer p).isSome then 0 else 1
  no_dangling : ∀ p ∈ s.freed,
    (∀ peer_id, s.peer_id_to_obj_map peer_id ≠ some p) ∧
    (∀ index, p ∉ s.peer_hash index) ∧
    (∀ v, p ∉ s.peer_list v) ∧
    ∀ i, s.local_peer_ids.map i ≠ some p

/-- The steps that keep the contract. -/
def refOk (s : Pdev) : Op → Bool
  | .peer_map peer_id mac =>
    s.peer_id_to_obj_map peer_id = none ||
      (ol_txrx_peer_find_hash_find s mac false).any fun r => r.2.isNone
  | .atomic_dec p => (s.peer p).all fun peer => 1 < peer.ref_cnt
  | _ => true

/-! ## The invariant -/

/-- What the tables say about each other, without the counts. -/
structure Shape (s : Pdev) : Prop where
  dead : ∀ p, s.peer p = none → s.attached p = false ∧ s.lookups p = 0
  fresh : ∀ p, s.nextPeer ≤ p → s.peer p = none
  mem_freed : ∀ p, p ∈ s.freed ↔ p < s.nextPeer ∧ s.peer p = none
  freed_nodup : s.freed.Nodup
  hash_live : ∀ i p, p ∈ s.peer_hash i →
    ∃ peer, s.peer p = some peer ∧ ol_txrx_peer_find_hash_index peer.mac_addr = i
  hash_nodup : ∀ i, (s.peer_hash i).Nodup
  list_live : ∀ v p, p ∈ s.peer_list v → ∃ peer, s.peer p = some peer ∧ peer.vdev = v
  list_nodup : ∀ v, (s.peer_list v).Nodup
  map_live : ∀ i p, s.peer_id_to_obj_map i = some p → i ≤ max_peer_id ∧ s.peer p ≠ none
  local_live : ∀ i p, s.local_peer_ids.map i = some p →
    i < OL_TXRX_NUM_LOCAL_PEER_IDS ∧ s.attached p = true ∧
      ∃ peer, s.peer p = some peer ∧ peer.local_id = i
  pool_le : ∀ i, i ≤ OL_TXRX_NUM_LOCAL_PEER_IDS →
    s.local_peer_ids.pool i ≤ OL_TXRX_NUM_LOCAL_PEER_IDS
  pool_end : s.local_peer_ids.pool OL_TXRX_NUM_LOCAL_PEER_IDS = OL_TXRX_NUM_LOCAL_PEER_IDS
  freelist_le : s.local_peer_ids.freelist ≤ OL_TXRX_NUM_LOCAL_PEER_IDS
  last_real : ∀ v p, s.last_real_peer v = some p →
    s.attached p = true ∧ ∃ peer, s.peer p = some peer ∧ peer.vdev = v

/-- `Shape`, and every live peer's count is its sum, except that the count of
`p` is off by `k`. -/
structure Inv (s : Pdev) (p : PeerPtr) (k : Int) : Prop where
  shape : Shape s
  pos : ∀ q peer, s.peer q = some peer → 0 < peer.ref_cnt
  count : ∀ q peer, s.peer q = some peer →
    peer.ref_cnt = refSum s q + if q = p then k else 0

theorem Inv.zero {s : Pdev} {p : PeerPtr} (h : Inv s p 0) (q : PeerPtr) : Inv s q 0 :=
  ⟨h.shape, h.pos, fun r peer hr => by simpa using h.count r peer hr⟩

theorem Shape.lt_nextPeer {s : Pdev} (h : Shape s) {p : PeerPtr} (hp : s.peer p ≠ none) :
    p < s.nextPeer := by by_contra hlt; exact hp (h.fresh p (Nat.not_lt.mp hlt))

theorem mem_peerIds {i : Nat} : i ∈ peerIds ↔ i ≤ max_peer_id := by
  rw [peerIds, List.mem_range]; omega

theorem peerIds_nodup : peerIds.Nodup := List.nodup_range

theorem refSum_congr {s t : Pdev} (q : PeerPtr) (ha : t.attached = s.attached)
    (hl : t.lookups = s.lookups) :
    refSum t q + (reserved s q + mapRefs s q) = refSum s q + (reserved t q + mapRefs t q) := by
  rw [refSum, refSum, ha, hl]; omega

/-! ## Rewriting a peer in place -/

section ModifyPeer

variable {s : Pdev} {p q : PeerPtr} {f : OlPeer → OlPeer}

theorem modifyPeer_peer (s : Pdev) (p q : PeerPtr) (f : OlPeer → OlPeer) :
    (s.modifyPeer p f).peer q = if q = p then (s.peer q).map f else s.peer q := by
  by_cases h : q = p
  · subst h; simp [Pdev.modifyPeer]
  · simp [Pdev.modifyPeer, h]

theorem modifyPeer_peer_eq_none : (s.modifyPeer p f).peer q = none ↔ s.peer q = none := by
  rw [modifyPeer_peer]
  split <;> simp

theorem modifyPeer_peer_eq_some {peer : OlPeer} :
    (s.modifyPeer p f).peer q = some peer ↔
      ∃ old, s.peer q = some old ∧ peer = if q = p then f old else old := by
  rw [modifyPeer_peer]
  split
  · rw [map_eq_some_iff]; exact exists_congr fun old => and_congr_right fun _ => eq_comm
  · simp

/-- A rewrite that keeps the fields the tables are indexed by keeps `Shape`. -/
theorem modifyPeer_shape (h : Shape s) (hv : ∀ x, (f x).vdev = x.vdev)
    (hm : ∀ x, (f x).mac_addr = x.mac_addr)
    (hl : ∀ i, s.local_peer_ids.map i = some p → ∀ x, (f x).local_id = x.local_id) :
    Shape (s.modifyPeer p f) := by
  -- each table entry keeps its peer, whose indexed fields are unchanged
  have hlift : ∀ q old, s.peer q = some old →
      ∃ peer, (s.modifyPeer p f).peer q = some peer ∧ peer.vdev = old.vdev ∧
        peer.mac_addr = old.mac_addr ∧
        ∀ i, s.local_peer_ids.map i = some q → peer.local_id = old.local_id := by
    intro q old hq
    refine ⟨_, modifyPeer_peer_eq_some.mpr ⟨old, hq, rfl⟩, ?_⟩
    split
    · next he => exact ⟨hv old, hm old, fun i hi => hl i (he ▸ hi) old⟩
    · exact ⟨rfl, rfl, fun _ _ => rfl⟩
  refine
    { h with
      dead := fun q hq => h.dead q (modifyPeer_peer_eq_none.mp hq)
      fresh := fun q hq => modifyPeer_peer_eq_none.mpr (h.fresh q hq)
      mem_freed := fun q => ?_
      hash_live := fun i q hq => ?_
      list_live := fun v q hq => ?_
      map_live := fun i q hq => ?_
      local_live := fun i q hq => ?_
      last_real := fun v q hq => ?_ }
  · rw [modifyPeer_peer_eq_none]; exact h.mem_freed q
  · obtain ⟨old, hold, hidx⟩ := h.hash_live i q hq
    obtain ⟨peer, hpeer, -, hmac, -⟩ := hlift q old hold
    exact ⟨peer, hpeer, by rw [hmac, hidx]⟩
  · obtain ⟨old, hold, hvd⟩ := h.list_live v q hq
    obtain ⟨peer, hpeer, hvd', -, -⟩ := hlift q old hold
    exact ⟨peer, hpeer, by rw [hvd', hvd]⟩
  · obtain ⟨hi, hne⟩ := h.map_live i q hq
    exact ⟨hi, fun h0 => hne (modifyPeer_peer_eq_none.mp h0)⟩
  · obtain ⟨hi, hatt, old, hold, hlid⟩ := h.local_live i q hq
    obtain ⟨peer, hpeer, -, -, hlid'⟩ := hlift q old hold
    exact ⟨hi, hatt, peer, hpeer, by rw [hlid' i hq, hlid]⟩
  · obtain ⟨hatt, old, hold, hvd⟩ := h.last_real v q hq
    obtain ⟨peer, hpeer, hvd', -, -⟩ := hlift q old hold
    exact ⟨hatt, peer, hpeer, by rw [hvd', hvd]⟩

theorem reserved_modifyPeer (hf : ∀ x, (f x).peer_ids = x.peer_ids) :
    reserved (s.modifyPeer p f) q = reserved s q := by
  rw [reserved, reserved, modifyPeer_peer]
  split_ifs
  · cases s.peer q <;> simp [hf]
  · rfl

theorem refSum_modifyPeer_reserved (s : Pdev) (p q : PeerPtr) (f : OlPeer → OlPeer) :
    refSum (s.modifyPeer p f) q + reserved s q
      = refSum s q + reserved (s.modifyPeer p f) q := by
  have hm : mapRefs (s.modifyPeer p f) q = mapRefs s q := rfl
  have hsum := refSum_congr (s := s) (t := s.modifyPeer p f) q rfl rfl
  omega

theorem refSum_modifyPeer (hf : ∀ x, (f x).peer_ids = x.peer_ids) :
    refSum (s.modifyPeer p f) q = refSum s q := by
  have hsum := refSum_modifyPeer_reserved s p q f
  rw [reserved_modifyPeer hf] at hsum; omega

theorem modifyPeer_inv {r : PeerPtr} {k : Int} (h : Inv s r k)
    (hv : ∀ x, (f x).vdev = x.vdev) (hm : ∀ x, (f x).mac_addr = x.mac_addr)
    (hl : ∀ i, s.local_peer_ids.map i = some p → ∀ x, (f x).local_id = x.local_id)
    (hids : ∀ x, (f x).peer_ids = x.peer_ids)
    (hr : ∀ x, (f x).ref_cnt = x.ref_cnt) : Inv (s.modifyPeer p f) r k := by
  have hcnt : ∀ q peer, (s.modifyPeer p f).peer q = some peer →
      ∃ old, s.peer q = some old ∧ peer.ref_cnt = old.ref_cnt := by
    intro q peer hq
    obtain ⟨old, hold, rfl⟩ := modifyPeer_peer_eq_some.mp hq
    refine ⟨old, hold, ?_⟩
    split
    · exact hr old
    · rfl
  refine ⟨modifyPeer_shape h.shape hv hm hl, fun q peer hq => ?_, fun q peer hq => ?_⟩
  · obtain ⟨old, hold, he⟩ := hcnt q peer hq
    rw [he]; exact h.pos q old hold
  · obtain ⟨old, hold, he⟩ := hcnt q peer hq
    rw [he, refSum_modifyPeer hids]; exact h.count q old hold

theorem atomic_add_inv {k : Int} (h : Inv s p k) (n : Int)
    (hpos : ∀ peer, s.peer p = some peer → 0 < peer.ref_cnt + n) :
    Inv (atomic_add s p n) p (k + n) := by
  refine ⟨modifyPeer_shape h.shape (fun _ => rfl) (fun _ => rfl) fun _ _ _ => rfl, ?_, ?_⟩
  · intro q peer hq
    obtain ⟨old, hold, rfl⟩ := modifyPeer_peer_eq_some.mp hq
    by_cases hqp : q = p
    · subst hqp
      rw [if_pos rfl]; exact hpos old hold
    · rw [if_neg hqp]; exact h.pos q old hold
  · intro q peer hq
    obtain ⟨old, hold, rfl⟩ := modifyPeer_peer_eq_some.mp hq
    have hc := h.count q old hold
    have hsum : refSum (atomic_add s p n) q = refSum s q := refSum_modifyPeer fun _ => rfl
    rw [hsum]
    by_cases hqp : q = p
    · rw [if_pos hqp] at hc ⊢
      rw [if_pos hqp]
      show old.ref_cnt + n = _
      omega
    · rw [if_neg hqp] at hc ⊢
      rw [if_neg hqp]; exact hc

theorem atomic_inc_inv {k : Int} (h : Inv s p k) : Inv (atomic_add s p 1) p (k + 1) :=
  atomic_add_inv h 1 fun peer hp => by have := h.pos p peer hp; omega

end ModifyPeer

/-! ## Releasing the last reference -/

/-- Nothing but the hash and the vdev's list points at `p`. -/
structure Unreferenced (s : Pdev) (p : PeerPtr) : Prop where
  not_attached : s.attached p = false
  no_lookup : s.lookups p = 0
  not_mapped : ∀ i, s.peer_id_to_obj_map i ≠ some p
  not_local : ∀ i, s.local_peer_ids.map i ≠ some p

theorem unreferenced_of_refSum {s : Pdev} {p : PeerPtr} (h : Shape s) (hsum : refSum s p = 0) :
    Unreferenced s p := by
  have hatt : s.attached p = false := by
    by_contra hne
    rw [refSum, if_pos (by simpa using hne)] at hsum; omega
  refine ⟨hatt, ?_, ?_, ?_⟩
  · rw [refSum] at hsum; omega
  · intro i hi
    have hmem : i ∈ peerIds := mem_peerIds.mpr (h.map_live i p hi).1
    have hpos : 0 < mapRefs s p := holders_pos hmem hi
    rw [refSum] at hsum; omega
  · intro i hi
    have hla := (h.local_live i p hi).2.1
    rw [hatt] at hla; exact absurd hla (by decide)

section Delete

variable {s : Pdev} {p : PeerPtr} {peer : OlPeer}

theorem peer_delete_peer (q : PeerPtr) :
    (peer_delete s p peer).peer q = if q = p then none else s.peer q := by
  show update s.peer p none q = _
  rw [update_apply]

theorem peer_delete_hash (h : Shape s) (hp : s.peer p = some peer) {i : Nat} {q : PeerPtr} :
    q ∈ (peer_delete s p peer).peer_hash i ↔ q ≠ p ∧ q ∈ s.peer_hash i := by
  refine mem_update_erase h.hash_nodup fun i hi => ?_
  obtain ⟨x, hx, hidx⟩ := h.hash_live i p hi
  rw [hp] at hx
  rw [← hidx, some.inj hx]

theorem peer_delete_list (h : Shape s) (hp : s.peer p = some peer) {v : VdevId} {q : PeerPtr} :
    q ∈ (peer_delete s p peer).peer_list v ↔ q ≠ p ∧ q ∈ s.peer_list v := by
  refine mem_update_erase h.list_nodup fun v hv => ?_
  obtain ⟨x, hx, hvd⟩ := h.list_live v p hv
  rw [hp] at hx
  rw [← hvd, some.inj hx]

theorem peer_delete_shape (h : Shape s) (hp : s.peer p = some peer) (hu : Unreferenced s p) :
    Shape (peer_delete s p peer) := by
  have hkeep : ∀ q, q ≠ p → (peer_delete s p peer).peer q = s.peer q := fun q hq => by
    rw [peer_delete_peer, if_neg hq]
  have hnone : ∀ q, (peer_delete s p peer).peer q = none ↔ q = p ∨ s.peer q = none := fun q => by
    rw [peer_delete_peer]
    by_cases hq : q = p <;> simp [hq]
  refine
    { h with
      dead := fun q hq => ?_
      fresh := fun q hq => (hnone q).mpr (.inr (h.fresh q hq))
      mem_freed := fun q => ?_
      freed_nodup := ?_
      hash_live := fun i q hq => ?_
      hash_nodup := nodup_update h.hash_nodup ((h.hash_nodup _).erase p)
      list_live := fun v q hq => ?_
      list_nodup := nodup_update h.list_nodup ((h.list_nodup _).erase p)
      map_live := fun i q hq => ?_
      local_live := fun i q hq => ?_
      last_real := fun v q hq => ?_ }
  · rcases (hnone q).mp hq with rfl | hq
    · exact ⟨hu.not_attached, hu.no_lookup⟩
    · exact h.dead q hq
  · have hlt : p < s.nextPeer := h.lt_nextPeer (by rw [hp]; simp)
    show q ∈ p :: s.freed ↔ q < s.nextPeer ∧ _
    rw [hnone, List.mem_cons, h.mem_freed]
    constructor
    · rintro (rfl | ⟨hq, hn⟩)
      · exact ⟨hlt, .inl rfl⟩
      · exact ⟨hq, .inr hn⟩
    · rintro ⟨hq, rfl | hn⟩
      · exact .inl rfl
      · exact .inr ⟨hq, hn⟩
  · refine List.nodup_cons.mpr ⟨fun hmem => ?_, h.freed_nodup⟩
    have hdead := ((h.mem_freed p).mp hmem).2
    rw [hp] at hdead; exact absurd hdead (by simp)
  · obtain ⟨hne, hmem⟩ := (peer_delete_hash h hp).mp hq
    obtain ⟨x, hx, hidx⟩ := h.hash_live i q hmem
    exact ⟨x, by rw [hkeep q hne, hx], hidx⟩
  · obtain ⟨hne, hmem⟩ := (peer_delete_list h hp).mp hq
    obtain ⟨x, hx, hvd⟩ := h.list_live v q hmem
    exact ⟨x, by rw [hkeep q hne, hx], hvd⟩
  · obtain ⟨hi, hne⟩ := h.map_live i q hq
    have hqp : q ≠ p := fun he => hu.not_mapped i (he ▸ hq)
    exact ⟨hi, by rwa [hkeep q hqp]⟩
  · obtain ⟨hi, ha, x, hx, hlid⟩ := h.local_live i q hq
    have hqp : q ≠ p := fun he => hu.not_local i (he ▸ hq)
    exact ⟨hi, ha, x, by rw [hkeep q hqp, hx], hlid⟩
  · obtain ⟨ha, x, hx, hvd⟩ := h.last_real v q hq
    have hqp : q ≠ p := fun he => absurd ha (by rw [he, hu.not_attached]; decide)
    exact ⟨ha, x, by rw [hkeep q hqp, hx], hvd⟩

/-- With `ref_cnt = 1` and one reference already given up, the peer is
unreferenced, and `peer_delete` restores the invariant. -/
theorem peer_delete_inv (h : Inv s p 1) (hp : s.peer p = some peer) (hone : peer.ref_cnt = 1) :
    Inv (peer_delete s p peer) p 0 := by
  have hsum : refSum s p = 0 := by
    have hc := h.count p peer hp
    rw [if_pos rfl, hone] at hc; omega
  have hu : Unreferenced s p := unreferenced_of_refSum h.shape hsum
  have hback : ∀ q x, (peer_delete s p peer).peer q = some x → q ≠ p ∧ s.peer q = some x := by
    intro q x hq
    rw [peer_delete_peer] at hq
    by_cases hne : q = p
    · rw [if_pos hne] at hq; exact absurd hq (by simp)
    · rw [if_neg hne] at hq; exact ⟨hne, hq⟩
  refine ⟨peer_delete_shape h.shape hp hu, fun q x hq => h.pos q x (hback q x hq).2, ?_⟩
  intro q x hq
  obtain ⟨hne, hx⟩ := hback q x hq
  have hc := h.count q x hx
  have hsame : refSum (peer_delete s p peer) q = refSum s q := by
    simp only [refSum, reserved, peer_delete_peer, if_neg hne]
    rfl
  rw [if_neg hne] at hc ⊢
  rw [hsame, hc]

/-- **Releasing a reference.** When one reference to `p` has been given up on
paper, `ol_txrx_peer_unref_delete` makes the count agree, by freeing the peer if
it was the last one. -/
theorem unref_delete_inv (h : Inv s p 1) {s' : Pdev}
    (hs : ol_txrx_peer_unref_delete s p = some s') : Inv s' p 0 := by
  obtain ⟨peer, hp, rfl⟩ := map_eq_some_iff.mp hs
  have hpos := h.pos p peer hp
  rw [if_neg (by omega)]
  split
  · exact peer_delete_inv h hp (by omega)
  · refine atomic_add_inv h (-1) fun x hx => ?_
    rw [hp] at hx
    cases hx
    omega

end Delete

/-! ## Lookups and their release -/

section Lookups

variable {s s' : Pdev} {p : PeerPtr}

theorem tailq_find_some {test : OlPeer → Bool} {l : List PeerPtr}
    (h : tailq_find s test l = some (some p)) :
    p ∈ l ∧ ∃ peer, s.peer p = some peer ∧ test peer = true := by
  induction l with
  | nil => simp [tailq_find] at h
  | cons q l ih =>
    obtain ⟨peer, hq, hif⟩ := bind_eq_some_iff.mp h
    by_cases ht : test peer = true
    · rw [if_pos ht, some.injEq, some.injEq] at hif
      subst hif; exact ⟨List.mem_cons_self, peer, hq, ht⟩
    · rw [if_neg ht] at hif
      obtain ⟨hmem, hx⟩ := ih hif
      exact ⟨List.mem_cons_of_mem q hmem, hx⟩

variable {r : Pdev × Option PeerPtr}

theorem hash_find_with_spec {mac : MacAddr} {test : OlPeer → Bool}
    (h : hash_find_with s mac test = some r) :
    r = (s, none) ∨ ∃ p, r = (atomic_add s p 1, some p) ∧ s.peer p ≠ none := by
  obtain ⟨o, ho, rfl⟩ := map_eq_some_iff.mp h
  cases o with
  | none => exact .inl rfl
  | some p =>
    obtain ⟨-, peer, hp, -⟩ := tailq_find_some ho
    exact .inr ⟨p, rfl, by rw [hp]; simp⟩

theorem shape_of_lookups {f : PeerPtr → Nat} (h : Shape s)
    (hf : ∀ q, s.peer q = none → f q = 0) : Shape { s with lookups := f } :=
  { h with dead := fun q hq => ⟨(h.dead q hq).1, hf q hq⟩ }

theorem refSum_lookups (s : Pdev) (f : PeerPtr → Nat) (q : PeerPtr) :
    refSum { s with lookups := f } q + s.lookups q = refSum s q + f q := by
  simp only [refSum, reserved, mapRefs]
  omega

theorem holdLookup_inv (h : Inv s p 1) (hp : s.peer p ≠ none) :
    Inv (holdLookup (s, some p)) p 0 := by
  refine ⟨shape_of_lookups h.shape fun q hq => ?_, h.pos, fun q x hq => ?_⟩
  · have hne : q ≠ p := fun he => hp (he ▸ hq)
    rw [update_of_ne hne]; exact (h.shape.dead q hq).2
  · have hc := h.count q x hq
    have hsum := refSum_lookups s (update s.lookups p (s.lookups p + 1)) q
    rw [hc, holdLookup]
    by_cases he : q = p
    · subst he
      rw [update_self] at hsum
      simp only [if_true]
      omega
    · rw [update_of_ne he] at hsum
      simp only [if_neg he]
      omega

theorem dropLookup_inv (h : Inv s p 0) (hs : dropLookup s p = some s') : Inv s' p 1 := by
  rw [dropLookup] at hs
  split at hs
  · exact absurd hs (by simp)
  · next hne =>
    rw [some.injEq] at hs
    subst hs
    refine ⟨shape_of_lookups h.shape fun q hq => ?_, h.pos, fun q x hq => ?_⟩
    · have hz := (h.shape.dead q hq).2
      rw [update_apply]
      split
      · next he => rw [← he, hz]
      · exact hz
    · have hc := h.count q x hq
      have hsum := refSum_lookups s (update s.lookups p (s.lookups p - 1)) q
      by_cases he : q = p
      · subst he
        rw [update_self] at hsum
        simp only [if_true]
        omega
      · rw [update_of_ne he] at hsum
        simp only [if_neg he]
        omega

/-- A finder that reports nothing or a fresh reference keeps the invariant once
the reference is noted. -/
theorem holdLookup_spec (h : Inv s p 0)
    (hr : r = (s, none) ∨ ∃ q, r = (atomic_add s q 1, some q) ∧ s.peer q ≠ none) :
    Inv (holdLookup r) p 0 := by
  rcases hr with rfl | ⟨q, rfl, hq⟩
  · exact h
  · have hinc : Inv (atomic_add s q 1) q 1 := by simpa using atomic_inc_inv (h.zero q)
    have hlive : (atomic_add s q 1).peer q ≠ none := fun h0 =>
      hq (modifyPeer_peer_eq_none.mp h0)
    exact (holdLookup_inv hinc hlive).zero p

theorem assoc_peer_find_spec {v : VdevId} (h : ol_txrx_assoc_peer_find s v = some r) :
    r = (s, none) ∨ ∃ p, r = (atomic_add s p 1, some p) ∧ s.peer p ≠ none := by
  rw [ol_txrx_assoc_peer_find] at h
  split at h
  · exact .inl (some.inj h).symm
  · next p _ =>
    obtain ⟨peer, hp, hif⟩ := map_eq_some_iff.mp h
    split at hif
    · exact .inr ⟨p, hif.symm, by rw [hp]; simp⟩
    · exact .inl hif.symm

end Lookups

/-! ## Detach -/

section Detach

variable {s s' : Pdev} {p : PeerPtr} {peer : OlPeer}

/-- Returning the local id clears the only entry of the local id map that can
point at the peer, so that the attachment can be given up. -/
theorem local_peer_id_free_inv (h : Inv s p 0)
    (hp : ∀ x, s.peer p = some x → x.local_id = peer.local_id) :
    Inv (ol_txrx_local_peer_id_free s peer) p 0 ∧
      ∀ i, (ol_txrx_local_peer_id_free s peer).local_peer_ids.map i ≠ some p := by
  have hmine : ∀ i, s.local_peer_ids.map i = some p →
      i = peer.local_id ∧ i < OL_TXRX_NUM_LOCAL_PEER_IDS := by
    intro i hi
    obtain ⟨hlt, -, x, hx, hlid⟩ := h.shape.local_live i p hi
    exact ⟨by rw [← hlid, hp x hx], hlt⟩
  rw [ol_txrx_local_peer_id_free]
  by_cases hc : peer.local_id = OL_TXRX_INVALID_LOCAL_PEER_ID ∨
      OL_TXRX_NUM_LOCAL_PEER_IDS ≤ peer.local_id
  · rw [if_pos hc]
    refine ⟨h, fun i hi => ?_⟩
    obtain ⟨rfl, hlt⟩ := hmine i hi
    have hbig : OL_TXRX_NUM_LOCAL_PEER_IDS ≤ OL_TXRX_INVALID_LOCAL_PEER_ID := by decide
    omega
  · rw [if_neg hc]
    have hlt : peer.local_id < OL_TXRX_NUM_LOCAL_PEER_IDS := by omega
    refine ⟨⟨{ h.shape with
        local_live := fun i q hq => ?_
        pool_le := fun i hi => ?_
        pool_end := ?_
        freelist_le := Nat.le_of_lt hlt }, h.pos, h.count⟩, fun i hi => ?_⟩
    · change update s.local_peer_ids.map peer.local_id none i = some q at hq
      by_cases hi : i = peer.local_id
      · rw [hi, update_self] at hq; exact absurd hq (by simp)
      · rw [update_of_ne hi] at hq; exact h.shape.local_live i q hq
    · show update s.local_peer_ids.pool _ _ i ≤ _
      by_cases he : i = peer.local_id
      · rw [he, update_self]; exact h.shape.freelist_le
      · rw [update_of_ne he]; exact h.shape.pool_le i hi
    · show update s.local_peer_ids.pool _ _ _ = _
      rw [update_of_ne (by omega)]; exact h.shape.pool_end
    · change update s.local_peer_ids.map peer.local_id none i = some p at hi
      by_cases he : i = peer.local_id
      · rw [he, update_self] at hi; exact absurd hi (by simp)
      · rw [update_of_ne he] at hi; exact he (hmine i hi).1

theorem clear_attached_inv (h : Inv s p 0) (hatt : s.attached p = true)
    (hlocal : ∀ i, s.local_peer_ids.map i ≠ some p) (hlast : ∀ v, s.last_real_peer v ≠ some p) :
    Inv { s with attached := update s.attached p false } p 1 := by
  have hkeep : ∀ q, q ≠ p → update s.attached p false q = s.attached q := fun q hq =>
    update_of_ne hq _ _
  refine ⟨{ h.shape with
      dead := fun q hq => ⟨?_, (h.shape.dead q hq).2⟩
      local_live := fun i q hq => ?_
      last_real := fun v q hq => ?_ }, h.pos, fun q x hq => ?_⟩
  · show update s.attached p false q = false
    rw [update_apply, (h.shape.dead q hq).1]; simp
  · obtain ⟨hi, ha, hx⟩ := h.shape.local_live i q hq
    exact ⟨hi, (hkeep q fun he => hlocal i (he ▸ hq)).trans ha, hx⟩
  · obtain ⟨ha, hx⟩ := h.shape.last_real v q hq
    exact ⟨(hkeep q fun he => hlast v (he ▸ hq)).trans ha, hx⟩
  · have hc := h.count q x hq
    simp only [refSum] at hc ⊢
    by_cases he : q = p
    · subst he
      simp only [update_self, hatt, if_true, reserved, mapRefs] at hc ⊢
      simp only [Bool.false_eq_true, if_false] at hc ⊢
      omega
    · simp only [update_of_ne he, if_neg he, reserved, mapRefs] at hc ⊢
      exact hc

theorem clear_last_real_inv (h : Inv s p 0)
    (hp : ∀ x, s.peer p = some x → x.vdev = peer.vdev) {f : VdevId → Option PeerPtr}
    (hf : f = if s.last_real_peer peer.vdev = some p then update s.last_real_peer peer.vdev none
      else s.last_real_peer) : Inv { s with last_real_peer := f } p 0 ∧ ∀ v, f v ≠ some p := by
  -- only the peer's own vdev can name it
  have hown : ∀ v, s.last_real_peer v = some p → v = peer.vdev := by
    intro v hv
    obtain ⟨-, x, hx, hvd⟩ := h.shape.last_real v p hv
    rw [← hvd, hp x hx]
  have hsub : ∀ v q, f v = some q → s.last_real_peer v = some q ∧ q ≠ p := by
    intro v q hq
    rw [hf] at hq
    split at hq
    · by_cases hv : v = peer.vdev
      · rw [hv, update_self] at hq; exact absurd hq (by simp)
      · rw [update_of_ne hv] at hq; exact ⟨hq, fun he => hv (hown v (he ▸ hq))⟩
    · next hne => exact ⟨hq, fun he => hne (hown v (he ▸ hq) ▸ he ▸ hq)⟩
  refine ⟨⟨{ h.shape with last_real := fun v q hq => h.shape.last_real v q (hsub v q hq).1 },
    h.pos, h.count⟩, fun v hv => (hsub v p hv).2 rfl⟩

theorem local_peer_id_free_peer : (ol_txrx_local_peer_id_free s peer).peer = s.peer := by
  rw [ol_txrx_local_peer_id_free]
  split <;> rfl

theorem local_peer_id_free_attached :
    (ol_txrx_local_peer_id_free s peer).attached = s.attached := by
  rw [ol_txrx_local_peer_id_free]
  split <;> rfl

theorem detach_inv (h : Inv s p 0) (hs : ol_txrx_peer_detach s p = some s') : Inv s' p 0 := by
  rw [ol_txrx_peer_detach] at hs
  split at hs
  · next hatt =>
    obtain ⟨peer, hp, hs⟩ := bind_eq_some_iff.mp hs
    have h1 : Inv (s.modifyPeer p fun x => { x with valid := false }) p 0 :=
      modifyPeer_inv h (fun _ => rfl) (fun _ => rfl) (fun _ _ _ => rfl) (fun _ => rfl) fun _ => rfl
    have hp1 : ∀ x, (s.modifyPeer p fun x => { x with valid := false }).peer p = some x →
        x.local_id = peer.local_id ∧ x.vdev = peer.vdev := by
      intro x hx
      obtain ⟨old, hold, rfl⟩ := modifyPeer_peer_eq_some.mp hx
      rw [hp] at hold
      cases hold
      rw [if_pos rfl]; exact ⟨rfl, rfl⟩
    have hatt1 : (s.modifyPeer p fun x => { x with valid := false }).attached p = true := hatt
    generalize s.modifyPeer p (fun x => { x with valid := false }) = s1 at hs h1 hp1 hatt1
    obtain ⟨h2, hlocal⟩ := local_peer_id_free_inv h1 fun x hx => (hp1 x hx).1
    have hp2 : ∀ x, (ol_txrx_local_peer_id_free s1 peer).peer p = some x → x.vdev = peer.vdev := by
      intro x hx
      rw [local_peer_id_free_peer] at hx; exact (hp1 x hx).2
    have hatt2 : (ol_txrx_local_peer_id_free s1 peer).attached p = true := by
      rw [local_peer_id_free_attached, hatt1]
    obtain ⟨h3, hlast⟩ := clear_last_real_inv h2 hp2 rfl
    have h4 := modifyPeer_inv (f := fun x => { x with delete_in_progress := true }) h3
      (p := p) (fun _ => rfl) (fun _ => rfl) (fun _ _ _ => rfl) (fun _ => rfl) fun _ => rfl
    exact unref_delete_inv (clear_attached_inv h4 hatt2 hlocal hlast) hs
  · exact absurd hs (by simp)

end Detach

/-! ## PEER_MAP and PEER_UNMAP -/

section Map

variable {s s' : Pdev} {p : PeerPtr} {peer_id : Nat}

theorem refSum_map (s : Pdev) (o : Option PeerPtr) (q : PeerPtr) (hid : peer_id ≤ max_peer_id) :
    refSum (s.setIdMap peer_id o) q
        + (if s.peer_id_to_obj_map peer_id = some q then 1 else 0)
      = refSum s q + (if o = some q then 1 else 0) := by
  have hm : mapRefs (s.setIdMap peer_id o) q + _ = mapRefs s q + _ :=
    holders_update s.peer_id_to_obj_map o (some q) peerIds_nodup (mem_peerIds.mpr hid)
  have hr : reserved (s.setIdMap peer_id o) q = reserved s q := rfl
  have hsum := refSum_congr (s := s) (t := s.setIdMap peer_id o) q rfl rfl
  omega

theorem shape_of_map {o : Option PeerPtr} (h : Shape s) (hid : peer_id ≤ max_peer_id)
    (ho : ∀ q, o = some q → s.peer q ≠ none) : Shape (s.setIdMap peer_id o) := by
  refine { h with map_live := fun i q hq => ?_ }
  change update s.peer_id_to_obj_map peer_id o i = some q at hq
  by_cases hi : i = peer_id
  · rw [hi, update_self] at hq; exact ⟨hi ▸ hid, ho q hq⟩
  · rw [update_of_ne hi] at hq; exact h.map_live i q hq

theorem unmap_inv (h : Inv s p 0) (hs : ol_rx_peer_unmap_handler s peer_id = some s') :
    Inv s' p 0 := by
  rw [ol_rx_peer_unmap_handler] at hs
  split at hs
  · next hid =>
    have hne : peer_id ≠ HTT_INVALID_PEER := by
      have : max_peer_id < HTT_INVALID_PEER := by decide
      omega
    rw [if_neg hne] at hs
    dsimp only at hs
    have hshape := shape_of_map (o := none) h.shape hid (by simp)
    split at hs
    · next hnone =>
      rw [some.injEq] at hs
      subst hs
      refine ⟨hshape, h.pos, fun q x hq => ?_⟩
      have hsum := refSum_map s none q hid
      rw [hnone] at hsum
      rw [h.count q x hq]; omega
    · next r hr =>
      refine (unref_delete_inv ⟨hshape, h.pos, fun q x hq => ?_⟩ hs).zero p
      have hsum := refSum_map s none q hid
      have hc := h.count q x hq
      rw [hr] at hsum
      simp only [reduceCtorEq, if_false, some.injEq] at hsum
      by_cases he : q = r
      · rw [if_pos he.symm] at hsum
        rw [if_pos he]; omega
      · rw [if_neg (Ne.symm he)] at hsum
        rw [if_neg he]; omega
  · exact absurd hs (by simp)

theorem setIdMap_inv (h : Inv s p 1) (hid : peer_id ≤ max_peer_id) (hp : s.peer p ≠ none)
    (hnone : s.peer_id_to_obj_map peer_id = none) : Inv (s.setIdMap peer_id (some p)) p 0 := by
  have hlive : ∀ q, some p = some q → s.peer q ≠ none := fun q hq => some.inj hq ▸ hp
  refine ⟨shape_of_map h.shape hid hlive, h.pos, fun q x hq => ?_⟩
  have hsum := refSum_map s (some p) q hid
  have hc := h.count q x hq
  rw [hnone] at hsum
  simp only [reduceCtorEq, if_false, some.injEq] at hsum
  rw [hc]
  by_cases he : q = p
  · rw [if_pos he.symm] at hsum
    rw [if_pos he, if_pos he]; omega
  · rw [if_neg (Ne.symm he)] at hsum
    rw [if_neg he, if_neg he]; omega

theorem head?_add_id_to_obj {ids : List Nat} (hid : peer_id ≠ HTT_INVALID_PEER) :
    ((ol_txrx_peer_find_add_id_to_obj ids peer_id).getD ids).head? ≠ some HTT_INVALID_PEER := by
  cases ids with
  | nil => simp [ol_txrx_peer_find_add_id_to_obj]
  | cons i ids =>
    rw [ol_txrx_peer_find_add_id_to_obj]
    split
    · simpa using hid
    · next hi =>
      cases ol_txrx_peer_find_add_id_to_obj ids peer_id <;> simpa using hi

/-- Storing the id in the peer uses up the reserved reference, if it was still
there. -/
theorem add_id_inv (h : Inv s p (-(reserved s p : Int))) (hid : peer_id ≠ HTT_INVALID_PEER) :
    Inv (s.modifyPeer p fun peer => { peer with
        peer_ids := (ol_txrx_peer_find_add_id_to_obj peer.peer_ids peer_id).getD
          peer.peer_ids }) p 0 := by
  refine ⟨modifyPeer_shape h.shape (fun _ => rfl) (fun _ => rfl) fun _ _ _ => rfl, ?_, ?_⟩
  · intro q x hq
    obtain ⟨old, hold, rfl⟩ := modifyPeer_peer_eq_some.mp hq
    have := h.pos q old hold
    split <;> exact this
  · intro q x hq
    have hc : x.ref_cnt = refSum s q + if q = p then -(reserved s p : Int) else 0 := by
      obtain ⟨old, hold, rfl⟩ := modifyPeer_peer_eq_some.mp hq
      rw [← h.count q old hold]
      split <;> rfl
    rw [hc]
    have hsum := refSum_modifyPeer_reserved s p q fun peer =>
      { peer with
        peer_ids := (ol_txrx_peer_find_add_id_to_obj peer.peer_ids peer_id).getD peer.peer_ids }
    obtain ⟨old, hold, -⟩ := modifyPeer_peer_eq_some.mp hq
    by_cases he : q = p
    · subst he
      have hres : reserved (s.modifyPeer q fun peer =>
          { peer with
            peer_ids := (ol_txrx_peer_find_add_id_to_obj peer.peer_ids peer_id).getD
              peer.peer_ids }) q = 0 := by
        rw [reserved, modifyPeer_peer, if_pos rfl, hold]; exact if_neg (head?_add_id_to_obj hid)
      simp only [if_true]
      omega
    · have hres : reserved (s.modifyPeer p fun peer =>
          { peer with
            peer_ids := (ol_txrx_peer_find_add_id_to_obj peer.peer_ids peer_id).getD
              peer.peer_ids }) q = reserved s q := by
        rw [reserved, reserved, modifyPeer_peer, if_neg he]
      simp only [if_neg he]
      omega

/-- The first id of a peer returns the reserved reference. -/
theorem first_id_inv {peer : OlPeer} (h : Inv s p 0) (hp : s.peer p = some peer)
    (hmapped : 0 < mapRefs s p) :
    ∃ t, (if peer.peer_ids.head? = some HTT_INVALID_PEER then ol_txrx_peer_unref_delete s p
        else some s) = some t ∧
      Inv t p (-(reserved t p : Int)) ∧ t.peer p ≠ none := by
  split
  · next hfirst =>
    have hres : reserved s p = 1 := by rw [reserved, hp]; exact if_pos hfirst
    have hc := h.count p peer hp
    have hge : 1 < peer.ref_cnt := by rw [hc, refSum, hres]; omega
    refine ⟨atomic_add s p (-1), ?_, ?_, ?_⟩
    · rw [ol_txrx_peer_unref_delete, hp, map_some, if_neg (by omega), if_neg (by omega)]
    · have hres' : reserved (atomic_add s p (-1)) p = 1 := by
        rw [← hres]; exact reserved_modifyPeer fun _ => rfl
      rw [hres']
      refine atomic_add_inv h (-1) fun x hx => ?_
      rw [hp] at hx
      rw [← some.inj hx]; omega
    · intro h0
      rw [modifyPeer_peer_eq_none.mp h0] at hp; exact absurd hp (by simp)
  · next hlater =>
    have hres : reserved s p = 0 := by rw [reserved, hp]; exact if_neg hlater
    refine ⟨s, rfl, ?_, by rw [hp]; simp⟩
    rw [hres]; exact h

/-- **PEER_MAP.** For an id without an entry, the reference taken by the lookup
becomes the entry's, and the reserved one is returned if this is the peer's
first id. -/
theorem map_spec {mac : MacAddr} {r : Pdev × Option PeerPtr} (h : Inv s p 0)
    (hok : refOk s (.peer_map peer_id mac) = true) (hid : peer_id ≤ max_peer_id)
    (hr : ol_txrx_peer_find_hash_find s mac false = some r) :
    ∃ t, ol_rx_peer_map_handler s peer_id mac = some t ∧ Inv t p 0 := by
  rw [ol_rx_peer_map_handler, ol_txrx_peer_find_add_id, hr, bind_some]
  rcases hash_find_with_spec hr with rfl | ⟨q, rfl, hq⟩
  · exact ⟨s, rfl, h⟩
  · have hnone : s.peer_id_to_obj_map peer_id = none := by
      rw [refOk, hr] at hok; simpa using hok
    have hne : peer_id ≠ HTT_INVALID_PEER := by
      have : max_peer_id < HTT_INVALID_PEER := by decide
      omega
    dsimp only
    rw [if_pos hid]
    -- the lookup's reference is the entry's from here on
    have h1 : Inv (atomic_add s q 1) q 1 := by simpa using atomic_inc_inv (h.zero q)
    have hlive : (atomic_add s q 1).peer q ≠ none := fun h0 =>
      hq (modifyPeer_peer_eq_none.mp h0)
    have h2 : Inv ((atomic_add s q 1).setIdMap peer_id (some q)) q 0 :=
      setIdMap_inv h1 hid hlive hnone
    have hmapped : 0 < mapRefs ((atomic_add s q 1).setIdMap peer_id (some q)) q :=
      holders_pos (mem_peerIds.mpr hid) (update_self _ _ _)
    have hlive2 : ((atomic_add s q 1).setIdMap peer_id (some q)).peer q ≠ none := hlive
    obtain ⟨peer, hpeer⟩ := ne_none_iff_exists'.mp hlive2
    obtain ⟨s3, hs3, h3, hlive3⟩ := first_id_inv h2 hpeer hmapped
    obtain ⟨peer3, hpeer3⟩ := ne_none_iff_exists'.mp hlive3
    rw [hpeer, bind_some, hs3, bind_some, hpeer3, map_some]
    exact ⟨_, rfl, (add_id_inv h3 hne).zero p⟩

theorem map_inv {mac : MacAddr} (h : Inv s p 0) (hok : refOk s (.peer_map peer_id mac) = true)
    (hs : ol_rx_peer_map_handler s peer_id mac = some s') : Inv s' p 0 := by
  have hs0 := hs
  obtain ⟨r, hr, hs0⟩ := bind_eq_some_iff.mp hs0
  by_cases hid : peer_id ≤ max_peer_id
  · obtain ⟨t, ht, hinv⟩ := map_spec h hok hid hr
    rw [hs] at ht
    rw [some.inj ht]; exact hinv
  · rcases hash_find_with_spec hr with rfl | ⟨q, rfl, -⟩
    · rw [← some.inj hs0]; exact h
    · dsimp only at hs0
      rw [if_neg hid] at hs0; exact absurd hs0 (by simp)

end Map

/-! ## Attach -/

section Attach

variable {s s' : Pdev} {p : PeerPtr}

variable {mac : MacAddr}

theorem state_update_inv (h : Inv s p 0) (hs : ol_txrx_peer_state_update s mac = some s') :
    Inv s' p 0 := by
  obtain ⟨r, hr, hs⟩ := map_eq_some_iff.mp hs
  rcases hash_find_with_spec hr with rfl | ⟨q, rfl, hq⟩
  · rw [← hs]; exact h
  · rw [← hs]
    have h1 : Inv (atomic_add s q 1) q 1 := by simpa using atomic_inc_inv (h.zero q)
    refine (atomic_add_inv h1 (-1) fun x hx => ?_).zero p
    obtain ⟨old, hold, rfl⟩ := modifyPeer_peer_eq_some.mp hx
    have := h.pos q old hold
    rw [if_pos rfl]
    show 0 < old.ref_cnt + 1 + -1
    omega

theorem state_update_frame (hs : ol_txrx_peer_state_update s mac = some s') :
    s'.local_peer_ids = s.local_peer_ids ∧ s'.attached = s.attached ∧
      ∀ q, s'.peer q = none ↔ s.peer q = none := by
  obtain ⟨r, hr, hs⟩ := map_eq_some_iff.mp hs
  rcases hash_find_with_spec hr with rfl | ⟨q, rfl, -⟩
  · rw [← hs]; exact ⟨rfl, rfl, fun _ => Iff.rfl⟩
  · rw [← hs]
    refine ⟨rfl, rfl, fun r => ?_⟩
    exact modifyPeer_peer_eq_none.trans modifyPeer_peer_eq_none

/-- A peer that has just been attached gets a local id that no other peer's
entry is lost for, or the invalid one. -/
theorem local_peer_id_alloc_inv (h : Inv s p 0) (hp : s.peer p ≠ none)
    (hatt : s.attached p = true) (hno : ∀ i, s.local_peer_ids.map i ≠ some p) :
    Inv (ol_txrx_local_peer_id_alloc s p) p 0 := by
  have hset : ∀ i, Inv (s.modifyPeer p fun peer => { peer with local_id := i }) p 0 := fun i =>
    modifyPeer_inv h (fun _ => rfl) (fun _ => rfl) (fun j hj => absurd hj (hno j)) (fun _ => rfl)
      fun _ => rfl
  rw [ol_txrx_local_peer_id_alloc]
  split
  · exact hset _
  · next hne =>
    have hlt : s.local_peer_ids.freelist < OL_TXRX_NUM_LOCAL_PEER_IDS := by
      refine Nat.lt_of_le_of_ne h.shape.freelist_le fun he => hne ?_
      rw [he]; exact h.shape.pool_end
    have h1 := hset s.local_peer_ids.freelist
    refine ⟨{ h1.shape with
      local_live := fun i q hq => ?_
      freelist_le := h.shape.pool_le _ (Nat.le_of_lt hlt) }, h1.pos, h1.count⟩
    change update s.local_peer_ids.map s.local_peer_ids.freelist (some p) i = some q at hq
    by_cases hi : i = s.local_peer_ids.freelist
    · rw [hi, update_self, some.injEq] at hq
      obtain ⟨old, hold⟩ := ne_none_iff_exists'.mp hp
      refine ⟨hi ▸ hlt, hq ▸ hatt, { old with local_id := s.local_peer_ids.freelist }, ?_, hi.symm⟩
      exact modifyPeer_peer_eq_some.mpr ⟨old, hq ▸ hold, by rw [if_pos hq.symm]⟩
    · rw [update_of_ne hi] at hq; exact h1.shape.local_live i q hq

theorem attach_link_shape (h : Shape s) (v : VdevId) (mac : MacAddr) :
    Shape (ol_txrx_peer_find_hash_add (attach_link s v mac) s.nextPeer mac) := by
  have hfresh : s.peer s.nextPeer = none := h.fresh _ (Nat.le_refl _)
  have hkeep : ∀ q, q ≠ s.nextPeer → update s.peer s.nextPeer (some (newPeer v mac)) q = s.peer q :=
    fun q hq => update_of_ne hq _ _
  have hold : ∀ q x, s.peer q = some x → q ≠ s.nextPeer := by
    intro q x hq he
    rw [he, hfresh] at hq; exact absurd hq (by simp)
  have hatt : ∀ q x, s.peer q = some x → update s.attached s.nextPeer true q = s.attached q :=
    fun q x hq => update_of_ne (hold q x hq) _ _
  have hlift : ∀ q x, s.peer q = some x →
      update s.peer s.nextPeer (some (newPeer v mac)) q = some x := fun q x hq => by
    rw [hkeep q (hold q x hq), hq]
  refine
    { h with
      dead := fun q hq => ?_
      fresh := fun q hq => ?_
      mem_freed := fun q => ?_
      hash_live := fun i q hq => ?_
      hash_nodup := nodup_update h.hash_nodup (nodup_append_singleton (h.hash_nodup _) ?_)
      list_live := fun w q hq => ?_
      list_nodup := nodup_update h.list_nodup (nodup_append_singleton (h.list_nodup _) ?_)
      map_live := fun i q hq => ?_
      local_live := fun i q hq => ?_
      last_real := fun w q hq => ?_ }
  · change update s.peer s.nextPeer (some (newPeer v mac)) q = none at hq
    have hne : q ≠ s.nextPeer := fun he => by
      rw [he, update_self] at hq; exact absurd hq (by simp)
    rw [hkeep q hne] at hq
    refine ⟨?_, (h.dead q hq).2⟩
    show update s.attached s.nextPeer true q = false
    rw [update_of_ne hne]; exact (h.dead q hq).1
  · show update s.peer s.nextPeer (some (newPeer v mac)) q = none
    have hlt : s.nextPeer < q := hq
    rw [hkeep q (Nat.ne_of_gt hlt)]; exact h.fresh q (Nat.le_of_lt hlt)
  · show q ∈ s.freed ↔ q < s.nextPeer + 1 ∧ update s.peer s.nextPeer (some (newPeer v mac)) q = none
    rw [h.mem_freed]
    by_cases he : q = s.nextPeer
    · rw [he, update_self]; simp
    · rw [hkeep q he]
      have : q < s.nextPeer + 1 ↔ q < s.nextPeer :=
        ⟨fun hq => Nat.lt_of_le_of_ne (Nat.le_of_lt_succ hq) he, Nat.lt_succ_of_lt⟩
      rw [this]
  · rcases mem_update_append.mp hq with hq | ⟨rfl, rfl⟩
    · obtain ⟨x, hx, hidx⟩ := h.hash_live i q hq; exact ⟨x, hlift q x hx, hidx⟩
    · exact ⟨newPeer v mac, update_self _ _ _, rfl⟩
  · intro hmem
    obtain ⟨x, hx, -⟩ := h.hash_live _ _ hmem
    exact hold _ x hx rfl
  · rcases mem_update_append.mp hq with hq | ⟨rfl, rfl⟩
    · obtain ⟨x, hx, hvd⟩ := h.list_live w q hq; exact ⟨x, hlift q x hx, hvd⟩
    · exact ⟨newPeer w mac, update_self _ _ _, rfl⟩
  · intro hmem
    obtain ⟨x, hx, -⟩ := h.list_live _ _ hmem
    exact hold _ x hx rfl
  · obtain ⟨hi, hne⟩ := h.map_live i q hq
    obtain ⟨x, hx⟩ := ne_none_iff_exists'.mp hne
    refine ⟨hi, ?_⟩
    show update s.peer s.nextPeer (some (newPeer v mac)) q ≠ none
    rw [hlift q x hx]; simp
  · obtain ⟨hi, ha, x, hx, hlid⟩ := h.local_live i q hq
    exact ⟨hi, (hatt q x hx).trans ha, x, hlift q x hx, hlid⟩
  · change (if s.vdev_mac_addr v = mac then s.last_real_peer
      else update s.last_real_peer v (some s.nextPeer)) w = some q at hq
    have hcase : s.last_real_peer w = some q ∨ w = v ∧ q = s.nextPeer := by
      split at hq
      · exact .inl hq
      · by_cases hw : w = v
        · rw [hw, update_self, some.injEq] at hq; exact .inr ⟨hw, hq.symm⟩
        · rw [update_of_ne hw] at hq; exact .inl hq
    rcases hcase with hq | ⟨rfl, rfl⟩
    · obtain ⟨ha, x, hx, hvd⟩ := h.last_real w q hq
      exact ⟨(hatt q x hx).trans ha, x, hlift q x hx, hvd⟩
    · exact ⟨update_self _ _ _, newPeer w mac, update_self _ _ _, rfl⟩

theorem attach_link_inv (h : Inv s p 0) (v : VdevId) (mac : MacAddr) :
    Inv (ol_txrx_peer_find_hash_add (attach_link s v mac) s.nextPeer mac) s.nextPeer 0 := by
  have hfresh : s.peer s.nextPeer = none := h.shape.fresh _ (Nat.le_refl _)
  have hpeer : ∀ q, (ol_txrx_peer_find_hash_add (attach_link s v mac) s.nextPeer mac).peer q
      = if q = s.nextPeer then some (newPeer v mac) else s.peer q := fun q => update_apply _ _ _ _
  refine ⟨attach_link_shape h.shape v mac, fun q x hq => ?_, fun q x hq => ?_⟩
  · rw [hpeer] at hq
    split at hq
    · rw [← some.inj hq]
      show (0 : Int) < 2
      omega
    · exact h.pos q x hq
  · have hl : (ol_txrx_peer_find_hash_add (attach_link s v mac) s.nextPeer mac).lookups q
        = s.lookups q := rfl
    have hm : mapRefs (ol_txrx_peer_find_hash_add (attach_link s v mac) s.nextPeer mac) q
        = mapRefs s q := rfl
    have ha : (ol_txrx_peer_find_hash_add (attach_link s v mac) s.nextPeer mac).attached q
        = update s.attached s.nextPeer true q := rfl
    rw [hpeer] at hq
    rw [refSum, reserved, hpeer, hl, hm, ha]
    by_cases he : q = s.nextPeer
    · rw [if_pos he] at hq ⊢
      rw [if_pos he, he, update_self]
      have hmap : mapRefs s s.nextPeer = 0 := holders_eq_zero fun i _ hi =>
        (h.shape.map_live i _ hi).2 hfresh
      rw [hmap, (h.shape.dead _ hfresh).2, ← some.inj hq]; rfl
    · rw [if_neg he] at hq ⊢
      rw [if_neg he, update_of_ne he]
      have hc := h.count q x hq
      rw [refSum, reserved, ite_self] at hc; exact hc

theorem attach_create_inv {v : VdevId} {ok : Bool} (h : Inv s p 0)
    (hs : attach_create s v mac ok = some s') : Inv s' p 0 := by
  rw [attach_create] at hs
  split at hs
  · obtain ⟨s2, hs2, rfl⟩ := map_eq_some_iff.mp hs
    have h1 := attach_link_inv h v mac
    obtain ⟨hlocal, hatt, hlive⟩ := state_update_frame hs2
    have hfresh : s.peer s.nextPeer = none := h.shape.fresh _ (Nat.le_refl _)
    refine (local_peer_id_alloc_inv (state_update_inv h1 hs2) ?_ ?_ fun i hi => ?_).zero p
    · intro h0
      have := (hlive _).mp h0
      change update s.peer s.nextPeer (some (newPeer v mac)) s.nextPeer = none at this
      exact absurd this (by simp)
    · rw [hatt]; exact update_self _ _ _
    · rw [hlocal] at hi
      obtain ⟨-, -, x, hx, -⟩ := h.shape.local_live i _ hi
      rw [hfresh] at hx; exact absurd hx (by simp)
  · rw [← some.inj hs]; exact h

theorem waiting_inv {f : VdevId → Nat} {g : VdevId → Bool} {w : List (VdevId × MacAddr)}
    (h : Inv s p 0) :
    Inv { s with wait_on_peer_id := f, wait_delete_comp := g, waiting := w } p 0 :=
  ⟨{ h.shape with }, h.pos, h.count⟩

theorem attach_inv {v : VdevId} {ok : Bool} (h : Inv s p 0)
    (hs : ol_txrx_peer_attach s v mac ok = some s') : Inv s' p 0 := by
  obtain ⟨r, -, hs⟩ := bind_eq_some_iff.mp hs
  split at hs
  · rw [← some.inj hs]; exact h
  · split at hs
    · rw [← some.inj hs]; exact waiting_inv (s := s) h
    · rw [← some.inj hs]; exact waiting_inv (s := s) h
  · exact attach_create_inv h hs

theorem attach_resume_inv {v : VdevId} {woken ok : Bool} (h : Inv s p 0)
    (hs : attach_resume s v mac woken ok = some s') : Inv s' p 0 := by
  rw [attach_resume] at hs
  split at hs
  · dsimp only at hs
    split at hs
    · split at hs
      · exact attach_create_inv (waiting_inv h) hs
      · exact absurd hs (by simp)
    · rw [← some.inj hs]; exact waiting_inv h
  · exact absurd hs (by simp)

end Attach

/-! ## Runs -/

/-- **Every step keeps the invariant**, except the two that `refOk` excludes. -/
theorem step_inv {s s' : Pdev} {e : Op} (h : Inv s 0 0) (hok : refOk s e = true)
    (hs : step s e = some s') : Inv s' 0 0 := by
  cases e with
  | attach v mac ok => exact attach_inv h hs
  | attach_resume v mac woken ok => exact attach_resume_inv h hs
  | detach p => exact (detach_inv (h.zero p) hs).zero 0
  | peer_map peer_id mac => exact map_inv h hok hs
  | peer_unmap peer_id => exact unmap_inv h hs
  | hash_find mac cv =>
    obtain ⟨r, hr, rfl⟩ := map_eq_some_iff.mp hs
    exact holdLookup_spec h (hash_find_with_spec hr)
  | vdev_find_hash v mac cv =>
    obtain ⟨r, hr, rfl⟩ := map_eq_some_iff.mp hs
    exact holdLookup_spec h (hash_find_with_spec hr)
  | assoc_peer_find v =>
    obtain ⟨r, hr, rfl⟩ := map_eq_some_iff.mp hs
    exact holdLookup_spec h (assoc_peer_find_spec hr)
  | vdev_flush_ref v p =>
    rw [step] at hs
    split at hs
    · obtain ⟨x, hx, rfl⟩ := map_eq_some_iff.mp hs
      exact holdLookup_spec h (.inr ⟨p, rfl, by rw [hx]; simp⟩)
    · exact absurd hs (by simp)
  | find_by_id peer_id => obtain ⟨_, -, rfl⟩ := map_eq_some_iff.mp hs; exact h
  | find_by_local_id i => rw [← some.inj hs]; exact h
  | unref_delete p =>
    obtain ⟨s1, hs1, hs⟩ := bind_eq_some_iff.mp hs
    exact (unref_delete_inv (dropLookup_inv (h.zero p) hs1) hs).zero 0
  | atomic_dec p =>
    obtain ⟨s1, hs1, hs⟩ := bind_eq_some_iff.mp hs
    obtain ⟨x, hx, rfl⟩ := map_eq_some_iff.mp hs
    have hpeer : s1.peer = s.peer := by
      rw [dropLookup] at hs1
      split at hs1
      · exact absurd hs1 (by simp)
      · rw [← some.inj hs1]
    refine (atomic_add_inv (dropLookup_inv (h.zero p) hs1) (-1) fun y hy => ?_).zero 0
    rw [hpeer] at hy
    rw [refOk, hy] at hok
    have hgt : 1 < y.ref_cnt := by simpa using hok
    omega

theorem init_inv (vdev_mac_addr : VdevId → MacAddr) : Inv (Pdev.init vdev_mac_addr) 0 0 := by
  refine ⟨?_, fun _ _ h => absurd h (by simp [Pdev.init]),
    fun _ _ h => absurd h (by simp [Pdev.init])⟩
  constructor <;> simp [Pdev.init, ol_txrx_local_peer_id_pool_init]
  intro i hi
  split <;> omega

theorem Inv.refCntExact {s : Pdev} (h : Inv s 0 0) : RefCntExact s where
  ref_cnt_eq := fun p peer hp => by simpa using h.count p peer hp
  live_iff := fun p _ => by
    constructor
    · intro hlive
      obtain ⟨peer, hp⟩ := isSome_iff_exists.mp hlive
      have hc := h.count p peer hp
      have hpos := h.pos p peer hp
      simp only [ite_self] at hc
      omega
    · intro hpos
      by_contra hdead
      have hp : s.peer p = none := by simpa using hdead
      have hmap : mapRefs s p = 0 := holders_eq_zero fun i _ hi =>
        (h.shape.map_live i p hi).2 hp
      obtain ⟨ha, hl⟩ := h.shape.dead p hp
      rw [refSum, reserved, hp, hmap, ha, hl] at hpos; exact absurd hpos (by simp)
  freed_once := fun p hlt => by
    rw [h.shape.freed_nodup.count]
    simp only [h.shape.mem_freed]
    cases hp : s.peer p <;> simp [hlt]
  no_dangling := fun p hp => by
    have hdead : s.peer p = none := ((h.shape.mem_freed p).mp hp).2
    have hno : ∀ x, s.peer p ≠ some x := fun x => by simp [hdead]
    refine ⟨fun i hi => (h.shape.map_live i p hi).2 hdead, fun i hi => ?_, fun v hv => ?_,
      fun i hi => ?_⟩
    · obtain ⟨x, hx, -⟩ := h.shape.hash_live i p hi; exact hno x hx
    · obtain ⟨x, hx, -⟩ := h.shape.list_live v p hv; exact hno x hx
    · obtain ⟨-, -, x, hx, -⟩ := h.shape.local_live i p hi; exact hno x hx

/-! ## No step reads a freed peer -/

section Progress

variable {s : Pdev} {p : PeerPtr}

theorem Shape.live_of_attached (h : Shape s) (hp : s.attached p = true) : s.peer p ≠ none :=
  fun h0 => absurd hp (by rw [(h.dead p h0).1]; decide)

theorem Shape.live_of_lookup (h : Shape s) (hp : s.lookups p ≠ 0) : s.peer p ≠ none :=
  fun h0 => hp (h.dead p h0).2

theorem tailq_find_ne_none {test : OlPeer → Bool} {l : List PeerPtr}
    (h : ∀ q ∈ l, s.peer q ≠ none) : tailq_find s test l ≠ none := by
  induction l with
  | nil => simp [tailq_find]
  | cons q l ih =>
    obtain ⟨x, hx⟩ := ne_none_iff_exists'.mp (h q List.mem_cons_self)
    rw [tailq_find, hx, bind_some]
    split
    · simp
    · exact ih fun r hr => h r (List.mem_cons_of_mem q hr)

theorem Shape.hash_find_ne_none (h : Shape s) (mac : MacAddr) (test : OlPeer → Bool) :
    hash_find_with s mac test ≠ none := by
  intro h0
  refine tailq_find_ne_none (fun q hq => ?_) (map_eq_none_iff.mp h0)
  obtain ⟨x, hx, -⟩ := h.hash_live _ q hq
  rw [hx]; simp

theorem Shape.attach_create_ne_none (h : Shape s) (v : VdevId) (mac : MacAddr) (ok : Bool) :
    attach_create s v mac ok ≠ none := by
  rw [attach_create]
  split
  · intro h0
    exact (attach_link_shape h v mac).hash_find_ne_none mac _
      (map_eq_none_iff.mp (map_eq_none_iff.mp h0))
  · simp

theorem attach_scan_ne_none {mac : MacAddr} {l : List PeerPtr} (h : ∀ q ∈ l, s.peer q ≠ none)
    (wait : Option Nat) : attach_scan s mac l wait ≠ none := by
  induction l generalizing wait with
  | nil => simp [attach_scan]
  | cons q l ih =>
    obtain ⟨x, hx⟩ := ne_none_iff_exists'.mp (h q List.mem_cons_self)
    have hl : ∀ r ∈ l, s.peer r ≠ none := fun r hr => h r (List.mem_cons_of_mem q hr)
    rw [attach_scan, hx, bind_some]
    split
    · split
      · exact ih hl _
      · simp
    · exact ih hl wait

theorem Shape.attach_ne_none (h : Shape s) (v : VdevId) (mac : MacAddr) (ok : Bool) :
    ol_txrx_peer_attach s v mac ok ≠ none := by
  have hscan : attach_scan s mac (s.peer_list v) none ≠ none := by
    refine attach_scan_ne_none (fun q hq => ?_) none
    obtain ⟨x, hx, -⟩ := h.list_live v q hq
    rw [hx]; simp
  obtain ⟨r, hr⟩ := ne_none_iff_exists'.mp hscan
  rw [ol_txrx_peer_attach, hr, bind_some]
  split
  · simp
  · split <;> simp
  · exact h.attach_create_ne_none v mac ok

theorem unref_delete_ne_none (hp : s.peer p ≠ none) : ol_txrx_peer_unref_delete s p ≠ none :=
  fun h0 => hp (map_eq_none_iff.mp h0)

theorem detach_ne_none (hatt : s.attached p = true) (hp : s.peer p ≠ none) :
    ol_txrx_peer_detach s p ≠ none := by
  obtain ⟨x, hx⟩ := ne_none_iff_exists'.mp hp
  rw [ol_txrx_peer_detach, if_pos hatt, hx, bind_some]
  refine unref_delete_ne_none fun h0 => hp ?_
  have h1 := modifyPeer_peer_eq_none.mp h0
  rw [local_peer_id_free_peer] at h1; exact modifyPeer_peer_eq_none.mp h1

theorem unmap_ne_none {peer_id : Nat} (h : Shape s) (hid : peer_id ≤ max_peer_id) :
    ol_rx_peer_unmap_handler s peer_id ≠ none := by
  rw [ol_rx_peer_unmap_handler, if_pos hid]
  dsimp only
  split
  · simp
  · next q hq =>
    split at hq
    · exact absurd hq (by simp)
    · exact unref_delete_ne_none (h.map_live peer_id q hq).2

theorem dropLookup_eq (hp : s.lookups p ≠ 0) :
    dropLookup s p = some { s with lookups := update s.lookups p (s.lookups p - 1) } :=
  if_neg hp

theorem step_ne_none {e : Op} (h : Inv s 0 0) (hok : refOk s e = true)
    (hcall : callerOk s e = true) : step s e ≠ none := by
  cases e with
  | attach v mac ok => exact h.shape.attach_ne_none v mac ok
  | attach_resume v mac woken ok =>
    rw [callerOk, Bool.and_eq_true, decide_eq_true_eq] at hcall
    rw [step, attach_resume, if_pos hcall.1]
    split
    · next hw =>
      rw [if_pos (by simpa [hw] using hcall.2)]
      exact (waiting_inv (s := s) h).shape.attach_create_ne_none v mac ok
    · simp
  | detach p => exact detach_ne_none hcall (h.shape.live_of_attached hcall)
  | peer_map peer_id mac =>
    obtain ⟨r, hr⟩ := ne_none_iff_exists'.mp (h.shape.hash_find_ne_none mac _)
    obtain ⟨t, ht, -⟩ := map_spec h hok (by simpa [callerOk] using hcall) hr
    rw [step, ht]; simp
  | peer_unmap peer_id => exact unmap_ne_none h.shape (by simpa [callerOk] using hcall)
  | hash_find mac cv => exact fun h0 => h.shape.hash_find_ne_none mac _ (map_eq_none_iff.mp h0)
  | vdev_find_hash v mac cv =>
    exact fun h0 => h.shape.hash_find_ne_none mac _ (map_eq_none_iff.mp h0)
  | assoc_peer_find v =>
    intro h0
    have hfind := map_eq_none_iff.mp h0
    rw [ol_txrx_assoc_peer_find] at hfind
    split at hfind
    · exact absurd hfind (by simp)
    · next q hq =>
      obtain ⟨-, x, hx, -⟩ := h.shape.last_real v q hq
      rw [hx] at hfind; exact absurd hfind (by simp)
  | vdev_flush_ref v p =>
    have hmem : p ∈ s.peer_list v := by simpa [callerOk] using hcall
    obtain ⟨x, hx, -⟩ := h.shape.list_live v p hmem
    rw [step, if_pos hmem, hx]; simp
  | find_by_id peer_id =>
    intro h0
    have hfind := map_eq_none_iff.mp h0
    rw [ol_txrx_peer_find_by_id] at hfind
    split at hfind
    · exact absurd hfind (by simp)
    · next q hq =>
      split at hq
      · exact absurd hq (by simp)
      · exact (h.shape.map_live peer_id q hq).2 (map_eq_none_iff.mp hfind)
  | find_by_local_id i => simp [step]
  | unref_delete p =>
    have hne : s.lookups p ≠ 0 := by simpa [callerOk] using hcall
    rw [step, dropLookup_eq hne, bind_some]
    exact unref_delete_ne_none (h.shape.live_of_lookup hne)
  | atomic_dec p =>
    have hne : s.lookups p ≠ 0 := by simpa [callerOk] using hcall
    rw [step, dropLookup_eq hne, bind_some]
    exact fun h0 => h.shape.live_of_lookup hne (map_eq_none_iff.mp h0)

end Progress

/-- **Peer reference counting.** In every state of every run whose PEER_MAP
messages name an unmapped id (or no known peer) and whose plain decrements are
not of the last reference, each peer's count is the sum of its references, each
peer has been freed exactly once if its sum is zero and is allocated otherwise,
no table names a freed peer, and no further call of this kind reads one. -/
theorem peer_ref_cnt_exact (vdev_mac_addr : VdevId → MacAddr) (es : List Op) (s : Pdev)
    (h : run (guarded (fun s e => refOk s e = true) step) (Pdev.init vdev_mac_addr) es = some s) :
    RefCntExact s ∧ ∀ e, refOk s e = true → callerOk s e = true → step s e ≠ none := by
  have hinv : Inv s 0 0 :=
    guarded_run_invariant (I := fun s => Inv s 0 0) (fun _ _ _ hi hok hst => step_inv hi hok hst)
      (init_inv vdev_mac_addr) h
  exact ⟨hinv.refCntExact, fun e hok hcall => step_ne_none hinv hok hcall⟩

/-- A run through attach, PEER_MAP, a lookup, detach, PEER_UNMAP and the release
of the lookup, which frees the peer. -/
theorem peer_ref_cnt_exact_freed :
    ∃ s, run (guarded (fun s e => refOk s e = true) step) (Pdev.init fun _ => ⟨0, 0, 1⟩)
        [.attach 0 ⟨0, 0, 2⟩ true, .peer_map 7 ⟨0, 0, 2⟩, .hash_find ⟨0, 0, 2⟩ true, .detach 0,
          .peer_unmap 7, .unref_delete 0] = some s ∧
      s.freed = [0] ∧ RefCntExact s := by
  exact exists_of_tested (fun s => _) (by decide) fun s hs hfreed =>
    ⟨hfreed, (peer_ref_cnt_exact _ _ s hs).1⟩

/-- A second PEER_MAP for the same id and peer takes a reference that no entry,
lookup or attachment stands for. -/
theorem ref_cnt_leak :
    ∃ s, run step (Pdev.init fun _ => ⟨0, 0, 1⟩)
        [.attach 0 ⟨0, 0, 2⟩ true, .peer_map 7 ⟨0, 0, 2⟩, .peer_map 7 ⟨0, 0, 2⟩] = some s ∧
      ¬ RefCntExact s := by
  refine exists_of_tested (fun s => (s.peer 0).any fun peer => peer.ref_cnt ≠ (refSum s 0 : Int))
      (by decide +kernel) fun s hs hcnt hex => ?_
  obtain ⟨peer, hp, hne⟩ := (any_eq_true _ _).mp hcnt
  exact absurd (hex.ref_cnt_eq 0 peer hp) (by simpa using hne)

end Qcacld.Peer
