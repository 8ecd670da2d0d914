/-
Peer indices over whole runs.

Each index is in the queue of free ones or the association id of one station, and the two change
together: an index is taken with the entry for it (`Inv.take`), and goes back with its entry
(`Inv.drop`).
-/
import Qcacld.Lib.Places
import Qcacld.Lib.Threaded
import Qcacld.LimPeerIdx

set_option autoImplicit false

namespace Qcacld.LimPeerIdx

open Function List
open Lib DphTable

variable {s s' : Session} {max size : Nat} {free : List UInt8}

/-! ## What is to hold -/

def Session.Added (s : Session) (p : Nat) : Prop := s.dphHashTable.Added p
deriving Decidable

def Session.mlmState (s : Session) (p : Nat) : MlmState := (s.mlmStaContext p).mlmState

def Held : List PoolEvent → UInt8 → Prop
  | [], _ => False
  | .assign j :: l, i => i = j ∨ Held l i
  | .release j :: l, i => i ≠ j ∧ Held l i

/-- An index is given out that is valid and not held, and only one that is held is taken back. -/
def LogOk : List PoolEvent → Prop
  | [] => True
  | .assign i :: l => LogOk l ∧ i ≠ 0 ∧ ¬Held l i
  | .release i :: l => LogOk l ∧ Held l i

instance : (l : List PoolEvent) → (i : UInt8) → Decidable (Held l i)
  | [], _ => inferInstanceAs (Decidable False)
  | .assign j :: l, i =>
    have := instDecidableHeld l i
    inferInstanceAs (Decidable (i = j ∨ Held l i))
  | .release j :: l, i =>
    have := instDecidableHeld l i
    inferInstanceAs (Decidable (i ≠ j ∧ Held l i))

instance : (l : List PoolEvent) → Decidable (LogOk l)
  | [] => inferInstanceAs (Decidable True)
  | .assign i :: l =>
    have := instDecidableLogOk l
    inferInstanceAs (Decidable (LogOk l ∧ i ≠ 0 ∧ ¬Held l i))
  | .release i :: l =>
    have := instDecidableLogOk l
    inferInstanceAs (Decidable (LogOk l ∧ Held l i))

def Session.Free (s : Session) (free : List UInt8) : Prop :=
  Threaded 0 s.gpLimPeerIdxpool s.freePeerIdxHead s.freePeerIdxTail free

structure Conserved (max : Nat) (s : Session) : Prop where
  /-- An index from 1 to `max` is free or that of a station. -/
  place : ∃ free, s.Free free ∧ ∀ i, i ∈ free ↔ 0 < i.toNat ∧ i.toNat ≤ max ∧ ¬s.Added i.toNat
  valid : ∀ p, s.Added p → 0 < p ∧ p ≤ max
  count : s.gLimNumOfCurrentSTAs.toNat = ((range (max + 1)).filter (s.Added ·)).length
  once : LogOk s.log
  held : ∀ i, Held s.log i ↔ s.Added i.toNat

/-! ## Where a run does not go -/

def HasIdx (s : Session) (others limit : Nat) : Prop :=
  pe_get_current_stas_count s others < limit ∧ s.freePeerIdxHead ≠ 0
deriving Decidable

def InState (s : Session) (assocId : UInt16) (st : MlmState) (p : Nat) : Prop :=
  dph_get_hash_entry s.dphHashTable assocId = some p ∧ s.mlmState p = st
deriving Decidable

/-- The condition on a step: no index is lost where it fails. -/
def Ok (s : Session) : Op → Prop
  | .assoc_req sa env =>
    dph_lookup_hash_entry s.dphHashTable sa = some none → env.accepted = true →
      HasIdx s env.others env.limit → env.upd = .ok ∧ (env.add = .ok ∨ env.del = .ok)
  | .add_sta_rsp assocId ok ind del =>
    InState s assocId .WT_ADD_STA_RSP assocId.toNat → if ok then ind = .posted else del = .ok
  | .assoc_cnf aid _ ok del => InState s aid .WT_ASSOC_CNF aid.toNat → ok = true ∨ del = .ok
  | .cnf_wait_timeout staId del =>
    InState s staId .WT_ASSOC_CNF staId.toNat →
      (s.mlmStaContext staId.toNat).updateContext = false ∨ del = .ok
  | .ibss_sta_add peerAddr env =>
    dph_lookup_hash_entry s.dphHashTable peerAddr = some none →
      HasIdx s env.others env.limit ∧ env.add = .ok
  | _ => True

instance (s : Session) : (op : Op) → Decidable (Ok s op)
  | .assoc_req .. => inferInstanceAs (Decidable (_ → _ → _ → _ ∧ (_ ∨ _)))
  | .add_sta_rsp _ ok _ _ =>
    match ok with
    | true => inferInstanceAs (Decidable (_ → _ = _))
    | false => inferInstanceAs (Decidable (_ → _ = _))
  | .assoc_cnf .. => inferInstanceAs (Decidable (_ → _ ∨ _))
  | .cnf_wait_timeout .. => inferInstanceAs (Decidable (_ → _ ∨ _))
  | .ibss_sta_add .. => inferInstanceAs (Decidable (_ → _ ∧ _))
  | .disassoc_req _ | .cleanup .. | .del_sta_rsp .. | .stop_bss .. | .ibss_peer_departed _
  | .ibss_delete_all_peers _ => inferInstanceAs (Decidable True)

def Taken (s : Session) : Op → Nat → Prop
  | .assoc_req .., p => ¬s.Added p
  | .ibss_sta_add .., p => ¬s.Added p
  | .add_sta_rsp assocId .., p => InState s assocId .WT_ADD_STA_RSP p
  | .assoc_cnf aid peer .., p => InState s aid .WT_ASSOC_CNF p ∧ s.staAddr p = peer
  | .cnf_wait_timeout staId _, p => InState s staId .WT_ASSOC_CNF p
  | _, _ => False

/-- An addition that fails has given its index back, or has asked the firmware to delete the
station. -/
def FailedReleases (s : Session) : Prop :=
  ∀ op s' p, Ok s op → op.forRole s.limSystemRole → perform s op = some (false, s') →
    Taken s op p → s'.Added p → s'.mlmState p = .WT_DEL_STA_RSP ∧ s'.delStaReqs = p :: s.delStaReqs

def AnswerReleases (s : Session) : Prop :=
  ∀ p ok add del, s.limSystemRole = .eLIM_AP_ROLE → s.Added p → s.mlmState p = .WT_DEL_STA_RSP →
    ∃ s', step s (.del_sta_rsp (s.assocId p) ok add del) = some s' ∧ ¬s'.Added p

/-! ## The invariant -/

/-- The queue holds the indices `free`: those up to `max` that no entry has. -/
structure Inv (max size : Nat) (free : List UInt8) (s : Session) : Prop where
  good : Good s.dphHashTable
  size_eq : s.dphHashTable.size = size
  queue : s.Free free
  mem : ∀ i, i ∈ free ↔ 0 < i.toNat ∧ i.toNat ≤ max ∧ ¬s.Added i.toNat
  valid : ∀ p, s.Added p → 0 < p ∧ p ≤ max
  count : s.gLimNumOfCurrentSTAs.toNat + free.length = max
  once : LogOk s.log
  held : ∀ i, Held s.log i ↔ s.Added i.toNat

structure SamePool (s s' : Session) : Prop where
  role : s'.limSystemRole = s.limSystemRole
  pool : s'.gpLimPeerIdxpool = s.gpLimPeerIdxpool
  head : s'.freePeerIdxHead = s.freePeerIdxHead
  tail : s'.freePeerIdxTail = s.freePeerIdxTail
  num : s'.gLimNumOfCurrentSTAs = s.gLimNumOfCurrentSTAs
  dph : s'.dphHashTable = s.dphHashTable
  log : s'.log = s.log

theorem SamePool.refl (s : Session) : SamePool s s := ⟨rfl, rfl, rfl, rfl, rfl, rfl, rfl⟩

theorem SamePool.trans {s'' : Session} (h : SamePool s s') (h' : SamePool s' s'') :
    SamePool s s'' :=
  ⟨h'.role.trans h.role, h'.pool.trans h.pool, h'.head.trans h.head, h'.tail.trans h.tail,
    h'.num.trans h.num, h'.dph.trans h.dph, h'.log.trans h.log⟩

theorem SamePool.added (h : SamePool s s') (p : Nat) : s'.Added p ↔ s.Added p := by
  rw [Session.Added, Session.Added, h.dph]

theorem Inv.same (h : Inv max size free s) (hs : SamePool s s') : Inv max size free s' where
  good := hs.dph ▸ h.good
  size_eq := hs.dph ▸ h.size_eq
  queue := by rw [Session.Free, hs.pool, hs.head, hs.tail]; exact h.queue
  mem := fun i => by rw [h.mem i, hs.added]
  valid := fun p hp => h.valid p ((hs.added p).mp hp)
  count := hs.num ▸ h.count
  once := hs.log ▸ h.once
  held := fun i => by rw [hs.log, h.held i, hs.added]

theorem samePool_setState (p : Nat) (st : MlmState) : SamePool s (s.setState p st) :=
  ⟨rfl, rfl, rfl, rfl, rfl, rfl, rfl⟩

theorem samePool_setUpdateContext (p : Nat) (b : Bool) : SamePool s (s.setUpdateContext p b) :=
  ⟨rfl, rfl, rfl, rfl, rfl, rfl, rfl⟩

theorem samePool_add_sta (p : Nat) (r : Sent) : SamePool s (lim_add_sta s p r).2 := by
  cases r with
  | ok => exact samePool_setState p _
  | noMem => exact SamePool.refl s
  | notPosted => exact samePool_setState p _

theorem samePool_del_sta (p : Nat) (b : Bool) (r : Sent) : SamePool s (lim_del_sta s p b r).2 := by
  unfold lim_del_sta
  repeat' split
  all_goals exact ⟨rfl, rfl, rfl, rfl, rfl, rfl, rfl⟩

/-! ## Taking an index -/

structure Took (p : Nat) (staAddr : MacAddr) (s s' : Session) : Prop where
  role : s'.limSystemRole = s.limSystemRole
  reqs : s'.delStaReqs = s.delStaReqs
  context : s'.mlmStaContext = update s.mlmStaContext p ⟨.OFFLINE, false⟩
  new : ¬s.Added p
  added : ∀ q, s'.Added q ↔ q = p ∨ s.Added q
  assocId : (s'.assocId p).toNat = p
  addr : s'.staAddr p = staAddr

theorem toUInt16_toNat (i : UInt8) : i.toUInt16.toNat = i.toNat := by simp

theorem toUInt16_ne_zero {i : UInt8} (h : i ≠ 0) : i.toUInt16 ≠ 0 := by
  intro hz
  apply h
  have hnat := congrArg UInt16.toNat hz
  exact UInt8.toNat_inj.mp hnat

def Session.takeHead (s : Session) : Session :=
  let head := s.gpLimPeerIdxpool s.freePeerIdxHead
  { s with
    freePeerIdxHead := head
    freePeerIdxTail := if head = 0 then 0 else s.freePeerIdxTail
    gLimNumOfCurrentSTAs := s.gLimNumOfCurrentSTAs + 1
    log := .assign s.freePeerIdxHead :: s.log }

theorem assign_eq {others limit : Nat} (h : HasIdx s others limit) :
    lim_assign_peer_idx s others limit = (s.freePeerIdxHead.toUInt16, s.takeHead) := by
  rw [lim_assign_peer_idx, if_neg (Nat.not_le.mpr h.1), if_pos h.2]; rfl

theorem assign_none {others limit : Nat} (h : ¬HasIdx s others limit) :
    lim_assign_peer_idx s others limit = (0, s) := by
  rw [lim_assign_peer_idx]
  split
  · rfl
  next hcount => exact if_neg fun hhead => h ⟨Nat.not_le.mp hcount, hhead⟩

theorem Inv.take (h : Inv max size free s) (hmax : max < size) (hsize : size ≤ 255)
    {others limit : Nat} (hidx : HasIdx s others limit) {staAddr : MacAddr}
    (hnew : ∀ q, s.Added q → s.staAddr q ≠ staAddr) (frag : Option UInt32) :
    ∃ i s₁ s₂ free', lim_assign_peer_idx s others limit = (i, s₁) ∧ i ≠ 0 ∧
      dph_get_hash_entry s₁.dphHashTable i = none ∧
      s₁.dphAdd staAddr i frag = some (some i.toNat, s₂) ∧
      Inv max size free' s₂ ∧ Took i.toNat staAddr s s₂ ∧
      SameBut i.toNat s.dphHashTable s₂.dphHashTable := by
  obtain ⟨free', rfl, hqueue⟩ := Threaded.pop h.queue hidx.2
  obtain ⟨hpos, hle, hnot⟩ := (h.mem s.freePeerIdxHead).mp mem_cons_self
  have hnat := toUInt16_toNat s.freePeerIdxHead
  have hlt : s.freePeerIdxHead.toUInt16.toNat < s.dphHashTable.size := by
    rw [hnat, h.size_eq]; omega
  have hsz : s.dphHashTable.size ≤ 256 := by rw [h.size_eq]; omega
  obtain ⟨t', hadd, hgood, hsame, hin, haddr⟩ := h.good.add (Nat.zero_lt_of_lt hlt) hsz hlt
    (by rwa [hnat]) hnew frag
  have hget : dph_get_hash_entry s.dphHashTable s.freePeerIdxHead.toUInt16 = none := by
    rw [dph_get_hash_entry, if_pos hlt, if_neg]
    intro hadded; exact hnot (hnat ▸ ⟨hlt, hadded⟩)
  have hadded : ∀ q, t'.Added q ↔ q = s.freePeerIdxHead.toNat ∨ s.Added q := by
    intro q
    by_cases hq : q = s.freePeerIdxHead.toNat
    · subst hq; exact ⟨fun _ => .inl rfl, fun _ => hnat ▸ hin⟩
    · rw [or_iff_right hq, hsame.added q (by rwa [hnat])]; rfl
  have hdph : s.takeHead.dphAdd staAddr s.freePeerIdxHead.toUInt16 frag =
      some (some s.freePeerIdxHead.toUInt16.toNat, { s.takeHead with
        dphHashTable := t'
        mlmStaContext := update s.mlmStaContext s.freePeerIdxHead.toUInt16.toNat
          ⟨.OFFLINE, false⟩ }) := by
    rw [Session.dphAdd, Session.takeHead, hadd, Option.map_some]
  refine ⟨_, _, _, free', assign_eq hidx, toUInt16_ne_zero hidx.2, hget, hdph, ?_, ?_, hsame⟩
  · refine ⟨hgood, hsame.size.trans h.size_eq, hqueue, ?_, ?_, ?_, ?_, ?_⟩
    · intro i
      change _ ↔ _ ∧ _ ∧ ¬t'.Added i.toNat
      have hmem := h.mem i
      rw [mem_cons] at hmem
      rw [hadded, not_or, UInt8.toNat_inj]
      have hnd := (nodup_cons.mp h.queue.nodup).1
      constructor
      · intro hi
        obtain ⟨h₁, h₂, h₃⟩ := hmem.mp (.inr hi)
        exact ⟨h₁, h₂, fun heq => hnd (heq ▸ hi), h₃⟩
      · rintro ⟨h₁, h₂, hne, h₃⟩; exact (hmem.mpr ⟨h₁, h₂, h₃⟩).resolve_left hne
    · intro p hp
      rcases (hadded p).mp hp with rfl | hold
      · exact ⟨hpos, hle⟩
      · exact h.valid p hold
    · have hcount := h.count
      rw [length_cons] at hcount
      have hone : (s.gLimNumOfCurrentSTAs + 1).toNat = s.gLimNumOfCurrentSTAs.toNat + 1 := by
        exact Nat.mod_eq_of_lt (show s.gLimNumOfCurrentSTAs.toNat + 1 < 2 ^ 16 by omega)
      change (s.gLimNumOfCurrentSTAs + 1).toNat + _ = _
      omega
    · exact ⟨h.once, hidx.2, fun hheld => hnot ((h.held _).mp hheld)⟩
    · intro i
      change i = s.freePeerIdxHead ∨ Held s.log i ↔ t'.Added i.toNat
      rw [hadded, h.held i, UInt8.toNat_inj]
  · refine ⟨rfl, rfl, rfl, by rwa [hnat], fun q => ?_, hgood.assocId _ hin.1, haddr⟩
    exact hadded q

/-! ## Giving an index back -/

structure Dropped (p : Nat) (s s' : Session) : Prop where
  role : s'.limSystemRole = s.limSystemRole
  reqs : s'.delStaReqs = s.delStaReqs
  added : ∀ q, s'.Added q ↔ q ≠ p ∧ s.Added q

section Release

variable (s : Session) (i : UInt16)

@[simp] theorem release_role : (lim_release_peer_idx s i).limSystemRole = s.limSystemRole := by
  unfold lim_release_peer_idx
  dsimp only
  split <;> rfl

@[simp] theorem release_dph : (lim_release_peer_idx s i).dphHashTable = s.dphHashTable := by
  unfold lim_release_peer_idx
  dsimp only
  split <;> rfl

@[simp] theorem release_staAddr (p : Nat) : (lim_release_peer_idx s i).staAddr p = s.staAddr p := by
  rw [Session.staAddr, release_dph, Session.staAddr]

@[simp] theorem release_assocId (p : Nat) : (lim_release_peer_idx s i).assocId p = s.assocId p := by
  rw [Session.assocId, release_dph, Session.assocId]

@[simp] theorem release_reqs : (lim_release_peer_idx s i).delStaReqs = s.delStaReqs := by
  unfold lim_release_peer_idx
  dsimp only
  split <;> rfl

@[simp] theorem release_num :
    (lim_release_peer_idx s i).gLimNumOfCurrentSTAs = s.gLimNumOfCurrentSTAs - 1 := by
  unfold lim_release_peer_idx
  dsimp only
  split <;> rfl

@[simp] theorem release_log : (lim_release_peer_idx s i).log = .release i.toUInt8 :: s.log := by
  unfold lim_release_peer_idx
  dsimp only
  split <;> rfl

theorem release_setDph (t : HashTable) :
    lim_release_peer_idx { s with dphHashTable := t } i =
      { lim_release_peer_idx s i with dphHashTable := t } := by
  unfold lim_release_peer_idx
  dsimp only
  split <;> rfl

end Release

theorem free_release (h : s.Free free) {i : UInt16} (hne : i.toUInt8 ≠ 0)
    (hnew : i.toUInt8 ∉ free) : (lim_release_peer_idx s i).Free (free ++ [i.toUInt8]) := by
  unfold lim_release_peer_idx
  dsimp only
  split
  next htail => exact Threaded.push h htail hne hnew
  next htail => obtain ⟨rfl, hnil⟩ := Threaded.push_nil h (not_not.mp htail) hne; exact hnil

theorem Inv.idx (h : Inv max size free s) (hmax : max < size) (hsize : size ≤ 255) {p : Nat}
    (hp : s.Added p) : (s.assocId p).toUInt8.toNat = p := by
  have hle := (h.valid p hp).2
  rw [UInt16.toNat_toUInt8, Session.assocId, h.good.assocId p hp.1, Nat.mod_eq_of_lt (by omega)]

theorem Inv.drop (h : Inv max size free s) (hmax : max < size) (hsize : size ≤ 255) {p : Nat}
    (hp : s.Added p) {t' : HashTable} (hgood : Good t') (hsame : SameBut p s.dphHashTable t')
    (hout : ¬t'.Added p) :
    ∃ free', Inv max size free'
        { lim_release_peer_idx s (s.assocId p) with dphHashTable := t' } ∧
      Dropped p s { lim_release_peer_idx s (s.assocId p) with dphHashTable := t' } := by
  have hnat := h.idx hmax hsize hp
  have hpos := (h.valid p hp).1
  have hne : (s.assocId p).toUInt8 ≠ 0 := by
    intro hz
    rw [hz] at hnat; exact Nat.ne_of_gt hpos hnat.symm
  have hnew : (s.assocId p).toUInt8 ∉ free := by
    intro hmem
    rw [h.mem, hnat] at hmem; exact hmem.2.2 hp
  have hadded : ∀ q, t'.Added q ↔ q ≠ p ∧ s.Added q := by
    intro q
    by_cases hq : q = p
    · subst hq; exact ⟨fun hadd => absurd hadd hout, fun hadd => absurd rfl hadd.1⟩
    · rw [and_iff_right hq, hsame.added q hq]; rfl
  refine ⟨free ++ [(s.assocId p).toUInt8], ⟨hgood, hsame.size.trans h.size_eq,
    free_release h.queue hne hnew, ?_, ?_, ?_, ?_, ?_⟩, release_role _ _, release_reqs _ _,
    hadded⟩
  · intro i
    change _ ↔ _ ∧ _ ∧ ¬t'.Added i.toNat
    rw [mem_append, mem_singleton, h.mem i, hadded, not_and_or, not_not, ← UInt8.toNat_inj, hnat]
    constructor
    · rintro (⟨h₁, h₂, h₃⟩ | rfl)
      · exact ⟨h₁, h₂, .inr h₃⟩
      · exact ⟨hpos, (h.valid _ hp).2, .inl rfl⟩
    · rintro ⟨h₁, h₂, rfl | h₃⟩
      · exact .inr rfl
      · exact .inl ⟨h₁, h₂, h₃⟩
  · exact fun q hq => h.valid q ((hadded q).mp hq).2
  · have hcount := h.count
    have hlen : free.length < max := by
      -- the queue has no room for the index of a station
      have hsub : (s.assocId p).toUInt8 :: free ⊆ (range' 1 max).map UInt8.ofNat := by
        intro i hi
        have hi' : 0 < i.toNat ∧ i.toNat ≤ max := by
          rcases mem_cons.mp hi with rfl | hi
          · rw [hnat]; exact h.valid p hp
          · exact ⟨((h.mem i).mp hi).1, ((h.mem i).mp hi).2.1⟩
        refine mem_map.mpr ⟨i.toNat, mem_range'_1.mpr ⟨hi'.1, by omega⟩, ?_⟩
        exact UInt8.ofNat_toNat
      have hnd : ((s.assocId p).toUInt8 :: free).Nodup := nodup_cons.mpr ⟨hnew, h.queue.nodup⟩
      have hle := (hnd.subperm hsub).length_le
      rw [length_cons, length_map, length_range'] at hle; omega
    rw [release_num, length_append, length_singleton]
    have hle : (1 : UInt16) ≤ s.gLimNumOfCurrentSTAs := by
      change 1 ≤ s.gLimNumOfCurrentSTAs.toNat
      omega
    have hone : (s.gLimNumOfCurrentSTAs - 1).toNat = s.gLimNumOfCurrentSTAs.toNat - 1 :=
      UInt16.toNat_sub_of_le _ _ hle
    omega
  · rw [release_log]; exact ⟨h.once, (h.held _).mpr (hnat.symm ▸ hp)⟩
  · intro i
    change Held (lim_release_peer_idx s (s.assocId p)).log i ↔ t'.Added i.toNat
    rw [release_log, hadded, Held, h.held i, ne_eq, ne_eq, ← UInt8.toNat_inj, hnat]

/-! ## Looking up and deleting -/

theorem get_eq_some {assocId : UInt16} {p : Nat} :
    dph_get_hash_entry s.dphHashTable assocId = some p ↔ s.Added p ∧ p = assocId.toNat := by
  rw [dph_get_hash_entry]
  constructor
  · intro h
    split at h
    next hlt =>
      obtain ⟨hadded, heq⟩ := Option.ite_none_right_eq_some.mp h
      cases heq
      exact ⟨⟨hlt, hadded⟩, rfl⟩
    next => cases h
  · rintro ⟨hadded, rfl⟩; rw [if_pos hadded.1, if_pos hadded.2]

theorem Inv.get (h : Inv max size free s) {p : Nat} (hp : s.Added p) :
    dph_get_hash_entry s.dphHashTable (s.assocId p) = some p :=
  get_eq_some.mpr ⟨hp, (h.good.assocId p hp.1).symm⟩

theorem Inv.lookup (h : Inv max size free s) (hsize : 0 < size) (staAddr : MacAddr) :
    (dph_lookup_hash_entry s.dphHashTable staAddr = some none ∧
      ∀ q, s.Added q → s.staAddr q ≠ staAddr) ∨
    ∃ p, s.Added p ∧ s.staAddr p = staAddr ∧
      dph_lookup_hash_entry s.dphHashTable staAddr = some (some (p, s.assocId p)) := by
  obtain ⟨r, hr, hiff⟩ := h.good.lookup (h.size_eq ▸ hsize) staAddr
  rcases r with _ | ⟨p, id⟩
  · refine .inl ⟨hr, fun q hq haddr => ?_⟩; cases (hiff q _).mpr ⟨hq, haddr, rfl⟩
  · obtain ⟨hadded, haddr, rfl⟩ := (hiff p id).mp rfl; exact .inr ⟨p, hadded, haddr, hr⟩

theorem Inv.delete (h : Inv max size free s) {p : Nat} (hp : s.Added p) :
    ∃ t', Good t' ∧ SameBut p s.dphHashTable t' ∧ ¬t'.Added p ∧
      ∀ s₁ : Session, s₁.dphHashTable = s.dphHashTable →
        s₁.dphDelete (s₁.staAddr p) (s₁.assocId p) = some { s₁ with dphHashTable := t' } ∧
        lim_delete_dph_hash_entry s₁ (s₁.staAddr p) (s₁.assocId p) =
          some { s₁ with dphHashTable := t' } := by
  obtain ⟨t', hdel, hgood, hsame, hout⟩ := h.good.delete hp
  refine ⟨t', hgood, hsame, hout, fun s₁ hs₁ => ?_⟩
  have hone : s₁.dphDelete (s₁.staAddr p) (s₁.assocId p) = some { s₁ with dphHashTable := t' } := by
    rw [Session.dphDelete, Session.staAddr, Session.assocId, hs₁]
    exact congrArg (Option.map _) hdel
  refine ⟨hone, ?_⟩
  obtain ⟨r, hr, hiff⟩ := h.good.lookup (Nat.zero_lt_of_lt hp.1) (s₁.staAddr p)
  have hfound : r = some (p, s.assocId p) := (hiff p _).mpr ⟨hp, by rw [Session.staAddr, hs₁]; rfl, rfl⟩
  rw [lim_delete_dph_hash_entry, hs₁, hr, hfound]; exact hone

/-! ## Stations of an AP -/

def Cleaned (p : Nat) (del : Sent) (s s' : Session) : Prop :=
  Dropped p s s' ∨ SamePool s s' ∧ s'.mlmState p = .WT_DEL_STA_RSP ∧
    (del = .ok → s'.delStaReqs = p :: s.delStaReqs)

section Cleaned

variable {p : Nat} {del : Sent}

theorem Cleaned.role (h : Cleaned p del s s') : s'.limSystemRole = s.limSystemRole := by
  rcases h with hdrop | ⟨hsame, -⟩
  · exact hdrop.role
  · exact hsame.role

theorem Cleaned.added (h : Cleaned p del s s') {q : Nat} (hq : s'.Added q) : s.Added q := by
  rcases h with hdrop | ⟨hsame, -⟩
  · exact ((hdrop.added q).mp hq).2
  · exact (hsame.added q).mp hq

theorem Cleaned.of_same {s₁ : Session} (h : Cleaned p del s₁ s') (hs : SamePool s s₁)
    (hreqs : s₁.delStaReqs = s.delStaReqs) : Cleaned p del s s' := by
  rcases h with hdrop | ⟨hsame, hst, hpost⟩
  · refine .inl ⟨hdrop.role.trans hs.role, hdrop.reqs.trans hreqs, fun q => ?_⟩
    rw [hdrop.added q, hs.added q]
  · exact .inr ⟨hs.trans hsame, hst, fun hdel => hreqs ▸ hpost hdel⟩

theorem Cleaned.posted (h : Cleaned p .ok s s') (hp : s'.Added p) :
    s'.mlmState p = .WT_DEL_STA_RSP ∧ s'.delStaReqs = p :: s.delStaReqs := by
  rcases h with hdrop | ⟨-, hst, hpost⟩
  · exact absurd rfl ((hdrop.added p).mp hp).1
  · exact ⟨hst, hpost rfl⟩

end Cleaned

section Ap

variable (hmax : max < size) (hsize : size ≤ 255)

include hmax hsize

theorem Inv.prepare (h : Inv max size free s) (hrole : s.limSystemRole = .eLIM_AP_ROLE) {p : Nat}
    (hp : s.Added p) : ∃ s' free', lim_prepare_and_send_del_sta_cnf s p = some s' ∧
      Inv max size free' s' ∧ Dropped p s s' := by
  obtain ⟨t', hgood, hsame, hout, hdel⟩ := h.delete hp
  obtain ⟨free', hinv, hdrop⟩ := h.drop hmax hsize hp hgood hsame hout
  refine ⟨_, free', ?_, hinv, hdrop⟩
  rw [lim_prepare_and_send_del_sta_cnf, if_pos hrole]; exact (hdel _ (release_dph s _)).2

theorem Inv.cleanup (h : Inv max size free s) (hrole : s.limSystemRole = .eLIM_AP_ROLE) {p : Nat}
    (hp : s.Added p) (del : Sent) : ∃ s' free', lim_cleanup_rx_path s p del = some s' ∧
      Inv max size free' s' ∧ Cleaned p del s s' := by
  rw [lim_cleanup_rx_path]
  by_cases hcnf : (s.mlmStaContext p).mlmState = .WT_ASSOC_CNF ∧
      (s.mlmStaContext p).updateContext = false
  · obtain ⟨s', free', heq, hinv, hdrop⟩ := h.prepare hmax hsize hrole hp
    rw [if_pos hcnf]; exact ⟨s', free', heq, hinv, .inl hdrop⟩
  · rw [if_neg hcnf]
    have hsame := (samePool_setState (s := s) p .WT_DEL_STA_RSP).trans (samePool_del_sta p true del)
    refine ⟨_, free, rfl, h.same hsame, .inr ⟨hsame, ?_, ?_⟩⟩
    · cases del <;> simp [lim_del_sta, Session.setState, Session.mlmState]
    · rintro rfl; simp [lim_del_sta, Session.setState]

theorem Inv.reject (h : Inv max size free s) (hrole : s.limSystemRole = .eLIM_AP_ROLE) {p : Nat}
    (hp : s.Added p) (del : Sent) :
    ∃ s' free', lim_reject_association s (s.assocId p) true del = some s' ∧
      Inv max size free' s' ∧ Cleaned p del s s' := by
  rw [lim_reject_association, if_neg (by decide), h.get hp]
  exact h.cleanup hmax hsize hrole hp del

theorem Inv.update_ctx (h : Inv max size free s) (hrole : s.limSystemRole = .eLIM_AP_ROLE)
    {p : Nat} (hp : s.Added p) (add del : Sent) :
    ∃ b s' free', lim_update_sta_ctx s p add del = some (b, s') ∧ Inv max size free' s' ∧
      s'.limSystemRole = s.limSystemRole ∧ (b = false → add ≠ .ok ∧ Cleaned p del s s') := by
  have hsame := (samePool_setUpdateContext (s := s) p false).trans (samePool_add_sta p add)
  have hreqs : (lim_add_sta (s.setUpdateContext p false) p add).2.delStaReqs = s.delStaReqs := by
    cases add <;> rfl
  have hfst : (lim_add_sta (s.setUpdateContext p false) p add).1 = decide (add = .ok) := by
    cases add <;> rfl
  rw [lim_update_sta_ctx]
  rcases hres : lim_add_sta (s.setUpdateContext p false) p add with ⟨b, s₁⟩
  rw [hres] at hsame hreqs hfst
  cases b with
  | true => exact ⟨true, s₁, free, rfl, h.same hsame, hsame.role, fun hb => (nomatch hb)⟩
  | false =>
    obtain ⟨s', free', heq, hinv, hclean⟩ := (h.same hsame).reject hmax hsize
      (hsame.role.trans hrole) ((hsame.added p).mpr hp) del
    refine ⟨false, s', free', ?_, hinv, hclean.role.trans hsame.role, fun _ => ⟨?_, ?_⟩⟩
    · dsimp only; rw [heq, Option.map_some]
    · exact of_decide_eq_false hfst.symm
    · exact hclean.of_same hsame hreqs

end Ap

/-! ## Operations -/

def Fine (max size : Nat) (s : Session) (op : Op) : Prop :=
  ∃ b s' free', perform s op = some (b, s') ∧ Inv max size free' s' ∧
    s'.limSystemRole = s.limSystemRole ∧ (b = false → ∀ p, Taken s op p → s'.Added p →
      s'.mlmState p = .WT_DEL_STA_RSP ∧ s'.delStaReqs = p :: s.delStaReqs)

theorem Inv.fine_same {op : Op} {b : Bool} (h : Inv max size free s)
    (heq : perform s op = some (b, s')) (hs : SamePool s s')
    (hnot : b = false → ∀ p, Taken s op p → s.Added p → False) : Fine max size s op :=
  ⟨b, s', free, heq, h.same hs, hs.role, fun hb p hp hadd =>
    (hnot hb p hp ((hs.added p).mp hadd)).elim⟩

section Ops

variable (hmax : max < size) (hsize : size ≤ 255)

include hmax hsize

theorem Inv.assoc_req (h : Inv max size free s) (hrole : s.limSystemRole = .eLIM_AP_ROLE)
    (sa : MacAddr) (env : AssocEnv) (hok : Ok s (.assoc_req sa env)) :
    Fine max size s (.assoc_req sa env) := by
  have hunchanged : perform s (.assoc_req sa env) = some (false, s) →
      Fine max size s (.assoc_req sa env) := fun heq =>
    h.fine_same heq (SamePool.refl s) fun _ p hp hadd => hp hadd
  have hperform : perform s (.assoc_req sa env) = lim_process_assoc_req_frame s sa env := rfl
  rcases h.lookup (by omega) sa with ⟨hlook, hnew⟩ | ⟨p, -, -, hlook⟩
  · by_cases hacc : env.accepted = false
    · apply hunchanged
      rw [hperform, lim_process_assoc_req_frame, hlook]; exact if_pos hacc
    by_cases hidx : HasIdx s env.others env.limit
    · obtain ⟨hupd, hsent⟩ := hok hlook (Bool.not_eq_false _ ▸ hacc) hidx
      obtain ⟨i, s₁, s₂, free₂, hassign, hne, -, hdph, hinv, htook, -⟩ :=
        h.take hmax hsize hidx hnew env.frag
      have hin : s₂.Added i.toNat := (htook.added _).mpr (.inl rfl)
      obtain ⟨b, s', free', hctx, hinv', hrole', hfail⟩ := hinv.update_ctx hmax hsize
        (htook.role.trans hrole) hin env.add env.del
      refine ⟨b, s', free', ?_, hinv', hrole'.trans htook.role, fun hb p hp hadd => ?_⟩
      · rw [hperform, lim_process_assoc_req_frame, hlook]
        dsimp only [Option.bind_eq_bind, Option.bind_some]
        rw [if_neg hacc, hassign]
        rw [if_neg hne, hdph]
        dsimp only [Option.bind_some]
        rw [hupd, lim_update_sta_ds]; exact hctx
      · obtain ⟨hadd_ne, hclean⟩ := hfail hb
        have hpi : p = i.toNat := ((htook.added p).mp (hclean.added hadd)).resolve_right hp
        subst hpi
        rw [hsent.resolve_left hadd_ne] at hclean
        rw [← htook.reqs]; exact hclean.posted hadd
    · apply hunchanged
      rw [hperform, lim_process_assoc_req_frame, hlook]
      rw [if_neg hacc, assign_none hidx]; rfl
  · apply hunchanged
    rw [hperform, lim_process_assoc_req_frame, hlook]; rfl

theorem Inv.fine_reject (h : Inv max size free s) (hrole : s.limSystemRole = .eLIM_AP_ROLE)
    {op : Op} {b : Bool} {p : Nat} {s₁ : Session} (hp : s.Added p) (hs : SamePool s s₁)
    (hreqs : s₁.delStaReqs = s.delStaReqs) (heq : perform s op =
      (lim_reject_association s₁ (s₁.assocId p) true .ok).map fun s => (b, s))
    (htaken : ∀ q, Taken s op q → q = p) : Fine max size s op := by
  obtain ⟨s', free', hrej, hinv, hclean⟩ :=
    (h.same hs).reject hmax hsize (hs.role.trans hrole) ((hs.added p).mpr hp) .ok
  refine ⟨b, s', free', ?_, hinv, hclean.role.trans hs.role, fun _ q hq hadd => ?_⟩
  · rw [heq, hrej, Option.map_some]
  · obtain rfl := htaken q hq
    rw [← hreqs]; exact hclean.posted hadd

theorem Inv.add_sta_rsp (h : Inv max size free s) (hrole : s.limSystemRole = .eLIM_AP_ROLE)
    (assocId : UInt16) (ok : Bool) (ind : AssocInd) (del : Sent)
    (hok : Ok s (.add_sta_rsp assocId ok ind del)) :
    Fine max size s (.add_sta_rsp assocId ok ind del) := by
  have hperform : perform s (.add_sta_rsp assocId ok ind del) =
    (lim_process_ap_mlm_add_sta_rsp s assocId ok ind del).map fun s => (ok, s) := rfl
  rw [lim_process_ap_mlm_add_sta_rsp] at hperform
  rcases hget : dph_get_hash_entry s.dphHashTable assocId with _ | p
  · rw [hget] at hperform
    refine h.fine_same hperform (SamePool.refl s) fun _ q hq _ => ?_
    cases hget.symm.trans hq.1
  rw [hget] at hperform
  have htaken : ∀ q, Taken s (.add_sta_rsp assocId ok ind del) q → q = p := fun q hq =>
    Option.some.inj (hq.1.symm.trans hget)
  obtain ⟨hp, hid⟩ := get_eq_some.mp hget
  dsimp only at hperform
  by_cases hst : (s.mlmStaContext p).mlmState = .WT_ADD_STA_RSP
  · rw [if_neg (not_not.mpr hst)] at hperform
    have hcond := hok (hid ▸ ⟨hget, hst⟩)
    cases ok with
    | false =>
      obtain rfl : del = .ok := hcond
      exact h.fine_reject hmax hsize hrole hp (SamePool.refl s) rfl hperform htaken
    | true =>
      obtain rfl : ind = .posted := hcond
      exact h.fine_same hperform (samePool_setState p _) fun hb => (nomatch hb)
  · rw [if_pos hst] at hperform
    refine h.fine_same hperform (SamePool.refl s) fun _ q hq _ => ?_
    obtain rfl := htaken q hq
    exact hst hq.2

theorem Inv.assoc_cnf (h : Inv max size free s) (hrole : s.limSystemRole = .eLIM_AP_ROLE)
    (aid : UInt16) (peer : MacAddr) (ok : Bool) (del : Sent)
    (hok : Ok s (.assoc_cnf aid peer ok del)) : Fine max size s (.assoc_cnf aid peer ok del) := by
  have hperform : perform s (.assoc_cnf aid peer ok del) =
    (lim_process_sme_assoc_cnf s aid peer ok del).map fun s => (ok, s) := rfl
  rw [lim_process_sme_assoc_cnf] at hperform
  rcases hget : dph_get_hash_entry s.dphHashTable aid with _ | p
  · rw [hget] at hperform
    refine h.fine_same hperform (SamePool.refl s) fun _ q hq _ => ?_
    cases hget.symm.trans hq.1.1
  rw [hget] at hperform
  have htaken : ∀ q, Taken s (.assoc_cnf aid peer ok del) q → q = p := fun q hq =>
    Option.some.inj (hq.1.1.symm.trans hget)
  obtain ⟨hp, hid⟩ := get_eq_some.mp hget
  dsimp only at hperform
  by_cases haddr : s.staAddr p = peer
  · rw [if_neg (not_not.mpr haddr)] at hperform
    by_cases hst : (s.mlmStaContext p).mlmState = .WT_ASSOC_CNF
    · rw [if_neg (not_not.mpr hst)] at hperform
      have hcond := hok (hid ▸ ⟨hget, hst⟩)
      cases ok with
      | true => exact h.fine_same hperform (samePool_setState p _) fun hb => (nomatch hb)
      | false =>
        obtain rfl : del = .ok := hcond.resolve_left Bool.false_ne_true
        exact h.fine_reject hmax hsize hrole hp (samePool_setUpdateContext p true) rfl hperform
          htaken
    · rw [if_pos hst] at hperform
      refine h.fine_same hperform (SamePool.refl s) fun _ q hq _ => ?_
      obtain rfl := htaken q hq
      exact hst hq.1.2
  · rw [if_pos haddr] at hperform
    refine h.fine_same hperform (SamePool.refl s) fun _ q hq _ => ?_
    obtain rfl := htaken q hq
    exact haddr hq.2

theorem Inv.cnf_wait_timeout (h : Inv max size free s)
    (hrole : s.limSystemRole = .eLIM_AP_ROLE) (staId : UInt16) (del : Sent)
    (hok : Ok s (.cnf_wait_timeout staId del)) : Fine max size s (.cnf_wait_timeout staId del) := by
  have hperform : perform s (.cnf_wait_timeout staId del) =
    (lim_handle_cnf_wait_timeout s staId del).map fun s => (false, s) := rfl
  rw [lim_handle_cnf_wait_timeout] at hperform
  rcases hget : dph_get_hash_entry s.dphHashTable staId with _ | p
  · rw [hget] at hperform
    refine h.fine_same hperform (SamePool.refl s) fun _ q hq _ => ?_
    cases hget.symm.trans hq.1
  rw [hget] at hperform
  have htaken : ∀ q, Taken s (.cnf_wait_timeout staId del) q → q = p := fun q hq =>
    Option.some.inj (hq.1.symm.trans hget)
  obtain ⟨hp, hid⟩ := get_eq_some.mp hget
  dsimp only at hperform
  by_cases hst : (s.mlmStaContext p).mlmState = .WT_ASSOC_CNF
  · rw [if_pos ⟨hst, hrole⟩] at hperform
    rcases hok (hid ▸ ⟨hget, hst⟩) with hctx | rfl
    · -- the firmware has no context of the station: the entry goes at once
      obtain ⟨s', free', heq, hinv, hdrop⟩ := h.prepare hmax hsize hrole hp
      refine ⟨false, s', free', ?_, hinv, hdrop.role, fun _ q hq hadd => ?_⟩
      · rw [hperform, lim_reject_association, if_neg (by decide), h.get hp]
        dsimp only
        rw [lim_cleanup_rx_path, if_pos ⟨hst, hid ▸ hctx⟩]; exact congrArg (Option.map _) heq
      · exact absurd (htaken q hq) ((hdrop.added q).mp hadd).1
    · exact h.fine_reject hmax hsize hrole hp (SamePool.refl s) rfl hperform htaken
  · rw [if_neg fun hboth => hst hboth.1] at hperform
    refine h.fine_same hperform (SamePool.refl s) fun _ q hq _ => ?_
    obtain rfl := htaken q hq
    exact hst hq.2

theorem Inv.cleanup_op (h : Inv max size free s) (hrole : s.limSystemRole = .eLIM_AP_ROLE)
    (staId : UInt16) (del : Sent) : Fine max size s (.cleanup staId del) := by
  rcases hget : dph_get_hash_entry s.dphHashTable staId with _ | p
  · have hperform : perform s (.cleanup staId del) = some (true, s) := by rw [perform, hget]
    exact h.fine_same hperform (SamePool.refl s) fun _ _ hq => hq.elim
  · obtain ⟨hp, -⟩ := get_eq_some.mp hget
    obtain ⟨s', free', heq, hinv, hclean⟩ := h.cleanup hmax hsize hrole hp del
    refine ⟨true, s', free', ?_, hinv, hclean.role, fun hb => (nomatch hb)⟩
    rw [perform, hget]; exact congrArg (Option.map _) heq

theorem Inv.del_sta_rsp (h : Inv max size free s) (hrole : s.limSystemRole = .eLIM_AP_ROLE)
    (assocId : UInt16) (ok : Bool) (add del : Sent) :
    Fine max size s (.del_sta_rsp assocId ok add del) := by
  have hperform : perform s (.del_sta_rsp assocId ok add del) =
    (lim_process_ap_mlm_del_sta_rsp s assocId ok add del).map fun s => (true, s) := rfl
  rw [lim_process_ap_mlm_del_sta_rsp] at hperform
  rcases hget : dph_get_hash_entry s.dphHashTable assocId with _ | p
  · rw [hget] at hperform; exact h.fine_same hperform (SamePool.refl s) fun _ _ hq => hq.elim
  rw [hget] at hperform
  obtain ⟨hp, -⟩ := get_eq_some.mp hget
  dsimp only at hperform
  split at hperform
  · have hsame := samePool_add_sta (s := s) p add
    rcases hres : lim_add_sta s p add with ⟨b, s₁⟩
    rw [hres] at hperform hsame
    cases b with
    | true => exact h.fine_same hperform hsame fun _ _ hq => hq.elim
    | false =>
      obtain ⟨s', free', heq, hinv, hclean⟩ := (h.same hsame).reject hmax hsize
        (hsame.role.trans hrole) ((hsame.added p).mpr hp) del
      refine ⟨true, s', free', ?_, hinv, hclean.role.trans hsame.role, fun hb => (nomatch hb)⟩
      rw [hperform]
      dsimp only
      rw [heq, Option.map_some]
  · split at hperform
    · obtain ⟨s', free', heq, hinv, hdrop⟩ := h.prepare hmax hsize hrole hp
      rw [heq] at hperform
      exact ⟨true, s', free', hperform, hinv, hdrop.role, fun hb => (nomatch hb)⟩
    · exact h.fine_same hperform (SamePool.refl s) fun _ _ hq => hq.elim

theorem Inv.delete_release (h : Inv max size free s) {p : Nat} (hp : s.Added p) :
    ∃ s₁ free', lim_delete_dph_hash_entry s (s.staAddr p) (s.assocId p) = some s₁ ∧
      s₁.assocId p = s.assocId p ∧
      Inv max size free' (lim_release_peer_idx s₁ (s.assocId p)) ∧
      Dropped p s (lim_release_peer_idx s₁ (s.assocId p)) ∧
      SameBut p s.dphHashTable (lim_release_peer_idx s₁ (s.assocId p)).dphHashTable := by
  obtain ⟨t', hgood, hsame, hout, hdel⟩ := h.delete hp
  obtain ⟨free', hinv, hdrop⟩ := h.drop hmax hsize hp hgood hsame hout
  refine ⟨{ s with dphHashTable := t' }, free', (hdel s rfl).2, ?_, ?_, ?_, ?_⟩
  · exact UInt16.toNat_inj.mp (hsame.assocId p hp.1)
  · rw [release_setDph]; exact hinv
  · rw [release_setDph]; exact hdrop
  · rw [release_dph]; exact hsame

theorem Inv.release_delete (h : Inv max size free s) {p : Nat} (hp : s.Added p) :
    ∃ s' free', (lim_release_peer_idx s (s.assocId p)).dphDelete (s.staAddr p) (s.assocId p) =
        some s' ∧ Inv max size free' s' ∧ Dropped p s s' ∧
      SameBut p s.dphHashTable s'.dphHashTable := by
  obtain ⟨t', hgood, hsame, hout, hdel⟩ := h.delete hp
  obtain ⟨free', hinv, hdrop⟩ := h.drop hmax hsize hp hgood hsame hout
  have hone := (hdel (lim_release_peer_idx s (s.assocId p)) (release_dph s _)).1
  rw [release_staAddr, release_assocId] at hone; exact ⟨_, free', hone, hinv, hdrop, hsame⟩

theorem Inv.stopLoop (h : Inv max size free s) (del : Nat → Sent) (n i : Nat) :
    ∃ s' free', LimPeerIdx.stopLoop del n i s = some s' ∧ Inv max size free' s' ∧
      s'.limSystemRole = s.limSystemRole := by
  induction n generalizing i s free with
  | zero => exact ⟨s, free, rfl, h, rfl⟩
  | succ n ih =>
    rw [LimPeerIdx.stopLoop]
    rcases hget : dph_get_hash_entry s.dphHashTable (UInt16.ofNat i) with _ | p
    · exact ih h (i + 1)
    obtain ⟨hp, -⟩ := get_eq_some.mp hget
    have hsame := samePool_del_sta (s := s) p false (del i)
    dsimp only
    rcases hres : lim_del_sta s p false (del i) with ⟨b, s₁⟩
    rw [hres] at hsame
    cases b with
    | false =>
      obtain ⟨s', free', heq, hinv, hrole⟩ := ih (h.same hsame) (i + 1)
      exact ⟨s', free', heq, hinv, hrole.trans hsame.role⟩
    | true =>
      obtain ⟨s₂, free₂, hdel, hid, hinv₂, hdrop, -⟩ :=
        (h.same hsame).delete_release hmax hsize ((hsame.added p).mpr hp)
      obtain ⟨s', free', heq, hinv, hrole⟩ := ih hinv₂ (i + 1)
      refine ⟨s', free', ?_, hinv, hrole.trans (hdrop.role.trans hsame.role)⟩
      dsimp only
      rw [hdel, Option.bind_eq_bind, Option.bind_some, hid]; exact heq

/-! ## Peers in an IBSS -/

theorem Inv.ibss_sta_add_new (h : Inv max size free s) {peerAddr : MacAddr} {env : IbssEnv}
    (hlook : dph_lookup_hash_entry s.dphHashTable peerAddr = some none)
    (hnew : ∀ q, s.Added q → s.staAddr q ≠ peerAddr)
    (hidx : HasIdx s env.others env.limit) (hadd : env.add = .ok) :
    ∃ p s' free', lim_ibss_sta_add s peerAddr env = some (true, s') ∧ Inv max size free' s' ∧
      s'.limSystemRole = s.limSystemRole ∧ ¬s.Added p ∧ (∀ q, s'.Added q ↔ q = p ∨ s.Added q) ∧
      s'.staAddr p = peerAddr ∧ SameBut p s.dphHashTable s'.dphHashTable := by
  obtain ⟨i, s₁, s₂, free₂, hassign, -, hget, hdph, hinv, htook, hsame⟩ :=
    h.take hmax hsize hidx hnew env.frag
  have hentry : ibss_dph_entry_add s peerAddr env = some (some i.toNat, s₂) := by
    rw [ibss_dph_entry_add, hlook]
    rw [hassign]
    dsimp only
    rw [hget]; exact hdph
  refine ⟨i.toNat, s₂.setState i.toNat .WT_ADD_STA_RSP, free₂, ?_,
    hinv.same (samePool_setState _ _), htook.role, htook.new, htook.added, htook.addr, hsame⟩
  rw [lim_ibss_sta_add, hentry]
  rw [hadd]; rfl

theorem Inv.ibss_sta_add (h : Inv max size free s) (peerAddr : MacAddr) (env : IbssEnv)
    (hok : Ok s (.ibss_sta_add peerAddr env)) : Fine max size s (.ibss_sta_add peerAddr env) := by
  have hperform : perform s (.ibss_sta_add peerAddr env) = lim_ibss_sta_add s peerAddr env := rfl
  rcases h.lookup (by omega) peerAddr with ⟨hlook, hnew⟩ | ⟨p, -, -, hlook⟩
  · obtain ⟨hidx, hadd⟩ := hok hlook
    obtain ⟨-, s', free', heq, hinv, hrole, -⟩ :=
      h.ibss_sta_add_new hmax hsize hlook hnew hidx hadd
    exact ⟨true, s', free', heq, hinv, hrole, fun hb => (nomatch hb)⟩
  · have hentry : ibss_dph_entry_add s peerAddr env = some (none, s) := by
      rw [ibss_dph_entry_add, hlook]; rfl
    refine h.fine_same (b := false) ?_ (SamePool.refl s) fun _ q hq hadd => hq hadd
    rw [hperform, lim_ibss_sta_add, hentry]; rfl

theorem Inv.ibss_peer_departed (h : Inv max size free s) (mac_addr : MacAddr) :
    ∃ s' free', ibss_peer_departed s mac_addr = some s' ∧ Inv max size free' s' ∧
      s'.limSystemRole = s.limSystemRole := by
  rw [LimPeerIdx.ibss_peer_departed]
  rcases h.lookup (by omega) mac_addr with ⟨hlook, -⟩ | ⟨p, hp, -, hlook⟩
  · rw [hlook]; exact ⟨s, free, rfl, h, rfl⟩
  · obtain ⟨s₁, free', hdel, -, hinv, hdrop, -⟩ := h.delete_release hmax hsize hp
    refine ⟨_, free', ?_, hinv, hdrop.role⟩
    rw [hlook]
    dsimp only [Option.bind_eq_bind, Option.bind_some]
    rw [hdel]; rfl

theorem Inv.deleteAllLoop (h : Inv max size free s) (macs : List MacAddr) :
    ∃ s' free', LimPeerIdx.deleteAllLoop macs s = some s' ∧ Inv max size free' s' ∧
      s'.limSystemRole = s.limSystemRole := by
  induction macs generalizing s free with
  | nil => exact ⟨s, free, rfl, h, rfl⟩
  | cons mac macs ih =>
    rw [LimPeerIdx.deleteAllLoop]
    rcases h.lookup (by omega) mac with ⟨hlook, -⟩ | ⟨p, hp, -, hlook⟩
    · rw [hlook]; exact ih h
    · obtain ⟨s₁, free₁, hone, hinv₁, hdrop, -⟩ := h.release_delete hmax hsize hp
      obtain ⟨s', free', heq, hinv, hrole⟩ := ih hinv₁
      refine ⟨s', free', ?_, hinv, hrole.trans hdrop.role⟩
      rw [hlook]
      dsimp only [Option.bind_eq_bind, Option.bind_some]
      rw [release_staAddr, hone]; exact heq

end Ops

/-! ## The start -/

def idxs (i n : Nat) : List UInt8 := (range' i n).map UInt8.ofNat

theorem mem_idxs {i n : Nat} (h : i + n ≤ 256) (a : UInt8) :
    a ∈ idxs i n ↔ i ≤ a.toNat ∧ a.toNat < i + n := by
  rw [idxs, mem_map]
  constructor
  · rintro ⟨k, hk, rfl⟩
    obtain ⟨h₁, h₂⟩ := mem_range'_1.mp hk
    rw [UInt8.toNat_ofNat_of_lt' (show k < 2 ^ 8 by omega)]; exact ⟨h₁, h₂⟩
  · rintro ⟨h₁, h₂⟩; exact ⟨a.toNat, mem_range'_1.mpr ⟨h₁, h₂⟩, UInt8.ofNat_toNat⟩

theorem nodup_idxs {i n : Nat} (h : i + n ≤ 256) : (idxs i n).Nodup := by
  apply List.Nodup.map_on _ nodup_range'
  intro a ha b hb hab
  have hnat := congrArg UInt8.toNat hab
  rw [mem_range'_1] at ha hb
  rwa [UInt8.toNat_ofNat_of_lt' (show a < 2 ^ 8 by omega),
    UInt8.toNat_ofNat_of_lt' (show b < 2 ^ 8 by omega)] at hnat

theorem linked_initLoop (n : Nat) (pool : UInt8 → UInt8) (i : UInt8) (hi : i ≠ 0)
    (hlt : i.toNat + n < 256) :
    (initLoop pool n i).2.toNat = i.toNat + n ∧
      (∀ j : UInt8, j.toNat < i.toNat → (initLoop pool n i).1 j = pool j) ∧
      Linked (fun j => ptr 0 ((initLoop pool n i).1 j)) (some i) (idxs i.toNat (n + 1)) none := by
  induction n generalizing pool i with
  | zero =>
    refine ⟨rfl, fun j hj => ?_, ?_⟩
    · apply update_of_ne
      rintro rfl; exact Nat.lt_irrefl _ hj
    · refine ⟨congrArg some UInt8.ofNat_toNat.symm, ?_⟩
      rw [UInt8.ofNat_toNat, initLoop]
      dsimp only
      rw [update_self, ptr_null]; rfl
  | succ n ih =>
    have hsucc : (i + 1).toNat = i.toNat + 1 := by
      exact Nat.mod_eq_of_lt (show i.toNat + 1 < 2 ^ 8 by omega)
    have hne : i + 1 ≠ 0 := by
      intro hz
      rw [hz] at hsucc; exact Nat.succ_ne_zero _ hsucc.symm
    obtain ⟨hlast, hkeep, hlinked⟩ := ih (update pool i (i + 1)) (i + 1) hne (by omega)
    rw [initLoop]
    refine ⟨by omega, fun j hj => ?_, ?_⟩
    · rw [hkeep j (by omega), update_of_ne]
      rintro rfl; exact Nat.lt_irrefl _ hj
    · refine ⟨congrArg some UInt8.ofNat_toNat.symm, ?_⟩
      rw [UInt8.ofNat_toNat]
      dsimp only
      rw [hkeep i (by omega), update_self, ptr_of_ne hne, ← hsucc]; exact hlinked

theorem inv_init (role : LimSystemRole) {maxAssocSta : UInt8} (hpos : 0 < maxAssocSta.toNat)
    (hsize : size ≤ 255) :
    Inv maxAssocSta.toNat size (idxs 1 maxAssocSta.toNat) (init role maxAssocSta size) := by
  have hlt := maxAssocSta.toNat_lt
  obtain ⟨n, hn⟩ := Nat.exists_eq_succ_of_ne_zero (Nat.ne_of_gt hpos)
  have hone : LIM_START_PEER_IDX.toNat = 1 := rfl
  have hsub : maxAssocSta.toNat - LIM_START_PEER_IDX.toNat = n := by omega
  obtain ⟨hlast, -, hlinked⟩ := linked_initLoop n (update (fun _ => 0) 0 0) LIM_START_PEER_IDX
    (by decide) (by omega)
  have hnone : ∀ p, ¬(init role maxAssocSta size).Added p := fun p hp => Bool.false_ne_true hp.2
  refine ⟨good_init hsize, rfl, ⟨?_, ?_, nodup_idxs (by omega)⟩, fun i => ?_,
    fun p hp => absurd hp (hnone p), ?_, trivial, fun i => ⟨fun hh => hh.elim, fun hp =>
      absurd hp (hnone _)⟩⟩
  · have hpool : (init role maxAssocSta size).gpLimPeerIdxpool =
        (initLoop (update (fun _ => 0) 0 0) n LIM_START_PEER_IDX).1 := by
      rw [init, lim_init_peer_idxpool, hsub]
    have hhead : ptr 0 (init role maxAssocSta size).freePeerIdxHead = some LIM_START_PEER_IDX := rfl
    rw [hpool, hhead, hn]; exact hlinked
  · have htail : (init role maxAssocSta size).freePeerIdxTail.toNat = n + 1 := by
      rw [init, lim_init_peer_idxpool, hsub]; exact hlast.trans (Nat.add_comm 1 n)
    have hne : (init role maxAssocSta size).freePeerIdxTail ≠ 0 := by
      intro hz
      rw [hz] at htail; exact Nat.succ_ne_zero _ htail.symm
    rw [ptr_of_ne hne, idxs, getLast?_map, getLast?_range', if_neg (by omega),
      Option.map_some, Option.some.injEq, ← UInt8.toNat_inj, htail,
      UInt8.toNat_ofNat_of_lt' (show _ < 2 ^ 8 by omega)]
    omega
  · rw [mem_idxs (by omega), and_iff_left (hnone _)]; omega
  · rw [idxs, length_map, length_range']; exact Nat.zero_add _

/-! ## Runs -/

theorem Inv.fine (h : Inv max size free s) (hmax : max < size) (hsize : size ≤ 255) (op : Op)
    (hrole : op.forRole s.limSystemRole) (hok : Ok s op) : Fine max size s op := by
  cases op with
  | assoc_req sa env => exact h.assoc_req hmax hsize hrole sa env hok
  | add_sta_rsp assocId ok ind del => exact h.add_sta_rsp hmax hsize hrole assocId ok ind del hok
  | assoc_cnf aid peer ok del => exact h.assoc_cnf hmax hsize hrole aid peer ok del hok
  | cnf_wait_timeout staId del => exact h.cnf_wait_timeout hmax hsize hrole staId del hok
  | disassoc_req staId =>
    rcases hget : dph_get_hash_entry s.dphHashTable staId with _ | p
    · have hperform : perform s (.disassoc_req staId) = some (true, s) := by rw [perform, hget]
      exact h.fine_same hperform (SamePool.refl s) fun _ _ hq => hq.elim
    · have hperform : perform s (.disassoc_req staId) =
          some (true, s.setState p .WT_DEL_STA_RSP) := by rw [perform, hget]
      exact h.fine_same hperform (samePool_setState p _) fun _ _ hq => hq.elim
  | cleanup staId del => exact h.cleanup_op hmax hsize hrole staId del
  | del_sta_rsp assocId ok add del => exact h.del_sta_rsp hmax hsize hrole assocId ok add del
  | stop_bss limit del =>
    obtain ⟨s', free', heq, hinv, hsame⟩ := h.stopLoop hmax hsize del (limit - 1) 1
    exact ⟨true, s', free', congrArg (Option.map _) heq, hinv, hsame, fun hb => (nomatch hb)⟩
  | ibss_sta_add peerAddr env => exact h.ibss_sta_add hmax hsize peerAddr env hok
  | ibss_peer_departed mac_addr =>
    obtain ⟨s', free', heq, hinv, hsame⟩ := h.ibss_peer_departed hmax hsize mac_addr
    exact ⟨true, s', free', congrArg (Option.map _) heq, hinv, hsame, fun hb => (nomatch hb)⟩
  | ibss_delete_all_peers macs =>
    obtain ⟨s', free', heq, hinv, hsame⟩ := h.deleteAllLoop hmax hsize macs
    exact ⟨true, s', free', congrArg (Option.map _) heq, hinv, hsame, fun hb => (nomatch hb)⟩

theorem Inv.step (h : Inv max size free s) (hmax : max < size) (hsize : size ≤ 255) {op : Op}
    (hok : Ok s op) (hstep : step s op = some s') : ∃ free', Inv max size free' s' := by
  obtain ⟨hrole, ⟨b, s''⟩, hperform, rfl⟩ : op.forRole s.limSystemRole ∧
      ∃ r, perform s op = some r ∧ r.2 = s' := by
    rw [LimPeerIdx.step] at hstep
    obtain ⟨hrole, hmap⟩ := Option.ite_none_right_eq_some.mp hstep
    exact ⟨hrole, Option.map_eq_some_iff.mp hmap⟩
  obtain ⟨b', s', free', heq, hinv, -⟩ := h.fine hmax hsize op hrole hok
  obtain ⟨-, rfl⟩ := Prod.mk.inj (Option.some.inj (hperform.symm.trans heq))
  exact ⟨free', hinv⟩

theorem Inv.count_added (h : Inv max size free s) (hmax : max < 256) :
    s.gLimNumOfCurrentSTAs.toNat = ((range (max + 1)).filter (s.Added ·)).length := by
  have hcount := h.count
  have hin : ∀ a ∈ (0 :: free.map UInt8.toNat), a < max + 1 := by
    intro a ha
    rcases mem_cons.mp ha with rfl | ha
    · omega
    · obtain ⟨i, hi, rfl⟩ := mem_map.mp ha; exact Nat.lt_succ_of_le ((h.mem i).mp hi).2.1
  have hnd : (0 :: free.map UInt8.toNat).Nodup := by
    rw [nodup_cons]
    refine ⟨fun hz => ?_, h.queue.nodup.map fun a b hab => UInt8.toNat_inj.mp hab⟩
    obtain ⟨i, hi, hi0⟩ := mem_map.mp hz
    exact Nat.ne_of_gt ((h.mem i).mp hi).1 hi0
  have hlen := length_range_filter_not_mem hnd hin
  rw [length_cons, length_map] at hlen
  have hfilter : (range (max + 1)).filter (fun p => decide (s.Added p)) =
      (range (max + 1)).filter (· ∉ 0 :: free.map UInt8.toNat) := by
    apply filter_congr
    intro p hp
    rw [decide_eq_decide, mem_cons, not_or, mem_map]
    have hlt : p < max + 1 := mem_range.mp hp
    have hnat : (UInt8.ofNat p).toNat = p := UInt8.toNat_ofNat_of_lt' (show p < 2 ^ 8 by omega)
    constructor
    · intro hadd
      refine ⟨Nat.ne_of_gt (h.valid p hadd).1, ?_⟩
      rintro ⟨i, hi, rfl⟩; exact ((h.mem i).mp hi).2.2 hadd
    · rintro ⟨hne, hfree⟩
      by_contra hadd
      refine hfree ⟨UInt8.ofNat p, (h.mem _).mpr ?_, hnat⟩
      rw [hnat]; exact ⟨Nat.pos_of_ne_zero hne, by omega, hadd⟩
  rw [hfilter]; omega

theorem Inv.conserved (h : Inv max size free s) (hmax : max < 256) : Conserved max s :=
  ⟨⟨free, h.queue, h.mem⟩, h.valid, h.count_added hmax, h.once, h.held⟩

theorem Inv.failedReleases (h : Inv max size free s) (hmax : max < size) (hsize : size ≤ 255) :
    FailedReleases s := by
  intro op s' p hok hrole hperform htaken hadd
  obtain ⟨b, s'', free', heq, -, -, hfail⟩ := h.fine hmax hsize op hrole hok
  obtain ⟨rfl, rfl⟩ := Prod.mk.inj (Option.some.inj (hperform.symm.trans heq))
  exact hfail rfl p htaken hadd

theorem Inv.answerReleases (h : Inv max size free s) (hmax : max < size) (hsize : size ≤ 255) :
    AnswerReleases s := by
  intro p ok add del hrole hp hst
  obtain ⟨s', free', heq, -, hdrop⟩ := h.prepare hmax hsize hrole hp
  refine ⟨s', ?_, fun hadd => ((hdrop.added p).mp hadd).1 rfl⟩
  have hne : (s.mlmStaContext p).mlmState ≠ .WT_ASSOC_DEL_STA_RSP := by
    intro hwt
    cases hst.symm.trans hwt
  have hfor : Op.forRole s.limSystemRole (.del_sta_rsp (s.assocId p) ok add del) := hrole
  rw [LimPeerIdx.step, if_pos hfor]
  dsimp only [perform]
  rw [lim_process_ap_mlm_del_sta_rsp, h.get hp]
  dsimp only
  rw [if_neg fun hboth => hne hboth.2, if_pos hne, heq]; rfl

/-- **Peer indices.** In every run that stays out of the places above, each index from 1 on is free
or that of one station, the counter has the number of those given out, none is given back twice,
and the index of an addition that failed is given back. -/
theorem peer_idx_conserved (role : LimSystemRole) {maxAssocSta : UInt8}
    (hpos : 0 < maxAssocSta.toNat) (hmax : maxAssocSta.toNat < size) (hsize : size ≤ 255)
    (ops : List Op) (h : run (guarded Ok step) (init role maxAssocSta size) ops = some s) :
    Conserved maxAssocSta.toNat s ∧ FailedReleases s ∧ AnswerReleases s := by
  obtain ⟨free, hinv⟩ : ∃ free, Inv maxAssocSta.toNat size free s := by
    apply guarded_run_invariant (I := fun u => ∃ free, Inv maxAssocSta.toNat size free u) ?_
      ⟨_, inv_init role hpos hsize⟩ h
    rintro u op u' ⟨free, hu⟩ hok hstep; exact hu.step hmax hsize hok hstep
  exact ⟨hinv.conserved (by omega), hinv.failedReleases hmax hsize, hinv.answerReleases hmax hsize⟩

def allWell : AssocEnv where
  accepted := true
  others := 0
  limit := 4
  frag := none
  upd := .ok
  add := .ok
  del := .ok

/-- One station associates, the request for another one is not posted, and it is deleted. -/
theorem peer_idx_conserved_two :
    ∃ s, run (guarded Ok step) (init .eLIM_AP_ROLE 4 8)
      [.assoc_req macA allWell, .add_sta_rsp 1 true .posted .ok, .assoc_cnf 1 macA true .ok,
        .assoc_req macB { allWell with add := .notPosted }, .del_sta_rsp 2 true .ok .ok] = some s ∧
      s.Added 1 ∧ ¬s.Added 2 ∧ s.gLimNumOfCurrentSTAs = 1 ∧
      Conserved 4 s ∧ FailedReleases s ∧ AnswerReleases s := by
  refine exists_of_tested (fun s => s.Added 1 ∧ ¬s.Added 2 ∧ s.gLimNumOfCurrentSTAs = 1)
    (by decide +kernel) fun s hs ⟨h1, h2, hnum⟩ => ?_
  exact ⟨h1, h2, hnum, peer_idx_conserved .eLIM_AP_ROLE (by decide) (by decide) (by decide) _ hs⟩

/-- A peer that is added when the hardware has no room. -/
def noRoom : IbssEnv where
  others := 4
  limit := 4
  frag := none
  add := .ok
  del := .ok

/-- The places at which indices are lost: a rejection for missing rates gives the index back
twice, a failed indication does so while the station stays, a peer whose addition is not posted
keeps its index, one that gets none has index 0, and a request that ends without a timer leaves
its entry. -/
theorem peer_idx_not_conserved :
    (∃ s, run step (init .eLIM_AP_ROLE 4 8)
      [.assoc_req macA { allWell with upd := .noRates }, .del_sta_rsp 1 true .ok .ok] = some s ∧
      ¬LogOk s.log ∧ ¬Conserved 4 s) ∧
    (∃ s, run step (init .eLIM_AP_ROLE 4 8)
      [.assoc_req macA allWell, .add_sta_rsp 1 true .noMem .ok] = some s ∧
      s.Added 1 ∧ s.gLimNumOfCurrentSTAs = 0 ∧ ¬Conserved 4 s) ∧
    (∃ s, run step (init .eLIM_STA_IN_IBSS_ROLE 4 8)
      [.ibss_sta_add macA { noRoom with others := 0, add := .notPosted }] = some s ∧
      Held s.log 1 ∧ ¬s.Added 1 ∧ ¬Conserved 4 s) ∧
    (∃ s, run step (init .eLIM_STA_IN_IBSS_ROLE 4 8) [.ibss_sta_add macA noRoom] = some s ∧
      s.Added 0 ∧ ¬Conserved 4 s) ∧
    ∃ s, perform (init .eLIM_AP_ROLE 4 8) (.assoc_req macA { allWell with upd := .noTimer }) =
      some (false, s) ∧ s.Added 1 ∧ s.mlmState 1 = .OFFLINE := by
  refine ⟨?_, ?_, ?_, ?_, ?_⟩
  · refine exists_of_tested (fun s => ¬LogOk s.log) (by decide +kernel) fun s hs hlog => ?_
    exact ⟨hlog, fun hc => hlog hc.once⟩
  · refine exists_of_tested (fun s => s.Added 1 ∧ s.gLimNumOfCurrentSTAs = 0 ∧ ¬Held s.log 1)
      (by decide +kernel) fun s hs ⟨hadd, hnum, hheld⟩ => ?_
    exact ⟨hadd, hnum, fun hc => hheld ((hc.held 1).mpr hadd)⟩
  · refine exists_of_tested (fun s => Held s.log 1 ∧ ¬s.Added 1) (by decide +kernel)
      fun s hs ⟨hheld, hadd⟩ => ?_
    exact ⟨hheld, hadd, fun hc => hadd ((hc.held 1).mp hheld)⟩
  · refine exists_of_tested (fun s => s.Added 0) (by decide +kernel) fun s hs hadd => ?_
    exact ⟨hadd, fun hc => Nat.lt_irrefl 0 (hc.valid 0 hadd).1⟩
  · have h : (perform (init .eLIM_AP_ROLE 4 8)
        (.assoc_req macA { allWell with upd := .noTimer })).map
        (fun r => decide (r.1 = false ∧ r.2.Added 1 ∧ r.2.mlmState 1 = .OFFLINE)) =
          some true := by decide +kernel
    obtain ⟨⟨b, s⟩, hs, hall⟩ := Option.map_eq_some_iff.mp h
    obtain ⟨rfl, hadd, hst⟩ := of_decide_eq_true hall
    exact ⟨s, hs, hadd, hst⟩

end Qcacld.LimPeerIdx
