/-
The station table of the DPH module: `dph_hash_table.c`.

A pointer to an entry is its place in the array. A walk along a chain ends with `none` where it does
not end in the code: there are no more entries than the size of the table, so that a walk of more
steps has come to one twice. Left out are the fields of an entry that are only set to zero.
-/
import Mathlib.Algebra.Order.Ring.Int
import Qcacld.Lib.Run
import Mathlib.Data.List.Perm.Subperm
import Qcacld.Lib.Chain

set_option autoImplicit false

namespace Qcacld.DphTable

open Function
open Lib

def STA_INVALID_IDX : UInt16 := 0xFF
def ENC_POLICY_NULL : Nat := 0

abbrev MacAddr := Vector UInt8 6

def zeroMacAddr : MacAddr := Vector.replicate 6 0

structure HashNode where
  valid : Bool
  encPolicy : Nat
  added : Bool
  fragSize : UInt16
  assocId : UInt16
  staIndex : UInt16
  staAddr : MacAddr
  is_disassoc_deauth_in_progress : Nat
  next : Option Nat

structure HashTable where
  size : Nat
  pHashTable : Nat → Option Nat
  pDphNodeArray : Nat → HashNode

def zeroNode : HashNode where
  valid := false
  encPolicy := 0
  added := false
  fragSize := 0
  assocId := 0
  staIndex := 0
  staAddr := zeroMacAddr
  is_disassoc_deauth_in_progress := 0
  next := none

/-- `dph_hash_table_class_init` on memory that is zero. -/
def dph_hash_table_class_init (size : Nat) : HashTable where
  size := size
  pHashTable := fun _ => none
  pDphNodeArray := fun i => { zeroNode with assocId := UInt16.ofNat i }

/-- The sum of the bytes is less than 2^16. -/
def hash_function (staAddr : MacAddr) (numSta : Nat) : Nat :=
  (staAddr.toList.map UInt8.toNat).sum % numSta

def HashTable.setNode (t : HashTable) (p : Nat) (n : HashNode) : HashTable :=
  { t with pDphNodeArray := update t.pDphNodeArray p n }

def HashTable.setHead (t : HashTable) (i : Nat) (p : Option Nat) : HashTable :=
  { t with pHashTable := update t.pHashTable i p }

/-! ## Looking up -/

def lookupLoop (t : HashTable) (staAddr : MacAddr) : Nat → Option Nat → Option (Option Nat)
  | _, none => some none
  | 0, some _ => none
  | fuel + 1, some ptr =>
    if staAddr = (t.pDphNodeArray ptr).staAddr then some (some ptr)
    else lookupLoop t staAddr fuel (t.pDphNodeArray ptr).next

/-- The entry and what is stored at `pAssocId`. -/
def dph_lookup_hash_entry (t : HashTable) (staAddr : MacAddr) : Option (Option (Nat × UInt16)) :=
  let index := hash_function staAddr t.size
  (lookupLoop t staAddr t.size (t.pHashTable index)).map fun r =>
    r.map fun ptr => (ptr, (t.pDphNodeArray ptr).assocId)

def dph_get_hash_entry (t : HashTable) (peerIdx : UInt16) : Option Nat :=
  if peerIdx.toNat < t.size then
    if (t.pDphNodeArray peerIdx.toNat).added then some peerIdx.toNat else none
  else none

/-- The first entry with the station index. -/
def dph_lookup_assoc_id (t : HashTable) (staIdx : UInt16) : Option (Option Nat) :=
  let found := (List.range (min t.size 256)).find? fun i =>
    (t.pDphNodeArray i).added && decide ((t.pDphNodeArray i).staIndex = staIdx)
  match found with
  | some i => some (some i)
  | none => if t.size < 256 then some none else none

/-! ## Changing the table -/

/-- `get_node` takes 8 bits of the association id. -/
def get_node (assocId : UInt8) : Nat := assocId.toNat

/-- `frag` is what `wlan_cfg_get_int` gives. -/
def dph_init_sta_state (t : HashTable) (staAddr : MacAddr) (assocId : UInt16) (validStaIdx : Bool)
    (frag : Option UInt32) : Option Nat × HashTable :=
  if t.size ≤ assocId.toNat then (none, t)
  else
    let pStaDs := get_node assocId.toUInt8
    let staIdx := (t.pDphNodeArray pStaDs).staIndex
    (some pStaDs, t.setNode pStaDs
      { zeroNode with
        next := (t.pDphNodeArray pStaDs).next
        assocId := assocId
        staIndex := if validStaIdx then staIdx else STA_INVALID_IDX
        staAddr := staAddr
        fragSize := match frag with
          | some val => val.toUInt16
          | none => 0
        added := true
        encPolicy := ENC_POLICY_NULL
        is_disassoc_deauth_in_progress := 0
        valid := true })

/-- Whether the walk comes to the end of the chain. -/
def addLoop (t : HashTable) (staAddr : MacAddr) (assocId : UInt16) :
    Nat → Option Nat → Option Bool
  | _, none => some true
  | 0, some _ => none
  | fuel + 1, some ptr =>
    let node := t.pDphNodeArray ptr
    if node.next = some ptr then some false
    else if staAddr = node.staAddr ∨ node.assocId = assocId then some false
    else addLoop t staAddr assocId fuel node.next

def dph_add_hash_entry (t : HashTable) (staAddr : MacAddr) (assocId : UInt16)
    (frag : Option UInt32) : Option (Option Nat × HashTable) :=
  let index := hash_function staAddr t.size
  if t.size ≤ assocId.toNat then some (none, t)
  else if (t.pDphNodeArray assocId.toNat).added then some (none, t)
  else
    (addLoop t staAddr assocId t.size (t.pHashTable index)).map fun atEnd =>
      if atEnd then
        match dph_init_sta_state t staAddr assocId false frag with
        | (none, t) => (none, t)
        | (some _, t) =>
          let node := t.pDphNodeArray assocId.toNat
          let t := t.setNode assocId.toNat { node with next := t.pHashTable index }
          let t := t.setHead index (some assocId.toNat)
          (t.pHashTable index, t)
      else (none, t)

/-- The entry with the address and the one before it; none where there is no such entry, or one
that points to itself. -/
def deleteLoop (t : HashTable) (staAddr : MacAddr) :
    Nat → (prev ptr : Option Nat) → Option (Option (Option Nat × Nat))
  | _, _, none => some none
  | 0, _, some _ => none
  | fuel + 1, prev, some ptr =>
    if staAddr = (t.pDphNodeArray ptr).staAddr then some (some (prev, ptr))
    else if prev = some ptr then some none
    else deleteLoop t staAddr fuel (some ptr) (t.pDphNodeArray ptr).next

def unlinkNode (t : HashTable) (index : Nat) (prev : Option Nat) (ptr : Nat) : HashTable :=
  let node := t.pDphNodeArray ptr
  let t := t.setNode ptr { node with valid := false, staAddr := zeroMacAddr }
  let t :=
    match prev with
    | none => t.setHead index node.next
    | some prev => t.setNode prev { t.pDphNodeArray prev with next := node.next }
  t.setNode ptr
    { t.pDphNodeArray ptr with
      added := false
      is_disassoc_deauth_in_progress := 0
      next := none }

/-- Whether it returns `eSIR_SUCCESS`. -/
def dph_delete_hash_entry (t : HashTable) (staAddr : MacAddr) (assocId : UInt16) :
    Option (Bool × HashTable) :=
  let index := hash_function staAddr t.size
  if t.size ≤ assocId.toNat then some (false, t)
  else if (t.pDphNodeArray assocId.toNat).added = false then some (false, t)
  else
    (deleteLoop t staAddr t.size none (t.pHashTable index)).map fun r =>
      match r with
      | some (prev, ptr) => (true, unlinkNode t index prev ptr)
      | none => (false, t)

/-! ## Steps -/

inductive Op where
  | add (staAddr : MacAddr) (assocId : UInt16) (frag : Option UInt32)
  | delete (staAddr : MacAddr) (assocId : UInt16)
  | init_sta_state (staAddr : MacAddr) (assocId : UInt16) (validStaIdx : Bool)
      (frag : Option UInt32)
  | lookup (staAddr : MacAddr)
  | lookup_assoc_id (staIdx : UInt16)

/-- There is no next state where a call does not return. -/
def step (t : HashTable) : Op → Option HashTable
  | .add staAddr assocId frag => (dph_add_hash_entry t staAddr assocId frag).map Prod.snd
  | .delete staAddr assocId => (dph_delete_hash_entry t staAddr assocId).map Prod.snd
  | .init_sta_state staAddr assocId validStaIdx frag =>
    some (dph_init_sta_state t staAddr assocId validStaIdx frag).2
  | .lookup staAddr => (dph_lookup_hash_entry t staAddr).map fun _ => t
  | .lookup_assoc_id staIdx => (dph_lookup_assoc_id t staIdx).map fun _ => t

open List Option

/-! The chains hold the added entries, each in the chain of its hash, in every state of a run. -/

variable {t t' : HashTable}

/-! ## What is to hold -/

def HashTable.next (t : HashTable) (p : Nat) : Option Nat := (t.pDphNodeArray p).next

def HashTable.Added (t : HashTable) (p : Nat) : Prop :=
  p < t.size ∧ (t.pDphNodeArray p).added = true
deriving Decidable

def HashTable.addr (t : HashTable) (p : Nat) : MacAddr := (t.pDphNodeArray p).staAddr

structure Chained (t : HashTable) (i : Nat) (l : List Nat) : Prop where
  linked : Linked t.next (t.pHashTable i) l none
  nodup : l.Nodup
  mem : ∀ p, p ∈ l ↔ t.Added p ∧ hash_function (t.addr p) t.size = i

/-- The buckets are chains that end, and no two added entries have one address. -/
structure Good (t : HashTable) : Prop where
  chain : ∀ i < t.size, ∃ l, Chained t i l
  distinct : ∀ {p q}, t.Added p → t.Added q → t.addr p = t.addr q → p = q
  assocId : ∀ p < t.size, (t.pDphNodeArray p).assocId.toNat = p

/-- An entry keeps its bucket when its address is set. -/
def Ok (t : HashTable) : Op → Prop
  | .init_sta_state staAddr assocId _ _ =>
    t.size ≤ assocId.toNat ∨
      (t.Added assocId.toNat ∧
        hash_function staAddr t.size = hash_function (t.addr assocId.toNat) t.size ∧
        ∀ q < t.size, t.Added q → t.addr q = staAddr → q = assocId.toNat)
  | _ => True

instance (t : HashTable) (op : Op) : Decidable (Ok t op) := by
  unfold Ok
  split <;> infer_instance

/-! ## Walks -/

section Walks

variable {staAddr : MacAddr} {assocId : UInt16} {l : List Nat} {ptr : Option Nat} {fuel : Nat}

theorem lookupLoop_eq (h : Linked t.next ptr l none) (hfuel : l.length ≤ fuel) :
    lookupLoop t staAddr fuel ptr = some (l.find? fun p => decide (staAddr = t.addr p)) := by
  induction l generalizing ptr fuel with
  | nil => obtain rfl : ptr = none := h; rw [lookupLoop, find?_nil]
  | cons p l ih =>
    obtain ⟨rfl, hrest⟩ := h
    obtain ⟨n, rfl⟩ := Nat.exists_eq_succ_of_ne_zero (Nat.ne_zero_of_lt hfuel)
    rw [lookupLoop, find?_cons]
    by_cases haddr : staAddr = (t.pDphNodeArray p).staAddr
    · rw [if_pos haddr, decide_eq_true (p := staAddr = t.addr p) haddr]
    · rw [if_neg haddr, decide_eq_false (p := staAddr = t.addr p) haddr]
      exact ih hrest (Nat.le_of_succ_le_succ hfuel)

theorem addLoop_eq (h : Linked t.next ptr l none) (hnd : l.Nodup) (hfuel : l.length ≤ fuel) :
    addLoop t staAddr assocId fuel ptr = some (decide (∀ p ∈ l,
      ¬(staAddr = t.addr p ∨ (t.pDphNodeArray p).assocId = assocId))) := by
  induction l generalizing ptr fuel with
  | nil =>
    obtain rfl : ptr = none := h
    rw [addLoop]; exact congrArg some (decide_eq_true (fun p hp => nomatch hp)).symm
  | cons p l ih =>
    have hself := linked_next_ne h hnd mem_cons_self
    obtain ⟨rfl, hrest⟩ := h
    obtain ⟨n, rfl⟩ := Nat.exists_eq_succ_of_ne_zero (Nat.ne_zero_of_lt hfuel)
    rw [addLoop, if_neg (show (t.pDphNodeArray p).next ≠ some p from hself)]
    by_cases hdup : staAddr = (t.pDphNodeArray p).staAddr ∨
        (t.pDphNodeArray p).assocId = assocId
    · rw [if_pos hdup]
      refine congrArg some (decide_eq_false fun hall => ?_).symm
      exact hall p mem_cons_self hdup
    · rw [if_neg hdup]
      have hwalk := ih hrest (nodup_cons.mp hnd).2 (Nat.le_of_succ_le_succ hfuel)
      refine hwalk.trans (congrArg some ?_)
      rw [decide_eq_decide, forall_mem_cons]
      exact ⟨fun hall => ⟨hdup, hall⟩, fun hall => hall.2⟩

theorem deleteLoop_eq {l₁ l₂ : List Nat} {a : Nat} {prev : Option Nat}
    (h : Linked t.next ptr (l₁ ++ a :: l₂) none) (hnd : (l₁ ++ a :: l₂).Nodup)
    (hprev : ∀ p ∈ prev, p ∉ l₁ ++ a :: l₂) (ha : staAddr = t.addr a)
    (hbefore : ∀ p ∈ l₁, staAddr ≠ t.addr p) (hfuel : l₁.length < fuel) :
    deleteLoop t staAddr fuel prev ptr = some (some ((prev :: l₁.map some).getLast
      (cons_ne_nil _ _), a)) := by
  induction l₁ generalizing ptr prev fuel with
  | nil =>
    obtain ⟨rfl, -⟩ := h
    obtain ⟨n, rfl⟩ := Nat.exists_eq_succ_of_ne_zero (Nat.ne_zero_of_lt hfuel)
    exact if_pos ha
  | cons p l₁ ih =>
    obtain ⟨rfl, hrest⟩ := h
    obtain ⟨n, rfl⟩ := Nat.exists_eq_succ_of_ne_zero (Nat.ne_zero_of_lt hfuel)
    have hne : staAddr ≠ (t.pDphNodeArray p).staAddr := hbefore p mem_cons_self
    have hself : prev ≠ some p := fun hp => hprev p hp mem_cons_self
    obtain ⟨hp, hnd⟩ := nodup_cons.mp hnd
    rw [deleteLoop, if_neg hne, if_neg hself]
    refine (ih hrest hnd ?_ ?_ (Nat.lt_of_succ_lt_succ hfuel)).trans ?_
    · intro q hq
      cases hq
      exact hp
    · exact fun q hq => hbefore q (mem_cons_of_mem p hq)
    · rw [map_cons, getLast_cons_cons]

theorem deleteLoop_none {prev : Option Nat} (h : Linked t.next ptr l none) (hnd : l.Nodup)
    (hprev : ∀ p ∈ prev, p ∉ l) (hnone : ∀ p ∈ l, staAddr ≠ t.addr p) (hfuel : l.length ≤ fuel) :
    deleteLoop t staAddr fuel prev ptr = some none := by
  induction l generalizing ptr prev fuel with
  | nil => obtain rfl : ptr = none := h; rw [deleteLoop]
  | cons p l ih =>
    obtain ⟨rfl, hrest⟩ := h
    obtain ⟨n, rfl⟩ := Nat.exists_eq_succ_of_ne_zero (Nat.ne_zero_of_lt hfuel)
    have hne : staAddr ≠ (t.pDphNodeArray p).staAddr := hnone p mem_cons_self
    have hself : prev ≠ some p := fun hp => hprev p hp mem_cons_self
    obtain ⟨hp, hnd⟩ := nodup_cons.mp hnd
    rw [deleteLoop, if_neg hne, if_neg hself]
    apply ih hrest hnd ?_ ?_ (Nat.le_of_succ_le_succ hfuel)
    · intro q hq
      cases hq
      exact hp
    · exact fun q hq => hnone q (mem_cons_of_mem p hq)

end Walks

/-! ## Looking up -/

theorem hash_lt (staAddr : MacAddr) (hpos : 0 < t.size) : hash_function staAddr t.size < t.size :=
  Nat.mod_lt _ hpos

theorem Chained.length_le {i : Nat} {l : List Nat} (h : Chained t i l) : l.length ≤ t.size := by
  have hsub : l ⊆ range t.size := fun p hp => mem_range.mpr ((h.mem p).mp hp).1.1
  have hle := (h.nodup.subperm hsub).length_le
  rwa [length_range] at hle

theorem Good.lookup (h : Good t) (hpos : 0 < t.size) (staAddr : MacAddr) :
    ∃ r, dph_lookup_hash_entry t staAddr = some r ∧ ∀ p assocId, r = some (p, assocId) ↔
      t.Added p ∧ t.addr p = staAddr ∧ assocId = (t.pDphNodeArray p).assocId := by
  obtain ⟨l, hl⟩ := h.chain _ (hash_lt staAddr hpos)
  refine ⟨(l.find? fun p => decide (staAddr = t.addr p)).map fun p =>
    (p, (t.pDphNodeArray p).assocId), ?_, ?_⟩
  · rw [dph_lookup_hash_entry, lookupLoop_eq hl.linked hl.length_le, map_some]
  intro p assocId
  rw [map_eq_some_iff]
  constructor
  · rintro ⟨q, hfind, heq⟩
    have haddr := of_decide_eq_true (find?_some (p := fun p => decide (staAddr = t.addr p)) hfind)
    have hadded := ((hl.mem q).mp (mem_of_find?_eq_some hfind)).1
    obtain ⟨rfl, rfl⟩ := Prod.mk.inj heq
    exact ⟨hadded, haddr.symm, rfl⟩
  · rintro ⟨hadded, rfl, rfl⟩
    have hmem : p ∈ l := (hl.mem p).mpr ⟨hadded, rfl⟩
    have hsome : (l.find? fun q => decide (t.addr p = t.addr q)).isSome := by
      rw [find?_isSome]; exact ⟨p, hmem, decide_eq_true rfl⟩
    obtain ⟨q, hfind⟩ := isSome_iff_exists.mp hsome
    have haddr := of_decide_eq_true (find?_some (p := fun q => decide (t.addr p = t.addr q)) hfind)
    have hq := ((hl.mem q).mp (mem_of_find?_eq_some hfind)).1
    obtain rfl := h.distinct hadded hq haddr
    exact ⟨p, hfind, rfl⟩

theorem Good.get (h : Good t) {p : Nat} (hp : t.Added p) :
    dph_get_hash_entry t (t.pDphNodeArray p).assocId = some p := by
  rw [dph_get_hash_entry, h.assocId p hp.1, if_pos hp.1, if_pos hp.2]

/-! ## One entry changes -/

/-- The tables have the same stations, but for the entry `p`. -/
structure SameBut (p : Nat) (t t' : HashTable) : Prop where
  size : t'.size = t.size
  added : ∀ q, q ≠ p → (t'.Added q ↔ t.Added q)
  addr : ∀ q, q ≠ p → t'.addr q = t.addr q
  assocId : ∀ q < t.size, (t'.pDphNodeArray q).assocId.toNat = (t.pDphNodeArray q).assocId.toNat

theorem SameBut.mem {p q i : Nat} {l : List Nat} (h : SameBut p t t') (hl : Chained t i l)
    (hq : q ≠ p) : q ∈ l ↔ t'.Added q ∧ hash_function (t'.addr q) t'.size = i := by
  rw [hl.mem q, h.added q hq, h.addr q hq, h.size]

theorem Good.of_sameBut {p : Nat} (h : Good t) (hs : SameBut p t t')
    (hchain : ∀ i < t.size, ∃ l, Chained t' i l)
    (hdup : t'.Added p → ∀ q, q ≠ p → t.Added q → t.addr q ≠ t'.addr p) : Good t' := by
  refine ⟨fun i hi => hchain i (hs.size ▸ hi), fun {q r} hq hr haddr => ?_, fun q hq => ?_⟩
  · by_cases hqp : q = p
    · subst hqp
      by_contra hne
      have hr' := (hs.added r (Ne.symm hne)).mp hr
      rw [hs.addr r (Ne.symm hne)] at haddr; exact hdup hq r (Ne.symm hne) hr' haddr.symm
    · by_cases hrp : r = p
      · subst hrp
        rw [hs.addr q hqp] at haddr; exact absurd haddr (hdup hr q hqp ((hs.added q hqp).mp hq))
      · rw [hs.addr q hqp, hs.addr r hrp] at haddr
        exact h.distinct ((hs.added q hqp).mp hq) ((hs.added r hrp).mp hr) haddr
  · rw [hs.size] at hq; rw [hs.assocId q hq, h.assocId q hq]

/-! ## Adding -/

section Set

variable {p q i : Nat} {n : HashNode}

theorem HashTable.setNode_self : (t.setNode p n).pDphNodeArray p = n := update_self _ _ _

theorem HashTable.setNode_ne (h : q ≠ p) : (t.setNode p n).pDphNodeArray q = t.pDphNodeArray q :=
  update_of_ne h _ _

theorem HashTable.next_setNode : (t.setNode p n).next = update t.next p n.next := by
  funext q
  by_cases hq : q = p
  · rw [hq, update_self, HashTable.next, HashTable.setNode_self]
  · rw [update_of_ne hq, HashTable.next, HashTable.setNode_ne hq, HashTable.next]

theorem sameBut_setNode (h : Good t) (hid : n.assocId.toNat = p) : SameBut p t (t.setNode p n) := by
  refine ⟨rfl, fun q hq => ?_, fun q hq => ?_, fun q hq => ?_⟩
  · rw [HashTable.Added, HashTable.setNode_ne hq]; rfl
  · rw [HashTable.addr, HashTable.setNode_ne hq, HashTable.addr]
  · by_cases hqp : q = p
    · rw [hqp, HashTable.setNode_self, hid, h.assocId p (hqp ▸ hq)]
    · rw [HashTable.setNode_ne hqp]

theorem Good.insert (h : Good t) (hp : p < t.size) (hnew : ¬t.Added p) (hadded : n.added = true)
    (hid : n.assocId.toNat = p) (hbin : hash_function n.staAddr t.size = i)
    (hnext : n.next = t.pHashTable i) (hdup : ∀ q, t.Added q → t.addr q ≠ n.staAddr) :
    Good ((t.setNode p n).setHead i (some p)) := by
  have hsame := sameBut_setNode h hid
  have hpadd : (t.setNode p n).Added p := ⟨hp, by rw [HashTable.setNode_self, hadded]⟩
  have hpaddr : (t.setNode p n).addr p = n.staAddr := by rw [HashTable.addr, HashTable.setNode_self]
  refine h.of_sameBut (p := p) ⟨hsame.size, hsame.added, hsame.addr, hsame.assocId⟩ ?_ ?_
  · intro j hj
    obtain ⟨l, hl⟩ := h.chain j hj
    have hpl : p ∉ l := fun hmem => hnew ((hl.mem p).mp hmem).1
    have hlinked : ∀ r, Linked (t.setNode p n).next r l none ↔ Linked t.next r l none := by
      intro r
      rw [HashTable.next_setNode]; exact linked_update_of_notMem hpl
    by_cases hji : j = i
    · subst hji
      refine ⟨p :: l, ⟨?_, nodup_cons.mpr ⟨hpl, hl.nodup⟩, fun q => ?_⟩⟩
      · refine ⟨update_self _ _ _, (hlinked _).mpr ?_⟩
        rw [HashTable.setHead, HashTable.next, HashTable.setNode_self, hnext]; exact hl.linked
      · by_cases hq : q = p
        · subst hq; exact ⟨fun _ => ⟨hpadd, hpaddr ▸ hbin⟩, fun _ => mem_cons_self⟩
        · rw [mem_cons, or_iff_right hq]; exact hsame.mem hl hq
    · refine ⟨l, ⟨?_, hl.nodup, fun q => ?_⟩⟩
      · have hhead : ((t.setNode p n).setHead i (some p)).pHashTable j = t.pHashTable j :=
          update_of_ne hji _ _
        rw [hhead]; exact (hlinked _).mpr hl.linked
      · by_cases hq : q = p
        · subst hq
          refine ⟨fun hmem => absurd hmem hpl, fun hmem => absurd ?_ hji⟩
          rw [← hmem.2, ← hbin, ← hpaddr]; rfl
        · exact hsame.mem hl hq
  · intro _ q _ hq; exact hpaddr ▸ hdup q hq

theorem Good.reinit (h : Good t) (hp : t.Added p) (hadded : n.added = true)
    (hid : n.assocId.toNat = p) (hnext : n.next = t.next p)
    (hbin : hash_function n.staAddr t.size = hash_function (t.addr p) t.size)
    (hdup : ∀ q, q ≠ p → t.Added q → t.addr q ≠ n.staAddr) : Good (t.setNode p n) := by
  have hsame := sameBut_setNode h hid
  have hpadd : (t.setNode p n).Added p := ⟨hp.1, by rw [HashTable.setNode_self, hadded]⟩
  have hpaddr : (t.setNode p n).addr p = n.staAddr := by rw [HashTable.addr, HashTable.setNode_self]
  refine h.of_sameBut hsame ?_ fun _ => hpaddr ▸ hdup
  intro j hj
  obtain ⟨l, hl⟩ := h.chain j hj
  refine ⟨l, ⟨?_, hl.nodup, fun q => ?_⟩⟩
  · rw [HashTable.next_setNode, hnext, update_eq_self]; exact hl.linked
  · by_cases hq : q = p
    · subst hq
      rw [hl.mem q, hpaddr, hsame.size, hbin]
      exact ⟨fun hmem => ⟨hpadd, hmem.2⟩, fun hmem => ⟨hp, hmem.2⟩⟩
    · exact hsame.mem hl hq

end Set

section Add

variable {assocId : UInt16}

theorem get_node_eq (hsize : t.size ≤ 256) (h : assocId.toNat < t.size) :
    get_node assocId.toUInt8 = assocId.toNat := by
  rw [get_node, UInt16.toNat_toUInt8, Nat.mod_eq_of_lt (by omega)]

theorem dph_init_sta_state_eq (hsize : t.size ≤ 256) (h : assocId.toNat < t.size)
    (staAddr : MacAddr) (validStaIdx : Bool) (frag : Option UInt32) :
    ∃ n : HashNode, n.added = true ∧ n.assocId = assocId ∧ n.staAddr = staAddr ∧
      n.next = t.next assocId.toNat ∧
      dph_init_sta_state t staAddr assocId validStaIdx frag =
        (some assocId.toNat, t.setNode assocId.toNat n) := by
  unfold dph_init_sta_state
  rw [if_neg (Nat.not_le.mpr h), get_node_eq hsize h]
  refine ⟨_, ?_, ?_, ?_, ?_, rfl⟩
  all_goals rfl

theorem HashTable.setNode_setNode {p : Nat} {m n : HashNode} :
    (t.setNode p m).setNode p n = t.setNode p n := by simp only [HashTable.setNode, update_idem]

theorem Good.add_cases (h : Good t) (hpos : 0 < t.size) (hsize : t.size ≤ 256)
    (staAddr : MacAddr) (assocId : UInt16) (frag : Option UInt32) :
    dph_add_hash_entry t staAddr assocId frag = some (none, t) ∨
      ∃ t', dph_add_hash_entry t staAddr assocId frag = some (some assocId.toNat, t') ∧
        Good t' ∧ t'.size = t.size := by
  rw [dph_add_hash_entry]
  split
  · exact .inl rfl
  next hlt =>
  split
  · exact .inl rfl
  next hadded =>
  have hlt := Nat.not_le.mp hlt
  obtain ⟨l, hl⟩ := h.chain _ (hash_lt staAddr hpos)
  rw [addLoop_eq hl.linked hl.nodup hl.length_le, map_some]
  by_cases hdup : ∀ p ∈ l, ¬(staAddr = t.addr p ∨ (t.pDphNodeArray p).assocId = assocId)
  · rw [if_pos (decide_eq_true hdup)]
    obtain ⟨n, hnadd, hnid, hnaddr, -, heq⟩ :=
      dph_init_sta_state_eq hsize hlt staAddr false frag
    rw [heq]
    dsimp only
    rw [HashTable.setNode_setNode, HashTable.setNode_self]
    refine .inr ⟨_, congrArg (fun r => some (r, _)) (update_self _ _ _), ?_, rfl⟩
    refine h.insert hlt (fun hin => hadded hin.2) hnadd (congrArg UInt16.toNat hnid)
      (congrArg (hash_function · t.size) hnaddr) rfl ?_
    -- an entry with the address would be in the chain
    intro q hq haddr
    rw [show _ = staAddr from hnaddr] at haddr
    have hmem : q ∈ l := (hl.mem q).mpr ⟨hq, congrArg (hash_function · t.size) haddr⟩
    exact hdup q hmem (.inl haddr.symm)
  · rw [if_neg (by simpa using hdup)]; exact .inl rfl

theorem Good.add (h : Good t) (hpos : 0 < t.size) (hsize : t.size ≤ 256) {staAddr : MacAddr}
    (hlt : assocId.toNat < t.size) (hfree : ¬t.Added assocId.toNat)
    (hnew : ∀ q, t.Added q → t.addr q ≠ staAddr) (frag : Option UInt32) :
    ∃ t', dph_add_hash_entry t staAddr assocId frag = some (some assocId.toNat, t') ∧ Good t' ∧
      SameBut assocId.toNat t t' ∧ t'.Added assocId.toNat ∧ t'.addr assocId.toNat = staAddr := by
  obtain ⟨l, hl⟩ := h.chain _ (hash_lt staAddr hpos)
  have hnadd : ¬(t.pDphNodeArray assocId.toNat).added = true := fun hadd => hfree ⟨hlt, hadd⟩
  have hwalk : ∀ p ∈ l, ¬(staAddr = t.addr p ∨ (t.pDphNodeArray p).assocId = assocId) := by
    rintro p hp (haddr | hid)
    · exact hnew p ((hl.mem p).mp hp).1 haddr.symm
    · -- an entry with the association id would be the free one
      have hadd := ((hl.mem p).mp hp).1
      have hpid := h.assocId p hadd.1
      rw [hid] at hpid; exact hfree (hpid ▸ hadd)
  obtain ⟨n, hnadded, hnid, hnaddr, -, heq⟩ := dph_init_sta_state_eq hsize hlt staAddr false frag
  let n' : HashNode := { n with next := t.pHashTable (hash_function staAddr t.size) }
  have hsame : SameBut assocId.toNat t (t.setNode assocId.toNat n') :=
    sameBut_setNode h (congrArg UInt16.toNat hnid)
  have hgood := h.insert (n := n') hlt hfree hnadded (congrArg UInt16.toNat hnid)
    (congrArg (hash_function · t.size) hnaddr) rfl fun q hq => hnaddr.symm ▸ hnew q hq
  refine ⟨_, ?_, hgood, ?_, ?_, ?_⟩
  · rw [dph_add_hash_entry]
    rw [if_neg (Nat.not_le.mpr hlt), if_neg hnadd, addLoop_eq hl.linked hl.nodup hl.length_le,
      map_some, if_pos (decide_eq_true hwalk), heq]
    dsimp only
    rw [HashTable.setNode_setNode, HashTable.setNode_self]
    exact congrArg (fun r => some (r, _)) (update_self _ _ _)
  · exact ⟨hsame.size, hsame.added, hsame.addr, hsame.assocId⟩
  · refine ⟨hlt, ?_⟩
    rw [HashTable.setHead, HashTable.setNode_self]; exact hnadded
  · rw [HashTable.addr, HashTable.setHead, HashTable.setNode_self]; exact hnaddr

end Add

/-! ## Deleting -/

/-- The entry `a` of the chain `i` is out of the table. The others stay as they are, but for their
pointers. -/
structure Unlinked (i a : Nat) (l₁ l₂ : List Nat) (t t' : HashTable) : Prop where
  size : t'.size = t.size
  node : ∀ q, q ≠ a → { t'.pDphNodeArray q with next := t.next q } = t.pDphNodeArray q
  added : (t'.pDphNodeArray a).added = false
  assocId : (t'.pDphNodeArray a).assocId = (t.pDphNodeArray a).assocId
  linked : Linked t'.next (t'.pHashTable i) (l₁ ++ l₂) none
  head : ∀ j, j ≠ i → t'.pHashTable j = t.pHashTable j
  next : ∀ q, q ∉ l₁ ++ a :: l₂ → t'.next q = t.next q

section Delete

variable {i a : Nat} {l₁ l₂ : List Nat}

theorem unlinked_head (hl : Chained t i (a :: l₂)) :
    Unlinked i a [] l₂ t (unlinkNode t i none a) := by
  have ha : a ∉ l₂ := (nodup_cons.mp hl.nodup).1
  have hnext : (unlinkNode t i none a).next = update t.next a none := by
    rw [unlinkNode, HashTable.next_setNode]
    exact (congrArg (update · a none) HashTable.next_setNode).trans (update_idem _ _ _)
  refine ⟨rfl, fun q hq => ?_, ?_, ?_, ?_, fun j hj => update_of_ne hj _ _, fun q hq => ?_⟩
  · have hnode : (unlinkNode t i none a).pDphNodeArray q = t.pDphNodeArray q :=
      (HashTable.setNode_ne hq).trans (HashTable.setNode_ne hq)
    rw [hnode]; rfl
  · rw [unlinkNode, HashTable.setNode_self]
  · rw [unlinkNode, HashTable.setNode_self]
    change ((t.setNode a _).pDphNodeArray a).assocId = _
    rw [HashTable.setNode_self]
  · have hhead : (unlinkNode t i none a).pHashTable i = t.next a := update_self _ _ _
    rw [hnext, hhead]; exact (linked_update_of_notMem ha).mpr hl.linked.2
  · rw [hnext, update_of_ne]
    rintro rfl; exact hq mem_cons_self

theorem unlinked_after {b : Nat} (hl : Chained t i (l₁ ++ [b] ++ a :: l₂)) :
    Unlinked i a (l₁ ++ [b]) l₂ t (unlinkNode t i (some b) a) := by
  have hdisj := disjoint_of_nodup_append hl.nodup
  have hba : b ≠ a := by
    rintro rfl; exact hdisj (mem_append_right _ (mem_singleton_self b)) mem_cons_self
  have ha : a ∉ l₁ ++ [b] ++ l₂ := by
    intro hmem
    rcases mem_append.mp hmem with hleft | hright
    · exact hdisj hleft mem_cons_self
    · exact (nodup_cons.mp (List.Nodup.of_append_right hl.nodup)).1 hright
  have hnext : (unlinkNode t i (some b) a).next = update (update t.next b (t.next a)) a none := by
    rw [unlinkNode, HashTable.next_setNode, HashTable.next_setNode, HashTable.next_setNode]
    rw [update_comm hba.symm, update_idem]; rfl
  refine ⟨rfl, fun q hq => ?_, ?_, ?_, ?_, fun j hj => rfl, fun q hq => ?_⟩
  · by_cases hqb : q = b
    · subst hqb
      rw [unlinkNode, HashTable.setNode_ne hq, HashTable.setNode_self, HashTable.setNode_ne hq]
      rfl
    · rw [unlinkNode, HashTable.setNode_ne hq, HashTable.setNode_ne hqb, HashTable.setNode_ne hq]
      rfl
  · rw [unlinkNode, HashTable.setNode_self]
  · rw [unlinkNode, HashTable.setNode_self]
    rw [HashTable.setNode_ne hba.symm, HashTable.setNode_self]
  · rw [hnext, linked_update_of_notMem ha]; exact linked_unlink hl.linked hl.nodup
  · rw [hnext, update_of_ne, update_of_ne]
    · rintro rfl; exact hq (mem_append_left _ (mem_append_right _ (mem_singleton_self q)))
    · rintro rfl; exact hq (mem_append_right _ mem_cons_self)

theorem unlinked_unlinkNode (hl : Chained t i (l₁ ++ a :: l₂)) :
    Unlinked i a l₁ l₂ t (unlinkNode t i ((none :: l₁.map some).getLast (cons_ne_nil _ _)) a) := by
  rcases eq_nil_or_concat l₁ with rfl | ⟨l₀, b, rfl⟩
  · exact unlinked_head hl
  · rw [concat_eq_append] at hl ⊢
    have hlast : (none :: (l₀ ++ [b]).map some).getLast (cons_ne_nil _ _) = some b := by
      simp only [map_append, map_cons, map_nil, ← cons_append, getLast_append_singleton]
    rw [hlast]; exact unlinked_after hl

theorem Unlinked.sameBut (h : Unlinked i a l₁ l₂ t t') : SameBut a t t' := by
  refine ⟨h.size, fun q hq => ?_, fun q hq => ?_, fun q _ => ?_⟩
  · rw [HashTable.Added, HashTable.Added, h.size, ← h.node q hq]
  · rw [HashTable.addr, HashTable.addr, ← h.node q hq]
  · by_cases hq : q = a
    · rw [hq, h.assocId]
    · rw [← h.node q hq]

theorem Unlinked.good (h : Unlinked i a l₁ l₂ t t') (hl : Chained t i (l₁ ++ a :: l₂))
    (hgood : Good t) : Good t' := by
  have hsame := h.sameBut
  have hout : ¬t'.Added a := fun hadd => by
    rw [HashTable.Added, h.added] at hadd; exact Bool.false_ne_true hadd.2
  refine hgood.of_sameBut hsame ?_ fun hadd => absurd hadd hout
  intro j hj
  by_cases hji : j = i
  · subst hji
    have hsub : (l₁ ++ l₂).Sublist (l₁ ++ a :: l₂) :=
      (Sublist.refl l₁).append (sublist_cons_self a l₂)
    refine ⟨l₁ ++ l₂, h.linked, hl.nodup.sublist hsub, fun q => ?_⟩
    by_cases hq : q = a
    · subst hq
      refine ⟨fun hmem => absurd hmem ?_, fun hmem => absurd hmem.1 hout⟩
      rw [mem_append, not_or]
      have hdisj := disjoint_of_nodup_append hl.nodup
      exact ⟨fun hleft => hdisj hleft mem_cons_self,
        (nodup_cons.mp (List.Nodup.of_append_right hl.nodup)).1⟩
    · rw [← hsame.mem hl hq, mem_append, mem_append, mem_cons, or_iff_right hq]
  · obtain ⟨l, hlj⟩ := hgood.chain j hj
    -- no entry is in two chains
    have hapart : ∀ q ∈ l, q ∉ l₁ ++ a :: l₂ := fun q hq hqi =>
      hji (((hlj.mem q).mp hq).2.symm.trans ((hl.mem q).mp hqi).2)
    have hal : a ∉ l := fun hal => hapart a hal (mem_append_right _ mem_cons_self)
    refine ⟨l, ?_, hlj.nodup, fun q => ?_⟩
    · rw [h.head j hji, linked_congr fun q hq => h.next q (hapart q hq)]; exact hlj.linked
    · by_cases hq : q = a
      · subst hq; exact ⟨fun hmem => absurd hmem hal, fun hmem => absurd hmem.1 hout⟩
      · exact hsame.mem hlj hq

theorem Good.deleteLoop_added (h : Good t) (ha : t.Added a) :
    ∃ l₁ l₂, Chained t (hash_function (t.addr a) t.size) (l₁ ++ a :: l₂) ∧
      deleteLoop t (t.addr a) t.size none (t.pHashTable (hash_function (t.addr a) t.size)) =
        some (some ((none :: l₁.map some).getLast (cons_ne_nil _ _), a)) := by
  obtain ⟨l, hl⟩ := h.chain _ (hash_lt (t.addr a) (Nat.zero_lt_of_lt ha.1))
  have hlen := hl.length_le
  obtain ⟨l₁, l₂, rfl⟩ := append_of_mem ((hl.mem a).mpr ⟨ha, rfl⟩)
  have hbefore : ∀ p ∈ l₁, t.addr a ≠ t.addr p := by
    intro p hp haddr
    have hpadd := ((hl.mem p).mp (mem_append_left _ hp)).1
    obtain rfl := h.distinct hpadd ha haddr.symm
    exact disjoint_of_nodup_append hl.nodup hp mem_cons_self
  have hfuel : l₁.length < t.size := by rw [length_append, length_cons] at hlen; omega
  have hprev : ∀ p ∈ (none : Option Nat), p ∉ l₁ ++ a :: l₂ := by intro p hp; cases hp
  exact ⟨l₁, l₂, hl, deleteLoop_eq hl.linked hl.nodup hprev rfl hbefore hfuel⟩

theorem Good.delete_cases (h : Good t) (hpos : 0 < t.size) (staAddr : MacAddr) (assocId : UInt16) :
    dph_delete_hash_entry t staAddr assocId = some (false, t) ∨
      ∃ i a l₁ l₂ t', dph_delete_hash_entry t staAddr assocId = some (true, t') ∧
        t.Added a ∧ t.addr a = staAddr ∧ Unlinked i a l₁ l₂ t t' ∧ Good t' := by
  rw [dph_delete_hash_entry]
  split
  · exact .inl rfl
  split
  · exact .inl rfl
  by_cases hex : ∃ a, t.Added a ∧ t.addr a = staAddr
  · obtain ⟨a, hadd, rfl⟩ := hex
    obtain ⟨l₁, l₂, hl, hwalk⟩ := h.deleteLoop_added hadd
    have hun := unlinked_unlinkNode hl
    rw [hwalk, map_some]; exact .inr ⟨_, a, l₁, l₂, _, rfl, hadd, rfl, hun, hun.good hl h⟩
  · obtain ⟨l, hl⟩ := h.chain _ (hash_lt staAddr hpos)
    have hnone : ∀ p ∈ l, staAddr ≠ t.addr p := fun p hp haddr =>
      hex ⟨p, ((hl.mem p).mp hp).1, haddr.symm⟩
    have hprev : ∀ p ∈ (none : Option Nat), p ∉ l := by intro p hp; cases hp
    rw [deleteLoop_none hl.linked hl.nodup hprev hnone hl.length_le, map_some]; exact .inl rfl

theorem Good.delete (h : Good t) (ha : t.Added a) :
    ∃ t', dph_delete_hash_entry t (t.addr a) (t.pDphNodeArray a).assocId = some (true, t') ∧
      Good t' ∧ SameBut a t t' ∧ ¬t'.Added a := by
  obtain ⟨l₁, l₂, hl, hwalk⟩ := h.deleteLoop_added ha
  have hun := unlinked_unlinkNode hl
  refine ⟨_, ?_, hun.good hl h, hun.sameBut, fun hadd => ?_⟩
  · rw [dph_delete_hash_entry, h.assocId a ha.1, if_neg (Nat.not_le.mpr ha.1), if_neg (by simp [ha.2]),
      hwalk, map_some]
  · rw [HashTable.Added, hun.added] at hadd; exact Bool.false_ne_true hadd.2

end Delete

/-! ## Runs -/

/-- A station is found by its address, and again by the association id this gives. -/
def Found (t : HashTable) : Prop :=
  ∀ staAddr, ∃ r, dph_lookup_hash_entry t staAddr = some r ∧ ∀ p assocId,
    (r = some (p, assocId) ↔
      t.Added p ∧ t.addr p = staAddr ∧ assocId = (t.pDphNodeArray p).assocId) ∧
    (r = some (p, assocId) → dph_get_hash_entry t assocId = some p)

def FoundByIndex (t : HashTable) : Prop :=
  ∀ staIdx, ∃ r, dph_lookup_assoc_id t staIdx = some r ∧
    ∀ p, r = some p → t.Added p ∧ (t.pDphNodeArray p).staIndex = staIdx

def DeletesOne (t : HashTable) : Prop :=
  ∀ staAddr assocId, ∃ ok t', dph_delete_hash_entry t staAddr assocId = some (ok, t') ∧
    (ok = true → dph_lookup_hash_entry t' staAddr = some none ∧
      ∀ other, other ≠ staAddr →
        dph_lookup_hash_entry t' other = dph_lookup_hash_entry t other ∧
        ∀ p id, dph_lookup_hash_entry t other = some (some (p, id)) →
          { t'.pDphNodeArray p with next := t.next p } = t.pDphNodeArray p)

def FailsUnchanged (t : HashTable) : Prop :=
  (∀ staAddr assocId frag, ∃ r t', dph_add_hash_entry t staAddr assocId frag = some (r, t') ∧
    (r = none → t' = t)) ∧
  (∀ staAddr assocId, ∃ ok t', dph_delete_hash_entry t staAddr assocId = some (ok, t') ∧
    (ok = false → t' = t)) ∧
  ∀ staAddr assocId validStaIdx frag,
    (dph_init_sta_state t staAddr assocId validStaIdx frag).1 = none →
      (dph_init_sta_state t staAddr assocId validStaIdx frag).2 = t

theorem Good.found (h : Good t) (hpos : 0 < t.size) : Found t := by
  intro staAddr
  obtain ⟨r, hr, hiff⟩ := h.lookup hpos staAddr
  refine ⟨r, hr, fun p assocId => ⟨hiff p assocId, fun heq => ?_⟩⟩
  obtain ⟨hadded, -, rfl⟩ := (hiff p assocId).mp heq
  exact h.get hadded

theorem foundByIndex (hsize : t.size ≤ 255) : FoundByIndex t := by
  intro staIdx
  rw [dph_lookup_assoc_id]
  split
  next i hfind =>
    refine ⟨some i, rfl, fun p hp => ?_⟩
    cases hp
    have hlt := mem_range.mp (mem_of_find?_eq_some hfind)
    have hi := find?_some hfind
    rw [Bool.and_eq_true] at hi; exact ⟨⟨by omega, hi.1⟩, of_decide_eq_true hi.2⟩
  next => refine ⟨none, if_pos (by omega), fun p hp => ?_⟩; cases hp

theorem Good.deletesOne (h : Good t) (hpos : 0 < t.size) : DeletesOne t := by
  intro staAddr assocId
  rcases h.delete_cases hpos staAddr assocId with
    hfail | ⟨i, a, l₁, l₂, t', heq, hadded, haddr, hun, hgood⟩
  · exact ⟨false, t, hfail, nofun⟩
  have hsame := hun.sameBut
  have hpos' : 0 < t'.size := by rwa [hun.size]
  have hout : ¬t'.Added a := fun hadd => by
    rw [HashTable.Added, hun.added] at hadd; exact Bool.false_ne_true hadd.2
  refine ⟨true, t', heq, fun _ => ⟨?_, fun other hother => ⟨?_, fun p id hfound => ?_⟩⟩⟩
  · obtain ⟨r, hr, hiff⟩ := hgood.lookup hpos' staAddr
    rcases r with _ | ⟨p, id⟩
    · exact hr
    · -- a station with the address would have been there before
      obtain ⟨hp, hpaddr, -⟩ := (hiff p id).mp rfl
      have hpa : p ≠ a := fun heq => hout (heq ▸ hp)
      rw [hsame.addr p hpa, ← haddr] at hpaddr
      exact absurd (h.distinct ((hsame.added p hpa).mp hp) hadded hpaddr) hpa
  · obtain ⟨r, hr, hiff⟩ := h.lookup hpos other
    obtain ⟨r', hr', hiff'⟩ := hgood.lookup hpos' other
    rw [hr, hr', some.injEq]
    apply Option.ext
    rintro ⟨p, id⟩
    rw [hiff p id, hiff' p id]
    by_cases hpa : p = a
    · subst hpa
      exact ⟨fun hp => absurd hp.1 hout, fun hp => absurd (hp.2.1.symm.trans haddr) hother⟩
    · rw [hsame.added p hpa, hsame.addr p hpa, ← hun.node p hpa]
  · apply hun.node p
    rintro rfl
    obtain ⟨r, hr, hiff⟩ := h.lookup hpos other
    rw [hr, some.injEq] at hfound; exact hother (((hiff p id).mp hfound).2.1.symm.trans haddr)

theorem Good.failsUnchanged (h : Good t) (hpos : 0 < t.size) (hsize : t.size ≤ 256) :
    FailsUnchanged t := by
  refine ⟨fun staAddr assocId frag => ?_, fun staAddr assocId => ?_,
    fun staAddr assocId validStaIdx frag hnone => ?_⟩
  · rcases h.add_cases hpos hsize staAddr assocId frag with
      heq | ⟨t', heq, -⟩
    · exact ⟨none, t, heq, fun _ => rfl⟩
    · exact ⟨some _, t', heq, nofun⟩
  · rcases h.delete_cases hpos staAddr assocId with
      heq | ⟨i, a, l₁, l₂, t', heq, -⟩
    · exact ⟨false, t, heq, fun _ => rfl⟩
    · exact ⟨true, t', heq, nofun⟩
  · by_cases hlt : t.size ≤ assocId.toNat
    · unfold dph_init_sta_state; rw [if_pos hlt]
    · obtain ⟨n, -, -, -, -, heq⟩ :=
        dph_init_sta_state_eq hsize (Nat.not_le.mp hlt) staAddr validStaIdx frag
      rw [heq] at hnone
      cases hnone

theorem good_init {size : Nat} (hsize : size ≤ 255) : Good (dph_hash_table_class_init size) := by
  have hnone : ∀ p, ¬(dph_hash_table_class_init size).Added p :=
    fun p hp => Bool.false_ne_true hp.2
  refine ⟨fun i _ => ⟨[], rfl, nodup_nil, fun p => ?_⟩, fun hp => absurd hp (hnone _),
    fun p hp => ?_⟩
  · exact ⟨fun hmem => (nomatch hmem), fun hp => absurd hp.1 (hnone p)⟩
  · have hlt : p < size := hp; exact UInt16.toNat_ofNat_of_lt (show p < 2 ^ 16 by omega)

theorem Good.step (op : Op) (h : Good t) (hpos : 0 < t.size) (hsize : t.size ≤ 255)
    (hok : Ok t op) (hstep : step t op = some t') : Good t' ∧ t'.size = t.size := by
  have hsize' : t.size ≤ 256 := by omega
  cases op with
  | add staAddr assocId frag =>
    obtain ⟨⟨r, t''⟩, heq, rfl⟩ := map_eq_some_iff.mp hstep
    rcases h.add_cases hpos hsize' staAddr assocId frag with hfail | ⟨t₁, hadd, hgood, hsz⟩
    · obtain ⟨-, rfl⟩ := Prod.mk.inj (some.inj (hfail.symm.trans heq)); exact ⟨h, rfl⟩
    · obtain ⟨-, rfl⟩ := Prod.mk.inj (some.inj (hadd.symm.trans heq)); exact ⟨hgood, hsz⟩
  | delete staAddr assocId =>
    obtain ⟨⟨ok, t''⟩, heq, rfl⟩ := map_eq_some_iff.mp hstep
    rcases h.delete_cases hpos staAddr assocId with
      hfail | ⟨i, a, l₁, l₂, t₁, hdel, -, -, hun, hgood⟩
    · obtain ⟨-, rfl⟩ := Prod.mk.inj (some.inj (hfail.symm.trans heq)); exact ⟨h, rfl⟩
    · obtain ⟨-, rfl⟩ := Prod.mk.inj (some.inj (hdel.symm.trans heq)); exact ⟨hgood, hun.size⟩
  | init_sta_state staAddr assocId validStaIdx frag =>
    cases hstep
    by_cases hlt : t.size ≤ assocId.toNat
    · have hsame : (dph_init_sta_state t staAddr assocId validStaIdx frag).2 = t := by
        unfold dph_init_sta_state
        rw [if_pos hlt]
      rw [hsame]; exact ⟨h, rfl⟩
    · obtain ⟨n, hadded, hid, haddr, hnext, heq⟩ :=
        dph_init_sta_state_eq hsize' (Nat.not_le.mp hlt) staAddr validStaIdx frag
      obtain ⟨hin, hbin, hdup⟩ := hok.resolve_left hlt
      rw [heq]
      refine ⟨h.reinit hin hadded (congrArg UInt16.toNat hid) hnext (haddr ▸ hbin) ?_, rfl⟩
      intro q hq hqadd hqaddr; exact hq (hdup q hqadd.1 hqadd (hqaddr.trans haddr))
  | lookup staAddr => obtain ⟨-, -, rfl⟩ := map_eq_some_iff.mp hstep; exact ⟨h, rfl⟩
  | lookup_assoc_id staIdx => obtain ⟨-, -, rfl⟩ := map_eq_some_iff.mp hstep; exact ⟨h, rfl⟩

/-- **The station table.** In every run in which an entry is only initialised where it is, the
added entries are those of the chains. Every call returns, stations are found by address and by
association id, a deletion leaves the other stations, and a failure leaves the table. -/
theorem table_good {size : Nat} (hpos : 0 < size) (hsize : size ≤ 255) (ops : List Op)
    (h : run (guarded Ok step) (dph_hash_table_class_init size) ops = some t) :
    Good t ∧ Found t ∧ FoundByIndex t ∧ DeletesOne t ∧ FailsUnchanged t := by
  have hinv : Good t ∧ t.size = size := by
    apply guarded_run_invariant (I := fun u => Good u ∧ u.size = size) ?_ ⟨good_init hsize, rfl⟩ h
    rintro u op u' ⟨hgood, hsz⟩ hok hstep
    obtain ⟨hgood', hsz'⟩ := hgood.step op (by omega) (by omega) hok hstep
    exact ⟨hgood', hsz'.trans hsz⟩
  obtain ⟨hgood, hsz⟩ := hinv
  exact ⟨hgood, hgood.found (by omega), foundByIndex (by omega), hgood.deletesOne (by omega),
    hgood.failsUnchanged (by omega) (by omega)⟩

def macA : MacAddr := #v[2, 0, 0, 0, 0, 1]
def macB : MacAddr := #v[2, 0, 0, 0, 1, 0]

/-- Two stations of one chain; the first associates again, then the second leaves. -/
theorem table_good_reassoc :
    ∃ t, run (guarded Ok step) (dph_hash_table_class_init 33)
      [.add macA 1 none, .add macB 2 none, .init_sta_state macA 1 true none,
        .delete macB 2] = some t ∧
      dph_lookup_hash_entry t macA = some (some (1, 1)) ∧
      dph_lookup_hash_entry t macB = some none ∧
      Good t ∧ Found t ∧ FoundByIndex t ∧ DeletesOne t ∧ FailsUnchanged t := by
  refine exists_of_tested (fun t => dph_lookup_hash_entry t macA = some (some (1, 1)) ∧
      dph_lookup_hash_entry t macB = some none) (by decide +kernel) fun t ht ⟨hA, hB⟩ => ?_
  exact ⟨hA, hB, table_good (by decide) (by decide) _ ht⟩

/-- An entry that is initialised without having been added is in no chain; the station of
another one is no longer found. -/
theorem init_not_linked :
    ∃ t, run step (dph_hash_table_class_init 33)
      [.add macA 1 none, .init_sta_state #v[2, 0, 0, 0, 0, 9] 1 true none,
        .init_sta_state macB 2 true none] = some t ∧
      t.Added 1 ∧ t.Added 2 ∧ dph_lookup_hash_entry t (t.addr 1) = some none ∧
      dph_lookup_hash_entry t (t.addr 2) = some none ∧ ¬Good t := by
  refine exists_of_tested (fun t => t.size = 33 ∧ t.Added 1 ∧ t.Added 2 ∧ dph_lookup_hash_entry t
      (t.addr 1) = some none ∧ dph_lookup_hash_entry t (t.addr 2) = some none) (by decide +kernel)
      fun t ht ⟨hsize, h1, h2, hl1, hl2⟩ => ?_
  refine ⟨h1, h2, hl1, hl2, fun hgood => ?_⟩
  obtain ⟨r, hr, hiff⟩ := hgood.lookup (by omega) (t.addr 2)
  obtain rfl := some.inj (hl2.symm.trans hr)
  exact nomatch (hiff 2 _).mpr ⟨h2, rfl, rfl⟩

end Qcacld.DphTable
