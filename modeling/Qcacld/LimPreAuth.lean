/-
The pre-authentication contexts of LIM: the list functions of `lim_security_utils.c` and the table
they are taken from, in `lim_assoc_utils.c`.

A pointer to a node is its place in the table. A walk along the list takes at most as many steps as
the table has nodes; a longer one would have come to a node twice, and is cut off. Left out are the
timers of the nodes and the two bits `fTimerStarted` and `fSeen`, that only say what to do with a
timer. `log` records the authentication frames that were sent, the newest first; the code does not
have it.
-/
import Qcacld.DphTable

set_option autoImplicit false

namespace Qcacld.LimPreAuth

open Function
open DphTable

section

def SIR_MAC_AUTH_CHALLENGE_LENGTH : Nat := 128
def LIM_OPENAUTH_TIMEOUT : UInt64 := 500

def eSIR_OPEN_SYSTEM : UInt16 := 0
def eSIR_SHARED_KEY : UInt16 := 1
def eSIR_AUTO_SWITCH : UInt16 := 0x81

abbrev Challenge := Fin SIR_MAC_AUTH_CHALLENGE_LENGTH → UInt8

/-- The states of `tLimMlmStates` that a node is put in. -/
inductive NodeMlmState where
  | OFFLINE
  | WT_AUTH_FRAME3
  | AUTH_RSP_TIMEOUT
  | AUTHENTICATED
  deriving DecidableEq

structure PreAuthNode where
  next : Option Nat
  peerMacAddr : MacAddr
  authType : UInt16
  mlmState : NodeMlmState
  challengeText : Challenge
  fFree : Bool
  seq_num : UInt16
  timestamp : UInt64

structure SentAuth where
  peer : MacAddr
  authAlgoNumber : UInt16
  authTransactionSeqNumber : UInt16
  authStatusCode : UInt16
  challengeText : Option Challenge

structure LimGlobal where
  numEntry : UInt32
  pTable : Nat → PreAuthNode
  pLimPreAuthList : Option Nat
  gLimNumPreAuthContexts : UInt32
  log : List SentAuth

namespace LimGlobal

variable (c : LimGlobal)

def setNode (i : Nat) (n : PreAuthNode) : LimGlobal := { c with pTable := update c.pTable i n }

def setNext (i : Nat) (p : Option Nat) : LimGlobal := c.setNode i { c.pTable i with next := p }

def sent (m : SentAuth) : LimGlobal := { c with log := m :: c.log }

/-- The most nodes that a walk along the list can visit. -/
def fuel : Nat := c.numEntry.toNat

end LimGlobal

/-- The table as `lim_init_pre_auth_timer_table` leaves it. The nodes are zeroed when they are
allocated. -/
def lim_init_pre_auth_timer_table (numEntry : UInt32) : LimGlobal where
  numEntry := numEntry
  pTable _ := ⟨none, zeroMacAddr, 0, .OFFLINE, fun _ => 0, true, 0, 0⟩
  pLimPreAuthList := none
  gLimNumPreAuthContexts := 0
  log := []

def lim_acquire_free_pre_auth_node (c : LimGlobal) : Option (Nat × LimGlobal) :=
  ((List.range c.fuel).find? fun i => (c.pTable i).fFree).map fun i =>
    (i, c.setNode i { c.pTable i with fFree := false })

def lim_get_pre_auth_node_from_index (c : LimGlobal) (authNodeIdx : Nat) : Option Nat :=
  if authNodeIdx < c.fuel then some authNodeIdx else none

def lim_add_pre_auth_node (c : LimGlobal) (i : Nat) : LimGlobal :=
  { c.setNext i c.pLimPreAuthList with
    gLimNumPreAuthContexts := c.gLimNumPreAuthContexts + 1
    pLimPreAuthList := some i }

def lim_release_pre_auth_node (c : LimGlobal) (i : Nat) : LimGlobal :=
  { c.setNode i { c.pTable i with fFree := true } with
    gLimNumPreAuthContexts := c.gLimNumPreAuthContexts - 1 }

def searchLoop (c : LimGlobal) (macAddr : MacAddr) : Nat → Option Nat → Option Nat
  | 0, _ => none
  | _ + 1, none => none
  | n + 1, some i =>
    if (c.pTable i).peerMacAddr = macAddr then some i
    else searchLoop c macAddr n (c.pTable i).next

def lim_search_pre_auth_list (c : LimGlobal) (macAddr : MacAddr) : Option Nat :=
  searchLoop c macAddr c.fuel c.pLimPreAuthList

/-- The loop of `lim_delete_pre_auth_node`, with `pPrevNode` and `pTempNode`. -/
def deleteLoop (c : LimGlobal) (macAddr : MacAddr) : Nat → Nat → Option Nat → LimGlobal
  | 0, _, _ => c
  -- "Should not be here": there was no node for the address.
  | _ + 1, _, none => c
  | n + 1, prev, some temp =>
    if (c.pTable temp).peerMacAddr = macAddr then
      lim_release_pre_auth_node (c.setNext prev (c.pTable temp).next) temp
    else deleteLoop c macAddr n temp (c.pTable temp).next

def lim_delete_pre_auth_node (c : LimGlobal) (macAddr : MacAddr) : LimGlobal :=
  match c.pLimPreAuthList with
  | none => c
  | some temp =>
    if (c.pTable temp).peerMacAddr = macAddr then
      lim_release_pre_auth_node { c with pLimPreAuthList := (c.pTable temp).next } temp
    else deleteLoop c macAddr c.fuel temp (c.pTable temp).next

def deleteListLoop : Nat → Option Nat → LimGlobal → LimGlobal
  | 0, _, c => c
  | _ + 1, none, c => c
  | n + 1, some i, c => deleteListLoop n (c.pTable i).next (lim_release_pre_auth_node c i)

def lim_delete_pre_auth_list (c : LimGlobal) : LimGlobal :=
  { deleteListLoop c.fuel c.pLimPreAuthList c with pLimPreAuthList := none }

/-- The test of `lim_delete_open_auth_pre_auth_node`; `ticks` is the system time. -/
def isStaleOpen (ticks : UInt64) (n : PreAuthNode) : Bool :=
  n.mlmState = .AUTHENTICATED && n.authType = eSIR_OPEN_SYSTEM &&
    (LIM_OPENAUTH_TIMEOUT + n.timestamp < ticks || ticks < n.timestamp)

/-- The loop of `lim_delete_open_auth_pre_auth_node`, with `prev_node`, `temp_node` and
`auth_node_freed`. -/
def deleteOpenLoop (ticks : UInt64) :
    Nat → Option Nat → Option Nat → Bool → LimGlobal → LimGlobal × Bool
  | 0, _, _, freed, c => (c, freed)
  | _ + 1, _, none, freed, c => (c, freed)
  | n + 1, prev, some temp, freed, c =>
    let next := (c.pTable temp).next
    if isStaleOpen ticks (c.pTable temp) then
      if c.pLimPreAuthList = some temp then
        deleteOpenLoop ticks n next next true
          (lim_release_pre_auth_node { c with pLimPreAuthList := next } temp)
      else
        let c := prev.elim c fun p => c.setNext p next
        deleteOpenLoop ticks n prev next true (lim_release_pre_auth_node c temp)
    else deleteOpenLoop ticks n (some temp) next freed c

def lim_delete_open_auth_pre_auth_node (c : LimGlobal) (ticks : UInt64) : LimGlobal × Bool :=
  deleteOpenLoop ticks c.fuel c.pLimPreAuthList c.pLimPreAuthList false c

end

open List
open Lib

/-! `Holds c l` says that the list of `c` goes through the nodes `l`, that these are the nodes of
the table that are not free, each once, and that the counter is their number. -/

abbrev LimGlobal.next (c : LimGlobal) (i : Nat) : Option Nat := (c.pTable i).next

abbrev LimGlobal.mac (c : LimGlobal) (i : Nat) : MacAddr := (c.pTable i).peerMacAddr

def LimGlobal.isOf (c : LimGlobal) (mac : MacAddr) (i : Nat) : Bool := c.mac i = mac

def LimGlobal.isKept (c : LimGlobal) (ticks : UInt64) (i : Nat) : Bool :=
  !isStaleOpen ticks (c.pTable i)

structure Holds (c : LimGlobal) (l : List Nat) : Prop where
  linked : Linked c.next c.pLimPreAuthList l none
  nodup : l.Nodup
  used : ∀ i, i ∈ l ↔ i < c.fuel ∧ (c.pTable i).fFree = false
  count : c.gLimNumPreAuthContexts = UInt32.ofNat l.length

def core (n : PreAuthNode) : PreAuthNode := { n with next := none, fFree := false }

structure Same (c c' : LimGlobal) : Prop where
  numEntry : c'.numEntry = c.numEntry
  node : ∀ i, core (c'.pTable i) = core (c.pTable i)
  log : c'.log = c.log

variable {c c' c'' : LimGlobal} {l l₁ l₂ : List Nat} {i a b : Nat} {n : PreAuthNode}

@[simp] theorem isOf_iff {mac : MacAddr} : c.isOf mac i = true ↔ c.mac i = mac :=
  decide_eq_true_iff

@[simp] theorem isOf_eq_false {mac : MacAddr} : c.isOf mac i = false ↔ c.mac i ≠ mac :=
  decide_eq_false_iff_not

theorem Same.refl (c : LimGlobal) : Same c c := ⟨rfl, fun _ => rfl, rfl⟩

theorem Same.trans (h : Same c c') (h' : Same c' c'') : Same c c'' :=
  ⟨h'.numEntry.trans h.numEntry, fun i => (h'.node i).trans (h.node i), h'.log.trans h.log⟩

theorem Same.fuel (h : Same c c') : c'.fuel = c.fuel := congrArg UInt32.toNat h.numEntry

theorem Same.field (h : Same c c') {β : Type} (f : PreAuthNode → β)
    (hf : ∀ n, f (core n) = f n) (i : Nat) : f (c'.pTable i) = f (c.pTable i) := by
  rw [← hf, h.node, hf]

theorem Same.mac (h : Same c c') (i : Nat) : c'.mac i = c.mac i :=
  h.field PreAuthNode.peerMacAddr (fun _ => rfl) i

theorem Same.challengeText (h : Same c c') (i : Nat) :
    (c'.pTable i).challengeText = (c.pTable i).challengeText :=
  h.field PreAuthNode.challengeText (fun _ => rfl) i

theorem Same.isKept (h : Same c c') (ticks : UInt64) : c'.isKept ticks = c.isKept ticks :=
  funext (h.field (fun n => !isStaleOpen ticks n) fun _ => rfl)

/-! ## Writing nodes -/

@[simp] theorem setNode_self : (c.setNode i n).pTable i = n := update_self _ _ _

theorem setNode_ne (h : a ≠ i) : (c.setNode i n).pTable a = c.pTable a := update_of_ne h _ _

theorem next_setNode : (c.setNode i n).next = update c.next i n.next := by
  funext a
  by_cases h : a = i
  · subst h; rw [LimGlobal.next, setNode_self, update_self]
  · rw [LimGlobal.next, setNode_ne h, update_of_ne h]

theorem next_setNode_of_eq (h : n.next = c.next i) : (c.setNode i n).next = c.next := by
  rw [next_setNode, h, update_eq_self]

theorem next_setNext (p : Option Nat) : (c.setNext i p).next = update c.next i p := next_setNode

theorem same_setNode (h : core n = core (c.pTable i)) : Same c (c.setNode i n) := by
  refine ⟨rfl, fun a => ?_, rfl⟩
  by_cases ha : a = i
  · subst ha; rw [setNode_self, h]
  · rw [setNode_ne ha]

theorem same_setNext (p : Option Nat) : Same c (c.setNext i p) := same_setNode rfl

theorem same_release : Same c (lim_release_pre_auth_node c i) := by
  have hnode : Same c (c.setNode i { c.pTable i with fFree := true }) := same_setNode rfl
  exact ⟨rfl, hnode.node, rfl⟩

theorem same_setList (p : Option Nat) : Same c { c with pLimPreAuthList := p } :=
  ⟨rfl, fun _ => rfl, rfl⟩

/-! ## Basic facts -/

theorem Holds.mem_fuel (h : Holds c l) (hi : i ∈ l) : i < c.fuel := ((h.used i).mp hi).1

theorem Holds.length_le (h : Holds c l) : l.length ≤ c.fuel := by
  have hsub : l ⊆ range c.fuel := fun i hi => mem_range.mpr (h.mem_fuel hi)
  have hle := (subperm_of_subset h.nodup hsub).length_le
  rwa [length_range] at hle

theorem holds_init (numEntry : UInt32) : Holds (lim_init_pre_auth_timer_table numEntry) [] := by
  refine ⟨rfl, nodup_nil, fun i => ?_, rfl⟩
  constructor
  · intro hi; cases hi
  · rintro ⟨-, hfree⟩; exact absurd hfree (by simp [lim_init_pre_auth_timer_table])

theorem Holds.congr (h : Holds c l) (hnum : c'.numEntry = c.numEntry)
    (hnext : ∀ i, (c'.pTable i).next = (c.pTable i).next)
    (hfree : ∀ i, (c'.pTable i).fFree = (c.pTable i).fFree)
    (hlist : c'.pLimPreAuthList = c.pLimPreAuthList)
    (hcount : c'.gLimNumPreAuthContexts = c.gLimNumPreAuthContexts) : Holds c' l := by
  refine ⟨?_, h.nodup, fun i => ?_, hcount.trans h.count⟩
  · rw [hlist]; exact (linked_congr fun i _ => hnext i).mpr h.linked
  · rw [LimGlobal.fuel, hnum, hfree]; exact h.used i

theorem Holds.sent (h : Holds c l) (m : SentAuth) : Holds (c.sent m) l :=
  h.congr rfl (fun _ => rfl) (fun _ => rfl) rfl rfl

theorem Holds.setNode (h : Holds c l) (hnext : n.next = (c.pTable i).next)
    (hfree : n.fFree = (c.pTable i).fFree) : Holds (c.setNode i n) l := by
  refine h.congr rfl (fun a => ?_) (fun a => ?_) rfl rfl
  all_goals
    by_cases ha : a = i
    · subst ha
      rw [setNode_self]; assumption
    · rw [setNode_ne ha]

/-! ## Searching -/

theorem searchLoop_eq (mac : MacAddr) (fuel : Nat) {p : Option Nat} (h : Linked c.next p l none)
    (hfuel : l.length ≤ fuel) : searchLoop c mac fuel p = l.find? (c.isOf mac) := by
  induction l generalizing fuel p with
  | nil =>
    unfold searchLoop
    split <;> trivial
  | cons a l ih =>
    obtain ⟨rfl, hrest⟩ := h
    obtain ⟨n, rfl⟩ := Nat.exists_eq_succ_of_ne_zero (Nat.ne_zero_of_lt hfuel)
    rw [searchLoop, find?_cons]
    by_cases hmac : c.mac a = mac
    · rw [if_pos hmac, isOf_iff.mpr hmac]
    · rw [if_neg hmac, isOf_eq_false.mpr hmac]; exact ih n hrest (Nat.le_of_succ_le_succ hfuel)

theorem Holds.search (h : Holds c l) (mac : MacAddr) :
    lim_search_pre_auth_list c mac = l.find? (c.isOf mac) :=
  searchLoop_eq mac c.fuel h.linked h.length_le

theorem Holds.search_none (h : Holds c l) {mac : MacAddr} :
    lim_search_pre_auth_list c mac = none ↔ ∀ i ∈ l, c.mac i ≠ mac := by
  rw [h.search, find?_eq_none]; simp only [isOf_iff, ne_eq]

theorem Holds.search_some (h : Holds c l) {mac : MacAddr}
    (hi : lim_search_pre_auth_list c mac = some i) : i ∈ l ∧ c.mac i = mac := by
  rw [h.search] at hi; exact ⟨mem_of_find?_eq_some hi, isOf_iff.mp (find?_some hi)⟩

/-! ## Taking a node out -/

/-- The node `a` is out of the list, but not released yet. -/
structure Unlinked (c : LimGlobal) (l : List Nat) (a : Nat) : Prop where
  linked : Linked c.next c.pLimPreAuthList l none
  nodup : (a :: l).Nodup
  used : ∀ i, i ∈ a :: l ↔ i < c.fuel ∧ (c.pTable i).fFree = false
  count : c.gLimNumPreAuthContexts = UInt32.ofNat (l.length + 1)

theorem Unlinked.release (h : Unlinked c l a) : Holds (lim_release_pre_auth_node c a) l := by
  obtain ⟨ha, hnd⟩ := nodup_cons.mp h.nodup
  have hnode : ∀ i, i ≠ a → (lim_release_pre_auth_node c a).pTable i = c.pTable i :=
    fun i hi => setNode_ne hi
  have hself : ((lim_release_pre_auth_node c a).pTable a).fFree = true :=
    congrArg PreAuthNode.fFree (setNode_self (c := c))
  refine ⟨?_, hnd, fun i => ?_, ?_⟩
  · have hnext : (lim_release_pre_auth_node c a).next = c.next := next_setNode_of_eq rfl
    rw [hnext]; exact h.linked
  · have hi := h.used i
    by_cases hia : i = a
    · subst hia
      rw [hself]; exact ⟨fun hmem => absurd hmem ha, fun hfree => absurd hfree.2 (by simp)⟩
    · rw [hnode i hia]
      rw [mem_cons, or_iff_right hia] at hi; exact hi
  · show c.gLimNumPreAuthContexts - 1 = _
    rw [h.count, UInt32.ofNat_add]; exact UInt32.add_sub_cancel _ 1

theorem Holds.unlink_head (h : Holds c (a :: l)) :
    Unlinked { c with pLimPreAuthList := (c.pTable a).next } l a :=
  ⟨h.linked.2, h.nodup, h.used, h.count⟩

theorem Holds.unlink_after (h : Holds c (l₁ ++ [b] ++ a :: l₂)) :
    Unlinked (c.setNext b (c.pTable a).next) (l₁ ++ [b] ++ l₂) a := by
  have hperm : List.Perm (a :: (l₁ ++ [b] ++ l₂)) (l₁ ++ [b] ++ a :: l₂) :=
    perm_middle.symm
  refine ⟨?_, hperm.nodup_iff.mpr h.nodup, fun i => ?_, ?_⟩
  · rw [next_setNext]; exact linked_unlink h.linked h.nodup
  · rw [hperm.mem_iff, h.used i]
    have hfree : ((c.setNext b (c.pTable a).next).pTable i).fFree = (c.pTable i).fFree := by
      by_cases hib : i = b
      · subst hib; rw [LimGlobal.setNext, setNode_self]
      · exact congrArg PreAuthNode.fFree (setNode_ne hib)
    rw [hfree]; rfl
  · show c.gLimNumPreAuthContexts = _; rw [h.count, ← hperm.length_eq, length_cons]

/-! ## Deleting the node of an address -/

theorem deleteLoop_holds (mac : MacAddr) (fuel : Nat) {p : Option Nat}
    (h : Holds c (l₁ ++ [b] ++ l₂)) (hp : Linked c.next p l₂ none) (hfuel : l₂.length ≤ fuel) :
    Holds (deleteLoop c mac fuel b p) (l₁ ++ [b] ++ l₂.eraseP (c.isOf mac)) ∧
      Same c (deleteLoop c mac fuel b p) := by
  induction l₂ generalizing fuel l₁ b p with
  | nil =>
    obtain rfl : p = none := hp
    have hend : deleteLoop c mac fuel b none = c := by
      unfold deleteLoop
      split <;> trivial
    rw [hend]; exact ⟨h, Same.refl c⟩
  | cons a l₂ ih =>
    obtain ⟨rfl, hrest⟩ := hp
    obtain ⟨n, rfl⟩ := Nat.exists_eq_succ_of_ne_zero (Nat.ne_zero_of_lt hfuel)
    rw [deleteLoop]
    by_cases hmac : c.mac a = mac
    · rw [if_pos hmac, eraseP_cons_of_pos (isOf_iff.mpr hmac)]
      exact ⟨h.unlink_after.release, (same_setNext _).trans same_release⟩
    · rw [if_neg hmac, eraseP_cons_of_neg (mt isOf_iff.mp hmac)]
      have hmove : l₁ ++ [b] ++ a :: l₂ = l₁ ++ [b] ++ [a] ++ l₂ := by simp
      have hloop := ih n (hmove ▸ h) hrest (Nat.le_of_succ_le_succ hfuel)
      simpa only [append_assoc, cons_append, nil_append] using hloop

/-- **Deleting.** The first node of the address goes, and the others stay as they are. -/
theorem Holds.delete (h : Holds c l) (mac : MacAddr) :
    Holds (lim_delete_pre_auth_node c mac) (l.eraseP (c.isOf mac)) ∧
      Same c (lim_delete_pre_auth_node c mac) := by
  cases l with
  | nil =>
    have hnone : c.pLimPreAuthList = none := h.linked
    rw [lim_delete_pre_auth_node, hnone]; exact ⟨h, Same.refl c⟩
  | cons a l =>
    have hsome : c.pLimPreAuthList = some a := h.linked.1
    rw [lim_delete_pre_auth_node, hsome]
    dsimp only
    by_cases hmac : c.mac a = mac
    · rw [if_pos hmac, eraseP_cons_of_pos (isOf_iff.mpr hmac)]
      exact ⟨h.unlink_head.release, (same_setList _).trans same_release⟩
    · rw [if_neg hmac, eraseP_cons_of_neg (mt isOf_iff.mp hmac)]
      have hfuel : l.length ≤ c.fuel := (Nat.le_succ _).trans h.length_le
      have hloop : Holds _ ([] ++ [a] ++ l.eraseP _) ∧ _ :=
        deleteLoop_holds mac c.fuel h h.linked.2 hfuel
      exact hloop

/-! ## Deleting the stale nodes -/

theorem deleteOpenLoop_holds (ticks : UInt64) (fuel : Nat) {prev p : Option Nat} {freed : Bool}
    (h : Holds c (l₁ ++ l₂)) (hp : Linked c.next p l₂ none)
    (hprev : ∀ b ∈ l₁.getLast?, prev = some b) (hfuel : l₂.length ≤ fuel) :
    Holds (deleteOpenLoop ticks fuel prev p freed c).1 (l₁ ++ l₂.filter (c.isKept ticks)) ∧
      Same c (deleteOpenLoop ticks fuel prev p freed c).1 := by
  induction l₂ generalizing fuel l₁ c prev p freed with
  | nil =>
    obtain rfl : p = none := hp
    have hend : deleteOpenLoop ticks fuel prev none freed c = (c, freed) := by
      unfold deleteOpenLoop
      split <;> trivial
    rw [hend]; exact ⟨h, Same.refl c⟩
  | cons a l₂ ih =>
    obtain ⟨rfl, hrest⟩ := hp
    obtain ⟨n, rfl⟩ := Nat.exists_eq_succ_of_ne_zero (Nat.ne_zero_of_lt hfuel)
    have hn := Nat.le_of_succ_le_succ hfuel
    rw [deleteOpenLoop]
    by_cases hstale : isStaleOpen ticks (c.pTable a) = true
    · have hdrop : ¬c.isKept ticks a = true := by simp [LimGlobal.isKept, hstale]
      rw [if_pos hstale, filter_cons_of_neg hdrop]
      -- However the node was taken out, the loop goes on with the nodes after it.
      have hgo : ∀ {c₁ : LimGlobal} {prev₁ : Option Nat}, Unlinked c₁ (l₁ ++ l₂) a →
          Same c c₁ → Linked c₁.next (c.pTable a).next l₂ none →
          (∀ b ∈ l₁.getLast?, prev₁ = some b) →
          Holds (deleteOpenLoop ticks n prev₁ (c.pTable a).next true
              (lim_release_pre_auth_node c₁ a)).1 (l₁ ++ l₂.filter (c.isKept ticks)) ∧
            Same c (deleteOpenLoop ticks n prev₁ (c.pTable a).next true
              (lim_release_pre_auth_node c₁ a)).1 := by
        intro c₁ prev₁ hun hsame hlink hlast
        have hnext : (lim_release_pre_auth_node c₁ a).next = c₁.next := next_setNode_of_eq rfl
        have hall := hsame.trans (same_release (i := a))
        obtain ⟨hholds, hsame'⟩ := ih n hun.release (hnext ▸ hlink) hlast hn
        rw [hall.isKept] at hholds; exact ⟨hholds, hall.trans hsame'⟩
      rcases eq_nil_or_concat l₁ with rfl | ⟨l₀, b, rfl⟩
      · rw [if_pos h.linked.1]
        apply hgo h.unlink_head (same_setList _) hrest
        intro b hb
        cases hb
      · rw [concat_eq_append] at *
        have hb : prev = some b := hprev b (by simp)
        have hhead : c.pLimPreAuthList ≠ some a := by
          intro hhead
          have hfirst := linked_head h.linked (by simp)
          rw [hhead, head?_append_of_ne_nil _ (by simp)] at hfirst
          have hmem : a ∈ l₀ ++ [b] := mem_of_head? hfirst.symm
          exact disjoint_of_nodup_append h.nodup hmem mem_cons_self
        rw [if_neg hhead, hb, Option.elim_some]
        have hba : b ∉ l₂ := fun hmem =>
          disjoint_of_nodup_append h.nodup
            (mem_append_right _ (mem_singleton_self b)) (mem_cons_of_mem a hmem)
        refine hgo h.unlink_after (same_setNext _) ?_ (by simp)
        rw [next_setNext]; exact (linked_update_of_notMem hba).mpr hrest
    · have hkeep : c.isKept ticks a = true := by simpa [LimGlobal.isKept] using hstale
      rw [if_neg hstale, filter_cons_of_pos hkeep]
      have hmove : l₁ ++ a :: l₂ = (l₁ ++ [a]) ++ l₂ := by simp
      have hloop := @ih c (l₁ ++ [a]) n (some a) (c.pTable a).next freed (hmove ▸ h) hrest
        (by simp) hn
      simpa only [append_assoc, cons_append, nil_append] using hloop

theorem Holds.deleteOpen (h : Holds c l) (ticks : UInt64) :
    Holds (lim_delete_open_auth_pre_auth_node c ticks).1 (l.filter (c.isKept ticks)) ∧
      Same c (lim_delete_open_auth_pre_auth_node c ticks).1 := by
  have hstart : Holds c ([] ++ l) := h
  exact deleteOpenLoop_holds ticks c.fuel hstart h.linked (by simp) h.length_le

theorem Holds.search_deleteOpen (h : Holds c l) {mac : MacAddr} (ticks : UInt64)
    (hnone : lim_search_pre_auth_list c mac = none) :
    lim_search_pre_auth_list (lim_delete_open_auth_pre_auth_node c ticks).1 mac = none := by
  obtain ⟨hholds, hsame⟩ := h.deleteOpen ticks
  apply hholds.search_none.mpr
  intro i hi
  rw [hsame.mac]; exact h.search_none.mp hnone i (mem_filter.mp hi).1

/-! ## Deleting all -/

theorem deleteListLoop_holds (fuel : Nat) {p : Option Nat} (h : Linked c.next p l none)
    (hnd : l.Nodup) (hused : ∀ i, i ∈ l ↔ i < c.fuel ∧ (c.pTable i).fFree = false)
    (hcount : c.gLimNumPreAuthContexts = UInt32.ofNat l.length) (hfuel : l.length ≤ fuel) :
    (∀ i, i < c.fuel → ((deleteListLoop fuel p c).pTable i).fFree = true) ∧
      (deleteListLoop fuel p c).gLimNumPreAuthContexts = 0 ∧ Same c (deleteListLoop fuel p c) := by
  induction l generalizing fuel p c with
  | nil =>
    obtain rfl : p = none := h
    have hend : deleteListLoop fuel none c = c := by
      unfold deleteListLoop
      split <;> trivial
    rw [hend]
    refine ⟨fun i hi => ?_, hcount, Same.refl c⟩
    have hnot : ¬((c.pTable i).fFree = false) := fun hfree =>
      not_mem_nil ((hused i).mpr ⟨hi, hfree⟩)
    exact eq_true_of_ne_false hnot
  | cons a l ih =>
    obtain ⟨rfl, hrest⟩ := h
    obtain ⟨n, rfl⟩ := Nat.exists_eq_succ_of_ne_zero (Nat.ne_zero_of_lt hfuel)
    -- The list is not touched here: it is as good as one that starts behind the node.
    have hun : Unlinked { c with pLimPreAuthList := c.next a } l a := ⟨hrest, hnd, hused, hcount⟩
    have hrel := hun.release
    have hnext : (lim_release_pre_auth_node c a).next = c.next := next_setNode_of_eq rfl
    have hlink : Linked (lim_release_pre_auth_node c a).next (c.pTable a).next l none := by
      rw [hnext]; exact hrest
    obtain ⟨hfree, hzero, hsame⟩ := ih n hlink hrel.nodup hrel.used hrel.count
      (Nat.le_of_succ_le_succ hfuel)
    exact ⟨hfree, hzero, same_release.trans hsame⟩

theorem Holds.deleteList (h : Holds c l) :
    Holds (lim_delete_pre_auth_list c) [] ∧ Same c (lim_delete_pre_auth_list c) := by
  obtain ⟨hfree, hzero, hsame⟩ :=
    deleteListLoop_holds c.fuel h.linked h.nodup h.used h.count h.length_le
  refine ⟨⟨rfl, nodup_nil, fun i => ?_, hzero⟩, hsame.numEntry, hsame.node, hsame.log⟩
  constructor
  · intro hi; cases hi
  · rintro ⟨hi, hused⟩
    have hi' : i < c.fuel := hsame.fuel ▸ hi
    have htrue : ((lim_delete_pre_auth_list c).pTable i).fFree = true := hfree i hi'
    rw [htrue] at hused
    cases hused

/-! ## Adding a node -/

theorem setNode_setNode {m : PreAuthNode} : (c.setNode i m).setNode i n = c.setNode i n := by
  rw [LimGlobal.setNode, LimGlobal.setNode, LimGlobal.setNode]; simp only [update_idem]

theorem acquire_spec (h : lim_acquire_free_pre_auth_node c = some (i, c')) :
    i < c.fuel ∧ (c.pTable i).fFree = true ∧
      c' = c.setNode i { c.pTable i with fFree := false } := by
  obtain ⟨a, ha, heq⟩ := Option.map_eq_some_iff.mp h
  obtain ⟨rfl, rfl⟩ := Prod.mk.inj heq
  have hfree := find?_some ha
  exact ⟨mem_range.mp (mem_of_find?_eq_some ha), hfree, rfl⟩

theorem Holds.free_notMem (h : Holds c l) (hfree : (c.pTable i).fFree = true) : i ∉ l := by
  intro hmem
  have hused := ((h.used i).mp hmem).2
  rw [hfree] at hused
  cases hused

theorem Holds.add (h : Holds c l) (hlt : i < c.fuel) (hfree : (c.pTable i).fFree = true)
    (hn : n.fFree = false) : Holds (lim_add_pre_auth_node (c.setNode i n) i) (i :: l) := by
  have hil := h.free_notMem hfree
  refine ⟨⟨rfl, ?_⟩, nodup_cons.mpr ⟨hil, h.nodup⟩, fun b => ?_, ?_⟩
  · have hnext : (lim_add_pre_auth_node (c.setNode i n) i).next =
        update c.next i c.pLimPreAuthList := by
      show ((c.setNode i n).setNode i _).next = _
      rw [setNode_setNode, next_setNode]; rfl
    rw [hnext, update_self]; exact (linked_update_of_notMem hil).mpr h.linked
  · by_cases hbi : b = i
    · subst hbi
      have hself : ((lim_add_pre_auth_node (c.setNode b n) b).pTable b).fFree = false := by
        show (((c.setNode b n).setNode b _).pTable b).fFree = _
        rw [setNode_self, setNode_self, hn]
      exact ⟨fun _ => ⟨hlt, hself⟩, fun _ => mem_cons_self⟩
    · have hnode : (lim_add_pre_auth_node (c.setNode i n) i).pTable b = c.pTable b :=
        (setNode_ne hbi).trans (setNode_ne hbi)
      rw [hnode, mem_cons, or_iff_right hbi, h.used b]; rfl
  · show c.gLimNumPreAuthContexts + 1 = _
    rw [h.count, length_cons, UInt32.ofNat_add]; rfl

end Qcacld.LimPreAuth
