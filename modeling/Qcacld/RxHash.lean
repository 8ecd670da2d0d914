/-
The hash table of receive buffers that are posted to the target, of `htt_rx.c`.

DMA addresses are 64 bits wide, of which 37 are passed to the target. The table takes them as
`uint32_t`: what is hashed, stored and compared is the lower half.

`HTT_ASSERT_ALWAYS(0)` is `BUG_ON(1)` in every build: an insert that gets no entry and a lookup that
finds none halt the kernel before their `return`. Here they have no result, so that a run ends there.

The proofs are about which entry is in which list. `Shape` says that the lists of all buckets are
closed and disjoint and that an entry of a bucket's array is in one of that bucket's two lists,
`Inv` that the list of a bucket is the part of the outstanding pairs that hashes to it. An entry that
changes its list is `Shape.move`, and insert and lookup are each one such move, or one entry of the
heap that comes or goes. What the table is for, a multimap by address, is compared last: `lowOk` is
when searching by the lower half finds what searching by the address finds.
-/
import Qcacld.Lib.Circ
import Qcacld.Lib.Run

set_option autoImplicit false

namespace Qcacld.RxHash

open Lib Function

section

def RX_NUM_HASH_BUCKETS : Nat := 1024

def RX_ENTRIES_SIZE : Nat := 10

def RX_HASH_FUNCTION (a : UInt32) : Nat :=
  (((a >>> 14) ^^^ (a >>> 4)) &&& UInt32.ofNat (RX_NUM_HASH_BUCKETS - 1)).toNat

/-! ## The table -/

/-- Where an entry is in memory: one of the array of a bucket, or on the heap. -/
inductive Place where
  | entries (i j : Nat)
  | heap (k : Nat)
deriving DecidableEq

inductive Head where
  | listhead (i : Nat)
  | freepool (i : Nat)
deriving DecidableEq

/-- The list nodes: the heads, and the `listnode` of an entry. -/
inductive Node where
  | head (h : Head)
  | listnode (e : Place)
deriving DecidableEq

structure htt_rx_hash_entry where
  paddr : UInt32
  netbuf : Nat
  fromlist : Bool

structure Table where
  links : Links Node
  entry : Place → htt_rx_hash_entry
  /-- The entries that are allocated on the heap. -/
  heap : List Nat

/-- The entry of a list node (`listnode_offset` back); a head is not in an entry. -/
def Node.entry : Node → Option Place
  | .listnode e => some e
  | .head _ => none

namespace Table

variable (t : Table)

def setEntry (e : Place) (v : htt_rx_hash_entry) : Table := { t with entry := update t.entry e v }

def htt_list_add_tail (h : Head) (e : Place) : Table :=
  { t with links := t.links.addTail (.head h) (.listnode e) }

def htt_list_remove (e : Place) : Table := { t with links := t.links.remove (.listnode e) }

def htt_list_init (h : Head) : Table := { t with links := t.links.init (.head h) }

def cdf_mem_free : Place → Table
  | .heap k => { t with heap := t.heap.erase k }
  | .entries _ _ => t

end Table

/-! ## Insert and lookup -/

def insertEntry (t : Table) (i : Nat) (e : Place) (fromlist : Bool) (paddr : UInt32)
    (netbuf : Nat) : Table :=
  (t.setEntry e ⟨paddr, netbuf, fromlist⟩).htt_list_add_tail (.listhead i) e

/-- `malloc` is the heap entry that an allocation would give, if any; without one, the
assertion halts. What returns has returned 0. -/
def htt_rx_hash_list_insert (t : Table) (malloc : Option Nat) (paddr : UInt32) (netbuf : Nat) :
    Option Table :=
  let i := RX_HASH_FUNCTION paddr
  if t.links.next (.head (.freepool i)) ≠ .head (.freepool i) then
    (t.links.next (.head (.freepool i))).entry.map fun e =>
      insertEntry (t.htt_list_remove e) i e (t.entry e).fromlist paddr netbuf
  else
    malloc.map fun k =>
      insertEntry { t with heap := k :: t.heap } i (.heap k) false paddr netbuf

def take (t : Table) (i : Nat) (e : Place) : Table :=
  let t := t.htt_list_remove e
  if (t.entry e).fromlist then t.htt_list_add_tail (.freepool i) e
  else t.cdf_mem_free e

/-- The walk along the list of a bucket, with the netbuf that it finds; no result if the fuel
does not last, or if a list node is not in an entry. -/
def lookupLoop (t : Table) (i : Nat) (paddr : UInt32) : Nat → Node → Option (Table × Option Nat)
  | 0, _ => none
  | fuel + 1, list_iter =>
    if list_iter = .head (.listhead i) then some (t, none)
    else
      list_iter.entry.bind fun hash_entry =>
        if (t.entry hash_entry).paddr = paddr then
          some (take t i hash_entry, some (t.entry hash_entry).netbuf)
        else lookupLoop t i paddr fuel (t.links.next list_iter)

/-- The lookup; where the walk finds no netbuf, the assertion after it halts. -/
def htt_rx_hash_list_lookup (t : Table) (fuel : Nat) (paddr : UInt32) : Option (Table × Nat) :=
  let i := RX_HASH_FUNCTION paddr
  (lookupLoop t i paddr fuel (t.links.next (.head (.listhead i)))).bind fun r =>
    r.2.map fun netbuf => (r.1, netbuf)

/-! ## Initialization -/

def initEntry (i : Nat) (t : Table) (j : Nat) : Table :=
  (t.setEntry (.entries i j) { t.entry (.entries i j) with fromlist := true }).htt_list_add_tail
    (.freepool i) (.entries i j)

def initBucket (t : Table) (i : Nat) : Table :=
  (List.range RX_ENTRIES_SIZE).foldl (initEntry i)
    ((t.htt_list_init (.listhead i)).htt_list_init (.freepool i))

def initBuckets (malloc : Nat → Bool) (t : Table) : Nat → Option Table
  | 0 => some t
  | n + 1 => (initBuckets malloc t n).bind fun t => if malloc n then some (initBucket t n) else none

/-- The memory has any contents before. -/
def htt_rx_hash_init (malloc : Nat → Bool) (links : Links Node) (entry : Place → htt_rx_hash_entry) :
    Option Table :=
  initBuckets malloc ⟨links, entry, []⟩ RX_NUM_HASH_BUCKETS

end

open Lib.Links List Option

/-! The table as a multimap from addresses to buffers. -/

/-! ## The lists of the table -/

theorem hash_lt (a : UInt32) : RX_HASH_FUNCTION a < RX_NUM_HASH_BUCKETS := by
  unfold RX_HASH_FUNCTION; exact Nat.and_lt_two_pow _ (n := 10) (by decide)

def Head.bucket : Head → Nat
  | .listhead i => i
  | .freepool i => i

def Place.preallocated : Place → Bool
  | .entries _ _ => true
  | .heap _ => false

theorem layout : Layout Node.head Node.listnode :=
  ⟨fun _ _ h => Node.head.inj h, fun _ _ h => Node.listnode.inj h, fun _ _ h => nomatch h⟩

def Lists (n : Nat) (l : Links Node) (hold : Head → List Place) : Prop :=
  Family l Node.head Node.listnode (fun h => h.bucket < n) hold

def low (o : UInt64 × Nat) : UInt32 × Nat := (o.1.toUInt32, o.2)

def bucketOf (o : UInt64 × Nat) : Nat := RX_HASH_FUNCTION o.1.toUInt32

def Table.contents (t : Table) (e : Place) : UInt32 × Nat := ((t.entry e).paddr, (t.entry e).netbuf)

structure Shape (t : Table) (hold : Head → List Place) : Prop where
  lists : Lists RX_NUM_HASH_BUCKETS t.links hold
  home : ∀ h i j, .entries i j ∈ hold h → i = h.bucket ∧ j < RX_ENTRIES_SIZE
  complete : ∀ i < RX_NUM_HASH_BUCKETS, ∀ j < RX_ENTRIES_SIZE,
    .entries i j ∈ hold (.freepool i) ∨ .entries i j ∈ hold (.listhead i)
  free : ∀ i k, .heap k ∉ hold (.freepool i)
  heap : ∀ k, k ∈ t.heap ↔ ∃ i < RX_NUM_HASH_BUCKETS, .heap k ∈ hold (.listhead i)
  fromlist : ∀ h, ∀ e ∈ hold h, (t.entry e).fromlist = e.preallocated
  nodup : t.heap.Nodup

structure Inv (t : Table) (hold : Head → List Place) (out : List (UInt64 × Nat)) : Prop where
  shape : Shape t hold
  contents : ∀ i, (hold (.listhead i)).map t.contents = (out.filter (bucketOf · == i)).map low

variable {t t' : Table} {hold : Head → List Place} {out : List (UInt64 × Nat)} {i : Nat} {e : Place}

theorem Shape.not_free (h : Shape t hold) (he : e ∈ hold (.listhead i)) (j : Nat) :
    e ∉ hold (.freepool j) := by intro hj; exact absurd (h.lists.once.unique he hj) (by simp)

theorem map_contents_setEntry {es : List Place} (he : e ∉ es) (v : htt_rx_hash_entry) :
    es.map (t.setEntry e v).contents = es.map t.contents := by
  refine map_congr_left fun d hd => ?_
  have hentry : (t.setEntry e v).entry d = t.entry d := update_of_ne (ne_of_mem_of_not_mem hd he) _ _
  rw [Table.contents, Table.contents, hentry]

/-- **An entry that is in no list** becomes the last one of its bucket. -/
theorem contents_enter
    (hcont : ∀ i, (hold (.listhead i)).map t.contents = (out.filter (bucketOf · == i)).map low)
    (he : ∀ h, e ∉ hold h) (o : UInt64 × Nat) (fromlist : Bool) (i : Nat) :
    (update hold (.listhead (bucketOf o)) (hold (.listhead (bucketOf o)) ++ [e]) (.listhead i)).map
        (t.setEntry e ⟨o.1.toUInt32, o.2, fromlist⟩).contents
      = ((out ++ [o]).filter (bucketOf · == i)).map low := by
  have hsame := map_contents_setEntry (t := t) (he (.listhead i)) ⟨o.1.toUInt32, o.2, fromlist⟩
  rw [hcont i] at hsame
  by_cases hi : i = bucketOf o
  · subst hi
    have hself : (t.setEntry e ⟨o.1.toUInt32, o.2, fromlist⟩).contents e = low o := by
      simp only [Table.contents, Table.setEntry, update_self, low]
    rw [update_self, map_append, hsame, map_singleton, hself]; simp
  · rw [update_of_ne (fun h => hi (Head.listhead.inj h)), hsame]; simp [Ne.symm hi]

/-! ## Entries that move -/

def moved (hold : Head → List Place) (h h' : Head) (rest : List Place) (e : Place) :
    Head → List Place :=
  update (update hold h rest) h' (hold h' ++ [e])

section Moved

variable {h h' : Head} {as bs : List Place}

theorem Lists.nowhere {n : Nat} {l : Links Node} (hl : Lists n l hold)
    (hsplit : hold h = as ++ e :: bs) :
    ∀ k, e ∉ update hold h (as ++ bs) k := by
  intro k hk
  by_cases hkh : k = h
  · subst hkh
    rw [update_self] at hk
    have hnd := hl.once.nodup k
    rw [hsplit] at hnd; exact (nodup_middle.mp hnd).notMem hk
  · rw [update_of_ne hkh] at hk
    refine hkh (hl.once.unique hk ?_)
    rw [hsplit]; exact mem_append_right as mem_cons_self

theorem mem_moved_self {n : Nat} {l : Links Node} (hl : Lists n l hold)
    (hsplit : hold h = as ++ e :: bs) {k : Head} : e ∈ moved hold h h' (as ++ bs) e k ↔ k = h' := by
  unfold moved
  by_cases hk : k = h'
  · subst hk; simp
  · rw [update_of_ne hk]
    exact ⟨fun hmem => absurd hmem (hl.nowhere hsplit k), fun heq => absurd heq hk⟩

theorem mem_moved_of_ne {d : Place} (hd : d ≠ e) (hh : h ≠ h') (hsplit : hold h = as ++ e :: bs)
    {k : Head} : d ∈ moved hold h h' (as ++ bs) e k ↔ d ∈ hold k := by
  unfold moved
  by_cases hk : k = h'
  · subst hk; simp [hd]
  · rw [update_of_ne hk]
    by_cases hkh : k = h
    · subst hkh
      rw [update_self, hsplit]; simp [hd]
    · rw [update_of_ne hkh]

theorem Lists.moved {n : Nat} {l : Links Node} (hl : Lists n l hold) (hh : h ≠ h')
    (hn : h.bucket < n) (hn' : h'.bucket < n) (hsplit : hold h = as ++ e :: bs) :
    Lists n ((l.remove (.listnode e)).addTail (.head h') (.listnode e))
      (moved hold h h' (as ++ bs) e) := by
  have hremoved := Family.remove layout hl hn hsplit
  have hadded := hremoved.addTail layout hn' (hl.nowhere hsplit)
  rwa [update_of_ne hh.symm] at hadded

theorem Shape.move (hs : Shape t hold) (hh : h ≠ h') (hbucket : h.bucket = h'.bucket)
    (hlt : h.bucket < RX_NUM_HASH_BUCKETS) (hsplit : hold h = as ++ e :: bs)
    (hpre : e.preallocated = true)
    (hlinks : t'.links = (t.links.remove (.listnode e)).addTail (.head h') (.listnode e))
    (hheap : t'.heap = t.heap) (hfrom : ∀ d, (t'.entry d).fromlist = (t.entry d).fromlist) :
    Shape t' (moved hold h h' (as ++ bs) e) := by
  have he : e ∈ hold h := by rw [hsplit]; exact mem_append_right as mem_cons_self
  have hself : ∀ k, e ∈ RxHash.moved hold h h' (as ++ bs) e k ↔ k = h' := fun k =>
    mem_moved_self hs.lists hsplit
  have hother : ∀ d, d ≠ e → ∀ k, d ∈ RxHash.moved hold h h' (as ++ bs) e k ↔ d ∈ hold k :=
    fun d hd k => mem_moved_of_ne hd hh hsplit
  -- entries of the heap never go to the free pool
  have hheapne : ∀ k, Place.heap k ≠ e := by
    rintro k rfl; exact absurd hpre (by simp [Place.preallocated])
  refine ⟨?_, ?_, ?_, ?_, ?_, ?_, ?_⟩
  · rw [hlinks]; exact hs.lists.moved hh hlt (hbucket ▸ hlt) hsplit
  · intro k i j hmem
    by_cases hd : Place.entries i j = e
    · subst hd
      obtain rfl := (hself k).mp hmem
      rw [← hbucket]; exact hs.home h i j he
    · exact hs.home k i j ((hother _ hd k).mp hmem)
  -- an entry that moves stays with its bucket, in the list or in the pool
  · intro i hi j hj
    by_cases hd : Place.entries i j = e
    · subst hd
      obtain ⟨rfl, -⟩ := hs.home h i j he
      rw [hself, hself, hbucket]
      cases h' with
      | listhead k => exact Or.inr rfl
      | freepool k => exact Or.inl rfl
    · rw [hother _ hd, hother _ hd]; exact hs.complete i hi j hj
  · intro i k hmem; exact hs.free i k ((hother _ (hheapne k) _).mp hmem)
  · intro k
    rw [hheap, hs.heap]; simp only [hother _ (hheapne k)]
  · intro k d hd
    rw [hfrom]
    by_cases hde : d = e
    · subst hde; exact hs.fromlist h d he
    · exact hs.fromlist k d ((hother d hde k).mp hd)
  · rw [hheap]; exact hs.nodup

end Moved

/-! ## Insert -/

theorem Shape.free_preallocated (hs : Shape t hold) (he : e ∈ hold (.freepool i)) :
    e.preallocated = true := by
  cases e with
  | entries i j => rfl
  | heap k => exact absurd he (hs.free i k)

theorem Inv.insert_free (h : Inv t hold out) (o : UInt64 × Nat) {rest : List Place}
    (hfree : hold (.freepool (bucketOf o)) = e :: rest) :
    Inv (insertEntry (t.htt_list_remove e) (bucketOf o) e (t.entry e).fromlist o.1.toUInt32 o.2)
      (moved hold (.freepool (bucketOf o)) (.listhead (bucketOf o)) rest e) (out ++ [o]) := by
  have hmem : e ∈ hold (.freepool (bucketOf o)) := by rw [hfree]; exact mem_cons_self
  have hsplit : hold (.freepool (bucketOf o)) = [] ++ e :: rest := hfree
  refine ⟨?_, ?_⟩
  · refine h.shape.move ?_ ?_ ?_ hsplit (h.shape.free_preallocated hmem) rfl rfl fun d => ?_
    · simp
    · rfl
    · exact hash_lt _
    by_cases hd : d = e
    · subst hd; simp [insertEntry, Table.htt_list_add_tail, Table.setEntry]
    · simp [insertEntry, Table.htt_list_add_tail, Table.setEntry, Table.htt_list_remove, hd]
  · -- the contents of the lists are read after the entry has left the free ones
    have hcont := @contents_enter t (update hold (.freepool (bucketOf o)) rest) out e ?_ ?_ o
      (t.entry e).fromlist
    · exact hcont
    · intro i; exact h.contents i
    · exact Lists.nowhere h.shape.lists hsplit

theorem Inv.mem_lt (h : Inv t hold out) (he : e ∈ hold (.listhead i)) : i < RX_NUM_HASH_BUCKETS := by
  have hmem : t.contents e ∈ (hold (.listhead i)).map t.contents := mem_map_of_mem he
  rw [h.contents i] at hmem
  obtain ⟨o, ho, -⟩ := mem_map.mp hmem
  have hi : bucketOf o = i := by simpa using (mem_filter.mp ho).2
  rw [← hi]; exact hash_lt _

theorem Inv.heap_nowhere (h : Inv t hold out) {k : Nat} (hk : k ∉ t.heap) : ∀ b, .heap k ∉ hold b := by
  intro b hb
  cases b with
  | listhead i => exact hk ((h.shape.heap k).mpr ⟨i, h.mem_lt hb, hb⟩)
  | freepool i => exact h.shape.free i k hb

theorem Inv.insert_heap (h : Inv t hold out) (o : UInt64 × Nat) {k : Nat} (hk : k ∉ t.heap) :
    Inv (insertEntry { t with heap := k :: t.heap } (bucketOf o) (.heap k) false o.1.toUInt32 o.2)
      (update hold (.listhead (bucketOf o)) (hold (.listhead (bucketOf o)) ++ [.heap k]))
      (out ++ [o]) := by
  have hnew := h.heap_nowhere hk
  have hmem : ∀ {d b}, d ∈ update hold (.listhead (bucketOf o))
      (hold (.listhead (bucketOf o)) ++ [.heap k]) b ↔
        d ∈ hold b ∨ b = .listhead (bucketOf o) ∧ d = .heap k := by
    intro d b
    by_cases hb : b = .listhead (bucketOf o)
    · subst hb; simp
    · simp [hb]
  refine ⟨⟨h.shape.lists.addTail layout (hash_lt _) hnew, ?_, ?_, ?_, ?_, ?_, ?_⟩,
    contents_enter (t := { t with heap := k :: t.heap }) h.contents hnew o false⟩
  · intro b i j hd
    rcases hmem.mp hd with hd | ⟨-, hd⟩
    · exact h.shape.home b i j hd
    · exact absurd hd (by simp)
  · intro i hi j hj
    rw [hmem, hmem]; exact (h.shape.complete i hi j hj).imp Or.inl Or.inl
  · intro i k' hd
    rcases hmem.mp hd with hd | ⟨hb, -⟩
    · exact h.shape.free i k' hd
    · exact absurd hb (by simp)
  · intro k'
    simp only [hmem]
    constructor
    · intro hk'
      -- what is allocated is in a list: the new entry in that of its bucket
      rcases mem_cons.mp hk' with rfl | hk'
      · exact ⟨bucketOf o, hash_lt _, Or.inr ⟨rfl, rfl⟩⟩
      · obtain ⟨i, hi, hd⟩ := (h.shape.heap k').mp hk'; exact ⟨i, hi, Or.inl hd⟩
    · rintro ⟨i, hi, hd | ⟨-, hd⟩⟩
      · exact mem_cons_of_mem k ((h.shape.heap k').mpr ⟨i, hi, hd⟩)
      · rw [Place.heap.inj hd]; exact mem_cons_self
  · intro b d hd
    by_cases hde : d = .heap k
    · subst hde; simp [insertEntry, Table.htt_list_add_tail, Table.setEntry, Place.preallocated]
    · rcases hmem.mp hd with hd | ⟨-, hd⟩
      · simp only [insertEntry, Table.htt_list_add_tail, Table.setEntry]
        rw [update_of_ne hde]; exact h.shape.fromlist b d hd
      · exact absurd hd hde
  · exact nodup_cons.mpr ⟨hk, h.shape.nodup⟩

/-- **An insert** puts the pair behind the others, if there is an entry for it. -/
theorem Inv.insert (h : Inv t hold out) (malloc : Option Nat) (hmalloc : ∀ k ∈ malloc, k ∉ t.heap)
    (o : UInt64 × Nat) :
    (∀ t', htt_rx_hash_list_insert t malloc o.1.toUInt32 o.2 = some t' →
        ∃ hold', Inv t' hold' (out ++ [o])) ∧
      (malloc ≠ none → htt_rx_hash_list_insert t malloc o.1.toUInt32 o.2 ≠ none) := by
  have hcirc := h.shape.lists.circ (.freepool (bucketOf o)) (hash_lt _)
  have hnext := hcirc.next_head
  unfold htt_rx_hash_list_insert
  change t.links.next (.head (.freepool (RX_HASH_FUNCTION o.1.toUInt32))) = _ at hnext
  cases hfree : hold (.freepool (bucketOf o)) with
  | nil =>
    have hnext : t.links.next (.head (.freepool (RX_HASH_FUNCTION o.1.toUInt32)))
        = .head (.freepool (RX_HASH_FUNCTION o.1.toUInt32)) := by
      rw [hfree] at hnext; exact hnext
    rw [if_neg (not_not.mpr hnext)]
    refine ⟨fun t' ht' => ?_, fun hm hnone => hm (map_eq_none_iff.mp hnone)⟩
    obtain ⟨k, hk, rfl⟩ := map_eq_some_iff.mp ht'
    exact ⟨_, h.insert_heap o (hmalloc k hk)⟩
  | cons e rest =>
    rw [hfree] at hnext
    rw [if_pos (by rw [hnext]; simp), hnext]
    refine ⟨fun t' ht' => ?_, fun _ hnone => nomatch hnone⟩
    cases ht'
    exact ⟨_, h.insert_free o hfree⟩

/-! ## Lookup -/

theorem lookupLoop_eq {paddr : UInt32} {l es : List Place}
    (hcirc : Circ t.links (.head (.listhead i)) ((l ++ es).map .listnode)) {fuel : Nat}
    (hfuel : es.length < fuel) :
    lookupLoop t i paddr fuel ((es.map Node.listnode).headD (.head (.listhead i)))
      = some (match es.find? fun e => (t.entry e).paddr == paddr with
        | none => (t, none)
        | some e => (take t i e, some (t.entry e).netbuf)) := by
  induction es generalizing l fuel with
  | nil =>
    obtain ⟨fuel, rfl⟩ := Nat.exists_eq_add_one_of_ne_zero (Nat.ne_of_gt hfuel)
    exact if_pos rfl
  | cons e es ih =>
    obtain ⟨fuel, rfl⟩ := Nat.exists_eq_add_one_of_ne_zero (Nat.ne_zero_of_lt hfuel)
    have hnext : t.links.next (.listnode e) = (es.map Node.listnode).headD (.head (.listhead i)) := by
      rw [map_append, map_cons] at hcirc; exact hcirc.next_mem
    rw [lookupLoop, map_cons, headD_cons, if_neg (by simp)]
    simp only [Node.entry, bind_some]
    by_cases hp : (t.entry e).paddr = paddr
    · rw [if_pos hp, find?_cons_of_pos (by simpa using hp)]
    · rw [if_neg hp, find?_cons_of_neg (by simpa using hp), hnext]
      refine ih (l := l ++ [e]) ?_ (by simpa using hfuel)
      rwa [append_assoc, singleton_append]

theorem Shape.take_entries (hs : Shape t hold) (hi : i < RX_NUM_HASH_BUCKETS) {as bs : List Place}
    (hsplit : hold (.listhead i) = as ++ e :: bs) (hpre : e.preallocated = true) :
    Shape (take t i e) (moved hold (.listhead i) (.freepool i) (as ++ bs) e) := by
  have he : e ∈ hold (.listhead i) := by rw [hsplit]; exact mem_append_right as mem_cons_self
  have hfrom : ((t.htt_list_remove e).entry e).fromlist = true := (hs.fromlist _ e he).trans hpre
  have htake : take t i e = (t.htt_list_remove e).htt_list_add_tail (.freepool i) e := if_pos hfrom
  rw [htake]; exact hs.move (by simp) rfl hi hsplit hpre rfl rfl fun d => rfl

theorem Shape.take_heap (hs : Shape t hold) (hi : i < RX_NUM_HASH_BUCKETS) {as bs : List Place}
    {k : Nat} (hsplit : hold (.listhead i) = as ++ .heap k :: bs) :
    Shape (take t i (.heap k)) (update hold (.listhead i) (as ++ bs)) := by
  have he : .heap k ∈ hold (.listhead i) := by
    rw [hsplit]; exact mem_append_right as mem_cons_self
  have hfrom : ((t.htt_list_remove (.heap k)).entry (.heap k)).fromlist = false :=
    hs.fromlist _ _ he
  have htake : take t i (.heap k) = (t.htt_list_remove (.heap k)).cdf_mem_free (.heap k) :=
    if_neg (by rw [hfrom]; simp)
  have hgone := hs.lists.nowhere hsplit
  have hmem : ∀ {d b}, d ≠ .heap k → (d ∈ update hold (.listhead i) (as ++ bs) b ↔ d ∈ hold b) := by
    intro d b hd
    by_cases hb : b = .listhead i
    · subst hb
      rw [update_self, hsplit]; simp [hd]
    · rw [update_of_ne hb]
  rw [htake]
  refine ⟨Family.remove (i := Head.listhead i) layout hs.lists hi hsplit, ?_, ?_, ?_, ?_, ?_,
    hs.nodup.erase k⟩
  · intro b i' j hd; exact hs.home b i' j ((hmem (by simp)).mp hd)
  · intro i' hi' j hj
    rw [hmem (by simp), hmem (by simp)]; exact hs.complete i' hi' j hj
  · intro i' k' hd
    by_cases hk : k' = k
    · subst hk; exact hgone _ hd
    · exact hs.free i' k' ((hmem (by simp [hk])).mp hd)
  · intro k'
    -- the entry is freed, and in no list any more
    change k' ∈ t.heap.erase k ↔ _
    rw [hs.nodup.mem_erase_iff, hs.heap]
    by_cases hk : k' = k
    · subst hk; simp [hgone]
    · simp [hk, hmem]
  · intro b d hd
    have hne : d ≠ .heap k := by rintro rfl; exact hgone b hd
    exact hs.fromlist b d ((hmem hne).mp hd)

theorem take_contents (t : Table) (i : Nat) (e : Place) : (take t i e).contents = t.contents := by
  unfold take
  dsimp only
  split
  · rfl
  · cases e with
    | entries i j => rfl
    | heap k => rfl

theorem Shape.take (hs : Shape t hold) (hi : i < RX_NUM_HASH_BUCKETS) {as bs : List Place}
    (hsplit : hold (.listhead i) = as ++ e :: bs) :
    ∃ hold', Shape (RxHash.take t i e) hold' ∧ hold' (.listhead i) = as ++ bs ∧
      ∀ j, j ≠ i → hold' (.listhead j) = hold (.listhead j) := by
  have hne : ∀ j, j ≠ i → Head.listhead j ≠ .listhead i := fun j hj h => hj (Head.listhead.inj h)
  cases e with
  | entries i' j =>
    refine ⟨_, hs.take_entries hi hsplit rfl, ?_, fun j hj => ?_⟩
    · rw [moved, update_of_ne (by simp), update_self]
    · rw [moved, update_of_ne (by simp), update_of_ne (hne j hj)]
  | heap k =>
    refine ⟨_, hs.take_heap hi hsplit, update_self _ _ _, fun j hj => update_of_ne (hne j hj) _ _⟩

/-- A pair whose address has these lower bits. -/
def sameLow (paddr : UInt32) (o : UInt64 × Nat) : Bool := o.1.toUInt32 == paddr

theorem filter_eraseP_sameLow (paddr : UInt32) (out : List (UInt64 × Nat)) (i : Nat) :
    (out.eraseP (sameLow paddr)).filter (bucketOf · == i)
      = if i = RX_HASH_FUNCTION paddr then (out.filter (bucketOf · == i)).eraseP (sameLow paddr)
        else out.filter (bucketOf · == i) := by
  induction out with
  | nil => simp
  | cons o out ih =>
    by_cases ho : sameLow paddr o = true
    · have hb : bucketOf o = RX_HASH_FUNCTION paddr := by rw [bucketOf, beq_iff_eq.mp ho]
      rw [eraseP_cons_of_pos ho]
      split
      · next hi => rw [filter_cons_of_pos (by simp [hb, hi]), eraseP_cons_of_pos ho]
      · next hi => rw [filter_cons_of_neg (by simp [hb, Ne.symm hi])]
    · rw [eraseP_cons_of_neg ho]
      by_cases hb : (bucketOf o == i) = true
      · rw [filter_cons_of_pos (p := (bucketOf · == i)) hb, ih,
          filter_cons_of_pos (p := (bucketOf · == i)) hb]
        split
        · rw [eraseP_cons_of_neg ho]
        · rfl
      · rw [filter_cons_of_neg (p := (bucketOf · == i)) hb, ih,
          filter_cons_of_neg (p := (bucketOf · == i)) hb]

theorem find?_filter_sameLow (paddr : UInt32) (out : List (UInt64 × Nat)) :
    (out.filter (bucketOf · == RX_HASH_FUNCTION paddr)).find? (sameLow paddr)
      = out.find? (sameLow paddr) := by
  rw [find?_filter]
  refine congrArg (List.find? · out) (funext fun o => ?_)
  by_cases ho : sameLow paddr o = true
  · have hb : bucketOf o = RX_HASH_FUNCTION paddr := by rw [bucketOf, beq_iff_eq.mp ho]
    simp [ho, hb]
  · simp [ho]

/-- **A lookup** takes out the earliest pair whose address has the lower bits of the one
that is looked up, and has no result if there is none. -/
theorem Inv.lookup (h : Inv t hold out) (paddr : UInt32) {fuel : Nat} (hfuel : out.length < fuel) :
    match out.find? (sameLow paddr) with
    | none => htt_rx_hash_list_lookup t fuel paddr = none
    | some o => ∃ t', htt_rx_hash_list_lookup t fuel paddr = some (t', o.2) ∧
        ∃ hold', Inv t' hold' (out.eraseP (sameLow paddr)) := by
  have hi := hash_lt paddr
  have hcirc := h.shape.lists.circ (.listhead (RX_HASH_FUNCTION paddr)) hi
  have hcont := h.contents (RX_HASH_FUNCTION paddr)
  have hlen : (hold (.listhead (RX_HASH_FUNCTION paddr))).length < fuel := by
    have heq := congrArg List.length hcont
    rw [length_map, length_map] at heq
    have hle := length_filter_le (fun o => bucketOf o == RX_HASH_FUNCTION paddr) out
    omega
  -- what the walk finds is what is found among the pairs
  have hfind : ((hold (.listhead (RX_HASH_FUNCTION paddr))).find?
      fun e => (t.entry e).paddr == paddr).map t.contents = (out.find? (sameLow paddr)).map low := by
    have hmap : ((hold (.listhead (RX_HASH_FUNCTION paddr))).map t.contents).find?
        (fun c => c.1 == paddr) = _ := find?_map
    rw [hcont, find?_map] at hmap
    rw [← find?_filter_sameLow]; exact hmap.symm
  rw [htt_rx_hash_list_lookup, hcirc.next_head, lookupLoop_eq (l := []) hcirc hlen]
  cases hfound : (hold (.listhead (RX_HASH_FUNCTION paddr))).find?
      fun e => (t.entry e).paddr == paddr with
  | none =>
    rw [hfound, map_none] at hfind
    rw [map_eq_none_iff.mp hfind.symm]; rfl
  | some e =>
    rw [hfound, map_some] at hfind
    obtain ⟨o, ho, hlow⟩ := map_eq_some_iff.mp hfind.symm
    obtain ⟨hp, as, bs, hsplit, has⟩ := find?_eq_some_iff_append.mp hfound
    obtain ⟨hold', hshape, hself, hother⟩ := h.shape.take hi hsplit
    rw [ho]
    refine ⟨take t (RX_HASH_FUNCTION paddr) e, ?_, hold', hshape, fun i => ?_⟩
    · rw [show o.2 = (t.entry e).netbuf from congrArg Prod.snd hlow]; rfl
    · rw [take_contents, filter_eraseP_sameLow]
      split
      · next heq =>
        subst heq
        -- both sides lose the first pair with the address
        have herase : ((hold (.listhead (RX_HASH_FUNCTION paddr))).map t.contents).eraseP
            (fun c => c.1 == paddr) = (as ++ bs).map t.contents := by
          rw [eraseP_map, hsplit, eraseP_append_right, eraseP_cons_of_pos]
          · exact hp
          · intro d hd; simpa [Table.contents] using has d hd
        rw [hself, ← herase, hcont, eraseP_map]; rfl
      · next hne => rw [hother i hne, h.contents i]

/-! ## Initialization -/

/-- All lists are empty but those of the free entries: all of the first `n` buckets, and
`j` of the next one. -/
def initial (n j : Nat) : Head → List Place
  | .listhead _ => []
  | .freepool i =>
    if i < n then (range RX_ENTRIES_SIZE).map (.entries i)
    else if i = n then (range j).map (.entries i) else []

theorem mem_initial {n j : Nat} {b : Head} {e : Place} (he : e ∈ initial n j b) :
    ∃ i k, e = .entries i k ∧ b = .freepool i ∧ (i < n ∧ k < RX_ENTRIES_SIZE ∨ i = n ∧ k < j) := by
  cases b with
  | listhead i => cases he
  | freepool i =>
    rw [initial] at he
    split at he
    · next hi =>
      obtain ⟨k, hk, rfl⟩ := mem_map.mp he
      exact ⟨i, k, rfl, rfl, Or.inl ⟨hi, mem_range.mp hk⟩⟩
    · split at he
      · next hi =>
        obtain ⟨k, hk, rfl⟩ := mem_map.mp he
        exact ⟨i, k, rfl, rfl, Or.inr ⟨hi, mem_range.mp hk⟩⟩
      · cases he

/-- What initialization has done after `n` buckets and `j` entries of the next one; the
heads of `m` buckets are set up. -/
structure Ready (m n j : Nat) (t : Table) : Prop where
  lists : Lists m t.links (initial n j)
  fromlist : ∀ b, ∀ e ∈ initial n j b, (t.entry e).fromlist = true
  heap : t.heap = []

theorem update_initial (n j : Nat) :
    update (initial n j) (.freepool n) (initial n j (.freepool n) ++ [.entries n j])
      = initial n (j + 1) := by
  funext b
  by_cases hb : b = .freepool n
  · subst hb; simp [initial, range_succ]
  · cases b with
    | listhead i => rfl
    | freepool i => have hi : i ≠ n := fun h => hb (congrArg _ h); simp [initial, hi]

theorem Ready.entry {n j : Nat} (h : Ready (n + 1) n j t) :
    Ready (n + 1) n (j + 1) (initEntry n t j) := by
  have hnew : ∀ b, Place.entries n j ∉ initial n j b := by
    intro b hb
    obtain ⟨i, k, he, -, hor⟩ := mem_initial hb
    obtain ⟨rfl, rfl⟩ := Place.entries.inj he
    omega
  refine ⟨?_, ?_, h.heap⟩
  · have hadded := Family.addTail (i := Head.freepool n) layout h.lists (Nat.lt_succ_self n) hnew
    rw [update_initial] at hadded; exact hadded
  · intro b e he
    simp only [initEntry, Table.htt_list_add_tail, Table.setEntry]
    by_cases hej : e = .entries n j
    · subst hej; rw [update_self]
    · rw [update_of_ne hej]
      refine h.fromlist b e ?_
      rw [← update_initial] at he
      by_cases hb : b = .freepool n
      · subst hb; simpa [hej] using he
      · rwa [update_of_ne hb] at he

theorem Ready.entries {n : Nat} (h : Ready (n + 1) n 0 t) (j : Nat) :
    Ready (n + 1) n j ((range j).foldl (initEntry n) t) := by
  induction j with
  | zero => exact h
  | succ j ih => rw [range_succ, foldl_append]; exact ih.entry

theorem initial_full (n : Nat) : initial n RX_ENTRIES_SIZE = initial (n + 1) 0 := by
  funext b
  cases b with
  | listhead i => rfl
  | freepool i =>
    rcases Nat.lt_trichotomy i n with hlt | rfl | hgt
    · simp [initial, hlt, Nat.lt_succ_of_lt hlt]
    · simp [initial]
    · have h1 : ¬ i < n := by omega
      have h2 : ¬ i < n + 1 := by omega
      simp [initial, h1, h2, Nat.ne_of_gt hgt]

theorem Ready.bucket {n : Nat} (h : Ready n n 0 t) : Ready (n + 1) (n + 1) 0 (initBucket t n) := by
  have hheads : Ready (n + 1) n 0 ((t.htt_list_init (.listhead n)).htt_list_init (.freepool n)) := by
    refine ⟨?_, h.fromlist, h.heap⟩
    have hlist := Family.init (i := Head.listhead n) layout h.lists rfl
    have hboth := Family.init (i := Head.freepool n) layout hlist (by simp [initial])
    refine ⟨fun b hb => hboth.circ b ?_, hboth.once⟩
    cases b with
    | listhead i =>
      refine Or.inl ((Nat.lt_succ_iff_lt_or_eq.mp hb).imp id fun hi => ?_)
      exact congrArg Head.listhead hi
    | freepool i =>
      refine (Nat.lt_succ_iff_lt_or_eq.mp hb).imp Or.inl fun hi => ?_
      exact congrArg Head.freepool hi
  obtain ⟨hlists, hfrom, hheap⟩ := hheads.entries RX_ENTRIES_SIZE
  rw [initial_full] at hlists hfrom; exact ⟨hlists, hfrom, hheap⟩

theorem ready_initBuckets {malloc : Nat → Bool} {t₀ : Table} (hheap : t₀.heap = []) {n : Nat}
    (h : initBuckets malloc t₀ n = some t) : Ready n n 0 t := by
  induction n generalizing t with
  | zero =>
    cases h
    have hempty : ∀ b, initial 0 0 b = [] := by
      intro b
      cases b with
      | listhead i => rfl
      | freepool i => simp [initial]
    refine ⟨⟨nofun, ⟨fun b => ?_, fun {b c e} he => ?_⟩⟩, ?_, hheap⟩
    · rw [hempty]; exact nodup_nil
    · rw [hempty] at he; cases he
    · intro b e he
      rw [hempty] at he
      cases he
  | succ n ih =>
    obtain ⟨t₁, ht₁, hstep⟩ := bind_eq_some_iff.mp h
    split at hstep
    · cases hstep; exact (ih ht₁).bucket
    · exact absurd hstep (by simp)

theorem init_inv {malloc : Nat → Bool} {links : Links Node} {entry : Place → htt_rx_hash_entry}
    (h : htt_rx_hash_init malloc links entry = some t) :
    Inv t (initial RX_NUM_HASH_BUCKETS 0) [] := by
  obtain ⟨hlists, hfrom, hheap⟩ := ready_initBuckets rfl h
  refine ⟨⟨hlists, ?_, ?_, ?_, ?_, ?_, ?_⟩, fun i => rfl⟩
  · intro b i j he
    obtain ⟨i', k, heq, rfl, hor⟩ := mem_initial he
    obtain ⟨rfl, rfl⟩ := Place.entries.inj heq
    exact ⟨rfl, by omega⟩
  · intro i hi j hj
    refine Or.inl ?_
    simp [initial, hi, hj]
  · intro i k he
    obtain ⟨i', k', heq, -⟩ := mem_initial he
    exact absurd heq (by simp)
  · intro k
    rw [hheap]; simp [initial]
  · intro b e he
    rw [hfrom b e he]
    obtain ⟨i, k, rfl, -⟩ := mem_initial he
    rfl
  · rw [hheap]; exact nodup_nil

/-! ## Runs -/

structure St where
  table : Table
  /-- The pairs that were inserted and not yet looked up, in the order of insertion. -/
  out : List (UInt64 × Nat)

inductive Op where
  | insert (malloc : Option Nat) (paddr : UInt64) (netbuf : Nat)
  | lookup (paddr : UInt64)

def sameAddr (paddr : UInt64) (o : UInt64 × Nat) : Bool := o.1 == paddr

/-- The table takes the lower half of the address. A heap entry and a buffer that are
handed in are new ones: `cdf_mem_malloc` gives no memory that is in use, and
`htt_rx_ring_fill_n` inserts the buffer that it has just allocated. -/
def step (s : St) : Op → Option St
  | .insert malloc paddr netbuf =>
    if malloc.any (· ∈ s.table.heap) || netbuf ∈ s.out.map Prod.snd then none
    else
      (htt_rx_hash_list_insert s.table malloc paddr.toUInt32 netbuf).map fun t =>
        ⟨t, s.out ++ [(paddr, netbuf)]⟩
  | .lookup paddr =>
    (htt_rx_hash_list_lookup s.table (s.out.length + 1) paddr.toUInt32).map fun r =>
      ⟨r.1, s.out.eraseP (sameAddr paddr)⟩

def OneList (hold : Head → List Place) : Prop :=
  ∀ i < RX_NUM_HASH_BUCKETS, ∀ j < RX_ENTRIES_SIZE,
    Xor (.entries i j ∈ hold (.freepool i)) (.entries i j ∈ hold (.listhead i))

/-- The pairs are those in the table: the lists of the buckets are closed and hold them
in order, each preallocated entry is in one of the two lists of its bucket, and the heap
entries that are allocated are those in the lists. -/
def Represents (t : Table) (out : List (UInt64 × Nat)) : Prop :=
  ∃ hold, Inv t hold out ∧ OneList hold

theorem Inv.represents (h : Inv t hold out) : Represents t out := by
  refine ⟨hold, h, fun i hi j hj => ?_⟩
  rcases h.shape.complete i hi j hj with hfree | hlist
  · refine Or.inl ⟨hfree, fun hlist => h.shape.not_free hlist i hfree⟩
  · exact Or.inr ⟨hlist, h.shape.not_free hlist i⟩

/-- The lookup gives the earliest buffer for exactly this address, and only that one leaves
the table. A lookup that does not return is not exact. -/
def Exact (s : St) (paddr : UInt64) : Prop :=
  ∀ fuel, s.out.length < fuel →
    ∃ t' o, htt_rx_hash_list_lookup s.table fuel paddr.toUInt32 = some (t', o.2) ∧
      s.out.find? (sameAddr paddr) = some o ∧ Represents t' (s.out.eraseP (sameAddr paddr))

/-- There is a pair with the address, and no other address with the same lower bits comes
first. -/
def lowOk (out : List (UInt64 × Nat)) (paddr : UInt64) : Bool :=
  (out.find? (sameLow paddr.toUInt32)).any (sameAddr paddr)

def stepOk (s : St) : Op → Bool
  | .insert _ _ _ => true
  | .lookup paddr => lowOk s.out paddr

theorem sameLow_of_sameAddr {paddr : UInt64} {o : UInt64 × Nat} (h : sameAddr paddr o = true) :
    sameLow paddr.toUInt32 o = true := by
  have heq : o.1 = paddr := by simpa [sameAddr] using h
  simp [sameLow, heq]

/-- Where `lowOk` holds, both searches stop at the same pair. -/
theorem search_eq {paddr : UInt64} (h : lowOk out paddr = true) :
    ∃ o, out.find? (sameLow paddr.toUInt32) = some o ∧ out.find? (sameAddr paddr) = some o ∧
      out.eraseP (sameLow paddr.toUInt32) = out.eraseP (sameAddr paddr) := by
  induction out with
  | nil => exact absurd h (by simp [lowOk])
  | cons o out ih =>
    by_cases hlow : sameLow paddr.toUInt32 o = true
    · have haddr : sameAddr paddr o = true := by
        rw [lowOk, find?_cons_of_pos hlow] at h; exact h
      rw [find?_cons_of_pos hlow, find?_cons_of_pos haddr,
        eraseP_cons_of_pos hlow, eraseP_cons_of_pos haddr]
      exact ⟨o, rfl, rfl, rfl⟩
    · have haddr : ¬ sameAddr paddr o = true := fun ha => hlow (sameLow_of_sameAddr ha)
      rw [lowOk, find?_cons_of_neg hlow] at h
      obtain ⟨o', hfind, hfind', herase⟩ := ih h
      rw [find?_cons_of_neg hlow, find?_cons_of_neg haddr,
        eraseP_cons_of_neg hlow, eraseP_cons_of_neg haddr, herase]
      exact ⟨o', hfind, hfind', rfl⟩

/-- Buffers are different, so that the search by the lower bits finds the buffer of the
address only if it stops at the pair with the address. -/
theorem lowOk_of_found {paddr : UInt64} (hnd : (out.map Prod.snd).Nodup) {o o' : UInt64 × Nat}
    (hlow : out.find? (sameLow paddr.toUInt32) = some o)
    (haddr : out.find? (sameAddr paddr) = some o') (hbuf : o.2 = o'.2) : lowOk out paddr = true := by
  have hoo : o = o' :=
    inj_on_of_nodup_map hnd (mem_of_find?_eq_some hlow) (mem_of_find?_eq_some haddr) hbuf
  rw [lowOk, hlow, any_some, hoo]; exact find?_some haddr

structure RunInv (s : St) : Prop where
  represents : Represents s.table s.out
  nodup : (s.out.map Prod.snd).Nodup

theorem RunInv.exact_iff {s : St} (h : RunInv s) (paddr : UInt64) :
    Exact s paddr ↔ lowOk s.out paddr = true := by
  obtain ⟨hold, hinv, -⟩ := h.represents
  constructor
  · intro hex
    obtain ⟨t₂, o', hlook', haddr, -⟩ := hex _ (Nat.lt_succ_self s.out.length)
    have hlook := hinv.lookup paddr.toUInt32 (Nat.lt_succ_self s.out.length)
    cases hlow : s.out.find? (sameLow paddr.toUInt32) with
    | none => rw [hlow] at hlook; exact absurd (hlook'.symm.trans hlook) (by simp)
    | some o =>
      rw [hlow] at hlook
      obtain ⟨t₁, hlook, -⟩ := hlook
      rw [hlook, some.injEq, Prod.mk.injEq] at hlook'
      exact lowOk_of_found h.nodup hlow haddr hlook'.2
  · intro hok fuel hfuel
    obtain ⟨o, hlow, haddr, herase⟩ := search_eq hok
    have hlook := hinv.lookup paddr.toUInt32 hfuel
    rw [hlow] at hlook
    obtain ⟨t₁, hlook, hold', hinv'⟩ := hlook
    rw [herase] at hinv'; exact ⟨t₁, o, hlook, haddr, hinv'.represents⟩

theorem RunInv.step {s s' : St} {op : Op} (h : RunInv s) (hok : stepOk s op = true)
    (hs : step s op = some s') : RunInv s' := by
  cases op with
  | insert malloc paddr netbuf =>
    rw [RxHash.step] at hs
    split at hs
    · exact absurd hs (by simp)
    · next hnew =>
      simp only [Bool.or_eq_true, Option.any_eq_true, decide_eq_true_eq, not_or, not_exists,
        not_and] at hnew
      obtain ⟨hold, hinv, -⟩ := h.represents
      obtain ⟨t', hins, rfl⟩ := map_eq_some_iff.mp hs
      obtain ⟨hold', hinv'⟩ := (hinv.insert malloc hnew.1 (paddr, netbuf)).1 t' hins
      refine ⟨hinv'.represents, ?_⟩
      rw [map_append, map_singleton, nodup_append]
      refine ⟨h.nodup, nodup_singleton _, ?_⟩
      rintro b hb c hc rfl
      rw [mem_singleton] at hc
      rw [hc] at hb; exact hnew.2 hb
  | lookup paddr =>
    obtain ⟨t', o, hlook, -, hrep⟩ :=
      (h.exact_iff paddr).mpr hok _ (Nat.lt_succ_self s.out.length)
    rw [RxHash.step, hlook, map_some] at hs
    cases hs
    exact ⟨hrep, h.nodup.sublist (eraseP_sublist.map Prod.snd)⟩

/-- **The hash table is a multimap** of DMA addresses in a run whose lookups are all of
addresses that are in the table, with no other address of the same lower 32 bits first: in
each of its states the table holds the pairs that were inserted and not yet looked up, and a
lookup gives the earliest buffer for exactly the address, and takes out that one only, if and
only if the address is there and no other outstanding address with the same lower bits comes
first. A lookup of an address that is not there halts the kernel, or gives another buffer. -/
theorem hash_multimap {malloc : Nat → Bool} {links : Links Node}
    {entry : Place → htt_rx_hash_entry} {t₀ : Table}
    (hinit : htt_rx_hash_init malloc links entry = some t₀) (es : List Op) (s : St)
    (h : run (guarded (fun s op => stepOk s op = true) step) ⟨t₀, []⟩ es = some s) :
    Represents s.table s.out ∧ ∀ paddr, Exact s paddr ↔ lowOk s.out paddr = true := by
  have hinv : RunInv s := by
    refine guarded_run_invariant (fun s op s' hs hok hst => hs.step hok hst) ?_ h
    exact ⟨(init_inv hinit).represents, nodup_nil⟩
  exact ⟨hinv.represents, hinv.exact_iff⟩

section Inputs

theorem step_insert {s : St} (h : RunInv s) {k : Nat} (hk : k ∉ s.table.heap) {n : Nat}
    (hn : n ∉ s.out.map Prod.snd) (paddr : UInt64) :
    ∃ s', step s (.insert (some k) paddr n) = some s' ∧ s'.out = s.out ++ [(paddr, n)] := by
  obtain ⟨hold, hinv, -⟩ := h.represents
  have hsome := (hinv.insert (some k) (fun k' hk' => mem_some_iff.mp hk' ▸ hk) (paddr, n)).2
    (by simp)
  obtain ⟨t', hins⟩ := ne_none_iff_exists'.mp hsome
  rw [step, if_neg (by simpa [hk] using hn), hins]; exact ⟨_, rfl, rfl⟩

/-- An insert allocates at most the entry that it was offered. -/
theorem mem_heap_insert {t t' : Table} {malloc : Option Nat} {paddr : UInt32} {netbuf k : Nat}
    (h : htt_rx_hash_list_insert t malloc paddr netbuf = some t') (hk : k ∈ t'.heap) :
    k ∈ t.heap ∨ malloc = some k := by
  unfold htt_rx_hash_list_insert at h
  dsimp only at h
  split at h
  · obtain ⟨e, -, rfl⟩ := map_eq_some_iff.mp h; exact Or.inl hk
  · obtain ⟨k', hk', rfl⟩ := map_eq_some_iff.mp h
    rcases mem_cons.mp hk with rfl | hk
    · exact Or.inr hk'
    · exact Or.inl hk

theorem step_lookup {s : St} (h : RunInv s) {paddr : UInt64} (hlow : lowOk s.out paddr = true) :
    ∃ s', step s (.lookup paddr) = some s' ∧ s'.out = s.out.eraseP (sameAddr paddr) := by
  obtain ⟨t', o, hlook, -⟩ := (h.exact_iff paddr).mpr hlow _ (Nat.lt_succ_self s.out.length)
  rw [step, hlook]; exact ⟨_, rfl, rfl⟩

theorem init_some (links : Links Node) (entry : Place → htt_rx_hash_entry) :
    ∃ t, htt_rx_hash_init (fun _ => true) links entry = some t := by
  unfold htt_rx_hash_init
  induction RX_NUM_HASH_BUCKETS with
  | zero => exact ⟨_, rfl⟩
  | succ n ih =>
    obtain ⟨t, ht⟩ := ih
    exact ⟨initBucket t n, by rw [initBuckets, ht]; rfl⟩

def zeroLinks : Links Node := ⟨fun _ => .head (.listhead 0), fun _ => .head (.listhead 0)⟩

def zeroEntry : Place → htt_rx_hash_entry := fun _ => ⟨0, 0, false⟩

theorem posted_one : ∃ t₀ s, htt_rx_hash_init (fun _ => true) zeroLinks zeroEntry = some t₀ ∧
    RunInv ⟨t₀, []⟩ ∧ step ⟨t₀, []⟩ (.insert (some 0) 0x1000 1) = some s ∧
    s.out = [(0x1000, 1)] ∧ 1 ∉ s.table.heap := by
  obtain ⟨t₀, ht₀⟩ := init_some zeroLinks zeroEntry
  have hinv := init_inv ht₀
  have hrun : RunInv ⟨t₀, []⟩ := ⟨hinv.represents, nodup_nil⟩
  have hheap : ∀ k, k ∉ t₀.heap := by
    intro k
    rw [hinv.shape.heap k]
    rintro ⟨i, -, hi⟩; exact not_mem_nil hi
  obtain ⟨s, hs, hout⟩ := step_insert (n := 1) hrun (hheap 0) not_mem_nil 0x1000
  refine ⟨t₀, s, ht₀, hrun, hs, hout, fun hmem => ?_⟩
  rw [step, if_neg (by simp [hheap 0])] at hs
  obtain ⟨t', hins, rfl⟩ := map_eq_some_iff.mp hs
  rcases mem_heap_insert hins hmem with hmem | hmem
  · exact hheap 1 hmem
  · exact absurd hmem (by simp)

end Inputs

/-- The first of two addresses is looked up, and the buffer of the other one stays. -/
theorem hash_multimap_one :
    ∃ t₀ s, htt_rx_hash_init (fun _ => true) zeroLinks zeroEntry = some t₀ ∧
      run (guarded (fun s op => stepOk s op = true) step) ⟨t₀, []⟩
        [.insert (some 0) 0x1000 1, .insert (some 1) 0x2000 2, .lookup 0x1000] = some s ∧
      s.out = [(0x2000, 2)] ∧ Represents s.table s.out ∧ Exact s 0x2000 := by
  obtain ⟨t₀, s₁, ht₀, hrun, hs₁, hout₁, hheap₁⟩ := posted_one
  have hrun₁ := hrun.step rfl hs₁
  obtain ⟨s₂, hs₂, hout₂⟩ := step_insert (n := 2) hrun₁ hheap₁ (by rw [hout₁]; decide) 0x2000
  have hout₂ : s₂.out = [(0x1000, 1), (0x2000, 2)] := by rw [hout₂, hout₁]; rfl
  have hlow : lowOk s₂.out 0x1000 = true := by rw [hout₂]; decide
  obtain ⟨s₃, hs₃, hout₃⟩ := step_lookup (hrun₁.step rfl hs₂) hlow
  have hout : s₃.out = [(0x2000, 2)] := by rw [hout₃, hout₂]; decide
  have hall : run (guarded (fun s op => stepOk s op = true) step) ⟨t₀, []⟩
      [.insert (some 0) 0x1000 1, .insert (some 1) 0x2000 2, .lookup 0x1000] = some s₃ :=
    run_cons_eq_some.mpr ⟨s₁, guarded_eq_some.mpr ⟨rfl, hs₁⟩,
      run_cons_eq_some.mpr ⟨s₂, guarded_eq_some.mpr ⟨rfl, hs₂⟩,
        run_cons_eq_some.mpr ⟨s₃, guarded_eq_some.mpr ⟨hlow, hs₃⟩, rfl⟩⟩⟩
  obtain ⟨hrep, hex⟩ := hash_multimap ht₀ _ s₃ hall
  refine ⟨t₀, s₃, ht₀, hall, hout, hrep, (hex 0x2000).mpr ?_⟩
  rw [hout]; decide

/-- The lookup of an address 4 GiB above gives the buffer of the address 0x1000. -/
theorem high_address_confused :
    ∃ t₀ s, htt_rx_hash_init (fun _ => true) zeroLinks zeroEntry = some t₀ ∧
      run step ⟨t₀, []⟩ [.insert (some 0) 0x1000 1] = some s ∧ s.out = [(0x1000, 1)] ∧
      (∃ t', htt_rx_hash_list_lookup s.table 2 (0x100001000 : UInt64).toUInt32 = some (t', 1)) ∧
      ¬ Exact s 0x100001000 := by
  obtain ⟨t₀, s, ht₀, hrun, hs, hout, -⟩ := posted_one
  have hinv := hrun.step rfl hs
  refine ⟨t₀, s, ht₀, run_cons_eq_some.mpr ⟨s, hs, rfl⟩, hout, ?_, fun hex => ?_⟩
  · obtain ⟨hold, hinv, -⟩ := hinv.represents
    have hlook := hinv.lookup (0x100001000 : UInt64).toUInt32
      (show s.out.length < 2 by rw [hout]; decide)
    rw [hout] at hlook
    obtain ⟨t', hlook, -⟩ := hlook
    exact ⟨t', hlook⟩
  · have hlow := (hinv.exact_iff 0x100001000).mp hex
    rw [hout] at hlow; exact absurd hlow (by decide)

end Qcacld.RxHash
