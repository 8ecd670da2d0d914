/-
Loops around a ring of slots.

`ringWhile` is the loop `while (idx != idx_end) { body(idx); idx = (idx + 1) & mask; }`, and a `do
... while` is one pass of the body before it.
-/
import Mathlib.Data.List.Nodup
import Mathlib.Data.Nat.ModEq

set_option autoImplicit false

namespace Qcacld.Lib

open List

variable {σ : Type*}

def ringWhile (mask idx_end : Nat) (body : Nat → σ → Option σ) : Nat → Nat → σ → Option σ
  | 0, _, _ => none
  | fuel + 1, idx, s =>
    if idx = idx_end then some s
    else (body idx s).bind fun s => ringWhile mask idx_end body fuel ((idx + 1) &&& mask) s

def ringDist (W idx idx_end : Nat) : Nat := (idx_end + W - idx) % W

/-- The slots `start`, `start + 1`, ..., `idx_end - 1` modulo `W`; the whole
window if it starts where it ends. -/
def visits (W start idx_end : Nat) : List Nat :=
  (range (if start = idx_end then W else ringDist W start idx_end)).map
    fun k => (start + k) % W

/-- The fold of a partial step over a list of slots. -/
def visitAll (body : Nat → σ → Option σ) : List Nat → σ → Option σ
  | [], s => some s
  | i :: l, s => (body i s).bind fun s => visitAll body l s

section Dist

variable {W idx idx_end : Nat}

theorem ringDist_self (h : idx < W) : ringDist W idx idx = 0 := by
  have : idx + W - idx = W := by omega
  rw [ringDist, this, Nat.mod_self]

theorem ringDist_succ (hi : idx < W) (he : idx_end < W) (hne : idx ≠ idx_end) :
    ringDist W idx idx_end = ringDist W ((idx + 1) % W) idx_end + 1 := by
  unfold ringDist
  rcases Nat.lt_or_ge idx idx_end with hlt | hge
  · have h1 : (idx + 1) % W = idx + 1 := Nat.mod_eq_of_lt (by omega)
    have h2 : idx_end + W - idx = (idx_end - idx) + W := by omega
    have h3 : idx_end + W - (idx + 1) = (idx_end - idx - 1) + W := by omega
    rw [h1, h2, h3, Nat.add_mod_right, Nat.add_mod_right, Nat.mod_eq_of_lt (by omega),
      Nat.mod_eq_of_lt (by omega)]
    omega
  · have h2 : (idx_end + W - idx) % W = idx_end + W - idx := Nat.mod_eq_of_lt (by omega)
    rcases Nat.lt_or_ge (idx + 1) W with hw | hw
    · rw [h2, Nat.mod_eq_of_lt hw, Nat.mod_eq_of_lt (by omega)]; omega
    · have hidx : idx + 1 = W := by omega
      rw [h2, hidx, Nat.mod_self, Nat.sub_zero, Nat.add_mod_right, Nat.mod_eq_of_lt he]; omega

theorem ringDist_lt (hi : idx < W) : ringDist W idx idx_end < W :=
  Nat.mod_lt _ (by omega)

theorem succ_mod_add (W idx k : Nat) : ((idx + 1) % W + k) % W = (idx + (k + 1)) % W := by
  rw [Nat.mod_add_mod, Nat.add_assoc, Nat.add_comm 1 k]

end Dist

section Loop

variable {W mask : Nat} {body : Nat → σ → Option σ}

theorem ringWhile_eq (hmask : ∀ x, x &&& mask = x % W) {idx_end : Nat} (he : idx_end < W)
    (fuel idx : Nat) (s : σ) (hi : idx < W) (hfuel : ringDist W idx idx_end < fuel) :
    ringWhile mask idx_end body fuel idx s
      = visitAll body ((range (ringDist W idx idx_end)).map fun k => (idx + k) % W) s := by
  induction fuel generalizing idx s with
  | zero => exact absurd hfuel (Nat.not_lt_zero _)
  | succ fuel ih =>
    unfold ringWhile
    by_cases hne : idx = idx_end
    · rw [if_pos hne, ← hne, ringDist_self hi]; rfl
    · have hd := ringDist_succ hi he hne
      have hlt : (idx + 1) % W < W := Nat.mod_lt _ (by omega)
      have hfirst : (idx + 0) % W = idx := Nat.mod_eq_of_lt hi
      rw [if_neg hne, hd, range_succ_eq_map, map_cons, map_map, visitAll, hfirst]
      refine congrArg (Option.bind _) (funext fun t => ?_)
      rw [hmask, ih _ t hlt (by omega)]
      refine congrArg (visitAll body · t) (map_congr_left fun k _ => ?_)
      exact succ_mod_add W idx k

theorem visits_eq_cons {start idx_end : Nat} (hs : start < W) (he : idx_end < W) :
    visits W start idx_end = start ::
      (range (ringDist W ((start + 1) % W) idx_end)).map
        fun k => ((start + 1) % W + k) % W := by
  have hlen : (if start = idx_end then W else ringDist W start idx_end)
      = ringDist W ((start + 1) % W) idx_end + 1 := by
    split
    · next h =>
      subst h
      -- all the way round: the distance from the next slot is `W - 1`
      rcases Nat.lt_or_ge (start + 1) W with hw | hw
      · have h2 : start + W - (start + 1) = W - 1 := by omega
        rw [ringDist, Nat.mod_eq_of_lt hw, h2, Nat.mod_eq_of_lt (by omega)]; omega
      · have hst : start + 1 = W := by omega
        rw [ringDist, hst, Nat.mod_self, Nat.sub_zero, Nat.add_mod_right, Nat.mod_eq_of_lt hs]
        omega
    · next h => exact ringDist_succ hs he h
  rw [visits, hlen, range_succ_eq_map, map_cons, map_map, Nat.add_zero, Nat.mod_eq_of_lt hs]
  refine congrArg (start :: ·) (map_congr_left fun k _ => ?_)
  exact (succ_mod_add W start k).symm

theorem do_while_eq (hmask : ∀ x, x &&& mask = x % W) {start idx_end : Nat} (hs : start < W)
    (he : idx_end < W) {fuel : Nat} (hfuel : W ≤ fuel) (s : σ) :
    ((body start s).bind fun s => ringWhile mask idx_end body fuel ((start + 1) &&& mask) s)
      = visitAll body (visits W start idx_end) s := by
  have hlt : (start + 1) % W < W := Nat.mod_lt _ (by omega)
  have hd : ringDist W ((start + 1) % W) idx_end < W := ringDist_lt hlt
  rw [visits_eq_cons hs he, visitAll]
  refine congrArg (Option.bind _) (funext fun t => ?_)
  rw [hmask, ringWhile_eq hmask he _ _ t hlt (by omega)]

end Loop

section Visits

variable {W start idx_end : Nat}

theorem visits_lt (hs : start < W) : ∀ i ∈ visits W start idx_end, i < W := by
  intro i hi
  obtain ⟨k, -, rfl⟩ := mem_map.mp hi
  exact Nat.mod_lt _ (by omega)

theorem visits_nodup (hs : start < W) : (visits W start idx_end).Nodup := by
  refine List.Nodup.map_on (fun j hj k hk h => ?_) nodup_range
  have hle : (if start = idx_end then W else ringDist W start idx_end) ≤ W := by
    split
    · exact Nat.le_refl W
    · exact Nat.le_of_lt (ringDist_lt hs)
  have hj := mem_range.mp hj
  have hk := mem_range.mp hk
  have hmod : j % W = k % W := Nat.ModEq.add_left_cancel' start h
  rwa [Nat.mod_eq_of_lt (by omega), Nat.mod_eq_of_lt (by omega)] at hmod

theorem mem_visits_self (hs : start < W) {i : Nat} (hi : i < W) : i ∈ visits W start start := by
  unfold visits
  rw [if_pos rfl]
  refine mem_map.mpr ⟨(i + W - start) % W, mem_range.mpr (Nat.mod_lt _ (by omega)), ?_⟩
  have hsum : start + (i + W - start) = i + W := by omega
  rw [Nat.add_mod_mod, hsum, Nat.add_mod_right, Nat.mod_eq_of_lt hi]

end Visits

end Qcacld.Lib
