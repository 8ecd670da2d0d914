/-
Striking elements off a list, one in a round.

A round looks at the elements in their order and has a verdict for each: it passes on, or stops, or
strikes the element off and stops as well.
-/
import Mathlib.Data.List.Basic

set_option autoImplicit false

namespace Qcacld.Lib.Strike

open List

inductive Verdict
  | pass
  | hit
  | stop
  deriving DecidableEq

variable {α : Type*} [DecidableEq α] (gone : α)

def strike (v : α → Verdict) : List α → List α
  | [] => []
  | a :: l =>
    if a = gone then a :: strike v l
    else
      match v a with
      | .pass => a :: strike v l
      | .hit => gone :: l
      | .stop => a :: l

def strikes (vs : List (α → Verdict)) (l : List α) : List α :=
  vs.foldl (fun l v => strike gone v l) l

def Hit (vs : List (α → Verdict)) (a : α) : Prop := ∃ v ∈ vs, v a = .hit
deriving Decidable

/-- No element but `gone` is there twice. -/
def Distinct (l : List α) : Prop := l.Pairwise fun a b => a ≠ gone → a ≠ b

/-- Each hit has a round of its own to be struck in, and what is in its way an earlier one. -/
def Scheduled (vs : List (α → Verdict)) (l : List α) : Prop :=
  ∃ round : α → ℕ, ∀ pre a post, l = pre ++ a :: post → a ≠ gone → Hit vs a →
    ∃ v, vs[round a]? = some v ∧ v a = .hit ∧
      ∀ b ∈ pre, b ≠ gone → v b ≠ .pass → Hit vs b ∧ round b < round a

/-! ## One round -/

variable {l : List α}

theorem strike_congr {v w : α → Verdict} (h : ∀ a ∈ l, a ≠ gone → v a = w a) :
    strike gone v l = strike gone w l := by
  induction l with
  | nil => rfl
  | cons a l ih =>
    have ih' := ih (fun b hb => h b (mem_cons_of_mem a hb))
    rw [strike, strike]
    by_cases ha : a = gone
    · rw [if_pos ha, if_pos ha, ih']
    · rw [if_neg ha, if_neg ha, h a mem_cons_self ha, ih']

variable {v : α → Verdict}

theorem strike_eq_self (h : ∀ a ∈ l, a ≠ gone → v a ≠ .hit) : strike gone v l = l := by
  induction l with
  | nil => rfl
  | cons a l ih =>
    have ih' := ih (fun b hb => h b (mem_cons_of_mem a hb))
    rw [strike]
    by_cases ha : a = gone
    · rw [if_pos ha, ih']
    · rw [if_neg ha]
      cases hv : v a with
      | pass => exact congrArg (a :: ·) ih'
      | hit => exact absurd hv (h a mem_cons_self ha)
      | stop => rfl

theorem pairwise_strike {R : α → α → Prop} (hl : ∀ b, R gone b) (hr : ∀ a, R a gone)
    (h : l.Pairwise R) : (strike gone v l).Pairwise R := by
  have hmem : ∀ (l : List α) (b : α), b ∈ strike gone v l → b = gone ∨ b ∈ l := by
    intro l
    induction l with
    | nil => exact fun b hb => Or.inr hb
    | cons a l ih =>
      intro b hb
      rw [strike] at hb
      split at hb
      · rcases mem_cons.mp hb with rfl | hb
        · exact Or.inr mem_cons_self
        · exact (ih b hb).imp_right (mem_cons_of_mem a)
      · split at hb
        · rcases mem_cons.mp hb with rfl | hb
          · exact Or.inr mem_cons_self
          · exact (ih b hb).imp_right (mem_cons_of_mem a)
        · exact (mem_cons.mp hb).imp_right (mem_cons_of_mem a)
        · exact Or.inr hb
  induction l with
  | nil => exact Pairwise.nil
  | cons a l ih =>
    obtain ⟨ha, hrest⟩ := pairwise_cons.mp h
    have hkept : ∀ b ∈ strike gone v l, R a b := by
      intro b hb
      rcases hmem l b hb with rfl | hb
      · exact hr a
      · exact ha b hb
    rw [strike]
    split
    · exact pairwise_cons.mpr ⟨hkept, ih hrest⟩
    · split
      · exact pairwise_cons.mpr ⟨hkept, ih hrest⟩
      · exact pairwise_cons.mpr ⟨fun b _ => hl b, hrest⟩
      · exact h

/-! ## Who is struck -/

def without (s l : List α) : List α := l.map fun a => if a ∈ s then gone else a

def first (v : α → Verdict) (s l : List α) : Option α :=
  l.find? fun a => decide (a ≠ gone ∧ a ∉ s ∧ v a ≠ .pass)

def after (v : α → Verdict) (l s : List α) : List α :=
  match first gone v s l with
  | some a => if v a = .hit then a :: s else s
  | none => s

def struck (vs : List (α → Verdict)) (l : List α) : List α :=
  vs.foldl (fun s v => after gone v l s) []

variable {a : α}

theorem without_cons_of_notMem {s l : List α} (h : a ∉ l) :
    without gone (a :: s) l = without gone s l := by
  refine map_congr_left fun b hb => ?_
  have hne : b ≠ a := fun heq => h (heq ▸ hb)
  simp only [mem_cons, hne, false_or]

theorem mem_after_of_mem {l s : List α} (h : a ∈ s) : a ∈ after gone v l s := by
  rw [after]
  split
  · split
    · exact mem_cons_of_mem _ h
    · exact h
  · exact h

theorem first_of_mem_after {l s : List α} (hs : a ∉ s) (h : a ∈ after gone v l s) :
    first gone v s l = some a ∧ v a = .hit := by
  rw [after] at h
  split at h
  · next b hb =>
      split at h
      · next hv =>
          rcases mem_cons.mp h with rfl | h
          · exact ⟨hb, hv⟩
          · exact absurd h hs
      · exact absurd h hs
  · exact absurd h hs

theorem after_cons_of_skipped {l s : List α} (h : ¬(a ≠ gone ∧ a ∉ s ∧ v a ≠ .pass)) :
    after gone v (a :: l) s = after gone v l s := by
  rw [after, after, first, find?_cons_of_neg (by simpa using h), first]

theorem after_cons_of_first {l s : List α} (h : a ≠ gone ∧ a ∉ s ∧ v a ≠ .pass) :
    after gone v (a :: l) s = if v a = .hit then a :: s else s := by
  rw [after, first, find?_cons_of_pos (by simpa using h)]

theorem mem_of_first {l s : List α} (h : first gone v s l = some a) : a ∈ l ∧ a ≠ gone := by
  have hcond := find?_some h
  simp only [decide_eq_true_eq] at hcond
  exact ⟨mem_of_find?_eq_some h, hcond.1⟩

theorem without_cons_of_in {s l : List α} (h : a = gone ∨ a ∈ s) :
    without gone s (a :: l) = gone :: without gone s l := by
  rw [without, map_cons]
  rcases h with rfl | h
  · rw [ite_self]; rfl
  · rw [if_pos h]; rfl

theorem without_cons_of_out {s l : List α} (h : a ∉ s) :
    without gone s (a :: l) = a :: without gone s l := by rw [without, map_cons, if_neg h]; rfl

theorem strike_without (hl : Distinct gone l) (s : List α) :
    strike gone v (without gone s l) = without gone (after gone v l s) l := by
  induction l with
  | nil => rfl
  | cons a l ih =>
    obtain ⟨ha, hrest⟩ := pairwise_cons.mp hl
    have ih' := ih hrest
    by_cases hin : a = gone ∨ a ∈ s
    · have hskip : ¬(a ≠ gone ∧ a ∉ s ∧ v a ≠ .pass) := by
        rintro ⟨hne, hnot, _⟩; exact hin.elim hne hnot
      have hin' : a = gone ∨ a ∈ after gone v l s := hin.imp_right (mem_after_of_mem gone)
      rw [without_cons_of_in gone hin, strike, if_pos rfl, after_cons_of_skipped gone hskip,
        without_cons_of_in gone hin', ih']
    · obtain ⟨hne, hnot⟩ := not_or.mp hin
      have hnotMem : a ∉ l := fun hmem => ha a hmem hne rfl
      rw [without_cons_of_out gone hnot, strike, if_neg hne]
      cases hv : v a with
      | pass =>
        have hnot' : a ∉ after gone v l s := by
          intro hmem; exact hnotMem (mem_of_first gone (first_of_mem_after gone hnot hmem).1).1
        rw [after_cons_of_skipped gone (fun h => h.2.2 hv), without_cons_of_out gone hnot', ← ih']
      | hit =>
        rw [after_cons_of_first gone ⟨hne, hnot, by rw [hv]; decide⟩, hv, if_pos rfl,
          without_cons_of_in gone (Or.inr mem_cons_self),
          without_cons_of_notMem gone hnotMem]
      | stop =>
        rw [after_cons_of_first gone ⟨hne, hnot, by rw [hv]; decide⟩, hv, if_neg (by decide),
          without_cons_of_out gone hnot]

theorem strikes_without (hl : Distinct gone l) (vs : List (α → Verdict)) (s : List α) :
    strikes gone vs (without gone s l) =
      without gone (vs.foldl (fun s v => after gone v l s) s) l := by
  induction vs generalizing s with
  | nil => rfl
  | cons v vs ih => exact (congrArg _ (strike_without gone hl s)).trans (ih _)

theorem strikes_eq_without (hl : Distinct gone l) (vs : List (α → Verdict)) :
    strikes gone vs l = without gone (struck gone vs l) l := by
  have hnil : without gone [] l = l := by
    rw [without]; simp only [not_mem_nil, if_false, map_id']
  rw [struck, ← strikes_without gone hl vs [], hnil]

theorem mem_foldl_after_of_mem (vs : List (α → Verdict)) {s : List α} (h : a ∈ s) :
    a ∈ vs.foldl (fun s v => after gone v l s) s := by
  induction vs generalizing s with
  | nil => exact h
  | cons v vs ih => exact ih (mem_after_of_mem gone h)

theorem hit_of_mem_foldl (vs : List (α → Verdict)) {s : List α} (hs : a ∉ s)
    (h : a ∈ vs.foldl (fun s v => after gone v l s) s) : Hit vs a ∧ a ≠ gone := by
  induction vs generalizing s with
  | nil => exact absurd h hs
  | cons v vs ih =>
    by_cases hmem : a ∈ after gone v l s
    · obtain ⟨hfirst, hv⟩ := first_of_mem_after gone hs hmem
      exact ⟨⟨v, mem_cons_self, hv⟩, (mem_of_first gone hfirst).2⟩
    · obtain ⟨⟨w, hw, hhit⟩, hne⟩ := ih hmem h; exact ⟨⟨w, mem_cons_of_mem v hw, hhit⟩, hne⟩

/-! ## Rounds -/

/-- The round in which `a` is struck when those of `s` are gone already. -/
def roundOf (l : List α) (a : α) : List (α → Verdict) → List α → ℕ
  | [], _ => 0
  | v :: vs, s => if a ∈ after gone v l s then 0 else roundOf l a vs (after gone v l s) + 1

omit [DecidableEq α] in
theorem Distinct.notMem {pre post : List α} (h : Distinct gone (pre ++ a :: post))
    (hne : a ≠ gone) : a ∉ pre :=
  fun hmem => (pairwise_append.mp h).2.2 a hmem a mem_cons_self hne rfl

theorem mem_of_before_first {pre post s : List α} {a b : α} (ha : a ∉ pre)
    (h : first gone v s (pre ++ a :: post) = some a) (hb : b ∈ pre) (hne : b ≠ gone)
    (hpass : v b ≠ .pass) : b ∈ s := by
  by_contra hnot
  rw [first, find?_append] at h
  cases hpre : pre.find? fun a => decide (a ≠ gone ∧ a ∉ s ∧ v a ≠ .pass) with
  | none => exact find?_eq_none.mp hpre b hb (by simpa using ⟨hne, hnot, hpass⟩)
  | some c =>
    rw [hpre, Option.some_or] at h; exact ha (Option.some.inj h ▸ mem_of_find?_eq_some hpre)

theorem first_eq_some {pre post s : List α} (ha : a ≠ gone ∧ a ∉ s ∧ v a ≠ .pass)
    (h : ∀ b ∈ pre, b ≠ gone → v b ≠ .pass → b ∈ s) :
    first gone v s (pre ++ a :: post) = some a := by
  have hpre : pre.find? (fun a => decide (a ≠ gone ∧ a ∉ s ∧ v a ≠ .pass)) = none := by
    rw [find?_eq_none]
    intro b hb hcond
    obtain ⟨hne, hnot, hpass⟩ := of_decide_eq_true hcond
    exact hnot (h b hb hne hpass)
  rw [first, find?_append, hpre, Option.none_or, find?_cons_of_pos (by simpa using ha)]

theorem roundOf_spec {pre post : List α} (ha : a ∉ pre) (vs : List (α → Verdict)) {s : List α}
    (hs : a ∉ s) (h : a ∈ vs.foldl (fun s v => after gone v (pre ++ a :: post) s) s) :
    ∃ v, vs[roundOf gone (pre ++ a :: post) a vs s]? = some v ∧ v a = .hit ∧
      ∀ b ∈ pre, b ≠ gone → v b ≠ .pass → b ∈ s ∨
        (b ∈ vs.foldl (fun s v => after gone v (pre ++ a :: post) s) s ∧
          roundOf gone (pre ++ a :: post) b vs s < roundOf gone (pre ++ a :: post) a vs s) := by
  induction vs generalizing s with
  | nil => exact absurd h hs
  | cons v vs ih =>
    by_cases hmem : a ∈ after gone v (pre ++ a :: post) s
    · obtain ⟨hfirst, hhit⟩ := first_of_mem_after gone hs hmem
      refine ⟨v, ?_, hhit, fun b hb hne hpass => Or.inl ?_⟩
      · rw [roundOf, if_pos hmem]; rfl
      · exact mem_of_before_first gone ha hfirst hb hne hpass
    · obtain ⟨w, hw, hhit, hbefore⟩ := ih hmem h
      refine ⟨w, ?_, hhit, fun b hb hne hpass => ?_⟩
      · rw [roundOf, if_neg hmem]; exact hw
      · by_cases hin : b ∈ s
        · exact Or.inl hin
        · right
          rcases hbefore b hb hne hpass with hb' | ⟨hstruck, hlt⟩
          · refine ⟨mem_foldl_after_of_mem gone vs hb', ?_⟩
            rw [roundOf, roundOf, if_pos hb', if_neg hmem]; exact Nat.succ_pos _
          · refine ⟨hstruck, ?_⟩
            rw [roundOf, roundOf, if_neg hmem]
            split
            · exact Nat.succ_pos _
            · exact Nat.succ_lt_succ hlt

variable {vs : List (α → Verdict)}

theorem struck_take_succ {t : ℕ} (h : vs[t]? = some v) :
    struck gone (vs.take (t + 1)) l = after gone v l (struck gone (vs.take t) l) := by
  rw [struck, struck, take_add_one, h, Option.toList_some, foldl_append, foldl_cons, foldl_nil]

theorem mem_struck_take {t : ℕ} (h : a ∈ struck gone (vs.take t) l) : a ∈ struck gone vs l := by
  have happ : vs = vs.take t ++ vs.drop t := (take_append_drop t vs).symm
  rw [happ, struck, foldl_append]; exact mem_foldl_after_of_mem gone _ h

theorem mem_struck_take_succ {t : ℕ} (h : a ∈ struck gone (vs.take t) l) :
    a ∈ struck gone (vs.take (t + 1)) l := by
  rw [struck, take_add_one, foldl_append]; exact mem_foldl_after_of_mem gone _ h

theorem mem_struck_of_round {round : α → ℕ}
    (hround : ∀ pre a post, l = pre ++ a :: post → a ≠ gone → Hit vs a →
      ∃ v, vs[round a]? = some v ∧ v a = .hit ∧
        ∀ b ∈ pre, b ≠ gone → v b ≠ .pass → Hit vs b ∧ round b < round a)
    {t : ℕ} (ha : a ∈ l) (hne : a ≠ gone) (hhit : Hit vs a) (ht : round a < t) :
    a ∈ struck gone (vs.take t) l := by
  induction t generalizing a with
  | zero => exact absurd ht (Nat.not_lt_zero _)
  | succ t ih =>
    obtain ⟨pre, post, rfl⟩ := append_of_mem ha
    obtain ⟨v, hv, hva, hbefore⟩ := hround pre a post rfl hne hhit
    by_cases hlt : round a < t
    · have hin := ih ha hne hhit hlt; exact mem_struck_take_succ gone hin
    · have heq : round a = t := by omega
      rw [heq] at hv
      rw [struck_take_succ gone hv]
      by_cases hin : a ∈ struck gone (vs.take t) (pre ++ a :: post)
      · exact mem_after_of_mem gone hin
      · have hfirst : first gone v (struck gone (vs.take t) (pre ++ a :: post)) (pre ++ a :: post) =
            some a := by
          refine first_eq_some gone ⟨hne, hin, by rw [hva]; decide⟩ fun b hb hbne hpass => ?_
          obtain ⟨hbhit, hblt⟩ := hbefore b hb hbne hpass
          exact ih (mem_append_left _ hb) hbne hbhit (heq ▸ hblt)
        rw [after, hfirst]
        dsimp only
        rw [if_pos hva]; exact mem_cons_self

/-- What is hit in some round is struck, and nothing else, exactly if the rounds can be given out
that way. -/
theorem strikes_eq_iff (hl : Distinct gone l) :
    strikes gone vs l = l.map (fun a => if Hit vs a then gone else a) ↔ Scheduled gone vs l := by
  have hall : strikes gone vs l = l.map (fun a => if Hit vs a then gone else a) ↔
      ∀ a ∈ l, a ≠ gone → Hit vs a → a ∈ struck gone vs l := by
    rw [strikes_eq_without gone hl, without, map_inj_left]
    refine forall₂_congr fun a _ => ?_
    constructor
    · intro heq hne hhit
      by_contra hnot
      rw [if_neg hnot, if_pos hhit] at heq; exact hne heq
    · intro himp
      by_cases hin : a ∈ struck gone vs l
      · rw [if_pos hin, if_pos (hit_of_mem_foldl gone vs not_mem_nil hin).1]
      · rw [if_neg hin]
        by_cases hhit : Hit vs a
        · rw [if_pos hhit]
          by_contra hne
          exact hin (himp hne hhit)
        · rw [if_neg hhit]
  rw [hall]
  constructor
  · intro hstruck
    refine ⟨fun a => roundOf gone l a vs [], ?_⟩
    rintro pre a post rfl hne hhit
    obtain ⟨v, hv, hva, hbefore⟩ :=
      roundOf_spec gone (hl.notMem gone hne) vs not_mem_nil
        (hstruck a (mem_append_right pre mem_cons_self) hne hhit)
    refine ⟨v, hv, hva, fun b hb hbne hpass => ?_⟩
    rcases hbefore b hb hbne hpass with hnil | ⟨hin, hlt⟩
    · cases hnil
    · exact ⟨(hit_of_mem_foldl gone vs not_mem_nil hin).1, hlt⟩
  · rintro ⟨round, hround⟩ a ha hne hhit
    exact mem_struck_take gone (mem_struck_of_round gone hround ha hne hhit (Nat.lt_succ_self _))

end Qcacld.Lib.Strike
