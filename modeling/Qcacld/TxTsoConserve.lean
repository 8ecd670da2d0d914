/-
The pool of segment elements and the users of netbufs in runs of transmit calls and completions.

A call keeps both exactly when every jumbo netbuf that it gets elements for is segmented into as
many parts as it got elements, gets a descriptor for each, and has all but the last one sent
(`Meets`).
-/
import Qcacld.TxTso

set_option autoImplicit false

namespace Qcacld.TxTso

open Function List Option
open Lib

variable {κ : Type} [DecidableEq κ] {P : Nat} {p : TsoSegPool} {fl out : List Nat}
variable {path : Path} {m : Msdu κ} {msdus : List (Msdu κ)} {ret : List κ} {s s' : Pdev κ}
variable {is_tso : Bool} {fuel : Nat} {x : Nat}

/-! ## Preparing a netbuf -/

/-- `msdu_info.tso_info` of a jumbo netbuf that got its elements. -/
def jumboInfo (is_tso : Bool) (m : Msdu κ) (c : Option Nat) : TsoInfo :=
  { is_tso := if m.info.isSome then true else is_tso
    num_segs := m.info.getD m.num_seg
    curr_seg := c }

omit [DecidableEq κ] in
theorem prepare_got (hj : m.jumbo = true) (h : Holds P p fl out) (hn : m.num_seg ≤ fl.length) :
    ∃ p' c l, ol_tx_prepare_tso fuel p is_tso m = some (p', some (jumboInfo is_tso m c)) ∧
      Holds P p' (fl.drop m.num_seg) (l ++ out) ∧ Linked p'.next c l none ∧
      l.length = m.num_seg := by
  obtain ⟨p', c, l, hrun, h', hl, hlen⟩ := allocSegs_spec (l := []) m.num_seg h rfl
  refine ⟨p', c, l, ?_, h', hl, ?_⟩
  · rw [ol_tx_prepare_tso, if_pos hj, hrun, decide_eq_true hn]; rfl
  · rw [hlen, length_nil, Nat.min_eq_left hn, Nat.add_zero]

omit [DecidableEq κ] in
theorem prepare_short (hj : m.jumbo = true) (h : Holds P p fl out) (hn : fl.length < m.num_seg)
    (hfuel : P ≤ fuel) :
    ∃ p' fl', ol_tx_prepare_tso fuel p is_tso m = some (p', none) ∧ Holds P p' fl' out := by
  obtain ⟨p₁, c, l, hrun, h₁, hl, hlen⟩ := allocSegs_spec (l := []) m.num_seg h rfl
  have hle : l.length ≤ fuel := by
    have hP := h.length_add
    rw [hlen, length_nil]; omega
  obtain ⟨p', fl', hfree, h'⟩ := freeSegs_spec fuel h₁ hl hle
  refine ⟨p', fl', ?_, h'⟩
  rw [ol_tx_prepare_tso, if_pos hj, hrun, decide_eq_false (Nat.not_le.mpr hn)]
  change (freeSegs fuel p₁ c).map _ = _
  rw [hfree]; rfl

omit [DecidableEq κ] in
theorem prepare_plain (hj : m.jumbo = false) :
    ol_tx_prepare_tso fuel p is_tso m =
      some (p, some { is_tso := false, num_segs := 1, curr_seg := none }) := by
  rw [ol_tx_prepare_tso, hj]; rfl

/-! ## One netbuf of the list -/

variable {p' : TsoSegPool} {info : TsoInfo} {ok : Bool} {rest : List (Msdu κ)}

theorem sendMsdus_error (hprep : ol_tx_prepare_tso fuel s.pool is_tso m = some (p', none)) :
    sendMsdus path fuel is_tso (m :: rest) s =
      some ((m :: rest).map (·.id), { s with pool := p' }) := by rw [sendMsdus, hprep]; rfl

theorem sendMsdus_next {s₁ : Pdev κ}
    (hprep : ol_tx_prepare_tso fuel s.pool is_tso m = some (p', some info))
    (hsegs : sendSegs path m info.num_segs info { s with pool := p' } = some (ok, s₁)) :
    sendMsdus path fuel is_tso (m :: rest) s =
      if ok then sendMsdus path fuel info.is_tso rest s₁
      else some ((m :: rest).map (·.id), s₁) := by
  rw [sendMsdus, hprep, bind_some]
  change (sendSegs path m info.num_segs info { s with pool := p' }).bind _ = _
  rw [hsegs]; rfl

theorem sendMsdus_cases (h : sendMsdus path fuel is_tso (m :: rest) s = some (ret, s')) :
    (∃ p', ol_tx_prepare_tso fuel s.pool is_tso m = some (p', none) ∧
      ret = (m :: rest).map (·.id) ∧ s' = { s with pool := p' }) ∨
    ∃ p' info ok s₁, ol_tx_prepare_tso fuel s.pool is_tso m = some (p', some info) ∧
      sendSegs path m info.num_segs info { s with pool := p' } = some (ok, s₁) ∧
      (ok = true ∧ sendMsdus path fuel info.is_tso rest s₁ = some (ret, s') ∨
        ok = false ∧ ret = (m :: rest).map (·.id) ∧ s' = s₁) := by
  have hcall := h
  obtain ⟨⟨p', c⟩, hprep, hcall⟩ := bind_eq_some_iff.mp hcall
  cases c with
  | none =>
    rw [sendMsdus_error hprep] at h
    cases h
    exact Or.inl ⟨p', hprep, rfl, rfl⟩
  | some info =>
    obtain ⟨⟨ok, s₁⟩, hsegs, -⟩ := bind_eq_some_iff.mp hcall
    rw [sendMsdus_next hprep hsegs] at h
    refine Or.inr ⟨p', info, ok, s₁, hprep, hsegs, ?_⟩
    cases ok with
    | true => exact Or.inl ⟨rfl, h⟩
    | false => cases h; exact Or.inr ⟨rfl, rfl, rfl⟩

/-! ## When a call keeps pool and users -/

/-- The netbuf consists of as many segments as it got elements, each of them is known as one of a
jumbo netbuf, and no segment but the last can fail. -/
structure Msdu.Clean (m : Msdu κ) (is_tso : Bool) : Prop where
  pos : 0 < m.num_seg
  filled : m.info = some m.num_seg ∨ m.info = none ∧ is_tso = true
  through : Through m m.num_seg

/-- The functions differ in what they make of a failed send. -/
def Accepts (path : Path) (m : Msdu κ) : Prop := path = .ll ∨ m.sent 0 = true

def Meets (path : Path) : Nat → Bool → List (Msdu κ) → Prop
  | _, _, [] => True
  | free, is_tso, m :: rest =>
    if m.jumbo then
      free < m.num_seg ∨ m.Clean is_tso ∧
        (Accepts path m →
          Meets path (free - m.num_seg + if m.sent 0 then 0 else 1) true rest)
    else m.desc 0 = true → Accepts path m → Meets path free false rest

/-- Each netbuf of a call has one user for each segment in flight and, if it is returned, one for
the caller. -/
def Settled (s s' : Pdev κ) (msdus : List (Msdu κ)) (ret : List κ) : Prop :=
  ∀ x, refs s' x = refs s x - ((msdus.map (·.id)).count x : Nat) + (ret.count x : Nat)

theorem count_ids_cons (m : Msdu κ) (rest : List (Msdu κ)) (x : κ) :
    ((((m :: rest).map (·.id)).count x : Nat) : Int) =
      ((rest.map (·.id)).count x : Nat) + one m.id x := by
  rw [map_cons, count_cons, one]
  by_cases h : m.id = x
  · rw [if_pos (beq_iff_eq.mpr h), if_pos h.symm]; omega
  · rw [if_neg (mt beq_iff_eq.mp h), if_neg (Ne.symm h)]; omega

theorem settled_all (msdus : List (Msdu κ)) (h : ∀ x, refs s' x = refs s x) :
    Settled s s' msdus (msdus.map (·.id)) := by
  intro x
  rw [h x]; omega

theorem settled_cons {s₁ : Pdev κ} (h₁ : ∀ x, refs s₁ x = refs s x - one m.id x)
    (h : Settled s₁ s' msdus ret) : Settled s s' (m :: msdus) ret := by
  intro x
  rw [h x, h₁ x, count_ids_cons]; omega

omit [DecidableEq κ] in
theorem accepts_iff : (decide (path = .ll) || m.sent 0) = true ↔ Accepts path m := by
  rw [Bool.or_eq_true, decide_eq_true_iff]; rfl

theorem sendSegs_clean (path : Path) {c : Option Nat} {l : List Nat} (hc : m.Clean is_tso)
    (h : Holds P s.pool fl (l ++ segsOf s.inflight)) (hl : Linked s.pool.next c l none)
    (hlen : l.length = m.num_seg) :
    ∃ s' fl', sendSegs path m (jumboInfo is_tso m c).num_segs (jumboInfo is_tso m c) s =
        some (decide (path = .ll) || m.sent 0, s') ∧
      (jumboInfo is_tso m c).is_tso = true ∧
      Holds P s'.pool fl' (segsOf s'.inflight) ∧
      fl'.length = fl.length + (if m.sent 0 then 0 else 1) ∧
      ∀ x, refs s' x =
        refs s x - if (decide (path = .ll) || m.sent 0) = true then one m.id x else 0 := by
  have hinfo : (jumboInfo is_tso m c).is_tso = true ∧
      (jumboInfo is_tso m c).num_segs = m.num_seg := by
    rcases hc.filled with h | ⟨h, htso⟩
    · simp [jumboInfo, h]
    · simp [jumboInfo, h, htso]
  obtain ⟨n, hn⟩ := Nat.exists_eq_succ_of_ne_zero (Nat.ne_of_gt hc.pos)
  have hthrough := hc.through
  rw [hn] at hthrough
  rw [hinfo.2, hn]
  obtain ⟨s', fl', hrun, h', hfl⟩ :=
    sendSegs_sound n hinfo.1 hthrough h hl (Nat.le_of_eq (hn.symm.trans hlen.symm))
  rw [drop_eq_nil_of_le (Nat.le_of_eq (hlen.trans hn)), nil_append] at h'
  refine ⟨s', fl', hrun, hinfo.1, h', hfl, ?_⟩
  intro x
  rcases sendSegs_refs n hrun with ⟨hok, hrefs⟩ | ⟨hok, k, hk, hstop, hrefs⟩
  · rw [hrefs, if_pos hok]
  · -- the only segment at which a clean netbuf can stop is the last
    have hk0 : k = 0 := by
      by_contra hk0
      rcases hstop with hdesc | ⟨-, hsent⟩
      · exact absurd (hthrough.desc k (Nat.lt_succ_of_le hk)) (by simp [hdesc])
      · exact absurd (hthrough.sent k (Nat.pos_of_ne_zero hk0) (Nat.lt_succ_of_le hk))
          (by simp [hsent])
    rw [hrefs, if_pos hk0, if_neg (by simp [hok])]; omega

theorem sendMsdus_sound (hfuel : P ≤ fuel) (h : Holds P s.pool fl (segsOf s.inflight))
    (hm : Meets path fl.length is_tso msdus) :
    ∃ ret s' fl', sendMsdus path fuel is_tso msdus s = some (ret, s') ∧
      Holds P s'.pool fl' (segsOf s'.inflight) ∧ Settled s s' msdus ret := by
  induction msdus generalizing fl is_tso s with
  | nil => refine ⟨[], s, fl, rfl, h, ?_⟩; exact settled_all _ fun x => rfl
  | cons m rest ih =>
    rw [Meets] at hm
    split at hm
    · rename_i hj
      obtain hshort | hgot := Nat.lt_or_ge fl.length m.num_seg
      · obtain ⟨p', fl', hprep, h'⟩ := prepare_short hj h hshort hfuel
        exact ⟨_, _, fl', sendMsdus_error hprep, h', settled_all _ fun x => rfl⟩
      · obtain ⟨hclean, hrest⟩ := hm.resolve_left (Nat.not_lt.mpr hgot)
        obtain ⟨p', c, l, hprep, h₁, hl, hlen⟩ := prepare_got hj h hgot
        obtain ⟨s₂, fl₂, hrun, htso, h₂, hfl, hrefs⟩ :=
          sendSegs_clean path (s := { s with pool := p' }) hclean h₁ hl hlen
        rw [sendMsdus_next hprep hrun]
        split
        · rename_i hok
          have hrest' := hrest (accepts_iff.mp hok)
          rw [← length_drop, ← hfl] at hrest'
          rw [htso]
          obtain ⟨ret, s', fl', hrun', h', hset⟩ := ih h₂ hrest'
          refine ⟨ret, s', fl', hrun', h', settled_cons ?_ hset⟩
          intro x
          rw [hrefs, if_pos hok]; rfl
        · rename_i hok
          refine ⟨_, s₂, fl₂, rfl, h₂, settled_all _ ?_⟩
          intro x
          rw [hrefs, if_neg hok, Int.sub_zero]; rfl
    · rename_i hj
      let info : TsoInfo := { is_tso := false, num_segs := 1, curr_seg := none }
      obtain ⟨s₂, hrun⟩ := @sendSegs_one _ _ info path m s rfl
      obtain ⟨hpool, hsegs⟩ := sendSegs_std 1 rfl hrun
      have h₂ : Holds P s₂.pool fl (segsOf s₂.inflight) := by rw [hpool, hsegs]; exact h
      rw [sendMsdus_next (prepare_plain (eq_false_of_ne_true hj)) hrun]
      rcases sendSegs_refs 0 hrun with ⟨hok, hrefs⟩ | ⟨hok, k, hk, -, hrefs⟩
      · rw [if_pos hok]
        have hboth := Bool.and_eq_true_iff.mp hok
        have hrest := hm hboth.1 (accepts_iff.mp hboth.2)
        obtain ⟨ret, s', fl', hrun', h', hset⟩ := ih h₂ hrest
        exact ⟨ret, s', fl', hrun', h', settled_cons hrefs hset⟩
      · rw [if_neg (by simp [hok])]
        refine ⟨_, s₂, fl, rfl, h₂, settled_all _ ?_⟩
        intro x
        rw [hrefs, if_pos (Nat.le_zero.mp hk), Int.add_zero]

/-! ## What other calls leave behind -/

theorem sendMsdus_refs_ge (h : sendMsdus path fuel is_tso msdus s = some (ret, s')) (x : κ) :
    refs s x - ((msdus.map (·.id)).count x : Nat) + (ret.count x : Nat) ≤ refs s' x := by
  induction msdus generalizing is_tso s with
  | nil => cases h; exact Int.le_of_eq (settled_all [] (fun _ => rfl) x).symm
  | cons m rest ih =>
    have hone := one_nonneg m.id x
    rcases sendMsdus_cases h with ⟨p', -, rfl, rfl⟩ | ⟨p', info, ok, s₁, -, hsegs, hrest⟩
    · exact Int.le_of_eq (settled_all _ (fun _ => rfl) x).symm
    · have hrefs : refs s x - (if ok then one m.id x else 0) ≤ refs s₁ x := by
        cases hn : info.num_segs with
        | zero =>
          rw [hn] at hsegs
          cases hsegs
          exact Int.sub_le_self _ hone
        | succ n =>
          rw [hn] at hsegs
          rcases sendSegs_refs n hsegs with ⟨rfl, hrefs⟩ | ⟨rfl, k, -, -, hrefs⟩
          · exact Int.le_of_eq (hrefs x).symm
          · rw [hrefs x]
            change refs s x - 0 ≤ refs s x + _
            split <;> omega
      rcases hrest with ⟨rfl, hrun⟩ | ⟨rfl, rfl, rfl⟩
      · have hle := ih hrun
        rw [count_ids_cons]; omega
      · rw [if_neg (by decide)] at hrefs; omega

theorem Lost.sendMsdus (h : Lost P x none s)
    (hrun : sendMsdus path fuel is_tso msdus s = some (ret, s')) : Lost P x none s' := by
  induction msdus generalizing is_tso s with
  | nil => cases hrun; exact h
  | cons m rest ih =>
    have hnone : ∀ {F : Nat → Prop}, ∀ a ∈ (none : Option Nat), F a :=
      fun a ha => absurd ha (not_mem_none a)
    obtain ⟨hx, F, hin, -, hsegs⟩ := h
    have hprep : ∀ {p' c}, ol_tx_prepare_tso fuel s.pool is_tso m = some (p', c) →
        Inside (Others P x) F p' ∧ ∀ info ∈ c, ∀ a ∈ info.curr_seg, F a := by
      intro p' c hp
      rw [ol_tx_prepare_tso] at hp
      split at hp
      · split at hp
        · rename_i p₁ lst halloc
          obtain ⟨h₁, hlst⟩ := hin.allocSegs m.num_seg hnone halloc
          obtain ⟨p₂, hfree, heq⟩ := map_eq_some_iff.mp hp
          obtain ⟨rfl, rfl⟩ := Prod.mk.inj heq
          exact ⟨h₁.freeSegs fuel hlst hfree, fun info hi => absurd hi (not_mem_none info)⟩
        · rename_i p₁ lst halloc
          obtain ⟨h₁, hlst⟩ := hin.allocSegs m.num_seg hnone halloc
          cases hp
          refine ⟨h₁, ?_⟩
          intro info hi; exact some.inj hi ▸ hlst
      · cases hp
        refine ⟨hin, ?_⟩
        intro info hi; exact some.inj hi ▸ hnone
    rcases sendMsdus_cases hrun with ⟨p', hp, -, rfl⟩ | ⟨p', info, ok, s₁, hp, hs, hrest⟩
    · exact ⟨hx, F, (hprep hp).1, hnone, hsegs⟩
    · obtain ⟨hin', hcurr⟩ := hprep hp
      have h₁ : Lost P x none s₁ := by
        refine Lost.sendSegs (s := { s with pool := p' }) info.num_segs
          ⟨hx, F, hin', hnone, hsegs⟩ ?_ hs
        exact fun _ => ⟨hx, F, hin', hcurr info rfl, hsegs⟩
      rcases hrest with ⟨-, hrun'⟩ | ⟨-, -, rfl⟩
      · exact ih h₁ hrun'
      · exact h₁

theorem sendSegs_unclean {c : Option Nat} {l : List Nat} (hc : ¬ m.Clean is_tso)
    (hpos : 0 < m.num_seg) (h : Holds P s.pool fl (l ++ segsOf s.inflight))
    (hl : Linked s.pool.next c l none) (hlen : l.length = m.num_seg)
    (hrun : sendSegs path m (jumboInfo is_tso m c).num_segs (jumboInfo is_tso m c) s =
      some (ok, s')) : ∃ x, Lost P x none s' := by
  obtain ⟨a, l, rfl⟩ := exists_cons_of_ne_nil (ne_nil_of_length_pos (hlen ▸ hpos))
  have hnone : ∀ b ∈ (none : Option Nat), b ∈ fl := fun b hb => absurd hb (not_mem_none b)
  have hfirst : Lost P a none s := h.lost (fun b hb => mem_append_right l hb) hnone
  cases hinfo : m.info with
  | none =>
    cases is_tso with
    | false =>
      -- the segments go out as frames of their own, without the elements
      refine ⟨a, Lost.sendSegs _ hfirst (fun htso => ?_) hrun⟩
      simp [jumboInfo, hinfo] at htso
    | true =>
      have hthrough : ¬ Through m m.num_seg :=
        fun ht => hc ⟨hpos, Or.inr ⟨hinfo, rfl⟩, ht⟩
      have hn : (jumboInfo true m c).num_segs = m.num_seg := by simp [jumboInfo, hinfo]
      rw [hn] at hrun
      exact sendSegs_lost m.num_seg (by simp [jumboInfo]) hthrough h hl
        (Nat.le_of_eq hlen.symm) hrun
  | some k =>
    have hk : k ≤ m.num_seg := m.info_le k hinfo
    have hn : (jumboInfo is_tso m c).num_segs = k := by simp [jumboInfo, hinfo]
    have htso : (jumboInfo is_tso m c).is_tso = true := by simp [jumboInfo, hinfo]
    rw [hn] at hrun
    by_cases ht : Through m k
    · have hlt : k < m.num_seg := by
        apply Nat.lt_of_le_of_ne hk
        rintro rfl; exact hc ⟨hpos, Or.inl hinfo, ht⟩
      cases k with
      | zero => cases hrun; exact ⟨a, hfirst⟩
      | succ k =>
        -- the elements after the last segment are nobody's
        obtain ⟨s₂, fl₂, hrun₂, h₂, -⟩ :=
          sendSegs_sound k htso ht h hl (hlen ▸ hk)
        obtain ⟨-, rfl⟩ := Prod.mk.inj (some.inj (hrun.symm.trans hrun₂))
        have hrest : 0 < ((a :: l).drop (k + 1)).length := by rw [length_drop, hlen]; omega
        obtain ⟨b, l₂, hb⟩ := exists_cons_of_ne_nil (ne_nil_of_length_pos hrest)
        rw [hb] at h₂
        exact ⟨b, h₂.lost (fun y hy => mem_append_right l₂ hy)
          fun y hy => absurd hy (not_mem_none y)⟩
    · exact sendSegs_lost k htso ht h hl (hlen ▸ hk) hrun

/-- A call that does not meet the condition loses an element or leaves a netbuf with a user too
many. -/
theorem sendMsdus_unsound (h : Holds P s.pool fl (segsOf s.inflight))
    (hm : ¬ Meets path fl.length is_tso msdus)
    (hrun : sendMsdus path fuel is_tso msdus s = some (ret, s')) :
    (∃ x, Lost P x none s') ∨
      ∃ y, refs s y - ((msdus.map (·.id)).count y : Nat) + (ret.count y : Nat) < refs s' y := by
  induction msdus generalizing fl is_tso s with
  | nil => exact absurd trivial hm
  | cons m rest ih =>
    -- a rest that goes wrong after a netbuf that has given one user away
    have hlater : ∀ {s₁ fl₁ tso}, Holds P s₁.pool fl₁ (segsOf s₁.inflight) →
        ¬ Meets path fl₁.length tso rest → (∀ x, refs s₁ x = refs s x - one m.id x) →
        sendMsdus path fuel tso rest s₁ = some (ret, s') → (∃ x, Lost P x none s') ∨
          ∃ y, refs s y - (((m :: rest).map (·.id)).count y : Nat) + (ret.count y : Nat) <
            refs s' y := by
      intro s₁ fl₁ tso h₁ hm₁ hrefs hrun₁
      rcases ih h₁ hm₁ hrun₁ with hlost | ⟨y, hy⟩
      · exact Or.inl hlost
      · refine Or.inr ⟨y, ?_⟩
        rw [hrefs] at hy
        rw [count_ids_cons]; omega
    rw [Meets] at hm
    split at hm
    · rename_i hj
      rw [not_or, Nat.not_lt] at hm
      obtain ⟨hgot, hm⟩ := hm
      obtain ⟨p', c, l, hprep, h₁, hl, hlen⟩ := prepare_got hj h hgot
      rcases sendMsdus_cases hrun with ⟨_, hp, -, -⟩ | ⟨p₁, info, ok, s₁, hp, hs, hrest⟩
      · cases hprep.symm.trans hp
      obtain ⟨rfl, hsome⟩ := Prod.mk.inj (some.inj (hp.symm.trans hprep))
      cases hsome
      by_cases hclean : m.Clean is_tso
      · obtain ⟨s₂, fl₂, hrun₂, htso, h₂, hfl, hrefs⟩ :=
          sendSegs_clean path (s := { s with pool := p₁ }) hclean h₁ hl hlen
        obtain ⟨rfl, rfl⟩ := Prod.mk.inj (some.inj (hs.symm.trans hrun₂))
        obtain ⟨hacc, hm⟩ : Accepts path m ∧
            ¬ Meets path (fl.length - m.num_seg + if m.sent 0 then 0 else 1) true rest := by
          by_contra hnot
          exact hm ⟨hclean, fun hacc => by_contra fun hno => hnot ⟨hacc, hno⟩⟩
        have hok := accepts_iff.mpr hacc
        rcases hrest with ⟨-, hrun'⟩ | ⟨hno, -, -⟩
        · rw [← length_drop, ← hfl] at hm
          rw [htso] at hrun'
          apply hlater h₂ hm ?_ hrun'
          intro x
          rw [hrefs, if_pos hok]; rfl
        · exact absurd hno (by simp [hok])
      · obtain hzero | hpos := Nat.eq_zero_or_pos m.num_seg
        · -- nothing is sent of the netbuf, and it is not returned
          have hinfo : m.info.getD m.num_seg = 0 := by
            cases hi : m.info with
            | none => exact hzero
            | some k => exact Nat.le_zero.mp (hzero ▸ m.info_le k hi)
          change sendSegs path m (m.info.getD m.num_seg) _ _ = _ at hs
          rw [hinfo] at hs
          cases hs
          rcases hrest with ⟨-, hrun'⟩ | ⟨hno, -, -⟩
          · refine Or.inr ⟨m.id, ?_⟩
            have hge := sendMsdus_refs_ge hrun' m.id
            have hone : one m.id m.id = 1 := if_pos rfl
            change refs s m.id - _ + _ ≤ _ at hge
            rw [count_ids_cons, hone]; omega
          · cases hno
        · obtain ⟨x, hlost⟩ := sendSegs_unclean hclean hpos h₁ hl hlen hs
          rcases hrest with ⟨-, hrun'⟩ | ⟨-, -, rfl⟩
          · exact Or.inl ⟨x, hlost.sendMsdus hrun'⟩
          · exact Or.inl ⟨x, hlost⟩
    · rename_i hj
      have hboth : m.desc 0 = true ∧ Accepts path m ∧ ¬ Meets path fl.length false rest := by
        by_contra hnot
        exact hm fun hdesc hacc => by_contra fun hno => hnot ⟨hdesc, hacc, hno⟩
      obtain ⟨hdesc, hacc, hm⟩ := hboth
      let plain : TsoInfo := { is_tso := false, num_segs := 1, curr_seg := none }
      obtain ⟨s₂, hrun₂⟩ := @sendSegs_one _ _ plain path m s rfl
      obtain ⟨hpool, hsegs⟩ := sendSegs_std 1 rfl hrun₂
      have h₂ : Holds P s₂.pool fl (segsOf s₂.inflight) := by rw [hpool, hsegs]; exact h
      have hok : (m.desc 0 && (decide (path = .ll) || m.sent 0)) = true :=
        Bool.and_eq_true_iff.mpr ⟨hdesc, accepts_iff.mpr hacc⟩
      rw [sendMsdus_next (prepare_plain (eq_false_of_ne_true hj)) hrun₂, if_pos hok] at hrun
      rcases sendSegs_refs 0 hrun₂ with ⟨-, hrefs⟩ | ⟨hno, -⟩
      · exact hlater h₂ hm hrefs hrun
      · exact absurd hno (by simp [hok])

/-! ## Completions -/

variable {d : TxDesc κ}

theorem txComplete_inflight (s : Pdev κ) (d : TxDesc κ) :
    (txComplete s d).inflight = s.inflight.erase d :=
  frame_free_inflight { s with inflight := s.inflight.erase d } d

theorem txComplete_pool (s : Pdev κ) (d : TxDesc κ) :
    (txComplete s d).pool = d.seg.elim s.pool (ol_tso_free_segment s.pool) :=
  frame_free_pool { s with inflight := s.inflight.erase d } d

theorem segsOf_erase_perm (hd : d ∈ s.inflight) :
    (segsOf s.inflight).Perm (d.seg.toList ++ segsOf (s.inflight.erase d)) := by
  rw [← segsOf_cons]; exact (perm_cons_erase hd).filterMap TxDesc.seg

theorem txComplete_holds (hd : d ∈ s.inflight) (h : Holds P s.pool fl (segsOf s.inflight)) :
    ∃ fl', Holds P (txComplete s d).pool fl' (segsOf (txComplete s d).inflight) := by
  have h' := h.of_perm (segsOf_erase_perm hd).symm
  rw [txComplete_pool, txComplete_inflight]
  cases hseg : d.seg with
  | none => rw [hseg] at h'; exact ⟨fl, h'⟩
  | some a => rw [hseg] at h'; exact ⟨a :: fl, h'.free⟩

theorem refs_txComplete (hd : d ∈ s.inflight) (x : κ) : refs (txComplete s d) x = refs s x := by
  rw [txComplete, refs_frame_free]
  have hcount := ((perm_cons_erase hd).map (·.netbuf)).count_eq x
  rw [map_cons, count_cons] at hcount
  have herase : refs { s with inflight := s.inflight.erase d } x =
      s.users x - (((s.inflight.erase d).map (·.netbuf)).count x : Nat) := rfl
  rw [herase, one, refs]
  by_cases h : d.netbuf = x
  · rw [if_pos (beq_iff_eq.mpr h)] at hcount
    rw [if_pos h.symm]; omega
  · rw [if_neg (mt beq_iff_eq.mp h)] at hcount
    rw [if_neg (Ne.symm h)]; omega

theorem Lost.txComplete (hd : d ∈ s.inflight) (h : Lost P x none s) :
    Lost P x none (txComplete s d) := by
  obtain ⟨hx, F, hin, -, hsegs⟩ := h
  have hperm := segsOf_erase_perm hd
  have hnone : ∀ {F : Nat → Prop}, ∀ a ∈ (none : Option Nat), F a :=
    fun a ha => absurd ha (not_mem_none a)
  have hrest : ∀ a ∈ segsOf (TxTso.txComplete s d).inflight, Others P x a := by
    intro a ha
    rw [txComplete_inflight] at ha; exact hsegs a (hperm.mem_iff.mpr (mem_append_right _ ha))
  cases hseg : d.seg with
  | none =>
    refine ⟨hx, F, ?_, hnone, hrest⟩
    rw [txComplete_pool, hseg]; exact hin
  | some a =>
    have ha : Others P x a := by
      apply hsegs a (hperm.mem_iff.mpr ?_)
      rw [hseg]; exact mem_append_left _ mem_cons_self
    refine ⟨hx, fun b => F b ∨ b = a, ?_, hnone, hrest⟩
    rw [txComplete_pool, hseg]; exact hin.free ha

/-! ## The pool as a whole -/

/-- In whatever order the descriptors in flight complete, all `P` elements are in the free list
then, and the counter is back where it started. -/
def Restored (P : Nat) (s : Pdev κ) : Prop :=
  ∀ ds : List (TxDesc κ), ds.Perm s.inflight →
    (∃ fl, Linked (ds.foldl txComplete s).pool.next (ds.foldl txComplete s).pool.freelist fl none ∧
      fl.length = P) ∧
    (ds.foldl txComplete s).pool.num_free = (ol_tso_seg_list_init P).num_free

omit [DecidableEq κ] in
def Counted (s : Pdev κ) : Prop :=
  ∃ fl, Linked s.pool.next s.pool.freelist fl none ∧ s.pool.num_free = UInt16.ofNat fl.length

theorem restored_of_holds (h : Holds P s.pool fl (segsOf s.inflight)) : Restored P s := by
  intro ds
  induction ds generalizing s fl with
  | nil =>
    intro hperm
    rw [← hperm.nil_eq] at h
    have hlen : fl.length = P := h.length_add
    refine ⟨⟨fl, h.linked, hlen⟩, ?_⟩
    change s.pool.num_free = 0
    rw [h.count, hlen]; exact UInt16.sub_self _
  | cons d ds ih =>
    intro hperm
    have hd : d ∈ s.inflight := hperm.mem_iff.mp mem_cons_self
    obtain ⟨fl', h'⟩ := txComplete_holds hd h
    apply ih h'
    rw [txComplete_inflight]; exact (cons_perm_iff_perm_erase.mp hperm).2

theorem Lost.not_restored (h : Lost P x none s) : ¬ Restored P s := by
  intro hres
  obtain ⟨⟨fl, hl, hlen⟩, -⟩ := hres s.inflight (Perm.refl _)
  have hrun : ∀ (ds : List (TxDesc κ)) (s : Pdev κ), ds.Perm s.inflight → Lost P x none s →
      Lost P x none (ds.foldl TxTso.txComplete s) := by
    intro ds
    induction ds with
    | nil => exact fun s _ h => h
    | cons d ds ih =>
      intro s hperm h
      apply ih
      · rw [txComplete_inflight]; exact (cons_perm_iff_perm_erase.mp hperm).2
      · exact h.txComplete (hperm.mem_iff.mp mem_cons_self)
  obtain ⟨hx, F, hin, -⟩ := hrun s.inflight s (Perm.refl _) h
  exact absurd hlen (Nat.ne_of_lt (hin.length_lt hx hl))

omit [DecidableEq κ] in
theorem counted_iff (h : Holds P s.pool fl out) : Counted s ↔ 65536 ∣ P := by
  have hcount := h.count
  have hzero : UInt16.ofNat P = 0 ↔ 65536 ∣ P := by
    rw [← UInt16.toNat_inj, UInt16.toNat_ofNat', Nat.dvd_iff_mod_eq_zero]; rfl
  rw [← hzero]
  constructor
  · rintro ⟨fl', hl', hn⟩
    obtain rfl := linked_unique hl' h.linked
    grind
  · intro hP
    refine ⟨fl, h.linked, ?_⟩
    grind

/-! ## Runs -/

def transmit (path : Path) (fuel : Nat) (is_tso : Bool) (msdu_list : List (Msdu κ)) (s : Pdev κ) :
    Option (List κ × Pdev κ) :=
  match path with
  | .ll => ol_tx_ll fuel is_tso msdu_list s
  | .ll_fast => ol_tx_ll_fast fuel is_tso msdu_list s

theorem transmit_eq : transmit path fuel is_tso msdus s = sendMsdus path fuel is_tso msdus s := by
  cases path <;> rfl

omit [DecidableEq κ] in
def available (P : Nat) (s : Pdev κ) : Nat := P - (segsOf s.inflight).length

/-- The states of runs whose calls all meet the condition. -/
inductive Reached (P : Nat) : Pdev κ → Prop
  | init (users : κ → Int) : Reached P (Pdev.init P users)
  | call {s s' : Pdev κ} {path : Path} {fuel : Nat} {is_tso : Bool} {msdus : List (Msdu κ)}
      {ret : List κ} (hs : Reached P s) (hm : Meets path (available P s) is_tso msdus)
      (hrun : transmit path fuel is_tso msdus s = some (ret, s')) : Reached P s'
  | complete {s : Pdev κ} {d : TxDesc κ} (hs : Reached P s) (hd : d ∈ s.inflight) :
      Reached P (txComplete s d)

omit [DecidableEq κ] in
theorem freeSegs_mono {fuel' : Nat} {c : Option Nat} {p' : TsoSegPool}
    (h : freeSegs fuel p c = some p') (hle : fuel ≤ fuel') : freeSegs fuel' p c = some p' := by
  induction fuel generalizing p c fuel' with
  | zero =>
    cases c with
    | none =>
      unfold freeSegs at h ⊢
      exact h
    | some a => cases h
  | succ fuel ih =>
    cases c with
    | none =>
      unfold freeSegs at h ⊢
      exact h
    | some a =>
      obtain ⟨k, rfl⟩ := Nat.exists_eq_succ_of_ne_zero (Nat.ne_zero_of_lt hle)
      rw [freeSegs] at h ⊢
      exact ih h (Nat.le_of_succ_le_succ hle)

theorem sendMsdus_mono {fuel' : Nat} (h : sendMsdus path fuel is_tso msdus s = some (ret, s'))
    (hle : fuel ≤ fuel') : sendMsdus path fuel' is_tso msdus s = some (ret, s') := by
  induction msdus generalizing is_tso s with
  | nil => exact h
  | cons m rest ih =>
    have hprep : ∀ {r}, ol_tx_prepare_tso fuel s.pool is_tso m = some r →
        ol_tx_prepare_tso fuel' s.pool is_tso m = some r := by
      intro r hr
      rw [ol_tx_prepare_tso] at hr ⊢
      split at hr
      · rename_i hj
        rw [if_pos hj]
        split at hr
        · obtain ⟨p', hfree, rfl⟩ := map_eq_some_iff.mp hr
          rw [freeSegs_mono hfree hle]; rfl
        · exact hr
      · rename_i hj; rwa [if_neg hj]
    rcases sendMsdus_cases h with ⟨p', hp, rfl, rfl⟩ | ⟨p', info, ok, s₁, hp, hs, hrest⟩
    · exact sendMsdus_error (hprep hp)
    · rw [sendMsdus_next (hprep hp) hs]
      rcases hrest with ⟨rfl, hrun⟩ | ⟨rfl, rfl, rfl⟩
      · exact ih hrun
      · rfl

omit [DecidableEq κ] in
theorem available_eq (h : Holds P s.pool fl (segsOf s.inflight)) : available P s = fl.length := by
  have hlen := h.length_add
  unfold available; omega

/-- Whatever fuel a call has needed, it has kept the pool and the users when it met the
condition. -/
theorem transmit_sound (h : Holds P s.pool fl (segsOf s.inflight))
    (hm : Meets path (available P s) is_tso msdus)
    (hrun : transmit path fuel is_tso msdus s = some (ret, s')) :
    (∃ fl', Holds P s'.pool fl' (segsOf s'.inflight)) ∧ Settled s s' msdus ret := by
  rw [available_eq h] at hm
  rw [transmit_eq] at hrun
  obtain ⟨ret', t, fl', hrun', h', hset⟩ := sendMsdus_sound (Nat.le_max_right fuel P) h hm
  have hsame := (sendMsdus_mono hrun (Nat.le_max_left fuel P)).symm.trans hrun'
  cases hsame
  exact ⟨⟨fl', h'⟩, hset⟩

theorem Reached.holds (hP : 0 < P) (h : Reached P s) :
    ∃ fl, Holds P s.pool fl (segsOf s.inflight) := by
  induction h with
  | init users => exact ⟨range P, holds_init hP⟩
  | call _ hm hrun ih => obtain ⟨fl, hfl⟩ := ih; exact (transmit_sound hfl hm hrun).1
  | complete _ hd ih => obtain ⟨fl, hfl⟩ := ih; exact txComplete_holds hd hfl

/-- **Segment elements and users.** In every run whose calls meet the condition the elements come
back and completions settle the users; in each state reached, a further call keeps that so exactly
when it meets the condition. The counter is the number of free elements only for a pool of a
multiple of 65536 elements. -/
theorem conserves_iff (hP : 0 < P) (h : Reached P s) :
    Restored P s ∧ (∀ d ∈ s.inflight, ∀ x, refs (txComplete s d) x = refs s x) ∧
    ∀ path is_tso msdus,
      ((∃ fuel ret s', transmit path fuel is_tso msdus s = some (ret, s') ∧
          Restored P s' ∧ Settled s s' msdus ret) ↔ Meets path (available P s) is_tso msdus) ∧
      ((∃ fuel ret s', transmit path fuel is_tso msdus s = some (ret, s') ∧
          Counted s' ∧ Restored P s' ∧ Settled s s' msdus ret) ↔
        65536 ∣ P ∧ Meets path (available P s) is_tso msdus) := by
  obtain ⟨fl, hfl⟩ := h.holds hP
  refine ⟨restored_of_holds hfl, fun d hd x => refs_txComplete hd x, ?_⟩
  intro path is_tso msdus
  have hreturns : Meets path (available P s) is_tso msdus →
      ∃ fuel ret s', transmit path fuel is_tso msdus s = some (ret, s') := by
    intro hm
    rw [available_eq hfl] at hm
    obtain ⟨ret, s', -, hrun, -⟩ := sendMsdus_sound (Nat.le_refl P) hfl hm
    exact ⟨P, ret, s', transmit_eq.trans hrun⟩
  have hmeets : ∀ {fuel ret s'}, transmit path fuel is_tso msdus s = some (ret, s') →
      Restored P s' → Settled s s' msdus ret → Meets path (available P s) is_tso msdus := by
    intro fuel ret s' hrun hres hset
    rw [available_eq hfl]
    rw [transmit_eq] at hrun
    by_contra hm
    rcases sendMsdus_unsound hfl hm hrun with ⟨x, hlost⟩ | ⟨y, hy⟩
    · exact hlost.not_restored hres
    · exact absurd (hset y) (Int.ne_of_gt hy)
  constructor
  · constructor
    · rintro ⟨fuel, ret, s', hrun, hres, hset⟩; exact hmeets hrun hres hset
    · intro hm
      obtain ⟨fuel, ret, s', hrun⟩ := hreturns hm
      obtain ⟨⟨fl', h'⟩, hset⟩ := transmit_sound hfl hm hrun
      exact ⟨fuel, ret, s', hrun, restored_of_holds h', hset⟩
  · constructor
    · rintro ⟨fuel, ret, s', hrun, hcount, hres, hset⟩
      have hm := hmeets hrun hres hset
      obtain ⟨⟨fl', h'⟩, -⟩ := transmit_sound hfl hm hrun
      exact ⟨(counted_iff h').mp hcount, hm⟩
    · rintro ⟨hdvd, hm⟩
      obtain ⟨fuel, ret, s', hrun⟩ := hreturns hm
      obtain ⟨⟨fl', h'⟩, hset⟩ := transmit_sound hfl hm hrun
      exact ⟨fuel, ret, s', hrun, (counted_iff h').mpr hdvd, restored_of_holds h', hset⟩

/-- A jumbo netbuf of three segments; the last one does not get into the copy engine. -/
def lastFails : Msdu Nat :=
  { id := 7, jumbo := true, num_seg := 3, info := some 3, info_le := by simp
    desc := fun _ => true, sent := fun k => k != 0 }

/-- The last segment may fail. -/
theorem conserves_iff_lastFails :
    ∃ fuel ret s', transmit .ll_fast fuel false [lastFails] (Pdev.init 4 fun _ => 1) =
      some (ret, s') ∧ Restored 4 s' ∧ Settled (Pdev.init 4 fun _ => 1) s' [lastFails] ret := by
  apply ((conserves_iff (by decide) (Reached.init fun _ => 1)).2.2 _ _ _).1.mpr
  refine Or.inr ⟨⟨by decide, Or.inl rfl, fun k _ => rfl, ?_⟩, fun _ => trivial⟩
  intro k hpos _; exact bne_iff_ne.mpr (Nat.ne_of_gt hpos)

def secondFails : Msdu Nat :=
  { id := 7, jumbo := true, num_seg := 3, info := some 3, info_le := by simp
    desc := fun k => k != 1, sent := fun _ => true }

/-- One segment is in flight and the netbuf is returned, but the netbuf has three users; two of the
four elements are in the free list when the segment has completed, and the counter is not the
number of free elements. -/
theorem secondFails_leaks :
    ∃ ret s',
      (∀ fuel, ol_tx_ll fuel false [secondFails] (Pdev.init 4 fun _ => 1) = some (ret, s')) ∧
      ¬ Counted s' ∧ ¬ Restored 4 s' ∧
      ¬ Settled (Pdev.init 4 fun _ => 1) s' [secondFails] ret := by
  refine ⟨_, _, fun fuel => rfl, ?_, ?_, ?_⟩
  · rintro ⟨fl, hl, hcount⟩
    obtain rfl := linked_unique hl (show Linked _ _ [3] none from ⟨rfl, rfl⟩)
    exact absurd hcount (by decide)
  · intro hres
    obtain ⟨⟨fl, hl, hlen⟩, -⟩ := hres _ (Perm.refl _)
    obtain rfl := linked_unique hl (show Linked _ _ [2, 3] none from ⟨rfl, rfl, rfl⟩)
    exact absurd hlen (by decide)
  · intro hset; exact absurd (hset 7) (by decide)

end Qcacld.TxTso
