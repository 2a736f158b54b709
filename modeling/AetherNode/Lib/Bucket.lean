import AetherNode.Lib.Run
import Mathlib.Algebra.Order.Field.Basic
import Mathlib.Algebra.BigOperators.Group.List.Basic
import Mathlib.Tactic.Linarith
/-!
# Capped reservoirs that refill at a constant rate

`level` is what a reservoir holds some time after it was last read: what it
held then and what has flowed in, up to its capacity. Reading it lazily, at
whatever instants, gives the same level. `Run.cost_le` is the bound that rests
on it: where every event of a run pays its cost from such a level, the costs
of the events of any window come to no more than the capacity and what flows
in during the window.
-/
namespace AetherNode.Lib.Bucket

variable {α : Type} [Field α] [LinearOrder α] [IsStrictOrderedRing α]

/-- The level after `elapsed`, from `tokens`. -/
def level (cap rate tokens elapsed : α) : α := min cap (tokens + elapsed * rate)

section
variable {cap rate x d d' : α}

omit [IsStrictOrderedRing α] in
theorem level_le_cap : level cap rate x d ≤ cap := min_le_left _ _

theorem level_nonneg (hc : 0 ≤ cap) (hr : 0 ≤ rate) (hx : 0 ≤ x) (hd : 0 ≤ d) : 0 ≤ level cap rate x d := by
  apply le_min hc
  have := mul_nonneg hd hr
  linarith

omit [IsStrictOrderedRing α] in
theorem level_zero (hx : x ≤ cap) : level cap rate x 0 = x := by
  rw [level, zero_mul, add_zero, min_eq_right hx]

/-- Reading the level on the way changes nothing. -/
theorem level_level (hr : 0 ≤ rate) (hd' : 0 ≤ d') :
    level cap rate (level cap rate x d) d' = level cap rate x (d + d') := by
  have hflow : 0 ≤ d' * rate := mul_nonneg hd' hr
  unfold level
  rw [← min_add_add_right, add_mul, ← add_assoc, ← min_assoc, min_eq_left (le_add_of_nonneg_right hflow)]

/-- The level rises by no more than what flows in. -/
theorem level_add_le (hr : 0 ≤ rate) (hd' : 0 ≤ d') : level cap rate x (d + d') ≤ level cap rate x d + d' * rate := by
  rw [← level_level hr hd']
  exact min_le_right _ _

/-- Putting one back, up to the capacity, raises the level by one at most. -/
theorem level_refund_le : level cap rate (min cap (x + 1)) d ≤ level cap rate x d + 1 := by
  have hback := min_le_right cap (x + 1)
  rw [level, level, ← min_add_add_right cap (x + d * rate) 1]
  apply min_le_min
  · linarith
  · linarith

theorem level_mono {y : α} (h : x ≤ y) : level cap rate x d ≤ level cap rate y d :=
  min_le_min_left _ (by linarith)

/-- A reservoir is full once its capacity has flowed in. -/
theorem level_full (hx : 0 ≤ x) (hd : cap ≤ d * rate) : level cap rate x d = cap := min_eq_left (by linarith)

end

/-! ## Runs that pay from a level -/

variable {σ ε ω : Type} {step : System σ ε ω}

/-- Every step happens at the time of its event, which is not before the state's clock and becomes its clock; and where
`I` holds of the history and the state it pays `cost` from `ψ`, which is never negative, never above `cap`, and rises
at `rate`. -/
structure Metered (step : System σ ε ω) (ok : σ → ε → Prop) (I : List (ε × ω) → σ → Prop) (clock : σ → α)
    (time : ε → α) (ψ : σ → α → α) (cap rate : α) (cost : ε × ω → α) : Prop where
  rate_nonneg : 0 ≤ rate
  clocked : ∀ s e s' o, step s e = some (s', o) → clock s ≤ time e ∧ clock s' = time e
  preserved : ∀ h s e s' o, I h s → ok s e → step s e = some (s', o) → I (h ++ [(e, o)]) s'
  nonneg : ∀ h s t, I h s → clock s ≤ t → 0 ≤ ψ s t
  le_cap : ∀ h s t, I h s → ψ s t ≤ cap
  grows : ∀ h s t d, I h s → 0 ≤ d → ψ s (t + d) ≤ ψ s t + d * rate
  pays : ∀ h s e s' o, I h s → ok s e → step s e = some (s', o) → cost (e, o) + ψ s' (time e) ≤ ψ s (time e)

variable {ok : σ → ε → Prop} {I : List (ε × ω) → σ → Prop} {clock : σ → α} {time : ε → α} {ψ : σ → α → α}
  {cap rate : α} {cost : ε × ω → α} {s₀ s : σ} {h : List (ε × ω)}

/-- The part of a history that lies in a window of time. -/
def window (time : ε → α) (a b : α) (h : List (ε × ω)) : List (ε × ω) := h.filter fun x => a ≤ time x.1 ∧ time x.1 ≤ b

omit [Field α] [IsStrictOrderedRing α] in
theorem window_eq_self {a b : α} (ht : ∀ x ∈ h, a ≤ time x.1 ∧ time x.1 ≤ b) : window time a b h = h := by
  apply List.filter_eq_self.2
  intro x hx
  exact decide_eq_true (ht x hx)

omit [Field α] [IsStrictOrderedRing α] in
theorem window_append (time : ε → α) (a b : α) (h h' : List (ε × ω)) :
    window time a b (h ++ h') = window time a b h ++ window time a b h' :=
  List.filter_append _ _

/-- While the clock is in the window, what was paid in it and what is left are covered by the capacity and the flow;
before that, nothing was paid. -/
theorem Metered.window_add_le (hm : Metered step ok I clock time ψ cap rate cost) (h0 : I [] s₀)
    (hr : Run step ok s₀ h s) {a b : α} :
    (clock s < a → window time a b h = []) ∧ ∀ t, clock s ≤ t → a ≤ t → t ≤ b →
      ((window time a b h).map cost).sum + ψ s t ≤ cap + (t - a) * rate := by
  induction hr with
  | nil =>
    refine ⟨fun _ => rfl, ?_⟩
    intro t _ hat _
    have := hm.le_cap _ s₀ t h0
    have := mul_nonneg (sub_nonneg.2 hat) hm.rate_nonneg
    simp only [window, List.filter_nil, List.map_nil, List.sum_nil]
    linarith
  | @snoc h s e o s' hr ho hstep ih =>
    obtain ⟨hle, hclock⟩ := hm.clocked _ _ _ _ hstep
    have hI : I h s := hr.inv_hist I h0 hm.preserved
    have hI' : I (h ++ [(e, o)]) s' := hm.preserved _ _ _ _ _ hI ho hstep
    rw [window_append, hclock]
    by_cases hae : a ≤ time e
    · refine ⟨fun hlt => absurd hae hlt.not_ge, ?_⟩
      intro t het hat htb
      -- The level is paid from at the time of the event, and rises from there.
      have hin : window time a b [(e, o)] = [(e, o)] :=
        window_eq_self (by simpa using ⟨hae, het.trans htb⟩)
      have hbefore := ih.2 (time e) hle hae (het.trans htb)
      have hpay := hm.pays h s e s' o hI ho hstep
      have hrise := hm.grows _ s' (time e) (t - time e) hI' (sub_nonneg.2 het)
      rw [add_sub_cancel] at hrise
      rw [hin, List.map_append, List.sum_append, List.map_singleton, List.sum_singleton]
      linarith [sub_mul t (time e) rate, sub_mul t a rate, sub_mul (time e) a rate]
    · -- The window has not begun.
      have hempty : window time a b h ++ window time a b [(e, o)] = [] := by
        rw [ih.1 (hle.trans_lt (not_le.1 hae)), window, List.filter_singleton]
        simp [hae]
      refine ⟨fun _ => hempty, ?_⟩
      intro t _ hat _
      have := hm.le_cap _ s' t hI'
      have := mul_nonneg (sub_nonneg.2 hat) hm.rate_nonneg
      rw [hempty, List.map_nil, List.sum_nil]
      linarith

theorem Metered.window_le_now (hm : Metered step ok I clock time ψ cap rate cost) (h0 : I [] s₀)
    (hr : Run step ok s₀ h s) {a b : α}
    (hab : a ≤ b) (hb : clock s ≤ b) : ((window time a b h).map cost).sum ≤ cap + (b - a) * rate := by
  have hpaid := (hm.window_add_le h0 hr).2 b hb hab le_rfl
  have hleft := hm.nonneg _ s b (hr.inv_hist I h0 hm.preserved) hb
  linarith

/-- What the events of a run in a window pay. -/
theorem Metered.window_le (hm : Metered step ok I clock time ψ cap rate cost) (h0 : I [] s₀)
    (hr : Run step ok s₀ h s) {a b : α}
    (hab : a ≤ b) : ((window time a b h).map cost).sum ≤ cap + (b - a) * rate := by
  induction hr with
  | nil =>
    have := hm.nonneg _ s₀ (clock s₀) h0 le_rfl
    have := hm.le_cap _ s₀ (clock s₀) h0
    have := mul_nonneg (sub_nonneg.2 hab) hm.rate_nonneg
    simp only [window, List.filter_nil, List.map_nil, List.sum_nil]
    linarith
  | @snoc h s e o s' hr ho hstep ih =>
    obtain ⟨-, hclock⟩ := hm.clocked _ _ _ _ hstep
    by_cases hb : clock s' ≤ b
    · exact hm.window_le_now h0 (hr.snoc ho hstep) hab hb
    · -- The window is over.
      have hout : window time a b [(e, o)] = [] := by
        rw [hclock] at hb
        simp [window, hb]
      rw [window_append, hout, List.append_nil]
      exact ih

end AetherNode.Lib.Bucket
