import Mathlib.Data.List.Forall2
import Mathlib.Data.List.Induction
/-!
# Runs of an event-driven system

A system is a step function: what an event does in a state, and what it
shows, or nothing where the event cannot happen. `Run` collects the histories
of a system whose every step meets a side condition; a theorem about every
`Run` with the side condition `Any` holds for every schedule.
-/
namespace AetherNode.Lib

/-- What event `e` does in state `s`, with its observation. -/
abbrev System (σ ε ω : Type) := σ → ε → Option (σ × ω)

/-- No side condition. -/
def Any {σ ε : Type} : σ → ε → Prop := fun _ _ => True

variable {σ ε ω : Type}

/-- Runs from `s₀` whose every step meets `ok`: the events with their
observations, oldest first, and the state after them. -/
inductive Run (step : System σ ε ω) (ok : σ → ε → Prop) (s₀ : σ) : List (ε × ω) → σ → Prop
  | nil : Run step ok s₀ [] s₀
  | snoc {h s e o s'} : Run step ok s₀ h s → ok s e → step s e = some (s', o) →
      Run step ok s₀ (h ++ [(e, o)]) s'

variable {step : System σ ε ω} {ok : σ → ε → Prop} {s₀ s s' : σ} {h h' : List (ε × ω)}

theorem Run.mono {ok' : σ → ε → Prop} (hok : ∀ s e, ok s e → ok' s e) (hr : Run step ok s₀ h s) :
    Run step ok' s₀ h s := by
  induction hr with
  | nil => exact .nil
  | snoc _ ho hs ih => exact .snoc ih (hok _ _ ho) hs

theorem Run.any (hr : Run step ok s₀ h s) : Run step Any s₀ h s :=
  hr.mono fun _ _ _ => trivial

theorem Run.trans (h₁ : Run step ok s₀ h s) (h₂ : Run step ok s h' s') : Run step ok s₀ (h ++ h') s' := by
  induction h₂ with
  | nil => simpa using h₁
  | snoc _ ho hs ih =>
    rw [← List.append_assoc]
    exact .snoc ih ho hs

/-- The last event of a run. -/
theorem Run.last {e : ε} {o : ω} (hr : Run step ok s₀ (h ++ [(e, o)]) s') :
    ∃ s, Run step ok s₀ h s ∧ ok s e ∧ step s e = some (s', o) := by
  generalize hx : h ++ [(e, o)] = l at hr
  cases hr with
  | nil => simp at hx
  | snoc hr ho hs =>
    obtain ⟨rfl, hlast⟩ := List.append_inj' hx rfl
    simp only [List.cons.injEq, Prod.mk.injEq, and_true] at hlast
    obtain ⟨rfl, rfl⟩ := hlast
    exact ⟨_, hr, ho, hs⟩

/-- A run goes through a state between any two parts of its history. -/
theorem Run.split (hr : Run step ok s₀ (h ++ h') s') : ∃ s, Run step ok s₀ h s ∧ Run step ok s h' s' := by
  induction h' using List.reverseRecOn generalizing s' with
  | nil => exact ⟨s', by simpa using hr, .nil⟩
  | append_singleton h' x ih =>
    rw [← List.append_assoc] at hr
    obtain ⟨t, ht, ho, hs⟩ := hr.last
    obtain ⟨s, h1, h2⟩ := ih ht
    exact ⟨s, h1, h2.snoc ho hs⟩

/-- A history leads to one state. -/
theorem Run.unique {ok' : σ → ε → Prop} (hr : Run step ok s₀ h s) (hr' : Run step ok' s₀ h s') : s = s' := by
  induction hr generalizing s' with
  | nil =>
    generalize hx : ([] : List (ε × ω)) = l at hr'
    cases hr' with
    | nil => rfl
    | snoc => simp at hx
  | snoc _ _ hs ih =>
    obtain ⟨t, ht, -, hs'⟩ := hr'.last
    rw [ih ht, hs'] at hs
    simp only [Option.some.injEq, Prod.mk.injEq, and_true] at hs
    exact hs.symm

/-- Where the condition keeps an invariant and every step into the invariant meets the condition, a run meets the
condition exactly when the invariant holds in all its states. -/
theorem Run.iff_always (I : σ → Prop) (hkeeps : ∀ {h s}, Run step ok s₀ h s → I s)
    (hmeets : ∀ {s s' e o}, step s e = some (s', o) → I s' → ok s e) (hr : Run step Any s₀ h s) :
    Run step ok s₀ h s ↔ ∀ pre post t, h = pre ++ post → Run step Any s₀ pre t → I t := by
  constructor
  · rintro hok pre post t rfl hpre
    obtain ⟨t', hpre', -⟩ := hok.split
    rw [hpre.unique hpre']
    exact hkeeps hpre'
  · intro halways
    induction hr with
    | nil => exact .nil
    | @snoc h t e o s hr _ hs ih =>
      have hlast : I s := halways _ [] s (by simp) (hr.snoc trivial hs)
      refine (ih ?_).snoc (hmeets hs hlast) hs
      rintro pre post u rfl hpre
      exact halways pre (post ++ [(e, o)]) u (by simp) hpre

/-- An invariant of every step that meets the condition holds after every run. -/
theorem Run.inv (I : σ → Prop) (h0 : I s₀)
    (hs : ∀ s e s' o, I s → ok s e → step s e = some (s', o) → I s') (hr : Run step ok s₀ h s) : I s := by
  induction hr with
  | nil => exact h0
  | snoc _ ho ht ih => exact hs _ _ _ _ ih ho ht

/-- The same with the history so far in view. -/
theorem Run.inv_hist (I : List (ε × ω) → σ → Prop) (h0 : I [] s₀)
    (hs : ∀ h s e s' o, I h s → ok s e → step s e = some (s', o) → I (h ++ [(e, o)]) s')
    (hr : Run step ok s₀ h s) : I h s := by
  induction hr with
  | nil => exact h0
  | snoc _ ho ht ih => exact hs _ _ _ _ _ ih ho ht

/-- A potential that every counted event lowers bounds how many there are. -/
theorem Run.countP_add_le (I : σ → Prop) (φ : σ → Nat) (p : ε × ω → Bool) (h0 : I s₀)
    (hs : ∀ s e s' o, I s → ok s e → step s e = some (s', o) → I s' ∧ (if p (e, o) then 1 else 0) + φ s' ≤ φ s)
    (hr : Run step ok s₀ h s) : h.countP p + φ s ≤ φ s₀ := by
  have hI : I s := hr.inv I h0 fun s e s' o hi ho ht => (hs s e s' o hi ho ht).1
  induction hr with
  | nil => simp
  | @snoc h t e o s' hr ho ht ih =>
    have hIt : I t := hr.inv I h0 fun s e s' o hi ho ht => (hs s e s' o hi ho ht).1
    have hstep := (hs t e s' o hIt ho ht).2
    have hrest := ih hIt
    rw [List.countP_append, List.countP_singleton]
    split at hstep <;> rename_i hp
    · rw [if_pos hp]
      omega
    · rw [if_neg hp]
      omega

/-- Every event of a run fired in a state the run had reached before it. -/
theorem Run.fired (hr : Run step ok s₀ h s) {pre post : List (ε × ω)} {e : ε} {o : ω}
    (he : h = pre ++ (e, o) :: post) :
    ∃ t t', Run step ok s₀ pre t ∧ ok t e ∧ step t e = some (t', o) ∧ Run step ok t' post s := by
  induction hr generalizing post with
  | nil => simp at he
  | @snoc h s e' o' s' hr ho hs ih =>
    rcases List.eq_nil_or_concat post with rfl | ⟨post', x, rfl⟩
    · obtain ⟨rfl, hx⟩ := List.append_inj' he rfl
      simp only [List.cons.injEq, Prod.mk.injEq, and_true] at hx
      obtain ⟨rfl, rfl⟩ := hx
      exact ⟨s, s', hr, ho, hs, .nil⟩
    · rw [List.concat_eq_append, ← List.cons_append, ← List.append_assoc] at he
      obtain ⟨rfl, hx⟩ := List.append_inj' he rfl
      simp only [List.cons.injEq, and_true] at hx
      obtain ⟨t, t', h1, h2, h3, h4⟩ := ih rfl
      subst hx
      exact ⟨t, t', h1, h2, h3, by simpa using h4.snoc ho hs⟩

/-! ## Two runs -/

/-- A run is projected onto another system by leaving events out: where every event that stays is answered alike from
related states, and every event that goes keeps the states related, the events that stay make a run that ends in a
related state. -/
theorem Run.project {σ' ω' υ : Type} {step' : System σ' ε ω'} {t₀ : σ'} (ok' : σ' → ε → Prop)
    (rel : List (ε × ω) → σ → σ' → Prop) (keep : ε × ω → Bool) (view : ω → υ) (view' : ω' → υ)
    (hr : Run step ok s₀ h s) (h0 : rel [] s₀ t₀)
    (hkeep : ∀ pre e o post s s' t, h = pre ++ (e, o) :: post → ok s e → step s e = some (s', o) → rel pre s t →
      keep (e, o) = true → ∃ t' o', ok' t e ∧ step' t e = some (t', o') ∧ view' o' = view o ∧
        rel (pre ++ [(e, o)]) s' t')
    (hdrop : ∀ pre e o post s s' t, h = pre ++ (e, o) :: post → ok s e → step s e = some (s', o) → rel pre s t →
      keep (e, o) = false → rel (pre ++ [(e, o)]) s' t) :
    ∃ h' t, Run step' ok' t₀ h' t ∧ rel h s t ∧
      h'.map (fun x => (x.1, view' x.2)) = (h.filter keep).map fun x => (x.1, view x.2) := by
  have hprefix : ∀ {p s}, Run step ok s₀ p s → ∀ post, h = p ++ post → ∃ h' t, Run step' ok' t₀ h' t ∧ rel p s t ∧
      h'.map (fun x => (x.1, view' x.2)) = (p.filter keep).map fun x => (x.1, view x.2) := by
    intro p s hp
    induction hp with
    | nil => exact fun _ _ => ⟨[], t₀, .nil, h0, rfl⟩
    | @snoc p s e o s' hp ho hs ih =>
      intro post hpost
      rw [List.append_assoc, List.singleton_append] at hpost
      obtain ⟨h', t, hrun, hrel, hview⟩ := ih _ hpost
      rw [List.filter_append, List.map_append]
      cases hk : keep (e, o) with
      | true =>
        obtain ⟨t', o', ho', hstep, hv, hrel'⟩ := hkeep _ _ _ _ _ _ _ hpost ho hs hrel hk
        refine ⟨h' ++ [(e, o')], t', hrun.snoc ho' hstep, hrel', ?_⟩
        rw [List.map_append, hview]
        simp [hk, hv]
      | false =>
        refine ⟨h', t, hrun, hdrop _ _ _ _ _ _ _ hpost ho hs hrel hk, ?_⟩
        rw [hview]
        simp [hk]
  exact hprefix hr [] (by simp)

/-- Where related states show the same on related events and stay related, every run is followed by a run on related
events. -/
theorem Run.simulate {σ' ε' : Type} {step' : System σ' ε' ω} {s₀' : σ'} (R : σ → σ' → Prop) (E : ε → ε' → Prop)
    (h0 : R s₀ s₀')
    (hstep : ∀ s t e o s' e', R s s' → E e e' → step s e = some (t, o) → ∃ t', step' s' e' = some (t', o) ∧ R t t')
    (hr : Run step ok s₀ h s) {es : List ε'} (hes : List.Forall₂ E (h.map Prod.fst) es) :
    ∃ h' s', Run step' Any s₀' h' s' ∧ h'.map Prod.fst = es ∧ h'.map Prod.snd = h.map Prod.snd ∧ R s s' := by
  induction hr generalizing es with
  | nil =>
    cases hes
    exact ⟨[], s₀', .nil, rfl, rfl, h0⟩
  | @snoc h s e o t hr _ hs ih =>
    rw [List.map_append, List.map_singleton] at hes
    have hflip := hes.flip
    have hinit := List.forall₂_take_append _ _ _ hflip
    have hlast := List.forall₂_drop_append _ _ _ hflip
    obtain ⟨h', s', hrun, hevents, hshown, hrel⟩ := ih hinit.flip
    cases hd : es.drop (h.map Prod.fst).length with
    | nil =>
      rw [hd] at hlast
      cases hlast
    | cons e' l =>
      rw [hd] at hlast
      cases hlast with | cons he hnil =>
      cases hnil
      obtain ⟨t', hs', hrel'⟩ := hstep s t e o s' e' hrel he hs
      refine ⟨h' ++ [(e', o)], t', hrun.snoc trivial hs', ?_, ?_, hrel'⟩
      · rw [List.map_append, hevents, List.map_singleton, ← hd, List.take_append_drop]
      · rw [List.map_append, List.map_append, hshown]
        rfl

/-! ## Executing a schedule -/

/-- Run a list of events that all meet `ok`, collecting the history. -/
def exec (step : System σ ε ω) (ok : σ → ε → Bool) (s : σ) : List ε → Option (σ × List (ε × ω))
  | [] => some (s, [])
  | e :: es =>
    if ok s e then
      match step s e with
      | none => none
      | some (s', o) => (exec step ok s' es).map fun r => (r.1, (e, o) :: r.2)
    else none

theorem exec_run {ok : σ → ε → Bool} {es : List ε} (he : exec step ok s es = some (s', h)) :
    Run step (fun s e => ok s e = true) s h s' := by
  induction es generalizing s h with
  | nil =>
    simp only [exec, Option.some.injEq, Prod.mk.injEq] at he
    obtain ⟨rfl, rfl⟩ := he
    exact .nil
  | cons e es ih =>
    simp only [exec] at he
    split at he
    · rename_i ho
      split at he
      · cases he
      · rename_i t o ht
        obtain ⟨r, hr, hx⟩ := Option.map_eq_some_iff.1 he
        simp only [Prod.mk.injEq] at hx
        obtain ⟨rfl, rfl⟩ := hx
        have hone : Run step (fun s e => ok s e = true) s [(e, o)] t := .snoc .nil ho ht
        exact hone.trans (ih hr)
    · cases he

/-- A schedule that executes to a state satisfying `P` is a run to one. -/
theorem exists_run (step : System σ ε ω) (ok : σ → ε → Bool) (P : σ → List (ε × ω) → Bool) (s : σ) (es : List ε)
    (he : (exec step ok s es).any (fun r => P r.1 r.2) = true) :
    ∃ h s', Run step (fun s e => ok s e = true) s h s' ∧ P s' h = true := by
  cases hx : exec step ok s es with
  | none => simp [hx] at he
  | some r =>
    rw [hx] at he
    exact ⟨r.2, r.1, exec_run hx, by simpa using he⟩

/-- The same for a schedule without side condition. -/
theorem exists_any_run (step : System σ ε ω) (P : σ → List (ε × ω) → Bool) (s : σ) (es : List ε)
    (he : (exec step (fun _ _ => true) s es).any (fun r => P r.1 r.2) = true) :
    ∃ h s', Run step Any s h s' ∧ P s' h = true := by
  obtain ⟨h, s', hr, hp⟩ := exists_run step _ P s es he
  exact ⟨h, s', hr.any, hp⟩

end AetherNode.Lib
