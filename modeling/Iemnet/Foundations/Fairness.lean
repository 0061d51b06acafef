import Iemnet.Foundations.TransitionSystem
import Mathlib.Order.Filter.AtTopBot.Basic

/-!
# Fair executions

An execution is an infinite run in which a moment may pass without a step, so that a
run that has come to its end is an execution as well.  Fairness is about a class of
labels, such as the steps of one thread: weak fairness serves a class that stays
enabled, strong fairness one that is enabled again and again.

Main results:

- Theorem {lit}`Variant.exists_of_often`: a variant that falls with every step of a class
  is used up if such steps keep coming.
- Theorems {lit}`Variant.of_weaklyFair`, {lit}`Variant.of_stronglyFair`: fairness makes
  them come.
- Theorem {lit}`Projection.weaklyFair`: fairness is preserved by looking at a part of the
  state.
- Definition {lit}`Execution.ofRun`: a finite run as an execution; it is fair to whatever
  cannot go on at its end.
-/

namespace Foundations

namespace Machine

open Filter

variable {σ α : Type*} (M : Machine σ α)

/-- Some label of the class can be taken. -/
def Enabled (p : α → Prop) (s : σ) : Prop :=
  ∃ a, p a ∧ (M.step s a).isSome

/-- A step, or nothing. -/
def move (s : σ) : Option α → Option σ
  | none => some s
  | some a => M.step s a

/-- An infinite run with pauses. -/
structure Execution where
  state : ℕ → σ
  label : ℕ → Option α
  start : M.init (state 0)
  next : ∀ n, M.move (state n) (label n) = some (state (n + 1))

namespace Execution

variable {M} (x : M.Execution) {ok : σ → α → Prop} {p : α → Prop}

/-- Every step of the execution leaves a state that meets {lit}`ok`. -/
def Meets (ok : σ → α → Prop) : Prop :=
  ∀ n a, x.label n = some a → ok (x.state n) a

/-- A step of the class is taken at a moment. -/
def Takes (p : α → Prop) (n : ℕ) : Prop :=
  ∃ a, x.label n = some a ∧ p a

/-- A class that is enabled from some moment on is served again and again. -/
def WeaklyFair (p : α → Prop) : Prop :=
  (∀ᶠ n in atTop, M.Enabled p (x.state n)) → ∃ᶠ n in atTop, x.Takes p n

/-- A class that is enabled again and again is served again and again. -/
def StronglyFair (p : α → Prop) : Prop :=
  (∃ᶠ n in atTop, M.Enabled p (x.state n)) → ∃ᶠ n in atTop, x.Takes p n

variable {x}

/-- Strong fairness is more than weak fairness. -/
theorem StronglyFair.weaklyFair (h : x.StronglyFair p) : x.WeaklyFair p :=
  fun henabled => h henabled.frequently

/-- What a moment can do to the state. -/
theorem next_cases (x : M.Execution) (n : ℕ) :
    (x.label n = none ∧ x.state (n + 1) = x.state n) ∨
      ∃ a, x.label n = some a ∧ M.step (x.state n) a = some (x.state (n + 1)) := by
  have hnext := x.next n
  cases ha : x.label n with
  | none =>
      rw [ha] at hnext
      exact Or.inl ⟨rfl, (Option.some.inj hnext).symm⟩
  | some a =>
      rw [ha] at hnext
      exact Or.inr ⟨a, rfl, hnext⟩

/-- Every state of an execution is reached by steps that meet the condition. -/
theorem Meets.reach (h : x.Meets ok) (n : ℕ) : M.Reach ok (x.state n) := by
  induction n with
  | zero => exact .start x.start
  | succ n ih =>
      rcases x.next_cases n with ⟨-, hsame⟩ | ⟨a, ha, hstep⟩
      · exact hsame ▸ ih
      · exact ih.next (h n a ha) hstep

/-- What every step keeps stays. -/
theorem Meets.lasts (h : x.Meets ok) {P : σ → Prop}
    (hstep : ∀ s a s', M.Reach ok s → ok s a → P s → M.step s a = some s' → P s') {n m : ℕ}
    (hnm : n ≤ m) (hP : P (x.state n)) : P (x.state m) := by
  induction m, hnm using Nat.le_induction with
  | base => exact hP
  | succ m hnm ih =>
      rcases x.next_cases m with ⟨-, hsame⟩ | ⟨a, ha, hnext⟩
      · exact hsame ▸ ih
      · exact hstep _ a _ (h.reach m) (h m a ha) ih hnext

/-- Every execution meets the condition that asks for nothing. -/
theorem meets_true (x : M.Execution) : x.Meets fun _ _ => True :=
  fun _ _ _ => trivial

end Execution

/-! ## Variants -/

/-- On the way from {lit}`P` to {lit}`Q` the rank never grows, and falls with every step of
the class. -/
def Variant {β : Type*} [Preorder β] (ok : σ → α → Prop) (p : α → Prop) (P Q : σ → Prop)
    (rank : σ → β) : Prop :=
  ∀ s a s', M.Reach ok s → P s → ¬ Q s → ok s a → M.step s a = some s' →
    Q s' ∨ P s' ∧ rank s' ≤ rank s ∧ (p a → rank s' < rank s)

variable {M} {β : Type*} [Preorder β] {ok : σ → α → Prop} {p : α → Prop} {P Q : σ → Prop}
variable {rank : σ → β} {x : M.Execution} {n m : ℕ}

namespace Variant

/-- Until {lit}`Q` is reached, {lit}`P` holds and the rank has not grown. -/
theorem stays (h : M.Variant ok p P Q rank) (hx : x.Meets ok) (hP : P (x.state n))
    (hnm : n ≤ m) (hQ : ∀ k, n ≤ k → k ≤ m → ¬ Q (x.state k)) :
    P (x.state m) ∧ rank (x.state m) ≤ rank (x.state n) := by
  induction m, hnm using Nat.le_induction with
  | base => exact ⟨hP, le_refl _⟩
  | succ m hnm ih =>
      rcases ih fun k hk hkm => hQ k hk (hkm.trans m.le_succ) with ⟨hPm, hrank⟩
      rcases x.next_cases m with ⟨-, hsame⟩ | ⟨a, ha, hstep⟩
      · rw [hsame]
        exact ⟨hPm, hrank⟩
      · rcases h _ a _ (hx.reach m) hPm (hQ m hnm m.le_succ) (hx m a ha) hstep with
          hdone | ⟨hnext, hle, -⟩
        · exact absurd hdone (hQ (m + 1) (hnm.trans m.le_succ) (le_refl _))
        · exact ⟨hnext, hle.trans hrank⟩

variable [WellFoundedLT β]

/-- The induction is on the rank: the next step of the class lowers it. -/
theorem exists_of_often (h : M.Variant ok p P Q rank) (hx : x.Meets ok)
    (hoften : ∀ n, P (x.state n) → (∀ m, n ≤ m → ¬ Q (x.state m)) → ∃ m, n ≤ m ∧ x.Takes p m)
    (hP : P (x.state n)) : ∃ m, n ≤ m ∧ Q (x.state m) := by
  by_contra hnever
  push Not at hnever
  generalize hr : rank (x.state n) = r at *
  induction r using WellFoundedLT.induction generalizing n with
  | ind r ih =>
      rcases hoften n hP hnever with ⟨m, hnm, a, ha, hpa⟩
      rcases h.stays hx hP hnm fun k hk _ => hnever k hk with ⟨hPm, hrank⟩
      rcases x.next_cases m with ⟨hnone, -⟩ | ⟨b, hb, hstep⟩
      · rw [ha] at hnone
        cases hnone
      · rw [ha, Option.some.injEq] at hb
        subst hb
        have hlater : n ≤ m + 1 := hnm.trans m.le_succ
        rcases h _ a _ (hx.reach m) hPm (hnever m hnm) (hx m a ha) hstep with
          hdone | ⟨hnext, -, hfalls⟩
        · exact hnever (m + 1) hlater hdone
        · exact ih _ (hr ▸ (hfalls hpa).trans_le hrank) hnext
            (fun k hk => hnever k (hlater.trans hk)) rfl

/-- Strong fairness: the class is enabled now and then. -/
theorem of_stronglyFair (h : M.Variant ok p P Q rank) (hx : x.Meets ok)
    (hfair : x.StronglyFair p)
    (henabled : ∀ n, P (x.state n) → (∀ m, n ≤ m → ¬ Q (x.state m)) →
      ∃ m, n ≤ m ∧ M.Enabled p (x.state m))
    (hP : P (x.state n)) : ∃ m, n ≤ m ∧ Q (x.state m) := by
  refine h.exists_of_often hx (fun n hPn hnever => ?_) hP
  have hfrequently : ∃ᶠ k in atTop, M.Enabled p (x.state k) := by
    rw [frequently_atTop]
    intro k
    have hPk := (h.stays hx hPn (le_max_left n k) fun j hj _ => hnever j hj).1
    rcases henabled (max n k) hPk fun j hj => hnever j ((le_max_left n k).trans hj) with
      ⟨m, hm, henabled⟩
    exact ⟨m, (le_max_right n k).trans hm, henabled⟩
  exact frequently_atTop.1 (hfair hfrequently) n

/-- Weak fairness: the class is enabled all the way. -/
theorem of_weaklyFair (h : M.Variant ok p P Q rank) (hx : x.Meets ok) (hfair : x.WeaklyFair p)
    (henabled : ∀ s, M.Reach ok s → P s → ¬ Q s → M.Enabled p s)
    (hP : P (x.state n)) : ∃ m, n ≤ m ∧ Q (x.state m) := by
  refine h.exists_of_often hx (fun n hPn hnever => ?_) hP
  have halways : ∀ᶠ k in atTop, M.Enabled p (x.state k) := by
    rw [eventually_atTop]
    refine ⟨n, fun k hk => ?_⟩
    have hPk := (h.stays hx hPn hk fun j hj _ => hnever j hj).1
    exact henabled _ (hx.reach k) hPk (hnever k hk)
  exact frequently_atTop.1 (hfair halways) n

end Variant

/-! ## Projections -/

/-- A state map under which every step of one machine is a step of another one, or
none. -/
structure Projection {τ γ : Type*} (M : Machine σ α) (N : Machine τ γ) (f : σ → τ)
    (g : σ → α → Option γ) : Prop where
  init : ∀ s, M.init s → N.init (f s)
  step : ∀ s a s', M.step s a = some s' → N.move (f s) (g s a) = some (f s')

namespace Projection

variable {τ γ : Type*} {N : Machine τ γ} {f : σ → τ} {g : σ → α → Option γ}

/-- What the other machine sees of an execution. -/
def execution (h : M.Projection N f g) (x : M.Execution) : N.Execution where
  state n := f (x.state n)
  label n := (x.label n).bind (g (x.state n))
  start := h.init _ x.start
  next n := by
    rcases x.next_cases n with ⟨hnone, hsame⟩ | ⟨a, ha, hstep⟩
    · rw [hnone, hsame]
      rfl
    · rw [ha]
      exact h.step _ a _ hstep

/-- Fairness is seen as fairness, if what the other machine can do is never blocked. -/
theorem weaklyFair (h : M.Projection N f g) (hx : x.Meets ok) {q : γ → Prop}
    (henabled : ∀ s, M.Reach ok s → N.Enabled q (f s) → M.Enabled p s)
    (hlabel : ∀ s a, p a → ∃ b, g s a = some b ∧ q b) (hfair : x.WeaklyFair p) :
    (h.execution x).WeaklyFair q := by
  intro halways
  have hoften := hfair (halways.mono fun n hn => henabled _ (hx.reach n) hn)
  refine hoften.mono fun n hn => ?_
  rcases hn with ⟨a, ha, hpa⟩
  rcases hlabel (x.state n) a hpa with ⟨b, hb, hqb⟩
  refine ⟨b, ?_, hqb⟩
  show (x.label n).bind (g (x.state n)) = some b
  rw [ha, Option.bind_some, hb]

end Projection

/-! ## Finite runs -/

/-- The state after the first steps of a run, and at its end from then on. -/
def stateAt (M : Machine σ α) : σ → List α → ℕ → σ
  | s, [], _ => s
  | s, _, 0 => s
  | s, a :: as, n + 1 => M.stateAt ((M.step s a).getD s) as n

/-- At first there is the state that the run begins with. -/
theorem stateAt_zero (s : σ) (as : List α) : M.stateAt s as 0 = s := by
  cases as <;> rfl

/-- The states along a run follow one another by its moves. -/
theorem move_stateAt {s s' : σ} {as : List α} (hrun : M.run s as = some s') (n : ℕ) :
    M.move (M.stateAt s as n) as[n]? = some (M.stateAt s as (n + 1)) := by
  induction as generalizing s n with
  | nil => rfl
  | cons a as ih =>
      rw [run_cons, Option.bind_eq_some_iff] at hrun
      rcases hrun with ⟨t, ht, hrest⟩
      cases n with
      | zero =>
          simp only [stateAt, stateAt_zero, List.getElem?_cons_zero, move, ht, Option.getD_some]
      | succ n =>
          rw [stateAt, List.getElem?_cons_succ, ht, Option.getD_some, ih hrest n]
          simp only [stateAt, ht, Option.getD_some]

/-- Nothing happens after the end of the run. -/
theorem stateAt_of_length_le {s s' : σ} {as : List α} (hrun : M.run s as = some s') {n : ℕ}
    (hn : as.length ≤ n) : M.stateAt s as n = s' := by
  induction as generalizing s n with
  | nil => exact Option.some.inj hrun
  | cons a as ih =>
      rw [run_cons, Option.bind_eq_some_iff] at hrun
      rcases hrun with ⟨t, ht, hrest⟩
      cases n with
      | zero => cases hn
      | succ n =>
          rw [stateAt, ht, Option.getD_some]
          exact ih hrest (Nat.le_of_succ_le_succ hn)

/-- A condition that labels meet in every state. -/
theorem runMeets_of_always {s : σ} {as : List α} (h : ∀ a ∈ as, ∀ s, ok s a) :
    M.RunMeets ok s as := by
  induction as generalizing s with
  | nil => trivial
  | cons a as ih =>
      exact ⟨h a List.mem_cons_self s, fun _ _ => ih fun b hb => h b (List.mem_cons_of_mem a hb)⟩

/-- A run is looked at piece by piece. -/
theorem RunMeets.append {s t : σ} {as bs : List α} (h : M.RunMeets ok s as)
    (hrun : M.run s as = some t) (hrest : M.RunMeets ok t bs) : M.RunMeets ok s (as ++ bs) := by
  induction as generalizing s with
  | nil =>
      rw [run_nil, Option.some.injEq] at hrun
      exact hrun ▸ hrest
  | cons a as ih =>
      rw [run_cons, Option.bind_eq_some_iff] at hrun
      rcases hrun with ⟨u, hu, hrun⟩
      refine ⟨h.1, fun v hv => ?_⟩
      rw [hu, Option.some.injEq] at hv
      exact hv ▸ ih (h.2 u hu) hrun

namespace Execution

/-- A finite run, after which nothing happens. -/
def ofRun {s s' : σ} {as : List α} (hinit : M.init s) (hrun : M.run s as = some s') :
    M.Execution where
  state := M.stateAt s as
  label n := as[n]?
  start := (stateAt_zero (M := M) s as).symm ▸ hinit
  next := move_stateAt hrun

variable {s s' : σ} {as : List α} {hinit : M.init s} {hrun : M.run s as = some s'}

/-- Behind its last label the run stays in its last state. -/
theorem ofRun_end (hn : as.length ≤ n) : (ofRun hinit hrun).state n = s' :=
  stateAt_of_length_le hrun hn

/-- A run is fair to what cannot go on at its end. -/
theorem stronglyFair_ofRun (hend : ¬ M.Enabled p s') :
    (ofRun hinit hrun).StronglyFair p := by
  intro henabled
  rcases frequently_atTop.1 henabled as.length with ⟨k, hk, hthen⟩
  rw [ofRun_end hk] at hthen
  exact absurd hthen hend

/-- A run that ends where a process is not enabled is fair to the process. -/
theorem weaklyFair_ofRun (hend : ¬ M.Enabled p s') : (ofRun hinit hrun).WeaklyFair p :=
  (stronglyFair_ofRun hend).weaklyFair

/-- The steps of a run meet what they have been seen to meet. -/
theorem meets_ofRun (hmeets : M.RunMeets ok s as) : (ofRun hinit hrun).Meets ok := by
  have hall : ∀ {t t' : σ} {bs : List α}, M.run t bs = some t' → M.RunMeets ok t bs →
      ∀ n a, bs[n]? = some a → ok (M.stateAt t bs n) a := by
    intro t t' bs hbs hmeets n a ha
    induction bs generalizing t n with
    | nil => cases ha
    | cons b bs ih =>
        rw [run_cons, Option.bind_eq_some_iff] at hbs
        rcases hbs with ⟨u, hu, hrest⟩
        cases n with
        | zero =>
            rw [List.getElem?_cons_zero, Option.some.injEq] at ha
            exact ha ▸ hmeets.1
        | succ n =>
            rw [stateAt, hu, Option.getD_some]
            exact ih hrest (hmeets.2 u hu) n ha
  exact hall hrun hmeets

end Execution

end Machine

end Foundations
