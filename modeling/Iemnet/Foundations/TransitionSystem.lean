import Mathlib.Data.List.Basic
import Mathlib.Data.Set.Card
import Mathlib.Logic.Function.Basic

/-!
# Labelled transition systems

A {lit}`Machine` moves by partial labelled steps: a label resolves every choice
a scheduler, an allocator or a peer can make, so one label from one state has at
most one successor.  Safety results are proved once through
{lit}`Reach.invariant`; results about "every run whose steps all meet a
condition" use the same predicate with a nontrivial {lit}`ok`.

Main results:

- Theorem {lit}`Reach.invariant`: a property of the initial states kept by every
  admissible step holds in every reachable state.
- Theorem {lit}`reach_of_run`: an executable run is a derivation of
  reachability.
- Theorem {lit}`run_balance`: over a whole run, what comes in goes out or is kept.
- Theorem {lit}`run_meets_or`: a condition that all steps of a run meet, or that one of
  them does not.
- Theorem {lit}`ncard_threadsIn_update`: how the number of threads in a local state of a
  kind changes.
-/

namespace Foundations

/-- A system of partial labelled steps with a set of initial states. -/
structure Machine (σ α : Type*) where
  init : σ → Prop
  step : σ → α → Option σ

namespace Machine

variable {σ α : Type*} (M : Machine σ α)

/-- The states reached by steps that all meet {lit}`ok` in the state they
leave. -/
inductive Reach (ok : σ → α → Prop) : σ → Prop
  | start {s : σ} (hinit : M.init s) : Reach ok s
  | next {s s' : σ} {a : α} (hreach : Reach ok s) (hok : ok s a)
      (hstep : M.step s a = some s') : Reach ok s'

/-- The states reached by any steps at all. -/
abbrev Reachable (s : σ) : Prop :=
  M.Reach (fun _ _ => True) s

variable {M} {ok ok' : σ → α → Prop}

/-- The induction rule for safety: the step may use that the state it leaves is
itself reachable. -/
theorem Reach.invariant {I : σ → Prop} (hinit : ∀ s, M.init s → I s)
    (hstep : ∀ s a s', M.Reach ok s → I s → ok s a → M.step s a = some s' → I s')
    {s : σ} (h : M.Reach ok s) : I s := by
  induction h with
  | start hi => exact hinit _ hi
  | next hreach hok hs ih => exact hstep _ _ _ hreach ih hok hs

/-- Weakening the step condition keeps every reachable state. -/
theorem Reach.mono (himp : ∀ s a, ok s a → ok' s a) {s : σ} (h : M.Reach ok s) :
    M.Reach ok' s := by
  induction h with
  | start hi => exact .start hi
  | next _ hok hs ih => exact .next ih (himp _ _ hok) hs

/-- A conditioned run is in particular a run. -/
theorem Reach.reachable {s : σ} (h : M.Reach ok s) : M.Reachable s :=
  h.mono fun _ _ _ => trivial

variable (M)

/-- Execute a list of labels. -/
def run : σ → List α → Option σ
  | s, [] => some s
  | s, a :: as => (M.step s a).bind fun s' => run s' as

/-- Every step of the labelled run leaves a state that meets {lit}`ok`. -/
def RunMeets (ok : σ → α → Prop) : σ → List α → Prop
  | _, [] => True
  | s, a :: as => ok s a ∧ ∀ s', M.step s a = some s' → RunMeets ok s' as

variable {M}

/-- The empty run stays where it is. -/
@[simp]
theorem run_nil (s : σ) : M.run s [] = some s :=
  rfl

/-- A run is its first step and the rest. -/
theorem run_cons (s : σ) (a : α) (as : List α) :
    M.run s (a :: as) = (M.step s a).bind fun s' => M.run s' as :=
  rfl

/-- Runs are put together. -/
theorem run_append {s t u : σ} {as bs : List α} (h : M.run s as = some t)
    (hrest : M.run t bs = some u) : M.run s (as ++ bs) = some u := by
  induction as generalizing s with
  | nil =>
      rw [run_nil, Option.some.injEq] at h
      exact h ▸ hrest
  | cons a as ih =>
      rw [run_cons, Option.bind_eq_some_iff] at h
      rcases h with ⟨v, hv, h⟩
      rw [List.cons_append, run_cons, hv, Option.bind_some, ih h]

/-- A run whose steps all meet the condition extends reachability. -/
theorem Reach.run {s s' : σ} {as : List α} (h : M.Reach ok s)
    (hmeets : M.RunMeets ok s as) (hrun : M.run s as = some s') : M.Reach ok s' := by
  induction as generalizing s with
  | nil =>
      simp only [run_nil, Option.some.injEq] at hrun
      exact hrun ▸ h
  | cons a as ih =>
      rw [run_cons] at hrun
      cases hs : M.step s a with
      | none => simp [hs] at hrun
      | some t =>
          rw [hs] at hrun
          exact ih (.next h hmeets.1 hs) (hmeets.2 t hs) hrun

/-- An unconditioned run meets the trivial condition. -/
theorem runMeets_true (s : σ) (as : List α) :
    M.RunMeets (fun _ _ => True) s as := by
  induction as generalizing s with
  | nil => trivial
  | cons a as ih => exact ⟨trivial, fun s' _ => ih s'⟩

/-- A run that meets a condition meets a weaker one. -/
theorem RunMeets.mono (himp : ∀ s a, ok s a → ok' s a) {s : σ} {as : List α}
    (h : M.RunMeets ok s as) : M.RunMeets ok' s as := by
  induction as generalizing s with
  | nil => trivial
  | cons a as ih => exact ⟨himp s a h.1, fun s' hs => ih (h.2 s' hs)⟩

/-- A condition on labels alone is checked label by label. -/
theorem runMeets_of_forall {p : α → Prop} (s : σ) {as : List α} (h : ∀ a ∈ as, p a) :
    M.RunMeets (fun _ a => p a) s as := by
  induction as generalizing s with
  | nil => trivial
  | cons a as ih =>
      exact ⟨h a List.mem_cons_self, fun s' _ =>
        ih s' fun b hb => h b (List.mem_cons_of_mem a hb)⟩

/-- An executable run from an initial state is a derivation of reachability. -/
theorem reach_of_run {s s' : σ} {as : List α} (hinit : M.init s)
    (hrun : M.run s as = some s') : M.Reachable s' :=
  Reach.run (.start hinit) (runMeets_true s as) hrun

/-- What no step of a kind changes is the same at the end of a run of such steps. -/
theorem run_const {β : Type*} {f : σ → β} {p : α → Prop}
    (hstep : ∀ s a s', p a → M.step s a = some s' → f s' = f s) {s s' : σ} {as : List α}
    (hp : ∀ a ∈ as, p a) (hrun : M.run s as = some s') : f s' = f s := by
  induction as generalizing s with
  | nil =>
      simp only [run_nil, Option.some.injEq] at hrun
      rw [hrun]
  | cons a as ih =>
      rw [run_cons, Option.bind_eq_some_iff] at hrun
      rcases hrun with ⟨t, ht, hrun⟩
      have hrest : f s' = f t := ih (fun b hb => hp b (List.mem_cons_of_mem a hb)) hrun
      exact hrest.trans (hstep s a t (hp a List.mem_cons_self) ht)

/-- What every step keeps is so at the end of a run. -/
theorem run_invariant {I : σ → Prop} (hstep : ∀ s a s', I s → M.step s a = some s' → I s')
    {s s' : σ} {as : List α} (h : I s) (hrun : M.run s as = some s') : I s' := by
  induction as generalizing s with
  | nil =>
      rw [run_nil, Option.some.injEq] at hrun
      exact hrun ▸ h
  | cons a as ih =>
      rw [run_cons, Option.bind_eq_some_iff] at hrun
      rcases hrun with ⟨t, ht, hrest⟩
      exact ih (hstep s a t h ht) hrest

variable (M)

/-- What the steps of a labelled run yield, in order. -/
def yields {β : Type*} (f : σ → α → List β) : σ → List α → List β
  | _, [] => []
  | s, a :: as =>
      f s a ++ match M.step s a with
        | some s' => yields f s' as
        | none => []

variable {M}

/-- What a run yields begins with what its first step yields. -/
theorem yields_cons {β : Type*} {f : σ → α → List β} {s s' : σ} {a : α} {as : List α}
    (hs : M.step s a = some s') : M.yields f s (a :: as) = f s a ++ M.yields f s' as := by
  rw [yields, hs]

/-- What comes in at every step goes out or is kept: so it is over a whole run. -/
theorem run_balance {β : Type*} {I : σ → Prop} {k : σ → List β} {f g : σ → α → List β}
    (hI : ∀ s a s', I s → M.step s a = some s' → I s')
    (hstep : ∀ s a s', I s → M.step s a = some s' → k s ++ f s a = g s a ++ k s')
    {s s' : σ} {as : List α} (h : I s) (hrun : M.run s as = some s') :
    k s ++ M.yields f s as = M.yields g s as ++ k s' := by
  induction as generalizing s with
  | nil =>
      rw [run_nil, Option.some.injEq] at hrun
      rw [hrun, yields, yields, List.append_nil, List.nil_append]
  | cons a as ih =>
      rw [run_cons, Option.bind_eq_some_iff] at hrun
      rcases hrun with ⟨t, ht, hrest⟩
      rw [yields_cons ht, yields_cons ht, ← List.append_assoc, hstep s a t h ht,
        List.append_assoc, ih (hI s a t h ht) hrest, List.append_assoc]

/-- Steps that yield nothing yield nothing together. -/
theorem yields_nothing {β : Type*} (s : σ) (as : List α) :
    M.yields (fun _ _ => ([] : List β)) s as = [] := by
  induction as generalizing s with
  | nil => rfl
  | cons a as ih =>
      rw [yields]
      cases M.step s a with
      | none => rfl
      | some t => exact ih t

/-- What every step adds to a history adds up over a run. -/
theorem run_yields {β : Type*} {I : σ → Prop} {l : σ → List β} {f : σ → α → List β}
    (hI : ∀ s a s', I s → M.step s a = some s' → I s')
    (hstep : ∀ s a s', I s → M.step s a = some s' → l s' = l s ++ f s a)
    {s s' : σ} {as : List α} (h : I s) (hrun : M.run s as = some s') :
    l s' = l s ++ M.yields f s as := by
  have hbalance := run_balance (f := f) (g := fun _ _ => []) hI
    (fun s a s' hs ha => (hstep s a s' hs ha).symm) h hrun
  rw [hbalance, yields_nothing, List.nil_append]

/-- Selecting from what a run yields is selecting at every step. -/
theorem yields_filterMap {β γ : Type*} (p : β → Option γ) (f : σ → α → List β) (s : σ)
    (as : List α) :
    (M.yields f s as).filterMap p = M.yields (fun s a => (f s a).filterMap p) s as := by
  induction as generalizing s with
  | nil => rfl
  | cons a as ih =>
      rw [yields, yields, List.filterMap_append]
      cases M.step s a with
      | none => rfl
      | some t => rw [ih t]

/-- Mapping what a run yields is mapping at every step. -/
theorem map_yields {β γ : Type*} (p : β → γ) (f : σ → α → List β) (s : σ) (as : List α) :
    (M.yields f s as).map p = M.yields (fun s a => (f s a).map p) s as := by
  have hall := M.yields_filterMap (fun b => some (p b)) f s as
  simpa only [List.filterMap_eq_map'] using hall

variable (M)

/-- Whether every step of the labelled run leaves a state that meets {lit}`ok`. -/
def meets (ok : σ → α → Prop) [∀ s a, Decidable (ok s a)] : σ → List α → Bool
  | _, [] => true
  | s, a :: as => decide (ok s a) && (M.step s a).all fun s' => meets ok s' as

variable {M}

/-- The check of a run is sound. -/
theorem runMeets_of_meets [∀ s a, Decidable (ok s a)] {s : σ} {as : List α}
    (h : M.meets ok s as = true) : M.RunMeets ok s as := by
  induction as generalizing s with
  | nil => trivial
  | cons a as ih =>
      rw [meets, Bool.and_eq_true, decide_eq_true_iff] at h
      refine ⟨h.1, fun s' hs => ih ?_⟩
      simpa [hs] using h.2

/-- Steps that meet the condition keep {lit}`I`, the first one that does not leads to
{lit}`B`, and {lit}`B` lasts. -/
theorem run_meets_or {I B : σ → Prop}
    (hgood : ∀ s a s', I s → ok s a → M.step s a = some s' → I s')
    (hbad : ∀ s a s', I s → ¬ ok s a → M.step s a = some s' → B s')
    (hstay : ∀ s a s', B s → M.step s a = some s' → B s')
    {s s' : σ} {as : List α} (h : I s) (hrun : M.run s as = some s') :
    (M.RunMeets ok s as ∧ I s') ∨ (¬ M.RunMeets ok s as ∧ B s') := by
  induction as generalizing s with
  | nil =>
      rw [run_nil, Option.some.injEq] at hrun
      exact Or.inl ⟨trivial, hrun ▸ h⟩
  | cons a as ih =>
      rw [run_cons, Option.bind_eq_some_iff] at hrun
      rcases hrun with ⟨t, ht, hrest⟩
      by_cases hok : ok s a
      · rcases ih (hgood s a t h hok ht) hrest with ⟨hmeets, hI⟩ | ⟨hnot, hB⟩
        · refine Or.inl ⟨⟨hok, fun u hu => ?_⟩, hI⟩
          rw [ht, Option.some.injEq] at hu
          exact hu ▸ hmeets
        · exact Or.inr ⟨fun hmeets => hnot (hmeets.2 t ht), hB⟩
      · exact Or.inr ⟨fun hmeets => hok hmeets.1, run_invariant hstay (hbad s a t h hok ht) hrest⟩

/-- A run over labels made of a list, of which the good ones keep {lit}`I` and a bad one
leaves a state in which nothing more can happen: all were good, or the last was bad. -/
theorem run_good_or_stuck {β : Type*} {label : β → α} {I : σ → List β → Prop} {B : σ → Prop}
    {p good : β → Prop}
    (hgood : ∀ s done b s', I s done → p b → good b → M.step s (label b) = some s' →
      I s' (done ++ [b]))
    (hbad : ∀ s done b s', I s done → ¬ good b → M.step s (label b) = some s' → B s')
    (hstuck : ∀ s b, B s → M.step s (label b) = none)
    {s s' : σ} {done bs : List β} (h : I s done) (hp : ∀ b ∈ bs, p b)
    (hrun : M.run s (bs.map label) = some s') :
    ((∀ b ∈ bs, good b) ∧ I s' (done ++ bs)) ∨ ((¬ ∀ b ∈ bs, good b) ∧ B s') := by
  induction bs generalizing s done with
  | nil =>
      simp only [List.map_nil, run_nil, Option.some.injEq] at hrun
      left
      refine ⟨by simp, ?_⟩
      rw [List.append_nil]
      exact hrun ▸ h
  | cons b bs ih =>
      rw [List.map_cons, run_cons] at hrun
      cases hs : M.step s (label b) with
      | none => simp [hs] at hrun
      | some t =>
          rw [hs, Option.bind_some] at hrun
          by_cases hb : good b
          · rw [List.forall_mem_cons] at hp
            rcases ih (hgood s done b t h hp.1 hb hs) hp.2 hrun with ⟨hall, hI⟩ | ⟨hsome, hB⟩
            · left
              refine ⟨List.forall_mem_cons.2 ⟨hb, hall⟩, ?_⟩
              rw [List.append_assoc] at hI
              exact hI
            · exact Or.inr ⟨fun hall => hsome (List.forall_mem_cons.1 hall).2, hB⟩
          · have hB := hbad s done b t h hb hs
            refine Or.inr ⟨fun hall => hb (List.forall_mem_cons.1 hall).1, ?_⟩
            cases bs with
            | nil =>
                simp only [List.map_nil, run_nil, Option.some.injEq] at hrun
                exact hrun ▸ hB
            | cons c bs =>
                rw [List.map_cons, run_cons, hstuck t c hB] at hrun
                cases hrun

end Machine

/-! ## Maps of local states -/

/-- A thread found in a local state after one entry has been replaced: it is the
replaced one, or it is where it was. -/
theorem update_eq_some_cases {τ β : Type*} [DecidableEq τ] {f : τ → Option β} {t u : τ}
    {o : Option β} {b : β} (h : Function.update f t o u = some b) :
    (u = t ∧ o = some b) ∨ (u ≠ t ∧ f u = some b) := by
  by_cases hut : u = t
  · subst hut
    rw [Function.update_self] at h
    exact Or.inl ⟨rfl, h⟩
  · rw [Function.update_of_ne hut] at h
    exact Or.inr ⟨hut, h⟩

/-! ## Counting local states -/

/-- The threads that are in a local state of a kind. -/
def threadsIn {τ β : Type*} (f : τ → Option β) (p : β → Bool) : Set τ :=
  {t | (f t).any p = true}

section Counting

variable {τ β : Type*} [DecidableEq τ] {f : τ → Option β} {p : β → Bool}

/-- Replacing the entry of one thread does not concern the others. -/
theorem threadsIn_update_diff (f : τ → Option β) (p : β → Bool) (t : τ) (o : Option β) :
    threadsIn (Function.update f t o) p \ {t} = threadsIn f p \ {t} := by
  ext u
  by_cases hut : u = t
  · simp [hut]
  · simp [threadsIn, hut]

omit [DecidableEq τ] in
/-- One thread is counted apart from the others. -/
theorem ncard_threadsIn (h : (threadsIn f p).Finite) (t : τ) :
    (threadsIn f p).ncard = (threadsIn f p \ {t}).ncard + ((f t).any p).toNat := by
  cases hin : (f t).any p with
  | false =>
      have hout : t ∉ threadsIn f p := by simp [threadsIn, hin]
      rw [Set.sdiff_singleton_eq_self hout, Bool.toNat_false, Nat.add_zero]
  | true =>
      have hmem : t ∈ threadsIn f p := hin
      rw [Bool.toNat_true, Set.ncard_sdiff_singleton_add_one hmem h]

/-- One thread more or less leaves finitely many. -/
theorem finite_threadsIn_update (h : (threadsIn f p).Finite) (t : τ) (o : Option β) :
    (threadsIn (Function.update f t o) p).Finite := by
  have hothers : (threadsIn (Function.update f t o) p \ {t}).Finite := by
    rw [threadsIn_update_diff]
    exact h.subset Set.sdiff_subset
  exact hothers.of_sdiff (Set.finite_singleton t)

/-- What replacing the entry of one thread does to the count. -/
theorem ncard_threadsIn_update (h : (threadsIn f p).Finite) (t : τ) (o : Option β) :
    (threadsIn (Function.update f t o) p).ncard + ((f t).any p).toNat =
      (threadsIn f p).ncard + (o.any p).toNat := by
  have hold := ncard_threadsIn h t
  have hnew := ncard_threadsIn (finite_threadsIn_update h t o) t
  rw [threadsIn_update_diff, Function.update_self] at hnew
  omega

end Counting

end Foundations
