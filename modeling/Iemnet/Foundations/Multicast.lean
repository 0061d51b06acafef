import Iemnet.Foundations.TransitionSystem
import Mathlib.Data.List.Nodup

/-!
# Multicast groups

A group has members who join and leave, and an audience that plain posts go to.  An
audience names a member or all but one; when the single member that it names has left, it
means everybody.  Members can refuse a post, and leave by it.

A member that has left does not come back, so what a member has got is settled when it
leaves.

Main results:

- Theorem {lit}`wellFormed`: in every reachable group nobody is listed twice, and only
  those who have joined have mail.
- Theorem {lit}`mailbox_run`: what a run adds to the mail of one member.
- Theorems {lit}`handed_sublist` and {lit}`handed_of_gone`: it is some of the posts, in their
  order, and nothing after the member has left.
-/

namespace Foundations
namespace Multicast

/-- Who is meant by a post. -/
inductive Audience (ι : Type*)
  | everybody
  | only (i : ι)
  | allBut (i : ι)
deriving DecidableEq, Repr

/-- The members in the order in which they joined, those who have left, the chosen
audience, and everything that was handed over. -/
structure Group (ι μ : Type*) where
  members : List ι
  gone : List ι
  audience : Audience ι
  mail : List (ι × μ)

/-- What can happen to a group. -/
inductive Event (ι μ : Type*)
  | join (i : ι)
  | leave (i : ι)
  | choose (a : Audience ι)
  /-- The post {lit}`m` goes to the given audience, or to the chosen one if there is none;
  the members {lit}`refused` do not take it. -/
  | post (a : Option (Audience ι)) (m : μ) (refused : List ι)

/-- The post that an event carries. -/
def Event.message {ι μ : Type*} : Event ι μ → Option μ
  | .post _ m _ => some m
  | _ => none

namespace Group

variable {ι μ : Type*} [DecidableEq ι]

/-- The members whom an audience means at the moment. -/
def reached (g : Group ι μ) : Audience ι → List ι
  | .everybody => g.members
  | .only i => if i ∈ g.members then [i] else g.members
  | .allBut i => g.members.filter fun j => j ≠ i

/-- The group after the post {lit}`m` to the members {lit}`r`. -/
def posted (g : Group ι μ) (r : List ι) (m : μ) (refused : List ι) : Group ι μ where
  members := g.members.filter fun i => ¬ (i ∈ r ∧ i ∈ refused)
  gone := g.gone ++ r.filter fun i => i ∈ refused
  audience := g.audience
  mail := g.mail ++ (r.filter fun i => i ∉ refused).map fun i => (i, m)

/-- One event. -/
def step (g : Group ι μ) : Event ι μ → Option (Group ι μ)
  | .join i =>
      if i ∈ g.members ∨ i ∈ g.gone then none else some { g with members := g.members ++ [i] }
  | .leave i =>
      if i ∈ g.members then
        some { g with members := g.members.erase i, gone := g.gone ++ [i] }
      else none
  | .choose a => some { g with audience := a }
  | .post a m refused => some (g.posted (g.reached (a.getD g.audience)) m refused)

/-- The group in which nothing has happened. -/
def empty (ι μ : Type*) : Group ι μ :=
  ⟨[], [], .everybody, []⟩

end Group

/-- Groups as a transition system. -/
def groupMachine (ι μ : Type*) [DecidableEq ι] : Machine (Group ι μ) (Event ι μ) where
  init g := g = Group.empty ι μ
  step := Group.step

namespace Group

variable {ι μ : Type*} [DecidableEq ι] {g g' : Group ι μ} {i : ι}

/-! ## Who is in a group -/

/-- Only members are reached. -/
theorem mem_of_reached {a : Audience ι} (h : i ∈ g.reached a) : i ∈ g.members := by
  cases a with
  | everybody => exact h
  | only j =>
      simp only [reached] at h
      split at h
      · rename_i hj
        rw [List.mem_singleton] at h
        exact h ▸ hj
      · exact h
  | allBut j => exact List.mem_of_mem_filter h

/-- Nobody is reached twice. -/
theorem reached_nodup (h : g.members.Nodup) (a : Audience ι) : (g.reached a).Nodup := by
  cases a with
  | everybody => exact h
  | only j =>
      simp only [reached]
      split
      · exact List.nodup_singleton j
      · exact h
  | allBut j => exact h.filter _

/-- Nobody is listed twice, and who has mail has joined. -/
structure WellFormed (g : Group ι μ) : Prop where
  members_nodup : g.members.Nodup
  apart : ∀ i ∈ g.members, i ∉ g.gone
  addressees : ∀ p ∈ g.mail, p.1 ∈ g.members ∨ p.1 ∈ g.gone

omit [DecidableEq ι] in
/-- The empty group is well formed. -/
theorem wellFormed_empty : (empty ι μ).WellFormed :=
  ⟨List.nodup_nil, by simp [empty], by simp [empty]⟩

/-- A message leaves the group well formed, whoever refuses it. -/
theorem WellFormed.posted (h : g.WellFormed) (a : Audience ι) (m : μ) (refused : List ι) :
    (g.posted (g.reached a) m refused).WellFormed := by
  -- who was a member stays one or leaves by this post
  have hstays : ∀ j ∈ g.members, j ∈ (g.posted (g.reached a) m refused).members ∨
      j ∈ (g.posted (g.reached a) m refused).gone := by
    intro j hj
    by_cases hrefuses : j ∈ g.reached a ∧ j ∈ refused
    · exact Or.inr (List.mem_append_right _ (List.mem_filter.2 ⟨hrefuses.1, by simp [hrefuses.2]⟩))
    · exact Or.inl (List.mem_filter.2 ⟨hj, decide_eq_true hrefuses⟩)
  constructor
  · exact h.members_nodup.filter _
  · intro j hj hgone
    rcases List.mem_filter.1 hj with ⟨hmember, hnot⟩
    rcases List.mem_append.1 hgone with hold | hnew
    · exact h.apart j hmember hold
    · rcases List.mem_filter.1 hnew with ⟨hreached, hrefused⟩
      simp only [decide_eq_true_eq] at hnot hrefused
      exact hnot ⟨hreached, hrefused⟩
  · intro p hp
    rcases List.mem_append.1 hp with hold | hnew
    · rcases h.addressees p hold with hmember | hgone
      · exact hstays p.1 hmember
      · exact Or.inr (List.mem_append_left _ hgone)
    · rcases List.mem_map.1 hnew with ⟨j, hj, rfl⟩
      exact hstays j (mem_of_reached (List.mem_of_mem_filter hj))

/-- Every event leaves the group well formed. -/
theorem WellFormed.step (h : g.WellFormed) {e : Event ι μ} (hstep : g.step e = some g') :
    g'.WellFormed := by
  cases e with
  | join i =>
      rw [Group.step, Option.ite_none_left_eq_some] at hstep
      rcases hstep with ⟨hnew, hstep⟩
      cases hstep
      rw [not_or] at hnew
      refine ⟨?_, ?_, ?_⟩
      · exact List.nodup_append.2 ⟨h.members_nodup, List.nodup_singleton i, fun j hj k hk hjk =>
          hnew.1 (List.mem_singleton.1 hk ▸ hjk ▸ hj)⟩
      · intro j hj
        rcases List.mem_append.1 hj with hold | hlast
        · exact h.apart j hold
        · exact List.mem_singleton.1 hlast ▸ hnew.2
      · intro p hp
        exact (h.addressees p hp).imp_left (List.mem_append_left _)
  | leave i =>
      rw [Group.step, Option.ite_none_right_eq_some] at hstep
      rcases hstep with ⟨hi, hstep⟩
      cases hstep
      refine ⟨h.members_nodup.erase i, ?_, ?_⟩
      · intro j hj hgone
        rcases List.mem_append.1 hgone with hold | hlast
        · exact h.apart j (List.mem_of_mem_erase hj) hold
        · exact h.members_nodup.not_mem_erase (List.mem_singleton.1 hlast ▸ hj)
      · intro p hp
        rcases h.addressees p hp with hmember | hgone
        · by_cases hpi : p.1 = i
          · exact Or.inr (List.mem_append_right _ (List.mem_singleton.2 hpi))
          · exact Or.inl ((List.mem_erase_of_ne hpi).2 hmember)
        · exact Or.inr (List.mem_append_left _ hgone)
  | choose a =>
      cases hstep
      exact ⟨h.members_nodup, h.apart, h.addressees⟩
  | post a m refused =>
      cases hstep
      exact h.posted _ m refused

/-- Every group that is reached is well formed. -/
theorem wellFormed (h : (groupMachine ι μ).Reachable g) : g.WellFormed := by
  apply h.invariant (I := WellFormed)
  · intro g hg
    exact hg ▸ wellFormed_empty
  · intro g e g' _ hg _ hstep
    exact hg.step hstep

/-! ## Several members leave -/

/-- Members leaving one after the other are gone, and the others stay. -/
theorem run_leave (is : List ι) (h : g.members.Nodup) (hsub : ∀ i ∈ is, i ∈ g.members)
    (hnodup : is.Nodup) :
    (groupMachine ι μ).run g (is.map .leave) = some { g with
      members := g.members.filter fun i => i ∉ is, gone := g.gone ++ is } := by
  induction is generalizing g with
  | nil => simp
  | cons i is ih =>
      rw [List.nodup_cons] at hnodup
      have hi : i ∈ g.members := hsub i List.mem_cons_self
      have hlater : ∀ j ∈ is, j ∈ g.members.erase i := by
        intro j hj
        have hne : j ≠ i := fun hji => hnodup.1 (hji ▸ hj)
        exact (List.mem_erase_of_ne hne).2 (hsub j (List.mem_cons_of_mem i hj))
      have hrest := ih (g := { g with members := g.members.erase i, gone := g.gone ++ [i] })
        (h.erase i) hlater hnodup.2
      have hfirst : (groupMachine ι μ).step g (.leave i) =
          some { g with members := g.members.erase i, gone := g.gone ++ [i] } := if_pos hi
      rw [List.map_cons, Machine.run_cons, hfirst, Option.bind_some, hrest]
      simp only [h.erase_eq_filter, List.filter_filter, List.append_assoc, List.singleton_append]
      congr 2
      apply List.filter_congr
      intro j _
      by_cases hji : j = i <;> simp [hji]

/-! ## What one member gets -/

/-- The mail of {lit}`i`, oldest first. -/
def mailbox (g : Group ι μ) (i : ι) : List μ :=
  g.mail.filterMap fun p => if p.1 = i then some p.2 else none

/-- What an event hands to {lit}`i`. -/
def takes (g : Group ι μ) (i : ι) : Event ι μ → Option μ
  | .post a m refused =>
      if i ∈ g.reached (a.getD g.audience) ∧ i ∉ refused then some m else none
  | _ => none

/-- What a run hands to {lit}`i`. -/
def handed (i : ι) : Group ι μ → List (Event ι μ) → List μ
  | _, [] => []
  | g, e :: es => (g.takes i e).toList ++ (g.step e).elim [] fun g' => handed i g' es

/-- A post is handed over once to those whom it is for. -/
theorem filterMap_once {r : List ι} (h : r.Nodup) (m : μ) :
    (r.map fun j => (j, m)).filterMap (fun p : ι × μ => if p.1 = i then some p.2 else none) =
      if i ∈ r then [m] else [] := by
  induction r with
  | nil => rfl
  | cons j r ih =>
      rw [List.nodup_cons] at h
      rw [List.map_cons, List.filterMap_cons, ih h.2]
      by_cases hji : j = i
      · subst hji
        simp [h.1]
      · simp [hji, Ne.symm hji]

/-- An event adds what the member takes from it to the mailbox, and nothing else. -/
theorem mailbox_step (h : g.WellFormed) {e : Event ι μ} (hstep : g.step e = some g') (i : ι) :
    g'.mailbox i = g.mailbox i ++ (g.takes i e).toList := by
  cases e with
  | join j =>
      rw [Group.step, Option.ite_none_left_eq_some] at hstep
      rcases hstep with ⟨-, hstep⟩
      cases hstep
      exact (List.append_nil _).symm
  | leave j =>
      rw [Group.step, Option.ite_none_right_eq_some] at hstep
      rcases hstep with ⟨-, hstep⟩
      cases hstep
      exact (List.append_nil _).symm
  | choose a =>
      cases hstep
      exact (List.append_nil _).symm
  | post a m refused =>
      cases hstep
      have hnodup := (reached_nodup h.members_nodup (a.getD g.audience)).filter
        fun j => decide (j ∉ refused)
      rw [mailbox, posted, List.filterMap_append, filterMap_once hnodup, takes]
      simp only [List.mem_filter, decide_eq_true_eq]
      split <;> rfl

/-- The mail of one member after a run. -/
theorem mailbox_run (h : g.WellFormed) {es : List (Event ι μ)}
    (hrun : (groupMachine ι μ).run g es = some g') (i : ι) :
    g'.mailbox i = g.mailbox i ++ handed i g es := by
  induction es generalizing g with
  | nil =>
      rw [Machine.run_nil, Option.some.injEq] at hrun
      rw [hrun, handed, List.append_nil]
  | cons e es ih =>
      rw [Machine.run_cons, Option.bind_eq_some_iff] at hrun
      rcases hrun with ⟨g₁, hstep, hrest⟩
      have hstep' : g.step e = some g₁ := hstep
      rw [ih (h.step hstep') hrest, mailbox_step h hstep', handed, hstep', Option.elim_some,
        List.append_assoc]

/-- What is taken from an event is the message of the event. -/
theorem takes_eq_message {e : Event ι μ} {m : μ} (h : g.takes i e = some m) :
    e.message = some m := by
  cases e with
  | post a m' refused =>
      rw [takes, Option.ite_none_right_eq_some] at h
      exact h.2
  | join j | leave j | choose a => cases h

/-- Nobody gets a post twice or out of order. -/
theorem handed_sublist (i : ι) (g : Group ι μ) (es : List (Event ι μ)) :
    (handed i g es).Sublist (es.filterMap Event.message) := by
  induction es generalizing g with
  | nil => exact List.Sublist.refl _
  | cons e es ih =>
      have hrest : ((g.step e).elim [] fun g' => handed i g' es).Sublist
          (es.filterMap Event.message) := by
        cases g.step e with
        | none => exact List.nil_sublist _
        | some g' => exact ih g'
      rw [handed]
      cases htakes : g.takes i e with
      | none =>
          rw [Option.toList_none, List.nil_append]
          exact hrest.trans ((List.sublist_cons_self e es).filterMap Event.message)
      | some m =>
          rw [List.filterMap_cons_some (takes_eq_message htakes)]
          exact hrest.cons_cons m

/-- Who has gone does not come back. -/
theorem gone_step {e : Event ι μ} (hstep : g.step e = some g') (hi : i ∈ g.gone) :
    i ∈ g'.gone := by
  cases e with
  | join j =>
      rw [Group.step, Option.ite_none_left_eq_some] at hstep
      rcases hstep with ⟨-, hstep⟩
      cases hstep
      exact hi
  | leave j =>
      rw [Group.step, Option.ite_none_right_eq_some] at hstep
      rcases hstep with ⟨-, hstep⟩
      cases hstep
      exact List.mem_append_left _ hi
  | choose a =>
      cases hstep
      exact hi
  | post a m refused =>
      cases hstep
      exact List.mem_append_left _ hi

/-- Who has left gets nothing any more. -/
theorem handed_of_gone (h : g.WellFormed) (hi : i ∈ g.gone) (es : List (Event ι μ)) :
    handed i g es = [] := by
  induction es generalizing g with
  | nil => rfl
  | cons e es ih =>
      have hnothing : g.takes i e = none := by
        cases e with
        | post a m refused =>
            exact if_neg fun hreached => h.apart i (mem_of_reached hreached.1) hi
        | join j | leave j | choose a => rfl
      rw [handed, hnothing, Option.toList_none, List.nil_append]
      cases hstep : g.step e with
      | none => rfl
      | some g' => exact ih (h.step hstep) (gone_step hstep hi)

end Group
end Multicast
end Foundations
