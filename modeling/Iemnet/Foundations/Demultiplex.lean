import Mathlib.Data.List.Basic

/-!
# Tagged streams

Several channels share one stream: a tag names a channel, and every item belongs to the
channel that was named last.

Main results:

- Theorem {lit}`Carries.append`: pieces that carry data of their own, whatever was named
  before them, can be put together.
- Theorem {lit}`Carries.channel_eq`: what is read back for one channel.
-/

namespace Foundations

/-- One element of a tagged stream. -/
inductive Signal (τ δ : Type*)
  | tag (t : τ)
  | data (d : δ)
deriving DecidableEq, Repr

variable {τ δ : Type*}

/-- The channel named last; {lit}`t` is the one named before. -/
def lastTag : Option τ → List (Signal τ δ) → Option τ
  | t, [] => t
  | _, .tag t :: u => lastTag (some t) u
  | t, .data _ :: u => lastTag t u

/-- The items of a stream with the channel that each belongs to. -/
def attributed : Option τ → List (Signal τ δ) → List (Option τ × δ)
  | _, [] => []
  | _, .tag t :: u => attributed (some t) u
  | t, .data d :: u => (t, d) :: attributed t u

/-- What follows is attributed from the last tag on. -/
theorem attributed_append (t : Option τ) (u v : List (Signal τ δ)) :
    attributed t (u ++ v) = attributed t u ++ attributed (lastTag t u) v := by
  induction u generalizing t with
  | nil => rfl
  | cons s u ih =>
      cases s with
      | tag t' => exact ih _
      | data d => exact congrArg ((t, d) :: ·) (ih t)

/-- Without tags everything belongs to the tag before. -/
@[simp]
theorem attributed_data (t : Option τ) (ds : List δ) :
    attributed t (ds.map Signal.data) = ds.map fun d => (t, d) := by
  induction ds with
  | nil => rfl
  | cons d ds ih => exact congrArg ((t, d) :: ·) ih

/-- The stream carries these items for these channels, whatever was named before. -/
def Carries (u : List (Signal τ δ)) (ps : List (τ × δ)) : Prop :=
  ∀ t, attributed t u = ps.map fun p => (some p.1, p.2)

/-- No signals carry nothing. -/
theorem carries_nil : Carries ([] : List (Signal τ δ)) [] :=
  fun _ => rfl

/-- A tag alone carries no data. -/
theorem carries_tag (t : τ) : Carries ([.tag t] : List (Signal τ δ)) [] :=
  fun _ => rfl

/-- A tag and the items that follow it. -/
theorem carries_block (t : τ) (ds : List δ) :
    Carries (Signal.tag t :: ds.map Signal.data) (ds.map fun d => (t, d)) := by
  intro s
  rw [attributed, attributed_data, List.map_map]
  rfl

/-- One channel after the other carries what both of them carry. -/
theorem Carries.append {u v : List (Signal τ δ)} {ps qs : List (τ × δ)} (hu : Carries u ps)
    (hv : Carries v qs) : Carries (u ++ v) (ps ++ qs) := by
  intro t
  rw [attributed_append, hu t, hv, List.map_append]

/-- The items of one channel. -/
def channel [DecidableEq τ] (t : τ) (ps : List (Option τ × δ)) : List δ :=
  (ps.filter fun p => p.1 = some t).map Prod.snd

/-- Reading one channel back. -/
theorem Carries.channel_eq [DecidableEq τ] {u : List (Signal τ δ)} {ps : List (τ × δ)}
    (h : Carries u ps) (s : Option τ) (t : τ) :
    channel t (attributed s u) = (ps.filter fun p => p.1 = t).map Prod.snd := by
  rw [channel, h s, List.filter_map, List.map_map]
  simp only [Function.comp_def, Option.some.injEq]

end Foundations
