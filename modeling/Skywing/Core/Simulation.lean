import Mathlib.Data.Option.Basic
import Skywing.Core.LTS

/-!
# Maps between transition systems

A map of states and labels under which one partial step function becomes
another, with equality where a step is taken and where none is possible.
Runs go to runs and reachable states to reachable states, also under a
condition on the steps, so what is proved of the image's runs holds of all
runs that go there.
-/
namespace Skywing.LTS

variable {S S' L L' : Type*}

/-- A step and then the map is the map and then a step. -/
structure Hom (f : S → L → Option S) (f' : S' → L' → Option S') where
  state : S → S'
  label : L → L'
  step : ∀ s l, (f s l).map state = f' (state s) (label l)

variable {f : S → L → Option S} {f' : S' → L' → Option S'} (h : Hom f f')

/-- Whole runs go to whole runs, and a run that gets stuck to one that does. -/
theorem Hom.exec (s : S) (ls : List L) :
    (LTS.exec f s ls).map h.state = LTS.exec f' (h.state s) (ls.map h.label) := by
  induction ls generalizing s with
  | nil => rfl
  | cons l ls ih =>
    simp only [LTS.exec, List.map_cons, Option.map_bind]
    rw [← h.step s l]
    cases f s l with
    | none => rfl
    | some t => exact ih t

theorem Hom.step_some {s t : S} {l : L} (ht : f s l = some t) : f' (h.state s) (h.label l) = some (h.state t) := by
  rw [← h.step, ht, Option.map_some]

/-- Runs whose steps meet a condition go to runs whose steps meet the image's. -/
theorem Hom.run {i : S → Prop} {i' : S' → Prop} {C : S → L → Prop} {C' : S' → L' → Prop}
    (hC : ∀ s l, C s l → C' (h.state s) (h.label l)) {s t : S} {ls : List L}
    (hr : ((ofFn i f).restrict C).Run s ls t) :
    ((ofFn i' f').restrict C').Run (h.state s) (ls.map h.label) (h.state t) := by
  induction hr with
  | nil s => exact .nil _
  | cons hs _ ih => exact .cons ⟨h.step_some hs.1, hC _ _ hs.2⟩ ih

theorem Hom.reachable {i : S → Prop} {i' : S' → Prop} {C : S → L → Prop} {C' : S' → L' → Prop}
    (hi : ∀ s, i s → i' (h.state s)) (hC : ∀ s l, C s l → C' (h.state s) (h.label l)) {s : S}
    (hr : ((ofFn i f).restrict C).Reachable s) : ((ofFn i' f').restrict C').Reachable (h.state s) := by
  obtain ⟨s₀, ls, h₀, hrun⟩ := hr
  exact ⟨_, _, hi s₀ h₀, h.run hC hrun⟩

end Skywing.LTS
