import Mathlib.Data.Set.Basic
import Mathlib.Logic.Function.Basic

/-! Actions on a state that is made of cells. An action is local to a set of cells
when it changes no other cell and reads no other cell; actions that are local to
disjoint sets commute. -/

variable {C : Type*} {V : C → Type*} {O P : Type*}

def AgreeOn (F : Set C) (v w : ∀ c, V c) : Prop := ∀ c ∈ F, v c = w c

theorem AgreeOn.update [DecidableEq C] {F : Set C} {v w : ∀ c, V c} (h : AgreeOn F v w) (c : C)
    (x : V c) : AgreeOn F (Function.update v c x) (Function.update w c x) := by
  intro d hd
  by_cases hc : d = c
  · subst hc
    rw [Function.update_self, Function.update_self]
  · rw [Function.update_of_ne hc, Function.update_of_ne hc]
    exact h d hd

/-- An action that returns something beside the new state. -/
structure LocalTo (F : Set C) (act : (∀ c, V c) → (∀ c, V c) × O) : Prop where
  frame : ∀ v, ∀ c ∉ F, (act v).1 c = v c
  agree : ∀ v w, AgreeOn F v w → AgreeOn F (act v).1 (act w).1 ∧ (act v).2 = (act w).2

namespace LocalTo

variable {F G : Set C} {f : (∀ c, V c) → (∀ c, V c) × O} {g : (∀ c, V c) → (∀ c, V c) × P}

theorem agreeOn_of_disjoint (hf : LocalTo F f) (hd : ∀ c ∈ F, c ∉ G) (v : ∀ c, V c) :
    AgreeOn G (f v).1 v := by
  intro c hc
  exact hf.frame v c fun hF => hd c hF hc

theorem output_eq (hf : LocalTo F f) (hg : LocalTo G g) (hd : ∀ c ∈ F, c ∉ G) (v : ∀ c, V c) :
    (g (f v).1).2 = (g v).2 :=
  (hg.agree _ _ (hf.agreeOn_of_disjoint hd v)).2

theorem commute (hf : LocalTo F f) (hg : LocalTo G g) (hd : ∀ c ∈ F, c ∉ G) (v : ∀ c, V c) :
    (g (f v).1).1 = (f (g v).1).1 := by
  have hleft := (hf.agree _ _ (hg.agreeOn_of_disjoint (fun c hG hF => hd c hF hG) v)).1
  have hright := (hg.agree _ _ (hf.agreeOn_of_disjoint hd v)).1
  funext c
  by_cases hF : c ∈ F
  · rw [hg.frame _ c (hd c hF), hleft c hF]
  · rw [hf.frame _ c hF]
    by_cases hG : c ∈ G
    · rw [hright c hG]
    · rw [hg.frame _ c hG, hg.frame _ c hG, hf.frame _ c hF]

end LocalTo
