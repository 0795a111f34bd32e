import Mathlib.Data.List.Basic

/-! Sequential histories. An object holds a value; an event changes it, and is right or wrong about the value that it
    finds. A history is legal if every event in it is right, one after the other. -/

namespace History
variable {σ α : Type}

structure Object (σ α : Type) where
  effect : σ → α → σ
  right : σ → α → Prop

namespace Object
variable (o : Object σ α)

/-- The value after a history. -/
def after (v : σ) (events : List α) : σ := events.foldl o.effect v

def Legal (v : σ) : List α → Prop
  | [] => True
  | e :: events => o.right v e ∧ Legal (o.effect v e) events

variable {o} {v : σ} {e : α} {events events' : List α}

@[simp] theorem after_nil : o.after v [] = v := rfl

@[simp] theorem after_snoc : o.after v (events ++ [e]) = o.effect (o.after v events) e := List.foldl_append

theorem after_append : o.after v (events ++ events') = o.after (o.after v events) events' := List.foldl_append

theorem legal_append : o.Legal v (events ++ events') ↔ o.Legal v events ∧ o.Legal (o.after v events) events' := by
  induction events generalizing v with
  | nil => exact ⟨fun h => ⟨trivial, h⟩, fun h => h.2⟩
  | cons e events ih =>
    simp only [List.cons_append, Legal, ih, and_assoc]
    rfl

theorem legal_snoc : o.Legal v (events ++ [e]) ↔ o.Legal v events ∧ o.right (o.after v events) e := by
  rw [legal_append]
  exact and_congr_right fun _ => ⟨fun h => h.1, fun h => ⟨h, trivial⟩⟩

/-- Each event of a legal history is right about the value at its place. -/
theorem Legal.right (h : o.Legal v (events ++ e :: events')) : o.right (o.after v events) e :=
  (legal_append.mp h).2.1

/-- Events that are right and change nothing. -/
theorem legal_of_idle (h : ∀ e ∈ events, o.right v e ∧ o.effect v e = v) :
    o.Legal v events ∧ o.after v events = v := by
  induction events with
  | nil => exact ⟨trivial, rfl⟩
  | cons e events ih =>
    obtain ⟨hright, hidle⟩ := h e List.mem_cons_self
    obtain ⟨hlegal, hafter⟩ := ih fun e' he' => h e' (List.mem_cons_of_mem e he')
    simp only [Legal, after, List.foldl_cons, hidle]
    exact ⟨⟨hright, hlegal⟩, hafter⟩

end Object

end History
