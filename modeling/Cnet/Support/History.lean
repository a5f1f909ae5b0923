import Mathlib.Data.List.Induction

/-!
# Histories

A history grows at its end. A property of every event given the events before it is
kept by one more event if that event has it.
-/

namespace Cnet.Support

universe u
variable {α : Type u}

theorem mem_snoc {trace : List α} {a e : α} : e ∈ trace ++ [a] ↔ e ∈ trace ∨ e = a := by
  rw [List.mem_append, List.mem_singleton]

/-- Where an event of `trace ++ [a]` can be: at the end, or in `trace`. -/
theorem snoc_cases {trace pre post : List α} {a e : α}
    (h : trace ++ [a] = pre ++ e :: post) :
    (pre = trace ∧ e = a) ∨ ∃ post', trace = pre ++ e :: post' := by
  rcases List.eq_nil_or_concat post with rfl | ⟨post', b, rfl⟩
  · obtain ⟨hpre, he⟩ := List.append_inj' h rfl
    exact .inl ⟨hpre.symm, (List.cons.inj he).1.symm⟩
  · rw [List.concat_eq_append, ← List.cons_append, ← List.append_assoc] at h
    exact .inr ⟨post', (List.append_inj' h rfl).1⟩

/-- Where an event of `trace ++ events` can be: in `trace`, or among `events`. -/
theorem append_cases {trace events pre post : List α} {e : α}
    (h : trace ++ events = pre ++ e :: post) :
    (∃ post', trace = pre ++ e :: post') ∨ e ∈ events := by
  induction events using List.reverseRecOn generalizing post with
  | nil => exact .inl ⟨post, (List.append_nil trace).symm.trans h⟩
  | append_singleton events a ih =>
    rw [← List.append_assoc] at h
    rcases snoc_cases h with ⟨-, rfl⟩ | ⟨post', hpost⟩
    · exact .inr List.mem_concat_self
    · exact (ih hpost).imp_right fun hmem => List.mem_append_left _ hmem

/-- Every event of the history is justified by the events before it. -/
def Justified (ok : List α → α → Prop) (trace : List α) : Prop :=
  ∀ pre e post, trace = pre ++ e :: post → ok pre e

namespace Justified

variable {ok : List α → α → Prop} {trace : List α}

theorem nil : Justified ok [] := fun pre _ _ h => absurd h (by cases pre <;> simp)

theorem append_singleton (h : Justified ok trace) {a : α} (ha : ok trace a) :
    Justified ok (trace ++ [a]) := by
  intro pre e post heq
  rcases snoc_cases heq with ⟨rfl, rfl⟩ | ⟨post', htrace⟩
  · exact ha
  · exact h pre e post' htrace

end Justified

end Cnet.Support
