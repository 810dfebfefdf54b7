import IpfixParser.Proof.StoreHistory

/-!
# Collisions and lookups leave no trace

An insert that returns `Collision` and a lookup leave the store as it was, and with it everything that
later operations depend on: the definitions, and the order in which they will be dropped. So they can be
taken out of a run, and nobody else can tell.
-/

namespace IpfixParser

open Lib

namespace SessionTemplateStore

variable {M K : Type} [LruMap M (TemplateKey K) OwnedTemplate]

/-- A lookup, or an insert that returned `Collision`. -/
def Event.Idle (e : Event M K) : Bool :=
  match e.op with
  | .insert .. => e.response = .outcome .collision
  | .get .. => true
  | .remove .. | .removeSession .. => false

variable [DecidableEq K]

theorem step_of_idle {st : SessionTemplateStore M} {op : StoreOp K} (h : (st.event op).Idle) :
    (st.step op).2.2 = st := by
  apply after_eq_before
  cases op with
  | insert => exact .inr (of_decide_eq_true h)
  | remove => cases h
  | removeSession => cases h
  | get s odid id => exact .inl ⟨s, odid, id, rfl⟩

/-- Events that leave the store alone can be taken out of a history. -/
theorem erase_idle (st : SessionTemplateStore M) (ops : List (StoreOp K)) (p : Event M K → Bool) :
    let kept := (st.events ops).filter fun e => p e || !e.Idle
    st.events (kept.map Event.op) = kept ∧ st.run (kept.map Event.op) = st.run ops := by
  induction ops generalizing st with
  | nil => exact ⟨rfl, rfl⟩
  | cons op ops ih =>
    obtain ⟨hevents, hrun⟩ := ih (st.step op).2.2
    rw [events]
    by_cases hkeep : p (st.event op) || !(st.event op).Idle
    · simp only [List.filter_cons, hkeep, if_true, List.map_cons]
      exact ⟨congrArg (st.event op :: ·) hevents, hrun⟩
    · have hidle : (st.event op).Idle := by
        simp only [Bool.or_eq_true, Bool.not_eq_true', not_or, Bool.not_eq_false] at hkeep
        exact hkeep.2
      have hsame := step_of_idle hidle
      rw [hsame] at hevents hrun ⊢
      simp only [List.filter_cons, hkeep, if_false, Bool.false_eq_true]
      refine ⟨hevents, hrun.trans ?_⟩
      simp only [run, List.foldl_cons, hsame]

/-- Without its lookups and rejected inserts, or without some of them, a run does and answers what it
did, with the same stores on the way. -/
theorem rejected_leave_no_trace (M : Type) [LruMap M (TemplateKey K) OwnedTemplate]
    (st : SessionTemplateStore M) (ops : List (StoreOp K)) :
    (∀ p : Event M K → Bool,
      let kept := (st.events ops).filter fun e => p e || !e.Idle
      st.events (kept.map Event.op) = kept ∧ st.run (kept.map Event.op) = st.run ops) ∧
    ∀ e ∈ st.events ops, e.Idle → e.after = e.before := by
  refine ⟨erase_idle st ops, fun e he hidle => ?_⟩
  obtain ⟨pre, post, h⟩ := List.append_of_mem he
  obtain ⟨ops₁, -, -, -, he, -⟩ := events_eq_append h
  rw [he] at hidle ⊢
  exact step_of_idle hidle

end SessionTemplateStore

end IpfixParser
