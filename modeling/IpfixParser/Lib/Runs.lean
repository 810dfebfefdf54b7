import Mathlib.Algebra.Ring.Nat
import Mathlib.Data.List.Forall2
import Mathlib.Data.List.SplitBy

/-!
# Lists that stand for longer ones

A short list stands for a long one when each of its elements stands for a part of it. It is as short
as it can be when every part is a run and as long as a run may get: then it has the elements that the
maximal runs of the long list take (`Expands.length_eq`). The maximal runs are what `List.splitBy`
splits a list into, and a run may have a limit to what one element can stand for.
-/

namespace IpfixParser.Lib

variable {α β : Type*}

/-! ### Counting runs -/

section
variable (r : α → α → Bool) (limit : α → Option Nat)

/-- The number of parts that a run takes. -/
def partCount (run : List α) : Nat :=
  (run.head?.bind limit).elim 1 fun n => (run.length + n - 1) / n

/-- The number of parts that the maximal runs of a list take. -/
def runCount (xs : List α) : Nat := ((xs.splitBy r).map (partCount limit)).sum

/-- A run of no more than its limit. -/
structure IsPart (g : List α) : Prop where
  nonempty : g ≠ []
  run : g.IsChain fun a b => r a b
  bounded : ∀ n ∈ g.head?.bind limit, g.length ≤ n

end

variable {r : α → α → Bool} {limit : α → Option Nat}

theorem splitBy_append_of_rel {g run xs : List α} {runs : List (List α)}
    (hg : g.IsChain fun a b => r a b) (hrel : ∀ a ∈ g.getLast?, ∀ b ∈ run.head?, r a b)
    (h : xs.splitBy r = run :: runs) : (g ++ xs).splitBy r = (g ++ run) :: runs := by
  rw [List.splitBy_eq_iff] at h ⊢
  obtain ⟨rfl, hnil, hruns, hends⟩ := h
  obtain ⟨hrun, hnil⟩ : run ≠ [] ∧ [] ∉ runs := by simpa [eq_comm] using hnil
  obtain ⟨hchain, hruns⟩ := List.forall_mem_cons.mp hruns
  obtain ⟨hnext, hends⟩ := List.isChain_cons.mp hends
  refine ⟨by simp, by simp [hrun, hnil], ?_, List.isChain_cons.mpr ⟨fun h hh => ?_, hends⟩⟩
  · exact List.forall_mem_cons.mpr ⟨hg.append hchain hrel, hruns⟩
  · obtain ⟨_, hhead, hapart⟩ := hnext h hh
    refine ⟨by simp [hrun], hhead, ?_⟩
    rwa [List.getLast_append_of_ne_nil]

theorem IsPart.partCount_eq {g : List α} (h : IsPart r limit g) : partCount limit g = 1 := by
  rw [partCount]
  cases hlimit : g.head?.bind limit with
  | none => rfl
  | some n =>
    have hle := h.bounded n hlimit
    have hpos := List.length_pos_iff.mpr h.nonempty
    exact Nat.div_eq_of_lt_le (by omega) (by omega)

theorem partCount_append {g run : List α} (hne : g ≠ []) (h : g.head?.bind limit = some g.length)
    (hrun : run.head?.bind limit = some g.length) :
    partCount limit (g ++ run) = partCount limit run + 1 := by
  have hhead : (g ++ run).head? = g.head? := List.head?_append_of_ne_nil g hne
  have hpos := List.length_pos_iff.mpr hne
  have hlen : g.length + run.length + g.length - 1 = run.length + g.length - 1 + g.length := by omega
  rw [partCount, partCount, hhead, h, hrun, List.length_append]
  simp only [Option.elim_some]
  rw [hlen, Nat.add_div_right _ hpos]

theorem head?_bind_eq {g : List α} (hg : g.IsChain fun a b => r a b)
    (hlimit : ∀ a b, r a b → limit a = limit b) {a : α} (ha : a ∈ g) : g.head?.bind limit = limit a := by
  induction g with
  | nil => cases ha
  | cons b g ih =>
    rcases List.mem_cons.mp ha with rfl | ha
    · rfl
    · obtain ⟨c, g, rfl⟩ := List.exists_cons_of_ne_nil (List.ne_nil_of_mem ha)
      obtain ⟨hbc, hg⟩ := List.isChain_cons_cons.mp hg
      exact (hlimit b c hbc).trans (ih hg ha)

theorem runCount_append {g xs : List α} (hlimit : ∀ a b, r a b → limit a = limit b)
    (hg : IsPart r limit g)
    (hfull : ∀ a ∈ g.getLast?, ∀ b ∈ xs.head?, r a b → g.head?.bind limit = some g.length) :
    runCount r limit (g ++ xs) = runCount r limit xs + 1 := by
  by_cases hrel : ∃ a ∈ g.getLast?, ∃ b ∈ xs.head?, r a b
  · obtain ⟨a, ha, b, hb, hab⟩ := hrel
    have hg' := hfull a ha b hb hab
    obtain ⟨run, runs, hsplit⟩ : ∃ run runs, xs.splitBy r = run :: runs := by
      refine List.exists_cons_of_ne_nil (List.splitBy_ne_nil.mpr ?_)
      exact List.ne_nil_of_mem (List.mem_of_mem_head? hb)
    have hhead : run.head? = some b := by
      have hrun : run ≠ [] := List.ne_nil_of_mem_splitBy (hsplit ▸ List.mem_cons_self)
      have hxs : run ++ runs.flatten = xs := by
        rw [← List.flatten_splitBy r xs, hsplit, List.flatten_cons]
      rw [← List.head?_append_of_ne_nil run hrun, hxs]
      exact hb
    have hmerge : (g ++ xs).splitBy r = (g ++ run) :: runs := by
      refine splitBy_append_of_rel hg.run (fun a' ha' b' hb' => ?_) hsplit
      rw [Option.mem_unique ha' ha, Option.mem_unique hb' hhead]
      exact hab
    have hrun : run.head?.bind limit = some g.length := by
      rw [hhead, Option.bind_some, ← hlimit a b hab, ← hg', head?_bind_eq hg.run hlimit]
      exact List.mem_of_mem_getLast? ha
    rw [runCount, runCount, hmerge, hsplit, List.map_cons, List.map_cons, List.sum_cons, List.sum_cons,
      partCount_append hg.nonempty hg' hrun]
    omega
  · push Not at hrel
    have hapart : ∀ a ∈ g.getLast?, ∀ b ∈ xs.head?, r a b = false := by simpa using hrel
    rw [runCount, runCount, List.splitBy_append hapart, List.splitBy_of_isChain hg.nonempty hg.run,
      List.singleton_append, List.map_cons, List.sum_cons, hg.partCount_eq, Nat.add_comm]

/-! ### Expanding -/

/-- The elements of `xs` stand for parts of `ys`, in order. -/
def Expands (rel : α → List β → Prop) (xs : List α) (ys : List β) : Prop :=
  ∃ parts, List.Forall₂ rel xs parts ∧ parts.flatten = ys

theorem forall₂_concat_left {rel : α → β → Prop} {xs : List α} {a : α} {ys : List β}
    (h : List.Forall₂ rel (xs ++ [a]) ys) :
    ∃ ys' b, ys = ys' ++ [b] ∧ List.Forall₂ rel xs ys' ∧ rel a b := by
  induction xs generalizing ys with
  | nil =>
    cases h with
    | cons hab hnil =>
      cases hnil
      exact ⟨[], _, rfl, .nil, hab⟩
  | cons x xs ih =>
    cases h with
    | cons hx hxs =>
      obtain ⟨ys', b, rfl, hys', hab⟩ := ih hxs
      exact ⟨_ :: ys', b, rfl, .cons hx hys', hab⟩

namespace Expands

variable {rel : α → List β → Prop} {xs : List α} {ys : List β}

theorem nil : Expands rel [] [] := ⟨[], .nil, rfl⟩

theorem concat (h : Expands rel xs ys) {a : α} {g : List β} (ha : rel a g) :
    Expands rel (xs ++ [a]) (ys ++ g) := by
  obtain ⟨parts, hparts, rfl⟩ := h
  exact ⟨parts ++ [g], List.rel_append hparts (.cons ha .nil), by simp⟩

theorem grow {a c : α} {g : List β} (h : Expands rel (xs ++ [a]) ys)
    (hgrow : ∀ g', rel a g' → rel c (g' ++ g)) : Expands rel (xs ++ [c]) (ys ++ g) := by
  obtain ⟨parts, hparts, rfl⟩ := h
  obtain ⟨parts, g', rfl, hparts, ha⟩ := forall₂_concat_left hparts
  exact ⟨parts ++ [g' ++ g], List.rel_append hparts (.cons (hgrow g' ha) .nil), by simp⟩

/-- A list whose elements stand for runs, none of them shorter than it may be, has the elements that
the maximal runs take. -/
theorem length_eq {r : β → β → Bool} {limit : β → Option Nat} (hlimit : ∀ a b, r a b → limit a = limit b)
    (hpart : ∀ x g, rel x g → IsPart r limit g) (h : Expands rel xs ys)
    (hfull : xs.IsChain fun x y => ∀ g g', rel x g → rel y g' → ∀ a ∈ g.getLast?, ∀ b ∈ g'.head?,
      r a b → g.head?.bind limit = some g.length) :
    xs.length = runCount r limit ys := by
  obtain ⟨parts, hparts, rfl⟩ := h
  induction hparts with
  | nil => rfl
  | cons hx hparts ih =>
    obtain ⟨hnext, hfull⟩ := List.isChain_cons.mp hfull
    rw [List.length_cons, List.flatten_cons, runCount_append hlimit (hpart _ _ hx), ih hfull]
    intro a ha b hb
    cases hparts with
    | nil => cases hb
    | cons hy _ =>
      rw [List.flatten_cons, List.head?_append_of_ne_nil _ (hpart _ _ hy).nonempty] at hb
      exact hnext _ rfl _ _ hx hy a ha b hb

end Expands

end IpfixParser.Lib
