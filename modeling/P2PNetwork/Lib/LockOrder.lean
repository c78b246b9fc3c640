import Mathlib.Data.Nat.Basic

/-!
# Mutexes taken in an order

Threads own mutexes and ask for mutexes. Where a thread only ever asks for a mutex that comes
behind all those it owns, following the owners from any thread that asks leads to a thread that
is not kept from its next step.
-/

namespace Lib

universe u v

variable {T : Type u} {M : Type v}

/-- Who owns each mutex, and the mutex that each thread asks for. -/
structure Ownership (T : Type u) (M : Type v) where
  owner : M → Option T
  asks : T → Option M

namespace Ownership

/-- No thread owns the mutex that the thread asks for. -/
def Free (o : Ownership T M) (t : T) : Prop := ∀ m, o.asks t = some m → o.owner m = none

/-- Along `rank`, what a thread asks for comes behind what it owns. -/
def Ordered (o : Ownership T M) (rank : M → Nat) : Prop :=
  ∀ t m m', o.owner m = some t → o.asks t = some m' → rank m < rank m'

variable {o : Ownership T M} {rank : M → Nat} {bound : Nat}

/-- A thread that asks for a mutex gets it, or a thread that owns a mutex is free to go on. -/
theorem Ordered.exists_free (hord : o.Ordered rank) (hbound : ∀ m, rank m ≤ bound) (t : T) :
    o.Free t ∨ ∃ u m, o.owner m = some u ∧ o.Free u := by
  -- the rank of what is asked for grows along the owners
  have hchain : ∀ d t m, o.asks t = some m → bound - rank m = d →
      o.Free t ∨ ∃ u m, o.owner m = some u ∧ o.Free u := by
    intro d
    induction d using Nat.strong_induction_on with
    | _ d ih =>
      intro t m hasks hd
      cases howner : o.owner m with
      | none =>
        refine .inl fun m' hm' ↦ ?_
        rw [hasks, Option.some_inj] at hm'
        rw [← hm', howner]
      | some u =>
        right
        cases hnext : o.asks u with
        | none =>
          refine ⟨u, m, howner, fun m' hm' ↦ ?_⟩
          rw [hnext] at hm'
          cases hm'
        | some m' =>
          have hlt := hord u m m' howner hnext
          have hle := hbound m'
          rcases ih (bound - rank m') (by omega) u m' hnext rfl with hfree | hfree
          · exact ⟨u, m, howner, hfree⟩
          · exact hfree
  cases hasks : o.asks t with
  | none =>
    refine .inl fun m hm ↦ ?_
    rw [hasks] at hm
    cases hm
  | some m => exact hchain _ t m hasks rfl

end Ownership

end Lib
