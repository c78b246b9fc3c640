import Mathlib.Data.List.Basic

/-!
# Finite runs of event-driven systems

A system is a partial step function: an event that cannot happen in a state has
no successor. Runs grow at their end, so invariants are proved by looking at the
last event only. Conditions on a run are conditions on each event in the state in
which it happens.
-/

namespace Lib

universe u v w x

variable {S : Type u} {E : Type v} {A : Type w} {M : Type x}

/-- Runs from `s₀` whose events each satisfy `ok` in the state before them. -/
inductive Run (step : S → E → Option S) (ok : S → E → Prop) (s₀ : S) : List E → S → Prop
  | nil : Run step ok s₀ [] s₀
  | snoc {es : List E} {s s' : S} {e : E} :
      Run step ok s₀ es s → ok s e → step s e = some s' → Run step ok s₀ (es ++ [e]) s'

/-- The condition that every event satisfies. -/
def Any (_ : S) (_ : E) : Prop := True

/-- Every event that is executed satisfies `ok` in the state before it. -/
def Meets (step : S → E → Option S) (ok : S → E → Prop) : S → List E → Prop
  | _, [] => True
  | s, e :: es => ∀ s', step s e = some s' → ok s e ∧ Meets step ok s' es

/-- Every state that an execution reaches satisfies `P`, the first one included. -/
def Throughout (step : S → E → Option S) (P : S → Prop) : S → List E → Prop
  | s, [] => P s
  | s, e :: es => P s ∧ ∀ s', step s e = some s' → Throughout step P s' es

/-- Every event satisfies `ok` in the state before it, up to the first one that cannot happen and
that one included. -/
def Each (step : S → E → Option S) (ok : S → E → Prop) : S → List E → Prop
  | _, [] => True
  | s, e :: es => ok s e ∧ ∀ s', step s e = some s' → Each step ok s' es

/-- An event of a run that has grown by one is the last one, or it was there before. -/
theorem split_snoc {es es₁ es₂ : List E} {e x : E} (h : es ++ [e] = es₁ ++ x :: es₂) :
    (es₂ = [] ∧ es₁ = es ∧ x = e) ∨ ∃ es₃, es₂ = es₃ ++ [e] ∧ es = es₁ ++ x :: es₃ := by
  rcases List.eq_nil_or_concat es₂ with rfl | ⟨es₃, e', rfl⟩
  · obtain ⟨rfl, he⟩ := List.append_inj' h rfl
    cases he
    exact .inl ⟨rfl, rfl, rfl⟩
  · rw [List.concat_eq_append] at h ⊢
    rw [← List.cons_append, ← List.append_assoc] at h
    obtain ⟨rfl, he⟩ := List.append_inj' h rfl
    cases he
    exact .inr ⟨es₃, rfl, rfl⟩

section

variable {step : S → E → Option S} {ok ok' : S → E → Prop} {s₀ s : S} {es : List E}

/-- Weakening the condition keeps a run. -/
theorem Run.mono (h : ∀ s e, ok s e → ok' s e) (hrun : Run step ok s₀ es s) :
    Run step ok' s₀ es s := by
  induction hrun with
  | nil => exact .nil
  | snoc _ hok hstep ih => exact .snoc ih (h _ _ hok) hstep

/-- A conditioned run is a run. -/
theorem Run.any (hrun : Run step ok s₀ es s) : Run step Any s₀ es s :=
  hrun.mono fun _ _ _ ↦ trivial

/-- A single enabled event is a run. -/
theorem Run.single {e : E} {s' : S} (hok : ok s e) (hstep : step s e = some s') :
    Run step ok s [e] s' :=
  .snoc .nil hok hstep

/-- Runs compose. -/
theorem Run.append {es' : List E} {s' : S} (h : Run step ok s₀ es s)
    (h' : Run step ok s es' s') : Run step ok s₀ (es ++ es') s' := by
  induction h' with
  | nil => simpa using h
  | snoc _ hok hstep ih => simpa only [List.append_assoc] using Run.snoc ih hok hstep

/-- What holds initially and is preserved by every allowed event holds after every run. -/
theorem Run.invariant {P : S → Prop} (h₀ : P s₀)
    (hstep : ∀ s e s', P s → ok s e → step s e = some s' → P s')
    (hrun : Run step ok s₀ es s) : P s := by
  induction hrun with
  | nil => exact h₀
  | snoc _ hok hs ih => exact hstep _ _ _ ih hok hs

/-- Invariants that also speak about the events that led to the state. -/
theorem Run.traceInvariant {P : List E → S → Prop} (h₀ : P [] s₀)
    (hstep : ∀ es s e s', Run step ok s₀ es s → P es s → ok s e → step s e = some s' →
      P (es ++ [e]) s')
    (hrun : Run step ok s₀ es s) : P es s := by
  induction hrun with
  | nil => exact h₀
  | snoc hr hok hs ih => exact hstep _ _ _ _ hr ih hok hs

/-- Executing a list of events that meet the condition is a run. -/
theorem Run.of_foldlM (h : es.foldlM step s₀ = some s) (hmeets : Meets step ok s₀ es) :
    Run step ok s₀ es s := by
  induction es generalizing s₀ with
  | nil =>
    cases h
    exact .nil
  | cons e es ih =>
    rw [List.foldlM_cons, Option.bind_eq_bind, Option.bind_eq_some_iff] at h
    obtain ⟨s₁, hs₁, hrest⟩ := h
    obtain ⟨hok, hnext⟩ := hmeets s₁ hs₁
    exact (Run.single hok hs₁).append (ih hrest hnext)

/-- A run is the execution of its events. -/
theorem Run.foldlM_eq (hrun : Run step ok s₀ es s) : es.foldlM step s₀ = some s := by
  induction hrun with
  | nil => rfl
  | snoc _ _ hstep ih =>
    rw [List.foldlM_append, ih]
    simpa using hstep

/-- Whether an execution meets a decidable condition can be computed. -/
instance Meets.decidable [∀ s e, Decidable (ok s e)] (s₀ : S) :
    (es : List E) → Decidable (Meets step ok s₀ es)
  | [] => isTrue trivial
  | e :: es =>
    match hs : step s₀ e with
    | none => isTrue fun _ h ↦ by rw [hs] at h; cases h
    | some s₁ =>
      haveI := Meets.decidable s₁ es
      decidable_of_iff (ok s₀ e ∧ Meets step ok s₁ es)
        ⟨fun h _ h' ↦ by rw [hs] at h'; cases h'; exact h, fun h ↦ h s₁ hs⟩

/-- A loop whose steps fail or leave the state as it is. -/
theorem foldlM_stays {p : E → Prop} [DecidablePred p]
    (h : ∀ e ∈ es, step s e = if p e then some s else none) :
    es.foldlM step s = if ∀ e ∈ es, p e then some s else none := by
  induction es with
  | nil => simp
  | cons e es ih =>
    have hrest := ih fun e' he' ↦ h e' (List.mem_cons_of_mem e he')
    rw [List.foldlM_cons, h e List.mem_cons_self]
    by_cases he : p e
    · simp [he, hrest]
    · simp [he]

/-- A loop whose steps leave the state as it is. -/
theorem foldlM_fixed (h : ∀ e ∈ es, step s e = some s) : es.foldlM step s = some s := by
  rw [foldlM_stays (p := fun _ ↦ True)]
  · exact if_pos fun _ _ ↦ trivial
  · intro e he
    rw [h e he, if_pos trivial]

/-- Conditions that ignore the state are met when every event satisfies them. -/
theorem Meets.of_forall {q : E → Prop} (h : ∀ e ∈ es, q e) :
    Meets step (fun _ e ↦ q e) s₀ es := by
  induction es generalizing s₀ with
  | nil => trivial
  | cons e es ih =>
    intro s' _
    exact ⟨h e (by simp), ih fun e' he' ↦ h e' (by simp [he'])⟩

/-- Every execution meets the trivial condition. -/
theorem Meets.any : Meets step Any s₀ es := by
  induction es generalizing s₀ with
  | nil => trivial
  | cons e es ih => exact fun s' _ ↦ ⟨trivial, ih⟩

/-- An exact condition on the admitted events of an execution: if in every state with `I` a step
by an admitted event keeps `P` exactly when the event is `ok`, and keeps `I` then, then `P` holds
throughout an execution exactly when every executed event is `ok`. -/
theorem Meets.throughout_iff {P I : S → Prop} {adm : S → E → Prop} (hadm : Meets step adm s₀ es)
    (h₀ : I s₀) (hP : ∀ s, I s → P s)
    (hexact : ∀ s e s', I s → adm s e → step s e = some s' → (P s' ↔ ok s e))
    (hinv : ∀ s e s', I s → adm s e → step s e = some s' → ok s e → I s') :
    Throughout step P s₀ es ↔ Meets step ok s₀ es := by
  have hhead : ∀ s es, Throughout step P s es → P s := by
    intro s es h
    cases es with
    | nil => exact h
    | cons e es => exact h.1
  induction es generalizing s₀ with
  | nil => exact ⟨fun _ ↦ trivial, fun _ ↦ hP s₀ h₀⟩
  | cons e es ih =>
    constructor
    · rintro ⟨_, h⟩ s' hs
      obtain ⟨he, hrest⟩ := hadm s' hs
      have hok := (hexact s₀ e s' h₀ he hs).mp (hhead s' es (h s' hs))
      exact ⟨hok, (ih hrest (hinv s₀ e s' h₀ he hs hok)).mp (h s' hs)⟩
    · intro h
      refine ⟨hP s₀ h₀, fun s' hs ↦ ?_⟩
      obtain ⟨he, hrest⟩ := hadm s' hs
      obtain ⟨hok, hnext⟩ := h s' hs
      exact (ih hrest (hinv s₀ e s' h₀ he hs hok)).mpr hnext

/-- Conditions that agree in every state with `I` agree on an execution. -/
theorem Each.congr {I : S → Prop} (h₀ : I s₀) (hexact : ∀ s e, I s → (ok s e ↔ ok' s e))
    (hinv : ∀ s e s', I s → ok s e → step s e = some s' → I s') :
    Each step ok s₀ es ↔ Each step ok' s₀ es := by
  induction es generalizing s₀ with
  | nil => exact Iff.rfl
  | cons e es ih =>
    constructor
    · rintro ⟨he, hrest⟩
      refine ⟨(hexact s₀ e h₀).mp he, fun s' hs ↦ ?_⟩
      exact (ih (hinv s₀ e s' h₀ he hs)).mp (hrest s' hs)
    · rintro ⟨he, hrest⟩
      have hok := (hexact s₀ e h₀).mpr he
      exact ⟨hok, fun s' hs ↦ (ih (hinv s₀ e s' h₀ hok hs)).mpr (hrest s' hs)⟩

/-- The same where the events are admitted in every state. -/
theorem throughout_iff_meets {P I : S → Prop} {Q : E → Prop} (hadm : ∀ e ∈ es, Q e)
    (h₀ : I s₀) (hP : ∀ s, I s → P s)
    (hexact : ∀ s e s', I s → Q e → step s e = some s' → (P s' ↔ ok s e))
    (hinv : ∀ s e s', I s → Q e → step s e = some s' → ok s e → I s') :
    Throughout step P s₀ es ↔ Meets step ok s₀ es :=
  (Meets.of_forall hadm).throughout_iff h₀ hP hexact hinv

end

section Simulation

variable {step : S → E → Option S} {ok : S → E → Prop} {s₀ s : S} {es : List E}

/-- One abstract step for an event that means the move `m`, none for a silent event. -/
def Follows (astep : A → M → Option A) (a : A) : Option M → A → Prop
  | none, a' => a' = a
  | some m, a' => astep a m = some a'

/-- Forward simulation: if every event is matched by the move it means, then every run
is matched by the abstract run of the moves its events mean. -/
theorem Run.simulate {astep : A → M → Option A} {act : E → Option M} {R : S → A → Prop}
    {a₀ : A} (h₀ : R s₀ a₀)
    (hstep : ∀ s e s' a, R s a → ok s e → step s e = some s' →
      ∃ a', Follows astep a (act e) a' ∧ R s' a')
    (hrun : Run step ok s₀ es s) :
    ∃ a, Run astep Any a₀ (es.filterMap act) a ∧ R s a := by
  induction hrun with
  | nil => exact ⟨a₀, .nil, h₀⟩
  | @snoc es s s' e _ hok hs ih =>
    obtain ⟨a, hrun, hR⟩ := ih
    obtain ⟨a', hfollow, hR'⟩ := hstep _ _ _ _ hR hok hs
    refine ⟨a', ?_, hR'⟩
    rw [List.filterMap_append]
    cases hm : act e with
    | none =>
      rw [hm] at hfollow
      have ha : a' = a := hfollow
      simpa [hm, ha] using hrun
    | some m =>
      rw [hm] at hfollow
      have ha : astep a m = some a' := hfollow
      simpa [hm] using Run.snoc hrun trivial ha

/-- Refinement: if every event of a run makes some move of the abstract system or is silent
there, then what the states mean follows an abstract run. -/
theorem Run.refine {astep : A → M → Option A} (abs : S → A)
    (hstep : ∀ es s e s', Run step ok s₀ es s → ok s e → step s e = some s' →
      ∃ m, Follows astep (abs s) m (abs s'))
    (hrun : Run step ok s₀ es s) : ∃ ms, Run astep Any (abs s₀) ms (abs s) := by
  induction hrun with
  | nil => exact ⟨[], .nil⟩
  | snoc hr hok hs ih =>
    obtain ⟨ms, hms⟩ := ih
    obtain ⟨m, hm⟩ := hstep _ _ _ _ hr hok hs
    cases m with
    | none =>
      have hsame : abs _ = abs _ := hm
      exact ⟨ms, hsame ▸ hms⟩
    | some m => exact ⟨ms ++ [m], hms.snoc trivial hm⟩

end Simulation

end Lib
