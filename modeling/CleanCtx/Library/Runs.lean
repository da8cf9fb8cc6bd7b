import Mathlib.Data.List.Basic

/-!
Runs of a system that is given by a step function on states and events; an event that
is not possible has no next state. An invariant of the steps is one of the runs, and a
fact that only some steps can make true tells whether a run took such a step.
-/
namespace CleanCtx
namespace Runs

variable {σ ε : Type} (step : σ → ε → Option σ)

def run : σ → List ε → Option σ
  | s, [] => some s
  | s, e :: es => (step s e).bind fun s' => run s' es

/-- Every step of the run is taken in a state that meets the condition. -/
def Along (ok : σ → ε → Prop) : σ → List ε → Prop
  | _, [] => True
  | s, e :: es => ok s e ∧ ∀ s', step s e = some s' → Along ok s' es

/-- A property of the first state and of every later one. -/
def Throughout (P : σ → Prop) : σ → List ε → Prop
  | s, [] => P s
  | s, e :: es => P s ∧ ∀ s', step s e = some s' → Throughout P s' es

variable {step}

theorem run_cons_eq_some {s s' : σ} {e : ε} {es : List ε} :
    run step s (e :: es) = some s' ↔ ∃ mid, step s e = some mid ∧ run step mid es = some s' :=
  Option.bind_eq_some_iff

theorem invariant {Inv : σ → Prop} (hstep : ∀ s e s', Inv s → step s e = some s' → Inv s')
    {s s' : σ} {es : List ε} (hs : Inv s) (hrun : run step s es = some s') : Inv s' := by
  induction es generalizing s with
  | nil =>
      cases hrun
      exact hs
  | cons e es ih =>
      obtain ⟨mid, hmid, hrest⟩ := run_cons_eq_some.mp hrun
      exact ih (hstep s e mid hs hmid) hrest

/-- An invariant of the steps that meet a condition, along the runs that do. -/
theorem invariant_along {Inv : σ → Prop} {ok : σ → ε → Prop}
    (hstep : ∀ s e s', Inv s → ok s e → step s e = some s' → Inv s')
    {s s' : σ} {es : List ε} (hs : Inv s) (hok : Along step ok s es)
    (hrun : run step s es = some s') : Inv s' := by
  induction es generalizing s with
  | nil =>
      cases hrun
      exact hs
  | cons e es ih =>
      obtain ⟨mid, hmid, hrest⟩ := run_cons_eq_some.mp hrun
      exact ih (hstep s e mid hs hok.1 hmid) (hok.2 mid hmid) hrest

/-- What an invariant of the good steps implies holds throughout the runs of good steps. -/
theorem throughout_along {Inv P : σ → Prop} {ok : σ → ε → Prop}
    (hstep : ∀ s e s', Inv s → ok s e → step s e = some s' → Inv s') (hP : ∀ s, Inv s → P s)
    {s : σ} {es : List ε} (hs : Inv s) (hok : Along step ok s es) : Throughout step P s es := by
  induction es generalizing s with
  | nil => exact hP s hs
  | cons e es ih =>
      exact ⟨hP s hs, fun s' hnext => ih (hstep s e s' hs hok.1 hnext) (hok.2 s' hnext)⟩

theorem throughout_append {P : σ → Prop} {s s' : σ} {es es' : List ε}
    (hrun : run step s es = some s') (h : Throughout step P s (es ++ es')) :
    Throughout step P s' es' := by
  induction es generalizing s with
  | nil =>
      cases hrun
      exact h
  | cons e es ih =>
      obtain ⟨mid, hmid, hrest⟩ := run_cons_eq_some.mp hrun
      exact ih hrest (h.2 mid hmid)

/-- A fact that the bad steps make true, and no other step changes, tells whether there was one. -/
theorem raised_iff {Inv P : σ → Prop} {B : σ → ε → Prop}
    (hinv : ∀ s e s', Inv s → step s e = some s' → Inv s')
    (hstep : ∀ s e s', Inv s → step s e = some s' → (P s' ↔ P s ∨ B s e))
    {s s' : σ} {es : List ε} (hs : Inv s) (hrun : run step s es = some s') :
    P s' ↔ P s ∨ ¬Along step (fun s e => ¬B s e) s es := by
  induction es generalizing s with
  | nil =>
      cases hrun
      exact ⟨Or.inl, fun h => h.resolve_right fun hnot => hnot trivial⟩
  | cons e es ih =>
      obtain ⟨mid, hmid, hrest⟩ := run_cons_eq_some.mp hrun
      rw [ih (hinv s e mid hs hmid) hrest, hstep s e mid hs hmid]
      have hsplit : Along step (fun s e => ¬B s e) s (e :: es) ↔
          ¬B s e ∧ Along step (fun s e => ¬B s e) mid es :=
        ⟨fun h => ⟨h.1, h.2 mid hmid⟩, fun h => ⟨h.1, fun s' hs' => by
          cases hmid.symm.trans hs'
          exact h.2⟩⟩
      rw [hsplit]
      by_cases hbad : B s e <;> simp [hbad]

/-- A property that no step but the bad ones destroys, and these always do, holds throughout a run
exactly if the run takes no bad step. -/
theorem throughout_iff {Inv P : σ → Prop} {B : σ → ε → Prop}
    (hinv : ∀ s e s', Inv s → step s e = some s' → Inv s')
    (hstep : ∀ s e s', Inv s → P s → step s e = some s' → (P s' ↔ ¬B s e))
    (hstuck : ∀ s e, step s e = none → ¬B s e) {s : σ} (hs : Inv s) (hP : P s) (es : List ε) :
    Throughout step P s es ↔ Along step (fun s e => ¬B s e) s es := by
  induction es generalizing s with
  | nil => exact iff_of_true hP trivial
  | cons e es ih =>
      simp only [Throughout, Along, hP, true_and]
      cases hnext : step s e with
      | none => simp [hstuck s e hnext]
      | some next =>
          have hP' := hstep s e next hs hP hnext
          have hs' := hinv s e next hs hnext
          simp only [Option.some.injEq, forall_eq']
          constructor
          · intro h
            have hfirst : P next := by cases es <;> first | exact h | exact h.1
            exact ⟨hP'.mp hfirst, (ih hs' hfirst).mp h⟩
          · rintro ⟨hgood, h⟩
            exact (ih hs' (hP'.mpr hgood)).mpr h

/-- Under an invariant, equivalent properties hold throughout the same runs. -/
theorem throughout_congr {Inv P Q : σ → Prop}
    (hinv : ∀ s e s', Inv s → step s e = some s' → Inv s') (hiff : ∀ s, Inv s → (P s ↔ Q s))
    {s : σ} (hs : Inv s) (es : List ε) : Throughout step P s es ↔ Throughout step Q s es := by
  induction es generalizing s with
  | nil => exact hiff s hs
  | cons e es ih =>
      refine and_congr (hiff s hs) (forall_congr' fun s' => ?_)
      exact forall_congr' fun hnext => ih (hinv s e s' hs hnext)

theorem Throughout.last {P : σ → Prop} {s s' : σ} {es : List ε} (h : Throughout step P s es)
    (hrun : run step s es = some s') : P s' := by
  induction es generalizing s with
  | nil =>
      cases hrun
      exact h
  | cons e es ih =>
      obtain ⟨mid, hmid, hrest⟩ := run_cons_eq_some.mp hrun
      exact ih (h.2 mid hmid) hrest

end Runs
end CleanCtx
