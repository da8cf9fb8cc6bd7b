import Mathlib.Logic.Relation

/-!
Programs over a durable state that may stop after any of their writes. A run
records the states it writes, so that a crash leaves one of them or the state it
began in. A triple carries, beside its postcondition, the condition that every
state left by a crash satisfies; a recovery procedure whose crash condition is its
own precondition may then be cut short any number of times.
-/
namespace CleanCtx

/-- A run: the states written on the way and the answer. -/
structure Ran (σ α : Type) where
  written : List σ
  value : α

/-- The state a run that began in `s` ends in. -/
def Ran.final {σ α : Type} (ran : Ran σ α) (s : σ) : σ := ran.written.getLast?.getD s

/-- A program over the durable state `σ`. -/
def Durable (σ α : Type) := σ → Ran σ α

namespace Durable

variable {σ α β : Type}

def read : Durable σ σ := fun s => ⟨[], s⟩

def write (f : σ → σ × α) : Durable σ α := fun s => ⟨[(f s).1], (f s).2⟩

instance : Monad (Durable σ) where
  pure a := fun _ => ⟨[], a⟩
  bind p f := fun s =>
    let first := p s
    let rest := f first.value (first.final s)
    ⟨first.written ++ rest.written, rest.value⟩

theorem final_bind (p : Durable σ α) (f : α → Durable σ β) (s : σ) :
    ((p >>= f) s).final s = (f (p s).value ((p s).final s)).final ((p s).final s) := by
  generalize hrest : f (p s).value ((p s).final s) = rest
  have hwritten : ((p >>= f) s).written = (p s).written ++ rest.written := by
    rw [← hrest]
    rfl
  rw [Ran.final, hwritten, List.getLast?_append, Ran.final]
  cases rest.written.getLast? with
  | none | some _ => rfl

/-- A crash of `p`, begun in `s`, leaves `left`. -/
def Leaves (p : Durable σ α) (s left : σ) : Prop := left ∈ s :: (p s).written

theorem leaves_final (p : Durable σ α) (s : σ) : p.Leaves s ((p s).final s) := by
  rw [Leaves, Ran.final]
  cases h : (p s).written.getLast? with
  | none => exact List.mem_cons_self
  | some last => exact List.mem_cons_of_mem _ (List.mem_of_getLast? h)

/-- From `P` the program ends in `Q`, and a crash leaves a state in `C`. -/
structure CrashTriple (P : σ → Prop) (p : Durable σ α) (Q : α → σ → Prop) (C : σ → Prop) :
    Prop where
  crash : ∀ s, P s → ∀ left, p.Leaves s left → C left
  post : ∀ s, P s → Q (p s).value ((p s).final s)

namespace CrashTriple

variable {P P' C : σ → Prop} {Q Q' : α → σ → Prop} {R : β → σ → Prop}

theorem of_pure {a : α} (hpost : ∀ s, P s → Q a s) (hcrash : ∀ s, P s → C s) :
    CrashTriple P (pure a) Q C := by
  refine ⟨fun s hs left hleft => ?_, hpost⟩
  rw [List.mem_singleton.mp hleft]
  exact hcrash s hs

theorem of_write {f : σ → σ × α} (hpost : ∀ s, P s → Q (f s).2 (f s).1)
    (hbefore : ∀ s, P s → C s) (hafter : ∀ s, P s → C (f s).1) :
    CrashTriple P (write f) Q C := by
  refine ⟨fun s hs left hleft => ?_, hpost⟩
  obtain h | h := List.mem_cons.mp hleft
  · rw [h]
    exact hbefore s hs
  · rw [List.mem_singleton.mp h]
    exact hafter s hs

theorem bind {p : Durable σ α} {f : α → Durable σ β} (hp : CrashTriple P p Q C)
    (hf : ∀ a, CrashTriple (Q a) (f a) R C) : CrashTriple P (p >>= f) R C := by
  refine ⟨fun s hs left hleft => ?_, fun s hs => ?_⟩
  · obtain h | h := List.mem_cons.mp hleft
    · exact hp.crash s hs left (h ▸ List.mem_cons_self)
    · obtain h | h := List.mem_append.mp h
      · exact hp.crash s hs left (List.mem_cons_of_mem _ h)
      · exact (hf _).crash _ (hp.post s hs) left (List.mem_cons_of_mem _ h)
  · rw [final_bind]
    exact (hf _).post _ (hp.post s hs)

theorem consequence {p : Durable σ α} (hp : CrashTriple P' p Q C) (hpre : ∀ s, P s → P' s)
    (hpost : ∀ a s, Q a s → Q' a s) : CrashTriple P p Q' C :=
  ⟨fun s hs => hp.crash s (hpre s hs), fun s hs => hpost _ _ (hp.post s (hpre s hs))⟩

theorem of_pre {p : Durable σ α} (hpre : ∀ s, P s → P' s) (hp : CrashTriple P' p Q C) :
    CrashTriple P p Q C :=
  hp.consequence hpre fun _ _ h => h

theorem left {p : Durable σ α} (hp : CrashTriple P p Q C) :
    CrashTriple P p (fun a s => Q a s ∧ C s) C :=
  ⟨hp.crash, fun s hs => ⟨hp.post s hs, hp.crash s hs _ (leaves_final p s)⟩⟩

theorem map {p : Durable σ α} {f : α → β} (hp : CrashTriple P p (fun a => R (f a)) C) :
    CrashTriple P (p >>= fun a => pure (f a)) R C :=
  hp.left.bind fun _ => of_pure (fun _ hs => hs.1) fun _ hs => hs.2

theorem of_read {f : σ → Durable σ β} (hf : ∀ s, P s → CrashTriple (· = s) (f s) R C) :
    CrashTriple P (read >>= f) R C :=
  ⟨fun s hs left hleft => (hf s hs).crash s rfl left hleft, fun s hs => (hf s hs).post s rfl⟩

end CrashTriple

/-- Attempts at `recover`, each of them cut short by a crash. -/
def Interrupted (recover : Durable σ α) : σ → σ → Prop := Relation.ReflTransGen recover.Leaves

theorem Interrupted.crash {C : σ → Prop} {Q : α → σ → Prop} {recover : Durable σ α} {s left : σ}
    (h : Interrupted recover s left) (hr : CrashTriple C recover Q C) (hs : C s) : C left := by
  induction h with
  | refl => exact hs
  | tail _ hleft ih => exact hr.crash _ ih _ hleft

end Durable
end CleanCtx
