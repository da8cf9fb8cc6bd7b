import Mathlib.Data.List.Basic

/-!
Fallible computations and fallible methods on a mutable receiver. A computation
may panic; apart from that a method returns a result or an error together with
the receiver as it stands at the return, so an early return keeps the updates
made before it. `Safe` excludes panics; `ReadOnly` and `Transactional` are the
frame properties of methods.
-/
namespace CleanCtx

/-- A failed `expect` or an index outside its vector. -/
inductive Panic
  | expect (message : String)
  | index (position length : Nat)
  deriving DecidableEq

abbrev Rust := Except Panic

@[simp] theorem Rust.ok_bind {α β : Type} (a : α) (f : α → Rust β) :
    (Except.ok a : Rust α) >>= f = f a := rfl

abbrev Fallible (ε α : Type) := ExceptT ε Rust α

namespace Fallible

variable {ε α β : Type}

def ofRust (m : Rust α) : Fallible ε α := ExceptT.mk (m.map .ok)

def ofExcept (m : Except ε α) : Fallible ε α := ExceptT.mk (.ok m)

@[simp] theorem ofExcept_ok (a : α) : (ofExcept (.ok a) : Fallible ε α) = pure a := rfl

@[simp] theorem ofRust_ok (a : α) : (ofRust (.ok a) : Fallible ε α) = pure a := rfl

/-- No panic, and every result satisfies the postcondition. -/
def Safe (post : α → Prop) (m : Fallible ε α) : Prop :=
  ∃ result, ExceptT.run m = .ok result ∧ ∀ a, result = .ok a → post a

theorem safe_pure {post : α → Prop} {a : α} (h : post a) : Safe post (pure a : Fallible ε α) :=
  ⟨.ok a, rfl, by rintro _ ⟨⟩; exact h⟩

theorem safe_throw {post : α → Prop} (e : ε) : Safe post (throw e : Fallible ε α) :=
  ⟨.error e, rfl, by rintro _ ⟨⟩⟩

theorem Safe.mono {post post' : α → Prop} {m : Fallible ε α} (h : Safe post m)
    (hpost : ∀ a, post a → post' a) : Safe post' m :=
  h.imp fun _ hrun => ⟨hrun.1, fun a ha => hpost a (hrun.2 a ha)⟩

theorem Safe.bind {mid : α → Prop} {post : β → Prop} {m : Fallible ε α}
    {f : α → Fallible ε β} (hm : Safe mid m) (hf : ∀ a, mid a → Safe post (f a)) :
    Safe post (m >>= f) := by
  obtain ⟨result, hrun, hmid⟩ := hm
  cases result with
  | error e =>
      refine ⟨.error e, ?_, by rintro _ ⟨⟩⟩
      rw [ExceptT.run_bind, hrun]
      rfl
  | ok a =>
      obtain ⟨result', hrun', hpost⟩ := hf a (hmid a rfl)
      refine ⟨result', ?_, hpost⟩
      rw [ExceptT.run_bind, hrun]
      exact hrun'

/-- A successful sequence splits at its first step. -/
theorem run_bind_ok {m : Fallible ε α} {f : α → Fallible ε β} {b : β} :
    ExceptT.run (m >>= f) = .ok (.ok b) ↔
      ∃ a, ExceptT.run m = .ok (.ok a) ∧ ExceptT.run (f a) = .ok (.ok b) := by
  rw [ExceptT.run_bind]
  cases ExceptT.run m with
  | error panic => exact ⟨nofun, nofun⟩
  | ok result =>
      cases result with
      | error e => exact ⟨nofun, nofun⟩
      | ok a => exact ⟨fun h => ⟨a, rfl, h⟩, fun ⟨_, ha, h⟩ => by cases ha; exact h⟩

theorem bind_eq_pure {m : Fallible ε α} {f : α → Fallible ε β} {b : β} :
    m >>= f = pure b ↔ ∃ a, m = pure a ∧ f a = pure b := run_bind_ok

/-- A loop keeps an invariant that each of its steps keeps. -/
theorem Safe.foldlM {inv : β → Prop} {step : β → α → Fallible ε β}
    (hstep : ∀ b a, inv b → Safe inv (step b a)) (items : List α) {b : β} (hb : inv b) :
    Safe inv (items.foldlM step b) := by
  induction items generalizing b with
  | nil => exact safe_pure hb
  | cons a items ih =>
      rw [List.foldlM_cons]
      exact (hstep b a hb).bind fun b' hb' => ih hb'

end Fallible

abbrev Method (σ ε α : Type) := ExceptT ε (StateT σ Rust) α

namespace Method

variable {σ ε α β : Type}

def call (m : Method σ ε α) (self : σ) : Rust (Except ε α × σ) := StateT.run (ExceptT.run m) self

def ofLocal (m : Fallible ε α) : Method σ ε α :=
  ExceptT.mk fun self => (ExceptT.run m).map fun result => (result, self)

@[simp] theorem call_pure (a : α) (self : σ) :
    (pure a : Method σ ε α).call self = .ok (.ok a, self) := rfl

@[simp] theorem call_throw (e : ε) (self : σ) :
    (throw e : Method σ ε α).call self = .ok (.error e, self) := rfl

@[simp] theorem call_get (self : σ) :
    (get : Method σ ε σ).call self = .ok (.ok self, self) := rfl

@[simp] theorem call_modify (f : σ → σ) (self : σ) :
    (modify f : Method σ ε PUnit).call self = .ok (.ok ⟨⟩, f self) := rfl

theorem call_bind (m : Method σ ε α) (f : α → Method σ ε β) (self : σ) :
    (m >>= f).call self =
      match m.call self with
      | .error panic => .error panic
      | .ok (.error e, self') => .ok (.error e, self')
      | .ok (.ok a, self') => (f a).call self' := by
  change StateT.run (ExceptT.run m >>= ExceptT.bindCont f) self = _
  rw [StateT.run_bind]
  unfold call
  cases StateT.run (ExceptT.run m) self with
  | error panic => rfl
  | ok outcome =>
      obtain ⟨result, self'⟩ := outcome
      cases result <;> rfl

@[simp] theorem call_ofLocal_ok (a : α) (self : σ) :
    (ofLocal (pure a : Fallible ε α)).call self = .ok (.ok a, self) := rfl

theorem call_ofLocal (m : Fallible ε α) (self : σ) :
    (ofLocal m).call self = (ExceptT.run m).map fun result => (result, self) := rfl

def ReadOnly (m : Method σ ε α) : Prop :=
  ∀ self result self', m.call self = .ok (result, self') → self' = self

/-- The method leaves its receiver alone when it returns an error. -/
def Transactional (m : Method σ ε α) : Prop :=
  ∀ self e self', m.call self = .ok (.error e, self') → self' = self

theorem readOnly_throw (e : ε) : (throw e : Method σ ε α).ReadOnly := by
  intro self result self' h
  cases h
  rfl

theorem readOnly_pure (a : α) : (pure a : Method σ ε α).ReadOnly := by
  intro self result self' h
  cases h
  rfl

theorem readOnly_get : (get : Method σ ε σ).ReadOnly := by
  intro self result self' h
  cases h
  rfl

theorem readOnly_ofLocal (m : Fallible ε α) : (ofLocal m : Method σ ε α).ReadOnly := by
  intro self result self' h
  rw [call_ofLocal] at h
  cases hm : ExceptT.run m with
  | error panic => rw [hm] at h; cases h
  | ok outcome => rw [hm] at h; cases h; rfl

theorem ReadOnly.bind {m : Method σ ε α} {f : α → Method σ ε β} (hm : m.ReadOnly)
    (hf : ∀ a, (f a).Transactional) : (m >>= f).Transactional := by
  intro self e self' h
  rw [call_bind] at h
  split at h
  case h_1 => cases h
  case h_2 hc => cases h; exact hm _ _ _ hc
  case h_3 hc => rw [← hm _ _ _ hc]; exact hf _ _ _ _ h

/-- An update that cannot fail may only be followed by what cannot fail either. -/
theorem transactional_modify_bind {f : σ → σ} {g : PUnit → Method σ ε β}
    (hg : ∀ self e self', (g ⟨⟩).call self ≠ .ok (.error e, self')) :
    (modify f >>= g : Method σ ε β).Transactional := by
  intro self e self' h
  rw [call_bind, call_modify] at h
  exact absurd h (hg _ _ _)

/-- A successful run of a sequence splits at its first step. -/
theorem call_bind_ok {m : Method σ ε α} {f : α → Method σ ε β} {self self'' : σ} {b : β} :
    (m >>= f).call self = .ok (.ok b, self'') ↔
      ∃ a self', m.call self = .ok (.ok a, self') ∧ (f a).call self' = .ok (.ok b, self'') := by
  rw [call_bind]
  split
  case h_1 h => simp [h]
  case h_2 h => simp [h]
  case h_3 a self' h => simp [h]

end Method

/-- `expect` on an option. -/
def expect {α : Type} (message : String) : Option α → Rust α
  | some a => .ok a
  | none => .error (.expect message)

@[simp] theorem expect_some {α : Type} (message : String) (a : α) :
    expect message (some a) = .ok a := rfl

/-- A counting loop whose steps keep an invariant of the count does not panic. -/
theorem foldlM_range'_ok {σ : Type} {step : σ → Nat → Rust σ} (inv : Nat → σ → Prop)
    (start n : Nat) {s : σ} (hs : inv 0 s)
    (hstep : ∀ k s, k < n → inv k s → ∃ s', step s (start + k) = .ok s' ∧ inv (k + 1) s') :
    ∃ s', (List.range' start n).foldlM step s = .ok s' ∧ inv n s' := by
  induction n with
  | zero => exact ⟨s, rfl, hs⟩
  | succ n ih =>
      obtain ⟨s₁, hrun, hinv⟩ := ih fun k s hk => hstep k s (by omega)
      obtain ⟨s₂, hlast, hinv'⟩ := hstep n s₁ (by omega) hinv
      refine ⟨s₂, ?_, hinv'⟩
      rw [List.range'_1_concat, List.foldlM_append, hrun]
      simpa using hlast

/-! Vector accessors that panic outside the vector. -/
namespace Vec

variable {α : Type}

def index (v : List α) (i : Nat) : Rust α :=
  match v[i]? with
  | some a => .ok a
  | none => .error (.index i v.length)

def set (v : List α) (i : Nat) (a : α) : Rust (List α) :=
  if i < v.length then .ok (v.set i a) else .error (.index i v.length)

def insert (v : List α) (i : Nat) (a : α) : Rust (List α) :=
  if i ≤ v.length then .ok (v.insertIdx i a) else .error (.index i v.length)

def remove (v : List α) (i : Nat) : Rust (List α) :=
  if i < v.length then .ok (v.eraseIdx i) else .error (.index i v.length)

/-- The last element takes the removed element's place. -/
def swapRemove (v : List α) (i : Nat) : Rust (List α) :=
  match v.getLast? with
  | some last =>
      if i < v.length then .ok ((v.set i last).dropLast) else .error (.index i v.length)
  | none => .error (.index i v.length)

/-- Update the element at a position in place. -/
def update (v : List α) (i : Nat) (f : α → Rust α) : Rust (List α) := do
  let a ← index v i
  let b ← f a
  set v i b

@[simp] theorem index_append_cons (front rest : List α) (a : α) :
    index (front ++ a :: rest) front.length = .ok a := by
  simp [index]

@[simp] theorem set_append_cons (front rest : List α) (a b : α) :
    set (front ++ a :: rest) front.length b = .ok (front ++ b :: rest) := by
  simp [set]

@[simp] theorem insertIdx_append (front rest : List α) (a : α) :
    (front ++ rest).insertIdx front.length a = front ++ a :: rest := by
  induction front with
  | nil => rfl
  | cons b front ih => simpa using ih

@[simp] theorem insert_append (front rest : List α) (a : α) :
    insert (front ++ rest) front.length a = .ok (front ++ a :: rest) := by
  simp [insert]

@[simp] theorem remove_append_cons (front rest : List α) (a : α) :
    remove (front ++ a :: rest) front.length = .ok (front ++ rest) := by
  simp [remove, List.eraseIdx_append_of_length_le]

end Vec
end CleanCtx
