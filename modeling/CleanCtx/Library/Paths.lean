import Mathlib.Logic.Relation
import Mathlib.Data.List.Nodup

/-!
Paths of a relation counted in steps, and their invariance under a numbering of
the related elements by positions in a list.
-/
namespace CleanCtx

variable {α : Type}

/-- Reachability in a number of steps. -/
def Steps (r : α → α → Prop) : Nat → α → α → Prop
  | 0, a, b => a = b
  | k + 1, a, c => ∃ b, Steps r k a b ∧ r b c

theorem transGen_iff_steps {r : α → α → Prop} {a b : α} :
    Relation.TransGen r a b ↔ ∃ k, Steps r (k + 1) a b := by
  constructor
  · intro h
    induction h with
    | single h => exact ⟨0, a, rfl, h⟩
    | tail _ h ih =>
        obtain ⟨k, hk⟩ := ih
        exact ⟨k + 1, _, hk, h⟩
  · rintro ⟨k, hk⟩
    induction k generalizing b with
    | zero =>
        obtain ⟨c, rfl, h⟩ := hk
        exact .single h
    | succ k ih =>
        obtain ⟨c, hc, h⟩ := hk
        exact (ih hc).tail h

theorem transGen_self_iff {r : α → α → Prop} {p : α → Prop} (h : ∀ a b, r a b → p a) {a : α} :
    Relation.TransGen (fun a b => r a b ∧ p b) a a ↔ Relation.TransGen r a a := by
  constructor
  · exact Relation.TransGen.mono (fun _ _ => And.left) a a
  · intro hcycle
    have hstep : ∀ {b c : α}, Relation.TransGen r b c → p c →
        Relation.TransGen (fun a b => r a b ∧ p b) b c := by
      intro b c hbc
      induction hbc with
      | single hr => exact fun hp => .single ⟨hr, hp⟩
      | tail _ hr ih => exact fun hp => (ih (h _ _ hr)).tail ⟨hr, hp⟩
    obtain ⟨b, hfirst, -⟩ := Relation.TransGen.head'_iff.mp hcycle
    exact hstep hcycle (h a b hfirst)

theorem steps_restrict {r : α → α → Prop} {p : α → Prop} (h : ∀ a b, r a b → p a) {k : Nat}
    {a b : α} (hb : p b) : Steps (fun a b => r a b ∧ p b) k a b ↔ Steps r k a b := by
  induction k generalizing b with
  | zero => exact Iff.rfl
  | succ k ih =>
      constructor
      · rintro ⟨c, hc, hr, -⟩
        exact ⟨c, (ih (h c b hr)).mp hc, hr⟩
      · rintro ⟨c, hc, hr⟩
        exact ⟨c, (ih (h c b hr)).mpr hc, hr, hb⟩

theorem Steps.first {r : α → α → Prop} {k : Nat} {a b : α} (h : Steps r k a b) (hne : b ≠ a) :
    ∃ c, r a c := by
  induction k generalizing b with
  | zero => exact absurd (Eq.symm h) hne
  | succ k ih =>
      obtain ⟨c, hc, hr⟩ := h
      by_cases heq : c = a
      · exact ⟨b, heq ▸ hr⟩
      · exact ih hc heq

theorem Steps.last {r : α → α → Prop} {k : Nat} {a b : α} (h : Steps r k a b) (hne : b ≠ a) :
    ∃ c, r c b := by
  cases k with
  | zero => exact absurd (Eq.symm h) hne
  | succ k => exact h.imp fun _ => And.right

theorem steps_congr {r r' : α → α → Prop} (h : ∀ a b, r a b ↔ r' a b) (k : Nat) (a b : α) :
    Steps r k a b ↔ Steps r' k a b := by
  induction k generalizing b with
  | zero => exact Iff.rfl
  | succ k ih => exact exists_congr fun c => and_congr (ih c) (h c b)

/-- The relation on positions is the relation on the elements of the list, which holds all that
are related. -/
structure Numbers (nodes : List α) (r : Nat → Nat → Prop) (R : α → α → Prop) : Prop where
  nodup : nodes.Nodup
  iff : ∀ i j, r i j ↔ ∃ a b, nodes[i]? = some a ∧ nodes[j]? = some b ∧ R a b
  mem : ∀ a b, R a b → a ∈ nodes ∧ b ∈ nodes

namespace Numbers

variable {nodes : List α} {r : Nat → Nat → Prop} {R : α → α → Prop}

theorem position_inj (h : Numbers nodes r R) {i j : Nat} {a : α} (hi : nodes[i]? = some a)
    (hj : nodes[j]? = some a) : i = j := by
  have hlt := (List.getElem?_eq_some_iff.mp hi).1
  exact (List.getElem?_inj hlt h.nodup).mp (hi.trans hj.symm)

theorem lt (h : Numbers nodes r R) {i j : Nat} (hij : r i j) :
    i < nodes.length ∧ j < nodes.length := by
  obtain ⟨a, b, ha, hb, -⟩ := (h.iff i j).mp hij
  exact ⟨(List.getElem?_eq_some_iff.mp ha).1, (List.getElem?_eq_some_iff.mp hb).1⟩

theorem steps_iff (h : Numbers nodes r R) {k i j : Nat} {a b : α} (hi : nodes[i]? = some a)
    (hj : nodes[j]? = some b) : Steps r k i j ↔ Steps R k a b := by
  induction k generalizing j b with
  | zero =>
      constructor
      · rintro rfl
        exact Option.some.inj (hi.symm.trans hj)
      · rintro rfl
        exact h.position_inj hi hj
  | succ k ih =>
      constructor
      · rintro ⟨m, hm, hmj⟩
        obtain ⟨c, b', hc, hb', hR⟩ := (h.iff m j).mp hmj
        obtain rfl : b = b' := Option.some.inj (hj.symm.trans hb')
        exact ⟨c, (ih hc).mp hm, hR⟩
      · rintro ⟨c, hc, hR⟩
        obtain ⟨m, hm⟩ := List.mem_iff_getElem?.mp (h.mem c b hR).1
        exact ⟨m, (ih hm).mpr hc, (h.iff m j).mpr ⟨c, b, hm, hj, hR⟩⟩

theorem cycle_iff (h : Numbers nodes r R) :
    (∃ i, Relation.TransGen r i i) ↔ ∃ a, Relation.TransGen R a a := by
  constructor
  · rintro ⟨i, hi⟩
    obtain ⟨j, hij, -⟩ := Relation.TransGen.head'_iff.mp hi
    obtain ⟨a, -, ha, -⟩ := (h.iff i j).mp hij
    obtain ⟨k, hk⟩ := transGen_iff_steps.mp hi
    exact ⟨a, transGen_iff_steps.mpr ⟨k, (h.steps_iff ha ha).mp hk⟩⟩
  · rintro ⟨a, ha⟩
    obtain ⟨b, hab, -⟩ := Relation.TransGen.head'_iff.mp ha
    obtain ⟨i, hi⟩ := List.mem_iff_getElem?.mp (h.mem a b hab).1
    obtain ⟨k, hk⟩ := transGen_iff_steps.mp ha
    exact ⟨i, transGen_iff_steps.mpr ⟨k, (h.steps_iff hi hi).mpr hk⟩⟩

end Numbers
end CleanCtx
