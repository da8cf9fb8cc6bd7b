import Mathlib.Algebra.Ring.Nat
import Mathlib.Data.List.Basic
import Mathlib.Data.List.Forall2
import Mathlib.Data.List.Perm.Basic
import Mathlib.Data.List.Sort

/-!
Facts about lists that several parts of the development share.
-/
namespace CleanCtx.Lists

variable {α β : Type}

/-- A predicate that holds at most once holds at one position. -/
theorem position_unique {p : α → Bool} {l : List α} (h : (l.filter p).length ≤ 1)
    {i j : Nat} {a b : α} (hi : l[i]? = some a) (ha : p a = true)
    (hj : l[j]? = some b) (hb : p b = true) : i = j := by
  induction l generalizing i j with
  | nil => simp at hi
  | cons c l ih =>
      have htail : p c = true → ∀ d ∈ l, p d = false := by
        intro hc d hd
        rw [List.filter_cons_of_pos hc, List.length_cons] at h
        have hnil : l.filter p = [] := List.length_eq_zero_iff.mp (by omega)
        simpa using List.filter_eq_nil_iff.mp hnil d hd
      have hrest : (l.filter p).length ≤ 1 := by
        refine Nat.le_trans ?_ h
        exact List.Sublist.length_le ((List.sublist_cons_self c l).filter p)
      cases i with
      | zero =>
          cases j with
          | zero => rfl
          | succ j =>
              rw [List.getElem?_cons_zero, Option.some.injEq] at hi
              rw [List.getElem?_cons_succ] at hj
              have := htail (by rw [hi]; exact ha) b (List.mem_of_getElem? hj)
              rw [hb] at this
              cases this
      | succ i =>
          cases j with
          | zero =>
              rw [List.getElem?_cons_zero, Option.some.injEq] at hj
              rw [List.getElem?_cons_succ] at hi
              have := htail (by rw [hj]; exact hb) a (List.mem_of_getElem? hi)
              rw [ha] at this
              cases this
          | succ j =>
              rw [List.getElem?_cons_succ] at hi hj
              rw [ih hrest hi hj]

theorem exists_other_position {p : α → Bool} {l : List α} (h : 1 < (l.filter p).length)
    (i : Nat) : ∃ j a, j ≠ i ∧ l[j]? = some a ∧ p a = true := by
  induction l generalizing i with
  | nil => simp at h
  | cons c l ih =>
      cases hc : p c with
      | true =>
          rw [List.filter_cons_of_pos hc, List.length_cons] at h
          obtain ⟨a, ha⟩ := List.exists_mem_of_length_pos (Nat.lt_of_succ_lt_succ h)
          obtain ⟨hmem, ha⟩ := List.mem_filter.mp ha
          obtain ⟨k, hk⟩ := List.mem_iff_getElem?.mp hmem
          by_cases hi : i = 0
          · exact ⟨k + 1, a, by omega, hk, ha⟩
          · exact ⟨0, c, by omega, rfl, hc⟩
      | false =>
          rw [List.filter_cons_of_neg (by simp [hc])] at h
          obtain ⟨j, a, hne, hj, ha⟩ := ih h (i - 1)
          exact ⟨j + 1, a, by omega, hj, ha⟩

theorem key_ne_of_ne {f : α → β} {l : List α} (h : (l.map f).Nodup) {i j : Nat} {a b : α}
    (hi : l[i]? = some a) (hj : l[j]? = some b) (hne : j ≠ i) : f b ≠ f a := by
  intro heq
  have hi' : (l.map f)[i]? = some (f a) := by rw [List.getElem?_map, hi]; rfl
  have hj' : (l.map f)[j]? = some (f a) := by rw [List.getElem?_map, hj, ← heq]; rfl
  have hlt := (List.getElem?_eq_some_iff.mp hj').1
  exact hne ((List.getElem?_inj hlt h).mp (hj'.trans hi'.symm))

theorem filter_key [DecidableEq β] {f : α → β} {l : List α} (h : (l.map f).Nodup) {a : α}
    (ha : a ∈ l) : l.filter (f · = f a) = [a] := by
  induction l with
  | nil => cases ha
  | cons b l ih =>
      obtain ⟨hb, hl⟩ := List.nodup_cons.mp h
      rcases List.mem_cons.mp ha with rfl | hmem
      · have hnil : l.filter (f · = f a) = [] := by
          refine List.filter_eq_nil_iff.mpr fun c hc heq => hb ?_
          exact List.mem_map.mpr ⟨c, hc, of_decide_eq_true heq⟩
        rw [List.filter_cons_of_pos (by simp), hnil]
      · have hne : ¬f b = f a := fun heq => hb (List.mem_map.mpr ⟨a, hmem, heq.symm⟩)
        rw [List.filter_cons_of_neg (by simpa using hne), ih hl hmem]

/-- Rewriting one element of a mapped list maps the list by a function that differs there. -/
theorem set_map {g g' : α → β} {l : List α} {i : Nat} {a : α} {b : β} (hi : l[i]? = some a)
    (ha : b = g' a) (hother : ∀ j x, j ≠ i → l[j]? = some x → g x = g' x) :
    (l.map g).set i b = l.map g' := by
  refine List.ext_getElem? fun j => ?_
  by_cases hj : j = i
  · subst hj
    have hlt : j < (l.map g).length := by
      rw [List.length_map]
      exact (List.getElem?_eq_some_iff.mp hi).1
    rw [List.getElem?_set_self hlt, List.getElem?_map, hi, ha]
    rfl
  · rw [List.getElem?_set_ne (Ne.symm hj), List.getElem?_map, List.getElem?_map]
    cases hx : l[j]? with
    | none => rfl
    | some x => rw [Option.map_some, Option.map_some, hother j x hj hx]

theorem filterMap_inj {f : α → Option β} {l : List α} (h : (l.filterMap f).Nodup) {a b : α} {v : β}
    (ha : a ∈ l) (hb : b ∈ l) (hfa : f a = some v) (hfb : f b = some v) : a = b := by
  induction l with
  | nil => cases ha
  | cons c l ih =>
      have htail : (l.filterMap f).Nodup :=
        h.sublist ((List.sublist_cons_self c l).filterMap f)
      have hfresh : f c = some v → ∀ d ∈ l, f d ≠ some v := by
        intro hc d hd hfd
        rw [List.filterMap_cons_some hc] at h
        exact (List.nodup_cons.mp h).1 (List.mem_filterMap.mpr ⟨d, hd, hfd⟩)
      rcases List.mem_cons.mp ha with hac | hal
      · rcases List.mem_cons.mp hb with hbc | hbl
        · rw [hac, hbc]
        · exact absurd hfb (hfresh (hac ▸ hfa) b hbl)
      · rcases List.mem_cons.mp hb with hbc | hbl
        · exact absurd hfa (hfresh (hbc ▸ hfb) a hal)
        · exact ih htail hal hbl

/-- A finer selection with the same images is a sublist of the images. -/
theorem map_filterMap_sublist {γ : Type} {f : α → Option β} {sel : α → Option γ} {key : γ → β}
    (hsel : ∀ a c, sel a = some c → f a = some (key c)) (l : List α) :
    ((l.filterMap sel).map key).Sublist (l.filterMap f) := by
  induction l with
  | nil => exact List.Sublist.slnil
  | cons a l ih =>
      cases ha : sel a with
      | none =>
          rw [List.filterMap_cons_none ha]
          exact ih.trans ((List.sublist_cons_self a l).filterMap f)
      | some c =>
          rw [List.filterMap_cons_some ha, List.filterMap_cons_some (hsel a c ha)]
          exact ih.cons_cons _

/-- Labels that the elements determine follow a rearrangement of the elements. -/
theorem perm_of_map_snd {R : β → α → Prop} (hunique : ∀ {a b b'}, R b a → R b' a → b = b')
    {l l' : List (β × α)} (hl : ∀ x ∈ l, R x.1 x.2) (hl' : ∀ x ∈ l', R x.1 x.2)
    (h : (l.map Prod.snd).Perm (l'.map Prod.snd)) : l.Perm l' := by
  classical
  let relabel (a : α) : Option (β × α) :=
    if ha : ∃ b, R b a then some (ha.choose, a) else none
  have hrelabel : ∀ l : List (β × α), (∀ x ∈ l, R x.1 x.2) →
      (l.map Prod.snd).filterMap relabel = l := by
    intro l hl
    rw [List.filterMap_map]
    refine Eq.trans (List.filterMap_congr (g := some) fun x hx => ?_) (List.filterMap_some)
    have hex : ∃ b, R b x.2 := ⟨x.1, hl x hx⟩
    have hsame : hex.choose = x.1 := hunique hex.choose_spec (hl x hx)
    simp [relabel, hex, hsame]
  rw [← hrelabel l hl, ← hrelabel l' hl']
  exact h.filterMap relabel

/-- A selection pairs with the elements it should keep exactly if each of these has its image. -/
theorem forall₂_filter_filterMap {R : α → β → Prop} {p : α → Bool} {f : α → Option β} {l : List α}
    (hskip : ∀ a, p a = false → f a = none) :
    List.Forall₂ R (l.filter p) (l.filterMap f) ↔
      ∀ a ∈ l, p a = true → ∃ b, f a = some b ∧ R a b := by
  have hle : ∀ l : List α, (l.filterMap f).length ≤ (l.filter p).length := by
    intro l
    induction l with
    | nil => exact Nat.le_refl 0
    | cons a l ih =>
        by_cases ha : p a = true
        · rw [List.filter_cons_of_pos ha, List.length_cons]
          cases hf : f a with
          | none => rw [List.filterMap_cons_none hf]; omega
          | some b => rw [List.filterMap_cons_some hf, List.length_cons]; omega
        · rw [List.filter_cons_of_neg ha, List.filterMap_cons_none (hskip a (by simpa using ha))]
          exact ih
  induction l with
  | nil => simp
  | cons a l ih =>
      rw [List.forall_mem_cons]
      refine Iff.trans ?_ (and_congr_right' ih)
      by_cases ha : p a = true
      · rw [List.filter_cons_of_pos ha]
        cases hf : f a with
        | none =>
            rw [List.filterMap_cons_none hf]
            refine ⟨fun h => ?_, fun h => ?_⟩
            · have hlength := h.length_eq
              rw [List.length_cons] at hlength
              have := hle l
              omega
            · obtain ⟨b, hb, -⟩ := h.1 ha
              cases hb
        | some b =>
            rw [List.filterMap_cons_some hf, List.forall₂_cons]
            simp [ha]
      · rw [List.filter_cons_of_neg ha, List.filterMap_cons_none (hskip a (by simpa using ha))]
        simp [ha]

theorem sum_map_set {f : α → Nat} {l : List α} {i : Nat} {a : α} (h : l[i]? = some a) (b : α) :
    ((l.set i b).map f).sum + f a = (l.map f).sum + f b := by
  induction l generalizing i with
  | nil => cases h
  | cons c l ih =>
      cases i with
      | zero =>
          cases h
          simp only [List.set_cons_zero, List.map_cons, List.sum_cons]
          omega
      | succ i =>
          have := ih h
          simp only [List.set_cons_succ, List.map_cons, List.sum_cons]
          omega

theorem exists_mem_set {P : α → Prop} {l : List α} {i : Nat} {a b : α} (h : l[i]? = some a)
    (ha : P a → P b) : (∃ x ∈ l.set i b, P x) ↔ (∃ x ∈ l, P x) ∨ P b := by
  induction l generalizing i with
  | nil => cases h
  | cons c l ih =>
      cases i with
      | zero =>
          cases h
          simp only [List.set_cons_zero, List.exists_mem_cons_iff]
          exact ⟨fun hx => hx.elim Or.inr fun hl => Or.inl (Or.inr hl),
            fun hx => hx.elim (fun hl => hl.elim (fun hc => Or.inl (ha hc)) Or.inr) Or.inl⟩
      | succ i =>
          simp only [List.set_cons_succ, List.exists_mem_cons_iff, ih h]
          exact or_assoc.symm

theorem mapM_bind_option {γ : Type} (f : α → Option β) (g : β → Option γ) (l : List α) :
    (l.mapM fun a => (f a).bind g) = (l.mapM f).bind fun bs => bs.mapM g := by
  induction l with
  | nil => rfl
  | cons a l ih =>
      simp only [List.mapM_cons, ih, Option.bind_eq_bind, Option.pure_def]
      cases f a with
      | none => rfl
      | some b =>
          cases l.mapM f with
          | none => cases hg : g b <;> simp [hg]
          | some bs => simp [List.mapM_cons]

theorem mapM_eq_some_iff {f : α → Option β} {l : List α} {bs : List β} :
    l.mapM f = some bs ↔ List.Forall₂ (fun a b => f a = some b) l bs := by
  induction l generalizing bs with
  | nil => cases bs <;> simp
  | cons a l ih =>
      cases bs with
      | nil => cases hf : f a <;> cases hl : l.mapM f <;> simp [List.mapM_cons, hf, hl]
      | cons b bs =>
          rw [List.forall₂_cons, ← ih]
          cases hf : f a <;> cases hl : l.mapM f <;> simp [List.mapM_cons, hf, hl]

theorem mapM_eq_ok_iff {ε : Type} {f : α → Except ε β} {l : List α} {bs : List β} :
    l.mapM f = .ok bs ↔ List.Forall₂ (fun a b => f a = .ok b) l bs := by
  induction l generalizing bs with
  | nil =>
      rw [List.mapM_nil, List.forall₂_nil_left_iff]
      exact ⟨fun h => (Except.ok.inj h).symm, fun h => h ▸ rfl⟩
  | cons a l ih =>
      rw [List.mapM_cons, List.forall₂_cons_left_iff]
      constructor
      · intro h
        cases hf : f a with
        | error e =>
            rw [hf] at h
            cases h
        | ok b =>
            cases hl : l.mapM f with
            | error e =>
                rw [hf, hl] at h
                cases h
            | ok rest =>
                rw [hf, hl] at h
                exact ⟨b, rest, rfl, ih.mp hl, (Except.ok.inj h).symm⟩
      · rintro ⟨b, rest, hf, hl, rfl⟩
        rw [hf, ih.mpr hl]
        rfl

theorem eq_of_mapM_eq_some {f g : α → Option β} {l : List α} {bs : List β}
    (hf : List.Forall₂ (fun a b => f a = some b) l bs)
    (hg : List.Forall₂ (fun a b => g a = some b) l bs) : ∀ a ∈ l, f a = g a := by
  induction hf with
  | nil => simp
  | cons hhead _ ih =>
      obtain ⟨hhead', htail'⟩ := List.forall₂_cons.mp hg
      exact List.forall_mem_cons.mpr ⟨hhead.trans hhead'.symm, ih htail'⟩

theorem exists_right_of_forall₂ {R : α → β → Prop} {l : List α} {bs : List β}
    (h : List.Forall₂ R l bs) : ∀ a ∈ l, ∃ b ∈ bs, R a b := by
  induction h with
  | nil => simp
  | cons hhead _ ih =>
      refine List.forall_mem_cons.mpr ⟨⟨_, List.mem_cons_self, hhead⟩, fun a ha => ?_⟩
      obtain ⟨b, hb, hrel⟩ := ih a ha
      exact ⟨b, List.mem_cons_of_mem _ hb, hrel⟩

theorem exists_left_of_forall₂ {R : α → β → Prop} {l : List α} {bs : List β}
    (h : List.Forall₂ R l bs) : ∀ b ∈ bs, ∃ a ∈ l, R a b :=
  exists_right_of_forall₂ (List.Forall₂.flip (R := flip R) h)

/-- A stronger predicate holds as often as a weaker one exactly if the weaker one implies it. -/
theorem countP_eq_countP_iff {p q : α → Bool} {l : List α} (h : ∀ a ∈ l, p a = true → q a = true) :
    l.countP p = l.countP q ↔ ∀ a ∈ l, q a = true → p a = true := by
  induction l with
  | nil => exact iff_of_true rfl nofun
  | cons a l ih =>
      obtain ⟨ha, hl⟩ := List.forall_mem_cons.mp h
      have hle := List.countP_mono_left hl
      rw [List.countP_cons, List.countP_cons, List.forall_mem_cons, ← ih hl]
      cases hp : p a with
      | true => simp [ha hp]
      | false =>
          cases hq : q a with
          | false => simp
          | true =>
              refine iff_of_false (fun heq => ?_) fun hand => Bool.false_ne_true (hand.1 rfl)
              simp at heq
              omega

/-- An order on a list is one on the list it is related to, where the relation keeps it. -/
theorem pairwise_of_forall₂ {P : α → β → Prop} {R : α → α → Prop} {S : β → β → Prop} {l : List α}
    {bs : List β} (h : List.Forall₂ P l bs) (hl : l.Pairwise R)
    (hkeeps : ∀ {a a' b b'}, P a b → P a' b' → R a a' → S b b') : bs.Pairwise S := by
  induction h with
  | nil => exact .nil
  | cons hhead htail ih =>
      obtain ⟨hfirst, hrest⟩ := List.pairwise_cons.mp hl
      refine List.pairwise_cons.mpr ⟨fun b' hb' => ?_, ih hrest⟩
      obtain ⟨a', ha', hrel⟩ := exists_left_of_forall₂ htail b' hb'
      exact hkeeps hhead hrel (hfirst a' ha')

theorem exists_mapM {f : α → Option β} {l : List α}
    (h : ∀ a ∈ l, (f a).isSome = true) : ∃ bs, l.mapM f = some bs := by
  induction l with
  | nil => exact ⟨[], rfl⟩
  | cons a l ih =>
      obtain ⟨b, hb⟩ := Option.isSome_iff_exists.mp (h a List.mem_cons_self)
      obtain ⟨bs, hbs⟩ := ih fun x hx => h x (List.mem_cons_of_mem _ hx)
      exact ⟨b :: bs, by simp [List.mapM_cons, hb, hbs]⟩

theorem sum_map_filter_le (f : α → Nat) (p : α → Bool) (l : List α) :
    ((l.filter p).map f).sum ≤ (l.map f).sum := by
  induction l with
  | nil => exact Nat.le_refl _
  | cons a l ih =>
      rw [List.filter_cons, List.map_cons, List.sum_cons]
      split
      · rw [List.map_cons, List.sum_cons]
        exact Nat.add_le_add_left ih _
      · exact Nat.le_trans ih (Nat.le_add_left _ _)

theorem sum_map_filter_lt {f : α → Nat} {p : α → Bool} {l : List α} {a : α} (ha : a ∈ l)
    (hp : p a = false) (hf : 0 < f a) : ((l.filter p).map f).sum < (l.map f).sum := by
  induction l with
  | nil => cases ha
  | cons b l ih =>
      rw [List.filter_cons, List.map_cons, List.sum_cons]
      obtain rfl | ha := List.mem_cons.mp ha
      · have hle := sum_map_filter_le f p l
        rw [hp, if_neg Bool.false_ne_true]
        omega
      · have hlt := ih ha
        split
        · rw [List.map_cons, List.sum_cons]
          omega
        · omega

theorem eq_singleton_of_length_le_one {l : List α} {a : α} (hmem : a ∈ l) (hlength : l.length ≤ 1) :
    l = [a] := by
  match l, hmem, hlength with
  | [b], hmem, _ => rw [List.mem_singleton.mp hmem]

end CleanCtx.Lists
