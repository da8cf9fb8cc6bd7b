import CleanCtx.Library.Text

/-!
Texts that a scan cuts at separators. The scan has a state, and a separator cuts only
in some of the states. Pieces that are joined come back exactly if the scan of each
meets no cut, and each but the last leaves a state in which the separator cuts.
-/
namespace CleanCtx

/-- A scan that cuts a text at some occurrences of one character. -/
structure Separation (σ α : Type*) where
  start : σ
  next : σ → α → σ
  cuts : σ → α → Bool
  separator : α
  eq_of_cuts : ∀ {state c}, cuts state c = true → c = separator

namespace Separation

variable {σ α : Type*} (S : Separation σ α) {state : σ} {piece text rest : List α}

/-- The pieces of the rest of a text, with the current one in reverse. -/
def pieces (state : σ) (piece : List α) : List α → List (List α)
  | [] => [piece.reverse]
  | c :: rest =>
      if S.cuts state c then piece.reverse :: pieces S.start [] rest
      else pieces (S.next state c) (c :: piece) rest

def split (text : List α) : List (List α) := S.pieces S.start [] text

def join (texts : List (List α)) : List α := [S.separator].intercalate texts

def after (state : σ) (text : List α) : σ := text.foldl S.next state

def uncut : σ → List α → Bool
  | _, [] => true
  | state, c :: rest => !S.cuts state c && uncut (S.next state c) rest

theorem after_append (state : σ) (text rest : List α) :
    S.after state (text ++ rest) = S.after (S.after state text) rest := List.foldl_append

theorem uncut_append :
    S.uncut state (text ++ rest) = (S.uncut state text && S.uncut (S.after state text) rest) := by
  induction text generalizing state with
  | nil => rfl
  | cons c text ih => rw [List.cons_append, uncut, uncut, ih, Bool.and_assoc]; rfl

def Passes (state : σ) (text : List α) (state' : σ) : Prop :=
  S.after state text = state' ∧ S.uncut state text = true

variable {S} in
theorem Passes.cons {state' : σ} {c : α} (hcut : S.cuts state c = false)
    (h : S.Passes (S.next state c) text state') : S.Passes state (c :: text) state' :=
  ⟨h.1, Bool.and_eq_true_iff.mpr ⟨congrArg (!·) hcut, h.2⟩⟩

variable {S} in
theorem Passes.append {state' state'' : σ} (h : S.Passes state text state')
    (hrest : S.Passes state' rest state'') : S.Passes state (text ++ rest) state'' := by
  refine ⟨?_, ?_⟩
  · rw [after_append, h.1, hrest.1]
  · rw [uncut_append, h.1, h.2, hrest.2, Bool.true_and]

theorem join_cons_cons (text next : List α) (texts : List (List α)) :
    S.join (text :: next :: texts) = text ++ S.separator :: S.join (next :: texts) := by
  rw [join, List.intercalate_cons_cons, List.append_assoc, List.singleton_append, join]

theorem head_of_pieces (state : σ) (piece text : List α) :
    ∃ tail more, S.pieces state piece text = (piece.reverse ++ tail) :: more := by
  induction text generalizing state piece with
  | nil => exact ⟨[], [], by rw [pieces, List.append_nil]⟩
  | cons c text ih =>
      rw [pieces]
      split
      · exact ⟨[], _, by rw [List.append_nil]⟩
      · obtain ⟨tail, more, heq⟩ := ih (S.next state c) (c :: piece)
        exact ⟨c :: tail, more, by rw [heq, List.reverse_cons, List.append_assoc]; rfl⟩

theorem pieces_ne_nil (state : σ) (piece text : List α) : S.pieces state piece text ≠ [] := by
  obtain ⟨tail, more, heq⟩ := S.head_of_pieces state piece text
  exact heq ▸ List.cons_ne_nil _ _

theorem join_pieces (state : σ) (piece text : List α) :
    S.join (S.pieces state piece text) = piece.reverse ++ text := by
  induction text generalizing state piece with
  | nil => rw [pieces, join, List.intercalate_singleton, List.append_nil]
  | cons c text ih =>
      rw [pieces]
      split
      · next hcut =>
        obtain ⟨tail, more, heq⟩ := S.head_of_pieces S.start [] text
        have hjoined := ih S.start []
        rw [heq] at hjoined
        rw [heq, join_cons_cons, hjoined, S.eq_of_cuts hcut]
        rfl
      · rw [ih, List.reverse_cons, List.append_assoc, List.singleton_append]

theorem pieces_eq_singleton_iff :
    S.pieces state piece text = [piece.reverse ++ text] ↔ S.uncut state text = true := by
  induction text generalizing state piece with
  | nil => rw [pieces, List.append_nil, uncut]; exact iff_of_true rfl rfl
  | cons c text ih =>
      rw [pieces, uncut]
      by_cases hcut : S.cuts state c = true
      · obtain ⟨tail, more, heq⟩ := S.head_of_pieces S.start [] text
        rw [if_pos hcut, heq, hcut]
        exact iff_of_false (by simp) (by simp)
      · rw [if_neg hcut, Bool.eq_false_iff.mpr hcut, Bool.not_false, Bool.true_and,
          ← @ih _ (c :: piece), List.reverse_cons, List.append_assoc, List.singleton_append]

/-- A piece is read as it was joined if there is no cut in it and one right after it. -/
theorem pieces_eq_cons_iff {more : List (List α)} :
    S.pieces state piece (text ++ S.separator :: rest) = (piece.reverse ++ text) :: more ↔
      S.uncut state text = true ∧ S.cuts (S.after state text) S.separator = true ∧
        S.split rest = more := by
  induction text generalizing state piece with
  | nil =>
      rw [List.nil_append, List.append_nil, pieces, uncut, after, List.foldl_nil]
      by_cases hcut : S.cuts state S.separator = true
      · rw [if_pos hcut, List.cons.injEq]
        exact ⟨fun h => ⟨rfl, hcut, h.2⟩, fun h => ⟨rfl, h.2.2⟩⟩
      · obtain ⟨tail, others, heq⟩ :=
          S.head_of_pieces (S.next state S.separator) (S.separator :: piece) rest
        rw [if_neg hcut, heq]
        refine iff_of_false (fun h => ?_) fun h => hcut h.2.1
        have hlength := congrArg List.length (List.cons.inj h).1
        simp only [List.length_append, List.length_reverse, List.length_cons] at hlength
        omega
  | cons c text ih =>
      rw [List.cons_append, pieces, uncut]
      by_cases hcut : S.cuts state c = true
      · rw [if_pos hcut, hcut]
        refine iff_of_false (fun h => ?_) fun h => Bool.false_ne_true h.1
        have hlength := congrArg List.length (List.cons.inj h).1
        simp only [List.length_append, List.length_reverse, List.length_cons] at hlength
        omega
      · rw [if_neg hcut, Bool.eq_false_iff.mpr hcut, Bool.not_false, Bool.true_and]
        rw [show piece.reverse ++ c :: text = (c :: piece).reverse ++ text by simp, ih]
        rfl

/-- The pieces come back exactly if each is uncut and a separator after it cuts. -/
theorem split_join_iff (text : List α) (texts : List (List α)) :
    S.split (S.join (text :: texts)) = text :: texts ↔
      (∀ t ∈ text :: texts, S.uncut S.start t = true) ∧
        ∀ t ∈ (text :: texts).dropLast, S.cuts (S.after S.start t) S.separator = true := by
  induction texts generalizing text with
  | nil =>
      have hsingle := @pieces_eq_singleton_iff σ α S S.start [] text
      rw [join, List.intercalate_singleton, split, List.forall_mem_singleton]
      exact hsingle.trans (iff_self_and.mpr fun _ => nofun)
  | cons next texts ih =>
      have hcons := @pieces_eq_cons_iff σ α S S.start [] text (S.join (next :: texts)) (next :: texts)
      rw [join_cons_cons, split]
      refine hcons.trans ?_
      rw [ih, List.forall_mem_cons (l := next :: texts), List.dropLast_cons_of_ne_nil
        (List.cons_ne_nil _ _), List.forall_mem_cons (l := (next :: texts).dropLast)]
      exact ⟨fun ⟨hhead, hcut, hall, hcuts⟩ => ⟨⟨hhead, hall⟩, hcut, hcuts⟩,
        fun ⟨⟨hhead, hall⟩, hcut, hcuts⟩ => ⟨hhead, hcut, hall, hcuts⟩⟩

end Separation

def tidy (pieces : List (List Char)) : List (List Char) := (pieces.map trim).filter (!·.isEmpty)

def spaced (gap : List Char) : List (List Char) → List (List Char)
  | [] => []
  | text :: texts => text :: texts.map (gap ++ ·)

variable {gap : List Char} {sep : Char} {texts pieces : List (List Char)}

theorem mem_tidy {text : List Char} (h : text ∈ tidy pieces) : text ≠ [] ∧ trim text = text := by
  obtain ⟨hmem, hne⟩ := List.mem_filter.mp h
  obtain ⟨piece, -, rfl⟩ := List.mem_map.mp hmem
  exact ⟨by simpa using hne, trim_trim piece⟩

theorem dropLast_spaced (gap : List Char) (texts : List (List Char)) :
    (spaced gap texts).dropLast = spaced gap texts.dropLast := by
  cases texts with
  | nil => rfl
  | cons text texts =>
      cases texts with
      | nil => rfl
      | cons next texts =>
          rw [spaced, List.dropLast_cons_of_ne_nil (List.cons_ne_nil _ _), spaced, List.map_dropLast,
            List.dropLast_cons_of_ne_nil (List.map_eq_nil_iff.not.mpr (List.cons_ne_nil _ _))]

theorem forall_spaced_iff {p : List Char → Prop} (hp : ∀ t, p (gap ++ t) ↔ p t) :
    (∀ t ∈ spaced gap texts, p t) ↔ ∀ t ∈ texts, p t := by
  cases texts with
  | nil => rfl
  | cons text texts =>
      rw [spaced, List.forall_mem_cons, List.forall_mem_cons, List.forall_mem_map]
      exact and_congr_right' (forall₂_congr fun t _ => hp t)

theorem tidy_spaced (hgap : Blank gap) (htexts : ∀ t ∈ texts, t ≠ [] ∧ trim t = t) :
    tidy (spaced gap texts) = texts := by
  have htrim : (spaced gap texts).map trim = texts := by
    cases texts with
    | nil => rfl
    | cons text texts =>
        obtain ⟨htext, hrest⟩ := List.forall_mem_cons.mp htexts
        have hsame : ∀ t ∈ texts, (trim ∘ (gap ++ ·)) t = id t := fun t ht => by
          rw [Function.comp, trim_blank_append hgap, (hrest t ht).2, id]
        rw [spaced, List.map_cons, htext.2, List.map_map, List.map_congr_left hsame, List.map_id]
  rw [tidy, htrim, List.filter_eq_self]
  exact fun t ht => by simpa using (htexts t ht).1

theorem visible_intercalate (hsep : isWhiteSpace sep = false) (hne : pieces ≠ []) :
    visible ([sep].intercalate pieces) + 1 = (pieces.map visible).sum + pieces.length := by
  induction pieces with
  | nil => exact absurd rfl hne
  | cons piece pieces ih =>
      cases pieces with
      | nil => simp
      | cons next pieces =>
          have hrest := ih (List.cons_ne_nil _ _)
          rw [List.intercalate_cons_cons, visible_append, visible_append, visible_singleton hsep,
            List.map_cons, List.sum_cons, List.length_cons]
          omega

theorem visible_tidy (pieces : List (List Char)) :
    ((tidy pieces).map visible).sum = (pieces.map visible).sum := by
  induction pieces with
  | nil => rfl
  | cons piece pieces ih =>
      rw [tidy, List.map_cons, List.filter_cons] at *
      split
      · rw [List.map_cons, List.sum_cons, visible_trim, ih, List.map_cons, List.sum_cons]
      · next hempty =>
        have hnil : trim piece = [] := by simpa using hempty
        rw [ih, List.map_cons, List.sum_cons, ← visible_trim piece, hnil]
        exact (Nat.zero_add _).symm

/-- Trimmed pieces in the places of trimmed texts are the texts with their gaps. -/
theorem eq_spaced_of_map_trim (hsep : isWhiteSpace sep = false) {first : List Char}
    (hfirst : Blank first) (hgap : Blank gap) {text : List Char}
    (htexts : ∀ t ∈ text :: texts, t ≠ [] ∧ trim t = t) (hmap : pieces.map trim = text :: texts)
    (hjoin : [sep].intercalate pieces =
      [sep].intercalate ((first ++ text) :: texts.map (gap ++ ·))) :
    pieces = (first ++ text) :: texts.map (gap ++ ·) := by
  induction texts generalizing text first pieces with
  | nil =>
      obtain ⟨piece, rfl, -⟩ : ∃ piece, pieces = [piece] ∧ trim piece = text := by
        simpa [List.map_eq_cons_iff] using hmap
      rw [List.intercalate_singleton, List.map_nil, List.intercalate_singleton] at hjoin
      rw [hjoin, List.map_nil]
  | cons next texts ih =>
      obtain ⟨piece, pieces, rfl, htrim, hmore⟩ := List.map_eq_cons_iff.mp hmap
      obtain ⟨second, pieces, rfl, -, -⟩ := List.map_eq_cons_iff.mp hmore
      obtain ⟨htext, hrest⟩ := List.forall_mem_cons.mp htexts
      obtain ⟨c, tail, rfl⟩ := List.exists_cons_of_ne_nil htext.1
      have hc := head_of_trim htext.2
      obtain ⟨u, v, hu, hv, hpiece⟩ := exists_blank_trim piece
      rw [htrim] at hpiece
      rw [List.intercalate_cons_cons, List.map_cons, List.intercalate_cons_cons, hpiece] at hjoin
      simp only [List.append_assoc, List.cons_append, List.nil_append] at hjoin
      obtain ⟨hfront, hback⟩ := blank_front hu hfirst hc hc hjoin
      have htails := List.append_cancel_left (List.cons.inj hback).2
      obtain rfl : v = [] := by
        cases v with
        | nil => rfl
        | cons d v =>
            have hd : d = sep := (List.cons.inj htails).1
            rw [← hd, hv d List.mem_cons_self] at hsep
            cases hsep
      rw [hpiece, hfront, List.append_nil, List.map_cons,
        ih hgap hrest hmore (List.cons.inj htails).2]

/-- If what is left of the pieces are the texts, the pieces are the texts with their gaps. -/
theorem eq_spaced_of_tidy (hsep : isWhiteSpace sep = false) (hgap : Blank gap)
    (hne : pieces ≠ []) (htexts : texts ≠ []) (htidy : tidy pieces = texts)
    (hjoin : [sep].intercalate pieces = [sep].intercalate (spaced gap texts)) :
    pieces = spaced gap texts := by
  have hgood : ∀ t ∈ texts, t ≠ [] ∧ trim t = t := fun t ht => mem_tidy (htidy ▸ ht)
  have hlength : (pieces.map trim).length = texts.length := by
    have hspaced : spaced gap texts ≠ [] := by
      cases texts with
      | nil => exact absurd rfl htexts
      | cons text texts => exact List.cons_ne_nil _ _
    have hleft := visible_intercalate hsep hne
    have hright := visible_intercalate hsep hspaced
    rw [← visible_tidy, htidy, hjoin] at hleft
    rw [← visible_tidy, tidy_spaced hgap hgood] at hright
    have hcount : (spaced gap texts).length = texts.length := by
      cases texts with
      | nil => rfl
      | cons text texts => rw [spaced, List.length_cons, List.length_map, List.length_cons]
    rw [List.length_map]
    omega
  have hmap : pieces.map trim = texts := by
    rw [← htidy, tidy] at hlength ⊢
    exact (List.filter_sublist.eq_of_length hlength.symm).symm
  cases texts with
  | nil => exact absurd rfl htexts
  | cons text texts => 
      have hnil : Blank [] := fun _ hc => absurd hc List.not_mem_nil
      exact eq_spaced_of_map_trim hsep hnil hgap hgood hmap hjoin

end CleanCtx
