import CleanCtx.Library.Globs

/-!
Patterns as blocks: a run of wildcards, then literals, each with the run behind it. A literal may be
spelled by several letters; the pieces of the text between the literals are measured, and a run
fits a piece by its measure.
-/
namespace CleanCtx
namespace Glob

/-- A run of wildcards: how many of them take exactly one, and whether one takes any number. -/
structure Run where
  ones : Nat
  star : Bool
  deriving DecidableEq

def Run.Fits (run : Run) (size : Nat) : Prop :=
  if run.star then run.ones ≤ size else size = run.ones

variable {α β : Type}

/-- The first run, and the literals with the runs behind them. -/
def blocks : List (Glob α) → Run × List (α × Run)
  | [] => (⟨0, false⟩, [])
  | star :: pattern => ({ (blocks pattern).1 with star := true }, (blocks pattern).2)
  | one :: pattern =>
      ({ (blocks pattern).1 with ones := (blocks pattern).1.ones + 1 }, (blocks pattern).2)
  | lit a :: pattern => (⟨0, false⟩, (a, (blocks pattern).1) :: (blocks pattern).2)

/-- The literals stand in the text, as their words, and every run fits the piece before the next
literal, or before the end. -/
def HasRoom (word : α → List β) (measure : List β → Nat) :
    Run → List (α × Run) → List β → Prop
  | run, [], text => run.Fits (measure text)
  | run, (a, next) :: rest, text =>
      ∃ piece after, text = piece ++ (word a ++ after) ∧ run.Fits (measure piece) ∧
        HasRoom word measure next rest after

/-- The pattern over the letters that spell its literals. -/
def spell (word : α → List β) : Glob α → List (Glob β)
  | star => [star]
  | one => [one]
  | lit a => (word a).map lit

variable {word : α → List β} {measure : List β → Nat} {run : Run} {rest : List (α × Run)}

theorem Run.fits_star {size : Nat} (extra : Nat) (h : run.Fits size) :
    Run.Fits { run with star := true } (extra + size) := by
  unfold Run.Fits at h ⊢
  split at h
  · exact Nat.le_trans h (Nat.le_add_left _ _)
  · exact h ▸ Nat.le_add_left _ _

theorem Run.fits_ones : run.Fits run.ones := by
  unfold Run.Fits
  split
  · exact Nat.le_refl _
  · rfl

theorem Run.fits_one {size : Nat} :
    Run.Fits { run with ones := run.ones + 1 } (size + 1) ↔ run.Fits size := by
  unfold Run.Fits
  split
  · exact Nat.succ_le_succ_iff
  · exact Nat.succ_inj

/-- A star before a pattern: the first run takes any number in addition. -/
theorem hasRoom_star {text : List β} :
    HasRoom word List.length { run with star := true } rest text ↔
      ∃ before after, text = before ++ after ∧ HasRoom word List.length run rest after := by
  cases rest with
  | nil =>
      constructor
      · intro h
        have hle : run.ones ≤ text.length := h
        refine ⟨text.take (text.length - run.ones), text.drop (text.length - run.ones),
          (List.take_append_drop _ _).symm, ?_⟩
        have hlength : (text.drop (text.length - run.ones)).length = run.ones := by
          rw [List.length_drop]
          omega
        exact (congrArg run.Fits hlength).mpr Run.fits_ones
      · rintro ⟨before, after, rfl, h⟩
        have hfits := Run.fits_star before.length h
        rwa [← List.length_append] at hfits
  | cons entry rest =>
      obtain ⟨a, next⟩ := entry
      constructor
      · rintro ⟨piece, after, rfl, hfits, h⟩
        have hle : run.ones ≤ piece.length := hfits
        refine ⟨piece.take (piece.length - run.ones),
          piece.drop (piece.length - run.ones) ++ (word a ++ after), ?_, ?_⟩
        · rw [← List.append_assoc (piece.take _), List.take_append_drop]
        · refine ⟨piece.drop (piece.length - run.ones), after, rfl, ?_, h⟩
          have hlength : (piece.drop (piece.length - run.ones)).length = run.ones := by
            rw [List.length_drop]
            omega
          rw [hlength]
          exact Run.fits_ones
      · rintro ⟨before, _, rfl, piece, after, rfl, hfits, h⟩
        refine ⟨before ++ piece, after, by rw [List.append_assoc], ?_, h⟩
        rw [List.length_append]
        exact Run.fits_star before.length hfits

theorem hasRoom_one {text : List β} :
    HasRoom word List.length { run with ones := run.ones + 1 } rest text ↔
      ∃ b after, text = b :: after ∧ HasRoom word List.length run rest after := by
  have hpos : ∀ size, Run.Fits { run with ones := run.ones + 1 } size →
      ∃ n, size = n + 1 := by
    intro size h
    unfold Run.Fits at h
    split at h
    · have hle : run.ones + 1 ≤ size := h
      exact ⟨size - 1, by omega⟩
    · exact ⟨run.ones, h⟩
  cases rest with
  | nil =>
      constructor
      · intro h
        obtain ⟨n, hn⟩ := hpos _ h
        obtain ⟨b, after, rfl⟩ := List.exists_cons_of_length_eq_add_one hn
        exact ⟨b, after, rfl, Run.fits_one.mp h⟩
      · rintro ⟨b, after, rfl, h⟩
        exact Run.fits_one.mpr h
  | cons entry rest =>
      obtain ⟨a, next⟩ := entry
      constructor
      · rintro ⟨piece, after, rfl, hfits, h⟩
        obtain ⟨n, hn⟩ := hpos _ hfits
        obtain ⟨b, piece, rfl⟩ := List.exists_cons_of_length_eq_add_one hn
        exact ⟨b, piece ++ (word a ++ after), rfl, piece, after, rfl, Run.fits_one.mp hfits, h⟩
      · rintro ⟨b, _, rfl, piece, after, rfl, hfits, h⟩
        exact ⟨b :: piece, after, rfl, Run.fits_one.mpr hfits, h⟩

theorem matches_map_lit {letters : List β} {pattern : List (Glob β)} {text : List β} :
    Matches (letters.map lit ++ pattern) text ↔
      ∃ after, text = letters ++ after ∧ Matches pattern after := by
  induction letters generalizing text with
  | nil => simp
  | cons b letters ih =>
      rw [List.map_cons, List.cons_append, matches_cons]
      constructor
      · rintro ⟨piece, remaining, rfl, rfl, h⟩
        obtain ⟨after, rfl, hafter⟩ := ih.mp h
        exact ⟨after, rfl, hafter⟩
      · rintro ⟨after, rfl, hafter⟩
        exact ⟨[b], letters ++ after, rfl, rfl, ih.mpr ⟨after, rfl, hafter⟩⟩

/-- A pattern matches a text exactly if its blocks have room in it. -/
theorem matches_iff_hasRoom (word : α → List β) (pattern : List (Glob α)) {text : List β} :
    Matches (pattern.flatMap (spell word)) text ↔
      HasRoom word List.length (blocks pattern).1 (blocks pattern).2 text := by
  induction pattern generalizing text with
  | nil =>
      rw [List.flatMap_nil, matches_nil]
      exact List.length_eq_zero_iff.symm
  | cons g pattern ih =>
      cases g with
      | star =>
          rw [List.flatMap_cons]
          change Matches (star :: pattern.flatMap (spell word)) text ↔ _
          rw [matches_star]
          simp only [ih]
          exact hasRoom_star.symm
      | one =>
          rw [List.flatMap_cons]
          change Matches (one :: pattern.flatMap (spell word)) text ↔ _
          refine Iff.trans ?_ hasRoom_one.symm
          cases text with
          | nil =>
              rw [matches_nil_right]
              simp
          | cons b text =>
              rw [matches_one, ih]
              simp [blocks]
      | lit a =>
          rw [List.flatMap_cons]
          change Matches ((word a).map lit ++ pattern.flatMap (spell word)) text ↔ _
          rw [matches_map_lit]
          simp only [ih]
          constructor
          · rintro ⟨after, rfl, h⟩
            exact ⟨[], after, rfl, rfl, h⟩
          · rintro ⟨piece, after, rfl, hfits, h⟩
            obtain rfl := List.length_eq_zero_iff.mp hfits
            exact ⟨after, rfl, h⟩

theorem flatMap_spell_singleton (pattern : List (Glob α)) :
    pattern.flatMap (spell fun a => [a]) = pattern := by
  induction pattern with
  | nil => rfl
  | cons g pattern ih =>
      rw [List.flatMap_cons, ih]
      cases g <;> rfl

/-- Room for the words of the literals is room for the literals, if a word is found in a text only
where its literal is. -/
theorem hasRoom_flatMap {size : List α → Nat} (hsize : ∀ text, size text = (text.flatMap word).length)
    (hsplit : ∀ (text : List α) (a : α) (u v : List β),
      text.flatMap word = u ++ (word a ++ v) → ∃ before after, text = before ++ a :: after ∧
        before.flatMap word = u ∧ after.flatMap word = v) {text : List α} :
    HasRoom word List.length run rest (text.flatMap word) ↔
      HasRoom (fun a => [a]) size run rest text := by
  induction rest generalizing run text with
  | nil =>
      unfold HasRoom
      rw [hsize]
  | cons entry rest ih =>
      obtain ⟨a, next⟩ := entry
      constructor
      · rintro ⟨piece, after, heq, hfits, h⟩
        obtain ⟨before, behind, rfl, rfl, rfl⟩ := hsplit text a piece after heq
        exact ⟨before, behind, rfl, by rwa [hsize], ih.mp h⟩
      · rintro ⟨piece, after, rfl, hfits, h⟩
        refine ⟨piece.flatMap word, after.flatMap word, ?_, by rwa [← hsize], ih.mpr h⟩
        rw [List.flatMap_append, List.flatMap_append, List.flatMap_singleton]

/-- Where a run fits a piece by one measure exactly if it does by another, so does the pattern. -/
theorem hasRoom_congr {size size' : List α → Nat} {text : List α}
    (h : ∀ r ∈ run :: rest.map Prod.snd, ∀ piece, piece <:+: text →
      (r.Fits (size piece) ↔ r.Fits (size' piece))) :
    HasRoom (fun a => [a]) size run rest text ↔ HasRoom (fun a => [a]) size' run rest text := by
  induction rest generalizing run text with
  | nil => exact h run List.mem_cons_self text (List.infix_refl text)
  | cons entry rest ih =>
      obtain ⟨a, next⟩ := entry
      refine exists_congr fun piece => exists_congr fun after => and_congr_right ?_
      rintro rfl
      refine and_congr ?_ (ih fun r hr other hother => ?_)
      · exact h run List.mem_cons_self piece ((List.prefix_append piece _).isInfix)
      · refine h r (List.mem_cons_of_mem run hr) other (hother.trans ?_)
        rw [← List.append_assoc]
        exact (List.suffix_append _ after).isInfix

end Glob
end CleanCtx
