import Mathlib.Data.List.TakeWhile
import CleanCtx.Library.GlobBlocks
import CleanCtx.Library.Utf8

/-!
The glob matcher of the configuration (`config_impl.rs`). It walks the bytes of the pattern and of
the text and remembers the last star. That is enough to match bytes; where a question mark meets
a character of several bytes, bytes and characters part.
-/
namespace CleanCtx
namespace Config

open Glob

/-- The pattern from `pi` on and the text from `ti` on, and after a star the pattern from
`star_pi + 1` on and the text from `star_ti` on, neither of which is behind. -/
structure GlobState where
  pattern : List UInt8
  text : List UInt8
  star : Option (List UInt8 × List UInt8)
  ahead : ∀ behind since, star = some (behind, since) →
    pattern.length ≤ behind.length ∧ text.length ≤ since.length

namespace GlobState

/-- The last star takes one byte more. -/
def retry (s : GlobState) : Bool ⊕ GlobState :=
  match s.star with
  | some (behind, since) => .inr {
      pattern := behind
      text := since.tail
      star := some (behind, since.tail)
      ahead := by rintro _ _ ⟨⟩; exact ⟨Nat.le_refl _, Nat.le_refl _⟩ }
  | none => .inl false

/-- One pass of the loop, or its answer. -/
def step (s : GlobState) : Bool ⊕ GlobState :=
  match htext : s.text, hpattern : s.pattern with
  | [], pattern => .inl (pattern.dropWhile (· = 0x2A)).isEmpty
  | _ :: _, [] => s.retry
  | c :: text, b :: pattern =>
      if b = 0x2A then .inr {
        pattern
        text := c :: text
        star := some (pattern, c :: text)
        ahead := by rintro _ _ ⟨⟩; exact ⟨Nat.le_refl _, Nat.le_refl _⟩ }
      else if b = c ∨ b = 0x3F then .inr {
        pattern
        text
        star := s.star
        ahead := fun behind since h => by
          have hle := s.ahead behind since h
          rw [htext, hpattern, List.length_cons, List.length_cons] at hle
          exact ⟨Nat.le_of_succ_le hle.1, Nat.le_of_succ_le hle.2⟩ }
      else s.retry

/-- How much pattern is left behind the last star, how much text it has left, and how much text is
left. -/
def rank (s : GlobState) : Nat × Nat × Nat :=
  (s.star.elim (s.pattern.length + 1) (·.1.length), s.star.elim 0 (·.2.length), s.text.length)

theorem retry_lt {s s' : GlobState} (htext : s.text ≠ []) (h : s.retry = .inr s') :
    Prod.Lex (· < ·) (Prod.Lex (· < ·) (· < ·)) s'.rank s.rank := by
  unfold retry at h
  split at h
  · next behind since hstar =>
    cases h
    have hle := (s.ahead behind since hstar).2
    have hpos := List.length_pos_iff.mpr htext
    simp only [rank, hstar, Option.elim_some]
    refine .right _ (.left _ _ ?_)
    rw [List.length_tail]
    omega
  · cases h

theorem step_lt {s s' : GlobState} (h : s.step = .inr s') :
    Prod.Lex (· < ·) (Prod.Lex (· < ·) (· < ·)) s'.rank s.rank := by
  unfold step at h
  split at h
  · cases h
  · next c text htext hpattern => exact retry_lt (by simp [htext]) h
  · next c text b pattern htext hpattern =>
    split at h
    · cases h
      cases hstar : s.star with
      | none =>
          simp only [rank, hstar, hpattern, Option.elim_some, Option.elim_none, List.length_cons]
          exact .left _ _ (by omega)
      | some last =>
          have hle := (s.ahead last.1 last.2 hstar).1
          rw [hpattern, List.length_cons] at hle
          simp only [rank, hstar, Option.elim_some]
          exact .left _ _ hle
    · split at h
      · cases h
        simp only [rank]
        cases s.star with
        | none =>
            simp only [hpattern, Option.elim_none, List.length_cons]
            exact .left _ _ (by omega)
        | some last =>
            simp only [htext, Option.elim_some, List.length_cons]
            exact .right _ (.right _ (Nat.lt_succ_self _))
      · exact retry_lt (by simp [htext]) h

def run (s : GlobState) : Bool :=
  match _h : s.step with
  | .inl answer => answer
  | .inr s' => s'.run
termination_by s.rank
decreasing_by exact step_lt _h

end GlobState

def globMatchImpl (pattern text : List UInt8) : Bool :=
  GlobState.run { pattern, text, star := none, ahead := nofun }

def globMatch (pattern text : String) : Bool := globMatchImpl (utf8 pattern) (utf8 text)

/-! What the loop decides. -/

def byteGlob (b : UInt8) : Glob UInt8 :=
  if b = 0x2A then .star else if b = 0x3F then .one else .lit b

def charGlob (c : Char) : Glob Char :=
  if c = '*' then .star else if c = '?' then .one else .lit c

namespace GlobState

def view (s : GlobState) : Search UInt8 where
  pattern := s.pattern.map byteGlob
  text := s.text
  lastStar := s.star.map fun last => (last.1.map byteGlob, last.2)

theorem byteGlob_eq_star {b : UInt8} : byteGlob b = .star ↔ b = 0x2A := by
  unfold byteGlob
  split
  · simp [*]
  · split <;> simp [*]

theorem byteGlob_lit {b : UInt8} (hstar : b ≠ 0x2A) (hone : b ≠ 0x3F) :
    byteGlob b = .lit b := by
  rw [byteGlob, if_neg hstar, if_neg hone]

theorem retry_spec {s : GlobState} (hmatch : ¬ Matches s.view.pattern s.view.text) :
    (∀ answer, s.retry = .inl answer → (answer = true ↔ s.view.Accepts)) ∧
      ∀ s', s.retry = .inr s' → s'.view.Sound ∧ (s'.view.Accepts ↔ s.view.Accepts) := by
  unfold retry
  cases hstar : s.star with
  | none =>
      refine ⟨fun answer h => ?_, nofun⟩
      cases h
      have hview : s.view = ⟨s.view.pattern, s.view.text, none⟩ := by rw [view, hstar]; rfl
      rw [hview]
      exact iff_of_false Bool.false_ne_true (Search.accepts_stuck hmatch)
  | some last =>
      obtain ⟨behind, since⟩ := last
      refine ⟨nofun, fun s' h => ?_⟩
      cases h
      have hview : s.view = ⟨s.view.pattern, s.view.text, some (behind.map byteGlob, since)⟩ := by
        rw [view, hstar]
        rfl
      rw [hview]
      exact ⟨Search.sound_star, (Search.accepts_retry hmatch).symm⟩

/-- One pass keeps what is accepted, and an answer tells it. -/
theorem step_spec {s : GlobState} (hsound : s.view.Sound) :
    (∀ answer, s.step = .inl answer → (answer = true ↔ s.view.Accepts)) ∧
      ∀ s', s.step = .inr s' → s'.view.Sound ∧ (s'.view.Accepts ↔ s.view.Accepts) := by
  obtain ⟨pattern, text, star, ahead⟩ := s
  cases text with
  | nil =>
      refine ⟨fun answer h => ?_, nofun⟩
      cases h
      refine Iff.trans ?_ (Search.accepts_end hsound).symm
      simp [byteGlob_eq_star, List.dropWhile_eq_nil_iff]
  | cons c text =>
      cases pattern with
      | nil => exact retry_spec fun h => absurd (matches_nil.mp h) (List.cons_ne_nil c text)
      | cons b pattern =>
          by_cases hstar : b = 0x2A
          · subst hstar
            refine ⟨nofun, fun s' h => ?_⟩
            cases h
            exact ⟨Search.sound_star, (Search.accepts_star hsound).symm⟩
          · have hne : byteGlob b ≠ .star := fun h => hstar (byteGlob_eq_star.mp h)
            by_cases htakes : b = c ∨ b = 0x3F
            · rw [step]
              simp only [if_neg hstar, if_pos htakes]
              refine ⟨nofun, fun s' h => ?_⟩
              cases h
              refine ⟨Search.sound_advance hne hsound, (Search.accepts_advance ?_).symm⟩
              intro after
              by_cases hone : b = 0x3F
              · subst hone
                exact matches_one
              · obtain rfl : b = c := htakes.resolve_right hone
                rw [byteGlob_lit hstar hone, matches_lit]
                exact and_iff_right rfl
            · have hmatch : ¬ Matches ((b :: pattern).map byteGlob) (c :: text) := by
                obtain ⟨hlit, hone⟩ := not_or.mp htakes
                rw [List.map_cons, byteGlob_lit hstar hone, matches_lit]
                exact fun h => hlit h.1.symm
              have hretry := retry_spec (s := ⟨b :: pattern, c :: text, star, ahead⟩) hmatch
              rw [step]
              simp only [if_neg hstar, if_neg htakes]
              exact hretry

theorem run_iff {s : GlobState} (hsound : s.view.Sound) : s.run = true ↔ s.view.Accepts := by
  induction s using run.induct with
  | case1 s answer h =>
      rw [run, h]
      exact (step_spec hsound).1 answer h
  | case2 s s' h ih =>
      obtain ⟨hsound', haccepts⟩ := (step_spec hsound).2 s' h
      rw [run, h]
      exact (ih hsound').trans haccepts

end GlobState

theorem globMatchImpl_iff {pattern text : List UInt8} :
    globMatchImpl pattern text = true ↔ Matches (pattern.map byteGlob) text := by
  refine (GlobState.run_iff (by rintro _ _ ⟨⟩)).trans (or_iff_left ?_)
  rintro ⟨behind, since, h, -⟩
  cases h

/-- What the matcher is for: the text can be split along the pattern, in characters. -/
def GlobMeaning (pattern text : String) : Prop :=
  Matches (pattern.toList.map charGlob) text.toList

def byteCount (text : List Char) : Nat := (text.flatMap String.utf8EncodeChar).length

/-- The literals of the pattern stand in the text, and each run of wildcards covers as many units
as it has question marks, or at least as many beside a star. -/
def HasRoomIn (size : List Char → Nat) (pattern text : String) : Prop :=
  HasRoom (fun c => [c]) size (blocks (pattern.toList.map charGlob)).1
    (blocks (pattern.toList.map charGlob)).2 text.toList

theorem map_byteGlob_utf8EncodeChar (c : Char) :
    (String.utf8EncodeChar c).map byteGlob = spell String.utf8EncodeChar (charGlob c) := by
  by_cases hstar : c = '*'
  · subst hstar
    decide
  · by_cases hone : c = '?'
    · subst hone
      decide
    · have hbytes : ∀ b ∈ String.utf8EncodeChar c, byteGlob b = .lit b := by
        intro b hb
        apply GlobState.byteGlob_lit
        · rintro rfl
          exact hstar (Char.toNat_inj.mp (utf8EncodeChar_of_mem hb (by decide)))
        · rintro rfl
          exact hone (Char.toNat_inj.mp (utf8EncodeChar_of_mem hb (by decide)))
      rw [charGlob, if_neg hstar, if_neg hone, spell]
      exact List.map_congr_left hbytes

/-- The matcher gives every run of wildcards room in bytes. -/
theorem globMatch_iff (pattern text : String) :
    globMatch pattern text = true ↔ HasRoomIn byteCount pattern text := by
  have hpattern : (utf8 pattern).map byteGlob =
      (pattern.toList.map charGlob).flatMap (spell String.utf8EncodeChar) := by
    rw [utf8_eq_flatMap, List.map_flatMap, List.flatMap_map]
    exact congrArg (List.flatMap · pattern.toList) (funext map_byteGlob_utf8EncodeChar)
  rw [globMatch, globMatchImpl_iff, hpattern, matches_iff_hasRoom, utf8_eq_flatMap]
  exact hasRoom_flatMap (fun _ => rfl) fun _ _ _ _ => flatMap_utf8EncodeChar_split

/-- The meaning gives it room in characters. -/
theorem globMeaning_iff (pattern text : String) :
    GlobMeaning pattern text ↔ HasRoomIn List.length pattern text := by
  have h : Matches ((pattern.toList.map charGlob).flatMap (spell fun c => [c])) text.toList ↔ _ :=
    matches_iff_hasRoom (fun c => [c]) (pattern.toList.map charGlob)
  rwa [flatMap_spell_singleton] at h

theorem byteCount_append (text text' : List Char) :
    byteCount (text ++ text') = byteCount text + byteCount text' := by
  rw [byteCount, List.flatMap_append, List.length_append]
  rfl

theorem length_le_byteCount (text : List Char) : text.length ≤ byteCount text := by
  induction text with
  | nil => exact Nat.le_refl _
  | cons c text ih =>
      have hpos := List.length_pos_iff.mpr (utf8EncodeChar_ne_nil c)
      have hcount : byteCount (c :: text) =
          (String.utf8EncodeChar c).length + byteCount text := by
        rw [← List.singleton_append, byteCount_append, byteCount, List.flatMap_singleton]
      rw [hcount, List.length_cons]
      omega

/-- Runs without a question mark, or with one beside a star, do not tell bytes from characters. -/
theorem globMatch_of_plain {pattern : String}
    (hplain : ∀ run ∈ (blocks (pattern.toList.map charGlob)).1 ::
      (blocks (pattern.toList.map charGlob)).2.map Prod.snd,
      run.ones = 0 ∨ run.ones = 1 ∧ run.star = true) (text : String) :
    globMatch pattern text = true ↔ GlobMeaning pattern text := by
  rw [globMatch_iff, globMeaning_iff]
  refine hasRoom_congr fun run hrun piece _ => ?_
  have hempty : byteCount piece = 0 ↔ piece.length = 0 := by
    have hle := length_le_byteCount piece
    constructor
    · omega
    · intro h
      rw [List.length_eq_zero_iff.mp h]
      rfl
  unfold Run.Fits
  split
  · rcases hplain run hrun with hones | ⟨hones, -⟩ <;> rw [hones] <;> omega
  · next hstar =>
    rcases hplain run hrun with hones | ⟨-, hstar'⟩
    · rw [hones]
      exact hempty
    · exact absurd hstar' hstar

/-- In a text whose characters are single bytes nothing goes wrong, and in every other text some
pattern does. -/
theorem globMatch_of_text_iff (text : String) :
    (∀ pattern, globMatch pattern text = true ↔ GlobMeaning pattern text) ↔
      byteCount text.toList = text.toList.length := by
  constructor
  · intro h
    have hblocks : ∀ n, blocks (List.replicate n (Glob.one : Glob Char)) = (⟨n, false⟩, []) := by
      intro n
      induction n with
      | zero => rfl
      | succ n ih => rw [List.replicate_succ, blocks, ih]
    have hpattern : (String.ofList (List.replicate text.toList.length '?')).toList.map charGlob =
        List.replicate text.toList.length .one := by
      rw [String.toList_ofList, List.map_replicate]
      rfl
    have hright := h (String.ofList (List.replicate text.toList.length '?'))
    rw [globMatch_iff, globMeaning_iff] at hright
    unfold HasRoomIn at hright
    rw [hpattern, hblocks] at hright
    exact hright.mpr rfl
  · intro hcount pattern
    rw [globMatch_iff, globMeaning_iff]
    refine hasRoom_congr fun run _ piece hpiece => ?_
    obtain ⟨before, after, heq⟩ := hpiece
    rw [← heq, byteCount_append, byteCount_append, List.length_append, List.length_append] at hcount
    have hbefore := length_le_byteCount before
    have hmiddle := length_le_byteCount piece
    have hafter := length_le_byteCount after
    have hsame : byteCount piece = piece.length := by omega
    rw [hsame]

/-- In general the matcher answers as it should exactly if the wildcards find room in bytes where
they find it in characters, and nowhere else. -/
theorem globMatch_eq_meaning_iff (pattern text : String) :
    (globMatch pattern text = true ↔ GlobMeaning pattern text) ↔
      (HasRoomIn byteCount pattern text ↔ HasRoomIn List.length pattern text) := by
  rw [globMatch_iff, globMeaning_iff]

theorem not_globMatch_question :
    ¬ (globMatch "?" "é" = true ↔ GlobMeaning "?" "é") := by
  intro h
  have hmeaning : GlobMeaning "?" "é" := matches_one.mpr (matches_nil.mpr rfl)
  have hbytes := (globMatch_iff _ _).mp (h.mpr hmeaning)
  exact absurd (show byteCount ['é'] = 1 from hbytes) (by decide)

end Config
end CleanCtx
