import Mathlib.Data.List.Basic

/-!
Texts as words between boundary characters, and scans that replace occurrences in
a text. The outcome of a scan is a list of pieces, characters kept and occurrences
replaced, from which both texts are read off. Where no two occurrences touch, the
tokens put in their places are words of the new text, so that mapping its words
can undo the scan.
-/
namespace CleanCtx

/-- A part of a scanned text: a character kept, or an occurrence replaced by a token. -/
inductive Piece
  | kept (c : Char)
  | replaced (original token : List Char)
  deriving DecidableEq, Repr

/-- A part of a text: a word, or a boundary character. -/
inductive Part
  | word (w : List Char)
  | mark (c : Char)

/-- A part of a scanned text: a word kept, an occurrence replaced, or a boundary character. -/
inductive Item
  | word (w : List Char)
  | swap (original token : List Char)
  | mark (c : Char)
  deriving DecidableEq, Repr

namespace Piece

def before : Piece → List Char
  | kept c => [c]
  | replaced original _ => original

def after : Piece → List Char
  | kept c => [c]
  | replaced _ token => token

def isReplaced : Piece → Bool
  | kept _ => false
  | replaced _ _ => true

end Piece

open Piece

/-- No two occurrences that are replaced touch. -/
def Spaced : List Piece → Prop
  | [] => True
  | piece :: rest =>
      (piece.isReplaced = true → ∀ next ∈ rest.head?, next.isReplaced = false) ∧ Spaced rest

section Words

variable (boundary : Char → Bool)

def flush (word : List Char) : List (List Char) := if word.isEmpty then [] else [word.reverse]

def partsFrom (word : List Char) : List Char → List Part
  | [] => (flush word).map .word
  | c :: rest =>
      if boundary c then (flush word).map .word ++ .mark c :: partsFrom [] rest
      else partsFrom (c :: word) rest

def Part.mapWord (f : List Char → List Char) : Part → Part
  | word w => word (f w)
  | mark c => mark c

def Part.text : Part → List Char
  | word w => w
  | mark c => [c]

def mapWords (f : List Char → List Char) (text : List Char) : List Char :=
  ((partsFrom boundary [] text).map (Part.mapWord f)).flatMap Part.text

/-- The words of the kept characters, the occurrences and the boundaries. An occurrence replaced
ends a word. -/
def itemsFrom (word : List Char) : List Piece → List Item
  | [] => (flush word).map .word
  | kept c :: rest =>
      if boundary c then (flush word).map .word ++ .mark c :: itemsFrom [] rest
      else itemsFrom (c :: word) rest
  | replaced original token :: rest =>
      (flush word).map .word ++ .swap original token :: itemsFrom [] rest

def items (pieces : List Piece) : List Item := itemsFrom boundary [] pieces

def IsWord (word : List Char) : Prop := word ≠ [] ∧ ∀ c ∈ word, boundary c = false

/-- The pieces are none, or start with a boundary that is kept. -/
def Ends : List Piece → Prop
  | [] => True
  | kept c :: _ => boundary c = true
  | replaced _ _ :: _ => False

/-- Every occurrence replaced stands between kept boundaries. The flag says that the place before
the pieces is the start of the text or a kept boundary. -/
def Delimited : Bool → List Piece → Prop
  | _, [] => True
  | _, kept c :: rest => Delimited (boundary c) rest
  | free, replaced _ _ :: rest => free = true ∧ Ends boundary rest ∧ Delimited false rest

/-- What a part of the scanned text is after and before the scan. -/
def Item.part (side : Piece → List Char) : Item → Part
  | .word w => .word w
  | .swap original token => .word (side (.replaced original token))
  | .mark c => .mark c

def Item.text (side : Piece → List Char) : Item → List Char
  | .word w => w
  | .swap original token => side (.replaced original token)
  | .mark c => [c]

variable {boundary} {f : List Char → List Char} {pieces : List Piece} {word run text : List Char}

theorem Delimited.of_ends {free free' : Bool} (h : Delimited boundary free pieces)
    (hends : Ends boundary pieces) : Delimited boundary free' pieces := by
  cases pieces with
  | nil => trivial
  | cons piece rest =>
      cases piece with
      | kept => exact h
      | replaced => exact hends.elim

theorem partsFrom_append (hrun : ∀ c ∈ run, boundary c = false) (text : List Char) :
    partsFrom boundary word (run ++ text) = partsFrom boundary (run.reverse ++ word) text := by
  induction run generalizing word with
  | nil => rfl
  | cons c run ih =>
      obtain ⟨hc, hrest⟩ := List.forall_mem_cons.mp hrun
      rw [List.cons_append, partsFrom, hc, if_neg Bool.false_ne_true, ih hrest,
        List.reverse_cons, List.append_assoc]
      rfl

theorem partsFrom_congr {boundary' : Char → Bool} (h : ∀ c ∈ text, boundary c = boundary' c) :
    partsFrom boundary word text = partsFrom boundary' word text := by
  induction text generalizing word with
  | nil => rfl
  | cons c rest ih =>
      obtain ⟨hc, hrest⟩ := List.forall_mem_cons.mp h
      rw [partsFrom, partsFrom, hc, ih hrest, ih hrest]

theorem flush_reverse (hrun : run ≠ []) : flush run.reverse = [run] := by
  rw [flush, List.reverse_reverse, if_neg (by simpa using hrun)]

/-- Where a boundary or the end follows, the word before is complete. -/
theorem partsFrom_ends (hends : ∀ c ∈ text.head?, boundary c = true) :
    partsFrom boundary word text =
      (flush word).map .word ++ partsFrom boundary [] text := by
  cases text with
  | nil => exact (List.append_nil _).symm
  | cons c rest =>
      have hc : boundary c = true := hends c rfl
      rw [partsFrom, partsFrom, if_pos hc, if_pos hc]
      rfl

theorem partsFrom_word (hrun : IsWord boundary run) (hends : ∀ c ∈ text.head?, boundary c = true) :
    partsFrom boundary [] (run ++ text) = .word run :: partsFrom boundary [] text := by
  rw [partsFrom_append hrun.2, List.append_nil, partsFrom_ends hends, flush_reverse hrun.1]
  rfl

/-- The words of either text, where the occurrences are words in it. -/
theorem partsFrom_flatMap (side : Piece → List Char) (hside : ∀ c, side (.kept c) = [c])
    {free : Bool} (hdelimited : Delimited boundary free pieces) (hfree : free = true → word = [])
    (hwords : ∀ original token, replaced original token ∈ pieces →
      IsWord boundary (side (.replaced original token))) :
    partsFrom boundary word (pieces.flatMap side) =
      (itemsFrom boundary word pieces).map (Item.part side) := by
  induction pieces generalizing free word with
  | nil =>
      change (flush word).map _ = ((flush word).map _).map _
      rw [List.map_map]
      rfl
  | cons piece rest ih =>
      have hrest := fun original token hmem => hwords original token (List.mem_cons_of_mem _ hmem)
      cases piece with
      | kept c =>
          rw [List.flatMap_cons, hside, List.singleton_append, partsFrom, itemsFrom]
          cases hc : boundary c with
          | true =>
              rw [if_pos rfl, if_pos rfl, ih hdelimited (fun _ => rfl) hrest, List.map_append,
                List.map_map]
              rfl
          | false =>
              rw [if_neg Bool.false_ne_true, if_neg Bool.false_ne_true]
              exact ih hdelimited (fun h => by simp [hc] at h) hrest
      | replaced original token =>
          obtain ⟨rfl, hends, hdelimited⟩ := hdelimited
          obtain rfl := hfree rfl
          have hhead : ∀ c ∈ (rest.flatMap side).head?, boundary c = true := by
            intro c hc
            cases rest with
            | nil => cases hc
            | cons next rest =>
                cases next with
                | kept d =>
                    rw [List.flatMap_cons, hside] at hc
                    cases hc
                    exact hends
                | replaced => exact hends.elim
          rw [List.flatMap_cons, partsFrom_word (hwords _ _ List.mem_cons_self) hhead,
            ih hdelimited nofun hrest]
          rfl

theorem flatMap_flush {γ : Type} (make : List Char → γ) (text : γ → List Char)
    (h : text (make word.reverse) = word.reverse) :
    ((flush word).map make).flatMap text = word.reverse := by
  rw [flush]
  split
  · rename_i hempty
    rw [List.isEmpty_iff.mp hempty]
    rfl
  · rw [List.map_singleton, List.flatMap_singleton, h]

theorem flatMap_partsFrom :
    (partsFrom boundary word text).flatMap Part.text = word.reverse ++ text := by
  induction text generalizing word with
  | nil => exact (flatMap_flush .word Part.text rfl).trans (List.append_nil _).symm
  | cons c rest ih =>
      rw [partsFrom]
      split
      · rw [List.flatMap_append, flatMap_flush .word Part.text rfl, List.flatMap_cons, ih]
        rfl
      · rw [ih, List.reverse_cons, List.append_assoc]
        rfl

/-- Nothing of either text is lost in the items. -/
theorem flatMap_itemsFrom (side : Piece → List Char) (hside : ∀ c, side (.kept c) = [c]) :
    (itemsFrom boundary word pieces).flatMap (Item.text side) =
      word.reverse ++ pieces.flatMap side := by
  induction pieces generalizing word with
  | nil => exact (flatMap_flush .word (Item.text side) rfl).trans (List.append_nil _).symm
  | cons piece rest ih =>
      cases piece with
      | kept c =>
          rw [itemsFrom, List.flatMap_cons, hside]
          split
          · rw [List.flatMap_append, flatMap_flush .word (Item.text side) rfl, List.flatMap_cons, ih]
            rfl
          · rw [ih, List.reverse_cons, List.append_assoc]
      | replaced original token =>
          rw [itemsFrom, List.flatMap_append, flatMap_flush .word (Item.text side) rfl,
            List.flatMap_cons, ih, List.flatMap_cons]
          rfl

/-- Undoing the scan: the tokens are words, each is mapped to what it stands for, and the words
that were kept are mapped to themselves. -/
theorem mapWords_after (hdelimited : Delimited boundary true pieces)
    (htoken : ∀ original token, replaced original token ∈ pieces → IsWord boundary token)
    (hitems : ∀ item ∈ items boundary pieces,
      ((item.part after).mapWord f).text = item.text before) :
    mapWords boundary f (pieces.flatMap after) = pieces.flatMap before := by
  have hbefore : (items boundary pieces).flatMap (Item.text before) = pieces.flatMap before :=
    flatMap_itemsFrom before fun _ => rfl
  rw [mapWords, partsFrom_flatMap after (fun _ => rfl) hdelimited (fun _ => rfl) htoken, List.map_map,
    List.flatMap_map]
  exact (List.flatMap_congr hitems).trans hbefore

/-- Words mapped to words are the words of the mapped text. -/
theorem partsFrom_mapWords
    (hwords : ∀ w, .word w ∈ partsFrom boundary word text → IsWord boundary (f w)) :
    partsFrom boundary []
        (((partsFrom boundary word text).map (Part.mapWord f)).flatMap Part.text) =
      (partsFrom boundary word text).map (Part.mapWord f) := by
  -- What the word read so far becomes, before a boundary or the end.
  have hflush : ∀ (word t : List Char), (∀ w ∈ flush word, IsWord boundary (f w)) →
      (∀ c ∈ t.head?, boundary c = true) →
        partsFrom boundary []
            ((((flush word).map Part.word).map (Part.mapWord f)).flatMap Part.text ++ t) =
          ((flush word).map Part.word).map (Part.mapWord f) ++ partsFrom boundary [] t := by
    intro word t hword ht
    rw [flush] at hword ⊢
    split
    · rfl
    · rename_i hne
      rw [if_neg hne] at hword
      simp only [List.map_singleton, List.flatMap_singleton]
      exact partsFrom_word (hword _ (List.mem_singleton.mpr rfl)) ht
  induction text generalizing word with
  | nil =>
      have hlast := hflush word [] (fun w hw => hwords w (List.mem_map_of_mem hw)) nofun
      rw [List.append_nil] at hlast
      exact hlast.trans (List.append_nil _)
  | cons c rest ih =>
      rw [partsFrom] at hwords ⊢
      cases hc : boundary c with
      | true =>
          rw [if_pos hc] at hwords
          rw [if_pos rfl, List.map_append, List.flatMap_append]
          have hrest : ∀ w, .word w ∈ partsFrom boundary [] rest → IsWord boundary (f w) :=
            fun w hw => hwords w (List.mem_append_right _ (List.mem_cons_of_mem _ hw))
          have htail := ih hrest
          rw [hflush word _ (fun w hw => hwords w (List.mem_append_left _ (List.mem_map_of_mem hw)))
            fun d hd => by cases hd; exact hc]
          change _ ++ partsFrom boundary []
            (c :: ((partsFrom boundary [] rest).map (Part.mapWord f)).flatMap Part.text) = _
          rw [partsFrom, if_pos hc, htail]
          rfl
      | false =>
          rw [if_neg (by simp [hc])] at hwords
          rw [if_neg Bool.false_ne_true]
          exact ih hwords

/-- A text whose mapped words give the scanned text back: each word is mapped to what stood there,
if all these are words. -/
theorem part_of_mapWords_after (hdelimited : Delimited boundary true pieces)
    (htoken : ∀ original token, replaced original token ∈ pieces → IsWord boundary token)
    (horiginal : ∀ original token, replaced original token ∈ pieces → IsWord boundary original)
    (hf : ∀ w, .word w ∈ partsFrom boundary [] (pieces.flatMap after) → IsWord boundary (f w))
    (hback : mapWords boundary f (pieces.flatMap after) = pieces.flatMap before) :
    ∀ item ∈ items boundary pieces, (item.part after).mapWord f = item.part before := by
  have hafter := partsFrom_flatMap after (fun _ => rfl) hdelimited (fun _ => rfl) htoken
  have hbefore := partsFrom_flatMap before (fun _ => rfl) hdelimited (fun _ => rfl)
    horiginal
  have hparts := partsFrom_mapWords hf
  rw [mapWords] at hback
  rw [hback, hbefore, hafter, List.map_map] at hparts
  exact fun item hitem => (List.map_inj_left.mp hparts item hitem).symm

theorem countP_of_isWord (h : IsWord boundary run) : run.countP boundary = 0 :=
  List.countP_eq_zero.mpr fun c hc => by simp [h.2 c hc]

/-- Tokens have no boundaries. -/
theorem countP_after_le (htoken : ∀ original token, replaced original token ∈ pieces →
      IsWord boundary token) :
    (pieces.flatMap after).countP boundary ≤ (pieces.flatMap before).countP boundary := by
  induction pieces with
  | nil => exact Nat.le_refl _
  | cons piece rest ih =>
      have hle : piece.after.countP boundary ≤ piece.before.countP boundary := by
        cases piece with
        | kept => exact Nat.le_refl _
        | replaced original token =>
            rw [after, countP_of_isWord (htoken original token List.mem_cons_self)]
            exact Nat.zero_le _
      have hrest := ih fun original token hmem => htoken original token (List.mem_cons_of_mem _ hmem)
      rw [List.flatMap_cons, List.flatMap_cons, List.countP_append, List.countP_append]
      exact Nat.add_le_add hle hrest

theorem swap_mem_itemsFrom {original token : List Char} (h : replaced original token ∈ pieces) :
    .swap original token ∈ itemsFrom boundary word pieces := by
  induction pieces generalizing word with
  | nil => cases h
  | cons piece rest ih =>
      cases piece with
      | kept c =>
          have hrest := (List.mem_cons.mp h).resolve_left nofun
          rw [itemsFrom]
          split
          · exact List.mem_append_right _ (List.mem_cons_of_mem _ (ih hrest))
          · exact ih hrest
      | replaced original' token' =>
          rw [itemsFrom]
          refine List.mem_append_right _ ?_
          obtain heq | hrest := List.mem_cons.mp h
          · cases heq
            exact List.mem_cons_self
          · exact List.mem_cons_of_mem _ (ih hrest)

theorem replaced_mem_of_swap {original token : List Char}
    (h : .swap original token ∈ itemsFrom boundary word pieces) :
    replaced original token ∈ pieces := by
  have hflush : ∀ word : List Char,
      .swap original token ∉ (flush word).map Item.word := fun word hmem => by
    obtain ⟨w, -, heq⟩ := List.mem_map.mp hmem
    cases heq
  induction pieces generalizing word with
  | nil => exact absurd h (hflush word)
  | cons piece rest ih =>
      cases piece with
      | kept c =>
          rw [itemsFrom] at h
          refine List.mem_cons_of_mem _ ?_
          split at h
          · have htail := (List.mem_append.mp h).resolve_left (hflush word)
            exact ih ((List.mem_cons.mp htail).resolve_left nofun)
          · exact ih h
      | replaced original' token' =>
          rw [itemsFrom] at h
          obtain heq | hrest := List.mem_cons.mp ((List.mem_append.mp h).resolve_left (hflush word))
          · cases heq
            exact List.mem_cons_self
          · exact List.mem_cons_of_mem _ (ih hrest)

theorem isWord_of_mem_partsFrom {w : List Char} (hword : ∀ c ∈ word, boundary c = false)
    (h : .word w ∈ partsFrom boundary word text) : IsWord boundary w := by
  have hflush : ∀ word : List Char, (∀ c ∈ word, boundary c = false) →
      .word w ∈ (flush word).map Part.word → IsWord boundary w := by
    intro word hword hmem
    rw [flush] at hmem
    split at hmem
    · cases hmem
    · rename_i hne
      cases List.mem_singleton.mp hmem
      exact ⟨by simpa using hne, fun c hc => hword c (List.mem_reverse.mp hc)⟩
  induction text generalizing word with
  | nil => exact hflush word hword h
  | cons c rest ih =>
      rw [partsFrom] at h
      split at h
      · obtain hdone | htail := List.mem_append.mp h
        · exact hflush word hword hdone
        · exact ih (by simp) ((List.mem_cons.mp htail).resolve_left nofun)
      · rename_i hc
        exact ih (List.forall_mem_cons.mpr ⟨by simpa using hc, hword⟩) h

/-- A scan that leaves the text as it was replaced nothing but words by themselves. -/
theorem token_eq_of_after_eq (hdelimited : Delimited boundary true pieces)
    (htoken : ∀ original token, replaced original token ∈ pieces → IsWord boundary token)
    (hne : ∀ original token, replaced original token ∈ pieces → original ≠ [])
    (hsame : pieces.flatMap after = pieces.flatMap before) {original token : List Char}
    (hmem : replaced original token ∈ pieces) : token = original := by
  have horiginal : ∀ original token, replaced original token ∈ pieces →
      IsWord boundary original := by
    intro original token hmem
    refine ⟨hne original token hmem, fun c hc => ?_⟩
    obtain ⟨pre, post, rfl⟩ := List.append_of_mem hmem
    have hpre : _ ≤ (pre.flatMap before).countP boundary := countP_after_le fun o t h =>
      htoken o t (List.mem_append_left _ h)
    have hpost : _ ≤ (post.flatMap before).countP boundary := countP_after_le fun o t h =>
      htoken o t (List.mem_append_right _ (List.mem_cons_of_mem _ h))
    have hcount := congrArg (List.countP boundary) hsame
    simp only [List.flatMap_append, List.flatMap_cons, List.countP_append, after, before,
      countP_of_isWord (htoken original token hmem)] at hcount
    have hzero : original.countP boundary = 0 := by omega
    simpa using List.countP_eq_zero.mp hzero c hc
  have hparts := partsFrom_flatMap after (fun _ => rfl) hdelimited (fun _ => rfl) htoken
  rw [hsame, partsFrom_flatMap before (fun _ => rfl) hdelimited (fun _ => rfl)
    horiginal] at hparts
  have hitem := List.map_inj_left.mp hparts _ (swap_mem_itemsFrom hmem)
  exact (Part.word.inj hitem).symm

end Words

end CleanCtx
