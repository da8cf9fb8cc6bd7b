import CleanCtx.Library.Text

/-!
The framing of requests (`read_request_line` and `drain_line` of `mcp/server.rs`)
over a stream of text. A line is what is read up to a line feed, with the line feed;
the cap is on the bytes that are read. At the end of the stream the buffer of the
last read has been cleared, so that a last line without a line feed is answered as
an empty one.
-/
namespace CleanCtx
namespace Mcp

def maxLineBytes : Nat := 16 * 1024 * 1024

inductive OversizeRequest
  | oversizeRequest
  deriving DecidableEq

/-- `while buffer.ends_with('\n')`, on the reversed buffer. -/
def popNewlines : List Char → List Char
  | '\n' :: '\r' :: rest => popNewlines rest
  | '\n' :: rest => popNewlines rest
  | buffer => buffer

def trimNewlines (buffer : List Char) : List Char := (popNewlines buffer.reverse).reverse

/-- The stream after the rest of an oversize line. -/
def drainLine (handle : List Char) : List Char :=
  if (readLine handle).1 = [] ∨ (readLine handle).1.getLast? = some '\n' then (readLine handle).2
  else drainLine (readLine handle).2
termination_by handle.length
decreasing_by exact length_readLine_lt (not_or.mp ‹_›).1

/-- The loop, with the bytes counted so far. The buffer holds only what the last read brought. -/
def readRequestLoop (total : Nat) (handle : List Char) :
    Option (Except OversizeRequest (List Char)) × List Char :=
  let buffer := (readLine handle).1
  let rest := (readLine handle).2
  if buffer = [] then
    if buffer = [] ∧ total = 0 then (none, rest) else (some (.ok buffer), rest)
  else if maxLineBytes < total + byteLen buffer then
    (some (.error .oversizeRequest),
      if buffer.getLast? = some '\n' then rest else drainLine rest)
  else if buffer.getLast? = some '\n' then (some (.ok (trimNewlines buffer)), rest)
  else readRequestLoop (total + byteLen buffer) rest
termination_by handle.length
decreasing_by exact length_readLine_lt ‹_›

def readRequestLine (handle : List Char) :
    Option (Except OversizeRequest (List Char)) × List Char :=
  readRequestLoop 0 handle

def answer : Nat → List Char → Option (Except OversizeRequest (List Char))
  | 0, handle => (readRequestLine handle).1
  | k + 1, handle => answer k (readRequestLine handle).2

/-- Each line once and in order, without its terminator if a measure of it is within the cap. -/
def framed (size : List Char → Nat) (stream : List Char) :
    List (Except OversizeRequest (List Char)) :=
  (splitInclusive stream).map fun line =>
    if size line ≤ maxLineBytes then .ok (lineContent line) else .error .oversizeRequest

def Ended (stream : List Char) : Prop :=
  ∀ line ∈ splitInclusive stream, byteLen line ≤ maxLineBytes → line.getLast? = some '\n'

/-- No line is within the cap only without its terminator. -/
def TerminatorsFit (stream : List Char) : Prop :=
  ∀ line ∈ splitInclusive stream, byteLen (lineContent line) ≤ maxLineBytes →
    byteLen line ≤ maxLineBytes

/-- What is answered for a line. -/
def frame (line : List Char) : Except OversizeRequest (List Char) :=
  if maxLineBytes < byteLen line then .error .oversizeRequest
  else if line.getLast? = some '\n' then .ok (lineContent line)
  else .ok []

theorem trimNewlines_ended {l : List Char} (h : '\n' ∉ l) :
    trimNewlines (l ++ ['\n']) = dropReturn l := by
  rw [← List.mem_reverse] at h
  rw [trimNewlines, dropReturn, List.reverse_append, List.getLast?_eq_head?_reverse,
    ← List.reverse_reverse l, List.dropLast_reverse, List.reverse_reverse]
  generalize l.reverse = r at h
  have hkept : ∀ r : List Char, '\n' ∉ r → popNewlines r = r := by
    intro r hr
    unfold popNewlines
    split
    · exact absurd List.mem_cons_self hr
    · exact absurd List.mem_cons_self hr
    · rfl
  rcases r with _ | ⟨c, r⟩
  · rfl
  · have hr := (not_or.mp (mt List.mem_cons.mpr h)).2
    by_cases hc : c = '\r'
    · subst hc
      rw [if_pos List.head?_cons]
      exact congrArg List.reverse (hkept r hr)
    · rw [if_neg (by simpa using hc)]
      have hstep : popNewlines ('\n' :: c :: r) = popNewlines (c :: r) :=
        popNewlines.eq_2 _ fun _ heq => hc (List.cons.inj heq).1
      exact congrArg List.reverse (hstep.trans (hkept _ h))

theorem drainLine_nil : drainLine [] = [] := by
  rw [drainLine, if_pos (.inl rfl)]
  rfl

theorem readRequestLine_eq {handle : List Char} (h : handle ≠ []) :
    readRequestLine handle = (some (frame (readLine handle).1), (readLine handle).2) := by
  have hne : (readLine handle).1 ≠ [] := mt readLine_eq_nil.mp h
  rw [readRequestLine, readRequestLoop, frame, Nat.zero_add, if_neg hne]
  obtain ⟨-, ⟨l, hl, hline⟩ | ⟨hs, hline⟩⟩ := readLine_cases handle
  · have hend : (readLine handle).1.getLast? = some '\n' := by
      rw [hline]
      exact List.getLast?_concat ..
    rw [if_pos hend, if_pos hend, if_pos hend, hline, trimNewlines_ended hl, lineContent_ended]
    split <;> rfl
  · have hend : ¬ handle.getLast? = some '\n' := fun hlast => hs (List.mem_of_getLast? hlast)
    rw [hline]
    dsimp only
    rw [if_neg hend, if_neg hend, if_neg hend, drainLine_nil]
    have hpos : byteLen handle ≠ 0 := mt byteLen_eq_zero.mp h
    have hlast : readRequestLoop (byteLen handle) [] = (some (.ok []), []) := by
      have hnil : (readLine []).1 = [] := rfl
      rw [readRequestLoop, if_pos hnil, if_neg fun hand => hpos hand.2]
      rfl
    split
    · rfl
    · exact hlast

theorem readRequestLine_nil : readRequestLine [] = (none, []) := by
  rw [readRequestLine, readRequestLoop]
  rfl

/-- The calls answer for the lines in order, and then for nothing any more. -/
theorem answer_eq (k : Nat) (stream : List Char) :
    answer k stream = ((splitInclusive stream).map frame)[k]? := by
  induction k generalizing stream with
  | zero =>
      by_cases h : stream = []
      · rw [h, answer, readRequestLine_nil]
        rfl
      · rw [answer, readRequestLine_eq h, splitInclusive_eq h]
        rfl
  | succ k ih =>
      by_cases h : stream = []
      · rw [h, answer, readRequestLine_nil, ih]
        rfl
      · rw [answer, readRequestLine_eq h, ih, splitInclusive_eq h]
        rfl

theorem answers_iff {stream : List Char}
    {expected : List Char → Except OversizeRequest (List Char)} :
    (∀ k, answer k stream = ((splitInclusive stream).map expected)[k]?) ↔
      ∀ line ∈ splitInclusive stream, frame line = expected line := by
  rw [← List.map_inj_left]
  constructor
  · intro h
    exact List.ext_getElem? fun k => (answer_eq k stream).symm.trans (h k)
  · intro h k
    rw [answer_eq, h]

theorem ne_nil_of_mem_splitInclusive {line stream : List Char}
    (h : line ∈ splitInclusive stream) : line ≠ [] := by
  have hfrom : ∀ n, ∀ stream : List Char, stream.length ≤ n → [] ∉ splitInclusive stream := by
    intro n
    induction n with
    | zero =>
        intro stream hstream hmem
        rw [List.eq_nil_of_length_eq_zero (Nat.le_zero.mp hstream)] at hmem
        cases hmem
    | succ n ih =>
        intro stream hstream hmem
        by_cases hnil : stream = []
        · rw [hnil] at hmem
          cases hmem
        · have hne : (readLine stream).1 ≠ [] := mt readLine_eq_nil.mp hnil
          have hlt := length_readLine_lt hne
          rw [splitInclusive_eq hnil] at hmem
          rcases List.mem_cons.mp hmem with heq | hmem
          · exact hne heq.symm
          · exact ih _ (by omega) hmem
  rintro rfl
  exact hfrom stream.length stream le_rfl h

theorem byteLen_lineContent_le (line : List Char) : byteLen (lineContent line) ≤ byteLen line := by
  have hdrop : ∀ l : List Char, byteLen l.dropLast ≤ byteLen l := by
    intro l
    rcases List.eq_nil_or_concat l with rfl | ⟨l, c, rfl⟩
    · exact le_rfl
    · rw [List.concat_eq_append, List.dropLast_concat, byteLen_append]
      exact Nat.le_add_right ..
  unfold lineContent dropReturn
  split
  · split
    · exact (hdrop _).trans (hdrop _)
    · exact hdrop _
  · exact le_rfl

/-- A line is answered for as expected if it is over the cap, or if it is read within the cap and
ends in a line feed. -/
theorem frame_eq_iff {size : List Char → Nat} {line : List Char} (hne : line ≠ [])
    (hsize : size line ≤ byteLen line) :
    (frame line = if size line ≤ maxLineBytes then .ok (lineContent line)
      else .error .oversizeRequest) ↔
      (size line ≤ maxLineBytes → byteLen line ≤ maxLineBytes ∧ line.getLast? = some '\n') := by
  rw [frame]
  by_cases hlt : maxLineBytes < byteLen line
  · rw [if_pos hlt]
    by_cases hle : size line ≤ maxLineBytes
    · rw [if_pos hle]
      exact iff_of_false nofun fun h => absurd (h hle).1 (not_le.mpr hlt)
    · rw [if_neg hle]
      exact iff_of_true rfl fun h => absurd h hle
  · have hle := not_lt.mp hlt
    rw [if_neg hlt, if_pos (hsize.trans hle)]
    by_cases hend : line.getLast? = some '\n'
    · rw [if_pos hend]
      exact iff_of_true rfl fun _ => ⟨hle, hend⟩
    · rw [if_neg hend, lineContent, if_neg hend]
      refine iff_of_false (fun h => hne ?_) fun h => hend (h (hsize.trans hle)).2
      exact (Except.ok.inj h).symm

/-- The calls frame the lines by a measure exactly if the lines that it admits are read within the
cap and end in a line feed. -/
theorem framed_iff_of_le {size : List Char → Nat} (hsize : ∀ line, size line ≤ byteLen line)
    (stream : List Char) : (∀ k, answer k stream = (framed size stream)[k]?) ↔
      ∀ line ∈ splitInclusive stream, size line ≤ maxLineBytes →
        byteLen line ≤ maxLineBytes ∧ line.getLast? = some '\n' :=
  answers_iff.trans (forall₂_congr fun line hline =>
    frame_eq_iff (ne_nil_of_mem_splitInclusive hline) (hsize line))

/-- Requests are framed exactly if the lines within the cap end in a line feed, where the cap is on
what is received; where it is on the lines without their terminators, these have to fit too. -/
theorem framed_iff (stream : List Char) :
    ((∀ k, answer k stream = (framed byteLen stream)[k]?) ↔ Ended stream) ∧
      ((∀ k, answer k stream = (framed (byteLen ∘ lineContent) stream)[k]?) ↔
        Ended stream ∧ TerminatorsFit stream) := by
  constructor
  · rw [framed_iff_of_le fun _ => le_rfl]
    exact forall₂_congr fun line _ => imp_congr_right fun hle => and_iff_right hle
  · have hsize : ∀ line, (byteLen ∘ lineContent) line ≤ byteLen line := byteLen_lineContent_le
    rw [framed_iff_of_le hsize]
    constructor
    · intro h
      refine ⟨fun line hline hle => ?_, fun line hline hle => (h line hline hle).1⟩
      exact (h line hline ((byteLen_lineContent_le line).trans hle)).2
    · rintro ⟨hended, hfit⟩ line hline hle
      exact ⟨hfit line hline hle, hended line hline (hfit line hline hle)⟩

/-- A last line without a line feed is answered as an empty one. -/
theorem not_framed_unterminated :
    answer 0 ['p', 'i', 'n', 'g'] = some (.ok []) ∧
      ¬ (∀ k, answer k ['p', 'i', 'n', 'g'] = (framed byteLen ['p', 'i', 'n', 'g'])[k]?) ∧
      ¬ (∀ k, answer k ['p', 'i', 'n', 'g'] =
        (framed (byteLen ∘ lineContent) ['p', 'i', 'n', 'g'])[k]?) := by
  have hfirst : answer 0 ['p', 'i', 'n', 'g'] = some (.ok []) := by
    rw [answer_eq]
    decide +kernel
  refine ⟨hfirst, fun h => ?_, fun h => ?_⟩
  · have hzero := hfirst.symm.trans (h 0)
    revert hzero
    decide +kernel
  · have hzero := hfirst.symm.trans (h 0)
    revert hzero
    decide +kernel

end Mcp
end CleanCtx
