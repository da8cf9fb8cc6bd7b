import CleanCtx.Compaction.ClassHeaders

/-!
The end of a header. Peeling parameter lists off a remainder leaves it, or a
prefix in front of a parenthesis that stands behind a name; what is read as the
name is what is attached to the start, without the colons at its end.
-/
namespace CleanCtx
namespace Compaction

/-- The character in front of a parameter list. -/
def isAnchor (c : Char) : Bool := c = '>' || isNameByte c

def EndsAnchored (s : List Char) : Prop := ∃ c, s.getLast? = some c ∧ isAnchor c = true

theorem isAnchor_cases {c : Char} (h : isAnchor c = true) :
    c = '>' ∨ c.isAlphanum = true ∨ c = '_' := by
  simpa [isAnchor, isNameByte] using h

theorem toNat_of_isAnchor {c : Char} (h : isAnchor c = true) :
    0x30 ≤ c.toNat ∧ c.toNat ≤ 0x7A ∧ c.toNat ≠ 0x3A ∧ c.toNat ≠ 0x3B ∧ c.toNat ≠ 0x5D := by
  obtain rfl | halnum | rfl := isAnchor_cases h
  · decide
  · have hrange := toNat_of_isAlphanum halnum
    omega
  · decide

theorem isWhiteSpace_of_isAnchor {c : Char} (h : isAnchor c = true) : isWhiteSpace c = false := by
  obtain ⟨hlow, hhigh, -⟩ := toNat_of_isAnchor h
  rw [← Bool.not_eq_true]
  intro hwhite
  simp only [isWhiteSpace, Bool.or_eq_true, Bool.and_eq_true, decide_eq_true_eq,
    List.contains_iff_mem, List.mem_cons, List.not_mem_nil, or_false] at hwhite
  omega

theorem isStructural_of_isAnchor {c : Char} (h : isAnchor c = true) : isStructural c = false := by
  obtain ⟨-, hhigh, hcolon, -⟩ := toNat_of_isAnchor h
  rw [← Bool.not_eq_true]
  intro hstructural
  simp only [isStructural, Bool.or_eq_true, decide_eq_true_eq] at hstructural
  obtain (rfl | rfl) | rfl := hstructural
  · exact absurd hhigh (by decide)
  · exact absurd hhigh (by decide)
  · exact hcolon rfl

theorem isWhiteSpace_of_ascii {c : Char} (h : isAsciiWhiteSpace c = true) :
    isWhiteSpace c = true := by
  simp only [isAsciiWhiteSpace, Bool.or_eq_true, decide_eq_true_eq] at h
  obtain (((rfl | rfl) | rfl) | hfeed) | rfl := h
  · decide
  · decide
  · decide
  · simp [isWhiteSpace, hfeed]
  · decide

/-- What stands in front of a parameter list is trimmed to its anchor. -/
theorem trim_take_of_anchored {s : List Char} {opening : Nat} (hstart : StartsSolid s)
    (h : isNameAnchored (s.take opening).reverse = true) :
    ∃ gap, Blank gap ∧ s.take opening = trim (s.take opening) ++ gap ∧
      EndsAnchored (trim (s.take opening)) := by
  obtain ⟨c, rest, hdrop, hanchor⟩ := isNameAnchored_cases h
  have hanchor : isAnchor c = true := by
    obtain rfl | hname := hanchor
    · decide
    · simp [isAnchor, hname]
  have hsplit := (List.takeWhile_append_dropWhile (p := isAsciiWhiteSpace)
    (l := (s.take opening).reverse)).symm
  rw [hdrop] at hsplit
  have hblank : Blank ((s.take opening).reverse.takeWhile isAsciiWhiteSpace) := fun d hd =>
    isWhiteSpace_of_ascii (List.mem_takeWhile_imp hd)
  generalize (s.take opening).reverse.takeWhile isAsciiWhiteSpace = gap at hsplit hblank
  have hwhole : s.take opening = (rest.reverse ++ [c]) ++ gap.reverse := by
    rw [← List.reverse_reverse (s.take opening), hsplit]
    simp
  have hbody : trim (rest.reverse ++ [c]) = rest.reverse ++ [c] := by
    apply trim_of_solid
    · intro d hd
      apply hstart d
      have hprefix : rest.reverse ++ [c] <+: s :=
        (hwhole ▸ List.prefix_append (rest.reverse ++ [c]) gap.reverse).trans (List.take_prefix _ _)
      obtain ⟨more, rfl⟩ := hprefix
      rw [List.head?_append, hd, Option.some_or]
    · intro d hd
      rw [List.getLast?_concat] at hd
      cases hd
      exact isWhiteSpace_of_isAnchor hanchor
  have htrim : trim (s.take opening) = rest.reverse ++ [c] := by
    rw [hwhole, trim_append_blank _ (blank_reverse.mpr hblank), hbody]
  refine ⟨gap.reverse, blank_reverse.mpr hblank, ?_, c, ?_, hanchor⟩
  · rw [htrim]
    exact hwhole
  · rw [htrim, List.getLast?_concat]

/-- One turn of the peeling loop: it is over, or a group that closes the text is peeled off. -/
theorem stripParamListFrom_cases (fuel : Nat) (s : List Char) :
    stripParamListFrom fuel s = s ∨ ∃ fuel' opening close, fuel = fuel' + 1 ∧
      findMethodParams s = some (opening, close) ∧ closesOut (s.drop (close + 1)) = true ∧
        stripParamListFrom fuel s = stripParamListFrom fuel' (trim (s.take opening)) := by
  cases fuel with
  | zero => exact .inl rfl
  | succ fuel =>
      rw [stripParamListFrom]
      cases hfind : findMethodParams s with
      | none => exact .inl rfl
      | some group =>
          obtain ⟨opening, close⟩ := group
          cases hcloses : closesOut (s.drop (close + 1)) with
          | false => exact .inl (by simp [hcloses])
          | true => exact .inr ⟨fuel, opening, close, rfl, rfl, hcloses, by simp [hcloses]⟩

/-- What a group leaves: a prefix that ends in an anchor, white space, and the parenthesis. -/
theorem peeled_spec {s : List Char} {opening close : Nat} (hstart : StartsSolid s)
    (hfind : findMethodParams s = some (opening, close)) :
    ∃ gap, Blank gap ∧ trim (s.take opening) ++ (gap ++ ['(']) <+: s ∧
      EndsAnchored (trim (s.take opening)) ∧ StartsSolid (trim (s.take opening)) := by
  obtain ⟨hparen, hanchored, -⟩ := findMethodParams_spec hfind
  obtain ⟨gap, hgap, htake, hends⟩ := trim_take_of_anchored hstart hanchored
  refine ⟨gap, hgap, ?_, hends, startsSolid_trim _⟩
  obtain ⟨hlt, hget⟩ := List.getElem?_eq_some_iff.mp hparen
  have hnext : s.take (opening + 1) = s.take opening ++ ['('] := by
    rw [List.take_succ_eq_append_getElem hlt, hget]
  rw [← List.append_assoc, ← htake, ← hnext]
  exact List.take_prefix _ _

/-- No tail closes out a header that ends in an anchor. -/
theorem not_closesOut_of_anchor {tail : List Char} (h : EndsAnchored tail) :
    closesOut tail = false := by
  obtain ⟨c, hlast, hanchor⟩ := h
  rw [← Bool.not_eq_true]
  intro hcloses
  obtain ⟨before, after, hbefore, hafter, heq⟩ := exists_blank_trim tail
  have hsolid := isWhiteSpace_of_isAnchor hanchor
  have hblank : ∀ s : List Char, Blank s → s.getLast? ≠ some c := by
    intro s hs hc
    rw [hs c (List.mem_of_getLast? hc)] at hsolid
    cases hsolid
  simp only [closesOut, Bool.or_eq_true, decide_eq_true_eq] at hcloses
  obtain hnil | hsemicolon := hcloses
  · rw [hnil, List.nil_append] at heq
    exact hblank tail (heq ▸ blank_append.mpr ⟨hbefore, hafter⟩) hlast
  · rw [hsemicolon] at heq
    rw [heq, List.getLast?_append, List.getLast?_append] at hlast
    cases hafter' : after.getLast? with
    | none =>
        rw [hafter'] at hlast
        cases hlast
        exact absurd hanchor (by decide)
    | some d =>
        rw [hafter'] at hlast
        cases hlast
        exact hblank after hafter hafter'

theorem endsAnchored_drop {s : List Char} {close : Nat} (h : EndsAnchored s)
    (hclose : s[close]? = some ')' ∨ s[close]? = some ']') : EndsAnchored (s.drop (close + 1)) := by
  obtain ⟨c, hlast, hanchor⟩ := h
  refine ⟨c, ?_, hanchor⟩
  obtain ⟨d, hd, hd'⟩ : ∃ d, s[close]? = some d ∧ (d = ')' ∨ d = ']') := by
    obtain h | h := hclose
    · exact ⟨_, h, .inl rfl⟩
    · exact ⟨_, h, .inr rfl⟩
  obtain ⟨hlt, hget⟩ := List.getElem?_eq_some_iff.mp hd
  rw [List.getLast?_drop, if_neg, hlast]
  intro hend
  have heq : close = s.length - 1 := by omega
  rw [List.getLast?_eq_getElem?, ← heq, hd] at hlast
  cases hlast
  obtain rfl | rfl := hd'
  · exact absurd hanchor (by decide)
  · exact absurd hanchor (by decide)

theorem stripParamListFrom_of_anchored {s : List Char} (h : EndsAnchored s) (fuel : Nat) :
    stripParamListFrom fuel s = s := by
  obtain hsame | ⟨fuel', opening, close, -, hfind, hcloses, -⟩ := stripParamListFrom_cases fuel s
  · exact hsame
  · obtain ⟨-, -, -, hclose⟩ := findMethodParams_spec hfind
    rw [not_closesOut_of_anchor (endsAnchored_drop h hclose)] at hcloses
    cases hcloses

/-- Peeling leaves the text, or what stands in front of its first parameter list. -/
theorem stripParamListFrom_once {s : List Char} (hstart : StartsSolid s) (fuel : Nat) :
    stripParamListFrom fuel s = s ∨ ∃ opening close,
      findMethodParams s = some (opening, close) ∧ closesOut (s.drop (close + 1)) = true ∧
        stripParamListFrom fuel s = trim (s.take opening) := by
  obtain hsame | ⟨fuel', opening, close, -, hfind, hcloses, hpeel⟩ :=
    stripParamListFrom_cases fuel s
  · exact .inl hsame
  · obtain ⟨-, -, -, hends, -⟩ := peeled_spec hstart hfind
    rw [stripParamListFrom_of_anchored hends] at hpeel
    exact .inr ⟨opening, close, hfind, hcloses, hpeel⟩

section Names

variable {name : List Char}

theorem isPlain_iff {c : Char} : isPlain c = true ↔ isWhiteSpace c = false ∧ c ≠ '<' ∧ c ≠ '{' ∧
    c ≠ '}' ∧ c ≠ ':' ∧ c ≠ '(' ∧ c ≠ ')' ∧ c ≠ '[' ∧ c ≠ ']' ∧ c ≠ '"' ∧ c ≠ '\'' := by
  simp [isPlain]

theorem le_of_paren {tail : List Char} {opening : Nat} (hname : IsIdentifier name)
    (h : (name ++ tail)[opening]? = some '(') : name.length ≤ opening := by
  by_contra hlt
  rw [List.getElem?_append_left (by omega)] at h
  have hplain := isPlain_iff.mp (hname.2 _ (List.mem_of_getElem? h))
  exact hplain.2.2.2.2.2.1 rfl

theorem startsSolid_name (hname : IsIdentifier name) (tail : List Char) :
    StartsSolid (name ++ tail) := by
  intro c hc
  cases name with
  | nil => exact absurd rfl hname.1
  | cons d name =>
      cases hc
      exact (isPlain_iff.mp (hname.2 _ List.mem_cons_self)).1

theorem endsSolid_name (hname : IsIdentifier name) : EndsSolid name :=
  fun c hc => (isPlain_iff.mp (hname.2 c (List.mem_of_getLast? hc))).1

/-- A name in front of a parenthesis is what is left if the group behind it is the first parameter
list and closes the text. -/
theorem stripParamListFrom_eq_name_iff (hname : IsIdentifier name) (fuel : Nat) (x : List Char) :
    stripParamListFrom (fuel + 1) (name ++ '(' :: x) = name ↔
      ∃ close, findMethodParams (name ++ '(' :: x) = some (name.length, close) ∧
        closesOut ((name ++ '(' :: x).drop (close + 1)) = true := by
  have hstart := startsSolid_name hname ('(' :: x)
  have htrim : trim ((name ++ '(' :: x).take name.length) = name := by
    rw [List.take_left]
    have hsolid := startsSolid_name hname []
    rw [List.append_nil] at hsolid
    exact trim_of_solid hsolid (endsSolid_name hname)
  constructor
  · intro hpeel
    obtain hsame | ⟨opening, close, hfind, hcloses, hleft⟩ :=
      stripParamListFrom_once hstart (fuel + 1)
    · have hlength := congrArg List.length (hsame.symm.trans hpeel)
      rw [List.length_append, List.length_cons] at hlength
      omega
    · obtain ⟨hparen, hanchored, -⟩ := findMethodParams_spec hfind
      obtain ⟨gap, hgap, htake, -⟩ := trim_take_of_anchored hstart hanchored
      have hle := le_of_paren hname hparen
      rw [← hleft, hpeel] at htake
      have hopening : opening = name.length := by
        by_contra hne
        obtain ⟨k, rfl⟩ : ∃ k, opening = name.length + (k + 1) :=
          ⟨opening - name.length - 1, by omega⟩
        rw [List.take_length_add_append, List.take_succ_cons] at htake
        have hbehind := List.append_cancel_left htake
        exact absurd (hgap '(' (hbehind ▸ List.mem_cons_self)) (by decide)
      rw [hopening] at hfind
      exact ⟨close, hfind, hcloses⟩
  · rintro ⟨close, hfind, hcloses⟩
    rw [stripParamListFrom, hfind]
    simp only [hcloses, if_true, htrim]
    have hsolid := startsSolid_name hname []
    rw [List.append_nil] at hsolid
    obtain hsame | ⟨opening, close', hfind', -⟩ := stripParamListFrom_once hsolid fuel
    · exact hsame
    · have hparen := (findMethodParams_spec hfind').1
      have hplain := isPlain_iff.mp (hname.2 _ (List.mem_of_getElem? hparen))
      exact absurd rfl hplain.2.2.2.2.2.1

theorem attached_name (hname : IsIdentifier name) (tail : List Char) :
    attached (name ++ tail) = name ++ attached tail := by
  unfold attached
  apply List.takeWhile_append_of_pos
  intro c hc
  obtain ⟨hwhite, hangle, -⟩ := isPlain_iff.mp (hname.2 c hc)
  simp [hwhite, hangle]

theorem rdropWhile_name_iff (hname : IsIdentifier name) (a : List Char) :
    (name ++ a).rdropWhile isStructural = name ↔ ∀ c ∈ a, isStructural c = true := by
  constructor
  · intro hdrop c hc
    have hsplit := List.rdropWhile_append_rtakeWhile (p := isStructural) (l := name ++ a)
    rw [hdrop] at hsplit
    rw [← List.append_cancel_left hsplit] at hc
    exact List.mem_rtakeWhile_imp hc
  · intro hall
    rw [List.rdropWhile, List.reverse_append,
      List.dropWhile_append_of_pos fun c hc => hall c (List.mem_reverse.mp hc)]
    have hself : name.rdropWhile isStructural = name := by
      apply List.rdropWhile_eq_self_iff.mpr
      intro hne hstructural
      obtain ⟨-, -, hopen, hclose, hcolon, -⟩ := isPlain_iff.mp (hname.2 _ (List.getLast_mem hne))
      simp [isStructural, hopen, hclose, hcolon] at hstructural
    exact hself

theorem bareName_eq {s : List Char} (hstart : StartsSolid s) (hend : EndsSolid s) :
    bareName s = (attached (stripParamListFrom s.length s)).rdropWhile isStructural := by
  have hpeeled : StartsSolid (stripParamListFrom s.length s) := by
    obtain hsame | ⟨_, _, -, -, hleft⟩ := stripParamListFrom_once hstart s.length
    · rwa [hsame]
    · rw [hleft]
      exact startsSolid_trim _
  unfold bareName stripTrailingParamList
  rw [trim_of_solid hstart hend]
  simp only [headD_words hpeeled, List.takeWhile_takeWhile]
  congr 1
  unfold attached
  congr 1
  funext c
  simp [Bool.and_comm]

/-- The tail behind what is attached to a name is empty or starts with white space or type
parameters. -/
theorem attached_split (tail : List Char) : ∃ z, tail = attached tail ++ z ∧
    ∀ c, z.head? = some c → isWhiteSpace c = true ∨ c = '<' := by
  refine ⟨_, (List.takeWhile_append_dropWhile).symm, ?_⟩
  intro c hc
  cases hdrop : tail.dropWhile fun c => !isWhiteSpace c && c ≠ '<' with
  | nil =>
      rw [hdrop] at hc
      cases hc
  | cons d rest =>
      rw [hdrop] at hc
      cases hc
      have hhead := List.head_dropWhile_not (fun c => !isWhiteSpace c && c ≠ '<') (l := tail)
        (by rw [hdrop]; exact List.cons_ne_nil _ _)
      simp only [hdrop, List.head_cons, Bool.and_eq_false_iff, Bool.not_eq_false',
        decide_eq_false_iff_not, not_not] at hhead
      exact hhead

theorem attached_append {v z : List Char} (hv : ∀ c ∈ v, isStructural c = true)
    (hz : ∀ c, z.head? = some c → isWhiteSpace c = true ∨ c = '<') : attached (v ++ z) = v := by
  have hplain : ∀ c ∈ v, (!isWhiteSpace c && decide (c ≠ '<')) = true := by
    intro c hc
    have hstructural := hv c hc
    simp only [isStructural, Bool.or_eq_true, decide_eq_true_eq] at hstructural
    obtain (rfl | rfl) | rfl := hstructural <;> decide
  unfold attached
  rw [List.takeWhile_append_of_pos hplain]
  cases z with
  | nil => simp
  | cons c z =>
      rw [List.takeWhile_cons_of_neg, List.append_nil]
      obtain hwhite | rfl := hz c rfl
      · simp [hwhite]
      · simp

/-- Colons behind a name stay behind it when a parameter list is peeled off. -/
theorem stripParamListFrom_keeps (hname : IsIdentifier name) {v z : List Char}
    (hv : ∀ c ∈ v, isStructural c = true)
    (hz : ∀ c, z.head? = some c → isWhiteSpace c = true ∨ c = '<') (fuel : Nat) :
    ∃ z', stripParamListFrom fuel (name ++ (v ++ z)) = name ++ (v ++ z') ∧
      ∀ c, z'.head? = some c → isWhiteSpace c = true ∨ c = '<' := by
  have hstart := startsSolid_name hname (v ++ z)
  obtain hsame | ⟨opening, close, hfind, -, hleft⟩ := stripParamListFrom_once hstart fuel
  · exact ⟨z, hsame, hz⟩
  · obtain ⟨hparen, hanchored, -⟩ := findMethodParams_spec hfind
    obtain ⟨gap, -, htake, -⟩ := trim_take_of_anchored hstart hanchored
    have hfront : (name ++ v).length ≤ opening := by
      by_contra hlt
      rw [← List.append_assoc, List.getElem?_append_left (by omega)] at hparen
      obtain hmem | hmem := List.mem_append.mp (List.mem_of_getElem? hparen)
      · have hplain := isPlain_iff.mp (hname.2 _ hmem)
        exact hplain.2.2.2.2.2.1 rfl
      · exact absurd (hv _ hmem) (by decide)
    have hvsolid : EndsSolid (name ++ v) := by
      intro c hc
      rw [List.getLast?_append] at hc
      cases hlast : v.getLast? with
      | none =>
          rw [hlast] at hc
          exact endsSolid_name hname c hc
      | some d =>
          rw [hlast] at hc
          cases hc
          have hstructural := hv c (List.mem_of_getLast? hlast)
          simp only [isStructural, Bool.or_eq_true, decide_eq_true_eq] at hstructural
          obtain (rfl | rfl) | rfl := hstructural <;> decide
    have hsolid := trim_of_solid (startsSolid_name hname v) hvsolid
    have hnotBlank : ¬ Blank (name ++ v) := by
      intro hblank
      obtain ⟨c, hc⟩ := List.exists_mem_of_ne_nil name hname.1
      have hwhite := hblank c (List.mem_append_left v hc)
      rw [(isPlain_iff.mp (hname.2 c hc)).1] at hwhite
      cases hwhite
    have hsplit : (name ++ (v ++ z)).take opening =
        (name ++ v) ++ z.take (opening - (name ++ v).length) := by
      rw [← List.append_assoc, List.take_append, List.take_of_length_le hfront]
    obtain ⟨rest, hrest, -⟩ := trim_append hnotBlank (z.take (opening - (name ++ v).length))
    rw [← hsplit, hsolid] at hrest
    refine ⟨rest, by rw [hleft, hrest, List.append_assoc], ?_⟩
    intro c hc
    rw [hrest, hsplit, List.append_assoc (name ++ v)] at htake
    have hz' := List.append_cancel_left htake
    apply hz c
    have hhead : (z.take (opening - (name ++ v).length)).head? = some c := by
      rw [hz', List.head?_append, hc, Option.some_or]
    rw [List.head?_take] at hhead
    split at hhead
    · cases hhead
    · exact hhead

/-- A name is read off a remainder exactly if it stands at its start and ends there. -/
theorem bareName_eq_iff (hname : IsIdentifier name) {s : List Char} (hstart : StartsSolid s)
    (hend : EndsSolid s) : bareName s = name ↔ ∃ tail, s = name ++ tail ∧ NameEnds name tail := by
  rw [bareName_eq hstart hend]
  constructor
  · intro hread
    have hkept := List.rdropWhile_append_rtakeWhile (p := isStructural)
      (l := attached (stripParamListFrom s.length s))
    rw [hread] at hkept
    have hstructural : ∀ c ∈ (attached (stripParamListFrom s.length s)).rtakeWhile isStructural,
        isStructural c = true := fun c hc => List.mem_rtakeWhile_imp hc
    generalize (attached (stripParamListFrom s.length s)).rtakeWhile isStructural = v
      at hkept hstructural
    obtain ⟨z, hpeeled, hz⟩ := attached_split (stripParamListFrom s.length s)
    rw [← hkept, List.append_assoc] at hpeeled
    obtain hsame | ⟨opening, close, hfind, hcloses, hleft⟩ :=
      stripParamListFrom_once hstart s.length
    · refine ⟨v ++ z, hsame.symm.trans hpeeled, .inl ?_⟩
      rw [attached_append hstructural hz]
      exact hstructural
    · obtain ⟨gap, hgap, ⟨x, hx⟩, hends, -⟩ := peeled_spec hstart hfind
      rw [← hleft, hpeeled] at hx hends
      have hwhole : s = name ++ (v ++ (z ++ (gap ++ ('(' :: x)))) := by
        rw [← hx]
        simp
      cases z with
      | cons c z =>
          refine ⟨_, hwhole, .inl ?_⟩
          rw [attached_append (z := c :: z ++ (gap ++ '(' :: x)) hstructural fun d hd => hz d hd]
          exact hstructural
      | nil =>
          have hnil : v = [] := by
            obtain ⟨c, hlast, hanchor⟩ := hends
            rw [List.append_nil, List.getLast?_append] at hlast
            cases hv : v.getLast? with
            | none => exact List.getLast?_eq_none_iff.mp hv
            | some d =>
                rw [hv] at hlast
                cases hlast
                have hlast := hstructural c (List.mem_of_getLast? hv)
                rw [isStructural_of_isAnchor hanchor] at hlast
                cases hlast
          subst hnil
          cases gap with
          | cons c gap =>
              refine ⟨_, hwhole, .inl ?_⟩
              rw [attached_append (v := []) (by simp)]
              · simp
              · intro d hd
                cases hd
                exact .inl (hgap c List.mem_cons_self)
          | nil =>
              have hparen : s = name ++ '(' :: x := hwhole
              refine ⟨'(' :: x, hparen, .inr ⟨rfl, ?_⟩⟩
              rw [← stripParamListFrom_eq_name_iff hname (name.length + x.length), ← hparen]
              have hlength : name.length + x.length + 1 = s.length := by
                rw [hparen, List.length_append, List.length_cons, Nat.add_assoc]
              rw [hlength, hpeeled, List.append_nil, List.append_nil]
  · rintro ⟨tail, rfl, hstructural | ⟨hparen, hcloses⟩⟩
    · obtain ⟨z, hsplit, hz⟩ := attached_split tail
      obtain ⟨z', hpeel, hz'⟩ := stripParamListFrom_keeps hname hstructural hz
        (name ++ tail).length
      rw [← hsplit] at hpeel
      rw [hpeel, attached_name hname, attached_append hstructural hz', rdropWhile_name_iff hname]
      exact hstructural
    · cases tail with
      | nil => cases hparen
      | cons c x =>
          cases hparen
          rw [List.length_append, List.length_cons, ← Nat.add_assoc,
            (stripParamListFrom_eq_name_iff hname _ x).mpr hcloses]
          have hself := (rdropWhile_name_iff hname []).mpr (by simp)
          have hattached := attached_name hname []
          rw [List.append_nil] at hself hattached
          rw [hattached]
          simpa [attached] using hself

end Names

end Compaction
end CleanCtx
