import CleanCtx.CompactA3.FactRoundTrip

/-!
Body frames of the compact codec, written and read back. A frame carries its length, so that
a body may be any text; its header is split at bars, which no handle of a method has.
-/
namespace CleanCtx
namespace CompactA3

section Frames

variable {frame : BodyFrame} {rest : List UInt8}

/-- The handle of a method, as it stands in the header of a frame. -/
structure Framed (id : String) : Prop where
  head : id.toList.head? = some 'M'
  plain : ∀ c ∈ id.toList, c ≠ '|' ∧ c ≠ '\n'

def frameHeader (frame : BodyFrame) : Row :=
  ["B", frame.methodId, Decimal.print frame.start, Decimal.print frame.stop,
    (utf8 frame.body).length.repr]

theorem plain_of_digits {s : String} {c : Char} (hdigits : ∀ c ∈ s.toList, c.isDigit = true)
    (hc : c ∈ s.toList) : c ≠ '|' ∧ c ≠ '\n' := by
  have hdigit := hdigits c hc
  constructor
  · rintro rfl
    exact absurd hdigit (by decide)
  · rintro rfl
    exact absurd hdigit (by decide)

theorem plain_frameHeader (h : Framed frame.methodId) :
    ∀ column ∈ frameHeader frame, ∀ c ∈ column.toList, c ≠ '|' ∧ c ≠ '\n' := by
  have hnumber : ∀ n : Nat, ∀ c ∈ n.repr.toList, c ≠ '|' ∧ c ≠ '\n' := fun n c hc =>
    plain_of_digits (fun _ => Decimal.isDigit_of_mem_repr) hc
  have htag : ∀ c ∈ "B".toList, c ≠ '|' ∧ c ≠ '\n' := by
    intro c hc
    rw [show "B".toList = ['B'] from rfl, List.mem_singleton] at hc
    subst hc
    decide
  simp only [frameHeader, List.forall_mem_cons]
  exact ⟨htag, h.plain, hnumber _, hnumber _, hnumber _, nofun⟩

theorem splitBars_lineOf (h : Framed frame.methodId) :
    splitBars (lineOf (frameHeader frame)) = frameHeader frame := by
  rw [splitBars, lineOf, Columns.join, List.splitOn_intercalate, List.map_map]
  · rw [show String.ofList ∘ String.toList = id from funext fun s => String.ofList_toList,
      List.map_id]
  · intro column hcolumn
    obtain ⟨text, htext, rfl⟩ := List.mem_map.mp hcolumn
    exact fun hsep => (plain_frameHeader h text htext _ hsep).1 rfl
  · exact List.cons_ne_nil _ _

theorem newline_not_mem_header (h : Framed frame.methodId) :
    newline ∉ bytesOf (lineOf (frameHeader frame)) := by
  rw [bytesOf, mem_utf8_iff (c := '\n') rfl (by decide), String.toList_ofList]
  intro hmem
  obtain hsep | ⟨column, hcolumn, hc⟩ := mem_of_mem_join hmem
  · exact absurd hsep (by decide)
  · obtain ⟨text, htext, rfl⟩ := List.mem_map.mp hcolumn
    exact (plain_frameHeader h text htext _ hc).2 rfl

theorem bytesOf_append (a b : List Char) : bytesOf (a ++ b) = bytesOf a ++ bytesOf b := by
  simp only [bytesOf, utf8_eq_flatMap, String.toList_ofList, List.flatMap_append]

theorem requireText8_bytesOf (text : List Char) (message : String) :
    requireText8 (bytesOf text) message = .ok text := by
  rw [requireText8, bytesOf, fromUtf8, utf8_fromUTF8]
  dsimp only
  rw [String.toList_ofList]

theorem encodeBody_eq (frame : BodyFrame) : encodeBody frame =
    bytesOf (lineOf (frameHeader frame)) ++ newline :: (utf8 frame.body ++ [newline]) := by
  have hline : textOf [frameHeader frame] = lineOf (frameHeader frame) ++ ['\n'] := by
    rw [textOf, List.flatMap_singleton]
  have hnewline : bytesOf ['\n'] = [newline] := by decide
  rw [encodeBody, ← frameHeader, hline, bytesOf_append, hnewline, List.append_assoc]
  rfl

theorem decodeBody_encodeBody (h : Framed frame.methodId) :
    decodeBody (encodeBody frame ++ rest) = .ok (frame, rest) := by
  let header := bytesOf (lineOf (frameHeader frame))
  have hinput : encodeBody frame ++ rest =
      header ++ newline :: (utf8 frame.body ++ newline :: rest) := by
    rw [encodeBody_eq, List.append_assoc, List.cons_append, List.append_assoc]
    rfl
  have hposition : position [newline] (encodeBody frame ++ rest) = some header.length := by
    rw [hinput, position_append (newline_not_mem_header h), position,
      if_pos (by rw [List.isPrefixOf_cons_cons]; rfl)]
    exact congrArg some (Nat.zero_add _)
  have hheader : (encodeBody frame ++ rest).take header.length = header := by
    rw [hinput, List.take_left]
  have hbody : (encodeBody frame ++ rest).drop (header.length + 1) =
      utf8 frame.body ++ newline :: rest := by
    rw [hinput, ← List.drop_drop, List.drop_left]
    rfl
  have hend : (utf8 frame.body ++ newline :: rest)[(utf8 frame.body).length]? = some newline := by
    rw [List.getElem?_append_right le_rfl, Nat.sub_self]
    rfl
  have hrest : (utf8 frame.body ++ newline :: rest).drop ((utf8 frame.body).length + 1) = rest := by
    rw [← List.drop_drop, List.drop_left]
    rfl
  have htext : requireText8 (utf8 frame.body) "invalid body UTF-8" = .ok frame.body.toList := by
    have hbytes := requireText8_bytesOf frame.body.toList "invalid body UTF-8"
    rwa [bytesOf, String.ofList_toList] at hbytes
  have hsplit : requireText8 header "invalid body header" = .ok (lineOf (frameHeader frame)) :=
    requireText8_bytesOf _ _
  rw [decodeBody, hposition]
  simp only [requireSome, bind, Except.bind, hheader, hsplit, splitBars_lineOf h, hbody]
  simp only [frameHeader, h.head, parsedCount, Decimal.parseCount_repr, hend,
    Decimal.parse_print, List.take_left, htext, hrest, ne_eq, not_true_eq_false, if_false,
    String.ofList_toList]
  rfl

/-- The frames of a section are read back one after the other. -/
theorem decodeFrames_encodeBody {frames : List BodyFrame}
    (hframes : ∀ frame ∈ frames, Framed frame.methodId) :
    decodeFrames frames.length (frames.flatMap encodeBody ++ rest) = .ok (frames, rest) := by
  induction frames with
  | nil => rfl
  | cons frame frames ih =>
      obtain ⟨hframe, hrest⟩ := List.forall_mem_cons.mp hframes
      rw [List.length_cons, List.flatMap_cons, List.append_assoc, decodeFrames,
        decodeBody_encodeBody hframe]
      simp only [bind, Except.bind, ih hrest]
      rfl

end Frames

section Handles

variable {id handle : String} {normalized renumbered : Context}

theorem framed_ordinal (n : Nat) : Framed ("M" ++ n.repr) where
  head := by rw [String.toList_append]; rfl
  plain c hc := by
    rw [String.toList_append, List.mem_append] at hc
    obtain hc | hc := hc
    · rw [show "M".toList = ['M'] from rfl, List.mem_singleton] at hc
      subst hc
      decide
    · exact plain_of_digits (fun _ => Decimal.isDigit_of_mem_repr) hc

theorem ordinals_getElem? {family : String} {ids : List String}
    (h : (ordinals family ids)[id]? = some handle) : ∃ n : Nat, handle = family ++ n.repr := by
  have hfold : ∀ (entries : List (String × Nat)) (handles : Std.TreeMap String String),
      (∀ id handle : String, handles[id]? = some handle → ∃ n : Nat, handle = family ++ n.repr) →
      ∀ id handle : String, (entries.foldl (fun handles entry =>
        handles.insert entry.1 (family ++ (entry.2 + 1).repr)) handles)[id]? = some handle →
          ∃ n : Nat, handle = family ++ n.repr := by
    intro entries
    induction entries with
    | nil => exact fun _ hhandles => hhandles
    | cons entry entries ih =>
        intro handles hhandles
        refine ih _ fun id handle hfound => ?_
        rw [Std.TreeMap.getElem?_insert] at hfound
        split at hfound
        · exact ⟨_, (Option.some.inj hfound).symm⟩
        · exact hhandles id handle hfound
  exact hfold ids.zipIdx ∅ (fun id handle hfound => by simp at hfound) id handle h

theorem framed_renumberMethod {method method' : Method}
    (h : renumberMethod (handlesOf normalized) method = .ok method') : Framed method'.id := by
  obtain ⟨id, hid, h⟩ := bind_eq_ok.mp h
  cases h
  cases hhandle : (handlesOf normalized).methods[method.id]? with
  | none =>
      rw [hhandle] at hid
      cases hid
  | some handle =>
      rw [hhandle] at hid
      cases hid
      obtain ⟨n, rfl⟩ := ordinals_getElem? hhandle
      exact framed_ordinal n

theorem framed_renumberOwner {κ : Type} {kind : κ → κ} {owner owner' : Owner κ Method}
    (h : renumberOwner (handlesOf normalized) kind owner = .ok owner') :
    ∀ method ∈ owner'.methods, Framed method.id := by
  obtain ⟨_, -, h⟩ := bind_eq_ok.mp h
  obtain ⟨_, -, h⟩ := bind_eq_ok.mp h
  obtain ⟨methods, hmethods, h⟩ := bind_eq_ok.mp h
  cases h
  intro method hmethod
  obtain ⟨source, -, hsource⟩ :=
    Lists.exists_left_of_forall₂ (Lists.mapM_eq_ok_iff.mp hmethods) method hmethod
  exact framed_renumberMethod hsource

theorem framed_renumber (h : renumber normalized = .ok renumbered) :
    ∀ method ∈ renumbered.allMethods, Framed method.id := by
  obtain ⟨_, -, h⟩ := bind_eq_ok.mp h
  obtain ⟨classes, hclasses, h⟩ := bind_eq_ok.mp h
  obtain ⟨interfaces, hinterfaces, h⟩ := bind_eq_ok.mp h
  split at h
  · cases h
  · obtain ⟨calls, -, h⟩ := bind_eq_ok.mp h
    cases h
    intro method hmethod
    obtain hmethod | hmethod := List.mem_append.mp hmethod
    · obtain ⟨owner, howner, hmethod⟩ := List.mem_flatMap.mp hmethod
      obtain ⟨source, -, hsource⟩ :=
        Lists.exists_left_of_forall₂ (Lists.mapM_eq_ok_iff.mp hclasses) owner howner
      exact framed_renumberOwner hsource method hmethod
    · obtain ⟨owner, howner, hmethod⟩ := List.mem_flatMap.mp hmethod
      obtain ⟨source, -, hsource⟩ :=
        Lists.exists_left_of_forall₂ (Lists.mapM_eq_ok_iff.mp hinterfaces) owner howner
      exact framed_renumberOwner hsource method hmethod

theorem framed_bodyFrames {frames : List BodyFrame}
    (hmethods : ∀ method ∈ normalized.allMethods, Framed method.id)
    (h : bodyFrames normalized = .ok frames) : ∀ frame ∈ frames, Framed frame.methodId := by
  rw [bodyFrames] at h
  split at h
  · cases h
    exact nofun
  · intro frame hframe
    obtain ⟨method, hmethod, hsource⟩ :=
      Lists.exists_left_of_forall₂ (Lists.mapM_eq_ok_iff.mp h) frame hframe
    obtain ⟨_, -, hsource⟩ := bind_eq_ok.mp hsource
    obtain ⟨_, -, hsource⟩ := bind_eq_ok.mp hsource
    obtain ⟨_, -, hsource⟩ := bind_eq_ok.mp hsource
    cases hsource
    exact hmethods method (List.mem_of_mem_filter hmethod)

/-- Whatever the bodies of a file are, the decoder finds in its section the frames that the
encoder wrote, and stops at what follows them. -/
theorem decodeFrames_bodyFrames (normalized : Context) (rest : List UInt8) :
    (do
      let renumbered ← renumber normalized
      let frames ← bodyFrames renumbered
      decodeFrames frames.length (frames.flatMap encodeBody ++ rest)) =
    (do
      let renumbered ← renumber normalized
      let frames ← bodyFrames renumbered
      pure (frames, rest)) := by
  cases hrenumber : renumber normalized with
  | error e => rfl
  | ok renumbered =>
      cases hframes : bodyFrames renumbered with
      | error e => simp only [bind, Except.bind, hframes]
      | ok frames =>
          simp only [bind, Except.bind, hframes]
          exact decodeFrames_encodeBody (framed_bodyFrames (framed_renumber hrenumber) hframes)

end Handles

end CompactA3
end CleanCtx
