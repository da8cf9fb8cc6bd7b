import CleanCtx.Library.JsonChanges
import CleanCtx.Proxy.PipelineFrames

/-!
Which tool results ageing replaces, and how many it reports. The rules compare a
result with every later message of the array; the scan for paths reads the block
texts of the recent messages only, and the statistics record one item for all the
results of a request.
-/
namespace CleanCtx
namespace Proxy

open Value

def Mentions (value : Value) (path : List Char) : Prop :=
  ∃ text ∈ value.texts, path <:+: text.toList

def resultText (block : Value) : String := (contentText (member block "content")).getD ""

def MentionedLater (messages : List Value) (turn : Nat) (text : String) : Prop :=
  ∃ path ∈ extractPathStringsFromText text, ∃ later ∈ messages.drop (turn + 1), Mentions later path

/-- The results that the rules let age: outside the floor, older than the limit, and with no path
that a later message mentions. -/
structure MayAge (adapter : PlatformAdapter) (maxAgeTurns forcePreserveFloor : Nat)
    (messages : List Value) (turn : Nat) (block : Value) : Prop where
  result : adapter.isToolResult block = true
  outside : turn < messages.length - forcePreserveFloor
  old : maxAgeTurns < messages.length - turn
  unmentioned : ¬ MentionedLater messages turn (resultText block)

/-- Nothing of the body changes but the content of blocks that may age. -/
def OnlyAges (adapter : PlatformAdapter) (maxAgeTurns forcePreserveFloor : Nat)
    (body body' : Value) : Prop :=
  AtMember "messages" (AtItems fun turn => AtMember "content" (AtItems fun _ block block' =>
    block' = block ∨
      MayAge adapter maxAgeTurns forcePreserveFloor (itemsOf (member body "messages")) turn block ∧
        AtMember "content" (fun _ _ => True) block block')) body body'

def blocksOf (body : Value) : List Value :=
  (itemsOf (member body "messages")).flatMap fun msg => itemsOf (member msg "content")

open Classical in
noncomputable def changedBlocks (body body' : Value) : Nat :=
  ((blocksOf body).zip (blocksOf body')).countP fun p => decide (p.2 ≠ p.1)

def recordAged (removed : List Nat) (stats : SlidingWindowStats) : SlidingWindowStats :=
  if removed.isEmpty then stats else stats.record removed.sum

/-- Ageing changes what the rules let it change, returns the number of blocks that changed and
counts as many items. -/
def AgesByRule (adapter : PlatformAdapter) (maxAgeTurns forcePreserveFloor : Nat) (body : Value)
    (stats : SlidingWindowStats) : Prop :=
  ∃ body' removed, ageToolResults adapter maxAgeTurns forcePreserveFloor body =
      some (body', removed) ∧
    OnlyAges adapter maxAgeTurns forcePreserveFloor body body' ∧
    removed.length = changedBlocks body body' ∧
    (recordAged removed stats).itemsAged = stats.itemsAged + changedBlocks body body'

theorem applyTransform_ageToolResults (engine : FilterEngine) (config : PipelineConfig)
    (adapter : PlatformAdapter) (body : Value) (stats : TransformStats)
    (maxAgeTurns forcePreserveFloor : Nat) :
    engine.applyTransform config adapter body stats
        (.ageToolResults maxAgeTurns forcePreserveFloor) =
      (ageToolResults adapter maxAgeTurns forcePreserveFloor body).map fun (body, removed) =>
        (body, { stats with slidingWindow := recordAged removed stats.slidingWindow }) := by
  refine congrFun (congrArg Option.map (funext fun (body, removed) => ?_)) _
  cases removed <;> rfl

def ageableBlocks (forcePreserveFloor : Nat) (messages : List Value) : List (Nat × Value) :=
  messages.zipIdx.flatMap fun (msg, turn) =>
    if agePreserved messages.length forcePreserveFloor turn msg then []
    else (itemsOf (member msg "content")).map (Prod.mk turn)

def oldResults (adapter : PlatformAdapter) (maxAgeTurns forcePreserveFloor : Nat)
    (messages : List Value) : List (Nat × Value) :=
  (ageableBlocks forcePreserveFloor messages).filter fun (turn, block) =>
    adapter.isToolResult block && !(resultText block).isEmpty &&
      decide (maxAgeTurns < messages.length - turn)

def unprotectedResults (adapter : PlatformAdapter) (maxAgeTurns forcePreserveFloor : Nat)
    (messages : List Value) : List (Nat × Value) :=
  (oldResults adapter maxAgeTurns forcePreserveFloor messages).filter fun (_, block) =>
    !crossReferenced (recentPaths forcePreserveFloor messages) (resultText block)

/-- The requests on which ageing keeps to its rules. -/
structure AgesSafely (adapter : PlatformAdapter) (maxAgeTurns forcePreserveFloor : Nat)
    (body : Value) : Prop where
  present : (body.get "messages").isSome
  /-- An old result that is mentioned later is mentioned where the scan finds it. -/
  scanned : ∀ p ∈ oldResults adapter maxAgeTurns forcePreserveFloor
      (itemsOf (member body "messages")),
    MentionedLater (itemsOf (member body "messages")) p.1 (resultText p.2) →
      crossReferenced (recentPaths forcePreserveFloor (itemsOf (member body "messages")))
        (resultText p.2)
  /-- At most one result is aged. -/
  single : (unprotectedResults adapter maxAgeTurns forcePreserveFloor
    (itemsOf (member body "messages"))).length ≤ 1
  /-- No result is the stub already that it would be replaced with. -/
  fresh : ∀ p ∈ unprotectedResults adapter maxAgeTurns forcePreserveFloor
      (itemsOf (member body "messages")),
    member p.2 "content" ≠ .string (agedStub p.2 (resultText p.2) p.1)

section Walk

variable {adapter : PlatformAdapter} {maxAgeTurns forcePreserveFloor : Nat} {body block : Value}
  {messages : List Value}

/-- An unprotected result is what the loop ages, as long as it is reached. -/
theorem agedText_eq (recent : List (List Char)) (total turn : Nat) (block : Value) :
    agedText adapter recent total maxAgeTurns turn block =
      if (adapter.isToolResult block && !(resultText block).isEmpty &&
          decide (maxAgeTurns < total - turn)) && !crossReferenced recent (resultText block) then
        some (resultText block)
      else none := by
  rw [agedText]
  change (if adapter.isToolResult block = true then
    if ((resultText block).isEmpty || crossReferenced recent (resultText block) ||
      decide (total - turn ≤ maxAgeTurns)) = true then none else some (resultText block)
    else none) = _
  cases adapter.isToolResult block <;> cases (resultText block).isEmpty <;>
    cases crossReferenced recent (resultText block) <;> by_cases h : total - turn ≤ maxAgeTurns <;>
    simp [h, Nat.not_lt.mpr, Nat.lt_of_not_le]

def removedBytes (adapter : PlatformAdapter) (recent : List (List Char))
    (total maxAgeTurns turn : Nat) (block : Value) : List Nat :=
  (agedText adapter recent total maxAgeTurns turn block).toList.map fun text =>
    text.utf8ByteSize - (agedStub block text turn).utf8ByteSize

theorem ageBlock_eq (recent : List (List Char)) (total turn : Nat) (block : Value) :
    ageBlock adapter recent total maxAgeTurns turn block =
      some (agedBlock adapter recent total maxAgeTurns turn block,
        removedBytes adapter recent total maxAgeTurns turn block) := by
  rw [ageBlock, agedBlock, removedBytes]
  cases haged : agedText adapter recent total maxAgeTurns turn block with
  | none => rfl
  | some text =>
      obtain ⟨content, hget⟩ := exists_content_of_agedText haged
      simp only [setContent_eq hget, Option.map_some]
      rfl

theorem ageMessage_eq (recent : List (List Char)) (total turn : Nat) (msg : Value) :
    ageMessage adapter recent total maxAgeTurns forcePreserveFloor turn msg =
      some (agedMessage adapter recent total maxAgeTurns forcePreserveFloor turn msg,
        if agePreserved total forcePreserveFloor turn msg then []
        else (itemsOf (member msg "content")).flatMap
          (removedBytes adapter recent total maxAgeTurns turn)) := by
  rw [ageMessage, agedMessage]
  by_cases hpreserved : agePreserved total forcePreserveFloor turn msg = true
  · simp only [hpreserved, Bool.true_or, if_true]
  · simp only [hpreserved, Bool.false_or]
    cases hget : msg.get "content" with
    | none => simp [member, hget, itemsOf, asArray]
    | some content =>
        cases content with
        | array blocks =>
            have hblocks : itemsOf (member msg "content") = blocks := by rw [member, hget]; rfl
            rw [hblocks]
            cases blocks with
            | nil => rfl
            | cons first rest =>
                rw [List.isEmpty_cons, if_neg Bool.false_ne_true, if_neg Bool.false_ne_true,
                  if_neg Bool.false_ne_true, atKey_present hget, onArray,
                  forEachIdx_eq fun _ => ageBlock_eq recent total turn]
                have hrecorded : ((first :: rest).zipIdx.flatMap fun p =>
                    removedBytes adapter recent total maxAgeTurns turn p.1) =
                      (first :: rest).flatMap
                        (removedBytes adapter recent total maxAgeTurns turn) := by
                  rw [← List.flatMap_map Prod.fst, List.zipIdx_map_fst]
                rw [mapFrom_const, hrecorded]
                refine congrArg some (Prod.ext (mapMember_congr fun old hold => ?_) rfl)
                rw [hget] at hold
                cases hold
                rfl
        | null | bool | number | string | object => simp [member, hget, itemsOf, asArray]

/-- What the loops make of a body that has messages, and what they record. -/
theorem ageToolResults_eq (hpresent : (body.get "messages").isSome) :
    ageToolResults adapter maxAgeTurns forcePreserveFloor body =
      some (agedBody adapter maxAgeTurns forcePreserveFloor body,
        (ageableBlocks forcePreserveFloor (itemsOf (member body "messages"))).flatMap fun p =>
          removedBytes adapter (recentPaths forcePreserveFloor (itemsOf (member body "messages")))
            (itemsOf (member body "messages")).length maxAgeTurns p.1 p.2) := by
  obtain ⟨value, hget⟩ := Option.isSome_iff_exists.mp hpresent
  rw [ageToolResults, atKey_present hget, agedBody]
  have hmember : member body "messages" = value := by rw [member, hget]; rfl
  rw [hmember]
  cases value with
  | array messages =>
      rw [onArray, forEachIdx_eq fun turn => ageMessage_eq _ _ turn]
      refine congrArg some (Prod.ext (mapMember_congr fun old hold => ?_) ?_)
      · rw [hget] at hold
        cases hold
        rfl
      · change messages.zipIdx.flatMap _ = (ageableBlocks forcePreserveFloor messages).flatMap _
        rw [ageableBlocks, List.flatMap_assoc]
        refine List.flatMap_congr fun p _ => ?_
        dsimp only
        split
        · rfl
        · rw [List.flatMap_map]
          rfl
  | null | bool | number | string | object =>
      refine congrArg some (Prod.ext (mapMember_congr fun old hold => ?_) rfl)
      rw [hget] at hold
      cases hold
      rfl

theorem length_removedBytes (recent : List (List Char)) (total turn : Nat) (block : Value) :
    (removedBytes adapter recent total maxAgeTurns turn block).length =
      if (agedText adapter recent total maxAgeTurns turn block).isSome then 1 else 0 := by
  rw [removedBytes]
  cases agedText adapter recent total maxAgeTurns turn block <;> rfl

theorem isSome_agedText {p : Nat × Value} (hp : p ∈ ageableBlocks forcePreserveFloor messages) :
    (agedText adapter (recentPaths forcePreserveFloor messages) messages.length maxAgeTurns p.1
        p.2).isSome ↔
      p ∈ unprotectedResults adapter maxAgeTurns forcePreserveFloor messages := by
  rw [unprotectedResults, List.mem_filter, oldResults, List.mem_filter, agedText_eq]
  simp only [hp, true_and, ← Bool.and_eq_true]
  split
  · rename_i h
    simpa using h
  · rename_i h
    simpa using h

/-- The number that is returned. -/
theorem length_recorded (adapter : PlatformAdapter) (maxAgeTurns forcePreserveFloor : Nat)
    (messages : List Value) :
    ((ageableBlocks forcePreserveFloor messages).flatMap fun p =>
      removedBytes adapter (recentPaths forcePreserveFloor messages) messages.length maxAgeTurns
        p.1 p.2).length =
      (unprotectedResults adapter maxAgeTurns forcePreserveFloor messages).length := by
  have haged : ∀ l : List (Nat × Value), (∀ p ∈ l, p ∈ ageableBlocks forcePreserveFloor messages) →
      (l.flatMap fun p => removedBytes adapter (recentPaths forcePreserveFloor messages)
        messages.length maxAgeTurns p.1 p.2).length =
        (l.filter fun p => (agedText adapter (recentPaths forcePreserveFloor messages)
          messages.length maxAgeTurns p.1 p.2).isSome).length := by
    intro l hl
    induction l with
    | nil => rfl
    | cons p l ih =>
        obtain ⟨-, hrest⟩ := List.forall_mem_cons.mp hl
        rw [List.flatMap_cons, List.length_append, ih hrest, length_removedBytes, List.filter_cons]
        split
        · rw [List.length_cons, Nat.add_comm]
        · rw [Nat.zero_add]
  rw [haged _ fun _ hp => hp, unprotectedResults, oldResults, List.filter_filter]
  refine congrArg List.length (List.filter_congr fun p hp => ?_)
  rw [Bool.eq_iff_iff, isSome_agedText hp, unprotectedResults, oldResults, List.filter_filter,
    List.mem_filter, and_iff_right hp]

end Walk

section Changes

variable {adapter : PlatformAdapter} {maxAgeTurns forcePreserveFloor : Nat} {body : Value}

theorem itemsOf_agedMessage (recent : List (List Char)) (total turn : Nat) (msg : Value) :
    itemsOf (member (agedMessage adapter recent total maxAgeTurns forcePreserveFloor turn msg)
        "content") =
      if agePreserved total forcePreserveFloor turn msg then itemsOf (member msg "content")
      else (itemsOf (member msg "content")).map
        (agedBlock adapter recent total maxAgeTurns turn) := by
  rw [agedMessage]
  cases agePreserved total forcePreserveFloor turn msg with
  | true => rfl
  | false =>
      rw [Bool.false_or, if_neg Bool.false_ne_true]
      split
      · rename_i hempty
        rw [List.isEmpty_iff.mp hempty, List.map_nil]
      · rw [member, get_mapMember]
        cases hget : msg.get "content" with
        | none => simp [member, hget, itemsOf, asArray]
        | some content =>
            have hmember : member msg "content" = content := by rw [member, hget]; rfl
            rw [hmember]
            cases content <;> rfl

theorem itemsOf_agedBody : itemsOf (member (agedBody adapter maxAgeTurns forcePreserveFloor body)
      "messages") =
    mapFrom (agedMessage adapter
      (recentPaths forcePreserveFloor (itemsOf (member body "messages")))
      (itemsOf (member body "messages")).length maxAgeTurns forcePreserveFloor) 0
      (itemsOf (member body "messages")) := by
  rw [agedBody, member, get_mapMember]
  cases hget : body.get "messages" with
  | none => simp [member, hget, itemsOf, asArray, mapFrom]
  | some value =>
      have hmember : member body "messages" = value := by rw [member, hget]; rfl
      rw [hmember]
      cases value <;> rfl

open Classical in
/-- Only blocks that can age are counted, and of those the ones that ageing makes different. -/
theorem changedBlocks_agedBody :
    changedBlocks body (agedBody adapter maxAgeTurns forcePreserveFloor body) =
      (ageableBlocks forcePreserveFloor (itemsOf (member body "messages"))).countP fun p =>
        decide (agedBlock adapter
          (recentPaths forcePreserveFloor (itemsOf (member body "messages")))
          (itemsOf (member body "messages")).length maxAgeTurns p.1 p.2 ≠ p.2) := by
  have hzip : ∀ (l : List (Value × Nat)) (f g : Value × Nat → List Value),
      (∀ p, (f p).length = (g p).length) →
        (l.flatMap f).zip (l.flatMap g) = l.flatMap fun p => (f p).zip (g p) := by
    intro l f g hlength
    induction l with
    | nil => rfl
    | cons p l ih =>
        rw [List.flatMap_cons, List.flatMap_cons, List.flatMap_cons, List.zip_append (hlength p), ih]
  rw [changedBlocks, blocksOf, blocksOf, itemsOf_agedBody, flatMap_mapFrom]
  generalize itemsOf (member body "messages") = messages
  have hblocks : (messages.flatMap fun msg => itemsOf (member msg "content")) =
      messages.zipIdx.flatMap fun p => itemsOf (member p.1 "content") := by
    rw [← List.flatMap_map Prod.fst fun msg => itemsOf (member msg "content"),
      List.zipIdx_map_fst]
  have hmap : ∀ (blocks : List Value) (h : Value → Value),
      (blocks.zip (blocks.map h)).countP (fun p => decide (p.2 ≠ p.1)) =
        blocks.countP fun block => decide (h block ≠ block) := by
    intro blocks h
    induction blocks with
    | nil => rfl
    | cons block blocks ih =>
        rw [List.map_cons, List.zip_cons_cons, List.countP_cons, List.countP_cons, ih]
  rw [hblocks, hzip _ _ _ fun p => by rw [itemsOf_agedMessage]; split <;> simp, ageableBlocks,
    List.countP_flatMap, List.countP_flatMap]
  refine congrArg List.sum (List.map_congr_left fun p _ => ?_)
  simp only [Function.comp_apply, itemsOf_agedMessage]
  split
  · have hsame := hmap (itemsOf (member p.1 "content")) id
    rw [List.map_id] at hsame
    rw [hsame]
    simp
  · rw [hmap, List.countP_map]
    rfl

theorem mem_ageableBlocks {messages : List Value} {p : Nat × Value} :
    p ∈ ageableBlocks forcePreserveFloor messages ↔ ∃ msg, messages[p.1]? = some msg ∧
      agePreserved messages.length forcePreserveFloor p.1 msg = false ∧
      p.2 ∈ itemsOf (member msg "content") := by
  obtain ⟨turn, block⟩ := p
  rw [ageableBlocks, List.mem_flatMap]
  constructor
  · rintro ⟨⟨msg, i⟩, hmsg, hmem⟩
    dsimp only at hmem
    split at hmem
    · cases hmem
    · rename_i hpreserved
      obtain ⟨_, hblock, heq⟩ := List.mem_map.mp hmem
      cases heq
      exact ⟨msg, List.mem_zipIdx_iff_getElem?.mp hmsg, by simpa using hpreserved, hblock⟩
  · rintro ⟨msg, hmsg, hpreserved, hblock⟩
    refine ⟨(msg, turn), List.mem_zipIdx_iff_getElem?.mpr hmsg, ?_⟩
    dsimp only
    rw [hpreserved, if_neg Bool.false_ne_true]
    exact List.mem_map_of_mem hblock

variable {messages : List Value} {p : Nat × Value}

theorem mem_unprotectedResults : p ∈ unprotectedResults adapter maxAgeTurns forcePreserveFloor messages ↔
    p ∈ oldResults adapter maxAgeTurns forcePreserveFloor messages ∧
      crossReferenced (recentPaths forcePreserveFloor messages) (resultText p.2) = false := by
  rw [unprotectedResults, List.mem_filter, Bool.not_eq_true']

theorem mem_oldResults : p ∈ oldResults adapter maxAgeTurns forcePreserveFloor messages ↔
    p ∈ ageableBlocks forcePreserveFloor messages ∧ adapter.isToolResult p.2 = true ∧
      (resultText p.2).isEmpty = false ∧ maxAgeTurns < messages.length - p.1 := by
  rw [oldResults, List.mem_filter, Bool.and_eq_true, Bool.and_eq_true, Bool.not_eq_true',
    decide_eq_true_eq, and_assoc]

/-- Of the rules only the mentions are left open. -/
theorem mayAge_of_mem (h : p ∈ oldResults adapter maxAgeTurns forcePreserveFloor messages)
    (hunmentioned : ¬ MentionedLater messages p.1 (resultText p.2)) :
    MayAge adapter maxAgeTurns forcePreserveFloor messages p.1 p.2 := by
  obtain ⟨hageable, hresult, -, hold⟩ := mem_oldResults.mp h
  obtain ⟨msg, -, hpreserved, -⟩ := mem_ageableBlocks.mp hageable
  refine ⟨hresult, ?_, hold, hunmentioned⟩
  simp only [agePreserved, Bool.or_eq_false_iff, decide_eq_false_iff_not] at hpreserved
  omega

theorem agedText_of_mem (h : p ∈ unprotectedResults adapter maxAgeTurns forcePreserveFloor messages) :
    agedText adapter (recentPaths forcePreserveFloor messages) messages.length maxAgeTurns p.1 p.2 =
      some (resultText p.2) := by
  obtain ⟨hold, hfree⟩ := mem_unprotectedResults.mp h
  obtain ⟨-, hresult, htext, hage⟩ := mem_oldResults.mp hold
  rw [agedText_eq, hresult, htext, hfree]
  simp [hage]

/-- A block is made different when it is an unprotected result and no stub already. -/
theorem agedBlock_ne_iff (hp : p ∈ ageableBlocks forcePreserveFloor messages) :
    agedBlock adapter (recentPaths forcePreserveFloor messages) messages.length maxAgeTurns p.1 p.2 ≠
        p.2 ↔
      p ∈ unprotectedResults adapter maxAgeTurns forcePreserveFloor messages ∧
        member p.2 "content" ≠ .string (agedStub p.2 (resultText p.2) p.1) := by
  by_cases hunprotected : p ∈ unprotectedResults adapter maxAgeTurns forcePreserveFloor messages
  · have haged := agedText_of_mem hunprotected
    obtain ⟨content, hget⟩ := exists_content_of_agedText haged
    rw [agedBlock, haged, and_iff_right hunprotected, member, hget, Option.getD_some]
    refine not_congr ⟨fun hsame => ?_, fun hstub => ?_⟩
    · have hback := congrArg (fun v => v.get "content") hsame
      simp only [get_mapMember, hget, Option.map_some, Option.some.injEq] at hback
      exact hback.symm
    · refine mapMember_same fun old hold => ?_
      rw [hget] at hold
      cases hold
      exact hstub.symm
  · have hnone : agedText adapter (recentPaths forcePreserveFloor messages) messages.length
        maxAgeTurns p.1 p.2 = none := by
      rw [← Option.not_isSome_iff_eq_none, isSome_agedText hp]
      exact hunprotected
    simp [agedBlock, hnone, hunprotected]

open Classical in
theorem changedBlocks_eq :
    changedBlocks body (agedBody adapter maxAgeTurns forcePreserveFloor body) =
      (unprotectedResults adapter maxAgeTurns forcePreserveFloor
        (itemsOf (member body "messages"))).countP fun p =>
          decide (member p.2 "content" ≠ .string (agedStub p.2 (resultText p.2) p.1)) := by
  rw [changedBlocks_agedBody, unprotectedResults, oldResults, List.countP_filter,
    List.countP_filter]
  refine List.countP_congr fun p hp => ?_
  rw [decide_eq_true_eq, agedBlock_ne_iff hp, mem_unprotectedResults, mem_oldResults,
    and_iff_right hp]
  simp only [Bool.and_eq_true, decide_eq_true_eq, Bool.not_eq_true']
  tauto

/-- The change of a block is one the rules allow, or none. -/
theorem onlyAges_block (hp : p ∈ ageableBlocks forcePreserveFloor messages)
    (hrules : ∀ p ∈ unprotectedResults adapter maxAgeTurns forcePreserveFloor messages,
      MayAge adapter maxAgeTurns forcePreserveFloor messages p.1 p.2) :
    agedBlock adapter (recentPaths forcePreserveFloor messages) messages.length maxAgeTurns p.1
          p.2 = p.2 ∨
      MayAge adapter maxAgeTurns forcePreserveFloor messages p.1 p.2 ∧
        AtMember "content" (fun _ _ => True) p.2 (agedBlock adapter
          (recentPaths forcePreserveFloor messages) messages.length maxAgeTurns p.1 p.2) := by
  by_cases hunprotected : p ∈ unprotectedResults adapter maxAgeTurns forcePreserveFloor messages
  · refine .inr ⟨hrules p hunprotected, ?_⟩
    rw [agedBlock, agedText_of_mem hunprotected]
    exact ⟨_, rfl, fun _ _ => trivial⟩
  · refine .inl (not_not.mp fun hne => hunprotected ?_)
    exact ((agedBlock_ne_iff hp).mp hne).1

theorem onlyAges_message {turn : Nat} {msg : Value} (hmsg : messages[turn]? = some msg)
    (hrules : ∀ p ∈ unprotectedResults adapter maxAgeTurns forcePreserveFloor messages,
      MayAge adapter maxAgeTurns forcePreserveFloor messages p.1 p.2) :
    AtMember "content" (AtItems fun _ block block' => block' = block ∨
      MayAge adapter maxAgeTurns forcePreserveFloor messages turn block ∧
        AtMember "content" (fun _ _ => True) block block') msg
      (agedMessage adapter (recentPaths forcePreserveFloor messages) messages.length maxAgeTurns
        forcePreserveFloor turn msg) := by
  rw [agedMessage]
  split
  · exact AtMember.refl (AtItems.refl fun _ _ => .inl rfl) msg
  · rename_i hreached
    refine ⟨_, rfl, fun content hcontent => ?_⟩
    rw [← mapFrom_const _ 0]
    refine ⟨_, rfl, fun j block hblock => onlyAges_block (p := (turn, block)) ?_ hrules⟩
    refine mem_ageableBlocks.mpr ⟨msg, hmsg, ?_, ?_⟩
    · simp only [Bool.or_eq_true, not_or, Bool.not_eq_true] at hreached
      exact hreached.1
    · rw [member, hcontent]
      exact List.mem_of_getElem? hblock

theorem onlyAges_agedBody
    (hrules : ∀ p ∈ unprotectedResults adapter maxAgeTurns forcePreserveFloor
        (itemsOf (member body "messages")),
      MayAge adapter maxAgeTurns forcePreserveFloor (itemsOf (member body "messages")) p.1 p.2) :
    OnlyAges adapter maxAgeTurns forcePreserveFloor body
      (agedBody adapter maxAgeTurns forcePreserveFloor body) := by
  refine ⟨_, rfl, fun value hvalue => ?_⟩
  have hmember : member body "messages" = value := by rw [member, hvalue]; rfl
  rw [hmember] at hrules ⊢
  cases value with
  | array messages => exact ⟨_, rfl, fun turn msg hmsg => onlyAges_message hmsg hrules⟩
  | null | bool | number | string | object =>
      exact ⟨fun _ x => x, rfl, fun turn msg hmsg => by cases hmsg⟩

/-- A changed block is one the rules allow to age. -/
theorem mayAge_of_onlyAges (h : OnlyAges adapter maxAgeTurns forcePreserveFloor body
      (agedBody adapter maxAgeTurns forcePreserveFloor body))
    (hp : p ∈ ageableBlocks forcePreserveFloor (itemsOf (member body "messages")))
    (hne : agedBlock adapter (recentPaths forcePreserveFloor (itemsOf (member body "messages")))
      (itemsOf (member body "messages")).length maxAgeTurns p.1 p.2 ≠ p.2) :
    MayAge adapter maxAgeTurns forcePreserveFloor (itemsOf (member body "messages")) p.1 p.2 := by
  obtain ⟨msg, hmsg, hpreserved, hblock⟩ := mem_ageableBlocks.mp hp
  obtain ⟨j, hj⟩ := List.mem_iff_getElem?.mp hblock
  have hmessages : (body.get "messages").isSome :=
    isSome_get_of_items (List.ne_nil_of_mem (List.mem_of_getElem? hmsg))
  have hblocks : (msg.get "content").isSome := isSome_get_of_items (List.ne_nil_of_mem hblock)
  obtain ⟨value, hvalue⟩ := Option.isSome_iff_exists.mp hmessages
  obtain ⟨content, hcontent⟩ := Option.isSome_iff_exists.mp hblocks
  have hvalue' : member body "messages" = value := by rw [member, hvalue]; rfl
  have hcontent' : member msg "content" = content := by rw [member, hcontent]; rfl
  obtain ⟨msg', hmsg', hmessage⟩ := (h.get hvalue).item (by rw [← hvalue']; exact hmsg)
  change (itemsOf _)[p.1]? = _ at hmsg'
  rw [itemsOf_agedBody, getElem?_mapFrom, hmsg, Option.map_some, Nat.zero_add,
    Option.some.injEq] at hmsg'
  subst hmsg'
  obtain ⟨block', hblock', hchange⟩ := (hmessage.get hcontent).item
    (by rw [← hcontent']; exact hj)
  change (itemsOf _)[j]? = _ at hblock'
  rw [itemsOf_agedMessage, hpreserved, if_neg Bool.false_ne_true, List.getElem?_map, hj,
    Option.map_some, Option.some.injEq] at hblock'
  subst hblock'
  exact (hchange.resolve_left hne).1

end Changes

theorem itemsAged_recordAged (removed : List Nat) (stats : SlidingWindowStats) :
    (recordAged removed stats).itemsAged = stats.itemsAged + min removed.length 1 := by
  cases removed with
  | nil => rfl
  | cons bytes removed =>
      rw [List.length_cons, Nat.min_eq_right (Nat.le_add_left 1 _)]
      rfl

/-- A body without messages is given some, which no rule allows. -/
theorem present_of_onlyAges {adapter : PlatformAdapter} {maxAgeTurns forcePreserveFloor : Nat}
    {body body' : Value} {removed : List Nat}
    (hrun : ageToolResults adapter maxAgeTurns forcePreserveFloor body = some (body', removed))
    (h : OnlyAges adapter maxAgeTurns forcePreserveFloor body body') :
    (body.get "messages").isSome := by
  obtain ⟨F, rfl, -⟩ := h
  obtain ⟨value, hvalue, -⟩ := get_atKey hrun
  have hkept : ((mapMember "messages" F body).get "messages").isSome = _ := isSome_get_mapMember
  rw [← hkept, hvalue]
  rfl

/-- Ageing keeps to its rules and reports what it changed exactly when the body has messages, the
scan of the recent messages finds a path of every old result that a later message mentions, at most
one result is left to age, and that one is not the stub already. -/
theorem agesByRule_iff (adapter : PlatformAdapter) (maxAgeTurns forcePreserveFloor : Nat)
    (body : Value) (stats : SlidingWindowStats) :
    AgesByRule adapter maxAgeTurns forcePreserveFloor body stats ↔
      AgesSafely adapter maxAgeTurns forcePreserveFloor body := by
  constructor
  · rintro ⟨body', removed, hrun, honly, hcount, hstats⟩
    have hpresent := present_of_onlyAges hrun honly
    rw [ageToolResults_eq hpresent] at hrun
    cases hrun
    rw [changedBlocks_eq] at hcount hstats
    rw [length_recorded] at hcount
    have hfresh := List.countP_eq_length.mp hcount.symm
    simp only [decide_eq_true_eq] at hfresh
    rw [itemsAged_recordAged, length_recorded, ← hcount] at hstats
    refine ⟨hpresent, fun p hold hmentioned => ?_, by omega, hfresh⟩
    by_contra hfree
    have hunprotected := mem_unprotectedResults.mpr ⟨hold, Bool.eq_false_iff.mpr hfree⟩
    have hageable := (mem_oldResults.mp hold).1
    exact (mayAge_of_onlyAges honly hageable ((agedBlock_ne_iff hageable).mpr
      ⟨hunprotected, hfresh p hunprotected⟩)).unmentioned hmentioned
  · rintro ⟨hpresent, hscanned, hsingle, hfresh⟩
    have hchanged : changedBlocks body (agedBody adapter maxAgeTurns forcePreserveFloor body) =
        (unprotectedResults adapter maxAgeTurns forcePreserveFloor
          (itemsOf (member body "messages"))).length := by
      rw [changedBlocks_eq, List.countP_eq_length]
      simpa using fun turn block => hfresh (turn, block)
    refine ⟨_, _, ageToolResults_eq hpresent, onlyAges_agedBody fun p hp => ?_, ?_, ?_⟩
    · obtain ⟨hold, hfree⟩ := mem_unprotectedResults.mp hp
      refine mayAge_of_mem hold fun hmentioned => ?_
      rw [hscanned p hold hmentioned] at hfree
      cases hfree
    · rw [length_recorded, hchanged]
    · rw [itemsAged_recordAged, length_recorded, hchanged, Nat.min_eq_left hsingle]

def toolResult (id text : String) : Value :=
  .object [("type", .string "tool_result"), ("tool_use_id", .string id), ("content", .string text)]

def resultsThen (blocks : List Value) (later : String) : Value :=
  .object [("messages", .array [
    .object [("role", .string "user"), ("content", .array blocks)],
    .object [("role", .string "user"), ("content", .string later)]])]

def noSlidingWindow : SlidingWindowStats :=
  { itemsAged := 0, bytesRemoved := 0, cumulativeBytesRemoved := 0 }

/-- The scan passes over a plain string that names the path of the result again, and two results
are recorded as one item. -/
theorem not_agesByRule_named :
    ¬ AgesByRule .anthropic 1 1 (resultsThen [toolResult "t1" "src/a.rs"] "now edit src/a.rs")
        noSlidingWindow ∧
      ¬ AgesByRule .anthropic 1 1
        (resultsThen [toolResult "t1" "one", toolResult "t2" "two"] "go on") noSlidingWindow := by
  constructor
  · rintro ⟨body', removed, hrun, honly, -, -⟩
    rw [ageToolResults_eq rfl] at hrun
    cases hrun
    have hageable : (0, toolResult "t1" "src/a.rs") ∈ ageableBlocks 1
        (itemsOf (member (resultsThen [toolResult "t1" "src/a.rs"] "now edit src/a.rs")
          "messages")) := List.mem_singleton.mpr rfl
    have hunprotected := mem_unprotectedResults.mpr ⟨mem_oldResults.mpr ⟨hageable,
      (by decide +kernel : PlatformAdapter.isToolResult .anthropic _ = true),
      (by decide +kernel), (by decide +kernel : 1 < 2)⟩, (by decide +kernel)⟩
    refine (mayAge_of_onlyAges honly hageable ((agedBlock_ne_iff hageable).mpr
      ⟨hunprotected, ?_⟩)).unmentioned ?_
    · exact fun hsame => absurd (Value.string.inj hsame) (by decide +kernel)
    · refine ⟨"src/a.rs".toList, by decide +kernel, _, List.mem_singleton.mpr rfl,
        "now edit src/a.rs", by decide +kernel, by decide +kernel⟩
  · rintro ⟨body', removed, hrun, -, hcount, hstats⟩
    rw [ageToolResults_eq rfl] at hrun
    cases hrun
    rw [itemsAged_recordAged, ← hcount, length_recorded] at hstats
    exact absurd hstats (by decide +kernel)

end Proxy
end CleanCtx
