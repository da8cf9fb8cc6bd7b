import CleanCtx.Library.JsonErase
import CleanCtx.Proxy.Cache
import CleanCtx.Proxy.Platform

/-!
Breakpoint injection as an annotation. Where every place the injection reads is
present, each slot adds one marker and nothing else; the two message slots fall
on one block when no later message has a cacheable block.
-/
namespace CleanCtx
namespace Proxy

open Value

section Blocks

variable {block marker : Value} {members : List (String × Value)}

theorem mark_fresh (marker : Value) (h : members.lookup cacheControl = none) :
    mark marker (object members) = some (object (members ++ [(cacheControl, marker)]), ()) := by
  simp only [mark, atKey, h]
  rfl

theorem setMember_append (h : members.lookup cacheControl = none) {old : Value} :
    setMember cacheControl marker (members ++ [(cacheControl, old)]) =
      members ++ [(cacheControl, marker)] := by
  induction members with
  | nil => rfl
  | cons entry members ih =>
      obtain ⟨k, v⟩ := entry
      by_cases hk : k = cacheControl
      · rw [hk, List.lookup_cons_self] at h
        cases h
      · have hne : (cacheControl == k) = false := by simpa using Ne.symm hk
        rw [List.lookup_cons, hne] at h
        rw [List.cons_append, setMember, if_neg hk, ih h, List.cons_append]

/-- A second marker takes the place of the first. -/
theorem mark_again (h : members.lookup cacheControl = none) {old : Value} :
    mark marker (object (members ++ [(cacheControl, old)])) =
      some (object (members ++ [(cacheControl, marker)]), ()) := by
  have hlookup : (members ++ [(cacheControl, old)]).lookup cacheControl = some old := by
    rw [List.lookup_append, h, Option.none_or, List.lookup_cons_self]
  rw [mark, atKey_object hlookup]
  simp only [Option.map_some, setMember_append h]

theorem lookup_of_unmarked (h : hasMarker (object members) = false) :
    members.lookup cacheControl = none :=
  Option.isNone_iff_eq_none.mp (by simpa [hasMarker] using h)

theorem stripBlock_unmarked (h : hasMarker block = false) : stripBlock block = some (block, 0) := by
  cases block with
  | object members =>
      rw [stripBlock, removeMarker, lookup_of_unmarked h]
      rfl
  | null | bool | number | string | array => rfl

theorem object_of_member {key s : String} (h : (member block key).asStr = some s) :
    ∃ members, block = object members := by
  cases block with
  | object members => exact ⟨members, rfl⟩
  | null | bool | number | string | array => cases h

theorem object_of_isLarge (h : isLarge block = true) : ∃ members, block = object members := by
  rw [isLarge] at h
  cases htext : (member block "text").asStr with
  | none => simp [htext] at h
  | some s => exact object_of_member htext

theorem object_of_isCacheable (h : isCacheable block = true) : ∃ members, block = object members := by
  rw [isCacheable] at h
  cases htype : (member block "type").asStr with
  | none => simp [htype] at h
  | some s => exact object_of_member htype

theorem isCacheable_append {value : Value} :
    isCacheable (object (members ++ [(cacheControl, value)])) = isCacheable (object members) := by
  have hmember : member (object (members ++ [(cacheControl, value)])) "type" =
      member (object members) "type" := by
    rw [member, member, get_object, get_object, List.lookup_append, List.lookup_cons,
      show (("type" : String) == cacheControl) = false by decide +kernel]
    simp
  rw [isCacheable, isCacheable, hmember]

theorem occurrences_ephemeral : ephemeral.occurrences cacheControl = 0 := by
  decide +kernel

theorem occurrences_ephemeralFor (ttl : String) :
    (ephemeralFor ttl).occurrences cacheControl = 0 := by
  simp [ephemeralFor, occurrences, occurrencesOf, cacheControl]

end Blocks

section Content

variable {content pre post : List Value} {members : List (String × Value)} {ttl : String}

theorem contentSlots_none (ttl : String) (h : ∀ block ∈ content, isCacheable block = false) :
    firstContentSlot content = some (content, false) ∧
      tailContentSlot ttl content = some (content, false) := by
  refine ⟨by rw [firstContentSlot, rposition_none h], fromBack_same fun block hblock => ?_⟩
  rw [h block hblock]
  rfl

theorem firstContentSlot_found (hcacheable : isCacheable (object members) = true)
    (hfresh : members.lookup cacheControl = none) (hpost : ∀ block ∈ post, isCacheable block = false) :
    firstContentSlot (pre ++ object members :: post) =
      some (pre ++ object (members ++ [(cacheControl, ephemeral)]) :: post, true) := by
  rw [firstContentSlot, rposition_found hcacheable hpost]
  simp only [atIndex_append, mark_fresh _ hfresh, Option.map_some]

theorem tailContentSlot_found {members' : List (String × Value)}
    (hcacheable : isCacheable (object members) = true)
    (hmark : mark (ephemeralFor ttl) (object members) = some (object members', ()))
    (hpost : ∀ block ∈ post, isCacheable block = false) :
    tailContentSlot ttl (pre ++ object members :: post) =
      some (pre ++ object members' :: post, true) := by
  refine fromBack_found pre ?_ fun block hblock => ?_
  · rw [if_pos hcacheable, hmark]
    rfl
  · rw [hpost block hblock]
    rfl

end Content

def isTaggable (msg : Value) : Bool := (itemsOf (member msg "content")).any isCacheable

section Messages

variable {msg content : Value} {members : List (String × Value)} {ttl : String}

theorem atKey_same {β : Type} {key : String} {f : Value → Option (Value × β)} {v : Value} {b : β}
    (hlookup : members.lookup key = some v) (hf : f v = some (v, b)) :
    atKey key f (object members) = some (object members, b) := by
  rw [atKey_object hlookup, hf]
  simp only [Option.map_some, setMember_self hlookup]

theorem onArray_same {β : Type} {otherwise : β} {f : List Value → Option (List Value × β)} {v : Value}
    (hf : ∀ items, v = array items → f items = some (items, otherwise)) :
    onArray otherwise f v = some (v, otherwise) := by
  cases v with
  | array items =>
      rw [onArray, hf items rfl]
      rfl
  | null | bool | number | string | object => rfl

theorem messageSlots_none (ttl : String) (hcontent : members.lookup "content" = some content)
    (h : isTaggable (object members) = false) :
    atKey "content" (onArray false firstContentSlot) (object members) =
        some (object members, false) ∧
      atKey "content" (onArray false (tailContentSlot ttl)) (object members) =
        some (object members, false) := by
  have hblocks : ∀ items, content = array items → ∀ block ∈ items, isCacheable block = false := by
    intro items heq block hblock
    have hnone := List.any_eq_false.mp h block
    rw [member, get_object, hcontent, heq] at hnone
    exact Bool.eq_false_iff.mpr (hnone hblock)
  refine ⟨atKey_same hcontent (onArray_same fun items heq => ?_),
    atKey_same hcontent (onArray_same fun items heq => ?_)⟩
  · exact (contentSlots_none ttl (hblocks items heq)).1
  · exact (contentSlots_none ttl (hblocks items heq)).2

/-- On a message with a cacheable block both slots mark the last one; the tail slot leaves its
marker there also when the first slot came before. -/
theorem messageSlots_found (ttl : String) (h : isTaggable msg = true)
    (hunmarked : arrayHasMarker (member msg "content") = false) :
    ∃ first tail,
      atKey "content" (onArray false firstContentSlot) msg = some (first, true) ∧
      atKey "content" (onArray false (tailContentSlot ttl)) msg = some (tail, true) ∧
      atKey "content" (onArray false (tailContentSlot ttl)) first = some (tail, true) ∧
      Adds cacheControl msg first 1 ∧ Adds cacheControl msg tail 1 := by
  obtain ⟨mm, rfl, items, hcontent⟩ : ∃ mm, msg = object mm ∧ ∃ items,
      mm.lookup "content" = some (array items) := by
    obtain ⟨block, hblock, -⟩ := List.any_eq_true.mp h
    cases msg with
    | object mm =>
        refine ⟨mm, rfl, ?_⟩
        rw [member, get_object] at hblock
        cases hlookup : mm.lookup "content" with
        | none => simp [hlookup, itemsOf, asArray] at hblock
        | some v =>
            rw [hlookup] at hblock
            cases v with
            | array items => exact ⟨items, rfl⟩
            | null | bool | number | string | object => cases hblock
    | null | bool | number | string | array => cases hblock
  have hitems : itemsOf (member (object mm) "content") = items := by
    rw [member, get_object, hcontent]
    rfl
  rw [isTaggable, hitems] at h
  obtain ⟨pre, block, post, rfl, hcacheable, hpost⟩ := exists_last (List.any_eq_true.mp h)
  obtain ⟨bm, rfl⟩ := object_of_isCacheable hcacheable
  have hfresh : bm.lookup cacheControl = none := by
    refine lookup_of_unmarked (Bool.eq_false_iff.mpr fun hmarked => ?_)
    rw [arrayHasMarker, show (member (object mm) "content").asArray.getD [] = _ from hitems,
      List.any_eq_false] at hunmarked
    exact hunmarked _ (by simp) hmarked
  have hsecond : isCacheable (object (bm ++ [(cacheControl, ephemeral)])) = true := by
    rw [isCacheable_append, hcacheable]
  have hafter : ∀ {v : Value}, (setMember "content" v mm).lookup "content" = some v :=
    lookup_setMember_self (by rw [hcontent]; rfl)
  let marked (marker : Value) : Value := object (setMember "content"
    (array (pre ++ object (bm ++ [(cacheControl, marker)]) :: post)) mm)
  refine ⟨marked ephemeral, marked (ephemeralFor ttl), ?_, ?_, ?_, ?_, ?_⟩
  · rw [atKey_object hcontent, onArray, firstContentSlot_found hcacheable hfresh hpost]
    rfl
  · rw [atKey_object hcontent, onArray,
      tailContentSlot_found hcacheable (mark_fresh _ hfresh) hpost]
    rfl
  · rw [atKey_object hafter, onArray, tailContentSlot_found hsecond (mark_again hfresh) hpost]
    simp only [Option.map_some, setMember_setMember]
    rfl
  · exact ((adds_append occurrences_ephemeral).item _).array.member (by decide) hcontent
  · exact ((adds_append (occurrences_ephemeralFor ttl)).item _).array.member (by decide) hcontent

/-- Every message is an object with a content, and no block of it is marked. -/
def Ready (messages : List Value) : Prop :=
  ∀ msg ∈ messages, (∃ mm content, msg = object mm ∧ mm.lookup "content" = some content) ∧
    arrayHasMarker (member msg "content") = false

theorem tailStep_none (ttl : String) {messages : List Value} (h : Ready messages)
    (hmsg : msg ∈ messages) (hnone : isTaggable msg = false) :
    atKey "content" (onArray false (tailContentSlot ttl)) msg = some (msg, false) := by
  obtain ⟨⟨mm, content, rfl, hcontent⟩, -⟩ := h msg hmsg
  exact (messageSlots_none ttl hcontent hnone).2

/-- The tail slot marks the last message that can be marked, if there is one. -/
theorem tailSlot_spec (ttl : String) {messages : List Value} (h : Ready messages) :
    ∃ messages', tailSlot ttl messages = some (messages', messages.any isTaggable) ∧
      AddsItems cacheControl messages messages' (messages.any isTaggable).toNat ∧
      (messages.any isTaggable = false → messages' = messages) := by
  cases hany : messages.any isTaggable with
  | false =>
      refine ⟨messages, fromBack_same fun msg hmsg => ?_, AddsItems.refl _, fun _ => rfl⟩
      exact tailStep_none ttl h hmsg (Bool.eq_false_iff.mpr (List.any_eq_false.mp hany msg hmsg))
  | true =>
      obtain ⟨pre, msg, post, rfl, hmsg, hpost⟩ := exists_last (List.any_eq_true.mp hany)
      obtain ⟨-, tail, -, htail, -, -, hadds⟩ :=
        messageSlots_found ttl hmsg (h msg (by simp)).2
      refine ⟨pre ++ tail :: post, fromBack_found pre htail fun x hx => ?_, hadds.item pre, nofun⟩
      exact tailStep_none ttl h (by simp [hx]) (hpost x hx)

/-- The two message slots one after the other. With a markable first message and none after it
they mark the same block. -/
theorem messageSlots_spec (ttl : String) {first : Value} {rest : List Value}
    (h : Ready (first :: rest)) :
    ∃ messages₁ messages₂,
      firstMessageSlot (first :: rest) = some (messages₁, isTaggable first) ∧
      tailSlot ttl messages₁ = some (messages₂, (first :: rest).any isTaggable) ∧
      AddsItems cacheControl (first :: rest) messages₂
        (((first :: rest).any isTaggable).toNat + (isTaggable first && rest.any isTaggable).toNat) ∧
      ((first :: rest).any isTaggable = false → messages₂ = first :: rest) := by
  have hrest : Ready rest := fun msg hmsg => h msg (List.mem_cons_of_mem _ hmsg)
  obtain ⟨⟨mm, content, hobject, hcontent⟩, hunmarked⟩ := h first List.mem_cons_self
  cases hfirst : isTaggable first with
  | false =>
      have hnone := (messageSlots_none ttl hcontent (hobject ▸ hfirst)).1
      obtain ⟨messages₂, htail, hadds, hsame⟩ := tailSlot_spec ttl h
      refine ⟨first :: rest, messages₂, ?_, htail, by simpa using hadds, hsame⟩
      rw [firstMessageSlot, hobject, hnone]
      rfl
  | true =>
      obtain ⟨first₁, tail, hslot, -, hagain, hadds₁, haddsTail⟩ :=
        messageSlots_found ttl hfirst hunmarked
      have hstep : firstMessageSlot (first :: rest) = some (first₁ :: rest, true) := by
        rw [firstMessageSlot, hslot]
        rfl
      have hany : (first :: rest).any isTaggable = true := by rw [List.any_cons, hfirst, Bool.true_or]
      rw [hany]
      obtain ⟨rest₂, htail, haddsRest, -⟩ := tailSlot_spec ttl hrest
      cases hlater : rest.any isTaggable with
      | true =>
          rw [hlater] at htail haddsRest
          refine ⟨first₁ :: rest, first₁ :: rest₂, hstep, ?_, ?_, nofun⟩
          · rw [tailSlot, fromBack, show fromBack _ rest = _ from htail]
            rfl
          · have hhead : AddsItems cacheControl (first :: rest) (first₁ :: rest) 1 :=
              hadds₁.item []
            refine ⟨?_, ?_⟩
            · rw [← hhead.erase, eraseItems, eraseItems, haddsRest.erase]
            · rw [occurrencesIn, hadds₁.count, haddsRest.count, occurrencesIn]
              simp only [Bool.toNat_true, Bool.and_self]
              omega
      | false =>
          refine ⟨first₁ :: rest, tail :: rest, hstep, ?_, ?_, nofun⟩
          · refine fromBack_found [] hagain fun x hx => ?_
            exact tailStep_none ttl hrest hx (Bool.eq_false_iff.mpr (List.any_eq_false.mp hlater x hx))
          · exact haddsTail.item []

end Messages

section Slots

variable {tools system : List Value}

theorem hasMarker_of_any {items : List Value} (h : items.any hasMarker = false) {item : Value}
    (hitem : item ∈ items) : hasMarker item = false :=
  Bool.eq_false_iff.mpr (List.any_eq_false.mp h item hitem)

theorem toolsSlot_spec (hlast : ∀ tool ∈ tools.getLast?, ∃ members, tool = object members)
    (hunmarked : tools.any hasMarker = false) :
    ∃ tools', toolsSlot tools = some (tools', !tools.isEmpty) ∧
      AddsItems cacheControl tools tools' (!tools.isEmpty).toNat ∧
      ((!tools.isEmpty) = false → tools' = tools) := by
  cases hempty : tools.isEmpty with
  | true => exact ⟨tools, by rw [toolsSlot, hempty]; rfl, AddsItems.refl _, fun _ => rfl⟩
  | false =>
      have hne : tools ≠ [] := by simpa using hempty
      obtain ⟨members, hobject⟩ := hlast _ (List.getLast?_eq_some_getLast hne)
      have hsplit := List.dropLast_append_getLast hne
      rw [hobject] at hsplit
      have hfresh : members.lookup cacheControl = none :=
        lookup_of_unmarked (hasMarker_of_any hunmarked (by rw [← hsplit]; simp))
      have hmarked := mark_fresh ephemeral hfresh
      have hadds : AddsItems cacheControl (tools.dropLast ++ object members :: []) _ 1 :=
        (adds_append occurrences_ephemeral).item _
      rw [hsplit] at hadds
      refine ⟨tools.dropLast ++ [object (members ++ [(cacheControl, ephemeral)])], ?_, hadds, nofun⟩
      have hindex : atIndex (mark ephemeral) tools.dropLast.length
          (tools.dropLast ++ object members :: []) =
          some (tools.dropLast ++ [object (members ++ [(cacheControl, ephemeral)])], ()) := by
        rw [atIndex_append, hmarked]
        rfl
      rw [hsplit, List.length_dropLast] at hindex
      rw [toolsSlot, hempty, if_neg Bool.false_ne_true, hindex]
      rfl

theorem systemSlot_spec (hunmarked : system.any hasMarker = false) :
    ∃ system', systemSlot system = some (system', system.any isLarge, 0) ∧
      AddsItems cacheControl system system' (system.any isLarge).toNat ∧
      (system.any isLarge = false → system' = system) := by
  cases hlarge : system.any isLarge with
  | false =>
      have hnone : ∀ block ∈ system, isLarge block = false := fun block hblock =>
        Bool.eq_false_iff.mpr (List.any_eq_false.mp hlarge block hblock)
      refine ⟨system, ?_, AddsItems.refl _, fun _ => rfl⟩
      rw [systemSlot, rposition_none hnone]
  | true =>
      obtain ⟨pre, block, post, rfl, hblock, hpost⟩ := exists_last (List.any_eq_true.mp hlarge)
      obtain ⟨members, rfl⟩ := object_of_isLarge hblock
      have hfresh : members.lookup cacheControl = none :=
        lookup_of_unmarked (hasMarker_of_any hunmarked (by simp))
      have hstrip : forEach (fun block => if isSmall block then stripBlock block else some (block, 0))
          (pre ++ object members :: post) = some (pre ++ object members :: post, 0) := by
        refine forEach_same fun x hx => ?_
        split
        · exact stripBlock_unmarked (hasMarker_of_any hunmarked hx)
        · rfl
      refine ⟨pre ++ object (members ++ [(cacheControl, ephemeral)]) :: post, ?_,
        (adds_append occurrences_ephemeral).item _, nofun⟩
      rw [systemSlot, rposition_found hblock hpost]
      simp only [hstrip, Option.bind_eq_bind, Option.bind_some, atIndex_append, mark_fresh _ hfresh,
        Option.map_some]

/-- A slot acts on the items of an array, and on no other value. -/
theorem onArray_spec {β : Type} (otherwise b : β) (f : List Value → Option (List Value × β))
    (v : Value) (placed : Bool) (hother : itemsOf v = [] → b = otherwise ∧ placed = false)
    (hslot : ∃ items', f (itemsOf v) = some (items', b) ∧
      AddsItems cacheControl (itemsOf v) items' placed.toNat ∧
      (placed = false → items' = itemsOf v)) :
    ∃ v', onArray otherwise f v = some (v', b) ∧ Adds cacheControl v v' placed.toNat ∧
      (placed = false → v' = v) := by
  cases v with
  | array items =>
      obtain ⟨items', hf, hadds, hsame⟩ := hslot
      refine ⟨array items', ?_, hadds.array, fun hnone => congrArg array (hsame hnone)⟩
      rw [onArray, show f items = _ from hf]
      rfl
  | null | bool | number | string | object =>
      obtain ⟨rfl, rfl⟩ := hother rfl
      exact ⟨_, rfl, Adds.refl _, fun _ => rfl⟩

end Slots

section Injection

variable {body : Value}

def messagesOf (body : Value) : List Value := itemsOf (member body "messages")

def toolsPlaced (body : Value) : Bool := !(itemsOf (member body "tools")).isEmpty

def systemPlaced (body : Value) : Bool := (itemsOf (member body "system")).any isLarge

def firstPlaced (body : Value) : Bool := (messagesOf body).head?.any isTaggable

def tailPlaced (body : Value) : Bool := (messagesOf body).any isTaggable

def laterTaggable (body : Value) : Bool := (messagesOf body).tail.any isTaggable

/-- Every place the injection reads as a mutable place is there. -/
structure PlacesPresent (body : Value) : Prop where
  tools : (body.get "tools").isSome
  system : (body.get "system").isSome
  messages : (body.get "messages").isSome
  lastTool : ∀ tool ∈ (itemsOf (member body "tools")).getLast?, ∃ members, tool = object members
  contents : ∀ msg ∈ messagesOf body, (msg.get "content").isSome

theorem ready_of_present (h : PlacesPresent body) (hunmarked : hasAnyBreakpoints body = false) :
    Ready (messagesOf body) := by
  intro msg hmsg
  obtain ⟨content, hcontent⟩ := Option.isSome_iff_exists.mp (h.contents msg hmsg)
  simp only [hasAnyBreakpoints, Bool.or_eq_false_iff] at hunmarked
  refine ⟨?_, Bool.eq_false_iff.mpr (List.any_eq_false.mp hunmarked.2 msg hmsg)⟩
  cases msg with
  | object mm => exact ⟨mm, content, rfl, hcontent⟩
  | null | bool | number | string | array => cases hcontent

/-- Nothing is stripped from, or created in, a body whose places are present and unmarked. -/
theorem strip_present {members : List (String × Value)} (h : PlacesPresent (object members))
    (hunmarked : hasAnyBreakpoints (object members) = false) :
    stripExistingBreakpoints (object members) = some (object members, 0) := by
  have hready := ready_of_present h hunmarked
  simp only [hasAnyBreakpoints, Bool.or_eq_false_iff] at hunmarked
  obtain ⟨tools, htools⟩ := Option.isSome_iff_exists.mp h.tools
  obtain ⟨system, hsystem⟩ := Option.isSome_iff_exists.mp h.system
  obtain ⟨messages, hmessages⟩ := Option.isSome_iff_exists.mp h.messages
  have hblocks : ∀ {items : List Value}, items.any hasMarker = false →
      forEach stripBlock items = some (items, 0) := fun hitems =>
    forEach_same fun block hblock => stripBlock_unmarked (hasMarker_of_any hitems hblock)
  have hkey : ∀ {key : String} {v : Value}, (object members).get key = some v →
      arrayHasMarker (member (object members) key) = false →
      atKey key (onArray 0 (forEach stripBlock)) (object members) = some (object members, 0) := by
    intro key v hv hnone
    refine atKey_same hv (onArray_same fun items heq => hblocks ?_)
    rw [member, hv, heq] at hnone
    exact hnone
  have hmsgs : atKey "messages" (onArray 0 (forEach (atKey "content" (onArray 0
      (forEach stripBlock))))) (object members) = some (object members, 0) := by
    refine atKey_same hmessages (onArray_same fun items heq => forEach_same fun msg hmsg => ?_)
    have hmem : msg ∈ messagesOf (object members) := by
      rw [messagesOf, member, hmessages, heq]
      exact hmsg
    obtain ⟨⟨mm, content, rfl, hcontent⟩, hnone⟩ := hready msg hmem
    refine atKey_same hcontent (onArray_same fun blocks hcontents => hblocks ?_)
    rw [member, get_object, hcontent, hcontents] at hnone
    exact hnone
  rw [stripExistingBreakpoints, hkey htools hunmarked.1.1, Option.bind_eq_bind, Option.bind_some]
  simp only [hkey hsystem hunmarked.1.2, hmsgs, Option.bind_some]

def slotsPlaced (body : Value) : Nat :=
  (toolsPlaced body).toNat + (systemPlaced body).toNat + (firstPlaced body).toNat +
    (tailPlaced body).toNat

def blocksMarked (body : Value) : Nat :=
  (toolsPlaced body).toNat + (systemPlaced body).toNat + (tailPlaced body).toNat +
    (firstPlaced body && laterTaggable body).toNat

/-- The two message slots on the value under the messages key. -/
theorem messages_spec (ttl : String) {v : Value} (h : Ready (itemsOf v)) :
    ∃ v₁ v₂,
      onArray false firstMessageSlot v = some (v₁, (itemsOf v).head?.any isTaggable) ∧
      onArray false (tailSlot ttl) v₁ = some (v₂, (itemsOf v).any isTaggable) ∧
      Adds cacheControl v v₂ (((itemsOf v).any isTaggable).toNat +
        ((itemsOf v).head?.any isTaggable && (itemsOf v).tail.any isTaggable).toNat) ∧
      ((itemsOf v).any isTaggable = false → v₂ = v) := by
  cases v with
  | array items =>
      cases items with
      | nil => exact ⟨array [], array [], rfl, rfl, Adds.refl _, fun _ => rfl⟩
      | cons first rest =>
          obtain ⟨messages₁, messages₂, hfirst, htail, hadds, hsame⟩ := messageSlots_spec ttl h
          refine ⟨array messages₁, array messages₂, ?_, ?_, hadds.array,
            fun hnone => congrArg array (hsame hnone)⟩
          · rw [onArray, hfirst]
            rfl
          · rw [onArray, htail]
            rfl
  | null | bool | number | string | object =>
      exact ⟨_, _, rfl, rfl, Adds.refl _, fun _ => rfl⟩

section Present

variable {members : List (String × Value)}

theorem member_of_get {key : String} {v : Value} (h : (object members).get key = some v) :
    member (object members) key = v := by
  rw [member, h, Option.getD_some]

/-- The tools slot, where there are tools. -/
theorem tools_spec (h : PlacesPresent (object members))
    (hunmarked : arrayHasMarker (member (object members) "tools") = false) {tools : Value}
    (htools : (object members).get "tools" = some tools) :
    ∃ tools', onArray false toolsSlot tools = some (tools', toolsPlaced (object members)) ∧
      Adds cacheControl tools tools' (toolsPlaced (object members)).toNat ∧
      (toolsPlaced (object members) = false → tools' = tools) := by
  have hvalue := member_of_get htools
  refine onArray_spec false _ toolsSlot tools _ (fun hnone => ?_) ?_
  · simp [toolsPlaced, hvalue, hnone]
  · rw [toolsPlaced, hvalue]
    exact toolsSlot_spec (hvalue ▸ h.lastTool) (hvalue ▸ hunmarked)

theorem system_spec (hunmarked : arrayHasMarker (member (object members) "system") = false)
    {system : Value} (hsystem : (object members).get "system" = some system) :
    ∃ system', onArray (false, 0) systemSlot system =
        some (system', systemPlaced (object members), 0) ∧
      Adds cacheControl system system' (systemPlaced (object members)).toNat ∧
      (systemPlaced (object members) = false → system' = system) := by
  have hvalue := member_of_get hsystem
  refine onArray_spec (false, 0) (_, 0) systemSlot system _ (fun hnone => ?_) ?_
  · simp [systemPlaced, hvalue, hnone]
  · rw [systemPlaced, hvalue]
    exact systemSlot_spec (hvalue ▸ hunmarked)

/-- One slot, run on the member that it works on. -/
theorem atKey_run {β : Type} {key : String} {v v' : Value} {skipped result : β}
    {slot : List Value → Option (List Value × β)} (hv : members.lookup key = some v)
    (hslot : onArray skipped slot v = some (v', result)) :
    atKey key (onArray skipped slot) (object members) =
      some (object (setMember key v' members), result) := by
  rw [atKey_object hv, hslot]
  rfl

/-- The four slots one after the other are the injection. -/
theorem injectBreakpoints_of_slots {ttl : String} (stats : CacheStats) {a b c d : Value}
    (hunmarked : hasAnyBreakpoints (object members) = false)
    (hstrip : stripExistingBreakpoints (object members) = some (object members, 0))
    (htools : atKey "tools" (onArray false toolsSlot) (object members) =
      some (a, toolsPlaced (object members)))
    (hsystem : atKey "system" (onArray (false, 0) systemSlot) a =
      some (b, systemPlaced (object members), 0))
    (hfirst : atKey "messages" (onArray false firstMessageSlot) b =
      some (c, firstPlaced (object members)))
    (htail : atKey "messages" (onArray false (tailSlot ttl)) c =
      some (d, tailPlaced (object members))) :
    ∃ stats', injectBreakpoints (object members) ttl stats =
      some (d, slotsPlaced (object members), stats') := by
  have hcount : ∀ placed : Bool, (if placed = true then 1 else 0) = placed.toNat := by decide
  have hle : ∀ placed : Bool, placed.toNat ≤ 1 := by decide
  have htools₁ := hle (toolsPlaced (object members))
  have hsystem₁ := hle (systemPlaced (object members))
  have hfirst₁ := hle (firstPlaced (object members))
  -- At most three slots are placed before the last one, so that none is left out for the limit.
  simp only [injectBreakpoints, hunmarked, hstrip, htools, hsystem, hfirst, htail,
    Option.bind_eq_bind, Option.bind_some, Bool.false_eq_true, if_false, hcount]
  rw [if_neg (by omega), if_neg (by omega), if_neg (by omega)]
  exact ⟨_, rfl⟩

/-- With every place present the injection marks blocks and does nothing else. -/
theorem injectBreakpoints_present (ttl : String) (stats : CacheStats)
    (h : PlacesPresent (object members)) (hunmarked : hasAnyBreakpoints (object members) = false) :
    ∃ annotated stats', injectBreakpoints (object members) ttl stats =
        some (annotated, slotsPlaced (object members), stats') ∧
      Adds cacheControl (object members) annotated (blocksMarked (object members)) ∧
      (slotsPlaced (object members) = 0 → annotated = object members) := by
  have hmarks := hunmarked
  simp only [hasAnyBreakpoints, Bool.or_eq_false_iff] at hmarks
  obtain ⟨tools, htools⟩ := Option.isSome_iff_exists.mp h.tools
  obtain ⟨system, hsystem⟩ := Option.isSome_iff_exists.mp h.system
  obtain ⟨messages, hmessages⟩ := Option.isSome_iff_exists.mp h.messages
  obtain ⟨tools', hslotTools, haddsTools, hsameTools⟩ := tools_spec h hmarks.1.1 htools
  obtain ⟨system', hslotSystem, haddsSystem, hsameSystem⟩ := system_spec hmarks.1.2 hsystem
  have hof : messagesOf (object members) = itemsOf messages := by
    rw [messagesOf, member_of_get hmessages]
  obtain ⟨messages₁, messages₂, hslotFirst, hslotTail, haddsMessages, hsameMessages⟩ :=
    messages_spec ttl (hof ▸ ready_of_present h hunmarked)
  rw [← hof] at hslotFirst hslotTail haddsMessages hsameMessages
  let afterTools := setMember "tools" tools' members
  let afterSystem := setMember "system" system' afterTools
  have hsystem' : afterTools.lookup "system" = some system :=
    (lookup_setMember_of_ne (by decide)).trans hsystem
  have hmessages' : afterSystem.lookup "messages" = some messages :=
    (lookup_setMember_of_ne (by decide)).trans
      ((lookup_setMember_of_ne (by decide)).trans hmessages)
  have hmessages₁ : (setMember "messages" messages₁ afterSystem).lookup "messages" =
      some messages₁ :=
    lookup_setMember_self (by rw [hmessages']; rfl)
  have hrunTail := atKey_run hmessages₁ hslotTail
  rw [setMember_setMember] at hrunTail
  obtain ⟨stats', hstats⟩ := injectBreakpoints_of_slots stats hunmarked (strip_present h hunmarked)
    (atKey_run htools hslotTools) (atKey_run hsystem' hslotSystem)
    (atKey_run hmessages' hslotFirst) hrunTail
  refine ⟨_, stats', hstats, ?_, fun hnone => ?_⟩
  · have h₁ := haddsTools.member (by decide : "tools" ≠ cacheControl) htools
    have h₂ := haddsSystem.member (by decide : "system" ≠ cacheControl) hsystem'
    have h₃ := haddsMessages.member (by decide : "messages" ≠ cacheControl) hmessages'
    have hall := (h₁.trans h₂).trans h₃
    rw [← Nat.add_assoc] at hall
    exact hall
  · rw [slotsPlaced] at hnone
    have hzero : ∀ {placed : Bool}, placed.toNat = 0 → placed = false := by decide
    have htools' : tools' = tools := hsameTools (hzero (by omega))
    have hsystem'' : system' = system := hsameSystem (hzero (by omega))
    have htail : tailPlaced (object members) = false := hzero (by omega)
    have hmessages₂ : messages₂ = messages := hsameMessages htail
    simp only [afterSystem, afterTools, htools', hsystem'', hmessages₂, setMember_self htools,
      setMember_self hsystem, setMember_self hmessages]

end Present

/-- The places a body without client markers is changed through, one after the other. -/
theorem injectBreakpoints_steps {members : List (String × Value)} {ttl : String}
    {stats stats' : CacheStats} {annotated : Value} {n : Nat}
    (hunmarked : hasAnyBreakpoints (object members) = false)
    (h : injectBreakpoints (object members) ttl stats = some (annotated, n, stats')) :
    ∃ stripped c body₁ p₁ body₂ p₂ body₃ p₃ p₄,
      stripExistingBreakpoints (object members) = some (stripped, c) ∧
      atKey "tools" (onArray false toolsSlot) stripped = some (body₁, p₁) ∧
      atKey "system" (onArray (false, 0) systemSlot) body₁ = some (body₂, p₂) ∧
      atKey "messages" (onArray false firstMessageSlot) body₂ = some (body₃, p₃) ∧
      atKey "messages" (onArray false (tailSlot ttl)) body₃ = some (annotated, p₄) := by
  have hcount : ∀ placed : Bool, (if placed = true then 1 else 0) = placed.toNat := by decide
  have hle : ∀ placed : Bool, placed.toNat ≤ 1 := by decide
  rw [injectBreakpoints, if_neg (by rw [hunmarked]; exact Bool.false_ne_true)] at h
  obtain ⟨⟨stripped, c⟩, hstrip, h⟩ := Option.bind_eq_some_iff.mp h
  obtain ⟨⟨body₁, p₁⟩, htools, h⟩ := Option.bind_eq_some_iff.mp h
  have h₁ := hle p₁
  simp only [hcount] at h
  rw [if_neg (by omega)] at h
  obtain ⟨⟨body₂, p₂⟩, hsystem, h⟩ := Option.bind_eq_some_iff.mp h
  have h₂ := hle p₂.1
  simp only at h
  rw [if_neg (by omega)] at h
  obtain ⟨⟨body₃, p₃⟩, hfirst, h⟩ := Option.bind_eq_some_iff.mp h
  have h₃ := hle p₃
  simp only at h
  rw [if_neg (by omega)] at h
  obtain ⟨⟨body₄, p₄⟩, htail, h⟩ := Option.bind_eq_some_iff.mp h
  cases h
  exact ⟨stripped, c, body₁, p₁, body₂, p₂, body₃, p₃, p₄, hstrip, htools, hsystem, hfirst, htail⟩

theorem object_of_mark {marker block block' : Value} (h : mark marker block = some (block', ())) :
    ∃ members, block' = object members := by
  obtain ⟨v, hv, -, -⟩ := get_atKey h
  cases block' with
  | object members => exact ⟨members, rfl⟩
  | null | bool | number | string | array => cases hv

theorem object_of_erase {v : Value} {members : List (String × Value)}
    (h : v.erase cacheControl = object members) : ∃ members, v = object members := by
  cases v with
  | object members => exact ⟨members, rfl⟩
  | null | bool | number | string => simp [erase] at h
  | array items => simp [erase] at h

/-- Where the tools slot leaves the erased tools as they were, the last tool is an object. -/
theorem lastTool_of_erase {tools tools' : List Value} {placed : Bool}
    (h : toolsSlot tools = some (tools', placed))
    (herase : eraseItems cacheControl tools' = eraseItems cacheControl tools) :
    ∀ tool ∈ tools.getLast?, ∃ members, tool = object members := by
  intro tool htool
  have hmem : tools.getLast? = some tool := htool
  have hsplit : tools.dropLast ++ tool :: [] = tools := List.dropLast_append_getLast? _ hmem
  have hne : tools ≠ [] := by
    rintro rfl
    cases hmem
  rw [toolsSlot, if_neg (by simpa using hne)] at h
  obtain ⟨⟨marked, u⟩, hindex, heq⟩ := Option.map_eq_some_iff.mp h
  cases heq
  have hlength : tools.length - 1 = tools.dropLast.length := by rw [List.length_dropLast]
  rw [hlength] at hindex
  nth_rewrite 2 [← hsplit] at hindex
  rw [atIndex_append] at hindex
  obtain ⟨⟨tool', u'⟩, hmark, heq⟩ := Option.map_eq_some_iff.mp hindex
  cases heq
  obtain ⟨members, rfl⟩ := object_of_mark hmark
  nth_rewrite 2 [← hsplit] at herase
  rw [eraseItems_append, eraseItems_append, List.append_cancel_left_eq] at herase
  simp only [eraseItems, List.cons.injEq, and_true] at herase
  rw [erase] at herase
  exact object_of_erase herase.symm

/-- The messages after both slots all have a content, if they had one after the stripping. -/
theorem contents_of_slots {ttl : String} {messages messages₁ messages₂ : List Value} {p₁ p₂ : Bool}
    (h : ∀ msg ∈ messages, (msg.get "content").isSome)
    (hfirst : firstMessageSlot messages = some (messages₁, p₁))
    (htail : tailSlot ttl messages₁ = some (messages₂, p₂)) :
    ∀ msg ∈ messages₂, (msg.get "content").isSome := by
  have hstep : ∀ {f : Value → Option (Value × Bool)} (x x' : Value) (b : Bool),
      atKey "content" f x = some (x', b) → (x'.get "content").isSome := by
    intro f x x' b hx
    obtain ⟨v, hv, -, -⟩ := get_atKey hx
    rw [hv]
    rfl
  refine forall_fromBack (fun x x' b _ hx => hstep x x' b hx) ?_ htail
  cases messages with
  | nil =>
      cases hfirst
      nofun
  | cons first rest =>
      obtain ⟨⟨first', b⟩, hslot, heq⟩ := Option.map_eq_some_iff.mp hfirst
      cases heq
      exact List.forall_mem_cons.mpr ⟨hstep _ _ _ hslot, (List.forall_mem_cons.mp h).2⟩

theorem onArray_array {β : Type} {otherwise b : β} {f : List Value → Option (List Value × β)}
    {items : List Value} {v : Value} (h : onArray otherwise f (array items) = some (v, b)) :
    ∃ items', f items = some (items', b) ∧ v = array items' := by
  obtain ⟨⟨items', b'⟩, hf, heq⟩ := Option.map_eq_some_iff.mp h
  cases heq
  exact ⟨items', hf, rfl⟩

/-- The body as the slots find it: the three places are there, and so is the content of every
message. -/
theorem strip_places {body stripped : Value} {c : Nat}
    (h : stripExistingBreakpoints body = some (stripped, c)) :
    ∃ tools system messages c₁ c₂ c₃,
      (stripped.get "tools" = some tools ∧
        onArray 0 (forEach stripBlock) (member body "tools") = some (tools, c₁)) ∧
      (stripped.get "system" = some system ∧
        onArray 0 (forEach stripBlock) (member body "system") = some (system, c₂)) ∧
      stripped.get "messages" = some messages ∧
        onArray 0 (forEach (atKey "content" (onArray 0 (forEach stripBlock))))
          (member body "messages") = some (messages, c₃) := by
  obtain ⟨⟨body₁, c₁⟩, htools, h⟩ := Option.bind_eq_some_iff.mp h
  obtain ⟨⟨body₂, c₂⟩, hsystem, h⟩ := Option.bind_eq_some_iff.mp h
  obtain ⟨⟨body₃, c₃⟩, hmessages, h⟩ := Option.bind_eq_some_iff.mp h
  cases h
  obtain ⟨tools, hget₁, hslot₁, hkeep₁⟩ := get_atKey htools
  obtain ⟨system, hget₂, hslot₂, hkeep₂⟩ := get_atKey hsystem
  obtain ⟨messages, hget₃, hslot₃, hkeep₃⟩ := get_atKey hmessages
  have hmember : ∀ {v w : Value} {key : String}, v.get key = w.get key → member v key = member w key :=
    fun heq => by rw [member, member, heq]
  rw [hmember (hkeep₁ "system" (by decide))] at hslot₂
  rw [hmember ((hkeep₂ "messages" (by decide)).trans (hkeep₁ "messages" (by decide)))] at hslot₃
  refine ⟨tools, system, messages, c₁, c₂, c₃, ⟨?_, hslot₁⟩, ⟨?_, hslot₂⟩, hget₃, hslot₃⟩
  · exact (hkeep₃ _ (by decide)).trans ((hkeep₂ _ (by decide)).trans hget₁)
  · exact (hkeep₃ _ (by decide)).trans hget₂

/-- An injection that changes nothing but markers found every place present. -/
theorem placesPresent_of_erase {members : List (String × Value)} {ttl : String}
    {stats stats' : CacheStats} {annotated : Value} {n : Nat}
    (hunmarked : hasAnyBreakpoints (object members) = false)
    (h : injectBreakpoints (object members) ttl stats = some (annotated, n, stats'))
    (herase : annotated.erase cacheControl = (object members).erase cacheControl) :
    PlacesPresent (object members) := by
  obtain ⟨stripped, c, body₁, p₁, body₂, p₂, body₃, p₃, p₄, hstrip, htools, hsystem, hfirst, htail⟩ :=
    injectBreakpoints_steps hunmarked h
  obtain ⟨tools, system, messages, c₁, c₂, c₃, ⟨hgetTools, hstripTools⟩, ⟨hgetSystem, -⟩,
    hgetMessages, hstripMessages⟩ := strip_places hstrip
  obtain ⟨tools', hget₁, hslot₁, hkeep₁⟩ := get_atKey htools
  obtain ⟨system', hget₂, -, hkeep₂⟩ := get_atKey hsystem
  obtain ⟨messages₁, hget₃, hslot₃, hkeep₃⟩ := get_atKey hfirst
  obtain ⟨messages₂, hget₄, hslot₄, hkeep₄⟩ := get_atKey htail
  have hvalue : ∀ {w v : Value} {key : String}, w.get key = some v → member w key = v :=
    fun hv => by rw [member, hv, Option.getD_some]
  rw [hvalue hgetTools] at hslot₁
  rw [hvalue ((hkeep₂ "messages" (by decide)).trans ((hkeep₁ "messages" (by decide)).trans
    hgetMessages))] at hslot₃
  rw [hvalue hget₃] at hslot₄
  -- every member of the result has the same erased value in the body
  have hbody : ∀ {key : String} {v : Value}, key ≠ cacheControl → annotated.get key = some v →
      ∃ w, (object members).get key = some w ∧ v.erase cacheControl = w.erase cacheControl := by
    intro key v hkey hv
    have hmap := get_erase (v := annotated) hkey
    rw [herase, get_erase hkey, hv] at hmap
    obtain ⟨w, hw, heq⟩ := Option.map_eq_some_iff.mp hmap
    exact ⟨w, hw, heq.symm⟩
  obtain ⟨bodyTools, hbodyTools, heraseTools⟩ := hbody (by decide)
    ((hkeep₄ "tools" (by decide)).trans ((hkeep₃ "tools" (by decide)).trans
      ((hkeep₂ "tools" (by decide)).trans hget₁)))
  obtain ⟨bodySystem, hbodySystem, -⟩ := hbody (by decide)
    ((hkeep₄ "system" (by decide)).trans ((hkeep₃ "system" (by decide)).trans hget₂))
  obtain ⟨bodyMessages, hbodyMessages, heraseMessages⟩ := hbody (by decide) hget₄
  rw [hvalue hbodyTools] at hstripTools
  rw [hvalue hbodyMessages] at hstripMessages
  simp only [hasAnyBreakpoints, Bool.or_eq_false_iff] at hunmarked
  refine ⟨by rw [hbodyTools]; rfl, by rw [hbodySystem]; rfl, by rw [hbodyMessages]; rfl, ?_, ?_⟩
  · rw [hvalue hbodyTools]
    cases bodyTools with
    | array items =>
        have hnone : items.any hasMarker = false := by
          have hmarks := hunmarked.1.1
          rw [hvalue hbodyTools] at hmarks
          exact hmarks
        obtain ⟨items₁, hitems₁, rfl⟩ := onArray_array hstripTools
        rw [forEach_same fun x hx => stripBlock_unmarked (hasMarker_of_any hnone hx)] at hitems₁
        cases hitems₁
        obtain ⟨items₂, hitems₂, rfl⟩ := onArray_array hslot₁
        simp only [erase, array.injEq] at heraseTools
        exact lastTool_of_erase hitems₂ heraseTools
    | null | bool | number | string | object => rintro _ ⟨⟩
  · rw [messagesOf, hvalue hbodyMessages]
    cases bodyMessages with
    | array items =>
        obtain ⟨items₀, hitems₀, rfl⟩ := onArray_array hstripMessages
        obtain ⟨items₁, hitems₁, rfl⟩ := onArray_array hslot₃
        obtain ⟨items₂, hitems₂, rfl⟩ := onArray_array hslot₄
        have hstripped : ∀ msg ∈ items₀, (msg.get "content").isSome := by
          refine forall_forEach (fun x x' n hx => ?_) hitems₀
          obtain ⟨v, hv, -, -⟩ := get_atKey hx
          rw [hv]
          rfl
        have hafter := contents_of_slots hstripped hitems₁ hitems₂
        simp only [erase, array.injEq, eraseItems_eq_map] at heraseMessages
        intro msg hmsg
        have hmem : msg.erase cacheControl ∈ items₂.map (erase cacheControl) :=
          heraseMessages ▸ List.mem_map_of_mem hmsg
        obtain ⟨msg', hmsg', heq⟩ := List.mem_map.mp hmem
        have hcontent := hafter msg' hmsg'
        rw [← Option.isSome_map (f := erase cacheControl), ← get_erase (by decide), heq,
          get_erase (by decide), Option.isSome_map] at hcontent
        exact hcontent
    | null | bool | number | string | object => rintro _ ⟨⟩

end Injection

/-- Injection annotates: it answers, erasing the markers gives the original without its markers,
a body without markers gets at most four, the result is the number added, and a body that carries
markers comes back as it was. -/
def PureAnnotation (body : Value) (ttl : String) (stats : CacheStats) : Prop :=
  ∃ annotated n stats', injectBreakpoints body ttl stats = some (annotated, n, stats') ∧
    annotated.erase cacheControl = body.erase cacheControl ∧
    (body.occurrences cacheControl = 0 → annotated.occurrences cacheControl ≤ 4) ∧
    annotated.occurrences cacheControl = body.occurrences cacheControl + n ∧
    (body.occurrences cacheControl ≠ 0 → annotated = body)

/-- The two message slots fall on different blocks. -/
def TailApart (body : Value) : Prop := firstPlaced body = true → laterTaggable body = true

/-- A body that is returned as it is, with no slot placed, is annotated. -/
theorem pureAnnotation_same {body : Value} {ttl : String} {stats stats' : CacheStats}
    (h : injectBreakpoints body ttl stats = some (body, 0, stats')) :
    PureAnnotation body ttl stats :=
  ⟨body, 0, stats', h, rfl, fun hnone => by rw [hnone]; exact Nat.zero_le 4, rfl, fun _ => rfl⟩

/-- Every marker the result counts is one block's exactly when the message slots fall apart. -/
theorem slotsPlaced_eq_iff {body : Value} :
    slotsPlaced body = blocksMarked body ↔ TailApart body := by
  rw [slotsPlaced, blocksMarked, TailApart]
  cases firstPlaced body <;> cases laterTaggable body <;> simp [Nat.add_right_comm]

theorem slotsPlaced_le {body : Value} : slotsPlaced body ≤ 4 := by
  have hle : ∀ placed : Bool, placed.toNat ≤ 1 := by decide
  have htools := hle (toolsPlaced body)
  have hsystem := hle (systemPlaced body)
  have hfirst := hle (firstPlaced body)
  have htail := hle (tailPlaced body)
  rw [slotsPlaced]
  omega

/-- Injection is a pure annotation exactly of values that are not objects, of bodies whose markers
it sees, and of bodies in which every place it reads is present and that either carry no marker
and have the tail's block apart from the first message's, or have no block to mark. -/
theorem pureAnnotation_iff (body : Value) (ttl : String) (stats : CacheStats) :
    PureAnnotation body ttl stats ↔
      (∀ members, body ≠ object members) ∨ hasAnyBreakpoints body = true ∨
        PlacesPresent body ∧
          (body.occurrences cacheControl = 0 ∧ TailApart body ∨ slotsPlaced body = 0) := by
  cases body with
  | object members =>
      cases hseen : hasAnyBreakpoints (object members) with
      | true =>
          have hrun : ∃ stats', injectBreakpoints (object members) ttl stats =
              some (object members, 0, stats') := by
            rw [injectBreakpoints, if_pos hseen]
            exact ⟨_, rfl⟩
          obtain ⟨stats', hrun⟩ := hrun
          exact ⟨fun _ => .inr (.inl rfl), fun _ => pureAnnotation_same hrun⟩
      | false =>
          refine ⟨fun h => ?_, fun h => ?_⟩
          · obtain ⟨annotated, n, stats', hrun, herase, -, hcount, hsame⟩ := h
            have hpresent := placesPresent_of_erase hseen hrun herase
            obtain ⟨annotated', stats'', hrun', hadds, -⟩ :=
              injectBreakpoints_present ttl stats hpresent hseen
            rw [hrun] at hrun'
            cases hrun'
            rw [hadds.count, Nat.add_left_cancel_iff] at hcount
            refine .inr (.inr ⟨hpresent, ?_⟩)
            by_cases hnone : (object members).occurrences cacheControl = 0
            · exact .inl ⟨hnone, slotsPlaced_eq_iff.mp hcount.symm⟩
            · have hunchanged := hadds.count
              rw [hsame hnone] at hunchanged
              exact .inr (by omega)
          · obtain hobject | hfalse | ⟨hpresent, hcase⟩ := h
            · exact absurd rfl (hobject members)
            · cases hfalse
            · obtain ⟨annotated, stats', hrun, hadds, hsame⟩ :=
                injectBreakpoints_present ttl stats hpresent hseen
              rcases hcase with ⟨hnone, hapart⟩ | hempty
              · have hcount := hadds.count
                rw [← slotsPlaced_eq_iff.mpr hapart] at hcount
                refine ⟨annotated, _, stats', hrun, hadds.erase, fun _ => ?_, hcount, fun hmarked => ?_⟩
                · rw [hcount, hnone, Nat.zero_add]
                  exact slotsPlaced_le
                · exact absurd hnone hmarked
              · rw [hempty, hsame hempty] at hrun
                exact pureAnnotation_same hrun
  | null | bool | number | string | array =>
      exact ⟨fun _ => .inl nofun, fun _ => pureAnnotation_same rfl⟩

def bareRequest : Value :=
  object [("model", string "claude"), ("messages", array [])]

def freshStats : CacheStats :=
  { totalInjected := 0, toolsSlots := 0, systemSlots := 0, messagesSlots := 0, tailSlots := 0
    smallBlocksFiltered := 0, clientBreakpointsStripped := 0, clientBreakpointsPreserved := 0 }

/-- The request comes back with `tools` and `system` members it did not have. -/
theorem not_pureAnnotation_bareRequest : ¬ PureAnnotation bareRequest "5m" freshStats := by
  rintro ⟨annotated, n, stats', hrun, herase, -⟩
  have hnulls : injectBreakpoints bareRequest "5m" freshStats =
      some (object [("model", string "claude"), ("messages", array []), ("tools", null),
        ("system", null)], 0, freshStats) := rfl
  rw [hnulls] at hrun
  cases hrun
  simp [bareRequest, erase, eraseMembers, cacheControl] at herase

end Proxy
end CleanCtx
