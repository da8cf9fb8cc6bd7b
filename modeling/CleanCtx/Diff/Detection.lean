import Mathlib.Data.List.Induction
import Mathlib.Data.Multiset.Count
import Mathlib.Data.Multiset.MapFold
import Mathlib.Tactic.Tauto
import CleanCtx.Diff.Differ
import CleanCtx.Library.Groups

/-!
What the structural diff detects. A diff is quiet when it reports no change.
The comparator is quiet exactly when the two snapshots line up: texts as sets,
methods and fields key by key and in order, each baseline class with the last
current class of its name. That relation is compared with equality of contents,
the multisets a snapshot holds.
-/
namespace CleanCtx
namespace Diff

def Quiet (actions : List DiffAction) : Prop := ∀ a ∈ actions, a.kind = .unchanged

instance (actions : List DiffAction) : Decidable (Quiet actions) :=
  inferInstanceAs (Decidable (∀ a ∈ actions, a.kind = .unchanged))

section Quiet

variable {actions actions' : List DiffAction} {T : Type}

@[simp] theorem quiet_nil : Quiet [] := nofun

@[simp] theorem quiet_append : Quiet (actions ++ actions') ↔ Quiet actions ∧ Quiet actions' :=
  List.forall_mem_append

@[simp] theorem quiet_cons {a : DiffAction} :
    Quiet (a :: actions) ↔ a.kind = .unchanged ∧ Quiet actions :=
  List.forall_mem_cons

theorem quiet_flatMap {l : List T} {f : T → List DiffAction} :
    Quiet (l.flatMap f) ↔ ∀ x ∈ l, Quiet (f x) :=
  List.forall_mem_flatMap

theorem quiet_map {l : List T} {f : T → DiffAction} (h : ∀ x, (f x).kind ≠ .unchanged) :
    Quiet (l.map f) ↔ l = [] := by
  cases l with
  | nil => simp
  | cons x l => simp [h x]

theorem quiet_iff_any (actions : List DiffAction) :
    Quiet actions ↔ actions.any (fun a => a.kind ≠ .unchanged) = false := by
  simp [Quiet, List.any_eq_false]

end Quiet

section Grouping

variable {T : Type} (keyFn : T → String) (key : String)

theorem getElem?_groupByKey (items : List T) : (groupByKey items keyFn)[key]? =
    if underKey keyFn key items = [] then none else some (underKey keyFn key items) := by
  induction items using List.reverseRecOn with
  | nil => rfl
  | append_singleton items item ih =>
      have hstep : groupByKey (items ++ [item]) keyFn = (groupByKey items keyFn).alter (keyFn item)
          fun group => some (group.getD [] ++ [item]) := by
        rw [groupByKey, List.foldl_append]
        rfl
      rw [hstep, Std.TreeMap.getElem?_alter, underKey_append]
      by_cases hkey : keyFn item = key
      · have hgroup : (groupByKey items keyFn)[keyFn item]?.getD [] = underKey keyFn key items := by
          rw [hkey, ih]
          split
          · next h => exact h.symm
          · rfl
        have hitem : underKey keyFn key [item] = [item] := by simp [underKey, hkey]
        rw [if_pos (Std.LawfulEqOrd.compare_eq_iff_eq.mpr hkey), hgroup, hitem,
          if_neg (by simp)]
      · have hitem : underKey keyFn key [item] = [] := by simp [underKey, hkey]
        rw [if_neg (mt Std.LawfulEqOrd.compare_eq_iff_eq.mp hkey), ih, hitem, List.append_nil]

variable {keyFn key} {items : List T}

theorem mem_groupByKey : key ∈ groupByKey items keyFn ↔ underKey keyFn key items ≠ [] := by
  rw [Std.TreeMap.mem_iff_isSome_getElem?, getElem?_groupByKey]
  split <;> simp [*]

/-- The entries of the map are the groups that have an element. -/
theorem forall_toList_groupByKey {P : String × List T → Prop} :
    (∀ entry ∈ (groupByKey items keyFn).toList, P entry) ↔
      ∀ key, underKey keyFn key items ≠ [] → P (key, underKey keyFn key items) := by
  have hentry : ∀ key group, (key, group) ∈ (groupByKey items keyFn).toList ↔
      underKey keyFn key items ≠ [] ∧ underKey keyFn key items = group := by
    intro key group
    rw [Std.TreeMap.mem_toList_iff_getElem?_eq_some, getElem?_groupByKey]
    split <;> simp [*]
  refine ⟨fun h key hkey => h _ ((hentry _ _).mpr ⟨hkey, rfl⟩), fun h entry hmem => ?_⟩
  obtain ⟨hkey, hgroup⟩ := (hentry entry.1 entry.2).mp hmem
  have hentry' := h entry.1 hkey
  rwa [hgroup] at hentry'

/-- Two groups are compared quietly exactly when they are equal. -/
theorem quiet_diffGroups {pair : T → T → DiffAction} {removed added : T → DiffAction}
    (hpair : ∀ b c, (pair b c).kind = .unchanged ↔ b = c)
    (hremoved : ∀ b, (removed b).kind ≠ .unchanged) (hadded : ∀ c, (added c).kind ≠ .unchanged)
    {g1 g2 : List T} : Quiet (diffGroups pair removed added g1 g2) ↔ g1 = g2 := by
  rw [diffGroups, quiet_flatMap, ← paired_iff]
  refine forall_congr' fun i => ?_
  rw [List.mem_range]
  refine imp_congr_right fun hi => ?_
  cases h1 : g1[i]? with
  | some b =>
      cases h2 : g2[i]? with
      | some c => simp [hpair, eq_comm]
      | none => simp [hremoved]
  | none =>
      cases h2 : g2[i]? with
      | some c => simp [hadded]
      | none =>
          rw [List.getElem?_eq_none_iff] at h1 h2
          omega

end Grouping

theorem diffMethodPair_kind (key : String) (b c : CapturedMethod) :
    (diffMethodPair key b c).kind = .unchanged ↔ b = c := by
  rw [diffMethodPair]
  split
  · next h => exact ⟨fun _ => by cases b; cases c; simp_all, fun _ => rfl⟩
  · next h => exact ⟨nofun, fun hbc => absurd ⟨by rw [hbc], by rw [hbc], by rw [hbc]⟩ h⟩

theorem diffFieldPair_kind (key b c : String) :
    (diffFieldPair key b c).kind = .unchanged ↔ b = c := by
  rw [diffFieldPair]
  split
  · next h => exact ⟨fun _ => h, fun _ => rfl⟩
  · next h => exact ⟨nofun, fun hbc => absurd hbc h⟩

theorem quiet_diffMethods {base cur : List CapturedMethod} :
    Quiet (diffMethods base cur) ↔ SameGroups (fun m => methodKey m.sig) base cur := by
  rw [diffMethods, quiet_flatMap]
  refine forall_congr' fun key => ?_
  rw [Std.TreeSet.mem_toList, Std.TreeSet.mem_ofList, List.contains_iff_mem, List.mem_append,
    Std.TreeMap.mem_keys, Std.TreeMap.mem_keys, mem_groupByKey, mem_groupByKey,
    getElem?_groupByKey, getElem?_groupByKey]
  generalize underKey (fun m : CapturedMethod => methodKey m.sig) key base = g1
  generalize underKey (fun m : CapturedMethod => methodKey m.sig) key cur = g2
  have hremoved : ∀ b, (methodAction .removed key b "" "").kind ≠ .unchanged := nofun
  have hadded : ∀ c, (methodAction .added key c "" "").kind ≠ .unchanged := nofun
  have hgroups : Quiet (diffGroups _ _ _ g1 g2) ↔ g1 = g2 :=
    quiet_diffGroups (diffMethodPair_kind key) hremoved hadded
  by_cases h1 : g1 = []
  · by_cases h2 : g2 = []
    · simp [h1, h2]
    · simp [h1, h2, quiet_map hadded, eq_comm]
  · by_cases h2 : g2 = []
    · simp [h1, h2, quiet_map hremoved]
    · simp [h1, h2, hgroups]

theorem quiet_diffFields {base cur : List String} :
    Quiet (diffFields base cur) ↔ SameGroups fieldKey base cur := by
  rw [diffFields, quiet_append, quiet_flatMap, quiet_flatMap, forall_toList_groupByKey,
    forall_toList_groupByKey, ← forall_and]
  refine forall_congr' fun key => ?_
  simp only [← Std.TreeMap.mem_iff_contains, mem_groupByKey, getElem?_groupByKey]
  generalize underKey fieldKey key base = g1
  generalize underKey fieldKey key cur = g2
  have hremoved : ∀ f, (newAction .removed .field ("field " ++ key) f "").kind ≠ .unchanged := by
    rintro f ⟨⟩
  have hadded : ∀ f, (newAction .added .field ("field " ++ key) f "").kind ≠ .unchanged := by
    rintro f ⟨⟩
  have hgroups : Quiet (diffGroups _ _ _ g1 g2) ↔ g1 = g2 :=
    quiet_diffGroups (diffFieldPair_kind key) hremoved hadded
  by_cases h1 : g1 = []
  · simp [h1, quiet_map hadded, eq_comm]
  · by_cases h2 : g2 = []
    · simp [h1, h2, quiet_map hremoved]
    · simp [h1, h2, hgroups]

/-- The last class of a name, the one the comparator looks at. -/
def lastNamed (classes : List CapturedClass) (name : String) : Option CapturedClass :=
  (underKey (·.name) name classes).getLast?

theorem getElem?_classesByName (classes : List CapturedClass) (name : String) :
    (classesByName classes)[name]? = lastNamed classes name := by
  induction classes using List.reverseRecOn with
  | nil => rfl
  | append_singleton classes c ih =>
      have hstep : classesByName (classes ++ [c]) = (classesByName classes).insert c.name c := by
        rw [classesByName, List.foldl_append]
        rfl
      rw [hstep, Std.TreeMap.getElem?_insert, ih, lastNamed, lastNamed, underKey_append]
      by_cases hname : c.name = name
      · have hc : underKey (·.name) name [c] = [c] := by simp [underKey, hname]
        rw [if_pos (Std.LawfulEqOrd.compare_eq_iff_eq.mpr hname), hc, List.getLast?_concat]
      · have hc : underKey (·.name) name [c] = [] := by simp [underKey, hname]
        rw [if_neg (mt Std.LawfulEqOrd.compare_eq_iff_eq.mp hname), hc, List.append_nil]

/-- Two matched classes have the same metadata and the same members key by key, in order. -/
structure ClassLinesUp (base cur : CapturedClass) : Prop where
  classMeta : base.classMeta = cur.classMeta
  fields : SameGroups fieldKey base.fields cur.fields
  methods : SameGroups (fun m => methodKey m.sig) base.methods cur.methods

/-- What the comparator takes for equality of two snapshots. -/
structure LinesUp (b c : CapturedStructure) : Prop where
  imports : ∀ text, text ∈ b.imports ↔ text ∈ c.imports
  orphanFields : ∀ text, text ∈ b.orphanFields ↔ text ∈ c.orphanFields
  orphanMethods : SameGroups (fun m => methodKey m.sig) b.orphanMethods c.orphanMethods
  matched : ∀ cls ∈ b.classes, ∃ cur, lastNamed c.classes cls.name = some cur ∧ ClassLinesUp cls cur
  known : ∀ cls ∈ c.classes, ∃ base ∈ b.classes, base.name = cls.name

theorem quiet_diffTexts {target : DiffTarget} {label : String} {base cur : List String} :
    Quiet (diffTexts target label base cur) ↔ ∀ text, text ∈ base ↔ text ∈ cur := by
  have hadded : ∀ f, (newAction .added target label f "").kind ≠ .unchanged := nofun
  have hremoved : ∀ f, (newAction .removed target label f "").kind ≠ .unchanged := nofun
  rw [diffTexts, quiet_append, quiet_map hadded, quiet_map hremoved]
  simp only [List.filter_eq_nil_iff, Std.TreeSet.contains_ofList, Bool.not_eq_true',
    Bool.not_eq_false, List.contains_iff_mem]
  exact ⟨fun h text => ⟨h.2 text, h.1 text⟩, fun h => ⟨fun x => (h x).mpr, fun x => (h x).mp⟩⟩

theorem quiet_diffMatchedClass {base cur : CapturedClass} :
    Quiet (diffMatchedClass base cur) ↔ ClassLinesUp base cur := by
  have hclass : Quiet (diffClass base cur) ↔ SameGroups fieldKey base.fields cur.fields ∧
      SameGroups (fun m => methodKey m.sig) base.methods cur.methods := by
    rw [diffClass, quiet_append, quiet_diffMethods, quiet_diffFields, and_comm]
  have hlines : ClassLinesUp base cur ↔
      base.classMeta = cur.classMeta ∧ Quiet (diffClass base cur) := by
    rw [hclass]
    exact ⟨fun h => ⟨h.classMeta, h.fields, h.methods⟩, fun ⟨hm, hf, hg⟩ => ⟨hm, hf, hg⟩⟩
  rw [hlines, diffMatchedClass, quiet_iff_any (diffClass base cur)]
  cases (diffClass base cur).any fun a => a.kind ≠ .unchanged with
  | true => simp [newAction]
  | false => by_cases hmeta : base.classMeta = cur.classMeta <;> simp [newAction, hmeta]

theorem quiet_diffClasses {base cur : List CapturedClass} :
    Quiet (diffClasses base cur) ↔
      (∀ cls ∈ base, ∃ c, lastNamed cur cls.name = some c ∧ ClassLinesUp cls c) ∧
        ∀ cls ∈ cur, ∃ b ∈ base, b.name = cls.name := by
  have hadded : ∀ c : CapturedClass,
      (newAction .added .class ("class " ++ c.name) (summarizeClass c) "").kind ≠ .unchanged :=
    nofun
  rw [diffClasses, quiet_append, quiet_flatMap, quiet_map hadded]
  refine and_congr (forall₂_congr fun cls _ => ?_) ?_
  · rw [getElem?_classesByName]
    cases lastNamed cur cls.name with
    | none => simp [newAction]
    | some c => simp [quiet_diffMatchedClass]
  · simp [List.filter_eq_nil_iff, Std.TreeSet.contains_ofList]

theorem quiet_diffSnapshots {b c : CapturedStructure} :
    Quiet (diffSnapshots b c) ↔ LinesUp b c := by
  rw [diffSnapshots, quiet_append, quiet_append, quiet_append, diffImports, diffOrphanFields,
    quiet_diffTexts, quiet_diffTexts, quiet_diffMethods, quiet_diffClasses]
  exact ⟨fun ⟨⟨⟨hi, hm, hk⟩, hf⟩, hs⟩ => ⟨hi, hf, hs, hm, hk⟩,
    fun h => ⟨⟨⟨h.imports, h.matched, h.known⟩, h.orphanFields⟩, h.orphanMethods⟩⟩

/-- A class by its name, its metadata and the multisets of its members. -/
structure ClassContents where
  name : String
  classMeta : String
  fields : Multiset String
  methods : Multiset CapturedMethod
  deriving DecidableEq

def CapturedClass.contents (cls : CapturedClass) : ClassContents :=
  { name := cls.name, classMeta := cls.classMeta, fields := cls.fields, methods := cls.methods }

/-- What a snapshot holds, each element as often as it occurs. -/
structure SnapshotContents where
  imports : Multiset String
  orphanFields : Multiset String
  orphanMethods : Multiset CapturedMethod
  classes : Multiset ClassContents
  deriving DecidableEq

def CapturedStructure.contents (s : CapturedStructure) : SnapshotContents :=
  { imports := s.imports, orphanFields := s.orphanFields, orphanMethods := s.orphanMethods
    classes := s.classes.map CapturedClass.contents }

/-- The diff reports a change exactly when the two snapshots hold different elements. -/
def DetectsChange (b c : CapturedStructure) : Prop :=
  Quiet (diffSnapshots b c) ↔ b.contents = c.contents

/-- Repetitions and order apart, nothing stands in one of the snapshots only. -/
structure Alike (b c : CapturedStructure) : Prop where
  imports : ∀ text, text ∈ b.imports ↔ text ∈ c.imports
  orphanFields : ∀ text, text ∈ b.orphanFields ↔ text ∈ c.orphanFields
  orphanMethods : b.orphanMethods.Perm c.orphanMethods
  classes : ∀ cls ∈ b.classes, ∃ cur ∈ c.classes, cur.contents = cls.contents
  known : ∀ cls ∈ c.classes, ∃ base ∈ b.classes, base.name = cls.name

/-- Each import, orphan field and class is repeated equally often. -/
structure EvenRepeats (b c : CapturedStructure) : Prop where
  imports : ∀ text, b.imports.count text = c.imports.count text
  orphanFields : ∀ text, b.orphanFields.count text = c.orphanFields.count text
  classes : ∀ contents, (b.classes.map CapturedClass.contents).count contents =
    (c.classes.map CapturedClass.contents).count contents

/-- The orphan methods of each key stand in the same order, and of the current classes of a name
the last one is the baseline's, with the members of each key in the same order. -/
structure SameOrder (b c : CapturedStructure) : Prop where
  orphanMethods : ∀ key, b.orphanMethods.filter (fun m => methodKey m.sig = key) =
    c.orphanMethods.filter (fun m => methodKey m.sig = key)
  classes : ∀ cls ∈ b.classes, ∀ cur, lastNamed c.classes cls.name = some cur → ClassLinesUp cls cur

section Detection

variable {b c : CapturedStructure}

theorem contents_eq_iff : b.contents = c.contents ↔
    b.imports.Perm c.imports ∧ b.orphanFields.Perm c.orphanFields ∧
      b.orphanMethods.Perm c.orphanMethods ∧
      (b.classes.map CapturedClass.contents).Perm (c.classes.map CapturedClass.contents) := by
  simp only [CapturedStructure.contents, SnapshotContents.mk.injEq, Multiset.coe_eq_coe]

theorem mem_of_lastNamed {classes : List CapturedClass} {name : String} {cls : CapturedClass}
    (h : lastNamed classes name = some cls) : cls ∈ classes ∧ cls.name = name :=
  mem_underKey.mp (List.mem_of_getLast? h)

theorem ClassLinesUp.contents {base cur : CapturedClass} (h : ClassLinesUp base cur)
    (hname : base.name = cur.name) : base.contents = cur.contents := by
  simp only [CapturedClass.contents, ClassContents.mk.injEq, Multiset.coe_eq_coe]
  exact ⟨hname, h.classMeta, h.fields.perm, h.methods.perm⟩

theorem LinesUp.alike (h : LinesUp b c) : Alike b c where
  imports := h.imports
  orphanFields := h.orphanFields
  orphanMethods := h.orphanMethods.perm
  classes cls hcls := by
    obtain ⟨cur, hlast, hlined⟩ := h.matched cls hcls
    obtain ⟨hcur, hname⟩ := mem_of_lastNamed hlast
    exact ⟨cur, hcur, (hlined.contents hname.symm).symm⟩
  known := h.known

theorem alike_of_contents (h : b.contents = c.contents) : Alike b c := by
  obtain ⟨himports, hfields, hmethods, hclasses⟩ := contents_eq_iff.mp h
  refine ⟨fun text => himports.mem_iff, fun text => hfields.mem_iff, hmethods, fun cls hcls => ?_,
    fun cls hcls => ?_⟩
  · exact List.mem_map.mp (hclasses.mem_iff.mp (List.mem_map_of_mem hcls))
  · obtain ⟨base, hbase, heq⟩ :=
      List.mem_map.mp (hclasses.mem_iff.mpr (List.mem_map_of_mem hcls))
    exact ⟨base, hbase, congrArg ClassContents.name heq⟩

/-- Snapshots that are alike line up where they stand in the same order. -/
theorem Alike.linesUp_iff (h : Alike b c) : LinesUp b c ↔ SameOrder b c := by
  refine ⟨fun hlines => ⟨hlines.orphanMethods, fun cls hcls cur hcur => ?_⟩, fun horder =>
    ⟨h.imports, h.orphanFields, horder.orphanMethods, fun cls hcls => ?_, h.known⟩⟩
  · obtain ⟨cur', hcur', hlined⟩ := hlines.matched cls hcls
    rw [hcur] at hcur'
    cases hcur'
    exact hlined
  · obtain ⟨same, hsame, heq⟩ := h.classes cls hcls
    have hne : underKey (·.name) cls.name c.classes ≠ [] :=
      List.ne_nil_of_mem (mem_underKey.mpr ⟨hsame, congrArg ClassContents.name heq⟩)
    have hlast : lastNamed c.classes cls.name = some _ := List.getLast?_eq_some_getLast hne
    exact ⟨_, hlast, horder.classes cls hcls _ hlast⟩

/-- Snapshots that are alike hold the same elements where they repeat them equally often. -/
theorem Alike.contents_iff (h : Alike b c) : b.contents = c.contents ↔ EvenRepeats b c := by
  rw [contents_eq_iff, List.perm_iff_count, List.perm_iff_count,
    @List.perm_iff_count _ _ _ (b.classes.map _)]
  exact ⟨fun ⟨himports, hfields, _, hclasses⟩ => ⟨himports, hfields, hclasses⟩,
    fun heven => ⟨heven.imports, heven.orphanFields, h.orphanMethods, heven.classes⟩⟩

/-- The diff detects every change between two snapshots exactly when some element stands in one of
them only, or when repetitions and order agree: both are as in the baseline, or neither is. -/
theorem detectsChange_iff :
    DetectsChange b c ↔ (Alike b c → (EvenRepeats b c ↔ SameOrder b c)) := by
  rw [DetectsChange, quiet_diffSnapshots]
  constructor
  · intro hdetects halike
    rw [← halike.contents_iff, ← halike.linesUp_iff, hdetects]
  · intro hagree
    by_cases halike : Alike b c
    · rw [halike.linesUp_iff, halike.contents_iff, hagree halike]
    · exact iff_of_false (fun h => halike h.alike) fun h => halike (alike_of_contents h)

/-- A snapshot in which nothing repeats: texts, class names and, in each class, member keys. -/
structure WithoutRepeats (s : CapturedStructure) : Prop where
  imports : s.imports.Nodup
  orphanFields : s.orphanFields.Nodup
  orphanMethods : (s.orphanMethods.map fun m => methodKey m.sig).Nodup
  classes : (s.classes.map (·.name)).Nodup
  fields : ∀ cls ∈ s.classes, (cls.fields.map fieldKey).Nodup
  methods : ∀ cls ∈ s.classes, (cls.methods.map fun m => methodKey m.sig).Nodup

theorem classLinesUp_of_contents {base cur : CapturedClass} (h : base.contents = cur.contents)
    (hfields : (base.fields.map fieldKey).Nodup)
    (hmethods : (base.methods.map fun m => methodKey m.sig).Nodup) : ClassLinesUp base cur := by
  simp only [CapturedClass.contents, ClassContents.mk.injEq, Multiset.coe_eq_coe] at h
  obtain ⟨-, hmeta, hpermFields, hpermMethods⟩ := h
  exact ⟨hmeta, sameGroups_of_perm hpermFields hfields, sameGroups_of_perm hpermMethods hmethods⟩

theorem WithoutRepeats.contents (hb : WithoutRepeats b) : (b.classes.map (·.contents)).Nodup := by
  refine List.Nodup.of_map ClassContents.name ?_
  rw [List.map_map]
  exact hb.classes

theorem detectsChange_of_withoutRepeats (hb : WithoutRepeats b) (hc : WithoutRepeats c) :
    DetectsChange b c := by
  have hunique : ∀ x ∈ c.classes, ∀ y ∈ c.classes, x.name = y.name → x = y := fun x hx y hy =>
    List.inj_on_of_nodup_map hc.classes hx hy
  rw [DetectsChange, quiet_diffSnapshots]
  refine ⟨fun hlines => contents_eq_iff.mpr ⟨?_, ?_, hlines.orphanMethods.perm, ?_⟩, fun h => ?_⟩
  · exact (List.perm_ext_iff_of_nodup hb.imports hc.imports).mpr hlines.imports
  · exact (List.perm_ext_iff_of_nodup hb.orphanFields hc.orphanFields).mpr hlines.orphanFields
  · refine (List.perm_ext_iff_of_nodup hb.contents hc.contents).mpr fun contents => ?_
    simp only [List.mem_map]
    refine ⟨fun ⟨cls, hcls, heq⟩ => ?_, fun ⟨cls, hcls, heq⟩ => ?_⟩
    · obtain ⟨cur, hlast, hlined⟩ := hlines.matched cls hcls
      obtain ⟨hcur, hname⟩ := mem_of_lastNamed hlast
      exact ⟨cur, hcur, (hlined.contents hname.symm).symm.trans heq⟩
    · obtain ⟨base, hbase, hname⟩ := hlines.known cls hcls
      obtain ⟨cur, hlast, hlined⟩ := hlines.matched base hbase
      obtain ⟨hcur, hcurname⟩ := mem_of_lastNamed hlast
      have hsame : cur = cls := hunique cur hcur cls hcls (hcurname.trans hname)
      exact ⟨base, hbase, (hlined.contents hcurname.symm).trans (hsame ▸ heq)⟩
  · obtain ⟨-, -, hmethods, hclasses⟩ := contents_eq_iff.mp h
    refine (alike_of_contents h).linesUp_iff.mpr
      ⟨sameGroups_of_perm hmethods hb.orphanMethods, fun cls hcls cur hlast => ?_⟩
    obtain ⟨hcur, hcurname⟩ := mem_of_lastNamed hlast
    obtain ⟨cur', hcur', heq⟩ :=
      List.mem_map.mp (hclasses.mem_iff.mp (List.mem_map_of_mem hcls))
    have hname : cur'.name = cls.name := congrArg ClassContents.name heq
    have hsame : cur' = cur := hunique cur' hcur' cur hcur (hname.trans hcurname.symm)
    exact classLinesUp_of_contents (hsame ▸ heq.symm) (hb.fields cls hcls) (hb.methods cls hcls)

end Detection

def partialFoo (field : String) : CapturedClass :=
  { name := "Foo", classMeta := "", fields := [field], methods := [] }

def onePart : CapturedStructure :=
  { imports := [], classes := [partialFoo "b:int"], orphanFields := [], orphanMethods := [] }

/-- The same file after a part with a field of its own was added in front. -/
def twoParts : CapturedStructure :=
  { onePart with classes := [partialFoo "a:int", partialFoo "b:int"] }

theorem not_detectsChange_twoParts : ¬ DetectsChange onePart twoParts := by
  have hquiet : Quiet (diffSnapshots onePart twoParts) := by decide +kernel
  have hdiffers : onePart.contents ≠ twoParts.contents := by decide +kernel
  exact fun h => hdiffers (h.mp hquiet)

end Diff
end CleanCtx
