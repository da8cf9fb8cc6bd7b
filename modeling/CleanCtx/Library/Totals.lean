import Mathlib.Algebra.Ring.Nat
import Mathlib.Data.List.AList

/-!
Totals over the rows of a table. An entry under a new key adds its amount, one in the
place of another gives up the old amount; a table that takes in the new rows of another
one adds theirs. A tally keeps one total for every key that the rows have.
-/
namespace CleanCtx

abbrev Table (κ ν : Type) := AList fun _ : κ => ν

variable {α κ ν : Type} [DecidableEq κ]

def total (amount : α → Nat) (items : List α) : Nat := (items.map amount).sum

theorem total_cons (amount : α → Nat) (a : α) (items : List α) :
    total amount (a :: items) = amount a + total amount items := by
  rw [total, List.map_cons, List.sum_cons, total]

theorem total_eq_zero {amount : α → Nat} {items : List α} (h : ∀ a ∈ items, amount a = 0) :
    total amount items = 0 := by
  induction items with
  | nil => rfl
  | cons a items ih =>
      obtain ⟨ha, hrest⟩ := List.forall_mem_cons.mp h
      rw [total_cons, ha, ih hrest]

theorem amount_le_total {amount : α → Nat} {items : List α} {a : α} (h : a ∈ items) :
    amount a ≤ total amount items := by
  induction items with
  | nil => cases h
  | cons b items ih =>
      rw [total_cons]
      obtain rfl | h := List.mem_cons.mp h
      · omega
      · have := ih h
        omega

theorem countP_eq_total (p : α → Bool) (items : List α) :
    items.countP p = total (fun a => if p a = true then 1 else 0) items := by
  induction items with
  | nil => rfl
  | cons a items ih => rw [List.countP_cons, total_cons, ih, Nat.add_comm]

namespace Table

/-- `values()`. -/
def rows (table : Table κ ν) : List ν := table.entries.map Sigma.snd

theorem mem_rows_of_lookup {table : Table κ ν} {k : κ} {v : ν} (h : table.lookup k = some v) :
    v ∈ table.rows :=
  List.mem_map.mpr ⟨⟨k, v⟩, List.of_mem_dlookup (Option.mem_def.mpr h), rfl⟩

theorem mem_rows_insert {table : Table κ ν} {k : κ} {v w : ν} (h : w ∈ rows (table.insert k v)) :
    w = v ∨ w ∈ table.rows := by
  obtain ⟨entry, hentry, rfl⟩ := List.mem_map.mp h
  rw [AList.entries_insert] at hentry
  obtain rfl | hentry := List.mem_cons.mp hentry
  · exact .inl rfl
  · exact .inr (List.mem_map_of_mem ((List.kerase_sublist k table.entries).subset hentry))

theorem total_insert_of_notMem (amount : ν → Nat) {table : Table κ ν} {k : κ} (v : ν)
    (h : k ∉ table) :
    total amount (rows (table.insert k v)) = amount v + total amount table.rows := by
  rw [rows, AList.entries_insert_of_notMem h, List.map_cons, total_cons]
  rfl

theorem total_kerase (amount : ν → Nat) {entries : List (Sigma fun _ : κ => ν)} {k : κ} {old : ν}
    (h : List.dlookup k entries = some old) :
    total amount ((List.kerase k entries).map Sigma.snd) + amount old =
      total amount (entries.map Sigma.snd) := by
  induction entries with
  | nil => cases h
  | cons entry entries ih =>
      by_cases hk : k = entry.1
      · obtain ⟨_, v⟩ := entry
        subst hk
        rw [List.dlookup_cons_eq, Option.some.injEq] at h
        have hkerase : List.kerase k (⟨k, v⟩ :: entries) = entries := List.kerase_cons_eq rfl
        rw [hkerase, List.map_cons, total_cons, h, Nat.add_comm]
      · rw [List.dlookup_cons_ne _ _ hk] at h
        rw [List.kerase_cons_ne hk, List.map_cons, List.map_cons, total_cons, total_cons,
          Nat.add_assoc, ih h]

theorem total_insert_of_lookup (amount : ν → Nat) {table : Table κ ν} {k : κ} {old : ν} (v : ν)
    (h : table.lookup k = some old) :
    total amount (rows (table.insert k v)) + amount old = amount v + total amount table.rows := by
  rw [rows, AList.entries_insert, List.map_cons, total_cons, Nat.add_assoc, total_kerase amount h]
  rfl

/-- What is under a key gives up its amount, and the new row adds its own. -/
theorem total_insert (amount : ν → Nat) (table : Table κ ν) (k : κ) (v : ν) :
    total amount (rows (table.insert k v)) + (table.lookup k).elim 0 amount =
      amount v + total amount table.rows := by
  cases h : table.lookup k with
  | none => exact total_insert_of_notMem amount v (AList.lookup_eq_none.mp h)
  | some old => exact total_insert_of_lookup amount v h

theorem countP_insert (p : ν → Bool) (table : Table κ ν) (k : κ) (v : ν) :
    (rows (table.insert k v)).countP p + (table.lookup k).elim 0 (fun w => (p w).toNat) =
      (p v).toNat + table.rows.countP p := by
  have hcount : (fun w => if p w = true then 1 else 0) = fun w => (p w).toNat := by
    funext w
    cases p w <;> rfl
  rw [countP_eq_total, countP_eq_total, hcount]
  exact total_insert (fun w => (p w).toNat) table k v

/-- Take in the entries of another table: a key that both have gets their rows joined. -/
def absorbEntries (join : ν → ν → ν) (table : Table κ ν) (entries : List (Sigma fun _ : κ => ν)) :
    Table κ ν :=
  entries.foldl (fun table entry =>
    match table.lookup entry.1 with
    | some row => table.insert entry.1 (join row entry.2)
    | none => table.insert entry.1 entry.2) table

def absorb (join : ν → ν → ν) (table other : Table κ ν) : Table κ ν :=
  table.absorbEntries join other.entries

def newRows (table other : Table κ ν) : List ν :=
  (other.entries.filter fun entry => entry.1 ∉ table).map Sigma.snd

section Absorb

variable {join : ν → ν → ν} {table : Table κ ν}

theorem total_absorbEntries {amount : ν → Nat} (hjoin : ∀ v w, amount (join v w) = amount v)
    {entries : List (Sigma fun _ : κ => ν)} (hnodup : entries.NodupKeys) :
    total amount (table.absorbEntries join entries).rows =
      total amount table.rows +
        total amount ((entries.filter fun entry => entry.1 ∉ table).map Sigma.snd) := by
  induction entries generalizing table with
  | nil => rfl
  | cons entry entries ih =>
      obtain ⟨hfresh, hnodup⟩ := List.nodupKeys_cons.mp hnodup
      -- The keys still to come are in the table after this one exactly if they were before.
      have hsame : ∀ {v : ν}, (entries.filter fun e => e.1 ∉ table.insert entry.1 v) =
          entries.filter fun e => e.1 ∉ table := by
        intro v
        refine List.filter_congr fun e he => ?_
        have hne : e.1 ≠ entry.1 := fun heq => hfresh (heq ▸ List.mem_keys_of_mem he)
        simp only [AList.mem_insert, hne, false_or]
      rw [absorbEntries, List.foldl_cons]
      cases hlookup : table.lookup entry.1 with
      | some row =>
          have hmem : entry.1 ∈ table := AList.lookup_isSome.mp (by rw [hlookup]; rfl)
          have hrest := @ih (table.insert entry.1 (join row entry.2)) hnodup
          rw [absorbEntries, hsame] at hrest
          have hinsert := total_insert_of_lookup amount (join row entry.2) hlookup
          rw [hjoin] at hinsert
          rw [List.filter_cons_of_neg (by simpa using hmem)]
          dsimp only
          omega
      | none =>
          have hmem : entry.1 ∉ table := AList.lookup_eq_none.mp hlookup
          have hrest := @ih (table.insert entry.1 entry.2) hnodup
          rw [absorbEntries, hsame] at hrest
          have hinsert := total_insert_of_notMem amount entry.2 hmem
          rw [List.filter_cons_of_pos (by simpa using hmem), List.map_cons, total_cons]
          dsimp only
          omega

/-- The new rows add their amounts; a joined row keeps its own. -/
theorem total_absorb {amount : ν → Nat} (hjoin : ∀ v w, amount (join v w) = amount v)
    (other : Table κ ν) :
    total amount (table.absorb join other).rows =
      total amount table.rows + total amount (table.newRows other) :=
  total_absorbEntries hjoin other.nodupKeys

theorem countP_absorb {p : ν → Bool} (hjoin : ∀ v w, p (join v w) = p v) (other : Table κ ν) :
    (rows (table.absorb join other)).countP p =
      table.rows.countP p + (table.newRows other).countP p := by
  rw [countP_eq_total, countP_eq_total, countP_eq_total]
  exact total_absorb (fun v w => by rw [hjoin]) other

def sharedRows (table other : Table κ ν) : List ν :=
  (other.entries.filter fun entry => entry.1 ∈ table).map Sigma.snd

theorem countP_newRows (p : ν → Bool) (table other : Table κ ν) :
    (table.newRows other).countP p + (table.sharedRows other).countP p = other.rows.countP p := by
  rw [newRows, sharedRows, rows]
  induction other.entries with
  | nil => rfl
  | cons entry entries ih =>
      rw [List.map_cons, List.countP_cons, ← ih]
      by_cases hmem : entry.1 ∈ table
      · rw [List.filter_cons_of_neg (by simpa using hmem),
          List.filter_cons_of_pos (by simpa using hmem), List.map_cons, List.countP_cons,
          Nat.add_assoc]
      · rw [List.filter_cons_of_pos (by simpa using hmem),
          List.filter_cons_of_neg (by simpa using hmem), List.map_cons, List.countP_cons]
        omega

/-- Where no side has more rows than it counted, the merged rows are as many as were counted on
both exactly if the rows of each side are, and none is under a key of both. -/
theorem countP_merged_iff {p : ν → Bool} {other : Table κ ν} {counted counted' : Nat}
    (h : table.rows.countP p ≤ counted) (h' : other.rows.countP p ≤ counted') :
    table.rows.countP p + (table.newRows other).countP p = counted + counted' ↔
      table.rows.countP p = counted ∧ other.rows.countP p = counted' ∧
        ∀ row ∈ table.sharedRows other, p row = false := by
  have hsplit := countP_newRows p table other
  have hnone : (∀ row ∈ table.sharedRows other, p row = false) ↔
      (table.sharedRows other).countP p = 0 := by
    simp only [List.countP_eq_zero, Bool.not_eq_true]
  rw [hnone]
  omega

theorem forall_mem_absorb {P : ν → Prop} (hjoin : ∀ v w, P v → P (join v w)) {other : Table κ ν}
    (htable : ∀ v ∈ table.rows, P v) (hother : ∀ v ∈ other.rows, P v) :
    ∀ v ∈ (table.absorb join other).rows, P v := by
  rw [absorb]
  have hentries : ∀ entry ∈ other.entries, P entry.2 := fun entry hentry =>
    hother entry.2 (List.mem_map_of_mem hentry)
  generalize other.entries = entries at hentries
  induction entries generalizing table with
  | nil => exact htable
  | cons entry entries ih =>
      obtain ⟨hentry, hrest⟩ := List.forall_mem_cons.mp hentries
      rw [absorbEntries, List.foldl_cons]
      refine ih (fun v hv => ?_) hrest
      cases hlookup : table.lookup entry.1 with
      | some row =>
          rw [hlookup] at hv
          obtain rfl | hv := mem_rows_insert hv
          · exact hjoin row entry.2 (htable row (mem_rows_of_lookup hlookup))
          · exact htable v hv
      | none =>
          rw [hlookup] at hv
          obtain rfl | hv := mem_rows_insert hv
          · exact hentry
          · exact htable v hv

end Absorb

def tally (key : α → κ) (amount : α → Nat) (items : List α) : Table κ Nat :=
  items.foldl (fun table a =>
    table.insert (key a) ((table.lookup (key a)).getD 0 + amount a)) ∅

section Tally

variable {key : α → κ} {amount : α → Nat} {items : List α} {k : κ}

theorem tally_foldl (table : Table κ Nat) :
    ((items.foldl (fun table a =>
        table.insert (key a) ((table.lookup (key a)).getD 0 + amount a)) table).lookup k).getD 0 =
      (table.lookup k).getD 0 + total (fun a => if key a = k then amount a else 0) items := by
  induction items generalizing table with
  | nil => rfl
  | cons a items ih =>
      rw [List.foldl_cons, ih, total_cons]
      by_cases hk : key a = k
      · rw [hk, AList.lookup_insert, Option.getD_some, if_pos rfl, Nat.add_assoc]
      · rw [AList.lookup_insert_ne (Ne.symm hk), if_neg hk, Nat.zero_add]

theorem getD_lookup_tally (key : α → κ) (amount : α → Nat) (items : List α) (k : κ) :
    ((tally key amount items).lookup k).getD 0 =
      total (fun a => if key a = k then amount a else 0) items := by
  rw [tally, tally_foldl]
  exact Nat.zero_add _

theorem mem_tally : k ∈ tally key amount items ↔ ∃ a ∈ items, key a = k := by
  have hfold : ∀ table : Table κ Nat, k ∈ items.foldl (fun table a =>
      table.insert (key a) ((table.lookup (key a)).getD 0 + amount a)) table ↔
        k ∈ table ∨ ∃ a ∈ items, key a = k := by
    induction items with
    | nil => exact fun table => by simp
    | cons a items ih =>
        intro table
        rw [List.foldl_cons, ih, AList.mem_insert]
        simp only [List.mem_cons, exists_eq_or_imp, eq_comm (a := k)]
        tauto
  exact (hfold ∅).trans (or_iff_right (AList.notMem_empty k))

end Tally

def ofKeys (keys : List κ) (row : κ → ν) : Table κ ν :=
  keys.foldl (fun table k => table.insert k (row k)) ∅

theorem lookup_ofKeys (keys : List κ) (row : κ → ν) (k : κ) :
    (ofKeys keys row).lookup k = if k ∈ keys then some (row k) else none := by
  have hfold : ∀ table : Table κ ν, (keys.foldl (fun table k => table.insert k (row k)) table).lookup
      k = if k ∈ keys then some (row k) else table.lookup k := by
    induction keys with
    | nil => exact fun table => by simp
    | cons j keys ih =>
        intro table
        rw [List.foldl_cons, ih]
        by_cases hmem : k ∈ keys
        · rw [if_pos hmem, if_pos (List.mem_cons_of_mem j hmem)]
        · rw [if_neg hmem]
          by_cases hk : k = j
          · rw [hk, AList.lookup_insert, if_pos List.mem_cons_self]
          · rw [AList.lookup_insert_ne hk, if_neg (by simp [hk, hmem])]
  exact hfold ∅

end Table
end CleanCtx
