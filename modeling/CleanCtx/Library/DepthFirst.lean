import Mathlib.Algebra.Ring.Nat
import Mathlib.Algebra.BigOperators.Group.Finset.Basic
import Mathlib.Algebra.Order.BigOperators.Group.Finset
import Mathlib.Logic.Relation
import Mathlib.Data.List.Nodup

/-!
Three-colour depth-first search for a cycle, with an explicit stack of nodes and
positions in their adjacency lists, and with parents from which a closed path is
read back. The search needs no more steps than there are nodes and edges, never
gets stuck, and returns a path exactly when the graph has a cycle.
-/
namespace CleanCtx

inductive Color
  | white | gray | black
  deriving DecidableEq

structure DepthFirst (ε : Type) where
  color : Nat → Color
  parentNode : Nat → Option Nat
  parentEdge : Nat → Option ε
  stack : List (Nat × Nat)

namespace DepthFirst

variable {ε : Type}

def new : DepthFirst ε where
  color _ := .white
  parentNode _ := none
  parentEdge _ := none
  stack := []

def start (s : DepthFirst ε) (node : Nat) : DepthFirst ε :=
  { s with color := Function.update s.color node .gray, stack := [(node, 0)] }

def finish (s : DepthFirst ε) (node : Nat) (rest : List (Nat × Nat)) : DepthFirst ε :=
  { s with color := Function.update s.color node .black, stack := rest }

def scan (s : DepthFirst ε) (node nextEdge : Nat) (rest : List (Nat × Nat)) : DepthFirst ε :=
  { s with stack := (node, nextEdge + 1) :: rest }

def descend (s : DepthFirst ε) (node next : Nat) (edge : ε) : DepthFirst ε where
  color := Function.update s.color next .gray
  parentNode := Function.update s.parentNode next (some node)
  parentEdge := Function.update s.parentEdge next (some edge)
  stack := (next, 0) :: s.stack

/-- Follow parents from a node up to another one, collecting the edges. -/
def climb (s : DepthFirst ε) (target : Nat) : Nat → Nat → List ε → Option (List ε)
  | 0, _, _ => none
  | fuel + 1, cursor, path =>
      if cursor = target then some path
      else
        match s.parentEdge cursor, s.parentNode cursor with
        | some edge, some parent => climb s target fuel parent (path ++ [edge])
        | _, _ => none

/-- Search from the stack; `none` is a panic or a lack of fuel, otherwise the result is a closed
path or the state with an empty stack. -/
def explore (adjacency : Nat → List (Nat × ε)) :
    Nat → DepthFirst ε → Option (List ε ⊕ DepthFirst ε)
  | 0, _ => none
  | fuel + 1, s =>
      match s.stack with
      | [] => some (.inr s)
      | (node, nextEdge) :: rest =>
          if nextEdge = (adjacency node).length then
            explore adjacency fuel (s.finish node rest)
          else
            match (adjacency node)[nextEdge]? with
            | none => none
            | some (next, edge) =>
                match s.color next with
                | .white =>
                    explore adjacency fuel ((s.scan node nextEdge rest).descend node next edge)
                | .gray => (climb s next s.stack.length node []).map fun path =>
                    .inl (path.reverse ++ [edge])
                | .black => explore adjacency fuel (s.scan node nextEdge rest)

/-- Search from each of the starting nodes that is still white. -/
def search (adjacency : Nat → List (Nat × ε)) (fuel : Nat) :
    List Nat → DepthFirst ε → Option (Option (List ε))
  | [], _ => some none
  | node :: nodes, s =>
      if s.color node ≠ .white then search adjacency fuel nodes s
      else
        match explore adjacency fuel (s.start node) with
        | none => none
        | some (.inl path) => some (some path)
        | some (.inr s) => search adjacency fuel nodes s

/-- The steps a search of `n` nodes takes at most. -/
def cost (adjacency : Nat → List (Nat × ε)) (n : Nat) : Nat :=
  ∑ v ∈ Finset.range n, ((adjacency v).length + 2)

/-- A closed path in a graph of `n` nodes, if there is one. -/
def findCycle (adjacency : Nat → List (Nat × ε)) (n : Nat) : Option (Option (List ε)) :=
  search adjacency (cost adjacency n + 1) (List.range n) new

variable {adjacency : Nat → List (Nat × ε)} {s : DepthFirst ε} {n : Nat}

def Edge (adjacency : Nat → List (Nat × ε)) (v w : Nat) : Prop := ∃ edge, (w, edge) ∈ adjacency v

/-- The stack is a path: each node is linked to the one above it, and what it has scanned besides
is black. -/
def Linked (adjacency : Nat → List (Nat × ε)) (s : DepthFirst ε) :
    Option Nat → List (Nat × Nat) → Prop
  | _, [] => True
  | above, (v, i) :: rest =>
      i ≤ (adjacency v).length ∧
        (∀ k < i, ∀ target, (adjacency v)[k]? = some target →
          s.color target.1 = .black ∨ above = some target.1) ∧
        (∀ w, above = some w → Edge adjacency v w ∧ s.parentNode w = some v ∧
          (s.parentEdge w).isSome) ∧
        Linked adjacency s (some v) rest

/-- The invariant of the search. -/
structure Sound (adjacency : Nat → List (Nat × ε)) (s : DepthFirst ε) : Prop where
  nodup : (s.stack.map Prod.fst).Nodup
  gray : ∀ v, s.color v = .gray ↔ v ∈ s.stack.map Prod.fst
  linked : Linked adjacency s none s.stack
  finished : ∀ v, s.color v = .black → Acc (fun w v => Edge adjacency v w) v

theorem sound_new : Sound adjacency (new : DepthFirst ε) where
  nodup := List.nodup_nil
  gray _ := iff_of_false Color.noConfusion List.not_mem_nil
  linked := trivial
  finished _ h := Color.noConfusion h

/-- The links of a stack do not depend on colours and parents elsewhere. -/
theorem Linked.congr {s s' : DepthFirst ε} {above : Option Nat} {stack : List (Nat × Nat)}
    (h : Linked adjacency s above stack)
    (hblack : ∀ v, s.color v = .black → s'.color v = .black)
    (hparent : ∀ v, (above = some v ∨ v ∈ stack.map Prod.fst) →
      s'.parentNode v = s.parentNode v ∧ s'.parentEdge v = s.parentEdge v) :
    Linked adjacency s' above stack := by
  induction stack generalizing above with
  | nil => trivial
  | cons entry rest ih =>
      obtain ⟨v, i⟩ := entry
      obtain ⟨hi, hscanned, habove, hrest⟩ := h
      refine ⟨hi, fun k hk target htarget => ?_, fun w hw => ?_, ih hrest fun u hu => ?_⟩
      · exact (hscanned k hk target htarget).imp_left (hblack _)
      · obtain ⟨hedge, hnode, hparentEdge⟩ := habove w hw
        obtain ⟨hnode', hedge'⟩ := hparent w (.inl hw)
        exact ⟨hedge, hnode'.trans hnode, hedge' ▸ hparentEdge⟩
      · refine hparent u (.inr ?_)
        rcases hu with hu | hu
        · rw [Option.some.inj hu]
          exact List.mem_cons_self
        · exact List.mem_cons_of_mem _ hu

/-- A node of the stack reaches the top. -/
theorem Linked.reaches {above : Option Nat} {v i : Nat} {rest : List (Nat × Nat)}
    (h : Linked adjacency s above ((v, i) :: rest)) {w : Nat}
    (hw : w ∈ ((v, i) :: rest).map Prod.fst) :
    Relation.ReflTransGen (Edge adjacency) w v := by
  induction rest generalizing above v i with
  | nil =>
      rw [List.mem_singleton.mp hw]
  | cons entry rest ih =>
      obtain ⟨u, j⟩ := entry
      rcases List.mem_cons.mp hw with rfl | hw
      · exact .refl
      · have hrest := h.2.2.2
        exact (ih hrest hw).tail (hrest.2.2.1 v rfl).1

/-- Climbing from the top of the stack finds every node of it. -/
theorem Linked.climb {above : Option Nat} {v i : Nat} {rest : List (Nat × Nat)}
    (h : Linked adjacency s above ((v, i) :: rest)) {w : Nat}
    (hw : w ∈ ((v, i) :: rest).map Prod.fst) {fuel : Nat} (hfuel : rest.length < fuel)
    (path : List ε) : ∃ path', climb s w fuel v path = some path' := by
  induction rest generalizing above v i fuel path with
  | nil =>
      obtain ⟨fuel, rfl⟩ := Nat.exists_eq_add_of_lt hfuel
      rw [List.mem_singleton.mp hw]
      exact ⟨path, if_pos rfl⟩
  | cons entry rest ih =>
      obtain ⟨u, j⟩ := entry
      obtain ⟨fuel, rfl⟩ : ∃ k, fuel = k + 1 := ⟨fuel - 1, by omega⟩
      rw [DepthFirst.climb]
      split
      · exact ⟨path, rfl⟩
      · next hne =>
        have hrest := h.2.2.2
        obtain ⟨-, hnode, hedge⟩ := hrest.2.2.1 v rfl
        obtain ⟨edge, hedge⟩ := Option.isSome_iff_exists.mp hedge
        rw [hnode, hedge]
        refine ih hrest ?_ (by simpa using hfuel) _
        exact (List.mem_cons.mp hw).resolve_left fun heq => hne heq.symm

/-! What each step keeps. -/

section Steps

variable {node i : Nat} {rest : List (Nat × Nat)}

theorem Sound.start (h : Sound adjacency s) (hstack : s.stack = []) :
    Sound adjacency (s.start node) where
  nodup := List.nodup_singleton node
  gray v := by
    have hv : s.color v ≠ .gray := fun hv => by
      have hmem := (h.gray v).mp hv
      rw [hstack] at hmem
      cases hmem
    by_cases heq : v = node
    · simp [DepthFirst.start, heq]
    · simp [DepthFirst.start, heq, hv]
  linked := ⟨Nat.zero_le _, fun _ hk => absurd hk (Nat.not_lt_zero _), nofun,
    trivial⟩
  finished v hv := by
    by_cases heq : v = node
    · simp [DepthFirst.start, heq] at hv
    · exact h.finished v (by simpa [DepthFirst.start, heq] using hv)

theorem Sound.finish (h : Sound adjacency s)
    (hstack : s.stack = (node, (adjacency node).length) :: rest) :
    Sound adjacency (s.finish node rest) := by
  have hnodup := h.nodup
  have hlinked := h.linked
  rw [hstack] at hnodup hlinked
  obtain ⟨hfresh, hrest⟩ := List.nodup_cons.mp hnodup
  have hkept : ∀ v, s.color v = .black → Function.update s.color node .black v = .black := by
    intro v hv
    by_cases heq : v = node
    · rw [heq, Function.update_self]
    · rwa [Function.update_of_ne heq]
  refine
    { nodup := hrest
      gray := fun v => ?_
      linked := ?_
      finished := fun v hv => ?_ }
  · by_cases heq : v = node
    · subst heq
      exact iff_of_false (by simp [DepthFirst.finish]) hfresh
    · have hgray := h.gray v
      rw [hstack] at hgray
      simpa [DepthFirst.finish, heq] using hgray
  · have hcongr : Linked adjacency (s.finish node rest) (some node) rest :=
      hlinked.2.2.2.congr hkept fun _ _ => ⟨rfl, rfl⟩
    cases rest with
    | nil => trivial
    | cons entry rest =>
        obtain ⟨hi, hscanned, -, htail⟩ := hcongr
        refine ⟨hi, fun k hk target htarget => .inl ?_, nofun, htail⟩
        rcases hscanned k hk target htarget with hblack | habove
        · exact hblack
        · rw [← Option.some.inj habove]
          exact Function.update_self ..
  · by_cases heq : v = node
    · subst heq
      refine Acc.intro v fun w ⟨edge, hedge⟩ => ?_
      obtain ⟨k, hk⟩ := List.mem_iff_getElem?.mp hedge
      have hlt := (List.getElem?_eq_some_iff.mp hk).1
      rcases hlinked.2.1 k hlt (w, edge) hk with hblack | habove
      · exact h.finished w hblack
      · cases habove
    · exact h.finished v (by simpa [DepthFirst.finish, heq] using hv)

/-- Scanning an edge to a black node. -/
theorem Sound.scan (h : Sound adjacency s) (hstack : s.stack = (node, i) :: rest) {next : Nat}
    {edge : ε} (hedge : (adjacency node)[i]? = some (next, edge)) (hblack : s.color next = .black) :
    Sound adjacency (s.scan node i rest) := by
  have hnodup := h.nodup
  have hlinked := h.linked
  have hgray := h.gray
  rw [hstack] at hnodup hlinked hgray
  refine ⟨hnodup, hgray, ?_, h.finished⟩
  obtain ⟨-, hscanned, habove, htail⟩ := hlinked
  refine ⟨(List.getElem?_eq_some_iff.mp hedge).1, fun k hk target htarget => ?_, habove,
    htail.congr (fun _ hv => hv) fun _ _ => ⟨rfl, rfl⟩⟩
  rcases Nat.lt_succ_iff_lt_or_eq.mp hk with hlt | rfl
  · exact hscanned k hlt target htarget
  · rw [hedge] at htarget
    exact .inl (Option.some.inj htarget ▸ hblack)

/-- Scanning an edge to a white node. -/
theorem Sound.descend (h : Sound adjacency s) (hstack : s.stack = (node, i) :: rest) {next : Nat}
    {edge : ε} (hedge : (adjacency node)[i]? = some (next, edge)) (hwhite : s.color next = .white) :
    Sound adjacency ((s.scan node i rest).descend node next edge) := by
  have hnodup := h.nodup
  have hlinked := h.linked
  have hgray := h.gray
  rw [hstack] at hnodup hlinked hgray
  have hfresh : next ∉ ((node, i) :: rest).map Prod.fst := fun hmem => by
    have hnext := (hgray next).mpr hmem
    rw [hwhite] at hnext
    cases hnext
  have hblack : ∀ v, s.color v = .black → Function.update s.color next .gray v = .black := by
    intro v hv
    rw [Function.update_of_ne fun heq => by rw [heq, hwhite] at hv; cases hv]
    exact hv
  refine
    { nodup := List.nodup_cons.mpr ⟨hfresh, hnodup⟩
      gray := fun v => ?_
      linked := ?_
      finished := fun v hv => ?_ }
  · by_cases heq : v = next
    · subst heq
      exact iff_of_true (Function.update_self ..) List.mem_cons_self
    · have hv := hgray v
      simpa [DepthFirst.descend, DepthFirst.scan, heq] using hv
  · obtain ⟨-, hscanned, -, htail⟩ := hlinked
    refine ⟨Nat.zero_le _, fun _ hk => absurd hk (Nat.not_lt_zero _), nofun, ?_⟩
    refine ⟨(List.getElem?_eq_some_iff.mp hedge).1, fun k hk target htarget => ?_,
      fun w hw => ?_, ?_⟩
    · rcases Nat.lt_succ_iff_lt_or_eq.mp hk with hlt | rfl
      · rcases hscanned k hlt target htarget with hv | habove
        · exact .inl (hblack _ hv)
        · cases habove
      · rw [hedge] at htarget
        exact .inr (Option.some.inj htarget ▸ rfl)
    · obtain rfl := Option.some.inj hw
      refine ⟨⟨edge, List.mem_of_getElem? hedge⟩, Function.update_self .., ?_⟩
      exact congrArg Option.isSome (Function.update_self next (some edge) s.parentEdge)
    · refine htail.congr hblack fun v hv => ?_
      have hne : v ≠ next := by
        rintro rfl
        refine hfresh ?_
        rcases hv with hv | hv
        · rw [Option.some.inj hv]
          exact List.mem_cons_self
        · exact List.mem_cons_of_mem _ hv
      exact ⟨Function.update_of_ne hne .., Function.update_of_ne hne ..⟩
  · refine h.finished v ?_
    by_cases heq : v = next
    · rw [heq] at hv
      simp [DepthFirst.descend] at hv
    · simpa [DepthFirst.descend, DepthFirst.scan, heq] using hv

end Steps

/-! What is left to do. -/

def whiteCost (adjacency : Nat → List (Nat × ε)) (n : Nat) (color : Nat → Color) : Nat :=
  ∑ v ∈ (Finset.range n).filter (color · = .white), ((adjacency v).length + 2)

def stackCost (adjacency : Nat → List (Nat × ε)) (stack : List (Nat × Nat)) : Nat :=
  (stack.map fun entry => (adjacency entry.1).length - entry.2 + 1).sum

theorem whiteCost_le (color : Nat → Color) : whiteCost adjacency n color ≤ cost adjacency n :=
  Finset.sum_le_sum_of_subset (Finset.filter_subset _ _)

/-- A white node that is coloured is taken from the cost. -/
theorem whiteCost_update {color : Nat → Color} {v : Nat} (hv : v < n) (hwhite : color v = .white) :
    whiteCost adjacency n (Function.update color v .gray) + ((adjacency v).length + 2) =
      whiteCost adjacency n color := by
  have hfilter : (Finset.range n).filter (Function.update color v .gray · = .white) =
      ((Finset.range n).filter (color · = .white)).erase v := by
    ext w
    by_cases heq : w = v
    · simp [heq]
    · simp [heq]
  rw [whiteCost, whiteCost, hfilter, Finset.sum_erase_add]
  exact Finset.mem_filter.mpr ⟨Finset.mem_range.mpr hv, hwhite⟩

theorem whiteCost_black {color : Nat → Color} {v : Nat} (hgray : color v = .gray) :
    whiteCost adjacency n (Function.update color v .black) = whiteCost adjacency n color := by
  have hfilter : (Finset.range n).filter (Function.update color v .black · = .white) =
      (Finset.range n).filter (color · = .white) := by
    refine Finset.filter_congr fun w _ => ?_
    by_cases heq : w = v
    · simp [heq, hgray]
    · simp [heq]
  rw [whiteCost, whiteCost, hfilter]

/-- A search from a sound state ends, with a closed path in the graph or with a sound state in
which nothing is left on the stack. -/
theorem explore_spec (hbound : ∀ v w, Edge adjacency v w → w < n) {fuel : Nat} (h : Sound adjacency s)
    (hfuel : whiteCost adjacency n s.color + stackCost adjacency s.stack < fuel) :
    (∃ path, explore adjacency fuel s = some (.inl path) ∧
      ∃ v, Relation.TransGen (Edge adjacency) v v) ∨
    ∃ s', explore adjacency fuel s = some (.inr s') ∧ Sound adjacency s' ∧ s'.stack = [] ∧
      ∀ v, s.color v ≠ .white → s'.color v ≠ .white := by
  induction fuel generalizing s with
  | zero => exact absurd hfuel (Nat.not_lt_zero _)
  | succ fuel ih =>
      rw [explore]
      cases hstack : s.stack with
      | nil => exact .inr ⟨s, rfl, h, hstack, fun _ hv => hv⟩
      | cons entry rest =>
          obtain ⟨node, i⟩ := entry
          have hgray : s.color node = .gray := by
            rw [h.gray, hstack]
            exact List.mem_cons_self
          have hlinked := h.linked
          rw [hstack] at hlinked hfuel
          have hle : i ≤ (adjacency node).length := hlinked.1
          dsimp only
          by_cases hi : i = (adjacency node).length
          · subst hi
            rw [if_pos rfl]
            have hcost : whiteCost adjacency n (s.finish node rest).color +
                stackCost adjacency (s.finish node rest).stack < fuel := by
              change whiteCost adjacency n (Function.update s.color node .black) +
                stackCost adjacency rest < fuel
              rw [whiteCost_black hgray]
              simp only [stackCost, List.map_cons, List.sum_cons] at hfuel ⊢
              omega
            refine (ih (h.finish hstack) hcost).imp_right ?_
            rintro ⟨s', hs', hsound, hempty, hmono⟩
            refine ⟨s', hs', hsound, hempty, fun v hv => hmono v ?_⟩
            by_cases heq : v = node
            · simp [DepthFirst.finish, heq]
            · simpa [DepthFirst.finish, heq] using hv
          · rw [if_neg hi]
            have hlt : i < (adjacency node).length := by omega
            obtain ⟨⟨next, edge⟩, hedge⟩ : ∃ target, (adjacency node)[i]? = some target :=
              ⟨_, List.getElem?_eq_getElem hlt⟩
            have hnext : Edge adjacency node next := ⟨edge, List.mem_of_getElem? hedge⟩
            rw [hedge]
            dsimp only
            cases hcolor : s.color next with
            | white =>
                have hcost : whiteCost adjacency n
                      ((s.scan node i rest).descend node next edge).color +
                    stackCost adjacency ((s.scan node i rest).descend node next edge).stack <
                      fuel := by
                  have hwhite : whiteCost adjacency n (Function.update s.color next .gray) +
                      ((adjacency next).length + 2) = whiteCost adjacency n s.color :=
                    whiteCost_update (hbound node next hnext) hcolor
                  simp only [descend, scan, stackCost, List.map_cons, List.sum_cons] at hfuel ⊢
                  omega
                refine (ih (h.descend hstack hedge hcolor) hcost).imp_right ?_
                rintro ⟨s', hs', hsound, hempty, hmono⟩
                refine ⟨s', hs', hsound, hempty, fun v hv => hmono v ?_⟩
                by_cases heq : v = next
                · simp [descend, heq]
                · simpa [descend, scan, heq] using hv
            | gray =>
                refine .inl ?_
                have hmem : next ∈ ((node, i) :: rest).map Prod.fst := by
                  rw [← hstack]
                  exact (h.gray next).mp hcolor
                obtain ⟨path, hpath⟩ := hlinked.climb hmem (Nat.lt_succ_self _) []
                refine ⟨path.reverse ++ [edge], ?_, next, ?_⟩
                · rw [List.length_cons, hpath]
                  rfl
                · exact Relation.TransGen.tail' (hlinked.reaches hmem) hnext
            | black =>
                have hcost : whiteCost adjacency n (s.scan node i rest).color +
                    stackCost adjacency (s.scan node i rest).stack < fuel := by
                  simp only [scan, stackCost, List.map_cons, List.sum_cons] at hfuel ⊢
                  omega
                exact ih (h.scan hstack hedge hcolor) hcost

/-- The nodes a finished search has coloured lie on no cycle. -/
theorem Sound.acc (h : Sound adjacency s) (hstack : s.stack = []) {v : Nat}
    (hv : s.color v ≠ .white) : Acc (fun w v => Edge adjacency v w) v := by
  cases hcolor : s.color v with
  | white => exact absurd hcolor hv
  | gray =>
      have hmem := (h.gray v).mp hcolor
      rw [hstack] at hmem
      cases hmem
  | black => exact h.finished v hcolor

theorem search_spec (hbound : ∀ v w, Edge adjacency v w → w < n) {nodes : List Nat}
    (h : Sound adjacency s) (hstack : s.stack = []) (hnodes : ∀ v ∈ nodes, v < n) :
    ∃ result, search adjacency (cost adjacency n + 1) nodes s = some result ∧
      (result.isSome = true → ∃ v, Relation.TransGen (Edge adjacency) v v) ∧
      (result = none → ∀ v, (v ∈ nodes ∨ s.color v ≠ .white) →
        Acc (fun w v => Edge adjacency v w) v) := by
  induction nodes generalizing s with
  | nil =>
      refine ⟨none, rfl, nofun, fun _ v hv => h.acc hstack (hv.resolve_left ?_)⟩
      exact List.not_mem_nil
  | cons node nodes ih =>
      have hrest : ∀ v ∈ nodes, v < n := fun v hv => hnodes v (List.mem_cons_of_mem _ hv)
      rw [search]
      by_cases hwhite : s.color node ≠ .white
      · rw [if_pos hwhite]
        obtain ⟨result, hresult, hcycle, hnone⟩ := ih h hstack hrest
        refine ⟨result, hresult, hcycle, fun hn v hv => hnone hn v ?_⟩
        rcases hv with hv | hv
        · exact (List.mem_cons.mp hv).elim (fun heq => .inr (heq ▸ hwhite)) .inl
        · exact .inr hv
      · rw [if_neg hwhite]
        have hcost : whiteCost adjacency n (s.start node).color +
            stackCost adjacency (s.start node).stack < cost adjacency n + 1 := by
          have hupdate : whiteCost adjacency n (Function.update s.color node .gray) +
              ((adjacency node).length + 2) = whiteCost adjacency n s.color :=
            whiteCost_update (hnodes node List.mem_cons_self) (not_not.mp hwhite)
          have hle : whiteCost adjacency n s.color ≤ cost adjacency n := whiteCost_le s.color
          simp only [start, stackCost, List.map_cons, List.map_nil, List.sum_cons, List.sum_nil]
          omega
        rcases explore_spec hbound (h.start hstack) hcost with
          ⟨path, hpath, hcycle⟩ | ⟨s', hs', hsound, hempty, hmono⟩
        · rw [hpath]
          exact ⟨some path, rfl, fun _ => hcycle, nofun⟩
        · rw [hs']
          obtain ⟨result, hresult, hcycle, hnone⟩ := ih hsound hempty hrest
          refine ⟨result, hresult, hcycle, fun hn v hv => hnone hn v ?_⟩
          have hstarted : ∀ w, (w = node ∨ s.color w ≠ .white) → s'.color w ≠ .white := by
            intro w hw
            refine hmono w ?_
            by_cases heq : w = node
            · simp [start, heq]
            · simpa [start, heq] using hw.resolve_left heq
          rcases hv with hv | hv
          · exact (List.mem_cons.mp hv).elim (fun heq => .inr (hstarted v (.inl heq))) .inl
          · exact .inr (hstarted v (.inr hv))

theorem not_self_of_acc {r : Nat → Nat → Prop} {v : Nat} (h : Acc r v) : ¬ r v v := by
  induction h with
  | intro v _ ih => exact fun hv => ih v hv hv

/-- The search always answers, and it answers with a path exactly when the graph has a cycle. -/
theorem findCycle_spec (hbound : ∀ v w, Edge adjacency v w → v < n ∧ w < n) :
    ∃ result, findCycle adjacency n = some result ∧
      (result.isSome = true ↔ ∃ v, Relation.TransGen (Edge adjacency) v v) := by
  have hnodes : ∀ v ∈ List.range n, v < n := fun v hv => List.mem_range.mp hv
  obtain ⟨result, hresult, hcycle, hnone⟩ :=
    search_spec (fun v w hvw => (hbound v w hvw).2) sound_new rfl hnodes
  refine ⟨result, hresult, hcycle, fun ⟨v, hv⟩ => ?_⟩
  cases result with
  | some path => rfl
  | none =>
      obtain ⟨w, hvw, -⟩ := Relation.TransGen.head'_iff.mp hv
      have hacc := hnone rfl v (.inl (List.mem_range.mpr (hbound v w hvw).1))
      exact absurd (Relation.transGen_swap.mpr hv) (not_self_of_acc hacc.transGen)

/-! The closed path. -/

def Walk (adjacency : Nat → List (Nat × ε)) : Nat → List ε → Nat → Prop
  | v, [], w => v = w
  | v, edge :: path, w => ∃ u, (u, edge) ∈ adjacency v ∧ Walk adjacency u path w

def Parented (adjacency : Nat → List (Nat × ε)) (s : DepthFirst ε) : Prop :=
  ∀ w v edge, s.parentNode w = some v → s.parentEdge w = some edge → (w, edge) ∈ adjacency v

theorem Walk.concat {v w u : Nat} {path : List ε} {edge : ε} (h : Walk adjacency v path u)
    (hedge : (w, edge) ∈ adjacency u) : Walk adjacency v (path ++ [edge]) w := by
  induction path generalizing v with
  | nil =>
      obtain rfl : v = u := h
      exact ⟨w, hedge, rfl⟩
  | cons first path ih =>
      obtain ⟨x, hfirst, hrest⟩ := h
      exact ⟨x, hfirst, ih hrest⟩

theorem Walk.mem {v w : Nat} {path : List ε} (h : Walk adjacency v path w) {edge : ε}
    (hedge : edge ∈ path) : ∃ v w, (w, edge) ∈ adjacency v := by
  induction path generalizing v with
  | nil => cases hedge
  | cons first path ih =>
      obtain ⟨u, hfirst, hrest⟩ := h
      rcases List.mem_cons.mp hedge with rfl | hedge
      · exact ⟨v, u, hfirst⟩
      · exact ih hrest hedge

/-- Where edges carry the labels of their ends, those of a walk join. -/
theorem Walk.joined {α : Type} {label : Nat → α} {source target : ε → α}
    (hends : ∀ v w edge, (w, edge) ∈ adjacency v → source edge = label v ∧ target edge = label w)
    {v w : Nat} {path : List ε} (h : Walk adjacency v path w) :
    path.IsChain (fun edge next => target edge = source next) ∧
      (∀ edge ∈ path.head?, source edge = label v) ∧
      ∀ edge ∈ path.getLast?, target edge = label w := by
  induction path generalizing v with
  | nil => exact ⟨.nil, nofun, nofun⟩
  | cons first path ih =>
      obtain ⟨u, hfirst, hrest⟩ := h
      obtain ⟨hsource, htarget⟩ := hends v u first hfirst
      obtain ⟨hchain, hhead, hlast⟩ := ih hrest
      refine ⟨List.isChain_cons.mpr ⟨fun next hnext => ?_, hchain⟩, ?_, fun edge hedge => ?_⟩
      · exact htarget.trans (hhead next hnext).symm
      · rintro edge hedge
        obtain rfl := Option.some.inj hedge
        exact hsource
      · cases path with
        | nil =>
            obtain rfl := Option.some.inj hedge
            obtain rfl : u = w := hrest
            exact htarget
        | cons second path => exact hlast edge (by rwa [List.getLast?_cons_cons] at hedge)

/-- Climbing reads a walk back to front. -/
theorem Parented.climb (h : Parented adjacency s) {target w : Nat} {fuel cursor : Nat}
    {path path' : List ε} (hpath : Walk adjacency cursor path.reverse w)
    (hclimb : climb s target fuel cursor path = some path') :
    Walk adjacency target path'.reverse w := by
  induction fuel generalizing cursor path with
  | zero => cases hclimb
  | succ fuel ih =>
      rw [DepthFirst.climb] at hclimb
      split at hclimb
      · next heq =>
        cases hclimb
        exact heq ▸ hpath
      · split at hclimb
        · next edge parent hedge hparent =>
          refine ih ?_ hclimb
          rw [List.reverse_append]
          exact ⟨cursor, h cursor parent edge hparent hedge, hpath⟩
        · cases hclimb

theorem Parented.descend (h : Parented adjacency s) {node next : Nat} {edge : ε}
    (hedge : (next, edge) ∈ adjacency node) : Parented adjacency (s.descend node next edge) := by
  intro w v edge' hnode hparent
  by_cases heq : w = next
  · subst heq
    simp only [DepthFirst.descend, Function.update_self, Option.some.injEq] at hnode hparent
    rw [← hnode, ← hparent]
    exact hedge
  · simp only [DepthFirst.descend, Function.update_of_ne heq] at hnode hparent
    exact h w v edge' hnode hparent

/-- What a search returns is a closed path that is not empty. -/
theorem Parented.explore (h : Parented adjacency s) {fuel : Nat} {result : List ε ⊕ DepthFirst ε}
    (hrun : explore adjacency fuel s = some result) :
    result.elim (fun path => path ≠ [] ∧ ∃ v, Walk adjacency v path v) (Parented adjacency) := by
  induction fuel generalizing s with
  | zero => cases hrun
  | succ fuel ih =>
      rw [DepthFirst.explore] at hrun
      split at hrun
      · cases hrun
        exact h
      · next node i rest hstack =>
        split at hrun
        · exact ih (s := s.finish node rest) h hrun
        · split at hrun
          · cases hrun
          · next next edge hedge =>
            have hmem := List.mem_of_getElem? hedge
            split at hrun
            · exact ih (Parented.descend (s := s.scan node i rest) h hmem) hrun
            · obtain ⟨path, hpath, rfl⟩ := Option.map_eq_some_iff.mp hrun
              have hhere : Walk adjacency node ([] : List ε).reverse node := rfl
              have hwalk := h.climb hhere hpath
              exact ⟨by simp, next, hwalk.concat hmem⟩
            · exact ih (s := s.scan node i rest) h hrun

theorem Parented.search (h : Parented adjacency s) {fuel : Nat} {nodes : List Nat} {path : List ε}
    (hrun : search adjacency fuel nodes s = some (some path)) :
    path ≠ [] ∧ ∃ v, Walk adjacency v path v := by
  induction nodes generalizing s with
  | nil => cases hrun
  | cons node nodes ih =>
      rw [DepthFirst.search] at hrun
      split at hrun
      · exact ih h hrun
      · split at hrun
        · cases hrun
        · next path' hexplore =>
          cases hrun
          exact Parented.explore (s := s.start node) h hexplore
        · next s' hexplore =>
          have hparented : Parented adjacency s' :=
            Parented.explore (s := s.start node) h hexplore
          exact ih hparented hrun

theorem findCycle_walk {path : List ε} (h : findCycle adjacency n = some (some path)) :
    path ≠ [] ∧ ∃ v, Walk adjacency v path v :=
  Parented.search (s := new) (fun _ _ _ hnode => nomatch hnode) h

end DepthFirst
end CleanCtx
