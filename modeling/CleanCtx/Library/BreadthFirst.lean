import Mathlib.Data.Finset.Card
import Mathlib.Data.Finset.Range
import Mathlib.Data.Finset.Dedup
import CleanCtx.Library.Paths

/-!
Breadth-first search with a bound on the depth. The queue holds the rest of one
level and then the next level; a node is visited when, and only when, it is
within the depth that has been reached. A positive bound is a number of steps,
any other bound is none.
-/
namespace CleanCtx

structure BreadthFirst where
  visited : Nat → Bool
  queue : List (Nat × Int)
  result : List Nat

namespace BreadthFirst

/-- Visit one neighbour of a node at a depth. -/
def visit (depth : Int) (s : BreadthFirst) (next : Nat) : BreadthFirst :=
  if s.visited next then s
  else
    { visited := Function.update s.visited next true
      queue := s.queue ++ [(next, depth + 1)]
      result := s.result ++ [next] }

def loop (maxDepth : Int) (adjacency : Nat → List Nat) :
    Nat → BreadthFirst → Option (List Nat)
  | 0, _ => none
  | fuel + 1, s =>
      match s.queue with
      | [] => some s.result
      | (current, depth) :: rest =>
          if maxDepth > 0 ∧ depth ≥ maxDepth then
            loop maxDepth adjacency fuel { s with queue := rest }
          else
            loop maxDepth adjacency fuel
              ((adjacency current).foldl (visit depth) { s with queue := rest })

/-- The nodes that a start node reaches within a depth, itself excluded. -/
def transitiveDependencies (startNode : Nat) (maxDepth : Int) (nodeCount : Nat)
    (adjacency : Nat → List Nat) : Option (List Nat) :=
  if nodeCount = 0 then some []
  else loop maxDepth adjacency (nodeCount + 1)
    { visited := Function.update (fun _ => false) startNode true
      queue := [(startNode, 0)]
      result := [] }

variable {adjacency : Nat → List Nat} {startNode n : Nat} {maxDepth : Int} {s : BreadthFirst}
  {d : Nat} {A B : List Nat}

def Edge (adjacency : Nat → List Nat) (v w : Nat) : Prop := w ∈ adjacency v

/-- What visiting the neighbours of a node adds. -/
theorem foldl_visit (depth : Int) (nodes : List Nat) (s : BreadthFirst) :
    ∃ fresh : List Nat, fresh.Nodup ∧ (∀ v, v ∈ fresh ↔ v ∈ nodes ∧ s.visited v = false) ∧
      (nodes.foldl (visit depth) s).queue = s.queue ++ fresh.map (·, depth + 1) ∧
      (nodes.foldl (visit depth) s).result = s.result ++ fresh ∧
      ∀ v, (nodes.foldl (visit depth) s).visited v = true ↔ s.visited v = true ∨ v ∈ nodes := by
  induction nodes generalizing s with
  | nil => exact ⟨[], List.nodup_nil, by simp, by simp, by simp, by simp⟩
  | cons node nodes ih =>
      obtain ⟨fresh, hnodup, hfresh, hqueue, hresult, hvisited⟩ := ih (visit depth s node)
      rw [List.foldl_cons]
      by_cases hnode : s.visited node = true
      · have hsame : visit depth s node = s := if_pos hnode
        rw [hsame] at hfresh hqueue hresult hvisited ⊢
        refine ⟨fresh, hnodup, fun v => ?_, hqueue, hresult, fun v => ?_⟩
        · rw [hfresh, List.mem_cons]
          refine and_congr_left fun hv => (or_iff_right ?_).symm
          rintro rfl
          rw [hnode] at hv
          cases hv
        · rw [hvisited, List.mem_cons, ← or_assoc]
          refine or_congr_left (or_iff_left_of_imp ?_).symm
          rintro rfl
          exact hnode
      · have hnew : visit depth s node =
            { visited := Function.update s.visited node true
              queue := s.queue ++ [(node, depth + 1)]
              result := s.result ++ [node] } := if_neg hnode
        rw [hnew] at hfresh hqueue hresult hvisited ⊢
        refine ⟨node :: fresh, List.nodup_cons.mpr ⟨?_, hnodup⟩, fun v => ?_, ?_, ?_, fun v => ?_⟩
        · rw [hfresh]
          simp
        · rw [List.mem_cons, hfresh, List.mem_cons]
          by_cases heq : v = node
          · simp [heq, Bool.eq_false_iff.mpr hnode]
          · simp [heq]
        · rw [hqueue, List.append_assoc]
          rfl
        · rw [hresult, List.append_assoc]
          rfl
        · rw [hvisited, List.mem_cons]
          by_cases heq : v = node
          · simp [heq]
          · simp [heq]

def Within (adjacency : Nat → List Nat) (startNode d v : Nat) : Prop :=
  ∃ k ≤ d, Steps (Edge adjacency) k startNode v

/-- Whatever number of steps leads to the second node, the first one is within it. -/
def Nearer (adjacency : Nat → List Nat) (startNode v w : Nat) : Prop :=
  ∀ k, Steps (Edge adjacency) k startNode w → Within adjacency startNode k v

/-- Level `d` is being left: `A` is what remains of it, `B` is what is known of the next one. -/
structure Level (adjacency : Nat → List Nat) (startNode : Nat) (maxDepth : Int) (d : Nat)
    (A B : List Nat) (s : BreadthFirst) : Prop where
  queue : s.queue = A.map (·, (d : Int)) ++ B.map (·, (d : Int) + 1)
  result : ∀ v, v ∈ s.result ↔ s.visited v = true ∧ v ≠ startNode
  nodup : s.result.Nodup
  complete : ∀ v, Within adjacency startNode d v → s.visited v = true
  sound : ∀ v, s.visited v = true → Within adjacency startNode d v ∨ v ∈ B
  next : ∀ v ∈ B, Within adjacency startNode (d + 1) v
  scanned : (0 < maxDepth → (d : Int) < maxDepth) → ∀ u, Within adjacency startNode d u →
    u ∈ A ∨ ∀ w, Edge adjacency u w → s.visited w = true
  current : ∀ u ∈ A, Within adjacency startNode d u
  limit : 0 < maxDepth → (d : Int) ≤ maxDepth ∧ (B ≠ [] → (d : Int) < maxDepth)
  ordered : ∃ C, s.result = C ++ B ∧ C.Pairwise (Nearer adjacency startNode) ∧
    (∀ v ∈ C, Within adjacency startNode d v) ∧ ∀ v ∈ B, ¬ Within adjacency startNode d v

namespace Level

theorem within_succ {u w : Nat} (h : Within adjacency startNode d u) (hedge : Edge adjacency u w) :
    Within adjacency startNode (d + 1) w := by
  obtain ⟨k, hk, hsteps⟩ := h
  exact ⟨k + 1, Nat.succ_le_succ hk, u, hsteps, hedge⟩

theorem within_mono {v : Nat} (h : Within adjacency startNode d v) :
    Within adjacency startNode (d + 1) v := by
  obtain ⟨k, hk, hsteps⟩ := h
  exact ⟨k, Nat.le_succ_of_le hk, hsteps⟩

/-- What is outside a depth is not nearer than what is just beyond it. -/
theorem nearer_of_not_within {v w : Nat} (hv : Within adjacency startNode (d + 1) v)
    (hw : ¬ Within adjacency startNode d w) : Nearer adjacency startNode v w := by
  intro k hk
  obtain ⟨j, hj, hsteps⟩ := hv
  have hlt : d < k := not_le.mp fun hle => hw ⟨k, hle, hk⟩
  exact ⟨j, by omega, hsteps⟩

theorem shift (h : Level adjacency startNode maxDepth d [] B s) (hB : B ≠ []) :
    Level adjacency startNode maxDepth (d + 1) B [] s where
  queue := by
    rw [h.queue]
    simp
  result := h.result
  nodup := h.nodup
  complete v hv := by
    obtain ⟨k, hk, hsteps⟩ := hv
    rcases Nat.le_succ_iff.mp hk with hle | rfl
    · exact h.complete v ⟨k, hle, hsteps⟩
    · obtain ⟨u, hu, hedge⟩ := hsteps
      have hscanned := h.scanned (fun hpos => (h.limit hpos).2 hB) u ⟨d, Nat.le_refl d, hu⟩
      exact hscanned.resolve_left List.not_mem_nil v hedge
  sound v hv := .inl ((h.sound v hv).elim within_mono (h.next v))
  next v hv := absurd hv List.not_mem_nil
  scanned _ u hu := by
    have hvisited : s.visited u = true := by
      obtain ⟨k, hk, hsteps⟩ := hu
      rcases Nat.le_succ_iff.mp hk with hle | rfl
      · exact h.complete u ⟨k, hle, hsteps⟩
      · obtain ⟨w, hw, hedge⟩ := hsteps
        have hscanned := h.scanned (fun hpos => (h.limit hpos).2 hB) w ⟨d, Nat.le_refl d, hw⟩
        exact hscanned.resolve_left List.not_mem_nil u hedge
    rcases h.sound u hvisited with hwithin | hmem
    · have hscanned := h.scanned (fun hpos => (h.limit hpos).2 hB) u hwithin
      exact .inr (hscanned.resolve_left List.not_mem_nil)
    · exact .inl hmem
  current := h.next
  limit hpos := by
    have hlt := (h.limit hpos).2 hB
    exact ⟨by push_cast; omega, fun hne => absurd rfl hne⟩
  ordered := by
    obtain ⟨C, hresult, hpairwise, hC, hnew⟩ := h.ordered
    refine ⟨C ++ B, by rw [hresult, List.append_nil], ?_, fun v hv => ?_, nofun⟩
    · refine List.pairwise_append.mpr ⟨hpairwise, ?_, fun v hv w hw => ?_⟩
      · exact List.pairwise_iff_forall_sublist.mpr fun hsub =>
          nearer_of_not_within (h.next _ (hsub.subset List.mem_cons_self))
            (hnew _ (hsub.subset (List.mem_cons_of_mem _ List.mem_cons_self)))
      · exact nearer_of_not_within (within_mono (hC v hv)) (hnew w hw)
    · exact (List.mem_append.mp hv).elim (fun hv => within_mono (hC v hv)) (h.next v)

/-- A node of the last level that may be visited is dropped. -/
theorem skip {a : Nat} (h : Level adjacency startNode maxDepth d (a :: A) B s)
    (hlimit : 0 < maxDepth ∧ maxDepth ≤ (d : Int)) :
    Level adjacency startNode maxDepth d A B
      { s with queue := A.map (·, (d : Int)) ++ B.map (·, (d : Int) + 1) } where
  queue := rfl
  result := h.result
  nodup := h.nodup
  complete := h.complete
  sound := h.sound
  next := h.next
  scanned hlt := absurd (hlt hlimit.1) (not_lt.mpr hlimit.2)
  current u hu := h.current u (List.mem_cons_of_mem _ hu)
  limit := h.limit
  ordered := h.ordered

/-- The neighbours of a node are visited. -/
theorem expand {a : Nat} (h : Level adjacency startNode maxDepth d (a :: A) B s)
    (hlimit : 0 < maxDepth → (d : Int) < maxDepth) {s' : BreadthFirst} {fresh : List Nat}
    (hnodup : fresh.Nodup)
    (hfresh : ∀ v, v ∈ fresh ↔ v ∈ adjacency a ∧ s.visited v = false)
    (hqueue : s'.queue = A.map (·, (d : Int)) ++ B.map (·, (d : Int) + 1) ++
      fresh.map (·, (d : Int) + 1))
    (hresult : s'.result = s.result ++ fresh)
    (hvisited : ∀ v, s'.visited v = true ↔ s.visited v = true ∨ v ∈ adjacency a) :
    Level adjacency startNode maxDepth d A (B ++ fresh) s' where
  queue := by rw [hqueue, List.map_append, List.append_assoc]
  result v := by
    rw [hresult, List.mem_append, h.result, hfresh, hvisited]
    have hstart : s.visited startNode = true := h.complete _ ⟨0, Nat.zero_le d, rfl⟩
    by_cases hv : v = startNode
    · subst hv
      simp [hstart]
    · cases s.visited v <;> simp [hv]
  nodup := by
    rw [hresult, List.nodup_append]
    refine ⟨h.nodup, hnodup, fun v hv w hw heq => ?_⟩
    have hunvisited := ((hfresh w).mp hw).2
    rw [← heq, ((h.result v).mp hv).1] at hunvisited
    cases hunvisited
  complete v hv := (hvisited v).mpr (.inl (h.complete v hv))
  sound v hv := by
    rw [List.mem_append]
    cases hold : s.visited v with
    | true => exact (h.sound v hold).imp_right .inl
    | false =>
        have hmem := ((hvisited v).mp hv).resolve_left fun htrue => by
          rw [hold] at htrue
          cases htrue
        exact .inr (.inr ((hfresh v).mpr ⟨hmem, hold⟩))
  next v hv := by
    rcases List.mem_append.mp hv with hold | hnew
    · exact h.next v hold
    · exact within_succ (h.current a List.mem_cons_self) ((hfresh v).mp hnew).1
  scanned hlt u hu := by
    rcases h.scanned hlt u hu with hmem | hall
    · rcases List.mem_cons.mp hmem with rfl | hmem
      · exact .inr fun w hw => (hvisited w).mpr (.inr hw)
      · exact .inl hmem
    · exact .inr fun w hw => (hvisited w).mpr (.inl (hall w hw))
  current u hu := h.current u (List.mem_cons_of_mem _ hu)
  limit hpos := ⟨(h.limit hpos).1, fun _ => hlimit hpos⟩
  ordered := by
    obtain ⟨C, hC, hpairwise, hwithin, hnew⟩ := h.ordered
    refine ⟨C, by rw [hresult, hC, List.append_assoc], hpairwise, hwithin, fun v hv => ?_⟩
    rcases List.mem_append.mp hv with hold | hfreshMem
    · exact hnew v hold
    · intro hv
      have hunvisited := ((hfresh v).mp hfreshMem).2
      rw [h.complete v hv] at hunvisited
      cases hunvisited

/-- With nothing left in the queue, the result lists nodes nearest first. -/
theorem pairwise_result (h : Level adjacency startNode maxDepth d [] [] s) :
    s.result.Pairwise (Nearer adjacency startNode) := by
  obtain ⟨C, hresult, hpairwise, -⟩ := h.ordered
  rwa [hresult, List.append_nil]

/-- With nothing left in the queue, the result is what the depth admits. -/
theorem mem_result (h : Level adjacency startNode maxDepth d [] [] s) (v : Nat) :
    v ∈ s.result ↔ v ≠ startNode ∧
      ∃ k : Nat, (0 < maxDepth → (k : Int) ≤ maxDepth) ∧
        Steps (Edge adjacency) k startNode v := by
  rw [h.result, and_comm]
  refine and_congr_right fun hne => ⟨fun hv => ?_, ?_⟩
  · obtain ⟨k, hk, hsteps⟩ := (h.sound v hv).resolve_right List.not_mem_nil
    refine ⟨k, fun hpos => ?_, hsteps⟩
    have hd := (h.limit hpos).1
    omega
  · rintro ⟨k, hk, hsteps⟩
    by_cases hlt : 0 < maxDepth → (d : Int) < maxDepth
    · clear hk hne
      induction k generalizing v with
      | zero => exact h.complete v ⟨0, Nat.zero_le d, hsteps⟩
      | succ k ih =>
          obtain ⟨u, hu, hedge⟩ := hsteps
          have hwithin := (h.sound u (ih u hu)).resolve_right List.not_mem_nil
          exact (h.scanned hlt u hwithin).resolve_left List.not_mem_nil v hedge
    · obtain ⟨hpos, hge⟩ := Classical.not_imp.mp hlt
      have hle := hk hpos
      exact h.complete v ⟨k, by omega, hsteps⟩

end Level

def unvisited (n : Nat) (s : BreadthFirst) : Finset Nat :=
  (Finset.range n).filter (s.visited · = false)

/-- The neighbours that are queued are no longer unvisited. -/
theorem card_unvisited {s' : BreadthFirst} {nodes fresh : List Nat} (hnodup : fresh.Nodup)
    (hbound : ∀ v ∈ nodes, v < n) (hfresh : ∀ v, v ∈ fresh ↔ v ∈ nodes ∧ s.visited v = false)
    (hvisited : ∀ v, s'.visited v = true ↔ s.visited v = true ∨ v ∈ nodes) :
    (unvisited n s').card + fresh.length = (unvisited n s).card := by
  have hsplit : unvisited n s' = unvisited n s \ fresh.toFinset := by
    ext v
    simp only [unvisited, Finset.mem_filter, Finset.mem_sdiff, List.mem_toFinset, hfresh,
      ← Bool.not_eq_true, hvisited]
    tauto
  have hsubset : fresh.toFinset ⊆ unvisited n s := by
    intro v hv
    obtain ⟨hmem, hnew⟩ := (hfresh v).mp (List.mem_toFinset.mp hv)
    exact Finset.mem_filter.mpr ⟨Finset.mem_range.mpr (hbound v hmem), hnew⟩
  have hle := Finset.card_le_card hsubset
  rw [hsplit, Finset.card_sdiff_of_subset hsubset, List.toFinset_card_of_nodup hnodup] at *
  omega

/-- The loop ends with the nodes within the depth. -/
theorem loop_spec (hbound : ∀ v w, Edge adjacency v w → w < n) {fuel : Nat}
    (h : Level adjacency startNode maxDepth d A B s)
    (hfuel : s.queue.length + (unvisited n s).card < fuel) :
    ∃ result, loop maxDepth adjacency fuel s = some result ∧ result.Nodup ∧
      result.Pairwise (Nearer adjacency startNode) ∧
      ∀ v, v ∈ result ↔ v ≠ startNode ∧
        ∃ k : Nat, (0 < maxDepth → (k : Int) ≤ maxDepth) ∧
          Steps (Edge adjacency) k startNode v := by
  induction fuel generalizing s d A B with
  | zero => exact absurd hfuel (Nat.not_lt_zero _)
  | succ fuel ih =>
      have hpop : ∀ (d a : Nat) (A B : List Nat),
          Level adjacency startNode maxDepth d (a :: A) B s →
          ∃ result, loop maxDepth adjacency (fuel + 1) s = some result ∧ result.Nodup ∧
            result.Pairwise (Nearer adjacency startNode) ∧
            ∀ v, v ∈ result ↔ v ≠ startNode ∧
              ∃ k : Nat, (0 < maxDepth → (k : Int) ≤ maxDepth) ∧
                Steps (Edge adjacency) k startNode v := by
        intro d a A B h
        have hqueue : s.queue = (a, (d : Int)) ::
            (A.map (·, (d : Int)) ++ B.map (·, (d : Int) + 1)) := h.queue
        rw [hqueue, List.length_cons] at hfuel
        rw [loop, hqueue]
        dsimp only
        by_cases hlimit : 0 < maxDepth ∧ maxDepth ≤ (d : Int)
        · rw [if_pos hlimit]
          refine ih (h.skip hlimit) ?_
          change List.length (_ ++ _) + (unvisited n s).card < fuel
          omega
        · rw [if_neg hlimit]
          obtain ⟨fresh, hnodup, hfresh, hqueue', hresult, hvisited⟩ :=
            foldl_visit (d : Int) (adjacency a)
              { s with queue := A.map (·, (d : Int)) ++ B.map (·, (d : Int) + 1) }
          have hcard := card_unvisited hnodup (fun v hv => hbound a v hv) hfresh hvisited
          refine ih (h.expand (fun hpos => ?_) hnodup hfresh hqueue' hresult hvisited) ?_
          · exact not_le.mp fun hle => hlimit ⟨hpos, hle⟩
          · rw [hqueue', List.length_append, List.length_map]
            change _ + fresh.length = (unvisited n s).card at hcard
            dsimp only at hcard ⊢
            omega
      cases A with
      | cons a A => exact hpop d a A B h
      | nil =>
          cases B with
          | cons b B => exact hpop (d + 1) b B [] (h.shift (List.cons_ne_nil b B))
          | nil =>
              refine ⟨s.result, ?_, h.nodup, h.pairwise_result, h.mem_result⟩
              rw [loop, h.queue]
              rfl

/-- The search always answers, with the nodes within the depth other than the start, nearest
first. -/
theorem transitiveDependencies_spec (maxDepth : Int)
    (hbound : ∀ v w, Edge adjacency v w → w < n) (hstart : startNode < n) :
    ∃ result, transitiveDependencies startNode maxDepth n adjacency = some result ∧
      result.Nodup ∧ result.Pairwise (Nearer adjacency startNode) ∧
      ∀ v, v ∈ result ↔ v ≠ startNode ∧
        ∃ k : Nat, (0 < maxDepth → (k : Int) ≤ maxDepth) ∧
          Steps (Edge adjacency) k startNode v := by
  have hlevel : Level adjacency startNode maxDepth 0 [startNode] []
      { visited := Function.update (fun _ => false) startNode true
        queue := [(startNode, 0)]
        result := [] } := by
    have hvisited : ∀ v, Function.update (fun _ => false) startNode true v = true ↔
        v = startNode := by
      intro v
      by_cases hv : v = startNode
      · simp [hv]
      · simp [hv]
    have hwithin : ∀ v, Within adjacency startNode 0 v ↔ startNode = v := by
      refine fun v => ⟨fun ⟨k, hk, hsteps⟩ => ?_, fun heq => ⟨0, Nat.le_refl 0, heq⟩⟩
      rw [Nat.le_zero.mp hk] at hsteps
      exact hsteps
    exact
      { queue := rfl
        result := fun v => iff_of_false List.not_mem_nil fun hv => hv.2 ((hvisited v).mp hv.1)
        nodup := List.nodup_nil
        complete := fun v hv => (hvisited v).mpr ((hwithin v).mp hv).symm
        sound := fun v hv => .inl ((hwithin v).mpr ((hvisited v).mp hv).symm)
        next := fun v hv => absurd hv List.not_mem_nil
        scanned := fun _ u hu => .inl (List.mem_singleton.mpr ((hwithin u).mp hu).symm)
        current := fun u hu => (hwithin u).mpr (List.mem_singleton.mp hu).symm
        limit := fun hpos => ⟨hpos.le, fun hne => absurd rfl hne⟩
        ordered := ⟨[], rfl, List.Pairwise.nil, nofun, nofun⟩ }
  rw [transitiveDependencies, if_neg (Nat.ne_zero_of_lt hstart)]
  refine loop_spec hbound hlevel ?_
  have hsubset : unvisited n { visited := Function.update (fun _ => false) startNode true
                               queue := [(startNode, 0)]
                               result := [] } ⊆ (Finset.range n).erase startNode := by
    intro v hv
    obtain ⟨hrange, hnew⟩ := Finset.mem_filter.mp hv
    refine Finset.mem_erase.mpr ⟨?_, hrange⟩
    rintro rfl
    simp at hnew
  have hcard := Finset.card_le_card hsubset
  rw [Finset.card_erase_of_mem (Finset.mem_range.mpr hstart), Finset.card_range] at hcard
  simp only [List.length_singleton]
  omega

end BreadthFirst
end CleanCtx
