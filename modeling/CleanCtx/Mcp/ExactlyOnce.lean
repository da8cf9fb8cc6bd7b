import CleanCtx.Library.Lists
import CleanCtx.Mcp.Dispatcher
import Mathlib.Data.List.Nodup

/-!
Which accepted handlers are run. Handlers are conserved: an accepted one has been run, is
being run, or is in the queue of a worker. A worker that has left its loop runs nothing
more, so what its queue holds then is lost, and nothing else is.
-/
namespace CleanCtx
namespace Mcp

namespace Worker

def held (worker : Worker) : List Handler :=
  match worker.phase with
  | .running handler => handler :: worker.queue
  | _ => worker.queue

def Left (worker : Worker) : Prop := worker.phase = .leaving ∨ worker.phase = .gone

/-- A worker that has left with handlers in its queue. -/
def Stranded (worker : Worker) : Prop := worker.Left ∧ worker.queue ≠ []

/-- What a step of a worker may do. -/
inductive Stepped (shutdownFlag : Bool) (worker : Worker) : WorkerEvent → Worker → List Handler → Prop
  | check (hphase : worker.phase = .checking) :
      Stepped shutdownFlag worker (.check false) { worker with phase := .receiving } []
  | seen (hphase : worker.phase = .checking) (hflag : shutdownFlag = true) :
      Stepped shutdownFlag worker (.check true) { worker with phase := .leaving } []
  | receive {handler : Handler} {queue : List Handler} (hphase : worker.phase = .receiving)
      (hqueue : worker.queue = handler :: queue) :
      Stepped shutdownFlag worker .receive { worker with phase := .running handler, queue } []
  | timeOut (hphase : worker.phase = .receiving) :
      Stepped shutdownFlag worker .timeOut { worker with phase := .checking } []
  | disconnect (hphase : worker.phase = .receiving) (hqueue : worker.queue = []) :
      Stepped shutdownFlag worker .disconnect { worker with phase := .leaving } []
  | finish {handler : Handler} (panicked : Bool) (hphase : worker.phase = .running handler) :
      Stepped shutdownFlag worker (.finish panicked) { worker with phase := .checking } [handler]
  | dropReceiver (hphase : worker.phase = .leaving) :
      Stepped shutdownFlag worker .dropReceiver { worker with phase := .gone } []

theorem stepped_of_step {shutdownFlag : Bool} {worker next : Worker} {event : WorkerEvent}
    {finished : List Handler} (h : worker.step shutdownFlag event = some (next, finished)) :
    Stepped shutdownFlag worker event next finished := by
  cases event with
  | check seen =>
      simp only [step] at h
      split at h
      · cases h
        exact .check ‹_›
      · split at h
        · cases h
          exact .seen ‹_› ‹_›
        · cases h
      · cases h
  | receive =>
      simp only [step] at h
      split at h
      · cases h
        exact .receive ‹_› ‹_›
      · cases h
  | timeOut =>
      simp only [step] at h
      split at h
      · cases h
        exact .timeOut ‹_›
      · cases h
  | disconnect =>
      simp only [step] at h
      split at h
      · cases h
        exact .disconnect ‹_› ‹_›
      · cases h
  | finish panicked =>
      simp only [step] at h
      split at h
      · cases h
        exact .finish panicked ‹_›
      · cases h
  | dropReceiver =>
      simp only [step] at h
      split at h
      · cases h
        exact .dropReceiver ‹_›
      · cases h

section

variable {shutdownFlag : Bool} {worker next : Worker} {event : WorkerEvent}
  {finished : List Handler}

theorem Stepped.held (h : Stepped shutdownFlag worker event next finished) (handler : Handler) :
    worker.held.count handler = finished.count handler + next.held.count handler := by
  cases h with
  | check hphase | seen hphase _ | timeOut hphase | disconnect hphase _ | dropReceiver hphase =>
      simp [Worker.held, hphase]
  | receive hphase hqueue => simp [Worker.held, hphase, hqueue]
  | finish panicked hphase =>
      simp only [Worker.held, hphase, List.count_cons, List.count_nil]
      omega

theorem Stepped.stranded (h : Stepped shutdownFlag worker event next finished) :
    next.Stranded ↔ worker.Stranded ∨ (event = .check true ∧ worker.queue ≠ []) := by
  cases h with
  | check hphase | timeOut hphase | finish _ hphase | seen hphase _ | dropReceiver hphase =>
      simp [Stranded, Left, hphase]
  | receive hphase hqueue => simp [Stranded, Left, hphase]
  | disconnect hphase hqueue => simp [Stranded, Left, hphase, hqueue]

theorem Stepped.phase_gone (h : Stepped shutdownFlag worker event next finished) :
    worker.phase ≠ .gone := by
  cases h <;> simp_all

end

/-- A message that is accepted goes to the end of the queue of a worker that is not finished. -/
theorem trySend_ok {maxQueueDepth : Nat} {worker next : Worker} {handler : Handler}
    (h : worker.trySend maxQueueDepth handler = .ok next) :
    worker.phase ≠ .gone ∧ next = { worker with queue := worker.queue ++ [handler] } := by
  rw [trySend] at h
  split at h
  · cases h
  · split at h
    · cases h
    · split at h
      · cases h
        exact ⟨‹_›, rfl⟩
      · cases h

theorem held_trySend {maxQueueDepth : Nat} {worker next : Worker} {handler : Handler}
    (h : worker.trySend maxQueueDepth handler = .ok next) (x : Handler) :
    next.held.count x = worker.held.count x + [handler].count x := by
  obtain ⟨-, rfl⟩ := trySend_ok h
  simp only [held]
  split
  · simp only [List.count_append, List.count_cons]
    omega
  · rw [List.count_append]

theorem stranded_trySend {maxQueueDepth : Nat} {worker next : Worker} {handler : Handler}
    (h : worker.trySend maxQueueDepth handler = .ok next) :
    next.Stranded ↔ worker.Stranded ∨ worker.phase = .leaving := by
  obtain ⟨hphase, rfl⟩ := trySend_ok h
  simp [Stranded, Left, hphase]
  grind

end Worker

namespace Dispatcher

def heldCount (workers : List Worker) (handler : Handler) : Nat :=
  (workers.map fun worker => worker.held.count handler).sum

/-- What holds between two steps: no handler has two fates, the accepted ones are those run or still
held, and after the drop every worker is finished. -/
structure Conserved (d : Dispatcher) : Prop where
  fresh : d.known.Nodup
  conserved : ∀ handler, d.accepted.count handler =
    d.ran.count handler + heldCount d.workers handler
  gone : d.returned = true → ∀ worker ∈ d.workers, worker.phase = .gone

theorem heldCount_set {workers : List Worker} {i : Nat} {worker : Worker}
    (h : workers[i]? = some worker) (next : Worker) (handler : Handler) :
    heldCount (workers.set i next) handler + worker.held.count handler =
      heldCount workers handler + next.held.count handler :=
  Lists.sum_map_set (f := fun worker => worker.held.count handler) h next

theorem conserved_withConfig (maxQueueDepth workerCount : Nat) :
    (withConfig maxQueueDepth workerCount).Conserved := by
  refine ⟨List.nodup_nil, fun handler => ?_, nofun⟩
  simp [withConfig, heldCount, Worker.held, Worker.new]

theorem mem_of_lookup {claimed : List (Handler × Nat)} {handler : Handler} {i : Nat}
    (h : claimed.lookup handler = some i) : handler ∈ claimed.map Prod.fst := by
  obtain ⟨before, after, rfl, -⟩ := List.lookup_eq_some_iff.mp h
  simp

/-- A claim that is settled moves the handler out of the claims. -/
theorem nodup_settled {claimed : List Handler} {settled : List Handler} {handler : Handler}
    (hmem : handler ∈ claimed) (h : (claimed ++ settled).Nodup) :
    (claimed.filter (· ≠ handler) ++ handler :: settled).Nodup := by
  rw [List.nodup_append] at h ⊢
  refine ⟨h.1.filter _, List.nodup_cons.mpr ⟨fun hin => h.2.2 _ hmem _ hin rfl, h.2.1⟩, ?_⟩
  intro a ha b hb
  obtain ⟨hclaimed, hne⟩ := List.mem_filter.mp ha
  rcases List.mem_cons.mp hb with rfl | hb
  · simpa using hne
  · exact h.2.2 a hclaimed b hb

theorem Conserved.step {d next : Dispatcher} {event : Event} (h : d.Conserved)
    (hstep : d.step event = some next) : next.Conserved := by
  cases event with
  | claim handler =>
      simp only [Dispatcher.step] at hstep
      split at hstep
      · cases hstep
      · rename_i hfree
        cases hstep
        refine ⟨?_, h.conserved, h.gone⟩
        have hnew : handler ∉ d.known := by
          intro hin
          simp [hin] at hfree
        exact List.nodup_cons.mpr ⟨hnew, h.fresh⟩
  | send handler =>
      simp only [Dispatcher.step, Option.bind_eq_bind, Option.bind_eq_some_iff] at hstep
      obtain ⟨i, hclaim, worker, hworker, hstep⟩ := hstep
      have hmem := mem_of_lookup hclaim
      have hclaims : (d.claimed.filter fun claim => claim.1 ≠ handler).map Prod.fst =
          (d.claimed.map Prod.fst).filter (· ≠ handler) := by
        rw [List.filter_map]
        rfl
      have hfresh := h.fresh
      simp only [known, List.append_assoc] at hfresh
      split at hstep
      · rename_i sent hsent
        cases hstep
        refine ⟨?_, fun x => ?_, fun hreturned w hw => ?_⟩
        · simp only [known, hclaims, List.append_assoc]
          exact nodup_settled hmem hfresh
        · have hheld := Worker.held_trySend hsent x
          have hset := heldCount_set hworker sent x
          have := h.conserved x
          simp only [List.count_cons, List.count_nil] at hheld ⊢
          omega
        · exact absurd (h.gone hreturned worker (List.mem_of_getElem? hworker))
            (Worker.trySend_ok hsent).1
      · rename_i e hrefused
        cases hstep
        refine ⟨?_, h.conserved, h.gone⟩
        simp only [known, hclaims, List.append_assoc, List.map_cons]
        refine (nodup_settled hmem hfresh).perm (List.Perm.append_left _ ?_)
        exact List.perm_middle.symm
  | worker i event =>
      simp only [Dispatcher.step, Option.bind_eq_bind, Option.bind_eq_some_iff] at hstep
      obtain ⟨worker, hworker, ⟨after, finished⟩, hafter, hstep⟩ := hstep
      have hstepped := Worker.stepped_of_step hafter
      cases hstep
      refine ⟨h.fresh, fun x => ?_, fun hreturned w hw => ?_⟩
      · have hset := heldCount_set hworker after x
        have hheld := hstepped.held x
        have := h.conserved x
        simp only [List.count_append]
        omega
      · exact absurd (h.gone hreturned worker (List.mem_of_getElem? hworker)) hstepped.phase_gone
  | signal =>
      cases hstep
      exact ⟨h.fresh, h.conserved, h.gone⟩
  | close i =>
      simp only [Dispatcher.step, Option.bind_eq_bind, Option.bind_eq_some_iff] at hstep
      obtain ⟨worker, hworker, hstep⟩ := hstep
      split at hstep
      · cases hstep
        refine ⟨h.fresh, fun x => ?_, fun hreturned w hw => ?_⟩
        · have hset := heldCount_set hworker { worker with tx := false } x
          have hheld : ({ worker with tx := false } : Worker).held = worker.held := rfl
          have := h.conserved x
          rw [hheld] at hset
          simp only
          omega
        · rcases List.mem_or_eq_of_mem_set hw with hw | rfl
          · exact h.gone hreturned w hw
          · exact h.gone hreturned worker (List.mem_of_getElem? hworker)
      · cases hstep
  | beginDrop =>
      simp only [Dispatcher.step] at hstep
      split at hstep
      · cases hstep
        exact ⟨h.fresh, h.conserved, h.gone⟩
      · cases hstep
  | joined =>
      simp only [Dispatcher.step] at hstep
      split at hstep
      · rename_i hjoined
        cases hstep
        refine ⟨h.fresh, h.conserved, fun _ w hw => ?_⟩
        have hall := (Bool.and_eq_true_iff.mp hjoined).2
        have hgone := (Bool.and_eq_true_iff.mp (List.all_eq_true.mp hall w hw)).2
        exact of_decide_eq_true hgone
      · cases hstep

def Abandoned (d : Dispatcher) : Prop := ∃ worker ∈ d.workers, worker.Stranded

theorem abandoned_set {workers : List Worker} {i : Nat} {worker next : Worker} {bad : Prop}
    (hworker : workers[i]? = some worker) (hnext : next.Stranded ↔ worker.Stranded ∨ bad) :
    (∃ w ∈ workers.set i next, w.Stranded) ↔ (∃ w ∈ workers, w.Stranded) ∨ bad := by
  rw [Lists.exists_mem_set hworker fun h => hnext.mpr (Or.inl h), hnext, ← or_assoc]
  refine or_congr_left (or_iff_left_of_imp fun h => ?_)
  exact ⟨worker, List.mem_of_getElem? hworker, h⟩

/-- Handlers are left behind exactly in the steps that strand some. -/
theorem abandoned_step {d next : Dispatcher} {event : Event} (hstep : d.step event = some next) :
    next.Abandoned ↔ d.Abandoned ∨ d.Strands event := by
  cases event with
  | claim handler =>
      simp only [Dispatcher.step] at hstep
      split at hstep
      · cases hstep
      · cases hstep
        exact (or_iff_left id).symm
  | send handler =>
      simp only [Dispatcher.step, Option.bind_eq_bind, Option.bind_eq_some_iff] at hstep
      obtain ⟨i, hclaim, worker, hworker, hstep⟩ := hstep
      split at hstep
      · rename_i sent hsent
        cases hstep
        have hstrands : d.Strands (.send handler) ↔ worker.phase = .leaving := by
          refine ⟨?_, fun hphase => ⟨i, worker, sent, hclaim, hworker, hphase, hsent⟩⟩
          rintro ⟨j, other, _, hclaim', hother, hphase, -⟩
          cases hclaim.symm.trans hclaim'
          cases hworker.symm.trans hother
          exact hphase
        rw [hstrands]
        exact abandoned_set hworker (Worker.stranded_trySend hsent)
      · rename_i e hrefused
        cases hstep
        refine (or_iff_left ?_).symm
        rintro ⟨j, other, sent, hclaim', hother, -, hsent⟩
        cases hclaim.symm.trans hclaim'
        cases hworker.symm.trans hother
        cases hrefused.symm.trans hsent
  | worker i event =>
      simp only [Dispatcher.step, Option.bind_eq_bind, Option.bind_eq_some_iff] at hstep
      obtain ⟨worker, hworker, ⟨after, finished⟩, hafter, hstep⟩ := hstep
      have hstranded := (Worker.stepped_of_step hafter).stranded
      cases hstep
      have hstrands : d.Strands (.worker i event) ↔ event = .check true ∧ worker.queue ≠ [] := by
        cases event with
        | check seen => cases seen <;> simp [Strands, hworker]
        | _ => simp [Strands]
      rw [hstrands]
      exact abandoned_set hworker hstranded
  | signal =>
      cases hstep
      exact (or_iff_left id).symm
  | close i =>
      simp only [Dispatcher.step, Option.bind_eq_bind, Option.bind_eq_some_iff] at hstep
      obtain ⟨worker, hworker, hstep⟩ := hstep
      split at hstep
      · cases hstep
        exact abandoned_set hworker (or_iff_left id).symm
      · cases hstep
  | beginDrop =>
      simp only [Dispatcher.step] at hstep
      split at hstep
      · cases hstep
        exact (or_iff_left id).symm
      · cases hstep
  | joined =>
      simp only [Dispatcher.step] at hstep
      split at hstep
      · cases hstep
        exact (or_iff_left id).symm
      · cases hstep

theorem heldCount_pos {workers : List Worker} {worker : Worker} (h : worker ∈ workers)
    {handler : Handler} (hheld : 0 < worker.held.count handler) : 0 < heldCount workers handler :=
  List.sum_pos_iff_exists_pos_nat.mpr ⟨_, List.mem_map_of_mem h, hheld⟩

/-- A refused handler is nowhere. -/
theorem Conserved.refused_not_run {d : Dispatcher} (h : d.Conserved) :
    ∀ refusal ∈ d.refused, refusal.1 ∉ d.ran ∧
      ∀ worker ∈ d.workers, worker.phase ≠ .running refusal.1 := by
  intro refusal hrefusal
  have hnot : refusal.1 ∉ d.accepted := fun haccepted =>
    (List.nodup_append.mp h.fresh).2.2 _ (List.mem_append_right _ haccepted) _
      (List.mem_map_of_mem hrefusal) rfl
  have hcount := h.conserved refusal.1
  rw [List.count_eq_zero.mpr hnot] at hcount
  refine ⟨List.count_eq_zero.mp (by omega), fun worker hworker hphase => ?_⟩
  have hheld : 0 < worker.held.count refusal.1 := by simp [Worker.held, hphase]
  have := heldCount_pos hworker hheld
  omega

/-- Once all workers are finished, each accepted handler was run once if and only if no worker left
any behind. -/
theorem Conserved.ran_once_iff {d : Dispatcher} (h : d.Conserved) (hreturned : d.returned = true) :
    (∀ handler ∈ d.accepted, d.ran.count handler = 1) ↔ ¬d.Abandoned := by
  have hgone := h.gone hreturned
  have haccepted : d.accepted.Nodup :=
    (List.nodup_append.mp (List.nodup_append.mp h.fresh).1).2.1
  have hheld : ∀ worker ∈ d.workers, worker.held = worker.queue := fun worker hworker => by
    simp [Worker.held, hgone worker hworker]
  constructor
  · rintro honce ⟨worker, hworker, -, hqueue⟩
    obtain ⟨handler, hhandler⟩ := List.exists_mem_of_ne_nil _ hqueue
    have hone : 0 < worker.held.count handler := by
      rw [hheld worker hworker]
      exact List.count_pos_iff.mpr hhandler
    have hpos := heldCount_pos hworker hone
    have hconserved := h.conserved handler
    have hin : handler ∈ d.accepted := List.count_pos_iff.mp (by omega)
    have hcount := List.nodup_iff_count_le_one.mp haccepted handler
    have := honce handler hin
    omega
  · intro hkept handler hin
    have hnone : heldCount d.workers handler = 0 := by
      refine List.sum_eq_zero_iff_forall_eq_nat.mpr fun n hn => ?_
      obtain ⟨worker, hworker, rfl⟩ := List.mem_map.mp hn
      have hqueue : worker.queue = [] := Classical.byContradiction fun hne =>
        hkept ⟨worker, hworker, Or.inr (hgone worker hworker), hne⟩
      rw [hheld worker hworker, hqueue, List.count_nil]
    have hconserved := h.conserved handler
    rw [List.count_eq_one_of_mem haccepted hin] at hconserved
    omega

/-- In every run, the accepted handlers are run exactly once before the drop returns if and only if
no step of the run strands handlers; refused handlers are never run. -/
theorem exactlyOnce_iff (maxQueueDepth workerCount : Nat) {events : List Event} {d : Dispatcher}
    (hrun : Runs.run step (withConfig maxQueueDepth workerCount) events = some d) :
    d.ExactlyOnce ↔ (d.returned = true → Runs.Along step (fun d event => ¬d.Strands event)
      (withConfig maxQueueDepth workerCount) events) := by
  have hstart := conserved_withConfig maxQueueDepth workerCount
  have hconserved : d.Conserved :=
    Runs.invariant (fun _ _ _ h hstep => h.step hstep) hstart hrun
  have habandoned := Runs.raised_iff (B := Strands) (P := Abandoned)
    (fun _ _ _ h hstep => Conserved.step h hstep) (fun _ _ _ _ hstep => abandoned_step hstep)
    hstart hrun
  have hnone : ¬(withConfig maxQueueDepth workerCount).Abandoned := by
    rintro ⟨worker, hworker, hleft, -⟩
    rw [List.eq_of_mem_replicate hworker] at hleft
    rcases hleft with hleft | hleft <;> cases hleft
  constructor
  · intro h hreturned
    have hkept := (hconserved.ran_once_iff hreturned).mp (h.1 hreturned)
    exact Classical.not_not.mp fun hstranded => hkept (habandoned.mpr (Or.inr hstranded))
  · intro h
    refine ⟨fun hreturned => (hconserved.ran_once_iff hreturned).mpr fun hlost => ?_,
      hconserved.refused_not_run⟩
    exact (habandoned.mp hlost).elim hnone fun hstranded => hstranded (h hreturned)

/-- One worker and one request; the drop begins while the worker waits for the next one. -/
def drainedRun : List Event :=
  [.claim 7, .worker 0 (.check false), .send 7, .worker 0 .receive, .worker 0 (.finish true),
    .worker 0 (.check false), .beginDrop, .close 0, .worker 0 .disconnect, .worker 0 .dropReceiver,
    .joined]

theorem exactlyOnce_drained : ∃ d, Runs.run step (withConfig 1000 1) drainedRun = some d ∧
    d.returned = true ∧ d.ran = [7] ∧
    Runs.Along step (fun d event => ¬d.Strands event) (withConfig 1000 1) drainedRun :=
  ⟨_, rfl, rfl, rfl, (exactlyOnce_iff 1000 1 rfl).mp (by decide) rfl⟩

/-- A request is accepted, and the drop begins before the worker looks at its queue. -/
theorem not_exactlyOnce_queued : ∃ d, Runs.run step (withConfig 1000 1)
    [.claim 7, .send 7, .beginDrop, .close 0, .worker 0 (.check true), .worker 0 .dropReceiver,
      .joined] = some d ∧ d.returned = true ∧ ¬d.ExactlyOnce :=
  ⟨_, rfl, rfl, by decide⟩

end Dispatcher
end Mcp
end CleanCtx
