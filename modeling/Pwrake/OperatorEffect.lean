import Pwrake.Operator

set_option autoImplicit false

namespace Pwrake

namespace Operator

variable {Task Name Scope : Type*} [DecidableEq Task] [Fintype Task]

-- What one step reads and writes, one constructor for each way through the
-- source. Proofs about runs go through this relation and never unfold step.
inductive Effect (app : Application Task Name Scope) (s : Operator Task Name) :
    OperatorLabel Task → Operator Task Name → Prop where
  | popRetired (w n : Nat) (wake : Option Nat) (stands : s.threads[w]? = some (.popping n))
      (awake : w ∉ s.inputQueue.cv.waiting) (head : s.inputQueue.thEnd.head? = some w) :
      Effect app s (.pop w wake)
        ({ s with inputQueue := { s.inputQueue with thEnd := s.inputQueue.thEnd.tail, cv := s.inputQueue.cv.resume w }
           }.setThread w .exited)
  | popClosed (w n : Nat) (wake : Option Nat) (cv : CondVar Nat) (stands : s.threads[w]? = some (.popping n))
      (awake : w ∉ s.inputQueue.cv.waiting) (notHead : s.inputQueue.thEnd.head? ≠ some w)
      (finished : s.inputQueue.finished = true) (signalled : (s.inputQueue.cv.resume w).signal wake = some cv) :
      Effect app s (.pop w wake) ({ s with inputQueue := { s.inputQueue with cv := cv } }.setThread w .exited)
  | popWait (w n : Nat) (wake : Option Nat) (stands : s.threads[w]? = some (.popping n))
      (awake : w ∉ s.inputQueue.cv.waiting) (notHead : s.inputQueue.thEnd.head? ≠ some w)
      (unfinished : s.inputQueue.finished = false) (vacant : s.inputQueue.q = []) :
      Effect app s (.pop w wake)
        ({ s with inputQueue := { s.inputQueue with cv := (s.inputQueue.cv.resume w).wait w } }.setThread w (.popping n))
  | popTask (w n : Nat) (wake : Option Nat) (cv : CondVar Nat) (task : Task) (rest : List Task)
      (stands : s.threads[w]? = some (.popping n)) (awake : w ∉ s.inputQueue.cv.waiting)
      (notHead : s.inputQueue.thEnd.head? ≠ some w) (unfinished : s.inputQueue.finished = false)
      (content : s.inputQueue.q = task :: rest) (signalled : (s.inputQueue.cv.resume w).signal wake = some cv) :
      Effect app s (.pop w wake)
        ({ s with inputQueue := { s.inputQueue with q := rest, cv := cv } }.setThread w (.popped task))
  | start (w : Nat) (task : Task) (stands : s.threads[w]? = some (.popped task)) :
      Effect app s (.start w)
        ({ s with invoked := insert task s.invoked, started := s.started ++ [task] }.setThread w (.running task))
  | call (w : Nat) (root task : Task) (stands : s.threads[w]? = some (.running task)) :
      Effect app s (.call w root)
        { s with
          outputs := s.outputs ++ [[]]
          threads := s.threads.set w
            (.invoking ⟨root, s.outputs.length, some (task, s.threads.length)⟩ .reset) ++ [.popping 0] }
  | taskEnd (w : Nat) (task : Task) (stands : s.threads[w]? = some (.running task)) :
      Effect app s (.taskEnd w) ({ s with ended := s.ended ++ [task] }.setThread w (.executed task))
  | complete (w i : Nat) (task : Task) (content : List Task) (stands : s.threads[w]? = some (.executed task))
      (owner : s.outputQueue task = some i) (output : s.outputs[i]? = some content) :
      Effect app s (.complete w) ({ s with outputs := s.outputs.set i (content ++ [task]) }.setThread w (.popping 0))
  | reset (w : Nat) (inv : Invocation Task) (stands : s.threads[w]? = some (.invoking inv .reset)) :
      Effect app s (.reset w)
        ({ s with footprint := ∅, fetchedTasks := s.arrays.length, arrays := s.arrays ++ [[]] }.setThread w
          (.invoking inv .trace))
  | traceBatch (w : Nat) (needed : Task → Bool) (inv : Invocation Task) (status : Status) (after : TraceState Task)
      (stands : s.threads[w]? = some (.invoking inv .trace))
      (result : Tracer.availableTask app needed inv.root s.tracer = (.ok (some status), after)) :
      Effect app s (.trace w needed)
        (((s.traced after).handOut ⟨s.fetchedTasks, inv.outputQueue⟩).setThread w (.invoking inv (.assign s.fetchedTasks)))
  | traceNil (w : Nat) (needed : Task → Bool) (inv : Invocation Task) (after : TraceState Task)
      (stands : s.threads[w]? = some (.invoking inv .trace))
      (result : Tracer.availableTask app needed inv.root s.tracer = (.ok none, after)) :
      Effect app s (.trace w needed) ((s.traced after).setThread w (afterLoop inv))
  | traceError (w : Nat) (needed : Task → Bool) (inv : Invocation Task) (error : TraceError Task Name)
      (after : TraceState Task) (stands : s.threads[w]? = some (.invoking inv .trace))
      (result : Tracer.availableTask app needed inv.root s.tracer = (.error error, after)) :
      Effect app s (.trace w needed) ((s.traced after).setThread w (.invoking inv .raised))
  | assign (w a : Nat) (inv : Invocation Task) (stands : s.threads[w]? = some (.invoking inv (.assign a))) :
      Effect app s (.assign w)
        ({ s with outputQueue := fun task => if task ∈ s.batch a then some inv.outputQueue else s.outputQueue task
           }.setThread w (.invoking inv (.push a)))
  | push (w a : Nat) (inv : Invocation Task) (wake : Option Nat) (cv : CondVar Nat)
      (stands : s.threads[w]? = some (.invoking inv (.push a))) (signalled : s.inputQueue.cv.signal wake = some cv) :
      Effect app s (.push w wake)
        ({ s with inputQueue := { s.inputQueue with q := s.inputQueue.q ++ s.batch a, cv := cv },
                  pushed := s.pushed ++ s.batch a }.setThread w (.invoking inv (.collect a 0)))
  | collect (w a taken : Nat) (inv : Invocation Task) (b : Task) (rest : List Task)
      (stands : s.threads[w]? = some (.invoking inv (.collect a taken))) (short : taken < (s.batch a).length)
      (output : s.outputs[inv.outputQueue]? = some (b :: rest)) (included : b ∈ s.batch a) :
      Effect app s (.collect w)
        ({ s with outputs := s.outputs.set inv.outputQueue rest, collected := s.collected ++ [b] }.setThread w
          (.invoking inv (.collect a (taken + 1))))
  | stray (w a taken : Nat) (inv : Invocation Task) (b : Task) (rest : List Task)
      (stands : s.threads[w]? = some (.invoking inv (.collect a taken))) (short : taken < (s.batch a).length)
      (output : s.outputs[inv.outputQueue]? = some (b :: rest)) (foreign : b ∉ s.batch a) :
      Effect app s (.collect w)
        ({ s with outputs := s.outputs.set inv.outputQueue rest, collected := s.collected ++ [b] }.setThread w
          (.invoking inv .raised))
  | again (w a taken : Nat) (inv : Invocation Task) (stands : s.threads[w]? = some (.invoking inv (.collect a taken)))
      (done : (s.batch a).length ≤ taken) :
      Effect app s (.again w) (s.setThread w (.invoking inv .reset))
  | threadEnd (w thread : Nat) (inv : Invocation Task) (task : Task)
      (stands : s.threads[w]? = some (.invoking inv .retire)) (nested : inv.nested = some (task, thread)) :
      Effect app s (.threadEnd w)
        ({ s with inputQueue := s.inputQueue.threadEnd thread }.setThread w (.invoking inv (.joining thread)))
  | join (w thread own : Nat) (inv : Invocation Task) (task : Task)
      (stands : s.threads[w]? = some (.invoking inv (.joining thread))) (nested : inv.nested = some (task, own))
      (gone : s.threads[thread]? = some .exited) :
      Effect app s (.join w) (s.setThread w (.running task))
  | invokeTask (name : Name) (rest : List Name) (root : Task) (stands : s.threads[mainThread]? = some .idle)
      (queued : s.todo = name :: rest) (known : app.lookup name none = some root) :
      Effect app s .invokeTask
        ({ s with outputs := s.outputs ++ [[]], todo := rest }.setThread mainThread
          (.invoking ⟨root, s.outputs.length, none⟩ .reset))
  | invokeUnknown (name : Name) (rest : List Name) (stands : s.threads[mainThread]? = some .idle)
      (queued : s.todo = name :: rest) (unknown : app.lookup name none = none) :
      Effect app s .invokeTask ({ s with todo := rest }.setThread mainThread .exited)
  | finish (wake : Option Nat) (cv : CondVar Nat) (stands : s.threads[mainThread]? = some .finishing)
      (signalled : s.inputQueue.cv.signal wake = some cv) :
      Effect app s (.finish wake)
        ({ s with inputQueue := { s.inputQueue with finished := true, cv := cv } }.setThread mainThread .joinWorkers)
  | joinWorkers (stands : s.threads[mainThread]? = some .joinWorkers) (gone : s.WorkersExited) :
      Effect app s .joinWorkers (s.setThread mainThread .idle)

theorem step_pop_effect (app : Application Task Name Scope) (s next : Operator Task Name) (w n : Nat)
    (wake : Option Nat) (stands : s.threads[w]? = some (.popping n)) (awake : w ∉ s.inputQueue.cv.waiting)
    (out : PopOutcome Task) (queue : TaskQueue (SimpleQueue Task) Nat)
    (turned : (awakened s.inputQueue w).popTurn SimpleQueue.ops w () n wake = some (out, queue))
    (same : { s with inputQueue := parked queue w out }.setThread w (afterPop out) = next) :
    Effect app s (.pop w wake) next := by
  subst same
  rcases TaskQueue.simple_pop_turn_cases _ _ _ _ _ _ _ turned with
    ⟨head, rfl, rfl⟩ | ⟨notHead, finished, rfl, cv, signalled, rfl⟩ | ⟨notHead, unfinished, vacant, rfl, rfl⟩ |
    ⟨notHead, unfinished, task, rest, cv, content, rfl, signalled, rfl⟩
  · exact .popRetired w n wake stands awake head
  · exact .popClosed w n wake cv stands awake notHead finished signalled
  · exact .popWait w n wake stands awake notHead unfinished vacant
  · exact .popTask w n wake cv task rest stands awake notHead unfinished content signalled

theorem step_effect (app : Application Task Name Scope) (s next : Operator Task Name) (label : OperatorLabel Task)
    (taken : s.step app label = some next) : Effect app s label next := by
  cases label with
  | pop w wake =>
      simp only [step] at taken
      split at taken
      · rename_i n stands
        split at taken
        · cases taken
        · rename_i awake
          simp only [Option.map_eq_some_iff, Prod.exists] at taken
          obtain ⟨out, queue, turned, same⟩ := taken
          exact step_pop_effect app s next w n wake stands awake out queue turned same
      · cases taken
  | start w =>
      simp only [step] at taken
      split at taken
      · rename_i task stands
        cases taken
        exact .start w task stands
      · cases taken
  | call w root =>
      simp only [step] at taken
      split at taken
      · rename_i task stands
        cases taken
        exact .call w root task stands
      · cases taken
  | taskEnd w =>
      simp only [step] at taken
      split at taken
      · rename_i task stands
        cases taken
        exact .taskEnd w task stands
      · cases taken
  | complete w =>
      simp only [step] at taken
      split at taken
      · rename_i task stands
        split at taken
        · rename_i i owner
          split at taken
          · rename_i content output
            cases taken
            exact .complete w i task content stands owner output
          · cases taken
        · cases taken
      · cases taken
  | reset w =>
      simp only [step] at taken
      split at taken
      · rename_i inv stands
        cases taken
        exact .reset w inv stands
      · cases taken
  | trace w needed =>
      simp only [step] at taken
      split at taken
      · rename_i inv stands
        split at taken
        · rename_i status after result
          cases taken
          exact .traceBatch w needed inv status after stands result
        · rename_i after result
          cases taken
          exact .traceNil w needed inv after stands result
        · rename_i error after result
          cases taken
          exact .traceError w needed inv error after stands result
      · cases taken
  | assign w =>
      simp only [step] at taken
      split at taken
      · rename_i inv a stands
        cases taken
        exact .assign w a inv stands
      · cases taken
  | push w wake =>
      simp only [step] at taken
      split at taken
      · rename_i inv a stands
        simp only [pushBatch, Option.map_eq_some_iff, TaskQueue.push_some] at taken
        obtain ⟨queue, ⟨cv, signalled, rfl⟩, rfl⟩ := taken
        rw [TaskQueue.simple_push_all, List.map_map]
        have pushed : Effect app s (.push w wake) _ := .push w a inv wake cv stands signalled
        simpa [Function.comp_def] using pushed
      · cases taken
  | collect w =>
      simp only [step] at taken
      split at taken
      · rename_i inv a count stands
        split at taken
        · rename_i short
          split at taken
          · rename_i b rest output
            cases taken
            by_cases included : b ∈ s.batch a
            · rw [if_pos included]
              exact .collect w a count inv b rest stands short output included
            · rw [if_neg included]
              exact .stray w a count inv b rest stands short output included
          · cases taken
        · cases taken
      · cases taken
  | again w =>
      simp only [step] at taken
      split at taken
      · rename_i inv a count stands
        split at taken
        · cases taken
        · rename_i done
          cases taken
          exact .again w a count inv stands (Nat.le_of_not_lt done)
      · cases taken
  | threadEnd w =>
      simp only [step] at taken
      split at taken
      · rename_i inv stands
        split at taken
        · rename_i task thread nested
          cases taken
          exact .threadEnd w thread inv task stands nested
        · cases taken
      · cases taken
  | join w =>
      simp only [step] at taken
      split at taken
      · rename_i inv thread stands
        split at taken
        · rename_i task own nested
          split at taken
          · rename_i gone
            cases taken
            exact .join w thread own inv task stands nested gone
          · cases taken
        · cases taken
      · cases taken
  | invokeTask =>
      simp only [step] at taken
      split at taken
      · rename_i name rest stands queued
        split at taken
        · rename_i root known
          cases taken
          exact .invokeTask name rest root stands queued known
        · rename_i unknown
          cases taken
          exact .invokeUnknown name rest stands queued unknown
      · cases taken
  | finish wake =>
      simp only [step] at taken
      split at taken
      · rename_i stands
        simp only [TaskQueue.finish, Option.map_eq_some_iff, TaskQueue.signal_some] at taken
        obtain ⟨queue, ⟨cv, signalled, rfl⟩, rfl⟩ := taken
        exact .finish wake cv stands signalled
      · cases taken
  | joinWorkers =>
      simp only [step] at taken
      split at taken
      · rename_i stands
        split at taken
        · rename_i gone
          cases taken
          exact .joinWorkers stands gone
        · cases taken
      · cases taken

end Operator

end Pwrake
