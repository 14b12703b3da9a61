import Pwrake.HostQueue
import Pwrake.Memoisation
import Pwrake.Lib.Machine
import Mathlib.Data.Finset.Card

set_option autoImplicit false

namespace Pwrake

namespace HostQueue

variable {Task : Type*}

variable [DecidableEq Task]

def queued (queue : HostQueue Task) : Finset Task := (queue.hosts.flatMap fun h => queue.q (some h)).toFinset

theorem mem_queued (queue : HostQueue Task) (j : Task) : j ∈ queue.queued ↔ ∃ h ∈ queue.hosts, j ∈ queue.q (some h) := by
  simp [queued]

def ask (queue : HostQueue Task) (query : Throughput.Query) : HostQueue Task :=
  { queue with throughput := (queue.throughput.ask query).2 }

omit [DecidableEq Task] in
theorem clear_blank (hosts : List Hostname) (queue : HostQueue Task) (sound : Sound hosts queue) (key : Option Hostname) :
    queue.clear.q key = [] := by
  unfold clear
  by_cases listed : ∃ h ∈ queue.hosts, key = some h
  · exact if_pos listed
  · refine (if_neg listed).trans ?_
    by_contra content
    obtain ⟨h, known, same⟩ := sound.known key content
    exact listed ⟨h, sound.own ▸ known, same⟩

omit [DecidableEq Task] in
theorem clear_sound (hosts : List Hostname) (queue : HostQueue Task) (sound : Sound hosts queue) : Sound hosts queue.clear :=
  ⟨sound.some_host, sound.own, sound.throughput, fun key content => absurd (queue.clear_blank hosts sound key) content⟩

omit [DecidableEq Task] in
theorem ask_sound (hosts : List Hostname) (queue : HostQueue Task) (query : Throughput.Query) (sound : Sound hosts queue) :
    Sound hosts (queue.ask query) := by
  refine ⟨sound.some_host, sound.own, ?_, sound.known⟩
  cases query with
  | interdomain x y => exact (Throughput.interdomain_faithful _ none sound.throughput x y).2
  | interhost x y =>
      exact (Throughput.interhost_faithful _ none sound.throughput x y fun _ _ => Throughput.unlisted_mirrored _ _).2

end HostQueue

-- A HostQueue and what happened to it. The localities of a task may differ
-- from push to push, and its throughput may be asked in between.
structure QueueSession (Task : Type*) where
  queue : HostQueue Task
  history : List (Posting Task)
  returned : List Task
  repushed : List Task
  dropped : Nat

inductive QueueLabel (Task : Type*) where
  | push (j : Task) (locality : List Hostname) (r : Nat)
  | pop (host : Option Hostname)
  | popAlt (host : Option Hostname)
  | clear
  | ask (query : Throughput.Query)
deriving DecidableEq

namespace QueueSession

variable {Task : Type*}

def init (hosts : List Hostname) : QueueSession Task := ⟨.new hosts, [], [], [], 0⟩

variable [DecidableEq Task]

def receive (s : QueueSession Task) (result : Option Task × HostQueue Task) : QueueSession Task :=
  { s with queue := result.2, returned := s.returned ++ result.1.toList }

def step (s : QueueSession Task) : QueueLabel Task → Option (QueueSession Task)
  | .push j locality r =>
      some { s with
        queue := s.queue.push (fun _ => locality) j r
        history := s.history ++ [s.queue.posting j locality r]
        repushed := if j ∈ s.queue.queued then s.repushed ++ [j] else s.repushed }
  | .pop host => some (s.receive (s.queue.pop host))
  | .popAlt host => some (s.receive (s.queue.popAlt host))
  | .clear => some { s with queue := s.queue.clear, dropped := s.dropped + s.queue.queued.card }
  | .ask query => some { s with queue := s.queue.ask query }

def Anyhow (_ : QueueSession Task) (_ : QueueLabel Task) : Prop := True

def Admits (queue : HostQueue Task) : QueueLabel Task → Prop
  | .push j _ _ => j ∉ queue.queued
  | _ => True

def Unqueued (s : QueueSession Task) (label : QueueLabel Task) : Prop := Admits s.queue label

def Fresh (s : QueueSession Task) : QueueLabel Task → Prop
  | .push j _ _ => j ∉ s.history.map Posting.job
  | .clear => False
  | _ => True

instance (s : QueueSession Task) (label : QueueLabel Task) : Decidable (Anyhow s label) := .isTrue trivial

instance (s : QueueSession Task) (label : QueueLabel Task) : Decidable (Unqueued s label) := by
  cases label <;> unfold Unqueued Admits <;> infer_instance

instance (s : QueueSession Task) (label : QueueLabel Task) : Decidable (Fresh s label) := by
  cases label <;> unfold Fresh <;> infer_instance

def called (queue : HostQueue Task) : QueueLabel Task → HostQueue Task
  | .push j locality r => queue.push (fun _ => locality) j r
  | .pop host => (queue.pop host).2
  | .popAlt host => (queue.popAlt host).2
  | .clear => queue.clear
  | .ask query => queue.ask query

theorem step_called (s next : QueueSession Task) (label : QueueLabel Task) (taken : s.step label = some next) :
    next.queue = called s.queue label := by
  cases label <;> cases taken <;> rfl

theorem called_sound (hosts : List Hostname) (queue : HostQueue Task) (label : QueueLabel Task)
    (sound : HostQueue.Sound hosts queue) : HostQueue.Sound hosts (called queue label) := by
  cases label with
  | push j locality r => exact HostQueue.push_sound (fun _ => locality) hosts queue j r sound
  | pop host => exact HostQueue.pop_sound hosts queue host sound
  | popAlt host => exact HostQueue.pop_alt_sound hosts queue host sound
  | clear => exact HostQueue.clear_sound hosts queue sound
  | ask query => exact HostQueue.ask_sound hosts queue query sound

variable {hosts : List Hostname} {guard : QueueSession Task → QueueLabel Task → Prop}

theorem sound_run (some_host : hosts ≠ []) (s : QueueSession Task) (run : Machine.Run step guard (init hosts) s) :
    HostQueue.Sound hosts s.queue := by
  refine Machine.run_invariant (fun s => HostQueue.Sound hosts s.queue) (init hosts) (HostQueue.new_sound hosts some_host)
    (fun before after label _ sound _ taken => ?_) s run
  rw [step_called before after label taken]
  exact called_sound hosts before.queue label sound

theorem queued_iff (queue : HostQueue Task) (sound : HostQueue.Sound hosts queue) (j : Task) :
    j ∈ queue.queued ↔ ∃ key, j ∈ queue.q key := by
  rw [HostQueue.mem_queued]
  constructor
  · rintro ⟨h, -, member⟩
    exact ⟨some h, member⟩
  · rintro ⟨key, member⟩
    obtain ⟨h, known, rfl⟩ := sound.known key (List.ne_nil_of_mem member)
    exact ⟨h, sound.own ▸ known, member⟩

end QueueSession

end Pwrake
