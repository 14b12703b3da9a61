import Mathlib.Data.List.Basic
import Mathlib.Data.List.Nodup

set_option autoImplicit false

-- A condition variable of a monitor: who waits un-notified, and who has been
-- notified but has not reacquired the monitor's mutex yet.
structure CondVar (Thread : Type*) where
  waiting : List Thread
  notified : List Thread
deriving DecidableEq, Repr

namespace CondVar

variable {Thread : Type*}

def empty : CondVar Thread := ⟨[], []⟩

def wait (cv : CondVar Thread) (thread : Thread) : CondVar Thread :=
  ⟨thread :: cv.waiting, cv.notified⟩

def broadcast (cv : CondVar Thread) : CondVar Thread := ⟨[], cv.waiting ++ cv.notified⟩

-- A thread is in at most one of the two lists, and at most once.
structure Tidy (cv : CondVar Thread) : Prop where
  waiting : cv.waiting.Nodup
  notified : cv.notified.Nodup
  disjoint : ∀ thread ∈ cv.waiting, thread ∉ cv.notified

theorem wait_tidy (cv : CondVar Thread) (thread : Thread) (tidy : cv.Tidy) (fresh : thread ∉ cv.waiting)
    (running : thread ∉ cv.notified) : (cv.wait thread).Tidy := by
  refine ⟨List.nodup_cons.mpr ⟨fresh, tidy.waiting⟩, tidy.notified, ?_⟩
  intro other member
  rcases List.mem_cons.mp member with same | earlier
  · exact same ▸ running
  · exact tidy.disjoint other earlier

theorem broadcast_tidy (cv : CondVar Thread) (tidy : cv.Tidy) : cv.broadcast.Tidy := by
  refine ⟨List.nodup_nil, ?_, fun _ member => absurd member List.not_mem_nil⟩
  exact List.nodup_append.mpr ⟨tidy.waiting, tidy.notified,
    fun a waits b notified same => tidy.disjoint a waits (same ▸ notified)⟩

variable [DecidableEq Thread]

-- The caller names the waiter that is woken; naming nobody is possible only
-- when nobody waits. So no signal is lost, and any waiter may be the one.
def signal (cv : CondVar Thread) : Option Thread → Option (CondVar Thread)
  | none => if cv.waiting = [] then some cv else none
  | some thread =>
      if thread ∈ cv.waiting then some ⟨cv.waiting.erase thread, thread :: cv.notified⟩ else none

def resume (cv : CondVar Thread) (thread : Thread) : CondVar Thread :=
  ⟨cv.waiting, cv.notified.erase thread⟩

theorem signal_cases (cv next : CondVar Thread) (wake : Option Thread) (signalled : cv.signal wake = some next) :
    (cv.waiting = [] ∧ next = cv) ∨
      ∃ thread ∈ cv.waiting, next = ⟨cv.waiting.erase thread, thread :: cv.notified⟩ := by
  cases wake with
  | none =>
      by_cases idle : cv.waiting = []
      · exact .inl ⟨idle, by simpa [signal, idle, eq_comm] using signalled⟩
      · simp [signal, idle] at signalled
  | some thread =>
      by_cases member : thread ∈ cv.waiting
      · exact .inr ⟨thread, member, by simpa [signal, member, eq_comm] using signalled⟩
      · simp [signal, member] at signalled

theorem signal_enabled (cv : CondVar Thread) : ∃ wake next, cv.signal wake = some next := by
  cases waiters : cv.waiting with
  | nil => exact ⟨none, cv, by simp [signal, waiters]⟩
  | cons thread rest => exact ⟨some thread, _, by simp [signal, waiters]; rfl⟩

theorem signal_wakes (cv next : CondVar Thread) (wake : Option Thread) (signalled : cv.signal wake = some next)
    (waiters : cv.waiting ≠ []) : next.notified ≠ [] := by
  rcases signal_cases cv next wake signalled with ⟨idle, -⟩ | ⟨thread, -, rfl⟩
  · exact absurd idle waiters
  · simp

theorem signal_waiting (cv next : CondVar Thread) (wake : Option Thread) (signalled : cv.signal wake = some next)
    (thread : Thread) (member : thread ∈ next.waiting) : thread ∈ cv.waiting := by
  rcases signal_cases cv next wake signalled with ⟨-, rfl⟩ | ⟨woken, -, rfl⟩
  · exact member
  · exact List.mem_of_mem_erase member

theorem signal_notified (cv next : CondVar Thread) (wake : Option Thread) (signalled : cv.signal wake = some next)
    (thread : Thread) (member : thread ∈ next.notified) : thread ∈ cv.notified ∨ thread ∈ cv.waiting := by
  rcases signal_cases cv next wake signalled with ⟨-, rfl⟩ | ⟨woken, waits, rfl⟩
  · exact .inl member
  · rcases List.mem_cons.mp member with same | earlier
    · exact .inr (same ▸ waits)
    · exact .inl earlier

theorem signal_woken (cv next : CondVar Thread) (wake : Option Thread) (signalled : cv.signal wake = some next)
    (waiters : next.waiting ≠ []) : ∃ thread ∈ cv.waiting, thread ∈ next.notified := by
  rcases signal_cases cv next wake signalled with ⟨idle, rfl⟩ | ⟨woken, waits, rfl⟩
  · exact absurd idle waiters
  · exact ⟨woken, waits, List.mem_cons_self⟩

theorem signal_nonempty (cv next : CondVar Thread) (wake : Option Thread) (signalled : cv.signal wake = some next)
    (waiters : next.waiting ≠ []) : next.notified ≠ [] := by
  apply signal_wakes cv next wake signalled
  intro idle
  rcases signal_cases cv next wake signalled with ⟨-, rfl⟩ | ⟨woken, waits, -⟩
  · exact waiters idle
  · simp [idle] at waits

theorem signal_tidy (cv next : CondVar Thread) (wake : Option Thread) (signalled : cv.signal wake = some next)
    (tidy : cv.Tidy) : next.Tidy := by
  rcases signal_cases cv next wake signalled with ⟨-, rfl⟩ | ⟨woken, waits, rfl⟩
  · exact tidy
  · refine ⟨tidy.waiting.erase woken, List.nodup_cons.mpr ⟨tidy.disjoint woken waits, tidy.notified⟩, ?_⟩
    intro thread member
    obtain ⟨different, waiting⟩ := tidy.waiting.mem_erase_iff.mp member
    simp [different, tidy.disjoint thread waiting]

theorem resume_tidy (cv : CondVar Thread) (thread : Thread) (tidy : cv.Tidy) : (cv.resume thread).Tidy :=
  ⟨tidy.waiting, tidy.notified.erase thread,
    fun other member later => tidy.disjoint other member (List.mem_of_mem_erase later)⟩

end CondVar
