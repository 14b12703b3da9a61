import Mathlib.Data.Finset.Insert
import Mathlib.Data.List.Perm.Subperm
import Pwrake.Lib.Machine
import Pwrake.Lib.Slots
import Pwrake.Throughput

set_option autoImplicit false

namespace Pwrake

-- Where a thread of connect_list stands with its shell: before IO.popen, before
-- the first puts, in _get, after initialize, after its last statement. broken
-- tells whether initialize had returned when it raised.
inductive Dial where
  | starting
  | opened
  | asked
  | entered
  | connected
  | broken (entered : Bool)
deriving DecidableEq, Repr

-- The main thread: in connect_list, past it, and in the END block, which holds
-- the key it has fetched. raised is an END block left by an exception.
inductive EndPc where
  | connecting
  | running
  | closing (cursor : Option Nat)
  | closed
  | raised
deriving DecidableEq, Repr

-- The shells of one program. openList is OPEN_LIST in the order of its entries,
-- dead the shells whose process has ended by itself, closed those whose pipes
-- were closed here. exits is history: the shells that were sent "exit".
structure OpenList where
  dials : List Dial
  connections : List Nat
  openList : List Nat
  dead : Finset Nat
  closed : Finset Nat
  main : EndPc
  exits : List Nat
deriving DecidableEq

inductive ShellLabel where
  | popen (i : Nat)
  | ask (i : Nat)
  | enter (i : Nat)
  | connect (i : Nat)
  | fail (i : Nat)
  | die (i : Nat)
  | joined
  | finish
  | fetch
  | close
  | workerEnd (w : Nat)
  | abort (w : Nat)
deriving DecidableEq, Repr

-- OPEN_LIST takes no new key while map goes through it.
def EndPc.iterates : EndPc → Bool
  | .closing _ => true
  | _ => false

namespace OpenList

def new (n : Nat) : OpenList := ⟨List.replicate n .starting, [], [], ∅, ∅, .connecting, []⟩

def setDial (s : OpenList) (i : Nat) (dial : Dial) : OpenList := { s with dials := s.dials.set i dial }

-- Shell#close, which holds @lock, as Shell and SSH have it: GfarmSSH#close sends
-- commands first. none is the EPIPE of puts, which leaves the shell as it was.
def closeShell (s : OpenList) (k : Nat) : Option OpenList :=
  if k ∈ s.closed then some { s with openList := s.openList.erase k }
  else if k ∈ s.dead then none
  else some { s with openList := s.openList.erase k, closed := insert k s.closed, exits := s.exits ++ [k] }

-- What ends a thread of connect_list: GfarmSSH.new without a mount directory,
-- a puts to a dead shell, and an entry into OPEN_LIST while END goes through it.
def fails (singleMp : Bool) (s : OpenList) (i : Nat) : Dial → Option Dial
  | .starting => if singleMp then some (.broken false) else none
  | .opened => if i ∈ s.dead then some (.broken false) else none
  | .asked => if s.main.iterates then some (.broken false) else none
  | .entered => if i ∈ s.dead then some (.broken true) else none
  | _ => none

-- singleMp is the option that leaves the mount directory of GfarmSSH out.
def step (singleMp : Bool) (s : OpenList) : ShellLabel → Option OpenList
  | .popen i => if s.dials[i]? = some .starting ∧ singleMp = false then some (s.setDial i .opened) else none
  | .ask i => if s.dials[i]? = some .opened ∧ i ∉ s.dead then some (s.setDial i .asked) else none
  | .enter i =>
      if s.dials[i]? = some .asked ∧ s.main.iterates = false then
        some { s.setDial i .entered with openList := s.openList ++ [i] }
      else none
  | .connect i =>
      if s.dials[i]? = some .entered then some { s.setDial i .connected with connections := s.connections ++ [i] } else none
  | .fail i => (s.dials[i]?).bind fun dial => (fails singleMp s i dial).map (s.setDial i)
  | .die i => if i < s.dials.length then some { s with dead := insert i s.dead } else none
  | .joined => if s.main = .connecting ∧ ∀ dial ∈ s.dials, dial = .connected then some { s with main := .running } else none
  | .finish => if s.main = .connecting ∨ s.main = .running then some { s with main := .closing none } else none
  | .fetch =>
      if s.main = .closing none then
        match s.openList with
        | [] => some { s with main := .closed }
        | k :: _ => some { s with main := .closing (some k) }
      else none
  | .close =>
      match s.main with
      | .closing (some k) =>
          match closeShell s k with
          | some after => some { after with main := .closing none }
          | none => some { s with main := .raised }
      | _ => none
  -- the ensure clause of a worker, which also runs when the program ends
  | .workerEnd w => if s.main = .connecting then none else (s.connections[w]?).bind (closeShell s)
  -- a worker ends with the exception of its task, or with that of its own close of
  -- a dead shell, which abort_on_exception raises again in the main thread
  | .abort w =>
      if w < s.connections.length then
        match s.main with
        | .running => some { s with main := .closing none }
        | .closing _ => some { s with main := .raised }
        | _ => none
      else none

-- initialize has returned.
def Dial.registered : Dial → Bool
  | .entered | .connected | .broken true => true
  | _ => false

def Registered (s : OpenList) (i : Nat) : Prop := ∃ dial, s.dials[i]? = some dial ∧ Dial.registered dial = true

structure Kept (s : OpenList) : Prop where
  unique : s.openList.Nodup
  listed : ∀ i, i ∈ s.openList ↔ Registered s i ∧ i ∉ s.closed
  once : s.exits.Nodup
  sent : ∀ i, i ∈ s.exits ↔ i ∈ s.closed
  known : ∀ i ∈ s.closed, Registered s i
  apart : s.connections.Nodup
  connected : ∀ i, i ∈ s.connections ↔ s.dials[i]? = some .connected
  joined : s.main = .running → ∀ dial ∈ s.dials, dial = .connected
  fetched : ∀ k, s.main = .closing (some k) → Registered s k

section Steps

variable {s : OpenList}

theorem new_kept (n : Nat) : Kept (new n) where
  unique := List.nodup_nil
  listed i := by
    constructor
    · exact fun member => absurd member List.not_mem_nil
    · rintro ⟨⟨dial, here, entered⟩, -⟩
      have same : dial = .starting := Slots.lookup_replicate n i _ _ here
      subst same
      cases entered
  once := List.nodup_nil
  sent i := ⟨fun member => absurd member List.not_mem_nil, fun member => absurd member (Finset.notMem_empty i)⟩
  known i member := absurd member (Finset.notMem_empty i)
  apart := List.nodup_nil
  connected i := by
    constructor
    · exact fun member => absurd member List.not_mem_nil
    · intro here
      have same : Dial.connected = .starting := Slots.lookup_replicate n i _ _ here
      cases same
  joined stands := nomatch stands
  fetched k stands := nomatch stands

theorem registered_set (i : Nat) (old dial : Dial) (here : s.dials[i]? = some old) (j : Nat) :
    Registered (s.setDial i dial) j ↔ if j = i then Dial.registered dial = true else Registered s j := by
  unfold Registered setDial
  simp only [Slots.lookup_set s.dials i _ old dial here]
  split
  · simp
  · rfl

-- A thread that moves on without entering OPEN_LIST or the connections.
theorem dial_kept (kept : Kept s) (i : Nat) (old dial : Dial) (here : s.dials[i]? = some old)
    (same : Dial.registered dial = Dial.registered old) (before : old ≠ .connected) (after : dial ≠ .connected) :
    Kept (s.setDial i dial) := by
  have registered : ∀ j, Registered (s.setDial i dial) j ↔ Registered s j := by
    intro j
    rw [registered_set i old dial here j]
    split
    · rename_i equal
      subst equal
      rw [same]
      refine ⟨fun yes => ⟨old, here, yes⟩, fun ⟨other, there, yes⟩ => ?_⟩
      rw [here] at there
      cases there
      exact yes
    · rfl
  refine ⟨kept.unique, fun j => ?_, kept.once, kept.sent, fun j member => (registered j).mpr (kept.known j member), kept.apart,
    fun j => ?_, fun stands => ?_, fun k stands => ?_⟩
  · rw [registered]
    exact kept.listed j
  · change j ∈ s.connections ↔ (s.dials.set i dial)[j]? = _
    rw [kept.connected, Slots.lookup_set s.dials i j old dial here]
    split
    · rename_i equal
      subst equal
      simp [here, before, after]
    · rfl
  · exact absurd (kept.joined stands old (List.mem_of_getElem? here)) before
  · rw [registered]
    exact kept.fetched k stands

theorem close_cases (k : Nat) (after : OpenList) (closing : closeShell s k = some after) :
    ∃ exits, after = { s with openList := s.openList.erase k, closed := insert k s.closed, exits := exits } ∧
      (k ∈ s.closed ∧ exits = s.exits ∨ k ∉ s.closed ∧ k ∉ s.dead ∧ exits = s.exits ++ [k]) := by
  unfold closeShell at closing
  split at closing
  · rename_i already
    cases closing
    exact ⟨s.exits, by rw [Finset.insert_eq_of_mem already], .inl ⟨already, rfl⟩⟩
  · rename_i unclosed
    split at closing
    · cases closing
    · rename_i living
      cases closing
      exact ⟨_, rfl, .inr ⟨unclosed, living, rfl⟩⟩

-- A close by a worker leaves the main thread where it is; one by END brings it
-- to its next key.
theorem close_kept (kept : Kept s) (k : Nat) (after : OpenList) (registered : Registered s k)
    (closing : closeShell s k = some after) (main : EndPc) (moves : main = s.main ∨ main = .closing none) :
    Kept { after with main := main } := by
  obtain ⟨exits, rfl, sends⟩ := close_cases k after closing
  have stays : ∀ pc, main = pc → pc ≠ .closing none → s.main = pc := by
    rintro pc rfl other
    exact (moves.resolve_right other).symm
  constructor
  · exact kept.unique.erase k
  · intro i
    change i ∈ s.openList.erase k ↔ Registered s i ∧ i ∉ insert k s.closed
    rw [kept.unique.mem_erase_iff, kept.listed, Finset.mem_insert]
    tauto
  · rcases sends with ⟨-, rfl⟩ | ⟨unclosed, -, rfl⟩
    · exact kept.once
    · exact List.Nodup.append kept.once (List.nodup_singleton k) (by simpa using fun sent => unclosed ((kept.sent k).mp sent))
  · intro i
    rcases sends with ⟨already, rfl⟩ | ⟨unclosed, -, rfl⟩
    · simpa [Finset.insert_eq_of_mem already] using kept.sent i
    · simp [kept.sent, or_comm]
  · intro i member
    rcases Finset.mem_insert.mp member with rfl | earlier
    · exact registered
    · exact kept.known i earlier
  · exact kept.apart
  · exact kept.connected
  · exact fun stands => kept.joined (stays _ stands (by simp))
  · exact fun j stands => kept.fetched j (stays _ stands (by simp))

theorem registered_of_connection (kept : Kept s) (w k : Nat) (here : s.connections[w]? = some k) : Registered s k :=
  ⟨.connected, (kept.connected k).mp (List.mem_of_getElem? here), rfl⟩

-- The main thread alone has moved.
theorem main_kept (kept : Kept s) (main : EndPc) (joined : main = .running → ∀ dial ∈ s.dials, dial = .connected)
    (fetched : ∀ k, main = .closing (some k) → Registered s k) : Kept { s with main := main } :=
  ⟨kept.unique, kept.listed, kept.once, kept.sent, kept.known, kept.apart, kept.connected, joined, fetched⟩

theorem enter_kept (kept : Kept s) (i : Nat) (here : s.dials[i]? = some .asked) (still : s.main.iterates = false) :
    Kept { s.setDial i .entered with openList := s.openList ++ [i] } := by
  have fresh : ¬ Registered s i := by
    rintro ⟨dial, there, entered⟩
    rw [here] at there
    cases there
    cases entered
  have absent : i ∉ s.openList := fun member => fresh ((kept.listed i).mp member).1
  have registered := registered_set i .asked .entered here
  constructor
  · exact List.Nodup.append kept.unique (List.nodup_singleton i) (by simpa using absent)
  · intro j
    change j ∈ s.openList ++ [i] ↔ Registered (s.setDial i .entered) j ∧ j ∉ s.closed
    rw [List.mem_append, List.mem_singleton, kept.listed, registered]
    by_cases same : j = i
    · subst same
      have unclosed : j ∉ s.closed := fun closed => fresh (kept.known j closed)
      simp [unclosed, Dial.registered]
    · simp [same]
  · exact kept.once
  · exact kept.sent
  · intro j closed
    change Registered (s.setDial i .entered) j
    rw [registered]
    split
    · rfl
    · exact kept.known j closed
  · exact kept.apart
  · intro j
    change j ∈ s.connections ↔ (s.dials.set i .entered)[j]? = _
    rw [kept.connected, Slots.lookup_set s.dials i j _ _ here]
    split
    · rename_i same
      subst same
      simp [here]
    · rfl
  · exact fun stands => nomatch kept.joined stands _ (List.mem_of_getElem? here)
  · intro k stands
    rw [show s.main = .closing (some k) from stands] at still
    cases still

theorem connect_kept (kept : Kept s) (i : Nat) (here : s.dials[i]? = some .entered) :
    Kept { s.setDial i .connected with connections := s.connections ++ [i] } := by
  have registered : ∀ j, Registered (s.setDial i .connected) j ↔ Registered s j := by
    intro j
    rw [registered_set i .entered .connected here j]
    split
    · rename_i same
      subst same
      exact ⟨fun _ => ⟨.entered, here, rfl⟩, fun _ => rfl⟩
    · rfl
  have absent : i ∉ s.connections := by
    rw [kept.connected, here]
    simp
  constructor
  · exact kept.unique
  · intro j
    exact (kept.listed j).trans (and_congr_left' (registered j).symm)
  · exact kept.once
  · exact kept.sent
  · exact fun j closed => (registered j).mpr (kept.known j closed)
  · exact List.Nodup.append kept.apart (List.nodup_singleton i) (by simpa using absent)
  · intro j
    change j ∈ s.connections ++ [i] ↔ (s.dials.set i .connected)[j]? = _
    rw [List.mem_append, List.mem_singleton, kept.connected, Slots.lookup_set s.dials i j _ _ here]
    split
    · rename_i same
      simp [same]
    · rename_i other
      simp [other]
  · exact fun stands => nomatch kept.joined stands _ (List.mem_of_getElem? here)
  · exact fun k stands => (registered k).mpr (kept.fetched k stands)

theorem fails_shape (singleMp : Bool) (i : Nat) (old dial : Dial) (breaks : fails singleMp s i old = some dial) :
    Dial.registered dial = Dial.registered old ∧ old ≠ .connected ∧ dial ≠ .connected := by
  cases old with
  | starting =>
      simp only [fails, Option.ite_none_right_eq_some, Option.some.injEq] at breaks
      obtain ⟨-, rfl⟩ := breaks
      exact ⟨rfl, by simp, by simp⟩
  | opened =>
      simp only [fails, Option.ite_none_right_eq_some, Option.some.injEq] at breaks
      obtain ⟨-, rfl⟩ := breaks
      exact ⟨rfl, by simp, by simp⟩
  | asked =>
      simp only [fails, Option.ite_none_right_eq_some, Option.some.injEq] at breaks
      obtain ⟨-, rfl⟩ := breaks
      exact ⟨rfl, by simp, by simp⟩
  | entered =>
      simp only [fails, Option.ite_none_right_eq_some, Option.some.injEq] at breaks
      obtain ⟨-, rfl⟩ := breaks
      exact ⟨rfl, by simp, by simp⟩
  | connected => cases breaks
  | broken entered => cases breaks

theorem kept_step (singleMp : Bool) (after : OpenList) (label : ShellLabel) (kept : Kept s)
    (taken : step singleMp s label = some after) : Kept after := by
  cases label with
  | popen i =>
      simp only [step, Option.ite_none_right_eq_some, Option.some.injEq] at taken
      obtain ⟨⟨here, -⟩, rfl⟩ := taken
      exact dial_kept kept i _ _ here rfl (by simp) (by simp)
  | ask i =>
      simp only [step, Option.ite_none_right_eq_some, Option.some.injEq] at taken
      obtain ⟨⟨here, -⟩, rfl⟩ := taken
      exact dial_kept kept i _ _ here rfl (by simp) (by simp)
  | enter i =>
      simp only [step, Option.ite_none_right_eq_some, Option.some.injEq] at taken
      obtain ⟨⟨here, stands⟩, rfl⟩ := taken
      exact enter_kept kept i here stands
  | connect i =>
      simp only [step, Option.ite_none_right_eq_some, Option.some.injEq] at taken
      obtain ⟨here, rfl⟩ := taken
      exact connect_kept kept i here
  | fail i =>
      simp only [step, Option.bind_eq_some_iff, Option.map_eq_some_iff] at taken
      obtain ⟨old, here, dial, breaks, rfl⟩ := taken
      obtain ⟨same, before, after⟩ := fails_shape singleMp i old dial breaks
      exact dial_kept kept i old dial here same before after
  | die i =>
      simp only [step, Option.ite_none_right_eq_some, Option.some.injEq] at taken
      obtain ⟨-, rfl⟩ := taken
      exact ⟨kept.unique, kept.listed, kept.once, kept.sent, kept.known, kept.apart, kept.connected, kept.joined, kept.fetched⟩
  | joined =>
      simp only [step, Option.ite_none_right_eq_some, Option.some.injEq] at taken
      obtain ⟨⟨-, all⟩, rfl⟩ := taken
      exact main_kept kept .running (fun _ => all) (by simp)
  | finish =>
      simp only [step, Option.ite_none_right_eq_some, Option.some.injEq] at taken
      obtain ⟨-, rfl⟩ := taken
      exact main_kept kept (.closing none) (by simp) (by simp)
  | fetch =>
      simp only [step, Option.ite_none_right_eq_some] at taken
      obtain ⟨-, taken⟩ := taken
      split at taken
      · cases taken
        exact main_kept kept .closed (by simp) (by simp)
      · rename_i k rest shape
        cases taken
        refine main_kept kept (.closing (some k)) (by simp) ?_
        rintro _ ⟨⟩
        exact ((kept.listed k).mp (shape ▸ List.mem_cons_self)).1
  | close =>
      simp only [step] at taken
      split at taken
      · rename_i k stands
        split at taken
        · rename_i next closing
          cases taken
          exact close_kept kept k next (kept.fetched k stands) closing (.closing none) (.inr rfl)
        · cases taken
          exact main_kept kept .raised (by simp) (by simp)
      · cases taken
  | workerEnd w =>
      simp only [step, Option.ite_none_left_eq_some, Option.bind_eq_some_iff] at taken
      obtain ⟨-, k, here, closing⟩ := taken
      have closed := close_kept kept k after (registered_of_connection kept w k here) closing s.main (.inl rfl)
      obtain ⟨exits, rfl, -⟩ := close_cases k after closing
      exact closed
  | abort w =>
      simp only [step, Option.ite_none_right_eq_some] at taken
      obtain ⟨-, taken⟩ := taken
      split at taken
      · cases taken
        exact main_kept kept (.closing none) (by simp) (by simp)
      · cases taken
        exact main_kept kept .raised (by simp) (by simp)
      · cases taken

end Steps

section Runs

variable (singleMp : Bool) (n : Nat) (s : OpenList)

theorem kept_run (run : Machine.Run (step singleMp) (fun _ _ => True) (new n) s) : Kept s :=
  Machine.run_invariant Kept (new n) (new_kept n)
    (fun _ after label _ kept _ taken => kept_step singleMp after label kept taken) s run

-- A step changes the dial of one thread at most.
theorem step_dials (after : OpenList) (label : ShellLabel) (taken : step singleMp s label = some after) :
    after.dials = s.dials ∨ ∃ i old dial, s.dials[i]? = some old ∧ after.dials = s.dials.set i dial ∧
      (singleMp = true → old = .starting ∨ old = .broken false → dial = .broken false) := by
  cases label with
  | popen i =>
      simp only [step, Option.ite_none_right_eq_some, Option.some.injEq] at taken
      obtain ⟨⟨here, plain⟩, rfl⟩ := taken
      exact .inr ⟨i, _, _, here, rfl, fun single => by simp [plain] at single⟩
  | ask i =>
      simp only [step, Option.ite_none_right_eq_some, Option.some.injEq] at taken
      obtain ⟨⟨here, -⟩, rfl⟩ := taken
      exact .inr ⟨i, _, _, here, rfl, by simp⟩
  | enter i =>
      simp only [step, Option.ite_none_right_eq_some, Option.some.injEq] at taken
      obtain ⟨⟨here, -⟩, rfl⟩ := taken
      exact .inr ⟨i, _, _, here, rfl, by simp⟩
  | connect i =>
      simp only [step, Option.ite_none_right_eq_some, Option.some.injEq] at taken
      obtain ⟨here, rfl⟩ := taken
      exact .inr ⟨i, _, _, here, rfl, by simp⟩
  | fail i =>
      simp only [step, Option.bind_eq_some_iff, Option.map_eq_some_iff] at taken
      obtain ⟨old, here, dial, breaks, rfl⟩ := taken
      refine .inr ⟨i, old, dial, here, rfl, fun single either => ?_⟩
      rcases either with rfl | rfl
      · simpa [fails, single, eq_comm] using breaks
      · cases breaks
  | die i =>
      simp only [step, Option.ite_none_right_eq_some, Option.some.injEq] at taken
      obtain ⟨-, rfl⟩ := taken
      exact .inl rfl
  | joined =>
      simp only [step, Option.ite_none_right_eq_some, Option.some.injEq] at taken
      obtain ⟨-, rfl⟩ := taken
      exact .inl rfl
  | finish =>
      simp only [step, Option.ite_none_right_eq_some, Option.some.injEq] at taken
      obtain ⟨-, rfl⟩ := taken
      exact .inl rfl
  | fetch =>
      simp only [step, Option.ite_none_right_eq_some] at taken
      obtain ⟨-, taken⟩ := taken
      split at taken <;> cases taken <;> exact .inl rfl
  | close =>
      simp only [step] at taken
      split at taken
      · split at taken
        · rename_i next closing
          cases taken
          obtain ⟨exits, rfl, -⟩ := close_cases _ next closing
          exact .inl rfl
        · cases taken
          exact .inl rfl
      · cases taken
  | workerEnd w =>
      simp only [step, Option.ite_none_left_eq_some, Option.bind_eq_some_iff] at taken
      obtain ⟨-, k, -, closes⟩ := taken
      obtain ⟨exits, rfl, -⟩ := close_cases k after closes
      exact .inl rfl
  | abort w =>
      simp only [step, Option.ite_none_right_eq_some] at taken
      obtain ⟨-, taken⟩ := taken
      split at taken <;> cases taken <;> exact .inl rfl

theorem size_run (run : Machine.Run (step singleMp) (fun _ _ => True) (new n) s) : s.dials.length = n := by
  refine Machine.run_invariant (fun s => s.dials.length = n) (new n) List.length_replicate ?_ s run
  intro before after label _ size _ taken
  rcases step_dials singleMp before after label taken with same | ⟨i, old, dial, -, moved, -⟩
  · rw [same, size]
  · rw [moved, List.length_set, size]

-- Without a mount directory no thread comes past the first statement.
theorem single_mp_run (run : Machine.Run (step true) (fun _ _ => True) (new n) s) :
    ∀ (i : Nat) (dial : Dial), s.dials[i]? = some dial → dial = .starting ∨ dial = .broken false := by
  refine Machine.run_invariant (fun s => ∀ (i : Nat) (dial : Dial), s.dials[i]? = some dial →
    dial = .starting ∨ dial = .broken false)
    (new n) (fun i dial here => .inl (Slots.lookup_replicate n i _ _ here)) ?_ s run
  intro before after label _ held _ taken
  rcases step_dials true before after label taken with same | ⟨i, old, dial, here, moved, breaks⟩
  · exact same ▸ held
  · intro j found read
    rw [moved, Slots.lookup_set before.dials i j old dial here] at read
    split at read
    · exact .inr (Option.some.inj read ▸ breaks rfl (held i old here))
    · exact held j found read

theorem connections_complete (run : Machine.Run (step singleMp) (fun _ _ => True) (new n) s) (returned : s.main = .running) :
    s.connections.Perm (List.range n) := by
  have kept := kept_run singleMp n s run
  have size := size_run singleMp n s run
  refine (List.perm_ext_iff_of_nodup kept.apart List.nodup_range).mpr fun i => ?_
  rw [kept.connected, List.mem_range]
  constructor
  · exact fun here => size ▸ (List.getElem?_eq_some_iff.mp here).1
  · intro inside
    have bound : i < s.dials.length := size.symm ▸ inside
    rw [List.getElem?_eq_getElem bound, kept.joined returned _ (List.getElem_mem bound)]

theorem indexed_all (coreList : List Hostname) : (List.range coreList.length).filterMap (fun i => coreList[i]?) = coreList := by
  have each : ∀ i ∈ List.range coreList.length, coreList[i]? = some (coreList.getD i []) := by
    intro i member
    rw [List.getD_eq_getElem?_getD, List.getElem?_eq_getElem (List.mem_range.mp member)]
    rfl
  rw [List.filterMap_congr each, List.filterMap_eq_map']
  refine List.ext_getElem (by simp) fun i left right => ?_
  simp [right]

end Runs

inductive ConnectionClass where
  | shell
  | gfarmSSH
  | ssh
deriving DecidableEq, Repr

def localhost : Hostname := "localhost".toList

-- Manager#setup_connection.
def connectionClass (coreList : List Hostname) (gfarm : Bool) : ConnectionClass :=
  if coreList.all (· = localhost) then .shell else if gfarm then .gfarmSSH else .ssh

-- conn.host along connection_list. The threads of SSH and GfarmSSH append in the
-- order in which they finish.
def connectionHosts (coreList : List Hostname) (gfarm : Bool) (connections : List Nat) : List Hostname :=
  match connectionClass coreList gfarm with
  | .shell => coreList.map fun _ => localhost
  | _ => connections.filterMap fun i => coreList[i]?

def refusesMount (coreList : List Hostname) (gfarm singleMp : Bool) : Bool :=
  singleMp && connectionClass coreList gfarm = .gfarmSSH

-- Each entry of core_list gets one connection, in whatever order the threads of
-- connect_list finish, and connect_list returns only without the option.
theorem connect_list_covers (coreList : List Hostname) (gfarm singleMp : Bool) (s : OpenList)
    (run : Machine.Run (step (refusesMount coreList gfarm singleMp)) (fun _ _ => True) (new coreList.length) s)
    (returned : s.main = .running) :
    (connectionHosts coreList gfarm s.connections).Perm coreList ∧ refusesMount coreList gfarm singleMp = false := by
  have complete := connections_complete _ coreList.length s run returned
  constructor
  · have indexed := (complete.filterMap fun i => coreList[i]?).trans (.of_eq (indexed_all coreList))
    unfold connectionHosts
    split
    · rename_i isShell
      have every : ∀ h ∈ coreList, localhost = h := by
        intro h member
        unfold connectionClass at isShell
        split at isShell
        · rename_i all
          simpa [eq_comm] using List.all_eq_true.mp all h member
        · split at isShell <;> cases isShell
      rw [List.map_congr_left every, List.map_id']
    · exact indexed
  · by_contra refuses
    rw [Bool.not_eq_false] at refuses
    have some_host : coreList ≠ [] := by
      rintro rfl
      simp [refusesMount, connectionClass] at refuses
    have bound : 0 < s.dials.length := (size_run _ coreList.length s run).symm ▸ List.length_pos_of_ne_nil some_host
    have first := List.getElem?_eq_getElem bound
    rw [refuses] at run
    have stands := (kept_run true coreList.length s run).joined returned _ (List.getElem_mem bound)
    rcases single_mp_run coreList.length s run 0 _ first with other | other <;> exact nomatch stands.symm.trans other

-- The second thread is faster.
theorem connect_list_covers_two :
    ∃ s : OpenList, connectionHosts [['a'], ['b']] true s.connections = [['b'], ['a']] ∧
      (connectionHosts [['a'], ['b']] true s.connections).Perm [['a'], ['b']] := by
  obtain ⟨s, run, returned, order⟩ := Machine.run_of_exec (step (refusesMount [['a'], ['b']] true false)) (fun _ _ => True)
    (fun s => s.main = .running ∧ s.connections = [1, 0])
    [.popen 0, .popen 1, .ask 1, .enter 1, .ask 0, .connect 1, .enter 0, .connect 0, .joined] (new 2) (by decide)
  exact ⟨s, by rw [order]; decide, (connect_list_covers [['a'], ['b']] true false s run returned).1⟩

end OpenList

end Pwrake
