import Pwrake.Gfwhere
import Pwrake.Hostlist
import Pwrake.Lib.Numeral

set_option autoImplicit false

namespace Pwrake

-- The exceptions that end setup_hostlist.
inductive HostfileError where
  | socketError (host : Text)
  | argumentError (ncore : Int)
  | indexError (group : Int)
deriving DecidableEq, Repr

-- What is read of a line that names a host.
structure HostEntry where
  host : Text
  ncore : Int
  group : Int
deriving DecidableEq, Repr

-- What setup_hostlist has read so far. A group that no line has named is nil.
structure Hostfile where
  tmplist : List (List Hostname)
  hostGroup : List (Option (List Hostname))
deriving DecidableEq, Repr

namespace Manager

-- l = $1 if /^([^#]*)#/ =~ l
def uncomment (l : Text) : Text := l.takeWhile (· ≠ '#')

-- host, ncore, group = l.split, and the numbers that stand for missing words.
def fields (l : Text) : Option HostEntry :=
  match GfarmSSH.split (uncomment l) with
  | [] => none
  | host :: rest => some ⟨host, ((rest[0]?).map Numeral.toI).getD 1, ((rest[1]?).map Numeral.toI).getD 0⟩

-- Where an array of this size is written at an index. One below zero counts
-- from the end and must not pass the front.
def groupIndex (size : Nat) (group : Int) : Option Nat :=
  if 0 ≤ group then some group.toNat else if 0 ≤ size + group then some (size + group).toNat else none

-- @host_group[group] ||= []; @host_group[group] << host
def enlist (hostGroup : List (Option (List Hostname))) (group : Int) (host : Hostname) :
    Option (List (Option (List Hostname))) :=
  (groupIndex hostGroup.length group).map fun i =>
    (hostGroup ++ List.replicate (i + 1 - hostGroup.length) none).set i (some ((hostGroup[i]?.join).getD [] ++ [host]))

-- gethostbyname is the canonical name of a host, none where it is not found.
def enter (gethostbyname : Text → Option Hostname) (s : Hostfile) (entry : HostEntry) : Except HostfileError Hostfile :=
  match gethostbyname entry.host with
  | none => .error (.socketError entry.host)
  | some host =>
      match times host entry.ncore with
      | none => .error (.argumentError entry.ncore)
      | some array =>
          match enlist s.hostGroup entry.group host with
          | none => .error (.indexError entry.group)
          | some hostGroup => .ok ⟨s.tmplist ++ [array], hostGroup⟩

def readLine (gethostbyname : Text → Option Hostname) (s : Hostfile) (l : Text) : Except HostfileError Hostfile :=
  match fields l with
  | none => .ok s
  | some entry => enter gethostbyname s entry

def readHostfile (gethostbyname : Text → Option Hostname) (text : Text) : Except HostfileError Hostfile :=
  (Lines.lines '\n' text).foldlM (readLine gethostbyname) ⟨[], []⟩

-- setup_hostlist from File.open on.
def setupHostfile (gethostbyname : Text → Option Hostname) (text : Text) :
    Except HostfileError (Hostlist × List (Option (List Hostname))) :=
  (readHostfile gethostbyname text).map fun s => (⟨alternate s.tmplist [], (alternate s.tmplist []).length⟩, s.hostGroup)

def entries (text : Text) : List HostEntry := (Lines.lines '\n' text).filterMap fields

theorem read_entries (gethostbyname : Text → Option Hostname) (text : Text) :
    readHostfile gethostbyname text = (entries text).foldlM (enter gethostbyname) ⟨[], []⟩ := by
  unfold readHostfile entries
  generalize (⟨[], []⟩ : Hostfile) = s
  induction Lines.lines '\n' text generalizing s with
  | nil => rfl
  | cons l rest ih =>
      rw [List.foldlM_cons, readLine]
      cases shape : fields l with
      | none =>
          rw [List.filterMap_cons_none shape]
          exact ih s
      | some entry =>
          rw [List.filterMap_cons_some shape, List.foldlM_cons]
          exact bind_congr fun next => ih next

section Groups

-- The hosts that the lines name for a group, in file order.
def members (named : List (Hostname × Int)) (i : Nat) : List Hostname :=
  (named.filter fun pair => pair.2 = (i : Int)).map Prod.fst

def width (named : List (Hostname × Int)) : Nat := named.foldl (fun most pair => max most (pair.2.toNat + 1)) 0

-- @host_group after these lines.
def groups (named : List (Hostname × Int)) : List (Option (List Hostname)) :=
  (List.range (width named)).map fun i => if members named i = [] then none else some (members named i)

theorem width_snoc (named : List (Hostname × Int)) (pair : Hostname × Int) :
    width (named ++ [pair]) = max (width named) (pair.2.toNat + 1) := by
  rw [width, List.foldl_append]
  rfl

theorem members_snoc (named : List (Hostname × Int)) (host : Hostname) (group : Int) (natural : 0 ≤ group) (i : Nat) :
    members (named ++ [(host, group)]) i = if i = group.toNat then members named i ++ [host] else members named i := by
  obtain ⟨k, rfl⟩ := Int.eq_ofNat_of_zero_le natural
  rw [members, List.filter_append, List.map_append, Int.toNat_natCast]
  by_cases same : k = i
  · simp [members, same]
  · simp [members, same, Ne.symm same]

theorem members_past (named : List (Hostname × Int)) (i : Nat) (past : width named ≤ i) (natural : ∀ pair ∈ named, 0 ≤ pair.2) :
    members named i = [] := by
  induction named using List.reverseRecOn with
  | nil => rfl
  | append_singleton front pair ih =>
      have whole : 0 ≤ pair.2 := natural pair (by simp)
      rw [width_snoc] at past
      rw [show pair = (pair.1, pair.2) from rfl, members_snoc front pair.1 pair.2 whole, if_neg (by omega)]
      exact ih (by omega) fun other member => natural other (by simp [member])

theorem groups_get (named : List (Hostname × Int)) (natural : ∀ pair ∈ named, 0 ≤ pair.2) (i : Nat) :
    ((groups named)[i]?.join).getD [] = members named i := by
  by_cases inside : i < width named
  · by_cases vacant : members named i = []
    · simp [groups, inside, vacant]
    · simp [groups, inside, vacant]
  · simp [groups, inside, members_past named i (Nat.le_of_not_lt inside) natural]

theorem enlist_groups (named : List (Hostname × Int)) (host : Hostname) (group : Int) (natural : 0 ≤ group)
    (before : ∀ pair ∈ named, 0 ≤ pair.2) :
    enlist (groups named) group host = some (groups (named ++ [(host, group)])) := by
  have size : (groups named).length = width named := by simp [groups]
  rw [enlist, groupIndex, if_pos natural, Option.map_some, groups_get named before]
  congr 1
  have whole : (groups (named ++ [(host, group)])).length = max (width named) (group.toNat + 1) := by
    simp [groups, width_snoc]
  refine List.ext_getElem (by simp only [List.length_set, List.length_append, List.length_replicate, size, whole]; omega) ?_
  intro i left right
  rw [List.getElem_set]
  by_cases same : group.toNat = i
  · subst same
    have grown := members_snoc named host group natural group.toNat
    rw [if_pos rfl] at grown
    simp [groups, grown]
  · have kept := members_snoc named host group natural i
    rw [if_neg (Ne.symm same)] at kept
    rw [if_neg same]
    by_cases inside : i < width named
    · rw [List.getElem_append_left (by omega)]
      simp [groups, kept]
    · rw [List.getElem_append_right (by omega)]
      simp [groups, kept, members_past named i (Nat.le_of_not_lt inside) before]

end Groups

section Reading

variable (gethostbyname : Text → Option Hostname)

-- What is wrong with a line, whatever was read before it.
def fault (entry : HostEntry) : Option HostfileError :=
  match gethostbyname entry.host with
  | none => some (.socketError entry.host)
  | some _ => if entry.ncore < 0 then some (.argumentError entry.ncore) else none

def hostLines (read : List HostEntry) : List HostLine :=
  read.filterMap fun entry => (gethostbyname entry.host).map fun host => ⟨host, entry.ncore⟩

def named (read : List HostEntry) : List (Hostname × Int) :=
  read.filterMap fun entry => (gethostbyname entry.host).map fun host => (host, entry.group)

def arrays (lines : List HostLine) : List (List Hostname) := lines.map fun line => List.replicate line.ncore.toNat line.host

theorem enter_some (s : Hostfile) (entry : HostEntry) (next : Hostfile) (entered : enter gethostbyname s entry = .ok next) :
    ∃ host hostGroup, gethostbyname entry.host = some host ∧ 0 ≤ entry.ncore ∧
      enlist s.hostGroup entry.group host = some hostGroup ∧
      next = ⟨s.tmplist ++ [List.replicate entry.ncore.toNat host], hostGroup⟩ := by
  unfold enter at entered
  split at entered
  · cases entered
  · rename_i host found
    split at entered
    · cases entered
    · rename_i array counted
      unfold times at counted
      split at counted
      · cases counted
      · rename_i whole
        cases counted
        split at entered
        · cases entered
        · rename_i hostGroup listed
          cases entered
          exact ⟨host, hostGroup, found, Int.not_lt.mp whole, listed, rfl⟩

theorem enter_fault (s : Hostfile) (entry : HostEntry) (error : HostfileError) (wrong : fault gethostbyname entry = some error) :
    enter gethostbyname s entry = .error error := by
  unfold fault at wrong
  unfold enter
  split at wrong
  · cases wrong
    rfl
  · split at wrong
    · rename_i negative
      cases wrong
      simp only [times, if_pos negative]
    · cases wrong

-- The reading of a file whose groups are not below zero: the first line that is
-- wrong in itself decides.
theorem read_outcome (read : List HostEntry) (natural : ∀ entry ∈ read, 0 ≤ entry.group) :
    read.foldlM (enter gethostbyname) ⟨[], []⟩ =
      match read.findSome? (fault gethostbyname) with
      | some error => .error error
      | none => .ok ⟨arrays (hostLines gethostbyname read), groups (named gethostbyname read)⟩ := by
  -- after the lines of done, which were all entered
  have from_here : ∀ done : List HostEntry, (∀ pair ∈ named gethostbyname done, 0 ≤ pair.2) →
      read.foldlM (enter gethostbyname) ⟨arrays (hostLines gethostbyname done), groups (named gethostbyname done)⟩ =
        match read.findSome? (fault gethostbyname) with
        | some error => .error error
        | none => .ok ⟨arrays (hostLines gethostbyname (done ++ read)), groups (named gethostbyname (done ++ read))⟩ := by
    induction read with
    | nil =>
        intro done _
        rw [List.append_nil]
        rfl
    | cons entry rest ih =>
        intro done before
        rw [List.foldlM_cons]
        cases wrong : fault gethostbyname entry with
        | some error =>
            rw [enter_fault gethostbyname _ entry error wrong, List.findSome?_cons_of_isSome (by rw [wrong]; rfl), wrong]
            rfl
        | none =>
            have whole := natural entry List.mem_cons_self
            rw [List.findSome?_cons_of_isNone (by rw [wrong]; rfl)]
            unfold fault at wrong
            split at wrong
            · cases wrong
            · rename_i host found
              split at wrong
              · cases wrong
              · rename_i counted
                have grown : named gethostbyname (done ++ [entry]) = named gethostbyname done ++ [(host, entry.group)] := by
                  simp [named, found]
                have longer : hostLines gethostbyname (done ++ [entry]) = hostLines gethostbyname done ++ [⟨host, entry.ncore⟩] := by
                  simp [hostLines, found]
                have entered : enter gethostbyname
                    ⟨arrays (hostLines gethostbyname done), groups (named gethostbyname done)⟩ entry =
                    .ok ⟨arrays (hostLines gethostbyname (done ++ [entry])), groups (named gethostbyname (done ++ [entry]))⟩ := by
                  unfold enter
                  rw [found]
                  simp only [times, if_neg counted, enlist_groups _ host entry.group whole before]
                  rw [grown, longer, arrays, arrays, List.map_append]
                  rfl
                rw [entered]
                have later := ih (fun other member => natural other (List.mem_cons_of_mem entry member)) (done ++ [entry]) (by
                  rw [grown]
                  intro pair member
                  rcases List.mem_append.mp member with earlier | new
                  · exact before pair earlier
                  · rw [List.mem_singleton.mp new]
                    exact whole)
                rw [List.append_assoc, List.singleton_append] at later
                exact later
  exact from_here [] (by simp [named])

end Reading

-- The hosts of all groups, nil for none.
def grouped (hostGroup : List (Option (List Hostname))) : List Hostname := hostGroup.flatMap fun group => group.getD []

-- Every group is a selection of the hosts read so far, and together the groups
-- are those hosts.
structure Grouped (hosts : List Hostname) (hostGroup : List (Option (List Hostname))) : Prop where
  whole : (grouped hostGroup).Perm hosts
  ordered : ∀ group, some group ∈ hostGroup → group ≠ [] ∧ group.Sublist hosts

theorem set_grouped (hosts : List Hostname) (array : List (Option (List Hostname))) (i : Nat) (room : i < array.length)
    (host : Hostname) (kept : Grouped hosts array) :
    Grouped (hosts ++ [host]) (array.set i (some (array[i].getD [] ++ [host]))) where
  whole := by
    have split : array = array.take i ++ array[i] :: array.drop (i + 1) := by
      rw [List.getElem_cons_drop, List.take_append_drop]
    have whole := kept.whole
    rw [split] at whole
    rw [List.set_eq_take_append_cons_drop, if_pos room]
    generalize array.take i = front at whole
    generalize array.drop (i + 1) = back at whole
    rw [List.perm_iff_count] at whole ⊢
    intro h
    have count := whole h
    simp only [grouped, List.flatMap_append, List.flatMap_cons, Option.getD_some, List.count_append] at count ⊢
    omega
  ordered := by
    intro group member
    rcases List.mem_or_eq_of_mem_set member with earlier | new
    · obtain ⟨content, inside⟩ := kept.ordered group earlier
      exact ⟨content, inside.trans (List.sublist_append_left hosts [host])⟩
    · cases new
      refine ⟨by simp, List.Sublist.append ?_ (List.Sublist.refl [host])⟩
      cases here : array[i] with
      | none => exact List.nil_sublist hosts
      | some old => exact (kept.ordered old (here ▸ List.getElem_mem room)).2

theorem enlist_grouped (hosts : List Hostname) (hostGroup next : List (Option (List Hostname))) (group : Int) (host : Hostname)
    (kept : Grouped hosts hostGroup) (listed : enlist hostGroup group host = some next) : Grouped (hosts ++ [host]) next := by
  rw [enlist, Option.map_eq_some_iff] at listed
  obtain ⟨i, -, rfl⟩ := listed
  have room : i < (hostGroup ++ List.replicate (i + 1 - hostGroup.length) none).length := by
    simp only [List.length_append, List.length_replicate]
    omega
  have padded : Grouped hosts (hostGroup ++ List.replicate (i + 1 - hostGroup.length) none) := by
    constructor
    · have nothing : grouped (List.replicate (i + 1 - hostGroup.length) none) = [] := by
        refine List.flatMap_eq_nil_iff.mpr fun group member => ?_
        rw [(List.mem_replicate.mp member).2]
        rfl
      rw [grouped, List.flatMap_append]
      exact (congrArg (grouped hostGroup ++ ·) nothing).trans (List.append_nil _) ▸ kept.whole
    · intro group member
      rcases List.mem_append.mp member with here | nothing
      · exact kept.ordered group here
      · exact nomatch (List.mem_replicate.mp nothing).2
  have old : (hostGroup[i]?.join).getD [] = (hostGroup ++ List.replicate (i + 1 - hostGroup.length) none)[i].getD [] := by
    by_cases inside : i < hostGroup.length
    · rw [List.getElem_append_left inside, List.getElem?_eq_getElem inside]
      rfl
    · rw [List.getElem_append_right (Nat.le_of_not_lt inside), List.getElem?_eq_none (Nat.le_of_not_lt inside),
        List.getElem_replicate]
      rfl
  rw [old]
  exact set_grouped hosts _ i room host padded

end Manager

end Pwrake
