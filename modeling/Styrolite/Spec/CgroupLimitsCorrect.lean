import Styrolite.ForStd.Fields
import Styrolite.ForStd.Switch
import Styrolite.ForStd.Triples
import Styrolite.Spec.CgroupWritesCorrect

/-!
# The limits of a control group

`prepare_cgroup` asks for the controllers of all the limits in one write to
`cgroup.subtree_control`, which is refused as a whole if one of them is not
available, and logs the refusal only. The files of the other controllers are then
missing as well, so that a limit that can be set on its own need not be set
together with others (`limitIndependent_iff`).

## Key results

- `prepareCgroup_cell`: what becomes of the file of a limit
- `limitIndependent_iff`: when the other limits make no difference to one
- `undisturbed_iff_of_plain`: the same where each key leads to a file of its own
-/

namespace Styrolite

open Prog LocalRules Switch

/-! ## The control files -/

/-- What a process may write to: the `cgroup.subtree_control` of the base, a limit of the workload's
    directory, or a file that has no part in the limits. -/
inductive ControlFile where
  | subtreeControl
  | limit (name : String)
  | other
  deriving DecidableEq, Repr

/-- The controllers that a text turns on or off. -/
def controlSwitch : List Char → Option (String × Bool)
  | '+' :: c => some (String.ofList c, true)
  | '-' :: c => some (String.ofList c, false)
  | _ => none

/-- What a write to `cgroup.subtree_control` asks for, if it can be read. -/
def controlSwitches (text : String) : Option (List (String × Bool)) :=
  (Fields.fields ' ' text.toList).mapM controlSwitch

/-- What the text asks of the controller; the last mention of it counts. -/
def lastMention (l : List (String × Bool)) (controller : String) : Option Bool :=
  l.reverse.lookup controller

/-- The controllers that are enabled for the directories in the base, and what has been written to
    the limits in the workload's directory. -/
structure CgroupLimits where
  enabled : String → Bool
  value : String → Option String

namespace CgroupLimits

variable (s : CgroupLimits)

/-- The file of a limit is there while its controller is enabled. -/
def cell (name : String) : Cell String :=
  if s.enabled (controllerOf name) then some (s.value name) else none

/-- A controller that is turned off takes its files with it. -/
def switchAll (l : List (String × Bool)) : CgroupLimits where
  enabled c := (lastMention l c).getD (s.enabled c)
  value name :=
    if s.enabled (controllerOf name) ∧ lastMention l (controllerOf name) ≠ some false
    then s.value name else none

/-- The limit file `name` has got the value `text`. -/
def write (name text : String) : CgroupLimits :=
  { s with value := Function.update s.value name (some text) }

end CgroupLimits

/-- The host of a workload that has the directory `dir` in `base`: which file a path leads to, which
    controllers are available in the base, and which texts the limits take. -/
structure CgroupHost (base dir : String) where
  place : String → Option ControlFile
  available : String → Bool
  accepts : String → String → Bool
  place_control : place (pathPush base "cgroup.subtree_control") = some .subtreeControl
  place_procs : place (pathPush dir "cgroup.procs") = some .other

namespace CgroupHost

variable {base dir : String} (host : CgroupHost base dir)

/-- A text that names a controller that is not available is refused as a whole. -/
def grants (text : String) : Option (List (String × Bool)) :=
  (controlSwitches text).filter fun l => l.all fun e => host.available e.1

/-- Whether a write to the path succeeds, if that is determined. -/
def takes (s : CgroupLimits) (path text : String) : Option Bool :=
  match host.place path with
  | some .subtreeControl => some (host.grants text).isSome
  | some (.limit name) => some (s.enabled (controllerOf name) && host.accepts name text)
  | _ => none

/-- What a write to the path makes of the limits. -/
def written (s : CgroupLimits) (path text : String) : CgroupLimits :=
  match host.place path with
  | some .subtreeControl => ((host.grants text).map s.switchAll).getD s
  | some (.limit name) => s.write name text
  | _ => s

/-- The rules of control groups for the process `pid`. -/
def rules (pid : Nat) : LocalRules calls CgroupLimits where
  allows s c a :=
    match c, a with
    | .getpid, n => n = pid
    | .fsWrite path text, .ok _ => host.takes s path text ≠ some false
    | .fsWrite path text, .error _ => host.takes s path text ≠ some true
    | _, _ => True
  next s c a :=
    match c, a with
    | .fsWrite path text, .ok _ => host.written s path text
    | _, _ => s

/-- What a write does to the file of the limit, if it is taken. -/
def act (name path text : String) : Act String :=
  match host.place path with
  | some .subtreeControl =>
    match (host.grants text).bind fun l => lastMention l (controllerOf name) with
    | some true => .on
    | some false => .off
    | none => .keep
  | some (.limit f) => if f = name ∧ host.accepts name text then .set text else .keep
  | _ => .keep

end CgroupHost

/-! ## One write -/

/-- A limit file is there exactly if its controller is enabled. -/
theorem CgroupLimits.isSome_cell (s : CgroupLimits) (name : String) :
    (s.cell name).isSome = s.enabled (controllerOf name) := by
  unfold cell
  by_cases h : s.enabled (controllerOf name) = true <;> simp [h]

/-- What switching controllers does to one file: its controller's last mention counts. -/
theorem CgroupLimits.cell_switchAll (s : CgroupLimits) (l : List (String × Bool)) (name : String) :
    (s.switchAll l).cell name =
      match lastMention l (controllerOf name) with
      | some true => step (s.cell name) .on
      | some false => none
      | none => s.cell name := by
  unfold cell switchAll
  cases hl : lastMention l (controllerOf name) with
  | none => by_cases h : s.enabled (controllerOf name) = true <;> simp [hl, h]
  | some on =>
    cases on with
    | false => simp [hl]
    | true => by_cases h : s.enabled (controllerOf name) = true <;> simp [hl, h, step]

/-- What a write to one limit file does to another: nothing. -/
theorem CgroupLimits.cell_write (s : CgroupLimits) (f text name : String) :
    (s.write f text).cell name =
      if f = name then step (s.cell name) (.set text) else s.cell name := by
  unfold cell write
  by_cases heq : f = name
  · subst heq
    by_cases h : s.enabled (controllerOf f) = true <;> simp [h, step]
  · dsimp only
    rw [if_neg heq, Function.update_of_ne (Ne.symm heq)]

namespace CgroupHost

variable {base dir : String} {host : CgroupHost base dir} {pid : Nat} {s : CgroupLimits}

/-- A write that is allowed changes the file of a limit by its act. -/
theorem cell_next {path text : String} {a : Except Errno Unit} (name : String)
    (ha : (host.rules pid).allows s (.fsWrite path text) a) :
    ((host.rules pid).next s (.fsWrite path text) a).cell name =
      step (s.cell name) (host.act name path text) := by
  cases a with
  | ok u =>
    change host.takes s path text ≠ some false at ha
    show (host.written s path text).cell name = _
    unfold takes at ha
    unfold written act
    cases hplace : host.place path with
    | none => rfl
    | some file =>
      rw [hplace] at ha
      cases file with
      -- A file of another kind is no limit
      | other => rfl
      | subtreeControl =>
        dsimp only at ha ⊢
        cases hgrants : host.grants text with
        | none => rfl
        | some l =>
          rw [Option.map_some, Option.getD_some, Option.bind_some, CgroupLimits.cell_switchAll]
          -- The last mention of the file's controller decides
          cases lastMention l (controllerOf name) with
          | none => rfl
          | some on => cases on <;> rfl
      | limit f =>
        -- The write succeeded, so the kernel takes the text
        have htakes : host.accepts f text = true := by
          by_contra hno
          exact ha (by simp [Bool.eq_false_iff.2 hno])
        dsimp only
        rw [CgroupLimits.cell_write]
        by_cases heq : f = name
        · rw [if_pos heq, if_pos ⟨heq, heq ▸ htakes⟩]
        · rw [if_neg heq, if_neg fun h => heq h.1]
          rfl
  | error e =>
    change host.takes s path text ≠ some true at ha
    show s.cell name = _
    unfold takes at ha
    unfold act
    cases hplace : host.place path with
    | none => rfl
    | some file =>
      rw [hplace] at ha
      cases file with
      | other => rfl
      | subtreeControl =>
        cases hgrants : host.grants text with
        | none => rfl
        -- The kernel takes what it grants, so the write has not failed
        | some l => exact absurd (by rw [hgrants]; rfl) ha
      | limit f =>
        dsimp only at ha ⊢
        split
        · next h =>
          -- the file is not there
          obtain ⟨rfl, haccepts⟩ := h
          rw [haccepts, Bool.and_true] at ha
          rw [CgroupLimits.cell, if_neg fun henabled => ha (by rw [henabled])]
          rfl
        · rfl

/-- A controller the program knows has no space in its name. -/
theorem not_hasSpace_of_known {c : String} (hc : knownController c = true) :
    ' ' ∉ c.toList := by
  simp only [knownController, decide_eq_true_eq] at hc
  rcases hc with rfl | rfl | rfl | rfl <;> decide

/-- The text that turns controllers on is read as that. -/
theorem controlSwitches_join {cs : List String} (hcs : ∀ c ∈ cs, ' ' ∉ c.toList) :
    controlSwitches (String.intercalate " " (cs.map ("+" ++ ·))) = some (cs.map (·, true)) := by
  have htokens : ∀ l ∈ cs.map (fun c => ("+" ++ c).toList), l ≠ [] ∧ ' ' ∉ l := by
    intro l hl
    obtain ⟨c, hc, rfl⟩ := List.mem_map.1 hl
    simpa using hcs c hc
  -- The tokens are the fields of the text, and each is read back
  rw [controlSwitches, String.toList_intercalate, List.map_map]
  have hfields := Fields.fields_intercalate htokens
  show (Fields.fields ' ' (List.intercalate [' '] (cs.map fun c => ("+" ++ c).toList))).mapM _ = _
  rw [hfields]
  clear htokens hfields hcs
  induction cs with
  | nil => rfl
  | cons c cs ih =>
    have hone : controlSwitch ("+" ++ c).toList = some (c, true) := by
      rw [String.toList_append]
      show some (String.ofList c.toList, true) = _
      rw [String.ofList_toList]
    rw [List.map_cons, List.mapM_cons, hone, ih]
    rfl

/-- A list that switches everything on mentions a controller by switching it on. -/
theorem lastMention_map_true {cs : List String} (c : String) :
    lastMention (cs.map (·, true)) c = if c ∈ cs then some true else none := by
  have hlookup : ∀ l : List String,
      (l.map (·, true)).lookup c = if c ∈ l then some true else none := by
    intro l
    induction l with
    | nil => rfl
    | cons d l ih =>
      rw [List.map_cons, List.lookup_cons, ih]
      by_cases heq : c = d
      · simp [heq]
      · have hne : (c == d) = false := by simpa using heq
        simp [hne, heq]
  rw [lastMention, ← List.map_reverse, hlookup]
  simp only [List.mem_reverse]

/-- What the write to `cgroup.subtree_control` does to the file of a limit. -/
def enabling (host : CgroupHost base dir) (limits : BTreeMap) (name : String) : Act String :=
  if controllerOf name ∈ limitControllers limits ∧
    ∀ c ∈ limitControllers limits, host.available c = true then .on else .keep

/-- The text that turns on the controllers `cs`. -/
theorem act_control {limits : BTreeMap} {cs : List String} (name : String)
    (hcs : ∀ c, c ∈ cs ↔ c ∈ limitControllers limits) :
    host.act name (pathPush base "cgroup.subtree_control")
      (String.intercalate " " (cs.map ("+" ++ ·))) = host.enabling limits name := by
  -- No name has a space in it, so the text is read back as it was joined
  have hspace : ∀ c ∈ cs, ' ' ∉ c.toList := by
    intro c hc
    have hmem := (hcs c).1 hc
    rw [limitControllers, List.mem_toFinset, List.mem_filter] at hmem
    exact not_hasSpace_of_known hmem.2
  unfold act enabling
  rw [host.place_control]
  dsimp only
  rw [grants, controlSwitches_join hspace]
  by_cases hall : ∀ c ∈ limitControllers limits, host.available c = true
  · -- All controllers are available, and the write turns each of them on
    have hfilter : ((cs.map (·, true)).all fun e => host.available e.1) = true := by
      simp only [List.all_map, List.all_eq_true]
      exact fun c hc => hall c ((hcs c).1 hc)
    rw [Option.filter_some, if_pos hfilter, Option.bind_some, lastMention_map_true]
    by_cases hmem : controllerOf name ∈ limitControllers limits
    · rw [if_pos ((hcs _).2 hmem), if_pos ⟨hmem, hall⟩]
    · rw [if_neg fun h => hmem ((hcs _).1 h), if_neg fun h => hmem h.1]
  · -- The kernel refuses the write as a whole if one of them is not
    have hfilter : ¬ ((cs.map (·, true)).all fun e => host.available e.1) = true := by
      simp only [List.all_map, List.all_eq_true]
      exact fun h => hall fun c hc => h c ((hcs c).2 hc)
    rw [Option.filter_some, if_neg hfilter, if_neg fun h => hall h.2]
    rfl

/-- A write of which a refusal is logged only. -/
theorem attempt_setChildValue_cell (g : CGroup) (child value name : String) :
    (host.rules pid).Ends s (attempt (g.setChildValue child value) : Sys (Except Err Unit))
      (fun _ s' => s'.cell name = step (s.cell name) (host.act name (pathPush g.root child) value))
      fun _ => False := by
  refine .call fun a ha => ?_
  cases a with
  | ok u => exact .pure (cell_next name ha)
  | error e => exact .pure (cell_next name ha)

/-- Enabling the controllers acts on the file `name` as `enabling` says, and cannot fail. -/
theorem enableControllers_cell (limits : BTreeMap) (name : String) :
    (host.rules pid).Ends s (CreateRequest.enableControllers ⟨base⟩ limits)
      (fun _ s' => s'.cell name = step (s.cell name) (host.enabling limits name))
      fun _ => False := by
  unfold CreateRequest.enableControllers
  refine .bind (.sys (I := calls) fun cs _ => .when (fun _ => ?_) fun hempty => ?_)
  · -- There are controllers to turn on, and the write may be refused
    rw [← act_control name cs.2.2]
    exact .bind ((attempt_setChildValue_cell _ _ _ name).mono (fun _ _ h => .pure h) fun _ h => h)
  · -- The text is empty only if there is no controller to turn on
    have hnil : cs.1 = [] := by
      cases hcs : cs.1 with
      | nil => rfl
      | cons c l =>
        have htext := congrArg String.toList (not_not.1 hempty)
        rw [hcs, String.toList_intercalate] at htext
        cases l with
        | nil => simp at htext
        | cons d l => simp [List.intercalate_cons_cons] at htext
    have hnone : ∀ c, c ∉ limitControllers limits := by
      intro c hc
      have hmem := (cs.2.2 c).2 hc
      rw [hnil] at hmem
      cases hmem
    rw [enabling, if_neg fun h => hnone _ h.1]
    rfl

/-! ## The file of a limit -/

/-- What an entry of the limits does to the file of the limit. -/
def limitAct (host : CgroupHost base dir) (name : String) (e : String × String) : Act String :=
  if "cgroup.".toList <+: e.1.toList then .keep else host.act name (pathPush dir e.1) e.2

/-- What all of it does, one after the other. -/
def acts (host : CgroupHost base dir) (limits : BTreeMap) (name : String) : List (Act String) :=
  host.enabling limits name :: limits.entries.map (host.limitAct name)

/-- One turn of the loop acts on the file `name` as `limitAct` says, and cannot fail. -/
theorem setLimit_cell (e : String × String) (name : String) :
    (host.rules pid).Ends s (CreateRequest.setLimit ⟨dir⟩ e)
      (fun _ s' => s'.cell name = step (s.cell name) (host.limitAct name e)) fun _ => False := by
  unfold CreateRequest.setLimit limitAct
  refine .when (fun hguard => ?_) fun hguard => ?_
  · rw [if_neg hguard]
    exact .bind ((attempt_setChildValue_cell _ _ _ name).mono (fun _ _ h => .pure h) fun _ h => h)
  · rw [if_pos (not_not.1 hguard)]
    rfl

/-- The loop over the limits acts on a file entry by entry. -/
theorem limitsLoop_cell (limits : BTreeMap) (name : String) :
    (host.rules pid).Ends s (CreateRequest.limitsLoop limits ⟨dir⟩)
      (fun _ s' => s'.cell name = run (s.cell name) (limits.entries.map (host.limitAct name)))
      fun _ => False := by
  unfold CreateRequest.limitsLoop
  generalize limits.entries = l
  induction l generalizing s with
  | nil => exact .pure rfl
  | cons e l ih =>
    rw [List.forM_cons, List.map_cons, run_cons]
    refine .bind ((setLimit_cell e name).mono (fun _ s' h => ?_) fun _ h => h)
    rw [← h]
    exact ih

/-- Opening a cgroup changes nothing and gives a handle of the path. -/
theorem openRoot_ends (root : String) :
    (host.rules pid).Ends s (CGroup.openRoot root) (fun g s' => g = ⟨root⟩ ∧ s' = s) fun _ => True := by
  intro h r _ hr
  cases r with
  | ok g =>
    obtain ⟨rfl, -, rfl⟩ := CGroup.openRoot_runs.1 hr
    exact ⟨rfl, rfl⟩
  | err e => trivial
  | halt n => trivial

/-- It can be opened, if the path has no NUL byte. -/
theorem openRoot_may {root : String} (hroot : ¬ HasNul root) :
    (host.rules pid).May s (CGroup.openRoot root) fun g s' => g = ⟨root⟩ ∧ s' = s := by
  refine ⟨[⟨.faccessat root, .ok ()⟩], ⟨root⟩, ?_, CGroup.openRoot_runs.2 ⟨rfl, hroot, rfl⟩, rfl, rfl⟩
  exact lawful_cons.2 ⟨trivial, lawful_nil _ _⟩

/-- Each write is either taken or refused. -/
theorem attempt_setChildValue_may (g : CGroup) (child value : String) :
    (host.rules pid).May s (attempt (g.setChildValue child value) : Sys (Except Err Unit))
      fun _ _ => True := by
  by_cases htakes : host.takes s (pathPush g.root child) value = some false
  · refine .call (Except.error Errno.ENOENT) ?_ (.pure trivial)
    show host.takes s _ _ ≠ some true
    rw [htakes]
    simp
  · exact .call (.ok ()) htakes (.pure trivial)

/-- The controllers can be enabled. -/
theorem enableControllers_may (g : CGroup) (limits : BTreeMap) :
    (host.rules pid).May s (CreateRequest.enableControllers g limits) fun _ _ => True := by
  unfold CreateRequest.enableControllers
  refine .bind (.sys (I := calls)
    ⟨(limitControllers limits).toList, Finset.nodup_toList _, fun _ => Finset.mem_toList⟩
    trivial (.when (fun _ => ?_) fun _ => trivial))
  exact .bind ((attempt_setChildValue_may _ _ _).mono fun _ _ _ => .pure trivial)

end CgroupHost

/-! ## `prepare_cgroup` -/

namespace CreateRequest

open CgroupHost

variable {req : CreateRequest} {pid : Nat} {s : CgroupLimits}
  {host : CgroupHost req.cgroupBase (req.cgroupDir (req.workload pid))}

/-- Up to the loop only the controllers are enabled. -/
theorem openSubtree_cell (limits : BTreeMap) (name : String) :
    (host.rules pid).Ends s (req.openSubtree limits)
      (fun g s' => g = ⟨req.cgroupDir (req.workload pid)⟩ ∧
        s'.cell name = step (s.cell name) (host.enabling limits name)) fun _ => True := by
  unfold openSubtree
  refine .bind ((openRoot_ends _).mono ?_ fun _ h => h)
  rintro g t ⟨rfl, rfl⟩
  refine .bind ((enableControllers_cell limits name).mono (fun _ t' ht => ?_) fun _ h => h.elim)
  refine .bind (.bind (.sys (I := calls) fun n hn => .pure ?_))
  cases (show n = pid from hn)
  refine .bind (.sys (I := calls) fun a _ => .bind (.check (fun _ hok => ?_) fun _ _ => trivial))
  show (host.rules pid).Ends t' _ _ _
  refine (openRoot_ends _).mono ?_ fun _ h => h
  rintro g t'' ⟨rfl, rfl⟩
  exact ⟨rfl, ht⟩

/-- What becomes of the file of a limit. -/
theorem prepareCgroup_cell {limits : BTreeMap} (hl : req.limits = some limits) (name : String) :
    (host.rules pid).Ends s req.prepareCgroup
      (fun _ s' => s'.cell name = run (s.cell name) (host.acts limits name)) fun _ => True := by
  rw [prepareCgroup_of_limits hl]
  refine .bind (.sys (I := calls) fun n _ => ?_)
  show (host.rules pid).Ends s _ _ _
  refine .bind ((openSubtree_cell limits name).mono ?_ fun _ h => h)
  rintro g t ⟨rfl, ht⟩
  refine .bind ((limitsLoop_cell limits name).mono (fun _ t' ht' => ?_) fun _ h => h.elim)
  rw [ht] at ht'
  refine .bind (.sys (I := calls) fun a ha => .check (fun _ _ => ?_) fun _ _ => trivial)
  -- The last write is to the file of processes, which is no limit
  have hprocs : host.act name (pathPush (req.cgroupDir (req.workload pid)) "cgroup.procs")
      (toString n) = .keep := by
    unfold act
    rw [host.place_procs]
  rw [cell_next name ha, hprocs]
  exact ht'

/-- There is a run of `prepare_cgroup` that ends well, whatever the limits are. -/
theorem prepareCgroup_may {limits : BTreeMap} (hl : req.limits = some limits)
    (hbase : ¬ HasNul req.cgroupBase) (hdir : ¬ HasNul (req.cgroupDir (req.workload pid))) :
    (host.rules pid).May s req.prepareCgroup fun _ _ => True := by
  rw [prepareCgroup_of_limits hl]
  refine .bind (.sys (I := calls) pid rfl ?_)
  -- The kernel is obliging: every call succeeds until the directory is open
  have hopen : (host.rules pid).May s (req.openSubtree limits)
      fun g _ => g = ⟨req.cgroupDir (req.workload pid)⟩ := by
    unfold openSubtree
    refine .bind ((openRoot_may hbase).mono ?_)
    rintro g t ⟨rfl, -⟩
    refine .bind ((enableControllers_may _ limits).mono fun _ t _ => ?_)
    refine .bind (.bind (.sys (I := calls) pid rfl (.pure ?_)))
    refine .bind (.sys (I := calls) (.ok ()) trivial (.bind (.pure ?_)))
    exact (openRoot_may hdir).mono fun _ _ h => h.1
  refine .bind (hopen.mono ?_)
  rintro g t rfl
  -- The loop over the limits ignores errors
  have hloop : (host.rules pid).May t (limitsLoop limits ⟨req.cgroupDir (req.workload pid)⟩)
      fun _ _ => True := by
    unfold limitsLoop
    refine .forM fun e _ t => .when (fun _ => ?_) fun _ => trivial
    exact .bind ((attempt_setChildValue_may _ _ _).mono fun _ _ _ => .pure trivial)
  refine .bind (hloop.mono fun _ t _ => .bind (.sys (I := calls) (.ok ()) ?_ (.pure trivial)))
  -- The last write is to `cgroup.procs`, which is no limit
  show CgroupHost.takes host t _ _ ≠ some false
  rw [CgroupHost.takes, host.place_procs]
  simp

end CreateRequest

/-! ## Independence -/

/-- The request with these limits instead of its own. -/
def CreateRequest.withLimits (req : CreateRequest) (limits : BTreeMap) : CreateRequest :=
  { req with limits := some limits }

/-- The map of one limit. -/
def onlyLimit (key value : String) : BTreeMap := ⟨[(key, value)], List.pairwise_singleton _ _⟩

namespace CgroupHost

variable {base dir : String} (host : CgroupHost base dir) (s : CgroupLimits)

/-- The limit of the key is in force in the workload's directory. -/
def InForce (key value : String) : Prop :=
  ∃ name, host.place (pathPush dir key) = some (.limit name) ∧ s.cell name = some (some value)

/-- The limit comes to be in force when it is the only one: its file takes it and is there with the
    controller of the key, or was there before; or else it was in force before. -/
def CanStand (key value name : String) : Prop :=
  (host.accepts name value = true ∧
    (s.enabled (controllerOf name) = true ∨ controllerOf name = controllerOf key)) ∨
  s.cell name = some (some value)

/-- Where the limit of the key could stand alone, one of the limits makes it while the controller is
    on, and none after that takes it away. -/
def Undisturbed (limits : BTreeMap) (key value : String) : Prop :=
  ∀ name, host.place (pathPush dir key) = some (.limit name) →
    (Made (s.cell name) (host.acts limits name) value ↔ host.CanStand s key value name)

variable {host s} {key value name : String}

/-- A single limit of a known controller asks for that controller alone. -/
theorem mem_onlyLimit (hknown : knownController (controllerOf key) = true) {c : String} :
    c ∈ limitControllers (onlyLimit key value) ↔ c = controllerOf key := by
  simp [limitControllers, onlyLimit, hknown]

/-- A key with a known controller is not one of cgroup v2's own files. -/
theorem not_blocked_of_known (hknown : knownController (controllerOf key) = true) :
    ¬ "cgroup.".toList <+: key.toList := by
  rintro ⟨rest, hrest⟩
  have hprefix : ("cgroup.".toList ++ rest).takeWhile (· ≠ '.') = "cgroup".toList := rfl
  rw [controllerOf, ← hrest, hprefix] at hknown
  exact absurd hknown (by decide)

/-- With this limit alone: it is in force exactly when it can stand. -/
theorem run_onlyLimit (hknown : knownController (controllerOf key) = true)
    (havail : host.available (controllerOf key) = true)
    (hplace : host.place (pathPush dir key) = some (.limit name)) :
    run (s.cell name) (host.acts (onlyLimit key value) name) = some (some value) ↔
      host.CanStand s key value name := by
  have henabling : host.enabling (onlyLimit key value) name =
      if controllerOf name = controllerOf key then .on else .keep := by
    unfold enabling
    simp only [mem_onlyLimit hknown, forall_eq, havail, and_true]
  have hact : host.limitAct name (key, value) =
      if host.accepts name value = true then .set value else .keep := by
    rw [limitAct, if_neg (not_blocked_of_known hknown), act, hplace]
    simp
  have hacts : host.acts (onlyLimit key value) name =
      [host.enabling (onlyLimit key value) name, host.limitAct name (key, value)] := rfl
  -- Two acts are left, and the cases can be computed
  rw [hacts, henabling, hact]
  unfold CanStand
  rw [← s.isSome_cell name]
  generalize s.cell name = σ
  by_cases haccepts : host.accepts name value = true
  · by_cases hc : controllerOf name = controllerOf key
    · simp [haccepts, hc, step]
    · cases σ <;> simp [haccepts, hc, step]
  · by_cases hc : controllerOf name = controllerOf key
    · cases σ <;> simp [haccepts, hc, step]
    · simp [haccepts, hc, step]

/-- Where no other key leads to the file of the limit or to `cgroup.subtree_control`: the controller
    is enabled before, or all that the limits need are available. -/
theorem undisturbed_iff_of_plain {limits : BTreeMap} (hmem : (key, value) ∈ limits.entries)
    (hknown : knownController (controllerOf key) = true)
    (hplace : host.place (pathPush dir key) = some (.limit name))
    (hname : controllerOf name = controllerOf key)
    (hplain : ∀ e ∈ limits.entries, e ≠ (key, value) →
      host.place (pathPush dir e.1) ≠ some .subtreeControl ∧
        host.place (pathPush dir e.1) ≠ some (.limit name)) :
    host.Undisturbed s limits key value ↔ (host.accepts name value = true →
      s.enabled (controllerOf key) = true ∨
        ∀ c ∈ limitControllers limits, host.available c = true) := by
  -- No other entry acts on the cell of `name`
  have hkeep : ∀ e ∈ limits.entries, e ≠ (key, value) → host.limitAct name e = .keep := by
    intro e he hne
    obtain ⟨hcontrol, hlimit⟩ := hplain e he hne
    have hact : host.act name (pathPush dir e.1) e.2 = .keep := by
      unfold act
      cases hfile : host.place (pathPush dir e.1) with
      | none => rfl
      | some file =>
        cases file with
        | subtreeControl => exact absurd hfile hcontrol
        | limit f =>
          dsimp only
          rw [if_neg]
          rintro ⟨rfl, -⟩
          exact hlimit hfile
        | other => rfl
    rw [limitAct, hact, ite_self]
  have hact : host.limitAct name (key, value) =
      if host.accepts name value = true then .set value else .keep := by
    rw [limitAct, if_neg (not_blocked_of_known hknown), act, hplace]
    simp
  -- So of all acts the enabling and that of the key are left
  have hrun : run (s.cell name) (host.acts limits name) =
      step (step (s.cell name) (host.enabling limits name)) (host.limitAct name (key, value)) := by
    -- The map is sorted, so the key is in no other entry
    obtain ⟨before, after, hsplit⟩ := List.append_of_mem hmem
    have hsorted := limits.sorted
    rw [hsplit, List.map_append, List.map_cons, List.pairwise_append, List.pairwise_cons] at hsorted
    obtain ⟨-, ⟨hafter, -⟩, hbefore⟩ := hsorted
    have hkeepBefore : ∀ x ∈ before.map (host.limitAct name), x = .keep := by
      intro x hx
      obtain ⟨e, he, rfl⟩ := List.mem_map.1 hx
      refine hkeep e (by simp [hsplit, he]) fun heq => ?_
      have hlt := hbefore e.1 (List.mem_map_of_mem he) key List.mem_cons_self
      rw [heq] at hlt
      exact absurd hlt (lt_irrefl key)
    have hkeepAfter : ∀ x ∈ after.map (host.limitAct name), x = .keep := by
      intro x hx
      obtain ⟨e, he, rfl⟩ := List.mem_map.1 hx
      refine hkeep e (by simp [hsplit, he]) fun heq => ?_
      have hlt := hafter e.1 (List.mem_map_of_mem he)
      rw [heq] at hlt
      exact absurd hlt (lt_irrefl key)
    have hacts : host.acts limits name = host.enabling limits name ::
        (before.map (host.limitAct name) ++
          host.limitAct name (key, value) :: after.map (host.limitAct name)) := by
      unfold acts
      rw [hsplit, List.map_append, List.map_cons]
    rw [hacts, run_cons, run_append, run_of_keep hkeepBefore, run_cons, run_of_keep hkeepAfter]
  have hin : controllerOf name ∈ limitControllers limits := by
    rw [hname, limitControllers, List.mem_toFinset, List.mem_filter]
    exact ⟨List.mem_map.2 ⟨(key, value), hmem, rfl⟩, hknown⟩
  -- The name of the cell is fixed by `hplace`
  have hone : host.Undisturbed s limits key value ↔
      (run (s.cell name) (host.acts limits name) = some (some value) ↔
        host.CanStand s key value name) := by
    simp only [Undisturbed, hplace, Option.some.injEq, ControlFile.limit.injEq, forall_eq',
      run_eq_iff]
  have henabling : host.enabling limits name =
      if ∀ c ∈ limitControllers limits, host.available c = true then .on else .keep :=
    if_congr (and_iff_right hin) rfl rfl
  rw [hone, hrun, hact, henabling, CanStand, ← hname, ← s.isSome_cell name]
  -- What the cell is before is open: switched off, on, or set
  generalize s.cell name = σ
  by_cases hall : ∀ c ∈ limitControllers limits, host.available c = true
  · -- All can be enabled, so the file is there when the limit is written
    rw [if_pos hall]
    refine iff_of_true ?_ fun _ => .inr hall
    cases σ <;> by_cases haccepts : host.accepts name value = true <;> simp [haccepts, step]
  · -- None is enabled, so the file is there only if it was before
    rw [if_neg hall, or_iff_left hall]
    cases σ <;> by_cases haccepts : host.accepts name value = true <;> simp [haccepts, step]

end CgroupHost

namespace CreateRequest

variable {req : CreateRequest} {pid : Nat} {s : CgroupLimits} {limits : BTreeMap}
  {key value : String} {host : CgroupHost req.cgroupBase (req.cgroupDir (req.workload pid))}

/-- Whether the limit of the key is in force after `prepare_cgroup` does not depend on whether there
    are other limits. -/
def LimitIndependent (req : CreateRequest) (pid : Nat)
    (host : CgroupHost req.cgroupBase (req.cgroupDir (req.workload pid))) (s : CgroupLimits)
    (limits : BTreeMap) (key value : String) : Prop :=
  ∀ h h', (host.rules pid).Lawful s h → (req.withLimits limits).prepareCgroup.Runs h (.ok ()) →
    (host.rules pid).Lawful s h' →
    (req.withLimits (onlyLimit key value)).prepareCgroup.Runs h' (.ok ()) →
    (host.InForce ((host.rules pid).after s h) key value ↔
      host.InForce ((host.rules pid).after s h') key value)

/-- A run that succeeds has directories with names. -/
theorem not_hasNul_of_prepared {h : List Event} (hlimits : req.limits = some limits)
    (hl : (host.rules pid).Lawful s h) (hr : req.prepareCgroup.Runs h (.ok ())) :
    ¬ HasNul req.cgroupBase ∧ ¬ HasNul (req.cgroupDir (req.workload pid)) := by
  have htold : Told pid h := by
    intro n hn
    obtain ⟨h₁, h₂, rfl⟩ := List.append_of_mem hn
    exact hl h₁ _ h₂ rfl
  rw [prepareCgroup_of_limits hlimits] at hr
  obtain ⟨n, h₁, rfl, hr₁⟩ := runs_sys_bind.1 hr
  obtain ⟨g, h₂, h₃, hopen, -, rfl⟩ := runs_bind_ok.1 hr₁
  obtain ⟨hbase, -, hdir⟩ := openSubtree_runs hopen fun m hm => htold m (by simp [hm])
  exact ⟨hbase, hdir⟩

/-- The file of the limit is left the same in both. -/
theorem limitIndependent_iff_run : req.LimitIndependent pid host s limits key value ↔
    (¬ HasNul req.cgroupBase → ¬ HasNul (req.cgroupDir (req.workload pid)) →
      ∀ name, host.place (pathPush (req.cgroupDir (req.workload pid)) key) = some (.limit name) →
        (run (s.cell name) (host.acts limits name) = some (some value) ↔
          run (s.cell name) (host.acts (onlyLimit key value) name) = some (some value))) := by
  -- Every run leaves the cell as the acts of its limits do, and there is such a run
  have hcell : ∀ (m : BTreeMap) h, (host.rules pid).Lawful s h →
      (req.withLimits m).prepareCgroup.Runs h (.ok ()) → ∀ name,
      ((host.rules pid).after s h).cell name = run (s.cell name) (host.acts m name) :=
    fun m h hl hr name => @prepareCgroup_cell (req.withLimits m) pid s host m rfl name h _ hl hr
  have hrun : ∀ m : BTreeMap, ¬ HasNul req.cgroupBase →
      ¬ HasNul (req.cgroupDir (req.workload pid)) → ∃ h, (host.rules pid).Lawful s h ∧
        (req.withLimits m).prepareCgroup.Runs h (.ok ()) := by
    intro m hbase hdir
    obtain ⟨h, ⟨⟩, hl, hr, -⟩ :=
      @prepareCgroup_may (req.withLimits m) pid s host m rfl hbase hdir
    exact ⟨h, hl, hr⟩
  constructor
  · intro hind hbase hdir name hplace
    -- There is a run of each request, and these two agree
    obtain ⟨h, hl, hr⟩ := hrun limits hbase hdir
    obtain ⟨h', hl', hr'⟩ := hrun (onlyLimit key value) hbase hdir
    have hsame := hind h h' hl hr hl' hr'
    unfold CgroupHost.InForce at hsame
    simpa only [hcell _ _ hl hr, hcell _ _ hl' hr', hplace, Option.some.injEq,
      ControlFile.limit.injEq, exists_eq_left'] using hsame
  · intro hsame h h' hl hr hl' hr'
    -- A run that ends well shows that the paths have no NUL byte
    obtain ⟨hbase, hdir⟩ := @not_hasNul_of_prepared (req.withLimits limits) pid s limits host h rfl hl hr
    unfold CgroupHost.InForce
    refine exists_congr fun name => and_congr_right fun hplace => ?_
    rw [hcell _ _ hl hr, hcell _ _ hl' hr']
    exact hsame hbase hdir name hplace

/-- Other limits make no difference to one that is known and whose controller is available exactly
    if they leave it undisturbed. -/
theorem limitIndependent_iff (hknown : knownController (controllerOf key) = true)
    (havail : host.available (controllerOf key) = true) :
    req.LimitIndependent pid host s limits key value ↔
      (¬ HasNul req.cgroupBase → ¬ HasNul (req.cgroupDir (req.workload pid)) →
        host.Undisturbed s limits key value) := by
  rw [limitIndependent_iff_run]
  refine forall₂_congr fun _ _ => forall₂_congr fun name hplace => ?_
  rw [run_eq_iff, CgroupHost.run_onlyLimit hknown havail hplace]

end CreateRequest

/-- The request the examples are about, with the id `web`. -/
def webRequest : CreateRequest := { (default : CreateRequest) with workloadId := some "web" }

/-- A host on which the controllers `cs` are available. -/
def hostWithControllers (cs : List String) :
    CgroupHost webRequest.cgroupBase (webRequest.cgroupDir (webRequest.workload 7)) where
  place path :=
    if path = "/sys/fs/cgroup/cgroup.subtree_control" then some .subtreeControl
    else if path = "/sys/fs/cgroup/styrolite-web/cpu.max" then some (.limit "cpu.max")
    else if path = "/sys/fs/cgroup/styrolite-web/memory.max" then some (.limit "memory.max")
    else if path = "/sys/fs/cgroup/styrolite-web/cgroup.procs" then some .other
    else none
  available c := cs.contains c
  accepts _ _ := true
  place_control := by decide
  place_procs := by decide

/-- A limit of each of two controllers. -/
def twoLimits : BTreeMap := ⟨[("cpu.max", "max"), ("memory.max", "1G")], by decide⟩

/-- The limit of the memory is lost where there is no controller for the other limit. -/
theorem not_limitIndependent_memory : ¬ webRequest.LimitIndependent 7
    (hostWithControllers ["memory"]) ⟨fun _ => false, fun _ => none⟩ twoLimits "memory.max"
    "1G" := by
  rw [CreateRequest.limitIndependent_iff_run]
  intro hsame
  have hmemory := hsame (by decide) (by decide) "memory.max" (by decide)
  revert hmemory
  decide

/-- Where both controllers are available it is not. -/
theorem limitIndependent_memory : webRequest.LimitIndependent 7
    (hostWithControllers ["cpu", "memory"]) ⟨fun _ => false, fun _ => none⟩ twoLimits "memory.max"
    "1G" := by
  refine (CreateRequest.limitIndependent_iff (by decide) (by decide)).2 fun _ _ => ?_
  have hplace : (hostWithControllers ["cpu", "memory"]).place
      (pathPush (webRequest.cgroupDir (webRequest.workload 7)) "memory.max") =
      some (.limit "memory.max") := by decide
  have hmem : ("memory.max", "1G") ∈ twoLimits.entries := by decide
  refine (CgroupHost.undisturbed_iff_of_plain hmem (by decide) hplace rfl ?_).2 fun _ => ?_
  · decide
  · exact .inr (by decide)

end Styrolite
