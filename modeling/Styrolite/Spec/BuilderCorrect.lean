import Styrolite.ForStd.Folds
import Styrolite.Native.Builder

/-!
# What the builders build

A request that is built is known from the calls that were made: a field that is set
has the value that was set last, a list has what was pushed in its order, and of a
map's entries for a key the last counts. So calls for different fields may be made
in any order, no chain of calls sets `cgroupfs`, `seccomp` or `apparmor`, and nothing
that is only pushed to is ever there and empty.

## Key results

- `builders_tell`: what a chain of calls builds
-/

namespace Styrolite

open Folds

section

variable {ι α : Type}

/-- The last value among those that `sel` finds. -/
def lastOf (sel : ι → Option α) (steps : List ι) : Option α := (steps.filterMap sel).getLast?

/-- The values that `sel` finds, if there are any. -/
def listOf (sel : ι → Option α) (steps : List ι) : Option (List α) :=
  unlessNil (steps.filterMap sel)

/-- The map of the entries. Of those for one key the last counts. -/
def BTreeMap.ofEntries (l : List (String × String)) : BTreeMap :=
  ⟨SortedMap.insertAll [] l, SortedMap.Sorted.insertAll SortedMap.sorted_nil l⟩

/-- The map of the entries, if there are any. -/
def mapOf (l : List (String × String)) : Option BTreeMap := (unlessNil l).map BTreeMap.ofEntries

/-- The capabilities that are pushed to one of the lists. -/
def pushedTo (list : CapList) : CapList × String → Option String
  | (list', cap) => if list' = list then some cap else none

/-- The capabilities of all three lists, if there are any. -/
def pushedCaps (pushed : List (CapList × String)) : Option Capabilities :=
  (unlessNil pushed).map fun l =>
    { raise := listOf (pushedTo .raise) l, raiseAmbient := listOf (pushedTo .raiseAmbient) l,
      drop := listOf (pushedTo .drop) l }

end

/-- Pushing onto a list that may be missing. -/
theorem unlessNil_concat {α : Type} (l : List α) (a : α) :
    unlessNil (l ++ [a]) = pushOnto (unlessNil l) a := by
  cases l <;> rfl

/-- A map of entries and one more is the map with that one inserted. -/
theorem BTreeMap.ofEntries_concat (l : List (String × String)) (e : String × String) :
    ofEntries (l ++ [e]) = (ofEntries l).insert e.1 e.2 := by
  have hinsert : SortedMap.insertAll [] (l ++ [e]) =
      SortedMap.insert e.1 e.2 (SortedMap.insertAll [] l) := SortedMap.insertAll_append _ _ _
  unfold ofEntries insert
  simp only [hinsert]

/-- No other map has the last value at each key. -/
theorem BTreeMap.eq_ofEntries_iff {m : BTreeMap} {l : List (String × String)} :
    m = ofEntries l ↔
      ∀ key, SortedMap.lookup key m.entries = SortedMap.lookup key l.reverse := by
  have hlast : ∀ key, SortedMap.lookup key (ofEntries l).entries =
      SortedMap.lookup key l.reverse := fun key =>
    (SortedMap.lookup_insertAll key [] l).trans (Option.or_none ..)
  refine ⟨fun h key => h ▸ hlast key, fun h => ?_⟩
  have hentries : m.entries = (ofEntries l).entries :=
    SortedMap.Sorted.eq_of_lookup_eq m.sorted (ofEntries l).sorted fun key =>
      (h key).trans (hlast key).symm
  cases m
  cases hentries
  rfl

/-- The same for a map that may be missing. -/
theorem mapOf_concat (l : List (String × String)) (e : String × String) :
    mapOf (l ++ [e]) = insertInto (mapOf l) e.1 e.2 := by
  have hempty : BTreeMap.ofEntries [] = default := rfl
  have hget : (mapOf l).getD default = BTreeMap.ofEntries l := by
    cases l with
    | nil => rfl
    | cons e' l => rfl
  rw [insertInto, hget, ← BTreeMap.ofEntries_concat, mapOf, unlessNil_of_ne_nil (by simp)]
  rfl

/-- Inserting entry after entry gives their map. -/
theorem foldl_insertInto (l : List (String × String)) :
    l.foldl (fun o e => insertInto o e.1 e.2) none = mapOf l := by
  induction l using List.reverseRecOn with
  | nil => rfl
  | append_singleton l e ih =>
    rw [List.foldl_append, ih, mapOf_concat]
    rfl

/-- Pushing a capability onto one of the three lists leaves the others. -/
theorem listOf_pushedTo_concat (list list' : CapList) (l : List (CapList × String)) (cap : String) :
    listOf (pushedTo list) (l ++ [(list', cap)]) =
      if list' = list then pushOnto (listOf (pushedTo list) l) cap
      else listOf (pushedTo list) l := by
  rw [listOf, listOf, List.filterMap_append]
  split
  · next heq =>
    have hsel : pushedTo list (list', cap) = some cap := if_pos heq
    rw [← unlessNil_concat, List.filterMap_cons_some hsel, List.filterMap_nil]
  · next hne =>
    have hsel : pushedTo list (list', cap) = none := if_neg hne
    rw [List.filterMap_cons_none hsel, List.filterMap_nil, List.append_nil]

/-- The three lists after one more push. -/
theorem pushedCaps_concat (l : List (CapList × String)) (list : CapList) (cap : String) :
    pushedCaps (l ++ [(list, cap)]) = addToCapList cap (pushedCaps l) list := by
  have hget : (pushedCaps l).getD default =
      { raise := listOf (pushedTo .raise) l, raiseAmbient := listOf (pushedTo .raiseAmbient) l,
        drop := listOf (pushedTo .drop) l } := by
    cases l with
    | nil => rfl
    | cons e' l => rfl
  rw [addToCapList, hget, pushedCaps, unlessNil_of_ne_nil (by simp), Option.map_some]
  simp only [listOf_pushedTo_concat]
  cases list <;> rfl

/-- Pushing capability after capability gives the three lists. -/
theorem foldl_addToCapList (l : List (CapList × String)) :
    l.foldl (fun o e => addToCapList e.2 o e.1) none = pushedCaps l := by
  induction l using List.reverseRecOn with
  | nil => rfl
  | append_singleton l e ih =>
    rw [List.foldl_append, ih, pushedCaps_concat]
    rfl

/-! ## One field of a builder -/

section

variable {σ ι α : Type} {step : σ → ι → σ} {s : σ}

/-- A field that steps set has the value of the last that does, or the one it began with. -/
theorem field_set (field : σ → α) {sel : ι → Option α}
    (hstep : ∀ s i, field (step s i) = (sel i).elim (field s) id) (steps : List ι) :
    field (steps.foldl step s) = (lastOf sel steps).getD (field s) :=
  (foldl_field field (fun _ a => a) hstep steps s).trans (foldl_set _ _)

/-- A field that no step changes. -/
theorem field_same (field : σ → α) (hstep : ∀ s i, field (step s i) = field s) (steps : List ι) :
    field (steps.foldl step s) = field s := by
  induction steps generalizing s with
  | nil => rfl
  | cons i steps ih => rw [List.foldl_cons, ih, hstep]

/-- An optional field that steps set has the value of the last that does. -/
theorem field_setSome (field : σ → Option α) {sel : ι → Option α}
    (hstep : ∀ s i, field (step s i) = (sel i).elim (field s) some) (hs : field s = none)
    (steps : List ι) : field (steps.foldl step s) = lastOf sel steps := by
  rw [foldl_field field (fun _ a => some a) hstep, foldl_setSome, hs, Option.or_none, lastOf]

/-- A list that steps push onto has what they pushed, in order. -/
theorem field_push (field : σ → Option (List α)) {sel : ι → Option α}
    (hstep : ∀ s i, field (step s i) = (sel i).elim (field s) (pushOnto (field s)))
    (hs : field s = none) (steps : List ι) : field (steps.foldl step s) = listOf sel steps := by
  rw [foldl_field field pushOnto hstep, hs]
  exact foldl_push _

/-- A map that steps insert into has what they inserted. -/
theorem field_insert (field : σ → Option BTreeMap) {sel : ι → Option (String × String)}
    (hstep : ∀ s i, field (step s i) =
      (sel i).elim (field s) fun e => insertInto (field s) e.1 e.2)
    (hs : field s = none) (steps : List ι) :
    field (steps.foldl step s) = mapOf (steps.filterMap sel) := by
  rw [foldl_field field (fun o (e : String × String) => insertInto o e.1 e.2) hstep, hs,
    foldl_insertInto]

/-- The three lists of capabilities have what the steps pushed. -/
theorem field_caps (field : σ → Option Capabilities) {sel : ι → Option (CapList × String)}
    (hstep : ∀ s i, field (step s i) =
      (sel i).elim (field s) fun e => addToCapList e.2 (field s) e.1)
    (hs : field s = none) (steps : List ι) :
    field (steps.foldl step s) = pushedCaps (steps.filterMap sel) := by
  rw [foldl_field field (fun o (e : CapList × String) => addToCapList e.2 o e.1) hstep, hs,
    foldl_addToCapList]

end

attribute [ext] ExecutableSpec AttachRequest CreateRequest Capabilities

/-! ## `AttachRequestBuilder` -/

namespace AttachRequestBuilder

/-- The capability that is pushed, with its list. -/
def Step.cap : Step → Option (CapList × String)
  | .pushRaiseCapability cap => some (.raise, cap)
  | .pushRaiseAmbientCapability cap => some (.raiseAmbient, cap)
  | .pushDropCapability cap => some (.drop, cap)
  | _ => none

/-- The request that a chain of calls tells of. -/
def told (steps : List Step) : AttachRequest where
  pid := (lastOf (fun | .setPid pid => some pid | _ => none) steps).getD 0
  exec :=
    { executable := lastOf (fun | .setExecutable exe => some exe | _ => none) steps
      arguments := lastOf (fun | .setArguments args => some args | _ => none) steps
      workingDirectory := lastOf (fun | .setWorkingDirectory wd => some wd | _ => none) steps
      environment := mapOf <| steps.filterMap fun
        | .pushEnvironment key value => some (key, value)
        | _ => none
      uid := lastOf (fun | .setUid uid => some uid | _ => none) steps
      gid := lastOf (fun | .setGid gid => some gid | _ => none) steps
      supplementalGids := lastOf (fun | .setSupplementalGids gids => some gids | _ => none) steps
      processLimits := none
      noNewPrivs := (lastOf (fun | .setNoNewPrivs b => some b | _ => none) steps).getD false
      seccomp := none
      apparmor := none
      oomScoreAdj := lastOf (fun | .setOomScoreAdj score => some score | _ => none) steps }
  workloadId := lastOf (fun | .setWorkloadId wid => some wid | _ => none) steps
  cgroupfs := none
  namespaces := listOf (fun | .pushNamespace ns => some ns | _ => none) steps
  capabilities := pushedCaps (steps.filterMap Step.cap)

/-- The builder of an attach request builds what it has been told. -/
theorem build_eq (steps : List Step) : build steps = told steps := by
  -- Field by field, each of which some steps change and all others leave
  refine AttachRequest.ext ?_
    (ExecutableSpec.ext ?_ ?_ ?_ ?_ ?_ ?_ ?_ ?_ ?_ ?_ ?_ ?_) ?_ ?_ ?_ ?_
  · exact field_set (fun b : AttachRequestBuilder => b.config.pid)
      (fun b i => by cases i <;> rfl) steps
  · exact field_setSome (fun b : AttachRequestBuilder => b.config.exec.executable)
      (fun b i => by cases i <;> rfl) rfl steps
  · exact field_setSome (fun b : AttachRequestBuilder => b.config.exec.arguments)
      (fun b i => by cases i <;> rfl) rfl steps
  · exact field_setSome (fun b : AttachRequestBuilder => b.config.exec.workingDirectory)
      (fun b i => by cases i <;> rfl) rfl steps
  · exact field_insert (fun b : AttachRequestBuilder => b.config.exec.environment)
      (fun b i => by cases i <;> rfl) rfl steps
  · exact field_setSome (fun b : AttachRequestBuilder => b.config.exec.uid)
      (fun b i => by cases i <;> rfl) rfl steps
  · exact field_setSome (fun b : AttachRequestBuilder => b.config.exec.gid)
      (fun b i => by cases i <;> rfl) rfl steps
  · exact field_setSome (fun b : AttachRequestBuilder => b.config.exec.supplementalGids)
      (fun b i => by cases i <;> rfl) rfl steps
  · exact field_same (fun b : AttachRequestBuilder => b.config.exec.processLimits)
      (fun b i => by cases i <;> rfl) steps
  · exact field_set (fun b : AttachRequestBuilder => b.config.exec.noNewPrivs)
      (fun b i => by cases i <;> rfl) steps
  · exact field_same (fun b : AttachRequestBuilder => b.config.exec.seccomp)
      (fun b i => by cases i <;> rfl) steps
  · exact field_same (fun b : AttachRequestBuilder => b.config.exec.apparmor)
      (fun b i => by cases i <;> rfl) steps
  · exact field_setSome (fun b : AttachRequestBuilder => b.config.exec.oomScoreAdj)
      (fun b i => by cases i <;> rfl) rfl steps
  · exact field_setSome (fun b : AttachRequestBuilder => b.config.workloadId)
      (fun b i => by cases i <;> rfl) rfl steps
  · exact field_same (fun b : AttachRequestBuilder => b.config.cgroupfs)
      (fun b i => by cases i <;> rfl) steps
  · exact field_push (fun b : AttachRequestBuilder => b.config.namespaces)
      (fun b i => by cases i <;> rfl) rfl steps
  · exact field_caps (fun b : AttachRequestBuilder => b.config.capabilities)
      (fun b i => by cases i <;> rfl) rfl steps

end AttachRequestBuilder

/-! ## `CreateRequestBuilder` -/

namespace CreateRequestBuilder

/-- The capability that is pushed, with its list. -/
def Step.cap : Step → Option (CapList × String)
  | .pushRaiseCapability cap => some (.raise, cap)
  | .pushRaiseAmbientCapability cap => some (.raiseAmbient, cap)
  | .pushDropCapability cap => some (.drop, cap)
  | _ => none

/-- The request that a chain of calls tells of. -/
def told (steps : List Step) : CreateRequest where
  workloadId := lastOf (fun | .setWorkloadId wid => some wid | _ => none) steps
  rootfs := lastOf (fun | .setRootfs rootfs => some rootfs | _ => none) steps
  rootfsReadonly := lastOf (fun | .setRootfsReadonly b => some b | _ => none) steps
  exec :=
    { executable := lastOf (fun | .setExecutable exe => some exe | _ => none) steps
      arguments := lastOf (fun | .setArguments args => some args | _ => none) steps
      workingDirectory := lastOf (fun | .setWorkingDirectory wd => some wd | _ => none) steps
      environment :=
        mapOf <| steps.filterMap fun
        | .pushEnvironment key value => some (key, value)
        | _ => none
      uid := lastOf (fun | .setUid uid => some uid | _ => none) steps
      gid := lastOf (fun | .setGid gid => some gid | _ => none) steps
      supplementalGids := lastOf (fun | .setSupplementalGids gids => some gids | _ => none) steps
      processLimits :=
        lastOf (fun | .setProcessResourceLimits limits => some limits | _ => none) steps
      noNewPrivs := (lastOf (fun | .setNoNewPrivs b => some b | _ => none) steps).getD false
      seccomp := none
      apparmor := none
      oomScoreAdj := lastOf (fun | .setOomScoreAdj score => some score | _ => none) steps }
  uidMappings := listOf (fun | .pushUidMapping m => some m | _ => none) steps
  gidMappings := listOf (fun | .pushGidMapping m => some m | _ => none) steps
  mounts := listOf (fun | .pushMount spec => some spec | _ => none) steps
  maskedPaths := listOf (fun | .pushMaskedPath path => some path | _ => none) steps
  readonlyPaths := listOf (fun | .pushReadonlyPath path => some path | _ => none) steps
  limits :=
    mapOf <| steps.filterMap fun
    | .pushResourceLimit key value => some (key, value)
    | _ => none
  cgroupfs := none
  hostname := lastOf (fun | .setHostname name => some name | _ => none) steps
  mutations := listOf (fun | .pushMutation spec => some spec | _ => none) steps
  namespaces := listOf (fun | .pushNamespace ns => some ns | _ => none) steps
  setgroupsDeny := lastOf (fun | .setSetgroupsDeny b => some b | _ => none) steps
  capabilities := pushedCaps (steps.filterMap Step.cap)
  skipTwoStageUserns := lastOf (fun | .setSkipTwoStageUserns b => some b | _ => none) steps

/-- The builder of a create request builds what it has been told. -/
theorem build_eq (steps : List Step) : build steps = told steps := by
  -- Field by field, as above
  refine CreateRequest.ext ?_ ?_ ?_ (ExecutableSpec.ext ?_ ?_ ?_ ?_ ?_ ?_ ?_ ?_ ?_ ?_ ?_ ?_)
    ?_ ?_ ?_ ?_ ?_ ?_ ?_ ?_ ?_ ?_ ?_ ?_ ?_
  · exact field_setSome (fun b : CreateRequestBuilder => b.config.workloadId)
      (fun b i => by cases i <;> rfl) rfl steps
  · exact field_setSome (fun b : CreateRequestBuilder => b.config.rootfs)
      (fun b i => by cases i <;> rfl) rfl steps
  · exact field_setSome (fun b : CreateRequestBuilder => b.config.rootfsReadonly)
      (fun b i => by cases i <;> rfl) rfl steps
  · exact field_setSome (fun b : CreateRequestBuilder => b.config.exec.executable)
      (fun b i => by cases i <;> rfl) rfl steps
  · exact field_setSome (fun b : CreateRequestBuilder => b.config.exec.arguments)
      (fun b i => by cases i <;> rfl) rfl steps
  · exact field_setSome (fun b : CreateRequestBuilder => b.config.exec.workingDirectory)
      (fun b i => by cases i <;> rfl) rfl steps
  · exact field_insert (fun b : CreateRequestBuilder => b.config.exec.environment)
      (fun b i => by cases i <;> rfl) rfl steps
  · exact field_setSome (fun b : CreateRequestBuilder => b.config.exec.uid)
      (fun b i => by cases i <;> rfl) rfl steps
  · exact field_setSome (fun b : CreateRequestBuilder => b.config.exec.gid)
      (fun b i => by cases i <;> rfl) rfl steps
  · exact field_setSome (fun b : CreateRequestBuilder => b.config.exec.supplementalGids)
      (fun b i => by cases i <;> rfl) rfl steps
  · exact field_setSome (fun b : CreateRequestBuilder => b.config.exec.processLimits)
      (fun b i => by cases i <;> rfl) rfl steps
  · exact field_set (fun b : CreateRequestBuilder => b.config.exec.noNewPrivs)
      (fun b i => by cases i <;> rfl) steps
  · exact field_same (fun b : CreateRequestBuilder => b.config.exec.seccomp)
      (fun b i => by cases i <;> rfl) steps
  · exact field_same (fun b : CreateRequestBuilder => b.config.exec.apparmor)
      (fun b i => by cases i <;> rfl) steps
  · exact field_setSome (fun b : CreateRequestBuilder => b.config.exec.oomScoreAdj)
      (fun b i => by cases i <;> rfl) rfl steps
  · exact field_push (fun b : CreateRequestBuilder => b.config.uidMappings)
      (fun b i => by cases i <;> rfl) rfl steps
  · exact field_push (fun b : CreateRequestBuilder => b.config.gidMappings)
      (fun b i => by cases i <;> rfl) rfl steps
  · exact field_push (fun b : CreateRequestBuilder => b.config.mounts)
      (fun b i => by cases i <;> rfl) rfl steps
  · exact field_push (fun b : CreateRequestBuilder => b.config.maskedPaths)
      (fun b i => by cases i <;> rfl) rfl steps
  · exact field_push (fun b : CreateRequestBuilder => b.config.readonlyPaths)
      (fun b i => by cases i <;> rfl) rfl steps
  · exact field_insert (fun b : CreateRequestBuilder => b.config.limits)
      (fun b i => by cases i <;> rfl) rfl steps
  · exact field_same (fun b : CreateRequestBuilder => b.config.cgroupfs)
      (fun b i => by cases i <;> rfl) steps
  · exact field_setSome (fun b : CreateRequestBuilder => b.config.hostname)
      (fun b i => by cases i <;> rfl) rfl steps
  · exact field_push (fun b : CreateRequestBuilder => b.config.mutations)
      (fun b i => by cases i <;> rfl) rfl steps
  · exact field_push (fun b : CreateRequestBuilder => b.config.namespaces)
      (fun b i => by cases i <;> rfl) rfl steps
  · exact field_setSome (fun b : CreateRequestBuilder => b.config.setgroupsDeny)
      (fun b i => by cases i <;> rfl) rfl steps
  · exact field_caps (fun b : CreateRequestBuilder => b.config.capabilities)
      (fun b i => by cases i <;> rfl) rfl steps
  · exact field_setSome (fun b : CreateRequestBuilder => b.config.skipTwoStageUserns)
      (fun b i => by cases i <;> rfl) rfl steps

end CreateRequestBuilder

/-- Either builder builds what the chain of its calls tells of. -/
theorem builders_tell :
    (∀ steps, AttachRequestBuilder.build steps = AttachRequestBuilder.told steps) ∧
      ∀ steps, CreateRequestBuilder.build steps = CreateRequestBuilder.told steps :=
  ⟨AttachRequestBuilder.build_eq, CreateRequestBuilder.build_eq⟩

end Styrolite
