import Styrolite.Spec.IdentityCorrect

/-!
# The shortcut of `apply_gid_uid`

`apply_gid_uid` leaves a call out where the real id reads as the requested one.
The call would set the effective and the saved id too, and an id without a
mapping reads as the overflow id. So leaving it out is the same as making it only
where the call would change nothing.

## Key results

- `setGidUid`: the switch without its shortcut
- `Cred.switch_eq_force_iff`: the two have the same effect
- `applyGidUid_sound_iff`: the runs of the two end in the same credentials
-/

namespace Styrolite

open Prog Kernel

variable {c : Cred} {gid uid : Option UInt32} {gids : Option (List UInt32)} {h h' : List Event}

/-- `apply_gid_uid` without its shortcut: each call is made. -/
def setGidUid (gid uid : Option UInt32) (supplementalGids : Option (List UInt32)) : Sys Unit := do
  Prog.whenSome gid fun gid => do
    let _ ← sys (.setgid gid)
  Prog.whenSome supplementalGids fun gids => do
    let _ ← sys (.setgroups gids)
  Prog.whenSome uid fun uid => do
    let _ ← sys (.setuid uid)

/-! ## Ids -/

/-- The ids after a call that sets `id` and succeeds. -/
def Ids.force (m : IdMap) (ids : Ids) (privileged : Prop) [Decidable privileged] (id : UInt32) :
    Ids :=
  (m.toKernel id).elim ids (ids.set privileged)

/-- The call that sets `id` leaves the ids as they are. -/
def Ids.Idle (m : IdMap) (ids : Ids) (privileged : Prop) (id : UInt32) : Prop :=
  ∃ k, m.toKernel id = some k ∧
    (privileged → ids = .all k) ∧ (¬ privileged → ids.effective = k)

/-- Setting an id changes nothing exactly if it is there already. -/
theorem Ids.set_eq_self {ids : Ids} {privileged : Prop} [Decidable privileged] {k : UInt32} :
    ids.set privileged k = ids ↔
      (privileged → ids = .all k) ∧ (¬ privileged → ids.effective = k) := by
  unfold set
  split
  · next hp => simp [hp, eq_comm]
  · next hp =>
    obtain ⟨real, effective, saved⟩ := ids
    simp [hp, eq_comm]

/-- Where the set call may succeed, leaving it out is sound if it is idle there. -/
theorem Ids.switch_eq_force_iff {m : IdMap} {ids : Ids} {privileged : Prop}
    [Decidable privileged] {id : UInt32} (hmay : Cred.maySet m ids privileged id) :
    ids.switch m privileged id (.ok ()) = ids.force m privileged id ↔
      (m.report ids.real = id → ids.Idle m privileged id) := by
  unfold Cred.maySet at hmay
  cases hk : m.toKernel id with
  -- The id has no meaning in the namespace, so it may not be set
  | none =>
    rw [hk] at hmay
    exact hmay.elim
  | some k =>
    unfold switch force
    rw [hk]
    by_cases heq : m.report ids.real = id
    · -- The shortcut is taken, which is right if setting the id changes nothing
      rw [if_pos heq, Option.elim_some, eq_comm, Ids.set_eq_self]
      simp [heq, Idle, hk]
    · -- The shortcut is not taken
      rw [if_neg heq]
      exact ⟨fun _ h => absurd h heq, fun _ => rfl⟩

namespace Cred

/-- A change of user ids to the same ids changes nothing. -/
theorem setUids_self (c : Cred) : c.setUids c.uids = c := by
  unfold setUids
  split
  · rfl
  · simp [CapSets.switchUids]

/-- The credentials after `setGidUid`, where only `setgroups` may be refused. -/
def force (c : Cred) (gid uid : Option UInt32) (gids : Option (List UInt32))
    (a : Except Errno Unit) : Cred :=
  let c₁ := gid.elim c fun id => c.next (.setgid id) (.ok ())
  let c₂ := gids.elim c₁ fun l => c₁.next (.setgroups l) a
  uid.elim c₂ fun id => c₂.next (.setuid id) (.ok ())

/-- A successful `setgid` as a change of the group ids. -/
theorem next_setgid (c : Cred) (id : UInt32) : c.next (.setgid id) (.ok ()) =
    { c with gids := c.gids.force c.gidMap (.setgid ∈ c.caps.effective) id } := by
  unfold Ids.force
  cases hk : c.gidMap.toKernel id <;> simp [next, hk, setgid]

/-- A successful `setuid` as a change of the user ids, and of the capabilities with them. -/
theorem next_setuid (c : Cred) (id : UInt32) : c.next (.setuid id) (.ok ()) =
    c.setUids (c.uids.force c.uidMap (.setuid ∈ c.caps.effective) id) := by
  unfold Ids.force
  cases hk : c.uidMap.toKernel id <;> simp [next, hk, setuid, setUids_self]

/-- A sound switch of the user id has the whole effect of the call. -/
theorem switchUid_eq_next {id : UInt32} (hmay : c.maySetuid id)
    (hidle : c.uidMap.report c.uids.real = id →
      c.uids.Idle c.uidMap (.setuid ∈ c.caps.effective) id) :
    c.switchUid id (.ok ()) = c.next (.setuid id) (.ok ()) := by
  by_cases heq : c.uidMap.report c.uids.real = id
  · have hids := (Ids.switch_eq_force_iff hmay).2 hidle
    rw [Ids.switch, if_pos heq] at hids
    rw [switchUid, if_pos heq, next_setuid, ← hids, setUids_self]
  · rw [switchUid, if_neg heq]

/-- The group part of `force`. -/
theorem force_groups_eq (c : Cred) (gid : Option UInt32) (gids : Option (List UInt32))
    (a : Except Errno Unit) : ∃ groups,
    (c.force gid none gids a) = { c with
      gids := gid.elim c.gids (c.gids.force c.gidMap (.setgid ∈ c.caps.effective))
      groups := groups } := by
  have hgid : (gid.elim c fun id => c.next (.setgid id) (.ok ())) = { c with
      gids := gid.elim c.gids (c.gids.force c.gidMap (.setgid ∈ c.caps.effective)) } := by
    cases gid with
    | none => rfl
    | some id => exact c.next_setgid id
  unfold force
  rw [hgid]
  cases gids with
  | none => exact ⟨c.groups, rfl⟩
  | some l => exact setgroups_eq _ l a

variable {a : Except Errno Unit}

/-- The group ids after the calls without the shortcut. -/
theorem force_gids : (c.force gid uid gids a).gids =
    gid.elim c.gids (c.gids.force c.gidMap (.setgid ∈ c.caps.effective)) := by
  obtain ⟨groups, heq⟩ := c.force_groups_eq gid gids a
  cases uid with
  | none => rw [heq]
  | some id =>
    show ((c.force gid none gids a).next (.setuid id) (.ok ())).gids = _
    rw [next_setuid, heq]
    rfl

/-- The user ids after the calls without the shortcut. -/
theorem force_uids : (c.force gid uid gids a).uids =
    uid.elim c.uids (c.uids.force c.uidMap (.setuid ∈ c.caps.effective)) := by
  obtain ⟨groups, heq⟩ := c.force_groups_eq gid gids a
  cases uid with
  | none => rw [heq]; rfl
  | some id =>
    show ((c.force gid none gids a).next (.setuid id) (.ok ())).uids = _
    rw [next_setuid, heq]
    rfl

/-- Each call that is left out is idle. -/
def ShortcutIdle (c : Cred) (gid uid : Option UInt32) : Prop :=
  (∀ id, gid = some id → c.gidMap.report c.gids.real = id →
    c.gids.Idle c.gidMap (.setgid ∈ c.caps.effective) id) ∧
  ∀ id, uid = some id → c.uidMap.report c.uids.real = id →
    c.uids.Idle c.uidMap (.setuid ∈ c.caps.effective) id

/-- The switch has the effect of the calls if each call it leaves out is idle. -/
theorem switch_eq_force_iff (hgid : ∀ id, gid = some id → c.maySetgid id)
    (huid : ∀ id, uid = some id → c.maySetuid id) :
    c.switch gid uid gids ⟨.ok (), a, .ok ()⟩ = c.force gid uid gids a ↔
      c.ShortcutIdle gid uid := by
  constructor
  · intro heq
    -- The ids of either kind are the same, so each shortcut was idle
    refine ⟨fun id hid => ?_, fun id hid => ?_⟩
    · subst hid
      have hids := congrArg Cred.gids heq
      rw [switch_gids, force_gids] at hids
      exact (Ids.switch_eq_force_iff (hgid id rfl)).1 hids
    · subst hid
      have hids := congrArg Cred.uids heq
      rw [switch_uids, force_uids] at hids
      exact (Ids.switch_eq_force_iff (huid id rfl)).1 hids
  · intro hidle
    -- the group parts agree, and leave what the user part looks at alone
    have hgroups : c.switchGroups gid gids ⟨.ok (), a, .ok ()⟩ = c.force gid none gids a := by
      have hgid' : (gid.elim c fun id => c.switchGid id (.ok ())) =
          gid.elim c fun id => c.next (.setgid id) (.ok ()) := by
        cases gid with
        | none => rfl
        | some id =>
          show c.switchGid id (.ok ()) = c.next (.setgid id) (.ok ())
          rw [switchGid_eq, next_setgid,
            (Ids.switch_eq_force_iff (hgid id rfl)).2 (hidle.1 id rfl)]
      unfold switchGroups force
      rw [hgid']
      rfl
    obtain ⟨groups, hforce⟩ := c.force_groups_eq gid gids a
    unfold switch
    rw [hgroups]
    cases uid with
    | none => rfl
    | some id =>
      show (c.force gid none gids a).switchUid id (.ok ()) =
        (c.force gid none gids a).next (.setuid id) (.ok ())
      refine switchUid_eq_next ?_ ?_ <;> rw [hforce]
      · -- The group part has changed no user id, so what held of them holds still
        exact huid id rfl
      · exact hidle.2 id rfl

end Cred

/-! ## Runs -/

/-- No `setgid` and no `setuid` is refused. -/
def Granted (h : List Event) : Prop :=
  ∀ e ∈ h, ∀ id err, e ≠ ⟨.setgid id, .error err⟩ ∧ e ≠ ⟨.setuid id, .error err⟩

/-- `setgroups` is answered alike in both histories. -/
def SameGroups (h h' : List Event) : Prop :=
  ∀ l a a', (⟨.setgroups l, a⟩ : Event) ∈ h → (⟨.setgroups l, a'⟩ : Event) ∈ h' → a = a'

/-- A `setgid` that was made has succeeded. -/
theorem Granted.setgid (hg : Granted h) {id : UInt32} {a : Except Errno Unit}
    (hm : (⟨.setgid id, a⟩ : Event) ∈ h) : a = .ok () := by
  match a with
  | .ok () => rfl
  | .error err => exact absurd rfl (hg _ hm id err).1

/-- A `setuid` that was made has succeeded. -/
theorem Granted.setuid (hg : Granted h) {id : UInt32} {a : Except Errno Unit}
    (hm : (⟨.setuid id, a⟩ : Event) ∈ h) : a = .ok () := by
  match a with
  | .ok () => rfl
  | .error err => exact absurd rfl (hg _ hm id err).2

/-- The credentials after a run in which nothing but `setgroups` is refused. -/
theorem applyGidUid_granted (hr : (applyGidUid gid uid gids).Runs h (.ok ()))
    (hl : credRules.Lawful c h) (hg : Granted h) :
    ∃ a, credRules.after c h = c.switch gid uid gids ⟨.ok (), a, .ok ()⟩ ∧
      ∀ l, gids = some l → ⟨.setgroups l, a⟩ ∈ h := by
  obtain ⟨a, hafter, hans⟩ := applyGidUid_after hr hl
  refine ⟨a.setgroups, ?_, fun l hl' => (hans.setgroups l hl').1⟩
  rw [hafter]
  -- an answer that was given is `ok`, and one that was not does not matter
  have hgid : (gid.elim c fun id => c.switchGid id a.setgid) =
      gid.elim c fun id => c.switchGid id (.ok ()) := by
    cases gid with
    | none => rfl
    | some id =>
      show c.switchGid id a.setgid = c.switchGid id (.ok ())
      by_cases heq : c.gidMap.report c.gids.real = id
      · -- The call is left out on both sides
        rw [Cred.switchGid, Cred.switchGid, if_pos heq, if_pos heq]
      · rw [hg.setgid (hans.setgid id rfl heq).1]
  have hgroups : c.switchGroups gid gids a =
      c.switchGroups gid gids ⟨.ok (), a.setgroups, .ok ()⟩ := by
    unfold Cred.switchGroups
    rw [hgid]
  unfold Cred.switch
  rw [hgroups]
  cases uid with
  | none => rfl
  | some id =>
    show Cred.switchUid _ id a.setuid = Cred.switchUid _ id (.ok ())
    by_cases heq : c.uidMap.report c.uids.real = id
    · obtain ⟨ids, groups, hsame⟩ := c.switchGroups_eq gid gids ⟨.ok (), a.setgroups, .ok ()⟩
      rw [hsame]
      exact (if_pos heq).trans (if_pos heq).symm
    · rw [hg.setuid (hans.setuid id rfl heq).1]

/-- The same for the switch without its shortcut. -/
theorem setGidUid_granted (hr : (setGidUid gid uid gids).Runs h (.ok ())) (hg : Granted h) :
    ∃ a, credRules.after c h = c.force gid uid gids a ∧
      ∀ l, gids = some l → ⟨.setgroups l, a⟩ ∈ h := by
  obtain ⟨⟨⟩, h₁, _, hgid, hr', rfl⟩ := runs_bind_ok.1 hr
  obtain ⟨⟨⟩, h₂, h₃, hgroups, huid, rfl⟩ := runs_bind_ok.1 hr'
  rw [runs_whenSome_ok] at hgid hgroups huid
  -- Each part is one call, or none; only the answer to `setgroups` is open
  have h₁eq : h₁ = gid.elim [] fun id => [⟨.setgid id, .ok ()⟩] := by
    cases gid with
    | none => exact hgid.2 rfl
    | some id =>
      obtain ⟨a, h', rfl, hend⟩ := runs_sys_bind.1 (hgid.1 id rfl)
      obtain ⟨rfl, -⟩ := runs_pure.1 hend
      have hm : (⟨.setgid id, a⟩ : Event) ∈ [⟨.setgid id, a⟩] ++ (h₂ ++ h₃) := by simp
      rw [hg.setgid hm]
      rfl
  have h₃eq : h₃ = uid.elim [] fun id => [⟨.setuid id, .ok ()⟩] := by
    cases uid with
    | none => exact huid.2 rfl
    | some id =>
      obtain ⟨a, h', rfl, hend⟩ := runs_sys_bind.1 (huid.1 id rfl)
      obtain ⟨rfl, -⟩ := runs_pure.1 hend
      have hm : (⟨.setuid id, a⟩ : Event) ∈ h₁ ++ (h₂ ++ [⟨.setuid id, a⟩]) := by simp
      rw [hg.setuid hm]
      rfl
  have h₂eq : ∃ a, h₂ = gids.elim [] fun l => [⟨.setgroups l, a⟩] := by
    cases gids with
    | none => exact ⟨.ok (), hgroups.2 rfl⟩
    | some l =>
      obtain ⟨a, h', rfl, hend⟩ := runs_sys_bind.1 (hgroups.1 l rfl)
      obtain ⟨rfl, -⟩ := runs_pure.1 hend
      exact ⟨a, rfl⟩
  obtain ⟨a, rfl⟩ := h₂eq
  subst h₁eq h₃eq
  refine ⟨a, ?_, fun l hl => by subst hl; simp⟩
  cases gid <;> cases gids <;> cases uid <;> rfl

/-! ## Runs in which only `setgroups` is refused -/

/-- The rules allow this run, and nothing but `setgroups` is refused in it. -/
structure Possible (c : Cred) (p : Sys Unit) (h : List Event) : Prop where
  runs : p.Runs h (.ok ())
  lawful : credRules.Lawful c h
  granted : Granted h
  refused : ∀ l a, (⟨.setgroups l, a⟩ : Event) ∈ h → a = .error Errno.EPERM

namespace Possible

/-- It is possible to do nothing. -/
theorem nil (c : Cred) : Possible c (pure ()) [] where
  runs := .refl _
  lawful := LocalRules.lawful_nil _ _
  granted _ he := absurd he List.not_mem_nil
  refused _ _ he := absurd he List.not_mem_nil

/-- What is possible, and then what is possible after it. -/
theorem bind {p q : Sys Unit} {h₁ h₂ : List Event} (hp : Possible c p h₁)
    (hq : Possible (credRules.after c h₁) q h₂) : Possible c (p >>= fun _ => q) (h₁ ++ h₂) where
  runs := runs_bind_ok.2 ⟨(), h₁, h₂, hp.runs, hq.runs, rfl⟩
  lawful := LocalRules.lawful_append.2 ⟨hp.lawful, hq.lawful⟩
  granted e he := by
    rcases List.mem_append.1 he with he | he
    · exact hp.granted e he
    · exact hq.granted e he
  refused l a he := by
    rcases List.mem_append.1 he with he | he
    · exact hp.refused l a he
    · exact hq.refused l a he

end Possible

/-- A refusal of `setgroups` is possible. -/
theorem possible_setgroups (c : Cred) (l : List UInt32) :
    Possible c (do let _ ← sys (.setgroups l)) [⟨.setgroups l, .error Errno.EPERM⟩] where
  runs := .call (.refl _)
  lawful := LocalRules.lawful_cons.2 ⟨trivial, LocalRules.lawful_nil _ _⟩
  granted := by simp [Granted]
  refused := by simp

/-- A `setgid` that is allowed is possible. -/
theorem possible_setgid {id : UInt32} (hmay : c.maySetgid id) :
    Possible c (do let _ ← sys (.setgid id)) [⟨.setgid id, .ok ()⟩] where
  runs := .call (.refl _)
  lawful := LocalRules.lawful_cons.2 ⟨hmay, LocalRules.lawful_nil _ _⟩
  granted := by simp [Granted]
  refused := by simp

/-- A `setuid` that is allowed is possible. -/
theorem possible_setuid {id : UInt32} (hmay : c.maySetuid id) :
    Possible c (do let _ ← sys (.setuid id)) [⟨.setuid id, .ok ()⟩] where
  runs := .call (.refl _)
  lawful := LocalRules.lawful_cons.2 ⟨hmay, LocalRules.lawful_nil _ _⟩
  granted := by simp [Granted]
  refused := by simp

/-- There is a run of the group part. -/
theorem exists_applyGid {id : UInt32} (hmay : c.maySetgid id) : ∃ h, Possible c (applyGid id) h := by
  by_cases heq : c.gidMap.report c.gids.real = id
  · refine ⟨[⟨.getgid, id⟩], runs_sys_bind.2 ⟨id, [], rfl, ?_⟩,
      LocalRules.lawful_cons.2 ⟨heq.symm, LocalRules.lawful_nil _ _⟩, ?_, by simp⟩
    · rw [if_neg (not_not.2 rfl)]
      exact .refl _
    · simp [Granted]
  · have hset := possible_setgid hmay
    refine ⟨⟨.getgid, c.gidMap.report c.gids.real⟩ :: [⟨.setgid id, .ok ()⟩],
      runs_sys_bind.2 ⟨_, _, rfl, ?_⟩, LocalRules.lawful_cons.2 ⟨rfl, hset.lawful⟩, ?_, by simp⟩
    · rw [if_pos heq]
      exact hset.runs
    · simp [Granted]

/-- There is a run of the user part. -/
theorem exists_applyUid {id : UInt32} (hmay : c.maySetuid id) : ∃ h, Possible c (applyUid id) h := by
  by_cases heq : c.uidMap.report c.uids.real = id
  · refine ⟨[⟨.getuid, id⟩], runs_sys_bind.2 ⟨id, [], rfl, ?_⟩,
      LocalRules.lawful_cons.2 ⟨heq.symm, LocalRules.lawful_nil _ _⟩, ?_, by simp⟩
    · rw [if_neg (not_not.2 rfl)]
      exact .refl _
    · simp [Granted]
  · have hset := possible_setuid hmay
    refine ⟨⟨.getuid, c.uidMap.report c.uids.real⟩ :: [⟨.setuid id, .ok ()⟩],
      runs_sys_bind.2 ⟨_, _, rfl, ?_⟩, LocalRules.lawful_cons.2 ⟨rfl, hset.lawful⟩, ?_, by simp⟩
    · rw [if_pos heq]
      exact hset.runs
    · simp [Granted]

/-- Each part of a switch can be run, so the switch can. -/
theorem exists_possible {g u : UInt32 → Sys Unit}
    (hg : ∀ id, gid = some id → ∃ h ids, Possible c (g id) h ∧
      credRules.after c h = { c with gids := ids })
    (hu : ∀ ids id, uid = some id → ∃ h, Possible { c with gids := ids } (u id) h) :
    ∃ h, Possible c (do
      Prog.whenSome gid g
      Prog.whenSome gids fun gids => do
        let _ ← sys (.setgroups gids)
      Prog.whenSome uid u) h := by
  -- The group changes ids, and the other two parts go on from there
  have hgid : ∃ h ids, Possible c (Prog.whenSome gid g) h ∧
      credRules.after c h = { c with gids := ids } := by
    cases gid with
    | none => exact ⟨[], c.gids, .nil c, rfl⟩
    | some id => exact hg id rfl
  obtain ⟨h₁, ids, hp₁, hafter⟩ := hgid
  have hgroups : ∃ h, Possible { c with gids := ids } (Prog.whenSome gids fun gids => do
      let _ ← sys (.setgroups gids)) h ∧
      credRules.after { c with gids := ids } h = { c with gids := ids } := by
    cases gids with
    | none => exact ⟨[], .nil _, rfl⟩
    | some l => exact ⟨_, possible_setgroups _ l, rfl⟩
  obtain ⟨h₂, hp₂, hafter₂⟩ := hgroups
  have huid : ∃ h, Possible { c with gids := ids } (Prog.whenSome uid u) h := by
    cases uid with
    | none => exact ⟨[], .nil _⟩
    | some id => exact hu ids id rfl
  obtain ⟨h₃, hp₃⟩ := huid
  -- The three parts are done one after the other
  rw [← hafter] at hp₂
  refine ⟨h₁ ++ (h₂ ++ h₃), hp₁.bind (hp₂.bind ?_)⟩
  rw [hafter, hafter₂]
  exact hp₃

/-! ## Main theorem -/

/-- Where the set calls may succeed, the shortcut of `apply_gid_uid` is sound just if each call
    it leaves out is idle: every run of it ends in the same credentials as every run of the
    unconditional switch, the set calls being granted and `setgroups` answered alike. -/
theorem applyGidUid_sound_iff (hgid : ∀ id, gid = some id → c.maySetgid id)
    (huid : ∀ id, uid = some id → c.maySetuid id) :
    (∀ h h', (applyGidUid gid uid gids).Runs h (.ok ()) →
        (setGidUid gid uid gids).Runs h' (.ok ()) →
        credRules.Lawful c h → credRules.Lawful c h' → Granted h → Granted h' → SameGroups h h' →
        credRules.after c h = credRules.after c h') ↔
      c.ShortcutIdle gid uid := by
  constructor
  · intro hsound
    -- one run of each, with the same refusal of `setgroups`
    obtain ⟨h, hp⟩ : ∃ h, Possible c (applyGidUid gid uid gids) h := by
      refine exists_possible (fun id hid => ?_) fun ids id hid => exists_applyUid (huid id hid)
      obtain ⟨h, hp⟩ := exists_applyGid (hgid id hid)
      obtain ⟨a, hafter, -⟩ := applyGid_after hp.runs hp.lawful
      exact ⟨h, _, hp, hafter.trans (c.switchGid_eq id a)⟩
    obtain ⟨h', hp'⟩ : ∃ h, Possible c (setGidUid gid uid gids) h := by
      refine exists_possible (fun id hid => ?_) fun ids id hid => ⟨_, possible_setuid (huid id hid)⟩
      exact ⟨_, _, possible_setgid (hgid id hid), c.next_setgid id⟩
    -- Both refuse `setgroups`, so the groups play no part
    have hsame : SameGroups h h' := by
      intro l a a' ha ha'
      rw [hp.refused l a ha, hp'.refused l a' ha']
    have heq := hsound h h' hp.runs hp'.runs hp.lawful hp'.lawful hp.granted hp'.granted hsame
    obtain ⟨a, hafter, ha⟩ := applyGidUid_granted hp.runs hp.lawful hp.granted
    obtain ⟨a', hafter', ha'⟩ := setGidUid_granted (c := c) hp'.runs hp'.granted
    rw [hafter, hafter'] at heq
    refine (Cred.switch_eq_force_iff hgid huid).1 (heq.trans ?_)
    cases gids with
    | none => rfl
    | some l => rw [hsame l a a' (ha l rfl) (ha' l rfl)]
  · -- Where the shortcut is idle both come to one state
    intro hidle h h' hr hr' hl _ hg hg' hsame
    obtain ⟨a, hafter, ha⟩ := applyGidUid_granted hr hl hg
    obtain ⟨a', hafter', ha'⟩ := setGidUid_granted (c := c) hr' hg'
    rw [hafter, hafter', (Cred.switch_eq_force_iff hgid huid).2 hidle]
    cases gids with
    | none => rfl
    | some l => rw [hsame l a a' (ha l rfl) (ha' l rfl)]

/-- A process whose real id only is 1000, as a set-user-id program of root's is started. -/
def Cred.setuidRoot : Cred := { Cred.root with uids := { real := 1000, effective := 0, saved := 0 } }

/-- The switch of such a process to its real user id is left out, where the call would give up
    root: with the call it runs as 1000, and without as root still. -/
theorem applyGidUid_not_sound : ∃ h h',
    (applyGidUid none (some 1000) none).Runs h (.ok ()) ∧
      (setGidUid none (some 1000) none).Runs h' (.ok ()) ∧
      credRules.Lawful .setuidRoot h ∧ credRules.Lawful .setuidRoot h' ∧ Granted h ∧ Granted h' ∧
      (credRules.after .setuidRoot h).uids.effective = 0 ∧
      (credRules.after .setuidRoot h').uids = .all 1000 := by
  refine ⟨[⟨.getuid, (1000 : UInt32)⟩], [⟨.setuid 1000, .ok ()⟩], .call (.refl _), .call (.refl _),
    LocalRules.lawful_cons.2 ⟨by decide, LocalRules.lawful_nil _ _⟩, ?_, ?_, ?_, rfl, by decide⟩
  · exact (possible_setuid (by decide)).lawful
  · simp [Granted]
  · simp [Granted]

/-- For the root user, who asks for user id 0, the shortcut is sound. -/
theorem applyGidUid_sound_root :
    Cred.root.maySetuid 0 ∧ ∀ h h', (applyGidUid none (some 0) none).Runs h (.ok ()) →
      (setGidUid none (some 0) none).Runs h' (.ok ()) →
      credRules.Lawful .root h → credRules.Lawful .root h' → Granted h → Granted h' →
      SameGroups h h' → credRules.after .root h = credRules.after .root h' := by
  have hmay : Cred.root.maySetuid 0 := by decide
  -- Root has its id in every place, so the shortcut leaves out nothing
  have hidle : Cred.root.ShortcutIdle none (some 0) := by
    constructor
    · intro id hid
      cases hid
    · intro id hid _
      cases hid
      exact ⟨0, by decide, fun _ => rfl, fun hno => absurd (by decide) hno⟩
  refine ⟨hmay, (applyGidUid_sound_iff ?_ ?_).2 hidle⟩
  · intro id hid
    cases hid
  · intro id hid
    cases hid
    exact hmay

end Styrolite
