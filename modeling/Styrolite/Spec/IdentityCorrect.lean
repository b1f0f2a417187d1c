import Styrolite.Spec.Credentials
import Styrolite.Spec.FrameCorrect
import Styrolite.Spec.Request

/-!
# The identity of the workload

What `preexec_prep` makes of the user ids, the group ids and the securebits. It
switches ids at its best effort: a refused call is logged only, and the workload
then runs with the ids of before. The switch is also left out when the real id
reads as the requested one, whatever the other two ids are. The securebits it
sets stay set.

## Key results

- `applyGidUid_after`: the credentials after `apply_gid_uid`
- `preexecPrep_after`: the credentials after `preexec_prep`
- `wrap_identity`: the ids at `execvpe`
- `wrap_securebits`: the securebits at `execvpe`
-/

namespace Styrolite

open Prog Kernel

variable {c : Cred} {h : List Event}

/-! ## The switch of ids -/

/-- The ids after a switch to `id`, if it makes its call and has the answer `a`. -/
def Ids.switch (m : IdMap) (ids : Ids) (privileged : Prop) [Decidable privileged] (id : UInt32)
    (a : Except Errno Unit) : Ids :=
  if m.report ids.real = id then ids
  else match a with
    | .ok () => (m.toKernel id).elim ids (ids.set privileged)
    | .error _ => ids

/-- What a switch to `id` has come to where the real id did not read as `id` before: the call
    was refused and the ids are those of before; or all three are `id`; or the caller was not
    privileged, and its effective id is now its saved one, which is `id`. -/
def Ids.Switched (m : IdMap) (before : Ids) (privileged refused : Prop) (id : UInt32)
    (after : Ids) : Prop :=
  (refused ∧ after = before) ∨
    (privileged ∧ ∃ k, m.toKernel id = some k ∧ after = .all k) ∨
    (¬ privileged ∧ m.toKernel id = some before.saved ∧
      after = { before with effective := before.saved })

/-- The kernel id that stands for `id` is shown as `id`. -/
theorem IdMap.report_toKernel {m : IdMap} {id k : UInt32} (hk : m.toKernel id = some k) :
    m.report k = id := by
  rw [report, (m.inverse id k).1 hk, Option.getD_some]

/-- The call is made if the real id does not read as the requested one. -/
theorem Ids.switched_of_ne {m : IdMap} {ids : Ids} {privileged refused : Prop}
    [Decidable privileged] {id : UInt32} {a : Except Errno Unit} (hne : m.report ids.real ≠ id)
    (hrefused : ∀ e, a = .error e → refused)
    (hmay : a = .ok () → Cred.maySet m ids privileged id) :
    ids.Switched m privileged refused id (ids.switch m privileged id a) := by
  unfold switch
  rw [if_neg hne]
  match a with
  | .error e => exact .inl ⟨hrefused e rfl, rfl⟩
  | .ok () =>
    replace hmay := hmay rfl
    unfold Cred.maySet at hmay
    -- The id must have a meaning in the user namespace
    cases hk : m.toKernel id with
    | none =>
      rw [hk] at hmay
      exact hmay.elim
    | some k =>
      rw [hk] at hmay
      show ids.Switched m privileged refused id ((some k).elim ids (ids.set privileged))
      by_cases hp : privileged
      · exact .inr (.inl ⟨hp, k, hk, if_pos hp⟩)
      · -- the id is the real or the saved one, and reads as the real one does if it is that
        rcases hmay with hp' | hreal | hsaved
        · exact absurd hp' hp
        · -- It is not the real id, which would read as `id`
          exact absurd (hreal ▸ IdMap.report_toKernel hk) hne
        · subst hsaved
          exact .inr (.inr ⟨hp, hk, if_neg hp⟩)

namespace Cred

/-- The credentials after `apply_gid`, if it calls `setgid` and has the answer `a`. -/
def switchGid (c : Cred) (gid : UInt32) (a : Except Errno Unit) : Cred :=
  if c.gidMap.report c.gids.real = gid then c else c.next (.setgid gid) a

/-- The credentials after `apply_uid`, if it calls `setuid` and has the answer `a`. -/
def switchUid (c : Cred) (uid : UInt32) (a : Except Errno Unit) : Cred :=
  if c.uidMap.report c.uids.real = uid then c else c.next (.setuid uid) a

/-- Switching the group id changes nothing but the group ids. -/
theorem switchGid_eq (c : Cred) (gid : UInt32) (a : Except Errno Unit) :
    c.switchGid gid a =
      { c with gids := c.gids.switch c.gidMap (.setgid ∈ c.caps.effective) gid a } := by
  unfold switchGid Ids.switch
  split
  · rfl
  · match a with
    | .error e => rfl
    | .ok () => cases hk : c.gidMap.toKernel gid <;> simp [Cred.next, hk, setgid]

/-- Switching the user id changes the user ids, and the capabilities that go with them. -/
theorem switchUid_eq (c : Cred) (uid : UInt32) (a : Except Errno Unit) :
    ∃ caps, c.switchUid uid a =
      { c with
        uids := c.uids.switch c.uidMap (.setuid ∈ c.caps.effective) uid a
        caps := caps } := by
  unfold switchUid Ids.switch
  split
  · exact ⟨c.caps, rfl⟩
  · match a with
    | .error e => exact ⟨c.caps, rfl⟩
    | .ok () =>
      cases hk : c.uidMap.toKernel uid with
      | none => exact ⟨c.caps, by simp [Cred.next, hk]⟩
      | some k => exact ⟨(c.setuid k).caps, by simp [Cred.next, hk, setuid, setUids]⟩

end Cred

/-- What applying a group id comes to: it is asked for only where the real one reads otherwise. -/
theorem applyGid_after {gid : UInt32} (hr : (applyGid gid).Runs h (.ok ()))
    (hl : credRules.Lawful c h) :
    ∃ a, credRules.after c h = c.switchGid gid a ∧
      (c.gidMap.report c.gids.real ≠ gid →
        ⟨.setgid gid, a⟩ ∈ h ∧ c.allows (.setgid gid) a) := by
  obtain ⟨current, h', rfl, hr'⟩ := runs_sys_bind.1 hr
  obtain ⟨hcur, hl'⟩ := LocalRules.lawful_cons.1 hl
  -- No call was made, and a switch to the id that is there is none
  replace hcur : current = c.gidMap.report c.gids.real := hcur
  by_cases heq : current = gid
  · rw [if_neg (not_not.2 heq)] at hr'
    obtain ⟨rfl, -⟩ := runs_pure.1 hr'
    refine ⟨.ok (), ?_, fun hne => absurd (hcur ▸ heq) hne⟩
    exact (if_pos (hcur ▸ heq)).symm
  · rw [if_pos heq] at hr'
    obtain ⟨a, h'', rfl, hr''⟩ := runs_sys_bind.1 hr'
    obtain ⟨rfl, -⟩ := runs_pure.1 hr''
    refine ⟨a, ?_, fun _ => ⟨by simp, (LocalRules.lawful_cons.1 hl').1⟩⟩
    exact (if_neg (hcur ▸ heq)).symm

/-- What applying a user id comes to: it is asked for only where the real one reads otherwise. -/
theorem applyUid_after {uid : UInt32} (hr : (applyUid uid).Runs h (.ok ()))
    (hl : credRules.Lawful c h) :
    ∃ a, credRules.after c h = c.switchUid uid a ∧
      (c.uidMap.report c.uids.real ≠ uid →
        ⟨.setuid uid, a⟩ ∈ h ∧ c.allows (.setuid uid) a) := by
  obtain ⟨current, h', rfl, hr'⟩ := runs_sys_bind.1 hr
  obtain ⟨hcur, hl'⟩ := LocalRules.lawful_cons.1 hl
  replace hcur : current = c.uidMap.report c.uids.real := hcur
  -- The id is there already, and no call is made
  by_cases heq : current = uid
  · rw [if_neg (not_not.2 heq)] at hr'
    obtain ⟨rfl, -⟩ := runs_pure.1 hr'
    refine ⟨.ok (), ?_, fun hne => absurd (hcur ▸ heq) hne⟩
    exact (if_pos (hcur ▸ heq)).symm
  · -- Or it is asked for
    rw [if_pos heq] at hr'
    obtain ⟨a, h'', rfl, hr''⟩ := runs_sys_bind.1 hr'
    obtain ⟨rfl, -⟩ := runs_pure.1 hr''
    refine ⟨a, ?_, fun _ => ⟨by simp, (LocalRules.lawful_cons.1 hl').1⟩⟩
    exact (if_neg (hcur ▸ heq)).symm

/-- The answers to the three calls of `apply_gid_uid`. -/
structure SwitchAnswers where
  setgid : Except Errno Unit
  setgroups : Except Errno Unit
  setuid : Except Errno Unit

namespace Cred

/-- The credentials after the group part of `apply_gid_uid`. -/
def switchGroups (c : Cred) (gid : Option UInt32) (gids : Option (List UInt32))
    (a : SwitchAnswers) : Cred :=
  let c₁ := gid.elim c fun gid => c.switchGid gid a.setgid
  gids.elim c₁ fun gids => c₁.next (.setgroups gids) a.setgroups

/-- The credentials after `apply_gid_uid`. -/
def switch (c : Cred) (gid uid : Option UInt32) (gids : Option (List UInt32))
    (a : SwitchAnswers) : Cred :=
  let c₂ := c.switchGroups gid gids a
  uid.elim c₂ fun uid => c₂.switchUid uid a.setuid

/-- `apply_gid_uid` had these answers, and Linux may give them. -/
structure Answered (c : Cred) (gid uid : Option UInt32) (gids : Option (List UInt32))
    (a : SwitchAnswers) (h : List Event) : Prop where
  setgid : ∀ id, gid = some id → c.gidMap.report c.gids.real ≠ id →
    ⟨.setgid id, a.setgid⟩ ∈ h ∧ c.allows (.setgid id) a.setgid
  setgroups : ∀ l, gids = some l → ⟨.setgroups l, a.setgroups⟩ ∈ h ∧
    c.allows (.setgroups l) a.setgroups
  setuid : ∀ id, uid = some id → c.uidMap.report c.uids.real ≠ id →
    ⟨.setuid id, a.setuid⟩ ∈ h ∧ c.allows (.setuid id) a.setuid

/-- Setting the supplementary groups changes nothing but these. -/
theorem setgroups_eq (c : Cred) (l : List UInt32) (a : Except Errno Unit) :
    ∃ groups, c.next (.setgroups l) a = { c with groups := groups } := by
  match a with
  | .error e => exact ⟨c.groups, rfl⟩
  | .ok () => exact ⟨_, rfl⟩

/-- The group part touches the group ids and the supplementary groups only. -/
theorem switchGroups_eq (c : Cred) (gid : Option UInt32) (gids : Option (List UInt32))
    (a : SwitchAnswers) :
    ∃ ids groups, c.switchGroups gid gids a = { c with gids := ids, groups := groups } := by
  have hgid : ∃ ids, (gid.elim c fun gid => c.switchGid gid a.setgid) = { c with gids := ids } := by
    cases gid with
    | none => exact ⟨c.gids, rfl⟩
    | some gid => exact ⟨_, c.switchGid_eq gid a.setgid⟩
  obtain ⟨ids, hids⟩ := hgid
  unfold switchGroups
  rw [hids]
  cases gids with
  | none => exact ⟨ids, c.groups, rfl⟩
  | some l =>
    obtain ⟨groups, hgroups⟩ := setgroups_eq { c with gids := ids } l a.setgroups
    exact ⟨ids, groups, hgroups⟩

end Cred

/-- The three steps together are one switch of the credentials, on the kernel's three answers. -/
theorem applyGidUid_after {gid uid : Option UInt32} {gids : Option (List UInt32)}
    (hr : (applyGidUid gid uid gids).Runs h (.ok ())) (hl : credRules.Lawful c h) :
    ∃ a, credRules.after c h = c.switch gid uid gids a ∧ c.Answered gid uid gids a h := by
  obtain ⟨⟨⟩, h₁, _, hg, hr', rfl⟩ := runs_bind_ok.1 hr
  obtain ⟨⟨⟩, h₂, h₃, hs, hu, rfl⟩ := runs_bind_ok.1 hr'
  simp only [LocalRules.lawful_append] at hl
  obtain ⟨hl₁, hl₂, hl₃⟩ := hl
  rw [runs_whenSome_ok] at hg hs hu
  -- the group id
  have hgid : ∃ a, credRules.after c h₁ = (gid.elim c fun gid => c.switchGid gid a) ∧
      ∀ id, gid = some id → c.gidMap.report c.gids.real ≠ id →
        ⟨.setgid id, a⟩ ∈ h₁ ∧ c.allows (.setgid id) a := by
    cases gid with
    | none => exact ⟨.ok (), by rw [hg.2 rfl]; rfl, fun _ hno => by cases hno⟩
    | some gid =>
      -- The credentials are the same but for their group ids, so the groups are allowed as before
      obtain ⟨a, ha, hmem⟩ := applyGid_after (hg.1 gid rfl) hl₁
      exact ⟨a, ha, fun id hid hne => by cases hid; exact hmem hne⟩
  obtain ⟨a₁, ha₁, hmem₁⟩ := hgid
  have hsame : ∃ ids, credRules.after c h₁ = { c with gids := ids } := by
    rw [ha₁]
    cases gid with
    | none => exact ⟨c.gids, rfl⟩
    | some gid => exact ⟨_, c.switchGid_eq gid a₁⟩
  -- the supplementary groups
  have hgroups : ∃ a, credRules.after (credRules.after c h₁) h₂ =
        (gids.elim (credRules.after c h₁) fun l => (credRules.after c h₁).next (.setgroups l) a) ∧
      ∀ l, gids = some l → ⟨.setgroups l, a⟩ ∈ h₂ ∧ c.allows (.setgroups l) a := by
    cases gids with
    | none => exact ⟨.ok (), by rw [hs.2 rfl]; rfl, fun _ hno => by cases hno⟩
    | some l =>
      obtain ⟨a, h', rfl, hr''⟩ := runs_sys_bind.1 (hs.1 l rfl)
      obtain ⟨rfl, -⟩ := runs_pure.1 hr''
      have hallows := (LocalRules.lawful_cons.1 hl₂).1
      obtain ⟨ids, hids⟩ := hsame
      rw [hids] at hallows
      exact ⟨a, rfl, fun l' hl' => by cases hl'; exact ⟨by simp, by cases a <;> exact hallows⟩⟩
  obtain ⟨a₂, ha₂, hmem₂⟩ := hgroups
  have hstate : credRules.after (credRules.after c h₁) h₂ =
      c.switchGroups gid gids ⟨a₁, a₂, .ok ()⟩ := by
    rw [ha₂, ha₁]
    rfl
  obtain ⟨ids, groups, hsame₂⟩ := c.switchGroups_eq gid gids ⟨a₁, a₂, .ok ()⟩
  -- the user id
  have huid : ∃ a, credRules.after (credRules.after (credRules.after c h₁) h₂) h₃ =
        (uid.elim (credRules.after (credRules.after c h₁) h₂) fun uid =>
          (credRules.after (credRules.after c h₁) h₂).switchUid uid a) ∧
      ∀ id, uid = some id → c.uidMap.report c.uids.real ≠ id →
        ⟨.setuid id, a⟩ ∈ h₃ ∧ c.allows (.setuid id) a := by
    cases uid with
    | none => exact ⟨.ok (), by rw [hu.2 rfl]; rfl, fun _ hno => by cases hno⟩
    | some uid =>
      obtain ⟨a, ha, hmem⟩ := applyUid_after (hu.1 uid rfl) hl₃
      rw [hstate, hsame₂] at hmem
      refine ⟨a, ha, fun id hid hne => ?_⟩
      cases hid
      exact ⟨(hmem hne).1, by cases a <;> exact (hmem hne).2⟩
  obtain ⟨a₃, ha₃, hmem₃⟩ := huid
  refine ⟨⟨a₁, a₂, a₃⟩, ?_, ?_, ?_, ?_⟩
  · -- After the three steps the credentials are the switched ones
    rw [LocalRules.after_append, LocalRules.after_append, ha₃, hstate]
    rfl
  · -- Each call that was made was allowed by the credentials it was made from
    intro id hid hne
    exact ⟨List.mem_append_left _ (hmem₁ id hid hne).1, (hmem₁ id hid hne).2⟩
  · intro l hl
    exact ⟨List.mem_append_right _ (List.mem_append_left _ (hmem₂ l hl).1), (hmem₂ l hl).2⟩
  · intro id hid hne
    exact ⟨List.mem_append_right _ (List.mem_append_right _ (hmem₃ id hid hne).1),
      (hmem₃ id hid hne).2⟩

namespace Cred

variable (c : Cred) (gid uid : Option UInt32) (gids : Option (List UInt32)) (a : SwitchAnswers)

/-- The user ids after a switch are those of its last step. -/
theorem switch_uids :
    (c.switch gid uid gids a).uids = uid.elim c.uids fun id =>
      c.uids.switch c.uidMap (.setuid ∈ c.caps.effective) id a.setuid := by
  obtain ⟨ids, groups, hsame⟩ := c.switchGroups_eq gid gids a
  unfold switch
  rw [hsame]
  cases uid with
  | none => rfl
  | some id =>
    obtain ⟨caps, hcaps⟩ := switchUid_eq { c with gids := ids, groups := groups } id a.setuid
    exact congrArg Cred.uids hcaps

/-- The last step of a switch touches the user ids and the capabilities alone. -/
theorem switch_of_uid : ∃ uids caps, c.switch gid uid gids a =
    { c.switchGroups gid gids a with uids := uids, caps := caps } := by
  unfold switch
  cases uid with
  | none => exact ⟨_, _, rfl⟩
  | some id =>
    obtain ⟨caps, hcaps⟩ := (c.switchGroups gid gids a).switchUid_eq id a.setuid
    exact ⟨_, caps, hcaps⟩

/-- No switch of ids touches the securebits. -/
theorem switch_securebits : (c.switch gid uid gids a).securebits = c.securebits := by
  obtain ⟨uids, caps, huid⟩ := c.switch_of_uid gid uid gids a
  obtain ⟨ids, groups, hsame⟩ := c.switchGroups_eq gid gids a
  rw [huid, hsame]

/-- The group ids after a switch are those of its first step. -/
theorem switch_gids :
    (c.switch gid uid gids a).gids = gid.elim c.gids fun id =>
      c.gids.switch c.gidMap (.setgid ∈ c.caps.effective) id a.setgid := by
  obtain ⟨uids, caps, huid⟩ := c.switch_of_uid gid uid gids a
  rw [huid]
  show (c.switchGroups gid gids a).gids = _
  unfold switchGroups
  have hgid : (gid.elim c fun id => c.switchGid id a.setgid).gids = gid.elim c.gids fun id =>
      c.gids.switch c.gidMap (.setgid ∈ c.caps.effective) id a.setgid := by
    -- Neither the groups nor the user ids change the group ids
    cases gid with
    | none => rfl
    | some id => exact congrArg Cred.gids (c.switchGid_eq id a.setgid)
  cases gids with
  | none => exact hgid
  | some l =>
    obtain ⟨groups, hgroups⟩ :=
      setgroups_eq (gid.elim c fun id => c.switchGid id a.setgid) l a.setgroups
    exact (congrArg Cred.gids hgroups).trans hgid

/-- The groups after a switch are the requested ones, if the kernel took them. -/
theorem switch_groups :
    (c.switch gid uid gids a).groups = match gids, a.setgroups with
      | some l, .ok () => l.filterMap c.gidMap.toKernel
      | _, _ => c.groups := by
  obtain ⟨uids, caps, huid⟩ := c.switch_of_uid gid uid gids a
  rw [huid]
  show (c.switchGroups gid gids a).groups = _
  unfold switchGroups
  -- The group id does not change the groups
  have hgid : ∃ ids, (gid.elim c fun id => c.switchGid id a.setgid) = { c with gids := ids } := by
    cases gid with
    | none => exact ⟨c.gids, rfl⟩
    | some id => exact ⟨_, c.switchGid_eq id a.setgid⟩
  obtain ⟨ids, hids⟩ := hgid
  rw [hids]
  cases gids with
  | none => rfl
  | some l => cases a.setgroups <;> rfl

end Cred

/-! ## `preexec_prep` -/

/-- The call changes nothing but the capability sets. -/
def Call.capsOnly (call : Call) : Prop :=
  ∀ (c : Cred) (a : call.Answer), ∃ caps, c.next call a = { c with caps := caps }

/-- A call of another kind leaves the credentials as they are, capabilities included. -/
theorem capsOnly_of_kind {call : Call} (hk : call.kind ≠ .cred) : call.capsOnly :=
  fun c a => ⟨c.caps, c.next_of_kind a hk⟩

/-- Calls that touch the capability sets alone leave the rest of the credentials. -/
theorem after_capsOnly (c : Cred) (hh : ∀ e ∈ h, e.call.capsOnly) :
    ∃ caps, credRules.after c h = { c with caps := caps } := by
  induction h generalizing c with
  | nil => exact ⟨c.caps, rfl⟩
  | cons e h ih =>
    obtain ⟨caps, hnext⟩ := hh e List.mem_cons_self c e.answer
    obtain ⟨caps', hrest⟩ :=
      ih { c with caps := caps } fun e' he' => hh e' (List.mem_cons_of_mem e he')
    refine ⟨caps', ?_⟩
    rw [LocalRules.after_cons, show credRules.next c e.call e.answer = _ from hnext, hrest]

/-- Dropping a capability from the bounding set touches the capability sets alone. -/
theorem capsOnly_prCapbsetDrop (n : Nat) : (Call.prCapbsetDrop n).capsOnly := by
  intro c a
  match a with
  | .error e => exact ⟨c.caps, rfl⟩
  | .ok () => cases hn : capNumbered n <;> exact ⟨_, by simp [Cred.next, hn]; rfl⟩

/-- So does changing the ambient set. -/
theorem capsOnly_prCapAmbient (op : AmbientOp) (n : Nat) : (Call.prCapAmbient op n).capsOnly := by
  intro c a
  match a with
  | .error e => cases op <;> exact ⟨c.caps, rfl⟩
  | .ok () => cases op <;> cases hn : capNumbered n <;> exact ⟨_, by simp [Cred.next, hn]; rfl⟩

/-- So does setting the three capability words. -/
theorem capsOnly_capset (pid : Nat) (data : CapInternalData × CapInternalData) :
    (Call.capset pid data).capsOnly := by
  intro c a
  match a with
  | .error e => exact ⟨c.caps, rfl⟩
  | .ok () => exact ⟨_, rfl⟩

/-- Reading the capability words changes nothing. -/
theorem capsOnly_capget {pid : Nat} : (Call.capget pid).capsOnly := fun c _ => ⟨c.caps, rfl⟩

/-- Applying capabilities touches the capability sets alone, whatever is asked for. -/
theorem applyCapabilities_uses_capsOnly (capabilities : Option Capabilities) :
    (applyCapabilities capabilities).Uses Call.capsOnly := by
  have hnames : ∀ names, (Capabilities.namesAsBits names).Uses Call.capsOnly := fun names =>
    .bind (.check _ _) fun s => .bind (.sys (I := calls) (capsOnly_of_kind (by simp [Call.kind])))
      fun l => .pure _
  refine .whenSome fun caps _ => ?_
  -- The three lists of names are read first, then the sets are changed one after the other
  refine .bind ?_ fun current => .bind (hnames _) fun drops => .bind (hnames _) fun raises =>
    .bind (hnames _) fun ambient => .bind ?_ fun _ => .bind ?_ fun _ => .bind ?_ fun _ => ?_
  · exact .bind (.sys (I := calls) (capsOnly_of_kind (by simp [Call.kind]))) fun pid =>
      .bind (.sys (I := calls) capsOnly_capget) fun _ =>
        .bind (.mapErr (.check _ _)) fun _ => .pure _
  · exact .forM fun d _ => .when fun _ =>
      .mapErr (.bind (.sys (I := calls) (capsOnly_prCapbsetDrop _)) fun _ => .check _ _)
  · exact .bind (.sys (I := calls) (capsOnly_of_kind (by simp [Call.kind]))) fun pid =>
      .mapErr (.bind (.sys (I := calls) (capsOnly_capset _ _)) fun _ => .check _ _)
  · exact .forM fun d _ =>
      .mapErr (.bind (.sys (I := calls) (capsOnly_prCapAmbient _ _)) fun _ => .check _ _)
  · exact .forM fun d _ =>
      .mapErr (.bind (.sys (I := calls) (capsOnly_prCapAmbient _ _)) fun _ => .check _ _)

/-- The credentials after `preexec_prep`: the securebits are set, the ids switched, and the
    capability sets are some. -/
theorem preexecPrep_after {exec : ExecutableSpec} {capabilities : Option Capabilities}
    (hr : (preexecPrep exec capabilities).Runs h (.ok ())) (hl : credRules.Lawful c h) :
    ∃ a caps, credRules.after c h =
        { ({ c with securebits := SECBIT_NO_SETUID_FIXUP } : Cred).switch exec.gid exec.uid
          exec.supplementalGids a with caps := caps } ∧
      ({ c with securebits := SECBIT_NO_SETUID_FIXUP } : Cred).Answered exec.gid exec.uid
        exec.supplementalGids a h := by
  obtain ⟨u, h₁, rfl, hr₁⟩ := runs_sys_bind.1 hr
  obtain ⟨⟨⟩, h₂, _, hkeep, hr₂, rfl⟩ := runs_bind_ok.1 hr₁
  obtain ⟨⟨⟩, h₃, h₄, hswitch, hcaps, rfl⟩ := runs_bind_ok.1 hr₂
  obtain ⟨x, h₅, rfl, hcheck⟩ := runs_sys_bind.1 (runs_mapErr_ok.1 hkeep)
  obtain ⟨rfl, rfl⟩ := runs_check_ok.1 hcheck
  simp only [List.cons_append, List.nil_append, LocalRules.lawful_cons,
    LocalRules.lawful_append] at hl
  -- After the securebits the ids are switched, from the credentials with these set
  obtain ⟨-, -, hl₃, -⟩ := hl
  replace hl₃ : credRules.Lawful { c with securebits := SECBIT_NO_SETUID_FIXUP } h₃ := hl₃
  obtain ⟨a, ha, hans⟩ := applyGidUid_after hswitch hl₃
  -- And then only the capability sets change
  obtain ⟨caps, hrest⟩ := after_capsOnly
    (({ c with securebits := SECBIT_NO_SETUID_FIXUP } : Cred).switch exec.gid exec.uid
      exec.supplementalGids a)
    fun e he => (applyCapabilities_uses_capsOnly capabilities).mem (e := e) hcaps he
  refine ⟨a, caps, ?_, ⟨fun id hid hne => ?_, fun l hl => ?_, fun id hid hne => ?_⟩⟩
  · rw [← hrest, ← ha, ← LocalRules.after_append]
    rfl
  · exact ⟨by simp [(hans.setgid id hid hne).1], (hans.setgid id hid hne).2⟩
  · exact ⟨by simp [(hans.setgroups l hl).1], (hans.setgroups l hl).2⟩
  · exact ⟨by simp [(hans.setuid id hid hne).1], (hans.setuid id hid hne).2⟩

/-! ## Main theorems -/

/-- The identity that `exec` asks for, as far as it was to be had: `before` are the credentials
    when `preexec_prep` was entered, and `h` is the history since. A user or group id is switched
    where the real id did not read as the requested one: that was refused, or made all three ids
    the requested one, or, without the capability to, the effective one only. Where the real id
    read so the three ids are those of before. The supplementary groups are the requested ones
    unless that was refused. -/
structure ExecutableSpec.Identity (exec : ExecutableSpec) (before after : Cred)
    (h : List Event) : Prop where
  uid : ∀ id, exec.uid = some id → before.uidMap.report before.uids.real ≠ id →
    before.uids.Switched before.uidMap (.setuid ∈ before.caps.effective)
      (∃ e, ⟨.setuid id, .error e⟩ ∈ h) id after.uids
  uid_kept : ∀ id, exec.uid = some id → before.uidMap.report before.uids.real = id →
    after.uids = before.uids
  gid : ∀ id, exec.gid = some id → before.gidMap.report before.gids.real ≠ id →
    before.gids.Switched before.gidMap (.setgid ∈ before.caps.effective)
      (∃ e, ⟨.setgid id, .error e⟩ ∈ h) id after.gids
  gid_kept : ∀ id, exec.gid = some id → before.gidMap.report before.gids.real = id →
    after.gids = before.gids
  groups : ∀ l, exec.supplementalGids = some l →
    ((∃ e, ⟨.setgroups l, .error e⟩ ∈ h) ∧ after.groups = before.groups) ∨
      after.groups.map some = l.map before.gidMap.toKernel

/-- What `preexec_prep` leaves its caller with. -/
theorem preexecPrep_identity {exec : ExecutableSpec} {capabilities : Option Capabilities}
    (hr : (preexecPrep exec capabilities).Runs h (.ok ())) (hl : credRules.Lawful c h) :
    exec.Identity c (credRules.after c h) h := by
  obtain ⟨a, caps, hafter, hans⟩ := preexecPrep_after hr hl
  rw [hafter]
  constructor
  · -- An id that is requested and not there yet is asked for
    intro id hid hne
    show c.uids.Switched c.uidMap _ _ id (Cred.switch _ _ _ _ a).uids
    rw [Cred.switch_uids, hid]
    obtain ⟨hmem, hallows⟩ := hans.setuid id hid hne
    refine Ids.switched_of_ne hne (fun e he => ⟨e, he ▸ hmem⟩) fun he => ?_
    rw [he] at hallows
    exact hallows
  · -- An id that is there already is left alone
    intro id hid heq
    show (Cred.switch _ _ _ _ a).uids = c.uids
    rw [Cred.switch_uids, hid]
    exact if_pos heq
  · intro id hid hne
    show c.gids.Switched c.gidMap _ _ id (Cred.switch _ _ _ _ a).gids
    rw [Cred.switch_gids, hid]
    obtain ⟨hmem, hallows⟩ := hans.setgid id hid hne
    refine Ids.switched_of_ne hne (fun e he => ⟨e, he ▸ hmem⟩) fun he => ?_
    rw [he] at hallows
    exact hallows
  · intro id hid heq
    show (Cred.switch _ _ _ _ a).gids = c.gids
    rw [Cred.switch_gids, hid]
    exact if_pos heq
  · intro l hl
    show _ ∨ (Cred.switch _ _ _ _ a).groups.map some = _
    obtain ⟨hmem, hallows⟩ := hans.setgroups l hl
    cases hsg : a.setgroups with
    | error e =>
      refine .inl ⟨⟨e, hsg ▸ hmem⟩, ?_⟩
      show (Cred.switch _ _ _ _ a).groups = c.groups
      rw [Cred.switch_groups, hl, hsg]
    | ok u =>
      refine .inr ?_
      rw [hsg] at hallows
      rw [Cred.switch_groups, hl, hsg]
      -- every requested group is mapped, so none is left out
      have hall : ∀ gid ∈ l, (c.gidMap.toKernel gid).isSome := hallows.2
      clear hmem hl hallows
      show (l.filterMap c.gidMap.toKernel).map some = l.map c.gidMap.toKernel
      induction l with
      | nil => rfl
      | cons gid l ih =>
        obtain ⟨k, hk⟩ := Option.isSome_iff_exists.1 (hall gid List.mem_cons_self)
        rw [List.filterMap_cons, hk, List.map_cons, List.map_cons, hk,
          ih fun gid' hgid' => hall gid' (List.mem_cons_of_mem gid hgid')]

variable {r : Request} {root pid : Int} {s₀ : World} {cfg : Config calls Int World Err Unit}
  {c₀ : Cred} {program : String} {args env : List String} {k : Except Errno Unit → Sys Unit}

/-- The credentials at `execvpe` are those `preexec_prep` has left. -/
private theorem launch_cred {h₀ hq he : List Event}
    (hlaunch : Launch r h (.execvpe program args env) h₀ hq he) (hl : credRules.Lawful c₀ h) :
    credRules.Lawful c₀ hq ∧ credRules.after c₀ h = credRules.after c₀ hq := by
  -- What comes before the preparation, and what comes after, is no call about credentials
  have hk₀ : ∀ e ∈ h₀, e.call.kind ≠ .cred := by
    intro e he hk
    have hearly := hlaunch.before e he
    rw [hk] at hearly
    exact absurd hearly (by decide)
  have hk₁ : ∀ e ∈ he, e.call.kind ≠ .cred := by
    intro e hin hk
    obtain ⟨q, hq⟩ := hlaunch.after
    have hexec : e.call.kind ∈ _ := (ExecutableSpec.execute_uses _).mem (e := e) hq hin
    rw [hk] at hexec
    exact absurd hexec (by decide)
  obtain rfl := hlaunch.hist
  rw [LocalRules.lawful_append, LocalRules.lawful_append, cred_after_of_kind c₀ hk₀] at hl
  rw [LocalRules.after_append, LocalRules.after_append, cred_after_of_kind c₀ hk₀,
    cred_after_of_kind _ hk₁]
  exact ⟨hl.2.1, rfl⟩

/-- A workload is started by either `wrap` with the identity asked for, as far as it was to be
    had. -/
theorem wrap_identity (hr : (linuxCred c₀).Reachable root r.wrap s₀ cfg)
    (hproc : cfg.procs pid = some ⟨h, .call (I := calls) (.execvpe program args env) k⟩) :
    r.exec.Identity c₀ (credRules.after c₀ h) h := by
  obtain ⟨h₀, hq, he, hlaunch⟩ := Request.wrap_launch ⟨k, hr.reaches hproc⟩
  obtain ⟨hl, hafter⟩ := launch_cred hlaunch (cred_lawful hr hproc)
  have hid := preexecPrep_identity hlaunch.prep hl
  -- The calls of the preparation are calls of the whole history
  have hsub : ∀ e ∈ hq, e ∈ h := by
    intro e he'
    rw [hlaunch.hist]
    exact List.mem_append_right _ (List.mem_append_left _ he')
  rw [hafter]
  refine ⟨fun id hid' hne => ?_, hid.uid_kept, fun id hid' hne => ?_, hid.gid_kept, fun l hl' => ?_⟩
  · rcases hid.uid id hid' hne with ⟨⟨e, hm⟩, heq⟩ | hok
    · exact .inl ⟨⟨e, hsub _ hm⟩, heq⟩
    · exact .inr hok
  · rcases hid.gid id hid' hne with ⟨⟨e, hm⟩, heq⟩ | hok
    · exact .inl ⟨⟨e, hsub _ hm⟩, heq⟩
    · exact .inr hok
  · rcases hid.groups l hl' with ⟨⟨e, hm⟩, heq⟩ | hok
    · exact .inl ⟨⟨e, hsub _ hm⟩, heq⟩
    · exact .inr hok

/-- The root user without `CAP_SETUID`. -/
def Cred.withoutSetuid : Cred :=
  { Cred.root with
    caps := { Cred.root.caps with
      permitted := Cred.root.caps.permitted.erase .setuid
      effective := Cred.root.caps.effective.erase .setuid } }

/-- The root user switches to the requested user id: the ids reported as 0 became 1000. -/
theorem wrap_identity_root : ∃ cfg h k,
    (linuxCred .root).Reachable 1 (Request.create (.withUid [])).wrap .fresh cfg ∧
      cfg.procs 2 = some ⟨h, .call (I := calls) (.execvpe "/bin/true" ["/bin/true"] []) k⟩ ∧
      (CreateRequest.withUid []).exec.Identity .root (credRules.after .root h) h := by
  obtain ⟨cfg, h, k, hr, hproc⟩ := CreateRequest.comes_to_of_comesTo (credAnswers .root) (.withUid []) 1 2
    .fresh (.execvpe "/bin/true" ["/bin/true"] []) (by decide) (by decide)
  have hr' := linuxCred_of_under hr
  exact ⟨cfg, h, k, hr', hproc, wrap_identity (r := .create (.withUid [])) hr' hproc⟩

/-- Without `CAP_SETUID` the switch is refused, and the workload is started as root although
    user 1000 was requested. -/
theorem wrap_not_identity : ∃ cfg h k,
    (linuxCred .withoutSetuid).Reachable 1 (Request.create (.withUid [])).wrap .fresh cfg ∧
      cfg.procs 2 = some ⟨h, .call (I := calls) (.execvpe "/bin/true" ["/bin/true"] []) k⟩ ∧
      (CreateRequest.withUid []).exec.uid = some 1000 ∧
      (credRules.after .withoutSetuid h).uids = .all 0 := by
  obtain ⟨cfg, h, k, hr, hproc⟩ :=
    CreateRequest.comes_to_of_comesTo (credAnswers .withoutSetuid) (.withUid []) 1 2
      .fresh (.execvpe "/bin/true" ["/bin/true"] []) (by decide) (by decide)
  have hr' := linuxCred_of_under hr
  refine ⟨cfg, h, k, hr', hproc, rfl, ?_⟩
  obtain ⟨h₀, hq, he, hlaunch⟩ :=
    Request.wrap_launch (r := .create (.withUid [])) ⟨k, hr'.reaches hproc⟩
  obtain ⟨hl, hafter⟩ := launch_cred hlaunch (cred_lawful hr' hproc)
  rw [hafter]
  -- The workload has neither the capability nor a saved id to switch to
  rcases (preexecPrep_identity hlaunch.prep hl).uid 1000 rfl (by decide) with
    ⟨-, heq⟩ | ⟨hcap, -⟩ | ⟨-, hsaved, -⟩
  · exact heq
  · exact absurd hcap (by decide)
  · exact absurd hsaved (by decide)

/-- A workload is started by either `wrap` with exactly `SECBIT_NO_SETUID_FIXUP`, whatever the
    securebits were before. Whatever it then does with its capabilities, a change of its user
    ids takes none from it. -/
theorem wrap_securebits (hr : (linuxCred c₀).Reachable root r.wrap s₀ cfg)
    (hproc : cfg.procs pid = some ⟨h, .call (I := calls) (.execvpe program args env) k⟩) :
    (credRules.after c₀ h).securebits = SECBIT_NO_SETUID_FIXUP ∧
      ∀ later, Relation.ReflTransGen Cred.Later (credRules.after c₀ h) later →
        ∀ ids, (later.setUids ids).caps = later.caps := by
  obtain ⟨h₀, hq, he, hlaunch⟩ := Request.wrap_launch ⟨k, hr.reaches hproc⟩
  obtain ⟨hl, hafter⟩ := launch_cred hlaunch (cred_lawful hr hproc)
  obtain ⟨a, caps, hprep, -⟩ := preexecPrep_after hlaunch.prep hl
  have hbits : (credRules.after c₀ h).securebits = SECBIT_NO_SETUID_FIXUP := by
    rw [hafter, hprep]
    exact Cred.switch_securebits _ _ _ _ _
  refine ⟨hbits, fun later hs ids => Cred.setUids_caps ?_ ids⟩
  -- no step of the workload's takes the bit off
  induction hs with
  | refl =>
    rw [hbits]
    decide
  | tail _ hstep ih => exact hstep.noSetuidFixup ih

/-- The root user's workload is started with `SECBIT_NO_SETUID_FIXUP`. -/
theorem wrap_securebits_root : ∃ cfg h k,
    (linuxCred .root).Reachable 1 (Request.create (.simple [])).wrap .fresh cfg ∧
      cfg.procs 2 = some ⟨h, .call (I := calls) (.execvpe "/bin/true" ["/bin/true"] []) k⟩ ∧
      (credRules.after .root h).securebits = SECBIT_NO_SETUID_FIXUP := by
  obtain ⟨cfg, h, k, hr, hproc⟩ := CreateRequest.comes_to_of_comesTo (credAnswers .root) (.simple []) 1 2
    .fresh (.execvpe "/bin/true" ["/bin/true"] []) (by decide) (by decide)
  have hr' := linuxCred_of_under hr
  exact ⟨cfg, h, k, hr', hproc, (wrap_securebits (r := .create (.simple [])) hr' hproc).1⟩

/-- The bits were 0 before, and a workload that gives up root keeps its capabilities. -/
theorem wrap_not_securebits : ∃ cfg h k,
    (linuxCred .root).Reachable 1 (Request.create (.simple [])).wrap .fresh cfg ∧
      cfg.procs 2 = some ⟨h, .call (I := calls) (.execvpe "/bin/true" ["/bin/true"] []) k⟩ ∧
      (credRules.after .root h).securebits ≠ Cred.root.securebits ∧
      ((credRules.after .root h).setUids (.all 1000)).caps = (credRules.after .root h).caps := by
  obtain ⟨cfg, h, k, hr, hproc⟩ := CreateRequest.comes_to_of_comesTo (credAnswers .root) (.simple []) 1 2
    .fresh (.execvpe "/bin/true" ["/bin/true"] []) (by decide) (by decide)
  have hr' := linuxCred_of_under hr
  obtain ⟨h₀, hq, he, hlaunch⟩ :=
    Request.wrap_launch (r := .create (.simple [])) ⟨k, hr'.reaches hproc⟩
  obtain ⟨hl, hafter⟩ := launch_cred hlaunch (cred_lawful hr' hproc)
  obtain ⟨a, caps, hprep, -⟩ := preexecPrep_after hlaunch.prep hl
  have hbits : (credRules.after .root h).securebits = SECBIT_NO_SETUID_FIXUP := by
    rw [hafter, hprep]
    exact Cred.switch_securebits _ _ _ _ _
  refine ⟨cfg, h, k, hr', hproc, ?_, Cred.setUids_caps ?_ _⟩
  · -- Root has none of the securebits
    rw [hbits]
    decide
  · rw [hbits]
    decide

end Styrolite
