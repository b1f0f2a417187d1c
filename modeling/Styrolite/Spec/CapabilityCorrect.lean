import Styrolite.Spec.ConfinementCorrect
import Styrolite.Spec.Credentials

/-!
# Dropped capabilities

A capability that a request drops and does not raise is in none of the five sets
once `apply_capabilities` has succeeded, and never comes back. The bounding drop
is skipped for a name in `raise_ambient`, but then the ambient raise that follows
needs the capability in the permitted set, which `capset` has just taken it out
of: `apply_capabilities` fails.

## Key results

- `applyCapabilities_dropped`: the dropped capabilities are gone, and stay so
-/

namespace Styrolite

open Prog Kernel

/-! ## What the calls leave out -/

variable {c : Cred} {h : List Event} {d : CapabilityBit}

/-- No call adds to the bounding set. -/
theorem Cred.bounding_next (hd : d ∉ c.caps.bounding) (call : Call) (a : call.Answer) :
    d ∉ (c.next call a).caps.bounding := by
  -- By the call: only `prctl` changes the bounding set, and it takes out of it
  unfold Cred.next
  split
  · split
    · unfold Cred.setuid Cred.setUids
      split <;> exact hd
    · exact hd
  · split <;> exact hd
  · exact hd
  · exact hd
  · split
    · exact fun hin => hd (Finset.mem_of_mem_erase hin)
    · exact hd
  · split <;> exact hd
  · exact hd
  · exact hd

theorem bounding_after (hd : d ∉ c.caps.bounding) (h : List Event) :
    d ∉ (credRules.after c h).caps.bounding := by
  induction h generalizing c with
  | nil => exact hd
  | cons e h ih => exact ih (c.bounding_next hd e.call e.answer)

/-- A bounding capability that was dropped stays dropped. -/
theorem bounding_of_mem (hm : (⟨.prCapbsetDrop d.toCapNumber, .ok ()⟩ : Event) ∈ h) :
    d ∉ (credRules.after c h).caps.bounding := by
  obtain ⟨h₁, h₂, rfl⟩ := List.append_of_mem hm
  rw [LocalRules.after_append, LocalRules.after_cons]
  refine bounding_after ?_ h₂
  show d ∉ (Cred.next _ (.prCapbsetDrop d.toCapNumber) (.ok ())).caps.bounding
  simp [Cred.next, CapSets.dropBounding]

/-- The capability is in none of the sets but perhaps the bounding set. -/
structure Cred.Cleared (d : CapabilityBit) (c : Cred) : Prop where
  permitted : d ∉ c.caps.permitted
  effective : d ∉ c.caps.effective
  inheritable : d ∉ c.caps.inheritable
  ambient : d ∉ c.caps.ambient

/-- Ambient calls that are allowed keep a cleared capability cleared. -/
theorem Cred.Cleared.ambient_next (hc : c.Cleared d) {op : AmbientOp} {n : Nat}
    {a : Except Errno Unit} (ha : c.allows (.prCapAmbient op n) a) :
    (c.next (.prCapAmbient op n) a).Cleared d := by
  match op, a with
  | .lower, .error _ | .raise, .error _ => exact hc
  | .lower, .ok () =>
    cases hn : capNumbered n with
    | none => simpa [Cred.next, hn] using hc
    | some b =>
      have hnext : c.next (.prCapAmbient .lower n) (.ok ()) =
          { c with caps := c.caps.lowerAmbient b } := by simp [Cred.next, hn]
      rw [hnext]
      exact ⟨hc.permitted, hc.effective, hc.inheritable,
        fun hin => hc.ambient (Finset.mem_of_mem_erase hin)⟩
  | .raise, .ok () =>
    obtain ⟨-, b, hn, hmay⟩ := ha
    have hnext : c.next (.prCapAmbient .raise n) (.ok ()) =
        { c with caps := c.caps.raiseAmbient b } := by simp [Cred.next, Option.mem_def.1 hn]
    rw [hnext]
    refine ⟨hc.permitted, hc.effective, hc.inheritable, fun hin => ?_⟩
    -- only a permitted capability can be raised
    rcases Finset.mem_insert.1 hin with rfl | hin
    · exact hc.permitted hmay.1
    · exact hc.ambient hin

/-- The call is one on the ambient set. -/
def Call.onAmbient (call : Call) : Prop := ∃ op n, call = .prCapAmbient op n

theorem ambient_after (hc : c.Cleared d) (hl : credRules.Lawful c h)
    (hh : ∀ e ∈ h, e.call.onAmbient) : (credRules.after c h).Cleared d := by
  refine hl.preserves (J := Cred.Cleared d) (S := Call.onAmbient)
    (fun c call a hS hc ha => ?_) hh hc
  obtain ⟨op, n, rfl⟩ := hS
  exact hc.ambient_next ha

/-! ## `apply_capabilities` -/

theorem setCaps_runs {r : CapResult} (hr : (setCaps r).Runs h (.ok ())) :
    ∃ pid, h = [⟨.getpid, pid⟩, ⟨.capset pid (capResultToData r), .ok ()⟩] := by
  obtain ⟨pid, h', rfl, hr₁⟩ := runs_sys_bind.1 hr
  obtain ⟨a, h'', rfl, hr₂⟩ := runs_sys_bind.1 hr₁
  obtain ⟨rfl, rfl⟩ := runs_check_ok.1 (runs_mapErr_ok.1 hr₂)
  exact ⟨pid, rfl⟩

/-- `set_caps` takes a capability that is not in the new sets out of all but the bounding set. -/
theorem setCaps_clears {r : CapResult} (hr : (setCaps r).Runs h (.ok ()))
    (he : ¬ d.inMask r.effective) (hp : ¬ d.inMask r.permitted)
    (hi : ¬ d.inMask r.inheritable) : (credRules.after c h).Cleared d := by
  obtain ⟨pid, rfl⟩ := setCaps_runs hr
  show (Cred.next (Cred.next c .getpid pid) (.capset pid (capResultToData r)) (.ok ())).Cleared d
  -- The process's number comes before, which changes nothing
  have hnext : Cred.next (Cred.next c .getpid pid) (.capset pid (capResultToData r)) (.ok ()) =
      { c with
        caps := c.caps.capset (capsOf r.effective) (capsOf r.permitted)
          (capsOf r.inheritable) } := by
    simp [Cred.next]
  rw [hnext]
  refine ⟨?_, ?_, ?_, fun hin => ?_⟩
  · exact fun hin => hp (mem_capsOf.1 hin)
  · exact fun hin => he (mem_capsOf.1 hin)
  · exact fun hin => hi (mem_capsOf.1 hin)
  · -- What stays ambient is permitted
    exact hp (mem_capsOf.1 (Finset.mem_inter.1 (Finset.mem_inter.1 hin).2).1)

theorem lowerAmbient_uses (b : CapabilityBit) :
    (lowerAmbient b).Uses Call.onAmbient :=
  .mapErr (.bind (.sys (I := calls) ⟨_, _, rfl⟩) fun _ => .check _ _)

theorem raiseAmbientBit_uses (b : CapabilityBit) :
    (raiseAmbientBit b).Uses Call.onAmbient :=
  .mapErr (.bind (.sys (I := calls) ⟨_, _, rfl⟩) fun _ => .check _ _)

/-- An ambient raise that succeeds was one of a permitted capability. -/
theorem raise_not_cleared (hl : credRules.Lawful c h) (hc : c.Cleared d)
    (hh : ∀ e ∈ h, e.call.onAmbient) :
    (⟨.prCapAmbient .raise d.toCapNumber, .ok ()⟩ : Event) ∉ h := by
  intro hm
  obtain ⟨h₁, h₂, rfl⟩ := List.append_of_mem hm
  obtain ⟨hl₁, hl₂⟩ := LocalRules.lawful_append.1 hl
  have hc₁ := ambient_after hc hl₁ fun e he => hh e (List.mem_append_left _ he)
  obtain ⟨-, b, hb, hmay⟩ := (LocalRules.lawful_cons.1 hl₂).1
  rw [capNumbered_toCapNumber, Option.mem_some] at hb
  exact hc₁.permitted (hb ▸ hmay.1)

theorem apply_gone {caps : Capabilities} (hr : caps.apply.Runs h (.ok ()))
    (hl : credRules.Lawful c h) (hdrop : Capabilities.Names (caps.drop.getD []) d)
    (hraise : ¬ Capabilities.Names (caps.raise.getD []) d) :
    (credRules.after c h).caps.Gone d := by
  obtain ⟨current, h₀, _, -, hr₁, rfl⟩ := runs_bind_ok.1 hr
  obtain ⟨drops, h₁, _, hdrops, hr₂, rfl⟩ := runs_bind_ok.1 hr₁
  obtain ⟨raises, h₂, _, hraises, hr₃, rfl⟩ := runs_bind_ok.1 hr₂
  obtain ⟨ambient, h₃, _, -, hr₄, rfl⟩ := runs_bind_ok.1 hr₃
  obtain ⟨⟨⟩, h₄, _, hbound, hr₅, rfl⟩ := runs_bind_ok.1 hr₄
  obtain ⟨⟨⟩, h₅, _, hset, hr₆, rfl⟩ := runs_bind_ok.1 hr₅
  obtain ⟨⟨⟩, h₆, h₇, hlower, hup, rfl⟩ := runs_bind_ok.1 hr₆
  obtain ⟨sd, hsd, hmd⟩ := Capabilities.namesAsBits_done hdrops.ranIn
  obtain ⟨sr, hsr, hmr⟩ := Capabilities.namesAsBits_done hraises.ranIn
  have hd : d ∈ drops := (hmd d).2 ((Capabilities.namesAsSet_ok hsd d).2 hdrop)
  have hnr : d ∉ raises := fun hin => hraise ((Capabilities.namesAsSet_ok hsr d).1 ((hmr d).1 hin))
  simp only [LocalRules.lawful_append] at hl
  obtain ⟨-, -, -, -, -, -, hl₆, hl₇⟩ := hl
  simp only [LocalRules.after_append]
  generalize credRules.after (credRules.after (credRules.after (credRules.after c h₀) h₁) h₂) h₃ =
    c₁ at *
  -- `capset` clears the capability, and the ambient calls do not bring it back
  have hnew : ¬ d.inMask (newCaps current drops raises).effective := by
    simp [newCaps, CapabilityBit.inMask_setBits, CapabilityBit.inMask_clearBits, hd, hnr]
  have hc₅ : (credRules.after (credRules.after c₁ h₄) h₅).Cleared d :=
    setCaps_clears hset hnew hnew hnew
  have hu₆ : ∀ e ∈ h₆, e.call.onAmbient :=
    fun e he => (Uses.forM fun b _ => lowerAmbient_uses b).mem (e := e) hlower he
  have hu₇ : ∀ e ∈ h₇, e.call.onAmbient :=
    fun e he => (Uses.forM fun b _ => raiseAmbientBit_uses b).mem (e := e) hup he
  have hc₆ := ambient_after hc₅ hl₆ hu₆
  have hc₇ := ambient_after hc₆ hl₇ hu₇
  -- it was not to be raised, so the bounding drop was not skipped
  have hna : d ∉ ambient := by
    intro hin
    obtain ⟨a, hcall, hok⟩ := (hup.ranIn.forM d hin).bind
    rw [ranIn_check hok.mapErr] at hcall
    exact raise_not_cleared hl₇ hc₆ hu₇ (ranIn_sys hcall)
  obtain ⟨a, hcall, hok⟩ := ((hbound.ranIn.forM d hd).when ⟨hnr, hna⟩).bind
  rw [ranIn_check hok.mapErr] at hcall
  have hb₄ := bounding_of_mem (c := c₁) (ranIn_sys hcall)
  exact ⟨hc₇.permitted, hc₇.effective, hc₇.inheritable, hc₇.ambient,
    bounding_after (bounding_after (bounding_after hb₄ h₅) h₆) h₇⟩

/-- After `apply_capabilities` has succeeded, a capability that was named in `drop` and not in
    `raise` is in none of the five sets, and it is in neither the permitted nor the effective
    set after any later sequence of `execve`, `capset`, ambient raises and changes of user ids. -/
theorem applyCapabilities_dropped {caps : Capabilities} {c₀ : Cred}
    (hl : credRules.Lawful c₀ h) (hr : (applyCapabilities (some caps)).Runs h (.ok ()))
    (hdrop : Capabilities.Names (caps.drop.getD []) d)
    (hraise : ¬ Capabilities.Names (caps.raise.getD []) d) :
    (credRules.after c₀ h).caps.Gone d ∧
      ∀ later, Relation.ReflTransGen Cred.Later (credRules.after c₀ h) later →
        d ∉ later.caps.permitted ∧ d ∉ later.caps.effective := by
  have hgone := apply_gone hr hl hdrop hraise
  refine ⟨hgone, fun later hs => ?_⟩
  have hlater := hgone.of_later (hs.lift Cred.caps fun _ _ => Cred.Later.caps)
  exact ⟨hlater.permitted, hlater.effective⟩

/-- Drops everything but `KILL`. -/
def dropAll : Capabilities := { raise := some ["KILL"], raiseAmbient := none, drop := some ["all"] }

/-- The root user of the initial namespace loses `NET_RAW` through `ALL`. -/
theorem applyCapabilities_dropped_all :
    ∃ h, (applyCapabilities (some dropAll)).Runs h (.ok ()) ∧
      (credRules.after Cred.root h).caps.Gone .netRaw := by
  -- The run on root's answers
  have hrun := (applyCapabilities (some dropAll)).eval_runs (credAnswers Cred.root) []
  have hok : ((applyCapabilities (some dropAll)).eval (credAnswers Cred.root) []).2 = .ok () := by
    decide
  rw [hok] at hrun
  have hl := LocalRules.lawful_of_follows (credAnswers_allowed Cred.root)
    (eval_follows _ (applyCapabilities (some dropAll)) [])
  have hdrop : Capabilities.Names (dropAll.drop.getD []) .netRaw :=
    ⟨"all", List.mem_singleton_self _, .inr ⟨⟨_, rfl⟩, by decide⟩⟩
  -- `raise` names another capability
  have hraise : ¬ Capabilities.Names (dropAll.raise.getD []) .netRaw := by
    intro hnames
    obtain ⟨name, hname, hnamed⟩ := hnames
    obtain rfl : name = "KILL" := List.mem_singleton.1 hname
    rcases hnamed with hbit | ⟨⟨e, herr⟩, -⟩
    · exact absurd hbit (by decide)
    · have hkill : CapabilityBit.fromStr "KILL" = .ok .kill := by decide
      rw [hkill] at herr
      cases herr
  exact ⟨_, hrun, (applyCapabilities_dropped hl hrun hdrop hraise).1⟩

end Styrolite
