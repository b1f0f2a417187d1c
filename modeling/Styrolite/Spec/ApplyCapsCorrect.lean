import Styrolite.Spec.ApplyCaps

/-!
# The capabilities a request asks for

What `apply_capabilities` does to the sets of a process, and to the words it
hands to `capset(2)`. `raise_ambient` is not passed on to `capset`, so that a
capability of it that is dropped and not raised can no longer be made ambient.

## Key results

- `applyCapabilities_words`: the words passed to `capset`, bit by bit
- `applyCapabilities_agree`: only the sets that the lists stand for matter
- `applyCapabilities_raises_iff`: when `raise_ambient` takes effect
- `preexecPrep_transparent`: the switch of ids does not matter to it
-/

namespace Styrolite

open Prog LocalRules

/-! ## The words of `capset(2)` -/

/-- The call is no `capset(2)`. -/
def Call.notCapset (c : Call) : Prop := ∀ pid data, c ≠ .capset pid data

/-- The capability words that `get_caps` has read. -/
theorem getCaps_runs {h : List Event} {r : CapResult} (hr : getCaps.Runs h (.ok r)) :
    ∃ pid data, (⟨.capget pid, .ok data⟩ : Event) ∈ h ∧ r = capDataToResult data := by
  obtain ⟨pid, h₁, rfl, hr₁⟩ := runs_sys_bind.1 hr
  obtain ⟨a, h₂, rfl, hr₂⟩ := runs_sys_bind.1 hr₁
  obtain ⟨data, h₃, h₄, hcheck, hpure, rfl⟩ := runs_bind_ok.1 hr₂
  obtain ⟨rfl, rfl⟩ := runs_check_ok.1 (runs_mapErr_ok.1 hcheck)
  obtain ⟨rfl, hval⟩ := runs_pure.1 hpure
  cases hval
  exact ⟨pid, data, by simp, rfl⟩

/-- `set_caps` sets the words of the result it is given. -/
theorem setCaps_at {h : List Event} {r : CapResult} {pid : Nat}
    {data : CapInternalData × CapInternalData} (hat : (setCaps r).At h (.capset pid data)) :
    data = capResultToData r := by
  rcases at_sys_bind.1 hat with ⟨-, heq⟩ | ⟨pid', h₁, rfl, hat₁⟩
  · cases heq
  · rcases at_sys_bind.1 hat₁ with ⟨-, heq⟩ | ⟨a, h₂, rfl, hat₂⟩
    · cases heq
      rfl
    · exact absurd (at_mapErr.1 hat₂) not_at_check

/-- A call on the ambient set is not `capset(2)`. -/
theorem Call.onAmbient.notCapset {c : Call} (hc : c.onAmbient) : c.notCapset := by
  obtain ⟨op, n, rfl⟩ := hc
  intro pid data heq
  cases heq

/-- Where `apply_capabilities` calls `capset(2)` it passes the sets of `newCaps`. -/
theorem apply_at_capset {caps : Capabilities} {h : List Event} {pid : Nat}
    {data : CapInternalData × CapInternalData} (hat : caps.apply.At h (.capset pid data)) :
    ∃ h₀ h₁ h₂ h₃ current drops raises, h = h₀ ++ (h₁ ++ (h₂ ++ h₃)) ∧
      getCaps.Runs h₀ (.ok current) ∧
      (Capabilities.namesAsBits (caps.drop.getD [])).Runs h₁ (.ok drops) ∧
      (Capabilities.namesAsBits (caps.raise.getD [])).Runs h₂ (.ok raises) ∧
      data = capResultToData (newCaps current drops raises) := by
  -- No part but `setCaps` makes the call
  have hno : ∀ {α : Type} {p : Sys α} {h : List Event}, p.Uses Call.notCapset →
      ¬ p.At h (.capset pid data) := fun hp hat => hp _ _ hat pid data rfl
  have hget : getCaps.Uses Call.notCapset :=
    .bind (.sys (I := calls) (by simp [Call.notCapset])) fun _ =>
      .bind (.sys (I := calls) (by simp [Call.notCapset])) fun _ =>
        .bind (.mapErr (.check _ _)) fun _ => .pure _
  have hnames : ∀ names, (Capabilities.namesAsBits names).Uses Call.notCapset := fun names =>
    .bind (.check _ _) fun _ => .bind (.sys (I := calls) (by simp [Call.notCapset])) fun _ => .pure _
  have hdrop : ∀ d, (dropBounding d).Uses Call.notCapset := fun d =>
    .bind (.sys (I := calls) (by simp [Call.notCapset])) fun _ => .mapErr (.check _ _)
  -- What is read before the call stays apart, what is done after it cannot be where it is
  rcases at_bind.1 hat with hin | ⟨current, h₀, _, hr₀, hat₁, rfl⟩
  · exact absurd hin (hno hget)
  rcases at_bind.1 hat₁ with hin | ⟨drops, h₁, _, hr₁, hat₂, rfl⟩
  · exact absurd hin (hno (hnames _))
  rcases at_bind.1 hat₂ with hin | ⟨raises, h₂, h₃, hr₂, hat₃, rfl⟩
  · exact absurd hin (hno (hnames _))
  refine ⟨h₀, h₁, h₂, h₃, current, drops, raises, rfl, hr₀, hr₁, hr₂, ?_⟩
  rcases at_bind.1 hat₃ with hin | ⟨order, h₄, h₅, -, hat₄, rfl⟩
  · exact absurd hin (hno (hnames _))
  rcases at_bind.1 hat₄ with hin | ⟨⟨⟩, h₆, h₇, -, hat₅, rfl⟩
  · exact absurd hin (hno (.forM fun d _ => .when fun _ => hdrop d))
  rcases at_bind.1 hat₅ with hin | ⟨⟨⟩, h₈, h₉, -, hat₆, rfl⟩
  · exact setCaps_at hin
  rcases at_bind.1 hat₆ with hin | ⟨⟨⟩, h₁₀, h₁₁, -, hat₇, rfl⟩
  · refine absurd hin (hno (.forM fun d _ => (lowerAmbient_uses d).mono fun _ => ?_))
    exact Call.onAmbient.notCapset
  · refine absurd hat₇ (hno (.forM fun d _ => (raiseAmbientBit_uses d).mono fun _ => ?_))
    exact Call.onAmbient.notCapset

/-- Bit `n` of the words that `apply_capabilities` passes to `capset(2)`, in each of the three
    sets, is set if and only if `raise` names the capability with that number, or `capget(2)` had
    reported it in the effective set and `drop` does not name it. -/
theorem applyCapabilities_words {caps : Capabilities} {h : List Event} {pid : Nat}
    {data : CapInternalData × CapInternalData}
    (hat : (applyCapabilities (some caps)).At h (.capset pid data)) :
    ∃ pid' read, (⟨.capget pid', .ok read⟩ : Event) ∈ h ∧ ∀ n < 64, ∀ set,
      set = CapInternalData.effective ∨ set = CapInternalData.permitted ∨
        set = CapInternalData.inheritable →
      ((set (capWord data (n / 32))).getLsbD (n % 32) = true ↔
        Capabilities.NamesBit (caps.raise.getD []) n ∨
          (capWord read (n / 32)).effective.getLsbD (n % 32) = true ∧
            ¬ Capabilities.NamesBit (caps.drop.getD []) n) := by
  obtain ⟨h₀, h₁, h₂, h₃, current, drops, raises, rfl, hr₀, hr₁, hr₂, rfl⟩ := apply_at_capset hat
  obtain ⟨pid', read, hmem, rfl⟩ := getCaps_runs hr₀
  exact ⟨pid', read, List.mem_append_left _ hmem, capset_words
    (Capabilities.mem_of_namesAsBits hr₁.ranIn) (Capabilities.mem_of_namesAsBits hr₂.ranIn) read⟩

/-- A call to `capset(2)` in a run of a request that drops all but `KILL`. -/
theorem applyCapabilities_words_dropAll :
    ∃ h pid data, (applyCapabilities (some dropAll)).At h (.capset pid data) ∧
      ∃ pid' read, (⟨.capget pid', .ok read⟩ : Event) ∈ h ∧
        ((capWord data (5 / 32)).effective.getLsbD (5 % 32) = true ↔
          Capabilities.NamesBit ["KILL"] 5 ∨
            (capWord read (5 / 32)).effective.getLsbD (5 % 32) = true ∧
              ¬ Capabilities.NamesBit ["all"] 5) := by
  -- The run on root's credentials comes to the call
  have hrun := (applyCapabilities (some dropAll)).eval_runs (credAnswers Cred.root) []
  have hany : ((applyCapabilities (some dropAll)).eval (credAnswers Cred.root) []).1.any
      (fun e => match e.call with | .capset _ _ => true | _ => false) = true := by
    decide
  obtain ⟨⟨c, a⟩, hmem, hc⟩ := List.any_eq_true.1 hany
  obtain ⟨h, h', hsplit⟩ := List.append_of_mem hmem
  rw [hsplit] at hrun
  have hat := hrun.at_of_split
  cases c with
  | capset pid data =>
    obtain ⟨pid', read, hread, hbits⟩ := applyCapabilities_words hat
    exact ⟨h, pid, data, hat, pid', read, hread, hbits 5 (by decide) _ (.inl rfl)⟩
  | _ => cases hc

/-! ## Only the sets matter -/

namespace Capabilities

/-- The lists of the request are made of known names. -/
def AllKnown (caps : Capabilities) : Prop :=
  Known (caps.drop.getD []) ∧ Known (caps.raise.getD []) ∧ Known (caps.raiseAmbient.getD [])

/-- Lists of known names denote sets. -/
theorem AllKnown.denotes {caps : Capabilities} (hk : caps.AllKnown) :
    ∃ drops raises ambient, caps.Denotes drops raises ambient := by
  obtain ⟨drops, hd⟩ := hk.1.namesAsSet
  obtain ⟨raises, hr⟩ := hk.2.1.namesAsSet
  obtain ⟨ambient, ha⟩ := hk.2.2.namesAsSet
  exact ⟨drops, raises, ambient, hd, hr, ha⟩

/-- Lists that denote sets have known names only. -/
theorem Denotes.allKnown {caps : Capabilities} {drops raises ambient : Finset CapabilityBit}
    (hs : caps.Denotes drops raises ambient) : caps.AllKnown :=
  ⟨known_of_namesAsSet hs.1, known_of_namesAsSet hs.2.1, known_of_namesAsSet hs.2.2⟩

/-- The lists of the two requests name the same capabilities. -/
def SameSets (caps caps' : Capabilities) : Prop :=
  ∀ d, (Names (caps.drop.getD []) d ↔ Names (caps'.drop.getD []) d) ∧
    (Names (caps.raise.getD []) d ↔ Names (caps'.raise.getD []) d) ∧
    (Names (caps.raiseAmbient.getD []) d ↔ Names (caps'.raiseAmbient.getD []) d)

/-- Two requests that denote the same sets name the same capabilities. -/
theorem Denotes.sameSets {caps caps' : Capabilities} {drops raises ambient : Finset CapabilityBit}
    (hs : caps.Denotes drops raises ambient) (hs' : caps'.Denotes drops raises ambient) :
    caps.SameSets caps' := by
  intro d
  rw [← namesAsSet_ok hs.1, ← namesAsSet_ok hs'.1, ← namesAsSet_ok hs.2.1, ← namesAsSet_ok hs'.2.1,
    ← namesAsSet_ok hs.2.2, ← namesAsSet_ok hs'.2.2]
  exact ⟨Iff.rfl, Iff.rfl, Iff.rfl⟩

/-- Known names that name the same capabilities stand for the same set. -/
theorem namesAsSet_congr {names names' : List String} (hk : Known names) (hk' : Known names')
    (hsame : ∀ d, Names names d ↔ Names names' d) :
    Capabilities.namesAsSet names = Capabilities.namesAsSet names' := by
  obtain ⟨s, hs⟩ := hk.namesAsSet
  obtain ⟨s', hs'⟩ := hk'.namesAsSet
  rw [hs, hs']
  congr 1
  ext d
  rw [namesAsSet_ok hs, namesAsSet_ok hs', hsame d]

end Capabilities

section

variable {caps caps' : Capabilities} {c : Cred} {h h' : List Event} {r r' : Outcome Err Unit}

/-- Two runs of `apply_capabilities` from the same credentials, for requests whose lists name the
    same capabilities and with any iteration orders of the hash sets, come to the same verdict,
    and to the same five sets if that is good. -/
theorem applyCapabilities_agree (hknown : caps.AllKnown) (hknown' : caps'.AllKnown)
    (hsame : caps.SameSets caps') (hl : exactRules.Lawful c h) (hl' : exactRules.Lawful c h')
    (hr : (applyCapabilities (some caps)).Runs h r)
    (hr' : (applyCapabilities (some caps')).Runs h' r') :
    (r = .ok () ↔ r' = .ok ()) ∧
      (r = .ok () → (exactRules.after c h).caps = (exactRules.after c h').caps) := by
  -- Names that denote the same sets do so in any order
  have hdenotes : ∀ d r a, caps.Denotes d r a ↔ caps'.Denotes d r a := by
    intro d r a
    unfold Capabilities.Denotes
    rw [Capabilities.namesAsSet_congr hknown.1 hknown'.1 fun d => (hsame d).1,
      Capabilities.namesAsSet_congr hknown.2.1 hknown'.2.1 fun d => (hsame d).2.1,
      Capabilities.namesAsSet_congr hknown.2.2 hknown'.2.2 fun d => (hsame d).2.2]
  -- Each run comes to what its orders say, and these agree
  obtain ⟨ok, hok, hcomes⟩ := apply_comesTo hl hr
  obtain ⟨ok', hok', hcomes'⟩ := apply_comesTo hl' hr'
  obtain ⟨hverdict, hcaps⟩ := hcomes.agree hdenotes hcomes'
  refine ⟨?_, fun hgood => hcaps (.inl (hok.2 hgood))⟩
  rw [← hok, ← hok', hverdict]

end

/-- The same capabilities, spelled and ordered in two ways. -/
theorem applyCapabilities_agree_spelling :
    ∃ h h', (applyCapabilities (some ⟨none, none, some ["KILL", "NET_RAW"]⟩)).Runs h (.ok ()) ∧
      (applyCapabilities (some ⟨none, none, some ["CAP_NET_RAW", "kill", "KILL"]⟩)).Runs h'
        (.ok ()) ∧
      (exactRules.after Cred.root h).caps = (exactRules.after Cred.root h').caps := by
  have hlawful : ∀ p : Sys Unit, exactRules.Lawful Cred.root (p.eval (credAnswers Cred.root) []).1 :=
    fun p => lawful_of_follows (credAnswers_exact Cred.root) (eval_follows _ p [])
  -- Both requests denote the same sets
  have hsets : Capabilities.Denotes ⟨none, none, some ["KILL", "NET_RAW"]⟩
      {.netRaw, .kill} ∅ ∅ :=
    ⟨rfl, rfl, rfl⟩
  have hsets' : Capabilities.Denotes ⟨none, none, some ["CAP_NET_RAW", "kill", "KILL"]⟩
      {.netRaw, .kill} ∅ ∅ := by
    rw [Finset.pair_comm]
    exact ⟨rfl, rfl, rfl⟩
  have hrun := eval_runs (credAnswers Cred.root)
    (applyCapabilities (some ⟨none, none, some ["KILL", "NET_RAW"]⟩)) []
  have hrun' := eval_runs (credAnswers Cred.root)
    (applyCapabilities (some ⟨none, none, some ["CAP_NET_RAW", "kill", "KILL"]⟩)) []
  -- One run is computed; the other agrees with it
  have hok : ((applyCapabilities (some ⟨none, none, some ["KILL", "NET_RAW"]⟩)).eval
      (credAnswers Cred.root) []).2 = .ok () := by
    decide
  rw [hok] at hrun
  obtain ⟨hverdict, hcaps⟩ := applyCapabilities_agree hsets.allKnown hsets'.allKnown
    (hsets.sameSets hsets') (hlawful _) (hlawful _) hrun hrun'
  rw [hverdict.1 rfl] at hrun'
  exact ⟨_, _, hrun, hrun', hcaps rfl⟩

/-! ## Ambient capabilities -/

/-- The process has every capability, and may raise ambient ones. -/
structure Cred.Full (c : Cred) : Prop where
  permitted : ∀ d, d ∈ c.caps.permitted
  effective : ∀ d, d ∈ c.caps.effective
  bounding : ∀ d, d ∈ c.caps.bounding
  mayRaise : hasBits c.securebits SECBIT_NO_CAP_AMBIENT_RAISE = false

/-- What the request asks of the capability sets. -/
structure Capabilities.Effective (caps : Capabilities) (s : CapSets CapabilityBit) : Prop where
  ambient : ∀ d, Names (caps.raiseAmbient.getD []) d →
    d ∈ s.ambient ∧ d ∈ s.permitted ∧ d ∈ s.inheritable
  raise : ∀ d, Names (caps.raise.getD []) d → d ∈ s.permitted ∧ d ∈ s.effective
  drop : ∀ d, Names (caps.drop.getD []) d → ¬ Names (caps.raise.getD []) d →
    ¬ Names (caps.raiseAmbient.getD []) d → s.Gone d

section

variable {c : Cred} {drops raises : Finset CapabilityBit} {order : List CapabilityBit}

/-- From full sets only the ambient raises can fail: those of a capability that has been dropped
    and not raised. -/
theorem Cred.Full.applied (hc : c.Full) :
    c.applied drops raises order =
      let bound := drops \ (raises ∪ order.toFinset)
      let new := (c.caps.effective \ drops) ∪ raises
      let s := ((c.caps.dropAll bound).capset new new new).lowerAll drops
      let raised := order.takeWhile (fun d => decide (d ∉ drops ∨ d ∈ raises))
      (decide (raised = order), s.raiseAll raised.toFinset) := by
  -- What may be raised is what `capset` has put into both sets
  have hmay : ∀ s : CapSets CapabilityBit, s.permitted = (c.caps.effective \ drops) ∪ raises →
      s.inheritable = (c.caps.effective \ drops) ∪ raises →
      (fun d => decide ((c.withCaps s).mayRaise d)) =
        fun d => decide (d ∉ drops ∨ d ∈ raises) := by
    intro s hp hi
    funext d
    refine decide_eq_decide.2 ?_
    show hasBits c.securebits _ = false ∧ d ∈ s.permitted ∧ d ∈ s.inheritable ↔ _
    rw [hp, hi]
    simp [hc.mayRaise, hc.effective d]
  unfold Cred.applied
  dsimp only
  rw [if_neg, if_neg]
  · -- What may be raised is what was kept or raised
    rw [hmay _ rfl rfl]
  · -- `capset` may put any capability into the sets that is left in the bounding set
    refine not_not.2 ⟨.inl (hc.effective _), fun d hd => ?_, fun d _ => hc.permitted d,
      fun d hd => hd⟩
    refine Finset.mem_union_right _ (Finset.mem_sdiff.2 ⟨hc.bounding d, fun hbound => ?_⟩)
    simp only [Finset.mem_sdiff, Finset.mem_union, not_or] at hbound hd
    rcases hd with hd | hd
    · exact hd.2 hbound.1
    · exact hbound.2.1 hd
  · -- `CAP_SETPCAP` is in the full set
    exact fun hcap => hcap.2 (hc.effective _)

variable {caps : Capabilities}

/-- Once the ambient raises have succeeded the request is fulfilled. -/
theorem Cred.Full.effective_applied (hc : c.Full)
    (hsets : caps.Denotes drops raises order.toFinset)
    (hraise : ∀ d ∈ order, d ∉ drops ∨ d ∈ raises) :
    (c.applied drops raises order).1 = true ∧
      caps.Effective (c.applied drops raises order).2 := by
  -- No ambient raise fails, so the whole order is raised
  have htake : order.takeWhile (fun d => decide (d ∉ drops ∨ d ∈ raises)) = order :=
    List.takeWhile_eq_self_iff.2 fun d hd => decide_eq_true (hraise d hd)
  have hd := Capabilities.namesAsSet_ok hsets.1
  have hr := Capabilities.namesAsSet_ok hsets.2.1
  have ha := Capabilities.namesAsSet_ok hsets.2.2
  rw [hc.applied]
  dsimp only
  rw [htake]
  refine ⟨decide_eq_true rfl, fun d hname => ?_, fun d hname => ?_, fun d hname hno hno' => ?_⟩
  · -- A capability of `raise_ambient`
    have hin := (ha d).2 hname
    have hnew : d ∈ (c.caps.effective \ drops) ∪ raises := by
      simpa [hc.effective d] using hraise d (List.mem_toFinset.1 hin)
    exact ⟨Finset.mem_union_right _ hin, hnew, hnew⟩
  · -- A capability of `raise`
    have hnew : d ∈ (c.caps.effective \ drops) ∪ raises :=
      Finset.mem_union_right _ ((hr d).2 hname)
    exact ⟨hnew, hnew⟩
  · -- A capability of `drop` that neither of the others names
    have hin := (hd d).2 hname
    have hnr : d ∉ raises := fun hin => hno ((hr d).1 hin)
    have hna : d ∉ order.toFinset := fun hin => hno' ((ha d).1 hin)
    have hnew : d ∉ (c.caps.effective \ drops) ∪ raises := by
      simp [hin, hnr]
    refine ⟨hnew, hnew, hnew, fun hambient => ?_, fun hbound => ?_⟩
    · rcases Finset.mem_union.1 hambient with hlow | hup
      · exact (Finset.mem_sdiff.1 hlow).2 hin
      · exact hna hup
    · refine (Finset.mem_sdiff.1 hbound).2 (Finset.mem_sdiff.2 ⟨hin, fun hkeep => ?_⟩)
      rcases Finset.mem_union.1 hkeep with hkeep | hkeep
      · exact hnr hkeep
      · exact hna hkeep

/-- From full sets, a request of known names is fulfilled by `apply_capabilities` if and only if
    every capability that it wants to be ambient and drops is also in `raise`. -/
theorem applyCapabilities_raises_iff {h : List Event} {r : Outcome Err Unit} (hc : c.Full)
    (hknown : caps.AllKnown) (hl : exactRules.Lawful c h)
    (hr : (applyCapabilities (some caps)).Runs h r) :
    (r = .ok () ∧ caps.Effective (exactRules.after c h).caps) ↔
      ∀ d, Capabilities.Names (caps.raiseAmbient.getD []) d →
        Capabilities.Names (caps.drop.getD []) d → Capabilities.Names (caps.raise.getD []) d := by
  obtain ⟨drops, raises, ambient, hsets⟩ := hknown.denotes
  obtain ⟨ok, hok, hcomes⟩ := apply_comesTo hl hr
  -- Any orders of the hash sets may have come up
  generalize h.filterMap hashOrder = orders at hcomes
  generalize (exactRules.after c h).caps = s at hcomes ⊢
  cases hcomes with
  | unknown hno => exact absurd hsets (hno _ _ _)
  | @applied ds rs order hnodup hsets =>
    have hd := Capabilities.namesAsSet_ok hsets.1
    have hr := Capabilities.namesAsSet_ok hsets.2.1
    have ha := Capabilities.namesAsSet_ok hsets.2.2
    -- The condition on names is one on the sets they denote
    have hcond : (∀ d ∈ order, d ∉ ds.toFinset ∨ d ∈ rs.toFinset) ↔
        ∀ d, Capabilities.Names (caps.raiseAmbient.getD []) d →
          Capabilities.Names (caps.drop.getD []) d → Capabilities.Names (caps.raise.getD []) d := by
      simp only [← hd, ← hr, ← ha, List.mem_toFinset, imp_iff_not_or]
    rw [← hcond]
    constructor
    · intro hgood d hin
      -- An order whose raises all succeed is left whole by `takeWhile`
      have hfst := hok.2 hgood.1
      rw [hc.applied] at hfst
      have htake := List.takeWhile_eq_self_iff.1 (of_decide_eq_true hfst) d hin
      exact of_decide_eq_true htake
    · intro hraise
      obtain ⟨hfst, heff⟩ := hc.effective_applied hsets hraise
      exact ⟨hok.1 hfst, heff⟩

end

/-- The answers under which a capability call fails only where it has to are lawful. -/
theorem exact_eval_lawful (c : Cred) (p : Sys Unit) :
    exactRules.Lawful c (p.eval (credAnswers c) []).1 :=
  lawful_of_follows (credAnswers_exact c) (eval_follows _ p [])

/-- Root has the full sets. -/
theorem Cred.root_full : Cred.root.Full where
  permitted d := List.mem_toFinset.2 d.mem_all
  effective d := List.mem_toFinset.2 d.mem_all
  bounding d := List.mem_toFinset.2 d.mem_all
  mayRaise := by decide

/-- `NET_ADMIN` is raised, made ambient, and dropped with all the others. -/
theorem applyCapabilities_raises_netAdmin :
    ∃ h, (applyCapabilities (some ⟨some ["NET_ADMIN"], some ["NET_ADMIN"], some ["ALL"]⟩)).Runs h
        (.ok ()) ∧
      Capabilities.Effective ⟨some ["NET_ADMIN"], some ["NET_ADMIN"], some ["ALL"]⟩
        (exactRules.after Cred.root h).caps := by
  have hrun := eval_runs (credAnswers Cred.root)
    (applyCapabilities (some ⟨some ["NET_ADMIN"], some ["NET_ADMIN"], some ["ALL"]⟩)) []
  have hsets : Capabilities.Denotes ⟨some ["NET_ADMIN"], some ["NET_ADMIN"], some ["ALL"]⟩
      (∅ ∪ CapabilityBit.all.toFinset) {.netAdmin} {.netAdmin} := ⟨rfl, rfl, rfl⟩
  obtain ⟨hok, heff⟩ := (applyCapabilities_raises_iff Cred.root_full hsets.allKnown
    (exact_eval_lawful _ _) hrun).2 fun d hambient _ => hambient
  rw [hok] at hrun
  exact ⟨_, hrun, heff⟩

/-- Where `NET_ADMIN` is not raised as well, dropping it makes the ambient raise fail. -/
theorem applyCapabilities_ambient_lost :
    ∃ h r, Cred.root.Full ∧ Capabilities.AllKnown ⟨none, some ["NET_ADMIN"], some ["ALL"]⟩ ∧
      exactRules.Lawful Cred.root h ∧
      (applyCapabilities (some ⟨none, some ["NET_ADMIN"], some ["ALL"]⟩)).Runs h r ∧
      ¬ (r = .ok () ∧ Capabilities.Effective ⟨none, some ["NET_ADMIN"], some ["ALL"]⟩
        (exactRules.after Cred.root h).caps) := by
  have hsets : Capabilities.Denotes ⟨none, some ["NET_ADMIN"], some ["ALL"]⟩
      (∅ ∪ CapabilityBit.all.toFinset) ∅ {.netAdmin} := ⟨rfl, rfl, rfl⟩
  refine ⟨_, _, Cred.root_full, hsets.allKnown, exact_eval_lawful _ _,
    eval_runs (credAnswers Cred.root) _ [], fun hgood => ?_⟩
  have hfails : ((applyCapabilities (some ⟨none, some ["NET_ADMIN"], some ["ALL"]⟩)).eval
      (credAnswers Cred.root) []).2 ≠ .ok () := by
    decide
  exact hfails hgood.1

/-! ## The switch of ids -/

section

variable {c : Cred} {o : List (List CapabilityBit)}

/-- `set_keep_caps` sets the securebits, if the kernel lets the process. -/
theorem setKeepCaps_ends : orderedRules.Ends (c, o) setKeepCaps
    (fun _ s => c.maySetSecurebits SECBIT_NO_SETUID_FIXUP ∧
      s = ({ c with securebits := SECBIT_NO_SETUID_FIXUP }, o))
    fun s => ¬ c.maySetSecurebits SECBIT_NO_SETUID_FIXUP ∧ s = (c, o) := by
  refine .mapErr (.bind (.sys (I := calls) fun a ha => ?_))
  cases a with
  | ok u =>
    refine .check (fun x _ => ⟨ha.1, ?_⟩) fun e he => by cases he
    simp [record, exactRules, Cred.next, hashOrder]
  | error e =>
    refine .check (fun x hx => by cases hx) fun _ _ => ⟨ha.2, ?_⟩
    simp [record, exactRules, Cred.next, hashOrder]

/-- The call is one on the ids of the process. -/
def Call.onIds : Call → Prop
  | .getuid | .getgid | .setuid _ | .setgid _ | .setgroups _ => True
  | _ => False

/-- Where the kernel makes no fixups, a call on ids leaves the capability sets alone. -/
theorem Cred.next_onIds (hfix : hasBits c.securebits SECBIT_NO_SETUID_FIXUP) {call : Call}
    (hcall : call.onIds) (a : call.Answer) :
    (c.next call a).caps = c.caps ∧ (c.next call a).securebits = c.securebits := by
  unfold Cred.next
  split
  · split
    · exact ⟨Cred.setUids_caps hfix _, rfl⟩
    · exact ⟨rfl, rfl⟩
  · split <;> exact ⟨rfl, rfl⟩
  · exact ⟨rfl, rfl⟩
  · exact hcall.elim
  · exact hcall.elim
  · exact hcall.elim
  · exact hcall.elim
  · exact ⟨rfl, rfl⟩

/-- The credentials have the capability sets and the securebits of `c`, and no iteration order has
    been recorded since. -/
def Cred.SameCaps (c : Cred) (o : List (List CapabilityBit))
    (s : Cred × List (List CapabilityBit)) : Prop :=
  s.1.caps = c.caps ∧ s.1.securebits = c.securebits ∧ s.2 = o

variable {s : Cred × List (List CapabilityBit)}

/-- With the bit set, a call on ids leaves the capabilities as they are. -/
theorem Cred.SameCaps.next (hfix : hasBits c.securebits SECBIT_NO_SETUID_FIXUP)
    (hs : c.SameCaps o s) (call : Call) (hcall : call.onIds) (a : call.Answer) :
    c.SameCaps o (orderedRules.next s call a) := by
  obtain ⟨hcaps, hbits, horder⟩ := hs
  have hfix' : hasBits s.1.securebits SECBIT_NO_SETUID_FIXUP = true := by
    rw [hbits]
    exact hfix
  obtain ⟨hcaps', hbits'⟩ := Cred.next_onIds hfix' hcall a
  have hnone : hashOrder ⟨call, a⟩ = none := by
    cases call <;> first | rfl | exact hcall.elim
  refine ⟨hcaps'.trans hcaps, hbits'.trans hbits, ?_⟩
  show s.2 ++ (hashOrder ⟨call, a⟩).toList = o
  rw [hnone, horder]
  exact List.append_nil o

/-- Applying a group id leaves them, and cannot fail. -/
theorem applyGid_ends (hfix : hasBits c.securebits SECBIT_NO_SETUID_FIXUP) (hs : c.SameCaps o s)
    (gid : UInt32) : orderedRules.Ends s (applyGid gid) (fun _ => c.SameCaps o) fun _ => False := by
  refine .bind (.sys (I := calls) fun current _ => ?_)
  have hs' := hs.next hfix .getgid trivial current
  split
  · exact .bind (.sys (I := calls) fun a _ => .pure (hs'.next hfix (.setgid gid) trivial a))
  · exact .pure hs'

/-- Applying a user id leaves them, and cannot fail. -/
theorem applyUid_ends (hfix : hasBits c.securebits SECBIT_NO_SETUID_FIXUP) (hs : c.SameCaps o s)
    (uid : UInt32) : orderedRules.Ends s (applyUid uid) (fun _ => c.SameCaps o) fun _ => False := by
  refine .bind (.sys (I := calls) fun current _ => ?_)
  have hs' := hs.next hfix .getuid trivial current
  split
  · exact .bind (.sys (I := calls) fun a _ => .pure (hs'.next hfix (.setuid uid) trivial a))
  · exact .pure hs'

/-- The switch of ids always succeeds, and leaves the capability sets alone. -/
theorem applyGidUid_ends (hfix : hasBits c.securebits SECBIT_NO_SETUID_FIXUP)
    (hs : c.SameCaps o s) (gid uid : Option UInt32) (gids : Option (List UInt32)) :
    orderedRules.Ends s (applyGidUid gid uid gids) (fun _ => c.SameCaps o) fun _ => False := by
  refine .bind (Ends.mono (.whenSome (A := fun _ => c.SameCaps o) (fun id _ => ?_) fun _ => hs)
    (fun _ s hs => ?_) fun _ hB => hB)
  · exact applyGid_ends hfix hs id
  · refine .bind (Ends.mono (.whenSome (A := fun _ => c.SameCaps o) (fun ids _ => ?_) fun _ => hs)
      (fun _ s hs => ?_) fun _ hB => hB)
    · exact .bind (.sys (I := calls) fun a _ =>
        .pure (hs.next hfix (.setgroups ids) trivial a))
    · exact .whenSome (fun id _ => applyUid_ends hfix hs id) fun _ => hs

/-- What the request comes to, if there is one. -/
def Cred.ComesTo (c : Cred) (capabilities : Option Capabilities)
    (orders : List (List CapabilityBit)) (ok : Bool) (caps : CapSets CapabilityBit) : Prop :=
  match capabilities with
  | none => ok = true ∧ caps = c.caps
  | some request => request.ComesTo c orders ok caps

/-- The capabilities after the ids were switched are applied to the sets as they were. -/
theorem applyCapabilities_ends {capabilities : Option Capabilities} (hs : c.SameCaps [] s) :
    orderedRules.Ends s (applyCapabilities capabilities)
      (fun _ s => c.ComesTo capabilities s.2 true s.1.caps)
      fun s => c.ComesTo capabilities s.2 false s.1.caps := by
  obtain ⟨s, o⟩ := s
  obtain ⟨hcaps, hbits, rfl⟩ := hs
  cases capabilities with
  | none => exact .pure ⟨rfl, hcaps⟩
  | some request =>
    refine apply_ends.mono (fun _ s' hs' => ?_) fun s' hs' => ?_
    all_goals
      obtain ⟨orders, heq, hcomes⟩ := hs'
      rw [heq]
      exact hcomes.congr hcaps.symm hbits.symm

/-- What `set_keep_caps` and `apply_capabilities` come to. -/
def Cred.Prepares (c : Cred) (capabilities : Option Capabilities)
    (orders : List (List CapabilityBit)) (ok : Bool) (caps : CapSets CapabilityBit) : Prop :=
  if c.maySetSecurebits SECBIT_NO_SETUID_FIXUP then
    Cred.ComesTo { c with securebits := SECBIT_NO_SETUID_FIXUP } capabilities orders ok caps
  else ok = false ∧ caps = c.caps

/-- Two preparations that agree on the orders, or of which one succeeds, agree in the outcome. -/
theorem Cred.Prepares.agree {capabilities : Option Capabilities}
    {orders orders' : List (List CapabilityBit)} {ok ok' : Bool} {caps caps' : CapSets CapabilityBit}
    (hp : c.Prepares capabilities orders ok caps) (hp' : c.Prepares capabilities orders' ok' caps') :
    ok = ok' ∧ (ok = true ∨ orders = orders' → caps = caps') := by
  unfold Cred.Prepares at hp hp'
  split at hp
  · next hmay =>
    rw [if_pos hmay] at hp'
    cases capabilities with
    | none => exact ⟨hp.1.trans hp'.1.symm, fun _ => hp.2.trans hp'.2.symm⟩
    | some request => exact Capabilities.ComesTo.agree (fun _ _ _ => Iff.rfl) hp hp'
  · next hmay =>
    rw [if_neg hmay] at hp'
    exact ⟨hp.1.trans hp'.1.symm, fun _ => hp.2.trans hp'.2.symm⟩

/-- After `set_keep_caps`, whatever leaves the capability sets alone may stand before
    `apply_capabilities`. -/
theorem keepCaps_then_ends {capabilities : Option Capabilities} {p : Sys Unit}
    (hp : ∀ {c : Cred}, hasBits c.securebits SECBIT_NO_SETUID_FIXUP →
      orderedRules.Ends (c, []) p (fun _ => c.SameCaps []) fun _ => False) :
    orderedRules.Ends (c, [])
      (do
        setKeepCaps
        p
        applyCapabilities capabilities)
      (fun _ s => c.Prepares capabilities s.2 true s.1.caps)
      fun s => c.Prepares capabilities s.2 false s.1.caps := by
  refine .bind (setKeepCaps_ends.mono (fun _ s hs => ?_) fun s hs => ?_)
  · -- With the bit set the ids leave the capabilities as they are
    obtain ⟨hmay, rfl⟩ := hs
    have hfix : hasBits SECBIT_NO_SETUID_FIXUP SECBIT_NO_SETUID_FIXUP = true := by decide
    refine .bind ((hp hfix).mono (fun _ s hs => ?_) fun _ hB => hB.elim)
    refine (applyCapabilities_ends hs).mono (fun _ s hcomes => ?_) fun s hcomes => ?_
    · rwa [Cred.Prepares, if_pos hmay]
    · rwa [Cred.Prepares, if_pos hmay]
  · -- The bit may not be set, so nothing is done
    obtain ⟨hmay, rfl⟩ := hs
    rw [Cred.Prepares, if_neg hmay]
    exact ⟨rfl, rfl⟩

/-- A run of such a program comes to what its iteration orders say. -/
theorem keepCaps_then_run {capabilities : Option Capabilities} (p : Sys Unit) {h : List Event}
    {r : Outcome Err Unit}
    (hp : ∀ {c : Cred}, hasBits c.securebits SECBIT_NO_SETUID_FIXUP →
      orderedRules.Ends (c, []) p (fun _ => c.SameCaps []) fun _ => False)
    (hl : exactRules.Lawful c h)
    (hr : (do
      setKeepCaps
      p
      applyCapabilities capabilities : Sys Unit).Runs h r) :
    ∃ ok : Bool, (ok ↔ r = .ok ()) ∧
      c.Prepares capabilities (h.filterMap hashOrder) ok (exactRules.after c h).caps := by
  have hpost := keepCaps_then_ends hp h r (lawful_record.2 hl) hr
  rw [after_record, List.nil_append] at hpost
  -- The outcome is good exactly in the first case
  cases r with
  | ok u => exact ⟨true, by simp, hpost⟩
  | err e => exact ⟨false, by simp, hpost⟩
  | halt n => exact ⟨false, by simp, hpost⟩

end

/-- `preexec_prep` succeeds if and only if `set_keep_caps` and `apply_capabilities` without the
    switch of ids between them do, and leaves the same five sets, if it succeeds or the iteration
    orders of the hash sets are the same. -/
theorem preexecPrep_transparent {c : Cred} {exec : ExecutableSpec}
    {capabilities : Option Capabilities} {h h' : List Event} {r r' : Outcome Err Unit}
    (hl : exactRules.Lawful c h) (hl' : exactRules.Lawful c h')
    (hr : (preexecPrep exec capabilities).Runs h r)
    (hr' : (do
      setKeepCaps
      applyCapabilities capabilities : Sys Unit).Runs h' r') :
    (r = .ok () ↔ r' = .ok ()) ∧
      (r = .ok () ∨ h.filterMap hashOrder = h'.filterMap hashOrder →
        (exactRules.after c h).caps = (exactRules.after c h').caps) := by
  -- The first call is not about capabilities, and the rest is as without the ids
  obtain ⟨u, h₁, rfl, hr₁⟩ := runs_sys_bind.1 hr
  obtain ⟨ok, hok, hcomes⟩ := keepCaps_then_run _
    (fun hfix => applyGidUid_ends hfix ⟨rfl, rfl, rfl⟩ _ _ _) (lawful_cons.1 hl).2 hr₁
  obtain ⟨ok', hok', hcomes'⟩ := keepCaps_then_run (pure ()) (fun _ => .pure ⟨rfl, rfl, rfl⟩)
    hl' hr'
  obtain ⟨hverdict, hcaps⟩ := hcomes.agree hcomes'
  refine ⟨by rw [← hok, ← hok', hverdict], fun hcase => hcaps ?_⟩
  exact hcase.imp hok.2 id

/-- Root becomes `nobody` and keeps `NET_RAW` only, as it would if it stayed root. -/
theorem preexecPrep_transparent_nobody :
    ∃ h h', (preexecPrep { (default : ExecutableSpec) with uid := some 65534, gid := some 65534 }
        (some ⟨some ["NET_RAW"], none, some ["ALL"]⟩)).Runs h (.ok ()) ∧
      (do
        setKeepCaps
        applyCapabilities (some ⟨some ["NET_RAW"], none, some ["ALL"]⟩) : Sys Unit).Runs h'
          (.ok ()) ∧
      (exactRules.after Cred.root h).caps = (exactRules.after Cred.root h').caps := by
  have hrun := eval_runs (credAnswers Cred.root)
    (preexecPrep { (default : ExecutableSpec) with uid := some 65534, gid := some 65534 }
      (some ⟨some ["NET_RAW"], none, some ["ALL"]⟩)) []
  have hrun' := eval_runs (credAnswers Cred.root)
    (do
      setKeepCaps
      applyCapabilities (some ⟨some ["NET_RAW"], none, some ["ALL"]⟩) : Sys Unit) []
  -- One run is computed; the other agrees with it
  have hok : ((preexecPrep { (default : ExecutableSpec) with uid := some 65534, gid := some 65534 }
      (some ⟨some ["NET_RAW"], none, some ["ALL"]⟩)).eval (credAnswers Cred.root) []).2 =
        .ok () := by
    decide
  rw [hok] at hrun
  obtain ⟨hverdict, hcaps⟩ := preexecPrep_transparent (exact_eval_lawful _ _)
    (exact_eval_lawful _ _) hrun hrun'
  rw [hverdict.1 rfl] at hrun'
  exact ⟨_, _, hrun, hrun', hcaps (.inl rfl)⟩

end Styrolite
