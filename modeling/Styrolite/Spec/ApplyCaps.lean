import Mathlib.Data.List.TakeWhile
import Styrolite.ForStd.Triples
import Styrolite.Spec.CapabilityCorrect

/-!
# What `apply_capabilities` comes to

Under a kernel that refuses a capability call only where its rules say so
(`exactRules`), the verdict of `apply_capabilities` and the sets it leaves are a
function of the three sets of capabilities that the request names, but for the
order of the ambient raises, which shows when one of them fails
(`Cred.applied`).

## Key results

- `apply_ends`: `apply_capabilities` comes to `Cred.applied`
- `Cred.applied_order`: the order of the ambient raises does not matter to it
-/

namespace Styrolite

open Prog LocalRules

/-! ## Linux, where it is exact -/

/-- A capability call and `PR_SET_SECUREBITS` fail only if they may not succeed. -/
def Cred.decides (c : Cred) (call : Call) (a : call.Answer) : Prop :=
  match call, a with
  | .capget _, .error _ => False
  | .prSetSecurebits bits, .error _ => ¬ c.allows (.prSetSecurebits bits) (.ok ())
  | .prCapbsetDrop n, .error _ => ¬ c.allows (.prCapbsetDrop n) (.ok ())
  | .prCapAmbient op n, .error _ => ¬ c.allows (.prCapAmbient op n) (.ok ())
  | .capset pid data, .error _ => ¬ c.allows (.capset pid data) (.ok ())
  | _, _ => True

/-- The rules of Linux for credentials, with no other failures of these calls. -/
def exactRules : LocalRules calls Cred where
  allows c call a := c.allows call a ∧ c.decides call a
  next := Cred.next

/-- What the exact rules allow, the rules of the credentials do. -/
theorem exactRules_lawful {c : Cred} {h : List Event} (hl : exactRules.Lawful c h) :
    credRules.Lawful c h := fun h₁ e h₂ heq => (hl h₁ e h₂ heq).1

/-- The iteration order of a `HashSet` of capabilities. -/
def hashOrder : Event → Option (List CapabilityBit)
  | ⟨.capHashIter _, a⟩ => some a.1
  | _ => none

/-- The exact rules, with a record of the iteration orders. -/
abbrev orderedRules : LocalRules calls (Cred × List (List CapabilityBit)) :=
  exactRules.record hashOrder

/-! ## The calls -/

section

variable {c : Cred} {o : List (List CapabilityBit)} {d : CapabilityBit}

/-- Other capability sets, and the rest as it was. -/
def Cred.withCaps (c : Cred) (s : CapSets CapabilityBit) : Cred := { c with caps := s }

/-- The capability sets that were put in. -/
@[simp] theorem Cred.withCaps_caps (c : Cred) (s : CapSets CapabilityBit) :
    (c.withCaps s).caps = s := rfl

/-- The last sets that were put in are there. -/
@[simp] theorem Cred.withCaps_withCaps (c : Cred) (s s' : CapSets CapabilityBit) :
    (c.withCaps s).withCaps s' = c.withCaps s' := rfl

/-- Reading the capability words gives the three sets as masks, and cannot fail. -/
theorem getCaps_ends : orderedRules.Ends (c, o) getCaps
    (fun r s => r = ⟨maskOf c.caps.effective, maskOf c.caps.permitted, maskOf c.caps.inheritable⟩ ∧
      s = (c, o)) fun _ => False := by
  refine .bind (.sys (I := calls) fun pid _ => .bind (.sys (I := calls) fun a ha => ?_))
  cases a with
  | error e => exact ha.2.elim
  | ok data =>
    refine .bind (.mapErr (.check (fun x hx => ?_) fun e he => by cases he))
    cases hx
    refine .pure ⟨?_, by simp [record, exactRules, Cred.next, hashOrder]⟩
    have hdata : data = c.capData := ha.1
    rw [hdata, Cred.capData, capDataToResult_capResultToData]

/-- Dropping a capability from the bounding set takes `CAP_SETPCAP`, and nothing else. -/
theorem dropBounding_ends : orderedRules.Ends (c, o) (dropBounding d)
    (fun _ s => .setpcap ∈ c.caps.effective ∧ s = (c.withCaps (c.caps.dropBounding d), o))
    fun s => .setpcap ∉ c.caps.effective ∧ s = (c, o) := by
  refine .mapErr (.bind (.sys (I := calls) fun a ha => ?_))
  cases a with
  | ok u =>
    refine .check (fun x _ => ⟨ha.1.1, ?_⟩) fun e he => by cases he
    simp [record, exactRules, Cred.next, hashOrder, Cred.withCaps]
  | error e =>
    refine .check (fun x hx => by cases hx) fun _ _ => ⟨fun hin => ha.2 ⟨hin, ?_⟩, ?_⟩
    · simp
    · simp [record, exactRules, Cred.next, hashOrder]

/-- The three sets are set at once, if `capset(2)` allows it of this process. -/
theorem setCaps_ends {r : CapResult} : orderedRules.Ends (c, o) (setCaps r)
    (fun _ s => c.caps.MayCapset (.setpcap ∈ c.caps.effective) (capsOf r.effective)
        (capsOf r.permitted) (capsOf r.inheritable) ∧
      s = (c.withCaps (c.caps.capset (capsOf r.effective) (capsOf r.permitted)
        (capsOf r.inheritable)), o))
    fun s => ¬ c.caps.MayCapset (.setpcap ∈ c.caps.effective) (capsOf r.effective)
        (capsOf r.permitted) (capsOf r.inheritable) ∧ s = (c, o) := by
  refine .bind (.sys (I := calls) fun pid _ => .mapErr (.bind (.sys (I := calls) fun a ha => ?_)))
  -- The process asks for its own number first, which changes nothing
  have hget : orderedRules.next (c, o) .getpid pid = (c, o) := by
    simp [record, exactRules, Cred.next, hashOrder]
  rw [hget] at ha ⊢
  cases a with
  -- An answer is good exactly if the kernel allows the change
  | ok u =>
    refine .check (fun x _ => ⟨?_, ?_⟩) fun e he => by cases he
    · simpa [Cred.allows] using ha.1
    · simp [record, exactRules, Cred.next, hashOrder, Cred.withCaps]
  | error e =>
    refine .check (fun x hx => by cases hx) fun _ _ => ⟨fun hmay => ha.2 ?_, ?_⟩
    · simpa [Cred.allows] using hmay
    · simp [record, exactRules, Cred.next, hashOrder]

/-- Lowering an ambient capability cannot fail. -/
theorem lowerAmbient_ends : orderedRules.Ends (c, o) (lowerAmbient d)
    (fun _ s => s = (c.withCaps (c.caps.lowerAmbient d), o)) fun _ => False := by
  refine .mapErr (.bind (.sys (I := calls) fun a ha => ?_))
  cases a with
  | ok u =>
    refine .check (fun x _ => ?_) fun e he => by cases he
    simp [record, exactRules, Cred.next, hashOrder, Cred.withCaps]
  | error e => exact absurd (by simp [Cred.allows]) ha.2

/-- The ambient capability may be raised. -/
def Cred.mayRaise (c : Cred) (d : CapabilityBit) : Prop :=
  hasBits c.securebits SECBIT_NO_CAP_AMBIENT_RAISE = false ∧ c.caps.MayRaise d

/-- Whether a capability may be raised in the ambient set can be computed. -/
instance (c : Cred) (d : CapabilityBit) : Decidable (c.mayRaise d) :=
  inferInstanceAs (Decidable (_ ∧ _))

/-- Raising an ambient capability succeeds if it may be raised. -/
theorem raiseAmbientBit_ends : orderedRules.Ends (c, o) (raiseAmbientBit d)
    (fun _ s => c.mayRaise d ∧ s = (c.withCaps (c.caps.raiseAmbient d), o))
    fun s => ¬ c.mayRaise d ∧ s = (c, o) := by
  refine .mapErr (.bind (.sys (I := calls) fun a ha => ?_))
  cases a with
  | ok u =>
    refine .check (fun x _ => ⟨?_, ?_⟩) fun e he => by cases he
    · simpa [Cred.allows, Cred.mayRaise] using ha.1
    · simp [record, exactRules, Cred.next, hashOrder, Cred.withCaps]
  | error e =>
    refine .check (fun x hx => by cases hx) fun _ _ => ⟨fun hmay => ha.2 ?_, ?_⟩
    · simpa [Cred.allows, Cred.mayRaise] using hmay
    · simp [record, exactRules, Cred.next, hashOrder]

/-- A list of names becomes its set in some order, or fails on an unknown name. -/
theorem namesAsBits_ends {names : List String} :
    orderedRules.Ends (c, o) (Capabilities.namesAsBits names)
      (fun l s => s = (c, o ++ [l]) ∧ l.Nodup ∧ Capabilities.namesAsSet names = .ok l.toFinset)
      fun s => s = (c, o) ∧ ∃ e, Capabilities.namesAsSet names = .error e := by
  refine .bind (.check (fun caps hcaps => ?_) fun e he => ⟨rfl, e, he⟩)
  refine .bind (.sys (I := calls) fun l _ => .pure ⟨?_, l.2.1, ?_⟩)
  · simp [record, exactRules, Cred.next, hashOrder]
  · rw [hcaps]
    congr 1
    ext d
    rw [List.mem_toFinset, l.2.2 d]

/-! ## The loops -/

/-- Dropping all of a list: it takes `CAP_SETPCAP` if there is one to drop. -/
theorem dropLoop_ends {P : CapabilityBit → Prop} [DecidablePred P] {drops : List CapabilityBit} :
    orderedRules.Ends (c, o) (forM drops fun d => Prog.when (P d) (dropBounding d))
      (fun _ s => ((drops.filter P).toFinset = ∅ ∨ .setpcap ∈ c.caps.effective) ∧
        s = (c.withCaps (c.caps.dropAll (drops.filter P).toFinset), o))
      fun s => ((drops.filter P).toFinset ≠ ∅ ∧ .setpcap ∉ c.caps.effective) ∧ s = (c, o) := by
  refine .forM (J := fun l s => ((l.filter P).toFinset = ∅ ∨ .setpcap ∈ c.caps.effective) ∧
    s = (c.withCaps (c.caps.dropAll (l.filter P).toFinset), o)) (fun l₁ d l₂ s heq hJ => ?_)
    ⟨.inl rfl, by rw [List.filter_nil, List.toFinset_nil, CapSets.dropAll_empty]⟩
  obtain ⟨hcap, rfl⟩ := hJ
  refine .when (fun hP => dropBounding_ends.mono (fun _ s hs => ?_) fun s hs => ?_) fun hP => ?_
  · -- the capability is dropped, which took `CAP_SETPCAP`
    obtain ⟨hset, rfl⟩ := hs
    refine ⟨.inr hset, ?_⟩
    rw [List.filter_append, List.toFinset_append, List.filter_cons_of_pos (by simpa using hP)]
    simp [Cred.withCaps, CapSets.dropBounding_dropAll]
  · -- without `CAP_SETPCAP` none has been dropped before
    obtain ⟨hset, rfl⟩ := hs
    have hnone := hcap.resolve_right hset
    refine ⟨⟨?_, hset⟩, by rw [hnone]; simp [Cred.withCaps]⟩
    rw [heq]
    exact Finset.ne_empty_of_mem (a := d) (by simp [hP])
  · -- The capability is to be kept, and the turn does nothing
    rw [List.filter_append, List.filter_cons_of_neg (by simpa using hP), List.filter_nil,
      List.append_nil]
    exact ⟨hcap, rfl⟩

/-- Lowering all of a list. -/
theorem lowerLoop_ends {drops : List CapabilityBit} :
    orderedRules.Ends (c, o) (forM drops lowerAmbient)
      (fun _ s => s = (c.withCaps (c.caps.lowerAll drops.toFinset), o)) fun _ => False := by
  refine .forM (J := fun l s => s = (c.withCaps (c.caps.lowerAll l.toFinset), o))
    (fun l₁ d l₂ s heq hJ => ?_) (by simp [Cred.withCaps])
  rw [hJ]
  refine lowerAmbient_ends.mono (fun _ s hs => ?_) fun _ hB => hB
  rw [hs, List.toFinset_append]
  simp [Cred.withCaps, CapSets.lowerAmbient_lowerAll]

/-- The ambient raises go on up to the first that fails. -/
theorem raiseLoop_ends {order : List CapabilityBit} :
    orderedRules.Ends (c, o) (forM order raiseAmbientBit)
      (fun _ s => order.takeWhile (c.mayRaise ·) = order ∧
        s = (c.withCaps (c.caps.raiseAll (order.takeWhile (c.mayRaise ·)).toFinset), o))
      fun s => order.takeWhile (c.mayRaise ·) ≠ order ∧
        s = (c.withCaps (c.caps.raiseAll (order.takeWhile (c.mayRaise ·)).toFinset), o) := by
  -- What has been raised so far is taken from the order as a whole
  have htake : ∀ l₁ : List CapabilityBit, (∀ x ∈ l₁, c.mayRaise x) →
      ∀ l₂, (l₁ ++ l₂).takeWhile (c.mayRaise ·) = l₁ ++ l₂.takeWhile (c.mayRaise ·) :=
    fun l₁ hall l₂ => List.takeWhile_append_of_pos fun x hx => by simpa using hall x hx
  -- The loop has raised a beginning of the order, each of which it could raise
  refine Ends.mono (.forM (J := fun l s => (∀ x ∈ l, c.mayRaise x) ∧
    s = (c.withCaps (c.caps.raiseAll l.toFinset), o)) (fun l₁ d l₂ s heq hJ => ?_)
    ⟨by simp, by simp [Cred.withCaps]⟩) (fun _ s hs => ?_) fun _ hB => hB
  · obtain ⟨hall, rfl⟩ := hJ
    -- A raise changes the ambient set only, on which no other depends
    have hsame : (c.withCaps (c.caps.raiseAll l₁.toFinset)).mayRaise d ↔ c.mayRaise d := Iff.rfl
    refine raiseAmbientBit_ends.mono (fun _ s hs => ?_) fun s hs => ?_
    · obtain ⟨hmay, rfl⟩ := hs
      refine ⟨fun x hx => ?_, ?_⟩
      · rcases List.mem_append.1 hx with hx | hx
        · exact hall x hx
        · obtain rfl := List.mem_singleton.1 hx
          exact hsame.1 hmay
      · rw [List.toFinset_append]
        simp [Cred.withCaps, CapSets.raiseAmbient_raiseAll]
    · obtain ⟨hno, rfl⟩ := hs
      -- The first that may not be raised ends both the loop and `takeWhile`
      have hd : (d :: l₂).takeWhile (c.mayRaise ·) = [] :=
        List.takeWhile_cons_of_neg (by simpa using fun hmay => hno (hsame.2 hmay))
      rw [heq, htake l₁ hall, hd, List.append_nil]
      exact ⟨by simp, rfl⟩
  · -- The loop has come to its end, so all of the order could be raised
    obtain ⟨hall, rfl⟩ := hs
    have heq := htake order hall []
    rw [List.append_nil, List.takeWhile_nil, List.append_nil] at heq
    rw [heq]
    exact ⟨rfl, rfl⟩

end

/-! ## The whole function -/

namespace Cred

/-- Whether `apply_capabilities` succeeds, and the sets it leaves, when the ambient raises are
    made in the given order. -/
def applied (c : Cred) (drops raises : Finset CapabilityBit) (order : List CapabilityBit) :
    Bool × CapSets CapabilityBit :=
  let bound := drops \ (raises ∪ order.toFinset)
  let new := (c.caps.effective \ drops) ∪ raises
  if bound ≠ ∅ ∧ .setpcap ∉ c.caps.effective then (false, c.caps)
  else if ¬ (c.caps.dropAll bound).MayCapset (.setpcap ∈ c.caps.effective) new new new then
    (false, c.caps.dropAll bound)
  else
    let s := ((c.caps.dropAll bound).capset new new new).lowerAll drops
    let raised := order.takeWhile ((c.withCaps s).mayRaise ·)
    (raised = order, s.raiseAll raised.toFinset)

/-- Nothing in it depends on the order, but how far the raises get that fail. -/
theorem applied_order {c : Cred} {drops raises : Finset CapabilityBit}
    {order order' : List CapabilityBit} (hsame : order.toFinset = order'.toFinset) :
    (c.applied drops raises order).1 = (c.applied drops raises order').1 ∧
      ((c.applied drops raises order).1 → c.applied drops raises order =
        c.applied drops raises order') := by
  -- Whether all of an order can be raised depends on its set alone
  have htake : ∀ P : CapabilityBit → Bool,
      order.takeWhile P = order ↔ order'.takeWhile P = order' := by
    intro P
    rw [List.takeWhile_eq_self_iff, List.takeWhile_eq_self_iff]
    simp only [← List.mem_toFinset, hsame]
  unfold applied
  rw [hsame]
  dsimp only
  split
  · exact ⟨rfl, fun _ => rfl⟩
  · split
    · exact ⟨rfl, fun _ => rfl⟩
    · refine ⟨decide_eq_decide.2 (htake _), fun hall => ?_⟩
      -- When all are raised, the raised set is the set of the order
      have hall := of_decide_eq_true hall
      simp only [hall, (htake _).1 hall, hsame]

end Cred

namespace Capabilities

/-- The lists of the request stand for these sets. -/
def Denotes (caps : Capabilities) (drops raises ambient : Finset CapabilityBit) : Prop :=
  namesAsSet (caps.drop.getD []) = .ok drops ∧ namesAsSet (caps.raise.getD []) = .ok raises ∧
    namesAsSet (caps.raiseAmbient.getD []) = .ok ambient

/-- The verdict of `apply_capabilities` and the sets it leaves, with the iteration orders of its
    hash sets. -/
inductive ComesTo (caps : Capabilities) (c : Cred) :
    List (List CapabilityBit) → Bool → CapSets CapabilityBit → Prop where
  /-- A name is not known. -/
  | unknown {orders : List (List CapabilityBit)} (hno : ∀ drops raises ambient,
      ¬ caps.Denotes drops raises ambient) : ComesTo caps c orders false c.caps
  | applied {drops raises order : List CapabilityBit} (hnodup : order.Nodup)
      (hsets : caps.Denotes drops.toFinset raises.toFinset order.toFinset) :
      ComesTo caps c [drops, raises, order] (c.applied drops.toFinset raises.toFinset order).1
        (c.applied drops.toFinset raises.toFinset order).2

end Capabilities

section

variable {c : Cred} {o : List (List CapabilityBit)} {caps : Capabilities}

/-- The new effective set: the dropped ones are taken out first, then the raised put in. -/
@[simp] theorem capsOf_newCaps (r : CapResult) (drops raises : List CapabilityBit) :
    capsOf (newCaps r drops raises).effective =
      (capsOf r.effective \ drops.toFinset) ∪ raises.toFinset := by
  ext d
  simp [newCaps, CapabilityBit.inMask_setBits, CapabilityBit.inMask_clearBits]

/-- The calls of `apply_capabilities` once the three sets are collected. -/
theorem applySets_ends (drops raises order : List CapabilityBit) (r : CapResult)
    (hr : capsOf r.effective = c.caps.effective) :
    orderedRules.Ends (c, o)
      (do
        forM drops fun d => Prog.when (d ∉ raises ∧ d ∉ order) (dropBounding d)
        setCaps (newCaps r drops raises)
        forM drops lowerAmbient
        forM order raiseAmbientBit)
      (fun _ s => c.applied drops.toFinset raises.toFinset order = (true, s.1.caps) ∧ s.2 = o)
      fun s => c.applied drops.toFinset raises.toFinset order = (false, s.1.caps) ∧ s.2 = o := by
  have hbound : (drops.filter fun d => d ∉ raises ∧ d ∉ order).toFinset =
      drops.toFinset \ (raises.toFinset ∪ order.toFinset) := by
    ext d
    simp [not_or]
  have he : capsOf (newCaps r drops raises).effective =
      (c.caps.effective \ drops.toFinset) ∪ raises.toFinset := by
    rw [capsOf_newCaps, hr]
  -- the three sets are the same
  have hp : capsOf (newCaps r drops raises).permitted = _ := he
  have hi : capsOf (newCaps r drops raises).inheritable = _ := he
  -- The bounding set first, which leaves the other sets
  refine .bind (dropLoop_ends.mono (fun _ s hs => ?_) fun s hs => ?_)
  · obtain ⟨hcap, rfl⟩ := hs
    rw [hbound] at hcap ⊢
    have hcap' : ¬ (drops.toFinset \ (raises.toFinset ∪ order.toFinset) ≠ ∅ ∧
        .setpcap ∉ c.caps.effective) := by
      tauto
    -- Then the three words, all alike
    refine .bind (setCaps_ends.mono (fun _ s hs => ?_) fun s hs => ?_)
    · obtain ⟨hmay, rfl⟩ := hs
      rw [he, hp, hi] at hmay ⊢
      simp only [Cred.withCaps_caps, Cred.withCaps_withCaps, CapSets.dropAll_effective] at hmay ⊢
      -- And last the ambient set: lowered, then raised in the order
      refine .bind (lowerLoop_ends.mono (fun _ s hs => ?_) fun _ hB => hB.elim)
      rw [hs, Cred.withCaps_caps, Cred.withCaps_withCaps]
      refine raiseLoop_ends.mono (fun _ s hs => ?_) fun s hs => ?_
      all_goals
        obtain ⟨htake, rfl⟩ := hs
        simp only [Cred.withCaps_caps, Cred.withCaps_withCaps]
        unfold Cred.applied
        rw [if_neg hcap', if_neg (not_not.2 hmay)]
        refine ⟨Prod.ext ?_ rfl, trivial⟩
      · exact decide_eq_true htake
      · exact decide_eq_false htake
    · obtain ⟨hmay, rfl⟩ := hs
      rw [he, hp, hi] at hmay
      simp only [Cred.withCaps_caps, CapSets.dropAll_effective] at hmay
      unfold Cred.applied
      rw [if_neg hcap', if_pos hmay]
      exact ⟨rfl, rfl⟩
  · obtain ⟨hcap, rfl⟩ := hs
    rw [hbound] at hcap
    unfold Cred.applied
    rw [if_pos hcap]
    exact ⟨rfl, rfl⟩

/-- `apply` ends as `ComesTo` says of the orders in which it has read the lists. -/
theorem apply_ends : orderedRules.Ends (c, o) caps.apply
    (fun _ s => ∃ orders, s.2 = o ++ orders ∧ caps.ComesTo c orders true s.1.caps)
    fun s => ∃ orders, s.2 = o ++ orders ∧ caps.ComesTo c orders false s.1.caps := by
  refine .bind (getCaps_ends.mono (fun r s hs => ?_) fun _ hB => hB.elim)
  obtain ⟨hcurrent, rfl⟩ := hs
  -- The masks read back give the sets of the process
  have hr : capsOf r.effective = c.caps.effective := by
    rw [hcurrent]
    exact capsOf_maskOf c.caps.effective
  refine .bind (namesAsBits_ends.mono (fun drops s hs => ?_) fun s hs => ?_)
  · obtain ⟨rfl, -, hdrops⟩ := hs
    refine .bind (namesAsBits_ends.mono (fun raises s hs => ?_) fun s hs => ?_)
    · obtain ⟨rfl, -, hraises⟩ := hs
      refine .bind (namesAsBits_ends.mono (fun order s hs => ?_) fun s hs => ?_)
      · obtain ⟨rfl, hnodup, horder⟩ := hs
        -- All three lists are of known names, each in an order that a hash set comes up with
        have hsets : caps.Denotes drops.toFinset raises.toFinset order.toFinset :=
          ⟨hdrops, hraises, horder⟩
        refine (applySets_ends drops raises order r hr).mono (fun _ s hs => ?_) fun s hs => ?_
        all_goals
          obtain ⟨happ, heq⟩ := hs
          refine ⟨[drops, raises, order], by rw [heq]; simp, ?_⟩
          have hcomes := Capabilities.ComesTo.applied (c := c) hnodup hsets
          rwa [happ] at hcomes
      · -- A name of `raise_ambient` is unknown
        obtain ⟨rfl, e, he⟩ := hs
        refine ⟨[drops, raises], by simp, .unknown fun _ _ _ hsets => ?_⟩
        rw [hsets.2.2] at he
        cases he
    · -- A name of `raise` is unknown
      obtain ⟨rfl, e, he⟩ := hs
      refine ⟨[drops], by simp, .unknown fun _ _ _ hsets => ?_⟩
      rw [hsets.2.1] at he
      cases he
  · -- A name of `drop` is unknown
    obtain ⟨rfl, e, he⟩ := hs
    refine ⟨[], by simp, .unknown fun _ _ _ hsets => ?_⟩
    rw [hsets.1] at he
    cases he

/-- A run of `apply_capabilities` comes to what its iteration orders say. -/
theorem apply_comesTo {h : List Event} {r : Outcome Err Unit} (hl : exactRules.Lawful c h)
    (hr : caps.apply.Runs h r) :
    ∃ ok : Bool, (ok ↔ r = .ok ()) ∧
      caps.ComesTo c (h.filterMap hashOrder) ok (exactRules.after c h).caps := by
  have hpost := apply_ends (o := []) h r (lawful_record.2 hl) hr
  rw [after_record, List.nil_append] at hpost
  cases r with
  | ok u =>
    obtain ⟨orders, heq, hcomes⟩ := hpost
    -- The orders are those of the run
    obtain rfl : h.filterMap hashOrder = orders := heq
    exact ⟨true, by simp, hcomes⟩
  | err e =>
    obtain ⟨orders, heq, hcomes⟩ := hpost
    obtain rfl : h.filterMap hashOrder = orders := heq
    exact ⟨false, by simp, hcomes⟩
  | halt n =>
    obtain ⟨orders, heq, hcomes⟩ := hpost
    obtain rfl : h.filterMap hashOrder = orders := heq
    exact ⟨false, by simp, hcomes⟩

end

/-! ## Comparing two runs -/

namespace Capabilities

variable {c c' : Cred} {caps caps' : Capabilities} {orders orders' : List (List CapabilityBit)}
  {ok ok' : Bool} {s s' : CapSets CapabilityBit}

/-- The lists of names denote one set each. -/
theorem Denotes.unique {d d' r r' a a' : Finset CapabilityBit} (hs : caps.Denotes d r a)
    (hs' : caps.Denotes d' r' a') : d = d' ∧ r = r' ∧ a = a' := by
  obtain ⟨hd, hr, ha⟩ := hs
  obtain ⟨hd', hr', ha'⟩ := hs'
  rw [hd] at hd'
  rw [hr] at hr'
  rw [ha] at ha'
  cases hd'
  cases hr'
  cases ha'
  exact ⟨rfl, rfl, rfl⟩

/-- Nothing but the capability sets and the securebits enters into what it comes to. -/
theorem ComesTo.congr (hcaps : c'.caps = c.caps) (hbits : c'.securebits = c.securebits)
    (hc : caps.ComesTo c orders ok s) : caps.ComesTo c' orders ok s := by
  have happlied : ∀ drops raises order, c'.applied drops raises order =
      c.applied drops raises order := by
    intro drops raises order
    -- What may be raised depends on the securebits and the sets, which are the same
    have hmay : ∀ s, (fun d => decide ((c'.withCaps s).mayRaise d)) =
        fun d => decide ((c.withCaps s).mayRaise d) := by
      intro s
      funext d
      refine decide_eq_decide.2 ?_
      show hasBits c'.securebits _ = false ∧ _ ↔ hasBits c.securebits _ = false ∧ _
      rw [hbits]
      rfl
    unfold Cred.applied
    rw [hcaps]
    simp only [hmay]
  cases hc with
  | unknown hno => exact hcaps ▸ .unknown hno
  | applied hnodup hsets => exact happlied _ _ _ ▸ .applied hnodup hsets

/-- Two requests that stand for the same sets come to the same verdict, and to the same sets if
    it is good or the iteration orders are the same. -/
theorem ComesTo.agree (hsame : ∀ d r a, caps.Denotes d r a ↔ caps'.Denotes d r a)
    (hc : caps.ComesTo c orders ok s) (hc' : caps'.ComesTo c orders' ok' s') :
    ok = ok' ∧ (ok = true ∨ orders = orders' → s = s') := by
  -- Either both have an unknown name, or neither
  cases hc with
  | unknown hno =>
    cases hc' with
    | unknown _ => exact ⟨rfl, fun _ => rfl⟩
    | applied _ hsets => exact absurd ((hsame _ _ _).2 hsets) (hno _ _ _)
  | applied hnodup hsets =>
    cases hc' with
    | unknown hno => exact absurd ((hsame _ _ _).1 hsets) (hno _ _ _)
    | applied hnodup' hsets' =>
      -- The sets are the same, and the orders are orders of them
      obtain ⟨hd, hr, ha⟩ := ((hsame _ _ _).1 hsets).unique hsets'
      rw [← hd, ← hr]
      obtain ⟨hverdict, heq⟩ := Cred.applied_order (c := c) ha
      refine ⟨hverdict, fun hcase => ?_⟩
      -- All has been raised, or the orders are the same
      rcases hcase with hok | horders
      · rw [heq hok]
      · simp only [List.cons.injEq, and_true] at horders
        rw [horders.2.2]

end Capabilities

/-! ## Answers that obey the exact rules -/

/-- The answers that succeed where they may refuse nothing else. -/
theorem credAnswers_exact (c₀ : Cred) (h : List Event) (call : Call) :
    exactRules.allows (exactRules.after c₀ h) call (credAnswers c₀ h call) := by
  have hsame : exactRules.after c₀ h = credRules.after c₀ h := rfl
  refine ⟨hsame ▸ credAnswers_allowed c₀ h call, ?_⟩
  rw [hsame]
  unfold credAnswers obeying
  -- By the call: a success is allowed, and a refusal is where it has to be
  generalize credRules.after c₀ h = c
  split
  · next hok =>
    cases call <;> exact trivial
  · next hno =>
    cases call with
    | prSetSecurebits _ => exact hno
    | prCapbsetDrop _ => exact hno
    | prCapAmbient _ _ => exact hno
    | capset _ _ => exact hno
    | _ => exact trivial

end Styrolite
