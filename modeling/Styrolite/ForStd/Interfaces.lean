import Styrolite.ForStd.Prog

/-!
# Two interfaces side by side

`I.or J` has the calls of both. A program written against `J` runs there as
before (`reaches_inr`); of a history, `rights` are the events of `J`.
-/

namespace Interface

/-- The calls of `I` and those of `J`. -/
def or (I J : Interface) : Interface where
  Call := I.Call ⊕ J.Call
  Answer
    | .inl c => I.Answer c
    | .inr c => J.Answer c

variable {I J : Interface}

/-- An event of the first interface, in both. -/
def Event.inl (e : I.Event) : (I.or J).Event := ⟨.inl e.call, e.answer⟩

/-- An event of the second interface, in both. -/
def Event.inr (e : J.Event) : (I.or J).Event := ⟨.inr e.call, e.answer⟩

/-- Different events stay different in both. -/
theorem inl_injective : Function.Injective (Event.inl : I.Event → (I.or J).Event) := by
  rintro ⟨c, a⟩ ⟨d, b⟩ heq
  cases heq
  rfl

/-- The event of the second interface that this is, if it is one. -/
def Event.right? : (I.or J).Event → Option J.Event
  | ⟨.inl _, _⟩ => none
  | ⟨.inr c, a⟩ => some ⟨c, a⟩

/-- The events of `J`, in their order. -/
def rights (h : List (I.or J).Event) : List J.Event := h.filterMap Event.right?

/-- The empty history has no event of the second interface. -/
@[simp] theorem rights_nil : rights ([] : List (I.or J).Event) = [] := rfl

/-- The events of the second interface in two histories, one after the other. -/
@[simp] theorem rights_append (h h' : List (I.or J).Event) :
    rights (h ++ h') = rights h ++ rights h' := List.filterMap_append

/-- All events are of the second interface if they come from there. -/
@[simp] theorem rights_map_inr (h : List J.Event) :
    rights (h.map Event.inr : List (I.or J).Event) = h := by
  rw [rights, List.filterMap_map]
  exact List.filterMap_some

/-- An event of the first interface is none of the second. -/
@[simp] theorem rights_inl (e : I.Event) (h : List (I.or J).Event) :
    rights (Event.inl e :: h) = rights h := rfl

end Interface

namespace Prog

variable {I J : Interface} {ε α : Type}

/-- The program among the calls of both interfaces. -/
def inr : Prog J ε α → Prog (I.or J) ε α
  | done r => done r
  | call c k => call (I := I.or J) (.inr c) fun a => (k a).inr

/-- A call of `I` among the calls of both interfaces. -/
def sysInl (c : I.Call) : Prog (I.or J) ε (I.Answer c) := sys (I := I.or J) (.inl c)

/-- A program that begins with a call of the first interface is there, or past it. -/
theorem reaches_sysInl_bind {β : Type} {c : I.Call} {k : I.Answer c → Prog (I.or J) ε β}
    {h : List (I.or J).Event} {q : Prog (I.or J) ε β} :
    (sysInl c >>= k).Reaches h q ↔
      (h = [] ∧ q = sysInl c >>= k) ∨ ∃ a h', h = .inl ⟨c, a⟩ :: h' ∧ (k a).Reaches h' q :=
  reaches_call (I := I.or J)

/-- The same for the call it comes to. -/
theorem at_sysInl_bind {β : Type} {c : I.Call} {d : (I.or J).Call}
    {k : I.Answer c → Prog (I.or J) ε β} {h : List (I.or J).Event} :
    (sysInl c >>= k).At h d ↔
      (h = [] ∧ d = .inl c) ∨ ∃ a h', h = .inl ⟨c, a⟩ :: h' ∧ (k a).At h' d :=
  at_call (I := I.or J)

/-- The same for its runs: the call is answered, and the rest runs. -/
theorem runs_sysInl_bind {β : Type} {c : I.Call} {k : I.Answer c → Prog (I.or J) ε β}
    {h : List (I.or J).Event} {r : Outcome ε β} :
    (sysInl c >>= k).Runs h r ↔ ∃ a h', h = .inl ⟨c, a⟩ :: h' ∧ (k a).Runs h' r :=
  runs_call (I := I.or J)

/-- A program that has ended in both has ended. -/
theorem inr_done_inj {p : Prog J ε α} {r : Outcome ε α}
    (hp : (p.inr : Prog (I.or J) ε α) = done r) : p = done r := by
  cases p with
  | done r' =>
    cases hp
    rfl
  | call c k => cases hp

/-- A program of the second interface gets in both as far as it does. -/
theorem Reaches.inr {p q : Prog J ε α} {h : List J.Event} (hr : p.Reaches h q) :
    (p.inr : Prog (I.or J) ε α).Reaches (h.map Interface.Event.inr) q.inr := by
  induction hr with
  | refl p => exact .refl _
  | call _ ih => exact .call (I := I.or J) ih

/-- A program runs among more calls as it does alone. -/
theorem reaches_inr {p : Prog J ε α} {h : List (I.or J).Event} {q : Prog (I.or J) ε α} :
    p.inr.Reaches h q ↔ ∃ h' q', p.Reaches h' q' ∧ h = h'.map Interface.Event.inr ∧ q = q'.inr := by
  constructor
  · intro hr
    induction p generalizing h with
    | done r =>
      obtain ⟨rfl, rfl⟩ := reaches_done.1 hr
      exact ⟨[], _, .refl _, rfl, rfl⟩
    | call c k ih =>
      rcases reaches_call.1 hr with ⟨rfl, rfl⟩ | ⟨a, h', rfl, hr'⟩
      · exact ⟨[], _, .refl _, rfl, rfl⟩
      · obtain ⟨h'', q', hq', rfl, rfl⟩ := ih a hr'
        exact ⟨⟨c, a⟩ :: h'', q', .call hq', rfl, rfl⟩
  · rintro ⟨h', q', hr, rfl, rfl⟩
    exact hr.inr

/-- Its runs in both are its runs. -/
theorem runs_inr {p : Prog J ε α} {h : List (I.or J).Event} {r : Outcome ε α} :
    p.inr.Runs h r ↔ ∃ h', p.Runs h' r ∧ h = h'.map Interface.Event.inr := by
  constructor
  · intro hr
    obtain ⟨h', q', hq', rfl, hq⟩ := reaches_inr.1 hr
    cases inr_done_inj hq.symm
    exact ⟨h', hq', rfl⟩
  · rintro ⟨h', hr, rfl⟩
    exact hr.inr

/-- The calls it comes to in both are those it comes to. -/
theorem at_inr {p : Prog J ε α} {h : List (I.or J).Event} {d : (I.or J).Call} :
    p.inr.At h d ↔ ∃ h' c, p.At h' c ∧ h = h'.map Interface.Event.inr ∧ d = .inr c := by
  constructor
  · rintro ⟨k, hk⟩
    obtain ⟨h', q', hq', rfl, hq⟩ := reaches_inr.1 hk
    cases q' with
    | done r => cases hq
    | call c k' =>
      cases hq
      exact ⟨h', c, ⟨k', hq'⟩, rfl, rfl⟩
  · rintro ⟨h', c, ⟨k, hk⟩, rfl, rfl⟩
    exact ⟨_, hk.inr⟩

end Prog
